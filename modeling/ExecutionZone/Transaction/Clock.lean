import ExecutionZone.Programs.Clock
import ExecutionZone.State.Genesis
import ExecutionZone.Transaction.PublicPath

/-!
# The clock transaction

Every block ends with the invocation of the clock program.  In a state whose clock accounts
are as the clock program leaves them (`ClockAt`) the invocation is accepted, and the clock
accounts are so again, one block later (`clockInvocation_accepted`).  All that is used about
the zkVM is that executing the binary of the clock program gives what the guest computes.
-/

namespace ExecutionZone

open CallTree

section

variable [BuiltinPrograms] [InstructionCodec Clock.Instruction]

/-- `clock_invocation`. -/
def clockInvocation (timestamp : Timestamp) : PublicTransaction :=
  ⟨⟨BuiltinPrograms.clock.id, clockProgramAccountIds, [],
    InstructionCodec.toVec (timestamp : Clock.Instruction)⟩, []⟩

/-- The clock accounts are owned by the clock program, and the first one holds `d`. -/
structure ClockAt (st : V03State) (d : ClockAccountData) : Prop where
  owner : ∀ id ∈ clockProgramAccountIds,
    (st.getAccountById id).programOwner = BuiltinPrograms.clock.id
  data : (st.getAccountById clock01ProgramAccountId).data = d.toData

omit [InstructionCodec Clock.Instruction] in
/-- At genesis the clock stands at block `0`. -/
theorem clockAt_genesis [Sha256] {initialData : List (AccountId × U128)}
    {notes : List (Commitment × Nullifier)} {genesisTimestamp : Timestamp} {st : V03State}
    (h : V03State.newWithGenesisAccounts initialData notes genesisTimestamp = .ok st) :
    ClockAt st ⟨0, genesisTimestamp⟩ := by
  constructor
  · intro id hid
    rw [clock_genesis h hid]
    rfl
  · have hclock : st.getAccountById clock01ProgramAccountId = genesisClockAccount genesisTimestamp :=
      clock_genesis h List.mem_cons_self
    rw [hclock]
    rfl

/-! ## One invocation -/

/-- What the clock program reads. -/
def clockInput (st : V03State) (timestamp : Timestamp) : GuestInput :=
  ⟨BuiltinPrograms.clock.id, none,
    clockProgramAccountIds.map fun id => ⟨st.getAccountById id, false, id⟩,
    InstructionCodec.toVec (timestamp : Clock.Instruction)⟩

/-- A clock account after the block `d`. -/
def clockPost (st : V03State) (d : ClockAccountData) (p : AccountId × Nat) : Account :=
  Clock.updateIfMultiple (st.getAccountById p.1) p.2 d.blockId d.toData

/-- What the clock program returns. -/
def clockOutput (st : V03State) (d : ClockAccountData) : ProgramOutput :=
  (clockInput st d.timestamp).output (clockAccounts.map fun p => .new (clockPost st d p)) []

def clockCall (st : V03State) (timestamp : Timestamp) : PendingCall :=
  ⟨⟨BuiltinPrograms.clock.id,
    clockProgramAccountIds.map fun id => ⟨st.getAccountById id, false, id⟩,
    InstructionCodec.toVec (timestamp : Clock.Instruction), []⟩, none, ∅⟩

omit [BuiltinPrograms] [InstructionCodec Clock.Instruction] in
/-- What becomes of the clock accounts. -/
def clockDiff (st : V03State) (d : ClockAccountData) : Accounts :=
  Ledger.insertAll ∅ (clockAccounts.map fun p => (p.1, clockPost st d p))

variable {st : V03State} {d : ClockAccountData} {next : BlockId}

theorem main_clockInput (h : ClockAt st d) (hnext : Clock.nextBlockId d.blockId = some next)
    (timestamp : Timestamp) :
    Clock.main (clockInput st timestamp) = .ok (clockOutput st ⟨next, timestamp⟩) := by
  have hread : readInstruction Clock.Instruction (clockInput st timestamp).instructionData =
      .ok timestamp := by
    rw [readInstruction, clockInput, InstructionCodec.deserialize_toVec]
    rfl
  have hpres : (clockInput st timestamp).preStates =
      [⟨st.getAccountById clock01ProgramAccountId, false, clock01ProgramAccountId⟩,
        ⟨st.getAccountById clock10ProgramAccountId, false, clock10ProgramAccountId⟩,
        ⟨st.getAccountById clock50ProgramAccountId, false, clock50ProgramAccountId⟩] := rfl
  simp only [Clock.main, hread, hpres, bind_eq_ok, ensure_eq_ok, expect_eq_ok, exists_const, pure,
    Except.pure, Except.ok.injEq, exists_eq_left']
  refine ⟨rfl, ?_, d, ?_, next, hnext, rfl⟩
  · intro pre hpre
    rw [← hpres] at hpre
    obtain ⟨id, hid, rfl⟩ := List.mem_map.1 hpre
    exact h.owner id hid
  · rw [h.data]
    exact ClockAccountData.fromBytes_toBytes d

theorem zipped_clockOutput {p : AccountWithMetadata × AccountPostState}
    (hp : p ∈ (clockOutput st d).zipped) :
    ∃ q ∈ clockAccounts, p = (⟨st.getAccountById q.1, false, q.1⟩, .new (clockPost st d q)) := by
  simp only [ProgramOutput.zipped, clockOutput, GuestInput.output, ProgramOutput.withChainedCalls,
    ProgramOutput.new, clockInput, ← clockAccounts_fst, List.map_map, List.zip_map'] at hp
  obtain ⟨q, hq, rfl⟩ := List.mem_map.1 hp
  exact ⟨q, hq, rfl⟩

/-- The output passes the rules for executions: the clock program owns what it writes. -/
theorem validateExecution_clockOutput (h : ClockAt st d)
    (howner : BuiltinPrograms.clock.id ≠ defaultProgramId) (d' : ClockAccountData) :
    validateExecution (clockOutput st d').preStates (clockOutput st d').postStates
      BuiltinPrograms.clock.id = .ok () := by
  have hbalances : (clockOutput st d').postStates.map (·.account.balance) =
      (clockOutput st d').preStates.map (·.account.balance) := by
    simp [clockOutput, GuestInput.output, ProgramOutput.withChainedCalls, ProgramOutput.new,
      clockInput, clockPost, ← clockAccounts_fst]
  obtain ⟨total, htotal⟩ := WrappedBalanceSum.exists_fromBalances
    (l := (clockOutput st d').preStates.map (·.account.balance)) (show 3 < 2 ^ 128 by decide)
  have htotal : totalBalance ((clockOutput st d').preStates.map (·.account.balance)) =
      .ok total := by
    rw [totalBalance, htotal]
  simp only [validateExecution, bind_eq_ok, ensure_eq_ok, exists_const, forM_eq_ok, hbalances,
    htotal, Except.ok.injEq, exists_eq_left', and_true]
  refine ⟨rfl, rfl, fun p hp => ?_⟩
  obtain ⟨q, hq, rfl⟩ := zipped_clockOutput hp
  have hclock : (st.getAccountById q.1).programOwner = BuiltinPrograms.clock.id :=
    h.owner q.1 (clockAccounts_fst ▸ List.mem_map_of_mem hq)
  simp only [validatePair, bind_eq_ok, ensure_eq_ok, exists_const, AccountPostState.new_account,
    clockPost, Clock.updateIfMultiple_nonce, Clock.updateIfMultiple_programOwner,
    Clock.updateIfMultiple_balance, hclock, true_and]
  exact ⟨fun hlt => absurd hlt (BitVec.lt_irrefl _), fun _ _ => trivial,
    fun hdefault => absurd hdefault howner⟩

omit [InstructionCodec Clock.Instruction] in
theorem clockPost_programOwner (h : ClockAt st d) (d' : ClockAccountData) {p : AccountId × Nat}
    (hp : p ∈ clockAccounts) : (clockPost st d' p).programOwner = BuiltinPrograms.clock.id := by
  rw [clockPost, Clock.updateIfMultiple_programOwner]
  exact h.owner p.1 (clockAccounts_fst ▸ List.mem_map_of_mem hp)

omit [BuiltinPrograms] [InstructionCodec Clock.Instruction] in
theorem mem_of_lookup_clockDiff {id : AccountId} {post : Account}
    (h : (clockDiff st d).lookup id = some post) :
    ∃ p ∈ clockAccounts, p.1 = id ∧ clockPost st d p = post := by
  rcases Ledger.mem_or_lookup_of_insertAll h with hmem | hlookup
  · obtain ⟨p, hp, heq⟩ := List.mem_map.1 hmem
    exact ⟨p, hp, congrArg Prod.fst heq, congrArg Prod.snd heq⟩
  · cases hlookup

variable [Sha256] [Zkvm]

omit [Zkvm] in
theorem initialCall_clockInvocation (st : V03State) (timestamp : Timestamp) :
    (clockInvocation timestamp).initialCall st = clockCall st timestamp := by
  simp [PublicTransaction.initialCall, clockInvocation, inputPreStates, clockCall,
    PublicTransaction.signerAccountIds, signerAccountIds]

/-- Executing the call passes all checks. -/
theorem executeCall_clockCall (h : ClockAt st d)
    (hnext : Clock.nextBlockId d.blockId = some next)
    (hexecutes : ∀ input out, Clock.main input = .ok out →
      Zkvm.execute BuiltinPrograms.clock.elf input = .ok out)
    (hdeployed : st.programs.lookup BuiltinPrograms.clock.id = some BuiltinPrograms.clock)
    (howner : BuiltinPrograms.clock.id ≠ defaultProgramId) (blockId : BlockId)
    (timestamp : Timestamp) :
    executeCall st blockId timestamp (clockCall st timestamp) ∅ =
      .ok (clockOutput st ⟨next, timestamp⟩, clockDiff st ⟨next, timestamp⟩) := by
  have hout : (clockCall st timestamp).output st = .ok (clockOutput st ⟨next, timestamp⟩) := by
    simp only [PendingCall.output, clockCall, hdeployed, Program.execute, mapError_eq_ok]
    exact hexecutes _ _ (main_clockInput h hnext timestamp)
  simp only [executeCall, bind_eq_ok, mapError_eq_ok, forM_eq_ok, pure, Except.pure,
    Except.ok.injEq, Prod.mk.injEq]
  refine ⟨_, hout, (), ?_, (), ?_, clockAccounts.map (clockPost st ⟨next, timestamp⟩), ?_, rfl,
    rfl⟩
  · intro pre hpre
    obtain ⟨id, _, rfl⟩ := List.mem_map.1 hpre
    simp only [checkPreState, bind_eq_ok, ensure_eq_ok, exists_const, Ledger.overlay_empty]
    exact ⟨rfl, fun hmark => by cases hmark⟩
  · simp only [checkOutput, bind_eq_ok, ensure_eq_ok, exists_const, mapError_eq_ok]
    exact ⟨rfl, rfl, (), validateExecution_clockOutput h howner _, rfl, rfl⟩
  · rfl

variable [Schnorr]

/-- The invocation is valid. -/
theorem fromPublicTransaction_clockInvocation (h : ClockAt st d)
    (hnext : Clock.nextBlockId d.blockId = some next)
    (hexecutes : ∀ input out, Clock.main input = .ok out →
      Zkvm.execute BuiltinPrograms.clock.elf input = .ok out)
    (hdeployed : st.programs.lookup BuiltinPrograms.clock.id = some BuiltinPrograms.clock)
    (howner : BuiltinPrograms.clock.id ≠ defaultProgramId) (blockId : BlockId)
    (timestamp : Timestamp) :
    fromPublicTransaction (clockInvocation timestamp) st blockId timestamp =
      .ok ⟨[], clockDiff st ⟨next, timestamp⟩, [], [], none⟩ := by
  simp only [fromPublicTransaction, bind_eq_ok, mapError_eq_ok, pure, Except.pure,
    Except.ok.injEq]
  refine ⟨(), ?_, clockDiff st ⟨next, timestamp⟩, ?_, (), ?_, rfl⟩
  · simp only [PublicTransaction.checkMessage, bind_eq_ok, ensure_eq_ok, exists_const]
    exact ⟨toFinset_card_eq_length_iff.2 clockProgramAccountIds_nodup, rfl, rfl, rfl⟩
  · rw [initialCall_clockInvocation]
    exact Machine.run_leaf
      (executeCall_clockCall h hnext hexecutes hdeployed howner blockId timestamp) rfl
  · simp only [checkDefaultAccountsClaimed, forM_eq_ok, ensure_eq_ok]
    rintro ⟨id, post⟩ hmem _ _
    obtain ⟨p, hp, rfl, rfl⟩ := mem_of_lookup_clockDiff (Ledger.mem_pairs.1 hmem)
    rw [clockPost_programOwner h _ hp]
    exact howner

/-- **The clock.**  Where the clock accounts are as the clock program leaves them, its
invocation is accepted and they are so again, one block later. -/
theorem clockInvocation_accepted (h : ClockAt st d)
    (hnext : Clock.nextBlockId d.blockId = some next)
    (hexecutes : ∀ input out, Clock.main input = .ok out →
      Zkvm.execute BuiltinPrograms.clock.elf input = .ok out)
    (hdeployed : st.programs.lookup BuiltinPrograms.clock.id = some BuiltinPrograms.clock)
    (howner : BuiltinPrograms.clock.id ≠ defaultProgramId) (blockId : BlockId)
    (timestamp : Timestamp) :
    ∃ st', st.transitionFromPublicTransaction (clockInvocation timestamp) blockId timestamp =
        .ok st' ∧
      ClockAt st' ⟨next, timestamp⟩ ∧ st'.programs = st.programs := by
  have hdiff := fromPublicTransaction_clockInvocation h hnext hexecutes hdeployed howner blockId
    timestamp
  have happly : ∃ st', st.applyStateDiff ⟨[], clockDiff st ⟨next, timestamp⟩, [], [], none⟩ =
      .ok st' := ⟨_, rfl⟩
  obtain ⟨st', happly⟩ := happly
  have hget : ∀ p ∈ clockAccounts, st'.getAccountById p.1 = clockPost st ⟨next, timestamp⟩ p := by
    intro p hp
    rw [(V03State.getAccountById_applyStateDiff happly p.1).2 List.not_mem_nil]
    refine Ledger.overlay_insertAll_of_mem ?_ (List.mem_map_of_mem hp)
    rw [List.map_map]
    exact clockProgramAccountIds_nodup
  refine ⟨st', bind_eq_ok.2 ⟨_, hdiff, mapError_eq_ok.2 happly⟩, ⟨?_, ?_⟩,
    (V03State.applyStateDiff_eq_ok happly).2.2.2⟩
  · rw [← clockAccounts_fst, List.forall_mem_map]
    intro p hp
    rw [hget p hp, clockPost_programOwner h _ hp]
  · rw [hget (clock01ProgramAccountId, 1) List.mem_cons_self, clockPost,
      Clock.updateIfMultiple_one]

end

end ExecutionZone
