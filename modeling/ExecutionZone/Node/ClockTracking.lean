import ExecutionZone.Node.Agreement
import ExecutionZone.Transaction.Faucet
import ExecutionZone.Transaction.Nonces

/-!
# The clock accounts and the chain

The clock program counts on its own: it is not told the id of the block it runs in.  That its
accounts show the last block, and the last block divisible by their interval
(`clock_accounts_track_chain`), needs that it runs once for every block, at the end, and that
nothing else writes to its accounts.  User transactions are kept from it by the last check of
`validate_on_state`.  The transactions of the genesis block are not checked: there the
argument is that they call the faucet program, the vault program and the owner of the faucet
account, with two accounts each, and the clock program wants three.
-/

namespace ExecutionZone

open CallTree

/-! ## What the accounts show -/

/-- The timestamp of the block `m`, where `0` stands for the time of the genesis state. -/
def timestampAt (genesisTimestamp : Timestamp) (blocks : List Block) : Nat → Timestamp
  | 0 => genesisTimestamp
  | m + 1 => (blocks[m]?.map (·.header.timestamp)).getD 0

/-- What a clock account with the given interval shows after the blocks: the largest multiple
of the interval that is not above their number, and the timestamp of that block. -/
def clockReading (genesisTimestamp : Timestamp) (blocks : List Block) (interval : Nat) :
    ClockAccountData :=
  let m := interval * (blocks.length / interval)
  ⟨UInt64.ofNat m, timestampAt genesisTimestamp blocks m⟩

section

variable {genesisTimestamp : Timestamp} {blocks : List Block} {b : Block}

theorem timestampAt_concat_of_le {m : Nat} (h : m ≤ blocks.length) :
    timestampAt genesisTimestamp (blocks ++ [b]) m = timestampAt genesisTimestamp blocks m := by
  cases m with
  | zero => rfl
  | succ m => rw [timestampAt, timestampAt, Replay.getElem?_concat, if_neg (Nat.ne_of_lt h)]

theorem timestampAt_concat_length :
    timestampAt genesisTimestamp (blocks ++ [b]) (blocks.length + 1) = b.header.timestamp := by
  rw [timestampAt, List.getElem?_concat_length]
  rfl

theorem clockReading_nil (interval : Nat) :
    clockReading genesisTimestamp [] interval = ⟨0, genesisTimestamp⟩ := by
  rw [clockReading, List.length_nil, Nat.zero_div, Nat.mul_zero]
  rfl

theorem clockReading_one :
    clockReading genesisTimestamp blocks 1 =
      ⟨UInt64.ofNat blocks.length, timestampAt genesisTimestamp blocks blocks.length⟩ := by
  rw [clockReading, Nat.div_one, Nat.one_mul]

/-- A block whose number is divisible by the interval is shown. -/
theorem clockReading_concat_of_dvd {interval : Nat} (h : interval ∣ blocks.length + 1) :
    clockReading genesisTimestamp (blocks ++ [b]) interval =
      ⟨UInt64.ofNat (blocks.length + 1), b.header.timestamp⟩ := by
  rw [clockReading, List.length_append, List.length_singleton, Nat.mul_div_cancel' h,
    timestampAt_concat_length]

/-- Any other block is not. -/
theorem clockReading_concat_of_not_dvd {interval : Nat} (h : ¬interval ∣ blocks.length + 1) :
    clockReading genesisTimestamp (blocks ++ [b]) interval =
      clockReading genesisTimestamp blocks interval := by
  rw [clockReading, List.length_append, List.length_singleton, Nat.succ_div_of_not_dvd h,
    timestampAt_concat_of_le (Nat.mul_div_le _ _), clockReading]

end

section

variable [BuiltinPrograms]

/-- The clock accounts are owned by the clock program and show the blocks. -/
structure ClockTracks (genesisTimestamp : Timestamp) (blocks : List Block) (st : V03State) :
    Prop where
  owner : ∀ id ∈ clockProgramAccountIds,
    (st.getAccountById id).programOwner = BuiltinPrograms.clock.id
  data : ∀ p ∈ clockAccounts, (st.getAccountById p.1).data =
    (clockReading genesisTimestamp blocks p.2).toData

variable {genesisTimestamp : Timestamp} {blocks : List Block} {b : Block} {st st' : V03State}

theorem ClockTracks.clockAt (h : ClockTracks genesisTimestamp blocks st) :
    ClockAt st
      ⟨UInt64.ofNat blocks.length, timestampAt genesisTimestamp blocks blocks.length⟩ := by
  refine ⟨h.owner, ?_⟩
  rw [h.data (clock01ProgramAccountId, 1) List.mem_cons_self, clockReading_one]

/-- All that is used of the accounts is their owner and their data. -/
theorem ClockTracks.of_fields (h : ClockTracks genesisTimestamp blocks st)
    (hfields : ∀ id ∈ clockProgramAccountIds,
      (st'.getAccountById id).programOwner = (st.getAccountById id).programOwner ∧
        (st'.getAccountById id).data = (st.getAccountById id).data) :
    ClockTracks genesisTimestamp blocks st' := by
  refine ⟨fun id hid => (hfields id hid).1.trans (h.owner id hid), fun p hp => ?_⟩
  exact (hfields p.1 (clockAccounts_fst ▸ List.mem_map_of_mem hp)).2.trans (h.data p hp)

variable [Sha256] [Zkvm] [Schnorr] {blockId : BlockId} {timestamp : Timestamp}

/-! ## The clock invocation -/

section

variable [InstructionCodec Clock.Instruction] {d : ClockAccountData} {next : BlockId}

/-- An invocation that is accepted leaves what the clock program returns. -/
theorem fields_of_clockInvocation (himpl : BuiltinPrograms.clock.Implements Clock.main)
    (hdeployed : st.programs.lookup BuiltinPrograms.clock.id = some BuiltinPrograms.clock)
    (hat : ClockAt st d) (hnext : Clock.nextBlockId d.blockId = some next)
    (h : st.transitionFromPublicTransaction (clockInvocation timestamp) blockId timestamp =
      .ok st') {p : AccountId × Nat} (hp : p ∈ clockAccounts) :
    (st'.getAccountById p.1).programOwner = (clockPost st ⟨next, timestamp⟩ p).programOwner ∧
      (st'.getAccountById p.1).data = (clockPost st ⟨next, timestamp⟩ p).data := by
  obtain ⟨diff, hruns, hget⟩ := runs_of_transition h
  rw [initialCall_clockInvocation] at hruns
  generalize executedCalls (clockInvocation timestamp) st blockId timestamp = calls at hruns
  cases hruns with
  | @cons _ _ _ _ out diff' calls diff hstep hrest =>
      have hcall := validCall_of_executeCall hstep
      obtain rfl : clockOutput st ⟨next, timestamp⟩ = out := by
        have hmain := main_of_executed himpl hdeployed rfl hcall.output
        exact Except.ok.inj ((main_clockInput hat hnext timestamp).symm.trans hmain)
      -- the clock program chains no call
      obtain ⟨⟩ : (publicMachine st blockId timestamp).Runs [] diff' calls diff := hrest
      have hpost : Ledger.overlay Account.default st.publicState diff p.1 =
          clockPost st ⟨next, timestamp⟩ p := by
        rcases hcall.account p.1 with ⟨hnotMem, _⟩ | ⟨pre, post, hmem, hid, _, hgranted⟩
        · refine absurd ?_ hnotMem
          rw [show (clockOutput st ⟨next, timestamp⟩).preStates.map (·.accountId) =
            clockProgramAccountIds from rfl, ← clockAccounts_fst]
          exact List.mem_map_of_mem hp
        · obtain ⟨q, hq, heq⟩ := zipped_clockOutput hmem
          cases heq
          obtain rfl : q = p :=
            List.inj_on_of_nodup_map (clockAccounts_fst ▸ clockProgramAccountIds_nodup) hq hp hid
          generalize Ledger.overlay Account.default st.publicState diff q.1 = account
            at hgranted ⊢
          cases hgranted with
          | unclaimed => rfl
          | claimed hclaim => cases hclaim
      rw [hget p.1, hpost]
      exact ⟨rfl, rfl⟩

/-- **Step.**  The clock invocation at the end of a block. -/
theorem ClockTracks.applyClock (himpl : BuiltinPrograms.clock.Implements Clock.main)
    (hdeployed : st.programs.lookup BuiltinPrograms.clock.id = some BuiltinPrograms.clock)
    (h : ClockTracks genesisTimestamp blocks st) (hlen : blocks.length + 1 < 2 ^ 64)
    (happly : b.header.applyClock st = some st') :
    ClockTracks genesisTimestamp (blocks ++ [b]) st' := by
  have hfields {p : AccountId × Nat} (hp : p ∈ clockAccounts) :=
    fields_of_clockInvocation himpl hdeployed h.clockAt (Clock.nextBlockId_ofNat hlen)
      (toOption_eq_some.1 happly) hp
  constructor
  · rw [← clockAccounts_fst, List.forall_mem_map]
    intro p hp
    rw [(hfields hp).1, clockPost_programOwner h.clockAt _ hp]
  · intro p hp
    rw [(hfields hp).2, clockPost, Clock.updateIfMultiple, UInt64.toNat_ofNat_of_lt' hlen]
    split
    · rename_i hmod
      rw [clockReading_concat_of_dvd (Nat.dvd_of_mod_eq_zero hmod)]
    · rename_i hmod
      rw [clockReading_concat_of_not_dvd fun hdvd => hmod (Nat.mod_eq_zero_of_dvd hdvd)]
      exact h.data p hp

end

/-! ## User transactions -/

/-- **User transactions.**  One that is executed leaves a clock account that does not sign it
as it is. -/
theorem clock_of_executeCheckOnState {tx : NSSATransaction}
    (h : tx.executeCheckOnState st blockId timestamp = .ok st') {id : AccountId}
    (hid : id ∈ clockProgramAccountIds) (hsigner : id ∉ tx.signerAccountIds) :
    st'.getAccountById id = st.getAccountById id := by
  simp only [NSSATransaction.executeCheckOnState, NSSATransaction.validateOnState, bind_eq_ok,
    mapError_eq_ok, NSSATransaction.checkClockUntouched, ensure_eq_ok, exists_const, pure,
    Except.pure, Except.ok.injEq] at h
  obtain ⟨_, ⟨_, _, diff, hdiff, huntouched, rfl⟩, happly⟩ := h
  rw [← signerAccountIds_of_stateDiff hdiff] at hsigner
  rw [(V03State.getAccountById_applyStateDiff happly id).2 hsigner, Ledger.overlay]
  cases hlookup : diff.publicDiff.lookup id with
  | none => rfl
  | some post => exact huntouched id hid post hlookup

/-- The same of a transaction of a block after the genesis block, which also leaves the
built-in programs deployed. -/
theorem clock_of_applyTransaction {header : BlockHeader} {tx : NSSATransaction}
    (hheader : header.blockId ≠ genesisBlockId)
    (hsigners : ∀ id ∈ tx.signerAccountIds, id ∉ clockProgramAccountIds)
    (h : header.applyTransaction st tx = some st') :
    (∀ id ∈ clockProgramAccountIds, st'.getAccountById id = st.getAccountById id) ∧
      (BuiltinsDeployed st → BuiltinsDeployed st') := by
  unfold BlockHeader.applyTransaction at h
  rw [if_neg hheader] at h
  obtain ⟨checked, hchecked, h⟩ := Option.bind_eq_some_iff.1 h
  have hexecute := toOption_eq_some.1 h
  obtain rfl := eq_of_transactionStatelessCheck (toOption_eq_some.1 hchecked)
  refine ⟨fun id hid => ?_, fun hst => hst.step (accepted_of_executeCheckOnState hexecute)⟩
  exact clock_of_executeCheckOnState hexecute hid fun hmem => hsigners id hmem hid

/-! ## Blocks -/

section

variable [InstructionCodec Clock.Instruction]

/-- **Step.**  A block after the genesis block. -/
theorem ClockTracks.apply (himpl : BuiltinPrograms.clock.Implements Clock.main)
    (h : ClockTracks genesisTimestamp blocks st) (hdeployed : BuiltinsDeployed st)
    (hpos : 0 < blocks.length) (hid : b.header.blockId.toNat = blocks.length + 1)
    (hsigners : ∀ tx ∈ b.transactions, ∀ id ∈ tx.signerAccountIds, id ∉ clockProgramAccountIds)
    (happly : b.apply st = some st') :
    ClockTracks genesisTimestamp (blocks ++ [b]) st' ∧ BuiltinsDeployed st' := by
  obtain ⟨_, mid, hfold, hclock⟩ := Block.apply_eq_some.1 happly
  have hheader : b.header.blockId ≠ genesisBlockId := by
    intro heq
    rw [heq, show genesisBlockId.toNat = 1 from rfl] at hid
    omega
  have husers : ClockTracks genesisTimestamp blocks mid ∧ BuiltinsDeployed mid := by
    refine Replay.invariant_of_replay (I := fun st => ClockTracks genesisTimestamp blocks st ∧
      BuiltinsDeployed st) (fun s s' tx htx hs hstep => ?_) ⟨h, hdeployed⟩ hfold
    obtain ⟨hsame, hbuiltins⟩ :=
      clock_of_applyTransaction hheader (hsigners tx (List.mem_of_mem_dropLast htx)) hstep
    refine ⟨hs.1.of_fields fun id hid => ?_, hbuiltins hs.2⟩
    rw [hsame id hid]
    exact ⟨rfl, rfl⟩
  have hlen : blocks.length + 1 < 2 ^ 64 := hid ▸ b.header.blockId.toNat_lt
  refine ⟨husers.1.applyClock himpl (husers.2 _ List.mem_cons_self) hlen hclock, ?_⟩
  intro program hprogram
  rw [programs_of_transitionFromPublicTransaction (toOption_eq_some.1 hclock)]
  exact husers.2 program hprogram

/-- **Run.**  The blocks after the genesis block. -/
theorem ClockTracks.replay (himpl : BuiltinPrograms.clock.Implements Clock.main)
    (h : ClockTracks genesisTimestamp blocks st) (hdeployed : BuiltinsDeployed st)
    (hpos : 0 < blocks.length) {produced : List Block}
    (hids : ConsecutiveBlocks (blocks ++ produced))
    (hsigners : ∀ b ∈ produced, ∀ tx ∈ b.transactions, ∀ id ∈ tx.signerAccountIds,
      id ∉ clockProgramAccountIds)
    (hreplay : Replay.replay Block.apply st produced = some st') :
    ClockTracks genesisTimestamp (blocks ++ produced) st' := by
  induction produced generalizing blocks st with
  | nil =>
      cases hreplay
      rwa [List.append_nil]
  | cons b produced ih =>
      obtain ⟨st₁, happly, hrest⟩ := Option.bind_eq_some_iff.1 hreplay
      have hid : b.header.blockId.toNat = blocks.length + 1 := by
        refine hids blocks.length b ?_
        rw [List.getElem?_append_right le_rfl, Nat.sub_self]
        rfl
      obtain ⟨htracks, hbuiltins⟩ :=
        h.apply himpl hdeployed hpos hid (hsigners b List.mem_cons_self) happly
      rw [List.append_cons] at hids ⊢
      refine ih htracks hbuiltins ?_ hids (fun b' hb' => hsigners b' (List.mem_cons_of_mem _ hb'))
        hrest
      rw [List.length_append]
      exact Nat.add_pos_left hpos _

end

/-! ## The genesis block -/

section

variable [InstructionCodec Clock.Instruction] [InstructionCodec AuthenticatedTransfer.Instruction]
  [InstructionCodec Vault.Instruction] [InstructionCodec Faucet.Instruction]

omit [Schnorr] in
/-- The binaries of the clock and of the programs genesis transactions run are those of the
guests. -/
structure GuestBinaries : Prop where
  clock : BuiltinPrograms.clock.Implements Clock.main
  transfer : BuiltinPrograms.authenticatedTransfer.Implements AuthenticatedTransfer.main
  vault : BuiltinPrograms.vault.Implements Vault.main
  faucet : BuiltinPrograms.faucet.Implements Faucet.main

omit [Zkvm] [Schnorr] [InstructionCodec Clock.Instruction]
  [InstructionCodec AuthenticatedTransfer.Instruction] in
/-- The calls of a genesis transaction: to the faucet program, from there to the vault program,
and from there to the owner of the faucet account. -/
inductive SupplyCall (st : V03State) (accountId : AccountId) (balance : U128) :
    PendingCall → Prop
  | faucet {c : PendingCall} {faucet recipientVault : AccountWithMetadata}
      (hprogram : c.call.programId = BuiltinPrograms.faucet.id)
      (hpres : c.call.preStates = [faucet, recipientVault])
      (haccount : faucet.account = st.getAccountById systemFaucetAccountId)
      (hinstruction : c.call.instructionData = InstructionCodec.toVec
        (⟨BuiltinPrograms.vault.id, accountId, balance⟩ : Faucet.Instruction)) :
      SupplyCall st accountId balance c
  | vault {c : PendingCall} {faucet recipientVault : AccountWithMetadata}
      (hprogram : c.call.programId = BuiltinPrograms.vault.id)
      (hpres : c.call.preStates = [faucet, recipientVault])
      (haccount : faucet.account = st.getAccountById systemFaucetAccountId)
      (hinstruction : c.call.instructionData = InstructionCodec.toVec
        (Vault.Instruction.transfer accountId balance)) : SupplyCall st accountId balance c
  | owner {c : PendingCall}
      (hprogram : c.call.programId = (st.getAccountById systemFaucetAccountId).programOwner)
      (hlen : c.call.preStates.length = 2) : SupplyCall st accountId balance c

/-- What holds before and between the genesis transactions.  The faucet account belongs to the
transfer program, unless its id is that of a clock account. -/
structure BeforeBlocks (genesisTimestamp : Timestamp) (st : V03State) : Prop where
  tracks : ClockTracks genesisTimestamp [] st
  deployed : BuiltinsDeployed st
  faucet : (st.getAccountById systemFaucetAccountId).programOwner =
      BuiltinPrograms.authenticatedTransfer.id ∨
    (st.getAccountById systemFaucetAccountId).programOwner = BuiltinPrograms.clock.id

variable {accountId : AccountId} {balance : U128}

omit [Schnorr] in
/-- **Step.**  No genesis transaction executes the clock program: the calls are with two
accounts. -/
theorem SupplyCall.step (hguests : GuestBinaries)
    (hst : BeforeBlocks genesisTimestamp st) {c : PendingCall} {out : ProgramOutput}
    (h : SupplyCall st accountId balance c) (hout : c.output st = .ok out) :
    c.call.programId ≠ BuiltinPrograms.clock.id ∧
      ∀ c' ∈ chainCalls c out, SupplyCall st accountId balance c' := by
  have hnotClock : c.call.preStates.length = 2 →
      c.call.programId ≠ BuiltinPrograms.clock.id := by
    intro hlen hclock
    have hmain := main_of_executed hguests.clock (hst.deployed _ List.mem_cons_self) hclock hout
    have hthree := Clock.length_of_main hmain
    rw [hlen] at hthree
    cases hthree
  cases h with
  | faucet hprogram hpres haccount hinstruction =>
      refine ⟨hnotClock (by rw [hpres]; rfl), fun c' hc' => ?_⟩
      have hmain := main_of_executed hguests.faucet (hst.deployed _ faucet_mem_builtinPrograms)
        hprogram hout
      obtain ⟨_, _, hpres', hcalls⟩ := Faucet.main_eq_ok hinstruction hmain
      cases hpres.symm.trans hpres'
      rw [chainCalls, hcalls] at hc'
      obtain ⟨call, hcall, rfl⟩ := List.mem_map.1 hc'
      cases List.mem_singleton.1 hcall
      exact .vault rfl rfl haccount rfl
  | vault hprogram hpres haccount hinstruction =>
      refine ⟨hnotClock (by rw [hpres]; rfl), fun c' hc' => ?_⟩
      have hmain := main_of_executed hguests.vault (hst.deployed _ vault_mem_builtinPrograms)
        hprogram hout
      obtain ⟨_, _, hpres', hcalls⟩ := Vault.main_transfer hinstruction hmain
      cases hpres.symm.trans hpres'
      rw [chainCalls, hcalls] at hc'
      obtain ⟨call, hcall, rfl⟩ := List.mem_map.1 hc'
      cases List.mem_singleton.1 hcall
      exact .owner (congrArg Account.programOwner haccount) rfl
  | owner hprogram hlen =>
      refine ⟨hnotClock hlen, fun c' hc' => ?_⟩
      rcases hst.faucet with htransfer | hclock
      · have hmain := main_of_executed hguests.transfer
          (hst.deployed _ transfer_mem_builtinPrograms) (hprogram.trans htransfer) hout
        rw [chainCalls, AuthenticatedTransfer.chainedCalls_of_main hmain] at hc'
        cases hc'
      · exact absurd (hprogram.trans hclock) (hnotClock hlen)

/-- The calls a genesis transaction executes. -/
theorem not_clock_of_executed (hguests : GuestBinaries)
    (hst : BeforeBlocks genesisTimestamp st)
    (h : st.transitionFromPublicTransaction
      (buildSupplyAccountGenesisTransaction accountId balance) blockId timestamp = .ok st') :
    ∀ e ∈ executedCalls (buildSupplyAccountGenesisTransaction accountId balance) st blockId
      timestamp, e.call.call.programId ≠ BuiltinPrograms.clock.id := by
  obtain ⟨diff, hruns, _⟩ := runs_of_transition h
  refine (hruns.invariant (I := fun _ => True) (J := fun c _ => SupplyCall st accountId balance c)
    (P := fun e => e.call.call.programId ≠ BuiltinPrograms.clock.id) ?_ trivial ?_).2
  · intro c _ _ out _ _ hc hstep
    obtain ⟨hprogram, hchildren⟩ :=
      hc.step hguests hst (validCall_of_executeCall hstep).output
    exact ⟨trivial, hchildren, hprogram⟩
  · intro p hp
    rw [List.mem_singleton.1 hp]
    exact .faucet rfl rfl rfl rfl

/-- **Step.**  A genesis transaction. -/
theorem BeforeBlocks.supply (hguests : GuestBinaries) (hids : DistinctBuiltins)
    (hst : BeforeBlocks genesisTimestamp st)
    (h : st.transitionFromPublicTransaction
      (buildSupplyAccountGenesisTransaction accountId balance) blockId timestamp = .ok st') :
    BeforeBlocks genesisTimestamp st' := by
  obtain ⟨diff, hruns, _⟩ := runs_of_transition h
  have howned : ∀ {id : AccountId} {owner : ProgramId}, owner ≠ defaultProgramId →
      (st.getAccountById id).programOwner = owner →
        (st'.getAccountById id).programOwner = owner := by
    intro id owner hne howner
    refine kept_of_public (Q := fun a => a.programOwner = owner) h (fun _ _ ha => ha) ?_ howner
    intro e he p hp _ hpre account hgranted
    have hpair := (valid_of_runs hruns he).pair p hp
    rw [hgranted.owned hpair (hpre ▸ hne), hpair.owner, hpre]
  have hclock := hids.ne_default BuiltinPrograms.clock List.mem_cons_self
  refine ⟨hst.tracks.of_fields fun id hid => ?_, fun program hprogram => ?_, ?_⟩
  · have howner := hst.tracks.owner id hid
    refine ⟨(howned hclock howner).trans howner.symm, ?_⟩
    refine (kept_of_public (Q := fun a => a.programOwner = BuiltinPrograms.clock.id ∧
      a.data = (st.getAccountById id).data) h (fun _ _ ha => ha) ?_ ⟨howner, rfl⟩).2
    rintro e he p hp _ ⟨hpre, hdata⟩ account hgranted
    have hpair := (valid_of_runs hruns he).pair p hp
    refine ⟨?_, ?_⟩
    · rw [hgranted.owned hpair (hpre ▸ hclock), hpair.owner, hpre]
    · rw [hgranted.data, ← hdata]
      refine hpair.data_of_foreign (hpre ▸ hclock) fun howner => ?_
      exact not_clock_of_executed hguests hst h e he (howner.symm.trans hpre)
  · rw [programs_of_transitionFromPublicTransaction h]
    exact hst.deployed program hprogram
  · rcases hst.faucet with htransfer | hfaucet
    · exact .inl (howned (hids.ne_default _ transfer_mem_builtinPrograms) htransfer)
    · exact .inr (howned hclock hfaucet)

omit [Zkvm] [Schnorr] [InstructionCodec Clock.Instruction]
  [InstructionCodec AuthenticatedTransfer.Instruction] [InstructionCodec Vault.Instruction]
  [InstructionCodec Faucet.Instruction] in
/-- A genesis state. -/
theorem beforeBlocks_genesis (hids : DistinctBuiltins) {initialData : List (AccountId × U128)}
    {notes : List (Commitment × Nullifier)}
    (h : V03State.newWithGenesisAccounts initialData notes genesisTimestamp = .ok st) :
    BeforeBlocks genesisTimestamp st := by
  refine ⟨⟨(clockAt_genesis h).owner, fun p hp => ?_⟩, builtinsDeployed_genesis hids h, ?_⟩
  · rw [clock_genesis h (clockAccounts_fst ▸ List.mem_map_of_mem hp), clockReading_nil]
    rfl
  · by_cases hclock : systemFaucetAccountId ∈ clockProgramAccountIds
    · exact .inr ((clockAt_genesis h).owner _ hclock)
    · rw [faucet_genesis hclock h]
      exact .inl rfl

omit [Zkvm] [Schnorr] [InstructionCodec Clock.Instruction]
  [InstructionCodec AuthenticatedTransfer.Instruction] [InstructionCodec Vault.Instruction]
  [InstructionCodec Faucet.Instruction] in
/-- A genesis state of the testnet. -/
theorem BeforeBlocks.addPinataProgram [TestnetPrograms]
    (hpinata : ∀ program ∈ builtinPrograms, program.id ≠ TestnetPrograms.pinata.id)
    (hfaucet : systemFaucetAccountId ≠ pinataAccountId)
    (h : BeforeBlocks genesisTimestamp st) :
    BeforeBlocks genesisTimestamp (st.addPinataProgram pinataAccountId) := by
  have hget : ∀ {id : AccountId}, id ≠ pinataAccountId →
      (st.addPinataProgram pinataAccountId).getAccountById id = st.getAccountById id :=
    fun hne => Ledger.get_insert_of_ne _ hne
  refine ⟨h.tracks.of_fields fun id hid => ?_, fun program hprogram => ?_, ?_⟩
  · rw [hget]
    · exact ⟨rfl, rfl⟩
    · rintro rfl
      exact absurd hid (by decide)
  · exact (AList.lookup_insert_ne (hpinata program hprogram)).trans (h.deployed program hprogram)
  · rw [hget hfaucet]
    exact h.faucet

variable [Signing] {init : V03State} {config : SequencerConfig} {core₀ core : SequencerCore}
  {genesisBlock : Block}

/-- **Start.**  After the genesis block. -/
theorem clockTracks_start (hguests : GuestBinaries) (hids : DistinctBuiltins)
    (hinit : BeforeBlocks genesisTimestamp init)
    (h : SequencerCore.start init config = .ok (core₀, genesisBlock)) :
    ClockTracks genesisTimestamp [genesisBlock] core₀.state ∧ BuiltinsDeployed core₀.state := by
  obtain ⟨⟨genesisState, genesisTxs⟩, hgenesis, hcore⟩ := bind_eq_ok.1 h
  cases hcore
  obtain ⟨state, hstate, heq⟩ := bind_eq_ok.1 hgenesis
  cases heq
  rw [List.foldlM_append, bind_eq_ok] at hstate
  obtain ⟨mid, hsupply, hclock⟩ := hstate
  obtain ⟨_, hclock, ⟨⟩⟩ := bind_eq_ok.1 hclock
  rw [← toOption_eq_some, toOption_foldlM] at hsupply
  have hmid : BeforeBlocks genesisTimestamp mid := by
    refine Replay.invariant_of_replay (fun s s' tx htx hs hstep => ?_) hinit hsupply
    obtain ⟨⟨accountId, balance⟩, _, rfl⟩ := List.mem_map.1 htx
    exact hs.supply hguests hids (mapError_eq_ok.1 (toOption_eq_some.1 hstep))
  have hclock := mapError_eq_ok.1 hclock
  refine ⟨hmid.tracks.applyClock hguests.clock (hmid.deployed _ List.mem_cons_self)
    (show 0 + 1 < 2 ^ 64 by decide) (toOption_eq_some.2 hclock), fun program hprogram => ?_⟩
  rw [programs_of_transitionFromPublicTransaction hclock]
  exact hmid.deployed program hprogram

/-! ## The chain -/

/-- **Clock accounts.**  A sequencer starts from any genesis state, on the testnet with the
account of the pinata program added, with any genesis actions, and runs with any transactions
and deployed programs.  The blocks are numbered from `1` to the height of the chain, and each
clock account decodes to the largest multiple of its interval up to there, with the timestamp
of that block; no user transaction of a block changes a clock account, in whatever state it is
executed.  It is assumed of the keys that sign in these blocks that none of them hashes to the
id of a clock account. -/
theorem clock_accounts_track_chain [TestnetPrograms] (hguests : GuestBinaries)
    (hids : DistinctBuiltins)
    (hpinata : ∀ program ∈ builtinPrograms, program.id ≠ TestnetPrograms.pinata.id)
    (hfaucet : systemFaucetAccountId ≠ pinataAccountId)
    {initialData : List (AccountId × U128)} {notes : List (Commitment × Nullifier)}
    {base : V03State}
    (hbase : V03State.newWithGenesisAccounts initialData notes genesisTimestamp = .ok base)
    (hinit : init = base ∨ init = base.addPinataProgram pinataAccountId)
    (hstart : SequencerCore.start init config = .ok (core₀, genesisBlock))
    {events : List SequencerEvent} (hrun : Run SequencerCore.Step core₀ events core)
    (hsigners : ∀ b ∈ producedBlocks events, ∀ tx ∈ b.transactions,
      ∀ id ∈ tx.signerAccountIds, id ∉ clockProgramAccountIds) :
    (ConsecutiveBlocks (genesisBlock :: producedBlocks events) ∧
      core.chainHeight.toNat = (genesisBlock :: producedBlocks events).length) ∧
    (∀ p ∈ clockAccounts,
      ClockAccountData.fromBytes (core.state.getAccountById p.1).data.bytes =
        .ok (clockReading genesisTimestamp (genesisBlock :: producedBlocks events) p.2)) ∧
    ∀ b ∈ producedBlocks events, ∀ tx ∈ b.transactions.dropLast, ∀ st st',
      b.header.applyTransaction st tx = some st' →
        ∀ id ∈ clockProgramAccountIds, st'.getAccountById id = st.getAccountById id := by
  have hbefore : BeforeBlocks genesisTimestamp init := by
    have hgenesis := beforeBlocks_genesis hids hbase
    rcases hinit with rfl | rfl
    · exact hgenesis
    · exact hgenesis.addPinataProgram hpinata hfaucet
  have hsequenced := SequencerCore.sequenced_of_run hstart hrun
  have hcurrent : Replay.replay Block.apply core₀.state (producedBlocks events) =
      some core.state := by
    have hgenesis := (SequencerCore.sequenced_start hstart).current
    exact (Replay.replay_append_of_eq hgenesis).symm.trans hsequenced.current
  obtain ⟨hfirst, hdeployed⟩ := clockTracks_start hguests hids hbefore hstart
  have htracks : ClockTracks genesisTimestamp (genesisBlock :: producedBlocks events)
      core.state :=
    hfirst.replay hguests.clock hdeployed Nat.one_pos hsequenced.ids hsigners hcurrent
  refine ⟨⟨hsequenced.ids, hsequenced.height⟩, fun p hp => ?_, ?_⟩
  · rw [htracks.data p hp]
    exact ClockAccountData.fromBytes_toBytes _
  · intro b hb tx htx st st' happly
    obtain ⟨i, hi⟩ := List.mem_iff_getElem?.1 hb
    have hid : b.header.blockId.toNat = i + 1 + 1 := hsequenced.ids (i + 1) b hi
    have hheader : b.header.blockId ≠ genesisBlockId := by
      intro heq
      rw [heq, show genesisBlockId.toNat = 1 from rfl] at hid
      omega
    exact (clock_of_applyTransaction hheader
      (hsigners b hb tx (List.mem_of_mem_dropLast htx)) happly).1

end

end

/-- After a genesis with one action and a block with a transfer, the first clock account shows
the second block and the others still the genesis state. -/
theorem clock_accounts_track_chain_transfer :
    let _ := Sample.sha256; let _ := Sample.zkvm Sample.clockScript; let _ := Sample.schnorr
    let _ := Sample.signing; let _ := Sample.builtins; let _ := Sample.clockCodec
    let _ := Sample.faucetCodec; let _ := Sample.testnetPrograms
    ∃ core genesisBlock core' b,
      SequencerCore.start HalfwayBlock.genesis FreshStart.config = .ok (core, genesisBlock) ∧
      Run SequencerCore.Step core [.push HalfwayBlock.transfer, .produce 7 b] core' ∧
      b.transactions.length = 2 ∧
      ClockAccountData.fromBytes
        (core'.state.getAccountById clock01ProgramAccountId).data.bytes = .ok ⟨2, 7⟩ ∧
      ClockAccountData.fromBytes
        (core'.state.getAccountById clock50ProgramAccountId).data.bytes = .ok ⟨0, 0⟩ := by
  intro _ _ _ _ _ _ _ _
  let _ := Sample.transferCodec
  let _ := Sample.vaultCodec
  obtain ⟨b, hb, hlen, htimestamp, hsigners⟩ := FreshStart.exists_block
  have hrun := (Run.nil.snoc FreshStart.step_push).snoc (SequencerCore.step_produce hb)
  obtain ⟨_, htracks, _⟩ := clock_accounts_track_chain
    ⟨Sample.clock_implements [], Sample.transfer_implements _ _, Sample.vault_implements _ _,
      Sample.faucet_implements _ _⟩
    Sample.distinctBuiltins (by decide) (by decide +kernel) HalfwayBlock.genesis_eq (.inl rfl)
    FreshStart.start_eq hrun (by
      intro b' hb' tx htx id hid
      rw [List.mem_singleton.1 hb'] at htx
      exact hsigners tx htx id hid)
  have hone : ∀ g : Block, clockReading 0 ([g] ++ [b]) 1 = ⟨2, b.header.timestamp⟩ :=
    fun g => clockReading_concat_of_dvd (Nat.one_dvd _)
  have hfifty : ∀ g : Block, clockReading 0 ([] ++ [g] ++ [b]) 50 = ⟨0, 0⟩ := by
    intro g
    rw [clockReading_concat_of_not_dvd (show ¬50 ∣ 2 by decide),
      clockReading_concat_of_not_dvd (show ¬50 ∣ 1 by decide), clockReading_nil]
  refine ⟨_, _, _, b, FreshStart.start_eq, hrun, hlen, ?_, ?_⟩
  · rw [htracks (clock01ProgramAccountId, 1) (by decide), ← htimestamp]
    exact congrArg Except.ok (hone _)
  · rw [htracks (clock50ProgramAccountId, 50) (by decide)]
    exact congrArg Except.ok (hfifty _)

end ExecutionZone
