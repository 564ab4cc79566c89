import ExecutionZone.Lib.InPlace
import ExecutionZone.Node.Breakpoints

/-!
# The store of the indexer

`indexer_core::block_store`: the database together with the current state.  A block is
executed on the current state first, transaction by transaction and in place, and stored
afterwards.  What a successful execution does is again `Block.apply`
(`executeBlock_eq_ok`).

A block that fails half-way leaves the state half-way: `failed_block_changes_state` is a
block whose first transaction stays applied although `put_block` reports an error.
`indexer_block_atomic` is about runs without such blocks.
-/

namespace ExecutionZone

/-- The errors of `put_block`: a text, an error of a transaction with or without a text
before it, or one of the database. -/
inductive IndexerError where
  | msg (text : String)
  | context (text : String) (e : TransactionError)
  | transaction (e : TransactionError)
  | db (e : DbError)
deriving DecidableEq

structure IndexerStore where
  dbio : IndexerDb
  currentState : V03State

section

variable [Sha256] [Zkvm] [Schnorr] [BuiltinPrograms]

/-- A user transaction in the loop of `put_block`. -/
def executeTransaction (header : BlockHeader) (tx : NSSATransaction) (st : V03State) :
    Except (Fault IndexerError) V03State :=
  if header.blockId = 1 then
    match tx with
    | .publicTx genesisTx =>
        (st.transitionFromPublicTransaction genesisTx header.blockId header.timestamp).mapError
          (Fault.map fun e => .context "Failed to execute genesis public transaction" (.nssa e))
    | _ => .error (.err (.msg "Genesis block should contain only public transactions"))
  else do
    let tx ← tx.transactionStatelessCheck.mapError fun e => .err (.transaction (.malformed e))
    (tx.executeCheckOnState st header.blockId header.timestamp).mapError
      (Fault.map fun e => .transaction (.nssa e))

/-- The last transaction in `put_block`. -/
def executeClock (header : BlockHeader) (clockTx : NSSATransaction) (st : V03State) :
    Except (Fault IndexerError) V03State :=
  match clockTx with
  | .publicTx clockPublicTx =>
      (st.transitionFromPublicTransaction clockPublicTx header.blockId header.timestamp).mapError
        (Fault.map fun e => .transaction (.nssa e))
  | _ => .error (.err (.msg "Clock invocation must be a public transaction"))

variable [InstructionCodec Clock.Instruction]

/-- The part of `put_block` that holds the current state. -/
def executeBlock (st : V03State) (block : Block) : V03State × Except (Fault IndexerError) Unit :=
  match block.transactions.getLast? with
  | none => (st, .error (.err (.msg "Block has no transactions")))
  | some clockTx =>
      if clockTx = block.header.clockTransaction then
        applyInPlace st (block.transactions.dropLast.map (executeTransaction block.header) ++
          [executeClock block.header clockTx])
      else (st, .error (.err (.msg
        "Last transaction in block must be the clock invocation for the block timestamp")))

namespace IndexerStore

/-- `open_db`, on the contents of the database at the path. -/
def openDb (db : IndexerDb) (initialState : V03State) : DbResult IndexerStore := do
  let dbio := db.openOrCreate initialState
  return ⟨dbio, ← dbio.finalState⟩

/-- `put_block`. -/
def putBlock (s : IndexerStore) (block : Block) (l1Header : Bytes32) :
    IndexerStore × Except (Fault IndexerError) Unit :=
  match executeBlock s.currentState block with
  | (st, .error e) => (⟨s.dbio, st⟩, .error e)
  | (st, .ok ()) =>
      let (dbio, result) := s.dbio.putBlock block.finalized l1Header
      (⟨dbio, st⟩, result.mapError (Fault.map .db))

omit [Sha256] [Zkvm] [Schnorr] [BuiltinPrograms] [InstructionCodec Clock.Instruction] in
/-- `account_current_state`. -/
def accountCurrentState (s : IndexerStore) (accountId : AccountId) : Account :=
  s.currentState.getAccountById accountId

/-- `account_state_at_block`. -/
def accountStateAtBlock (s : IndexerStore) (accountId : AccountId) (blockId : Nat) :
    DbResult Account := do
  let state ← s.dbio.calculateStateForId blockId
  return state.getAccountById accountId

end IndexerStore

/-! ## What a block does to the current state -/

omit [InstructionCodec Clock.Instruction] in
theorem toOption_executeTransaction (header : BlockHeader) (tx : NSSATransaction) (st : V03State) :
    (executeTransaction header tx st).toOption = header.applyTransaction st tx := by
  unfold executeTransaction BlockHeader.applyTransaction
  by_cases h : header.blockId = genesisBlockId
  · rw [if_pos h, if_pos (show header.blockId = 1 from h)]
    cases tx with
    | publicTx tx => exact toOption_mapError _ _
    | privacyPreserving tx => rfl
    | programDeployment tx => rfl
  · rw [if_neg h, if_neg (show ¬header.blockId = 1 from h)]
    simp only [toOption_bind, toOption_mapError]

theorem toOption_executeClock (header : BlockHeader) (st : V03State) :
    (executeClock header header.clockTransaction st).toOption = header.applyClock st :=
  toOption_mapError _ _

variable {st st' : V03State} {b : Block}

theorem executeBlock_of_wellFormed (h : b.WellFormed) (st : V03State) :
    executeBlock st b = applyInPlace st
      (b.transactions.dropLast.map (executeTransaction b.header) ++
        [executeClock b.header b.header.clockTransaction]) := by
  rw [executeBlock, show b.transactions.getLast? = _ from h]
  exact if_pos rfl

/-- A malformed block changes nothing. -/
theorem executeBlock_of_not_wellFormed (h : ¬b.WellFormed) (st : V03State) :
    ∃ text, executeBlock st b = (st, .error (.err (.msg text))) := by
  unfold executeBlock
  rcases hlast : b.transactions.getLast? with _ | clockTx
  · exact ⟨_, rfl⟩
  · have hclock : clockTx ≠ b.header.clockTransaction := by
      rintro rfl
      exact h hlast
    exact ⟨_, if_neg hclock⟩

/-- **Execution.**  A block is executed as it is applied. -/
theorem executeBlock_eq_ok : executeBlock st b = (st', .ok ()) ↔ b.apply st = some st' := by
  by_cases h : b.WellFormed
  · rw [executeBlock_of_wellFormed h, applyInPlace_eq_ok, ← toOption_eq_some, Block.apply, if_pos h,
      toOption_foldlM, List.foldlM_append, List.foldlM_map]
    simp only [toOption_executeTransaction, List.foldlM_cons, List.foldlM_nil,
      toOption_executeClock]
    rw [show (fun st => (b.header.applyClock st >>= fun st => pure st)) = b.header.applyClock from
      funext fun st => bind_pure _]
    rfl
  · obtain ⟨text, htext⟩ := executeBlock_of_not_wellFormed h st
    rw [htext, Block.apply, if_neg h]
    simp

/-- A block that is accepted was applied to the current state. -/
theorem IndexerStore.apply_of_putBlock {s s' : IndexerStore} {l1Header : Bytes32}
    (h : s.putBlock b l1Header = (s', .ok ())) :
    b.apply s.currentState = some s'.currentState := by
  unfold IndexerStore.putBlock at h
  rcases hexecute : executeBlock s.currentState b with ⟨st, e | ⟨⟩⟩
  · rw [hexecute] at h
    cases h
  · rw [hexecute] at h
    rw [← congrArg (fun r => r.1.currentState) h]
    exact executeBlock_eq_ok.1 hexecute

/-! ## Stores that are in step with their database -/

namespace IndexerStore

open IndexerDb

/-- The database holds the blocks, with the breakpoint counter at `j`, and the current state
is the state after them. -/
structure Synced (init : V03State) (blocks : List Block) (j : Nat) (s : IndexerStore) : Prop where
  indexes : Indexes init blocks s.dbio
  counted : ∃ m, Counted s.dbio j m ∧ j ≤ m
  counter_le : j ≤ blocks.length / breakpointInterval
  current : Replay.replay Block.apply init blocks = some s.currentState

variable {init : V03State} {blocks : List Block} {j : Nat} {s s' : IndexerStore}

/-- On an empty directory the store starts with the initial state. -/
theorem synced_fresh (init : V03State) : Synced init [] 0 ⟨fresh init, init⟩ :=
  ⟨indexes_fresh init, ⟨0, counted_fresh init, Nat.le_refl 0⟩, Nat.zero_le _, rfl⟩

/-- While the counter has not fallen behind, the state recomputed from the database is the
current one. -/
theorem Synced.finalState (h : Synced init blocks (blocks.length / breakpointInterval) s) :
    s.dbio.finalState = .ok s.currentState := by
  obtain ⟨m, hcounted, hle⟩ := h.counted
  rw [IndexerDb.finalState, h.indexes.last]
  refine h.indexes.calculateStateForId_eq_ok.2 ⟨Nat.le_refl _, (hcounted.present _).2 ?_, ?_⟩
  · exact Nat.le_trans (Nat.div_le_div_right (Nat.sub_le _ 1)) hle
  · rw [List.take_length]
    exact h.current

theorem openDb_empty (init : V03State) : openDb empty init = .ok ⟨fresh init, init⟩ := by
  rw [openDb, show empty.openOrCreate init = fresh init from rfl, (synced_fresh init).finalState]
  rfl

/-- A restart that succeeds finds the current state again. -/
theorem Synced.openDb (h : Synced init blocks j s) (hopen : openDb s.dbio init = .ok s') :
    Synced init blocks 0 s' := by
  simp only [IndexerStore.openDb, bind_eq_ok, pure, Except.pure, Except.ok.injEq] at hopen
  obtain ⟨st, hst, rfl⟩ := hopen
  obtain ⟨m, hcounted, _⟩ := h.counted
  have hreplay := (h.indexes.openOrCreate.calculateStateForId_eq_ok.1 hst).2.2
  rw [h.indexes.openOrCreate.last, List.take_length] at hreplay
  exact ⟨h.indexes.openOrCreate, ⟨m, hcounted.openOrCreate init, Nat.zero_le m⟩, Nat.zero_le _,
    hreplay⟩

/-- **The next block.**  If it applies to the current state it is accepted. -/
theorem Synced.putBlock (h : Synced init blocks j s)
    (hid : b.header.blockId.toNat = blocks.length + 1) (hst : b.apply s.currentState = some st')
    (l1Header : Bytes32) :
    ∃ s', s.putBlock b l1Header = (s', .ok ()) ∧ s'.currentState = st' ∧
      Synced init (blocks ++ [b.finalized]) (j + ((blocks.length + 1) / breakpointInterval -
        blocks.length / breakpointInterval)) s' := by
  have hvalid : Replay.replay Block.apply init (blocks ++ [b.finalized]) = some st' :=
    (Replay.replay_concat_of_eq h.current).trans hst
  obtain ⟨m, hcounted, hle⟩ := h.counted
  obtain ⟨hok, hcounted⟩ := hcounted.putBlock h.indexes hle h.counter_le
    (b := b.finalized) hid hvalid l1Header rfl
  have hmono : blocks.length / breakpointInterval ≤ (blocks.length + 1) / breakpointInterval :=
    Nat.div_le_div_right (Nat.le_succ _)
  have hcounter := h.counter_le
  refine ⟨⟨(s.dbio.putBlock b.finalized l1Header).1, st'⟩, ?_, rfl,
    h.indexes.putBlock l1Header hid, ⟨_, hcounted, Nat.le_max_right _ _⟩, ?_, hvalid⟩
  · rw [IndexerStore.putBlock, executeBlock_eq_ok.2 hst]
    exact congrArg (fun r : DbResult Unit =>
      (_, r.mapError (Fault.map IndexerError.db))) hok
  · rw [List.length_append, List.length_singleton]
    omega

/-- A counter that has not fallen behind does not fall behind by the next block. -/
theorem Synced.putNext
    (h : s.Synced init blocks (blocks.length / breakpointInterval))
    (hid : b.header.blockId.toNat = blocks.length + 1) (hst : b.apply s.currentState = some st')
    (l1Header : Bytes32) :
    ∃ s' blocks', s.putBlock b l1Header = (s', .ok ()) ∧ s'.currentState = st' ∧
      s'.Synced init blocks' (blocks'.length / breakpointInterval) ∧
      blocks'.length = blocks.length + 1 := by
  obtain ⟨s', hput, hcurrent, hsynced⟩ := h.putBlock hid hst l1Header
  rw [Nat.add_sub_cancel' (Nat.div_le_div_right (Nat.le_succ _))] at hsynced
  have hlen : (blocks ++ [b.finalized]).length = blocks.length + 1 := by
    rw [List.length_append, List.length_singleton]
  exact ⟨s', _, hput, hcurrent, hlen ▸ hsynced, hlen⟩

/-! ## Blocks that fail -/

end IndexerStore

/-- The first transaction of the block is accepted. -/
def Block.FirstApplies (b : Block) (st : V03State) : Prop :=
  match b.transactions.dropLast with
  | tx :: _ => ∃ st', b.header.applyTransaction st tx = some st'
  | [] => ∃ st', b.header.applyClock st = some st'

/-- A block whose first transaction is rejected changes nothing. -/
theorem executeBlock_of_not_firstApplies (hwf : b.WellFormed) (h : ¬b.FirstApplies st) :
    ∃ e, executeBlock st b = (st, .error e) := by
  have herror : ∀ {x : Except (Fault IndexerError) V03State}, (¬∃ st', x.toOption = some st') →
      ∃ e, x = .error e := by
    intro x hx
    cases x with
    | error e => exact ⟨e, rfl⟩
    | ok st' => exact absurd ⟨st', rfl⟩ hx
  rw [executeBlock_of_wellFormed hwf]
  unfold Block.FirstApplies at h
  split at h
  · rename_i tx rest htxs
    rw [← toOption_executeTransaction] at h
    obtain ⟨e, he⟩ := herror h
    rw [htxs]
    exact ⟨e, applyInPlace_of_error he⟩
  · rename_i htxs
    rw [← toOption_executeClock] at h
    obtain ⟨e, he⟩ := herror h
    rw [htxs]
    exact ⟨e, applyInPlace_of_error he⟩

/-- If the block is well formed and its first transaction is accepted, all of them are, and
the block is the next one. -/
def Block.AllOrNothing (b : Block) (s : IndexerStore) : Prop :=
  b.WellFormed → b.FirstApplies s.currentState →
    (∃ st', b.apply s.currentState = some st') ∧
      b.header.blockId.toNat = s.dbio.lastBlockId + 1

namespace IndexerStore

variable {init : V03State} {blocks : List Block} {j : Nat} {s s' : IndexerStore}
variable {events : List IndexerDbEvent}

/-- A call of `put_block` that returns, with or without an error, and a restart that
succeeds. -/
def Step (init : V03State) (s : IndexerStore) : IndexerDbEvent → IndexerStore → Prop
  | .put b l1Header, s' => ∃ result, s.putBlock b l1Header = (s', result) ∧ NoPanic result
  | .restart, s' => openDb s.dbio init = .ok s'

/-- **Step.**  Such a block is stored, or nothing changes. -/
theorem Synced.putBlock_or (h : Synced init blocks j s) (hall : b.AllOrNothing s)
    (l1Header : Bytes32) :
    (∃ s', s.putBlock b l1Header = (s', .ok ()) ∧
      Synced init (blocks ++ [b.finalized]) (j + ((blocks.length + 1) / breakpointInterval -
        blocks.length / breakpointInterval)) s') ∨
      ∃ e, s.putBlock b l1Header = (s, .error e) := by
  have hfail : (∃ e, executeBlock s.currentState b = (s.currentState, .error e)) →
      ∃ e, s.putBlock b l1Header = (s, .error e) := by
    rintro ⟨e, he⟩
    rw [IndexerStore.putBlock, he]
    exact ⟨e, rfl⟩
  by_cases hwf : b.WellFormed
  · by_cases hfirst : b.FirstApplies s.currentState
    · obtain ⟨⟨st', hst'⟩, hid⟩ := hall hwf hfirst
      obtain ⟨s', hput, _, hsynced⟩ := h.putBlock (h.indexes.last ▸ hid) hst' l1Header
      exact .inl ⟨s', hput, hsynced⟩
    · exact .inr (hfail (executeBlock_of_not_firstApplies hwf hfirst))
  · obtain ⟨text, htext⟩ := executeBlock_of_not_wellFormed hwf s.currentState
    exact .inr (hfail ⟨_, htext⟩)

/-- **Run.**  The current state stays the state after the stored blocks. -/
theorem synced_of_run
    (hrun : Run (fun s e s' => Step init s e s' ∧ ∀ b l1Header, e = .put b l1Header →
      b.AllOrNothing s) ⟨IndexerDb.fresh init, init⟩ events s) :
    ∃ blocks j, Synced init blocks j s := by
  refine hrun.invariant (I := fun s => ∃ blocks j, Synced init blocks j s)
    ⟨_, _, synced_fresh init⟩ ?_
  rintro s e s' ⟨blocks, j, h⟩ ⟨hstep, hall⟩
  cases e with
  | restart => exact ⟨_, _, h.openDb hstep⟩
  | put b l1Header =>
      obtain ⟨result, hput, _⟩ := hstep
      rcases h.putBlock_or (hall b l1Header rfl) l1Header with ⟨s₁, hput₁, hsynced⟩ | ⟨e, hput₁⟩
      · cases hput.symm.trans hput₁
        exact ⟨_, _, hsynced⟩
      · cases hput.symm.trans hput₁
        exact ⟨_, _, h⟩

/-- **Run.**  Without late restarts the counter does not fall behind. -/
theorem synced_of_run_of_early
    (hrun : Run (fun s e s' => Step init s e s' ∧
      (∀ b l1Header, e = .put b l1Header → b.AllOrNothing s) ∧
      (e = .restart → s.dbio.lastBlockId < breakpointInterval))
      ⟨IndexerDb.fresh init, init⟩ events s) :
    ∃ blocks, Synced init blocks (blocks.length / breakpointInterval) s := by
  refine hrun.invariant
    (I := fun s => ∃ blocks, Synced init blocks (blocks.length / breakpointInterval) s)
    ⟨_, synced_fresh init⟩ ?_
  rintro s e s' ⟨blocks, h⟩ ⟨hstep, hall, hearly⟩
  cases e with
  | restart =>
      have hlt := hearly rfl
      rw [h.indexes.last] at hlt
      refine ⟨blocks, ?_⟩
      rw [Nat.div_eq_of_lt hlt]
      exact h.openDb hstep
  | put b l1Header =>
      obtain ⟨result, hput, _⟩ := hstep
      rcases h.putBlock_or (hall b l1Header rfl) l1Header with ⟨s₁, hput₁, hsynced⟩ | ⟨e, hput₁⟩
      · cases hput.symm.trans hput₁
        rw [Nat.add_sub_cancel' (Nat.div_le_div_right (Nat.le_succ _))] at hsynced
        refine ⟨blocks ++ [b.finalized], ?_⟩
        rw [List.length_append, List.length_singleton]
        exact hsynced
      · cases hput.symm.trans hput₁
        exact ⟨_, h⟩

/-- **Atomicity.**  Start on an empty directory, and let every block that is put be malformed,
or have its first transaction rejected, or be the next one and apply as a whole.  Then in every
state reached, after any restarts, a further such block that fails leaves the current state
unchanged; and without late restarts the current state is the one recomputed from the database,
for every account. -/
theorem indexer_block_atomic (init : V03State) :
    (∀ events s, Run (fun s e s' => Step init s e s' ∧
        ∀ b l1Header, e = .put b l1Header → b.AllOrNothing s)
        ⟨IndexerDb.fresh init, init⟩ events s →
      ∀ (b : Block) l1Header s' e, b.AllOrNothing s →
        s.putBlock b l1Header = (s', .error (.err e)) → s'.currentState = s.currentState) ∧
    ∀ events s, Run (fun s e s' => Step init s e s' ∧
        (∀ b l1Header, e = .put b l1Header → b.AllOrNothing s) ∧
        (e = .restart → s.dbio.lastBlockId < breakpointInterval))
        ⟨IndexerDb.fresh init, init⟩ events s →
      s.dbio.finalState = .ok s.currentState ∧
      ∀ accountId, s.accountStateAtBlock accountId s.dbio.lastBlockId =
        .ok (s.accountCurrentState accountId) := by
  constructor
  · intro events s hrun b l1Header s' e hall hput
    obtain ⟨blocks, j, h⟩ := synced_of_run hrun
    rcases h.putBlock_or hall l1Header with ⟨s₁, hput₁, _⟩ | ⟨e', hput₁⟩
    · cases hput.symm.trans hput₁
    · cases hput.symm.trans hput₁
      rfl
  · intro events s hrun
    obtain ⟨blocks, h⟩ := synced_of_run_of_early hrun
    have hfinal := h.finalState
    refine ⟨hfinal, fun accountId => ?_⟩
    rw [IndexerDb.finalState] at hfinal
    rw [accountStateAtBlock, hfinal]
    rfl

end IndexerStore

end

/-! ## A block that fails half-way -/

namespace HalfwayBlock

def initialData : List (AccountId × U128) := [(Sample.signer 1, 100), (Sample.accountId 9, 5)]

def genesis : V03State :=
  let _ := Sample.sha256; let _ := Sample.builtins
  valueD (Sample.state [] []) (V03State.newWithGenesisAccounts initialData [] 0)

theorem genesis_eq :
    let _ := Sample.sha256; let _ := Sample.builtins
    V03State.newWithGenesisAccounts initialData [] 0 = .ok genesis := by
  intro _ _
  exact eq_ok_valueD (Sample.state [] []) (by decide +kernel)

def transfer : NSSATransaction :=
  .publicTx (Sample.transaction (Sample.programId 2) [Sample.signer 1, Sample.accountId 9]
    (Sample.transferCodec.toVec (.transfer 30)) [1])

/-- A first block with the given user transactions. -/
def block (txs : List NSSATransaction) : Block :=
  let _ := Sample.sha256; let _ := Sample.signing; let _ := Sample.builtins
  let _ := Sample.clockCodec
  HashableBlockData.intoPendingBlock
    ⟨1, Bytes32.zero, 0, txs ++ [.publicTx (clockInvocation 0)]⟩ ⟨Bytes32.zero⟩ Bytes32.zero

def store : IndexerStore := ⟨IndexerDb.fresh genesis, genesis⟩

end HalfwayBlock

/-- A block with the same transfer twice is put into a new store.  It is refused because of
the nonce of the second transfer, and the first one stays applied: the current balance of the
sender is `70`, and the one recomputed from the database is `100`. -/
theorem failed_block_changes_state :
    let _ := Sample.sha256; let _ := Sample.zkvm Sample.clockScript; let _ := Sample.schnorr
    let _ := Sample.builtins; let _ := Sample.clockCodec
    let s := HalfwayBlock.store
    let put := s.putBlock (HalfwayBlock.block [HalfwayBlock.transfer, HalfwayBlock.transfer])
      Bytes32.zero
    V03State.newWithGenesisAccounts HalfwayBlock.initialData [] 0 = .ok HalfwayBlock.genesis ∧
    IndexerStore.openDb IndexerDb.empty HalfwayBlock.genesis = .ok s ∧
    s.dbio.finalState = .ok s.currentState ∧
    put.2 = .error (.err (.context "Failed to execute genesis public transaction"
      (.nssa (.invalidInput "Nonce mismatch")))) ∧
    (s.accountCurrentState (Sample.signer 1)).balance = 100 ∧
    (put.1.accountCurrentState (Sample.signer 1)).balance = 70 ∧
    (put.1.accountStateAtBlock (Sample.signer 1) put.1.dbio.lastBlockId).map (·.balance) =
      .ok 100 := by
  intro _ _ _ _ _ s put
  refine ⟨HalfwayBlock.genesis_eq, IndexerStore.openDb_empty _,
    (IndexerStore.synced_fresh HalfwayBlock.genesis).finalState, ?_⟩
  decide +kernel

/-- A block with one transfer is stored, and a block without transactions is refused then. -/
theorem indexer_block_atomic_transfer :
    let _ := Sample.sha256; let _ := Sample.zkvm Sample.clockScript; let _ := Sample.schnorr
    let _ := Sample.builtins; let _ := Sample.clockCodec
    let b := HalfwayBlock.block [HalfwayBlock.transfer]
    let b' := { b with transactions := [] }
    ∃ s s', HalfwayBlock.store.putBlock b Bytes32.zero = (s, .ok ()) ∧
      s.dbio.finalState = .ok s.currentState ∧
      s.putBlock b' Bytes32.zero = (s', .error (.err (.msg "Block has no transactions"))) ∧
      s'.currentState = s.currentState := by
  intro _ _ _ _ _ b b'
  obtain ⟨st, hst⟩ := Option.isSome_iff_exists.1
    (show (b.apply HalfwayBlock.genesis).isSome = true by decide +kernel)
  obtain ⟨s, hput, _, _⟩ :=
    (IndexerStore.synced_fresh HalfwayBlock.genesis).putBlock (b := b) rfl hst Bytes32.zero
  have hstep : IndexerStore.Step HalfwayBlock.genesis HalfwayBlock.store (.put b Bytes32.zero) s :=
    ⟨_, hput, noPanic_ok _⟩
  have hall : b.AllOrNothing HalfwayBlock.store := fun _ _ => ⟨⟨st, hst⟩, rfl⟩
  have hall' : b'.AllOrNothing s := fun hwf => (by cases hwf)
  obtain ⟨hfail, hsync⟩ := IndexerStore.indexer_block_atomic HalfwayBlock.genesis
  have hstored := hsync [.put b Bytes32.zero] s (Run.nil.snoc ⟨hstep, ?_, ?_⟩)
  · refine ⟨s, s, hput, hstored.1, rfl, ?_⟩
    refine hfail [.put b Bytes32.zero] s (Run.nil.snoc ⟨hstep, ?_⟩) b' Bytes32.zero s _ hall' rfl
    rintro _ _ ⟨⟩
    exact hall
  · rintro _ _ ⟨⟩
    exact hall
  · rintro ⟨⟩

end ExecutionZone
