import ExecutionZone.Node.Block

/-!
# The database of the indexer

`storage::indexer::RocksDBIO`: blocks by id, the indices over them, and breakpoints, states
recorded every hundred blocks from which the state at any block is recomputed by replaying
the blocks since.  A write is stored as it is, and reading back what was written succeeds.

`replayBlock` is the third executor of blocks in the source, next to the sequencer and the
store of the indexer; it does to a state what `Block.apply` says (`toOption_replayBlock`).
`Indexes` says that a database holds a list of blocks, and breakpoints that are right for
it.  What the state recomputed for a block then is, `Indexes.calculateStateForId_eq_ok` says.
-/

namespace ExecutionZone

/-- `BREAKPOINT_INTERVAL`. -/
def breakpointInterval : Nat := 100

/-- `checked_add` and `checked_mul` on `u64`: the result, if it fits. -/
def checkedU64 (n : Nat) : Option Nat := if n < 2 ^ 64 then some n else none

theorem checkedU64_of_lt {n : Nat} (h : n < 2 ^ 64) : checkedU64 n = some n := if_pos h

theorem eq_of_checkedU64 {n m : Nat} (h : checkedU64 n = some m) : m = n := by
  unfold checkedU64 at h
  split at h
  · exact (Option.some.inj h).symm
  · cases h

/-- Why a transaction of a block was refused. -/
inductive TransactionError where
  | malformed (e : TransactionMalformationError)
  | nssa (e : NssaError)
deriving DecidableEq

/-- `DbError::DbInteractionError`: its text, and the error whose debug form ends the text. -/
structure DbError where
  additionalInfo : String
  err : Option TransactionError
deriving DecidableEq

/-- `DbResult`, with panics told apart. -/
abbrev DbResult := Except (Fault DbError)

/-- `db_interaction_error`. -/
def dbInteractionError (additionalInfo : String) : Fault DbError := .err ⟨additionalInfo, none⟩

/-- `db_interaction_error` with a text that ends with the error of a transaction. -/
def dbInteractionErrorOf (additionalInfo : String) (f : Fault TransactionError) : Fault DbError :=
  f.map fun e => ⟨additionalInfo, some e⟩

structure IndexerDb where
  blocks : Ledger.Map Nat Block
  breakpoints : Ledger.Map Nat V03State
  firstBlock : Option Nat
  firstBlockSet : Bool
  lastBlock : Option Nat
  lastBreakpointId : Option Nat
  lastObservedL1LibHeader : Option Bytes32
  blockIdByHash : Ledger.Map Bytes32 Nat
  blockIdByTxHash : Ledger.Map Bytes32 Nat
  accNumTx : Ledger.Map AccountId Nat
  accToTx : Ledger.Map (AccountId × Nat) Bytes32

/-! ## Replay -/

section

variable [Sha256] [Zkvm] [Schnorr] [BuiltinPrograms]

/-- A user transaction in the loop of `calculate_state_for_id`. -/
def replayTransaction (header : BlockHeader) (st : V03State) (tx : NSSATransaction) :
    DbResult V03State :=
  if header.blockId = genesisBlockId then
    match tx with
    | .publicTx genesisTx =>
        (st.transitionFromPublicTransaction genesisTx header.blockId header.timestamp).mapError
          fun f => dbInteractionErrorOf "genesis transaction execution failed with err " (f.map .nssa)
    | _ => .error (dbInteractionError "Genesis block should contain only public transactions")
  else do
    let tx ← tx.transactionStatelessCheck.mapError fun e =>
      dbInteractionErrorOf "transaction pre check failed with err " (.err (.malformed e))
    (tx.executeCheckOnState st header.blockId header.timestamp).mapError
      fun f => dbInteractionErrorOf "transaction execution failed with err " (f.map .nssa)

variable [InstructionCodec Clock.Instruction]

/-- The loop of `calculate_state_for_id`. -/
def replayBlock (breakpoint : V03State) (block : Block) : DbResult V03State := do
  let clockTx ← expect block.transactions.getLast?
    (dbInteractionError "Block must contain clock transaction at the end")
  ensure (clockTx = block.header.clockTransaction)
    (dbInteractionError "Last transaction in block must be the clock invocation for the block timestamp")
  let breakpoint ← block.transactions.dropLast.foldlM (replayTransaction block.header) breakpoint
  match clockTx with
  | .publicTx clockPublicTx =>
      (breakpoint.transitionFromPublicTransaction clockPublicTx block.header.blockId
        block.header.timestamp).mapError
          fun f => dbInteractionErrorOf "clock transaction execution failed with err " (f.map .nssa)
  | _ => .error (dbInteractionError "Clock invocation must be a public transaction")

omit [InstructionCodec Clock.Instruction] in
theorem toOption_replayTransaction (header : BlockHeader) (st : V03State) (tx : NSSATransaction) :
    (replayTransaction header st tx).toOption = header.applyTransaction st tx := by
  unfold replayTransaction BlockHeader.applyTransaction
  split
  · cases tx with
    | publicTx tx => exact toOption_mapError _ _
    | privacyPreserving tx => rfl
    | programDeployment tx => rfl
  · simp only [toOption_bind, toOption_mapError]

/-- **Replay.**  A block is replayed as it is applied. -/
theorem toOption_replayBlock (st : V03State) (b : Block) :
    (replayBlock st b).toOption = b.apply st := by
  by_cases h : b.WellFormed
  · rw [Block.apply, if_pos h, replayBlock, show b.transactions.getLast? = _ from h]
    simp only [toOption_bind, toOption_expect, toOption_ensure, if_true, Option.bind_some,
      toOption_foldlM, toOption_replayTransaction]
    exact congrArg _ (funext fun mid => toOption_mapError _ _)
  · rw [Block.apply, if_neg h, replayBlock, toOption_bind, toOption_expect]
    rcases hlast : b.transactions.getLast? with _ | clockTx
    · rfl
    · have hclock : clockTx ≠ b.header.clockTransaction := by
        rintro rfl
        exact h hlast
      rw [Option.bind_some, toOption_bind, toOption_ensure, if_neg hclock, Option.bind_none]

theorem toOption_foldlM_replayBlock (st : V03State) (blocks : List Block) :
    (blocks.foldlM replayBlock st).toOption = Replay.replay Block.apply st blocks := by
  rw [toOption_foldlM]
  exact congrArg (fun f => blocks.foldlM f st) (funext₂ toOption_replayBlock)

end

namespace IndexerDb

/-! ## Reading -/

/-- A database nothing was written to. -/
def empty : IndexerDb := ⟨∅, ∅, none, false, none, none, none, ∅, ∅, ∅, ∅⟩

/-- The id of the last stored block, zero if there is none. -/
def lastBlockId (db : IndexerDb) : Nat := db.lastBlock.getD 0

/-- `get_breakpoint`. -/
def getBreakpoint (db : IndexerDb) (brId : Nat) : DbResult V03State :=
  expect (db.breakpoints.lookup brId) (dbInteractionError "\"breakpoint\" not found")

/-- `get_block_batch_seq`: the first missing block ends the batch. -/
def getBlockBatchSeq (db : IndexerDb) : List Nat → List Block
  | [] => []
  | blockId :: seq =>
      match db.blocks.lookup blockId with
      | some block => block :: db.getBlockBatchSeq seq
      | none => []

/-- `closest_breakpoint_id`. -/
def closestBreakpointId (blockId : Nat) : Nat := Replay.closest breakpointInterval blockId

section

variable [Sha256] [Zkvm] [Schnorr] [BuiltinPrograms] [InstructionCodec Clock.Instruction]

/-- `calculate_state_for_id`. -/
def calculateStateForId (db : IndexerDb) (blockId : Nat) : DbResult V03State := do
  ensure (blockId ≤ db.lastBlockId) (dbInteractionError "Block on this id not found")
  let brId := closestBreakpointId blockId
  let breakpoint ← db.getBreakpoint brId
  let start ← expect (checkedU64 (breakpointInterval * brId))
    (.panic "Reached maximum breakpoint id")
  let first ← expect (checkedU64 (start + 1)) (.panic "Will be lesser that u64::MAX")
  (db.getBlockBatchSeq (List.range' first (blockId + 1 - first))).foldlM replayBlock breakpoint

/-- `final_state`. -/
def finalState (db : IndexerDb) : DbResult V03State := db.calculateStateForId db.lastBlockId

end

/-! ## Writing -/

section

variable [Sha256]

/-- The transactions of a block by the accounts they name. -/
def accToTxMap (transactions : List NSSATransaction) : Ledger.Map AccountId (List Bytes32) :=
  transactions.foldl (fun m tx => tx.affectedPublicAccountIds.foldl
    (fun m accId => m.insert accId ((m.lookup accId).getD [] ++ [tx.hash])) m) ∅

/-- `get_acc_meta_num_tx`, zero if there is none. -/
def accMetaNumTx (db : IndexerDb) (accId : AccountId) : Nat := (db.accNumTx.lookup accId).getD 0

/-- The batch `put_block` writes. -/
def writeBlock (db : IndexerDb) (block : Block) (l1LibHeader : Bytes32) : IndexerDb :=
  let blockId := block.header.blockId.toNat
  let accToTx := Ledger.pairs (accToTxMap block.transactions)
  { blocks := db.blocks.insert blockId block
    breakpoints := db.breakpoints
    firstBlock := if db.lastBlockId = 0 then some blockId else db.firstBlock
    firstBlockSet := if db.lastBlockId = 0 then true else db.firstBlockSet
    lastBlock := if db.lastBlockId < blockId then some blockId else db.lastBlock
    lastBreakpointId := db.lastBreakpointId
    lastObservedL1LibHeader :=
      if db.lastBlockId < blockId then some l1LibHeader else db.lastObservedL1LibHeader
    blockIdByHash := db.blockIdByHash.insert block.header.hash blockId
    blockIdByTxHash :=
      Ledger.insertAll db.blockIdByTxHash (block.transactions.map fun tx => (tx.hash, blockId))
    -- `put_account_transactions_dependant`: the new transactions follow the known ones
    accNumTx := Ledger.insertAll db.accNumTx
      (accToTx.map fun (accId, hashes) => (accId, db.accMetaNumTx accId + hashes.length))
    accToTx := Ledger.insertAll db.accToTx (accToTx.flatMap fun (accId, hashes) =>
      hashes.zipIdx.map fun (hash, i) => ((accId, db.accMetaNumTx accId + i), hash)) }

omit [Sha256] in
/-- `put_breakpoint` and `put_meta_last_breakpoint_id`. -/
def putBreakpoint (db : IndexerDb) (brId : Nat) (breakpoint : V03State) : IndexerDb :=
  { db with breakpoints := db.breakpoints.insert brId breakpoint, lastBreakpointId := some brId }

omit [Sha256] in
/-- `open_or_create`, on the contents of the database at the path: the breakpoint counter
starts over. -/
def openOrCreate (db : IndexerDb) (initialState : V03State) : IndexerDb :=
  db.putBreakpoint 0 initialState

variable [Zkvm] [Schnorr] [BuiltinPrograms] [InstructionCodec Clock.Instruction]

/-- The breakpoint `put_next_breakpoint` writes. -/
def nextBreakpoint (db : IndexerDb) : DbResult (Nat × V03State) := do
  let nextBreakpointId ← expect (checkedU64 (db.lastBreakpointId.getD 0 + 1))
    (.panic "Breakpoint Id will be lesser than u64::MAX")
  let blockToBreakId ← expect (checkedU64 (breakpointInterval * nextBreakpointId))
    (.panic "Reached maximum breakpoint id")
  ensure (blockToBreakId ≤ db.lastBlockId) (dbInteractionError "Breakpoint not yet achieved")
  return (nextBreakpointId, ← db.calculateStateForId blockToBreakId)

/-- `put_next_breakpoint`. -/
def putNextBreakpoint (db : IndexerDb) : IndexerDb × DbResult Unit :=
  match db.nextBreakpoint with
  | .ok (brId, breakpoint) => (db.putBreakpoint brId breakpoint, .ok ())
  | .error e => (db, .error e)

/-- `put_block`.  The block stays written if its breakpoint can not be computed. -/
def putBlock (db : IndexerDb) (block : Block) (l1LibHeader : Bytes32) :
    IndexerDb × DbResult Unit :=
  let db := db.writeBlock block l1LibHeader
  if block.header.blockId.toNat % breakpointInterval = 0 then db.putNextBreakpoint else (db, .ok ())

end

/-! ## Databases of consecutive blocks -/

section

variable [Sha256] [Zkvm] [Schnorr] [BuiltinPrograms] [InstructionCodec Clock.Instruction]

/-- The database holds the blocks, with the ids from `1` on, and each of its breakpoints is
the state after the blocks it stands for. -/
structure Indexes (init : V03State) (blocks : List Block) (db : IndexerDb) : Prop where
  ids : ConsecutiveBlocks blocks
  last : db.lastBlockId = blocks.length
  block : ∀ i, db.blocks.lookup (i + 1) = blocks[i]?
  breakpoints : Replay.Checkpoints Block.apply breakpointInterval init blocks
    fun k => db.breakpoints.lookup k

variable {init st : V03State} {blocks : List Block} {db : IndexerDb}

/-- A batch is a section of the list. -/
theorem Indexes.getBlockBatchSeq (h : Indexes init blocks db) (k m : Nat) :
    db.getBlockBatchSeq (List.range' (k + 1) m) = (blocks.drop k).take m := by
  induction m generalizing k with
  | zero => rfl
  | succ m ih =>
      rw [List.range'_succ, IndexerDb.getBlockBatchSeq, h.block]
      rcases hk : blocks[k]? with _ | b
      · rw [List.getElem?_eq_none_iff] at hk
        rw [List.drop_eq_nil_of_le hk]
        rfl
      · obtain ⟨hlt, rfl⟩ := List.getElem?_eq_some_iff.1 hk
        rw [List.drop_eq_getElem_cons hlt, List.take_succ_cons, ih (k + 1)]

/-- **Recomputation.**  A state can be recomputed if the breakpoint before it is there and
the blocks up to it apply, and it is the state after these blocks. -/
theorem Indexes.calculateStateForId_eq_ok (h : Indexes init blocks db) {n : Nat} :
    db.calculateStateForId n = .ok st ↔ n ≤ blocks.length ∧
      (∃ s, db.breakpoints.lookup (closestBreakpointId n) = some s) ∧
      Replay.replay Block.apply init (blocks.take n) = some st := by
  have hlast := h.last
  have hlen := h.ids.length_lt
  simp only [calculateStateForId, bind_eq_ok, ensure_eq_ok, exists_const, getBreakpoint,
    expect_eq_ok, hlast]
  refine and_congr_right fun hn => ?_
  -- the first replayed block is at most the last one, so nothing overflows
  have hstart : breakpointInterval * closestBreakpointId n ≤ n - 1 := Nat.mul_div_le _ _
  have hfirst : breakpointInterval * closestBreakpointId n + 1 < 2 ^ 64 := by omega
  have hreplay : ∀ s, db.breakpoints.lookup (closestBreakpointId n) = some s →
      ((db.getBlockBatchSeq (List.range' (breakpointInterval * closestBreakpointId n + 1)
        (n + 1 - (breakpointInterval * closestBreakpointId n + 1)))).foldlM replayBlock s = .ok st ↔
      Replay.replay Block.apply init (blocks.take n) = some st) := by
    intro s hs
    rw [← h.breakpoints.replay_eq hs (Replay.mul_closest_le _ _), ← toOption_eq_some,
      toOption_foldlM_replayBlock, h.getBlockBatchSeq, Nat.add_sub_add_right, List.drop_take]
  constructor
  · rintro ⟨s, hs, start, hstart, first, hfirst, hfold⟩
    rw [eq_of_checkedU64 hfirst, eq_of_checkedU64 hstart] at hfold
    exact ⟨⟨s, hs⟩, (hreplay s hs).1 hfold⟩
  · rintro ⟨⟨s, hs⟩, hst⟩
    exact ⟨s, hs, _, checkedU64_of_lt (Nat.lt_of_succ_lt hfirst), _, checkedU64_of_lt hfirst,
      (hreplay s hs).2 hst⟩

/-! ## What writing does -/

variable {b : Block} (l1LibHeader : Bytes32)

theorem Indexes.writeBlock (h : Indexes init blocks db)
    (hid : b.header.blockId.toNat = blocks.length + 1) :
    Indexes init (blocks ++ [b]) (db.writeBlock b l1LibHeader) := by
  constructor
  · exact consecutiveBlocks_concat.2 ⟨h.ids, hid⟩
  · have hlt : db.lastBlockId < b.header.blockId.toNat := by
      rw [h.last, hid]
      exact Nat.lt_succ_self _
    have hlast : (db.writeBlock b l1LibHeader).lastBlock = some b.header.blockId.toNat := if_pos hlt
    rw [lastBlockId, hlast, Option.getD_some, hid, List.length_append, List.length_singleton]
  · intro i
    simp only [IndexerDb.writeBlock, hid]
    by_cases hlast : i = blocks.length
    · rw [hlast, AList.lookup_insert, List.getElem?_concat_length]
    · rw [AList.lookup_insert_ne fun heq => hlast (Nat.succ.inj heq), h.block,
        Replay.getElem?_concat, if_neg hlast]
  · exact h.breakpoints.append [b]

theorem Indexes.putBreakpoint (h : Indexes init blocks db) {k : Nat}
    (hk : breakpointInterval * k ≤ blocks.length)
    (hst : Replay.replay Block.apply init (blocks.take (breakpointInterval * k)) = some st) :
    Indexes init blocks (db.putBreakpoint k st) := by
  refine ⟨h.ids, h.last, h.block, h.breakpoints.update hk hst (AList.lookup_insert _) ?_⟩
  intro k' hk'
  exact AList.lookup_insert_ne hk'

/-- Opening the database again changes nothing but the counter. -/
theorem Indexes.openOrCreate (h : Indexes init blocks db) :
    Indexes init blocks (db.openOrCreate init) :=
  h.putBreakpoint (Nat.zero_le _) rfl

/-- The next breakpoint is the one after the counter. -/
theorem nextBreakpoint_eq_ok {k : Nat} (h : db.nextBreakpoint = .ok (k, st)) :
    k = db.lastBreakpointId.getD 0 + 1 ∧ db.calculateStateForId (breakpointInterval * k) = .ok st := by
  simp only [nextBreakpoint, bind_eq_ok, expect_eq_ok, ensure_eq_ok, pure, Except.pure,
    Except.ok.injEq, Prod.mk.injEq] at h
  obtain ⟨k', hk', n, hn, _, _, s, hs, rfl, rfl⟩ := h
  rw [eq_of_checkedU64 hn] at hs
  exact ⟨eq_of_checkedU64 hk', hs⟩

theorem Indexes.putNextBreakpoint (h : Indexes init blocks db) :
    Indexes init blocks db.putNextBreakpoint.1 := by
  unfold IndexerDb.putNextBreakpoint
  split
  · rename_i k st hnext
    obtain ⟨hle, _, hst⟩ := h.calculateStateForId_eq_ok.1 (nextBreakpoint_eq_ok hnext).2
    exact h.putBreakpoint hle hst
  · exact h

/-- **Writing a block.**  Whether its breakpoint can be computed or not, the database holds
the block, and its breakpoints are right. -/
theorem Indexes.putBlock (h : Indexes init blocks db)
    (hid : b.header.blockId.toNat = blocks.length + 1) :
    Indexes init (blocks ++ [b]) (db.putBlock b l1LibHeader).1 := by
  have hwrite := h.writeBlock l1LibHeader hid
  by_cases hmod : b.header.blockId.toNat % breakpointInterval = 0
  · rw [IndexerDb.putBlock, if_pos hmod]
    exact hwrite.putNextBreakpoint
  · rw [IndexerDb.putBlock, if_neg hmod]
    exact hwrite

end

end IndexerDb

end ExecutionZone
