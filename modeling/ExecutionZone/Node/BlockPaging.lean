import ExecutionZone.Node.Breakpoints

/-!
# Pages of blocks

`get_block_batch` lists blocks from the newest to the oldest, the first of them the one before
a given id.  The ids are counted down without looking at what is stored, and
`get_block_batch_seq`, written for ids that count up, takes the first missing block for the
end of the chain.

So a page is right if it starts at a stored block (`block_page_iff`), and an id beyond the
block after the last one gives an empty page (`page_beyond_tip_is_empty`).
-/

namespace ExecutionZone

namespace IndexerDb

/-- The loop of `get_block_batch`, from `i` on and for `n` more rounds. -/
def blockIdsBefore (startBlockId i : Nat) : Nat → List Nat
  | 0 => []
  | n + 1 =>
      let blockId := startBlockId - i
      if blockId = 0 then [] else blockId :: blockIdsBefore startBlockId (i + 1) n

/-- `get_block_batch`. -/
def getBlockBatch (db : IndexerDb) (before : Option Nat) (limit : Nat) : List Block :=
  match before with
  | some beforeId => db.getBlockBatchSeq (blockIdsBefore (beforeId - 1) 0 limit)
  | none =>
      match db.lastBlock with
      | some last => db.getBlockBatchSeq (blockIdsBefore last 0 limit)
      | none => []

/-- The database holds the blocks, with the ids from `1` on. -/
structure HoldsBlocks (blocks : List Block) (db : IndexerDb) : Prop where
  ids : ConsecutiveBlocks blocks
  last : db.lastBlockId = blocks.length
  block : ∀ i, db.blocks.lookup (i + 1) = blocks[i]?

end IndexerDb

/-- The blocks a page is to list: the newest with an id below `before`. -/
def newestBlocks (blocks : List Block) (before : Option Nat) (limit : Nat) : List Block :=
  ((blocks.filter fun b => ∀ n ∈ before, b.header.blockId.toNat < n).reverse).take limit

/-- Below an id are the blocks up to it. -/
theorem ConsecutiveBlocks.filter_lt {blocks : List Block} (h : ConsecutiveBlocks blocks)
    (n : Nat) : (blocks.filter fun b => b.header.blockId.toNat < n) = blocks.take (n - 1) := by
  induction blocks using List.reverseRecOn with
  | nil => simp
  | append_singleton blocks b ih =>
      obtain ⟨hblocks, hid⟩ := consecutiveBlocks_concat.1 h
      rw [List.filter_append, ih hblocks]
      by_cases hlt : b.header.blockId.toNat < n
      · have hlen : (blocks ++ [b]).length ≤ n - 1 := by
          rw [List.length_append, List.length_singleton]
          omega
        rw [List.filter_cons_of_pos (by simpa using hlt), List.take_of_length_le (by omega),
          List.take_of_length_le hlen]
        rfl
      · have hlen : n - 1 ≤ blocks.length := by omega
        rw [List.filter_cons_of_neg (by simpa using hlt), List.take_append_of_le_length hlen]
        exact List.append_nil _

namespace IndexerDb

variable {blocks : List Block} {db : IndexerDb}

theorem Indexes.holdsBlocks [Sha256] [Zkvm] [Schnorr] [BuiltinPrograms]
    [InstructionCodec Clock.Instruction] {init : V03State} (h : Indexes init blocks db) :
    HoldsBlocks blocks db :=
  ⟨h.ids, h.last, h.block⟩

namespace HoldsBlocks

/-- Counted down from a stored block, the blocks before it follow. -/
theorem getBlockBatchSeq (h : HoldsBlocks blocks db) {start : Nat} (hstart : start ≤ blocks.length)
    (i limit : Nat) : db.getBlockBatchSeq (blockIdsBefore start i limit) =
      ((blocks.take (start - i)).reverse).take limit := by
  induction limit generalizing i with
  | zero => rfl
  | succ limit ih =>
      rw [blockIdsBefore]
      rcases hid : start - i with _ | k
      · rfl
      · have hlt : k < blocks.length := by omega
        have hblock : db.blocks.lookup (k + 1) = some blocks[k] :=
          (h.block k).trans (List.getElem?_eq_getElem hlt)
        have hnext : start - (i + 1) = k := by omega
        rw [if_neg (Nat.succ_ne_zero k), IndexerDb.getBlockBatchSeq, hblock, ih, hnext,
          List.take_succ_eq_append_getElem hlt, List.reverse_concat, List.take_succ_cons]

/-- A page that starts beyond the last block is empty. -/
theorem getBlockBatchSeq_of_lt (h : HoldsBlocks blocks db) {start : Nat}
    (hstart : blocks.length < start) (limit : Nat) :
    db.getBlockBatchSeq (blockIdsBefore start 0 limit) = [] := by
  obtain ⟨k, rfl⟩ := Nat.exists_eq_succ_of_ne_zero (Nat.ne_zero_of_lt hstart)
  cases limit with
  | zero => rfl
  | succ limit =>
      have hblock : db.blocks.lookup (k + 1) = none :=
        (h.block k).trans (List.getElem?_eq_none (Nat.le_of_lt_succ hstart))
      rw [blockIdsBefore, Nat.sub_zero, if_neg (Nat.succ_ne_zero k), IndexerDb.getBlockBatchSeq,
        hblock]

theorem getBlockBatch_none (h : HoldsBlocks blocks db) (limit : Nat) :
    db.getBlockBatch none limit = newestBlocks blocks none limit := by
  have hall : newestBlocks blocks none limit = blocks.reverse.take limit := by
    simp [newestBlocks]
  have hlast := h.last
  rw [hall, getBlockBatch]
  rw [lastBlockId] at hlast
  rcases hdb : db.lastBlock with _ | last
  · rw [hdb, Option.getD_none] at hlast
    rw [List.length_eq_zero_iff.1 hlast.symm, List.reverse_nil, List.take_nil]
  · rw [hdb, Option.getD_some] at hlast
    subst hlast
    exact (h.getBlockBatchSeq le_rfl 0 limit).trans (by rw [Nat.sub_zero, List.take_length])

theorem newestBlocks_some (h : HoldsBlocks blocks db) (n limit : Nat) :
    newestBlocks blocks (some n) limit = ((blocks.take (n - 1)).reverse).take limit := by
  rw [← h.ids.filter_lt n]
  simp [newestBlocks]

theorem getBlockBatch_some (h : HoldsBlocks blocks db) {n : Nat} (hn : n ≤ blocks.length + 1)
    (limit : Nat) : db.getBlockBatch (some n) limit = newestBlocks blocks (some n) limit := by
  rw [h.newestBlocks_some]
  exact h.getBlockBatchSeq (Nat.sub_le_of_le_add hn) 0 limit

end HoldsBlocks

/-- **Pages.**  The page before an id lists the newest blocks below the id if and only if the
id is at most the one after the last block, or there is nothing to list. -/
theorem block_page_iff (h : HoldsBlocks blocks db) (before : Option Nat) (limit : Nat) :
    db.getBlockBatch before limit = newestBlocks blocks before limit ↔
      (∀ n ∈ before, n ≤ blocks.length + 1) ∨ limit = 0 ∨ blocks = [] := by
  cases before with
  | none =>
      simp only [Option.not_mem_none, false_implies, implies_true, true_or, iff_true]
      exact h.getBlockBatch_none limit
  | some n =>
      simp only [Option.mem_some_iff, forall_eq']
      by_cases hn : n ≤ blocks.length + 1
      · exact iff_of_true (h.getBlockBatch_some hn limit) (.inl hn)
      · have hempty : db.getBlockBatch (some n) limit = [] :=
          h.getBlockBatchSeq_of_lt (by omega) limit
        have hall : blocks.take (n - 1) = blocks := List.take_of_length_le (by omega)
        rw [hempty, h.newestBlocks_some, hall, eq_comm, List.take_eq_nil_iff,
          List.reverse_eq_nil_iff]
        simp only [hn, false_or]

end IndexerDb

namespace ClockOnly

/-- A new database is given blocks without user transactions. -/
theorem exists_holdsBlocks {n : Nat} (hn : n < 2 ^ 64) :
    let _ := Sample.sha256; let _ := Sample.zkvm Sample.clockScript; let _ := Sample.schnorr
    let _ := Sample.builtins; let _ := Sample.clockCodec
    ∃ db, Run (IndexerDb.Step genesis) (IndexerDb.fresh genesis) (IndexerDb.puts (chain n)) db ∧
      IndexerDb.HoldsBlocks (chain n) db := by
  intro _ _ _ _ _
  obtain ⟨st, hvalid⟩ := chain_valid hn
  obtain ⟨db, hrun, hdb, _⟩ := (IndexerDb.counted_fresh genesis).exists_run_puts
    (IndexerDb.indexes_fresh genesis) le_rfl (Nat.zero_le _) (chain_consecutive hn) hvalid rfl
  exact ⟨db, hrun, hdb.holdsBlocks⟩

end ClockOnly

/-- Three blocks are stored.  The page of two blocks before block `10` is empty, where the one
without a bound lists the blocks `3` and `2`. -/
theorem page_beyond_tip_is_empty :
    let _ := Sample.sha256; let _ := Sample.zkvm Sample.clockScript; let _ := Sample.schnorr
    let _ := Sample.builtins; let _ := Sample.clockCodec
    ∃ db, Run (IndexerDb.Step ClockOnly.genesis) (IndexerDb.fresh ClockOnly.genesis)
        (IndexerDb.puts (ClockOnly.chain 3)) db ∧
      IndexerDb.HoldsBlocks (ClockOnly.chain 3) db ∧
      db.getBlockBatch (some 10) 2 = [] ∧
      ((newestBlocks (ClockOnly.chain 3) (some 10) 2).map (·.header.blockId)) = [3, 2] ∧
      ((db.getBlockBatch none 2).map (·.header.blockId)) = [3, 2] := by
  intro _ _ _ _ _
  obtain ⟨db, hrun, hdb⟩ := ClockOnly.exists_holdsBlocks (n := 3) (by decide)
  have hlen : (ClockOnly.chain 3).length < 10 - 1 := by
    rw [ClockOnly.chain_length]
    decide
  have hnewest : ((newestBlocks (ClockOnly.chain 3) (some 10) 2).map (·.header.blockId)) = [3, 2] ∧
      ((newestBlocks (ClockOnly.chain 3) none 2).map (·.header.blockId)) = [3, 2] := by
    decide +kernel
  refine ⟨db, hrun, hdb, hdb.getBlockBatchSeq_of_lt hlen 2, hnewest.1, ?_⟩
  rw [hdb.getBlockBatch_none]
  exact hnewest.2

/-- The page of two blocks before block `3` of the same database. -/
theorem block_page_before_third :
    let _ := Sample.sha256; let _ := Sample.zkvm Sample.clockScript; let _ := Sample.schnorr
    let _ := Sample.builtins; let _ := Sample.clockCodec
    ∃ db, IndexerDb.HoldsBlocks (ClockOnly.chain 3) db ∧
      db.getBlockBatch (some 3) 2 = newestBlocks (ClockOnly.chain 3) (some 3) 2 ∧
      ((newestBlocks (ClockOnly.chain 3) (some 3) 2).map (·.header.blockId)) = [2, 1] := by
  intro _ _ _ _ _
  obtain ⟨db, _, hdb⟩ := ClockOnly.exists_holdsBlocks (n := 3) (by decide)
  have hle : ∀ n ∈ some 3, n ≤ (ClockOnly.chain 3).length + 1 := by
    rw [ClockOnly.chain_length]
    decide
  refine ⟨db, hdb, (IndexerDb.block_page_iff hdb (some 3) 2).2 (.inl hle), ?_⟩
  decide +kernel

end ExecutionZone
