import ExecutionZone.Node.IndexerDb

/-!
# The store of the sequencer

`storage::sequencer` and `sequencer_core::block_store`: the blocks by id, the id and hash of
the latest one and the state after it, which are written together, and the block of every
transaction hash, which is rebuilt from the blocks when the database is opened.
-/

namespace ExecutionZone

structure BlockMeta where
  id : BlockId
  hash : Bytes32
  msgId : Bytes32
deriving DecidableEq

/-! ## The database -/

/-- The contents of a database once it is created. -/
structure SequencerDb where
  blocks : Ledger.Map Nat Block
  firstBlockInDb : BlockId
  lastBlockInDb : BlockId
  latestBlockMeta : BlockMeta
  nssaState : V03State

namespace SequencerDb

/-- `create`, at a path without a database. -/
def create (genesisBlock : Block) (genesisMsgId : Bytes32) (genesisState : V03State) :
    SequencerDb where
  blocks := AList.insert genesisBlock.header.blockId.toNat genesisBlock ∅
  firstBlockInDb := genesisBlock.header.blockId
  lastBlockInDb := genesisBlock.header.blockId
  latestBlockMeta := ⟨genesisBlock.header.blockId, genesisBlock.header.hash, genesisMsgId⟩
  nssaState := genesisState

/-- `atomic_update`: the block and the state in one batch.  The block becomes the latest one
only if its id is larger. -/
def atomicUpdate (db : SequencerDb) (block : Block) (msgId : Bytes32) (state : V03State) :
    SequencerDb :=
  let db :=
    if db.lastBlockInDb < block.header.blockId then
      { db with
        lastBlockInDb := block.header.blockId
        latestBlockMeta := ⟨block.header.blockId, block.header.hash, msgId⟩ }
    else db
  { db with blocks := db.blocks.insert block.header.blockId.toNat block, nssaState := state }

/-- `mark_block_as_finalized`. -/
def markBlockAsFinalized (db : SequencerDb) (blockId : Nat) : DbResult SequencerDb := do
  let block ← expect (db.blocks.lookup blockId)
    (dbInteractionError ("Block with id " ++ toString blockId ++ " not found"))
  return { db with blocks := db.blocks.insert blockId block.finalized }

/-- `clean_pending_blocks_up_to`. -/
def cleanPendingBlocksUpTo (db : SequencerDb) (lastFinalized : BlockId) : DbResult SequencerDb :=
  let pendingIds := ((Ledger.pairs db.blocks).map Prod.snd).filterMap fun b =>
    if b.bedrockStatus = .pending ∧ b.header.blockId ≤ lastFinalized then
      some b.header.blockId.toNat
    else none
  pendingIds.foldlM markBlockAsFinalized db

end SequencerDb

/-! ## The store -/

structure SequencerStore where
  dbio : SequencerDb
  txHashToBlockMap : Ledger.Map Bytes32 BlockId
  genesisId : BlockId
  signingKey : PrivateKey

section

variable [Sha256]

/-- `block_to_transactions_map`. -/
def blockToTransactionsMap (block : Block) : List (Bytes32 × BlockId) :=
  block.transactions.map fun tx => (tx.hash, block.header.blockId)

namespace SequencerStore

/-- `open_db`, on the contents of the database at the path. -/
def openDb (dbio : SequencerDb) (signingKey : PrivateKey) : DbResult SequencerStore := do
  let genesisId := dbio.firstBlockInDb
  let lastId := dbio.latestBlockMeta.id
  let ids := List.range' genesisId.toNat (lastId.toNat + 1 - genesisId.toNat)
  let txHashToBlockMap ← ids.foldlM
    (fun map i => do
      let block ← expect (dbio.blocks.lookup i) (.panic "Block should be present in the database")
      return Ledger.insertAll map (blockToTransactionsMap block)) ∅
  return ⟨dbio, txHashToBlockMap, genesisId, signingKey⟩

/-- An opened store. -/
theorem openDb_eq_ok {dbio : SequencerDb} {signingKey : PrivateKey} {store : SequencerStore}
    (h : openDb dbio signingKey = .ok store) :
    store.dbio = dbio ∧ store.genesisId = dbio.firstBlockInDb ∧
      store.signingKey = signingKey := by
  obtain ⟨map, _, ⟨⟩⟩ := bind_eq_ok.1 h
  exact ⟨rfl, rfl, rfl⟩

/-- `create_db_with_genesis`. -/
def createDbWithGenesis (genesisBlock : Block) (genesisMsgId : Bytes32) (genesisState : V03State)
    (signingKey : PrivateKey) : SequencerStore :=
  let dbio := SequencerDb.create genesisBlock genesisMsgId genesisState
  ⟨dbio, Ledger.insertAll ∅ (blockToTransactionsMap genesisBlock), dbio.firstBlockInDb, signingKey⟩

/-- `update`. -/
def update (store : SequencerStore) (block : Block) (msgId : Bytes32) (state : V03State) :
    SequencerStore :=
  { store with
    dbio := store.dbio.atomicUpdate block msgId state
    txHashToBlockMap := Ledger.insertAll store.txHashToBlockMap (blockToTransactionsMap block) }

end SequencerStore

end

/-! ## What the database keeps -/

namespace SequencerDb

/-- The database has the blocks with the ids from `1` to `n`, the last of them is the latest
one, and `st` is the stored state. -/
structure Holds (db : SequencerDb) (n : Nat) (st : V03State) : Prop where
  first : db.firstBlockInDb = genesisBlockId
  last : db.lastBlockInDb.toNat = n
  latest : db.latestBlockMeta.id.toNat = n
  blocks : ∀ i, 1 ≤ i → i ≤ n → ∃ b, db.blocks.lookup i = some b
  state : db.nssaState = st

variable {db db' : SequencerDb} {n : Nat} {st st' : V03State} {b : Block}

theorem holds_create (hid : b.header.blockId = genesisBlockId) (msgId : Bytes32) :
    Holds (create b msgId st) 1 st := by
  refine ⟨hid, congrArg UInt64.toNat hid, congrArg UInt64.toNat hid, fun i hi hi' => ?_, rfl⟩
  obtain rfl : i = b.header.blockId.toNat := by
    rw [hid]
    exact Nat.le_antisymm hi' hi
  exact ⟨b, AList.lookup_insert _⟩

/-- The next block. -/
theorem Holds.atomicUpdate (h : Holds db n st) (hid : b.header.blockId.toNat = n + 1)
    (msgId : Bytes32) : Holds (db.atomicUpdate b msgId st') (n + 1) st' := by
  have hlt : db.lastBlockInDb < b.header.blockId := by
    rw [UInt64.lt_iff_toNat_lt, h.last, hid]
    exact Nat.lt_succ_self n
  rw [SequencerDb.atomicUpdate, if_pos hlt]
  refine ⟨h.first, hid, hid, fun i hi hi' => ?_, rfl⟩
  by_cases hlast : i = b.header.blockId.toNat
  · subst hlast
    exact ⟨b, AList.lookup_insert _⟩
  · have hne : i ≠ n + 1 := fun heq => hlast (heq.trans hid.symm)
    obtain ⟨b', hb'⟩ := h.blocks i hi (Nat.le_of_lt_succ (Nat.lt_of_le_of_ne hi' hne))
    exact ⟨b', (AList.lookup_insert_ne hlast).trans hb'⟩

theorem Holds.markBlockAsFinalized (h : Holds db n st) {blockId : Nat}
    (hmark : db.markBlockAsFinalized blockId = .ok db') : Holds db' n st := by
  simp only [SequencerDb.markBlockAsFinalized, bind_eq_ok, expect_eq_ok, pure, Except.pure,
    Except.ok.injEq] at hmark
  obtain ⟨b, _, rfl⟩ := hmark
  refine ⟨h.first, h.last, h.latest, fun i hi hi' => ?_, h.state⟩
  by_cases hmarked : i = blockId
  · subst hmarked
    exact ⟨b.finalized, AList.lookup_insert _⟩
  · obtain ⟨b', hb'⟩ := h.blocks i hi hi'
    exact ⟨b', (AList.lookup_insert_ne hmarked).trans hb'⟩

/-- Marking blocks as final keeps everything else. -/
theorem Holds.cleanPendingBlocksUpTo (h : Holds db n st) {lastFinalized : BlockId}
    (hclean : db.cleanPendingBlocksUpTo lastFinalized = .ok db') : Holds db' n st := by
  unfold SequencerDb.cleanPendingBlocksUpTo at hclean
  generalize ((Ledger.pairs db.blocks).map Prod.snd).filterMap _ = ids at hclean
  induction ids generalizing db with
  | nil =>
      cases hclean
      exact h
  | cons id ids ih =>
      rw [List.foldlM_cons, bind_eq_ok] at hclean
      obtain ⟨db₁, hmark, hclean⟩ := hclean
      exact ih (h.markBlockAsFinalized hmark) hclean

variable [Sha256]

/-- The loop of `open_db` writes the transactions of one block after the other. -/
theorem foldlM_load {ids : List Nat} {blocks : List Block}
    (h : List.Forall₂ (fun i b => db.blocks.lookup i = some b) ids blocks)
    (map : Ledger.Map Bytes32 BlockId) :
    ids.foldlM (fun map i => do
      let block ← expect (db.blocks.lookup i) (.panic "Block should be present in the database")
      return Ledger.insertAll map (blockToTransactionsMap block)) map =
        (.ok (Ledger.insertAll map (blocks.flatMap blockToTransactionsMap)) :
          DbResult (Ledger.Map Bytes32 BlockId)) := by
  induction h generalizing map with
  | nil => rfl
  | cons hb _ ih =>
      rw [List.foldlM_cons, hb, List.flatMap_cons, Ledger.insertAll_append]
      exact ih _

/-- Such a database can be opened. -/
theorem Holds.exists_openDb (h : Holds db n st) (signingKey : PrivateKey) :
    ∃ store, SequencerStore.openDb db signingKey = .ok store ∧ store.dbio = db := by
  have hids : ∀ i ∈ List.range' db.firstBlockInDb.toNat
      (db.latestBlockMeta.id.toNat + 1 - db.firstBlockInDb.toNat),
      ∃ b, expect (db.blocks.lookup i) () = .ok b := by
    intro i hi
    rw [h.first, h.latest, List.mem_range'_1] at hi
    have hone : genesisBlockId.toNat = 1 := rfl
    obtain ⟨b, hb⟩ := h.blocks i (hone ▸ hi.1) (by omega)
    exact ⟨b, expect_eq_ok.2 hb⟩
  obtain ⟨blocks, hblocks⟩ := exists_mapM_iff.2 hids
  have hload := foldlM_load ((forall₂_of_mapM hblocks).imp fun _ _ => expect_eq_ok.1) ∅
  refine ⟨⟨db, Ledger.insertAll ∅ (blocks.flatMap blockToTransactionsMap), db.firstBlockInDb,
    signingKey⟩, ?_, rfl⟩
  rw [SequencerStore.openDb, hload]
  rfl

end SequencerDb

end ExecutionZone
