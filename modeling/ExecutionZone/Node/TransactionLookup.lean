import ExecutionZone.Lib.Run
import ExecutionZone.Node.SequencerStore

/-!
# Looking up transactions in the store of the sequencer

`get_transaction_by_hash` reads the id of a block from a map in memory and then the block from
the database.  The map grows with every update and is computed anew from the blocks when the
database is opened.

A store that is only extended by the next block, finalised and reopened holds a list of blocks
with consecutive ids, and the map is the one `open_db` computes from this list (`StoresChain`).
What the lookups return is a function of the list, and finalisation changes only the status of
the blocks in it.
-/

namespace ExecutionZone

/-! ## Lists and positions -/

section

universe u

variable {α : Type u}

theorem forall₂_range' {P : Nat → α → Prop} {first : Nat} {l : List α}
    (h : ∀ k a, l[k]? = some a → P (first + k) a) :
    List.Forall₂ P (List.range' first l.length) l := by
  induction l generalizing first with
  | nil => exact .nil
  | cons a l ih =>
      refine .cons (h 0 a rfl) (ih fun k b hk => ?_)
      have hsucc := h (k + 1) b hk
      rwa [Nat.add_comm k, ← Nat.add_assoc] at hsucc

end

/-! ## Finalisation -/

/-- A block after `clean_pending_blocks_up_to`. -/
def Block.finalizedUpTo (lastFinalized : BlockId) (b : Block) : Block :=
  if b.bedrockStatus = .pending ∧ b.header.blockId ≤ lastFinalized then b.finalized else b

/-- The status is all that may change. -/
def Block.SameButStatus (b b' : Block) : Prop :=
  b' = { b with bedrockStatus := b'.bedrockStatus }

theorem Block.sameButStatus_ite {p : Prop} [Decidable p] (b : Block) :
    b.SameButStatus (if p then b.finalized else b) := by
  split
  · exact rfl
  · exact rfl

namespace SequencerDb

variable {db db' : SequencerDb}

/-- A block that is there can be marked, and no other block changes. -/
theorem exists_markBlockAsFinalized {blockId : Nat}
    (hex : ∃ b, db.blocks.lookup blockId = some b) :
    ∃ db', db.markBlockAsFinalized blockId = .ok db' ∧ db' = { db with blocks := db'.blocks } ∧
      ∀ i, db'.blocks.lookup i =
        (db.blocks.lookup i).map fun b => if i = blockId then b.finalized else b := by
  obtain ⟨b, hb⟩ := hex
  refine ⟨{ db with blocks := db.blocks.insert blockId b.finalized }, ?_, rfl, fun i => ?_⟩
  · rw [markBlockAsFinalized, expect_eq_ok.2 hb]
    rfl
  · by_cases hi : i = blockId
    · subst hi
      rw [hb, Option.map_some, if_pos rfl]
      exact AList.lookup_insert _
    · simp only [if_neg hi, Option.map_id']
      exact AList.lookup_insert_ne hi

/-- Marking blocks one after the other. -/
theorem exists_foldlM_mark {ids : List Nat} (hids : ∀ i ∈ ids, ∃ b, db.blocks.lookup i = some b) :
    ∃ db', ids.foldlM markBlockAsFinalized db = .ok db' ∧ db' = { db with blocks := db'.blocks } ∧
      ∀ i, db'.blocks.lookup i =
        (db.blocks.lookup i).map fun b => if i ∈ ids then b.finalized else b := by
  induction ids generalizing db with
  | nil =>
      refine ⟨db, rfl, rfl, fun i => ?_⟩
      simp only [List.not_mem_nil, if_false, Option.map_id']
  | cons j ids ih =>
      obtain ⟨db₁, hmark, heq₁, hlookup⟩ := exists_markBlockAsFinalized (hids j List.mem_cons_self)
      have hids₁ : ∀ i ∈ ids, ∃ b, db₁.blocks.lookup i = some b := by
        intro i hi
        obtain ⟨b, hb⟩ := hids i (List.mem_cons_of_mem _ hi)
        exact ⟨_, by rw [hlookup, hb, Option.map_some]⟩
      obtain ⟨db', hdb', heq, hblocks⟩ := ih hids₁
      refine ⟨db', ?_, ?_, fun i => ?_⟩
      · rw [List.foldlM_cons, hmark]
        exact hdb'
      · rw [heq, heq₁]
      · rw [hblocks, hlookup, Option.map_map]
        congr 1
        funext b
        by_cases hi : i = j <;> by_cases hmem : i ∈ ids <;> simp [hi, hmem, Block.finalized]

/-- Every block is stored under its own id. -/
def KeyedById (db : SequencerDb) : Prop :=
  ∀ i b, db.blocks.lookup i = some b → b.header.blockId.toNat = i

/-- A block that can be marked is there. -/
theorem KeyedById.mark (h : db.KeyedById) {blockId : Nat}
    (hmark : db.markBlockAsFinalized blockId = .ok db') :
    db' = { db with blocks := db'.blocks } ∧
      ∀ i, db'.blocks.lookup i = (db.blocks.lookup i).map fun b =>
        if b.header.blockId.toNat = blockId then b.finalized else b := by
  obtain ⟨b, hb, _⟩ := bind_eq_ok.1 hmark
  obtain ⟨db'', hmark', heq, hlookup⟩ := exists_markBlockAsFinalized ⟨b, expect_eq_ok.1 hb⟩
  cases hmark.symm.trans hmark'
  refine ⟨heq, fun i => (hlookup i).trans (Option.map_congr fun b hb => ?_)⟩
  rw [h i b hb]

/-- Finalisation succeeds, whatever id it gets. -/
theorem KeyedById.exists_clean (h : db.KeyedById) (lastFinalized : BlockId) :
    ∃ db', db.cleanPendingBlocksUpTo lastFinalized = .ok db' ∧
      db' = { db with blocks := db'.blocks } ∧
      ∀ i, db'.blocks.lookup i = (db.blocks.lookup i).map (Block.finalizedUpTo lastFinalized) := by
  let pendingIds := ((Ledger.pairs db.blocks).map Prod.snd).filterMap fun b =>
    if b.bedrockStatus = .pending ∧ b.header.blockId ≤ lastFinalized then
      some b.header.blockId.toNat
    else none
  have hmem : ∀ i, i ∈ pendingIds ↔ ∃ b, db.blocks.lookup i = some b ∧
      b.bedrockStatus = .pending ∧ b.header.blockId ≤ lastFinalized := by
    intro i
    simp only [pendingIds, List.mem_filterMap, List.mem_map, Prod.exists, exists_eq_right,
      Ledger.mem_pairs, Option.ite_none_right_eq_some, Option.some.injEq]
    constructor
    · rintro ⟨b, ⟨j, hj⟩, hpending, rfl⟩
      exact ⟨b, (h j b hj).symm ▸ hj, hpending⟩
    · rintro ⟨b, hb, hpending⟩
      exact ⟨b, ⟨i, hb⟩, hpending, h i b hb⟩
  have hstored : ∀ i ∈ pendingIds, ∃ b, db.blocks.lookup i = some b :=
    fun i hi => ((hmem i).1 hi).imp fun _ hb => hb.1
  obtain ⟨db', hdb', heq, hblocks⟩ := exists_foldlM_mark hstored
  refine ⟨db', hdb', heq, fun i => ?_⟩
  rw [hblocks]
  refine Option.map_congr fun b hb => ?_
  have hiff : i ∈ pendingIds ↔ b.bedrockStatus = .pending ∧ b.header.blockId ≤ lastFinalized := by
    rw [hmem]
    exact ⟨fun ⟨b', hb', hp⟩ => Option.some.inj (hb'.symm.trans hb) ▸ hp, fun hp => ⟨b, hb, hp⟩⟩
  simp only [Block.finalizedUpTo, hiff]

end SequencerDb

/-! ## Lookups -/

namespace SequencerStore

section

variable [Sha256]

/-- `get_transaction_by_hash`. -/
def getTransactionByHash (store : SequencerStore) (hash : Bytes32) :
    Except Panic (Option NSSATransaction) :=
  match store.txHashToBlockMap.lookup hash with
  | none => .ok none
  | some blockId => do
      let block ← expect (store.dbio.blocks.lookup blockId.toNat)
        "Block should be present since the hash is in the map"
      let transaction ← expect (block.transactions.find? fun tx => tx.hash = hash)
        ("Transaction hash was in the map but transaction was not found in the block. " ++
          "This should never happen.")
      return some transaction

/-- A stored block contains the transaction. -/
def Contains (store : SequencerStore) (tx : NSSATransaction) : Prop :=
  ∃ i b, store.dbio.blocks.lookup i = some b ∧ tx ∈ b.transactions

/-! ## The blocks of a store -/

/-- The map from hashes to block ids for a list of blocks. -/
def txHashToBlockMapOf (chain : List Block) : Ledger.Map Bytes32 BlockId :=
  Ledger.insertAll ∅ (chain.flatMap blockToTransactionsMap)

/-- The store has the blocks `chain`, with consecutive ids from `first` on, the last of them is
the latest one, and the map is theirs. -/
structure StoresChain (store : SequencerStore) (first : Nat) (chain : List Block) : Prop where
  nonempty : chain ≠ []
  firstBlock : store.dbio.firstBlockInDb.toNat = first
  lastBlock : store.dbio.lastBlockInDb.toNat + 1 = first + chain.length
  latestBlock : store.dbio.latestBlockMeta.id.toNat + 1 = first + chain.length
  blockId : ∀ k b, chain[k]? = some b → b.header.blockId.toNat = first + k
  lookup : ∀ i, store.dbio.blocks.lookup i = if first ≤ i then chain[i - first]? else none
  map : store.txHashToBlockMap = txHashToBlockMapOf chain

namespace StoresChain

variable {store : SequencerStore} {first : Nat} {chain : List Block}

theorem lookup_add (h : store.StoresChain first chain) (k : Nat) :
    store.dbio.blocks.lookup (first + k) = chain[k]? := by
  rw [h.lookup, if_pos (Nat.le_add_right _ _), Nat.add_sub_cancel_left]

theorem lookup_of_mem (h : store.StoresChain first chain) {b : Block} (hb : b ∈ chain) :
    store.dbio.blocks.lookup b.header.blockId.toNat = some b := by
  obtain ⟨k, hk⟩ := List.mem_iff_getElem?.1 hb
  rw [h.blockId k b hk, h.lookup_add, hk]

theorem exists_of_lookup (h : store.StoresChain first chain) {i : Nat} {b : Block}
    (hb : store.dbio.blocks.lookup i = some b) : ∃ k, i = first + k ∧ chain[k]? = some b := by
  rw [h.lookup] at hb
  split at hb
  case isTrue hi => exact ⟨i - first, (Nat.add_sub_cancel' hi).symm, hb⟩
  case isFalse => cases hb

theorem keyedById (h : store.StoresChain first chain) : store.dbio.KeyedById := by
  intro i b hb
  obtain ⟨k, rfl, hk⟩ := h.exists_of_lookup hb
  exact h.blockId k b hk

theorem contains_iff (h : store.StoresChain first chain) {tx : NSSATransaction} :
    store.Contains tx ↔ ∃ b ∈ chain, tx ∈ b.transactions := by
  constructor
  · rintro ⟨i, b, hb, htx⟩
    obtain ⟨k, rfl, hk⟩ := h.exists_of_lookup hb
    exact ⟨b, List.mem_of_getElem? hk, htx⟩
  · rintro ⟨b, hb, htx⟩
    exact ⟨_, b, h.lookup_of_mem hb, htx⟩

theorem mem_keys_iff {hash : Bytes32} :
    hash ∈ (chain.flatMap blockToTransactionsMap).map Prod.fst ↔
      ∃ b ∈ chain, ∃ tx ∈ b.transactions, tx.hash = hash := by
  simp [blockToTransactionsMap]

/-- A hash that no stored transaction has. -/
theorem getTransactionByHash_eq_none (h : store.StoresChain first chain) {hash : Bytes32}
    (hno : ¬ ∃ tx, store.Contains tx ∧ tx.hash = hash) :
    store.getTransactionByHash hash = .ok none := by
  have hkey : hash ∉ (chain.flatMap blockToTransactionsMap).map Prod.fst := by
    rw [mem_keys_iff]
    rintro ⟨b, hb, tx, htx, hhash⟩
    exact hno ⟨tx, h.contains_iff.2 ⟨b, hb, htx⟩, hhash⟩
  rw [getTransactionByHash, h.map, txHashToBlockMapOf, Ledger.lookup_insertAll_of_notMem hkey]
  rfl

/-- A hash that a stored transaction has: neither `expect` fails. -/
theorem exists_getTransactionByHash (h : store.StoresChain first chain) {hash : Bytes32}
    (hex : ∃ tx, store.Contains tx ∧ tx.hash = hash) :
    ∃ tx, store.getTransactionByHash hash = .ok (some tx) ∧ store.Contains tx ∧
      tx.hash = hash := by
  obtain ⟨tx, htx, hhash⟩ := hex
  obtain ⟨b, hb, hmem⟩ := h.contains_iff.1 htx
  obtain ⟨id, hid, hentry⟩ : ∃ id, store.txHashToBlockMap.lookup hash = some id ∧
      (hash, id) ∈ chain.flatMap blockToTransactionsMap := by
    rw [h.map]
    exact Ledger.exists_lookup_insertAll (mem_keys_iff.2 ⟨b, hb, tx, hmem, hhash⟩)
  -- The entry may be for another block than `b`, if that one has the hash as well.
  obtain ⟨b', hb', hentry⟩ := List.mem_flatMap.1 hentry
  obtain ⟨tx', htx', heq⟩ := List.mem_map.1 hentry
  cases heq
  obtain ⟨found, hfound⟩ : ∃ found, b'.transactions.find? (fun tx => tx.hash = tx'.hash) =
      some found := by
    rw [← Option.isSome_iff_exists, List.find?_isSome]
    exact ⟨tx', htx', decide_eq_true rfl⟩
  have hhash' : found.hash = tx'.hash := by simpa using List.find?_some hfound
  refine ⟨found, ?_, h.contains_iff.2 ⟨b', hb', List.mem_of_find?_eq_some hfound⟩, hhash'⟩
  simp only [getTransactionByHash, hid, h.lookup_of_mem hb']
  exact bind_eq_ok.2 ⟨b', rfl, bind_eq_ok.2 ⟨found, expect_eq_ok.2 hfound, rfl⟩⟩

theorem exists_getTransactionByHash_eq_ok (h : store.StoresChain first chain) (hash : Bytes32) :
    ∃ answer, store.getTransactionByHash hash = .ok answer := by
  by_cases hex : ∃ tx, store.Contains tx ∧ tx.hash = hash
  · obtain ⟨tx, htx, _⟩ := h.exists_getTransactionByHash hex
    exact ⟨some tx, htx⟩
  · exact ⟨none, h.getTransactionByHash_eq_none hex⟩

theorem getTransactionByHash_eq_some_iff (h : store.StoresChain first chain)
    (hinj : Set.InjOn NSSATransaction.hash {tx | store.Contains tx}) {hash : Bytes32}
    {tx : NSSATransaction} :
    store.getTransactionByHash hash = .ok (some tx) ↔ store.Contains tx ∧ tx.hash = hash := by
  by_cases hex : ∃ tx, store.Contains tx ∧ tx.hash = hash
  · obtain ⟨tx', hget, htx', hhash'⟩ := h.exists_getTransactionByHash hex
    rw [hget, Except.ok.injEq, Option.some.injEq]
    constructor
    · rintro rfl
      exact ⟨htx', hhash'⟩
    · rintro ⟨htx, hhash⟩
      exact hinj htx' htx (hhash'.trans hhash.symm)
  · rw [h.getTransactionByHash_eq_none hex]
    refine ⟨fun heq => ?_, fun htx => absurd ⟨tx, htx⟩ hex⟩
    cases Except.ok.inj heq

/-! ### What the operations do to the blocks -/

theorem create (genesisBlock : Block) (genesisMsgId : Bytes32) (genesisState : V03State)
    (signingKey : PrivateKey) :
    (createDbWithGenesis genesisBlock genesisMsgId genesisState signingKey).StoresChain
      genesisBlock.header.blockId.toNat [genesisBlock] where
  nonempty := List.cons_ne_nil _ _
  firstBlock := rfl
  lastBlock := rfl
  latestBlock := rfl
  blockId k b hk := by
    obtain ⟨rfl, rfl⟩ : k = 0 ∧ genesisBlock = b := by simpa [List.getElem?_singleton] using hk
    rfl
  lookup i := by
    by_cases hi : i = genesisBlock.header.blockId.toNat
    · subst hi
      rw [if_pos (Nat.le_refl _), Nat.sub_self]
      exact AList.lookup_insert _
    · refine (AList.lookup_insert_ne hi).trans ?_
      split
      case isTrue hle =>
        rw [List.getElem?_eq_none]
        · rfl
        · exact Nat.sub_pos_of_lt (Nat.lt_of_le_of_ne hle (Ne.symm hi))
      case isFalse => rfl
  map := by
    rw [txHashToBlockMapOf, List.flatMap_singleton]
    rfl

/-- The next block. -/
theorem update (h : store.StoresChain first chain) {block : Block}
    (hnext : block.header.blockId.toNat = store.dbio.latestBlockMeta.id.toNat + 1)
    (msgId : Bytes32) (state : V03State) :
    (store.update block msgId state).StoresChain first (chain ++ [block]) := by
  have hid : block.header.blockId.toNat = first + chain.length := hnext.trans h.latestBlock
  have hlt : store.dbio.lastBlockInDb < block.header.blockId := by
    rw [UInt64.lt_iff_toNat_lt, hid, ← h.lastBlock]
    exact Nat.lt_succ_self _
  have hdb : store.dbio.atomicUpdate block msgId state =
      { store.dbio with
        blocks := store.dbio.blocks.insert block.header.blockId.toNat block
        lastBlockInDb := block.header.blockId
        latestBlockMeta := ⟨block.header.blockId, block.header.hash, msgId⟩
        nssaState := state } := by
    rw [SequencerDb.atomicUpdate, if_pos hlt]
  have hlen : first + (chain ++ [block]).length = block.header.blockId.toNat + 1 := by
    rw [List.length_append, List.length_singleton, hid, Nat.add_assoc]
  rw [SequencerStore.update, hdb]
  refine ⟨List.append_ne_nil_of_right_ne_nil _ (List.cons_ne_nil _ _), h.firstBlock, hlen.symm,
    hlen.symm, fun k b hk => ?_, fun i => ?_, ?_⟩
  · rw [Replay.getElem?_concat] at hk
    split at hk
    case isTrue hlast =>
      cases hk
      rw [hlast, hid]
    case isFalse => exact h.blockId k b hk
  · by_cases hi : i = block.header.blockId.toNat
    · subst hi
      rw [if_pos (hid ▸ Nat.le_add_right _ _), Replay.getElem?_concat,
        if_pos (by rw [hid, Nat.add_sub_cancel_left])]
      exact AList.lookup_insert _
    · refine (AList.lookup_insert_ne hi).trans ((h.lookup i).trans ?_)
      split
      case isTrue hle =>
        rw [Replay.getElem?_concat, if_neg]
        intro hlast
        exact hi (by rw [hid, ← hlast, Nat.add_sub_cancel' hle])
      case isFalse => rfl
  · rw [txHashToBlockMapOf, List.flatMap_append, Ledger.insertAll_append, List.flatMap_singleton,
      ← txHashToBlockMapOf, ← h.map]

/-- Blocks that change in nothing but their status. -/
theorem changeStatus (h : store.StoresChain first chain) {dbio : SequencerDb} {f : Block → Block}
    (hdb : dbio = { store.dbio with blocks := dbio.blocks })
    (hf : ∀ b : Block, b.SameButStatus (f b))
    (hlookup : ∀ i, dbio.blocks.lookup i = (store.dbio.blocks.lookup i).map f) :
    SequencerStore.StoresChain { store with dbio } first (chain.map f) where
  nonempty := by simpa using h.nonempty
  firstBlock := by
    rw [hdb]
    exact h.firstBlock
  lastBlock := by
    rw [hdb, List.length_map]
    exact h.lastBlock
  latestBlock := by
    rw [hdb, List.length_map]
    exact h.latestBlock
  blockId k b' hk := by
    rw [List.getElem?_map, Option.map_eq_some_iff] at hk
    obtain ⟨b, hb, rfl⟩ := hk
    rw [hf b]
    exact h.blockId k b hb
  lookup i := by
    rw [hlookup, h.lookup, List.getElem?_map]
    split <;> rfl
  map := by
    have hmap : ∀ b, blockToTransactionsMap (f b) = blockToTransactionsMap b := by
      intro b
      rw [hf b]
      rfl
    rw [txHashToBlockMapOf, List.flatMap_map]
    simp only [hmap]
    exact h.map

/-- What `open_db` computes is what the store had. -/
theorem openDb_eq (h : store.StoresChain first chain) (signingKey : PrivateKey) :
    openDb store.dbio signingKey =
      .ok ⟨store.dbio, store.txHashToBlockMap, store.dbio.firstBlockInDb, signingKey⟩ := by
  have hlen : store.dbio.latestBlockMeta.id.toNat + 1 - store.dbio.firstBlockInDb.toNat =
      chain.length := by
    rw [h.latestBlock, h.firstBlock, Nat.add_sub_cancel_left]
  have hblocks : List.Forall₂ (fun i b => store.dbio.blocks.lookup i = some b)
      (List.range' first chain.length) chain :=
    forall₂_range' fun k b hk => (h.lookup_add k).trans hk
  rw [openDb, hlen, h.firstBlock, SequencerDb.foldlM_load hblocks ∅, h.map]
  rfl

theorem reopen (h : store.StoresChain first chain) (signingKey : PrivateKey) :
    StoresChain ⟨store.dbio, store.txHashToBlockMap, store.dbio.firstBlockInDb, signingKey⟩ first
      chain :=
  ⟨h.nonempty, h.firstBlock, h.lastBlock, h.latestBlock, h.blockId, h.lookup, h.map⟩

theorem clean (h : store.StoresChain first chain) {dbio : SequencerDb} {lastFinalized : BlockId}
    (hclean : store.dbio.cleanPendingBlocksUpTo lastFinalized = .ok dbio) :
    StoresChain { store with dbio } first (chain.map (Block.finalizedUpTo lastFinalized)) := by
  obtain ⟨dbio', hclean', hdb, hlookup⟩ := h.keyedById.exists_clean lastFinalized
  cases hclean.symm.trans hclean'
  exact h.changeStatus hdb (fun _ => Block.sameButStatus_ite _) hlookup

end StoresChain

/-! ## Runs -/

/-- What may happen to a store. -/
inductive StoreEvent where
  | update (block : Block) (msgId : Bytes32) (state : V03State)
  | cleanPendingBlocksUpTo (lastFinalized : BlockId)
  | markBlockAsFinalized (blockId : BlockId)
  | reopen (signingKey : PrivateKey)

/-- An event happens.  A new block has the id after the latest one. -/
def Step (store : SequencerStore) (event : StoreEvent) (store' : SequencerStore) : Prop :=
  match event with
  | .update block msgId state =>
      block.header.blockId.toNat = store.dbio.latestBlockMeta.id.toNat + 1 ∧
        store.update block msgId state = store'
  | .cleanPendingBlocksUpTo lastFinalized =>
      ∃ dbio, store.dbio.cleanPendingBlocksUpTo lastFinalized = .ok dbio ∧
        { store with dbio } = store'
  | .markBlockAsFinalized blockId =>
      ∃ dbio, store.dbio.markBlockAsFinalized blockId.toNat = .ok dbio ∧
        { store with dbio } = store'
  | .reopen signingKey => openDb store.dbio signingKey = .ok store'

/-- The blocks of a store after a step. -/
theorem StoresChain.step {store store' : SequencerStore} {event : StoreEvent} {first : Nat}
    {chain : List Block} (h : store.StoresChain first chain) (hstep : store.Step event store') :
    ∃ chain', store'.StoresChain first chain' := by
  cases event with
  | update block msgId state =>
      obtain ⟨hnext, rfl⟩ := hstep
      exact ⟨_, h.update hnext msgId state⟩
  | cleanPendingBlocksUpTo lastFinalized =>
      obtain ⟨dbio, hclean, rfl⟩ := hstep
      exact ⟨_, h.clean hclean⟩
  | markBlockAsFinalized blockId =>
      obtain ⟨dbio, hmark, rfl⟩ := hstep
      obtain ⟨hdb, hlookup⟩ := h.keyedById.mark hmark
      exact ⟨_, h.changeStatus hdb (fun _ => Block.sameButStatus_ite _) hlookup⟩
  | reopen signingKey =>
      cases (h.openDb_eq signingKey).symm.trans hstep
      exact ⟨chain, h.reopen signingKey⟩

theorem StoresChain.of_run {genesisBlock : Block} {genesisMsgId : Bytes32}
    {genesisState : V03State} {signingKey : PrivateKey} {events : List StoreEvent}
    {store : SequencerStore}
    (h : Run Step (createDbWithGenesis genesisBlock genesisMsgId genesisState signingKey) events
      store) :
    ∃ chain, store.StoresChain genesisBlock.header.blockId.toNat chain := by
  induction h with
  | nil => exact ⟨_, create _ _ _ _⟩
  | snoc _ hstep ih =>
      obtain ⟨chain, hchain⟩ := ih
      exact hchain.step hstep

/-- After any run, where different stored transactions have different hashes: a lookup does not
panic and finds exactly the stored transactions; the database can be reopened, and every lookup
has the same answer then; and finalisation up to any id succeeds and changes nothing but the
status of the pending blocks up to this id. -/
theorem lookups_survive_restarts (genesisBlock : Block) (genesisMsgId : Bytes32)
    (genesisState : V03State) (signingKey : PrivateKey) (events : List StoreEvent)
    (store : SequencerStore)
    (hrun : Run Step (createDbWithGenesis genesisBlock genesisMsgId genesisState signingKey) events
      store)
    (hinj : Set.InjOn NSSATransaction.hash {tx | store.Contains tx}) :
    (∀ hash, ∃ answer, store.getTransactionByHash hash = .ok answer) ∧
      (∀ hash tx, store.getTransactionByHash hash = .ok (some tx) ↔
        store.Contains tx ∧ tx.hash = hash) ∧
      (∀ key, ∃ store', store.Step (.reopen key) store' ∧
        ∀ hash, store'.getTransactionByHash hash = store.getTransactionByHash hash) ∧
      (∀ lastFinalized, ∃ dbio, store.Step (.cleanPendingBlocksUpTo lastFinalized)
          { store with dbio } ∧
        dbio = { store.dbio with blocks := dbio.blocks } ∧
        ∀ i, dbio.blocks.lookup i =
          (store.dbio.blocks.lookup i).map (Block.finalizedUpTo lastFinalized)) := by
  obtain ⟨chain, h⟩ := StoresChain.of_run hrun
  refine ⟨h.exists_getTransactionByHash_eq_ok, fun _ _ => h.getTransactionByHash_eq_some_iff hinj,
    fun key => ⟨_, h.openDb_eq key, fun _ => rfl⟩, fun lastFinalized => ?_⟩
  obtain ⟨dbio, hclean, hdb, hlookup⟩ := h.keyedById.exists_clean lastFinalized
  exact ⟨dbio, ⟨dbio, hclean, rfl⟩, hdb, hlookup⟩

end

namespace TwoBlocks

def transaction (n : UInt8) : NSSATransaction :=
  .publicTx (Sample.transaction (Sample.programId n) [] [] [])

/-- The block with the given id and the transaction of this number. -/
def block (id : UInt64) : Block :=
  ⟨⟨id, Bytes32.zero, Bytes32.zero, 0, ⟨Vector.replicate 64 0⟩⟩, [transaction id.toUInt8],
    .pending, Bytes32.zero⟩

def created : SequencerStore :=
  let _ := Sample.sha256
  createDbWithGenesis (block 1) Bytes32.zero (Sample.state [] []) ⟨Bytes32.zero⟩

/-- A second block, its predecessor final, and a restart. -/
def events : List StoreEvent :=
  [.update (block 2) Bytes32.zero (Sample.state [] []), .cleanPendingBlocksUpTo 1,
    .reopen ⟨Bytes32.zero⟩]

theorem exists_run :
    let _ := Sample.sha256
    ∃ store, Run Step created events store ∧ store.StoresChain 1 [(block 1).finalized, block 2] := by
  intro _
  have hcreated : created.StoresChain 1 [block 1] := StoresChain.create _ _ _ _
  let updated := created.update (block 2) Bytes32.zero (Sample.state [] [])
  have hupdated : updated.StoresChain 1 [block 1, block 2] := hcreated.update rfl _ _
  obtain ⟨dbio, hclean, _⟩ := hupdated.keyedById.exists_clean 1
  have hcleaned := hupdated.clean hclean
  have hstep : updated.Step (.cleanPendingBlocksUpTo 1) { updated with dbio } :=
    ⟨dbio, hclean, rfl⟩
  exact ⟨_, .cons ⟨rfl, rfl⟩ (.cons hstep (.cons (hcleaned.openDb_eq ⟨Bytes32.zero⟩) .nil)),
    hcleaned.reopen ⟨Bytes32.zero⟩⟩

end TwoBlocks

/-- The transaction of the second block is found, then and after another restart. -/
theorem lookups_survive_restarts_two_blocks :
    let _ := Sample.sha256
    let tx := TwoBlocks.transaction 2
    ∃ store store',
      Run Step TwoBlocks.created TwoBlocks.events store ∧
      store.dbio.blocks.lookup 1 = some (TwoBlocks.block 1).finalized ∧
      store.getTransactionByHash tx.hash = .ok (some tx) ∧
      store.Step (.reopen ⟨Bytes32.zero⟩) store' ∧
      store'.getTransactionByHash tx.hash = .ok (some tx) := by
  intro _ tx
  obtain ⟨store, hrun, h⟩ := TwoBlocks.exists_run
  have hcontains : ∀ tx', store.Contains tx' ↔ tx' = TwoBlocks.transaction 1 ∨ tx' = tx := by
    intro tx'
    rw [h.contains_iff]
    simp [TwoBlocks.block, Block.finalized, tx]
  have hne : (TwoBlocks.transaction 1).hash ≠ tx.hash := by decide +kernel
  have hinj : Set.InjOn NSSATransaction.hash {tx' | store.Contains tx'} := by
    rintro tx₁ h₁ tx₂ h₂ heq
    rcases (hcontains tx₁).1 h₁ with rfl | rfl <;> rcases (hcontains tx₂).1 h₂ with rfl | rfl
    · rfl
    · exact absurd heq hne
    · exact absurd heq.symm hne
    · rfl
  obtain ⟨_, hfound, hreopen, _⟩ := lookups_survive_restarts _ _ _ _ _ _ hrun hinj
  obtain ⟨store', hstep, hsame⟩ := hreopen ⟨Bytes32.zero⟩
  have hget := (hfound tx.hash tx).2 ⟨(hcontains tx).2 (.inr rfl), rfl⟩
  exact ⟨store, store', hrun, h.lookup_add 0, hget, hstep, (hsame _).trans hget⟩

end SequencerStore

end ExecutionZone
