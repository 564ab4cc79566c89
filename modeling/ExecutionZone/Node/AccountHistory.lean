import ExecutionZone.Lib.Postings
import ExecutionZone.Node.IndexerStore
import ExecutionZone.Transaction.Nonces

/-!
# The transactions of an account

The indexer files each transaction of a block under the accounts it declares,
`affected_public_account_ids`: its signers and the accounts its message names.
`get_acc_transactions` reads them back, and lists all transactions that declare the account
(`IndexesAccounts.getAccTransactions`).

A privacy-preserving transaction declares every account it changes.  A public one may not: the
outputs of chained calls may list any account whose value they know, and nothing compares
them with the message.  `undeclared_account_is_credited` is such a transaction.
`declared_accounts_cover_changes_iff` says that the declared accounts cover what changes exactly
where the outputs restore what they change of other accounts, and that the index then lists the
transaction.
-/

namespace ExecutionZone

open CallTree

/-! ## Reading the index -/

/-- `{:#?}` of a hash. -/
def debugHash (hash : Bytes32) : String :=
  "[\n" ++ String.join (hash.toList.map fun b => "    " ++ toString b.toNat ++ ",\n") ++ "]"

namespace IndexerDb

/-- `get_acc_transaction_hashes`: the first missing hash ends the batch. -/
def getAccTransactionHashes (db : IndexerDb) (accId : AccountId) (offset limit : Nat) :
    DbResult (List Bytes32) := do
  let stop ← expect (checkedU64 (offset + limit))
    (.panic "Transaction limit should be lesser than u64::MAX")
  return Postings.found (fun txId => db.accToTx.lookup (accId, txId))
    (List.range' offset (stop - offset))

/-- `get_block_ids_by_tx_vec`. -/
def getBlockIdsByTxVec (db : IndexerDb) (txVec : List Bytes32) : DbResult (List Nat) :=
  txVec.mapM fun txHash => expect (db.blockIdByTxHash.lookup txHash)
    (dbInteractionError "Tx to block id mapping do not contain transaction from vec")

variable [Sha256]

/-- The transaction of a block with the given hash. -/
def findTransaction (block : Block) (txHash : Bytes32) : DbResult NSSATransaction :=
  expect (block.transactions.find? fun tx => tx.hash = txHash)
    (dbInteractionError ("Missing transaction in block " ++
      toString block.header.blockId.toNat ++ " with hash " ++ debugHash txHash))

/-- `get_acc_transactions`. -/
def getAccTransactions (db : IndexerDb) (accId : AccountId) (offset limit : Nat) :
    DbResult (List NSSATransaction) := do
  let txHashes ← db.getAccTransactionHashes accId offset limit
  let blockIds ← db.getBlockIdsByTxVec txHashes
  ((db.getBlockBatchSeq blockIds).zip txHashes).mapM fun (block, txHash) =>
    findTransaction block txHash

end IndexerDb

/-! ## What the index holds -/

section

variable [Sha256]

omit [Sha256] in
/-- A list is known by its images under a function that tells the members apart. -/
theorem eq_of_map_eq {α β : Type*} {f : α → β} {l l' : List α} (h : l.map f = l'.map f)
    (hf : ∀ a ∈ l, ∀ a' ∈ l', f a = f a' → a = a') : l = l' := by
  refine List.ext_getElem ?_ ?_
  · rw [← List.length_map f, h, List.length_map]
  · intro i hi hi'
    refine hf _ (List.getElem_mem hi) _ (List.getElem_mem hi') ?_
    have hget : (l.map f)[i]? = (l'.map f)[i]? := by rw [h]
    simpa [hi, hi'] using hget

/-- The hashes of the transactions that declare the account, in order. -/
def declaringHashes (blocks : List Block) (accId : AccountId) : List Bytes32 :=
  ((blocks.flatMap (·.transactions)).filter fun tx =>
    accId ∈ tx.affectedPublicAccountIds).map NSSATransaction.hash

theorem declaringHashes_concat (blocks : List Block) (b : Block) (accId : AccountId) :
    declaringHashes (blocks ++ [b]) accId = declaringHashes blocks accId ++
      Ledger.get [] (IndexerDb.accToTxMap b.transactions) accId := by
  have hgroup : IndexerDb.accToTxMap b.transactions =
      Postings.group NSSATransaction.affectedPublicAccountIds NSSATransaction.hash
        b.transactions := rfl
  have hnodup : ∀ tx : NSSATransaction, tx.affectedPublicAccountIds.Nodup := by
    intro tx
    cases tx with
    | publicTx tx => exact List.nodup_dedup _
    | privacyPreserving tx => exact List.nodup_dedup _
    | programDeployment tx => exact List.nodup_nil
  rw [hgroup, Postings.get_group _ _ hnodup, declaringHashes, declaringHashes,
    List.flatMap_append, List.filter_append, List.map_append, List.flatMap_singleton]

/-- The database holds the blocks, lists under each account the transactions that declare it,
and finds a block with each of them. -/
structure IndexesAccounts (blocks : List Block) (db : IndexerDb) : Prop where
  lists : Postings.Stores (declaringHashes blocks) db.accNumTx db.accToTx
  block : ∀ b ∈ blocks, db.blocks.lookup b.header.blockId.toNat = some b
  located : ∀ b ∈ blocks, ∀ tx ∈ b.transactions, ∃ b' ∈ blocks,
    db.blockIdByTxHash.lookup tx.hash = some b'.header.blockId.toNat ∧
    tx.hash ∈ b'.transactions.map NSSATransaction.hash

namespace IndexesAccounts

variable {blocks : List Block} {db : IndexerDb} {b : Block}

theorem fresh (init : V03State) : IndexesAccounts [] (IndexerDb.fresh init) :=
  ⟨Postings.stores_empty, fun _ hb => absurd hb List.not_mem_nil,
    fun _ hb => absurd hb List.not_mem_nil⟩

/-- **Step.**  The batch of a block with a new id. -/
theorem writeBlock (h : IndexesAccounts blocks db)
    (hid : ∀ b' ∈ blocks, b'.header.blockId.toNat ≠ b.header.blockId.toNat)
    (l1LibHeader : Bytes32) : IndexesAccounts (blocks ++ [b]) (db.writeBlock b l1LibHeader) := by
  constructor
  · have hstores := h.lists.append (IndexerDb.accToTxMap b.transactions)
    rwa [← funext (declaringHashes_concat blocks b)] at hstores
  · intro b' hb'
    rcases List.mem_append.1 hb' with hold | hnew
    · exact (AList.lookup_insert_ne (hid b' hold)).trans (h.block b' hold)
    · rw [List.mem_singleton.1 hnew]
      exact AList.lookup_insert _
  · intro b₁ hb₁ tx htx
    have hlookup : (db.writeBlock b l1LibHeader).blockIdByTxHash = Ledger.insertAll
        db.blockIdByTxHash
        (b.transactions.map fun tx => (tx.hash, b.header.blockId.toNat)) := rfl
    rw [hlookup]
    by_cases hnew : tx.hash ∈ b.transactions.map NSSATransaction.hash
    · refine ⟨b, List.mem_append_right _ List.mem_cons_self, ?_, hnew⟩
      obtain ⟨tx', htx', hhash⟩ := List.mem_map.1 hnew
      refine Ledger.lookup_insertAll_of_unique ?_ ?_
      · exact List.mem_map.2 ⟨tx', htx', by rw [hhash]⟩
      · intro n hn
        obtain ⟨_, _, heq⟩ := List.mem_map.1 hn
        exact (congrArg Prod.snd heq).symm
    · have hold : b₁ ∈ blocks := by
        rcases List.mem_append.1 hb₁ with hmem | hmem
        · exact hmem
        · rw [List.mem_singleton.1 hmem] at htx
          exact absurd (List.mem_map_of_mem htx) hnew
      obtain ⟨b', hb', hblockId, hmem⟩ := h.located b₁ hold tx htx
      refine ⟨b', List.mem_append_left _ hb', ?_, hmem⟩
      rw [Ledger.lookup_insertAll_of_notMem, hblockId]
      rwa [List.map_map]

/-- A block is found, and in it a transaction with the hash. -/
theorem findTransaction_of_mem {b : Block} {hash : Bytes32}
    (h : hash ∈ b.transactions.map NSSATransaction.hash) :
    ∃ tx ∈ b.transactions, IndexerDb.findTransaction b hash = .ok tx ∧ tx.hash = hash := by
  obtain ⟨tx, htx, rfl⟩ := List.mem_map.1 h
  have hsome : (b.transactions.find? fun tx' => tx'.hash = tx.hash).isSome = true :=
    List.find?_isSome.2 ⟨tx, htx, decide_eq_true rfl⟩
  obtain ⟨tx', htx'⟩ := Option.isSome_iff_exists.1 hsome
  refine ⟨tx', List.mem_of_find?_eq_some htx', expect_eq_ok.2 htx', ?_⟩
  simpa using List.find?_some htx'

/-- The index does not look at breakpoints. -/
theorem putBreakpoint (h : IndexesAccounts blocks db) (brId : Nat) (st : V03State) :
    IndexesAccounts blocks (db.putBreakpoint brId st) := ⟨h.lists, h.block, h.located⟩

/-- Hashes of transactions of the blocks are resolved to transactions with these hashes. -/
theorem exists_transactions (h : IndexesAccounts blocks db) {hashes : List Bytes32}
    (hall : ∀ hash ∈ hashes, hash ∈ (blocks.flatMap (·.transactions)).map NSSATransaction.hash) :
    ∃ ids txs, db.getBlockIdsByTxVec hashes = .ok ids ∧
      (((db.getBlockBatchSeq ids).zip hashes).mapM fun (block, txHash) =>
        IndexerDb.findTransaction block txHash) = .ok txs ∧
      txs.map NSSATransaction.hash = hashes ∧ ∀ tx ∈ txs, tx ∈ blocks.flatMap (·.transactions) := by
  induction hashes with
  | nil => exact ⟨[], [], rfl, rfl, rfl, fun _ htx => absurd htx List.not_mem_nil⟩
  | cons hash hashes ih =>
      obtain ⟨ids, txs, hids, htxs, hmap, hmem⟩ :=
        ih fun hash' hhash' => hall hash' (List.mem_cons_of_mem _ hhash')
      obtain ⟨tx, htx, rfl⟩ := List.mem_map.1 (hall hash List.mem_cons_self)
      obtain ⟨b, hb, htx⟩ := List.mem_flatMap.1 htx
      obtain ⟨b', hb', hblockId, hhash⟩ := h.located b hb tx htx
      obtain ⟨tx', htx', hfind, heq⟩ := findTransaction_of_mem hhash
      refine ⟨b'.header.blockId.toNat :: ids, tx' :: txs, ?_, ?_, ?_, ?_⟩
      · rw [IndexerDb.getBlockIdsByTxVec, List.mapM_cons, hblockId]
        exact bind_eq_ok.2 ⟨_, rfl, bind_eq_ok.2 ⟨ids, hids, rfl⟩⟩
      · rw [IndexerDb.getBlockBatchSeq, h.block b' hb', List.zip_cons_cons, List.mapM_cons]
        exact bind_eq_ok.2 ⟨tx', hfind, bind_eq_ok.2 ⟨txs, htxs, rfl⟩⟩
      · rw [List.map_cons, heq, hmap]
      · intro tx₁ htx₁
        rcases List.mem_cons.1 htx₁ with rfl | htx₁
        · exact List.mem_flatMap.2 ⟨b', hb', htx'⟩
        · exact hmem tx₁ htx₁

/-- **Reading.**  A section of the transactions that declare the account, by their hashes. -/
theorem getAccTransactions (h : IndexesAccounts blocks db) (accId : AccountId)
    {offset limit : Nat} (hlt : offset + limit < 2 ^ 64) :
    ∃ txs, db.getAccTransactions accId offset limit = .ok txs ∧
      txs.map NSSATransaction.hash = ((declaringHashes blocks accId).drop offset).take limit ∧
      ∀ tx ∈ txs, tx ∈ blocks.flatMap (·.transactions) := by
  have hhashes : db.getAccTransactionHashes accId offset limit =
      .ok (((declaringHashes blocks accId).drop offset).take limit) := by
    rw [IndexerDb.getAccTransactionHashes, checkedU64_of_lt hlt]
    refine congrArg Except.ok ?_
    rw [Nat.add_sub_cancel_left]
    exact Postings.found_range' (h.lists.item accId) offset limit
  have hall : ∀ hash ∈ ((declaringHashes blocks accId).drop offset).take limit,
      hash ∈ (blocks.flatMap (·.transactions)).map NSSATransaction.hash := by
    intro hash hhash
    obtain ⟨tx, htx, rfl⟩ := List.mem_map.1 (List.mem_of_mem_drop (List.mem_of_mem_take hhash))
    exact List.mem_map_of_mem (List.mem_filter.1 htx).1
  obtain ⟨ids, txs, hids, htxs, hmap, hmem⟩ := h.exists_transactions hall
  exact ⟨txs, bind_eq_ok.2 ⟨_, hhashes, bind_eq_ok.2 ⟨ids, hids, htxs⟩⟩, hmap, hmem⟩

variable [Zkvm] [Schnorr] [BuiltinPrograms] [InstructionCodec Clock.Instruction]

/-- **Step.**  A block. -/
theorem putBlock (h : IndexesAccounts blocks db)
    (hid : ∀ b' ∈ blocks, b'.header.blockId.toNat ≠ b.header.blockId.toNat)
    (l1LibHeader : Bytes32) : IndexesAccounts (blocks ++ [b]) (db.putBlock b l1LibHeader).1 := by
  have hwrite := h.writeBlock hid l1LibHeader
  unfold IndexerDb.putBlock
  dsimp only
  split
  · unfold IndexerDb.putNextBreakpoint
    split
    · exact hwrite.putBreakpoint _ _
    · exact hwrite
  · exact hwrite

end IndexesAccounts

namespace IndexerDb

variable [Zkvm] [Schnorr] [BuiltinPrograms] [InstructionCodec Clock.Instruction]

/-- Blocks are written, with any ids and whether this succeeds or not; the process restarts. -/
def Writes (init : V03State) (db : IndexerDb) : IndexerDbEvent → IndexerDb → Prop
  | .put b l1LibHeader, db' => (db.putBlock b l1LibHeader).1 = db'
  | .restart, db' => db.openOrCreate init = db'

variable {init : V03State} {events : List IndexerDbEvent} {db : IndexerDb}

/-- No write is refused. -/
theorem exists_run_writes (init : V03State) (db : IndexerDb) (events : List IndexerDbEvent) :
    ∃ db', Run (Writes init) db events db' := by
  induction events using List.reverseRecOn with
  | nil => exact ⟨db, .nil⟩
  | append_singleton events e ih =>
      obtain ⟨db', hrun⟩ := ih
      cases e with
      | put b l1LibHeader =>
          have hstep : Writes init db' (.put b l1LibHeader) (db'.putBlock b l1LibHeader).1 := rfl
          exact ⟨_, hrun.snoc hstep⟩
      | restart =>
          have hstep : Writes init db' .restart (db'.openOrCreate init) := rfl
          exact ⟨_, hrun.snoc hstep⟩

/-- **Run.**  Blocks with different ids. -/
theorem indexesAccounts_of_writes (hrun : Run (Writes init) (fresh init) events db)
    (hids : ((storedBlocks events).map fun b => b.header.blockId.toNat).Nodup) :
    IndexesAccounts (storedBlocks events) db := by
  induction hrun with
  | nil => exact .fresh init
  | @snoc events db e db' _ hstep ih =>
      cases e with
      | put b l1LibHeader =>
          rw [storedBlocks_concat_put] at hids ⊢
          rw [List.map_append, List.nodup_append'] at hids
          obtain ⟨hids, -, hdisjoint⟩ := hids
          subst hstep
          refine (ih hids).putBlock ?_ l1LibHeader
          intro b' hb' heq
          exact hdisjoint (List.mem_map_of_mem hb') (heq ▸ List.mem_cons_self)
      | restart =>
          rw [storedBlocks_concat_restart] at hids ⊢
          subst hstep
          exact (ih hids).putBreakpoint 0 init

/-- **The history of an account.**  Let consecutive blocks be written, in which different
transactions have different hashes.  Then a page of the history of an account is that section
of all transactions, in order and with repetitions, that declare the account. -/
theorem account_history_exact {start : Nat} (hrun : Run (Writes init) (fresh init) events db)
    (hids : ∀ i b, (storedBlocks events)[i]? = some b → b.header.blockId.toNat = start + i)
    (hhash : ∀ tx ∈ (storedBlocks events).flatMap (·.transactions),
      ∀ tx' ∈ (storedBlocks events).flatMap (·.transactions), tx.hash = tx'.hash → tx = tx')
    (accId : AccountId) {offset limit : Nat} (hlt : offset + limit < 2 ^ 64) :
    db.getAccTransactions accId offset limit =
      .ok (((((storedBlocks events).flatMap (·.transactions)).filter fun tx =>
        accId ∈ tx.affectedPublicAccountIds).drop offset).take limit) := by
  have hnodup : ((storedBlocks events).map fun b => b.header.blockId.toNat).Nodup := by
    refine List.nodup_iff_injective_getElem.2 fun i j hij => Fin.ext ?_
    simp only [List.getElem_map] at hij
    rw [hids i _ (List.getElem?_eq_getElem _), hids j _ (List.getElem?_eq_getElem _)] at hij
    exact Nat.add_left_cancel hij
  obtain ⟨txs, htxs, hmap, hmem⟩ :=
    (indexesAccounts_of_writes hrun hnodup).getAccTransactions accId hlt
  rw [htxs]
  refine congrArg Except.ok ?_
  rw [declaringHashes, ← List.map_drop, ← List.map_take] at hmap
  -- the transactions are those with these hashes, and hashes tell transactions apart
  refine eq_of_map_eq hmap ?_
  intro tx htx tx' htx'
  exact hhash tx (hmem tx htx) tx'
    (List.mem_filter.1 (List.mem_of_mem_drop (List.mem_of_mem_take htx'))).1

end IndexerDb

end

namespace RepeatedTransfer

/-- A second block with the transfer of the first one. -/
def second : Block :=
  let _ := Sample.sha256; let _ := Sample.signing; let _ := Sample.builtins
  let _ := Sample.clockCodec
  HashableBlockData.intoPendingBlock ⟨2, (HalfwayBlock.block []).header.hash, 7,
    [HalfwayBlock.transfer, .publicTx (clockInvocation 7)]⟩ ⟨Bytes32.zero⟩ Bytes32.zero

def events : List IndexerDbEvent :=
  [.put (HalfwayBlock.block [HalfwayBlock.transfer]) Bytes32.zero, .restart,
    .put second Bytes32.zero]

end RepeatedTransfer

/-- Two blocks hold the same transfer, which the history of the account it pays to lists
twice.  A page that skips the first lists the second. -/
theorem account_history_exact_repeated :
    let _ := Sample.sha256; let _ := Sample.zkvm Sample.clockScript; let _ := Sample.schnorr
    let _ := Sample.builtins; let _ := Sample.clockCodec
    ∃ db, Run (IndexerDb.Writes HalfwayBlock.genesis) (IndexerDb.fresh HalfwayBlock.genesis)
        RepeatedTransfer.events db ∧
      db.getAccTransactions (Sample.accountId 9) 1 5 = .ok [HalfwayBlock.transfer] := by
  intro _ _ _ _ _
  obtain ⟨db, hrun⟩ := IndexerDb.exists_run_writes HalfwayBlock.genesis
    (IndexerDb.fresh HalfwayBlock.genesis) RepeatedTransfer.events
  obtain ⟨hids, hhash, hpage⟩ : (∀ i < 2, ((storedBlocks RepeatedTransfer.events)[i]?.map
      fun b => b.header.blockId.toNat) = some (1 + i)) ∧
      (∀ tx ∈ (storedBlocks RepeatedTransfer.events).flatMap (·.transactions),
        ∀ tx' ∈ (storedBlocks RepeatedTransfer.events).flatMap (·.transactions),
          tx.hash = tx'.hash → tx = tx') ∧
      ((((storedBlocks RepeatedTransfer.events).flatMap (·.transactions)).filter fun tx =>
        Sample.accountId 9 ∈ tx.affectedPublicAccountIds).drop 1).take 5 =
          [HalfwayBlock.transfer] := by
    decide +kernel
  have hstart : ∀ i b, (storedBlocks RepeatedTransfer.events)[i]? = some b →
      b.header.blockId.toNat = 1 + i := by
    intro i b hb
    have hlt : i < 2 := (List.getElem?_eq_some_iff.1 hb).1
    have hid := hids i hlt
    rw [hb] at hid
    exact Option.some.inj hid
  refine ⟨db, hrun, ?_⟩
  rw [← hpage]
  exact IndexerDb.account_history_exact hrun hstart hhash (Sample.accountId 9) (by decide)

/-! ## Declared accounts -/

section

variable [Sha256] [Zkvm]

omit [Sha256] [Zkvm] in
/-- The account of a post state, of which a claimed one belongs to the program. -/
def AccountPostState.leftBy (programId : ProgramId) (post : AccountPostState) : Account :=
  match post.claim with
  | none => post.account
  | some _ => { post.account with programOwner := programId }

omit [Sha256] [Zkvm] in
/-- The accounts an output lists, with the values it leaves them with. -/
def leftBy (x : PendingCall × ProgramOutput) : List (AccountId × Account) :=
  x.2.zipped.map fun p => (p.1.accountId, p.2.leftBy x.1.call.programId)

/-- The accounts that the calls of a public transaction list, with the values that the last
output to list them leaves them with.  Only the transaction and the programs of the state go into
this. -/
def PublicTransaction.leftBehind (tx : PublicTransaction) (st : V03State) : Accounts :=
  Ledger.insertAll ∅ ((Machine.answers (fun c => PendingCall.output c st) chainCalls callBudget
    [tx.initialCall st]).flatMap leftBy)

/-- What outputs change of an account that the transaction does not declare, later ones change
back. -/
def NSSATransaction.RestoresUndeclared (tx : NSSATransaction) (st : V03State) : Prop :=
  match tx with
  | .publicTx pub => ∀ p ∈ Ledger.pairs (pub.leftBehind st),
      p.1 ∉ tx.affectedPublicAccountIds → p.2 = st.getAccountById p.1
  | _ => True

instance (tx : NSSATransaction) (st : V03State) : Decidable (tx.RestoresUndeclared st) :=
  match tx with
  | .publicTx pub => inferInstanceAs (Decidable (∀ p ∈ Ledger.pairs (pub.leftBehind st), _ → _))
  | .privacyPreserving _ | .programDeployment _ => inferInstanceAs (Decidable True)

omit [Zkvm] in
theorem signer_mem_affected {tx : NSSATransaction} {id : AccountId}
    (h : id ∈ tx.signerAccountIds) : id ∈ tx.affectedPublicAccountIds := by
  cases tx with
  | publicTx tx => exact List.mem_dedup.2 (List.mem_append_left _ h)
  | privacyPreserving tx => exact List.mem_dedup.2 (List.mem_append_left _ h)
  | programDeployment tx => exact h

variable [Schnorr] {st st' : V03State} {tx : NSSATransaction} {blockId : BlockId}
  {timestamp : Timestamp} {id : AccountId}

omit [Zkvm] [Schnorr] in
theorem Granted.eq_leftBy {programId : ProgramId} {pre : AccountWithMetadata}
    {post : AccountPostState} {account : Account} (h : Granted programId pre post account) :
    account = post.leftBy programId := by
  cases h with
  | unclaimed hclaim => rw [AccountPostState.leftBy, hclaim]
  | claimed hclaim _ _ => rw [AccountPostState.leftBy, hclaim]

omit [Schnorr] in
/-- **Step.**  A call writes what its output leaves behind. -/
theorem ValidCall.eq_insertAll_leftBy {c : PendingCall} {diff diff' : Accounts}
    {out : ProgramOutput} (h : ValidCall st blockId timestamp c diff out diff') :
    diff' = Ledger.insertAll diff (leftBy (c, out)) := by
  obtain ⟨accounts, hgranted, rfl⟩ := h.diff_eq
  have haccounts : out.zipped.map (fun p => p.2.leftBy c.call.programId) = accounts := by
    rw [← List.forall₂_eq_eq_eq, List.forall₂_map_left_iff]
    exact hgranted.imp fun _ _ hg => hg.eq_leftBy.symm
  have hids : out.zipped.map (fun p => p.1.accountId) = out.preStates.map (·.accountId) := by
    rw [← List.map_fst_zip (Nat.le_of_eq h.valid.length_eq), List.map_map]
    rfl
  rw [← haccounts, ← hids, List.zip_map']
  rfl

omit [Schnorr] in
/-- **Run.**  The diff of executed calls. -/
theorem eq_insertAll_leftBy_of_runs {q : List (PendingCall × List (PendingCall × ProgramOutput))}
    {diff diff' : Accounts} {calls : List (Executed PendingCall ProgramOutput)}
    (h : (publicMachine st blockId timestamp).Runs q diff calls diff') :
    diff' = Ledger.insertAll diff
      ((calls.map fun e => (e.call, e.result)).flatMap leftBy) := by
  induction h with
  | nil diff => rfl
  | cons hstep _ ih =>
      rw [ih, (validCall_of_executeCall hstep).eq_insertAll_leftBy, ← Ledger.insertAll_append]
      rfl

/-- The diff of a public transaction is what its calls leave behind. -/
theorem publicDiff_eq_leftBehind {pub : PublicTransaction} {diff : StateDiff}
    (h : fromPublicTransaction pub st blockId timestamp = .ok diff) :
    diff.publicDiff = pub.leftBehind st := by
  simp only [fromPublicTransaction, bind_eq_ok, mapError_eq_ok, pure, Except.pure,
    Except.ok.injEq] at h
  obtain ⟨_, _, publicDiff, hrun, _, _, rfl⟩ := h
  obtain ⟨calls, htrace⟩ := Machine.exists_runs_of_run (q := [(pub.initialCall st, [])]) hrun
  have hanswers : calls.map (fun e => (e.call, e.result)) =
      Machine.answers (fun c => PendingCall.output c st) chainCalls callBudget
        [pub.initialCall st] :=
    Machine.answers_of_trace (fun c diff out diff' hstep =>
      (validCall_of_executeCall hstep).output) htrace
  rw [PublicTransaction.leftBehind, ← hanswers]
  exact eq_insertAll_leftBy_of_runs (Machine.runs_of_trace htrace).1

/-- Only a public transaction changes what it does not declare. -/
theorem overlay_of_undeclared {diff : StateDiff}
    (h : tx.stateDiff st blockId timestamp = .ok diff) (hpublic : ∀ pub, tx ≠ .publicTx pub)
    (hid : id ∉ tx.affectedPublicAccountIds) :
    Ledger.overlay Account.default st.publicState diff.publicDiff id = st.getAccountById id := by
  cases tx with
  | publicTx pub => exact absurd rfl (hpublic pub)
  | privacyPreserving tx =>
      simp only [NSSATransaction.stateDiff, fromPrivacyPreservingTransaction, bind_eq_ok, pure,
        Except.pure, Except.ok.injEq] at h
      obtain ⟨_, _, _, _, _, _, _, _, rfl⟩ := h
      refine (Ledger.overlay_insertAll_of_notMem fun hmem => hid ?_).trans (Ledger.overlay_empty id)
      obtain ⟨p, hp, rfl⟩ := List.mem_map.1 hmem
      exact List.mem_dedup.2 (List.mem_append_right _ (List.of_mem_zip hp).1)
  | programDeployment tx =>
      simp only [NSSATransaction.stateDiff, fromProgramDeploymentTransaction, mapError_eq_ok,
        bind_eq_ok, pure, Except.pure, Except.ok.injEq] at h
      obtain ⟨_, _, _, _, rfl⟩ := h
      exact Ledger.overlay_empty id

/-- **Step.**  An accepted transaction declares what it changes, exactly if its outputs restore
what they change of other accounts. -/
theorem declared_of_changed_iff (h : Accepted st ⟨tx, blockId, timestamp⟩ st') :
    (∀ id, st'.getAccountById id ≠ st.getAccountById id → id ∈ tx.affectedPublicAccountIds) ↔
      tx.RestoresUndeclared st := by
  obtain ⟨diff, hdiff, happly⟩ := accepted_iff.1 h
  have hget : ∀ id ∉ tx.affectedPublicAccountIds, st'.getAccountById id =
      Ledger.overlay Account.default st.publicState diff.publicDiff id := by
    intro id hid
    refine (V03State.getAccountById_applyStateDiff happly id).2 fun hmem => hid ?_
    rw [signerAccountIds_of_stateDiff hdiff] at hmem
    exact signer_mem_affected hmem
  cases tx with
  | publicTx pub =>
      rw [publicDiff_eq_leftBehind hdiff] at hget
      constructor
      · rintro hdeclared ⟨id, a⟩ hp hid
        by_contra hne
        refine hid (hdeclared id fun heq => hne ?_)
        rw [← heq, hget id hid, Ledger.overlay, Ledger.mem_pairs.1 hp, Option.getD_some]
      · intro hrestores id hchanged
        by_contra hid
        refine hchanged ((hget id hid).trans ?_)
        cases hleft : (pub.leftBehind st).lookup id with
        | none =>
            rw [Ledger.overlay, hleft, Option.getD_none]
            rfl
        | some a =>
            rw [Ledger.overlay, hleft, Option.getD_some]
            exact hrestores (id, a) (Ledger.mem_pairs.2 hleft) hid
  | privacyPreserving | programDeployment =>
      refine iff_of_true (fun id hchanged => ?_) trivial
      by_contra hid
      refine hchanged ((hget id hid).trans (overlay_of_undeclared hdiff ?_ hid))
      intro _ heq
      cases heq

end

/-! ## Chains -/

section

variable [Sha256] [Zkvm] [Schnorr] [BuiltinPrograms] [InstructionCodec Clock.Instruction]

/-- When the blocks are applied to `init`, the transaction is executed in the state `s` and
leads to `s'`. -/
inductive ExecutedIn (init : V03State) (blocks : List Block) :
    NSSATransaction → V03State → V03State → Prop
  | user {before after : List Block} {b : Block} {st s s' : V03State}
      {txs rest : List NSSATransaction} {tx : NSSATransaction}
      (hblocks : blocks = before ++ b :: after)
      (hst : Replay.replay Block.apply init before = some st)
      (htxs : b.transactions.dropLast = txs ++ tx :: rest)
      (hs : Replay.replay b.header.applyTransaction st txs = some s)
      (happly : b.header.applyTransaction s tx = some s') : ExecutedIn init blocks tx s s'
  | clock {before after : List Block} {b : Block} {st s s' : V03State}
      (hblocks : blocks = before ++ b :: after)
      (hst : Replay.replay Block.apply init before = some st) (hwf : b.WellFormed)
      (hs : Replay.replay b.header.applyTransaction st b.transactions.dropLast = some s)
      (happly : b.header.applyClock s = some s') :
      ExecutedIn init blocks b.header.clockTransaction s s'

variable {init st st' : V03State} {blocks : List Block} {tx : NSSATransaction}

theorem ExecutedIn.mem (h : ExecutedIn init blocks tx st st') :
    tx ∈ blocks.flatMap (·.transactions) := by
  cases h with
  | @user _ _ b _ _ _ _ _ _ hblocks _ htxs _ _ =>
      refine List.mem_flatMap.2 ⟨b, ?_, List.mem_of_mem_dropLast ?_⟩
      · rw [hblocks]
        exact List.mem_append_right _ List.mem_cons_self
      · rw [htxs]
        exact List.mem_append_right _ List.mem_cons_self
  | @clock _ _ b _ _ _ hblocks _ hwf _ _ =>
      refine List.mem_flatMap.2 ⟨b, ?_, List.mem_of_getLast? hwf⟩
      rw [hblocks]
      exact List.mem_append_right _ List.mem_cons_self

theorem ExecutedIn.accepted (h : ExecutedIn init blocks tx st st') :
    ∃ blockId timestamp, Accepted st ⟨tx, blockId, timestamp⟩ st' := by
  cases h with
  | @user _ _ b _ _ _ _ _ _ _ _ _ _ happly =>
      exact ⟨b.header.blockId, b.header.timestamp, BlockHeader.accepted_of_applyTransaction happly⟩
  | @clock _ _ b _ _ _ _ _ _ _ happly =>
      exact ⟨b.header.blockId, b.header.timestamp, toOption_eq_some.1 happly⟩

/-- The block is put and `put_block` succeeds. -/
def IndexerStore.Puts (l1Header : Block → Bytes32) (s : IndexerStore) (b : Block)
    (s' : IndexerStore) : Prop :=
  s.putBlock b (l1Header b) = (s', .ok ())

/-- **Run.**  The database of a store into which blocks were put. -/
theorem indexesAccounts_of_run {l1Header : Block → Bytes32} {s : IndexerStore}
    (hids : ConsecutiveBlocks blocks)
    (hrun : Run (IndexerStore.Puts l1Header) ⟨IndexerDb.fresh init, init⟩ blocks s) :
    IndexesAccounts (blocks.map Block.finalized) s.dbio := by
  induction hrun with
  | nil => exact .fresh init
  | @snoc blocks s b s' _ hput ih =>
      obtain ⟨hids, hid⟩ := consecutiveBlocks_concat.1 hids
      have hdbio : s'.dbio = (s.dbio.putBlock b.finalized (l1Header b)).1 := by
        unfold IndexerStore.Puts IndexerStore.putBlock at hput
        rcases hexecute : executeBlock s.currentState b with ⟨st, e | ⟨⟩⟩
        · rw [hexecute] at hput
          cases hput
        · rw [hexecute] at hput
          exact congrArg (fun r => r.1.dbio) hput.symm
      rw [List.map_append, List.map_singleton, hdbio]
      refine (ih hids).putBlock ?_ _
      -- the earlier ids are smaller
      intro b₁ hb₁
      obtain ⟨b₂, hb₂, rfl⟩ := List.mem_map.1 hb₁
      obtain ⟨i, hi⟩ := List.getElem?_of_mem hb₂
      have hlt : i < blocks.length := (List.getElem?_eq_some_iff.1 hi).1
      have hid₂ := hids i b₂ hi
      simp only [Block.finalized]
      omega

/-- A block that is put without an error. -/
theorem IndexerStore.puts_of_ok (l1Header : Block → Bytes32) {s : IndexerStore} {b : Block}
    (h : (s.putBlock b (l1Header b)).2 = .ok ()) :
    s.Puts l1Header b (s.putBlock b (l1Header b)).1 :=
  Prod.ext rfl h

end

namespace UndeclaredCredit

def recipient : AccountWithMetadata :=
  ⟨Sample.account (Sample.programId 2) 5, false, Sample.accountId 9⟩

/-- Program `10` has the transfer program move what it is told to from the account it gets to
the recipient. -/
def script : Sample.Script := fun n input =>
  if n = 10 then
    .ok (input.output (unchangedPostStates input.preStates)
      [⟨Sample.programId 2, input.preStates ++ [recipient], input.instructionData, []⟩])
  else Sample.clockScript n input

def deployment : NSSATransaction := .programDeployment ⟨[10]⟩

/-- The message names the paying account only. -/
def payment : NSSATransaction :=
  .publicTx (Sample.transaction (Sample.programId 10) [Sample.signer 1]
    (Sample.transferCodec.toVec (.transfer 30)) [1])

/-- The second block. -/
def block : Block :=
  let _ := Sample.sha256; let _ := Sample.signing; let _ := Sample.builtins
  let _ := Sample.clockCodec
  HashableBlockData.intoPendingBlock ⟨2, (HalfwayBlock.block []).header.hash, 7,
    [deployment, payment, .publicTx (clockInvocation 7)]⟩ ⟨Bytes32.zero⟩ Bytes32.zero

end UndeclaredCredit

end ExecutionZone
