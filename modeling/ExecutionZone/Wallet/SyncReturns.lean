import ExecutionZone.Wallet.KeyTreeIndex
import ExecutionZone.Wallet.Sync

/-!
# When synchronisation returns

A wallet starts with a key tree.  Keys are generated, accounts are imported, identifiers and
shared accounts are registered, and accepted transactions are synchronised.

What the wallet reads of a transaction is only partly bound by its proof: there are as many
commitments as outputs, and fewer than `2 ^ 32`, but the ephemeral keys and the view tags are up
to the sender.  Trying a key on an output panics if there is no secret to share.  And what a key
opens must be known to the wallet: the key of a tree knows all of its ids, an imported key only
those that were imported.  A wallet synchronises a transaction exactly if no output with its view
tags fails in one of these ways (`sync_returns_iff`).
-/

namespace ExecutionZone

/-! ## Wallets -/

namespace UserKeyChain

section

variable [Sha256] [Secp256k1] [Hmac] [ScalarArithmetic]

/-- `generate_trees_for_depth`, of the private tree. -/
def generateTreesForDepth (u : UserKeyChain) (depth : UInt32) : Except Panic UserKeyChain := do
  let privateKeyTree ← u.privateKeyTree.generateTreeForDepth depth
  return { u with privateKeyTree }

/-- `create_private_accounts_key`. -/
def createPrivateAccountsKey (u : UserKeyChain) (parentCci : Option ChainIndex) :
    Except Panic (ChainIndex × UserKeyChain) := do
  let (chainIndex, privateKeyTree) ← match parentCci with
    | some parentCci => do
        let generated ← u.privateKeyTree.generateNewNode parentCci
        expect generated "Parent must be present in a tree"
    | none => do
        let generated ← u.privateKeyTree.generateNewNodeLayered
        expect generated "Search for new node slot failed"
  return (chainIndex, { u with privateKeyTree })

omit [Secp256k1] [Hmac] [ScalarArithmetic] in
/-- `register_identifier_on_private_key_chain`. -/
def registerIdentifierOnPrivateKeyChain (u : UserKeyChain) (cci : ChainIndex)
    (identifier : Identifier) : Option (AccountId × UserKeyChain) :=
  (u.privateKeyTree.registerIdentifierOnNode cci identifier).map fun (accountId, privateKeyTree) =>
    (accountId, { u with privateKeyTree })

omit [Sha256] [Secp256k1] [Hmac] [ScalarArithmetic] in
/-- `add_imported_private_account`. -/
def addImportedPrivateAccount (u : UserKeyChain) (keyChain : KeyChain)
    (chainIndex : Option ChainIndex) (identifier : Identifier) (account : Account) :
    UserKeyChain :=
  let key : ImportedPrivateAccountKey := ⟨keyChain, chainIndex⟩
  let accounts := (u.importedPrivateAccounts.lookup key).getD ∅
  { u with importedPrivateAccounts :=
      u.importedPrivateAccounts.insert key (accounts.insert (.regular identifier) account) }

omit [Sha256] [Secp256k1] [Hmac] [ScalarArithmetic] in
/-- `insert_shared_private_account`. -/
def insertSharedPrivateAccount (u : UserKeyChain) (accountId : AccountId)
    (entry : SharedAccountEntry) : UserKeyChain :=
  { u with sharedPrivateAccounts := u.sharedPrivateAccounts.insert accountId entry }

omit [Sha256] [Secp256k1] [Hmac] [ScalarArithmetic] in
/-- `insert_group_key_holder`. -/
def insertGroupKeyHolder (u : UserKeyChain) (label : Label) (holder : GroupKeyHolder) :
    UserKeyChain :=
  { u with groupKeyHolders := u.groupKeyHolders.insert label holder }

omit [Sha256] [Secp256k1] [Hmac] [ScalarArithmetic] in
/-- `remove_group_key_holder`. -/
def removeGroupKeyHolder (u : UserKeyChain) (label : Label) : UserKeyChain :=
  { u with groupKeyHolders := u.groupKeyHolders.erase label }

end

end UserKeyChain

inductive WalletEvent where
  | generateTrees (depth : UInt32)
  | createKey (parentCci : Option ChainIndex)
  | registerIdentifier (cci : ChainIndex) (identifier : Identifier)
  | importAccount (keyChain : KeyChain) (chainIndex : Option ChainIndex) (identifier : Identifier)
      (account : Account)
  | shareAccount (accountId : AccountId) (entry : SharedAccountEntry)
  | addGroup (label : Label) (holder : GroupKeyHolder)
  | removeGroup (label : Label)
  | sync (tx : NSSATransaction)

section

variable [Sha256] [Secp256k1] [Hmac] [ScalarArithmetic] [ChaCha20]

def WalletStep (u : UserKeyChain) : WalletEvent → UserKeyChain → Prop
  | .generateTrees depth, u' => u.generateTreesForDepth depth = .ok u'
  | .createKey parentCci, u' => ∃ chainIndex, u.createPrivateAccountsKey parentCci =
      .ok (chainIndex, u')
  | .registerIdentifier cci identifier, u' => ∃ accountId,
      u.registerIdentifierOnPrivateKeyChain cci identifier = some (accountId, u')
  | .importAccount keyChain chainIndex identifier account, u' =>
      u.addImportedPrivateAccount keyChain chainIndex identifier account = u'
  | .shareAccount accountId entry, u' => u.insertSharedPrivateAccount accountId entry = u'
  | .addGroup label holder, u' => u.insertGroupKeyHolder label holder = u'
  | .removeGroup label, u' => u.removeGroupKeyHolder label = u'
  | .sync tx, u' => u.syncPrivateAccountsWithTx tx = .ok u'

/-- The tree of a wallet has a root, and all entries of its index are good. -/
structure TreeSound (t : KeyTreePrivate) : Prop where
  root : ChainIndex.root ∈ t.shape
  index : t.IndexSound

omit [ChaCha20] in
theorem TreeSound.adjoin {t : KeyTreePrivate} {c : ChainIndex} (h : TreeSound t)
    (hc : c ∉ t.shape) (node : ChildKeysPrivate) : TreeSound (t.insertNode c node) :=
  ⟨KeyTree.shape_insertNode t c node ▸ Set.mem_insert_of_mem _ h.root, h.index.adjoin hc node⟩

omit [Secp256k1] [Hmac] [ScalarArithmetic] [ChaCha20] in
theorem TreeSound.store {u u' : UserKeyChain} {accountId : AccountId} {kind : PrivateAccountKind}
    {account : Account} (h : TreeSound u.privateKeyTree)
    (hinsert : u.insertPrivateAccount accountId kind account = .ok u') :
    TreeSound u'.privateKeyTree :=
  ⟨KeyTree.shape_of_store hinsert ▸ h.root, h.index.store hinsert⟩

omit [Secp256k1] [Hmac] [ScalarArithmetic] [ChaCha20] in
theorem TreeSound.storeAll {u u' : UserKeyChain} {l : List Received}
    (h : TreeSound u.privateKeyTree)
    (hstore : l.foldlM UserKeyChain.storeReceived u = .ok u') : TreeSound u'.privateKeyTree := by
  induction l generalizing u with
  | nil =>
      cases hstore
      exact h
  | cons r l ih =>
      rw [List.foldlM_cons] at hstore
      obtain ⟨u₁, hr, hrest⟩ := bind_eq_ok.1 hstore
      exact ih (h.store (mapError_eq_ok.1 hr)) hrest

omit [Sha256] [Secp256k1] [Hmac] [ScalarArithmetic] [ChaCha20] in
theorem UserKeyChain.privateKeyTree_foldl_update (u : UserKeyChain) (l : List Received) :
    (l.foldl (fun u r => u.updateSharedPrivateAccountState r.accountId r.account)
      u).privateKeyTree = u.privateKeyTree := by
  induction l generalizing u with
  | nil => rfl
  | cons r l ih =>
      rw [List.foldl_cons, ih, updateSharedPrivateAccountState]
      split <;> rfl

omit [ChaCha20] in
/-- A new key is a new node. -/
theorem UserKeyChain.createPrivateAccountsKey_eq_ok {u u' : UserKeyChain}
    {parentCci : Option ChainIndex} {chainIndex : ChainIndex}
    (hroot : ChainIndex.root ∈ u.privateKeyTree.shape)
    (h : u.createPrivateAccountsKey parentCci = .ok (chainIndex, u')) :
    ∃ child, u.privateKeyTree.Adjoins chainIndex child ∧
      u' = { u with privateKeyTree := u.privateKeyTree.insertNode chainIndex child } := by
  cases parentCci with
  | some p =>
      simp only [createPrivateAccountsKey, bind_eq_ok, expect_eq_ok, pure, Except.pure,
        Except.ok.injEq, Prod.mk.injEq] at h
      obtain ⟨_, hgenerated, ⟨c, t⟩, rfl, rfl, rfl⟩ := h
      obtain ⟨child, hchild, rfl⟩ := KeyTree.generateNewNode_eq_some hgenerated
      exact ⟨child, hchild, rfl⟩
  | none =>
      simp only [createPrivateAccountsKey, bind_eq_ok, expect_eq_ok, pure, Except.pure,
        Except.ok.injEq, Prod.mk.injEq] at h
      obtain ⟨_, hgenerated, ⟨c, t⟩, rfl, rfl, rfl⟩ := h
      obtain ⟨child, hchild, rfl⟩ := KeyTree.generateNewNodeLayered_eq_some hroot hgenerated
      exact ⟨child, hchild, rfl⟩

/-- **Step.**  Wallets keep their trees sound. -/
theorem TreeSound.step {u u' : UserKeyChain} {e : WalletEvent} (h : TreeSound u.privateKeyTree)
    (hstep : WalletStep u e u') : TreeSound u'.privateKeyTree := by
  cases e with
  | generateTrees depth =>
      obtain ⟨t, ht, heq⟩ := bind_eq_ok.1 hstep
      cases heq
      exact KeyTree.growTree_induction (fun t c node h hc => h.adjoin hc.notMem node) h ht
  | createKey parentCci =>
      obtain ⟨chainIndex, hstep⟩ := hstep
      obtain ⟨child, hchild, rfl⟩ := UserKeyChain.createPrivateAccountsKey_eq_ok h.root hstep
      exact h.adjoin hchild.notMem child
  | registerIdentifier cci identifier =>
      obtain ⟨accountId, hstep⟩ := hstep
      obtain ⟨⟨id, t⟩, ht, heq⟩ := Option.map_eq_some_iff.1 hstep
      cases heq
      obtain ⟨node, hnode, rfl, _, rfl⟩ := KeyTree.eq_of_register ht
      exact ⟨h.root, h.index.register hnode (.regular identifier)⟩
  | importAccount keyChain chainIndex identifier account =>
      cases hstep
      exact h
  | shareAccount accountId entry =>
      cases hstep
      exact h
  | addGroup label holder =>
      cases hstep
      exact h
  | removeGroup label =>
      cases hstep
      exact h
  | sync tx =>
      cases tx with
      | privacyPreserving tx =>
          obtain ⟨affected, u₁, updates, _, hstore, rfl⟩ :=
            UserKeyChain.exists_stored_of_sync hstep
          rw [UserKeyChain.privateKeyTree_foldl_update]
          exact h.storeAll hstore
      | publicTx tx =>
          cases hstep
          exact h
      | programDeployment tx =>
          cases hstep
          exact h

omit [ChaCha20] in
theorem treeSound_newFromRoot (root : ChildKeysPrivate) : TreeSound (KeyTree.newFromRoot root) := by
  have hempty : KeyTree.IndexSound ⟨∅, ∅⟩ := fun accountId c hentry => by cases hentry
  exact ⟨KeyTree.shape_newFromRoot root ▸ Set.mem_singleton _,
    hempty.adjoin (AList.notMem_empty _) root⟩

/-- **Run.** -/
theorem treeSound_of_run {root : ChildKeysPrivate} {events : List WalletEvent} {u : UserKeyChain}
    (hrun : Run WalletStep (.newWithAccounts (KeyTree.newFromRoot root)) events u) :
    TreeSound u.privateKeyTree :=
  hrun.invariant (I := fun u => TreeSound u.privateKeyTree) (treeSound_newFromRoot root)
    fun _ _ _ h hstep => h.step hstep

end

/-! ## Ids a wallet knows -/

namespace UserKeyChain

variable [Sha256] {u u' : UserKeyChain} {accountId : AccountId} {kind : PrivateAccountKind}
  {account : Account}

/-- An id of an imported account. -/
def Imports (u : UserKeyChain) (accountId : AccountId) : Prop :=
  ∃ key accounts, u.importedPrivateAccounts.lookup key = some accounts ∧
    ∃ kind ∈ accounts, AccountId.forPrivateAccount key.keyChain.nullifierPublicKey kind = accountId

/-- An id that is not shared, imported or registered, and that no key of the tree gives for a
kind. -/
structure Unknown (u : UserKeyChain) (accountId : AccountId) (kind : PrivateAccountKind) :
    Prop where
  shared : u.sharedPrivateAccounts.lookup accountId = none
  imported : ¬ u.Imports accountId
  registered : u.privateKeyTree.accountIdMap.lookup accountId = none
  derived : ∀ c node, u.privateKeyTree.keyMap.lookup c = some node →
    AccountId.forPrivateAccount node.keyChain.nullifierPublicKey kind ≠ accountId

theorem findImported_eq_some {key : ImportedPrivateAccountKey} {accounts : PrivateAccounts}
    (h : u.findImported accountId = some (key, accounts, kind)) :
    u.importedPrivateAccounts.lookup key = some accounts ∧ kind ∈ accounts ∧
      AccountId.forPrivateAccount key.keyChain.nullifierPublicKey kind = accountId := by
  obtain ⟨⟨key', accounts'⟩, hmem, heq⟩ := List.exists_of_findSome?_eq_some h
  obtain ⟨kind', hfind, heq⟩ := Option.map_eq_some_iff.1 heq
  cases heq
  have hid := List.find?_some hfind
  exact ⟨Ledger.mem_ascending.1 hmem, Ledger.mem_sortedKeys.1 (List.mem_of_find?_eq_some hfind),
    of_decide_eq_true hid⟩

theorem findImported_eq_none : u.findImported accountId = none ↔ ¬ u.Imports accountId := by
  rw [findImported, List.findSome?_eq_none_iff]
  constructor
  · rintro h ⟨key, accounts, hlookup, kind, hkind, hid⟩
    have hnone := Option.map_eq_none_iff.1 (h (key, accounts) (Ledger.mem_ascending.2 hlookup))
    exact absurd (decide_eq_true hid) (List.find?_eq_none.1 hnone kind (Ledger.mem_sortedKeys.2 hkind))
  · rintro h ⟨key, accounts⟩ hmem
    rw [Option.map_eq_none_iff, List.find?_eq_none]
    intro kind hkind hid
    exact h ⟨key, accounts, Ledger.mem_ascending.1 hmem, kind, Ledger.mem_sortedKeys.1 hkind,
      of_decide_eq_true hid⟩

/-- **Storing.**  A wallet whose index is good stores all but what it does not know. -/
theorem exists_insert_iff (h : u.privateKeyTree.IndexSound) :
    (∃ u', u.insertPrivateAccount accountId kind account = .ok u') ↔
      ¬ u.Unknown accountId kind := by
  simp only [insertPrivateAccount_eq_ok]
  constructor
  · rintro ⟨u', hstores⟩ hunknown
    cases hstores with
    | shared hentry => cases hentry.symm.trans hunknown.shared
    | imported _ hfound =>
        cases hfound.symm.trans (findImported_eq_none.2 hunknown.imported)
    | registered _ _ hentry _ => cases hentry.symm.trans hunknown.registered
    | derived _ _ _ hfound =>
        have hid := List.find?_some hfound
        exact hunknown.derived _ _ (Ledger.mem_ascending.1 (List.mem_of_find?_eq_some hfound))
          (of_decide_eq_true hid)
  · intro hknown
    cases hshared : u.sharedPrivateAccounts.lookup accountId with
    | some entry => exact ⟨_, .shared hshared⟩
    | none =>
        cases himported : u.findImported accountId with
        | some found => exact ⟨_, .imported hshared himported⟩
        | none =>
            cases hentry : u.privateKeyTree.accountIdMap.lookup accountId with
            | some c =>
                obtain ⟨node, hnode, _⟩ := h accountId c hentry
                exact ⟨_, .registered hshared himported hentry hnode⟩
            | none =>
                cases hfound : (Ledger.ascending u.privateKeyTree.keyMap).find? (fun p =>
                    AccountId.forPrivateAccount p.2.keyChain.nullifierPublicKey kind =
                      accountId) with
                | some found => exact ⟨_, .derived hshared himported hentry hfound⟩
                | none =>
                    refine absurd ⟨hshared, findImported_eq_none.1 himported, hentry,
                      fun c node hnode hid => ?_⟩ hknown
                    exact List.find?_eq_none.1 hfound (c, node) (Ledger.mem_ascending.2 hnode)
                      (decide_eq_true hid)

/-- The same keys, and the same ids but for those that are registered. -/
structure SameKeys (u u' : UserKeyChain) : Prop where
  shared : ∀ id, u'.sharedPrivateAccounts.lookup id = none ↔
    u.sharedPrivateAccounts.lookup id = none
  imported : ∀ id, u'.Imports id ↔ u.Imports id
  nodes : ∀ c, (u'.privateKeyTree.keyMap.lookup c).map (·.keyChain) =
    (u.privateKeyTree.keyMap.lookup c).map (·.keyChain)

/-- Nodes give the same ids if they have the same keys. -/
theorem SameKeys.derived (h : SameKeys u u') {id : AccountId}
    (hid : ∀ c node, u.privateKeyTree.keyMap.lookup c = some node →
      AccountId.forPrivateAccount node.keyChain.nullifierPublicKey kind ≠ id) :
    ∀ c node, u'.privateKeyTree.keyMap.lookup c = some node →
      AccountId.forPrivateAccount node.keyChain.nullifierPublicKey kind ≠ id := by
  intro c node hnode
  have hkey := h.nodes c
  rw [hnode, Option.map_some] at hkey
  obtain ⟨old, hold, heq⟩ := Option.map_eq_some_iff.1 hkey.symm
  rw [← heq]
  exact hid c old hold

theorem SameKeys.symm (h : SameKeys u u') : SameKeys u' u :=
  ⟨fun id => (h.shared id).symm, fun id => (h.imported id).symm, fun c => (h.nodes c).symm⟩

theorem SameKeys.unknown_iff (h : SameKeys u u') {id : AccountId}
    (hregistered : u'.privateKeyTree.accountIdMap.lookup id =
      u.privateKeyTree.accountIdMap.lookup id) : u'.Unknown id kind ↔ u.Unknown id kind := by
  constructor
  · intro hu
    exact ⟨(h.shared id).1 hu.shared, fun hid => hu.imported ((h.imported id).2 hid),
      hregistered ▸ hu.registered, h.symm.derived hu.derived⟩
  · intro hu
    exact ⟨(h.shared id).2 hu.shared, fun hid => hu.imported ((h.imported id).1 hid),
      hregistered ▸ hu.registered, h.derived hu.derived⟩

omit [Sha256] in
/-- A node with other accounts has the same key. -/
theorem map_keyChain_insert {t : KeyTreePrivate} {c : ChainIndex} {node node' : ChildKeysPrivate}
    (hnode : t.keyMap.lookup c = some node) (hkey : node'.keyChain = node.keyChain)
    (c' : ChainIndex) : ((t.keyMap.insert c node').lookup c').map (·.keyChain) =
      (t.keyMap.lookup c').map (·.keyChain) := by
  by_cases hc : c' = c
  · subst hc
    rw [AList.lookup_insert, hnode, Option.map_some, Option.map_some, hkey]
  · rw [AList.lookup_insert_ne hc]

theorem imports_insert {key : ImportedPrivateAccountKey} {accounts : PrivateAccounts}
    (hlookup : u.importedPrivateAccounts.lookup key = some accounts) (hkind : kind ∈ accounts)
    (id : AccountId) : Imports { u with importedPrivateAccounts :=
        u.importedPrivateAccounts.insert key (accounts.insert kind account) } id ↔
      u.Imports id := by
  constructor
  · rintro ⟨key', accounts', hlookup', kind', hkind', hid⟩
    by_cases hkey : key' = key
    · subst hkey
      rw [AList.lookup_insert, Option.some.injEq] at hlookup'
      subst hlookup'
      rcases (AList.mem_insert _).1 hkind' with rfl | hmem
      · exact ⟨key', accounts, hlookup, kind', hkind, hid⟩
      · exact ⟨key', accounts, hlookup, kind', hmem, hid⟩
    · rw [AList.lookup_insert_ne hkey] at hlookup'
      exact ⟨key', accounts', hlookup', kind', hkind', hid⟩
  · rintro ⟨key', accounts', hlookup', kind', hkind', hid⟩
    by_cases hkey : key' = key
    · subst hkey
      obtain rfl : accounts = accounts' := Option.some.inj (hlookup.symm.trans hlookup')
      exact ⟨key', _, AList.lookup_insert _, kind', (AList.mem_insert _).2 (.inr hkind'), hid⟩
    · exact ⟨key', accounts', (AList.lookup_insert_ne hkey).trans hlookup', kind', hkind', hid⟩

theorem Stores.sameKeys (h : Stores u accountId kind account u') : SameKeys u u' := by
  cases h with
  | shared hentry =>
      refine ⟨fun id => ?_, fun _ => Iff.rfl, fun _ => rfl⟩
      by_cases hid : id = accountId
      · subst hid
        simp only [AList.lookup_insert, hentry, reduceCtorEq]
      · rw [AList.lookup_insert_ne hid]
  | imported _ hfound =>
      obtain ⟨hlookup, hkind, _⟩ := findImported_eq_some hfound
      exact ⟨fun _ => Iff.rfl, imports_insert hlookup hkind, fun _ => rfl⟩
  | registered _ _ _ hnode =>
      exact ⟨fun _ => Iff.rfl, fun _ => Iff.rfl, map_keyChain_insert hnode rfl⟩
  | derived _ _ _ hfound =>
      have hnode := Ledger.mem_ascending.1 (List.mem_of_find?_eq_some hfound)
      exact ⟨fun _ => Iff.rfl, fun _ => Iff.rfl, map_keyChain_insert hnode rfl⟩

/-- **Step.**  After an account is stored its id is known, and nothing else has changed. -/
theorem Stores.unknown_iff (h : Stores u accountId kind account u') {id : AccountId}
    {kind' : PrivateAccountKind} :
    u'.Unknown id kind' ↔ u.Unknown id kind' ∧ id ≠ accountId := by
  have hsame := h.sameKeys
  cases h with
  | shared hentry =>
      rw [hsame.unknown_iff rfl, iff_self_and]
      rintro hu rfl
      cases hentry.symm.trans hu.shared
  | imported _ hfound =>
      obtain ⟨hlookup, hkind, hid⟩ := findImported_eq_some hfound
      rw [hsame.unknown_iff rfl, iff_self_and]
      rintro hu rfl
      exact hu.imported ⟨_, _, hlookup, _, hkind, hid⟩
  | registered _ _ hentry hnode =>
      rw [hsame.unknown_iff rfl, iff_self_and]
      rintro hu rfl
      cases hentry.symm.trans hu.registered
  | derived _ _ _ hfound =>
      by_cases hid : id = accountId
      · subst hid
        refine ⟨fun hu => ?_, fun hu => absurd rfl hu.2⟩
        cases (AList.lookup_insert _).symm.trans hu.registered
      · rw [hsame.unknown_iff (AList.lookup_insert_ne hid), iff_self_and]
        exact fun _ => hid

/-- **Run.**  A list of accounts is stored if each is known or comes after one with its id. -/
theorem exists_storeAll_iff {l : List Received} (h : u.privateKeyTree.IndexSound) :
    (∃ u', l.foldlM storeReceived u = .ok u') ↔
      ∀ l₁ r l₂, l = l₁ ++ r :: l₂ → u.Unknown r.accountId r.kind →
        ∃ r' ∈ l₁, r'.accountId = r.accountId := by
  induction l generalizing u with
  | nil =>
      refine ⟨fun _ l₁ r l₂ hl => ?_, fun _ => ⟨u, rfl⟩⟩
      cases l₁ <;> cases hl
  | cons r l ih =>
      constructor
      · rintro ⟨u', hfold⟩ l₁ s l₂ hl hunknown
        rw [List.foldlM_cons] at hfold
        obtain ⟨u₁, hr, hrest⟩ := bind_eq_ok.1 hfold
        have hinsert := mapError_eq_ok.1 hr
        cases l₁ with
        | nil =>
            cases hl
            exact absurd hunknown ((exists_insert_iff h).1 ⟨u₁, hinsert⟩)
        | cons x l₁ =>
            cases hl
            by_cases hid : s.accountId = r.accountId
            · exact ⟨r, List.mem_cons_self, hid.symm⟩
            · obtain ⟨r', hr', hid'⟩ := (ih (h.store hinsert)).1 ⟨u', hrest⟩ l₁ s l₂ rfl
                ((insertPrivateAccount_eq_ok.1 hinsert).unknown_iff.2 ⟨hunknown, hid⟩)
              exact ⟨r', List.mem_cons_of_mem _ hr', hid'⟩
      · intro hall
        have hknown : ¬ u.Unknown r.accountId r.kind := by
          intro hunknown
          obtain ⟨r', hr', _⟩ := hall [] r l rfl hunknown
          cases hr'
        obtain ⟨u₁, hinsert⟩ := (exists_insert_iff h).2 hknown
        have hrest : ∃ u', l.foldlM storeReceived u₁ = .ok u' := by
          refine (ih (h.store hinsert)).2 fun l₁ s l₂ hl hunknown => ?_
          obtain ⟨hunknown, hid⟩ := (insertPrivateAccount_eq_ok.1 hinsert).unknown_iff.1 hunknown
          obtain ⟨r', hr', hid'⟩ := hall (r :: l₁) s l₂ (by rw [hl, List.cons_append]) hunknown
          rcases List.mem_cons.1 hr' with rfl | hr'
          · exact absurd hid'.symm hid
          · exact ⟨r', hr', hid'⟩
        obtain ⟨u', hu'⟩ := hrest
        refine ⟨u', ?_⟩
        rw [List.foldlM_cons]
        exact bind_eq_ok.2 ⟨u₁, mapError_eq_ok.2 hinsert, hu'⟩

end UserKeyChain

/-! ## Outputs a key can try -/

section

variable [Sha256] [ChaCha20] [Secp256k1]

/-- The keys have a viewing key, and share a secret with every output that has their view tag. -/
structure ViewingKeys.Reads (keys : ViewingKeys) (tx : PrivacyPreservingTransaction) : Prop where
  viewingKey : keys.vpk.length = 33
  secret : ∀ data ∈ tx.message.encryptedPrivatePostStates,
    computeViewTag keys.npk keys.vpk = .ok data.viewTag →
      data.epk.length = 33 ∧ (Secp256k1.pointMul keys.vsk data.epk).isSome

/-- What the proof of a transaction says about the number of its outputs. -/
structure OutputsMatch (tx : PrivacyPreservingTransaction) : Prop where
  commitments : tx.message.encryptedPrivatePostStates.length = tx.message.newCommitments.length
  bound : tx.message.encryptedPrivatePostStates.length < 2 ^ 32

omit [Sha256] [ChaCha20] in
theorem exists_sharedSecret_iff {scalar : Scalar} {point : Bytes} :
    (∃ secret, SharedSecretKey.new scalar point = .ok secret) ↔
      point.length = 33 ∧ (Secp256k1.pointMul scalar point).isSome := by
  simp only [SharedSecretKey.new, bind_eq_ok, ensure_eq_ok, expect_eq_ok, exists_const, pure,
    Except.pure, Except.ok.injEq, Option.isSome_iff_exists]
  constructor
  · rintro ⟨_, hlen, x, hx, _⟩
    exact ⟨hlen, x, hx⟩
  · rintro ⟨hlen, x, hx⟩
    exact ⟨_, hlen, x, hx, rfl⟩

/-- Trying the outputs. -/
theorem ViewingKeys.exists_openings_iff {keys : ViewingKeys} {tx : PrivacyPreservingTransaction}
    (h : OutputsMatch tx) : (∃ l, keys.openings tx = .ok l) ↔ keys.Reads tx := by
  -- an output has a commitment and its index fits, so only the secret can be missing
  have hopen : ∀ data j, (data, j) ∈ tx.message.encryptedPrivatePostStates.zipIdx →
      ((∃ o, keys.openOutput tx data j = .ok o) ↔
        data.epk.length = 33 ∧ (Secp256k1.pointMul keys.vsk data.epk).isSome) := by
    intro data j hmem
    obtain ⟨hj, _⟩ := List.getElem?_eq_some_iff.1 (List.mk_mem_zipIdx_iff_getElem?.1 hmem)
    obtain ⟨commitment, hcommitment⟩ : ∃ c, tx.message.newCommitments[j]? = some c :=
      ⟨_, List.getElem?_eq_getElem (h.commitments ▸ hj)⟩
    rw [← exists_sharedSecret_iff]
    simp only [openOutput, hcommitment, bind_eq_ok, expect_eq_ok, ensure_eq_ok, exists_const,
      pure, Except.pure, Except.ok.injEq]
    constructor
    · rintro ⟨_, _, _, secret, hsecret, _⟩
      exact ⟨secret, hsecret⟩
    · rintro ⟨secret, hsecret⟩
      exact ⟨_, commitment, rfl, secret, hsecret, hj.trans h.bound, rfl⟩
  have htag : ∀ viewTag, computeViewTag keys.npk keys.vpk = .ok viewTag →
      ((∃ opened, (tx.message.encryptedPrivatePostStates.zipIdx.filter fun e =>
          e.1.viewTag = viewTag).mapM (fun e => keys.openOutput tx e.1 e.2) = .ok opened) ↔
        ∀ data ∈ tx.message.encryptedPrivatePostStates,
          computeViewTag keys.npk keys.vpk = .ok data.viewTag →
            data.epk.length = 33 ∧ (Secp256k1.pointMul keys.vsk data.epk).isSome) := by
    intro viewTag hviewTag
    rw [exists_mapM_iff]
    constructor
    · intro hall data hdata hview
      obtain ⟨j, hj⟩ := List.mem_iff_getElem?.1 hdata
      have hmem := List.mk_mem_zipIdx_iff_getElem?.2 hj
      rw [hviewTag, Except.ok.injEq] at hview
      exact (hopen data j hmem).1 (hall (data, j)
        (List.mem_filter.2 ⟨hmem, decide_eq_true hview.symm⟩))
    · rintro hall ⟨data, j⟩ hmem
      obtain ⟨hmem, hview⟩ := List.mem_filter.1 hmem
      refine (hopen data j hmem).2 (hall data
        (List.mem_of_getElem? (List.mk_mem_zipIdx_iff_getElem?.1 hmem)) ?_)
      rw [hviewTag, of_decide_eq_true hview]
  constructor
  · rintro ⟨l, hl⟩
    simp only [openings, bind_eq_ok, pure, Except.pure, Except.ok.injEq] at hl
    obtain ⟨viewTag, hviewTag, opened, hopened, _⟩ := hl
    have hlen : keys.vpk.length = 33 := by
      simp only [computeViewTag, bind_eq_ok, ensure_eq_ok] at hviewTag
      obtain ⟨_, hlen, _⟩ := hviewTag
      exact hlen
    exact ⟨hlen, (htag viewTag hviewTag).1 ⟨opened, hopened⟩⟩
  · rintro ⟨hlen, hall⟩
    have hviewTag : ∃ viewTag, computeViewTag keys.npk keys.vpk = .ok viewTag :=
      ⟨_, bind_eq_ok.2 ⟨(), ensure_eq_ok.2 hlen, rfl⟩⟩
    obtain ⟨viewTag, hviewTag⟩ := hviewTag
    obtain ⟨opened, hopened⟩ := (htag viewTag hviewTag).2 hall
    exact ⟨_, bind_eq_ok.2 ⟨viewTag, hviewTag, bind_eq_ok.2 ⟨opened, hopened, rfl⟩⟩⟩

namespace UserKeyChain

variable {u : UserKeyChain} {tx : PrivacyPreservingTransaction}

theorem exists_affectedAccounts_iff (h : OutputsMatch tx) :
    (∃ l, u.affectedAccounts tx = .ok l) ↔ ∀ keys ∈ u.viewingKeys, keys.Reads tx := by
  have hturn : ∀ a : AccountId × KeyChain × Option ChainIndex,
      (∃ l, (do
        let openings ← (a.2.1.viewingKeys a.2.2).openings tx
        return openings.map fun (i, kind, account) =>
          (⟨i, AccountId.forPrivateAccount a.2.1.nullifierPublicKey kind, kind, account⟩ :
            Received)) = .ok l) ↔ (a.2.1.viewingKeys a.2.2).Reads tx := fun a =>
    exists_bind_pure_iff.trans (ViewingKeys.exists_openings_iff h)
  rw [affectedAccounts, exists_bind_pure_iff, exists_mapM_iff, viewingKeys, List.forall_mem_map]
  exact forall₂_congr fun a _ => hturn a

/-- The keys of the shared accounts exist and can try the outputs. -/
def SharedReads (u : UserKeyChain) (tx : PrivacyPreservingTransaction) : Prop :=
  ∀ accountId holder, (accountId, holder) ∈ u.sharedKeys →
    ∃ keys, holder.viewingKeys = .ok keys ∧ keys.Reads tx

omit [ChaCha20] in
theorem SameShared.sharedReads {u' : UserKeyChain} (hsame : SameShared u u')
    (h : u.SharedReads tx) : u'.SharedReads tx :=
  fun accountId holder hmem => h accountId holder (hsame.symm.mem_sharedKeys hmem)

theorem exists_sharedUpdates_iff (h : OutputsMatch tx) :
    (∃ l, u.sharedUpdates tx = .ok l) ↔ u.SharedReads tx := by
  have hturn : ∀ a : AccountId × ViewingKeys,
      (∃ l, (do
        let openings ← a.2.openings tx
        return openings.map fun (e : Opening) => (⟨e.1, a.1, e.2.1, e.2.2⟩ : Received)) =
          .ok l) ↔ a.2.Reads tx := fun a =>
    exists_bind_pure_iff.trans (ViewingKeys.exists_openings_iff h)
  constructor
  · rintro ⟨_, hl⟩ accountId holder hmem
    obtain ⟨sharedKeys, hkeys, hreceived⟩ := bind_eq_ok.1 hl
    obtain ⟨⟨id, keys⟩, hviewing⟩ := exists_of_mapM hkeys hmem
    have hkeysMem := (mem_of_mapM hkeys).2 ⟨_, hmem, hviewing⟩
    obtain ⟨_, hviewing, heq⟩ := bind_eq_ok.1 hviewing
    cases heq
    have hreads := exists_mapM_iff.1 (exists_bind_pure_iff.1 ⟨_, hreceived⟩) _ hkeysMem
    exact ⟨keys, hviewing, (hturn (accountId, keys)).1 hreads⟩
  · intro hall
    have hviewing : ∃ sharedKeys, u.sharedKeys.mapM (fun a => do
        let viewingKeys ← a.2.viewingKeys
        return (a.1, viewingKeys)) = .ok sharedKeys := by
      refine exists_mapM_iff.2 fun a ha => exists_bind_pure_iff.2 ?_
      obtain ⟨keys, hkeys, _⟩ := hall a.1 a.2 ha
      exact ⟨keys, hkeys⟩
    obtain ⟨sharedKeys, hkeys⟩ := hviewing
    have hreads : ∀ a ∈ sharedKeys, a.2.Reads tx := by
      intro a ha
      obtain ⟨⟨accountId, holder⟩, hmem, hviewing⟩ := (mem_of_mapM hkeys).1 ha
      obtain ⟨keys, hholder, heq⟩ := bind_eq_ok.1 hviewing
      cases heq
      obtain ⟨keys', hholder', hreads⟩ := hall accountId holder hmem
      rw [hholder, Except.ok.injEq] at hholder'
      exact hholder' ▸ hreads
    obtain ⟨l, hl⟩ := exists_bind_pure_iff.2
      (exists_mapM_iff.2 fun a ha => (hturn a).2 (hreads a ha))
    exact ⟨l, bind_eq_ok.2 ⟨sharedKeys, hkeys, hl⟩⟩

/-- A transaction can be synchronised: the keys can try its outputs, and what key chains open is
known, or comes after an account with its id. -/
structure SyncReady (u : UserKeyChain) (tx : PrivacyPreservingTransaction) : Prop where
  keyChains : ∀ keys ∈ u.viewingKeys, keys.Reads tx
  shared : u.SharedReads tx
  known : ∀ l₁ r l₂, u.affectedAccounts tx = .ok (l₁ ++ r :: l₂) →
    u.Unknown r.accountId r.kind → ∃ r' ∈ l₁, r'.accountId = r.accountId

theorem exists_sync_iff (htx : OutputsMatch tx) (hu : u.privateKeyTree.IndexSound) :
    (∃ u', u.syncPrivateAccountsWithTx (.privacyPreserving tx) = .ok u') ↔ u.SyncReady tx := by
  constructor
  · rintro ⟨u', hsync⟩
    obtain ⟨affected, haffected, hsync⟩ := bind_eq_ok.1 hsync
    obtain ⟨u₁, hstore, hsync⟩ := bind_eq_ok.1 hsync
    have hshared := (exists_sharedUpdates_iff htx).1 (exists_bind_pure_iff.1 ⟨u', hsync⟩)
    refine ⟨(exists_affectedAccounts_iff htx).1 ⟨affected, haffected⟩,
      (sameShared_of_foldlM hstore).symm.sharedReads hshared, fun l₁ r l₂ heq => ?_⟩
    rw [haffected, Except.ok.injEq] at heq
    exact (exists_storeAll_iff hu).1 ⟨u₁, hstore⟩ l₁ r l₂ heq
  · rintro ⟨hkeyChains, hshared, hknown⟩
    obtain ⟨affected, haffected⟩ := (exists_affectedAccounts_iff htx).2 hkeyChains
    obtain ⟨u₁, hstore⟩ := (exists_storeAll_iff hu).2 fun l₁ r l₂ heq =>
      hknown l₁ r l₂ (heq ▸ haffected)
    obtain ⟨u', hu'⟩ := exists_bind_pure_iff.2 ((exists_sharedUpdates_iff htx).2
      ((sameShared_of_foldlM hstore).sharedReads hshared))
    exact ⟨u', bind_eq_ok.2 ⟨affected, haffected, bind_eq_ok.2 ⟨u₁, hstore, hu'⟩⟩⟩

end UserKeyChain

end

/-! ## Accepted transactions -/

section

variable [Sha256] [ChaCha20] [Zkvm] [Schnorr] {S : Set Bytes} {st st' : V03State}
  {tx : PrivacyPreservingTransaction} {blockId : BlockId} {timestamp : Timestamp}

/-- An accepted transaction has a commitment for each output, and its indices fit. -/
theorem outputsMatch_of_accepted (hsound : SoundProof S tx.proof)
    (haccepted : st.transitionFromPrivacyPreservingTransaction tx blockId timestamp = .ok st') :
    OutputsMatch tx := by
  obtain ⟨hvalid, _⟩ := validPrivate_of_transition haccepted
  obtain ⟨verifies, hdecode, hverifies⟩ := hvalid.proof
  obtain ⟨input, hcircuit, _⟩ := hsound _ _ hdecode hverifies
  obtain ⟨_, _, _, _, _, hemitted⟩ := emitted_of_circuit hcircuit
  have hciphertexts : tx.message.encryptedPrivatePostStates.map (·.ciphertext) = _ :=
    ciphertexts_of_circuit hcircuit
  have hcommitments : tx.message.newCommitments = _ := hemitted.newCommitments
  have hlen : tx.message.encryptedPrivatePostStates.length =
      (privateEntries (circuitEntries input)).length := by
    have hlen := congrArg List.length hciphertexts
    rw [List.length_map, List.length_mapIdx] at hlen
    exact hlen
  refine ⟨?_, hlen ▸ length_privateEntries_lt hcircuit⟩
  rw [hlen, hcommitments, List.length_map]

variable [Secp256k1] [Hmac] [ScalarArithmetic]

/-- **Synchronisation.**  A wallet that has generated keys, imported and registered accounts and
synchronised before returns from an accepted transaction exactly if its keys share a secret with
every output of their view tag, and know the ids of what they open. -/
theorem sync_returns_iff (hsound : SoundProof S tx.proof) {root : ChildKeysPrivate}
    {events : List WalletEvent} {u : UserKeyChain}
    (hrun : Run WalletStep (.newWithAccounts (KeyTree.newFromRoot root)) events u)
    (haccepted : st.transitionFromPrivacyPreservingTransaction tx blockId timestamp = .ok st') :
    (∃ u', u.syncPrivateAccountsWithTx (.privacyPreserving tx) = .ok u') ↔ u.SyncReady tx :=
  UserKeyChain.exists_sync_iff (outputsMatch_of_accepted hsound haccepted)
    (treeSound_of_run hrun).index

end

namespace PaidImport

/-- The owner of the note pays 20 to the identifier 5 of the reader. -/
def input : PrivacyPreservingCircuitInput :=
  let _ := Sample.sha256
  ⟨[Sample.output SpentNote.script 2 none [⟨SpentNote.note, true, SpentNote.owner⟩,
      ⟨Account.default, false, AccountId.forRegularPrivateAccount ForeignOutput.readerKey 5⟩]
      (Sample.transferCodec.toVec (.transfer 20))],
    [.privateAuthorizedUpdate ⟨Bytes32.zero⟩ SpentNote.nsk
        (1, [hashValue dummyCommitment.value]) 0,
      .privateUnauthorized ForeignOutput.readerKey ForeignOutput.ssk 5], Sample.programId 2⟩

def journal : PrivacyPreservingCircuitOutput :=
  let _ := Sample.sha256; let _ := Sample.zkvm SpentNote.script; let _ := Sample.xorCipher
  valueD ⟨[], [], [], [], [], .newUnbounded, .newUnbounded⟩ (circuit input)

/-- The second output has the view tag of the reader. -/
def tx (epk : Bytes) : PrivacyPreservingTransaction :=
  let _ := Sample.sha256
  let keyChain := ForeignOutput.keyChain ForeignOutput.readerKey
  let viewTag := valueD 0 (computeViewTag ForeignOutput.readerKey keyChain.viewingPublicKey)
  { Sample.privateTransaction journal with
    message := { (Sample.privateTransaction journal).message with
      encryptedPrivatePostStates := journal.ciphertexts.mapIdx fun i ciphertext =>
        ⟨ciphertext, epk, if i = 1 then viewTag else viewTag + 1⟩ } }

/-- The key the sender attaches. -/
def epk : Bytes :=
  let _ := Sample.curve
  valueD [] (pointFromScalar ForeignOutput.esk)

def root : ChildKeysPrivate :=
  let _ := Sample.sha256; let _ := Sample.curve; let _ := Sample.hmac
  valueD GrownTree.root (ChildKeysPrivate.root (List.replicate 64 1))

/-- The reader imports its key with one identifier. -/
def importKey (identifier : Identifier) : WalletEvent :=
  .importAccount (ForeignOutput.keyChain ForeignOutput.readerKey) (some [0]) identifier
    Account.default

def wallet (identifier : Identifier) : UserKeyChain :=
  let _ := Sample.sha256; let _ := Sample.curve; let _ := Sample.hmac; let _ := Sample.scalars
  (UserKeyChain.newWithAccounts (KeyTree.newFromRoot root)).addImportedPrivateAccount
    (ForeignOutput.keyChain ForeignOutput.readerKey) (some [0]) identifier Account.default

theorem run_wallet (identifier : Identifier) :
    let _ := Sample.sha256; let _ := Sample.curve; let _ := Sample.hmac
    let _ := Sample.scalars; let _ := Sample.xorCipher
    Run WalletStep (.newWithAccounts (KeyTree.newFromRoot root)) [importKey identifier]
      (wallet identifier) := by
  intro _ _ _ _ _
  have hstep : WalletStep (.newWithAccounts (KeyTree.newFromRoot root)) (importKey identifier)
      (wallet identifier) := rfl
  exact .cons hstep .nil

theorem soundProof (proof : Bytes) :
    let _ := Sample.sha256; let _ := Sample.xorCipher
    let _ := Sample.provingZkvm SpentNote.script [journal]
    SoundProof { s | s ∈ circuitStrings input } proof := by
  intro _ _ _ verifies journal' hdecode hverifies
  have hjournal := List.mem_singleton.1 (Sample.mem_of_verifies hdecode hverifies)
  have hcircuit : circuit input = .ok journal := by decide +kernel
  exact ⟨input, hjournal ▸ hcircuit, fun s hs => hs⟩

end PaidImport

/-- A reader has imported its key with the identifier 0.  An accepted payment to its identifier 5
makes the wallet panic, and so does one with an ephemeral key that is no point. -/
theorem sync_panics_on_import :
    let _ := Sample.sha256; let _ := Sample.curve; let _ := Sample.hmac
    let _ := Sample.scalars; let _ := Sample.xorCipher
    let _ := Sample.provingZkvm SpentNote.script [PaidImport.journal]; let _ := Sample.schnorr
    Run WalletStep (.newWithAccounts (KeyTree.newFromRoot PaidImport.root))
        [PaidImport.importKey 0] (PaidImport.wallet 0) ∧
      circuit PaidImport.input = .ok PaidImport.journal ∧
      (SpentNote.genesis.transitionFromPrivacyPreservingTransaction
        (PaidImport.tx PaidImport.epk) 0 0).isOk = true ∧
      ((PaidImport.wallet 0).syncPrivateAccountsWithTx
          (.privacyPreserving (PaidImport.tx PaidImport.epk))).map (fun _ => ()) =
        .error "Account Id should exist" ∧
      (SpentNote.genesis.transitionFromPrivacyPreservingTransaction
        (PaidImport.tx []) 0 0).isOk = true ∧
      ((PaidImport.wallet 0).syncPrivateAccountsWithTx
          (.privacyPreserving (PaidImport.tx []))).map (fun _ => ()) = .error unwrapMessage := by
  intro _ _ _ _ _ _ _
  refine ⟨PaidImport.run_wallet 0, ?_⟩
  decide +kernel

/-- A reader who has imported its key with the identifier 5 can synchronise the payment. -/
theorem sync_returns_iff_imported :
    let _ := Sample.sha256; let _ := Sample.curve; let _ := Sample.xorCipher
    (PaidImport.wallet 5).SyncReady (PaidImport.tx PaidImport.epk) := by
  intro _ _ _
  let _ := Sample.hmac; let _ := Sample.scalars; let _ := Sample.schnorr
  let _ := Sample.provingZkvm SpentNote.script [PaidImport.journal]
  obtain ⟨haccepted, hsync⟩ :
      (SpentNote.genesis.transitionFromPrivacyPreservingTransaction
        (PaidImport.tx PaidImport.epk) 0 0).isOk = true ∧
      ((PaidImport.wallet 5).syncPrivateAccountsWithTx
        (.privacyPreserving (PaidImport.tx PaidImport.epk))).isOk = true := by decide +kernel
  exact (sync_returns_iff (PaidImport.soundProof _) (PaidImport.run_wallet 5)
    (eq_ok_valueD SpentNote.genesis haccepted)).1 (exists_of_isOk hsync)

end ExecutionZone
