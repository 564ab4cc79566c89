import ExecutionZone.Wallet.WalletKeys

/-!
# Trees in which every node is found

The index of a key tree leads from account ids to nodes.  In the trees of a wallet all entries
lead to nodes, and all accounts of a node lead to it (`KeyTree.Complete`).

That is so as long as no two accounts have the same id: a new node replaces the entries of the
ids it has.  So the invariant of the private tree is conditional.  If at last its nodes have
different keys, and ids of the pairs that occurred are different, then they were all the time,
since nodes and accounts stay.
-/

namespace ExecutionZone

/-! ## Trees -/

namespace KeyTree

section

variable {N : Type} [KeyTreeNode N] {t : KeyTree N} {c : ChainIndex} {node : N}

/-- Every entry leads to a node, and every node has accounts, all of which lead to it. -/
structure Complete (t : KeyTree N) : Prop where
  entry : ∀ accountId c, t.accountIdMap.lookup accountId = some c → c ∈ t.shape
  nonempty : ∀ c node, t.keyMap.lookup c = some node → KeyTreeNode.accountIds node ≠ []
  node : ∀ c node, t.keyMap.lookup c = some node → ∀ accountId ∈ KeyTreeNode.accountIds node,
    t.accountIdMap.lookup accountId = some c

omit [KeyTreeNode N] in
/-- A new node does not replace another. -/
theorem lookup_insert_of_lookup (hc : c ∉ t.shape) {c' : ChainIndex} {node' : N}
    (hnode' : t.keyMap.lookup c' = some node') :
    (t.keyMap.insert c node).lookup c' = some node' := by
  have hne : c' ≠ c := by
    rintro rfl
    exact hc (mem_shape.2 ⟨node', hnode'⟩)
  exact (AList.lookup_insert_ne hne).trans hnode'

/-- A node whose accounts are new. -/
theorem Complete.adjoin (h : t.Complete) (hc : c ∉ t.shape)
    (hsome : KeyTreeNode.accountIds node ≠ [])
    (hnew : ∀ accountId ∈ KeyTreeNode.accountIds node, t.accountIdMap.lookup accountId = none) :
    (t.insertNode c node).Complete := by
  have hkeys : ((KeyTreeNode.accountIds node).map fun id => (id, c)).map Prod.fst =
      KeyTreeNode.accountIds node := by
    rw [List.map_map]
    exact List.map_id _
  refine ⟨fun accountId c' hentry => ?_, fun c' node' hnode' => ?_,
    fun c' node' hnode' accountId hid => ?_⟩
  · rw [shape_insertNode]
    rcases Ledger.mem_or_lookup_of_insertAll hentry with hmem | hold
    · obtain ⟨id, _, heq⟩ := List.mem_map.1 hmem
      cases heq
      exact Set.mem_insert _ _
    · exact Set.mem_insert_of_mem _ (h.entry accountId c' hold)
  · by_cases heq : c' = c
    · subst heq
      cases (AList.lookup_insert _).symm.trans hnode'
      exact hsome
    · exact h.nonempty c' node' ((AList.lookup_insert_ne heq).symm.trans hnode')
  · by_cases heq : c' = c
    · subst heq
      cases (AList.lookup_insert _).symm.trans hnode'
      obtain ⟨c₁, hlookup, hmem⟩ := Ledger.exists_lookup_insertAll (hkeys.symm ▸ hid)
      obtain ⟨_, _, heq⟩ := List.mem_map.1 hmem
      cases heq
      exact hlookup
    · have hold := h.node c' node' ((AList.lookup_insert_ne heq).symm.trans hnode') accountId hid
      have hnot : accountId ∉ KeyTreeNode.accountIds node := by
        intro hmem
        cases hold.symm.trans (hnew accountId hmem)
      rw [← hkeys] at hnot
      exact (Ledger.lookup_insertAll_of_notMem hnot).trans hold

end

/-! ### Public trees -/

section

variable [Sha256]

/-- Every entry leads to the node with the id. -/
def EntriesMatch (t : KeyTreePublic) : Prop :=
  ∀ accountId c, t.accountIdMap.lookup accountId = some c →
    ∃ node, t.keyMap.lookup c = some node ∧ node.accountId = accountId

/-- What holds of the tree of public keys. -/
structure PublicSound (t : KeyTreePublic) : Prop where
  root : ChainIndex.root ∈ t.shape
  covers : t.IndexCovers
  entries : t.EntriesMatch

variable [Secp256k1] [Hmac] [ScalarArithmetic] [KeyDerivation] {t t' : KeyTreePublic}
  {c : ChainIndex}

theorem EntriesMatch.adjoin (h : t.EntriesMatch) (hc : c ∉ t.shape) (node : ChildKeysPublic) :
    (t.insertNode c node).EntriesMatch := by
  intro accountId c' hentry
  change (t.accountIdMap.insert node.accountId c).lookup accountId = some c' at hentry
  by_cases hid : accountId = node.accountId
  · subst hid
    cases (AList.lookup_insert _).symm.trans hentry
    exact ⟨node, AList.lookup_insert _, rfl⟩
  · obtain ⟨node', hnode', heq⟩ := h accountId c' ((AList.lookup_insert_ne hid).symm.trans hentry)
    exact ⟨node', lookup_insert_of_lookup hc hnode', heq⟩

theorem PublicSound.adjoin (h : t.PublicSound) (hc : c ∉ t.shape) (node : ChildKeysPublic) :
    (t.insertNode c node).PublicSound :=
  ⟨shape_insertNode t c node ▸ Set.mem_insert_of_mem _ h.root, h.covers.adjoin hc node,
    h.entries.adjoin hc node⟩

theorem publicSound_newFromRoot (root : ChildKeysPublic) : (newFromRoot root).PublicSound := by
  have hcovers : IndexCovers ⟨∅, ∅⟩ := fun c node hnode => by cases hnode
  have hentries : EntriesMatch ⟨∅, ∅⟩ := fun accountId c hentry => by cases hentry
  exact ⟨shape_newFromRoot root ▸ Set.mem_singleton _,
    hcovers.adjoin (AList.notMem_empty _) root, hentries.adjoin (AList.notMem_empty _) root⟩

theorem PublicSound.complete (h : t.PublicSound) (hdistinct : t.DistinctIds) : t.Complete where
  entry accountId c hentry := by
    obtain ⟨node, hnode, _⟩ := h.entries accountId c hentry
    exact mem_shape.2 ⟨node, hnode⟩
  nonempty _ _ _ := List.cons_ne_nil _ _
  node c node hnode accountId hid := by
    rw [List.mem_singleton.1 hid]
    exact h.covers.indexed hdistinct c node hnode

omit [Secp256k1] [Hmac] [ScalarArithmetic] [KeyDerivation] in
theorem eq_some_of_withAccountId {generated : Option (ChainIndex × KeyTreePublic)}
    {accountId : AccountId} (h : withAccountId generated = some (accountId, c, t')) :
    generated = some (c, t') := by
  obtain ⟨⟨cci, t₁⟩, hgenerated, heq⟩ := Option.bind_eq_some_iff.1 h
  obtain ⟨node, _, heq⟩ := Option.map_eq_some_iff.1 heq
  cases heq
  exact hgenerated

end

/-! ### Private trees -/

section

variable [Sha256] {P : IdPairs} {t t' : KeyTreePrivate} {c : ChainIndex}
  {node : ChildKeysPrivate} {accountId : AccountId} {kind : PrivateAccountKind}
  {account : Account}

omit [Sha256] in
/-- Different nodes have different keys, and the pairs of the stored accounts are in `P`. -/
structure DistinctKeys (P : IdPairs) (t : KeyTreePrivate) : Prop where
  keys : ∀ c node c' node', t.keyMap.lookup c = some node → t.keyMap.lookup c' = some node' →
    node'.keyChain.nullifierPublicKey = node.keyChain.nullifierPublicKey → c' = c
  accounts : ∀ c node, t.keyMap.lookup c = some node → ∀ kind ∈ node.accounts,
    (node.keyChain.nullifierPublicKey, kind) ∈ P

omit [Sha256] in
/-- Nodes keep their keys and their accounts. -/
def Grows (t t' : KeyTreePrivate) : Prop :=
  ∀ c node, t.keyMap.lookup c = some node → ∃ node', t'.keyMap.lookup c = some node' ∧
    node'.keyChain = node.keyChain ∧ ∀ kind ∈ node.accounts, kind ∈ node'.accounts

omit [Sha256] in
theorem DistinctKeys.of_grows (h : t'.DistinctKeys P) (hgrows : Grows t t') :
    t.DistinctKeys P := by
  constructor
  · intro c₁ node₁ c₂ node₂ hnode₁ hnode₂ heq
    obtain ⟨node₁', hnode₁', hkey₁, _⟩ := hgrows c₁ node₁ hnode₁
    obtain ⟨node₂', hnode₂', hkey₂, _⟩ := hgrows c₂ node₂ hnode₂
    exact h.keys c₁ node₁' c₂ node₂' hnode₁' hnode₂' (by rw [hkey₁, hkey₂, heq])
  · intro c node hnode kind hkind
    obtain ⟨node', hnode', hkey, hkinds⟩ := hgrows c node hnode
    exact hkey ▸ h.accounts c node' hnode' kind (hkinds kind hkind)

/-- Every entry leads to a node, whose key gives the id with a kind, and the pair is in `P`. -/
def EntriesWithin (P : IdPairs) (t : KeyTreePrivate) : Prop :=
  ∀ accountId c, t.accountIdMap.lookup accountId = some c →
    ∃ node kind, t.keyMap.lookup c = some node ∧ (node.keyChain.nullifierPublicKey, kind) ∈ P ∧
      AccountId.forPrivateAccount node.keyChain.nullifierPublicKey kind = accountId

/-- What holds of the tree of private keys, as long as no two accounts have the same id. -/
structure PrivateSound [Secp256k1] [Hmac] [ScalarArithmetic] (P : IdPairs) (t : KeyTreePrivate) :
    Prop where
  complete : t.Complete
  entries : t.EntriesWithin P

theorem mem_accountIds : accountId ∈ node.accountIds ↔ ∃ kind ∈ node.accounts,
    AccountId.forPrivateAccount node.keyChain.nullifierPublicKey kind = accountId := by
  rw [ChildKeysPrivate.accountIds, List.mem_map]
  simp only [Ledger.mem_sortedKeys]

/-- The new node of a derived key has one account. -/
theorem accounts_of_ofSecret [Secp256k1] {ssk : SecretSpendingKey} {ccc : Bytes32}
    {cci : Option UInt32} (h : ChildKeysPrivate.ofSecret ssk ccc cci = .ok node) :
    node.accounts = Ledger.insertAll ∅ [(.regular 0, Account.default)] := by
  obtain ⟨_, _, heq⟩ := bind_eq_ok.1 h
  cases heq
  rfl

variable [Secp256k1] [Hmac] [ScalarArithmetic]

theorem accountIds_of_accounts
    (h : node.accounts = Ledger.insertAll ∅ [(.regular 0, Account.default)]) :
    KeyTreeNode.accountIds node =
      [AccountId.forPrivateAccount node.keyChain.nullifierPublicKey (.regular 0)] := by
  change node.accountIds = _
  rw [ChildKeysPrivate.accountIds, h]
  rfl

omit [Sha256] [Secp256k1] [Hmac] [ScalarArithmetic] in
theorem grows_insert (hc : c ∉ t.shape) (node : ChildKeysPrivate)
    (ids : Ledger.Map AccountId ChainIndex) : Grows t ⟨t.keyMap.insert c node, ids⟩ :=
  fun _ node' hnode' => ⟨node', lookup_insert_of_lookup hc hnode', rfl, fun _ hkind => hkind⟩

omit [Sha256] [Secp256k1] [Hmac] [ScalarArithmetic] in
theorem grows_store (hnode : t.keyMap.lookup c = some node)
    (ids : Ledger.Map AccountId ChainIndex) : Grows t
      ⟨t.keyMap.insert c { node with accounts := node.accounts.insert kind account }, ids⟩ := by
  intro c₁ node₁ hnode₁
  by_cases heq : c₁ = c
  · subst heq
    cases hnode.symm.trans hnode₁
    exact ⟨_, AList.lookup_insert _, rfl, fun kind' hkind' => (AList.mem_insert _).2 (.inr hkind')⟩
  · exact ⟨node₁, (AList.lookup_insert_ne heq).trans hnode₁, rfl, fun _ hkind' => hkind'⟩

/-- A new node with one account. -/
theorem PrivateSound.adjoin (hP : Set.InjOn (Function.uncurry AccountId.forPrivateAccount) P)
    (h : t.PrivateSound P) (hc : c ∉ t.shape)
    (haccounts : node.accounts = Ledger.insertAll ∅ [(.regular 0, Account.default)])
    (hdistinct : (t.insertNode c node).DistinctKeys P) : (t.insertNode c node).PrivateSound P := by
  have hids := accountIds_of_accounts haccounts
  have hnode : (t.insertNode c node).keyMap.lookup c = some node := AList.lookup_insert _
  have hpair : (node.keyChain.nullifierPublicKey, PrivateAccountKind.regular 0) ∈ P := by
    refine hdistinct.accounts c node hnode _ ?_
    rw [haccounts]
    exact AList.mem_insert _ |>.2 (.inl rfl)
  -- an entry for the new id would lead to another node with the same key
  have hnew : t.accountIdMap.lookup
      (AccountId.forPrivateAccount node.keyChain.nullifierPublicKey (.regular 0)) = none := by
    by_contra hsome
    obtain ⟨c', hentry⟩ := Option.ne_none_iff_exists'.1 hsome
    obtain ⟨node', kind', hnode', hpair', hid⟩ := h.entries _ c' hentry
    have heq := Prod.mk.inj (hP hpair' hpair hid)
    have hlookup : (t.insertNode c node).keyMap.lookup c' = some node' :=
      lookup_insert_of_lookup hc hnode'
    obtain rfl := hdistinct.keys c node c' node' hnode hlookup heq.1
    exact hc (mem_shape.2 ⟨node', hnode'⟩)
  constructor
  · refine h.complete.adjoin hc (hids ▸ List.cons_ne_nil _ _) fun accountId hid => ?_
    rw [hids, List.mem_singleton] at hid
    rw [hid]
    exact hnew
  · intro accountId c' hentry
    rcases Ledger.mem_or_lookup_of_insertAll hentry with hmem | hold
    · rw [hids] at hmem
      cases List.mem_singleton.1 hmem
      exact ⟨node, .regular 0, hnode, hpair, rfl⟩
    · obtain ⟨node', kind', hnode', hrest⟩ := h.entries accountId c' hold
      exact ⟨node', kind', lookup_insert_of_lookup hc hnode', hrest⟩

/-- A new entry for a node that is there. -/
theorem PrivateSound.register (h : t.PrivateSound P) (hnode : t.keyMap.lookup c = some node)
    (hpair : (node.keyChain.nullifierPublicKey, kind) ∈ P)
    (hnew : t.accountIdMap.lookup
      (AccountId.forPrivateAccount node.keyChain.nullifierPublicKey kind) = none) :
    PrivateSound P ⟨t.keyMap, t.accountIdMap.insert
      (AccountId.forPrivateAccount node.keyChain.nullifierPublicKey kind) c⟩ := by
  have hkept : ∀ {id c'}, t.accountIdMap.lookup id = some c' → (t.accountIdMap.insert
      (AccountId.forPrivateAccount node.keyChain.nullifierPublicKey kind) c).lookup id =
        some c' := by
    intro id c' hid
    refine (AList.lookup_insert_ne ?_).trans hid
    rintro rfl
    cases hid.symm.trans hnew
  have hentries : EntriesWithin P ⟨t.keyMap, t.accountIdMap.insert
      (AccountId.forPrivateAccount node.keyChain.nullifierPublicKey kind) c⟩ := by
    intro id c' hentry
    by_cases hid : id = AccountId.forPrivateAccount node.keyChain.nullifierPublicKey kind
    · subst hid
      cases (AList.lookup_insert _).symm.trans hentry
      exact ⟨node, kind, hnode, hpair, rfl⟩
    · exact h.entries id c' ((AList.lookup_insert_ne hid).symm.trans hentry)
  refine ⟨⟨fun id c' hentry => ?_, h.complete.nonempty, fun c' node' hnode' id hid => ?_⟩, hentries⟩
  · obtain ⟨node', _, hnode', _⟩ := hentries id c' hentry
    exact mem_shape.2 ⟨node', hnode'⟩
  · exact hkept (h.complete.node c' node' hnode' id hid)

/-- An account is stored in a node its id leads to. -/
theorem PrivateSound.store (h : t.PrivateSound P) (hnode : t.keyMap.lookup c = some node)
    (hentry : t.accountIdMap.lookup
      (AccountId.forPrivateAccount node.keyChain.nullifierPublicKey kind) = some c) :
    PrivateSound P ⟨t.keyMap.insert c { node with accounts := node.accounts.insert kind account },
      t.accountIdMap⟩ := by
  have hgrows : Grows t ⟨t.keyMap.insert c
      { node with accounts := node.accounts.insert kind account }, t.accountIdMap⟩ :=
    grows_store hnode _
  refine ⟨⟨fun id c₁ hid => ?_, fun c₁ node₁ hnode₁ => ?_, fun c₁ node₁ hnode₁ id hid => ?_⟩,
    fun id c₁ hid => ?_⟩
  · obtain ⟨node₁, hnode₁⟩ := mem_shape.1 (h.complete.entry id c₁ hid)
    obtain ⟨node₂, hnode₂, _⟩ := hgrows c₁ node₁ hnode₁
    exact mem_shape.2 ⟨node₂, hnode₂⟩
  · by_cases heq : c₁ = c
    · subst heq
      cases (AList.lookup_insert _).symm.trans hnode₁
      refine List.ne_nil_of_mem (mem_accountIds.2 ⟨kind, ?_, rfl⟩)
      exact (AList.mem_insert _).2 (.inl rfl)
    · exact h.complete.nonempty c₁ node₁ ((AList.lookup_insert_ne heq).symm.trans hnode₁)
  · by_cases heq : c₁ = c
    · subst heq
      cases (AList.lookup_insert _).symm.trans hnode₁
      obtain ⟨kind', hkind', rfl⟩ := mem_accountIds.1 hid
      rcases (AList.mem_insert _).1 hkind' with rfl | hold
      · exact hentry
      · exact h.complete.node c₁ node hnode _ (mem_accountIds.2 ⟨kind', hold, rfl⟩)
    · exact h.complete.node c₁ node₁ ((AList.lookup_insert_ne heq).symm.trans hnode₁) id hid
  · obtain ⟨node₁, kind₁, hnode₁, hpair, hid₁⟩ := h.entries id c₁ hid
    obtain ⟨node₂, hnode₂, hkey, _⟩ := hgrows c₁ node₁ hnode₁
    exact ⟨node₂, kind₁, hnode₂, hkey ▸ hpair, hkey ▸ hid₁⟩

end

end KeyTree

/-! ## What runs keep -/

/-- Every imported key has accounts, and they are regular. -/
def UserKeyChain.ImportsRegular (u : UserKeyChain) : Prop :=
  ∀ key accounts, u.importedPrivateAccounts.lookup key = some accounts →
    (∃ kind, kind ∈ accounts) ∧ ∀ kind ∈ accounts, ∃ identifier, kind = .regular identifier

theorem UserKeyChain.ImportsRegular.insert {u : UserKeyChain} (h : u.ImportsRegular)
    (key : ImportedPrivateAccountKey) {accounts : PrivateAccounts}
    (haccounts : ∀ kind ∈ accounts, ∃ identifier, kind = .regular identifier)
    {kind : PrivateAccountKind} (hkind : ∃ identifier, kind = .regular identifier)
    (account : Account) :
    ImportsRegular { u with importedPrivateAccounts :=
      u.importedPrivateAccounts.insert key (accounts.insert kind account) } := by
  intro key' accounts' hlookup
  by_cases hkey : key' = key
  · subst hkey
    cases (AList.lookup_insert _).symm.trans hlookup
    refine ⟨⟨kind, (AList.mem_insert _).2 (.inl rfl)⟩, fun kind' hkind' => ?_⟩
    rcases (AList.mem_insert _).1 hkind' with rfl | hold
    · exact hkind
    · exact haccounts kind' hold
  · exact h key' accounts' ((AList.lookup_insert_ne hkey).symm.trans hlookup)

section

variable [Sha256] [Secp256k1] [Hmac] [ScalarArithmetic]

/-- The private keys of a wallet. -/
structure PrivateInvariant (P : IdPairs) (u : UserKeyChain) : Prop where
  tree : TreeSound u.privateKeyTree
  imports : u.ImportsRegular
  sound : u.privateKeyTree.DistinctKeys P → u.privateKeyTree.PrivateSound P

namespace PrivateInvariant

variable {P : IdPairs} {u u' : UserKeyChain}

/-- A new node. -/
theorem adjoin (hP : Set.InjOn (Function.uncurry AccountId.forPrivateAccount) P)
    {t : KeyTreePrivate} (h : t.DistinctKeys P → t.PrivateSound P) {c : ChainIndex}
    {child : ChildKeysPrivate} (hchild : t.Adjoins c child) :
    (t.insertNode c child).DistinctKeys P → (t.insertNode c child).PrivateSound P := by
  intro hdistinct
  have hold := h (hdistinct.of_grows (KeyTree.grows_insert hchild.notMem child _))
  have hnew := hchild.notMem
  obtain ⟨_, hderive, _, _⟩ := hchild
  obtain ⟨_, _, hderive⟩ := bind_eq_ok.1 hderive
  exact hold.adjoin hP hnew (KeyTree.accounts_of_ofSecret hderive) hdistinct

/-- **Storing.** -/
theorem insert (hP : Set.InjOn (Function.uncurry AccountId.forPrivateAccount) P)
    (h : PrivateInvariant P u) {accountId : AccountId} {kind : PrivateAccountKind}
    {account : Account} (hknown : u.KnownAs P accountId kind)
    (hinsert : u.insertPrivateAccount accountId kind account = .ok u') :
    PrivateInvariant P u' := by
  have htree := h.tree.store hinsert
  cases UserKeyChain.insertPrivateAccount_eq_ok.1 hinsert with
  | shared _ => exact ⟨htree, h.imports, h.sound⟩
  | @imported key accounts importedKind _ hfound =>
      obtain ⟨hlookup, hkind, _⟩ := UserKeyChain.findImported_eq_some hfound
      have hregular := (h.imports key accounts hlookup).2
      exact ⟨htree, h.imports.insert key hregular (hregular _ hkind) account, h.sound⟩
  | @registered c node hshared _ hentry hnode =>
      refine ⟨htree, h.imports, fun hdistinct => ?_⟩
      have hsound := h.sound (hdistinct.of_grows (KeyTree.grows_store hnode _))
      obtain ⟨entry, hentry'⟩ | ⟨npk, hpair, rfl⟩ := hknown
      · cases hshared.symm.trans hentry'
      · -- the entry comes from the same pair as the id
        obtain ⟨node₁, kind₁, hnode₁, hpair₁, hid₁⟩ := hsound.entries _ c hentry
        cases hnode.symm.trans hnode₁
        cases hP hpair₁ hpair hid₁
        exact hsound.store hnode hentry
  | @derived c node _ _ hentry hfound =>
      refine ⟨htree, h.imports, fun hdistinct => ?_⟩
      have hnode := Ledger.mem_ascending.1 (List.mem_of_find?_eq_some hfound)
      have hid := List.find?_some hfound
      obtain rfl := of_decide_eq_true hid
      have hsound := h.sound (hdistinct.of_grows (KeyTree.grows_store hnode _))
      have hpair := hdistinct.accounts c _ (AList.lookup_insert _) kind
        ((AList.mem_insert _).2 (.inl rfl))
      exact (hsound.register hnode hpair hentry).store hnode (AList.lookup_insert _)

/-- **Run.**  A list of accounts is stored. -/
theorem storeAll (hP : Set.InjOn (Function.uncurry AccountId.forPrivateAccount) P)
    (h : PrivateInvariant P u) {l : List Received}
    (hl : ∀ r ∈ l, ∃ npk, (npk, r.kind) ∈ P ∧ AccountId.forPrivateAccount npk r.kind = r.accountId)
    (hstore : l.foldlM UserKeyChain.storeReceived u = .ok u') : PrivateInvariant P u' := by
  induction l generalizing u with
  | nil =>
      cases hstore
      exact h
  | cons r l ih =>
      rw [List.foldlM_cons] at hstore
      obtain ⟨u₁, hr, hrest⟩ := bind_eq_ok.1 hstore
      have hinsert := mapError_eq_ok.1 hr
      exact ih (h.insert hP (.inr (hl r List.mem_cons_self)) hinsert)
        (fun r' hr' => hl r' (List.mem_cons_of_mem _ hr')) hrest

theorem updateShared (h : PrivateInvariant P u) (l : List Received) :
    PrivateInvariant P (l.foldl (fun u r =>
      u.updateSharedPrivateAccountState r.accountId r.account) u) := by
  induction l generalizing u with
  | nil => exact h
  | cons r l ih =>
      refine ih ?_
      change PrivateInvariant P (u.updateSharedPrivateAccountState r.accountId r.account)
      unfold UserKeyChain.updateSharedPrivateAccountState
      split
      · exact ⟨h.tree, h.imports, h.sound⟩
      · exact h

/-- **Step.**  Private keys. -/
theorem step [ChaCha20] (hP : Set.InjOn (Function.uncurry AccountId.forPrivateAccount) P)
    (h : PrivateInvariant P u) {event : WalletEvent} (hstep : WalletStep u event u')
    (hwithin : (KeyEvent.wallet event).Within P u) : PrivateInvariant P u' := by
  have htree := h.tree.step hstep
  cases event with
  | generateTrees depth =>
      obtain ⟨t, hgrow, heq⟩ := bind_eq_ok.1 hstep
      cases heq
      refine ⟨htree, h.imports, ?_⟩
      exact KeyTree.growTree_induction (P := fun t => t.DistinctKeys P → t.PrivateSound P)
        (fun t c child ht hchild => adjoin hP ht hchild) h.sound hgrow
  | createKey parentCci =>
      obtain ⟨chainIndex, hstep⟩ := hstep
      obtain ⟨child, hchild, rfl⟩ := UserKeyChain.createPrivateAccountsKey_eq_ok h.tree.root hstep
      exact ⟨htree, h.imports, adjoin hP h.sound hchild⟩
  | registerIdentifier cci identifier =>
      obtain ⟨accountId, hstep⟩ := hstep
      obtain ⟨⟨id, t⟩, hregister, heq⟩ := Option.map_eq_some_iff.1 hstep
      cases heq
      obtain ⟨node, hnode, rfl, hnew, rfl⟩ := KeyTree.eq_of_register hregister
      refine ⟨htree, h.imports, fun hdistinct => ?_⟩
      exact (h.sound ⟨hdistinct.keys, hdistinct.accounts⟩).register hnode (hwithin node hnode) hnew
  | importAccount keyChain chainIndex identifier account =>
      cases hstep
      refine ⟨htree, h.imports.insert _ ?_ ⟨identifier, rfl⟩ account, h.sound⟩
      intro kind hkind
      cases hlookup : u.importedPrivateAccounts.lookup ⟨keyChain, chainIndex⟩ with
      | none =>
          rw [hlookup] at hkind
          cases hkind
      | some accounts =>
          rw [hlookup] at hkind
          exact (h.imports _ accounts hlookup).2 kind hkind
  | shareAccount accountId entry =>
      cases hstep
      exact ⟨htree, h.imports, h.sound⟩
  | addGroup label holder =>
      cases hstep
      exact ⟨htree, h.imports, h.sound⟩
  | removeGroup label =>
      cases hstep
      exact ⟨htree, h.imports, h.sound⟩
  | sync tx =>
      cases tx with
      | privacyPreserving tx =>
          obtain ⟨affected, haffected, hsync⟩ := bind_eq_ok.1 hstep
          obtain ⟨u₁, hstore, hshared⟩ := bind_eq_ok.1 hsync
          obtain ⟨updates, _, heq⟩ := bind_eq_ok.1 hshared
          cases heq
          refine updateShared (h.storeAll hP (fun r hr => ?_) hstore) updates
          obtain ⟨keys, hkeys, hopens, hid⟩ := (UserKeyChain.mem_affectedAccounts haffected).1 hr
          exact ⟨keys.npk, hwithin keys hkeys _ _ _ hopens, hid.symm⟩
      | publicTx tx =>
          cases hstep
          exact h
      | programDeployment tx =>
          cases hstep
          exact h

end PrivateInvariant

end

section

variable [Sha256] [Secp256k1] [Hmac] [ScalarArithmetic] [KeyDerivation] {P : IdPairs}
  {k k' : WalletKeys}

/-- The keys of a wallet. -/
structure WalletInvariant (P : IdPairs) (k : WalletKeys) : Prop where
  publicTree : k.publicKeyTree.PublicSound
  privateKeys : PrivateInvariant P k.toUserKeyChain

/-- A new public key is a new node. -/
theorem WalletKeys.generateNewPublicTransactionPrivateKey_eq_ok {parentCci : Option ChainIndex}
    {created : AccountId × ChainIndex} (hroot : ChainIndex.root ∈ k.publicKeyTree.shape)
    (h : k.generateNewPublicTransactionPrivateKey parentCci = .ok (created, k')) :
    ∃ child, k.publicKeyTree.Adjoins created.2 child ∧
      k' = { k with publicKeyTree := k.publicKeyTree.insertNode created.2 child } := by
  cases parentCci with
  | some p =>
      simp only [generateNewPublicTransactionPrivateKey, KeyTree.generateNewPublicNode, bind_eq_ok,
        expect_eq_ok, pure, Except.pure, Except.ok.injEq, Prod.mk.injEq] at h
      obtain ⟨_, ⟨_, hgenerated, rfl⟩, ⟨id, c, t⟩, hid, rfl, rfl⟩ := h
      rw [KeyTree.eq_some_of_withAccountId hid] at hgenerated
      obtain ⟨child, hchild, rfl⟩ := KeyTree.generateNewNode_eq_some hgenerated
      exact ⟨child, hchild, rfl⟩
  | none =>
      simp only [generateNewPublicTransactionPrivateKey, KeyTree.generateNewPublicNodeLayered,
        bind_eq_ok, expect_eq_ok, pure, Except.pure, Except.ok.injEq, Prod.mk.injEq] at h
      obtain ⟨_, ⟨_, hgenerated, rfl⟩, ⟨id, c, t⟩, hid, rfl, rfl⟩ := h
      rw [KeyTree.eq_some_of_withAccountId hid] at hgenerated
      obtain ⟨child, hchild, rfl⟩ := KeyTree.generateNewNodeLayered_eq_some hroot hgenerated
      exact ⟨child, hchild, rfl⟩

/-- **Step.** -/
theorem WalletInvariant.step [ChaCha20]
    (hP : Set.InjOn (Function.uncurry AccountId.forPrivateAccount) P) (h : WalletInvariant P k)
    {event : KeyEvent} (hstep : KeyStepWithin P k event k') : WalletInvariant P k' := by
  obtain ⟨hstep, hwithin⟩ := hstep
  cases event with
  | generateTrees depth =>
      obtain ⟨t, hgrow, hstep⟩ := bind_eq_ok.1 hstep
      obtain ⟨u, hu, heq⟩ := bind_eq_ok.1 hstep
      cases heq
      have hprivate : WalletStep k.toUserKeyChain (.generateTrees depth) u := hu
      exact ⟨KeyTree.growTree_induction (fun t c child ht hc => ht.adjoin hc.notMem child)
        h.publicTree hgrow, h.privateKeys.step hP hprivate trivial⟩
  | createPublicKey parentCci =>
      obtain ⟨created, hstep⟩ := hstep
      obtain ⟨child, hchild, rfl⟩ :=
        WalletKeys.generateNewPublicTransactionPrivateKey_eq_ok h.publicTree.root hstep
      exact ⟨h.publicTree.adjoin hchild.notMem child, h.privateKeys⟩
  | importPublicAccount privateKey =>
      cases hstep
      exact ⟨h.publicTree, h.privateKeys⟩
  | setSealingKey key =>
      cases hstep
      exact ⟨h.publicTree, h.privateKeys⟩
  | wallet event =>
      obtain ⟨u, hu, rfl⟩ := hstep
      exact ⟨h.publicTree, h.privateKeys.step hP hu hwithin⟩
  | update accountId kind account =>
      obtain ⟨u, hu, heq⟩ := bind_eq_ok.1 hstep
      cases heq
      exact ⟨h.publicTree, h.privateKeys.insert hP hwithin hu⟩

/-- Trees that are derived from seeds. -/
theorem walletInvariant_new {seed seed' : Bytes} {publicKeyTree : KeyTreePublic}
    {privateKeyTree : KeyTreePrivate}
    (hP : Set.InjOn (Function.uncurry AccountId.forPrivateAccount) P)
    (hpublic : KeyTree.new seed = .ok publicKeyTree)
    (hprivate : KeyTree.new seed' = .ok privateKeyTree) :
    WalletInvariant P (.newWithAccounts publicKeyTree privateKeyTree) := by
  obtain ⟨_, _, hpublic⟩ := bind_eq_ok.1 hpublic
  obtain ⟨publicRoot, _, heq⟩ := bind_eq_ok.1 hpublic
  cases heq
  obtain ⟨_, _, hprivate⟩ := bind_eq_ok.1 hprivate
  obtain ⟨root, hroot, heq⟩ := bind_eq_ok.1 hprivate
  cases heq
  have hempty : KeyTree.PrivateSound P ⟨∅, ∅⟩ := by
    refine ⟨⟨?_, ?_, ?_⟩, ?_⟩
    · intro accountId c hentry
      cases hentry
    · intro c node hnode
      cases hnode
    · intro c node hnode
      cases hnode
    · intro accountId c hentry
      cases hentry
  refine ⟨KeyTree.publicSound_newFromRoot publicRoot, treeSound_newFromRoot root, ?_, ?_⟩
  · intro key accounts hlookup
    cases hlookup
  · exact hempty.adjoin hP (AList.notMem_empty _) (KeyTree.accounts_of_ofSecret hroot)

/-- **Run.** -/
theorem walletInvariant_of_run [ChaCha20] {seed seed' : Bytes} {publicKeyTree : KeyTreePublic}
    {privateKeyTree : KeyTreePrivate}
    (hP : Set.InjOn (Function.uncurry AccountId.forPrivateAccount) P)
    (hpublic : KeyTree.new seed = .ok publicKeyTree)
    (hprivate : KeyTree.new seed' = .ok privateKeyTree) {events : List KeyEvent}
    (hrun : Run (KeyStepWithin P) (.newWithAccounts publicKeyTree privateKeyTree) events k) :
    WalletInvariant P k :=
  hrun.invariant (walletInvariant_new hP hpublic hprivate) fun _ _ _ h hstep => h.step hP hstep

end

end ExecutionZone
