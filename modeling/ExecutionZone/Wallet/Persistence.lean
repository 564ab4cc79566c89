import ExecutionZone.Wallet.CompleteTrees

/-!
# Storing the keys of a wallet

`to_persistent` lists the entries of the indices of the two trees, each with its node, and the
imported keys.  `from_persistent` starts with the roots it finds in such a list and inserts one
element after the other.

Two key chains are the same if their maps have the same entries (`WalletKeys.Same`).  Lookups and
iterations in the order of the keys see nothing else.  A key chain is the same after it is stored
and read again if its trees are complete.
-/

namespace ExecutionZone

/-! ## Stored data -/

structure PersistentAccountDataPublic where
  accountId : AccountId
  chainIndex : ChainIndex
  data : ChildKeysPublic
deriving DecidableEq

/-- A private node with its accounts as a list. -/
structure ChildKeysPrivatePersistent where
  keyChain : KeyChain
  accounts : List (PrivateAccountKind × Account)
  ccc : Bytes32
  cci : Option UInt32
deriving DecidableEq

structure PersistentAccountDataPrivate where
  accountId : AccountId
  chainIndex : ChainIndex
  data : ChildKeysPrivatePersistent
deriving DecidableEq

structure PublicAccountPrivateInitialData where
  accountId : AccountId
  pubSignKey : PrivateKey
deriving DecidableEq

structure PrivateAccountPrivateInitialData where
  account : Account
  keyChain : KeyChain
  chainIndex : Option ChainIndex
  identifier : Identifier
deriving DecidableEq

inductive PersistentAccountData where
  | publicAccount (data : PersistentAccountDataPublic)
  | privateAccount (data : PersistentAccountDataPrivate)
  | importedPublic (data : PublicAccountPrivateInitialData)
  | importedPrivate (data : PrivateAccountPrivateInitialData)
deriving DecidableEq

structure KeyChainPersistentData where
  accounts : List PersistentAccountData
  sealingSecretKey : Option Scalar
  groupKeyHolders : Ledger.Map Label GroupKeyHolder
  sharedPrivateAccounts : Ledger.Map AccountId SharedAccountEntry

/-- `identifier`. -/
def PrivateAccountKind.identifier : PrivateAccountKind → Identifier
  | .regular identifier => identifier
  | .pda _ _ identifier => identifier

/-- `ChildKeysPrivatePersistent::from`. -/
def ChildKeysPrivate.toPersistent (node : ChildKeysPrivate) : ChildKeysPrivatePersistent :=
  ⟨node.keyChain, Ledger.ascending node.accounts, node.ccc, node.cci⟩

/-- `ChildKeysPrivate::from`. -/
def ChildKeysPrivatePersistent.toChildKeys (data : ChildKeysPrivatePersistent) :
    ChildKeysPrivate :=
  ⟨data.keyChain, Ledger.insertAll ∅ data.accounts, data.ccc, data.cci⟩

namespace KeyTree

variable {N : Type}

/-- The entries of the index whose nodes are there. -/
def entries (t : KeyTree N) : List (AccountId × ChainIndex × N) :=
  (Ledger.ascending t.accountIdMap).filterMap fun (accountId, chainIndex) =>
    (t.keyMap.lookup chainIndex).map fun node => (accountId, chainIndex, node)

/-- `insert`. -/
def insert (t : KeyTree N) (accountId : AccountId) (chainIndex : ChainIndex) (node : N) :
    KeyTree N :=
  ⟨t.keyMap.insert chainIndex node, t.accountIdMap.insert accountId chainIndex⟩

end KeyTree

namespace PersistentAccountData

/-- The node of a stored public root. -/
def publicRoot : PersistentAccountData → Option ChildKeysPublic
  | .publicAccount data => if data.chainIndex = ChainIndex.root then some data.data else none
  | _ => none

/-- The node of a stored private root. -/
def privateRoot : PersistentAccountData → Option ChildKeysPrivate
  | .privateAccount data =>
      if data.chainIndex = ChainIndex.root then some data.data.toChildKeys else none
  | _ => none

def ofPublicEntry (e : AccountId × ChainIndex × ChildKeysPublic) : PersistentAccountData :=
  .publicAccount ⟨e.1, e.2.1, e.2.2⟩

def ofPrivateEntry (e : AccountId × ChainIndex × ChildKeysPrivate) : PersistentAccountData :=
  .privateAccount ⟨e.1, e.2.1, e.2.2.toPersistent⟩

def ofImportedPublic (e : AccountId × PrivateKey) : PersistentAccountData :=
  .importedPublic ⟨e.1, e.2⟩

def ofImportedPrivate (key : ImportedPrivateAccountKey) (e : PrivateAccountKind × Account) :
    PersistentAccountData :=
  .importedPrivate ⟨e.2, key.keyChain, key.chainIndex, e.1.identifier⟩

end PersistentAccountData

namespace WalletKeys

open PersistentAccountData

/-- `to_persistent`. -/
def toPersistent (k : WalletKeys) : KeyChainPersistentData where
  accounts :=
    k.publicKeyTree.entries.map ofPublicEntry ++
    k.privateKeyTree.entries.map ofPrivateEntry ++
    (Ledger.ascending k.importedPublicAccounts).map ofImportedPublic ++
    (Ledger.ascending k.importedPrivateAccounts).flatMap fun (key, accounts) =>
      (Ledger.ascending accounts).map (ofImportedPrivate key)
  sealingSecretKey := k.sealingSecretKey
  groupKeyHolders := k.groupKeyHolders
  sharedPrivateAccounts := k.sharedPrivateAccounts

/-- A turn of the loop of `from_persistent`. -/
def insertPersistent (k : WalletKeys) : PersistentAccountData → WalletKeys
  | .publicAccount data =>
      { k with publicKeyTree :=
          k.publicKeyTree.insert data.accountId data.chainIndex data.data }
  | .privateAccount data =>
      { k with privateKeyTree :=
          k.privateKeyTree.insert data.accountId data.chainIndex data.data.toChildKeys }
  | .importedPublic data =>
      { k with importedPublicAccounts :=
          k.importedPublicAccounts.insert data.accountId data.pubSignKey }
  | .importedPrivate data =>
      let toUserKeyChain := k.toUserKeyChain.addImportedPrivateAccount data.keyChain
        data.chainIndex data.identifier data.account
      { k with toUserKeyChain }

section

variable [Sha256] [Secp256k1] [Hmac] [ScalarArithmetic] [KeyDerivation]

/-- `from_persistent`. -/
def fromPersistent (data : KeyChainPersistentData) : Except String WalletKeys := do
  let publicRoot ← expect (data.accounts.findSome? publicRoot)
    "Malformed persistent account data, must have public root"
  let privateRoot ← expect (data.accounts.findSome? privateRoot)
    "Malformed persistent account data, must have private root"
  let k := data.accounts.foldl insertPersistent
    (newWithAccounts (.newFromRoot publicRoot) (.newFromRoot privateRoot))
  return { k with
    sharedPrivateAccounts := data.sharedPrivateAccounts
    groupKeyHolders := data.groupKeyHolders
    sealingSecretKey := data.sealingSecretKey }

end

end WalletKeys

/-! ## Trees that are read again -/

namespace KeyTree

variable {N : Type} {t : KeyTree N}

theorem mem_entries {accountId : AccountId} {c : ChainIndex} {node : N} :
    (accountId, c, node) ∈ t.entries ↔
      t.accountIdMap.lookup accountId = some c ∧ t.keyMap.lookup c = some node := by
  simp only [entries, List.mem_filterMap, Prod.exists, Ledger.mem_ascending,
    Option.map_eq_some_iff, Prod.mk.injEq]
  constructor
  · rintro ⟨_, _, hentry, _, hnode, rfl, rfl, rfl⟩
    exact ⟨hentry, hnode⟩
  · rintro ⟨hentry, hnode⟩
    exact ⟨accountId, c, hentry, node, hnode, rfl, rfl, rfl⟩

/-- Insert entries one after the other. -/
def insertEntries (t : KeyTree N) (entries : List (AccountId × ChainIndex × N)) : KeyTree N :=
  entries.foldl (fun t e => t.insert e.1 e.2.1 e.2.2) t

theorem insertEntries_eq (t : KeyTree N) (entries : List (AccountId × ChainIndex × N)) :
    t.insertEntries entries = ⟨Ledger.insertAll t.keyMap (entries.map Prod.snd),
      Ledger.insertAll t.accountIdMap (entries.map fun e => (e.1, e.2.1))⟩ := by
  induction entries generalizing t with
  | nil => rfl
  | cons e entries ih => exact ih _

variable [KeyTreeNode N]

/-- **Reading a tree.**  A complete tree is rebuilt from its root and its entries, up to what
becomes of single nodes. -/
theorem Complete.insertEntries (h : t.Complete) {root : N}
    (hroot : t.keyMap.lookup ChainIndex.root = some root) (restore : N → N)
    (hrestore : ∀ node, KeyTreeNode.accountIds (restore node) = KeyTreeNode.accountIds node) :
    let t' := (newFromRoot (restore root)).insertEntries
      (t.entries.map fun e => (e.1, e.2.1, restore e.2.2))
    (∀ c, t'.keyMap.lookup c = (t.keyMap.lookup c).map restore) ∧
      Ledger.SameEntries t.accountIdMap t'.accountIdMap := by
  intro t'
  have ht' : t' = _ := insertEntries_eq _ _
  rw [ht', List.map_map, List.map_map]
  constructor
  · refine Ledger.lookup_insertAll_eq (fun p hp => ?_) fun c hc => ?_
    · obtain ⟨⟨id, c, node⟩, hentry, rfl⟩ := List.mem_map.1 hp
      exact Option.map_eq_some_iff.2 ⟨node, (mem_entries.1 hentry).2, rfl⟩
    · -- a node leads to an entry for its path
      have hnone : t.keyMap.lookup c = none := by
        by_contra hsome
        obtain ⟨node, hnode⟩ := Option.ne_none_iff_exists'.1 hsome
        obtain ⟨id, hid⟩ := List.exists_mem_of_ne_nil _ (h.nonempty c node hnode)
        have hentry := mem_entries.2 ⟨h.node c node hnode id hid, hnode⟩
        exact hc (List.mem_map.2 ⟨_, List.mem_map.2 ⟨_, hentry, rfl⟩, rfl⟩)
      rw [hnone]
      refine (AList.lookup_insert_ne ?_).trans (AList.lookup_empty _)
      rintro rfl
      cases hnone.symm.trans hroot
  · refine Ledger.lookup_insertAll_eq (fun p hp => ?_) fun id hid => ?_
    · obtain ⟨⟨id, c, node⟩, hentry, rfl⟩ := List.mem_map.1 hp
      exact (mem_entries.1 hentry).1
    · have hnone : t.accountIdMap.lookup id = none := by
        by_contra hsome
        obtain ⟨c, hc⟩ := Option.ne_none_iff_exists'.1 hsome
        obtain ⟨node, hnode⟩ := mem_shape.1 (h.entry id c hc)
        have hentry := mem_entries.2 ⟨hc, hnode⟩
        exact hid (List.mem_map.2 ⟨_, List.mem_map.2 ⟨_, hentry, rfl⟩, rfl⟩)
      rw [hnone]
      refine (Ledger.lookup_insertAll_of_notMem ?_).trans (AList.lookup_empty _)
      intro hmem
      obtain ⟨_, hpair, rfl⟩ := List.mem_map.1 hmem
      obtain ⟨id, hrootId, rfl⟩ := List.mem_map.1 hpair
      rw [hrestore] at hrootId
      cases hnone.symm.trans (h.node _ root hroot id hrootId)

/-- The root is found among the entries. -/
theorem Complete.findSome?_root (h : t.Complete) {root : N}
    (hroot : t.keyMap.lookup ChainIndex.root = some root) {M : Type} (restore : N → M)
    {g : AccountId × ChainIndex × N → Option M}
    (hg : ∀ e, g e = if e.2.1 = ChainIndex.root then some (restore e.2.2) else none) :
    t.entries.findSome? g = some (restore root) := by
  obtain ⟨id, hid⟩ := List.exists_mem_of_ne_nil _ (h.nonempty _ root hroot)
  have hentry := mem_entries.2 ⟨h.node _ root hroot id hid, hroot⟩
  cases hfind : t.entries.findSome? g with
  | none =>
      have hnone := List.findSome?_eq_none_iff.1 hfind _ hentry
      rw [hg, if_pos rfl] at hnone
      cases hnone
  | some found =>
      obtain ⟨⟨id', c, node⟩, hmem, hfound⟩ := List.exists_of_findSome?_eq_some hfind
      rw [hg] at hfound
      split at hfound
      case isTrue hc =>
        obtain rfl : c = ChainIndex.root := hc
        cases hroot.symm.trans (mem_entries.1 hmem).2
        exact hfound.symm
      case isFalse => cases hfound

end KeyTree

/-! ## Key chains with the same entries -/

theorem SameResult.expect {E α : Type} {R : α → α → Prop} {x y : Option α} (h : Option.Rel R x y)
    (e : E) : SameResult R (expect x e) (expect y e) := by
  cases h with
  | some h => exact .ok h
  | none => exact .error e

/-- The same keys, and the same accounts. -/
structure ChildKeysPrivate.Same (node node' : ChildKeysPrivate) : Prop where
  keyChain : node'.keyChain = node.keyChain
  accounts : Ledger.SameEntries node.accounts node'.accounts
  ccc : node'.ccc = node.ccc
  cci : node'.cci = node.cci

theorem ChildKeysPrivate.same_restored (node : ChildKeysPrivate) :
    node.Same node.toPersistent.toChildKeys :=
  ⟨rfl, Ledger.sameEntries_insertAll_ascending _, rfl, rfl⟩

theorem ChildKeysPrivate.Same.accountIds [Sha256] {node node' : ChildKeysPrivate}
    (h : node.Same node') : node'.accountIds = node.accountIds := by
  rw [ChildKeysPrivate.accountIds, ChildKeysPrivate.accountIds, h.keyChain,
    Ledger.sortedKeys_congr fun kind => h.accounts.mem_iff]

structure UserKeyChain.Same (u u' : UserKeyChain) : Prop where
  imported : Ledger.Matching Ledger.SameEntries u.importedPrivateAccounts
    u'.importedPrivateAccounts
  nodes : Ledger.Matching ChildKeysPrivate.Same u.privateKeyTree.keyMap u'.privateKeyTree.keyMap
  ids : Ledger.SameEntries u.privateKeyTree.accountIdMap u'.privateKeyTree.accountIdMap
  shared : Ledger.SameEntries u.sharedPrivateAccounts u'.sharedPrivateAccounts
  groups : Ledger.SameEntries u.groupKeyHolders u'.groupKeyHolders

structure WalletKeys.Same (k k' : WalletKeys) : Prop where
  privateKeys : k.toUserKeyChain.Same k'.toUserKeyChain
  imported : Ledger.SameEntries k.importedPublicAccounts k'.importedPublicAccounts
  nodes : Ledger.SameEntries k.publicKeyTree.keyMap k'.publicKeyTree.keyMap
  ids : Ledger.SameEntries k.publicKeyTree.accountIdMap k'.publicKeyTree.accountIdMap
  sealingKey : k'.sealingSecretKey = k.sealingSecretKey

namespace UserKeyChain.Same

variable [Sha256] {u u' : UserKeyChain} (h : u.Same u')

include h

theorem privateAccount_eq (accountId : AccountId) :
    u'.privateAccount accountId = u.privateAccount accountId := by
  have himported := flatMap_eq_of_forall₂ h.imported.ascending
    (f := fun p => (Ledger.ascending p.2).map fun e =>
      (⟨e.2, p.1.keyChain, e.1, p.1.chainIndex⟩ : FoundPrivateAccount))
    (g := fun p => (Ledger.ascending p.2).map fun e =>
      (⟨e.2, p.1.keyChain, e.1, p.1.chainIndex⟩ : FoundPrivateAccount))
    fun p q hpq => by rw [hpq.1, Ledger.ascending_congr hpq.2]
  have hnodes := flatMap_eq_of_forall₂ h.nodes.ascending
    (f := fun p => (Ledger.ascending p.2.accounts).map fun e =>
      (⟨e.2, p.2.keyChain, e.1, some p.1⟩ : FoundPrivateAccount))
    (g := fun p => (Ledger.ascending p.2.accounts).map fun e =>
      (⟨e.2, p.2.keyChain, e.1, some p.1⟩ : FoundPrivateAccount))
    fun p q hpq => by rw [hpq.1, hpq.2.keyChain, Ledger.ascending_congr hpq.2.accounts]
  unfold privateAccount foundPrivateAccounts
  rw [himported, hnodes]

omit [Sha256] in
theorem privateAccountKeyChainByIndex_eq (chainIndex : ChainIndex) :
    u'.privateAccountKeyChainByIndex chainIndex = u.privateAccountKeyChainByIndex chainIndex := by
  have hnode := h.nodes chainIndex
  unfold privateAccountKeyChainByIndex
  generalize u.privateKeyTree.keyMap.lookup chainIndex = x at hnode
  generalize u'.privateKeyTree.keyMap.lookup chainIndex = y at hnode
  cases hnode with
  | some hsame => exact congrArg some hsame.keyChain
  | none => rfl

theorem privateAccountIds_eq : u'.privateAccountIds = u.privateAccountIds := by
  have himported := flatMap_eq_of_forall₂ h.imported.ascending
    (f := fun p => (Ledger.sortedKeys p.2).map fun kind =>
      (AccountId.forPrivateAccount p.1.keyChain.nullifierPublicKey kind, p.1.chainIndex))
    (g := fun p => (Ledger.sortedKeys p.2).map fun kind =>
      (AccountId.forPrivateAccount p.1.keyChain.nullifierPublicKey kind, p.1.chainIndex))
    fun p q hpq => by rw [hpq.1, Ledger.sortedKeys_congr fun kind => hpq.2.mem_iff]
  have hnodes := flatMap_eq_of_forall₂ h.nodes.ascending
    (f := fun p => p.2.accountIds.map fun accountId => (accountId, some p.1))
    (g := fun p => p.2.accountIds.map fun accountId => (accountId, some p.1))
    fun p q hpq => by rw [hpq.1, hpq.2.accountIds]
  unfold privateAccountIds
  rw [himported, hnodes, Ledger.sortedKeys_congr fun accountId => h.shared.mem_iff]

omit [Sha256] in
theorem updateSharedPrivateAccountState (accountId : AccountId) (account : Account) :
    (u.updateSharedPrivateAccountState accountId account).Same
      (u'.updateSharedPrivateAccountState accountId account) := by
  unfold UserKeyChain.updateSharedPrivateAccountState
  rw [h.shared accountId]
  split
  · exact ⟨h.imported, h.nodes, h.ids, h.shared.insert _ _, h.groups⟩
  · exact h

/-- The same account is found among the imported ones. -/
theorem findImported (accountId : AccountId) :
    Option.Rel (fun x y => x.1 = y.1 ∧ Ledger.SameEntries x.2.1 y.2.1 ∧ x.2.2 = y.2.2)
      (u.findImported accountId) (u'.findImported accountId) := by
  refine rel_findSome?_of_forall₂ h.imported.ascending ?_
  rintro ⟨key, accounts⟩ ⟨_, accounts'⟩ ⟨rfl, haccounts⟩
  dsimp only
  rw [Ledger.sortedKeys_congr fun kind => haccounts.mem_iff]
  generalize (Ledger.sortedKeys accounts).find? _ = found
  cases found with
  | none => exact .none
  | some kind => exact .some ⟨rfl, haccounts, rfl⟩

omit [Sha256] in
theorem insertInNode (c : ChainIndex) {node node' : ChildKeysPrivate} (hnode : node.Same node')
    (kind : PrivateAccountKind) (account : Account) :
    (u.insertInNode c node kind account).Same (u'.insertInNode c node' kind account) := by
  have hstored : ChildKeysPrivate.Same { node with accounts := node.accounts.insert kind account }
      { node' with accounts := node'.accounts.insert kind account } :=
    ⟨hnode.keyChain, hnode.accounts.insert _ _, hnode.ccc, hnode.cci⟩
  exact ⟨h.imported, h.nodes.insert c hstored, h.ids, h.shared, h.groups⟩

theorem insertPrivateAccount (accountId : AccountId) (kind : PrivateAccountKind)
    (account : Account) :
    SameResult UserKeyChain.Same (u.insertPrivateAccount accountId kind account)
      (u'.insertPrivateAccount accountId kind account) := by
  have himported := h.findImported accountId
  unfold UserKeyChain.insertPrivateAccount
  rw [h.shared accountId]
  split
  · exact .ok (h.updateSharedPrivateAccountState accountId account)
  · generalize u.findImported accountId = x at himported
    generalize u'.findImported accountId = y at himported
    cases himported with
    | @some found found' hfound =>
        obtain ⟨key, accounts, importedKind⟩ := found
        obtain ⟨_, accounts', _⟩ := found'
        obtain ⟨rfl, haccounts, rfl⟩ := hfound
        exact .ok ⟨h.imported.insert key (haccounts.insert _ _), h.nodes, h.ids, h.shared, h.groups⟩
    | none =>
        dsimp only
        rw [h.ids accountId]
        split
        · rename_i c _
          refine (SameResult.expect (h.nodes c) _).bind fun node node' hnode => ?_
          exact .ok (h.insertInNode c hnode kind account)
        · refine (SameResult.expect (rel_find?_of_forall₂ h.nodes.ascending ?_) _).bind ?_
          · rintro ⟨c, node⟩ ⟨c', node'⟩ ⟨_, hnode⟩
            dsimp only
            rw [hnode.keyChain]
          · rintro ⟨c, node⟩ ⟨_, node'⟩ ⟨rfl, hnode⟩
            have hstored := h.insertInNode c hnode kind account
            exact .ok ⟨hstored.imported, hstored.nodes, hstored.ids.insert _ _, hstored.shared,
              hstored.groups⟩

end UserKeyChain.Same

namespace WalletKeys.Same

variable {k k' : WalletKeys} (h : k.Same k')

include h

theorem pubAccountSigningKey_eq (accountId : AccountId) :
    k'.pubAccountSigningKey accountId = k.pubAccountSigningKey accountId := by
  unfold pubAccountSigningKey KeyTree.getNode
  rw [h.imported accountId, h.ids accountId]
  simp only [h.nodes _]

theorem publicAccountIds_eq : k'.publicAccountIds = k.publicAccountIds := by
  unfold publicAccountIds
  rw [Ledger.sortedKeys_congr fun accountId => h.imported.mem_iff, Ledger.ascending_congr h.ids]

variable [Sha256]

theorem accountIds_eq : k'.accountIds = k.accountIds := by
  unfold accountIds
  rw [h.publicAccountIds_eq, h.privateKeys.privateAccountIds_eq]

theorem insertPrivateAccount (accountId : AccountId) (kind : PrivateAccountKind)
    (account : Account) :
    SameResult WalletKeys.Same (k.insertPrivateAccount accountId kind account)
      (k'.insertPrivateAccount accountId kind account) := by
  refine (h.privateKeys.insertPrivateAccount accountId kind account).bind fun u u' hu => ?_
  exact .ok ⟨hu, h.imported, h.nodes, h.ids, h.sealingKey⟩

end WalletKeys.Same

/-! ## Reading what was stored -/

namespace WalletKeys

open PersistentAccountData

theorem foldl_publicEntries (k : WalletKeys) (l : List (AccountId × ChainIndex × ChildKeysPublic)) :
    (l.map ofPublicEntry).foldl insertPersistent k =
      { k with publicKeyTree := k.publicKeyTree.insertEntries l } := by
  induction l generalizing k with
  | nil => rfl
  | cons e l ih => exact ih _

theorem foldl_privateEntries (k : WalletKeys)
    (l : List (AccountId × ChainIndex × ChildKeysPrivate)) :
    (l.map ofPrivateEntry).foldl insertPersistent k =
      { k with
        privateKeyTree := k.privateKeyTree.insertEntries
          (l.map fun e => (e.1, e.2.1, e.2.2.toPersistent.toChildKeys)) } := by
  induction l generalizing k with
  | nil => rfl
  | cons e l ih => exact ih _

theorem foldl_importedPublic (k : WalletKeys) (l : List (AccountId × PrivateKey)) :
    (l.map ofImportedPublic).foldl insertPersistent k =
      { k with importedPublicAccounts := Ledger.insertAll k.importedPublicAccounts l } := by
  induction l generalizing k with
  | nil => rfl
  | cons e l ih => exact ih _

/-- Import the stored accounts of a key. -/
def importAccounts (m : Ledger.Map ImportedPrivateAccountKey PrivateAccounts)
    (key : ImportedPrivateAccountKey) (l : List (PrivateAccountKind × Account)) :
    Ledger.Map ImportedPrivateAccountKey PrivateAccounts :=
  l.foldl (fun m e =>
    m.insert key (((m.lookup key).getD ∅).insert (.regular e.1.identifier) e.2)) m

theorem foldl_importAccounts (k : WalletKeys) (key : ImportedPrivateAccountKey)
    (l : List (PrivateAccountKind × Account)) :
    (l.map (ofImportedPrivate key)).foldl insertPersistent k =
      { k with importedPrivateAccounts := importAccounts k.importedPrivateAccounts key l } := by
  induction l generalizing k with
  | nil => rfl
  | cons e l ih => exact ih _

theorem foldl_importedPrivate (k : WalletKeys)
    (l : List (ImportedPrivateAccountKey × PrivateAccounts)) :
    (l.flatMap fun (key, accounts) =>
        (Ledger.ascending accounts).map (ofImportedPrivate key)).foldl insertPersistent k =
      { k with
        importedPrivateAccounts := l.foldl
          (fun m p => importAccounts m p.1 (Ledger.ascending p.2)) k.importedPrivateAccounts } := by
  induction l generalizing k with
  | nil => rfl
  | cons p l ih =>
      rw [List.flatMap_cons, List.foldl_append, foldl_importAccounts]
      exact ih _

/-- The loop of `from_persistent`, each kind of element for itself. -/
theorem foldl_toPersistent (k k₀ : WalletKeys) :
    k.toPersistent.accounts.foldl insertPersistent k₀ =
      { k₀ with
        publicKeyTree := k₀.publicKeyTree.insertEntries k.publicKeyTree.entries
        privateKeyTree := k₀.privateKeyTree.insertEntries
          (k.privateKeyTree.entries.map fun e => (e.1, e.2.1, e.2.2.toPersistent.toChildKeys))
        importedPublicAccounts := Ledger.insertAll k₀.importedPublicAccounts
          (Ledger.ascending k.importedPublicAccounts)
        importedPrivateAccounts := (Ledger.ascending k.importedPrivateAccounts).foldl
          (fun m p => importAccounts m p.1 (Ledger.ascending p.2)) k₀.importedPrivateAccounts } := by
  rw [toPersistent, List.foldl_append, List.foldl_append, List.foldl_append, foldl_publicEntries,
    foldl_privateEntries, foldl_importedPublic, foldl_importedPrivate]

section

variable {m : Ledger.Map ImportedPrivateAccountKey PrivateAccounts}
  {key key' : ImportedPrivateAccountKey} {l : List (PrivateAccountKind × Account)}

theorem lookup_importAccounts_of_ne (hkey : key' ≠ key) :
    (importAccounts m key l).lookup key' = m.lookup key' := by
  induction l generalizing m with
  | nil => rfl
  | cons e l ih => exact ih.trans (AList.lookup_insert_ne hkey)

/-- The kinds of imported accounts are restored from their identifiers. -/
theorem lookup_importAccounts_self (hregular : ∀ e ∈ l, ∃ identifier, e.1 = .regular identifier)
    (hl : l ≠ []) :
    (importAccounts m key l).lookup key =
      some (Ledger.insertAll ((m.lookup key).getD ∅) l) := by
  induction l generalizing m with
  | nil => exact absurd rfl hl
  | cons e l ih =>
      obtain ⟨identifier, hkind⟩ := hregular e List.mem_cons_self
      obtain ⟨kind, account⟩ := e
      obtain rfl : kind = .regular identifier := hkind
      have hfirst : (m.insert key (((m.lookup key).getD ∅).insert (.regular identifier)
          account)).lookup key =
            some (((m.lookup key).getD ∅).insert (.regular identifier) account) :=
        AList.lookup_insert _
      cases l with
      | nil => exact hfirst
      | cons e' l =>
          have hrest := ih (m := m.insert key (((m.lookup key).getD ∅).insert (.regular identifier)
            account)) (fun e he => hregular e (List.mem_cons_of_mem _ he)) (List.cons_ne_nil _ _)
          rw [hfirst] at hrest
          exact hrest

end

/-- **Importing again.**  One key after the other. -/
theorem lookup_foldl_importAccounts {l : List (ImportedPrivateAccountKey × PrivateAccounts)}
    (hnodup : (l.map Prod.fst).Nodup)
    (hl : ∀ p ∈ l, (∃ kind, kind ∈ p.2) ∧ ∀ kind ∈ p.2, ∃ identifier, kind = .regular identifier)
    {m : Ledger.Map ImportedPrivateAccountKey PrivateAccounts}
    (hm : ∀ p ∈ l, m.lookup p.1 = none) :
    let m' := l.foldl (fun m p => importAccounts m p.1 (Ledger.ascending p.2)) m
    (∀ p ∈ l, m'.lookup p.1 = some (Ledger.insertAll ∅ (Ledger.ascending p.2))) ∧
      ∀ key ∉ l.map Prod.fst, m'.lookup key = m.lookup key := by
  induction l generalizing m with
  | nil =>
      refine ⟨fun p hp => ?_, fun _ _ => rfl⟩
      cases hp
  | cons p l ih =>
      obtain ⟨hnot, hnodup⟩ := List.nodup_cons.1 hnodup
      have hne : ∀ p' ∈ l, p'.1 ≠ p.1 := fun p' hp' heq =>
        hnot (heq ▸ List.mem_map.2 ⟨p', hp', rfl⟩)
      obtain ⟨⟨kind, hkind⟩, hregular⟩ := hl p List.mem_cons_self
      have hself : (importAccounts m p.1 (Ledger.ascending p.2)).lookup p.1 =
          some (Ledger.insertAll ∅ (Ledger.ascending p.2)) := by
        rw [lookup_importAccounts_self, hm p List.mem_cons_self, Option.getD_none]
        · rintro ⟨kind, account⟩ he
          refine hregular kind (AList.lookup_isSome.1 ?_)
          rw [Ledger.mem_ascending.1 he, Option.isSome_some]
        · obtain ⟨account, haccount⟩ :=
            Option.isSome_iff_exists.1 (AList.lookup_isSome.2 hkind)
          exact List.ne_nil_of_mem (Ledger.mem_ascending.2 haccount)
      obtain ⟨hrest, hother⟩ := ih hnodup (fun p' hp' => hl p' (List.mem_cons_of_mem _ hp'))
        (m := importAccounts m p.1 (Ledger.ascending p.2)) fun p' hp' =>
          (lookup_importAccounts_of_ne (hne p' hp')).trans (hm p' (List.mem_cons_of_mem _ hp'))
      refine ⟨fun p' hp' => ?_, fun key hkey => ?_⟩
      · rcases List.mem_cons.1 hp' with rfl | hp'
        · exact (hother p'.1 hnot).trans hself
        · exact hrest p' hp'
      · rw [List.map_cons, List.mem_cons, not_or] at hkey
        exact (hother key hkey.2).trans (lookup_importAccounts_of_ne hkey.1)

theorem matching_imported {u : UserKeyChain} (h : u.ImportsRegular) :
    Ledger.Matching Ledger.SameEntries u.importedPrivateAccounts
      ((Ledger.ascending u.importedPrivateAccounts).foldl
        (fun m p => importAccounts m p.1 (Ledger.ascending p.2)) ∅) := by
  have hnodup : ((Ledger.ascending u.importedPrivateAccounts).map Prod.fst).Nodup := by
    rw [Ledger.map_fst_ascending]
    exact Ledger.nodup_sortedKeys
  obtain ⟨hkeys, hother⟩ := lookup_foldl_importAccounts hnodup
    (fun p hp => h p.1 p.2 (Ledger.mem_ascending.1 hp)) fun p _ => AList.lookup_empty p.1
  intro key
  cases hlookup : u.importedPrivateAccounts.lookup key with
  | some accounts =>
      rw [hkeys (key, accounts) (Ledger.mem_ascending.2 hlookup)]
      exact .some (Ledger.sameEntries_insertAll_ascending accounts)
  | none =>
      rw [hother key, AList.lookup_empty]
      · exact .none
      · rw [Ledger.map_fst_ascending, Ledger.mem_sortedKeys]
        exact AList.lookup_eq_none.1 hlookup

variable [Sha256] [Secp256k1] [Hmac] [ScalarArithmetic] [KeyDerivation] {k : WalletKeys}

/-- A key chain with complete trees is read as it was stored. -/
theorem exists_fromPersistent (hpublic : k.publicKeyTree.Complete)
    (hprivate : k.privateKeyTree.Complete) (himports : k.ImportsRegular)
    (hpublicRoot : ChainIndex.root ∈ k.publicKeyTree.shape)
    (hprivateRoot : ChainIndex.root ∈ k.privateKeyTree.shape) :
    ∃ k', fromPersistent k.toPersistent = .ok k' ∧ k.Same k' := by
  obtain ⟨publicNode, hpublicNode⟩ := KeyTree.mem_shape.1 hpublicRoot
  obtain ⟨privateNode, hprivateNode⟩ := KeyTree.mem_shape.1 hprivateRoot
  have hfindPublic : k.toPersistent.accounts.findSome? publicRoot = some publicNode := by
    have hfind : (k.publicKeyTree.entries.map ofPublicEntry).findSome? publicRoot =
        some publicNode := by
      rw [List.findSome?_map]
      exact hpublic.findSome?_root hpublicNode id fun _ => rfl
    simp only [toPersistent, List.append_assoc, List.findSome?_append, hfind, Option.some_or]
  have hfindPrivate : k.toPersistent.accounts.findSome? privateRoot =
      some privateNode.toPersistent.toChildKeys := by
    have hnone : (k.publicKeyTree.entries.map ofPublicEntry).findSome? privateRoot = none := by
      rw [List.findSome?_eq_none_iff, List.forall_mem_map]
      exact fun _ _ => rfl
    have hfind : (k.privateKeyTree.entries.map ofPrivateEntry).findSome? privateRoot =
        some privateNode.toPersistent.toChildKeys := by
      rw [List.findSome?_map]
      exact hprivate.findSome?_root hprivateNode
        (fun node => node.toPersistent.toChildKeys) fun _ => rfl
    simp only [toPersistent, List.append_assoc, List.findSome?_append, hnone, hfind,
      Option.none_or, Option.some_or]
  obtain ⟨hpublicNodes, hpublicIds⟩ := hpublic.insertEntries hpublicNode id fun _ => rfl
  obtain ⟨hprivateNodes, hprivateIds⟩ := hprivate.insertEntries hprivateNode
    (fun node => node.toPersistent.toChildKeys) fun node => node.same_restored.accountIds
  refine ⟨_, bind_eq_ok.2 ⟨publicNode, expect_eq_ok.2 hfindPublic, bind_eq_ok.2
    ⟨privateNode.toPersistent.toChildKeys, expect_eq_ok.2 hfindPrivate, rfl⟩⟩, ?_⟩
  have hentries : k.publicKeyTree.entries.map (fun e => (e.1, e.2.1, id e.2.2)) =
      k.publicKeyTree.entries := List.map_id _
  rw [hentries] at hpublicNodes hpublicIds
  rw [foldl_toPersistent]
  refine ⟨⟨matching_imported himports, .of_map hprivateNodes ChildKeysPrivate.same_restored,
    hprivateIds, fun _ => rfl, fun _ => rfl⟩, Ledger.sameEntries_insertAll_ascending _,
    fun c => ?_, hpublicIds, rfl⟩
  exact (hpublicNodes c).trans (congrFun Option.map_id _)

/-- Different accounts of a key chain have different ids: different public nodes have different
ids, different private nodes different keys, and the private accounts come from pairs in `P`. -/
structure DistinctAccounts (P : IdPairs) (k : WalletKeys) : Prop where
  publicIds : k.publicKeyTree.DistinctIds
  privateKeys : k.privateKeyTree.DistinctKeys P

/-- **Storing a key chain.**  A key chain that was built from seeds, in a run in which different
accounts have different ids, can be stored and read again.  It has the same entries then, so that
all accounts, keys and ids are found as before, and accounts are stored as before. -/
theorem wallet_persistence_round_trip [ChaCha20] {P : IdPairs}
    (hP : Set.InjOn (Function.uncurry AccountId.forPrivateAccount) P) {seed seed' : Bytes}
    {publicKeyTree : KeyTreePublic} {privateKeyTree : KeyTreePrivate}
    (hpublic : KeyTree.new seed = .ok publicKeyTree)
    (hprivate : KeyTree.new seed' = .ok privateKeyTree) {events : List KeyEvent}
    (hrun : Run (KeyStepWithin P) (newWithAccounts publicKeyTree privateKeyTree) events k)
    (hdistinct : k.DistinctAccounts P) :
    ∃ k', fromPersistent k.toPersistent = .ok k' ∧ k.Same k' ∧
      (∀ accountId, k'.privateAccount accountId = k.privateAccount accountId) ∧
      (∀ accountId, k'.pubAccountSigningKey accountId = k.pubAccountSigningKey accountId) ∧
      (∀ chainIndex, k'.privateAccountKeyChainByIndex chainIndex =
        k.privateAccountKeyChainByIndex chainIndex) ∧
      (∀ accountId, k'.sharedPrivateAccount accountId = k.sharedPrivateAccount accountId) ∧
      k'.accountIds = k.accountIds ∧
      ∀ accountId kind account, SameResult WalletKeys.Same
        (k.insertPrivateAccount accountId kind account)
        (k'.insertPrivateAccount accountId kind account) := by
  have hinvariant := walletInvariant_of_run hP hpublic hprivate hrun
  have hsound := hinvariant.privateKeys.sound hdistinct.privateKeys
  obtain ⟨k', hread, hsame⟩ := exists_fromPersistent
    (hinvariant.publicTree.complete hdistinct.publicIds) hsound.complete
    hinvariant.privateKeys.imports hinvariant.publicTree.root hinvariant.privateKeys.tree.root
  exact ⟨k', hread, hsame, hsame.privateKeys.privateAccount_eq, hsame.pubAccountSigningKey_eq,
    hsame.privateKeys.privateAccountKeyChainByIndex_eq, hsame.privateKeys.shared,
    hsame.accountIds_eq, hsame.insertPrivateAccount⟩

end WalletKeys

namespace StoredWallet

def seed : Bytes := List.replicate 64 1

def publicTree : KeyTreePublic :=
  let _ := Sample.sha256; let _ := Sample.curve; let _ := Sample.hmac; let _ := Sample.scalars
  let _ := Sample.keyDerivation
  valueD ⟨∅, ∅⟩ (KeyTree.new seed)

def privateTree : KeyTreePrivate :=
  let _ := Sample.sha256; let _ := Sample.curve; let _ := Sample.hmac; let _ := Sample.scalars
  valueD ⟨∅, ∅⟩ (KeyTree.new seed)

def start : WalletKeys := .newWithAccounts publicTree privateTree

/-- A public key below the root. -/
def withPublicKey : WalletKeys :=
  let _ := Sample.sha256; let _ := Sample.curve; let _ := Sample.hmac; let _ := Sample.scalars
  let _ := Sample.keyDerivation
  valueD start ((start.generateNewPublicTransactionPrivateKey (some ChainIndex.root)).map Prod.snd)

/-- A private key below the root. -/
def withPrivateKey : WalletKeys :=
  let _ := Sample.sha256; let _ := Sample.curve; let _ := Sample.hmac; let _ := Sample.scalars
  let toUserKeyChain := valueD start.toUserKeyChain
    ((withPublicKey.createPrivateAccountsKey (some ChainIndex.root)).map Prod.snd)
  { withPublicKey with toUserKeyChain }

/-- The identifier 5 for this key. -/
def registration : Option (AccountId × UserKeyChain) :=
  let _ := Sample.sha256
  withPrivateKey.registerIdentifierOnPrivateKeyChain [0] 5

def accountId : AccountId := (registration.map Prod.fst).getD (Sample.accountId 0)

def registered : WalletKeys :=
  { withPrivateKey with
    toUserKeyChain := (registration.map Prod.snd).getD withPrivateKey.toUserKeyChain }

def imported : WalletKeys :=
  { registered with
    toUserKeyChain := registered.addImportedPrivateAccount
      (ForeignOutput.keyChain ForeignOutput.readerKey) (some [0]) 7 Account.default }

/-- The account that arrives for the identifier. -/
def account : Account := Sample.account (Sample.programId 2) 5

def updated : WalletKeys :=
  let _ := Sample.sha256
  valueD imported (imported.insertPrivateAccount accountId (.regular 5) account)

def events : List KeyEvent :=
  [.createPublicKey (some ChainIndex.root), .wallet (.createKey (some ChainIndex.root)),
    .wallet (.registerIdentifier [0] 5),
    .wallet (.importAccount (ForeignOutput.keyChain ForeignOutput.readerKey) (some [0]) 7
      Account.default),
    .update accountId (.regular 5) account]

/-- The pairs of the private accounts. -/
def pairs : List (NullifierPublicKey × PrivateAccountKind) :=
  (Ledger.pairs updated.privateKeyTree.keyMap).flatMap fun p =>
    p.2.accounts.keys.map fun kind => (p.2.keyChain.nullifierPublicKey, kind)

/-- The steps are taken, and the accounts are different. -/
theorem evaluated :
    let _ := Sample.sha256; let _ := Sample.curve; let _ := Sample.hmac; let _ := Sample.scalars
    let _ := Sample.keyDerivation
    (KeyTree.new seed : Except Panic KeyTreePublic).isOk = true ∧
      (KeyTree.new seed : Except Panic KeyTreePrivate).isOk = true ∧
      (start.generateNewPublicTransactionPrivateKey (some ChainIndex.root)).isOk = true ∧
      (withPublicKey.createPrivateAccountsKey (some ChainIndex.root)).isOk = true ∧
      registration.isSome = true ∧
      (imported.insertPrivateAccount accountId (.regular 5) account).isOk = true ∧
      (pairs.map (Function.uncurry AccountId.forPrivateAccount)).Nodup ∧
      (∀ p ∈ Ledger.pairs withPrivateKey.privateKeyTree.keyMap, p.1 = [0] →
        (p.2.keyChain.nullifierPublicKey, .regular 5) ∈ pairs) ∧
      (∃ p ∈ pairs, p.2 = .regular 5 ∧ AccountId.forPrivateAccount p.1 p.2 = accountId) ∧
      (∀ p ∈ Ledger.pairs updated.publicKeyTree.keyMap,
        ∀ q ∈ Ledger.pairs updated.publicKeyTree.keyMap,
          q.2.accountId = p.2.accountId → q.1 = p.1) ∧
      (∀ p ∈ Ledger.pairs updated.privateKeyTree.keyMap,
        ∀ q ∈ Ledger.pairs updated.privateKeyTree.keyMap,
          q.2.keyChain.nullifierPublicKey = p.2.keyChain.nullifierPublicKey → q.1 = p.1) ∧
      (updated.privateAccount accountId).map (·.account) = some account := by
  decide +kernel

/-- A computation that returns a key chain and something else. -/
theorem exists_eq_ok_map_snd {E α β : Type} {x : Except E (α × β)} (d : β) (h : x.isOk = true) :
    ∃ a, x = .ok (a, valueD d (x.map Prod.snd)) := by
  obtain ⟨⟨a, b⟩, rfl⟩ := exists_of_isOk h
  exact ⟨a, rfl⟩

theorem run_updated :
    let _ := Sample.sha256; let _ := Sample.curve; let _ := Sample.hmac; let _ := Sample.scalars
    let _ := Sample.keyDerivation; let _ := Sample.xorCipher
    Run (KeyStepWithin { p | p ∈ pairs }) start events updated := by
  intro _ _ _ _ _ _
  obtain ⟨_, _, hpublic, hprivate, hregister, hinsert, _, hwithin, ⟨⟨npk, kind⟩, hmem, rfl, hid⟩,
    _, _, _⟩ := evaluated
  obtain ⟨_, hpublic⟩ := exists_eq_ok_map_snd start hpublic
  obtain ⟨_, hprivate⟩ := exists_eq_ok_map_snd start.toUserKeyChain hprivate
  obtain ⟨⟨registeredId, registeredKeys⟩, hregister⟩ := Option.isSome_iff_exists.1 hregister
  have hregistered : registered = { withPrivateKey with toUserKeyChain := registeredKeys } := by
    rw [registered, hregister]
    rfl
  have hstep : KeyStep withPrivateKey (.wallet (.registerIdentifier [0] 5)) registered := by
    rw [hregistered]
    exact ⟨registeredKeys, ⟨registeredId, hregister⟩, rfl⟩
  have hnode : ∀ node, withPrivateKey.privateKeyTree.keyMap.lookup [0] = some node →
      (node.keyChain.nullifierPublicKey, .regular 5) ∈ pairs := by
    intro node hnode
    exact hwithin ([0], node) (Ledger.mem_pairs.2 hnode) rfl
  have himport : KeyStep registered (.wallet (.importAccount
      (ForeignOutput.keyChain ForeignOutput.readerKey) (some [0]) 7 Account.default)) imported := by
    rw [imported]
    exact ⟨_, rfl, rfl⟩
  have hupdate : KeyStep imported (.update accountId (.regular 5) account) updated :=
    eq_ok_valueD imported hinsert
  have hknown : imported.KnownAs { p | p ∈ pairs } accountId (.regular 5) :=
    .inr ⟨npk, hmem, hid⟩
  exact .cons ⟨⟨_, hpublic⟩, trivial⟩ (.cons ⟨⟨_, ⟨_, hprivate⟩, rfl⟩, trivial⟩
    (.cons ⟨hstep, hnode⟩ (.cons ⟨himport, trivial⟩ (.cons ⟨hupdate, hknown⟩ .nil))))

theorem distinctAccounts :
    let _ := Sample.sha256; let _ := Sample.keyDerivation
    updated.DistinctAccounts { p | p ∈ pairs } := by
  intro _ _
  obtain ⟨_, _, _, _, _, _, _, _, _, hids, hkeys, _⟩ := evaluated
  refine ⟨fun c node c' node' hnode hnode' => ?_, fun c node c' node' hnode hnode' => ?_,
    fun c node hnode kind hkind => ?_⟩
  · exact hids (c, node) (Ledger.mem_pairs.2 hnode) (c', node') (Ledger.mem_pairs.2 hnode')
  · exact hkeys (c, node) (Ledger.mem_pairs.2 hnode) (c', node') (Ledger.mem_pairs.2 hnode')
  · exact List.mem_flatMap.2 ⟨(c, node), Ledger.mem_pairs.2 hnode,
      List.mem_map.2 ⟨kind, AList.mem_keys.2 hkind, rfl⟩⟩

end StoredWallet

/-- The account that arrived for the registered identifier is there when the key chain is read
again. -/
theorem WalletKeys.wallet_persistence_round_trip_updated :
    let _ := Sample.sha256; let _ := Sample.curve; let _ := Sample.hmac; let _ := Sample.scalars
    let _ := Sample.keyDerivation; let _ := Sample.xorCipher
    Run (KeyStepWithin { p | p ∈ StoredWallet.pairs }) StoredWallet.start StoredWallet.events
        StoredWallet.updated ∧
      ∃ k', fromPersistent StoredWallet.updated.toPersistent = .ok k' ∧
        (k'.privateAccount StoredWallet.accountId).map (·.account) =
          some StoredWallet.account := by
  intro _ _ _ _ _ _
  obtain ⟨hpublic, hprivate, _, _, _, _, hpairs, _, _, _, _, hfound⟩ := StoredWallet.evaluated
  obtain ⟨k', hread, _, haccount, _⟩ := wallet_persistence_round_trip
    (List.inj_on_of_nodup_map hpairs) (eq_ok_valueD ⟨∅, ∅⟩ hpublic) (eq_ok_valueD ⟨∅, ∅⟩ hprivate)
    StoredWallet.run_updated StoredWallet.distinctAccounts
  exact ⟨StoredWallet.run_updated, k', hread, by rw [haccount, hfound]⟩

end ExecutionZone
