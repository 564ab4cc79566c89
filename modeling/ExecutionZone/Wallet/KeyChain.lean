import ExecutionZone.Core.Formats
import ExecutionZone.Lib.Ordered
import ExecutionZone.Wallet.KeyTree

/-!
# The keys of a wallet

`UserKeyChain`, with the keys it finds private accounts by: key chains that were imported or
generated in a tree, and the keys a group derives from its master secret for each shared
account.  The curve is a parameter, like the hash function; what the code unwraps panics.

`insert_private_account` stores an account under an id: among the shared accounts, the imported
ones, the ones a node of the tree is registered for, and last under any node whose key gives
the id.
-/

namespace ExecutionZone

open Encoding

/-! ## Keys -/

/-- `Scalar = [u8; 32]`. -/
abbrev Scalar := Bytes32

/-- The operations of the curve. -/
class Secp256k1 where
  /-- The compressed encoding of a multiple of the generator; `none` if the bytes are not a
  scalar. -/
  generatorMul : Scalar → Option Bytes
  /-- The `x` coordinate of a multiple of an encoded point; `none` if there is no such scalar or
  point, or no such coordinate. -/
  pointMul : Scalar → Bytes → Option Bytes32

def unwrapMessage : Panic := "called Option::unwrap() on a None value"

section

variable [Secp256k1]

/-- `Secp256k1Point::from_scalar`. -/
def pointFromScalar (scalar : Scalar) : Except Panic Bytes :=
  expect (Secp256k1.generatorMul scalar) unwrapMessage

/-- `SharedSecretKey::new`. -/
def SharedSecretKey.new (scalar : Scalar) (point : Bytes) : Except Panic SharedSecretKey := do
  ensure (point.length = 33) unwrapMessage
  let x ← expect (Secp256k1.pointMul scalar point) unwrapMessage
  return ⟨x⟩

end

section

variable [Sha256]

/-- `compute_view_tag`: one byte. -/
def computeViewTag (npk : NullifierPublicKey) (vpk : Bytes) : Except Panic UInt8 := do
  ensure (vpk.length = 33) unwrapMessage
  return (sha256 (asciiBytes "/LEE/v0.3/ViewTag/" ++ npk.value.toList ++ vpk)).get 0

structure SecretSpendingKey where
  value : Bytes32
deriving DecidableEq

/-- What the secret keys of an index are hashed from. -/
def SecretSpendingKey.keyPreimage (suffix : UInt8) (key : SecretSpendingKey)
    (index : Option UInt32) : Bytes :=
  asciiBytes "LEE/keys" ++ key.value.toList ++ [suffix] ++
    (leBytes 4 (index.getD 0).toNat).reverse ++ List.replicate 19 0

/-- `generate_nullifier_secret_key`. -/
def SecretSpendingKey.generateNullifierSecretKey (key : SecretSpendingKey)
    (index : Option UInt32) : NullifierSecretKey := sha256 (key.keyPreimage 1 index)

/-- `generate_viewing_secret_key`. -/
def SecretSpendingKey.generateViewingSecretKey (key : SecretSpendingKey)
    (index : Option UInt32) : Scalar := sha256 (key.keyPreimage 2 index)

structure PrivateKeyHolder where
  nullifierSecretKey : NullifierSecretKey
  viewingSecretKey : Scalar
deriving DecidableEq

/-- `produce_private_key_holder`. -/
def SecretSpendingKey.producePrivateKeyHolder (key : SecretSpendingKey) (index : Option UInt32) :
    PrivateKeyHolder :=
  ⟨key.generateNullifierSecretKey index, key.generateViewingSecretKey index⟩

/-- `generate_nullifier_public_key`. -/
def PrivateKeyHolder.generateNullifierPublicKey (keys : PrivateKeyHolder) : NullifierPublicKey :=
  NullifierPublicKey.ofSecretKey keys.nullifierSecretKey

/-- `generate_viewing_public_key`. -/
def PrivateKeyHolder.generateViewingPublicKey [Secp256k1] (keys : PrivateKeyHolder) :
    Except Panic Bytes := pointFromScalar keys.viewingSecretKey

/-- The master secret of a group. -/
structure GroupKeyHolder where
  gms : Bytes32
deriving DecidableEq

/-- `derive_keys_for_pda`. -/
def GroupKeyHolder.deriveKeysForPda (holder : GroupKeyHolder) (programId : ProgramId)
    (pdaSeed : PdaSeed) : PrivateKeyHolder :=
  (SecretSpendingKey.mk (sha256 (asciiBytes "/LEE/v0.3/GroupKeyDerivation/SSK" ++
    holder.gms.toList ++ programId.toBytes ++ pdaSeed.value.toList))).producePrivateKeyHolder none

/-- `derive_keys_for_shared_account`. -/
def GroupKeyHolder.deriveKeysForSharedAccount (holder : GroupKeyHolder)
    (derivationSeed : Bytes32) : PrivateKeyHolder :=
  (SecretSpendingKey.mk (sha256 (asciiBytes "/LEE/v0.3/GroupKeyDerivation/SHA" ++
    holder.gms.toList ++ derivationSeed.toList))).producePrivateKeyHolder none

end

/-- The key chain of private accounts. -/
structure KeyChain where
  secretSpendingKey : SecretSpendingKey
  privateKeyHolder : PrivateKeyHolder
  nullifierPublicKey : NullifierPublicKey
  viewingPublicKey : Bytes
deriving DecidableEq

/-- What an output is found and opened with. -/
structure ViewingKeys where
  npk : NullifierPublicKey
  vpk : Bytes
  vsk : Scalar
deriving DecidableEq

section

variable [Sha256]

/-- A key chain opens outputs with the viewing key of the last index on its path. -/
def KeyChain.viewingKeys (keyChain : KeyChain) (chainIndex : Option ChainIndex) : ViewingKeys :=
  ⟨keyChain.nullifierPublicKey, keyChain.viewingPublicKey,
    keyChain.secretSpendingKey.generateViewingSecretKey (chainIndex.bind ChainIndex.index)⟩

/-- The keys of a shared account. -/
def PrivateKeyHolder.viewingKeys [Secp256k1] (keys : PrivateKeyHolder) :
    Except Panic ViewingKeys := do
  let vpk ← keys.generateViewingPublicKey
  return ⟨keys.generateNullifierPublicKey, vpk, keys.viewingSecretKey⟩

end

/-! ## The wallet -/

abbrev Label := String

structure ImportedPrivateAccountKey where
  keyChain : KeyChain
  chainIndex : Option ChainIndex
deriving DecidableEq

/-! ### The derived orders -/

section

theorem toNat_bytes_injective : Function.Injective (List.map UInt8.toNat) :=
  List.map_injective_iff.2 fun _ _ => UInt8.toNat_inj.1

theorem toNat_words_injective : Function.Injective (List.map UInt32.toNat) :=
  List.map_injective_iff.2 fun _ _ => UInt32.toNat_inj.1

/-- The bytes of a key, as they are compared. -/
def Bytes32.rank (bytes : Bytes32) : List Nat := bytes.toList.map UInt8.toNat

theorem Bytes32.rank_injective : Function.Injective Bytes32.rank :=
  fun _ _ h => Bytes32.toList_inj (toNat_bytes_injective h)

instance : OrderedKey AccountId where
  rank accountId := [accountId.value.rank]
  rank_injective _ _ h := AccountId.value_inj (Bytes32.rank_injective (List.cons.inj h).1)

instance : OrderedKey ChainIndex where
  rank chainIndex := [chainIndex.map UInt32.toNat]
  rank_injective _ _ h := toNat_words_injective (List.cons.inj h).1

def PrivateAccountKind.rank : PrivateAccountKind → List (List Nat)
  | .regular identifier => [[0], [identifier.toNat]]
  | .pda programId seed identifier =>
      [[1], programId.toList.map UInt32.toNat, seed.value.rank, [identifier.toNat]]

instance : OrderedKey PrivateAccountKind where
  rank := PrivateAccountKind.rank
  rank_injective kind kind' h := by
    cases kind with
    | regular identifier =>
        cases kind' with
        | regular identifier' =>
            simp only [PrivateAccountKind.rank, List.cons.injEq, and_true, true_and] at h
            rw [BitVec.eq_of_toNat_eq h]
        | pda _ _ _ => simp [PrivateAccountKind.rank] at h
    | pda programId seed identifier =>
        cases kind' with
        | regular _ => simp [PrivateAccountKind.rank] at h
        | pda programId' seed' identifier' =>
            simp only [PrivateAccountKind.rank, List.cons.injEq, and_true, true_and] at h
            obtain ⟨hprogram, hseed, hidentifier⟩ := h
            rw [Vector.toList_inj.1 (toNat_words_injective hprogram),
              PdaSeed.value_inj (Bytes32.rank_injective hseed), BitVec.eq_of_toNat_eq hidentifier]

def KeyChain.rank (keyChain : KeyChain) : List (List Nat) :=
  [keyChain.secretSpendingKey.value.rank, keyChain.privateKeyHolder.nullifierSecretKey.rank,
    keyChain.privateKeyHolder.viewingSecretKey.rank, keyChain.nullifierPublicKey.value.rank,
    keyChain.viewingPublicKey.map UInt8.toNat]

theorem KeyChain.rank_injective : Function.Injective KeyChain.rank := by
  rintro ⟨⟨ssk⟩, ⟨nsk, vsk⟩, ⟨npk⟩, vpk⟩ ⟨⟨ssk'⟩, ⟨nsk', vsk'⟩, ⟨npk'⟩, vpk'⟩ h
  simp only [KeyChain.rank, List.cons.injEq, and_true] at h
  obtain ⟨hssk, hnsk, hvsk, hnpk, hvpk⟩ := h
  rw [Bytes32.rank_injective hssk, Bytes32.rank_injective hnsk, Bytes32.rank_injective hvsk,
    Bytes32.rank_injective hnpk, toNat_bytes_injective hvpk]

/-- A missing path is smaller than any other. -/
def chainIndexRank : Option ChainIndex → List (List Nat)
  | none => [[0]]
  | some chainIndex => [[1], chainIndex.map UInt32.toNat]

theorem chainIndexRank_injective : Function.Injective chainIndexRank := by
  intro c c' h
  cases c with
  | none =>
      cases c' with
      | none => rfl
      | some _ => simp [chainIndexRank] at h
  | some c =>
      cases c' with
      | none => simp [chainIndexRank] at h
      | some c' =>
          simp only [chainIndexRank, List.cons.injEq, and_true, true_and] at h
          rw [toNat_words_injective h]

instance : OrderedKey ImportedPrivateAccountKey where
  rank key := key.keyChain.rank ++ chainIndexRank key.chainIndex
  rank_injective := by
    rintro ⟨keyChain, c⟩ ⟨keyChain', c'⟩ h
    obtain ⟨hkeyChain, hc⟩ := List.append_inj h rfl
    obtain rfl := KeyChain.rank_injective hkeyChain
    obtain rfl := chainIndexRank_injective hc
    rfl

end

/-! ### The key chain -/

/-- The private accounts of one key. -/
abbrev PrivateAccounts := Ledger.Map PrivateAccountKind Account

structure SharedAccountEntry where
  groupLabel : Label
  identifier : Identifier
  pdaSeed : Option PdaSeed
  pdaProgramId : Option ProgramId
  account : Account
deriving DecidableEq

/-- A node of the tree: a key chain and its accounts, and what its children are derived with. -/
structure ChildKeysPrivate where
  keyChain : KeyChain
  accounts : PrivateAccounts
  ccc : Bytes32
  cci : Option UInt32

abbrev KeyTreePrivate := KeyTree ChildKeysPrivate

structure UserKeyChain where
  importedPrivateAccounts : Ledger.Map ImportedPrivateAccountKey PrivateAccounts
  privateKeyTree : KeyTreePrivate
  sharedPrivateAccounts : Ledger.Map AccountId SharedAccountEntry
  groupKeyHolders : Ledger.Map Label GroupKeyHolder

/-- The error of `insert_private_account`: an id that no key of the wallet gives. -/
inductive InsertError where
  | notFoundInKeyChain (accountId : AccountId)
deriving DecidableEq

namespace UserKeyChain

/-- `new_with_accounts`. -/
def newWithAccounts (privateKeyTree : KeyTreePrivate) : UserKeyChain := ⟨∅, privateKeyTree, ∅, ∅⟩

variable [Sha256]

/-- `private_account_key_chains`: each key once for each of its accounts. -/
def privateAccountKeyChains (u : UserKeyChain) :
    List (AccountId × KeyChain × Option ChainIndex) :=
  ((Ledger.ascending u.importedPrivateAccounts).flatMap fun (key, accounts) =>
    (Ledger.sortedKeys accounts).map fun kind =>
      (AccountId.forPrivateAccount key.keyChain.nullifierPublicKey kind, key.keyChain,
        key.chainIndex)) ++
  (Ledger.ascending u.privateKeyTree.keyMap).flatMap fun (chainIndex, node) =>
    (Ledger.sortedKeys node.accounts).map fun kind =>
      (AccountId.forPrivateAccount node.keyChain.nullifierPublicKey kind, node.keyChain,
        some chainIndex)

structure FoundPrivateAccount where
  account : Account
  keyChain : KeyChain
  kind : PrivateAccountKind
  chainIndex : Option ChainIndex
deriving DecidableEq

/-- The private accounts that are not shared. -/
def foundPrivateAccounts (u : UserKeyChain) : List FoundPrivateAccount :=
  ((Ledger.ascending u.importedPrivateAccounts).flatMap fun (key, accounts) =>
    (Ledger.ascending accounts).map fun (kind, account) =>
      ⟨account, key.keyChain, kind, key.chainIndex⟩) ++
  (Ledger.ascending u.privateKeyTree.keyMap).flatMap fun (chainIndex, node) =>
    (Ledger.ascending node.accounts).map fun (kind, account) =>
      ⟨account, node.keyChain, kind, some chainIndex⟩

/-- `private_account`. -/
def privateAccount (u : UserKeyChain) (accountId : AccountId) : Option FoundPrivateAccount :=
  u.foundPrivateAccounts.find? fun found =>
    AccountId.forPrivateAccount found.keyChain.nullifierPublicKey found.kind = accountId

/-- The keys of a shared account, if its group is known and it does not lack a program. -/
def keysOf (u : UserKeyChain) (entry : SharedAccountEntry) : Option PrivateKeyHolder :=
  match u.groupKeyHolders.lookup entry.groupLabel with
  | none => none
  | some holder =>
      match entry.pdaSeed, entry.pdaProgramId with
      | some pdaSeed, some programId => some (holder.deriveKeysForPda programId pdaSeed)
      | some _, none => none
      | none, _ => some (holder.deriveKeysForSharedAccount (sha256
          (asciiBytes "/LEE/v0.3/SharedAccountTag/\x00\x00\x00\x00\x00" ++
            entry.identifier.toLeBytes)))

/-- The shared accounts with their keys. -/
def sharedKeys (u : UserKeyChain) : List (AccountId × PrivateKeyHolder) :=
  (Ledger.ascending u.sharedPrivateAccounts).filterMap fun (accountId, entry) =>
    (u.keysOf entry).map fun keys => (accountId, keys)

/-- `update_shared_private_account_state`. -/
def updateSharedPrivateAccountState (u : UserKeyChain) (accountId : AccountId)
    (account : Account) : UserKeyChain :=
  match u.sharedPrivateAccounts.lookup accountId with
  | some entry => { u with
      sharedPrivateAccounts := u.sharedPrivateAccounts.insert accountId { entry with account } }
  | none => u

/-- The imported account with an id. -/
def findImported (u : UserKeyChain) (accountId : AccountId) :
    Option (ImportedPrivateAccountKey × PrivateAccounts × PrivateAccountKind) :=
  (Ledger.ascending u.importedPrivateAccounts).findSome? fun (key, accounts) =>
    ((Ledger.sortedKeys accounts).find? fun kind =>
      AccountId.forPrivateAccount key.keyChain.nullifierPublicKey kind = accountId).map
      fun kind => (key, accounts, kind)

/-- Store an account in a node of the tree. -/
def insertInNode (u : UserKeyChain) (chainIndex : ChainIndex) (node : ChildKeysPrivate)
    (kind : PrivateAccountKind) (account : Account) : UserKeyChain :=
  { u with privateKeyTree := { u.privateKeyTree with
      keyMap := u.privateKeyTree.keyMap.insert chainIndex
        { node with accounts := node.accounts.insert kind account } } }

/-- `insert_private_account`. -/
def insertPrivateAccount (u : UserKeyChain) (accountId : AccountId) (kind : PrivateAccountKind)
    (account : Account) : Except (Fault InsertError) UserKeyChain :=
  if (u.sharedPrivateAccounts.lookup accountId).isSome then
    .ok (u.updateSharedPrivateAccountState accountId account)
  else
    match u.findImported accountId with
    | some (key, accounts, importedKind) => .ok { u with
        importedPrivateAccounts :=
          u.importedPrivateAccounts.insert key (accounts.insert importedKind account) }
    | none =>
        match u.privateKeyTree.accountIdMap.lookup accountId with
        | some chainIndex => do
            let node ← expect (u.privateKeyTree.keyMap.lookup chainIndex)
              (.panic "Node must be present in a tree")
            return u.insertInNode chainIndex node kind account
        | none => do
            -- the node is found by its key, and registered
            let (chainIndex, node) ← expect ((Ledger.ascending u.privateKeyTree.keyMap).find?
                fun (_, node) =>
                  AccountId.forPrivateAccount node.keyChain.nullifierPublicKey kind = accountId)
              (.err (.notFoundInKeyChain accountId))
            let u := u.insertInNode chainIndex node kind account
            return { u with privateKeyTree := { u.privateKeyTree with
              accountIdMap := u.privateKeyTree.accountIdMap.insert accountId chainIndex } }

/-- What storing an account does, by where its id is found. -/
inductive Stores (u : UserKeyChain) (accountId : AccountId) (kind : PrivateAccountKind)
    (account : Account) : UserKeyChain → Prop
  | shared {entry} (hentry : u.sharedPrivateAccounts.lookup accountId = some entry) :
      Stores u accountId kind account { u with
        sharedPrivateAccounts := u.sharedPrivateAccounts.insert accountId { entry with account } }
  | imported {key accounts importedKind}
      (hshared : u.sharedPrivateAccounts.lookup accountId = none)
      (hfound : u.findImported accountId = some (key, accounts, importedKind)) :
      Stores u accountId kind account { u with
        importedPrivateAccounts :=
          u.importedPrivateAccounts.insert key (accounts.insert importedKind account) }
  | registered {c node} (hshared : u.sharedPrivateAccounts.lookup accountId = none)
      (himported : u.findImported accountId = none)
      (hentry : u.privateKeyTree.accountIdMap.lookup accountId = some c)
      (hnode : u.privateKeyTree.keyMap.lookup c = some node) :
      Stores u accountId kind account (u.insertInNode c node kind account)
  | derived {c node} (hshared : u.sharedPrivateAccounts.lookup accountId = none)
      (himported : u.findImported accountId = none)
      (hentry : u.privateKeyTree.accountIdMap.lookup accountId = none)
      (hfound : (Ledger.ascending u.privateKeyTree.keyMap).find? (fun (_, node) =>
        AccountId.forPrivateAccount node.keyChain.nullifierPublicKey kind = accountId) =
          some (c, node)) :
      Stores u accountId kind account { u with
        privateKeyTree := ⟨u.privateKeyTree.keyMap.insert c
            { node with accounts := node.accounts.insert kind account },
          u.privateKeyTree.accountIdMap.insert accountId c⟩ }

theorem insertPrivateAccount_eq_ok {u u' : UserKeyChain} {accountId : AccountId}
    {kind : PrivateAccountKind} {account : Account} :
    u.insertPrivateAccount accountId kind account = .ok u' ↔
      Stores u accountId kind account u' := by
  constructor
  · intro h
    unfold insertPrivateAccount at h
    split at h
    · rename_i hsome
      obtain ⟨entry, hentry⟩ := Option.isSome_iff_exists.1 hsome
      rw [updateSharedPrivateAccountState, hentry] at h
      cases h
      exact .shared hentry
    · rename_i hnone
      have hshared := Option.not_isSome_iff_eq_none.1 hnone
      split at h
      · cases h
        exact .imported hshared ‹_›
      · split at h
        · simp only [bind_eq_ok, pure, Except.pure, Except.ok.injEq] at h
          obtain ⟨node, hnode, rfl⟩ := h
          exact .registered hshared ‹_› ‹_› (expect_eq_ok.1 hnode)
        · simp only [bind_eq_ok, pure, Except.pure, Except.ok.injEq] at h
          obtain ⟨⟨c, node⟩, hfound, rfl⟩ := h
          exact .derived hshared ‹_› ‹_› (expect_eq_ok.1 hfound)
  · intro h
    unfold insertPrivateAccount
    cases h with
    | shared hentry =>
        simp only [hentry, updateSharedPrivateAccountState, Option.isSome_some, if_true]
    | imported hshared hfound =>
        simp only [hshared, hfound, Option.isSome_none, Bool.false_eq_true, if_false]
    | registered hshared himported hentry hnode =>
        simp only [hshared, himported, hentry, hnode, Option.isSome_none, Bool.false_eq_true,
          if_false]
        rfl
    | derived hshared himported hentry hfound =>
        simp only [hshared, himported, hentry, hfound, Option.isSome_none, Bool.false_eq_true,
          if_false]
        rfl

/-! ## Shared accounts keep their keys -/

/-- The same groups, and the same shared accounts but for their values. -/
structure SameShared (u u' : UserKeyChain) : Prop where
  groups : u'.groupKeyHolders = u.groupKeyHolders
  entries : ∀ accountId, (u'.sharedPrivateAccounts.lookup accountId).map
      (fun entry => { entry with account := Account.default }) =
    (u.sharedPrivateAccounts.lookup accountId).map
      fun entry => { entry with account := Account.default }

omit [Sha256] in
theorem SameShared.refl (u : UserKeyChain) : SameShared u u := ⟨rfl, fun _ => rfl⟩

omit [Sha256] in
theorem SameShared.trans {u v w : UserKeyChain} (h : SameShared u v) (h' : SameShared v w) :
    SameShared u w :=
  ⟨h'.groups.trans h.groups, fun accountId => (h'.entries accountId).trans (h.entries accountId)⟩

omit [Sha256] in
theorem SameShared.symm {u v : UserKeyChain} (h : SameShared u v) : SameShared v u :=
  ⟨h.groups.symm, fun accountId => (h.entries accountId).symm⟩

theorem mem_sharedKeys {u : UserKeyChain} {accountId : AccountId} {keys : PrivateKeyHolder} :
    (accountId, keys) ∈ u.sharedKeys ↔
      ∃ entry, u.sharedPrivateAccounts.lookup accountId = some entry ∧
        u.keysOf entry = some keys := by
  rw [sharedKeys, List.mem_filterMap]
  constructor
  · rintro ⟨⟨id, entry⟩, hentry, heq⟩
    obtain ⟨keys', hkeys, heq⟩ := Option.map_eq_some_iff.1 heq
    cases heq
    exact ⟨entry, Ledger.mem_ascending.1 hentry, hkeys⟩
  · rintro ⟨entry, hentry, hkeys⟩
    exact ⟨(accountId, entry), Ledger.mem_ascending.2 hentry,
      Option.map_eq_some_iff.2 ⟨keys, hkeys, rfl⟩⟩

/-- The keys of a shared account do not depend on its value. -/
theorem SameShared.mem_sharedKeys {u u' : UserKeyChain} (h : SameShared u u')
    {accountId : AccountId} {keys : PrivateKeyHolder} (hmem : (accountId, keys) ∈ u.sharedKeys) :
    (accountId, keys) ∈ u'.sharedKeys := by
  obtain ⟨entry, hentry, hkeys⟩ := UserKeyChain.mem_sharedKeys.1 hmem
  have hentries := h.entries accountId
  rw [hentry, Option.map_some, Option.map_eq_some_iff] at hentries
  obtain ⟨entry', hentry', heq⟩ := hentries
  refine UserKeyChain.mem_sharedKeys.2 ⟨entry', hentry', ?_⟩
  rw [SharedAccountEntry.mk.injEq] at heq
  obtain ⟨hlabel, hidentifier, hseed, hprogram, _⟩ := heq
  rw [← hkeys]
  unfold keysOf
  rw [h.groups, hlabel, hidentifier, hseed, hprogram]

omit [Sha256] in
theorem sameShared_update (u : UserKeyChain) (accountId : AccountId) (account : Account) :
    SameShared u (u.updateSharedPrivateAccountState accountId account) := by
  unfold updateSharedPrivateAccountState
  split
  · rename_i entry hentry
    refine ⟨rfl, fun id => ?_⟩
    by_cases hid : id = accountId
    · rw [hid, AList.lookup_insert, hentry]
      rfl
    · rw [AList.lookup_insert_ne hid]
  · exact .refl u

theorem sameShared_insert {u u' : UserKeyChain} {accountId : AccountId} {kind : PrivateAccountKind}
    {account : Account} (h : u.insertPrivateAccount accountId kind account = .ok u') :
    SameShared u u' := by
  cases insertPrivateAccount_eq_ok.1 h with
  | shared hentry =>
      have hupdate := sameShared_update u accountId account
      rw [updateSharedPrivateAccountState, hentry] at hupdate
      exact hupdate
  | imported _ _ => exact ⟨rfl, fun _ => rfl⟩
  | registered _ _ _ _ => exact ⟨rfl, fun _ => rfl⟩
  | derived _ _ _ _ => exact ⟨rfl, fun _ => rfl⟩

/-! ## The tree keeps its keys -/

/-- What storing an account does to the tree: it is put into a node the id is registered for, or
into one whose key gives the id, which is then registered. -/
theorem tree_of_insert {u u' : UserKeyChain} {accountId : AccountId} {kind : PrivateAccountKind}
    {account : Account} (h : u.insertPrivateAccount accountId kind account = .ok u') :
    u'.privateKeyTree = u.privateKeyTree ∨
    ∃ c node ids, u.privateKeyTree.keyMap.lookup c = some node ∧
      u'.privateKeyTree = ⟨u.privateKeyTree.keyMap.insert c
        { node with accounts := node.accounts.insert kind account }, ids⟩ ∧
      (ids = u.privateKeyTree.accountIdMap ∨
        ids = u.privateKeyTree.accountIdMap.insert accountId c ∧
          AccountId.forPrivateAccount node.keyChain.nullifierPublicKey kind = accountId) := by
  cases insertPrivateAccount_eq_ok.1 h with
  | shared _ => exact .inl rfl
  | imported _ _ => exact .inl rfl
  | registered _ _ _ hnode => exact .inr ⟨_, _, _, hnode, rfl, .inl rfl⟩
  | derived _ _ _ hfound =>
      have hid := List.find?_some hfound
      exact .inr ⟨_, _, _, Ledger.mem_ascending.1 (List.mem_of_find?_eq_some hfound), rfl,
        .inr ⟨rfl, of_decide_eq_true hid⟩⟩

/-- An id that leads to a node that is not there. -/
theorem insertPrivateAccount_of_missing {u : UserKeyChain} {accountId : AccountId} {c : ChainIndex}
    (hshared : u.sharedPrivateAccounts.lookup accountId = none)
    (himported : u.findImported accountId = none)
    (hentry : u.privateKeyTree.accountIdMap.lookup accountId = some c)
    (hnode : u.privateKeyTree.keyMap.lookup c = none) {kind : PrivateAccountKind}
    {account : Account} : u.insertPrivateAccount accountId kind account =
      .error (.panic "Node must be present in a tree") := by
  unfold insertPrivateAccount
  simp only [hshared, himported, hentry, hnode, Option.isSome_none, Bool.false_eq_true, if_false]
  rfl

end UserKeyChain

namespace Sample

/-- Numbers under addition in place of the curve. -/
@[reducible] def curve : Secp256k1 where
  generatorMul scalar := some (2 :: scalar.toList)
  pointMul scalar point :=
    let x := leNat scalar.toList * leNat point.tail
    some ⟨(leBytes 32 x).toArray, by simp⟩

end Sample

end ExecutionZone
