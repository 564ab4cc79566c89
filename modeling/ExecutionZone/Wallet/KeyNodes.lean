import ExecutionZone.Node.InitialState
import ExecutionZone.Wallet.KeyChain
import ExecutionZone.Wallet.TreeGrowth

/-!
# The nodes of key trees

Private and public keys, how those of a child are derived from those of its parent, and the
functions of the two kinds of trees: an identifier is registered for a private node, and nodes
without initialised accounts are removed, from the highest layer down to the first one that is
initialised.

Hashing with a key and the arithmetic of scalars are parameters.
-/

namespace ExecutionZone

open Encoding

/-- `HMAC::mac` with SHA-512: the two halves of the hash of an input under a key. -/
class Hmac where
  mac : Bytes → Bytes → Bytes32 × Bytes32

/-- The arithmetic of scalars; `none` if an argument is not a scalar. -/
class ScalarArithmetic where
  mul : Scalar → Scalar → Option Scalar
  add : Scalar → Scalar → Option Scalar
  /-- `PrivateKey::is_valid_key`. -/
  isValidKey : Bytes32 → Bool

/-- The bytes of a child number. -/
def cciBytes (cci : UInt32) : Bytes := (leBytes 4 cci.toNat).reverse

/-! ## Private nodes -/

section

variable [Sha256] [Secp256k1] [Hmac] [ScalarArithmetic]

namespace ChildKeysPrivate

/-- The node of a secret, with one account. -/
def ofSecret (ssk : SecretSpendingKey) (ccc : Bytes32) (cci : Option UInt32) :
    Except Panic ChildKeysPrivate := do
  let nsk := ssk.generateNullifierSecretKey cci
  let vsk := ssk.generateViewingSecretKey cci
  let npk := NullifierPublicKey.ofSecretKey nsk
  let vpk ← pointFromScalar vsk
  return ⟨⟨ssk, ⟨nsk, vsk⟩, npk, vpk⟩, Ledger.insertAll ∅ [(.regular 0, Account.default)], ccc, cci⟩

/-- `root`. -/
def root (seed : Bytes) : Except Panic ChildKeysPrivate :=
  let hashValue := Hmac.mac seed (asciiBytes "LEE_master_priv")
  ofSecret ⟨hashValue.1⟩ hashValue.2 none

/-- `nth_child`. -/
def nthChild (node : ChildKeysPrivate) (cci : UInt32) : Except Panic ChildKeysPrivate := do
  let holder := node.keyChain.privateKeyHolder
  let parentPt ← expect (ScalarArithmetic.mul holder.nullifierSecretKey holder.viewingSecretKey)
    "Key generated as scalar, must be valid representation"
  let input := asciiBytes "LEE_seed_priv" ++ parentPt.toList ++ cciBytes cci
  let hashValue := Hmac.mac input node.ccc.toList
  ofSecret ⟨hashValue.1⟩ hashValue.2 (some cci)

omit [Secp256k1] [Hmac] [ScalarArithmetic] in
/-- `account_ids`. -/
def accountIds (node : ChildKeysPrivate) : List AccountId :=
  (Ledger.sortedKeys node.accounts).map (AccountId.forPrivateAccount node.keyChain.nullifierPublicKey)

omit [Sha256] [Secp256k1] [Hmac] [ScalarArithmetic] in
/-- No account of the node is initialised. -/
def isUninit (node : ChildKeysPrivate) : Bool :=
  node.accounts.keys.isEmpty || (Ledger.pairs node.accounts).all fun p => p.2 = Account.default

instance : KeyTreeNode ChildKeysPrivate := ⟨root, nthChild, accountIds⟩

end ChildKeysPrivate

end

/-! ## Public nodes -/

structure ChildKeysPublic where
  csk : PrivateKey
  cpk : PublicKey
  ccc : Bytes32
  cci : Option UInt32
deriving DecidableEq

abbrev KeyTreePublic := KeyTree ChildKeysPublic

section

variable [Sha256] [Secp256k1] [Hmac] [ScalarArithmetic] [KeyDerivation]

namespace ChildKeysPublic

omit [Sha256] [Secp256k1] in
/-- `root`. -/
def root (seed : Bytes) : Except Panic ChildKeysPublic := do
  let hashValue := Hmac.mac seed (asciiBytes "LEE_master_pub")
  ensure (ScalarArithmetic.isValidKey hashValue.1) "Expect a valid Private Key"
  return ⟨⟨hashValue.1⟩, KeyDerivation.publicKey ⟨hashValue.1⟩, hashValue.2, none⟩

omit [Sha256] [ScalarArithmetic] [KeyDerivation] in
/-- `compute_hash_value`: children from `2 ^ 31` on are hardened. -/
def computeHashValue (node : ChildKeysPublic) (cci : UInt32) : Except Panic (Bytes32 × Bytes32) := do
  let hashInput ← if cci.toNat < 2 ^ 31 then
      expect (Secp256k1.generatorMul node.csk.value) "32 bytes, within curve order"
    else .ok (0 :: node.csk.value.toList)
  return Hmac.mac (hashInput ++ cciBytes cci) node.ccc.toList

omit [Sha256] in
/-- `nth_child`. -/
def nthChild (node : ChildKeysPublic) (cci : UInt32) : Except Panic ChildKeysPublic := do
  let hashValue ← node.computeHashValue cci
  let csk ← expect (ScalarArithmetic.add hashValue.1 node.csk.value) "Expect a valid k256 scalar"
  ensure (ScalarArithmetic.isValidKey csk) "Expect a valid private key"
  return ⟨⟨csk⟩, KeyDerivation.publicKey ⟨csk⟩, hashValue.2, some cci⟩

omit [Secp256k1] [Hmac] [ScalarArithmetic] [KeyDerivation] in
/-- `account_id`. -/
def accountId (node : ChildKeysPublic) : AccountId := AccountId.ofPublicKey node.cpk

instance : KeyTreeNode ChildKeysPublic := ⟨root, nthChild, fun node => [node.accountId]⟩

end ChildKeysPublic

end

namespace KeyTree

variable [Sha256]

/-! ## Identifiers -/

/-- `register_identifier_on_node`. -/
def registerIdentifierOnNode (t : KeyTreePrivate) (cci : ChainIndex) (identifier : Identifier) :
    Option (AccountId × KeyTreePrivate) :=
  match t.keyMap.lookup cci with
  | none => none
  | some node =>
      let accountId :=
        AccountId.forPrivateAccount node.keyChain.nullifierPublicKey (.regular identifier)
      if (t.accountIdMap.lookup accountId).isSome then none
      else some (accountId, { t with accountIdMap := t.accountIdMap.insert accountId cci })

/-! ## Removing nodes -/

/-- The loops of `cleanup_tree_remove_uninit_layered` of a private tree, over the paths they
visit. -/
def clearPrivate : List ChainIndex → KeyTreePrivate → KeyTreePrivate
  | [], t => t
  | id :: ids, t =>
      match t.keyMap.lookup id with
      | none => clearPrivate ids t
      | some node =>
          if node.isUninit then
            clearPrivate ids ⟨t.keyMap.erase id, Ledger.eraseAll t.accountIdMap node.accountIds⟩
          else t

/-- `cleanup_tree_remove_uninit_layered` of a private tree. -/
def cleanupPrivate (t : KeyTreePrivate) (depth : UInt32) : KeyTreePrivate :=
  clearPrivate (visitedIds depth.toNat) t

/-- The account ids of the node at a path. -/
def idsAt (t : KeyTreePrivate) (c : ChainIndex) : List AccountId :=
  ((t.keyMap.lookup c).map ChildKeysPrivate.accountIds).getD []

omit [Sha256] in
/-- The paths up to the first initialised node. -/
def clearedIds (t : KeyTreePrivate) (ids : List ChainIndex) : List ChainIndex :=
  ids.takeWhile fun id => (t.keyMap.lookup id).all ChildKeysPrivate.isUninit

omit [Sha256] in
theorem clearedIds_congr {t t' : KeyTreePrivate} {ids : List ChainIndex}
    (h : ∀ id ∈ ids, t'.keyMap.lookup id = t.keyMap.lookup id) :
    clearedIds t' ids = clearedIds t ids := by
  induction ids with
  | nil => rfl
  | cons id ids ih =>
      have ih := ih fun id' hid' => h id' (List.mem_cons_of_mem _ hid')
      simp only [clearedIds, List.takeWhile_cons, h id List.mem_cons_self] at ih ⊢
      rw [ih]

/-- **Clearing a private tree.**  The nodes up to the first initialised one go, and with them the
ids of their accounts. -/
theorem lookup_clearPrivate {ids : List ChainIndex} (hnodup : ids.Nodup) (t : KeyTreePrivate) :
    (∀ c, (clearPrivate ids t).keyMap.lookup c =
      if c ∈ clearedIds t ids then none else t.keyMap.lookup c) ∧
    ∀ a, (clearPrivate ids t).accountIdMap.lookup a =
      if a ∈ (clearedIds t ids).flatMap t.idsAt then none else t.accountIdMap.lookup a := by
  induction ids generalizing t with
  | nil => exact ⟨fun _ => rfl, fun _ => rfl⟩
  | cons id ids ih =>
      obtain ⟨hnot, hnodup⟩ := List.nodup_cons.1 hnodup
      rw [clearPrivate]
      cases hnode : t.keyMap.lookup id with
      | none =>
          have hcleared : clearedIds t (id :: ids) = id :: clearedIds t ids := by
            simp only [clearedIds, List.takeWhile_cons, hnode, Option.all_none, if_true]
          have hids : t.idsAt id = [] := by rw [idsAt, hnode, Option.map_none, Option.getD_none]
          obtain ⟨hkeys, haccounts⟩ := ih hnodup t
          rw [hcleared, List.flatMap_cons, hids, List.nil_append]
          refine ⟨fun c => ?_, haccounts⟩
          simp only [hkeys, List.mem_cons]
          by_cases hc : c = id
          · subst hc
            simp only [true_or, hnode, ite_self]
          · simp only [hc, false_or]
      | some node =>
          cases huninit : node.isUninit with
          | false =>
              have hcleared : clearedIds t (id :: ids) = [] := by
                simp [clearedIds, hnode, huninit]
              have hstop : (node.isUninit = true) = False := by simp only [huninit, reduceCtorEq]
              simp only [hcleared, hstop, if_false, List.flatMap_nil, List.not_mem_nil,
                implies_true, and_self]
          | true =>
              have hcleared : clearedIds t (id :: ids) = id :: clearedIds t ids := by
                simp [clearedIds, hnode, huninit]
              have hids : t.idsAt id = node.accountIds := by
                rw [idsAt, hnode, Option.map_some, Option.getD_some]
              -- the rest of the paths are not the one that is removed
              have hsame : ∀ id' ∈ ids, (t.keyMap.erase id).lookup id' = t.keyMap.lookup id' :=
                fun id' hid' => AList.lookup_erase_ne fun heq => hnot (heq ▸ hid')
              obtain ⟨hkeys, haccounts⟩ := ih hnodup
                ⟨t.keyMap.erase id, Ledger.eraseAll t.accountIdMap node.accountIds⟩
              rw [clearedIds_congr hsame] at hkeys haccounts
              have hflat : (clearedIds t ids).flatMap (idsAt
                  ⟨t.keyMap.erase id, Ledger.eraseAll t.accountIdMap node.accountIds⟩) =
                  (clearedIds t ids).flatMap t.idsAt := by
                refine List.flatMap_congr fun c hc => ?_
                rw [idsAt, hsame c ((List.takeWhile_sublist _).subset hc), idsAt]
              rw [hflat] at haccounts
              simp only [huninit, if_true, hcleared, List.flatMap_cons, hids]
              refine ⟨fun c => ?_, fun a => ?_⟩
              · rw [hkeys]
                by_cases hc : c = id
                · subst hc
                  simp [AList.lookup_erase]
                · simp [hc, AList.lookup_erase_ne hc]
              · rw [haccounts]
                by_cases ha : a ∈ node.accountIds
                · simp [ha, Ledger.lookup_eraseAll_of_mem ha]
                · simp [ha, Ledger.lookup_eraseAll_of_notMem ha]

omit [Sha256] in
/-- `remove`. -/
def remove {N : Type} (t : KeyTree N) (addr : AccountId) : KeyTree N :=
  match t.accountIdMap.lookup addr with
  | none => t
  | some chainIndex => ⟨t.keyMap.erase chainIndex, t.accountIdMap.erase addr⟩

/-- The loops of `cleanup_tree_remove_uninit_layered` of a public tree.  Asking for an account
may fail. -/
def clearPublic {ε : Type} (getAccount : AccountId → Except ε Account) :
    List ChainIndex → KeyTreePublic → KeyTreePublic × Except ε Unit
  | [], t => (t, .ok ())
  | id :: ids, t =>
      match t.keyMap.lookup id with
      | none => clearPublic getAccount ids t
      | some node =>
          match getAccount node.accountId with
          | .error e => (t, .error e)
          | .ok account =>
              if account = Account.default then
                clearPublic getAccount ids (t.remove node.accountId)
              else (t, .ok ())

/-- `cleanup_tree_remove_uninit_layered` of a public tree. -/
def cleanupPublic {ε : Type} (t : KeyTreePublic) (depth : UInt32)
    (getAccount : AccountId → Except ε Account) : KeyTreePublic × Except ε Unit :=
  clearPublic getAccount (visitedIds depth.toNat) t

end KeyTree

end ExecutionZone
