import Mathlib.Data.Set.Function
import ExecutionZone.Core.Account
import ExecutionZone.Lib.PerfectTree

/-!
# Derived identifiers, commitments and nullifiers

Everything `nssa_core` derives by SHA-256.  The hash function itself is a parameter.
For each derivation the hashed byte string, its *preimage*, is a definition of its
own with the exact layout of the source, and a lemma says that the layout determines
the fields.

Collision freeness cannot be assumed of all byte strings at once, since there are
more of them than digests.  `CollisionFree S` assumes it of the strings in `S`, and
adds that none of them hashes to the all-zero array; the results that need it take
for `S` any set containing the strings hashed in the situation they speak about.
-/

namespace ExecutionZone

open Encoding

/-- The hash function. -/
class Sha256 where
  /-- `Impl::hash_bytes`. -/
  digest : Bytes → Bytes32

/-- The SHA-256 digest of a byte string. -/
def sha256 [Sha256] (bytes : Bytes) : Bytes32 := Sha256.digest bytes

/-- No two strings of `S` collide, and none of them hashes to the all-zero array. -/
structure CollisionFree [Sha256] (S : Set Bytes) : Prop where
  /-- No collision within `S`. -/
  injOn : Set.InjOn sha256 S
  /-- No all-zero digest of a string of `S`. -/
  ne_zero : ∀ x ∈ S, sha256 x ≠ Bytes32.zero

/-- A list of strings with distinct digests, none of them zero. -/
theorem collisionFree_of_digests [Sha256] {l : List Bytes}
    (h : (l.dedup.map sha256).Nodup ∧ Bytes32.zero ∉ l.dedup.map sha256) :
    CollisionFree { s | s ∈ l } := by
  refine ⟨fun x hx y hy he => ?_, fun x hx he => h.2 ?_⟩
  · exact List.inj_on_of_nodup_map h.1 (List.mem_dedup.2 hx) (List.mem_dedup.2 hy) he
  · exact he ▸ List.mem_map_of_mem (List.mem_dedup.2 hx)

/-- The ASCII bytes of a text. -/
def asciiBytes (s : String) : Bytes := s.toList.map fun c => c.toNat.toUInt8

/-! ## Keys, seeds and identifiers -/

/-- A 32-byte seed of a program-derived account id. -/
structure PdaSeed where
  /-- The bytes. -/
  value : Bytes32
deriving DecidableEq

/-- `Identifier = u128`. -/
abbrev Identifier := U128

/-- `NullifierSecretKey = [u8; 32]`. -/
abbrev NullifierSecretKey := Bytes32

/-- A nullifier public key. -/
structure NullifierPublicKey where
  /-- The bytes. -/
  value : Bytes32
deriving DecidableEq

/-- An x-only public key. -/
structure PublicKey where
  /-- The bytes. -/
  value : Bytes32
deriving DecidableEq

/-- `PROGRAM_DERIVED_ACCOUNT_ID_PREFIX`. -/
def programDerivedAccountIdPrefix : Bytes :=
  asciiBytes "/NSSA/v0.2/AccountId/PDA/\x00\x00\x00\x00\x00\x00\x00"

/-- `PRIVATE_PDA_PREFIX`. -/
def privatePdaPrefix : Bytes := asciiBytes "/LEE/v0.3/AccountId/PrivatePDA/\x00"

/-- `PRIVATE_ACCOUNT_ID_PREFIX`. -/
def privateAccountIdPrefix : Bytes :=
  asciiBytes "/LEE/v0.3/AccountId/Private/\x00\x00\x00\x00"

/-- `PUBLIC_ACCOUNT_ID_PREFIX`. -/
def publicAccountIdPrefix : Bytes :=
  asciiBytes "/LEE/v0.3/AccountId/Public/\x00\x00\x00\x00\x00"

/-- What is hashed for the public PDA of a program under a seed. -/
def publicPdaPreimage (programId : ProgramId) (seed : PdaSeed) : Bytes :=
  programDerivedAccountIdPrefix ++ (programId.toBytes ++ seed.value.toList)

/-- What is hashed for a private PDA. -/
def privatePdaPreimage (programId : ProgramId) (seed : PdaSeed) (npk : NullifierPublicKey)
    (identifier : Identifier) : Bytes :=
  privatePdaPrefix ++ (programId.toBytes ++ (seed.value.toList ++
    (npk.value.toList ++ identifier.toLeBytes)))

/-- What is hashed for a regular private account. -/
def regularPrivateAccountPreimage (npk : NullifierPublicKey) (identifier : Identifier) : Bytes :=
  privateAccountIdPrefix ++ (npk.value.toList ++ identifier.toLeBytes)

/-- What is hashed for the account of a public key. -/
def publicKeyPreimage (key : PublicKey) : Bytes := publicAccountIdPrefix ++ key.value.toList

/-- What is hashed for the nullifier public key of a secret key. -/
def nullifierKeyPreimage (nsk : NullifierSecretKey) : Bytes :=
  asciiBytes "LEE/keys" ++ (nsk.toList ++ ([7] ++ List.replicate 23 0))

section

variable [Sha256]

/-- `AccountId::for_public_pda`. -/
def AccountId.forPublicPda (programId : ProgramId) (seed : PdaSeed) : AccountId :=
  ⟨sha256 (publicPdaPreimage programId seed)⟩

/-- `AccountId::for_private_pda`. -/
def AccountId.forPrivatePda (programId : ProgramId) (seed : PdaSeed) (npk : NullifierPublicKey)
    (identifier : Identifier) : AccountId :=
  ⟨sha256 (privatePdaPreimage programId seed npk identifier)⟩

/-- `AccountId::for_regular_private_account`. -/
def AccountId.forRegularPrivateAccount (npk : NullifierPublicKey) (identifier : Identifier) :
    AccountId := ⟨sha256 (regularPrivateAccountPreimage npk identifier)⟩

/-- `AccountId::from(&PublicKey)`. -/
def AccountId.ofPublicKey (key : PublicKey) : AccountId := ⟨sha256 (publicKeyPreimage key)⟩

/-- `NullifierPublicKey::from(&NullifierSecretKey)`. -/
def NullifierPublicKey.ofSecretKey (nsk : NullifierSecretKey) : NullifierPublicKey :=
  ⟨sha256 (nullifierKeyPreimage nsk)⟩

end

/-! ## Layouts determine their fields -/

theorem publicPdaPreimage_length (p : ProgramId) (s : PdaSeed) :
    (publicPdaPreimage p s).length = 96 := by
  simp only [publicPdaPreimage, List.length_append, ProgramId.toBytes_length,
    Bytes32.toList_length]
  rfl

theorem privatePdaPreimage_length (p : ProgramId) (s : PdaSeed) (npk : NullifierPublicKey)
    (i : Identifier) : (privatePdaPreimage p s npk i).length = 144 := by
  simp only [privatePdaPreimage, List.length_append, ProgramId.toBytes_length,
    Bytes32.toList_length, U128.toLeBytes_length]
  rfl

theorem regularPrivateAccountPreimage_length (npk : NullifierPublicKey) (i : Identifier) :
    (regularPrivateAccountPreimage npk i).length = 80 := by
  simp only [regularPrivateAccountPreimage, List.length_append, Bytes32.toList_length,
    U128.toLeBytes_length]
  rfl

theorem publicKeyPreimage_length (k : PublicKey) : (publicKeyPreimage k).length = 64 := by
  simp only [publicKeyPreimage, List.length_append, Bytes32.toList_length]
  rfl

theorem PdaSeed.value_inj {s t : PdaSeed} (h : s.value = t.value) : s = t := by
  cases s; cases t; cases h; rfl

theorem NullifierPublicKey.value_inj {k l : NullifierPublicKey} (h : k.value = l.value) :
    k = l := by
  cases k; cases l; cases h; rfl

theorem publicPdaPreimage_inj {p q : ProgramId} {s t : PdaSeed}
    (h : publicPdaPreimage p s = publicPdaPreimage q t) : p = q ∧ s = t := by
  obtain ⟨_, h⟩ := List.append_inj h rfl
  obtain ⟨hp, hs⟩ := List.append_inj h (by simp)
  exact ⟨ProgramId.toBytes_inj hp, PdaSeed.value_inj (Bytes32.toList_inj hs)⟩

theorem privatePdaPreimage_inj {p q : ProgramId} {s t : PdaSeed} {k l : NullifierPublicKey}
    {i j : Identifier} (h : privatePdaPreimage p s k i = privatePdaPreimage q t l j) :
    p = q ∧ s = t ∧ k = l ∧ i = j := by
  obtain ⟨_, h⟩ := List.append_inj h rfl
  obtain ⟨hp, h⟩ := List.append_inj h (by simp)
  obtain ⟨hs, h⟩ := List.append_inj h (by simp)
  obtain ⟨hk, hi⟩ := List.append_inj h (by simp)
  exact ⟨ProgramId.toBytes_inj hp, PdaSeed.value_inj (Bytes32.toList_inj hs),
    NullifierPublicKey.value_inj (Bytes32.toList_inj hk), U128.toLeBytes_inj hi⟩

theorem regularPrivateAccountPreimage_inj {k l : NullifierPublicKey} {i j : Identifier}
    (h : regularPrivateAccountPreimage k i = regularPrivateAccountPreimage l j) :
    k = l ∧ i = j := by
  obtain ⟨_, h⟩ := List.append_inj h rfl
  obtain ⟨hk, hi⟩ := List.append_inj h (by simp)
  exact ⟨NullifierPublicKey.value_inj (Bytes32.toList_inj hk), U128.toLeBytes_inj hi⟩

theorem nullifierKeyPreimage_inj {a b : NullifierSecretKey}
    (h : nullifierKeyPreimage a = nullifierKeyPreimage b) : a = b := by
  obtain ⟨_, h⟩ := List.append_inj h rfl
  exact Bytes32.toList_inj (List.append_inj h (by simp)).1

/-! ## Commitments -/

/-- A commitment to a private account. -/
structure Commitment where
  /-- The bytes. -/
  value : Bytes32
deriving DecidableEq

/-- A nullifier. -/
structure Nullifier where
  /-- The bytes. -/
  value : Bytes32
deriving DecidableEq

/-- `CommitmentSetDigest = [u8; 32]`. -/
abbrev CommitmentSetDigest := Bytes32

/-- `MembershipProof = (usize, Vec<[u8; 32]>)`: a leaf index and its authentication path. -/
abbrev MembershipProof := Nat × List Bytes32

/-- `COMMITMENT_PREFIX`. -/
def commitmentPrefix : Bytes :=
  asciiBytes "/LEE/v0.3/Commitment/\x00\x00\x00\x00\x00\x00\x00\x00\x00\x00\x00"

/-- `UPDATE_PREFIX`. -/
def updatePrefix : Bytes := asciiBytes "/LEE/v0.3/Nullifier/Update/\x00\x00\x00\x00\x00"

/-- `INIT_PREFIX`. -/
def initPrefix : Bytes := asciiBytes "/LEE/v0.3/Nullifier/Initialize/\x00"

/-- What is hashed for the nullifier of an update. -/
def updateNullifierPreimage (commitment : Commitment) (nsk : NullifierSecretKey) : Bytes :=
  updatePrefix ++ (commitment.value.toList ++ nsk.toList)

/-- What is hashed for the nullifier of an initialisation. -/
def initNullifierPreimage (accountId : AccountId) : Bytes :=
  initPrefix ++ accountId.value.toList

/-- What is hashed for a leaf of the commitment tree. -/
def leafPreimage (value : Bytes32) : Bytes := value.toList

/-- What is hashed for an inner node of the commitment tree. -/
def nodePreimage (left right : Bytes32) : Bytes := left.toList ++ right.toList

section

variable [Sha256]

/-- What is hashed for a commitment; the account data enters hashed. -/
def commitmentPreimage (accountId : AccountId) (account : Account) : Bytes :=
  commitmentPrefix ++ (accountId.value.toList ++ (account.programOwner.toBytes ++
    (account.balance.toLeBytes ++ (account.nonce.val.toLeBytes ++
      (sha256 account.data.bytes).toList))))

/-- `Commitment::new`. -/
def Commitment.new (accountId : AccountId) (account : Account) : Commitment :=
  ⟨sha256 (commitmentPreimage accountId account)⟩

/-- `DUMMY_COMMITMENT`, the commitment to all-zero data under the all-zero id. -/
def dummyCommitment : Commitment := Commitment.new ⟨Bytes32.zero⟩ Account.default

/-- `DUMMY_COMMITMENT_HASH`. -/
def dummyCommitmentHash : Bytes32 := sha256 (leafPreimage dummyCommitment.value)

/-- `Nullifier::for_account_update`. -/
def Nullifier.forAccountUpdate (commitment : Commitment) (nsk : NullifierSecretKey) : Nullifier :=
  ⟨sha256 (updateNullifierPreimage commitment nsk)⟩

/-- `Nullifier::for_account_initialization`. -/
def Nullifier.forAccountInitialization (accountId : AccountId) : Nullifier :=
  ⟨sha256 (initNullifierPreimage accountId)⟩

/-- `Nonce::private_account_nonce_init`. -/
def Nonce.privateAccountNonceInit (accountId : AccountId) : Nonce :=
  ⟨BitVec.ofNat 128 (leNat
    ((sha256 (accountId.value.toList ++ List.replicate 32 0)).toList.take 16))⟩

/-- `Nonce::private_account_nonce_increment`. -/
def Nonce.privateAccountNonceIncrement (n : Nonce) (nsk : NullifierSecretKey) : Nonce :=
  ⟨BitVec.ofNat 128 (leNat
    ((sha256 (nsk.toList ++ n.val.toLeBytes ++ List.replicate 16 0)).toList.take 16))⟩

/-- Parent of two nodes of the commitment tree. -/
def hashTwo (left right : Bytes32) : Bytes32 := sha256 (nodePreimage left right)

/-- `compute_digest_for_path`: at each level an even index is a left child. -/
def computeDigestForPath (commitment : Commitment) (proof : MembershipProof) :
    CommitmentSetDigest :=
  PerfectTree.climb hashTwo proof.1 (sha256 (leafPreimage commitment.value)) proof.2

end

theorem AccountId.value_inj {a b : AccountId} (h : a.value = b.value) : a = b := by
  cases a; cases b; cases h; rfl

theorem Commitment.value_inj {a b : Commitment} (h : a.value = b.value) : a = b := by
  cases a; cases b; cases h; rfl

theorem updateNullifierPreimage_length (c : Commitment) (nsk : NullifierSecretKey) :
    (updateNullifierPreimage c nsk).length = 96 := by
  simp only [updateNullifierPreimage, List.length_append, Bytes32.toList_length]
  rfl

theorem initNullifierPreimage_length (a : AccountId) :
    (initNullifierPreimage a).length = 64 := by
  simp only [initNullifierPreimage, List.length_append, Bytes32.toList_length]
  rfl

theorem leafPreimage_length (v : Bytes32) : (leafPreimage v).length = 32 :=
  Bytes32.toList_length v

theorem nodePreimage_length (l r : Bytes32) : (nodePreimage l r).length = 64 := by
  simp [nodePreimage]

theorem leafPreimage_inj {v w : Bytes32} (h : leafPreimage v = leafPreimage w) : v = w :=
  Bytes32.toList_inj h

theorem nodePreimage_inj {l r l' r' : Bytes32} (h : nodePreimage l r = nodePreimage l' r') :
    l = l' ∧ r = r' := by
  obtain ⟨hl, hr⟩ := List.append_inj h (by simp)
  exact ⟨Bytes32.toList_inj hl, Bytes32.toList_inj hr⟩

theorem updateNullifierPreimage_inj {c d : Commitment} {a b : NullifierSecretKey}
    (h : updateNullifierPreimage c a = updateNullifierPreimage d b) : c = d ∧ a = b := by
  obtain ⟨_, h⟩ := List.append_inj h rfl
  obtain ⟨hc, ha⟩ := List.append_inj h (by simp)
  exact ⟨Commitment.value_inj (Bytes32.toList_inj hc), Bytes32.toList_inj ha⟩

theorem initNullifierPreimage_inj {a b : AccountId}
    (h : initNullifierPreimage a = initNullifierPreimage b) : a = b := by
  obtain ⟨_, h⟩ := List.append_inj h rfl
  exact AccountId.value_inj (Bytes32.toList_inj h)

/-- A commitment preimage determines the id and the account up to the digest of its data. -/
theorem commitmentPreimage_inj [Sha256] {a b : AccountId} {x y : Account}
    (h : commitmentPreimage a x = commitmentPreimage b y) :
    a = b ∧ x.programOwner = y.programOwner ∧ x.balance = y.balance ∧ x.nonce = y.nonce ∧
      sha256 x.data.bytes = sha256 y.data.bytes := by
  obtain ⟨_, h⟩ := List.append_inj h rfl
  obtain ⟨ha, h⟩ := List.append_inj h (by simp)
  obtain ⟨ho, h⟩ := List.append_inj h (by simp)
  obtain ⟨hb, h⟩ := List.append_inj h (by simp)
  obtain ⟨hn, hd⟩ := List.append_inj h (by simp)
  exact ⟨AccountId.value_inj (Bytes32.toList_inj ha), ProgramId.toBytes_inj ho,
    U128.toLeBytes_inj hb, congrArg Nonce.mk (U128.toLeBytes_inj hn), Bytes32.toList_inj hd⟩

/-! ## What collision freeness gives -/

namespace CollisionFree

variable [Sha256] {S : Set Bytes}

theorem ne_of_length (h : CollisionFree S) {x y : Bytes} (hx : x ∈ S) (hy : y ∈ S)
    (hl : x.length ≠ y.length) : sha256 x ≠ sha256 y :=
  fun he => hl (congrArg List.length (h.injOn hx hy he))

theorem forPublicPda_inj (h : CollisionFree S) {p q : ProgramId} {s t : PdaSeed}
    (hp : publicPdaPreimage p s ∈ S) (hq : publicPdaPreimage q t ∈ S)
    (he : AccountId.forPublicPda p s = AccountId.forPublicPda q t) : p = q ∧ s = t :=
  publicPdaPreimage_inj (h.injOn hp hq (congrArg AccountId.value he))

theorem ofPublicKey_ne_forPublicPda (h : CollisionFree S) {k : PublicKey} {p : ProgramId}
    {s : PdaSeed} (hk : publicKeyPreimage k ∈ S) (hp : publicPdaPreimage p s ∈ S) :
    AccountId.ofPublicKey k ≠ AccountId.forPublicPda p s := fun he =>
  h.ne_of_length hk hp (by rw [publicKeyPreimage_length, publicPdaPreimage_length]; decide)
    (congrArg AccountId.value he)

theorem forAccountUpdate_inj (h : CollisionFree S) {c d : Commitment}
    {a b : NullifierSecretKey} (hc : updateNullifierPreimage c a ∈ S)
    (hd : updateNullifierPreimage d b ∈ S)
    (he : Nullifier.forAccountUpdate c a = Nullifier.forAccountUpdate d b) : c = d ∧ a = b :=
  updateNullifierPreimage_inj (h.injOn hc hd (congrArg Nullifier.value he))

theorem forAccountInitialization_inj (h : CollisionFree S) {a b : AccountId}
    (ha : initNullifierPreimage a ∈ S) (hb : initNullifierPreimage b ∈ S)
    (he : Nullifier.forAccountInitialization a = Nullifier.forAccountInitialization b) :
    a = b :=
  initNullifierPreimage_inj (h.injOn ha hb (congrArg Nullifier.value he))

theorem forAccountUpdate_ne_init (h : CollisionFree S) {c : Commitment}
    {nsk : NullifierSecretKey} {a : AccountId} (hc : updateNullifierPreimage c nsk ∈ S)
    (ha : initNullifierPreimage a ∈ S) :
    Nullifier.forAccountUpdate c nsk ≠ Nullifier.forAccountInitialization a := fun he =>
  h.ne_of_length hc ha
    (by rw [updateNullifierPreimage_length, initNullifierPreimage_length]; decide)
    (congrArg Nullifier.value he)

/-- A commitment opens in one way: to one id and, its data being hashed in `S`, to one
account. -/
theorem commitment_new_inj (h : CollisionFree S) {a b : AccountId} {x y : Account}
    (ha : commitmentPreimage a x ∈ S) (hb : commitmentPreimage b y ∈ S)
    (hx : x.data.bytes ∈ S) (hy : y.data.bytes ∈ S)
    (he : Commitment.new a x = Commitment.new b y) : a = b ∧ x = y := by
  obtain ⟨hid, ho, hbal, hn, hd⟩ :=
    commitmentPreimage_inj (h.injOn ha hb (congrArg Commitment.value he))
  refine ⟨hid, ?_⟩
  have hdata : x.data = y.data := Data.ext (h.injOn hx hy hd)
  cases x; cases y
  simp_all

/-- A nullifier public key has one secret key. -/
theorem ofSecretKey_inj (h : CollisionFree S) {a b : NullifierSecretKey}
    (ha : nullifierKeyPreimage a ∈ S) (hb : nullifierKeyPreimage b ∈ S)
    (he : NullifierPublicKey.ofSecretKey a = NullifierPublicKey.ofSecretKey b) : a = b :=
  nullifierKeyPreimage_inj (h.injOn ha hb (congrArg NullifierPublicKey.value he))

end CollisionFree

end ExecutionZone
