import ExecutionZone.Core.CircuitIo
import ExecutionZone.Lib.Borsh

/-!
# Formats of the shared types

The Borsh formats of ids, amounts, accounts and kinds of private accounts.  `Account::to_bytes`
and `PrivateAccountKind::to_header_bytes` write them, the latter with padding, and
`EncryptionScheme::decrypt` reads a header and an account back off a decrypted buffer and
ignores what is left.
-/

namespace ExecutionZone

open Encoding

/-- `AccountId`, as 32 bytes. -/
def AccountId.codec : Codec AccountId :=
  (Codec.array 32).map ⟨AccountId.mk, AccountId.value, fun _ => rfl, fun _ => rfl⟩

/-- `u128`. -/
def U128.codec : Codec U128 := Codec.word 16

@[simp] theorem AccountId.codec_write_length (id : AccountId) :
    (AccountId.codec.write id).length = 32 := Vector.length_toList

@[simp] theorem U128.codec_write_length (x : U128) : (U128.codec.write x).length = 16 :=
  Codec.word_write_length 16 x

theorem AccountId.codec_fixed : AccountId.codec.Fixed 32 := (Codec.array_fixed 32).map _

theorem U128.codec_fixed : U128.codec.Fixed 16 := Codec.word_fixed 16

/-- `ProgramId`, as eight words. -/
def ProgramId.codec : Codec ProgramId :=
  ((Codec.word 4).map ⟨UInt32.ofBitVec, UInt32.toBitVec, fun _ => rfl, fun _ => rfl⟩).vector 8

def PdaSeed.codec : Codec PdaSeed :=
  (Codec.array 32).map ⟨PdaSeed.mk, PdaSeed.value, fun _ => rfl, fun _ => rfl⟩

/-- `Data`, with its length before it. -/
def Data.codec : Codec Data :=
  (Codec.boundedBytes dataMaxLength (by decide)).map
    ⟨fun b => ⟨b.1, b.2⟩, fun d => ⟨d.bytes, d.length_le⟩, fun _ => rfl, fun _ => rfl⟩

/-! ## Accounts -/

/-- What `Account::to_bytes` writes and `Account::from_cursor` reads. -/
def Account.codec : Codec Account :=
  (ProgramId.codec.pair (U128.codec.pair (U128.codec.pair Data.codec))).map
    { toFun := fun p => ⟨p.1, p.2.1, p.2.2.2, ⟨p.2.2.1⟩⟩
      invFun := fun a => (a.programOwner, a.balance, a.nonce.val, a.data)
      left_inv := fun _ => rfl
      right_inv := fun _ => rfl }

theorem Account.toBytes_eq (a : Account) : a.toBytes = Account.codec.write a := by
  simp only [Account.toBytes, List.append_assoc]
  rfl

theorem Account.toBytes_length (a : Account) : a.toBytes.length = 68 + a.data.bytes.length := by
  simp only [Account.toBytes, List.length_append, ProgramId.toBytes_length, U128.toLeBytes,
    leBytes_length]

/-- `Account::from_cursor`. -/
def Account.fromCursor (bytes : Bytes) : Option Account := (Account.codec.read bytes).map Prod.fst

theorem Account.fromCursor_toBytes (a : Account) : Account.fromCursor a.toBytes = some a := by
  have hread := Account.codec.read_write a []
  rw [List.append_nil] at hread
  rw [fromCursor, toBytes_eq, hread]
  rfl

/-! ## Kinds of private accounts -/

namespace PrivateAccountKind

def codec : Codec PrivateAccountKind :=
  ((U128.codec.variant 0).either
    ((ProgramId.codec.pair (PdaSeed.codec.pair U128.codec)).variant 1)
    fun _ _ => Codec.variant_read_of_ne (by decide) _ _).map
    { toFun := Sum.elim .regular fun p => .pda p.1 p.2.1 p.2.2
      invFun := fun
        | .regular identifier => .inl identifier
        | .pda programId seed identifier => .inr (programId, seed, identifier)
      left_inv := by rintro (_ | _) <;> rfl
      right_inv := by rintro (_ | _) <;> rfl }

/-- `from_header_bytes`: what follows the kind is ignored. -/
def fromHeaderBytes (bytes : Bytes) : Option PrivateAccountKind := (codec.read bytes).map Prod.fst

/-- Both kinds have the same length once they are padded. -/
theorem toHeaderBytes_length (kind : PrivateAccountKind) :
    kind.toHeaderBytes.length = headerLen := by
  cases kind with
  | regular identifier => simp [toHeaderBytes, headerLen]
  | pda programId seed identifier => simp [toHeaderBytes, headerLen]

theorem exists_padding (kind : PrivateAccountKind) :
    ∃ padding, kind.toHeaderBytes = codec.write kind ++ padding := by
  cases kind with
  | regular identifier => exact ⟨List.replicate 64 0, rfl⟩
  | pda programId seed identifier =>
      refine ⟨[], ?_⟩
      simp only [toHeaderBytes, List.cons_append, List.append_assoc, List.append_nil]
      rfl

theorem fromHeaderBytes_toHeaderBytes (kind : PrivateAccountKind) :
    fromHeaderBytes kind.toHeaderBytes = some kind := by
  obtain ⟨padding, heq⟩ := kind.exists_padding
  rw [fromHeaderBytes, heq, codec.read_write]
  rfl

end PrivateAccountKind

/-! ## Decryption -/

section

variable [Sha256] [ChaCha20]

/-- `EncryptionScheme::decrypt`. -/
def decrypt (ciphertext : Ciphertext) (sharedSecret : SharedSecretKey) (commitment : Commitment)
    (outputIndex : Nat) : Option (PrivateAccountKind × Account) := do
  let buffer := ChaCha20.applyKeystream (kdf sharedSecret commitment outputIndex) ciphertext.bytes
  if buffer.length < headerLen then none
  else
    let kind ← PrivateAccountKind.fromHeaderBytes (buffer.take headerLen)
    let account ← Account.fromCursor (buffer.drop headerLen)
    return (kind, account)

/-- Applying a key stream twice changes nothing. -/
def LawfulKeystream : Prop :=
  ∀ key bytes, ChaCha20.applyKeystream key (ChaCha20.applyKeystream key bytes) = bytes

/-- Who knows the secret reads what was encrypted. -/
theorem decrypt_encrypt (hlawful : LawfulKeystream) (account : Account)
    (kind : PrivateAccountKind) (sharedSecret : SharedSecretKey) (commitment : Commitment)
    (outputIndex : Nat) :
    decrypt (encrypt account kind sharedSecret commitment outputIndex) sharedSecret commitment
      outputIndex = some (kind, account) := by
  have hlen := kind.toHeaderBytes_length
  have hshort : ¬ (kind.toHeaderBytes ++ account.toBytes).length < headerLen := by
    rw [List.length_append, hlen]
    omega
  simp only [decrypt, encrypt, hlawful _ _, if_neg hshort, List.take_left' hlen,
    List.drop_left' hlen, PrivateAccountKind.fromHeaderBytes_toHeaderBytes,
    Account.fromCursor_toBytes]
  rfl

/-- The cipher adds the bytes of a stream that its key determines. -/
def XorsKeystream : Prop :=
  ∃ keystream : Bytes32 → Nat → UInt8, ∀ key bytes,
    ChaCha20.applyKeystream key bytes = bytes.mapIdx fun i b => b ^^^ keystream key i

omit [Sha256] in
theorem XorsKeystream.lawful (h : XorsKeystream) : LawfulKeystream := by
  obtain ⟨keystream, heq⟩ := h
  intro key bytes
  refine List.ext_getElem? fun i => ?_
  rw [heq, heq, List.getElem?_mapIdx, List.getElem?_mapIdx, Option.map_map]
  have htwice : ((fun b => b ^^^ keystream key i) ∘ fun b => b ^^^ keystream key i) = id := by
    funext b
    simp only [Function.comp_apply, UInt8.xor_assoc, UInt8.xor_self, UInt8.xor_zero, id_eq]
  rw [htwice, Option.map_id_fun, id_eq]

omit [Sha256] in
theorem XorsKeystream.length (h : XorsKeystream) (key : Bytes32) (bytes : Bytes) :
    (ChaCha20.applyKeystream key bytes).length = bytes.length := by
  obtain ⟨keystream, heq⟩ := h
  rw [heq, List.length_mapIdx]

/-- **Note encryption.**  What was encrypted is decrypted, and the length of a ciphertext tells
the length of the data and nothing else. -/
theorem note_encryption_round_trip (h : XorsKeystream) (account : Account)
    (kind : PrivateAccountKind) (sharedSecret : SharedSecretKey) (commitment : Commitment)
    (outputIndex : Nat) :
    decrypt (encrypt account kind sharedSecret commitment outputIndex) sharedSecret commitment
        outputIndex = some (kind, account) ∧
      (encrypt account kind sharedSecret commitment outputIndex).bytes.length =
        headerLen + 68 + account.data.bytes.length := by
  refine ⟨decrypt_encrypt h.lawful account kind sharedSecret commitment outputIndex, ?_⟩
  rw [encrypt, h.length, List.length_append, kind.toHeaderBytes_length, account.toBytes_length]
  omega

end

/-- A cipher that repeats its key is one; here it encrypts the account of a PDA. -/
theorem note_encryption_round_trip_repeatedKey :
    let _ : Sha256 := ⟨fun bytes => Vector.ofFn fun i => bytes.foldl (· + ·) (UInt8.ofNat i)⟩
    let _ : ChaCha20 := ⟨fun key bytes => bytes.mapIdx fun i b => b ^^^ key.toList.getD (i % 32) 0⟩
    let account : Account := ⟨Vector.replicate 8 3, 250, ⟨[1, 2, 3], by decide⟩, ⟨4⟩⟩
    let kind : PrivateAccountKind := .pda (Vector.replicate 8 5) ⟨Vector.replicate 32 6⟩ 7
    let sharedSecret : SharedSecretKey := ⟨Vector.replicate 32 8⟩
    let commitment : Commitment := ⟨Vector.replicate 32 9⟩
    XorsKeystream ∧ kdf sharedSecret commitment 3 ≠ Bytes32.zero ∧
      decrypt (encrypt account kind sharedSecret commitment 3) sharedSecret commitment 3 =
        some (kind, account) ∧
      (encrypt account kind sharedSecret commitment 3).bytes.length = headerLen + 71 := by
  intro _ _ account kind sharedSecret commitment
  have hxors : XorsKeystream := ⟨fun key i => key.toList.getD (i % 32) 0, fun _ _ => rfl⟩
  exact ⟨hxors, by decide +kernel, note_encryption_round_trip hxors account kind sharedSecret
    commitment 3⟩

/-! ## Ids of private accounts -/

/-- What is hashed for a private account. -/
def privateAccountPreimage (npk : NullifierPublicKey) : PrivateAccountKind → Bytes
  | .regular identifier => regularPrivateAccountPreimage npk identifier
  | .pda programId seed identifier => privatePdaPreimage programId seed npk identifier

theorem privateAccountPreimage_inj {npk npk' : NullifierPublicKey} {kind kind' : PrivateAccountKind}
    (h : privateAccountPreimage npk kind = privateAccountPreimage npk' kind') :
    npk = npk' ∧ kind = kind' := by
  have hlen := congrArg List.length h
  cases kind with
  | regular identifier =>
      cases kind' with
      | regular identifier' =>
          obtain ⟨rfl, rfl⟩ := regularPrivateAccountPreimage_inj h
          exact ⟨rfl, rfl⟩
      | pda programId' seed' identifier' =>
          simp only [privateAccountPreimage, regularPrivateAccountPreimage_length,
            privatePdaPreimage_length] at hlen
          omega
  | pda programId seed identifier =>
      cases kind' with
      | regular identifier' =>
          simp only [privateAccountPreimage, regularPrivateAccountPreimage_length,
            privatePdaPreimage_length] at hlen
          omega
      | pda programId' seed' identifier' =>
          obtain ⟨rfl, rfl, rfl, rfl⟩ := privatePdaPreimage_inj h
          exact ⟨rfl, rfl⟩

section

variable [Sha256]

/-- `AccountId::for_private_account`. -/
def AccountId.forPrivateAccount (npk : NullifierPublicKey) : PrivateAccountKind → AccountId
  | .regular identifier => AccountId.forRegularPrivateAccount npk identifier
  | .pda programId seed identifier => AccountId.forPrivatePda programId seed npk identifier

theorem AccountId.forPrivateAccount_eq (npk : NullifierPublicKey) (kind : PrivateAccountKind) :
    AccountId.forPrivateAccount npk kind = ⟨sha256 (privateAccountPreimage npk kind)⟩ := by
  cases kind with
  | regular identifier => rfl
  | pda programId seed identifier => rfl

theorem CollisionFree.forPrivateAccount_inj {S : Set Bytes} (h : CollisionFree S)
    {npk npk' : NullifierPublicKey} {kind kind' : PrivateAccountKind}
    (hk : privateAccountPreimage npk kind ∈ S) (hk' : privateAccountPreimage npk' kind' ∈ S)
    (he : AccountId.forPrivateAccount npk kind = AccountId.forPrivateAccount npk' kind') :
    npk = npk' ∧ kind = kind' := by
  rw [AccountId.forPrivateAccount_eq, AccountId.forPrivateAccount_eq] at he
  exact privateAccountPreimage_inj (h.injOn hk hk' (congrArg AccountId.value he))

end

end ExecutionZone
