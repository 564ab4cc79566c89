import ExecutionZone.Lib.WireFormat
import ExecutionZone.Node.Block
import ExecutionZone.State.Persistence

/-!
# Transactions and blocks on the wire

Transactions arrive, and blocks are published and stored, as their borsh bytes.  Reading is
derived field by field, with two exceptions: account data is refused above its maximal length,
and a public key has to be the x-coordinate of a point of the curve.

`block_wire_format` says that a block is read exactly from its own bytes, and that the blocks
which are read are those whose lists have lengths that fit into four bytes and whose keys are valid.
-/

namespace ExecutionZone

open Encoding

/-- The curve of the signatures. -/
class VerifyingKeys where
  /-- `VerifyingKey::from_bytes` succeeds. -/
  fromBytes : Bytes32 → Bool

/-! ## Parts of transactions -/

def UInt32.codec : Codec UInt32 :=
  (Codec.word 4).map
    ⟨UInt32.ofBitVec, UInt32.toBitVec, UInt32.toBitVec_ofBitVec, UInt32.ofBitVec_toBitVec⟩

def UInt64.codec : Codec UInt64 :=
  (Codec.word 8).map
    ⟨UInt64.ofBitVec, UInt64.toBitVec, UInt64.toBitVec_ofBitVec, UInt64.ofBitVec_toBitVec⟩

def Nonce.codec : Codec Nonce :=
  U128.codec.map ⟨Nonce.mk, Nonce.val, fun _ => rfl, fun _ => rfl⟩

def Signature.codec : Codec Signature :=
  (Codec.array 64).map ⟨Signature.mk, Signature.value, fun _ => rfl, fun _ => rfl⟩

/-- `ValidityWindow`: nothing is checked. -/
def ValidityWindow.codec : Codec (ValidityWindow UInt64) :=
  (UInt64.codec.option.pair UInt64.codec.option).map
    ⟨fun p => ⟨p.1, p.2⟩, fun w => (w.start, w.stop), fun _ => rfl, fun _ => rfl⟩

/-- `Vec<u8>`. -/
def bytesWire : WireFormat Bytes := UInt8.codec.toWire.vec

theorem UInt8.codec_write : UInt8.codec.write = fun b => [b] := by
  funext b
  change [_] = [b]
  simp

theorem bytesWire_write (bytes : Bytes) :
    bytesWire.write bytes = borshVec (fun b => [b]) bytes := by
  rw [borshVec, ← UInt8.codec_write]
  rfl

theorem ValidityWindow.codec_write : ValidityWindow.codec.write = borshWindow := by
  funext w
  obtain ⟨_ | start, _ | stop⟩ := w <;> rfl

theorem Account.borshCodec_write : Account.borshCodec.write = borshAccount := by
  funext a
  have hdata : borshVec (fun b => [b]) a.data.bytes = Data.codec.write a.data := by
    rw [borshVec, List.flatMap_singleton']
    rfl
  rw [borshAccount, hdata, List.append_assoc, List.append_assoc]
  rfl

section

variable [VerifyingKeys]

/-- `try_new`, as a test. -/
def PublicKey.IsValid (key : PublicKey) : Prop := VerifyingKeys.fromBytes key.value = true

/-- `PublicKey`: read with `try_new`. -/
def PublicKey.wire : WireFormat PublicKey :=
  ((Codec.array 32).map ⟨PublicKey.mk, PublicKey.value, fun _ => rfl, fun _ => rfl⟩).toWire.guarded
    fun key => VerifyingKeys.fromBytes key.value

def signaturesWire : WireFormat (List (Signature × PublicKey)) :=
  (Signature.codec.toWire.pair PublicKey.wire).vec

/-- The signatures are counted by four bytes, and the keys are valid. -/
structure SignaturesFit (signaturesAndPublicKeys : List (Signature × PublicKey)) : Prop where
  length_lt : signaturesAndPublicKeys.length < 2 ^ 32
  isValid : ∀ p ∈ signaturesAndPublicKeys, p.2.IsValid

instance (l : List (Signature × PublicKey)) : Decidable (SignaturesFit l) :=
  decidable_of_iff (l.length < 2 ^ 32 ∧ ∀ p ∈ l, VerifyingKeys.fromBytes p.2.value = true)
    ⟨fun h => ⟨h.1, h.2⟩, fun h => ⟨h.1, h.2⟩⟩

theorem signaturesWire_fits {l : List (Signature × PublicKey)} :
    signaturesWire.Fits l ↔ SignaturesFit l := by
  simp only [signaturesWire, PublicKey.wire, WireFormat.fits_vec, WireFormat.fits_pair,
    WireFormat.fits_guarded, WireFormat.fits_toWire, true_and]
  exact ⟨fun h => ⟨h.1, h.2⟩, fun h => ⟨h.1, h.2⟩⟩

/-! ## Transactions -/

namespace PublicTransaction

/-- The lists of the transaction are counted by four bytes, and its keys are valid. -/
structure Fits (tx : PublicTransaction) : Prop where
  accountIds : tx.message.accountIds.length < 2 ^ 32
  nonces : tx.message.nonces.length < 2 ^ 32
  instructionData : tx.message.instructionData.length < 2 ^ 32
  signatures : SignaturesFit tx.signaturesAndPublicKeys

instance (tx : PublicTransaction) : Decidable tx.Fits :=
  decidable_of_iff (tx.message.accountIds.length < 2 ^ 32 ∧ tx.message.nonces.length < 2 ^ 32 ∧
    tx.message.instructionData.length < 2 ^ 32 ∧ SignaturesFit tx.signaturesAndPublicKeys)
    ⟨fun h => ⟨h.1, h.2.1, h.2.2.1, h.2.2.2⟩, fun h => ⟨h.1, h.2, h.3, h.4⟩⟩

def wire : WireFormat PublicTransaction :=
  (ProgramId.codec.toWire.pair (AccountId.codec.toWire.vec.pair (Nonce.codec.toWire.vec.pair
    (UInt32.codec.toWire.vec.pair signaturesWire)))).map
    { toFun := fun p => ⟨⟨p.1, p.2.1, p.2.2.1, p.2.2.2.1⟩, p.2.2.2.2⟩
      invFun := fun tx => (tx.message.programId, tx.message.accountIds, tx.message.nonces,
        tx.message.instructionData, tx.signaturesAndPublicKeys)
      left_inv := fun _ => rfl
      right_inv := fun _ => rfl }

theorem wire_write : wire.write = toBytes := by
  funext tx
  simp only [toBytes, List.append_assoc]
  rfl

theorem wire_fits {tx : PublicTransaction} : wire.Fits tx ↔ tx.Fits := by
  simp only [wire, WireFormat.fits_map, WireFormat.fits_pair, WireFormat.fits_vec,
    WireFormat.fits_toWire, signaturesWire_fits, true_and, and_true, implies_true]
  exact ⟨fun h => ⟨h.1, h.2.1, h.2.2.1, h.2.2.2⟩, fun h => ⟨h.1, h.2, h.3, h.4⟩⟩

end PublicTransaction

def EncryptedAccountData.wire : WireFormat EncryptedAccountData :=
  (bytesWire.pair (bytesWire.pair UInt8.codec.toWire)).map
    { toFun := fun p => ⟨⟨p.1⟩, p.2.1, p.2.2⟩
      invFun := fun e => (e.ciphertext.bytes, e.epk, e.viewTag)
      left_inv := fun _ => rfl
      right_inv := fun _ => rfl }

omit [VerifyingKeys] in
theorem EncryptedAccountData.wire_write : EncryptedAccountData.wire.write = fun e =>
    borshVec (fun b => [b]) e.ciphertext.bytes ++ borshVec (fun b => [b]) e.epk ++ [e.viewTag] := by
  funext e
  rw [← bytesWire_write, ← bytesWire_write, List.append_assoc,
    show [e.viewTag] = UInt8.codec.write e.viewTag from (congrFun UInt8.codec_write _).symm]
  rfl

/-- A commitment root. -/
def commitmentSetDigestCodec : Codec CommitmentSetDigest := Codec.array 32

namespace PrivacyPreservingTransaction

/-- The lists of the transaction are counted by four bytes, and its keys are valid. -/
structure Fits (tx : PrivacyPreservingTransaction) : Prop where
  publicAccountIds : tx.message.publicAccountIds.length < 2 ^ 32
  nonces : tx.message.nonces.length < 2 ^ 32
  publicPostStates : tx.message.publicPostStates.length < 2 ^ 32
  encryptedPrivatePostStates : tx.message.encryptedPrivatePostStates.length < 2 ^ 32
  ciphertexts : ∀ e ∈ tx.message.encryptedPrivatePostStates,
    e.ciphertext.bytes.length < 2 ^ 32 ∧ e.epk.length < 2 ^ 32
  newCommitments : tx.message.newCommitments.length < 2 ^ 32
  newNullifiers : tx.message.newNullifiers.length < 2 ^ 32
  signatures : SignaturesFit tx.signaturesAndPublicKeys
  proof : tx.proof.length < 2 ^ 32

theorem fits_iff {tx : PrivacyPreservingTransaction} : tx.Fits ↔
    tx.message.publicAccountIds.length < 2 ^ 32 ∧ tx.message.nonces.length < 2 ^ 32 ∧
    tx.message.publicPostStates.length < 2 ^ 32 ∧
    (tx.message.encryptedPrivatePostStates.length < 2 ^ 32 ∧
      ∀ e ∈ tx.message.encryptedPrivatePostStates,
        e.ciphertext.bytes.length < 2 ^ 32 ∧ e.epk.length < 2 ^ 32) ∧
    tx.message.newCommitments.length < 2 ^ 32 ∧ tx.message.newNullifiers.length < 2 ^ 32 ∧
    SignaturesFit tx.signaturesAndPublicKeys ∧ tx.proof.length < 2 ^ 32 := by
  constructor
  · rintro ⟨h₁, h₂, h₃, h₄, h₅, h₆, h₇, h₈, h₉⟩
    exact ⟨h₁, h₂, h₃, ⟨h₄, h₅⟩, h₆, h₇, h₈, h₉⟩
  · rintro ⟨h₁, h₂, h₃, ⟨h₄, h₅⟩, h₆, h₇, h₈, h₉⟩
    exact ⟨h₁, h₂, h₃, h₄, h₅, h₆, h₇, h₈, h₉⟩

instance (tx : PrivacyPreservingTransaction) : Decidable tx.Fits := decidable_of_iff _ fits_iff.symm

def wire : WireFormat PrivacyPreservingTransaction :=
  (AccountId.codec.toWire.vec.pair (Nonce.codec.toWire.vec.pair
    (Account.borshCodec.toWire.vec.pair (EncryptedAccountData.wire.vec.pair
    (Commitment.codec.toWire.vec.pair
    ((Nullifier.codec.pair commitmentSetDigestCodec).toWire.vec.pair
    (ValidityWindow.codec.toWire.pair (ValidityWindow.codec.toWire.pair
    (signaturesWire.pair bytesWire))))))))).map
    { toFun := fun p => ⟨⟨p.1, p.2.1, p.2.2.1, p.2.2.2.1, p.2.2.2.2.1, p.2.2.2.2.2.1,
        p.2.2.2.2.2.2.1, p.2.2.2.2.2.2.2.1⟩, p.2.2.2.2.2.2.2.2.1, p.2.2.2.2.2.2.2.2.2⟩
      invFun := fun tx => (tx.message.publicAccountIds, tx.message.nonces,
        tx.message.publicPostStates, tx.message.encryptedPrivatePostStates,
        tx.message.newCommitments, tx.message.newNullifiers, tx.message.blockValidityWindow,
        tx.message.timestampValidityWindow, tx.signaturesAndPublicKeys, tx.proof)
      left_inv := fun _ => rfl
      right_inv := fun _ => rfl }

theorem wire_write : wire.write = toBytes := by
  funext tx
  rw [toBytes, ← bytesWire_write tx.proof, ← EncryptedAccountData.wire_write,
    ← Account.borshCodec_write, ← ValidityWindow.codec_write]
  simp only [List.append_assoc]
  rfl

theorem wire_fits {tx : PrivacyPreservingTransaction} : wire.Fits tx ↔ tx.Fits := by
  simp only [wire, EncryptedAccountData.wire, bytesWire, WireFormat.fits_map, WireFormat.fits_pair,
    WireFormat.fits_vec, WireFormat.fits_toWire, signaturesWire_fits, true_and, and_true,
    implies_true]
  exact fits_iff.symm

end PrivacyPreservingTransaction

namespace ProgramDeploymentTransaction

omit [VerifyingKeys] in
/-- The bytecode is counted by four bytes. -/
def Fits (tx : ProgramDeploymentTransaction) : Prop := tx.bytecode.length < 2 ^ 32

omit [VerifyingKeys] in
def wire : WireFormat ProgramDeploymentTransaction :=
  bytesWire.map ⟨mk, bytecode, fun _ => rfl, fun _ => rfl⟩

omit [VerifyingKeys] in
theorem wire_write : wire.write = toBytes := by
  funext tx
  exact bytesWire_write tx.bytecode

omit [VerifyingKeys] in
theorem wire_fits {tx : ProgramDeploymentTransaction} : wire.Fits tx ↔ tx.Fits := by
  simp only [wire, bytesWire, WireFormat.fits_map, WireFormat.fits_vec, WireFormat.fits_toWire,
    implies_true, and_true]
  rfl

end ProgramDeploymentTransaction

namespace NSSATransaction

def Fits : NSSATransaction → Prop
  | .publicTx tx => tx.Fits
  | .privacyPreserving tx => tx.Fits
  | .programDeployment tx => tx.Fits

instance : DecidablePred Fits
  | .publicTx tx => inferInstanceAs (Decidable tx.Fits)
  | .privacyPreserving tx => inferInstanceAs (Decidable tx.Fits)
  | .programDeployment _ => inferInstanceAs (Decidable (_ < _))

/-- The kind of the transaction, then the transaction. -/
def wire : WireFormat NSSATransaction :=
  ((PublicTransaction.wire.variant 0).either
    ((PrivacyPreservingTransaction.wire.variant 1).either
      (ProgramDeploymentTransaction.wire.variant 2)
      fun _ _ => WireFormat.variant_read_of_ne (by decide) _ _)
    (by
      rintro (_ | _) rest
      · exact WireFormat.variant_read_of_ne (by decide) _ _
      · exact WireFormat.variant_read_of_ne (by decide) _ _)).map
    { toFun := Sum.elim .publicTx (Sum.elim .privacyPreserving .programDeployment)
      invFun := fun
        | .publicTx tx => .inl tx
        | .privacyPreserving tx => .inr (.inl tx)
        | .programDeployment tx => .inr (.inr tx)
      left_inv := by rintro (_ | _ | _) <;> rfl
      right_inv := by rintro (_ | _ | _) <;> rfl }

theorem wire_write : wire.write = toBytes := by
  funext tx
  cases tx with
  | publicTx tx => exact congrArg (0 :: ·) (congrFun PublicTransaction.wire_write tx)
  | privacyPreserving tx =>
      exact congrArg (1 :: ·) (congrFun PrivacyPreservingTransaction.wire_write tx)
  | programDeployment tx =>
      exact congrArg (2 :: ·) (congrFun ProgramDeploymentTransaction.wire_write tx)

theorem wire_fits {tx : NSSATransaction} : wire.Fits tx ↔ tx.Fits := by
  cases tx with
  | publicTx tx => exact PublicTransaction.wire_fits
  | privacyPreserving tx => exact PrivacyPreservingTransaction.wire_fits
  | programDeployment tx => exact ProgramDeploymentTransaction.wire_fits

end NSSATransaction

/-! ## Blocks -/

/-- The transactions are counted by four bytes, and each of them fits. -/
structure TransactionsFit (transactions : List NSSATransaction) : Prop where
  length_lt : transactions.length < 2 ^ 32
  fits : ∀ tx ∈ transactions, tx.Fits

instance (transactions : List NSSATransaction) : Decidable (TransactionsFit transactions) :=
  decidable_of_iff (transactions.length < 2 ^ 32 ∧ ∀ tx ∈ transactions, tx.Fits)
    ⟨fun h => ⟨h.1, h.2⟩, fun h => ⟨h.1, h.2⟩⟩

theorem transactionsWire_fits {transactions : List NSSATransaction} :
    NSSATransaction.wire.vec.Fits transactions ↔ TransactionsFit transactions := by
  simp only [WireFormat.fits_vec, NSSATransaction.wire_fits]
  exact ⟨fun h => ⟨h.1, h.2⟩, fun h => ⟨h.1, h.2⟩⟩

theorem transactionsWire_write :
    NSSATransaction.wire.vec.write = borshVec NSSATransaction.toBytes := by
  rw [← NSSATransaction.wire_write]
  rfl

def HashableBlockData.wire : WireFormat HashableBlockData :=
  (UInt64.codec.toWire.pair ((Codec.array 32).toWire.pair (UInt64.codec.toWire.pair
    NSSATransaction.wire.vec))).map
    { toFun := fun p => ⟨p.1, p.2.1, p.2.2.1, p.2.2.2⟩
      invFun := fun data => (data.blockId, data.prevBlockHash, data.timestamp, data.transactions)
      left_inv := fun _ => rfl
      right_inv := fun _ => rfl }

theorem HashableBlockData.wire_write :
    HashableBlockData.wire.write = HashableBlockData.toBytes := by
  funext data
  simp only [HashableBlockData.toBytes, ← transactionsWire_write, List.append_assoc]
  rfl

theorem HashableBlockData.wire_fits {data : HashableBlockData} :
    HashableBlockData.wire.Fits data ↔ TransactionsFit data.transactions := by
  simp only [HashableBlockData.wire, WireFormat.fits_map, WireFormat.fits_pair,
    WireFormat.fits_toWire, transactionsWire_fits, true_and]
  rfl

omit [VerifyingKeys] in
def BlockHeader.codec : Codec BlockHeader :=
  (UInt64.codec.pair ((Codec.array 32).pair ((Codec.array 32).pair
    (UInt64.codec.pair Signature.codec)))).map
    { toFun := fun p => ⟨p.1, p.2.1, p.2.2.1, p.2.2.2.1, p.2.2.2.2⟩
      invFun := fun h => (h.blockId, h.prevBlockHash, h.hash, h.timestamp, h.signature)
      left_inv := fun _ => rfl
      right_inv := fun _ => rfl }

omit [VerifyingKeys] in
theorem BlockHeader.codec_write (h : BlockHeader) : BlockHeader.codec.write h =
    leBytes 8 h.blockId.toNat ++ (h.prevBlockHash.toList ++ (h.hash.toList ++
      (leBytes 8 h.timestamp.toNat ++ h.signature.value.toList))) := rfl

omit [VerifyingKeys] in
/-- The byte of a status. -/
def BedrockStatus.tag : BedrockStatus → UInt8
  | .pending => 0
  | .safe => 1
  | .finalized => 2

omit [VerifyingKeys] in
def BedrockStatus.codec : Codec BedrockStatus :=
  ((Codec.empty.variant 0).either ((Codec.empty.variant 1).either (Codec.empty.variant 2)
      fun _ _ => Codec.variant_read_of_ne (by decide) _ _)
    (by
      rintro (_ | _) rest
      · exact Codec.variant_read_of_ne (by decide) _ _
      · exact Codec.variant_read_of_ne (by decide) _ _)).map
    { toFun := Sum.elim (fun _ => .pending) (Sum.elim (fun _ => .safe) fun _ => .finalized)
      invFun := fun
        | .pending => .inl ()
        | .safe => .inr (.inl ())
        | .finalized => .inr (.inr ())
      left_inv := by rintro (_ | _ | _) <;> rfl
      right_inv := by rintro (_ | _ | _) <;> rfl }

omit [VerifyingKeys] in
theorem BedrockStatus.codec_write (status : BedrockStatus) :
    BedrockStatus.codec.write status = [status.tag] := by
  cases status <;> rfl

namespace Block

def wire : WireFormat Block :=
  (BlockHeader.codec.toWire.pair (NSSATransaction.wire.vec.pair
    (BedrockStatus.codec.toWire.pair (Codec.array 32).toWire))).map
    { toFun := fun p => ⟨p.1, p.2.1, p.2.2.1, p.2.2.2⟩
      invFun := fun b => (b.header, b.transactions, b.bedrockStatus, b.bedrockParentId)
      left_inv := fun _ => rfl
      right_inv := fun _ => rfl }

omit [VerifyingKeys] in
/-- `borsh::to_vec`, on a block. -/
def toBytes (b : Block) : Bytes :=
  leBytes 8 b.header.blockId.toNat ++ b.header.prevBlockHash.toList ++ b.header.hash.toList ++
    leBytes 8 b.header.timestamp.toNat ++ b.header.signature.value.toList ++
    borshVec NSSATransaction.toBytes b.transactions ++
    [b.bedrockStatus.tag] ++
    b.bedrockParentId.toList

/-- `borsh::from_slice`, on a block. -/
def fromSlice (bytes : Bytes) : Option Block := wire.decode bytes

theorem wire_write : wire.write = toBytes := by
  funext b
  change BlockHeader.codec.write b.header ++ (NSSATransaction.wire.vec.write b.transactions ++
    (BedrockStatus.codec.write b.bedrockStatus ++ b.bedrockParentId.toList)) = _
  rw [BlockHeader.codec_write, BedrockStatus.codec_write, transactionsWire_write, toBytes]
  simp only [List.append_assoc]

theorem wire_fits {b : Block} : wire.Fits b ↔ TransactionsFit b.transactions := by
  simp only [wire, WireFormat.fits_map, WireFormat.fits_pair, WireFormat.fits_toWire,
    transactionsWire_fits, true_and, and_true]
  rfl

theorem fromSlice_toBytes {b : Block} (h : TransactionsFit b.transactions) :
    fromSlice b.toBytes = some b := by
  rw [← wire_write]
  exact WireFormat.decode_eq_some.2 ⟨wire_fits.2 h, rfl⟩

/-- **The format of blocks.**  A byte string is read as a block if and only if it is the encoding of
this block, in which every list is counted by four bytes and every public key is a point of the
curve. -/
theorem block_wire_format (bytes : Bytes) (b : Block) :
    fromSlice bytes = some b ↔ TransactionsFit b.transactions ∧ bytes = b.toBytes := by
  rw [fromSlice, WireFormat.decode_eq_some, wire_fits, wire_write]

end Block

end

/-- A curve on which every number is the x-coordinate of a point. -/
@[reducible] def Sample.verifyingKeys : VerifyingKeys := ⟨fun _ => true⟩

end ExecutionZone
