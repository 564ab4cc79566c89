import ExecutionZone.Core.Program

/-!
# What enters and leaves the privacy-preserving circuit

`nssa_core::circuit_io`, with the encryption of private post states.  The stream
cipher is a parameter, like the hash function.
-/

namespace ExecutionZone

open Encoding

/-! ## Encryption of private post states -/

/-- The stream cipher. -/
class ChaCha20 where
  /-- `ChaCha20::new(key, [0; 12]).apply_keystream(buffer)`. -/
  applyKeystream : Bytes32 → Bytes → Bytes

/-- A shared secret key. -/
structure SharedSecretKey where
  value : Bytes32
deriving DecidableEq

structure Ciphertext where
  bytes : Bytes
deriving DecidableEq

/-- How the id of a private account is derived. -/
inductive PrivateAccountKind where
  | regular (identifier : Identifier)
  | pda (programId : ProgramId) (seed : PdaSeed) (identifier : Identifier)
deriving DecidableEq

/-- `PrivateAccountKind::HEADER_LEN`. -/
def headerLen : Nat := 81

/-- `to_header_bytes`: the borsh bytes of the kind, padded with zeros to `headerLen`. -/
def PrivateAccountKind.toHeaderBytes : PrivateAccountKind → Bytes
  | .regular identifier => 0 :: identifier.toLeBytes ++ List.replicate 64 0
  | .pda programId seed identifier =>
      1 :: programId.toBytes ++ seed.value.toList ++ identifier.toLeBytes

/-- `Account::to_bytes`. -/
def Account.toBytes (a : Account) : Bytes :=
  a.programOwner.toBytes ++ a.balance.toLeBytes ++ a.nonce.val.toLeBytes ++
    leBytes 4 a.data.bytes.length ++ a.data.bytes

/-- `EncryptionScheme::kdf`. -/
def kdf [Sha256] (sharedSecret : SharedSecretKey) (commitment : Commitment)
    (outputIndex : Nat) : Bytes32 :=
  sha256 (asciiBytes "NSSA/v0.2/KDF-SHA256/" ++ sharedSecret.value.toList ++
    commitment.value.toList ++ leBytes 4 outputIndex)

/-- `EncryptionScheme::encrypt`. -/
def encrypt [Sha256] [ChaCha20] (account : Account) (kind : PrivateAccountKind)
    (sharedSecret : SharedSecretKey) (commitment : Commitment) (outputIndex : Nat) : Ciphertext :=
  ⟨ChaCha20.applyKeystream (kdf sharedSecret commitment outputIndex)
    (kind.toHeaderBytes ++ account.toBytes)⟩

/-! ## Inputs -/

/-- What the prover supplies for one account. -/
inductive InputAccountIdentity where
  | publicAccount
  | privateAuthorizedInit (ssk : SharedSecretKey) (nsk : NullifierSecretKey)
      (identifier : Identifier)
  | privateAuthorizedUpdate (ssk : SharedSecretKey) (nsk : NullifierSecretKey)
      (membershipProof : MembershipProof) (identifier : Identifier)
  | privateUnauthorized (npk : NullifierPublicKey) (ssk : SharedSecretKey)
      (identifier : Identifier)
  | privatePdaInit (npk : NullifierPublicKey) (ssk : SharedSecretKey) (identifier : Identifier)
  | privatePdaUpdate (ssk : SharedSecretKey) (nsk : NullifierSecretKey)
      (membershipProof : MembershipProof) (identifier : Identifier)
deriving DecidableEq

namespace InputAccountIdentity

def isPublic : InputAccountIdentity → Bool
  | .publicAccount => true
  | _ => false

def isPrivatePda : InputAccountIdentity → Bool
  | .privatePdaInit .. | .privatePdaUpdate .. => true
  | _ => false

/-- `npk_if_private_pda`: an update derives the key from the secret key it carries. -/
def npkIfPrivatePda [Sha256] : InputAccountIdentity → Option (NullifierPublicKey × Identifier)
  | .privatePdaInit npk _ identifier => some (npk, identifier)
  | .privatePdaUpdate _ nsk _ identifier =>
      some (NullifierPublicKey.ofSecretKey nsk, identifier)
  | _ => none

end InputAccountIdentity

/-- The input of the circuit, chosen by the prover. -/
structure PrivacyPreservingCircuitInput where
  programOutputs : List ProgramOutput
  /-- One entry per account, in the order in which the outputs list them first. -/
  accountIdentities : List InputAccountIdentity
  programId : ProgramId
deriving DecidableEq

/-- The journal of the circuit. -/
structure PrivacyPreservingCircuitOutput where
  publicPreStates : List AccountWithMetadata
  publicPostStates : List Account
  ciphertexts : List Ciphertext
  newCommitments : List Commitment
  newNullifiers : List (Nullifier × CommitmentSetDigest)
  blockValidityWindow : ValidityWindow BlockId
  timestampValidityWindow : ValidityWindow Timestamp
deriving DecidableEq

/-! ## The zkVM -/

/-- The parts of the zkVM the system calls: computing image ids, executing guests,
verifying program outputs inside the circuit, and verifying receipts of the circuit. -/
class Zkvm where
  /-- Decode a program binary and compute its image id. -/
  imageId : Bytes → Except String ProgramId
  /-- Execute a binary on an input and decode its journal. -/
  execute : Bytes → GuestInput → Except String ProgramOutput
  /-- `env::verify`: whether an output is a proven output of the program. -/
  verifiesOutput : ProgramId → ProgramOutput → Bool
  /-- Decode a receipt; a decoded receipt is given by the journals it verifies for
  under the image id of the circuit. -/
  decodeReceipt : Bytes → Option (PrivacyPreservingCircuitOutput → Bool)

end ExecutionZone
