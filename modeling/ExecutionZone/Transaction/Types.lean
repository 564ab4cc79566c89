import ExecutionZone.State.Basic

/-!
# Transactions

The three kinds of transactions, their messages and witness sets.  A message is signed
through the hash of its borsh bytes; signature verification is a parameter.
-/

universe u

namespace ExecutionZone

open Encoding

/-! ## Borsh -/

/-- A vector: its length in four bytes, then its elements. -/
def borshVec {α : Type u} (encode : α → Bytes) (l : List α) : Bytes :=
  leBytes 4 l.length ++ l.flatMap encode

def borshOption {α : Type u} (encode : α → Bytes) : Option α → Bytes
  | none => [0]
  | some a => 1 :: encode a

def borshAccount (a : Account) : Bytes :=
  a.programOwner.toBytes ++ a.balance.toLeBytes ++ borshVec (fun b => [b]) a.data.bytes ++
    a.nonce.val.toLeBytes

def borshWindow (w : ValidityWindow UInt64) : Bytes :=
  borshOption (fun v => leBytes 8 v.toNat) w.start ++
    borshOption (fun v => leBytes 8 v.toNat) w.stop

/-! ## Signatures -/

/-- A signature of 64 bytes. -/
structure Signature where
  value : Vector UInt8 64
deriving DecidableEq

/-- Signature verification. -/
class Schnorr where
  /-- `Signature::is_valid_for`: the key and the signature decode, and the signature verifies. -/
  isValidFor : Signature → Bytes32 → PublicKey → Bool

/-- Whether all signatures of a witness set verify for a message hash. -/
def signaturesAreValidFor [Schnorr] (signaturesAndPublicKeys : List (Signature × PublicKey))
    (messageHash : Bytes32) : Bool :=
  signaturesAndPublicKeys.all fun (signature, publicKey) =>
    Schnorr.isValidFor signature messageHash publicKey

/-! ## Public transactions -/

structure PublicMessage where
  programId : ProgramId
  accountIds : List AccountId
  nonces : List Nonce
  instructionData : InstructionData
deriving DecidableEq

structure PublicTransaction where
  message : PublicMessage
  signaturesAndPublicKeys : List (Signature × PublicKey)
deriving DecidableEq

/-! ## Privacy-preserving transactions -/

structure EncryptedAccountData where
  ciphertext : Ciphertext
  epk : Bytes
  viewTag : UInt8
deriving DecidableEq

structure PrivacyPreservingMessage where
  publicAccountIds : List AccountId
  nonces : List Nonce
  publicPostStates : List Account
  encryptedPrivatePostStates : List EncryptedAccountData
  newCommitments : List Commitment
  newNullifiers : List (Nullifier × CommitmentSetDigest)
  blockValidityWindow : ValidityWindow BlockId
  timestampValidityWindow : ValidityWindow Timestamp
deriving DecidableEq

structure PrivacyPreservingTransaction where
  message : PrivacyPreservingMessage
  signaturesAndPublicKeys : List (Signature × PublicKey)
  proof : Bytes
deriving DecidableEq

/-! ## Deployments -/

structure ProgramDeploymentTransaction where
  bytecode : Bytes
deriving DecidableEq

inductive NSSATransaction where
  | publicTx (tx : PublicTransaction)
  | privacyPreserving (tx : PrivacyPreservingTransaction)
  | programDeployment (tx : ProgramDeploymentTransaction)
deriving DecidableEq

section

variable [Sha256]

/-- `Message::hash` of a public message. -/
def PublicMessage.hash (m : PublicMessage) : Bytes32 :=
  sha256 (asciiBytes "/LEE/v0.3/Message/Public/\x00\x00\x00\x00\x00\x00\x00" ++
    m.programId.toBytes ++ borshVec (fun id => id.value.toList) m.accountIds ++
    borshVec (fun n => n.val.toLeBytes) m.nonces ++
    borshVec (fun w => leBytes 4 w.toNat) m.instructionData)

/-- `Message::hash` of a privacy-preserving message. -/
def PrivacyPreservingMessage.hash (m : PrivacyPreservingMessage) : Bytes32 :=
  sha256 (asciiBytes "/LEE/v0.3/Message/Privacy/\x00\x00\x00\x00\x00\x00" ++
    borshVec (fun id => id.value.toList) m.publicAccountIds ++
    borshVec (fun n => n.val.toLeBytes) m.nonces ++
    borshVec borshAccount m.publicPostStates ++
    borshVec (fun e => borshVec (fun b => [b]) e.ciphertext.bytes ++ borshVec (fun b => [b]) e.epk ++
      [e.viewTag]) m.encryptedPrivatePostStates ++
    borshVec (fun c => c.value.toList) m.newCommitments ++
    borshVec (fun n => n.1.value.toList ++ n.2.toList) m.newNullifiers ++
    borshWindow m.blockValidityWindow ++ borshWindow m.timestampValidityWindow)

/-- `signer_account_ids`. -/
def signerAccountIds (signaturesAndPublicKeys : List (Signature × PublicKey)) :
    List AccountId :=
  signaturesAndPublicKeys.map fun p => AccountId.ofPublicKey p.2

def PublicTransaction.signerAccountIds (tx : PublicTransaction) : List AccountId :=
  ExecutionZone.signerAccountIds tx.signaturesAndPublicKeys

def PrivacyPreservingTransaction.signerAccountIds (tx : PrivacyPreservingTransaction) :
    List AccountId :=
  ExecutionZone.signerAccountIds tx.signaturesAndPublicKeys

variable [Schnorr]

/-- `WitnessSet::is_valid_for`. -/
def PublicTransaction.isSigned (tx : PublicTransaction) : Bool :=
  signaturesAreValidFor tx.signaturesAndPublicKeys tx.message.hash

/-- `WitnessSet::signatures_are_valid_for`. -/
def PrivacyPreservingTransaction.isSigned (tx : PrivacyPreservingTransaction) : Bool :=
  signaturesAreValidFor tx.signaturesAndPublicKeys tx.message.hash

end

end ExecutionZone
