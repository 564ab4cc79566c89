import ExecutionZone.Circuit.Output
import ExecutionZone.Transaction.PublicPath

/-!
# Privacy-preserving execution

`ValidatedStateDiff::from_privacy_preserving_transaction`: the effects of the transaction
are in its message, and a proof that the circuit accepted some input with exactly this
journal stands in for execution.  The public accounts of the journal are compared with the
state by putting their current values into the journal the proof is verified against.
-/

namespace ExecutionZone

/-- `Proof::is_valid_for`: decoding the receipt is unwrapped. -/
def isValidFor [Zkvm] (proof : Bytes) (output : PrivacyPreservingCircuitOutput) :
    Validation Bool :=
  match Zkvm.decodeReceipt proof with
  | none => .error (.panic "called Result::unwrap() on an Err value")
  | some verifies => .ok (verifies output)

variable [Sha256]

/-- The journal the proof of a transaction has to be valid for. -/
def PrivacyPreservingTransaction.journal (tx : PrivacyPreservingTransaction) (st : V03State) :
    PrivacyPreservingCircuitOutput :=
  ⟨inputPreStates st tx.signerAccountIds tx.message.publicAccountIds, tx.message.publicPostStates,
    tx.message.encryptedPrivatePostStates.map (·.ciphertext), tx.message.newCommitments,
    tx.message.newNullifiers, tx.message.blockValidityWindow,
    tx.message.timestampValidityWindow⟩

/-- The checks before the proof is verified. -/
def PrivacyPreservingTransaction.checkMessage [Schnorr] (tx : PrivacyPreservingTransaction)
    (st : V03State) (blockId : BlockId) (timestamp : Timestamp) : Except NssaError Unit := do
  ensure (tx.message.newCommitments ≠ [] ∨ tx.message.newNullifiers ≠ [])
    (.invalidInput "Empty commitments and empty nullifiers found in message")
  ensure (tx.message.publicAccountIds.toFinset.card = tx.message.publicAccountIds.length)
    (.invalidInput "Duplicate account_ids found in message")
  -- the pairs of nullifier and digest are distinct, not the nullifiers
  ensure (tx.message.newNullifiers.toFinset.card = tx.message.newNullifiers.length)
    (.invalidInput "Duplicate nullifiers found in message")
  ensure (tx.message.newCommitments.toFinset.card = tx.message.newCommitments.length)
    (.invalidInput "Duplicate commitments found in message")
  ensure (tx.message.nonces.length = tx.signaturesAndPublicKeys.length)
    (.invalidInput "Mismatch between number of nonces and signatures/public keys")
  ensure (tx.isSigned = true)
    (.invalidInput "Invalid signature for given message and public key")
  checkNonces st tx.signerAccountIds tx.message.nonces
  ensure (tx.message.blockValidityWindow.isValidFor blockId ∧
      tx.message.timestampValidityWindow.isValidFor timestamp) .outOfValidityWindow

/-- `check_privacy_preserving_circuit_proof_is_valid`. -/
def PrivacyPreservingTransaction.checkProof [Zkvm] (tx : PrivacyPreservingTransaction)
    (st : V03State) : Validation Unit := do
  let valid ← isValidFor tx.proof (tx.journal st)
  ensure (valid = true) (.err .invalidPrivacyPreservingProof)

/-- The diff of an accepted transaction. -/
def PrivacyPreservingTransaction.diff (tx : PrivacyPreservingTransaction) : StateDiff :=
  ⟨tx.signerAccountIds,
    Ledger.insertAll ∅ (tx.message.publicAccountIds.zip tx.message.publicPostStates),
    tx.message.newCommitments, tx.message.newNullifiers.map Prod.fst, none⟩

/-- `ValidatedStateDiff::from_privacy_preserving_transaction`. -/
def fromPrivacyPreservingTransaction [Zkvm] [Schnorr] (tx : PrivacyPreservingTransaction)
    (st : V03State) (blockId : BlockId) (timestamp : Timestamp) : Validation StateDiff := do
  (tx.checkMessage st blockId timestamp).mapError .err
  tx.checkProof st
  (st.checkCommitmentsAreNew tx.message.newCommitments).mapError .err
  (st.checkNullifiersAreValid tx.message.newNullifiers).mapError .err
  return tx.diff

/-- `transition_from_privacy_preserving_transaction`. -/
def V03State.transitionFromPrivacyPreservingTransaction [Zkvm] [Schnorr] (st : V03State)
    (tx : PrivacyPreservingTransaction) (blockId : BlockId) (timestamp : Timestamp) :
    Validation V03State := do
  let diff ← fromPrivacyPreservingTransaction tx st blockId timestamp
  (st.applyStateDiff diff).mapError .panic

end ExecutionZone
