import ExecutionZone.Circuit.ExecutionState

/-!
# The output of the circuit

`compute_circuit_output`: public accounts are revealed with their values before and after;
a private account gives the nullifier of what it was and the commitment to what it becomes,
with a new nonce, and a ciphertext of it.
-/

namespace ExecutionZone

variable [Sha256]

/-- What a private account contributes besides its post state: the arguments of
`emit_private_output`. -/
structure NoteUpdate where
  nullifier : Nullifier × CommitmentSetDigest
  accountId : AccountId
  kind : PrivateAccountKind
  ssk : SharedSecretKey
  nonce : Nonce
deriving DecidableEq

/-- `compute_update_nullifier_and_set_digest`. -/
def computeUpdateNullifierAndSetDigest (membershipProof : MembershipProof) (preAccount : Account)
    (accountId : AccountId) (nsk : NullifierSecretKey) : Nullifier × CommitmentSetDigest :=
  let commitmentPre := Commitment.new accountId preAccount
  (Nullifier.forAccountUpdate commitmentPre nsk,
    computeDigestForPath commitmentPre membershipProof)

/-- The nullifier of an initialisation, with the digest of the set that holds only the
dummy commitment. -/
def initNullifier (accountId : AccountId) : Nullifier × CommitmentSetDigest :=
  (Nullifier.forAccountInitialization accountId, dummyCommitmentHash)

/-- The checks on one account and what it contributes; nothing if it is public. -/
def noteUpdate (pdaSeedByPosition : Ledger.Map Nat (ProgramId × PdaSeed)) (position : Nat)
    (pre : AccountWithMetadata) : InputAccountIdentity → Except Panic (Option NoteUpdate)
  | .publicAccount => .ok none
  | .privateAuthorizedInit ssk nsk identifier => do
      let npk := NullifierPublicKey.ofSecretKey nsk
      let accountId := AccountId.forRegularPrivateAccount npk identifier
      ensure (accountId = pre.accountId) "AccountId mismatch"
      ensure (pre.isAuthorized = true)
        "Pre-state not authorized for authenticated private account"
      ensure (pre.account = Account.default) "Found new private account with non default values"
      return some ⟨initNullifier accountId, accountId, .regular identifier, ssk,
        pre.account.nonce.privateAccountNonceIncrement nsk⟩
  | .privateAuthorizedUpdate ssk nsk membershipProof identifier => do
      let npk := NullifierPublicKey.ofSecretKey nsk
      let accountId := AccountId.forRegularPrivateAccount npk identifier
      ensure (accountId = pre.accountId) "AccountId mismatch"
      ensure (pre.isAuthorized = true)
        "Pre-state not authorized for authenticated private account"
      return some ⟨computeUpdateNullifierAndSetDigest membershipProof pre.account accountId nsk,
        accountId, .regular identifier, ssk, pre.account.nonce.privateAccountNonceIncrement nsk⟩
  | .privateUnauthorized npk ssk identifier => do
      let accountId := AccountId.forRegularPrivateAccount npk identifier
      ensure (accountId = pre.accountId) "AccountId mismatch"
      ensure (pre.account = Account.default) "Found new private account with non default values"
      ensure (pre.isAuthorized = false) "Found new private account marked as authorized."
      return some ⟨initNullifier accountId, accountId, .regular identifier, ssk,
        .privateAccountNonceInit accountId⟩
  | .privatePdaInit _ ssk identifier => do
      ensure (pre.isAuthorized = false) "PrivatePdaInit requires unauthorized pre_state"
      ensure (pre.account = Account.default) "New private PDA must be default"
      let (programId, seed) ← expect (pdaSeedByPosition.lookup position)
        "PrivatePdaInit position must be in pda_seed_by_position"
      return some ⟨initNullifier pre.accountId, pre.accountId, .pda programId seed identifier, ssk,
        .privateAccountNonceInit pre.accountId⟩
  | .privatePdaUpdate ssk nsk membershipProof identifier => do
      ensure (pre.isAuthorized = true) "PrivatePdaUpdate requires authorized pre_state"
      let (programId, seed) ← expect (pdaSeedByPosition.lookup position)
        "PrivatePdaUpdate position must be in pda_seed_by_position"
      return some ⟨computeUpdateNullifierAndSetDigest membershipProof pre.account pre.accountId nsk,
        pre.accountId, .pda programId seed identifier, ssk,
        pre.account.nonce.privateAccountNonceIncrement nsk⟩

/-- The account a note update commits to. -/
def NoteUpdate.newAccount (u : NoteUpdate) (post : Account) : Account := post.withNonce u.nonce

variable [ChaCha20]

/-- `emit_private_output`; the second component is the output index. -/
def emitPrivateOutput (acc : PrivacyPreservingCircuitOutput × Nat) (post : Account)
    (u : NoteUpdate) : Except Panic (PrivacyPreservingCircuitOutput × Nat) := do
  let (output, outputIndex) := acc
  let postWithUpdatedNonce := u.newAccount post
  let commitmentPost := Commitment.new u.accountId postWithUpdatedNonce
  let ciphertext := encrypt postWithUpdatedNonce u.kind u.ssk commitmentPost outputIndex
  ensure (outputIndex + 1 < 2 ^ 32) "Too many private accounts, output index overflow"
  return ({ output with
    newNullifiers := output.newNullifiers ++ [u.nullifier]
    newCommitments := output.newCommitments ++ [commitmentPost]
    ciphertexts := output.ciphertexts ++ [ciphertext] }, outputIndex + 1)

/-- One turn of the loop over the accounts. -/
def emitAccount (acc : PrivacyPreservingCircuitOutput × Nat) (pre : AccountWithMetadata)
    (post : Account) : Option NoteUpdate → Except Panic (PrivacyPreservingCircuitOutput × Nat)
  | none => .ok ({ acc.1 with
      publicPreStates := acc.1.publicPreStates ++ [pre]
      publicPostStates := acc.1.publicPostStates ++ [post] }, acc.2)
  | some u => emitPrivateOutput acc post u

/-- The loop over the accounts, from a position on. -/
def emitAccounts (pdaSeedByPosition : Ledger.Map Nat (ProgramId × PdaSeed)) :
    Nat → List (InputAccountIdentity × AccountWithMetadata × Account) →
      PrivacyPreservingCircuitOutput × Nat → Except Panic (PrivacyPreservingCircuitOutput × Nat)
  | _, [], acc => .ok acc
  | position, (identity, pre, post) :: rest, acc => do
      let update ← noteUpdate pdaSeedByPosition position pre identity
      let acc ← emitAccount acc pre post update
      emitAccounts pdaSeedByPosition (position + 1) rest acc

/-- The pre and post state of each account involved. -/
def ExecutionState.states (es : ExecutionState) :
    Except Panic (List (AccountWithMetadata × Account)) :=
  es.preStates.mapM fun pre => do
    let post ← expect (es.postStates.lookup pre.accountId)
      "Account from pre states should exist in state diff"
    return (pre, post)

/-- `compute_circuit_output`. -/
def computeCircuitOutput (es : ExecutionState) (accountIdentities : List InputAccountIdentity) :
    Except Panic PrivacyPreservingCircuitOutput := do
  ensure (accountIdentities.length = es.preStates.length) "Invalid account_identities length"
  let states ← es.states
  let (output, _) ← emitAccounts es.privatePdaBoundPositions 0 (accountIdentities.zip states)
    (⟨[], [], [], [], [], es.blockValidityWindow, es.timestampValidityWindow⟩, 0)
  return output

/-- The circuit. -/
def circuit [Zkvm] (input : PrivacyPreservingCircuitInput) :
    Except Panic PrivacyPreservingCircuitOutput := do
  let es ← deriveFromOutputs input.accountIdentities input.programId input.programOutputs
  computeCircuitOutput es input.accountIdentities

end ExecutionZone
