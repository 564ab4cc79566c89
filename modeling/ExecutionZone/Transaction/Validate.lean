import ExecutionZone.Programs.Sample
import ExecutionZone.Transaction.PrivatePath

/-!
# Validation of user transactions

Deployments, and the entry point of the sequencer: the stateless check followed by
`NSSATransaction::validate_on_state`.  The first result is about panics.  Each indexing
and unwrapping on the way is guarded by a check before it, except one:
`validation_does_not_panic_iff` says that a transaction makes the validation panic exactly
if it is privacy preserving, passes all checks before its proof is looked at, and its proof
bytes do not decode.
-/

namespace ExecutionZone

open CallTree

/-- Why a transaction is malformed. -/
inductive TransactionMalformationError where
  | invalidSignature
deriving DecidableEq

/-- `Program::new`. -/
def Program.new [Zkvm] (bytecode : Bytes) : Except NssaError Program := do
  let id ← (Zkvm.imageId bytecode).mapError .invalidProgramBytecode
  return ⟨id, bytecode⟩

/-- `ValidatedStateDiff::from_program_deployment_transaction`. -/
def fromProgramDeploymentTransaction [Zkvm] (tx : ProgramDeploymentTransaction) (st : V03State) :
    Except NssaError StateDiff := do
  let program ← Program.new tx.bytecode
  ensure (program.id ∉ st.programs) NssaError.programAlreadyExists
  return ⟨[], ∅, [], [], some program⟩

section

variable [Sha256]

/-- `transition_from_program_deployment_transaction`. -/
def V03State.transitionFromProgramDeploymentTransaction [Zkvm] (st : V03State)
    (tx : ProgramDeploymentTransaction) : Validation V03State := do
  let diff ← (fromProgramDeploymentTransaction tx st).mapError .err
  (st.applyStateDiff diff).mapError .panic

namespace NSSATransaction

/-- `transaction_stateless_check`. -/
def transactionStatelessCheck [Schnorr] (tx : NSSATransaction) :
    Except TransactionMalformationError NSSATransaction :=
  match tx with
  | .publicTx t => if t.isSigned then .ok tx else .error .invalidSignature
  | .privacyPreserving t => if t.isSigned then .ok tx else .error .invalidSignature
  | .programDeployment _ => .ok tx

variable [Zkvm] [Schnorr] [BuiltinPrograms]

/-- The faucet program is not invoked directly. -/
def checkRestrictedProgram : NSSATransaction → Except NssaError Unit
  | .publicTx tx => ensure (tx.message.programId ≠ BuiltinPrograms.faucet.id)
      (.invalidInput "Transaction invokes restricted faucet program")
  | _ => .ok ()

/-- The diff of a transaction of any kind. -/
def stateDiff (tx : NSSATransaction) (st : V03State) (blockId : BlockId) (timestamp : Timestamp) :
    Validation StateDiff :=
  match tx with
  | .publicTx tx => fromPublicTransaction tx st blockId timestamp
  | .privacyPreserving tx => fromPrivacyPreservingTransaction tx st blockId timestamp
  | .programDeployment tx => (fromProgramDeploymentTransaction tx st).mapError .err

/-- No clock account is changed. -/
def checkClockUntouched (st : V03State) (diff : StateDiff) : Except NssaError Unit :=
  ensure (∀ id ∈ clockProgramAccountIds,
      ∀ post ∈ diff.publicDiff.lookup id, post = st.getAccountById id)
    (.invalidInput "Transaction modifies system clock accounts")

/-- `validate_on_state`. -/
def validateOnState (tx : NSSATransaction) (st : V03State) (blockId : BlockId)
    (timestamp : Timestamp) : Validation StateDiff := do
  tx.checkRestrictedProgram.mapError .err
  let diff ← tx.stateDiff st blockId timestamp
  (checkClockUntouched st diff).mapError .err
  return diff

/-- `execute_check_on_state`: validate and apply. -/
def executeCheckOnState (tx : NSSATransaction) (st : V03State) (blockId : BlockId)
    (timestamp : Timestamp) : Validation V03State := do
  let diff ← tx.validateOnState st blockId timestamp
  (st.applyStateDiff diff).mapError .panic

end NSSATransaction

/-! ## Panics -/

/-- With as many post states as pre states, no index is out of bounds. -/
theorem noPanic_claimAccounts (programId : ProgramId) {pres : List AccountWithMetadata}
    {posts : List AccountPostState} (hlen : pres.length = posts.length) :
    NoPanic (claimAccounts programId pres posts) := by
  induction pres generalizing posts with
  | nil =>
      cases posts with
      | nil => exact noPanic_ok _
      | cons post posts => simp at hlen
  | cons pre pres ih =>
      cases posts with
      | nil => exact noPanic_ok _
      | cons post posts =>
          refine (noPanic_mapError_err _).bind fun account _ => ?_
          exact (ih (by simpa using hlen)).bind fun rest _ => noPanic_ok _

variable [Zkvm]

theorem noPanic_executeCall (st : V03State) (blockId : BlockId) (timestamp : Timestamp)
    (c : PendingCall) (diff : Accounts) : NoPanic (executeCall st blockId timestamp c diff) := by
  refine (noPanic_mapError_err _).bind fun out _ => ?_
  refine (noPanic_mapError_err _).bind fun _ _ => ?_
  refine (noPanic_mapError_err _).bind fun _ hcheck => ?_
  rw [mapError_eq_ok] at hcheck
  simp only [checkOutput, bind_eq_ok, ensure_eq_ok, mapError_eq_ok, exists_const] at hcheck
  obtain ⟨_, _, _, hvalid, _⟩ := hcheck
  have hlen := (validExecution_of_validateExecution hvalid).length_eq
  exact (noPanic_claimAccounts c.call.programId hlen).bind fun accounts _ => noPanic_ok _

theorem noPanic_fromPublicTransaction [Schnorr] (tx : PublicTransaction) (st : V03State)
    (blockId : BlockId) (timestamp : Timestamp) :
    NoPanic (fromPublicTransaction tx st blockId timestamp) := by
  refine (noPanic_mapError_err _).bind fun _ _ => ?_
  have hrun : NoPanic ((publicMachine st blockId timestamp).run callBudget
      [tx.initialCall st] ∅) := by
    intro msg h
    have hne : Fault.panic msg ≠ Fault.panic msg :=
      Machine.run_error (P := fun e => e ≠ Fault.panic msg) (by intro he; cases he)
        (fun c s e hstep he => noPanic_executeCall st blockId timestamp c s msg (he ▸ hstep)) h
    exact hne rfl
  refine hrun.bind fun diff _ => ?_
  exact (noPanic_mapError_err _).bind fun _ _ => noPanic_ok _

/-- Verifying the proof panics exactly on bytes that do not decode. -/
theorem noPanic_checkProof_iff (tx : PrivacyPreservingTransaction) (st : V03State) :
    NoPanic (tx.checkProof st) ↔ Zkvm.decodeReceipt tx.proof ≠ none := by
  unfold PrivacyPreservingTransaction.checkProof isValidFor
  cases hdec : Zkvm.decodeReceipt tx.proof with
  | none =>
      simp only [ne_eq, not_true_eq_false, iff_false]
      exact fun h => h _ rfl
  | some verifies =>
      simp only [ne_eq, reduceCtorEq, not_false_eq_true, iff_true]
      refine (noPanic_ok _).bind fun valid _ => ?_
      intro msg h
      by_cases hv : valid = true
      · rw [ensure_of _ hv] at h; cases h
      · rw [ensure_of_not _ hv] at h; cases h

theorem noPanic_fromPrivacyPreservingTransaction_iff [Schnorr]
    (tx : PrivacyPreservingTransaction) (st : V03State) (blockId : BlockId)
    (timestamp : Timestamp) :
    NoPanic (fromPrivacyPreservingTransaction tx st blockId timestamp) ↔
      (tx.checkMessage st blockId timestamp = .ok () → Zkvm.decodeReceipt tx.proof ≠ none) := by
  rw [← noPanic_checkProof_iff tx st]
  constructor
  · intro h hcheck msg hpanic
    refine h msg ?_
    unfold fromPrivacyPreservingTransaction
    rw [hcheck]
    exact bind_eq_error.2 (.inr ⟨(), rfl, bind_eq_error.2 (.inl hpanic)⟩)
  · intro h
    refine (noPanic_mapError_err _).bind fun _ hcheck => ?_
    refine (h (mapError_eq_ok.1 hcheck)).bind fun _ _ => ?_
    refine (noPanic_mapError_err _).bind fun _ _ => ?_
    exact (noPanic_mapError_err _).bind fun _ _ => noPanic_ok _

omit [Zkvm] in
/-- The stateless check returns the transaction it is given. -/
theorem eq_of_transactionStatelessCheck [Schnorr] {tx checked : NSSATransaction}
    (h : tx.transactionStatelessCheck = .ok checked) : checked = tx := by
  unfold NSSATransaction.transactionStatelessCheck at h
  split at h
  · split at h
    · exact (Except.ok.inj h).symm
    · cases h
  · split at h
    · exact (Except.ok.inj h).symm
    · cases h
  · exact (Except.ok.inj h).symm

/-- The transaction is a privacy-preserving one that passes all checks on its message and carries
proof bytes that do not decode. -/
def NSSATransaction.Undecodable [Schnorr] (tx : NSSATransaction) (st : V03State)
    (blockId : BlockId) (timestamp : Timestamp) : Prop :=
  ∃ pp, tx = .privacyPreserving pp ∧ pp.checkMessage st blockId timestamp = .ok () ∧
    Zkvm.decodeReceipt pp.proof = none

theorem noPanic_validateOnState_iff [Schnorr] [BuiltinPrograms] (tx : NSSATransaction)
    (st : V03State) (blockId : BlockId) (timestamp : Timestamp) :
    NoPanic (tx.validateOnState st blockId timestamp) ↔ ¬tx.Undecodable st blockId timestamp := by
  constructor
  · rintro h ⟨pp, rfl, hcheck, hdec⟩
    refine absurd hdec ((noPanic_fromPrivacyPreservingTransaction_iff pp st blockId timestamp).1
      (fun msg hpanic => h msg ?_) hcheck)
    exact bind_eq_error.2 (.inr ⟨(), rfl, bind_eq_error.2 (.inl hpanic)⟩)
  · intro h
    have hdiff : NoPanic (tx.stateDiff st blockId timestamp) := by
      cases tx with
      | publicTx tx => exact noPanic_fromPublicTransaction tx st blockId timestamp
      | privacyPreserving pp =>
          refine (noPanic_fromPrivacyPreservingTransaction_iff pp st blockId timestamp).2 ?_
          exact fun hcheck hdec => h ⟨pp, rfl, hcheck, hdec⟩
      | programDeployment tx => exact noPanic_mapError_err _
    refine (noPanic_mapError_err _).bind fun _ _ => hdiff.bind fun diff _ => ?_
    exact (noPanic_mapError_err _).bind fun _ _ => noPanic_ok _

/-- **Panics of the validation.**  The stateless check followed by `validate_on_state`
returns a diff or an error, except on a privacy-preserving transaction that passes the
stateless check and all checks on its message and carries proof bytes that do not decode. -/
theorem validation_does_not_panic_iff [Schnorr] [BuiltinPrograms] (tx : NSSATransaction)
    (st : V03State) (blockId : BlockId) (timestamp : Timestamp) :
    (∀ checked, tx.transactionStatelessCheck = .ok checked →
      NoPanic (checked.validateOnState st blockId timestamp)) ↔
    ¬∃ pp, tx = .privacyPreserving pp ∧ pp.isSigned = true ∧
      pp.checkMessage st blockId timestamp = .ok () ∧ Zkvm.decodeReceipt pp.proof = none := by
  constructor
  · rintro h ⟨pp, rfl, hsigned, hcheck, hdec⟩
    exact (noPanic_validateOnState_iff _ st blockId timestamp).1 (h _ (if_pos hsigned))
      ⟨pp, rfl, hcheck, hdec⟩
  · intro h checked hchecked
    rw [eq_of_transactionStatelessCheck hchecked]
    refine (noPanic_validateOnState_iff tx st blockId timestamp).2 ?_
    rintro ⟨pp, rfl, hcheck, hdec⟩
    simp only [NSSATransaction.transactionStatelessCheck] at hchecked
    split at hchecked
    · rename_i hsigned
      exact h ⟨pp, rfl, hsigned, hcheck, hdec⟩
    · cases hchecked

end

/-- A message with one nullifier and nothing else. -/
def Sample.nullifierMessage : PrivacyPreservingMessage :=
  ⟨[], [], [], [], [], [(⟨Bytes32.zero⟩, Bytes32.zero)], .newUnbounded, .newUnbounded⟩

/-- In the genesis state, an unsigned transaction with one nullifier and an empty proof
passes the stateless check and makes the validation panic. -/
theorem empty_proof_panics :
    let script : Sample.Script := fun _ _ => .error "no such program"
    let _ := Sample.sha256; let _ := Sample.zkvm script; let _ := Sample.schnorr
    let _ := Sample.builtins
    let tx := NSSATransaction.privacyPreserving ⟨Sample.nullifierMessage, [], []⟩
    ∃ st, V03State.newWithGenesisAccounts [] [] 0 = .ok st ∧
      tx.transactionStatelessCheck = .ok tx ∧ ¬NoPanic (tx.validateOnState st 0 0) := by
  intro script _ _ _ _ tx
  have hpanic : ((V03State.newWithGenesisAccounts [] [] 0).mapError Fault.panic >>= fun st =>
      tx.validateOnState st 0 0) =
      .error (.panic "called Result::unwrap() on an Err value") := by decide +kernel
  cases hst : V03State.newWithGenesisAccounts [] [] 0 with
  | error e =>
      have hok : (V03State.newWithGenesisAccounts [] [] 0).isOk = true := by decide +kernel
      rw [hst] at hok
      cases hok
  | ok st =>
      rw [hst] at hpanic
      exact ⟨st, rfl, by decide +kernel, fun h => h _ hpanic⟩

end ExecutionZone
