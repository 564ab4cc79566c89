import ExecutionZone.State.Persistence
import ExecutionZone.Transaction.Runs

/-!
# Restored states

A state that was read back has the contents of the one that was written, but its maps may be
iterated in another order.  Validation looks entries up and never iterates over the maps of the
state, so a restored state gives every transaction the same diff, or the same error
(`Same.validateOnState_eq`), and the states after it have the same contents again
(`Same.sameResult_executeCheckOnState`).
-/

namespace ExecutionZone

open CallTree

/-! ## Validation -/

namespace V03State.Same

variable {st st' : V03State} (h : st.Same st')

include h

theorem getAccountById_eq : st'.getAccountById = st.getAccountById :=
  funext (h.publicState.get Account.default)

theorem overlay_eq (diff : Accounts) :
    Ledger.overlay Account.default st'.publicState diff =
      Ledger.overlay Account.default st.publicState diff := by
  funext id
  rw [Ledger.overlay, h.publicState.get, Ledger.overlay]

theorem checkNonces_eq (signers : List AccountId) (nonces : List Nonce) :
    checkNonces st' signers nonces = checkNonces st signers nonces := by
  simp only [checkNonces, h.getAccountById_eq]

theorem inputPreStates_eq (signers accountIds : List AccountId) :
    inputPreStates st' signers accountIds = inputPreStates st signers accountIds := by
  simp only [inputPreStates, h.getAccountById_eq]

theorem fromProgramDeploymentTransaction_eq [Zkvm] (tx : ProgramDeploymentTransaction) :
    fromProgramDeploymentTransaction tx st' = fromProgramDeploymentTransaction tx st := by
  simp only [fromProgramDeploymentTransaction, h.programs.mem_iff]

theorem checkCommitmentsAreNew_eq (newCommitments : List Commitment) :
    st'.checkCommitmentsAreNew newCommitments = st.checkCommitmentsAreNew newCommitments := by
  simp only [checkCommitmentsAreNew, h.commitmentSet.commitments.mem_iff]

theorem checkNullifiersAreValid_eq (newNullifiers : List (Nullifier × CommitmentSetDigest)) :
    st'.checkNullifiersAreValid newNullifiers = st.checkNullifiersAreValid newNullifiers := by
  simp only [checkNullifiersAreValid, h.nullifierSet, h.commitmentSet.rootHistory]

variable [Sha256] [Zkvm]

/-- One call: its program and the pre states of its output are looked up. -/
theorem executeCall_eq : executeCall st' = executeCall st := by
  funext blockId timestamp c diff
  have houtput : c.output st' = c.output st := by
    rw [PendingCall.output, h.programs, PendingCall.output]
  have hpre : checkPreState st' diff c = checkPreState st diff c := by
    funext pre
    rw [checkPreState, h.overlay_eq, checkPreState]
  rw [executeCall, houtput, hpre, executeCall]

theorem publicMachine_eq : publicMachine st' = publicMachine st := by
  funext blockId timestamp
  rw [publicMachine, h.executeCall_eq, publicMachine]

variable [Schnorr]

theorem fromPublicTransaction_eq (tx : PublicTransaction) (blockId : BlockId)
    (timestamp : Timestamp) :
    fromPublicTransaction tx st' blockId timestamp =
      fromPublicTransaction tx st blockId timestamp := by
  have hcheck : tx.checkMessage st' = tx.checkMessage st := by
    simp only [PublicTransaction.checkMessage, h.checkNonces_eq]
  have hcall : tx.initialCall st' = tx.initialCall st := by
    simp only [PublicTransaction.initialCall, h.inputPreStates_eq]
  have hclaimed : checkDefaultAccountsClaimed st' = checkDefaultAccountsClaimed st := by
    funext diff
    simp only [checkDefaultAccountsClaimed, h.getAccountById_eq]
  rw [fromPublicTransaction, hcheck, h.publicMachine_eq, hcall, hclaimed, fromPublicTransaction]

/-- The proof has to be valid for the same journal. -/
theorem fromPrivacyPreservingTransaction_eq (tx : PrivacyPreservingTransaction)
    (blockId : BlockId) (timestamp : Timestamp) :
    fromPrivacyPreservingTransaction tx st' blockId timestamp =
      fromPrivacyPreservingTransaction tx st blockId timestamp := by
  have hcheck : tx.checkMessage st' = tx.checkMessage st := by
    funext blockId timestamp
    simp only [PrivacyPreservingTransaction.checkMessage, h.checkNonces_eq]
  have hproof : tx.checkProof st' = tx.checkProof st := by
    simp only [PrivacyPreservingTransaction.checkProof, PrivacyPreservingTransaction.journal,
      h.inputPreStates_eq]
  rw [fromPrivacyPreservingTransaction, hcheck, hproof, h.checkCommitmentsAreNew_eq,
    h.checkNullifiersAreValid_eq, fromPrivacyPreservingTransaction]

theorem stateDiff_eq (tx : NSSATransaction) (blockId : BlockId) (timestamp : Timestamp) :
    tx.stateDiff st' blockId timestamp = tx.stateDiff st blockId timestamp := by
  cases tx with
  | publicTx tx => exact h.fromPublicTransaction_eq tx blockId timestamp
  | privacyPreserving tx => exact h.fromPrivacyPreservingTransaction_eq tx blockId timestamp
  | programDeployment tx =>
      exact congrArg (Except.mapError Fault.err) (h.fromProgramDeploymentTransaction_eq tx)

/-- **Validation.**  The same diff or the same error. -/
theorem validateOnState_eq [BuiltinPrograms] (tx : NSSATransaction) (blockId : BlockId)
    (timestamp : Timestamp) :
    tx.validateOnState st' blockId timestamp = tx.validateOnState st blockId timestamp := by
  have hclock : NSSATransaction.checkClockUntouched st' =
      NSSATransaction.checkClockUntouched st := by
    funext diff
    simp only [NSSATransaction.checkClockUntouched, h.getAccountById_eq]
  rw [NSSATransaction.validateOnState, h.stateDiff_eq, hclock, NSSATransaction.validateOnState]

end V03State.Same

/-! ## Execution -/

theorem sameResult_incrementNonces {m m' : Accounts} (h : Ledger.SameEntries m m')
    (ids : List AccountId) :
    SameResult Ledger.SameEntries (m.incrementNonces ids) (m'.incrementNonces ids) := by
  induction ids generalizing m m' with
  | nil => exact .ok h
  | cons id ids ih =>
      have hget : m'.get id = m.get id := h.get Account.default id
      rw [Accounts.incrementNonces, Accounts.incrementNonces, hget]
      exact .bind_left _ fun nonce => ih (h.insert id _)

variable [Sha256]

theorem CommitmentSet.Same.sameResult_insertCommitments {cs cs' : CommitmentSet}
    (h : cs.Same cs') (commitments : List Commitment) :
    SameResult CommitmentSet.Same (cs.insertCommitments commitments)
      (cs'.insertCommitments commitments) := by
  induction commitments generalizing cs cs' with
  | nil => exact .ok h
  | cons c rest ih =>
      rw [insertCommitments, insertCommitments, h.merkleTree]
      refine .bind_left _ fun p => ih ?_
      exact ⟨rfl, h.commitments.insert c _, h.rootHistory⟩

theorem CommitmentSet.Same.sameResult_extend {cs cs' : CommitmentSet} (h : cs.Same cs')
    (commitments : List Commitment) :
    SameResult CommitmentSet.Same (cs.extend commitments) (cs'.extend commitments) := by
  refine (h.sameResult_insertCommitments commitments).bind fun cs₁ cs₁' h₁ => .ok ?_
  refine ⟨h₁.merkleTree, h₁.commitments, ?_⟩
  have hdigest : cs₁'.digest = cs₁.digest := congrArg MerkleTree.root h₁.merkleTree
  simp only [hdigest, h₁.rootHistory]

namespace V03State.Same

variable {st st' : V03State} (h : st.Same st')

include h

theorem sameResult_applyStateDiff (diff : StateDiff) :
    SameResult V03State.Same (st.applyStateDiff diff) (st'.applyStateDiff diff) := by
  refine (sameResult_incrementNonces (h.publicState.insertAll _) _).bind fun m m' hm => ?_
  refine (h.commitmentSet.sameResult_extend _).bind fun cs cs' hcs => ?_
  have hnullifiers : st'.nullifierSet ∪ diff.newNullifiers.toFinset =
      st.nullifierSet ∪ diff.newNullifiers.toFinset := by
    rw [h.nullifierSet]
  cases diff.program with
  | none => exact .ok ⟨hm, hcs, hnullifiers, h.programs⟩
  | some program => exact .ok ⟨hm, hcs, hnullifiers, h.programs.insert program.id program⟩

variable [Zkvm] [Schnorr]

/-- **Execution.**  The same error, or states with the same contents. -/
theorem sameResult_executeCheckOnState [BuiltinPrograms] (tx : NSSATransaction)
    (blockId : BlockId) (timestamp : Timestamp) :
    SameResult V03State.Same (tx.executeCheckOnState st blockId timestamp)
      (tx.executeCheckOnState st' blockId timestamp) := by
  rw [NSSATransaction.executeCheckOnState, NSSATransaction.executeCheckOnState,
    h.validateOnState_eq]
  exact .bind_left _ fun diff => (h.sameResult_applyStateDiff diff).mapError Fault.panic

theorem sameResult_transition (e : Event) :
    SameResult V03State.Same (st.transition e) (st'.transition e) := by
  rw [V03State.transition_eq, V03State.transition_eq, h.stateDiff_eq]
  exact .bind_left _ fun diff => (h.sameResult_applyStateDiff diff).mapError Fault.panic

end V03State.Same

end ExecutionZone
