import ExecutionZone.Circuit.Entries
import ExecutionZone.Lib.Run
import ExecutionZone.Transaction.Validate

/-!
# Runs of the ledger

The ledger as a transition system: an event is a transaction of any kind with the block and
time it is executed in, and a step is an accepted one.  What accepted transactions of each
kind satisfy is listed once here.
-/

namespace ExecutionZone

structure Event where
  tx : NSSATransaction
  blockId : BlockId
  timestamp : Timestamp
deriving DecidableEq

variable [Sha256] [Zkvm] [Schnorr]

/-- `transition_from_*`, by the kind of the transaction. -/
def V03State.transition (st : V03State) (e : Event) : Validation V03State :=
  match e.tx with
  | .publicTx tx => st.transitionFromPublicTransaction tx e.blockId e.timestamp
  | .privacyPreserving tx =>
      st.transitionFromPrivacyPreservingTransaction tx e.blockId e.timestamp
  | .programDeployment tx => st.transitionFromProgramDeploymentTransaction tx

/-- The transaction is accepted in `st` and leads to `st'`. -/
def Accepted (st : V03State) (e : Event) (st' : V03State) : Prop := st.transition e = .ok st'

/-- Transactions of all kinds are executed alike. -/
theorem V03State.transition_eq (st : V03State) (e : Event) :
    st.transition e = (do
      let diff ← e.tx.stateDiff st e.blockId e.timestamp
      (st.applyStateDiff diff).mapError .panic) := by
  obtain ⟨tx, blockId, timestamp⟩ := e
  cases tx with
  | publicTx tx => rfl
  | privacyPreserving tx => rfl
  | programDeployment tx => rfl

/-- A transaction of any kind is accepted if it has a diff and the diff can be applied. -/
theorem accepted_iff {st st' : V03State} {e : Event} :
    Accepted st e st' ↔ ∃ diff, e.tx.stateDiff st e.blockId e.timestamp = .ok diff ∧
      st.applyStateDiff diff = .ok st' := by
  rw [Accepted, V03State.transition_eq]
  simp only [bind_eq_ok, mapError_eq_ok]

/-- A user transaction that is executed is accepted. -/
theorem accepted_of_executeCheckOnState [BuiltinPrograms] {st st' : V03State}
    {tx : NSSATransaction} {blockId : BlockId} {timestamp : Timestamp}
    (h : tx.executeCheckOnState st blockId timestamp = .ok st') :
    Accepted st ⟨tx, blockId, timestamp⟩ st' := by
  simp only [NSSATransaction.executeCheckOnState, NSSATransaction.validateOnState, bind_eq_ok,
    pure, Except.pure, Except.ok.injEq] at h
  obtain ⟨_, ⟨_, _, diff, hdiff, _, _, rfl⟩, happly⟩ := h
  exact accepted_iff.2 ⟨diff, hdiff, mapError_eq_ok.1 happly⟩

/-- What an accepted privacy-preserving transaction satisfies. -/
structure ValidPrivate (st : V03State) (tx : PrivacyPreservingTransaction) : Prop where
  accountIds_nodup : tx.message.publicAccountIds.Nodup
  newCommitments_nodup : tx.message.newCommitments.Nodup
  proof : ∃ verifies, Zkvm.decodeReceipt tx.proof = some verifies ∧
    verifies (tx.journal st) = true
  commitments_new : ∀ c ∈ tx.message.newCommitments, c ∉ st.commitmentSet.commitments
  nullifiers_new : ∀ p ∈ tx.message.newNullifiers,
    p.1 ∉ st.nullifierSet ∧ p.2 ∈ st.commitmentSet.rootHistory

/-- The specification of the privacy-preserving path. -/
theorem validPrivate_of_transition {st st' : V03State} {tx : PrivacyPreservingTransaction}
    {blockId : BlockId} {timestamp : Timestamp}
    (h : st.transitionFromPrivacyPreservingTransaction tx blockId timestamp = .ok st') :
    ValidPrivate st tx ∧ st.applyStateDiff tx.diff = .ok st' := by
  obtain ⟨diff, hdiff, happly⟩ := bind_eq_ok.1 h
  simp only [fromPrivacyPreservingTransaction, bind_eq_ok, mapError_eq_ok, pure, Except.pure,
    Except.ok.injEq] at hdiff
  obtain ⟨_, hcheck, _, hproof, _, hcommitments, _, hnullifiers, rfl⟩ := hdiff
  simp only [PrivacyPreservingTransaction.checkMessage, bind_eq_ok, ensure_eq_ok,
    exists_const] at hcheck
  obtain ⟨_, hids, _, hnew, _⟩ := hcheck
  simp only [PrivacyPreservingTransaction.checkProof, bind_eq_ok, ensure_eq_ok] at hproof
  obtain ⟨valid, hvalid, hproof⟩ := hproof
  simp only [V03State.checkCommitmentsAreNew, forM_eq_ok, ensure_eq_ok] at hcommitments
  simp only [V03State.checkNullifiersAreValid, forM_eq_ok, bind_eq_ok, ensure_eq_ok,
    exists_const] at hnullifiers
  refine ⟨⟨toFinset_card_eq_length_iff.1 hids, toFinset_card_eq_length_iff.1 hnew, ?_,
    hcommitments, hnullifiers⟩, mapError_eq_ok.1 happly⟩
  unfold isValidFor at hvalid
  split at hvalid
  · cases hvalid
  · rename_i verifies hdecode
    cases hvalid
    exact ⟨verifies, hdecode, hproof⟩

omit [Schnorr] in
/-- The specification of deployments: one program is added, under an id that was free. -/
theorem deployed_of_transition {st st' : V03State} {tx : ProgramDeploymentTransaction}
    (h : st.transitionFromProgramDeploymentTransaction tx = .ok st') :
    ∃ program, Zkvm.imageId tx.bytecode = .ok program.id ∧ program.elf = tx.bytecode ∧
      program.id ∉ st.programs ∧
      st.applyStateDiff ⟨[], ∅, [], [], some program⟩ = .ok st' := by
  obtain ⟨diff, hdiff, happly⟩ := bind_eq_ok.1 h
  simp only [fromProgramDeploymentTransaction, Program.new, bind_eq_ok, mapError_eq_ok,
    ensure_eq_ok, exists_const, pure, Except.pure, Except.ok.injEq] at hdiff
  obtain ⟨program, ⟨id, hid, rfl⟩, hnew, rfl⟩ := hdiff
  exact ⟨⟨id, tx.bytecode⟩, hid, rfl, hnew, mapError_eq_ok.1 happly⟩

/-! ## The journal of an accepted transaction -/

/-- What the proof is accepted for is the journal of an input that the circuit accepts, hashing
within `S`. -/
def SoundProof [ChaCha20] (S : Set Bytes) (proof : Bytes) : Prop :=
  ∀ verifies journal, Zkvm.decodeReceipt proof = some verifies → verifies journal = true →
    ∃ input, circuit input = .ok journal ∧ ∀ s ∈ circuitStrings input, s ∈ S

/-- The proof that comes with a transaction is sound. -/
def NSSATransaction.Sound [ChaCha20] (S : Set Bytes) : NSSATransaction → Prop
  | .privacyPreserving tx => SoundProof S tx.proof
  | _ => True

/-- The proofs that come with the transactions of a run are sound. -/
def SoundProofs [ChaCha20] (S : Set Bytes) (events : List Event) : Prop :=
  ∀ e ∈ events, e.tx.Sound S

section

variable [ChaCha20] {S : Set Bytes}

omit [Schnorr] in
theorem soundProofs_concat {events : List Event} {e : Event} :
    SoundProofs S (events ++ [e]) ↔ SoundProofs S events ∧ e.tx.Sound S := by
  rw [SoundProofs, List.forall_mem_append, List.forall_mem_singleton]
  rfl

omit [Schnorr] in
theorem NSSATransaction.sound_of_forall (h : ∀ proof, SoundProof S proof) (tx : NSSATransaction) :
    tx.Sound S := by
  cases tx with
  | publicTx tx => trivial
  | privacyPreserving tx => exact h tx.proof
  | programDeployment tx => trivial

end

omit [Sha256] [Zkvm] [Schnorr] in
/-- The sample zkVM without proofs accepts none. -/
theorem Sample.sound (script : Sample.Script) (S : Set Bytes) (tx : NSSATransaction) :
    let _ := Sample.sha256; let _ := Sample.zkvm script; let _ := Sample.chaCha20
    tx.Sound S := by
  intro _ _ _
  refine NSSATransaction.sound_of_forall (fun proof verifies journal hdecode hverifies => ?_) tx
  exact absurd (Sample.mem_of_verifies hdecode hverifies) List.not_mem_nil

omit [Zkvm] [Schnorr] in
/-- The public entries of an input with this journal are the accounts of the message, with
their current values and the marks of the signers, and their post states. -/
theorem publicEntries_of_journal {st : V03State} {tx : PrivacyPreservingTransaction}
    {l : List Entry} (h : Emitted l (tx.journal st)) :
    tx.message.publicAccountIds = (publicEntries l).map (·.pre.accountId) ∧
    (∀ e ∈ publicEntries l, e.pre = ⟨st.getAccountById e.pre.accountId,
      decide (e.pre.accountId ∈ tx.signerAccountIds), e.pre.accountId⟩) ∧
    tx.message.publicAccountIds.zip tx.message.publicPostStates =
      (publicEntries l).map fun e => (e.pre.accountId, e.post) := by
  have hpres : inputPreStates st tx.signerAccountIds tx.message.publicAccountIds =
      (publicEntries l).map (·.pre) := h.publicPreStates
  have hposts : tx.message.publicPostStates = (publicEntries l).map (·.post) :=
    h.publicPostStates
  have haccountIds : tx.message.publicAccountIds =
      (publicEntries l).map (·.pre.accountId) := by
    have hmap := congrArg (List.map (·.accountId)) hpres
    rw [inputPreStates, List.map_map, List.map_map] at hmap
    exact (List.map_id _).symm.trans hmap
  refine ⟨haccountIds, fun e he => ?_, ?_⟩
  · have hmem : e.pre ∈ (publicEntries l).map (·.pre) := List.mem_map_of_mem he
    rw [← hpres] at hmem
    obtain ⟨id, _, hid⟩ := List.mem_map.1 hmem
    rw [← hid]
  · rw [haccountIds, hposts, List.zip_map']

end ExecutionZone
