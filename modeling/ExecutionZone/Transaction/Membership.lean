import ExecutionZone.Transaction.Nonces

/-!
# Membership proofs over runs

What the commitment set is for.  In every reachable state its digest is recorded, and each
commitment that was ever inserted has a proof that leads to the digest.  Digests stay
recorded, so a proof made in one state is accepted in all later ones.  In the other
direction, a path of any length that leads to a recorded digest starts at a commitment that
was inserted, unless the hash has a collision or hashes something to the zero node.
-/

namespace ExecutionZone

open CallTree PerfectTree

section

variable [Sha256]

def NSSATransaction.newCommitments : NSSATransaction → List Commitment
  | .privacyPreserving tx => tx.message.newCommitments
  | _ => []

/-- The commitments inserted at genesis and by the transactions of a run. -/
def insertedCommitments (notes : List (Commitment × Nullifier)) (events : List Event) :
    List Commitment :=
  dummyCommitment :: (notes.map Prod.fst ++ events.flatMap (·.tx.newCommitments))

variable [Zkvm] [Schnorr] {S : Set Bytes} {st st' : V03State}

/-- An accepted transaction extends the set by the commitments of its message. -/
theorem extend_of_accepted {e : Event} (h : Accepted st e st') :
    st.commitmentSet.extend e.tx.newCommitments = .ok st'.commitmentSet := by
  obtain ⟨diff, hdiff, happly⟩ := accepted_iff.1 h
  obtain ⟨_, hext, _⟩ := V03State.applyStateDiff_eq_ok happly
  obtain ⟨tx, blockId, timestamp⟩ := e
  cases tx with
  | publicTx tx =>
      obtain ⟨_, _, _, heq⟩ := runs_of_fromPublicTransaction hdiff
      rwa [heq] at hext
  | privacyPreserving tx =>
      simp only [NSSATransaction.stateDiff, fromPrivacyPreservingTransaction, bind_eq_ok, pure,
        Except.pure, Except.ok.injEq] at hdiff
      obtain ⟨_, _, _, _, _, _, _, _, rfl⟩ := hdiff
      exact hext
  | programDeployment tx =>
      simp only [NSSATransaction.stateDiff, fromProgramDeploymentTransaction, bind_eq_ok,
        mapError_eq_ok, pure, Except.pure, Except.ok.injEq] at hdiff
      obtain ⟨_, _, _, _, rfl⟩ := hdiff
      exact hext

/-- **Run.**  Recorded digests stay. -/
theorem rootHistory_subset_of_run {events : List Event} (hrun : Run Accepted st events st') :
    st.commitmentSet.rootHistory ⊆ st'.commitmentSet.rootHistory := by
  refine hrun.invariant (I := fun s => st.commitmentSet.rootHistory ⊆ s.commitmentSet.rootHistory)
    subset_rfl fun s e s' hs hstep => ?_
  rw [(CommitmentSet.extend_eq_ok (extend_of_accepted hstep)).2.1]
  exact hs.trans (Finset.subset_insert _ _)

theorem Intact.of_run {events : List Event} (h : st.commitmentSet.Intact)
    (hrun : Run Accepted st events st') : st'.commitmentSet.Intact :=
  hrun.invariant (I := fun s => s.commitmentSet.Intact) h fun _ _ _ hs hstep =>
    .of_extend hs.indexed (extend_of_accepted hstep)

variable [BuiltinPrograms] {initialData : List (AccountId × U128)}
  {notes : List (Commitment × Nullifier)} {genesisTimestamp : Timestamp} {st₀ : V03State}
  {events : List Event}

/-- **Run.**  What has been inserted. -/
theorem mem_commitments_of_run
    (hgenesis : V03State.newWithGenesisAccounts initialData notes genesisTimestamp = .ok st₀)
    (hrun : Run Accepted st₀ events st) (c : Commitment) :
    c ∈ st.commitmentSet.commitments ↔ c ∈ insertedCommitments notes events := by
  induction hrun with
  | nil =>
      rw [(CommitmentSet.of_genesis (S := Set.univ) hgenesis).1, insertedCommitments,
        List.flatMap_nil, List.append_nil, List.mem_cons]
  | snoc _ hstep ih =>
      rw [(CommitmentSet.extend_eq_ok (extend_of_accepted hstep)).1, ih]
      simp only [insertedCommitments, List.flatMap_append, List.flatMap_singleton, List.mem_cons,
        List.mem_append, or_assoc]

theorem Tracked.of_run
    (hgenesis : V03State.newWithGenesisAccounts initialData notes genesisTimestamp = .ok st₀)
    (hhashed : st₀.commitmentSet.HashedIn S) (hrun : Run (AcceptedIn S) st₀ events st) :
    st.commitmentSet.Tracked S :=
  hrun.invariant (I := fun s => s.commitmentSet.Tracked S)
    ((CommitmentSet.of_genesis hgenesis).2.2 hhashed) fun _ _ _ hs hstep =>
      hs.extend (extend_of_accepted hstep.1) hstep.2

/-- **Integrity of the commitment set.**  Take a run from a genesis state, and a state `st₁` of
it.  In the last state the digest is recorded; every commitment that was inserted has a proof
that leads to the digest; every proof made in `st₁` leads to a recorded digest; and, as long
as the hash has no collisions, only inserted commitments have a path to a recorded digest, of
whatever index and length. -/
theorem commitment_set_integrity
    (hgenesis : V03State.newWithGenesisAccounts initialData notes genesisTimestamp = .ok st₀)
    (hhashed : st₀.commitmentSet.HashedIn S) {st₁ : V03State} {later : List Event}
    (hrun : Run (AcceptedIn S) st₀ events st₁) (hlater : Run (AcceptedIn S) st₁ later st) :
    st.commitmentSet.digest ∈ st.commitmentSet.rootHistory ∧
    (∀ c ∈ insertedCommitments notes (events ++ later), ∃ membershipProof,
      st.getProofForCommitment c = .ok (some membershipProof) ∧
        computeDigestForPath c membershipProof = st.commitmentSet.digest) ∧
    (∀ c membershipProof, st₁.getProofForCommitment c = .ok (some membershipProof) →
      computeDigestForPath c membershipProof ∈ st.commitmentSet.rootHistory) ∧
    (CollisionFree S → ∀ (c : Commitment) (membershipProof : MembershipProof),
      leafPreimage c.value ∈ S →
      (∀ a ∈ climbPairs hashTwo membershipProof.1 (hashValue c.value) membershipProof.2,
        nodePreimage a.1 a.2 ∈ S) →
      computeDigestForPath c membershipProof ∈ st.commitmentSet.rootHistory →
      c ∈ insertedCommitments notes (events ++ later)) := by
  have hall := hrun.append hlater
  have haccepted := hrun.mono fun _ _ _ h => h.1
  have haccepted' := hlater.mono fun _ _ _ h => h.1
  have hmem := mem_commitments_of_run hgenesis (hall.mono fun _ _ _ h => h.1)
  have hintact₁ := Intact.of_run (CommitmentSet.of_genesis (S := S) hgenesis).2.1 haccepted
  have hintact := Intact.of_run hintact₁ haccepted'
  refine ⟨hintact.digest, fun c hc => hintact.getProofFor ((hmem c).2 hc), ?_, ?_⟩
  · intro c membershipProof hproof
    obtain ⟨membershipProof', hproof', hdigest⟩ :=
      hintact₁.getProofFor (CommitmentSet.mem_of_getProofFor hproof)
    obtain rfl : membershipProof' = membershipProof := by
      rw [V03State.getProofForCommitment, hproof'] at hproof
      exact Option.some.inj (Except.ok.inj hproof)
    rw [hdigest]
    exact rootHistory_subset_of_run haccepted' hintact₁.digest
  · intro hS c membershipProof hc hpath hdigest
    exact (hmem c).1 ((Tracked.of_run hgenesis hhashed hall).mem_of_path hS hdigest hc hpath)

end

/-- The run that spends a note: the proof of the note from the genesis state. -/
theorem commitment_set_integrity_spent_note :
    let _ := Sample.sha256; let _ := Sample.provingZkvm SpentNote.script [SpentNote.journal]
    let _ := Sample.chaCha20; let _ := Sample.schnorr; let _ := Sample.builtins
    ∃ membershipProof,
      SpentNote.genesis.getProofForCommitment (Commitment.new SpentNote.owner SpentNote.note) =
        .ok (some membershipProof) ∧
      computeDigestForPath (Commitment.new SpentNote.owner SpentNote.note) membershipProof ∈
        SpentNote.final.commitmentSet.rootHistory := by
  intro _ _ _ _ _
  -- over a variable for the last state, which is not to be evaluated
  suffices h : ∀ st, Run (AcceptedIn { s | s ∈ SpentNote.strings }) SpentNote.genesis
      [SpentNote.topUp, SpentNote.spend] st → ∃ membershipProof,
        SpentNote.genesis.getProofForCommitment (Commitment.new SpentNote.owner SpentNote.note) =
          .ok (some membershipProof) ∧
        computeDigestForPath (Commitment.new SpentNote.owner SpentNote.note) membershipProof ∈
          st.commitmentSet.rootHistory from h _ SpentNote.run.2
  intro st hrun
  obtain ⟨_, hproofs, _⟩ := commitment_set_integrity SpentNote.genesis_eq SpentNote.run.1 .nil .nil
  obtain ⟨membershipProof, hproof, _⟩ := hproofs (Commitment.new SpentNote.owner SpentNote.note)
    (List.mem_cons_of_mem _ List.mem_cons_self)
  obtain ⟨_, _, hearlier, _⟩ :=
    commitment_set_integrity SpentNote.genesis_eq SpentNote.run.1 .nil hrun
  exact ⟨membershipProof, hproof, hearlier _ _ hproof⟩

end ExecutionZone
