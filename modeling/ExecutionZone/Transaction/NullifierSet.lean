import ExecutionZone.Transaction.DoubleSpend

/-!
# The nullifier set

A message lists each nullifier with a digest of the commitment set, and what must not occur
twice in it is such a pair.  A nullifier that is listed under two digests passes, and is added
to the set once.  That the circuit never lists a nullifier twice is another matter
(`ValidNotes.nodup_nullifiers`): here a proof may stand for anything.
-/

namespace ExecutionZone

/-- Where pairs are distinct, so are their first components, if each comes with one second
component. -/
theorem nodup_map_fst_iff {α β : Type} {l : List (α × β)} (h : l.Nodup) :
    (l.map Prod.fst).Nodup ↔ ∀ p ∈ l, ∀ q ∈ l, p.1 = q.1 → p.2 = q.2 := by
  constructor
  · intro hfst p hp q hq heq
    rw [List.inj_on_of_nodup_map hfst hp hq heq]
  · intro hone
    exact h.map_on fun p hp q hq heq => Prod.ext heq (hone p hp q hq heq)

/-- The nullifiers of a message are listed under one digest each. -/
def PrivacyPreservingTransaction.OneDigest (tx : PrivacyPreservingTransaction) : Prop :=
  ∀ p ∈ tx.message.newNullifiers, ∀ q ∈ tx.message.newNullifiers, p.1 = q.1 → p.2 = q.2

def NSSATransaction.OneDigest : NSSATransaction → Prop
  | .privacyPreserving tx => tx.OneDigest
  | _ => True

section

variable [Sha256] [Zkvm] [Schnorr]

/-- The pairs of an accepted message are distinct, and their nullifiers are not in the set. -/
theorem newNullifiers_of_accepted {tx : PrivacyPreservingTransaction} {st : V03State}
    {blockId : BlockId} {timestamp : Timestamp} {diff : StateDiff}
    (h : fromPrivacyPreservingTransaction tx st blockId timestamp = .ok diff) :
    tx.message.newNullifiers.Nodup ∧ ∀ n ∈ tx.message.newNullifiers.map Prod.fst,
      n ∉ st.nullifierSet := by
  simp only [fromPrivacyPreservingTransaction, bind_eq_ok, mapError_eq_ok, pure, Except.pure,
    Except.ok.injEq] at h
  obtain ⟨_, hcheck, _, _, _, _, _, hnullifiers, rfl⟩ := h
  simp only [PrivacyPreservingTransaction.checkMessage, bind_eq_ok, ensure_eq_ok,
    exists_const] at hcheck
  simp only [V03State.checkNullifiersAreValid, forM_eq_ok, bind_eq_ok, ensure_eq_ok,
    exists_const] at hnullifiers
  refine ⟨toFinset_card_eq_length_iff.1 hcheck.2.2.1, fun n hn => ?_⟩
  obtain ⟨p, hp, rfl⟩ := List.mem_map.1 hn
  exact (hnullifiers p hp).1

variable {st₀ st st' : V03State}

/-- **Step.**  An accepted transaction adds its nullifiers, none of which is in the set. -/
theorem nullifierSet_of_accepted {e : Event} (h : Accepted st e st') :
    st'.nullifierSet = st.nullifierSet ∪ e.tx.nullifiers.toFinset ∧
      (∀ n ∈ e.tx.nullifiers, n ∉ st.nullifierSet) ∧
      (e.tx.nullifiers.Nodup ↔ e.tx.OneDigest) := by
  by_cases hkind : ∃ tx, e.tx = .privacyPreserving tx
  · obtain ⟨tx, htx⟩ := hkind
    obtain ⟨_, blockId, timestamp⟩ := e
    cases htx
    obtain ⟨diff, hdiff, _⟩ := bind_eq_ok.1 (show _ = _ from h)
    obtain ⟨hnodup, hnew⟩ := newNullifiers_of_accepted hdiff
    obtain ⟨_, happly⟩ := validPrivate_of_transition (show _ = _ from h)
    exact ⟨(V03State.applyStateDiff_eq_ok happly).2.2.1, hnew, nodup_map_fst_iff hnodup⟩
  · rw [not_exists] at hkind
    obtain ⟨diff, _, hnone, happly⟩ := notes_of_not_private h hkind
    have hset := (V03State.applyStateDiff_eq_ok happly).2.2.1
    rw [hnone] at hset
    cases htx : e.tx with
    | publicTx tx => exact ⟨hset, by simp [NSSATransaction.nullifiers], by
        simp [NSSATransaction.nullifiers, NSSATransaction.OneDigest]⟩
    | privacyPreserving tx => exact absurd htx (hkind tx)
    | programDeployment tx => exact ⟨hset, by simp [NSSATransaction.nullifiers], by
        simp [NSSATransaction.nullifiers, NSSATransaction.OneDigest]⟩

/-- **Step.**  The set grows by no more than the listed nullifiers, and by as many exactly if
each is listed under one digest. -/
theorem card_nullifierSet_of_accepted {e : Event} (h : Accepted st e st') :
    st'.nullifierSet.card ≤ st.nullifierSet.card + e.tx.nullifiers.length ∧
      (st'.nullifierSet.card = st.nullifierSet.card + e.tx.nullifiers.length ↔
        e.tx.OneDigest) := by
  obtain ⟨hset, hnew, hiff⟩ := nullifierSet_of_accepted h
  have hdisjoint : Disjoint st.nullifierSet e.tx.nullifiers.toFinset := by
    rw [Finset.disjoint_right]
    exact fun n hn => hnew n (List.mem_toFinset.1 hn)
  rw [hset, Finset.card_union_of_disjoint hdisjoint, ← hiff, ← toFinset_card_eq_length_iff]
  exact ⟨Nat.add_le_add_left (List.toFinset_card_le _) _, Nat.add_left_cancel_iff⟩

/-- The number of nullifiers the transactions list. -/
def listedNullifiers (events : List Event) : Nat :=
  (events.map fun e => e.tx.nullifiers.length).sum

/-- **Run.**  The set grows by no more than what is listed, and by as much exactly if each
transaction lists its nullifiers under one digest. -/
theorem card_nullifierSet_of_run {events : List Event} (h : Run Accepted st₀ events st) :
    st.nullifierSet.card ≤ st₀.nullifierSet.card + listedNullifiers events ∧
      (st.nullifierSet.card = st₀.nullifierSet.card + listedNullifiers events ↔
        ∀ e ∈ events, e.tx.OneDigest) := by
  induction h with
  | nil => simp [listedNullifiers]
  | @snoc events st e st' _ hstep ih =>
      obtain ⟨hle, hiff⟩ := ih
      obtain ⟨hle', hiff'⟩ := card_nullifierSet_of_accepted hstep
      have hlisted : listedNullifiers (events ++ [e]) =
          listedNullifiers events + e.tx.nullifiers.length := by
        simp [listedNullifiers]
      rw [hlisted, List.forall_mem_append, List.forall_mem_singleton, ← hiff, ← hiff']
      omega

/-- **Nullifiers.**  The nullifiers of an accepted transaction are distinct and new exactly if
each is listed under one digest.  Over a run, the set grows by the number of listed nullifiers
exactly if this holds of every transaction. -/
theorem nullifiers_unique_iff :
    (∀ (tx : PrivacyPreservingTransaction) (st : V03State) (blockId : BlockId)
        (timestamp : Timestamp) (diff : StateDiff),
      fromPrivacyPreservingTransaction tx st blockId timestamp = .ok diff →
      ((tx.message.newNullifiers.map Prod.fst).Nodup ∧
          (∀ n ∈ tx.message.newNullifiers.map Prod.fst, n ∉ st.nullifierSet) ↔ tx.OneDigest)) ∧
    ∀ (st₀ st : V03State) (events : List Event), Run Accepted st₀ events st →
      (st.nullifierSet.card = st₀.nullifierSet.card + listedNullifiers events ↔
        ∀ e ∈ events, e.tx.OneDigest) := by
  refine ⟨fun tx st blockId timestamp diff h => ?_, fun st₀ st events h =>
    (card_nullifierSet_of_run h).2⟩
  obtain ⟨hnodup, hnew⟩ := newNullifiers_of_accepted h
  rw [nodup_map_fst_iff hnodup]
  exact and_iff_left hnew

end

namespace RepeatedNullifier

/-- The digest of the genesis state before its private accounts. -/
def earlier : CommitmentSetDigest :=
  let _ := Sample.sha256
  valueD default ((CommitmentSet.withCapacity 32 >>= fun cs => cs.extend [dummyCommitment]).map
    (·.digest))

def nullifier : Nullifier := ⟨Vector.replicate 32 8⟩

/-- One nullifier under two digests. -/
def journal : PrivacyPreservingCircuitOutput :=
  let _ := Sample.sha256
  ⟨[], [], [], [], [(nullifier, earlier), (nullifier, SpentNote.genesis.commitmentSet.digest)],
    .newUnbounded, .newUnbounded⟩

def tx : PrivacyPreservingTransaction := Sample.privateTransaction journal

def final : V03State :=
  let _ := Sample.sha256; let _ := Sample.provingZkvm SpentNote.script [journal]
  let _ := Sample.schnorr
  valueD SpentNote.genesis (SpentNote.genesis.transition ⟨.privacyPreserving tx, 0, 0⟩)

end RepeatedNullifier

/-- A message that lists a nullifier twice, under two digests, is accepted where a proof verifies
for it, and adds one nullifier. -/
theorem nullifier_listed_twice :
    let _ := Sample.sha256
    let _ := Sample.provingZkvm SpentNote.script [RepeatedNullifier.journal]
    let _ := Sample.schnorr
    (fromPrivacyPreservingTransaction RepeatedNullifier.tx SpentNote.genesis 0 0).isOk = true ∧
      Run Accepted SpentNote.genesis [⟨.privacyPreserving RepeatedNullifier.tx, 0, 0⟩]
        RepeatedNullifier.final ∧
      ¬(RepeatedNullifier.tx.message.newNullifiers.map Prod.fst).Nodup ∧
      listedNullifiers [⟨.privacyPreserving RepeatedNullifier.tx, 0, 0⟩] = 2 ∧
      RepeatedNullifier.final.nullifierSet.card = SpentNote.genesis.nullifierSet.card + 1 := by
  intro _ _ _
  have hok : (fromPrivacyPreservingTransaction RepeatedNullifier.tx SpentNote.genesis 0 0).isOk =
        true ∧
      (SpentNote.genesis.transition ⟨.privacyPreserving RepeatedNullifier.tx, 0, 0⟩).isOk = true ∧
      ¬(RepeatedNullifier.tx.message.newNullifiers.map Prod.fst).Nodup ∧
      listedNullifiers [⟨.privacyPreserving RepeatedNullifier.tx, 0, 0⟩] = 2 ∧
      RepeatedNullifier.final.nullifierSet.card = SpentNote.genesis.nullifierSet.card + 1 := by
    decide +kernel
  exact ⟨hok.1, Run.nil.snoc (eq_ok_valueD SpentNote.genesis hok.2.1), hok.2.2⟩

/-- The run that spends a note publishes one nullifier. -/
theorem nullifiers_unique_iff_spent_note :
    let _ := Sample.sha256; let _ := Sample.provingZkvm SpentNote.script [SpentNote.journal]
    let _ := Sample.schnorr
    ((Sample.privateTransaction SpentNote.journal).message.newNullifiers.map Prod.fst).Nodup ∧
      SpentNote.final.nullifierSet.card = SpentNote.genesis.nullifierSet.card + 1 := by
  intro _ _ _
  obtain ⟨htx, hrun⟩ := nullifiers_unique_iff
  obtain ⟨hok, hlisted, hone⟩ :
      (fromPrivacyPreservingTransaction (Sample.privateTransaction SpentNote.journal)
        SpentNote.toppedUp 0 0).isOk = true ∧
      listedNullifiers [SpentNote.topUp, SpentNote.spend] = 1 ∧
      (Sample.privateTransaction SpentNote.journal).OneDigest := by
    unfold PrivacyPreservingTransaction.OneDigest
    decide +kernel
  obtain ⟨diff, hdiff⟩ := exists_of_isOk hok
  have hall : ∀ e ∈ [SpentNote.topUp, SpentNote.spend], e.tx.OneDigest := by
    intro e he
    rcases List.mem_pair.1 he with rfl | rfl
    · trivial
    · exact hone
  have hcard := (hrun _ _ _ (SpentNote.run.2.mono fun _ _ _ h => h.1)).2 hall
  rw [hlisted] at hcard
  exact ⟨((htx _ _ _ _ diff hdiff).2 hone).1, hcard⟩

end ExecutionZone
