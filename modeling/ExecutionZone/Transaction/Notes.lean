import ExecutionZone.Circuit.Entries
import ExecutionZone.Lib.NotePool
import ExecutionZone.State.Commitments
import ExecutionZone.Transaction.Runs

/-!
# Private notes over runs

The private part of the ledger is a pool of notes: commitments, spent by nullifiers.  An
accepted privacy-preserving transaction makes valid moves in it (`validMoves_of_accepted`).
That its nullifiers spend what they should rests on three things kept over runs
(`NotesValid`): every root in the history is that of a tree of inserted commitments; every
published nullifier is the initialisation nullifier of an account or the update nullifier
of an inserted note under the secret key of its account; every note opens within `S`.

Throughout, `S` is a set of strings without collisions that contains what is hashed: by
the circuit on the inputs behind accepted proofs (`SoundProofs`) and in the commitment
trees (`HashedIn`).
-/

namespace ExecutionZone

open NotePool

section

variable [Sha256]

/-- Publishing `n` spends `c`: it is the nullifier of an update of `c`, hashed within `S`. -/
def Nullifies (S : Set Bytes) (c : Commitment) (n : Nullifier) : Prop :=
  ∃ nsk, updateNullifierPreimage c nsk ∈ S ∧ n = Nullifier.forAccountUpdate c nsk

/-- `c` is a note of the account `id`, hashed within `S`. -/
def NoteOf (S : Set Bytes) (id : AccountId) (c : Commitment) : Prop :=
  ∃ account, commitmentPreimage id account ∈ S ∧ c = Commitment.new id account

def V03State.commitments (st : V03State) : Finset Commitment :=
  st.commitmentSet.commitments.keys.toFinset

/-- The inserted commitments whose update nullifier has not been published. -/
noncomputable def V03State.unspent (S : Set Bytes) (st : V03State) : Finset Commitment :=
  NotePool.unspent (Nullifies S) st.commitments st.nullifierSet

/-- Why a nullifier was published. -/
inductive Explained (S : Set Bytes) (coms : Finset Commitment) : Nullifier → Prop
  | init (id : AccountId) (hstring : initNullifierPreimage id ∈ S) :
      Explained S coms (Nullifier.forAccountInitialization id)
  | update (id : AccountId) (account : Account) (nsk : NullifierSecretKey)
      (hkey : KeyOf S id nsk) (hnote : commitmentPreimage id account ∈ S)
      (hstring : updateNullifierPreimage (Commitment.new id account) nsk ∈ S)
      (hmem : Commitment.new id account ∈ coms) :
      Explained S coms (Nullifier.forAccountUpdate (Commitment.new id account) nsk)

/-- What is kept over runs. -/
structure NotesValid (S : Set Bytes) (st : V03State) : Prop where
  tracked : st.commitmentSet.Tracked S
  explained : ∀ n ∈ st.nullifierSet, Explained S st.commitments n
  initialized : ∀ c ∈ st.commitments, ∃ id, NoteOf S id c ∧
    (Nullifier.forAccountInitialization id ∈ st.nullifierSet ∨ id.value = Bytes32.zero)

section

variable {S : Set Bytes} {st st' : V03State}

omit [Sha256] in
theorem V03State.mem_commitments {c : Commitment} :
    c ∈ st.commitments ↔ c ∈ st.commitmentSet.commitments := by
  rw [V03State.commitments, List.mem_toFinset, AList.mem_keys]

theorem NoteOf.unique (hS : CollisionFree S) {id id' : AccountId} {c : Commitment}
    (h : NoteOf S id c) (h' : NoteOf S id' c) : id = id' := by
  obtain ⟨a, ha, rfl⟩ := h
  obtain ⟨a', ha', heq⟩ := h'
  exact (commitmentPreimage_inj (hS.injOn ha ha' (congrArg Commitment.value heq))).1

theorem KeyOf.ne_zero (hS : CollisionFree S) {id : AccountId} {nsk : NullifierSecretKey}
    (h : KeyOf S id nsk) : id.value ≠ Bytes32.zero := by
  cases h with
  | regular identifier _ hstring hid =>
      rw [hid]
      exact hS.ne_zero _ hstring
  | pda programId seed identifier _ hstring hid =>
      rw [hid]
      exact hS.ne_zero _ hstring

theorem Explained.mono {coms coms' : Finset Commitment} {n : Nullifier} (h : Explained S coms n)
    (hsub : coms ⊆ coms') : Explained S coms' n := by
  cases h with
  | init id hstring => exact .init id hstring
  | update id account nsk hkey hnote hstring hmem =>
      exact .update id account nsk hkey hnote hstring (hsub hmem)

/-- A published nullifier that spends `c` was published for the note `c`, under the key of
its account. -/
theorem Explained.of_nullifies (hS : CollisionFree S) {coms : Finset Commitment} {c : Commitment}
    {n : Nullifier} (h : Explained S coms n) (hn : Nullifies S c n) :
    c ∈ coms ∧ ∃ id account nsk, KeyOf S id nsk ∧ commitmentPreimage id account ∈ S ∧
      c = Commitment.new id account ∧ n = Nullifier.forAccountUpdate c nsk := by
  obtain ⟨nsk, hstring, rfl⟩ := hn
  generalize hn : Nullifier.forAccountUpdate c nsk = n at h
  cases h with
  | init id hinit => exact absurd hn (hS.forAccountUpdate_ne_init hstring hinit)
  | update id account nsk' hkey hnote hstring' hmem =>
      obtain ⟨rfl, rfl⟩ := hS.forAccountUpdate_inj hstring hstring' hn
      exact ⟨hmem, id, account, nsk, hkey, hnote, rfl, rfl⟩

end

/-! ## A privacy-preserving transaction as moves -/

/-- The move of a private account. -/
def noteMove (p : Entry × NoteUpdate) : Move Commitment Nullifier :=
  ⟨p.1.source, p.2.nullifier.1, newCommitment p⟩

def noteMoves (l : List Entry) : List (Move Commitment Nullifier) :=
  (privateEntries l).map noteMove

section

variable {S : Set Bytes} {st : V03State} {l : List Entry}

/-- The nullifier of an entry spends exactly the note of the entry. -/
theorem NoteSource.nullifies_iff (hS : CollisionFree S) {p : Entry × NoteUpdate}
    (h : NoteSource S p.1 p.2) (c : Commitment) :
    Nullifies S c p.2.nullifier.1 ↔ p.1.source = some c := by
  cases h with
  | init hidentity hnullifier hdefault hstring =>
      simp only [Entry.source, hidentity, Bool.false_eq_true, if_false, reduceCtorEq, iff_false]
      rintro ⟨nsk, hupdate, heq⟩
      rw [hnullifier] at heq
      exact hS.forAccountUpdate_ne_init hupdate hstring heq.symm
  | update nsk membershipProof hidentity hnullifier hkey hstrings =>
      have hown : updateNullifierPreimage (Commitment.new p.1.pre.accountId p.1.pre.account) nsk ∈
          S := hstrings _ (by simp [updateStrings])
      simp only [Entry.source, hidentity, if_true, Option.some.injEq]
      constructor
      · rintro ⟨nsk', hupdate, heq⟩
        rw [hnullifier] at heq
        exact (hS.forAccountUpdate_inj hown hupdate heq).1
      · rintro rfl
        exact ⟨nsk, hown, by rw [hnullifier]; rfl⟩

/-- The note of an update was inserted, and it is not spent if its nullifier is new. -/
theorem NoteSource.source_mem (hS : CollisionFree S) (hst : NotesValid S st)
    {p : Entry × NoteUpdate} (h : NoteSource S p.1 p.2)
    (hnew : p.2.nullifier.1 ∉ st.nullifierSet)
    (hroot : p.2.nullifier.2 ∈ st.commitmentSet.rootHistory) {c : Commitment}
    (hc : p.1.source = some c) : c ∈ st.unspent S := by
  cases h with
  | init hidentity =>
      simp only [Entry.source, hidentity, Bool.false_eq_true, if_false, reduceCtorEq] at hc
  | update nsk membershipProof hidentity hnullifier hkey hstrings =>
      simp only [Entry.source, hidentity, if_true, Option.some.injEq] at hc
      subst hc
      have hnote : commitmentPreimage p.1.pre.accountId p.1.pre.account ∈ S :=
        hstrings _ (by simp [updateStrings])
      rw [V03State.unspent, NotePool.mem_unspent, V03State.mem_commitments]
      constructor
      · rw [hnullifier] at hroot
        refine hst.tracked.mem_of_path hS hroot (hstrings _ (by simp [updateStrings])) ?_
        intro a ha
        refine hstrings _ ?_
        simp only [updateStrings, List.mem_cons, List.mem_map]
        exact .inr (.inr (.inr ⟨a, ha, rfl⟩))
      · -- a nullifier that spends it was made with the same key, hence is the same
        rintro ⟨n, hn, hspends⟩
        obtain ⟨_, id, account, nsk', hkey', hnote', heq, rfl⟩ :=
          (hst.explained n hn).of_nullifies hS hspends
        have hid : p.1.pre.accountId = id := NoteOf.unique hS ⟨_, hnote, rfl⟩ ⟨_, hnote', heq⟩
        subst hid
        rw [hkey'.unique hS hkey] at hn
        rw [hnullifier] at hnew
        exact hnew hn

omit [Sha256] in
theorem nodup_privateEntries (hids : (l.map (·.pre.accountId)).Nodup) :
    ((privateEntries l).map (·.1.pre.accountId)).Nodup := by
  rw [List.Nodup, List.pairwise_map] at hids ⊢
  rw [privateEntries, List.pairwise_filterMap]
  refine hids.imp fun {e e'} hne p hp p' hp' => ?_
  obtain ⟨u, _, rfl⟩ := Option.map_eq_some_iff.1 hp
  obtain ⟨u', _, rfl⟩ := Option.map_eq_some_iff.1 hp'
  exact hne

/-- Entries of different accounts spend different notes. -/
theorem nodup_sources (hS : CollisionFree S) (hids : (l.map (·.pre.accountId)).Nodup)
    (hsource : ∀ p ∈ privateEntries l, NoteSource S p.1 p.2) :
    ((privateEntries l).filterMap (·.1.source)).Nodup := by
  have hpairs := nodup_privateEntries hids
  rw [List.Nodup, List.pairwise_map] at hpairs
  have hnote : ∀ p ∈ privateEntries l, ∀ c, p.1.source = some c →
      NoteOf S p.1.pre.accountId c := by
    intro p hp c hc
    have hsrc := hsource p hp
    cases hsrc with
    | init hidentity =>
        simp only [Entry.source, hidentity, Bool.false_eq_true, if_false, reduceCtorEq] at hc
    | update nsk membershipProof hidentity _ _ hstrings =>
        simp only [Entry.source, hidentity, if_true, Option.some.injEq] at hc
        exact ⟨p.1.pre.account, hstrings _ (by simp [updateStrings]), hc.symm⟩
  rw [List.Nodup, List.pairwise_filterMap]
  refine hpairs.imp_of_mem fun {p p'} hp hp' hne c hc c' hc' heq => hne ?_
  subst heq
  exact (hnote p hp c hc).unique hS (hnote p' hp' c hc')

/-- The moves of valid notes are valid where the nullifiers and commitments are new. -/
theorem ValidNotes.validMoves (hS : CollisionFree S) (hst : NotesValid S st)
    {output : PrivacyPreservingCircuitOutput} (h : ValidNotes S l output)
    (hcommitments : ∀ c ∈ output.newCommitments, c ∉ st.commitmentSet.commitments)
    (hnodup : output.newCommitments.Nodup)
    (hnullifiers : ∀ p ∈ output.newNullifiers,
      p.1 ∉ st.nullifierSet ∧ p.2 ∈ st.commitmentSet.rootHistory) :
    ValidMoves (Nullifies S) st.commitments st.nullifierSet (noteMoves l) := by
  rw [h.emitted.newCommitments] at hcommitments hnodup
  rw [h.emitted.newNullifiers] at hnullifiers
  have hnew : ∀ p ∈ privateEntries l, newCommitment p ∉ st.commitments := by
    intro p hp
    rw [V03State.mem_commitments]
    exact hcommitments _ (List.mem_map_of_mem hp)
  have hmoves : ∀ m ∈ noteMoves l, ∃ p ∈ privateEntries l, m = noteMove p := by
    intro m hm
    obtain ⟨p, hp, rfl⟩ := List.mem_map.1 hm
    exact ⟨p, hp, rfl⟩
  constructor
  · intro m hm c
    obtain ⟨p, hp, rfl⟩ := hmoves m hm
    exact (h.source p hp).nullifies_iff hS c
  · intro m hm c hc
    obtain ⟨p, hp, rfl⟩ := hmoves m hm
    obtain ⟨hfresh, hroot⟩ := hnullifiers _ (List.mem_map_of_mem hp)
    exact (h.source p hp).source_mem hS hst hfresh hroot hc
  · rw [noteMoves, List.filterMap_map]
    exact nodup_sources hS h.nodup h.source
  · intro m hm
    obtain ⟨p, hp, rfl⟩ := hmoves m hm
    exact hnew p hp
  · -- what is spent already is an inserted note
    intro m hm hspent
    obtain ⟨p, hp, rfl⟩ := hmoves m hm
    obtain ⟨n, hn, hspends⟩ := hspent
    exact hnew p hp ((hst.explained n hn).of_nullifies hS hspends).1
  · rw [noteMoves, List.map_map]
    exact hnodup

/-- The nullifiers of valid moves are explained by the commitments before. -/
theorem ValidNotes.explained {output : PrivacyPreservingCircuitOutput} (h : ValidNotes S l output)
    (hmoves : ValidMoves (Nullifies S) st.commitments st.nullifierSet (noteMoves l)) :
    ∀ p ∈ privateEntries l, Explained S st.commitments p.2.nullifier.1 := by
  intro p hp
  have hsource := h.source p hp
  cases hsource with
  | init _ hnullifier _ hstring =>
      rw [hnullifier]
      exact .init _ hstring
  | update nsk membershipProof hidentity hnullifier hkey hstrings =>
      have hmem := hmoves.source_mem (noteMove p) (List.mem_map_of_mem hp)
        (Commitment.new p.1.pre.accountId p.1.pre.account)
        (by simp [noteMove, Entry.source, hidentity])
      rw [hnullifier]
      refine .update _ _ nsk hkey (hstrings _ ?_) (hstrings _ ?_) (NotePool.mem_unspent.1 hmem).1
      · simp [updateStrings]
      · simp [updateStrings]

/-- The account of a new note has been initialised: before, if the note replaces another,
or by this move. -/
theorem ValidNotes.initialized (hS : CollisionFree S) (hst : NotesValid S st)
    {output : PrivacyPreservingCircuitOutput} (h : ValidNotes S l output)
    (hmoves : ValidMoves (Nullifies S) st.commitments st.nullifierSet (noteMoves l)) :
    ∀ p ∈ privateEntries l, NoteOf S p.1.pre.accountId (newCommitment p) ∧
      (Nullifier.forAccountInitialization p.1.pre.accountId ∈ st.nullifierSet ∨
        Nullifier.forAccountInitialization p.1.pre.accountId = p.2.nullifier.1) := by
  intro p hp
  have htarget := h.target p hp
  rw [h.accountId p hp] at htarget
  refine ⟨⟨_, htarget, by rw [newCommitment, h.accountId p hp]⟩, ?_⟩
  have hsource := h.source p hp
  cases hsource with
  | init _ hnullifier => exact .inr (by rw [hnullifier]; rfl)
  | update nsk membershipProof hidentity hnullifier hkey hstrings =>
      have hmem := hmoves.source_mem (noteMove p) (List.mem_map_of_mem hp)
        (Commitment.new p.1.pre.accountId p.1.pre.account)
        (by simp [noteMove, Entry.source, hidentity])
      obtain ⟨id, hnote, hinit⟩ := hst.initialized _ (NotePool.mem_unspent.1 hmem).1
      have hid : id = p.1.pre.accountId :=
        hnote.unique hS ⟨_, hstrings _ (by simp [updateStrings]), rfl⟩
      subst hid
      exact .inl (hinit.resolve_right (hkey.ne_zero hS))

end

/-! ## Steps -/

section

variable {S : Set Bytes} {st st' : V03State}

/-- A diff that carries no notes leaves commitments and nullifiers alone. -/
theorem notes_of_applyStateDiff {diff : StateDiff} (h : st.applyStateDiff diff = .ok st') :
    st'.commitments = st.commitments ∪ diff.newCommitments.toFinset ∧
      st'.nullifierSet = st.nullifierSet ∪ diff.newNullifiers.toFinset ∧
      (st.commitmentSet.Tracked S → st'.commitmentSet.HashedIn S →
        st'.commitmentSet.Tracked S) := by
  obtain ⟨_, hext, hnull, _⟩ := V03State.applyStateDiff_eq_ok h
  refine ⟨?_, hnull, fun htracked hhashed => htracked.extend hext hhashed⟩
  ext c
  rw [V03State.mem_commitments, (CommitmentSet.extend_eq_ok hext).1, Finset.mem_union,
    V03State.mem_commitments, List.mem_toFinset]

variable [Zkvm] [ChaCha20]

/-- **A privacy-preserving transaction.**  Accepted, it makes valid moves. -/
theorem moves_of_private [Schnorr] (hS : CollisionFree S) (hst : NotesValid S st)
    {tx : PrivacyPreservingTransaction} (hsound : SoundProof S tx.proof) {blockId : BlockId}
    {timestamp : Timestamp}
    (h : st.transitionFromPrivacyPreservingTransaction tx blockId timestamp = .ok st') :
    ∃ l, ValidNotes S l (tx.journal st) ∧
      ValidMoves (Nullifies S) st.commitments st.nullifierSet (noteMoves l) ∧
      tx.message.newNullifiers.map Prod.fst = (noteMoves l).map (·.nullifier) ∧
      st'.commitments = st.commitments ∪ ((noteMoves l).map (·.target)).toFinset ∧
      st'.nullifierSet = st.nullifierSet ∪ ((noteMoves l).map (·.nullifier)).toFinset := by
  obtain ⟨hvalid, happly⟩ := validPrivate_of_transition h
  obtain ⟨verifies, hdecode, hverifies⟩ := hvalid.proof
  obtain ⟨input, hcircuit, hstrings⟩ := hsound _ _ hdecode hverifies
  have hnotes := validNotes_of_circuit hcircuit hstrings
  have hmoves := hnotes.validMoves hS hst hvalid.commitments_new hvalid.newCommitments_nodup
    hvalid.nullifiers_new
  obtain ⟨hcommitments, hnullifiers, _⟩ := notes_of_applyStateDiff (S := S) happly
  have htargets : tx.diff.newCommitments = (noteMoves (circuitEntries input)).map (·.target) := by
    rw [noteMoves, List.map_map]
    exact hnotes.emitted.newCommitments
  have hnulls : tx.diff.newNullifiers = (noteMoves (circuitEntries input)).map (·.nullifier) := by
    have heq : tx.message.newNullifiers = _ := hnotes.emitted.newNullifiers
    rw [PrivacyPreservingTransaction.diff, heq, noteMoves, List.map_map, List.map_map]
    rfl
  rw [htargets] at hcommitments
  exact ⟨_, hnotes, hmoves, hnulls, hcommitments, hnulls ▸ hnullifiers⟩

variable [Schnorr]

omit [ChaCha20] in
/-- An accepted transaction of another kind carries no notes. -/
theorem notes_of_not_private {e : Event} (h : Accepted st e st')
    (hkind : ∀ tx, e.tx ≠ .privacyPreserving tx) :
    ∃ diff : StateDiff, diff.newCommitments = [] ∧ diff.newNullifiers = [] ∧
      st.applyStateDiff diff = .ok st' := by
  obtain ⟨tx, blockId, timestamp⟩ := e
  cases tx with
  | publicTx tx =>
      obtain ⟨diff, hdiff, happly⟩ := bind_eq_ok.1 (show _ = _ from h)
      obtain ⟨_, _, _, hdiff⟩ := runs_of_fromPublicTransaction hdiff
      exact ⟨diff, by rw [hdiff], by rw [hdiff], mapError_eq_ok.1 happly⟩
  | privacyPreserving tx => exact absurd rfl (hkind tx)
  | programDeployment tx =>
      obtain ⟨program, _, _, _, happly⟩ := deployed_of_transition (show _ = _ from h)
      exact ⟨_, rfl, rfl, happly⟩

/-- **Step.**  Every accepted transaction keeps the notes valid. -/
theorem NotesValid.step (hS : CollisionFree S) (hst : NotesValid S st) {e : Event}
    (hsound : e.tx.Sound S) (h : Accepted st e st') (hhashed : st'.commitmentSet.HashedIn S) :
    NotesValid S st' := by
  by_cases hkind : ∃ tx, e.tx = .privacyPreserving tx
  · obtain ⟨tx, htx⟩ := hkind
    obtain ⟨_, blockId, timestamp⟩ := e
    cases htx
    have happly := (validPrivate_of_transition (show _ = _ from h)).2
    obtain ⟨l, hnotes, hmoves, _, hcommitments, hnullifiers⟩ :=
      moves_of_private hS hst hsound (show _ = _ from h)
    have hsub : st.commitments ⊆ st'.commitments := hcommitments ▸ Finset.subset_union_left
    refine ⟨(notes_of_applyStateDiff happly).2.2 hst.tracked hhashed, fun n hn => ?_, fun c hc => ?_⟩
    · rw [hnullifiers, Finset.mem_union, List.mem_toFinset] at hn
      rcases hn with hn | hn
      · exact (hst.explained n hn).mono hsub
      · obtain ⟨m, hm, rfl⟩ := List.mem_map.1 hn
        obtain ⟨p, hp, rfl⟩ := List.mem_map.1 hm
        exact (hnotes.explained hmoves p hp).mono hsub
    · rw [hcommitments, Finset.mem_union, List.mem_toFinset] at hc
      rw [hnullifiers]
      rcases hc with hc | hc
      · obtain ⟨id, hnote, hinit⟩ := hst.initialized c hc
        exact ⟨id, hnote, hinit.imp_left (Finset.mem_union_left _)⟩
      · obtain ⟨m, hm, rfl⟩ := List.mem_map.1 hc
        obtain ⟨p, hp, rfl⟩ := List.mem_map.1 hm
        obtain ⟨hnote, hinit⟩ := hnotes.initialized hS hst hmoves p hp
        refine ⟨_, hnote, .inl ?_⟩
        rcases hinit with hinit | hinit
        · exact Finset.mem_union_left _ hinit
        · rw [hinit]
          exact Finset.mem_union_right _ (List.mem_toFinset.2 (List.mem_map_of_mem hm))
  · rw [not_exists] at hkind
    obtain ⟨diff, hnoCommitments, hnoNullifiers, happly⟩ := notes_of_not_private h hkind
    obtain ⟨hcommitments, hnullifiers, htracked⟩ := notes_of_applyStateDiff (S := S) happly
    rw [hnoCommitments, List.toFinset_nil, Finset.union_empty] at hcommitments
    rw [hnoNullifiers, List.toFinset_nil, Finset.union_empty] at hnullifiers
    refine ⟨htracked hst.tracked hhashed, ?_, ?_⟩
    · rw [hcommitments, hnullifiers]
      exact hst.explained
    · rw [hcommitments, hnullifiers]
      exact hst.initialized

end

/-! ## Genesis and runs -/

/-- The private accounts of a genesis state: commitments with their initialisation
nullifiers. -/
def genesisPrivateAccounts (notes : List (AccountId × Account)) : List (Commitment × Nullifier) :=
  notes.map fun n => (Commitment.new n.1 n.2, Nullifier.forAccountInitialization n.1)

/-- The strings hashed for the private accounts of a genesis state and for the dummy
commitment are in `S`. -/
structure GenesisHashedIn (S : Set Bytes) (notes : List (AccountId × Account)) : Prop where
  dummy : commitmentPreimage ⟨Bytes32.zero⟩ Account.default ∈ S
  commitment : ∀ n ∈ notes, commitmentPreimage n.1 n.2 ∈ S
  nullifier : ∀ n ∈ notes, initNullifierPreimage n.1 ∈ S

section

variable [BuiltinPrograms] {S : Set Bytes} {notes : List (AccountId × Account)}
  {initialData : List (AccountId × U128)} {genesisTimestamp : Timestamp} {st : V03State}

/-- The notes and nullifiers of a genesis state. -/
theorem notes_of_genesis
    (h : V03State.newWithGenesisAccounts initialData (genesisPrivateAccounts notes)
      genesisTimestamp = .ok st) :
    (∀ c, c ∈ st.commitments ↔
      c = dummyCommitment ∨ ∃ n ∈ notes, c = Commitment.new n.1 n.2) ∧
    (∀ n, n ∈ st.nullifierSet ↔
      ∃ note ∈ notes, n = Nullifier.forAccountInitialization note.1) ∧
    (st.commitmentSet.HashedIn S → st.commitmentSet.Tracked S) := by
  obtain ⟨hmem, _, htracked⟩ := CommitmentSet.of_genesis (S := S) h
  simp only [V03State.newWithGenesisAccounts, bind_eq_ok, pure, Except.pure, Except.ok.injEq] at h
  obtain ⟨_, _, _, _, _, _, rfl⟩ := h
  refine ⟨fun c => ?_, fun n => ?_, htracked⟩
  · rw [V03State.mem_commitments, hmem]
    simp only [genesisPrivateAccounts, List.map_map, List.mem_map, Function.comp_apply, eq_comm]
  · simp only [genesisPrivateAccounts, List.map_map, List.mem_toFinset, List.mem_map,
      Function.comp_apply, eq_comm]

theorem notesValid_genesis (hgenesis : GenesisHashedIn S notes)
    (h : V03State.newWithGenesisAccounts initialData (genesisPrivateAccounts notes)
      genesisTimestamp = .ok st) (hhashed : st.commitmentSet.HashedIn S) : NotesValid S st := by
  obtain ⟨hcommitments, hnullifiers, htracked⟩ := notes_of_genesis (S := S) h
  refine ⟨htracked hhashed, fun n hn => ?_, fun c hc => ?_⟩
  · obtain ⟨note, hnote, rfl⟩ := (hnullifiers n).1 hn
    exact .init _ (hgenesis.nullifier note hnote)
  · rcases (hcommitments c).1 hc with rfl | ⟨note, hnote, rfl⟩
    · exact ⟨⟨Bytes32.zero⟩, ⟨_, hgenesis.dummy, rfl⟩, .inr rfl⟩
    · refine ⟨note.1, ⟨_, hgenesis.commitment note hnote, rfl⟩, .inl ?_⟩
      exact (hnullifiers _).2 ⟨note, hnote, rfl⟩

end

/-- An accepted transaction after which the commitment tree hashes within `S`. -/
def AcceptedIn [Zkvm] [Schnorr] (S : Set Bytes) (st : V03State) (e : Event) (st' : V03State) :
    Prop :=
  Accepted st e st' ∧ st'.commitmentSet.HashedIn S

end

/-! ## A run that spends a note -/

namespace SpentNote

def script : Sample.Script := fun _ _ => .error "no such program"

def nsk : NullifierSecretKey := Vector.replicate 32 3

def owner : AccountId :=
  let _ := Sample.sha256
  AccountId.forRegularPrivateAccount (NullifierPublicKey.ofSecretKey nsk) 0

def note : Account := Sample.account (Sample.programId 2) 50

def genesis : V03State :=
  let _ := Sample.sha256; let _ := Sample.builtins
  valueD (Sample.state [] [])
    (V03State.newWithGenesisAccounts [(Sample.accountId 9, 5), (Sample.signer 1, 100)]
      (genesisPrivateAccounts [(owner, note)]) 0)

/-- The owner of the note transfers 20 to the public account `9`, which holds 35. -/
def input : PrivacyPreservingCircuitInput :=
  let _ := Sample.sha256
  ⟨[Sample.output script 2 none [⟨note, true, owner⟩,
      ⟨Sample.account (Sample.programId 2) 35, false, Sample.accountId 9⟩]
      (Sample.transferCodec.toVec (.transfer 20))],
    [.privateAuthorizedUpdate ⟨Vector.replicate 32 0⟩ nsk (1, [hashValue dummyCommitment.value]) 0,
      .publicAccount], Sample.programId 2⟩

def journal : PrivacyPreservingCircuitOutput :=
  let _ := Sample.sha256; let _ := Sample.zkvm script; let _ := Sample.chaCha20
  valueD ⟨[], [], [], [], [], .newUnbounded, .newUnbounded⟩ (circuit input)

/-- A public transfer of 30 to account `9`. -/
def topUp : Event :=
  ⟨.publicTx (Sample.transaction (Sample.programId 2) [Sample.signer 1, Sample.accountId 9]
    (Sample.transferCodec.toVec (.transfer 30)) [1]), 0, 0⟩

/-- The transfer from the note. -/
def spend : Event := ⟨.privacyPreserving (Sample.privateTransaction journal), 0, 0⟩

def toppedUp : V03State :=
  let _ := Sample.sha256; let _ := Sample.provingZkvm script [journal]; let _ := Sample.schnorr
  valueD genesis (genesis.transition topUp)

def final : V03State :=
  let _ := Sample.sha256; let _ := Sample.provingZkvm script [journal]; let _ := Sample.schnorr
  valueD genesis (toppedUp.transition spend)

/-- The strings hashed into the inner nodes of a tree. -/
def pairStrings (t : MerkleTree) : List Bytes :=
  (List.range t.depth).flatMap fun k => (List.range (2 ^ (t.depth - k - 1))).map fun p =>
    nodePreimage (t.nodes.getD (PerfectTree.slot t.capacityDepth k (2 * p)) default)
      (t.nodes.getD (PerfectTree.slot t.capacityDepth k (2 * p + 1)) default)

def treeStrings (st : V03State) : List Bytes :=
  pairStrings st.commitmentSet.merkleTree ++
    st.commitmentSet.commitments.keys.map fun c => leafPreimage c.value

def strings : List Bytes :=
  let _ := Sample.sha256; let _ := Sample.zkvm script
  commitmentPreimage ⟨Bytes32.zero⟩ Account.default :: commitmentPreimage owner note ::
    initNullifierPreimage owner :: (circuitStrings input ++ treeStrings genesis ++
      treeStrings toppedUp ++ treeStrings final)

theorem hashedIn {L : List Bytes} {st : V03State} (h : treeStrings st ⊆ L) :
    let _ := Sample.sha256
    st.commitmentSet.HashedIn { s | s ∈ L } := by
  intro _
  refine ⟨?_, fun c hc => h (List.mem_append_right _ (List.mem_map_of_mem hc))⟩
  rintro s ⟨k, p, hk, hp, rfl⟩
  refine h (List.mem_append_left _ (List.mem_flatMap.2 ⟨k, List.mem_range.2 hk, ?_⟩))
  exact List.mem_map.2 ⟨p, List.mem_range.2 hp, rfl⟩

/-- Both transactions are accepted, and no two of the strings have the same digest. -/
theorem evaluated :
    let _ := Sample.sha256; let _ := Sample.provingZkvm script [journal]; let _ := Sample.schnorr
    let _ := Sample.chaCha20
    ((genesis.transition topUp).isOk = true ∧ (toppedUp.transition spend).isOk = true ∧
      circuit input = .ok journal ∧ ∀ s ∈ circuitStrings input, s ∈ strings) ∧
    (strings.dedup.map sha256).Nodup ∧ Bytes32.zero ∉ strings.dedup.map sha256 := by
  decide +kernel

theorem collisionFree : let _ := Sample.sha256; CollisionFree { s | s ∈ strings } := by
  intro _
  exact collisionFree_of_digests evaluated.2

/-- The only journal with a proof is that of the input. -/
theorem sound (tx : NSSATransaction) :
    let _ := Sample.sha256; let _ := Sample.provingZkvm script [journal]; let _ := Sample.chaCha20
    tx.Sound { s | s ∈ strings } := by
  intro _ _ _
  refine NSSATransaction.sound_of_forall (fun proof verifies journal' hdecode hverifies => ?_) tx
  have hjournal := List.mem_singleton.1 (Sample.mem_of_verifies hdecode hverifies)
  obtain ⟨⟨_, _, hcircuit, hstrings⟩, _⟩ := evaluated
  exact ⟨input, hjournal ▸ hcircuit, hstrings⟩

theorem genesisHashedIn :
    let _ := Sample.sha256
    GenesisHashedIn { s | s ∈ strings } [(owner, note)] := by
  intro _
  refine ⟨List.mem_cons_self, ?_, ?_⟩
  · rintro n hn
    rw [List.mem_singleton.1 hn]
    exact List.mem_cons_of_mem _ List.mem_cons_self
  · rintro n hn
    rw [List.mem_singleton.1 hn]
    exact List.mem_cons_of_mem _ (List.mem_cons_of_mem _ List.mem_cons_self)

theorem genesis_eq :
    let _ := Sample.sha256; let _ := Sample.builtins
    V03State.newWithGenesisAccounts [(Sample.accountId 9, 5), (Sample.signer 1, 100)]
      (genesisPrivateAccounts [(owner, note)]) 0 = .ok genesis := by
  intro _ _
  exact eq_ok_valueD (Sample.state [] []) (by decide +kernel)

theorem run :
    let _ := Sample.sha256; let _ := Sample.provingZkvm script [journal]; let _ := Sample.schnorr
    genesis.commitmentSet.HashedIn { s | s ∈ strings } ∧
      Run (AcceptedIn { s | s ∈ strings }) genesis [topUp, spend] final := by
  intro _ _ _
  have hgenesis : treeStrings genesis ⊆ strings := fun s hs => by simp [strings, hs]
  have htoppedUp : treeStrings toppedUp ⊆ strings := fun s hs => by simp [strings, hs]
  have hfinal : treeStrings final ⊆ strings := fun s hs => by simp [strings, hs]
  obtain ⟨⟨htopUpOk, hspendOk, _⟩, _⟩ := evaluated
  have htopUp := eq_ok_valueD genesis htopUpOk
  have hspend := eq_ok_valueD genesis hspendOk
  refine ⟨hashedIn hgenesis, ?_⟩
  exact (Run.nil.snoc ⟨htopUp, hashedIn htoppedUp⟩).snoc ⟨hspend, hashedIn hfinal⟩

end SpentNote

end ExecutionZone
