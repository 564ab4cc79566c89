import ExecutionZone.Transaction.Notes

/-!
# No double spend

Nullifiers are published once.  With what `NotesValid` says about them it follows that a
private account is initialised once, that a note is spent by one transaction, and that an
account has one unspent note.  The last is why a note stands for the state of its account.
-/

namespace ExecutionZone

open NotePool

section

variable [Sha256]

/-- The nullifiers a transaction publishes. -/
def NSSATransaction.nullifiers : NSSATransaction → List Nullifier
  | .privacyPreserving tx => tx.message.newNullifiers.map Prod.fst
  | _ => []

/-- A transaction publishes a nullifier that spends `c`. -/
def Spends (S : Set Bytes) (e : Event) (c : Commitment) : Prop :=
  ∃ n ∈ e.tx.nullifiers, Nullifies S c n

/-- An id of a private account, regular or PDA, hashed within `S`. -/
inductive PrivateId (S : Set Bytes) (id : AccountId) : Prop
  | regular (npk : NullifierPublicKey) (identifier : Identifier)
      (hstring : regularPrivateAccountPreimage npk identifier ∈ S)
      (hid : id = AccountId.forRegularPrivateAccount npk identifier)
  | pda (programId : ProgramId) (seed : PdaSeed) (npk : NullifierPublicKey)
      (identifier : Identifier)
      (hstring : privatePdaPreimage programId seed npk identifier ∈ S)
      (hid : id = AccountId.forPrivatePda programId seed npk identifier)

/-- Each account has at most one unspent note. -/
def OneNote (S : Set Bytes) (st : V03State) : Prop :=
  ∀ id, id.value ≠ Bytes32.zero → ∀ c ∈ st.unspent S, ∀ c' ∈ st.unspent S,
    NoteOf S id c → NoteOf S id c' → c = c'

variable {S : Set Bytes} {st st' : V03State}

theorem PrivateId.ne_zero (hS : CollisionFree S) {id : AccountId} (h : PrivateId S id) :
    id.value ≠ Bytes32.zero := by
  cases h with
  | regular npk identifier hstring hid =>
      rw [hid]
      exact hS.ne_zero _ hstring
  | pda programId seed npk identifier hstring hid =>
      rw [hid]
      exact hS.ne_zero _ hstring

/-- The nullifier of an update depends only on the id and the account it updates. -/
theorem nullifier_eq_of_update {p p' : Entry × NoteUpdate} (hS : CollisionFree S)
    (h : NoteSource S p.1 p.2) (h' : NoteSource S p'.1 p'.2)
    (hupdate : p.1.identity.isUpdate = true) (hupdate' : p'.1.identity.isUpdate = true)
    (hid : p.1.pre.accountId = p'.1.pre.accountId) (haccount : p.1.pre.account = p'.1.pre.account) :
    p.2.nullifier.1 = p'.2.nullifier.1 := by
  cases h with
  | init hinit => rw [hinit] at hupdate; cases hupdate
  | update nsk membershipProof _ hnullifier hkey _ =>
      cases h' with
      | init hinit => rw [hinit] at hupdate'; cases hupdate'
      | update nsk' membershipProof' _ hnullifier' hkey' _ =>
          rw [hid] at hkey
          rw [hnullifier, hnullifier', hkey.unique hS hkey', hid, haccount]
          rfl

section

variable {l : List Entry} {output : PrivacyPreservingCircuitOutput}

/-- The nullifiers of one transaction are distinct: they belong to different accounts. -/
theorem ValidNotes.nodup_nullifiers (hS : CollisionFree S) (h : ValidNotes S l output) :
    ((noteMoves l).map (·.nullifier)).Nodup := by
  rw [noteMoves, List.map_map, List.Nodup, List.pairwise_map]
  have hids := nodup_privateEntries h.nodup
  rw [List.Nodup, List.pairwise_map] at hids
  refine hids.imp_of_mem fun {p p'} hp hp' hne heq => hne ?_
  have hsource := h.source p hp
  have hsource' := h.source p' hp'
  cases hsource with
  | init _ hnullifier _ hstring =>
      cases hsource' with
      | init _ hnullifier' _ hstring' =>
          rw [Function.comp_apply, Function.comp_apply, noteMove, noteMove, hnullifier,
            hnullifier'] at heq
          exact hS.forAccountInitialization_inj hstring hstring' heq
      | update nsk' _ _ hnullifier' _ hstrings' =>
          rw [Function.comp_apply, Function.comp_apply, noteMove, noteMove, hnullifier,
            hnullifier'] at heq
          exact absurd heq.symm
            (hS.forAccountUpdate_ne_init (hstrings' _ (by simp [updateStrings])) hstring)
  | update nsk _ _ hnullifier _ hstrings =>
      have hnote := hstrings _ (show commitmentPreimage p.1.pre.accountId p.1.pre.account ∈ _ by
        simp [updateStrings])
      cases hsource' with
      | init _ hnullifier' _ hstring' =>
          rw [Function.comp_apply, Function.comp_apply, noteMove, noteMove, hnullifier,
            hnullifier'] at heq
          exact absurd heq
            (hS.forAccountUpdate_ne_init (hstrings _ (by simp [updateStrings])) hstring')
      | update nsk' _ _ hnullifier' _ hstrings' =>
          rw [Function.comp_apply, Function.comp_apply, noteMove, noteMove, hnullifier,
            hnullifier'] at heq
          have hsame := (hS.forAccountUpdate_inj (hstrings _ (by simp [updateStrings]))
            (hstrings' _ (by simp [updateStrings])) heq).1
          exact NoteOf.unique hS ⟨_, hnote, rfl⟩
            ⟨_, hstrings' _ (by simp [updateStrings]), hsame⟩

/-- **Step.**  Valid moves keep one unspent note per account. -/
theorem OneNote.moves (hS : CollisionFree S) (hst : NotesValid S st) (hone : OneNote S st)
    (h : ValidNotes S l output)
    (hmoves : ValidMoves (Nullifies S) st.commitments st.nullifierSet (noteMoves l))
    (hnew : ∀ m ∈ noteMoves l, m.nullifier ∉ st.nullifierSet)
    (hcommitments : st'.commitments = st.commitments ∪ ((noteMoves l).map (·.target)).toFinset)
    (hnullifiers : st'.nullifierSet = st.nullifierSet ∪
      ((noteMoves l).map (·.nullifier)).toFinset) : OneNote S st' := by
  intro id hid c hc c' hc' hnote hnote'
  rw [V03State.unspent, hcommitments, hnullifiers, hmoves.mem_unspent] at hc hc'
  -- an account with an old unspent note left over gets no new note
  have hclash : ∀ c, c ∈ st.unspent S → c ∉ (noteMoves l).filterMap (·.source) →
      NoteOf S id c → ∀ p ∈ privateEntries l, ¬NoteOf S id (newCommitment p) := by
    intro c hc hleft hnote p hp hnew'
    obtain ⟨hown, _⟩ := h.initialized hS hst hmoves p hp
    have heq : id = p.1.pre.accountId := hnew'.unique hS hown
    subst heq
    have hmem := List.mem_map_of_mem (f := noteMove) hp
    have hsource := h.source p hp
    cases hsource with
    | init _ hnullifier =>
        obtain ⟨id, hnote₀, hinit⟩ := hst.initialized c (NotePool.mem_unspent.1 hc).1
        have hid₀ := hnote₀.unique hS hnote
        subst hid₀
        have hfresh := hnew _ hmem
        rw [noteMove, hnullifier] at hfresh
        exact hfresh (hinit.resolve_right hid)
    | update nsk membershipProof hidentity _ _ hstrings =>
        have hsource : p.1.source = some (Commitment.new p.1.pre.accountId p.1.pre.account) := by
          simp [Entry.source, hidentity]
        have heq := hone _ hid c hc _ (hmoves.source_mem _ hmem _ hsource) hnote
          ⟨_, hstrings _ (by simp [updateStrings]), rfl⟩
        exact hleft (List.mem_filterMap.2 ⟨_, hmem, heq ▸ hsource⟩)
  have htarget : ∀ c ∈ (noteMoves l).map (·.target), ∃ p ∈ privateEntries l, newCommitment p = c := by
    intro c hc
    rw [noteMoves, List.map_map] at hc
    exact List.mem_map.1 hc
  rcases hc with ⟨hc, hleft⟩ | hc
  · rcases hc' with ⟨hc', _⟩ | hc'
    · exact hone id hid c hc c' hc' hnote hnote'
    · obtain ⟨p, hp, rfl⟩ := htarget c' hc'
      exact absurd hnote' (hclash c hc hleft hnote p hp)
  · obtain ⟨p, hp, rfl⟩ := htarget c hc
    rcases hc' with ⟨hc', hleft⟩ | hc'
    · exact absurd hnote (hclash c' hc' hleft hnote' p hp)
    · obtain ⟨p', hp', rfl⟩ := htarget c' hc'
      have heq := hnote.unique hS (h.initialized hS hst hmoves p hp).1
      have heq' := hnote'.unique hS (h.initialized hS hst hmoves p' hp').1
      have hsame : p = p' := List.inj_on_of_nodup_map (nodup_privateEntries h.nodup) hp hp'
        (heq.symm.trans heq')
      rw [hsame]

end

/-! ## Runs -/

section

variable [Zkvm] [ChaCha20] [Schnorr]

/-- What an accepted transaction does to the nullifiers. -/
theorem nullifiers_of_accepted (hS : CollisionFree S) (hst : NotesValid S st) {e : Event}
    (hsound : e.tx.Sound S) (h : Accepted st e st') :
    e.tx.nullifiers.Nodup ∧ (∀ n ∈ e.tx.nullifiers, n ∉ st.nullifierSet) ∧
      st'.nullifierSet = st.nullifierSet ∪ e.tx.nullifiers.toFinset ∧
      (∀ c, Spends S e c → c ∈ st.unspent S) ∧ (OneNote S st → OneNote S st') := by
  by_cases hkind : ∃ tx, e.tx = .privacyPreserving tx
  · obtain ⟨tx, htx⟩ := hkind
    obtain ⟨_, blockId, timestamp⟩ := e
    cases htx
    obtain ⟨hvalid, _⟩ := validPrivate_of_transition (show _ = _ from h)
    obtain ⟨l, hnotes, hmoves, hpublished, hcommitments, hnullifiers⟩ :=
      moves_of_private hS hst hsound (show _ = _ from h)
    have hnew : ∀ n ∈ tx.message.newNullifiers.map Prod.fst, n ∉ st.nullifierSet := by
      intro n hn
      obtain ⟨p, hp, rfl⟩ := List.mem_map.1 hn
      exact (hvalid.nullifiers_new p hp).1
    simp only [NSSATransaction.nullifiers]
    rw [hpublished] at hnew ⊢
    refine ⟨hnotes.nodup_nullifiers hS, hnew, hnullifiers, ?_, fun hone => ?_⟩
    · rintro c ⟨n, hn, hc⟩
      rw [NSSATransaction.nullifiers, hpublished] at hn
      obtain ⟨m, hm, rfl⟩ := List.mem_map.1 hn
      exact hmoves.source_mem m hm c ((hmoves.nullifies_iff m hm c).1 hc)
    · exact hone.moves hS hst hnotes hmoves (fun m hm => hnew _ (List.mem_map_of_mem hm))
        hcommitments hnullifiers
  · rw [not_exists] at hkind
    have hnone : e.tx.nullifiers = [] := by
      cases htx : e.tx with
      | publicTx tx => rfl
      | privacyPreserving tx => exact absurd htx (hkind tx)
      | programDeployment tx => rfl
    obtain ⟨diff, hnoCommitments, hnoNullifiers, happly⟩ := notes_of_not_private h hkind
    obtain ⟨hcommitments, hnullifiers, _⟩ := notes_of_applyStateDiff (S := S) happly
    rw [hnoCommitments, List.toFinset_nil, Finset.union_empty] at hcommitments
    rw [hnoNullifiers] at hnullifiers
    rw [hnone]
    refine ⟨List.nodup_nil, by simp, hnullifiers, ?_, fun hone => ?_⟩
    · rintro c ⟨n, hn, _⟩
      rw [hnone] at hn
      cases hn
    · rw [List.toFinset_nil, Finset.union_empty] at hnullifiers
      rw [OneNote, V03State.unspent, hcommitments, hnullifiers]
      exact hone

/-- All nullifiers published in a run, with those of the genesis state. -/
def published (notes : List (AccountId × Account)) (events : List Event) : List Nullifier :=
  notes.map (fun n => Nullifier.forAccountInitialization n.1) ++
    events.flatMap (·.tx.nullifiers)

/-- What is kept over a run. -/
structure SpentOnce (S : Set Bytes) (notes : List (AccountId × Account)) (events : List Event)
    (st : V03State) : Prop where
  valid : NotesValid S st
  oneNote : OneNote S st
  nodup : (published notes events).Nodup
  mem : ∀ n ∈ published notes events, n ∈ st.nullifierSet
  pairwise : ∀ c, events.Pairwise fun e e' => ¬(Spends S e c ∧ Spends S e' c)

variable {notes : List (AccountId × Account)} {events : List Event}

theorem SpentOnce.snoc (hS : CollisionFree S) (h : SpentOnce S notes events st) {e : Event}
    (hsound : e.tx.Sound S) (hstep : AcceptedIn S st e st') :
    SpentOnce S notes (events ++ [e]) st' := by
  obtain ⟨hnodup, hnew, hnullifiers, hspends, hone⟩ :=
    nullifiers_of_accepted hS h.valid hsound hstep.1
  have hpublished : published notes (events ++ [e]) = published notes events ++ e.tx.nullifiers := by
    simp [published, List.append_assoc]
  refine ⟨h.valid.step hS hsound hstep.1 hstep.2, hone h.oneNote, ?_, ?_, fun c => ?_⟩
  · rw [hpublished]
    refine h.nodup.append hnodup ?_
    exact fun n hn hn' => hnew n hn' (h.mem n hn)
  · intro n hn
    rw [hpublished] at hn
    rw [hnullifiers, Finset.mem_union, List.mem_toFinset]
    exact (List.mem_append.1 hn).imp_left (h.mem n)
  · rw [List.pairwise_append]
    refine ⟨h.pairwise c, List.pairwise_singleton _ _, ?_⟩
    -- what an earlier transaction spent is not unspent any more
    rintro e₁ he₁ e₂ he₂ ⟨⟨n, hn, hc⟩, hspends₂⟩
    rw [List.mem_singleton.1 he₂] at hspends₂
    refine (NotePool.mem_unspent.1 (hspends c hspends₂)).2 ⟨n, h.mem n ?_, hc⟩
    exact List.mem_append_right _ (List.mem_flatMap.2 ⟨e₁, he₁, hn⟩)

end

section

variable [BuiltinPrograms] {notes : List (AccountId × Account)}
  {initialData : List (AccountId × U128)} {genesisTimestamp : Timestamp}

theorem spentOnce_genesis (hS : CollisionFree S)
    (hgenesis : V03State.newWithGenesisAccounts initialData (genesisPrivateAccounts notes)
      genesisTimestamp = .ok st) (hids : (notes.map Prod.fst).Nodup)
    (hstrings : GenesisHashedIn S notes) (hhashed : st.commitmentSet.HashedIn S) :
    SpentOnce S notes [] st := by
  obtain ⟨hcommitments, hnullifiers, _⟩ := notes_of_genesis (S := S) hgenesis
  refine ⟨notesValid_genesis hstrings hgenesis hhashed, ?_, ?_, ?_, fun c => .nil⟩
  · intro id hid c hc c' hc' hnote hnote'
    -- a note of an account other than the dummy one is in the list
    have hlisted : ∀ c ∈ st.unspent S, NoteOf S id c →
        ∃ n ∈ notes, n.1 = id ∧ c = Commitment.new n.1 n.2 := by
      intro c hc hnote
      rcases (hcommitments c).1 (NotePool.mem_unspent.1 hc).1 with rfl | ⟨n, hn, rfl⟩
      · have hzero : id = ⟨Bytes32.zero⟩ := hnote.unique hS ⟨_, hstrings.dummy, rfl⟩
        exact absurd (congrArg AccountId.value hzero) hid
      · exact ⟨n, hn, NoteOf.unique hS ⟨_, hstrings.commitment n hn, rfl⟩ hnote, rfl⟩
    obtain ⟨n, hn, hid, rfl⟩ := hlisted c hc hnote
    obtain ⟨n', hn', hid', rfl⟩ := hlisted c' hc' hnote'
    rw [List.inj_on_of_nodup_map hids hn hn' (hid.trans hid'.symm)]
  · rw [published, List.flatMap_nil, List.append_nil, List.Nodup, List.pairwise_map]
    rw [List.Nodup, List.pairwise_map] at hids
    refine hids.imp_of_mem fun {n n'} hn hn' hne heq => hne ?_
    exact hS.forAccountInitialization_inj (hstrings.nullifier n hn) (hstrings.nullifier n' hn') heq
  · intro n hn
    rw [published, List.flatMap_nil, List.append_nil] at hn
    obtain ⟨note, hnote, rfl⟩ := List.mem_map.1 hn
    exact (hnullifiers _).2 ⟨note, hnote, rfl⟩

/-- **No double spend.**  Over every run of accepted transactions from a genesis state with
distinct private accounts: an account is initialised at most once, in the genesis state or
by a transaction; no two transactions spend the same note; a private account has at most one
unspent note; and the nullifier of an update depends only on the id and the account. -/
theorem no_double_spend [Zkvm] [ChaCha20] [Schnorr] (hS : CollisionFree S)
    {st₀ : V03State}
    (hgenesis : V03State.newWithGenesisAccounts initialData (genesisPrivateAccounts notes)
      genesisTimestamp = .ok st₀) (hids : (notes.map Prod.fst).Nodup)
    (hstrings : GenesisHashedIn S notes) (hhashed : st₀.commitmentSet.HashedIn S)
    {events : List Event} (hsound : SoundProofs S events)
    (hrun : Run (AcceptedIn S) st₀ events st) :
    (∀ id, (published notes events).count (Nullifier.forAccountInitialization id) ≤ 1) ∧
    (∀ c, events.Pairwise fun e e' => ¬(Spends S e c ∧ Spends S e' c)) ∧
    (∀ id, PrivateId S id → ∀ c ∈ st.unspent S, ∀ c' ∈ st.unspent S,
      NoteOf S id c → NoteOf S id c' → c = c') ∧
    (∀ input output input' output', circuit input = .ok output → circuit input' = .ok output' →
      (∀ s ∈ circuitStrings input, s ∈ S) → (∀ s ∈ circuitStrings input', s ∈ S) →
      ∀ p ∈ privateEntries (circuitEntries input), ∀ p' ∈ privateEntries (circuitEntries input'),
      p.1.identity.isUpdate = true → p'.1.identity.isUpdate = true →
      p.1.pre.accountId = p'.1.pre.accountId → p.1.pre.account = p'.1.pre.account →
      p.2.nullifier.1 = p'.2.nullifier.1) := by
  have hspent : SpentOnce S notes events st := by
    induction hrun with
    | nil => exact spentOnce_genesis hS hgenesis hids hstrings hhashed
    | snoc _ hstep ih =>
        obtain ⟨hsound, hlast⟩ := soundProofs_concat.1 hsound
        exact (ih hsound).snoc hS hlast hstep
  refine ⟨fun id => List.nodup_iff_count_le_one.1 hspent.nodup _, hspent.pairwise,
    fun id hid => hspent.oneNote id (hid.ne_zero hS), ?_⟩
  intro input output input' output' h h' hin hin' p hp p' hp'
  exact nullifier_eq_of_update hS ((validNotes_of_circuit h hin).source p hp)
    ((validNotes_of_circuit h' hin').source p' hp')

end

end

/-- The run that spends a note spends it once. -/
theorem no_double_spend_spent_note :
    let _ := Sample.sha256; let _ := Sample.provingZkvm SpentNote.script [SpentNote.journal]
    let _ := Sample.chaCha20; let _ := Sample.schnorr; let _ := Sample.builtins
    Run (AcceptedIn { s | s ∈ SpentNote.strings }) SpentNote.genesis
        [SpentNote.topUp, SpentNote.spend] SpentNote.final ∧
      (published [(SpentNote.owner, SpentNote.note)] [SpentNote.topUp, SpentNote.spend]).count
        (Nullifier.forAccountInitialization SpentNote.owner) ≤ 1 := by
  intro _ _ _ _ _
  exact ⟨SpentNote.run.2, (no_double_spend SpentNote.collisionFree SpentNote.genesis_eq
    (List.nodup_singleton _) SpentNote.genesisHashedIn SpentNote.run.1
    (fun e _ => SpentNote.sound e.tx) SpentNote.run.2).1 SpentNote.owner⟩

end ExecutionZone
