import ExecutionZone.Circuit.Accepted

/-!
# The outputs of a circuit input as a walk over its calls

The circuit consumes the outputs it is given in the order of a depth-first walk over the
calls they chain.  `consumptions` pairs each chained call with the output at its place in that
walk and with the output that chained it, from the list of outputs alone, and
`mem_consumptions` says that this is how an accepted input is consumed.

`firstListings` gives the accounts of a transaction in the order and with the marks they are
first listed with.  The marks of all other listings follow from these: `mark_iff`.
-/

namespace ExecutionZone

open CallTree

/-! ## The walk -/

/-- An output consumed for a chained call, with the output that chained the call and the outputs
consumed before. -/
structure Consumption where
  earlier : List ProgramOutput
  caller : ProgramOutput
  call : ChainedCall
  result : ProgramOutput

/-- Pair pending calls with outputs, depth first: the calls an output chains come before
the calls still pending. -/
def walk : List ProgramOutput → List (ProgramOutput × ChainedCall) → List ProgramOutput →
    List Consumption
  | earlier, (caller, call) :: pending, out :: outs => ⟨earlier, caller, call, out⟩ ::
      walk (earlier ++ [out]) (out.chainedCalls.map (out, ·) ++ pending) outs
  | _, _, _ => []

/-- The outputs after the first, each with the chained call at its place. -/
def consumptions : List ProgramOutput → List Consumption
  | [] => []
  | first :: rest => walk [first] (first.chainedCalls.map (first, ·)) rest

/-- What the walk has of an executed call. -/
def consumption (earlier : List ProgramOutput) (caller : ProgramOutput)
    (e : Executed CircuitCall ProgramOutput) : Consumption :=
  ⟨earlier, caller, e.call.call, e.result⟩

/-- The pending call was chained by the output that the walk has for it. -/
def ChainedBy (p : CircuitCall × List (CircuitCall × ProgramOutput))
    (x : ProgramOutput × ChainedCall) : Prop :=
  p.2.head?.map Prod.snd = some x.1 ∧ p.1.call = x.2

/-! ## First listings -/

def addListing (seen : List AccountWithMetadata) (pre : AccountWithMetadata) :
    List AccountWithMetadata :=
  if pre.accountId ∈ seen.map (·.accountId) then seen else seen ++ [pre]

def firstListings (outs : List ProgramOutput) : List AccountWithMetadata :=
  (outs.flatMap (·.preStates)).foldl addListing []

theorem prefix_addListings (seen l : List AccountWithMetadata) :
    seen <+: l.foldl addListing seen := by
  induction l generalizing seen with
  | nil => exact List.prefix_refl _
  | cons pre l ih =>
      refine List.IsPrefix.trans ?_ (ih _)
      unfold addListing
      split
      · exact List.prefix_refl _
      · exact List.prefix_append _ _

theorem ids_addListings (seen l : List AccountWithMetadata) (id : AccountId) :
    id ∈ (l.foldl addListing seen).map (·.accountId) ↔
      id ∈ seen.map (·.accountId) ∨ id ∈ l.map (·.accountId) := by
  induction l generalizing seen with
  | nil => simp
  | cons pre l ih =>
      have hone : id ∈ (addListing seen pre).map (·.accountId) ↔
          id ∈ seen.map (·.accountId) ∨ id = pre.accountId := by
        unfold addListing
        split
        · rename_i hmem
          exact ⟨.inl, fun h => h.elim (fun h => h) fun heq => heq ▸ hmem⟩
        · rw [List.map_append, List.mem_append, List.map_singleton, List.mem_singleton]
      rw [List.foldl_cons, ih, hone, List.map_cons, List.mem_cons, or_assoc]

/-- An account that is not listed before is taken over as it is. -/
theorem mem_addListings {l l' : List AccountWithMetadata} {pre : AccountWithMetadata}
    (h : pre.accountId ∉ l.map (·.accountId)) :
    pre ∈ (l ++ pre :: l').foldl addListing [] := by
  rw [List.foldl_append, List.foldl_cons]
  refine (prefix_addListings _ l').subset ?_
  rw [addListing, if_neg]
  · exact List.mem_append_right _ (List.mem_singleton_self _)
  · rw [ids_addListings]
    exact not_or.2 ⟨List.not_mem_nil, h⟩

/-- `id` is listed with a mark. -/
def MarkedIn (l : List AccountWithMetadata) (id : AccountId) : Prop :=
  ∃ acc ∈ l, acc.accountId = id ∧ acc.isAuthorized = true

instance (l : List AccountWithMetadata) (id : AccountId) : Decidable (MarkedIn l id) :=
  inferInstanceAs (Decidable (∃ acc ∈ l, _))

theorem markedIn_iff_of_mem {l : List AccountWithMetadata} {pre : AccountWithMetadata}
    (hnodup : (l.map (·.accountId)).Nodup) (hpre : pre ∈ l) :
    MarkedIn l pre.accountId ↔ pre.isAuthorized = true := by
  refine ⟨?_, fun hmark => ⟨pre, hpre, rfl, hmark⟩⟩
  rintro ⟨acc, hacc, hid, hmark⟩
  rwa [List.inj_on_of_nodup_map hnodup hacc hpre hid] at hmark

section

variable [Sha256]

theorem Synced.addListing {accountIdentities : List InputAccountIdentity} {programId : ProgramId}
    {caller : Option ProgramId} {seeds : List PdaSeed} {pre : AccountWithMetadata}
    {post : AccountPostState} {es es' : ExecutionState}
    (h : Synced accountIdentities programId caller seeds pre post es es')
    (hwf : es.WellFormed accountIdentities) :
    es'.preStates = ExecutionZone.addListing es.preStates pre := by
  unfold ExecutionZone.addListing
  rcases h.listed with ⟨hnone, hlist⟩ | ⟨hknown, hlist, _⟩
  · rw [if_neg, hlist]
    rw [← hwf.mem_postStates]
    exact AList.lookup_eq_none.1 hnone
  · rw [if_pos, hlist]
    rw [← hwf.mem_postStates, ← AList.lookup_isSome, hknown, Option.isSome_some]

theorem listings_of_validateAndSyncStates {accountIdentities : List InputAccountIdentity}
    {programId : ProgramId} {caller : Option ProgramId} {seeds : List PdaSeed}
    {l : List (AccountWithMetadata × AccountPostState)} {es es' : ExecutionState}
    (h : validateAndSyncStates accountIdentities programId caller seeds es l = .ok es')
    (hwf : es.WellFormed accountIdentities) :
    es'.preStates = (l.map Prod.fst).foldl addListing es.preStates := by
  induction l generalizing es with
  | nil =>
      cases h
      rfl
  | cons p l ih =>
      obtain ⟨pre, post⟩ := p
      obtain ⟨es₁, hsynced, h⟩ := validateAndSyncStates_cons h
      rw [ih h (hsynced.wellFormed hwf), hsynced.addListing hwf, List.map_cons, List.foldl_cons]

/-- The identity supplied for an account. -/
def suppliedIdentity (input : PrivacyPreservingCircuitInput) (id : AccountId) :
    Option InputAccountIdentity :=
  ((firstListings input.programOutputs).findIdx? fun acc => acc.accountId = id).bind
    (input.accountIdentities[·]?)

/-- The npk and identifier supplied for an account, if it is a private PDA. -/
def suppliedNpk (input : PrivacyPreservingCircuitInput) (id : AccountId) :
    Option (NullifierPublicKey × Identifier) :=
  (suppliedIdentity input id).bind (·.npkIfPrivatePda)

/-- `id` is a PDA of `caller` under one of the seeds, in its public form or in the private
form for the npk and identifier supplied for it. -/
def DerivedBy (input : PrivacyPreservingCircuitInput) (caller : ProgramId) (seeds : List PdaSeed)
    (id : AccountId) : Prop :=
  ∃ seed ∈ seeds, id = AccountId.forPublicPda caller seed ∨
    ∃ key ∈ suppliedNpk input id, id = AccountId.forPrivatePda caller seed key.1 key.2

instance (input : PrivacyPreservingCircuitInput) (caller : ProgramId) (seeds : List PdaSeed)
    (id : AccountId) : Decidable (DerivedBy input caller seeds id) :=
  inferInstanceAs (Decidable (∃ seed ∈ seeds, _ ∨ ∃ key ∈ suppliedNpk input id, _))

/-- The seeds that are matched are those that derive the account. -/
theorem isSome_matchedCallerSeed {input : PrivacyPreservingCircuitInput} {id : AccountId}
    {caller : Option ProgramId} {seeds : List PdaSeed} :
    (matchedCallerSeed (suppliedNpk input id) id caller seeds).isSome = true ↔
      ∃ program ∈ caller, DerivedBy input program seeds id := by
  constructor
  · intro h
    obtain ⟨m, hm⟩ := Option.isSome_iff_exists.1 h
    obtain ⟨hcaller, hseed, hform⟩ := matchedCallerSeed_eq_some hm
    refine ⟨m.caller, hcaller, m.seed, hseed, hform.imp And.right ?_⟩
    rintro ⟨_, npk, identifier, hnpk, hid⟩
    exact ⟨(npk, identifier), hnpk, hid⟩
  · rintro ⟨program, hcaller, seed, hseed, hform⟩
    rw [Option.mem_def.1 hcaller, matchedCallerSeed, Option.bind_some, List.findSome?_isSome_iff]
    refine ⟨seed, hseed, ?_⟩
    unfold matchSeed
    split
    · rfl
    · rename_i hpublic
      rcases hform with hid | ⟨key, hkey, hid⟩
      · exact absurd hid.symm hpublic
      · rw [Option.mem_def.1 hkey]
        simp [← hid]

variable [Zkvm]

/-! ## Consumed outputs -/

section

variable {accountIdentities : List InputAccountIdentity}
  {q : List (CircuitCall × List (CircuitCall × ProgramOutput))}
  {s s' : List ProgramOutput × ExecutionState} {calls : List (Executed CircuitCall ProgramOutput)}

theorem Consumed.map_fst_zipped {c : CircuitCall} {out : ProgramOutput} {es es' : ExecutionState}
    (h : Consumed accountIdentities c out es es') : out.zipped.map Prod.fst = out.preStates :=
  List.map_fst_zip (Nat.le_of_eq h.valid.length_eq)

/-- A run that leaves no output consumes the outputs in the order of the walk. -/
theorem mem_walk_of_runs (h : (circuitMachine accountIdentities).Runs q s calls s')
    (hs' : s'.1 = []) {pending : List (ProgramOutput × ChainedCall)}
    (hq : List.Forall₂ ChainedBy q pending) (earlier : List ProgramOutput) (x : Consumption) :
    x ∈ walk earlier pending s.1 ↔ ∃ before e after caller, calls = before ++ e :: after ∧
      e.ancestors.head?.map Prod.snd = some caller ∧
      x = consumption (earlier ++ before.map (·.result)) caller e := by
  induction h generalizing pending earlier with
  | nil s =>
      cases hq
      simp [walk]
  | @cons c anc q s out s₁ calls s₂ hstep _ ih =>
      obtain ⟨hs, _⟩ := consumed_of_step hstep
      cases hq with
      | @cons _ y _ pending hy hq =>
          obtain ⟨caller, call⟩ := y
          obtain ⟨hcaller, rfl⟩ := hy
          have hnext : List.Forall₂ ChainedBy
              ((circuitMachine accountIdentities).issue c anc out ++ q)
              (out.chainedCalls.map (out, ·) ++ pending) := by
            refine List.rel_append ?_ hq
            rw [Machine.issue, circuitMachine, List.map_map]
            exact List.forall₂_map_left_iff.2 (List.forall₂_map_right_iff.2
              (List.forall₂_same.2 fun _ _ => ⟨rfl, rfl⟩))
          rw [hs, walk, List.mem_cons, ih hs' hnext]
          constructor
          · rintro (rfl | ⟨before, e, after, caller', rfl, hcaller', rfl⟩)
            · exact ⟨[], ⟨c, anc, out⟩, calls, caller, rfl, hcaller, by simp [consumption]⟩
            · exact ⟨⟨c, anc, out⟩ :: before, e, after, caller', rfl, hcaller', by simp⟩
          · rintro ⟨before, e, after, caller', heq, hcaller', rfl⟩
            cases before with
            | nil =>
                cases heq
                obtain rfl := Option.some.inj (hcaller.symm.trans hcaller')
                exact .inl (by simp [consumption])
            | cons e' before =>
                cases heq
                exact .inr ⟨before, e, after, caller', rfl, hcaller', by simp⟩

/-- **Consumption.**  An accepted input is consumed as its outputs are paired with the chained
calls. -/
theorem mem_consumptions {input : PrivacyPreservingCircuitInput} {es : ExecutionState}
    (h : deriveFromOutputs input.accountIdentities input.programId input.programOutputs = .ok es)
    (x : Consumption) :
    x ∈ consumptions input.programOutputs ↔
      ∃ before e after caller, consumedCalls input = before ++ e :: after ∧
        e.ancestors.head?.map Prod.snd = some caller ∧
        x = consumption (before.map (·.result)) caller e := by
  obtain ⟨first, rest, _, houts, _, hruns, _⟩ := runs_of_deriveFromOutputs h
  rw [houts] at hruns ⊢
  generalize consumedCalls input = calls at hruns ⊢
  cases hruns with
  | @cons _ _ _ _ out s₁ calls _ hstep hrest =>
      obtain ⟨hs, _⟩ := consumed_of_step hstep
      obtain ⟨rfl, hs₁⟩ := List.cons.inj hs
      have hq : List.Forall₂ ChainedBy ((circuitMachine input.accountIdentities).issue
          (initialCircuitCall input.programId first) [] first ++ [])
          (first.chainedCalls.map (first, ·)) := by
        rw [List.append_nil, Machine.issue, circuitMachine, List.map_map]
        exact List.forall₂_map_left_iff.2 (List.forall₂_map_right_iff.2
          (List.forall₂_same.2 fun _ _ => ⟨rfl, rfl⟩))
      rw [consumptions, hs₁, mem_walk_of_runs hrest rfl hq]
      constructor
      · rintro ⟨before, e, after, caller, rfl, hcaller, rfl⟩
        exact ⟨_ :: before, e, after, caller, rfl, hcaller, by simp⟩
      · rintro ⟨before, e, after, caller, heq, hcaller, rfl⟩
        cases before with
        | nil =>
            cases heq
            cases hcaller
        | cons e' before =>
            cases heq
            exact ⟨before, e, after, caller, rfl, hcaller, by simp⟩

/-- A run consumes outputs in order. -/
theorem results_of_runs (h : (circuitMachine accountIdentities).Runs q s calls s') :
    s.1 = calls.map (·.result) ++ s'.1 := by
  induction h with
  | nil s => rfl
  | cons hstep _ ih =>
      obtain ⟨hs, _⟩ := consumed_of_step hstep
      rw [hs, ih]
      rfl

/-- What is listed when some outputs are consumed. -/
structure ListedAfter (accountIdentities : List InputAccountIdentity)
    (calls : List (Executed CircuitCall ProgramOutput)) (es : ExecutionState) : Prop where
  wellFormed : es.WellFormed accountIdentities
  listed : es.preStates = firstListings (calls.map (·.result))

/-- **Step.**  Consuming an output. -/
theorem Consumed.listedAfter {c : CircuitCall} {out : ProgramOutput} {es es' : ExecutionState}
    (anc : List (CircuitCall × ProgramOutput)) (h : Consumed accountIdentities c out es es')
    (hafter : ListedAfter accountIdentities calls es) :
    ListedAfter accountIdentities (calls ++ [⟨c, anc, out⟩]) es' ∧
      es.preStates <+: es'.preStates := by
  obtain ⟨hwf, hle⟩ := h.wellFormed hafter.wellFormed
  refine ⟨⟨hwf, ?_⟩, hle⟩
  rw [listings_of_validateAndSyncStates h.sync hafter.wellFormed, h.map_fst_zipped, hafter.listed,
    firstListings, firstListings, ← List.foldl_append]
  simp

end

section

variable {input : PrivacyPreservingCircuitInput} {es : ExecutionState}
  (hes : deriveFromOutputs input.accountIdentities input.programId input.programOutputs = .ok es)
include hes

/-- The consumed outputs are those of the input. -/
theorem results_of_deriveFromOutputs :
    (consumedCalls input).map (·.result) = input.programOutputs := by
  obtain ⟨_, _, _, _, _, hruns, _⟩ := runs_of_deriveFromOutputs hes
  exact ((results_of_runs hruns).trans (List.append_nil _)).symm

/-- **Run.**  The accounts of an accepted input are the first listings of its outputs, and those
of an earlier state are the first listings of the outputs before it. -/
theorem listedAfter_of_deriveFromOutputs :
    ListedAfter input.accountIdentities (consumedCalls input) es ∧
      ∀ before c after, consumedCalls input = before ++ c :: after → ∃ es₁ es₂,
        ListedAfter input.accountIdentities before es₁ ∧
        Consumed input.accountIdentities c.call c.result es₁ es₂ ∧
        es₂.preStates <+: es.preStates := by
  obtain ⟨_, _, es₀, _, hes₀, hruns, _⟩ := runs_of_deriveFromOutputs hes
  obtain ⟨hwf, hnil, _⟩ := ExecutionState.wellFormed_initial hes₀
  obtain ⟨⟨hend, _⟩, hcalls⟩ := hruns.history
    (I := fun calls s => ListedAfter input.accountIdentities calls s.2)
    (G := fun s s' => s.2.preStates <+: s'.2.preStates) (fun _ => List.prefix_refl _)
    (fun _ _ _ => List.IsPrefix.trans)
    (fun calls c anc s out s' hI hstep => (consumed_of_step hstep).2.listedAfter anc hI) []
    ⟨hwf, hnil⟩
  refine ⟨hend, fun before c after hsplit => ?_⟩
  obtain ⟨s₁, s₂, hbefore, _, hstep, hle⟩ := hcalls before c after hsplit
  exact ⟨s₁.2, s₂.2, hbefore, (consumed_of_step hstep).2, hle⟩

theorem firstListings_of_deriveFromOutputs : es.preStates = firstListings input.programOutputs := by
  rw [(listedAfter_of_deriveFromOutputs hes).1.listed, results_of_deriveFromOutputs hes]

variable {before after : List (Executed CircuitCall ProgramOutput)}
  {c : Executed CircuitCall ProgramOutput} (hcalls : consumedCalls input = before ++ c :: after)
  {pre : AccountWithMetadata} (hpre : pre ∈ c.result.preStates)
include hcalls hpre

/-- An account that no output lists before has the mark of this listing. -/
theorem mark_of_first
    (hnew : ∀ b ∈ before, pre.accountId ∉ b.result.preStates.map (·.accountId)) :
    MarkedIn (firstListings input.programOutputs) pre.accountId ↔ pre.isAuthorized = true := by
  obtain ⟨hend, hturns⟩ := listedAfter_of_deriveFromOutputs hes
  obtain ⟨_, _, _, hconsumed, _⟩ := hturns before c after hcalls
  rw [← results_of_deriveFromOutputs hes, ← hend.listed]
  refine markedIn_iff_of_mem hend.wellFormed.nodup ?_
  obtain ⟨l, l', hl⟩ := List.append_of_mem hpre
  have hnodup := hconsumed.valid.nodup
  rw [hl, List.map_append, List.map_cons, List.nodup_middle, List.nodup_cons] at hnodup
  rw [hend.listed, firstListings, hcalls]
  simp only [List.map_append, List.map_cons, List.flatMap_append, List.flatMap_cons, hl,
    List.append_assoc, List.cons_append]
  rw [← List.append_assoc]
  refine mem_addListings fun hmem => ?_
  rw [List.map_append, List.mem_append] at hmem
  rcases hmem with hmem | hmem
  · obtain ⟨pre', hpre', hid⟩ := List.mem_map.1 hmem
    obtain ⟨out, hout, hpre'⟩ := List.mem_flatMap.1 hpre'
    obtain ⟨b, hb, rfl⟩ := List.mem_map.1 hout
    exact hnew b hb (hid ▸ List.mem_map_of_mem hpre')
  · exact hnodup.1 (List.mem_append_left _ hmem)

/-- An account that is listed before is marked if it was so at first or a seed of the caller
derives it. -/
theorem mark_of_again
    (hold : ∃ b ∈ before, pre.accountId ∈ b.result.preStates.map (·.accountId)) :
    pre.isAuthorized = true ↔ MarkedIn (firstListings input.programOutputs) pre.accountId ∨
      ∃ caller ∈ c.call.caller, DerivedBy input caller c.call.call.pdaSeeds pre.accountId := by
  obtain ⟨hend, hturns⟩ := listedAfter_of_deriveFromOutputs hes
  obtain ⟨es₁, es₂, hbefore, hconsumed, hle₂⟩ := hturns before c after hcalls
  have hlist := firstListings_of_deriveFromOutputs hes
  obtain ⟨⟨pre', post⟩, hzipped, heq⟩ := List.mem_map.1 (hconsumed.map_fst_zipped.symm ▸ hpre)
  obtain rfl : pre = pre' := heq.symm
  obtain ⟨es₃, es₄, hwf₃, hle₃, hsynced, hle₄⟩ := (related_of_validateAndSyncStates
    (G := fun es es' => es.preStates <+: es'.preStates)
    (fun _ => List.prefix_refl _) (fun _ _ _ => List.IsPrefix.trans)
    (fun _ _ _ _ _ hwf hsynced => ⟨hsynced.wellFormed hwf, hsynced.isPrefix⟩)
    hconsumed.sync hbefore.wellFormed).2 _ hzipped
  have hle : es₃.preStates <+: es.preStates :=
    hsynced.isPrefix.trans (hle₄.trans hle₂)
  have hmem : pre.accountId ∈ es₃.preStates.map (·.accountId) := by
    refine (hle₃.map _).subset ?_
    obtain ⟨b, hb, hid⟩ := hold
    obtain ⟨pre', hpre', hid⟩ := List.mem_map.1 hid
    rw [hbefore.listed, firstListings, ids_addListings]
    refine .inr (List.mem_map.2 ⟨pre', List.mem_flatMap.2 ⟨_, List.mem_map_of_mem hb, hpre'⟩, hid⟩)
  rcases hsynced.listed with ⟨hnone, _⟩ | ⟨_, _, position, previous, hposition, hprevious, hauth⟩
  · rw [← hwf₃.mem_postStates] at hmem
    exact absurd hmem (AList.lookup_eq_none.1 hnone)
  · -- the account keeps its position, and with it the npk that is supplied for it
    have hsupplied : suppliedNpk input pre.accountId =
        privatePdaNpk input.accountIdentities position := by
      have hfind := (ExecutionState.position_of_prefix hle hmem).symm.trans hposition
      rw [ExecutionState.position, hlist] at hfind
      rw [suppliedNpk, suppliedIdentity, hfind, Option.bind_some, privatePdaNpk]
    obtain ⟨previous', hprevious', hid⟩ := ExecutionState.position_eq_some hposition
    obtain rfl := Option.some.inj (hprevious.symm.trans hprevious')
    rw [hauth, Bool.or_eq_true, ← hsupplied, isSome_matchedCallerSeed, ← hlist, ← hid,
      markedIn_iff_of_mem hend.wellFormed.nodup (hle.subset (List.mem_of_getElem? hprevious))]

/-- **Marks.**  A listing is marked exactly if the account was marked at first, or if it was
listed before and a seed of the caller derives it. -/
theorem mark_iff :
    pre.isAuthorized = true ↔ MarkedIn (firstListings input.programOutputs) pre.accountId ∨
      (∃ b ∈ before, pre.accountId ∈ b.result.preStates.map (·.accountId)) ∧
        ∃ caller ∈ c.call.caller, DerivedBy input caller c.call.call.pdaSeeds pre.accountId := by
  by_cases hold : ∃ b ∈ before, pre.accountId ∈ b.result.preStates.map (·.accountId)
  · rw [mark_of_again hes hcalls hpre hold, and_iff_right hold]
  · rw [mark_of_first hes hcalls hpre fun b hb hid => hold ⟨b, hb, hid⟩]
    exact ⟨.inl, fun h => h.resolve_right fun h => hold h.1⟩

end

end

end ExecutionZone
