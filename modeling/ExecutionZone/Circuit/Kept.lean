import ExecutionZone.Circuit.Delegation
import ExecutionZone.Circuit.Entries

/-!
# The public accounts of a circuit input

What the outputs of an accepted input can do to an account that is supplied as a public
one.  They lead from the value the account is first listed with to the one it is revealed with
(`history_of_circuit`), so a property no output breaks is kept, and a mark that its first
listing does not have comes from a seed of the caller (`derived_of_marked`).  The same history is
that of a private account if it has an owner.
-/

namespace ExecutionZone

open CallTree

/-- A consumed call. -/
def CircuitCall.programCall (e : Executed CircuitCall ProgramOutput) : ProgramCall :=
  ⟨e.call.call.programId, e.result⟩

variable [Sha256]

/-- The value of the account `id` is related to the one it was first listed with. -/
structure ExecutionState.Reached (R : Account → Account → Prop) (id : AccountId)
    (es : ExecutionState) : Prop where
  listed : ∀ pre ∈ es.preStates, pre.accountId = id → R pre.account (es.postStates.get id)
  /-- What is known of an account that was not listed yet holds whatever its value is. -/
  unlisted : id ∉ es.preStates.map (·.accountId) → ∀ a, R a a

section

variable {accountIdentities : List InputAccountIdentity} {programId : ProgramId}
  {caller : Option ProgramId} {seeds : List PdaSeed} {pre : AccountWithMetadata}
  {post : AccountPostState} {es es' final : ExecutionState} {R R' : Account → Account → Prop}
  {id : AccountId}

omit [Sha256] in
/-- An account that is public in the end was so when it was listed. -/
theorem ExecutionState.PublicAt.of_prefix (h : final.PublicAt accountIdentities id)
    (hearlier : es.preStates <+: final.preStates) (hid : id ∈ es.preStates.map (·.accountId)) :
    es.PublicAt accountIdentities id := by
  obtain ⟨position, hposition, hpublic⟩ := h
  exact ⟨position, (ExecutionState.position_of_prefix hearlier hid).trans hposition, hpublic⟩

omit [Sha256] in
theorem ExecutionState.Reached.mono (h : es.Reached R id) (hR : ∀ a b, R a b → R' a b) :
    es.Reached R' id :=
  ⟨fun pre hpre hid => hR _ _ (h.listed pre hpre hid), fun hid a => hR _ _ (h.unlisted hid a)⟩

/-- **Step.**  Taking over an account. -/
theorem Synced.reached (h : Synced accountIdentities programId caller seeds pre post es es')
    (hwf : es.WellFormed accountIdentities) (hearlier : es'.preStates <+: final.preStates)
    (hsame : pre.accountId = id → ∀ a account, R a pre.account →
      Settled programId (final.PublicAt accountIdentities id) pre post account → R' a account)
    (hother : pre.accountId ≠ id → ∀ a b, R a b → R' a b) (hR : es.Reached R id) :
    es'.Reached R' id := by
  obtain ⟨account, hsettled, hposts⟩ := h.settled
  have hlisted : pre.accountId ∈ es'.preStates.map (·.accountId) := by
    rw [← (h.wellFormed hwf).mem_postStates, hposts, AList.mem_insert]
    exact .inl rfl
  by_cases heq : pre.accountId = id
  · subst heq
    refine ⟨fun first hfirst hid => ?_, fun hnot => absurd hlisted hnot⟩
    have hget : Accounts.get (es.postStates.insert pre.accountId account) pre.accountId =
        account := Ledger.get_insert_self _ _
    rw [hposts, hget]
    refine hsame rfl _ account ?_ (hsettled.of_imp fun h => h.of_prefix hearlier hlisted)
    rcases h.listed with ⟨hnone, hlist⟩ | ⟨hknown, hlist, _⟩
    · -- newly listed, so this is the first listing
      have hnew : pre.accountId ∉ es.preStates.map (·.accountId) := by
        rw [← hwf.mem_postStates]
        exact AList.lookup_eq_none.1 hnone
      rw [hlist] at hfirst
      rcases List.mem_append.1 hfirst with hmem | hmem
      · exact absurd (hid ▸ List.mem_map_of_mem hmem) hnew
      · rw [List.mem_singleton.1 hmem]
        exact hR.unlisted hnew _
    · have hold := hR.listed first (hlist ▸ hfirst) hid
      rwa [Accounts.get, Ledger.get, hknown, Option.getD_some] at hold
  · refine ⟨fun first hfirst hid => hother heq _ _ ?_, fun hnot a => hother heq _ _ ?_⟩
    · have hget : Accounts.get (es.postStates.insert pre.accountId account) id =
          es.postStates.get id := Ledger.get_insert_of_ne _ (Ne.symm heq)
      rw [hposts, hget]
      refine hR.listed first ?_ hid
      rcases h.listed with ⟨_, hlist⟩ | ⟨_, hlist, _⟩
      · rw [hlist] at hfirst
        rcases List.mem_append.1 hfirst with hmem | hmem
        · exact hmem
        · exact absurd ((congrArg _ (List.mem_singleton.1 hmem)).symm.trans hid) heq
      · exact hlist ▸ hfirst
    · exact hR.unlisted (fun hmem => hnot ((h.isPrefix.map _).subset hmem)) a

theorem prefix_of_validateAndSyncStates {l : List (AccountWithMetadata × AccountPostState)}
    (h : validateAndSyncStates accountIdentities programId caller seeds es l = .ok es') :
    es.preStates <+: es'.preStates :=
  (related_of_validateAndSyncStates (I := fun _ => True)
    (G := fun es es' => es.preStates <+: es'.preStates) (fun _ => List.prefix_refl _)
    (fun _ _ _ => List.IsPrefix.trans) (fun _ _ _ _ _ _ hsynced => ⟨trivial, hsynced.isPrefix⟩)
    h trivial).1.2

/-- The accounts of an output, which are distinct. -/
theorem reached_of_validateAndSyncStates {l : List (AccountWithMetadata × AccountPostState)}
    (h : validateAndSyncStates accountIdentities programId caller seeds es l = .ok es')
    (hwf : es.WellFormed accountIdentities) (hearlier : es'.preStates <+: final.preStates)
    (hnodup : (l.map (·.1.accountId)).Nodup)
    (hsame : ∀ p ∈ l, p.1.accountId = id → ∀ a account, R a p.1.account →
      Settled programId (final.PublicAt accountIdentities id) p.1 p.2 account → R' a account)
    (hother : id ∉ l.map (·.1.accountId) → ∀ a b, R a b → R' a b) (hR : es.Reached R id) :
    es'.Reached R' id := by
  induction l generalizing es R with
  | nil =>
      cases h
      exact hR.mono (hother List.not_mem_nil)
  | cons p l ih =>
      obtain ⟨pre, post⟩ := p
      obtain ⟨es₁, hsynced, h⟩ := validateAndSyncStates_cons h
      have hearlier₁ := (prefix_of_validateAndSyncStates h).trans hearlier
      obtain ⟨hnot, hnodup⟩ := List.nodup_cons.1 hnodup
      by_cases heq : pre.accountId = id
      · -- no further account of the output is this one
        have hR₁ : es₁.Reached R' id := hsynced.reached hwf hearlier₁
          (hsame _ List.mem_cons_self) (fun hne => absurd heq hne) hR
        refine ih h (hsynced.wellFormed hwf) hnodup (fun p hp hid => ?_) (fun _ _ _ hb => hb) hR₁
        exact absurd (List.mem_map.2 ⟨p, hp, hid.trans heq.symm⟩) hnot
      · have hR₁ : es₁.Reached R id := hsynced.reached hwf hearlier₁
          (fun hid => absurd hid heq) (fun _ _ _ hb => hb) hR
        refine ih h (hsynced.wellFormed hwf) hnodup
          (fun p hp => hsame p (List.mem_cons_of_mem _ hp)) (fun hid => hother ?_) hR₁
        rw [List.map_cons, List.mem_cons, not_or]
        exact ⟨Ne.symm heq, hid⟩

variable [Zkvm]

omit [Zkvm] in
variable (id) in
/-- The past calls lead from `a` to `b`.  Claims on private accounts are not checked, but on an
account with an owner none is granted. -/
def Lived (isPublic : Prop) (past : List ProgramCall) (a b : Account) : Prop :=
  isPublic ∨ a.programOwner ≠ defaultProgramId → Run (ProgramCall.Turns id) a past b ∧
    (a.programOwner ≠ defaultProgramId → b.programOwner ≠ defaultProgramId)

omit [Zkvm] in
theorem Lived.listed {isPublic : Prop} {past : List ProgramCall} {a account : Account}
    {out : ProgramOutput} {p : AccountWithMetadata × AccountPostState}
    (h : Lived id isPublic past a p.1.account) (hp : p ∈ out.zipped) (hid : p.1.accountId = id)
    (hpair : ValidPair programId p.1.account p.2.account)
    (hsettled : Settled programId isPublic p.1 p.2 account) :
    Lived id isPublic (past ++ [⟨programId, out⟩]) a account := by
  intro hcase
  obtain ⟨hrun, howner⟩ := h hcase
  have hgranted : Granted programId p.1 p.2 account := by
    rcases hcase with hpublic | hne
    · exact hsettled.granted hpublic
    · exact hsettled.granted_of_owned hpair (howner hne)
  refine ⟨hrun.snoc (.listed hp hid rfl hgranted), fun hne => ?_⟩
  rw [hgranted.owned hpair (howner hne), hpair.owner]
  exact howner hne

/-- **Run.**  The outputs of an input, one after the other. -/
theorem history_of_circuitRuns {q : List (CircuitCall × List (CircuitCall × ProgramOutput))}
    {s s' : List ProgramOutput × ExecutionState}
    {calls : List (Executed CircuitCall ProgramOutput)}
    (h : (circuitMachine accountIdentities).Runs q s calls s')
    (hwf : s.2.WellFormed accountIdentities) {past : List ProgramCall}
    (hpast : s.2.Reached (Lived id (s'.2.PublicAt accountIdentities id) past) id) :
    s'.2.Reached (Lived id (s'.2.PublicAt accountIdentities id)
      (past ++ calls.map CircuitCall.programCall)) id := by
  induction h generalizing past with
  | nil s => simpa using hpast
  | @cons c anc q s out s₁ calls s' hstep hrest ih =>
      obtain ⟨_, hconsumed⟩ := consumed_of_step hstep
      obtain ⟨hwf₁, _⟩ := hconsumed.wellFormed hwf
      have hearlier : s₁.2.preStates <+: s'.2.preStates :=
        (hrest.step_between (I := fun s => s.2.WellFormed accountIdentities)
          (G := fun s s' => s.2.preStates <+: s'.2.preStates) (fun _ => List.prefix_refl _)
          (fun _ _ _ => List.IsPrefix.trans)
          (fun _ _ _ _ hwf hstep => (consumed_of_step hstep).2.wellFormed hwf) hwf₁).1.2
      have hids : out.zipped.map (·.1.accountId) = out.preStates.map (·.accountId) :=
        Ledger.map_zip_fst (Nat.le_of_eq hconsumed.valid.length_eq) _
      have hR₁ : s₁.2.Reached (Lived id (s'.2.PublicAt accountIdentities id)
          (past ++ [⟨c.call.programId, out⟩])) id := by
        refine reached_of_validateAndSyncStates hconsumed.sync hwf hearlier
          (hids ▸ hconsumed.valid.nodup) (fun p hp hid a account ha hsettled => ?_)
          (fun hid a b hb hcase => ?_) hpast
        · exact ha.listed hp hid (hconsumed.valid.pair p hp) hsettled
        · exact (hb hcase).imp_left fun hrun => hrun.snoc (.unlisted (hids ▸ hid))
      have hrest := ih hwf₁ hR₁
      rwa [List.append_assoc] at hrest

end

/-! ## Accepted inputs -/

/-- Only public accounts contribute nothing to the notes. -/
theorem identity_of_noteUpdate {bound : Ledger.Map Nat (ProgramId × PdaSeed)} {position : Nat}
    {pre : AccountWithMetadata} {identity : InputAccountIdentity}
    (h : noteUpdate bound position pre identity = .ok none) : identity = .publicAccount := by
  cases identity with
  | publicAccount => rfl
  | privateAuthorizedInit | privateAuthorizedUpdate | privateUnauthorized | privatePdaInit
  | privatePdaUpdate =>
      simp only [noteUpdate, bind_eq_ok, ensure_eq_ok, expect_eq_ok, exists_const, pure,
        Except.pure, Except.ok.injEq, reduceCtorEq, and_false, exists_false] at h

section

variable [Zkvm] [ChaCha20] {input : PrivacyPreservingCircuitInput}
  {output : PrivacyPreservingCircuitOutput}

/-- A public entry is an account of the final state, supplied as public at its position. -/
theorem public_of_mem_publicEntries (h : circuit input = .ok output) {e : Entry}
    (he : e ∈ publicEntries (circuitEntries input)) :
    ∃ es, deriveFromOutputs input.accountIdentities input.programId input.programOutputs =
        .ok es ∧
      es.WellFormed input.accountIdentities ∧
      es.position e.pre.accountId = some e.position ∧
      es.PublicAt input.accountIdentities e.pre.accountId ∧ e.pre ∈ es.preStates ∧
      e.post = es.postStates.get e.pre.accountId := by
  obtain ⟨es, hes, hentries, _, hupdates, _⟩ := emitted_of_circuit h
  obtain ⟨he, hnone⟩ := List.mem_filter.1 he
  have hidentity := identity_of_noteUpdate
    ((hupdates e he).trans (by rw [Option.isNone_iff_eq_none.1 hnone]))
  rw [hentries] at he
  obtain ⟨hget, hpre, hpost⟩ := ExecutionState.of_mem_entries he
  obtain ⟨hwf, _⟩ := wellFormed_of_deriveFromOutputs hes
  have hposition := ExecutionState.position_of_mem_entries hwf he
  rw [hidentity] at hget
  exact ⟨es, hes, hwf, hposition, ⟨e.position, hposition, hget⟩, List.mem_of_getElem? hpre, hpost⟩

/-- **Accounts in the circuit.**  The consumed calls lead from the value an account is listed with
to its final one, if it is public or has an owner. -/
theorem history_of_entry (h : circuit input = .ok output) {e : Entry}
    (he : e ∈ circuitEntries input)
    (hcase : e ∈ publicEntries (circuitEntries input) ∨
      e.pre.account.programOwner ≠ defaultProgramId) :
    Run (ProgramCall.Turns e.pre.accountId) e.pre.account
      ((consumedCalls input).map CircuitCall.programCall) e.post := by
  obtain ⟨es, hes, hentries, _⟩ := emitted_of_circuit h
  obtain ⟨_, hpre, hpost⟩ := ExecutionState.of_mem_entries (hentries ▸ he)
  obtain ⟨_, _, es₀, _, hes₀, hruns, _⟩ := runs_of_deriveFromOutputs hes
  obtain ⟨hwf, hnil, _⟩ : es₀.WellFormed input.accountIdentities ∧ es₀.preStates = [] ∧ _ :=
    ExecutionState.wellFormed_initial hes₀
  have hstart : es₀.Reached (Lived e.pre.accountId
      (es.PublicAt input.accountIdentities e.pre.accountId) []) e.pre.accountId := by
    refine ⟨fun first hfirst => ?_, fun _ _ _ => ⟨.nil, id⟩⟩
    rw [hnil] at hfirst
    cases hfirst
  rw [hpost]
  refine ((history_of_circuitRuns hruns hwf hstart).listed e.pre (List.mem_of_getElem? hpre) rfl
    (hcase.imp_left fun hpublic => ?_)).1
  obtain ⟨es', hes', _, _, hpublic, _⟩ := public_of_mem_publicEntries h hpublic
  rw [hes, Except.ok.injEq] at hes'
  exact hes' ▸ hpublic

/-- The consumed calls lead from the value a public account is listed with to the one it is
revealed with. -/
theorem history_of_circuit (h : circuit input = .ok output) {e : Entry}
    (he : e ∈ publicEntries (circuitEntries input)) :
    Run (ProgramCall.Turns e.pre.accountId) e.pre.account
      ((consumedCalls input).map CircuitCall.programCall) e.post :=
  history_of_entry h (List.mem_filter.1 he).1 (.inl he)

theorem kept_of_circuit (h : circuit input = .ok output) {e : Entry}
    (he : e ∈ publicEntries (circuitEntries input)) {Q : Account → Prop}
    (hkeeps : ∀ c ∈ consumedCalls input,
      c.result.Keeps Q e.pre.accountId c.call.call.programId)
    (hQ : Q e.pre.account) : Q e.post :=
  kept_of_history (history_of_circuit h he) (List.forall_mem_map.2 hkeeps) hQ

/-- An account that is public and not marked at first can only be marked for a callee, as a
PDA of its caller. -/
theorem derived_of_marked (h : circuit input = .ok output) {e : Entry}
    (he : e ∈ publicEntries (circuitEntries input)) (hfirst : e.pre.isAuthorized = false)
    {c : Executed CircuitCall ProgramOutput} (hc : c ∈ consumedCalls input)
    {pre : AccountWithMetadata} (hpre : pre ∈ c.result.preStates)
    (hid : pre.accountId = e.pre.accountId) (hmark : pre.isAuthorized = true) :
    ∃ caller seed, c.call.caller = some caller ∧ seed ∈ c.call.call.pdaSeeds ∧
      e.pre.accountId = AccountId.forPublicPda caller seed := by
  obtain ⟨es, hes, hwf, hposition, ⟨position, hposition', hpublic⟩, hmem, _⟩ :=
    public_of_mem_publicEntries h he
  rw [hposition, Option.some.injEq] at hposition'
  subst hposition'
  have hlist := firstListings_of_deriveFromOutputs hes
  obtain ⟨before, after, hcalls⟩ := List.append_of_mem hc
  rcases (mark_iff hes hcalls hpre).1 hmark with ⟨acc, hacc, hacc', hmarked⟩ | ⟨_, hderived⟩
  · rw [← hlist] at hacc
    have hsame : acc = e.pre :=
      List.inj_on_of_nodup_map hwf.nodup hacc hmem (hacc'.trans hid)
    rw [hsame, hfirst] at hmarked
    cases hmarked
  · obtain ⟨caller, hcaller, seed, hseed, hform⟩ := hderived
    rw [hid] at hform
    refine ⟨caller, seed, hcaller, hseed, ?_⟩
    rcases hform with hform | ⟨key, hkey, _⟩
    · exact hform
    · -- nothing is supplied for a private form
      have hnone : suppliedNpk input e.pre.accountId = none := by
        have hfind : (firstListings input.programOutputs).findIdx?
            (fun acc => acc.accountId = e.pre.accountId) = some e.position := hlist ▸ hposition
        rw [suppliedNpk, suppliedIdentity, hfind, Option.bind_some, hpublic]
        rfl
      rw [hnone] at hkey
      cases hkey

end

end ExecutionZone
