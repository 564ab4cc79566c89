import ExecutionZone.Circuit.Kept
import ExecutionZone.Circuit.Recipients
import ExecutionZone.Programs.Sample

/-!
# Programs, seeds and their accounts in the circuit

A program and a seed stand for a family of accounts: one public PDA, and a private one for each
key.  The circuit keeps two maps whose entries stay for the rest of the transaction: from such a
pair to the one account it was used for, and from the position of a private PDA to the pair it
was derived from.  `BoundVia` is what holds of these maps at all times.

So each private PDA has one pair, and no pair is used for two accounts, with one exception: an
account that a callee lists first is taken over with its mark, and nothing is recorded of the seeds
of the caller (`two_accounts_of_a_pair`).  `private_pda_binding_iff` says what follows for an
accepted input.
-/

namespace ExecutionZone

open CallTree

/-! ## One account of an output -/

/-- Entries are only added to the two maps. -/
structure Recorded (es es' : ExecutionState) : Prop where
  family : Ledger.Extends es.pdaFamilyBinding es'.pdaFamilyBinding
  bound : Ledger.Extends es.privatePdaBoundPositions es'.privatePdaBoundPositions

theorem Recorded.refl (es : ExecutionState) : Recorded es es := ⟨.refl _, .refl _⟩

theorem Recorded.trans {es₁ es₂ es₃ : ExecutionState} (h : Recorded es₁ es₂)
    (h' : Recorded es₂ es₃) : Recorded es₁ es₃ :=
  ⟨h.family.trans h'.family, h.bound.trans h'.bound⟩

section

variable {accountIdentities : List InputAccountIdentity} {programId : ProgramId}
  {caller : Option ProgramId} {seeds : List PdaSeed} {seed : PdaSeed} {pre : AccountWithMetadata}
  {post : AccountPostState} {es es' : ExecutionState} {id : AccountId} {position : Nat}

theorem assertFamilyBinding_eq_ok (h : assertFamilyBinding es programId seed id = .ok es') :
    Recorded es es' ∧ es'.pdaFamilyBinding.lookup (programId, seed) = some id ∧
      es'.privatePdaBoundPositions = es.privatePdaBoundPositions ∧
      es'.preStates = es.preStates := by
  unfold assertFamilyBinding at h
  split at h
  · rename_i hnone
    cases h
    exact ⟨⟨Ledger.extends_insert hnone id, .refl _⟩, AList.lookup_insert _, rfl, rfl⟩
  · rename_i existing hsome
    simp only [bind_eq_ok, ensure_eq_ok, exists_const, pure, Except.pure, Except.ok.injEq] at h
    obtain ⟨rfl, rfl⟩ := h
    exact ⟨.refl _, hsome, rfl, rfl⟩

theorem bindPrivatePdaPosition_eq_ok
    (h : bindPrivatePdaPosition es position programId seed = .ok es') :
    Recorded es es' ∧ es'.privatePdaBoundPositions.lookup position = some (programId, seed) ∧
      es'.pdaFamilyBinding = es.pdaFamilyBinding ∧ es'.preStates = es.preStates ∧
      ∀ p v, es'.privatePdaBoundPositions.lookup p = some v →
        es.privatePdaBoundPositions.lookup p = some v ∨ p = position ∧ v = (programId, seed) := by
  unfold bindPrivatePdaPosition at h
  split at h
  · rename_i hnone
    cases h
    refine ⟨⟨.refl _, Ledger.extends_insert hnone _⟩, AList.lookup_insert _, rfl, rfl,
      fun p v hv => ?_⟩
    by_cases hp : p = position
    · subst hp
      rw [AList.lookup_insert, Option.some.injEq] at hv
      exact .inr ⟨rfl, hv.symm⟩
    · rw [AList.lookup_insert_ne hp] at hv
      exact .inl hv
  · rename_i existing hsome
    simp only [bind_eq_ok, ensure_eq_ok, exists_const, pure, Except.pure, Except.ok.injEq] at h
    obtain ⟨rfl, rfl⟩ := h
    exact ⟨.refl _, hsome, rfl, rfl, fun _ _ => .inl⟩

/-- What a newly bound position of the account `id` comes with: the pair it was bound to has `Q`
and stands for the account. -/
def NewlyBound (Q : ProgramId × PdaSeed → Prop) (id : AccountId) (position : Nat)
    (es es' : ExecutionState) : Prop :=
  ∀ p v, es'.privatePdaBoundPositions.lookup p = some v →
    es.privatePdaBoundPositions.lookup p = some v ∨
      p = position ∧ Q v ∧ es'.pdaFamilyBinding.lookup v = some id

theorem recordBindings_eq_ok {matched : Option SeedMatch}
    (h : recordBindings es id position matched = .ok es') :
    Recorded es es' ∧ es'.preStates = es.preStates ∧
      (∀ m, matched = some m → es'.pdaFamilyBinding.lookup (m.caller, m.seed) = some id) ∧
      NewlyBound (fun v => ∃ m, matched = some m ∧ v = (m.caller, m.seed)) id position es es' := by
  cases matched with
  | none =>
      cases h
      exact ⟨.refl _, rfl, nofun, fun _ _ => .inl⟩
  | some m =>
      obtain ⟨es₁, hfamily, h⟩ := bind_eq_ok.1 h
      obtain ⟨hrecorded, hlookup, hbound, hpre⟩ := assertFamilyBinding_eq_ok hfamily
      cases hform : m.isPrivateForm with
      | false =>
          rw [hform] at h
          cases h
          refine ⟨hrecorded, hpre, ?_, fun p v hv => .inl (hbound ▸ hv)⟩
          rintro _ ⟨⟩
          exact hlookup
      | true =>
          rw [hform] at h
          obtain ⟨hrecorded', _, hsame, hpre', hsource⟩ :=
            bindPrivatePdaPosition_eq_ok (show bindPrivatePdaPosition _ _ _ _ = _ from h)
          rw [← hsame] at hlookup
          refine ⟨hrecorded.trans hrecorded', hpre'.trans hpre, ?_, fun p v hv => ?_⟩
          · rintro _ ⟨⟩
            exact hlookup
          · rcases hsource p v hv with hv | ⟨rfl, rfl⟩
            · exact .inl (hbound ▸ hv)
            · exact .inr ⟨rfl, ⟨m, rfl, rfl⟩, hlookup⟩

variable [Sha256]

/-- What a PDA claim leaves behind. -/
structure Claimed (programId : ProgramId) (seed : PdaSeed) (identity : InputAccountIdentity)
    (pre : AccountWithMetadata) (position : Nat) (es : ExecutionState) : Prop where
  family : es.pdaFamilyBinding.lookup (programId, seed) = some pre.accountId
  derived : identity.isPublic = true → pre.accountId = AccountId.forPublicPda programId seed
  bound : identity.isPrivatePda = true →
    es.privatePdaBoundPositions.lookup position = some (programId, seed)

theorem checkCircuitClaim_eq_ok {identity : InputAccountIdentity} {claim : Claim}
    (h : checkCircuitClaim programId es pre position identity claim = .ok es') :
    Recorded es es' ∧ es'.preStates = es.preStates ∧
      (∀ seed, claim = .pda seed → identity.isPublic = true ∨ identity.isPrivatePda = true →
        Claimed programId seed identity pre position es') ∧
      NewlyBound (fun v => v.1 = programId ∧ claim = .pda v.2) pre.accountId position es es' := by
  unfold checkCircuitClaim at h
  split at h
  · rename_i hpublic
    have hnotPda : identity.isPrivatePda = false := by
      cases identity with
      | publicAccount => rfl
      | privateAuthorizedInit | privateAuthorizedUpdate | privateUnauthorized | privatePdaInit
      | privatePdaUpdate => cases hpublic
    cases claim with
    | authorized =>
        simp only [bind_eq_ok, ensure_eq_ok, exists_const, pure, Except.pure,
          Except.ok.injEq] at h
        obtain ⟨_, rfl⟩ := h
        exact ⟨.refl _, rfl, nofun, fun _ _ => .inl⟩
    | pda seed =>
        simp only [bind_eq_ok, ensure_eq_ok, exists_const] at h
        obtain ⟨hrecorded, hlookup, hbound, hpre⟩ := assertFamilyBinding_eq_ok h.2
        refine ⟨hrecorded, hpre, ?_, fun p v hv => .inl (hbound ▸ hv)⟩
        rintro _ ⟨⟩ _
        exact ⟨hlookup, fun _ => h.1, fun hpda => absurd (hnotPda.symm.trans hpda) (by decide)⟩
  · rename_i hprivate
    split at h
    · cases claim with
      | authorized =>
          simp only [bind_eq_ok, ensure_eq_ok, exists_const, pure, Except.pure,
            Except.ok.injEq] at h
          obtain ⟨_, rfl⟩ := h
          exact ⟨.refl _, rfl, nofun, fun _ _ => .inl⟩
      | pda seed =>
          simp only [bind_eq_ok, ensure_eq_ok, expect_eq_ok, exists_const] at h
          obtain ⟨⟨npk, identifier⟩, _, _, es₁, hbind, hfamily⟩ := h
          obtain ⟨hrecorded, hposition, _, hpre, hsource⟩ := bindPrivatePdaPosition_eq_ok hbind
          obtain ⟨hrecorded', hlookup, hbound, hpre'⟩ := assertFamilyBinding_eq_ok hfamily
          refine ⟨hrecorded.trans hrecorded', hpre'.trans hpre, ?_, fun p v hv => ?_⟩
          · rintro _ ⟨⟩ _
            exact ⟨hlookup, fun hpublic => absurd hpublic hprivate, fun _ => hbound ▸ hposition⟩
          · rcases hsource p v (hbound ▸ hv) with hv | ⟨rfl, rfl⟩
            · exact .inl hv
            · exact .inr ⟨rfl, ⟨rfl, rfl⟩, hlookup⟩
    · rename_i hnotPda
      cases h
      refine ⟨.refl _, rfl, fun seed _ hkind => ?_, fun _ _ => .inl⟩
      exact absurd hkind (not_or.2 ⟨hprivate, hnotPda⟩)

/-- How a call may use a pair for an account: the program claims the account as its PDA, or its
caller lists the seed and the account is marked. -/
def UsesPair (programId : ProgramId) (caller : Option ProgramId) (seeds : List PdaSeed)
    (x : AccountWithMetadata × AccountPostState) (v : ProgramId × PdaSeed) : Prop :=
  v.1 = programId ∧ x.2.claim = some (.pda v.2) ∨
    caller = some v.1 ∧ v.2 ∈ seeds ∧ x.1.isAuthorized = true

/-- What taking over an account does to the two maps. -/
structure Resolved (accountIdentities : List InputAccountIdentity) (programId : ProgramId)
    (caller : Option ProgramId) (seeds : List PdaSeed) (pre : AccountWithMetadata)
    (post : AccountPostState) (es es' : ExecutionState) : Prop where
  recorded : Recorded es es'
  again : (es.postStates.lookup pre.accountId).isSome = true → ∀ position m,
    es.position pre.accountId = some position →
    matchedCallerSeed (privatePdaNpk accountIdentities position) pre.accountId caller seeds =
      some m → es'.pdaFamilyBinding.lookup (m.caller, m.seed) = some pre.accountId
  claimed : ∀ seed position identity, post.claim = some (.pda seed) →
    es'.position pre.accountId = some position → accountIdentities[position]? = some identity →
    identity.isPublic = true ∨ identity.isPrivatePda = true →
    Claimed programId seed identity pre position es'
  source : ∀ p v, es'.privatePdaBoundPositions.lookup p = some v →
    es.privatePdaBoundPositions.lookup p = some v ∨
      es'.position pre.accountId = some p ∧ UsesPair programId caller seeds (pre, post) v ∧
        es'.pdaFamilyBinding.lookup v = some pre.accountId

theorem bindings_of_syncPreState
    (h : syncPreState accountIdentities caller seeds es pre = .ok es') :
    Recorded es es' ∧
      ((es.postStates.lookup pre.accountId).isSome = true → ∀ position m,
        es.position pre.accountId = some position →
        matchedCallerSeed (privatePdaNpk accountIdentities position) pre.accountId caller seeds =
          some m → es'.pdaFamilyBinding.lookup (m.caller, m.seed) = some pre.accountId) ∧
      ∀ p v, es'.privatePdaBoundPositions.lookup p = some v →
        es.privatePdaBoundPositions.lookup p = some v ∨
          es'.position pre.accountId = some p ∧
            (caller = some v.1 ∧ v.2 ∈ seeds ∧ pre.isAuthorized = true) ∧
            es'.pdaFamilyBinding.lookup v = some pre.accountId := by
  unfold syncPreState at h
  split at h
  · rename_i known _
    simp only [syncKnown, bind_eq_ok, ensure_eq_ok, expect_eq_ok, exists_const, pure, Except.pure,
      Except.ok.injEq] at h
    obtain ⟨_, position, hposition, previous, _, es₁, hrecord, hauth, rfl⟩ := h
    obtain ⟨hrecorded, hpre, hfamily, hnew⟩ := recordBindings_eq_ok hrecord
    refine ⟨hrecorded, fun _ position' m hposition' hm => ?_, fun p v hv => ?_⟩
    · rw [hposition, Option.some.injEq] at hposition'
      exact hfamily m (hposition' ▸ hm)
    · rcases hnew p v hv with hv | ⟨rfl, ⟨m, hm, rfl⟩, hlookup⟩
      · exact .inl hv
      · obtain ⟨hcaller, hseed, _⟩ := matchedCallerSeed_eq_some hm
        refine .inr ⟨?_, ⟨hcaller, hseed, ?_⟩, hlookup⟩
        · rw [← hposition, ExecutionState.position, hpre]
          rfl
        · rw [hauth, hm, Option.isSome_some, Bool.or_true]
  · rename_i hnone
    cases h
    refine ⟨⟨.refl _, .refl _⟩, fun hsome => ?_, fun _ _ => .inl⟩
    rw [hnone] at hsome
    cases hsome

theorem bindings_of_syncClaim {account : Account}
    (h : syncClaim accountIdentities programId es pre post = .ok (es', account)) :
    Recorded es es' ∧ es'.preStates = es.preStates ∧
      (∀ seed position identity, post.claim = some (.pda seed) →
        es.position pre.accountId = some position →
        accountIdentities[position]? = some identity →
        identity.isPublic = true ∨ identity.isPrivatePda = true →
        Claimed programId seed identity pre position es') ∧
      ∀ p v, es'.privatePdaBoundPositions.lookup p = some v →
        es.privatePdaBoundPositions.lookup p = some v ∨
          es.position pre.accountId = some p ∧ (v.1 = programId ∧ post.claim = some (.pda v.2)) ∧
            es'.pdaFamilyBinding.lookup v = some pre.accountId := by
  unfold syncClaim at h
  split at h
  · rename_i hclaim
    cases h
    refine ⟨.refl _, rfl, fun seed _ _ hpda => ?_, fun _ _ => .inl⟩
    rw [hclaim] at hpda
    cases hpda
  · rename_i claim hclaim
    simp only [bind_eq_ok, ensure_eq_ok, expect_eq_ok, exists_const, pure, Except.pure,
      Except.ok.injEq, Prod.mk.injEq] at h
    obtain ⟨_, position, hposition, identity, hidentity, es₁, hcheck, rfl, rfl⟩ := h
    obtain ⟨hrecorded, hpre, hpda, hnew⟩ := checkCircuitClaim_eq_ok hcheck
    refine ⟨hrecorded, hpre, ?_, fun p v hv => ?_⟩
    · intro seed position' identity' hseed hposition' hidentity' hkind
      rw [hclaim, Option.some.injEq] at hseed
      rw [hposition, Option.some.injEq] at hposition'
      subst hposition'
      rw [hidentity, Option.some.injEq] at hidentity'
      subst hidentity'
      exact hpda seed hseed hkind
    · rcases hnew p v hv with hv | ⟨rfl, ⟨hprogram, hseed⟩, hlookup⟩
      · exact .inl hv
      · exact .inr ⟨hposition, ⟨hprogram, hclaim.trans (congrArg some hseed)⟩, hlookup⟩

/-- **Turn.**  The listing comes before the claim. -/
theorem SyncTurn.resolved (h : SyncTurn accountIdentities programId caller seeds pre post es es') :
    Resolved accountIdentities programId caller seeds pre post es es' := by
  obtain ⟨es₁, es₂, account, hlist, hclaim, rfl⟩ := h
  obtain ⟨hrecorded₁, hagain, hsource₁⟩ := bindings_of_syncPreState hlist
  obtain ⟨hrecorded₂, hpre, hclaimed, hsource₂⟩ := bindings_of_syncClaim hclaim
  have hposition : ∀ id, ExecutionState.position { es₂ with
      postStates := es₂.postStates.insert pre.accountId account } id = es₁.position id := by
    intro id
    simp only [ExecutionState.position, hpre]
  have hrecorded := hrecorded₁.trans hrecorded₂
  refine ⟨⟨hrecorded.family, hrecorded.bound⟩, ?_, ?_, fun p v hv => ?_⟩
  · intro hsome position m hpos hm
    exact hrecorded₂.family _ _ (hagain hsome position m hpos hm)
  · intro seed position identity hseed hpos hidentity hkind
    rw [hposition] at hpos
    obtain ⟨hfamily, hderived, hbound⟩ := hclaimed seed position identity hseed hpos hidentity hkind
    exact ⟨hfamily, hderived, hbound⟩
  · rw [hposition]
    rcases hsource₂ p v hv with hv | ⟨hpos, huses, hlookup⟩
    · rcases hsource₁ p v hv with hv | ⟨hpos, huses, hlookup⟩
      · exact .inl hv
      · exact .inr ⟨hpos, .inr huses, hrecorded₂.family _ _ hlookup⟩
    · exact .inr ⟨hpos, .inl huses, hlookup⟩

end

/-! ## All outputs -/

/-- A bound position holds an account that the pair stands for, and the pair was used as `Q`
says. -/
def ExecutionState.BoundVia (Q : AccountId → ProgramId × PdaSeed → Prop) (es : ExecutionState) :
    Prop :=
  ∀ p v, es.privatePdaBoundPositions.lookup p = some v → ∃ pre, es.preStates[p]? = some pre ∧
    es.pdaFamilyBinding.lookup v = some pre.accountId ∧ Q pre.accountId v

/-- Accounts and bindings of an earlier state are those of a later one. -/
structure ExecutionState.Later (es es' : ExecutionState) : Prop where
  accounts : es.preStates <+: es'.preStates
  recorded : Recorded es es'

theorem ExecutionState.Later.refl (es : ExecutionState) : es.Later es :=
  ⟨List.prefix_refl _, .refl _⟩

theorem ExecutionState.Later.trans {es₁ es₂ es₃ : ExecutionState} (h : es₁.Later es₂)
    (h' : es₂.Later es₃) : es₁.Later es₃ :=
  ⟨h.accounts.trans h'.accounts, h.recorded.trans h'.recorded⟩

section

variable [Sha256] {accountIdentities : List InputAccountIdentity} {programId : ProgramId}
  {caller : Option ProgramId} {seeds : List PdaSeed} {pre : AccountWithMetadata}
  {post : AccountPostState} {es es' : ExecutionState}
  {Q Q' : AccountId → ProgramId × PdaSeed → Prop}

theorem SyncTurn.later (h : SyncTurn accountIdentities programId caller seeds pre post es es') :
    es.Later es' :=
  ⟨h.synced.isPrefix, h.resolved.recorded⟩

omit [Sha256] in
theorem ExecutionState.BoundVia.mono (h : es.BoundVia Q) (hQ : ∀ id v, Q id v → Q' id v) :
    es.BoundVia Q' := by
  intro p v hv
  obtain ⟨pre, hpre, hlookup, hQv⟩ := h p v hv
  exact ⟨pre, hpre, hlookup, hQ _ _ hQv⟩

/-- **Step.**  Taking over an account. -/
theorem SyncTurn.boundVia (h : SyncTurn accountIdentities programId caller seeds pre post es es')
    (hQ : ∀ v, UsesPair programId caller seeds (pre, post) v → Q pre.accountId v)
    (hbound : es.BoundVia Q) : es'.BoundVia Q := by
  intro p v hv
  rcases h.resolved.source p v hv with hv | ⟨hposition, huses, hlookup⟩
  · obtain ⟨pre₀, hpre₀, hlookup, hQv⟩ := hbound p v hv
    obtain ⟨l, hl⟩ := h.later.accounts
    refine ⟨pre₀, ?_, h.later.recorded.family _ _ hlookup, hQv⟩
    rw [← hl, List.getElem?_append_left (List.getElem?_eq_some_iff.1 hpre₀).1, hpre₀]
  · obtain ⟨pre₀, hpre₀, hid⟩ := ExecutionState.position_eq_some hposition
    exact ⟨pre₀, hpre₀, hid ▸ hlookup, hid ▸ hQ v huses⟩

/-- After its turn an account is listed. -/
theorem SyncTurn.mem (h : SyncTurn accountIdentities programId caller seeds pre post es es')
    (hwf : es.WellFormed accountIdentities) :
    pre.accountId ∈ es'.preStates.map (·.accountId) := by
  obtain ⟨account, _, hposts⟩ := h.synced.settled
  rw [← (h.synced.wellFormed hwf).mem_postStates, hposts, AList.mem_insert]
  exact .inl rfl

/-- The calls use the pair for the account. -/
def UsedIn (calls : List (Executed CircuitCall ProgramOutput)) (id : AccountId)
    (v : ProgramId × PdaSeed) : Prop :=
  ∃ c ∈ calls, ∃ x ∈ c.result.zipped, x.1.accountId = id ∧
    UsesPair c.call.call.programId c.call.caller c.call.call.pdaSeeds x v

/-- What holds after some calls. -/
structure BoundAfter (accountIdentities : List InputAccountIdentity)
    (calls : List (Executed CircuitCall ProgramOutput)) (es : ExecutionState) : Prop where
  wellFormed : es.WellFormed accountIdentities
  listed : ∀ c ∈ calls, ∀ pre ∈ c.result.preStates,
    pre.accountId ∈ es.preStates.map (·.accountId)
  bound : es.BoundVia (UsedIn calls)

variable [Zkvm] {c : CircuitCall} {out : ProgramOutput}

/-- The turns of a consumed output. -/
theorem Consumed.turns {calls : List (Executed CircuitCall ProgramOutput)}
    (anc : List (CircuitCall × ProgramOutput)) (h : Consumed accountIdentities c out es es')
    (hafter : BoundAfter accountIdentities calls es) :
    (es'.WellFormed accountIdentities ∧ es'.BoundVia (UsedIn (calls ++ [⟨c, anc, out⟩]))) ∧
      es.Later es' ∧
      ∀ x ∈ out.zipped, ∃ es₁ es₂, es₁.WellFormed accountIdentities ∧ es.Later es₁ ∧
        SyncTurn accountIdentities c.call.programId c.caller c.call.pdaSeeds x.1 x.2 es₁ es₂ ∧
        es₂.Later es' := by
  have hold : es.BoundVia (UsedIn (calls ++ [⟨c, anc, out⟩])) :=
    hafter.bound.mono fun id v ⟨c', hc', hx⟩ => ⟨c', List.mem_append_left _ hc', hx⟩
  obtain ⟨⟨hend, hlater⟩, hturns⟩ := related_of_syncTurns
    (I := fun es => es.WellFormed accountIdentities ∧
      es.BoundVia (UsedIn (calls ++ [⟨c, anc, out⟩])))
    (G := ExecutionState.Later) ExecutionState.Later.refl (fun _ _ _ => ExecutionState.Later.trans)
    (fun pre post es es' hmem hI hturn => by
      refine ⟨⟨hturn.synced.wellFormed hI.1, hturn.boundVia (fun v huses => ?_) hI.2⟩, hturn.later⟩
      exact ⟨_, List.mem_append_right _ (List.mem_singleton_self _), _, hmem, rfl, huses⟩)
    h.sync ⟨hafter.wellFormed, hold⟩
  refine ⟨hend, hlater, fun x hx => ?_⟩
  obtain ⟨es₁, es₂, hI, hlater₁, hturn, hlater₂⟩ := hturns x hx
  exact ⟨es₁, es₂, hI.1, hlater₁, hturn, hlater₂⟩

/-- **Step.**  Consuming an output. -/
theorem Consumed.boundAfter {calls : List (Executed CircuitCall ProgramOutput)}
    (anc : List (CircuitCall × ProgramOutput)) (h : Consumed accountIdentities c out es es')
    (hafter : BoundAfter accountIdentities calls es) :
    BoundAfter accountIdentities (calls ++ [⟨c, anc, out⟩]) es' ∧ es.Later es' := by
  obtain ⟨⟨hwf, hbound⟩, hlater, hturns⟩ := Consumed.turns anc h hafter
  refine ⟨⟨hwf, fun c' hc' pre hpre => ?_, hbound⟩, hlater⟩
  rcases List.mem_append.1 hc' with hc' | hc'
  · exact (hlater.accounts.map _).subset (hafter.listed c' hc' pre hpre)
  · rw [List.mem_singleton.1 hc'] at hpre
    have hzip : out.zipped.map Prod.fst = out.preStates :=
      List.map_fst_zip (Nat.le_of_eq h.valid.length_eq)
    rw [← hzip] at hpre
    obtain ⟨x, hx, rfl⟩ := List.mem_map.1 hpre
    obtain ⟨es₁, es₂, hwf₁, _, hturn, hlater₂⟩ := hturns x hx
    exact (hlater₂.accounts.map _).subset (hturn.mem hwf₁)

/-- **Run.**  What holds in the final state of an accepted input, and of the turn of each account
of each consumed output. -/
theorem boundAfter_of_deriveFromOutputs {input : PrivacyPreservingCircuitInput}
    (h : deriveFromOutputs input.accountIdentities input.programId input.programOutputs = .ok es) :
    BoundAfter input.accountIdentities (consumedCalls input) es ∧
      ∀ before c after, consumedCalls input = before ++ c :: after → ∀ x ∈ c.result.zipped,
        ∃ es₁ es₂, es₁.WellFormed input.accountIdentities ∧
          (∀ b ∈ before, ∀ pre ∈ b.result.preStates,
            pre.accountId ∈ es₁.preStates.map (·.accountId)) ∧
          SyncTurn input.accountIdentities c.call.call.programId c.call.caller
            c.call.call.pdaSeeds x.1 x.2 es₁ es₂ ∧ es₂.Later es := by
  obtain ⟨_, _, es₀, _, hes₀, hruns, _⟩ := runs_of_deriveFromOutputs h
  have hstart : BoundAfter input.accountIdentities [] es₀ := by
    refine ⟨(ExecutionState.wellFormed_initial hes₀).1, by simp, fun p v hv => ?_⟩
    simp only [ExecutionState.initial, bind_eq_ok, expect_eq_ok, pure, Except.pure,
      Except.ok.injEq] at hes₀
    obtain ⟨_, _, _, _, rfl⟩ := hes₀
    simp at hv
  obtain ⟨⟨hend, _⟩, hcalls⟩ := hruns.history
    (I := fun calls s => BoundAfter input.accountIdentities calls s.2)
    (G := fun s s' => s.2.Later s'.2) (fun s => .refl s.2) (fun _ _ _ => .trans)
    (fun calls c anc s out s' hI hstep => (consumed_of_step hstep).2.boundAfter anc hI) [] hstart
  rw [List.nil_append] at hend
  refine ⟨hend, fun before c after hsplit x hx => ?_⟩
  obtain ⟨s₁, s₂, hbefore, _, hstep, hlater⟩ := hcalls before c after hsplit
  rw [List.nil_append] at hbefore
  obtain ⟨_, _, hturns⟩ := Consumed.turns c.ancestors (consumed_of_step hstep).2 hbefore
  obtain ⟨es₁, es₂, hwf, hlater₁, hturn, hlater₂⟩ := hturns x hx
  refine ⟨es₁, es₂, hwf, fun b hb pre hpre => ?_, hturn, hlater₂.trans hlater⟩
  exact (hlater₁.accounts.map _).subset (hbefore.listed b hb pre hpre)

end

/-! ## Uses of a pair -/

theorem InputAccountIdentity.isPrivatePda_iff [Sha256] {identity : InputAccountIdentity} :
    identity.isPrivatePda = true ↔ ∃ k, identity.npkIfPrivatePda = some k := by
  cases identity with
  | privatePdaInit | privatePdaUpdate => exact ⟨fun _ => ⟨_, rfl⟩, fun _ => rfl⟩
  | publicAccount | privateAuthorizedInit | privateAuthorizedUpdate | privateUnauthorized =>
      exact ⟨nofun, nofun⟩

section

variable [Sha256]

/-- The account is in the family of the pair: its public PDA, or the private one for the key and
identifier supplied with the account. -/
def Entry.DerivedFrom (a : Entry) (programId : ProgramId) (seed : PdaSeed) : Prop :=
  a.pre.accountId = AccountId.forPublicPda programId seed ∨
    ∃ k, a.identity.npkIfPrivatePda = some k ∧
      a.pre.accountId = AccountId.forPrivatePda programId seed k.1 k.2

variable [Zkvm]

/-- The input uses the pair for the account, which is public or a private PDA: the program claims it
under the seed, or a program it calls with the seed lists the account as authorised. -/
inductive PdaUse (input : PrivacyPreservingCircuitInput) (programId : ProgramId) (seed : PdaSeed)
    (a : Entry) : Prop
  | claim (c : Executed CircuitCall ProgramOutput) (hc : c ∈ consumedCalls input)
      (x : AccountWithMetadata × AccountPostState) (hx : x ∈ c.result.zipped)
      (hid : x.1.accountId = a.pre.accountId) (hprogram : c.call.call.programId = programId)
      (hclaim : x.2.claim = some (.pda seed))
      (hidentity : a.identity.isPublic = true ∨ a.identity.isPrivatePda = true)
  | callerSeed (c : Executed CircuitCall ProgramOutput) (hc : c ∈ consumedCalls input)
      (x : AccountWithMetadata × AccountPostState) (hx : x ∈ c.result.zipped)
      (hid : x.1.accountId = a.pre.accountId) (hcaller : c.call.caller = some programId)
      (hseed : seed ∈ c.call.call.pdaSeeds) (hderived : a.DerivedFrom programId seed)
      (hmark : x.1.isAuthorized = true)
      (hidentity : a.identity.isPublic = true ∨ a.identity.isPrivatePda = true)

omit [Zkvm] in
/-- A public account that no output lists before is marked by the output for a call of `x`, and is
the PDA of the caller under the seed of the call. -/
def Consumption.MarksFirst (input : PrivacyPreservingCircuitInput) (x : Consumption)
    (seed : PdaSeed) : Prop :=
  seed ∈ x.call.pdaSeeds ∧ ∃ pre ∈ x.result.preStates, pre.isAuthorized = true ∧
    pre.accountId = AccountId.forPublicPda x.caller.selfProgramId seed ∧
    suppliedIdentity input pre.accountId = some .publicAccount ∧
    ∀ out ∈ x.earlier, pre.accountId ∉ out.preStates.map (·.accountId)

omit [Zkvm] in
/-- A private PDA of the pair is among the accounts of the input. -/
def SuppliesPda (input : PrivacyPreservingCircuitInput) (programId : ProgramId) (seed : PdaSeed) :
    Prop :=
  ∃ acc ∈ firstListings input.programOutputs, ∃ k ∈ suppliedNpk input acc.accountId,
    acc.accountId = AccountId.forPrivatePda programId seed k.1 k.2

/-- What is hashed to compare the private PDAs of an input with the seeds of its callers. -/
def seedStrings (input : PrivacyPreservingCircuitInput) : List Bytes :=
  (consumedCalls input).flatMap fun c => c.call.caller.toList.flatMap fun program =>
    c.call.call.pdaSeeds.flatMap fun seed =>
      (input.accountIdentities.filterMap (·.npkIfPrivatePda)).map fun k =>
        privatePdaPreimage program seed k.1 k.2

theorem mem_seedStrings {input : PrivacyPreservingCircuitInput}
    {c : Executed CircuitCall ProgramOutput} (hc : c ∈ consumedCalls input)
    {programId : ProgramId} (hcaller : c.call.caller = some programId) {seed : PdaSeed}
    (hseed : seed ∈ c.call.call.pdaSeeds) {identity : InputAccountIdentity}
    (hidentity : identity ∈ input.accountIdentities) {k : NullifierPublicKey × Identifier}
    (hk : identity.npkIfPrivatePda = some k) :
    privatePdaPreimage programId seed k.1 k.2 ∈ seedStrings input := by
  refine List.mem_flatMap.2 ⟨c, hc, ?_⟩
  rw [hcaller, Option.toList_some, List.flatMap_singleton]
  refine List.mem_flatMap.2 ⟨seed, hseed, List.mem_map.2 ⟨k, ?_, rfl⟩⟩
  exact List.mem_filterMap.2 ⟨identity, hidentity, hk⟩

omit [Zkvm] in
/-- Of the seeds that derive a public PDA, the first one is matched. -/
theorem matched_of_forPublicPda (caller : ProgramId) {seeds : List PdaSeed} {seed : PdaSeed}
    (hseed : seed ∈ seeds) : ∃ s ∈ seeds,
      AccountId.forPublicPda caller s = AccountId.forPublicPda caller seed ∧
      matchedCallerSeed none (AccountId.forPublicPda caller seed) (some caller) seeds =
        some ⟨s, false, caller⟩ := by
  have hsome : (matchedCallerSeed none (AccountId.forPublicPda caller seed) (some caller)
      seeds).isSome := by
    rw [matchedCallerSeed, Option.bind_some, List.findSome?_isSome_iff]
    exact ⟨seed, hseed, by simp [matchSeed]⟩
  obtain ⟨⟨s, isPrivateForm, program⟩, hm⟩ := Option.isSome_iff_exists.1 hsome
  obtain ⟨hcaller, hs, ⟨hform, hid⟩ | ⟨_, _, _, hnpk, _⟩⟩ := matchedCallerSeed_eq_some hm
  · cases hcaller
    cases hform
    exact ⟨s, hs, hid.symm, hm⟩
  · cases hnpk

variable [ChaCha20] {S : Set Bytes} {input : PrivacyPreservingCircuitInput}
  {output : PrivacyPreservingCircuitOutput} {es : ExecutionState} {a : Entry}
  {programId : ProgramId} {seed : PdaSeed}

/-- The position of a private PDA is bound, to a pair that derives its id and goes into its
ciphertext. -/
theorem bound_of_privatePda (h : circuit input = .ok output)
    (hes : deriveFromOutputs input.accountIdentities input.programId input.programOutputs = .ok es)
    (ha : a ∈ circuitEntries input) {npk : NullifierPublicKey} {identifier : Identifier}
    (hk : a.identity.npkIfPrivatePda = some (npk, identifier)) :
    ∃ v u, es.privatePdaBoundPositions.lookup a.position = some v ∧ a.update = some u ∧
      u.kind = .pda v.1 v.2 identifier ∧
      a.pre.accountId = AccountId.forPrivatePda v.1 v.2 npk identifier ∧
      privatePdaPreimage v.1 v.2 npk identifier ∈ circuitStrings input := by
  obtain ⟨es', hes', hentries, _, hupdates, _⟩ := emitted_of_circuit h
  rw [hes, Except.ok.injEq] at hes'
  subst hes'
  have hupdate := hupdates a ha
  obtain ⟨hidentity, hpre, _⟩ := ExecutionState.of_mem_entries (hentries ▸ ha)
  have hstring : ∀ s ∈ noteStrings es.privatePdaBoundPositions a.position a.pre a.identity,
      s ∈ circuitStrings input := by
    intro s hs
    simp only [circuitStrings, hes]
    refine List.mem_append_left _ (List.mem_flatMap.2 ⟨a, hentries ▸ ha, ?_⟩)
    exact List.mem_append_left _ hs
  have hid : ∀ v, es.privatePdaBoundPositions.lookup a.position = some v →
      a.pre.accountId = AccountId.forPrivatePda v.1 v.2 npk identifier := by
    intro v hv
    obtain ⟨pre, hpre', npk', identifier', hk', hid⟩ :=
      (wellFormed_of_deriveFromOutputs hes).1.bound a.position v hv
    rw [hpre, Option.some.injEq] at hpre'
    rw [privatePdaNpk, hidentity, Option.bind_some, hk, Option.some.injEq, Prod.mk.injEq] at hk'
    rw [hpre', hid, hk'.1, hk'.2]
  cases hcase : a.identity with
  | publicAccount | privateAuthorizedInit | privateAuthorizedUpdate | privateUnauthorized =>
      rw [hcase] at hk
      cases hk
  | privatePdaInit npk' ssk identifier' =>
      rw [hcase] at hk hupdate hstring
      cases hk
      simp only [noteUpdate, bind_eq_ok, ensure_eq_ok, expect_eq_ok, exists_const, pure,
        Except.pure, Except.ok.injEq] at hupdate
      obtain ⟨_, _, v, hv, hu⟩ := hupdate
      exact ⟨v, _, hv, hu.symm, rfl, hid v hv, hstring _ (by simp [noteStrings, pdaStrings, hv])⟩
  | privatePdaUpdate ssk nsk membershipProof identifier' =>
      rw [hcase] at hk hupdate hstring
      cases hk
      simp only [noteUpdate, bind_eq_ok, ensure_eq_ok, expect_eq_ok, exists_const, pure,
        Except.pure, Except.ok.injEq] at hupdate
      obtain ⟨_, v, hv, hu⟩ := hupdate
      exact ⟨v, _, hv, hu.symm, rfl, hid v hv, hstring _ (by simp [noteStrings, pdaStrings, hv])⟩

omit [ChaCha20] in
/-- What a PDA claim leaves in the maps. -/
theorem recorded_of_claim
    (hes : deriveFromOutputs input.accountIdentities input.programId input.programOutputs = .ok es)
    (ha : a ∈ es.entries input.accountIdentities) {c : Executed CircuitCall ProgramOutput}
    (hc : c ∈ consumedCalls input) {x : AccountWithMetadata × AccountPostState}
    (hx : x ∈ c.result.zipped) (hid : x.1.accountId = a.pre.accountId)
    (hclaim : x.2.claim = some (.pda seed))
    (hidentity : a.identity.isPublic = true ∨ a.identity.isPrivatePda = true) :
    Claimed c.call.call.programId seed a.identity a.pre a.position es := by
  obtain ⟨hafter, hturns⟩ := boundAfter_of_deriveFromOutputs hes
  obtain ⟨before, after, hsplit⟩ := List.append_of_mem hc
  obtain ⟨es₁, es₂, hwf, _, hturn, hlater⟩ := hturns before c after hsplit x hx
  have hposition := ExecutionState.position_of_mem_entries hafter.wellFormed ha
  rw [← hid, ← ExecutionState.position_of_prefix hlater.accounts (hturn.mem hwf)] at hposition
  obtain ⟨hfamily, hderived, hbound⟩ := hturn.resolved.claimed seed a.position a.identity hclaim
    hposition (ExecutionState.of_mem_entries ha).1 hidentity
  rw [hid] at hfamily hderived
  exact ⟨hlater.recorded.family _ _ hfamily, hderived,
    fun hpda => hlater.recorded.bound _ _ (hbound hpda)⟩

omit [ChaCha20] in
/-- What the seeds of a caller leave in the maps for a public PDA that was listed before. -/
theorem recorded_of_callerSeed (hS : CollisionFree S)
    (hes : deriveFromOutputs input.accountIdentities input.programId input.programOutputs = .ok es)
    (hstrings : ∀ s ∈ circuitStrings input, s ∈ S) (ha : a ∈ es.entries input.accountIdentities)
    (hk : a.identity.npkIfPrivatePda = none)
    {before after : List (Executed CircuitCall ProgramOutput)}
    {c : Executed CircuitCall ProgramOutput} (hcalls : consumedCalls input = before ++ c :: after)
    {x : AccountWithMetadata × AccountPostState} (hx : x ∈ c.result.zipped)
    (hxid : x.1.accountId = a.pre.accountId) (hcaller : c.call.caller = some programId)
    (hseed : seed ∈ c.call.call.pdaSeeds)
    (hid : a.pre.accountId = AccountId.forPublicPda programId seed)
    (hagain : ∃ b ∈ before, ∃ pre ∈ b.result.preStates, pre.accountId = a.pre.accountId) :
    es.pdaFamilyBinding.lookup (programId, seed) = some a.pre.accountId := by
  obtain ⟨hafter, hturns⟩ := boundAfter_of_deriveFromOutputs hes
  obtain ⟨es₁, es₂, hwf, hlisted, hturn, hlater⟩ := hturns before c after hcalls x hx
  have hmem : x.1.accountId ∈ es₁.preStates.map (·.accountId) := by
    obtain ⟨b, hb, pre, hpre, hpreId⟩ := hagain
    rw [hxid, ← hpreId]
    exact hlisted b hb pre hpre
  have hknown : (es₁.postStates.lookup x.1.accountId).isSome = true := by
    rw [AList.lookup_isSome, hwf.mem_postStates]
    exact hmem
  have hposition := ExecutionState.position_of_mem_entries hafter.wellFormed ha
  rw [← hxid, ← ExecutionState.position_of_prefix
    (hturn.later.accounts.trans hlater.accounts) hmem] at hposition
  have hnpk : privatePdaNpk input.accountIdentities a.position = none := by
    rw [privatePdaNpk, (ExecutionState.of_mem_entries ha).1, Option.bind_some, hk]
  obtain ⟨seed', hseed', hsame, hm⟩ := matched_of_forPublicPda programId hseed
  rw [← hid, ← hxid, ← hcaller, ← hnpk] at hm
  have hlookup := hturn.resolved.again hknown a.position _ hposition hm
  -- the matched seed is the given one
  have hc : c ∈ consumedCalls input := by
    rw [hcalls]
    exact List.mem_append_right _ List.mem_cons_self
  have hstring : ∀ s ∈ c.call.call.pdaSeeds, publicPdaPreimage programId s ∈ S := fun s hs =>
    hstrings _ (callStrings_subset_circuitStrings hes hc (hcaller ▸ seed_mem_callStrings hs _))
  rw [(hS.forPublicPda_inj (hstring _ hseed') (hstring _ hseed) hsame).2, hxid] at hlookup
  exact hlater.recorded.family _ _ hlookup

/-- A private PDA that a seed of a call derives is bound to the pair of the caller and the seed. -/
theorem bound_of_derived (hS : CollisionFree S) (h : circuit input = .ok output)
    (hes : deriveFromOutputs input.accountIdentities input.programId input.programOutputs = .ok es)
    (hstrings : ∀ s ∈ circuitStrings input, s ∈ S) (hseeds : ∀ s ∈ seedStrings input, s ∈ S)
    (ha : a ∈ circuitEntries input) {k : NullifierPublicKey × Identifier}
    (hk : a.identity.npkIfPrivatePda = some k) {c : Executed CircuitCall ProgramOutput}
    (hc : c ∈ consumedCalls input) (hcaller : c.call.caller = some programId)
    (hseed : seed ∈ c.call.call.pdaSeeds)
    (hid : a.pre.accountId = AccountId.forPrivatePda programId seed k.1 k.2) :
    es.privatePdaBoundPositions.lookup a.position = some (programId, seed) := by
  obtain ⟨v, _, hv, _, _, hid', hstring⟩ := bound_of_privatePda h hes ha hk
  have hentry : a ∈ es.entries input.accountIdentities := by
    simpa only [circuitEntries, hes] using ha
  have hmem := mem_seedStrings hc hcaller hseed
    (List.mem_of_getElem? (ExecutionState.of_mem_entries hentry).1) hk
  have heq := hS.injOn (hseeds _ hmem) (hstrings _ hstring)
    (congrArg AccountId.value (hid.symm.trans hid'))
  obtain ⟨hprogram, hseed, _⟩ := privatePdaPreimage_inj heq
  rw [hv, hprogram, hseed]

/-- A private PDA is used with the pair its position is bound to. -/
theorem PdaUse.eq_bound (hS : CollisionFree S) (h : circuit input = .ok output)
    (hes : deriveFromOutputs input.accountIdentities input.programId input.programOutputs = .ok es)
    (hstrings : ∀ s ∈ circuitStrings input, s ∈ S) (hseeds : ∀ s ∈ seedStrings input, s ∈ S)
    (ha : a ∈ circuitEntries input) {k : NullifierPublicKey × Identifier}
    (hk : a.identity.npkIfPrivatePda = some k) (huse : PdaUse input programId seed a) :
    es.privatePdaBoundPositions.lookup a.position = some (programId, seed) := by
  obtain ⟨v, _, hv, _, _, hid, hstring⟩ := bound_of_privatePda h hes ha hk
  have hentry : a ∈ es.entries input.accountIdentities := by
    simpa only [circuitEntries, hes] using ha
  cases huse with
  | claim c hc x hx hxid hprogram hclaim hidentity =>
      subst hprogram
      exact (recorded_of_claim hes hentry hc hx hxid hclaim hidentity).bound
        (InputAccountIdentity.isPrivatePda_iff.2 ⟨k, hk⟩)
  | callerSeed c hc x hx hxid hcaller hseed hderived =>
      rcases hderived with hpublic | ⟨k', hk', hprivate⟩
      · -- the two forms are hashes of strings of different lengths
        have hcall := callStrings_subset_circuitStrings hes hc
          (hcaller ▸ seed_mem_callStrings hseed c.result)
        refine absurd (congrArg AccountId.value (hpublic.symm.trans hid))
          (hS.ne_of_length (hstrings _ hcall) (hstrings _ hstring) ?_)
        rw [publicPdaPreimage_length, privatePdaPreimage_length]
        decide
      · rw [hk, Option.some.injEq] at hk'
        subst hk'
        exact bound_of_derived hS h hes hstrings hseeds ha hk hc hcaller hseed hprivate

omit [Zkvm] [ChaCha20] in
theorem not_isPrivatePda (hk : a.identity.npkIfPrivatePda = none) :
    ¬ a.identity.isPrivatePda = true := by
  rw [InputAccountIdentity.isPrivatePda_iff, hk]
  rintro ⟨_, ⟨⟩⟩

omit [ChaCha20] in
/-- A public account a pair is used for is the public PDA of the pair. -/
theorem PdaUse.eq_forPublicPda
    (hes : deriveFromOutputs input.accountIdentities input.programId input.programOutputs = .ok es)
    (ha : a ∈ es.entries input.accountIdentities) (hk : a.identity.npkIfPrivatePda = none)
    (huse : PdaUse input programId seed a) :
    a.pre.accountId = AccountId.forPublicPda programId seed := by
  cases huse with
  | claim c hc x hx hxid hprogram hclaim hidentity =>
      subst hprogram
      exact (recorded_of_claim hes ha hc hx hxid hclaim hidentity).derived
        (hidentity.resolve_right (not_isPrivatePda hk))
  | callerSeed c hc x hx hxid hcaller hseed hderived =>
      rcases hderived with hid | ⟨_, hk', _⟩
      · exact hid
      · rw [hk] at hk'
        cases hk'

/-- A pair that is used for a private PDA stands for it in the end. -/
theorem PdaUse.family_of_private (hS : CollisionFree S) (h : circuit input = .ok output)
    (hes : deriveFromOutputs input.accountIdentities input.programId input.programOutputs = .ok es)
    (hstrings : ∀ s ∈ circuitStrings input, s ∈ S) (hseeds : ∀ s ∈ seedStrings input, s ∈ S)
    (ha : a ∈ circuitEntries input) {k : NullifierPublicKey × Identifier}
    (hk : a.identity.npkIfPrivatePda = some k) (huse : PdaUse input programId seed a) :
    es.pdaFamilyBinding.lookup (programId, seed) = some a.pre.accountId ∧
      a.pre.accountId = AccountId.forPrivatePda programId seed k.1 k.2 := by
  have hbound := huse.eq_bound hS h hes hstrings hseeds ha hk
  obtain ⟨v, _, hv, _, _, hid, _⟩ := bound_of_privatePda h hes ha hk
  obtain rfl := Option.some.inj (hbound.symm.trans hv)
  obtain ⟨pre, hpre, hlookup, _⟩ := (boundAfter_of_deriveFromOutputs hes).1.bound _ _ hbound
  have hentry : a ∈ es.entries input.accountIdentities := by
    simpa only [circuitEntries, hes] using ha
  rw [(ExecutionState.of_mem_entries hentry).2.1, Option.some.injEq] at hpre
  exact ⟨hpre ▸ hlookup, hid⟩

omit [ChaCha20] in
/-- An entry has the identity supplied for its account. -/
theorem suppliedIdentity_of_entry
    (hes : deriveFromOutputs input.accountIdentities input.programId input.programOutputs = .ok es)
    (ha : a ∈ es.entries input.accountIdentities) :
    suppliedIdentity input a.pre.accountId = some a.identity := by
  have hposition := ExecutionState.position_of_mem_entries
    (wellFormed_of_deriveFromOutputs hes).1 ha
  rw [ExecutionState.position, firstListings_of_deriveFromOutputs hes] at hposition
  rw [suppliedIdentity, hposition, Option.bind_some, (ExecutionState.of_mem_entries ha).1]

/-- A supplied identity has an entry. -/
theorem exists_entry (h : circuit input = .ok output) {position : Nat}
    {identity : InputAccountIdentity}
    (hidentity : input.accountIdentities[position]? = some identity) :
    ∃ a ∈ circuitEntries input, a.position = position ∧ a.identity = identity := by
  obtain ⟨es, _, hentries, hlen, _⟩ := emitted_of_circuit h
  have hmem : (identity, position) ∈
      (circuitEntries input).map (fun e => (e.identity, e.position)) := by
    rw [hentries, ExecutionState.entries_zipIdx hlen]
    exact List.mk_mem_zipIdx_iff_getElem?.2 hidentity
  obtain ⟨a, ha, heq⟩ := List.mem_map.1 hmem
  exact ⟨a, ha, (Prod.mk.inj heq).2, (Prod.mk.inj heq).1⟩

/-- An account for which an identity is supplied has an entry with it. -/
theorem entry_of_suppliedIdentity (h : circuit input = .ok output) {id : AccountId}
    {identity : InputAccountIdentity} (hid : suppliedIdentity input id = some identity) :
    ∃ a ∈ circuitEntries input, a.pre.accountId = id ∧ a.identity = identity := by
  obtain ⟨es, hes, hentries, _⟩ := emitted_of_circuit h
  obtain ⟨position, hposition, hidentity⟩ := Option.bind_eq_some_iff.1 hid
  obtain ⟨a, ha, rfl, rfl⟩ := exists_entry h hidentity
  refine ⟨a, ha, ?_, rfl⟩
  rw [← firstListings_of_deriveFromOutputs hes] at hposition
  obtain ⟨pre, hpre, hpreId⟩ := ExecutionState.position_eq_some hposition
  rw [(ExecutionState.of_mem_entries (hentries ▸ ha)).2.1, Option.some.injEq] at hpre
  rw [hpre, hpreId]

omit [ChaCha20] in
/-- A pair that is used for a public account stands for it in the end, unless a callee of the
program marks the account before any other output lists it. -/
theorem PdaUse.family_or_first (hS : CollisionFree S)
    (hes : deriveFromOutputs input.accountIdentities input.programId input.programOutputs = .ok es)
    (hstrings : ∀ s ∈ circuitStrings input, s ∈ S) (ha : a ∈ es.entries input.accountIdentities)
    (hk : a.identity.npkIfPrivatePda = none) (huse : PdaUse input programId seed a) :
    es.pdaFamilyBinding.lookup (programId, seed) = some a.pre.accountId ∨
      ∃ x ∈ consumptions input.programOutputs, x.caller.selfProgramId = programId ∧
        x.MarksFirst input seed := by
  have hid := huse.eq_forPublicPda hes ha hk
  cases huse with
  | claim c hc x hx hxid hprogram hclaim hidentity =>
      subst hprogram
      exact .inl (recorded_of_claim hes ha hc hx hxid hclaim hidentity).family
  | callerSeed c hc x hx hxid hcaller hseed _ hmark hidentity =>
      obtain ⟨before, after, hcalls⟩ := List.append_of_mem hc
      by_cases hold : ∃ b ∈ before, ∃ pre ∈ b.result.preStates, pre.accountId = a.pre.accountId
      · exact .inl (recorded_of_callerSeed hS hes hstrings ha hk hcalls hx hxid hcaller hseed hid
          hold)
      · obtain ⟨p, hp, hprogram, _, hanc⟩ := issuer_of_mem_consumedCalls hes hc hcaller
        have hprogram : p.result.selfProgramId = programId :=
          (result_of_mem_consumedCalls hes hp).2.trans hprogram
        refine .inr ⟨_, (mem_consumptions hes _).2 ⟨before, c, after, p.result, hcalls, hanc, rfl⟩,
          hprogram, hseed, x.1, (List.of_mem_zip hx).1, hmark, ?_, ?_, ?_⟩
        · rw [hxid, hid]
          exact congrArg (AccountId.forPublicPda · seed) hprogram.symm
        · have hpublic := hidentity.resolve_right (not_isPrivatePda hk)
          rw [hxid, suppliedIdentity_of_entry hes ha]
          cases hcase : a.identity with
          | publicAccount => rfl
          | privateAuthorizedInit | privateAuthorizedUpdate | privateUnauthorized | privatePdaInit
          | privatePdaUpdate => rw [hcase] at hpublic; cases hpublic
        · intro out hout hmem
          obtain ⟨b, hb, rfl⟩ := List.mem_map.1 hout
          obtain ⟨pre, hpre, hpreId⟩ := List.mem_map.1 hmem
          exact hold ⟨b, hb, pre, hpre, hpreId.trans hxid⟩

/-- The pair a private PDA is bound to is one the input uses for it. -/
theorem pdaUse_of_bound (h : circuit input = .ok output)
    (hes : deriveFromOutputs input.accountIdentities input.programId input.programOutputs = .ok es)
    (ha : a ∈ circuitEntries input) {k : NullifierPublicKey × Identifier}
    (hk : a.identity.npkIfPrivatePda = some k)
    (hbound : es.privatePdaBoundPositions.lookup a.position = some (programId, seed)) :
    PdaUse input programId seed a := by
  obtain ⟨hafter, _⟩ := boundAfter_of_deriveFromOutputs hes
  have hentry : a ∈ es.entries input.accountIdentities := by
    simpa only [circuitEntries, hes] using ha
  obtain ⟨pre, hpre, _, c, hc, x, hx, hxid, huses⟩ := hafter.bound _ _ hbound
  rw [(ExecutionState.of_mem_entries hentry).2.1, Option.some.injEq] at hpre
  subst hpre
  have hpda := InputAccountIdentity.isPrivatePda_iff.2 ⟨k, hk⟩
  rcases huses with ⟨hprogram, hclaim⟩ | ⟨hcaller, hseed, hmark⟩
  · exact .claim c hc x hx hxid hprogram.symm hclaim (.inr hpda)
  · obtain ⟨v, _, hv, _, _, hid, _⟩ := bound_of_privatePda h hes ha hk
    rw [hbound, Option.some.injEq] at hv
    subst hv
    exact .callerSeed c hc x hx hxid hcaller hseed (.inr ⟨k, hk, hid⟩) hmark (.inr hpda)

/-- A public PDA that a callee marks first and a private PDA of the same pair are two accounts the
pair is used for. -/
theorem two_uses_of_marksFirst (hS : CollisionFree S) (h : circuit input = .ok output)
    (hstrings : ∀ s ∈ circuitStrings input, s ∈ S) (hseeds : ∀ s ∈ seedStrings input, s ∈ S)
    {x : Consumption} (hx : x ∈ consumptions input.programOutputs)
    (hfirst : x.MarksFirst input seed) (hpda : SuppliesPda input x.caller.selfProgramId seed) :
    ∃ a ∈ circuitEntries input, ∃ b ∈ circuitEntries input,
      PdaUse input x.caller.selfProgramId seed a ∧ PdaUse input x.caller.selfProgramId seed b ∧
      a.pre.accountId ≠ b.pre.accountId := by
  obtain ⟨es, hes, _⟩ := bind_eq_ok.1 h
  obtain ⟨hseed, pre, hpre, hmark, hid, hpublic, _⟩ := hfirst
  obtain ⟨acc, _, k, hk, hacc⟩ := hpda
  obtain ⟨before, c, after, caller, hcalls, hanc, rfl⟩ := (mem_consumptions hes x).1 hx
  have hc : c ∈ consumedCalls input := hcalls ▸ List.mem_append_right _ List.mem_cons_self
  obtain ⟨_, _, _, hcaller⟩ := issuer_of_ancestors hes hc hanc
  obtain ⟨a, ha, haId, haPublic⟩ := entry_of_suppliedIdentity h hpublic
  obtain ⟨identity, hidentity, hk⟩ := Option.bind_eq_some_iff.1 hk
  obtain ⟨b, hb, hbId, rfl⟩ := entry_of_suppliedIdentity h hidentity
  have huse : PdaUse input caller.selfProgramId seed b :=
    pdaUse_of_bound h hes hb hk
      (bound_of_derived hS h hes hstrings hseeds hb hk hc hcaller hseed (hbId.trans hacc))
  obtain ⟨_, _, _, _, _, hbound, hstring⟩ := bound_of_privatePda h hes hb hk
  obtain ⟨_, hturns⟩ := listedAfter_of_deriveFromOutputs hes
  obtain ⟨_, _, _, hconsumed, _⟩ := hturns before c after hcalls
  obtain ⟨⟨pre', post⟩, hzipped, heq⟩ := List.mem_map.1 (hconsumed.map_fst_zipped.symm ▸ hpre)
  obtain rfl : pre = pre' := heq.symm
  refine ⟨a, ha, b, hb, .callerSeed c hc _ hzipped haId.symm hcaller hseed
    (.inl (haId.trans hid)) hmark (.inl (by rw [haPublic]; rfl)), huse, ?_⟩
  -- the two forms are hashes of strings of different lengths
  rw [haId, hid, hbound]
  refine fun heq => hS.ne_of_length (hstrings _ (callStrings_subset_circuitStrings hes hc
    (hcaller ▸ seed_mem_callStrings hseed c.result))) (hstrings _ hstring) ?_
    (congrArg AccountId.value heq)
  rw [publicPdaPreimage_length, privatePdaPreimage_length]
  decide

/-- A private PDA has its pair to itself, unless the public PDA of the pair is marked first. -/
theorem PdaUse.accountId_eq_of_private (hS : CollisionFree S) (h : circuit input = .ok output)
    (hes : deriveFromOutputs input.accountIdentities input.programId input.programOutputs = .ok es)
    (hstrings : ∀ s ∈ circuitStrings input, s ∈ S) (hseeds : ∀ s ∈ seedStrings input, s ∈ S)
    (hnone : ∀ x ∈ consumptions input.programOutputs, ∀ seed, x.MarksFirst input seed →
      ¬SuppliesPda input x.caller.selfProgramId seed)
    {b : Entry} (ha : a ∈ circuitEntries input) (hb : b ∈ circuitEntries input)
    {k : NullifierPublicKey × Identifier} (hk : a.identity.npkIfPrivatePda = some k)
    (huse : PdaUse input programId seed a) (huse' : PdaUse input programId seed b) :
    a.pre.accountId = b.pre.accountId := by
  have hentries : circuitEntries input = es.entries input.accountIdentities := by
    simp only [circuitEntries, hes]
  obtain ⟨hfamily, hid⟩ := huse.family_of_private hS h hes hstrings hseeds ha hk
  have hfamily' : es.pdaFamilyBinding.lookup (programId, seed) = some b.pre.accountId := by
    cases hk' : b.identity.npkIfPrivatePda with
    | some k' => exact (huse'.family_of_private hS h hes hstrings hseeds hb hk').1
    | none =>
        refine (huse'.family_or_first hS hes hstrings (hentries ▸ hb) hk').resolve_right ?_
        rintro ⟨x, hx, rfl, hfirst⟩
        refine hnone x hx seed hfirst ⟨a.pre, ?_, k, ?_, hid⟩
        · rw [← firstListings_of_deriveFromOutputs hes]
          exact List.mem_of_getElem? (ExecutionState.of_mem_entries (hentries ▸ ha)).2.1
        · rw [suppliedNpk, suppliedIdentity_of_entry hes (hentries ▸ ha), Option.bind_some, hk]
          rfl
  exact Option.some.inj (hfamily.symm.trans hfamily')

/-- **Private PDAs.**  Each private PDA of an accepted input is used with one pair of program and
seed, to which its position is bound, from which its id is derived and which its ciphertext
carries.  And no pair is used for two accounts, exactly if no output for a call is the first to
list, and marks, the public PDA of the caller under a seed of the call while a private PDA of the
same pair is among the accounts. -/
theorem private_pda_binding_iff (hS : CollisionFree S) (h : circuit input = .ok output)
    (hstrings : ∀ s ∈ circuitStrings input, s ∈ S) (hseeds : ∀ s ∈ seedStrings input, s ∈ S) :
    ∃ es, deriveFromOutputs input.accountIdentities input.programId input.programOutputs =
        .ok es ∧
      (∀ position identity npk identifier, input.accountIdentities[position]? = some identity →
        identity.npkIfPrivatePda = some (npk, identifier) →
        ∃ a ∈ circuitEntries input, a.position = position ∧ a.identity = identity ∧
          ∃ programId seed,
            es.privatePdaBoundPositions.lookup position = some (programId, seed) ∧
            (∀ p s, PdaUse input p s a ↔ p = programId ∧ s = seed) ∧
            a.pre.accountId = AccountId.forPrivatePda programId seed npk identifier ∧
            ∃ i u, (privateEntries (circuitEntries input))[i]? = some (a, u) ∧
              output.ciphertexts[i]? = some (encrypt (u.newAccount a.post)
                (.pda programId seed identifier) u.ssk (newCommitment (a, u)) i)) ∧
      ((∀ programId seed, ∀ a ∈ circuitEntries input, ∀ b ∈ circuitEntries input,
          PdaUse input programId seed a → PdaUse input programId seed b →
          a.pre.accountId = b.pre.accountId) ↔
        ∀ x ∈ consumptions input.programOutputs, ∀ seed, x.MarksFirst input seed →
          ¬SuppliesPda input x.caller.selfProgramId seed) := by
  obtain ⟨es, hes, hentries, _⟩ := emitted_of_circuit h
  refine ⟨es, hes, ?_, ?_, ?_⟩
  · intro position identity npk identifier hidentity hk
    obtain ⟨a, ha, rfl, rfl⟩ := exists_entry h hidentity
    obtain ⟨⟨programId, seed⟩, u, hbound, hu, hkind, hid, _⟩ := bound_of_privatePda h hes ha hk
    refine ⟨a, ha, rfl, rfl, programId, seed, hbound, fun p s => ⟨fun huse => ?_, ?_⟩, hid, ?_⟩
    · have hsame := huse.eq_bound hS h hes hstrings hseeds ha hk
      rw [hbound, Option.some.injEq, Prod.mk.injEq] at hsame
      exact ⟨hsame.1.symm, hsame.2.symm⟩
    · rintro ⟨rfl, rfl⟩
      exact pdaUse_of_bound h hes ha hk hbound
    · obtain ⟨i, hi⟩ := List.mem_iff_getElem?.1 (mem_privateEntries.2 ⟨ha, hu⟩)
      refine ⟨i, u, hi, ?_⟩
      rw [ciphertexts_of_circuit h, List.getElem?_mapIdx, hi, Option.map_some, sealedOutput, hkind]
  · intro hsame x hx seed hfirst hpda
    obtain ⟨a, ha, b, hb, huse, huse', hne⟩ :=
      two_uses_of_marksFirst hS h hstrings hseeds hx hfirst hpda
    exact hne (hsame _ _ a ha b hb huse huse')
  · intro hnone programId seed a ha b hb huse huse'
    cases hk : a.identity.npkIfPrivatePda with
    | some k =>
        exact huse.accountId_eq_of_private hS h hes hstrings hseeds hnone ha hb hk huse'
    | none =>
        cases hk' : b.identity.npkIfPrivatePda with
        | some k =>
            exact (huse'.accountId_eq_of_private hS h hes hstrings hseeds hnone hb ha hk'
              huse).symm
        | none =>
            rw [huse.eq_forPublicPda hes (hentries ▸ ha) hk,
              huse'.eq_forPublicPda hes (hentries ▸ hb) hk']

end

namespace NewPrivatePda

def seed : PdaSeed := ⟨Vector.replicate 32 1⟩

def npk : NullifierPublicKey := ⟨Vector.replicate 32 5⟩

def pda : AccountId := @AccountId.forPrivatePda Sample.sha256 (Sample.programId 10) seed npk 0

def claimed : AccountWithMetadata := ⟨Sample.account (Sample.programId 10) 0, true, pda⟩

/-- Program `10` claims a private PDA and calls program `11` for it. -/
def script : Sample.Script
  | 10, input => .ok (input.output
      (input.preStates.map fun pre => .newClaimed pre.account (.pda seed))
      [⟨Sample.programId 11, [claimed], [], [seed]⟩])
  | 11, input => .ok (input.output (unchangedPostStates input.preStates) [])
  | _, _ => .error "no such program"

def input : PrivacyPreservingCircuitInput :=
  ⟨[Sample.output script 10 none [⟨Account.default, false, pda⟩] [],
    Sample.output script 11 (some (Sample.programId 10)) [claimed] []],
    [.privatePdaInit npk ⟨Vector.replicate 32 0⟩ 0], Sample.programId 10⟩

def strings : List Bytes :=
  let _ := Sample.sha256; let _ := Sample.zkvm script
  circuitStrings input ++ seedStrings input

end NewPrivatePda

/-- The claim and the call use the same pair, and for no other account. -/
theorem private_pda_binding_iff_new :
    let _ := Sample.sha256; let _ := Sample.zkvm NewPrivatePda.script; let _ := Sample.chaCha20
    (circuit NewPrivatePda.input).isOk = true ∧
      (∃ a ∈ circuitEntries NewPrivatePda.input, a.position = 0 ∧ ∃ programId seed,
        (∀ p s, PdaUse NewPrivatePda.input p s a ↔ p = programId ∧ s = seed) ∧
        a.pre.accountId = AccountId.forPrivatePda programId seed NewPrivatePda.npk 0) ∧
      ∀ programId seed, ∀ a ∈ circuitEntries NewPrivatePda.input,
        ∀ b ∈ circuitEntries NewPrivatePda.input, PdaUse NewPrivatePda.input programId seed a →
        PdaUse NewPrivatePda.input programId seed b → a.pre.accountId = b.pre.accountId := by
  intro _ _ _
  obtain ⟨hok, hdigests, hlisted⟩ : (circuit NewPrivatePda.input).isOk = true ∧
      ((NewPrivatePda.strings.dedup.map sha256).Nodup ∧
        Bytes32.zero ∉ NewPrivatePda.strings.dedup.map sha256) ∧
      ∀ x ∈ consumptions NewPrivatePda.input.programOutputs, ∀ pre ∈ x.result.preStates,
        ∃ out ∈ x.earlier, pre.accountId ∈ out.preStates.map (·.accountId) := by decide +kernel
  obtain ⟨output, h⟩ := exists_of_isOk hok
  obtain ⟨_, _, hbound, hsame⟩ := private_pda_binding_iff (collisionFree_of_digests hdigests) h
    (fun s hs => List.mem_append_left _ hs) (fun s hs => List.mem_append_right _ hs)
  obtain ⟨a, ha, hposition, _, programId, seed, _, huses, hid, _⟩ :=
    hbound 0 _ NewPrivatePda.npk 0 rfl rfl
  refine ⟨hok, ⟨a, ha, hposition, programId, seed, huses, hid⟩, hsame.2 ?_⟩
  rintro x hx _ ⟨_, pre, hpre, _, _, _, hnew⟩ _
  obtain ⟨out, hout, hmem⟩ := hlisted x hx pre hpre
  exact hnew out hout hmem

namespace SharedPair

def publicPda : AccountId :=
  @AccountId.forPublicPda Sample.sha256 (Sample.programId 10) NewPrivatePda.seed

def marked : AccountWithMetadata := ⟨Account.default, true, publicPda⟩

/-- Program `10` claims its private PDA under a seed and calls program `11` with this seed for its
public one. -/
def script : Sample.Script
  | 10, input => .ok (input.output
      (input.preStates.map fun pre => .newClaimed pre.account (.pda NewPrivatePda.seed))
      [⟨Sample.programId 11, [marked], [], [NewPrivatePda.seed]⟩])
  | 11, input => .ok (input.output (unchangedPostStates input.preStates) [])
  | _, _ => .error "no such program"

def input : PrivacyPreservingCircuitInput :=
  ⟨[Sample.output script 10 none [⟨Account.default, false, NewPrivatePda.pda⟩] [],
    Sample.output script 11 (some (Sample.programId 10)) [marked] []],
    [.privatePdaInit NewPrivatePda.npk ⟨Vector.replicate 32 0⟩ 0, .publicAccount],
    Sample.programId 10⟩

end SharedPair

/-- The circuit accepts an input in which one pair is used to claim a private PDA and to authorise
the public one. -/
theorem two_accounts_of_a_pair :
    let _ := Sample.sha256; let _ := Sample.zkvm SharedPair.script; let _ := Sample.chaCha20
    (circuit SharedPair.input).isOk = true ∧
      ∃ a ∈ circuitEntries SharedPair.input, ∃ b ∈ circuitEntries SharedPair.input,
        PdaUse SharedPair.input (Sample.programId 10) NewPrivatePda.seed a ∧
        PdaUse SharedPair.input (Sample.programId 10) NewPrivatePda.seed b ∧
        a.pre.accountId ≠ b.pre.accountId := by
  intro _ _ _
  obtain ⟨hok, ⟨a, ha, haId, haPda⟩, ⟨b, hb, hbId, hbPublic⟩, ⟨c, hc, x, hx, hid, hprogram, hclaim⟩,
      ⟨c', hc', x', hx', hid', hcaller, hseed, hmark⟩, hne⟩ :
      (circuit SharedPair.input).isOk = true ∧
      (∃ a ∈ circuitEntries SharedPair.input,
        a.pre.accountId = NewPrivatePda.pda ∧ a.identity.isPrivatePda = true) ∧
      (∃ b ∈ circuitEntries SharedPair.input,
        b.pre.accountId = SharedPair.publicPda ∧ b.identity.isPublic = true) ∧
      (∃ c ∈ consumedCalls SharedPair.input, ∃ x ∈ c.result.zipped,
        x.1.accountId = NewPrivatePda.pda ∧ c.call.call.programId = Sample.programId 10 ∧
        x.2.claim = some (.pda NewPrivatePda.seed)) ∧
      (∃ c ∈ consumedCalls SharedPair.input, ∃ x ∈ c.result.zipped,
        x.1.accountId = SharedPair.publicPda ∧ c.call.caller = some (Sample.programId 10) ∧
        NewPrivatePda.seed ∈ c.call.call.pdaSeeds ∧ x.1.isAuthorized = true) ∧
      NewPrivatePda.pda ≠ SharedPair.publicPda := by decide +kernel
  refine ⟨hok, a, ha, b, hb, ?_, ?_, by rwa [haId, hbId]⟩
  · exact .claim c hc x hx (hid.trans haId.symm) hprogram hclaim (.inr haPda)
  · exact .callerSeed c' hc' x' hx' (hid'.trans hbId.symm) hcaller hseed (.inl hbId) hmark
      (.inl hbPublic)

end ExecutionZone
