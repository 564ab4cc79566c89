import ExecutionZone.Circuit.Output

/-!
# What an accepted circuit input satisfies

`consumedCalls` are the calls an input is consumed for.  `Synced` says what taking one
account of an output over into the execution state does, and is all that later arguments
use about it.  From it:

- the state stays `WellFormed`: the accounts seen are distinct, exactly they have a post
  state, and a bound position holds a private PDA of the npk supplied for it;
- accounts keep the position and the mark they are first listed with;
- the balances of the post states add up to those the accounts were first listed with.
-/

namespace ExecutionZone

open CallTree

variable [Sha256]

/-! ## Bindings -/

/-- The account `id`, at `position`, is the private PDA of the npk supplied there. -/
def BindsNpk (accountIdentities : List InputAccountIdentity) (id : AccountId) (position : Nat)
    (v : ProgramId × PdaSeed) : Prop :=
  ∃ npk identifier, privatePdaNpk accountIdentities position = some (npk, identifier) ∧
    id = AccountId.forPrivatePda v.1 v.2 npk identifier

/-- The windows of blocks and times. -/
def ExecutionState.windows (es : ExecutionState) :
    ValidityWindow BlockId × ValidityWindow Timestamp :=
  (es.blockValidityWindow, es.timestampValidityWindow)

/-- Nothing changes but the bindings, and only the position of `id` is newly bound. -/
structure Rebound (accountIdentities : List InputAccountIdentity) (id : AccountId)
    (position : Nat) (es es' : ExecutionState) : Prop where
  preStates : es'.preStates = es.preStates
  postStates : es'.postStates = es.postStates
  windows : es'.windows = es.windows
  bound : ∀ p v, es'.privatePdaBoundPositions.lookup p = some v →
    es.privatePdaBoundPositions.lookup p = some v ∨
      p = position ∧ BindsNpk accountIdentities id position v

namespace Rebound

variable {accountIdentities : List InputAccountIdentity} {id : AccountId} {position : Nat}
  {es es₁ es₂ : ExecutionState}

theorem refl (es : ExecutionState) : Rebound accountIdentities id position es es :=
  ⟨rfl, rfl, rfl, fun _ _ => .inl⟩

theorem trans (h : Rebound accountIdentities id position es es₁)
    (h' : Rebound accountIdentities id position es₁ es₂) :
    Rebound accountIdentities id position es es₂ :=
  ⟨h'.preStates.trans h.preStates, h'.postStates.trans h.postStates, h'.windows.trans h.windows,
    fun p v hv => (h'.bound p v hv).elim (h.bound p v) .inr⟩

end Rebound

section

variable {accountIdentities : List InputAccountIdentity} {id : AccountId} {position : Nat}
  {programId : ProgramId} {seed : PdaSeed} {es es' : ExecutionState}

theorem rebound_of_assertFamilyBinding (h : assertFamilyBinding es programId seed id = .ok es') :
    Rebound accountIdentities id position es es' := by
  unfold assertFamilyBinding at h
  split at h
  · cases h
    exact ⟨rfl, rfl, rfl, fun _ _ => .inl⟩
  · simp only [bind_eq_ok, ensure_eq_ok, exists_const, pure, Except.pure, Except.ok.injEq] at h
    rw [← h.2]
    exact .refl es

theorem rebound_of_bindPrivatePdaPosition
    (hnpk : BindsNpk accountIdentities id position (programId, seed))
    (h : bindPrivatePdaPosition es position programId seed = .ok es') :
    Rebound accountIdentities id position es es' := by
  unfold bindPrivatePdaPosition at h
  split at h
  · cases h
    refine ⟨rfl, rfl, rfl, fun p v hv => ?_⟩
    by_cases hp : p = position
    · subst hp
      rw [AList.lookup_insert] at hv
      cases hv
      exact .inr ⟨rfl, hnpk⟩
    · rw [AList.lookup_insert_ne hp] at hv
      exact .inl hv
  · simp only [bind_eq_ok, ensure_eq_ok, exists_const, pure, Except.pure, Except.ok.injEq] at h
    rw [← h.2]
    exact .refl es

/-- A caller seed that derives an account. -/
theorem matchedCallerSeed_eq_some {npk : Option (NullifierPublicKey × Identifier)}
    {caller : Option ProgramId} {seeds : List PdaSeed} {m : SeedMatch}
    (h : matchedCallerSeed npk id caller seeds = some m) :
    caller = some m.caller ∧ m.seed ∈ seeds ∧
      ((m.isPrivateForm = false ∧ id = AccountId.forPublicPda m.caller m.seed) ∨
        (m.isPrivateForm = true ∧ ∃ key identifier, npk = some (key, identifier) ∧
          id = AccountId.forPrivatePda m.caller m.seed key identifier)) := by
  obtain ⟨program, rfl, h⟩ := Option.bind_eq_some_iff.1 h
  obtain ⟨seed, hseed, h⟩ := List.exists_of_findSome?_eq_some h
  unfold matchSeed at h
  split at h
  · rename_i hid
    cases h
    exact ⟨rfl, hseed, .inl ⟨rfl, hid.symm⟩⟩
  · split at h
    · split at h
      · rename_i hid
        cases h
        exact ⟨rfl, hseed, .inr ⟨rfl, _, _, rfl, hid.symm⟩⟩
      · cases h
    · cases h

theorem rebound_of_recordBindings {caller : Option ProgramId} {seeds : List PdaSeed}
    (h : recordBindings es id position
      (matchedCallerSeed (privatePdaNpk accountIdentities position) id caller seeds) = .ok es') :
    Rebound accountIdentities id position es es' := by
  cases hm : matchedCallerSeed (privatePdaNpk accountIdentities position) id caller seeds with
  | none =>
      rw [hm] at h
      cases h
      exact .refl es
  | some m =>
      rw [hm] at h
      obtain ⟨es₁, hfamily, h⟩ := bind_eq_ok.1 h
      have h₁ : Rebound accountIdentities id position es es₁ :=
        rebound_of_assertFamilyBinding hfamily
      obtain ⟨_, _, hform⟩ := matchedCallerSeed_eq_some hm
      rcases hform with ⟨hform, _⟩ | ⟨hform, npk, identifier, hnpk, hid⟩
      · rw [hform] at h
        cases h
        exact h₁
      · rw [hform] at h
        exact h₁.trans (rebound_of_bindPrivatePdaPosition ⟨npk, identifier, hnpk, hid⟩ h)

end

/-! ## One account of an output -/

omit [Sha256] in
theorem ExecutionState.position_eq_some {es : ExecutionState} {id : AccountId} {position : Nat}
    (h : es.position id = some position) :
    ∃ pre, es.preStates[position]? = some pre ∧ pre.accountId = id := by
  obtain ⟨hlt, hid, _⟩ := List.findIdx?_eq_some_iff_getElem.1 h
  exact ⟨es.preStates[position], by simp [hlt], by simpa using hid⟩

omit [Sha256] in
/-- An account keeps the position it was first listed at. -/
theorem ExecutionState.position_of_prefix {es final : ExecutionState} {id : AccountId}
    (hearlier : es.preStates <+: final.preStates) (hid : id ∈ es.preStates.map (·.accountId)) :
    es.position id = final.position id := by
  obtain ⟨l, hl⟩ := hearlier
  unfold ExecutionState.position
  rw [← hl, List.findIdx?_append]
  cases hfind : es.preStates.findIdx? fun acc => acc.accountId = id with
  | some i => rw [Option.some_or]
  | none =>
      obtain ⟨acc, hacc, hacc'⟩ := List.mem_map.1 hid
      have hne := List.findIdx?_eq_none_iff.1 hfind acc hacc
      simp [hacc'] at hne

/-- The account `id` is seen, and supplied as a public one. -/
def ExecutionState.PublicAt (accountIdentities : List InputAccountIdentity) (es : ExecutionState)
    (id : AccountId) : Prop :=
  ∃ position, es.position id = some position ∧
    accountIdentities[position]? = some .publicAccount

/-- What becomes of a post state in the circuit: as on the public path, except that claims
are checked in the same way only if the account is public. -/
inductive Settled (programId : ProgramId) (isPublic : Prop) (pre : AccountWithMetadata)
    (post : AccountPostState) : Account → Prop
  | unclaimed (hclaim : post.claim = none) : Settled programId isPublic pre post post.account
  | claimed {claim : Claim} (hclaim : post.claim = some claim)
      (howner : post.account.programOwner = defaultProgramId)
      (hallowed : isPublic → ClaimAllowed programId pre claim) :
      Settled programId isPublic pre post { post.account with programOwner := programId }

theorem Settled.balance {programId : ProgramId} {isPublic : Prop} {pre : AccountWithMetadata}
    {post : AccountPostState} {account : Account}
    (h : Settled programId isPublic pre post account) : account.balance = post.account.balance := by
  cases h with
  | unclaimed => rfl
  | claimed => rfl

theorem Settled.granted {programId : ProgramId} {isPublic : Prop} {pre : AccountWithMetadata}
    {post : AccountPostState} {account : Account} (h : Settled programId isPublic pre post account)
    (hpublic : isPublic) : Granted programId pre post account := by
  cases h with
  | unclaimed hclaim => exact .unclaimed hclaim
  | claimed hclaim howner hallowed => exact .claimed hclaim howner (hallowed hpublic)

theorem Settled.of_imp {programId : ProgramId} {isPublic isPublic' : Prop}
    {pre : AccountWithMetadata} {post : AccountPostState} {account : Account}
    (h : Settled programId isPublic pre post account) (hpublic : isPublic' → isPublic) :
    Settled programId isPublic' pre post account := by
  cases h with
  | unclaimed hclaim => exact .unclaimed hclaim
  | claimed hclaim howner hallowed =>
      exact .claimed hclaim howner fun hpublic' => hallowed (hpublic hpublic')

/-- Nothing is claimed of an account with an owner. -/
theorem Settled.granted_of_owned {programId : ProgramId} {isPublic : Prop}
    {pre : AccountWithMetadata} {post : AccountPostState} {account : Account}
    (h : Settled programId isPublic pre post account)
    (hpair : ValidPair programId pre.account post.account)
    (howner : pre.account.programOwner ≠ defaultProgramId) : Granted programId pre post account := by
  cases h with
  | unclaimed hclaim => exact .unclaimed hclaim
  | claimed _ hdefault _ => exact absurd (hpair.owner.symm.trans hdefault) howner

/-- What taking the account of `pre` over from an output does. -/
structure Synced (accountIdentities : List InputAccountIdentity) (programId : ProgramId)
    (caller : Option ProgramId) (seeds : List PdaSeed) (pre : AccountWithMetadata)
    (post : AccountPostState) (es es' : ExecutionState) : Prop where
  settled : ∃ account,
    Settled programId (es'.PublicAt accountIdentities pre.accountId) pre post account ∧
      es'.postStates = es.postStates.insert pre.accountId account
  listed : (es.postStates.lookup pre.accountId = none ∧ es'.preStates = es.preStates ++ [pre]) ∨
    (es.postStates.lookup pre.accountId = some pre.account ∧ es'.preStates = es.preStates ∧
      ∃ position previous, es.position pre.accountId = some position ∧
        es.preStates[position]? = some previous ∧
        pre.isAuthorized = (previous.isAuthorized ||
          (matchedCallerSeed (privatePdaNpk accountIdentities position) pre.accountId caller
            seeds).isSome))
  bound : ∀ p v, es'.privatePdaBoundPositions.lookup p = some v →
    es.privatePdaBoundPositions.lookup p = some v ∨
      es'.position pre.accountId = some p ∧ BindsNpk accountIdentities pre.accountId p v

section

variable {accountIdentities : List InputAccountIdentity} {programId : ProgramId}
  {caller : Option ProgramId} {seeds : List PdaSeed} {pre : AccountWithMetadata}
  {post : AccountPostState} {es es' : ExecutionState}

theorem rebound_of_checkCircuitClaim {position : Nat} {identity : InputAccountIdentity}
    {claim : Claim} (hidentity : accountIdentities[position]? = some identity)
    (h : checkCircuitClaim programId es pre position identity claim = .ok es') :
    Rebound accountIdentities pre.accountId position es es' ∧
      (identity = .publicAccount → ClaimAllowed programId pre claim) := by
  unfold checkCircuitClaim at h
  split at h
  · cases claim with
    | authorized =>
        simp only [bind_eq_ok, ensure_eq_ok, exists_const, pure, Except.pure,
          Except.ok.injEq] at h
        rw [← h.2]
        exact ⟨.refl es, fun _ => h.1⟩
    | pda seed =>
        simp only [bind_eq_ok, ensure_eq_ok, exists_const] at h
        exact ⟨rebound_of_assertFamilyBinding h.2, fun _ => h.1⟩
  · rename_i hprivate
    refine ⟨?_, fun hpublic => absurd (by rw [hpublic]; rfl) hprivate⟩
    split at h
    · cases claim with
      | authorized =>
          simp only [bind_eq_ok, ensure_eq_ok, exists_const, pure, Except.pure,
            Except.ok.injEq] at h
          rw [← h.2]
          exact .refl es
      | pda seed =>
          simp only [bind_eq_ok, ensure_eq_ok, expect_eq_ok, exists_const] at h
          obtain ⟨⟨npk, identifier⟩, hnpk, hid, es₁, hbind, hfamily⟩ := h
          have hbinds : BindsNpk accountIdentities pre.accountId position (programId, seed) := by
            refine ⟨npk, identifier, ?_, hid⟩
            rw [privatePdaNpk, hidentity, Option.bind_some, hnpk]
          exact (rebound_of_bindPrivatePdaPosition hbinds hbind).trans
            (rebound_of_assertFamilyBinding hfamily)
    · cases h
      exact .refl es

/-- Either way of listing an account leaves the post states alone and rebinds at most its
own position. -/
theorem syncPreState_eq_ok (h : syncPreState accountIdentities caller seeds es pre = .ok es') :
    (es.postStates.lookup pre.accountId = none ∧
      es' = { es with preStates := es.preStates ++ [pre] }) ∨
    (es.postStates.lookup pre.accountId = some pre.account ∧
      ∃ position previous, es.position pre.accountId = some position ∧
        es.preStates[position]? = some previous ∧
        Rebound accountIdentities pre.accountId position es es' ∧
        pre.isAuthorized = (previous.isAuthorized ||
          (matchedCallerSeed (privatePdaNpk accountIdentities position) pre.accountId caller
            seeds).isSome)) := by
  unfold syncPreState at h
  split at h
  · rename_i known hknown
    simp only [syncKnown, bind_eq_ok, ensure_eq_ok, expect_eq_ok, exists_const, pure, Except.pure,
      Except.ok.injEq] at h
    obtain ⟨rfl, position, hposition, previous, hprevious, es₁, hrecord, hauth, rfl⟩ := h
    exact .inr ⟨hknown, position, previous, hposition, hprevious,
      rebound_of_recordBindings hrecord, hauth⟩
  · rename_i hnone
    cases h
    exact .inl ⟨hnone, rfl⟩

theorem syncClaim_eq_ok {account : Account}
    (h : syncClaim accountIdentities programId es pre post = .ok (es', account)) :
    Settled programId (es.PublicAt accountIdentities pre.accountId) pre post account ∧
      (es' = es ∨ ∃ position, es.position pre.accountId = some position ∧
        Rebound accountIdentities pre.accountId position es es') := by
  unfold syncClaim at h
  split at h
  · rename_i hclaim
    cases h
    exact ⟨.unclaimed hclaim, .inl rfl⟩
  · rename_i claim hclaim
    simp only [bind_eq_ok, ensure_eq_ok, expect_eq_ok, exists_const, pure, Except.pure,
      Except.ok.injEq, Prod.mk.injEq] at h
    obtain ⟨howner, position, hposition, identity, hidentity, es₁, hcheck, rfl, rfl⟩ := h
    obtain ⟨hrebound, hallowed⟩ := rebound_of_checkCircuitClaim hidentity hcheck
    refine ⟨.claimed hclaim howner ?_, .inr ⟨position, hposition, hrebound⟩⟩
    rintro ⟨position', hposition', hpublic⟩
    rw [hposition, Option.some.injEq] at hposition'
    rw [← hposition', hidentity, Option.some.injEq] at hpublic
    exact hallowed hpublic

/-- A claim keeps what the listing before it left. -/
theorem synced_of_sync {es₁ es₂ : ExecutionState} {account : Account}
    (hpre : syncPreState accountIdentities caller seeds es pre = .ok es₁)
    (hclaim : syncClaim accountIdentities programId es₁ pre post = .ok (es₂, account)) :
    Synced accountIdentities programId caller seeds pre post es
      { es₂ with postStates := es₂.postStates.insert pre.accountId account } := by
  obtain ⟨hsettled, hclaim⟩ := syncClaim_eq_ok hclaim
  have hkept : es₂.preStates = es₁.preStates ∧ es₂.postStates = es₁.postStates ∧
      ∀ p v, es₂.privatePdaBoundPositions.lookup p = some v →
        es₁.privatePdaBoundPositions.lookup p = some v ∨
          es₁.position pre.accountId = some p ∧ BindsNpk accountIdentities pre.accountId p v := by
    rcases hclaim with rfl | ⟨position, hposition, hrebound⟩
    · exact ⟨rfl, rfl, fun _ _ => .inl⟩
    · refine ⟨hrebound.preStates, hrebound.postStates, fun p v hv => ?_⟩
      rcases hrebound.bound p v hv with hv | ⟨rfl, hbinds⟩
      · exact .inl hv
      · exact .inr ⟨hposition, hbinds⟩
  obtain ⟨hpres, hposts, hbound⟩ := hkept
  have hposition : ∀ id, ExecutionState.position { es₂ with
      postStates := es₂.postStates.insert pre.accountId account } id = es₁.position id := by
    intro id
    simp only [ExecutionState.position, hpres]
  have hpublic : ExecutionState.PublicAt accountIdentities { es₂ with
      postStates := es₂.postStates.insert pre.accountId account } pre.accountId =
      es₁.PublicAt accountIdentities pre.accountId := by
    simp only [ExecutionState.PublicAt, hposition]
  rw [← hpublic] at hsettled
  rcases syncPreState_eq_ok hpre with ⟨hnone, rfl⟩ | ⟨hknown, position, previous, hpos, hprev,
    hrebound, hauth⟩
  · refine ⟨⟨account, hsettled, by rw [hposts]⟩, .inl ⟨hnone, hpres⟩, fun p v hv => ?_⟩
    rw [hposition]
    exact hbound p v hv
  · refine ⟨⟨account, hsettled, by rw [hposts, hrebound.postStates]⟩,
      .inr ⟨hknown, hpres.trans hrebound.preStates, position, previous, hpos, hprev, hauth⟩,
      fun p v hv => ?_⟩
    rw [hposition]
    have hpos₁ : es₁.position pre.accountId = some position := by
      rw [← hpos]
      simp only [ExecutionState.position, hrebound.preStates]
    rcases hbound p v hv with hv | hv
    · rcases hrebound.bound p v hv with hv | ⟨rfl, hbinds⟩
      · exact .inl hv
      · exact .inr ⟨hpos₁, hbinds⟩
    · exact .inr hv

/-- One turn of `validate_and_sync_states`. -/
def SyncTurn (accountIdentities : List InputAccountIdentity) (programId : ProgramId)
    (caller : Option ProgramId) (seeds : List PdaSeed) (pre : AccountWithMetadata)
    (post : AccountPostState) (es es' : ExecutionState) : Prop :=
  ∃ es₁ es₂ account, syncPreState accountIdentities caller seeds es pre = .ok es₁ ∧
    syncClaim accountIdentities programId es₁ pre post = .ok (es₂, account) ∧
    es' = { es₂ with postStates := es₂.postStates.insert pre.accountId account }

theorem SyncTurn.synced (h : SyncTurn accountIdentities programId caller seeds pre post es es') :
    Synced accountIdentities programId caller seeds pre post es es' := by
  obtain ⟨es₁, es₂, account, hpre, hclaim, rfl⟩ := h
  exact synced_of_sync hpre hclaim

/-- The windows do not change. -/
theorem SyncTurn.windows (h : SyncTurn accountIdentities programId caller seeds pre post es es') :
    es'.windows = es.windows := by
  obtain ⟨es₁, es₂, account, hpre, hclaim, rfl⟩ := h
  have hlisted : es₁.windows = es.windows := by
    rcases syncPreState_eq_ok hpre with ⟨_, rfl⟩ | ⟨_, _, _, _, _, hrebound, _⟩
    · rfl
    · exact hrebound.windows
  have hclaimed : es₂.windows = es₁.windows := by
    obtain ⟨_, rfl | ⟨_, _, hrebound⟩⟩ := syncClaim_eq_ok hclaim
    · rfl
    · exact hrebound.windows
  exact hclaimed.trans hlisted

theorem syncTurn_of_cons {l : List (AccountWithMetadata × AccountPostState)}
    (h : validateAndSyncStates accountIdentities programId caller seeds es ((pre, post) :: l) =
      .ok es') :
    ∃ es₁, SyncTurn accountIdentities programId caller seeds pre post es es₁ ∧
      validateAndSyncStates accountIdentities programId caller seeds es₁ l = .ok es' := by
  simp only [validateAndSyncStates, bind_eq_ok] at h
  obtain ⟨es₁, hpre, ⟨es₂, account⟩, hclaim, h⟩ := h
  exact ⟨_, ⟨es₁, es₂, account, hpre, hclaim, rfl⟩, h⟩

/-- The specification of one turn of `validate_and_sync_states`. -/
theorem validateAndSyncStates_cons {l : List (AccountWithMetadata × AccountPostState)}
    (h : validateAndSyncStates accountIdentities programId caller seeds es ((pre, post) :: l) =
      .ok es') :
    ∃ es₁, Synced accountIdentities programId caller seeds pre post es es₁ ∧
      validateAndSyncStates accountIdentities programId caller seeds es₁ l = .ok es' := by
  obtain ⟨es₁, hturn, h⟩ := syncTurn_of_cons h
  exact ⟨es₁, hturn.synced, h⟩

/-- **Induction over the accounts of an output.**  A reflexive and transitive relation that
holds over one account holds over all of them. -/
theorem related_of_syncTurns {I : ExecutionState → Prop}
    {G : ExecutionState → ExecutionState → Prop} (hrefl : ∀ es, G es es)
    (htrans : ∀ es₁ es₂ es₃, G es₁ es₂ → G es₂ es₃ → G es₁ es₃)
    {l : List (AccountWithMetadata × AccountPostState)}
    (hstep : ∀ pre post es es', (pre, post) ∈ l → I es →
      SyncTurn accountIdentities programId caller seeds pre post es es' → I es' ∧ G es es')
    (h : validateAndSyncStates accountIdentities programId caller seeds es l = .ok es')
    (hI : I es) :
    (I es' ∧ G es es') ∧ ∀ p ∈ l, ∃ es₁ es₂, I es₁ ∧ G es es₁ ∧
      SyncTurn accountIdentities programId caller seeds p.1 p.2 es₁ es₂ ∧ G es₂ es' := by
  induction l generalizing es with
  | nil =>
      cases h
      exact ⟨⟨hI, hrefl _⟩, by simp⟩
  | cons p l ih =>
      obtain ⟨pre, post⟩ := p
      obtain ⟨es₁, hturn, h⟩ := syncTurn_of_cons h
      obtain ⟨hI₁, hG₁⟩ := hstep pre post _ _ List.mem_cons_self hI hturn
      obtain ⟨⟨hI', hG'⟩, hrest⟩ :=
        ih (fun pre post es es' hmem => hstep pre post es es' (List.mem_cons_of_mem _ hmem)) h hI₁
      refine ⟨⟨hI', htrans _ _ _ hG₁ hG'⟩, fun p hp => ?_⟩
      rcases List.mem_cons.1 hp with rfl | hp
      · exact ⟨_, _, hI, hrefl _, hturn, hG'⟩
      · obtain ⟨es₃, es₄, hI₃, hG₃, hturn₃, hG₄⟩ := hrest p hp
        exact ⟨es₃, es₄, hI₃, htrans _ _ _ hG₁ hG₃, hturn₃, hG₄⟩

/-- The same for what only depends on the specification of a turn. -/
theorem related_of_validateAndSyncStates {I : ExecutionState → Prop}
    {G : ExecutionState → ExecutionState → Prop} (hrefl : ∀ es, G es es)
    (htrans : ∀ es₁ es₂ es₃, G es₁ es₂ → G es₂ es₃ → G es₁ es₃)
    {l : List (AccountWithMetadata × AccountPostState)}
    (hstep : ∀ pre post es es', (pre, post) ∈ l → I es →
      Synced accountIdentities programId caller seeds pre post es es' → I es' ∧ G es es')
    (h : validateAndSyncStates accountIdentities programId caller seeds es l = .ok es')
    (hI : I es) :
    (I es' ∧ G es es') ∧ ∀ p ∈ l, ∃ es₁ es₂, I es₁ ∧ G es es₁ ∧
      Synced accountIdentities programId caller seeds p.1 p.2 es₁ es₂ ∧ G es₂ es' := by
  obtain ⟨hend, hturns⟩ := related_of_syncTurns hrefl htrans
    (fun pre post es es' hmem hI hturn => hstep pre post es es' hmem hI hturn.synced) h hI
  refine ⟨hend, fun p hp => ?_⟩
  obtain ⟨es₁, es₂, hI₁, hG₁, hturn, hG₂⟩ := hturns p hp
  exact ⟨es₁, es₂, hI₁, hG₁, hturn.synced, hG₂⟩

end

/-! ## Well-formed states -/

/-- What holds of the execution state at all times. -/
structure ExecutionState.WellFormed (accountIdentities : List InputAccountIdentity)
    (es : ExecutionState) : Prop where
  nodup : (es.preStates.map (·.accountId)).Nodup
  mem_postStates : ∀ id, id ∈ es.postStates ↔ id ∈ es.preStates.map (·.accountId)
  bound : ∀ p v, es.privatePdaBoundPositions.lookup p = some v →
    ∃ pre, es.preStates[p]? = some pre ∧ BindsNpk accountIdentities pre.accountId p v

/-- The sum of the balances accounts were first listed with. -/
def ExecutionState.listedBalance (es : ExecutionState) : Nat :=
  (es.preStates.map (·.account.balance.toNat)).sum

/-- The sum of the balances of the post states. -/
def ExecutionState.postBalance (es : ExecutionState) : Nat :=
  Ledger.total (fun a => a.balance.toNat) Account.default es.postStates

section

variable {accountIdentities : List InputAccountIdentity} {programId : ProgramId}
  {caller : Option ProgramId} {seeds : List PdaSeed} {pre : AccountWithMetadata}
  {post : AccountPostState} {es es' : ExecutionState}

theorem Synced.isPrefix (h : Synced accountIdentities programId caller seeds pre post es es') :
    es.preStates <+: es'.preStates := by
  rcases h.listed with ⟨_, hlist⟩ | ⟨_, hlist, _⟩
  · rw [hlist]
    exact List.prefix_append _ _
  · rw [hlist]

/-- **Step.**  Taking over an account keeps the state well formed. -/
theorem Synced.wellFormed (h : Synced accountIdentities programId caller seeds pre post es es')
    (hwf : es.WellFormed accountIdentities) : es'.WellFormed accountIdentities := by
  obtain ⟨account, _, hposts⟩ := h.settled
  have hmem : ∀ id, id ∈ es'.postStates ↔
      id = pre.accountId ∨ id ∈ es.preStates.map (·.accountId) := by
    intro id
    rw [hposts, AList.mem_insert, hwf.mem_postStates]
  have hbound : ∀ p v, es'.privatePdaBoundPositions.lookup p = some v →
      ∃ pre, es'.preStates[p]? = some pre ∧ BindsNpk accountIdentities pre.accountId p v := by
    intro p v hv
    rcases h.bound p v hv with hv | ⟨hposition, hbinds⟩
    · obtain ⟨pre₀, hpre₀, hbinds⟩ := hwf.bound p v hv
      refine ⟨pre₀, ?_, hbinds⟩
      obtain ⟨l, hl⟩ := h.isPrefix
      rw [← hl, List.getElem?_append_left (List.getElem?_eq_some_iff.1 hpre₀).1, hpre₀]
    · obtain ⟨pre₀, hpre₀, hid⟩ := ExecutionState.position_eq_some hposition
      exact ⟨pre₀, hpre₀, hid ▸ hbinds⟩
  rcases h.listed with ⟨hnone, hlist⟩ | ⟨hknown, hlist, _⟩
  · have hnew : pre.accountId ∉ es.preStates.map (·.accountId) := by
      rw [← hwf.mem_postStates, ← AList.lookup_eq_none]
      exact hnone
    refine ⟨?_, fun id => ?_, hbound⟩
    · rw [hlist, List.map_append, List.map_singleton]
      exact hwf.nodup.append (List.nodup_singleton _) (by simpa using hnew)
    · rw [hmem, hlist, List.map_append, List.mem_append, List.map_singleton, List.mem_singleton,
        or_comm]
  · have hold : pre.accountId ∈ es.preStates.map (·.accountId) := by
      rw [← hwf.mem_postStates, ← AList.lookup_isSome, hknown, Option.isSome_some]
    refine ⟨by rw [hlist]; exact hwf.nodup, fun id => ?_, hbound⟩
    rw [hmem, hlist, or_iff_right_iff_imp]
    rintro rfl
    exact hold

/-- Taking over an account changes the post balance by what the account gains, and by what
it is listed with if it is new. -/
theorem Synced.balance (h : Synced accountIdentities programId caller seeds pre post es es') :
    es'.postBalance + pre.account.balance.toNat + es.listedBalance =
      es.postBalance + post.account.balance.toNat + es'.listedBalance := by
  obtain ⟨account, hsettled, hposts⟩ := h.settled
  have htotal : es'.postBalance +
      (Ledger.get Account.default es.postStates pre.accountId).balance.toNat =
      es.postBalance + account.balance.toNat := by
    have hinsert := Ledger.totalBy_insert (f := fun _ (a : Account) => a.balance.toNat)
      (d := Account.default) (fun _ => rfl) es.postStates pre.accountId account
    rw [← hposts] at hinsert
    exact hinsert
  rw [hsettled.balance] at htotal
  unfold ExecutionState.listedBalance
  rcases h.listed with ⟨hnone, hlist⟩ | ⟨hknown, hlist, _⟩
  · have hget : (Ledger.get Account.default es.postStates pre.accountId).balance.toNat = 0 := by
      rw [Ledger.get, hnone]
      rfl
    rw [hlist, List.map_append, List.sum_append, List.map_singleton, List.sum_singleton]
    omega
  · have hget : Ledger.get Account.default es.postStates pre.accountId = pre.account := by
      rw [Ledger.get, hknown, Option.getD_some]
    rw [hget] at htotal
    rw [hlist]
    omega

theorem balance_of_validateAndSyncStates {l : List (AccountWithMetadata × AccountPostState)}
    (h : validateAndSyncStates accountIdentities programId caller seeds es l = .ok es') :
    es'.postBalance + (l.map (·.1.account.balance.toNat)).sum + es.listedBalance =
      es.postBalance + (l.map (·.2.account.balance.toNat)).sum + es'.listedBalance := by
  induction l generalizing es with
  | nil =>
      cases h
      rfl
  | cons p l ih =>
      obtain ⟨pre, post⟩ := p
      obtain ⟨es₁, hsynced, h⟩ := validateAndSyncStates_cons h
      have hone := hsynced.balance
      have hrest := ih h
      simp only [List.map_cons, List.sum_cons]
      omega

/-- The state before the first output. -/
theorem ExecutionState.wellFormed_initial {outs : List ProgramOutput}
    (h : ExecutionState.initial outs = .ok es) :
    es.WellFormed accountIdentities ∧ es.preStates = [] ∧ es.postBalance = es.listedBalance := by
  simp only [ExecutionState.initial, bind_eq_ok, expect_eq_ok, pure, Except.pure,
    Except.ok.injEq] at h
  obtain ⟨_, _, _, _, rfl⟩ := h
  refine ⟨⟨List.nodup_nil, fun id => ?_, fun p v hv => ?_⟩, rfl, rfl⟩
  · simp
  · simp at hv

end

/-! ## Whole inputs -/

section

variable [Zkvm]

/-- The calls an input is consumed for, with their outputs, if all pass. -/
def consumedCalls (input : PrivacyPreservingCircuitInput) :
    List (Executed CircuitCall ProgramOutput) :=
  match input.programOutputs, ExecutionState.initial input.programOutputs with
  | first :: _, .ok es =>
      match (circuitMachine input.accountIdentities).trace (maxNumberChainedCalls + 1)
          [(initialCircuitCall input.programId first, [])] (input.programOutputs, es) with
      | .ok (calls, _) => calls
      | .error _ => []
  | _, _ => []

/-- What a consumed output satisfies. -/
structure Consumed (accountIdentities : List InputAccountIdentity) (c : CircuitCall)
    (out : ProgramOutput) (es es' : ExecutionState) : Prop where
  instructionData : c.call.instructionData = out.instructionData
  verifies : Zkvm.verifiesOutput c.call.programId out = true
  selfProgramId : out.selfProgramId = c.call.programId
  callerProgramId : out.callerProgramId = c.caller
  valid : ValidExecution out.preStates out.postStates c.call.programId
  sync : validateAndSyncStates accountIdentities c.call.programId c.caller c.call.pdaSeeds es
    out.zipped = .ok es'

/-- The specification of one turn of the loop: the next output is consumed. -/
theorem consumed_of_step {accountIdentities : List InputAccountIdentity} {c : CircuitCall}
    {s s' : List ProgramOutput × ExecutionState} {out : ProgramOutput}
    (h : (circuitMachine accountIdentities).step c s = .ok (out, s')) :
    s.1 = out :: s'.1 ∧ Consumed accountIdentities c out s.2 s'.2 := by
  obtain ⟨outs, es⟩ := s
  cases outs with
  | nil => simp [circuitMachine, consumeOutput] at h
  | cons o rest =>
      simp only [circuitMachine, consumeOutput, bind_eq_ok, ensure_eq_ok, mapError_eq_ok,
        exists_const, pure, Except.pure, Except.ok.injEq, Prod.mk.injEq] at h
      obtain ⟨hinstr, hver, hself, hcaller, _, hvalid, es₁, hsync, rfl, rfl⟩ := h
      exact ⟨rfl, hinstr, hver, hself, hcaller, validExecution_of_validateExecution hvalid, hsync⟩

/-- An accepted input was consumed in a run that leaves no output. -/
theorem runs_of_deriveFromOutputs {input : PrivacyPreservingCircuitInput} {es : ExecutionState}
    (h : deriveFromOutputs input.accountIdentities input.programId input.programOutputs = .ok es) :
    ∃ first rest es₀, input.programOutputs = first :: rest ∧
      ExecutionState.initial input.programOutputs = .ok es₀ ∧
      (circuitMachine input.accountIdentities).Runs
        [(initialCircuitCall input.programId first, [])] (input.programOutputs, es₀)
        (consumedCalls input) ([], es) ∧
      checkPrivatePdasBound input.accountIdentities es = .ok () ∧
      checkModifiedClaimed es = .ok () := by
  obtain ⟨es₀, hes₀, h⟩ := bind_eq_ok.1 h
  cases houts : input.programOutputs with
  | nil => rw [houts] at h; cases h
  | cons first rest =>
      rw [houts] at h hes₀
      simp only [bind_eq_ok, ensure_eq_ok, exists_const, pure, Except.pure, Except.ok.injEq] at h
      obtain ⟨⟨outs', es₁⟩, hrun, hnil, _, hbound, _, hclaimed, hes⟩ := h
      cases hnil
      cases hes
      obtain ⟨calls, htrace⟩ :=
        Machine.exists_runs_of_run (q := [(initialCircuitCall input.programId first, [])]) hrun
      have hcalls : consumedCalls input = calls := by
        simp only [consumedCalls, houts, hes₀, htrace]
      refine ⟨first, rest, es₀, rfl, hes₀, ?_, hbound, hclaimed⟩
      rw [hcalls]
      exact (Machine.runs_of_trace htrace).1

variable {accountIdentities : List InputAccountIdentity} {c : CircuitCall} {out : ProgramOutput}
  {es es' : ExecutionState}

theorem Consumed.wellFormed (h : Consumed accountIdentities c out es es')
    (hwf : es.WellFormed accountIdentities) :
    es'.WellFormed accountIdentities ∧ es.preStates <+: es'.preStates :=
  (related_of_validateAndSyncStates (G := fun es es' => es.preStates <+: es'.preStates)
    (fun _ => List.prefix_refl _) (fun _ _ _ => List.IsPrefix.trans)
    (fun _ _ _ _ _ hwf hsynced => ⟨hsynced.wellFormed hwf, hsynced.isPrefix⟩) h.sync hwf).1

/-- An output moves balance only between the accounts it lists. -/
theorem Consumed.balance (h : Consumed accountIdentities c out es es')
    (hbalance : es.postBalance = es.listedBalance) : es'.postBalance = es'.listedBalance := by
  have hsync := balance_of_validateAndSyncStates h.sync
  have hpre := Ledger.map_zip_fst (Nat.le_of_eq h.valid.length_eq)
    fun p : AccountWithMetadata => p.account.balance.toNat
  have hpost := Ledger.map_zip_snd (Nat.le_of_eq h.valid.length_eq.symm)
    fun p : AccountPostState => p.account.balance.toNat
  rw [ProgramOutput.zipped, hpre, hpost, h.valid.sum_eq] at hsync
  omega

variable {input : PrivacyPreservingCircuitInput}

/-- The final state of an accepted input. -/
theorem wellFormed_of_deriveFromOutputs
    (h : deriveFromOutputs input.accountIdentities input.programId input.programOutputs = .ok es) :
    es.WellFormed input.accountIdentities ∧ es.postBalance = es.listedBalance := by
  obtain ⟨first, rest, es₀, _, hes₀, hruns, _⟩ := runs_of_deriveFromOutputs h
  obtain ⟨hwf, _, hbalance⟩ := ExecutionState.wellFormed_initial hes₀
  have hinv := hruns.invariant
    (I := fun s => s.2.WellFormed input.accountIdentities ∧ s.2.postBalance = s.2.listedBalance)
    (J := fun _ _ => True) (P := fun _ => True)
    (fun c anc s out s' hI _ hstep => by
      obtain ⟨_, hconsumed⟩ := consumed_of_step hstep
      exact ⟨⟨(hconsumed.wellFormed hI.1).1, hconsumed.balance hI.2⟩, fun _ _ => trivial, trivial⟩)
    ⟨hwf, hbalance⟩ fun _ _ => trivial
  exact hinv.1

/-- A call with a caller was chained by a consumed output of it. -/
theorem issuer_of_mem_consumedCalls
    (h : deriveFromOutputs input.accountIdentities input.programId input.programOutputs = .ok es)
    {e : Executed CircuitCall ProgramOutput} (he : e ∈ consumedCalls input) {caller : ProgramId}
    (hcaller : e.call.caller = some caller) :
    ∃ p ∈ consumedCalls input, p.call.call.programId = caller ∧
      e.call.call ∈ p.result.chainedCalls ∧ e.ancestors.head?.map Prod.snd = some p.result := by
  obtain ⟨first, _, es₀, _, _, hruns, _⟩ := runs_of_deriveFromOutputs h
  rcases hruns.mem_issued e he with hmem | ⟨p, hp, hanc, hchild⟩
  · rw [List.mem_singleton, Prod.mk.injEq] at hmem
    rw [hmem.1] at hcaller
    cases hcaller
  · obtain ⟨call, hcall, heq⟩ := List.mem_map.1 hchild
    rw [← heq, Option.some.injEq] at hcaller
    exact ⟨p, hp, hcaller, heq ▸ hcall, by rw [hanc]; rfl⟩

/-- What is consumed for a call is an output of the input, of the called program. -/
theorem result_of_mem_consumedCalls
    (h : deriveFromOutputs input.accountIdentities input.programId input.programOutputs = .ok es)
    {e : Executed CircuitCall ProgramOutput} (he : e ∈ consumedCalls input) :
    e.result ∈ input.programOutputs ∧ e.result.selfProgramId = e.call.call.programId := by
  obtain ⟨first, _, es₀, _, _, hruns, _⟩ := runs_of_deriveFromOutputs h
  obtain ⟨s₁, s₂, _, hrest, hstep, _⟩ := (hruns.step_between (I := fun _ => True)
    (G := fun s s' => s'.1 <:+ s.1) (fun _ => List.suffix_refl _)
    (fun s₁ s₂ s₃ (h₁ : s₂.1 <:+ s₁.1) (h₂ : s₃.1 <:+ s₂.1) => h₂.trans h₁)
    (fun c s out s' _ hstep => ⟨trivial, (consumed_of_step hstep).1 ▸ List.suffix_cons _ _⟩)
    trivial).2 e he
  obtain ⟨houts, hconsumed⟩ := consumed_of_step hstep
  exact ⟨hrest.subset (houts ▸ List.mem_cons_self), hconsumed.selfProgramId⟩

/-- The output at the head of the path to a call is that of a consumed call, and its program is the
caller. -/
theorem issuer_of_ancestors
    (h : deriveFromOutputs input.accountIdentities input.programId input.programOutputs = .ok es)
    {e : Executed CircuitCall ProgramOutput} (he : e ∈ consumedCalls input)
    {caller : ProgramOutput} (hcaller : e.ancestors.head?.map Prod.snd = some caller) :
    ∃ p ∈ consumedCalls input, p.result = caller ∧ e.call.caller = some caller.selfProgramId := by
  obtain ⟨first, _, es₀, _, _, hruns, _⟩ := runs_of_deriveFromOutputs h
  rcases hruns.mem_issued e he with hmem | ⟨p, hp, hanc, hchild⟩
  · rw [List.mem_singleton, Prod.mk.injEq] at hmem
    rw [hmem.2] at hcaller
    cases hcaller
  · rw [hanc] at hcaller
    cases hcaller
    obtain ⟨call, _, hcall⟩ := List.mem_map.1 hchild
    exact ⟨p, hp, rfl, by rw [← hcall, (result_of_mem_consumedCalls h hp).2]⟩

end

end ExecutionZone
