import ExecutionZone.Circuit.Accepted
import ExecutionZone.State.MerkleTree

/-!
# The accounts of an accepted circuit input

`entries` lists the accounts of an input with what the prover supplied for each and what
it contributes to the output.  `Emitted` says that the output of an accepted input is read
off this list, and `NoteSource` what a private account may be: one that is new, whose
initialisation nullifier is published, or one whose commitment lies on a path to a root
and is spent with the secret key its id was derived from.

The strings hashed for a private account are listed by `Entry.strings`; collision freeness
is only ever assumed of such lists.
-/

namespace ExecutionZone

open PerfectTree

variable [Sha256]

/-- One account of an input. -/
structure Entry where
  position : Nat
  identity : InputAccountIdentity
  pre : AccountWithMetadata
  post : Account
  update : Option NoteUpdate
deriving DecidableEq

/-- The entries of a list of accounts, from a position on. -/
def entriesFrom (bound : Ledger.Map Nat (ProgramId × PdaSeed)) :
    Nat → List (InputAccountIdentity × AccountWithMetadata × Account) → List Entry
  | _, [] => []
  | position, (identity, pre, post) :: rest =>
      ⟨position, identity, pre, post, ((noteUpdate bound position pre identity).toOption).join⟩ ::
        entriesFrom bound (position + 1) rest

def ExecutionState.entries (es : ExecutionState)
    (accountIdentities : List InputAccountIdentity) : List Entry :=
  entriesFrom es.privatePdaBoundPositions 0 (accountIdentities.zip
    (es.preStates.map fun pre => (pre, es.postStates.get pre.accountId)))

/-- The public entries. -/
def publicEntries (l : List Entry) : List Entry := l.filter (·.update.isNone)

/-- The private entries with what they contribute. -/
def privateEntries (l : List Entry) : List (Entry × NoteUpdate) :=
  l.filterMap fun e => e.update.map fun u => (e, u)

/-- The commitment a private account contributes. -/
def newCommitment (p : Entry × NoteUpdate) : Commitment :=
  Commitment.new p.2.accountId (p.2.newAccount p.1.post)

/-- The output is read off the entries. -/
structure Emitted (l : List Entry) (output : PrivacyPreservingCircuitOutput) : Prop where
  publicPreStates : output.publicPreStates = (publicEntries l).map (·.pre)
  publicPostStates : output.publicPostStates = (publicEntries l).map (·.post)
  newNullifiers : output.newNullifiers = (privateEntries l).map (·.2.nullifier)
  newCommitments : output.newCommitments = (privateEntries l).map newCommitment

/-! ## The loop -/

section

variable [ChaCha20] {bound : Ledger.Map Nat (ProgramId × PdaSeed)}

/-- What the loop appends to the output so far. -/
theorem appended_of_emitAccounts {position : Nat}
    {l : List (InputAccountIdentity × AccountWithMetadata × Account)}
    {acc acc' : PrivacyPreservingCircuitOutput × Nat}
    (h : emitAccounts bound position l acc = .ok acc') :
    (∀ e ∈ entriesFrom bound position l,
      noteUpdate bound e.position e.pre e.identity = .ok e.update) ∧
    acc'.1.publicPreStates = acc.1.publicPreStates ++
      (publicEntries (entriesFrom bound position l)).map (·.pre) ∧
    acc'.1.publicPostStates = acc.1.publicPostStates ++
      (publicEntries (entriesFrom bound position l)).map (·.post) ∧
    acc'.1.newNullifiers = acc.1.newNullifiers ++
      (privateEntries (entriesFrom bound position l)).map (·.2.nullifier) ∧
    acc'.1.newCommitments = acc.1.newCommitments ++
      (privateEntries (entriesFrom bound position l)).map newCommitment := by
  induction l generalizing position acc with
  | nil =>
      cases h
      simp [entriesFrom, publicEntries, privateEntries]
  | cons p l ih =>
      obtain ⟨identity, pre, post⟩ := p
      simp only [emitAccounts, bind_eq_ok] at h
      obtain ⟨update, hupdate, acc₁, hacc, h⟩ := h
      obtain ⟨hall, hpre, hpost, hnull, hcommit⟩ := ih h
      have hjoin : ((noteUpdate bound position pre identity).toOption).join = update := by
        rw [hupdate]
        rfl
      simp only [entriesFrom, hjoin, List.forall_mem_cons]
      refine ⟨⟨hupdate, hall⟩, ?_⟩
      cases update with
      | none =>
          cases hacc
          rw [hpre, hpost, hnull, hcommit]
          simp [publicEntries, privateEntries]
      | some u =>
          simp only [emitAccount, emitPrivateOutput, bind_eq_ok, ensure_eq_ok, exists_const, pure,
            Except.pure, Except.ok.injEq] at hacc
          obtain ⟨_, rfl⟩ := hacc
          rw [hpre, hpost, hnull, hcommit]
          simp [publicEntries, privateEntries, newCommitment]

end

omit [Sha256] in
theorem ExecutionState.states_eq_ok {es : ExecutionState}
    {states : List (AccountWithMetadata × Account)} (h : es.states = .ok states) :
    states = es.preStates.map fun pre => (pre, es.postStates.get pre.accountId) := by
  unfold ExecutionState.states at h
  generalize es.preStates = l at h
  induction l generalizing states with
  | nil =>
      rw [List.mapM_nil] at h
      cases h
      rfl
  | cons pre l ih =>
      rw [List.mapM_cons] at h
      simp only [bind_eq_ok, expect_eq_ok, pure, Except.pure, Except.ok.injEq] at h
      obtain ⟨_, ⟨post, hpost, rfl⟩, rest, hrest, rfl⟩ := h
      rw [List.map_cons, ← ih hrest, Accounts.get, Ledger.get, hpost, Option.getD_some]

/-! ## Entries and the execution state -/

section

variable {bound : Ledger.Map Nat (ProgramId × PdaSeed)}

theorem entriesFrom_map (bound : Ledger.Map Nat (ProgramId × PdaSeed)) (position : Nat)
    (l : List (InputAccountIdentity × AccountWithMetadata × Account)) :
    (entriesFrom bound position l).map (fun e => (e.identity, e.pre, e.post)) = l := by
  induction l generalizing position with
  | nil => rfl
  | cons p l ih => rw [entriesFrom, List.map_cons, ih]

theorem getElem?_of_mem_entriesFrom {position : Nat}
    {l : List (InputAccountIdentity × AccountWithMetadata × Account)} {e : Entry}
    (h : e ∈ entriesFrom bound position l) :
    ∃ i, e.position = position + i ∧ l[i]? = some (e.identity, e.pre, e.post) := by
  induction l generalizing position with
  | nil => cases h
  | cons p l ih =>
      rcases List.mem_cons.1 h with rfl | h
      · exact ⟨0, rfl, rfl⟩
      · obtain ⟨i, hi, hget⟩ := ih h
        exact ⟨i + 1, by omega, by simpa using hget⟩

variable {es : ExecutionState} {accountIdentities : List InputAccountIdentity}

theorem ExecutionState.entries_map_pre
    (hlen : accountIdentities.length = es.preStates.length) :
    (es.entries accountIdentities).map (·.pre) = es.preStates := by
  have hmap := congrArg (List.map (Prod.fst ∘ Prod.snd))
    (entriesFrom_map es.privatePdaBoundPositions 0 (accountIdentities.zip
      (es.preStates.map fun pre => (pre, es.postStates.get pre.accountId))))
  rw [List.map_map] at hmap
  refine hmap.trans ?_
  rw [← List.map_map, List.map_snd_zip (by simp [hlen]),
    List.map_map]
  exact List.map_id _

theorem entriesFrom_zipIdx (bound : Ledger.Map Nat (ProgramId × PdaSeed)) (position : Nat)
    (l : List (InputAccountIdentity × AccountWithMetadata × Account)) :
    (entriesFrom bound position l).map (fun e => (e.identity, e.position)) =
      (l.map Prod.fst).zipIdx position := by
  induction l generalizing position with
  | nil => rfl
  | cons p l ih => rw [entriesFrom, List.map_cons, ih, List.map_cons, List.zipIdx_cons]

theorem ExecutionState.entries_zipIdx
    (hlen : accountIdentities.length = es.preStates.length) :
    (es.entries accountIdentities).map (fun e => (e.identity, e.position)) =
      accountIdentities.zipIdx := by
  rw [ExecutionState.entries, entriesFrom_zipIdx, List.map_fst_zip (by simp [hlen])]

/-- An entry holds what the prover supplied for its position, the account there and its post
state. -/
theorem ExecutionState.of_mem_entries {e : Entry} (h : e ∈ es.entries accountIdentities) :
    accountIdentities[e.position]? = some e.identity ∧ es.preStates[e.position]? = some e.pre ∧
      e.post = es.postStates.get e.pre.accountId := by
  obtain ⟨i, hi, hget⟩ := getElem?_of_mem_entriesFrom h
  rw [Nat.zero_add] at hi
  subst hi
  rw [List.getElem?_zip_eq_some, List.getElem?_map] at hget
  obtain ⟨hidentity, hpre⟩ := hget
  obtain ⟨pre, hpre, heq⟩ := Option.map_eq_some_iff.1 hpre
  rw [Prod.mk.injEq] at heq
  obtain ⟨rfl, hpost⟩ := heq
  exact ⟨hidentity, hpre, hpost.symm⟩

/-- An entry is at the position of its account: the accounts are distinct. -/
theorem ExecutionState.position_of_mem_entries (hwf : es.WellFormed accountIdentities) {e : Entry}
    (he : e ∈ es.entries accountIdentities) : es.position e.pre.accountId = some e.position := by
  obtain ⟨hlt, heq⟩ := List.getElem?_eq_some_iff.1 (ExecutionState.of_mem_entries he).2.1
  refine List.findIdx?_eq_some_iff_getElem.2 ⟨hlt, by simp [heq], fun j hj => ?_⟩
  -- no earlier account has this id
  intro hid
  rw [decide_eq_true_eq] at hid
  have hlen : e.position < (es.preStates.map (·.accountId)).length := by simpa using hlt
  have hsame : (es.preStates.map (·.accountId)).get ⟨j, hj.trans hlen⟩ =
      (es.preStates.map (·.accountId)).get ⟨e.position, hlen⟩ := by simp [hid, heq]
  exact absurd (Fin.mk.inj (List.nodup_iff_injective_get.1 hwf.nodup hsame)) (Nat.ne_of_lt hj)

/-- The entries of a well-formed state have as much balance before as after. -/
theorem ExecutionState.entries_balance (hwf : es.WellFormed accountIdentities)
    (hbalance : es.postBalance = es.listedBalance)
    (hlen : accountIdentities.length = es.preStates.length) :
    ((es.entries accountIdentities).map (·.pre.account.balance.toNat)).sum =
      ((es.entries accountIdentities).map (·.post.balance.toNat)).sum := by
  have hpre : (es.entries accountIdentities).map (·.pre.account.balance.toNat) =
      es.preStates.map (·.account.balance.toNat) := by
    rw [← ExecutionState.entries_map_pre hlen, List.map_map]
    rfl
  have hpost : (es.entries accountIdentities).map (·.post.balance.toNat) =
      (es.preStates.map (·.accountId)).map fun id => (es.postStates.get id).balance.toNat := by
    rw [← ExecutionState.entries_map_pre hlen, List.map_map, List.map_map]
    refine List.map_congr_left fun e he => ?_
    rw [(ExecutionState.of_mem_entries he).2.2]
    rfl
  have hkeys : es.postStates.keys.toFinset = (es.preStates.map (·.accountId)).toFinset := by
    ext id
    rw [List.mem_toFinset, List.mem_toFinset, ← AList.mem_keys, hwf.mem_postStates]
  rw [hpre, hpost, ← List.sum_toFinset _ hwf.nodup, ← hkeys]
  exact hbalance.symm

end

omit [Sha256] in
/-- A sum over the entries splits into the public and the private ones. -/
theorem sum_entries (l : List Entry) (f : Entry → Nat) :
    (l.map f).sum = ((publicEntries l).map f).sum +
      ((privateEntries l).map fun p => f p.1).sum := by
  induction l with
  | nil => rfl
  | cons e l ih =>
      rw [List.map_cons, List.sum_cons, ih]
      cases hu : e.update with
      | none =>
          simp only [publicEntries, privateEntries, List.filter_cons, hu, Option.isNone_none,
            if_true, List.filterMap_cons, Option.map_none, List.map_cons, List.sum_cons]
          omega
      | some u =>
          simp only [publicEntries, privateEntries, List.filter_cons, hu, Option.isNone_some,
            List.filterMap_cons, Option.map_some, List.map_cons, List.sum_cons,
            Bool.false_eq_true, if_false]
          omega

omit [Sha256] in
theorem mem_privateEntries {l : List Entry} {e : Entry} {u : NoteUpdate} :
    (e, u) ∈ privateEntries l ↔ e ∈ l ∧ e.update = some u := by
  rw [privateEntries, List.mem_filterMap]
  constructor
  · rintro ⟨e', he', heq⟩
    obtain ⟨u', hu', heq⟩ := Option.map_eq_some_iff.1 heq
    cases heq
    exact ⟨he', hu'⟩
  · rintro ⟨he, hu⟩
    exact ⟨e, he, by rw [hu, Option.map_some]⟩

/-! ## Accepted inputs -/

section

variable [Zkvm]

/-- The entries of an input. -/
def circuitEntries (input : PrivacyPreservingCircuitInput) : List Entry :=
  match deriveFromOutputs input.accountIdentities input.programId input.programOutputs with
  | .ok es => es.entries input.accountIdentities
  | .error _ => []

/-- An accepted input: its final state is well formed and its output is read off its
entries. -/
theorem emitted_of_circuit [ChaCha20] {input : PrivacyPreservingCircuitInput}
    {output : PrivacyPreservingCircuitOutput} (h : circuit input = .ok output) :
    ∃ es, deriveFromOutputs input.accountIdentities input.programId input.programOutputs =
        .ok es ∧
      circuitEntries input = es.entries input.accountIdentities ∧
      input.accountIdentities.length = es.preStates.length ∧
      (∀ e ∈ circuitEntries input,
        noteUpdate es.privatePdaBoundPositions e.position e.pre e.identity = .ok e.update) ∧
      Emitted (circuitEntries input) output := by
  obtain ⟨es, hes, h⟩ := bind_eq_ok.1 h
  have hentries : circuitEntries input = es.entries input.accountIdentities := by
    simp only [circuitEntries, hes]
  simp only [computeCircuitOutput, bind_eq_ok, ensure_eq_ok, exists_const, pure, Except.pure,
    Except.ok.injEq] at h
  obtain ⟨hlen, states, hstates, ⟨output', n⟩, hemit, rfl⟩ := h
  rw [ExecutionState.states_eq_ok hstates] at hemit
  obtain ⟨hall, hpre, hpost, hnull, hcommit⟩ := appended_of_emitAccounts hemit
  refine ⟨es, hes, hentries, hlen, ?_, ?_⟩
  · rw [hentries]
    exact hall
  · rw [hentries]
    exact ⟨hpre, hpost, hnull, hcommit⟩

end

/-! ## Notes -/

/-- Whether an account is supplied with the note to spend. -/
def InputAccountIdentity.isUpdate : InputAccountIdentity → Bool
  | .privateAuthorizedUpdate .. | .privatePdaUpdate .. => true
  | _ => false

/-- What is hashed to spend the note of an account. -/
def updateStrings (membershipProof : MembershipProof) (account : Account) (accountId : AccountId)
    (nsk : NullifierSecretKey) : List Bytes :=
  let commitment := Commitment.new accountId account
  commitmentPreimage accountId account :: updateNullifierPreimage commitment nsk ::
    leafPreimage commitment.value ::
    (climbPairs hashTwo membershipProof.1 (hashValue commitment.value) membershipProof.2).map
      fun pair => nodePreimage pair.1 pair.2

/-- What is hashed for the id of a private PDA, once its position is bound. -/
def pdaStrings (bound : Ledger.Map Nat (ProgramId × PdaSeed)) (position : Nat)
    (npk : NullifierPublicKey) (identifier : Identifier) : List Bytes :=
  (bound.lookup position).toList.map fun v => privatePdaPreimage v.1 v.2 npk identifier

/-- What is hashed for a private account before its execution. -/
def noteStrings (bound : Ledger.Map Nat (ProgramId × PdaSeed)) (position : Nat)
    (pre : AccountWithMetadata) : InputAccountIdentity → List Bytes
  | .publicAccount => []
  | .privateAuthorizedInit _ nsk identifier =>
      [nullifierKeyPreimage nsk,
        regularPrivateAccountPreimage (NullifierPublicKey.ofSecretKey nsk) identifier,
        initNullifierPreimage pre.accountId]
  | .privateAuthorizedUpdate _ nsk membershipProof identifier =>
      nullifierKeyPreimage nsk ::
        regularPrivateAccountPreimage (NullifierPublicKey.ofSecretKey nsk) identifier ::
        updateStrings membershipProof pre.account pre.accountId nsk
  | .privateUnauthorized npk _ identifier =>
      [regularPrivateAccountPreimage npk identifier, initNullifierPreimage pre.accountId]
  | .privatePdaInit npk _ identifier =>
      initNullifierPreimage pre.accountId :: pdaStrings bound position npk identifier
  | .privatePdaUpdate _ nsk membershipProof identifier =>
      nullifierKeyPreimage nsk ::
        (pdaStrings bound position (NullifierPublicKey.ofSecretKey nsk) identifier ++
          updateStrings membershipProof pre.account pre.accountId nsk)

/-- What is hashed for an entry. -/
def Entry.strings (bound : Ledger.Map Nat (ProgramId × PdaSeed)) (e : Entry) : List Bytes :=
  noteStrings bound e.position e.pre e.identity ++
    e.update.toList.map fun u => commitmentPreimage u.accountId (u.newAccount e.post)

/-- What is hashed for the private accounts of an input and for the PDAs of its calls. -/
def circuitStrings [Zkvm] (input : PrivacyPreservingCircuitInput) : List Bytes :=
  match deriveFromOutputs input.accountIdentities input.programId input.programOutputs with
  | .ok es => (es.entries input.accountIdentities).flatMap
      (Entry.strings es.privatePdaBoundPositions) ++
        (consumedCalls input).flatMap fun e => callStrings e.call.caller e.call.call e.result
  | .error _ => []

theorem callStrings_subset_circuitStrings [Zkvm] {input : PrivacyPreservingCircuitInput}
    {es : ExecutionState}
    (h : deriveFromOutputs input.accountIdentities input.programId input.programOutputs = .ok es)
    {e : CallTree.Executed CircuitCall ProgramOutput} (he : e ∈ consumedCalls input) :
    callStrings e.call.caller e.call.call e.result ⊆ circuitStrings input := by
  intro s hs
  simp only [circuitStrings, h]
  exact List.mem_append_right _ (List.mem_flatMap.2 ⟨e, he, hs⟩)

/-- `nsk` is the secret key of the private account `id`, whose id is a hash within `S`. -/
inductive KeyOf (S : Set Bytes) (id : AccountId) (nsk : NullifierSecretKey) : Prop
  | regular (identifier : Identifier) (hkey : nullifierKeyPreimage nsk ∈ S)
      (hstring : regularPrivateAccountPreimage (.ofSecretKey nsk) identifier ∈ S)
      (hid : id = AccountId.forRegularPrivateAccount (.ofSecretKey nsk) identifier)
  | pda (programId : ProgramId) (seed : PdaSeed) (identifier : Identifier)
      (hkey : nullifierKeyPreimage nsk ∈ S)
      (hstring : privatePdaPreimage programId seed (.ofSecretKey nsk) identifier ∈ S)
      (hid : id = AccountId.forPrivatePda programId seed (.ofSecretKey nsk) identifier)

/-- A private account has one secret key. -/
theorem KeyOf.unique {S : Set Bytes} (hS : CollisionFree S) {id : AccountId}
    {nsk nsk' : NullifierSecretKey} (h : KeyOf S id nsk) (h' : KeyOf S id nsk') : nsk = nsk' := by
  cases h with
  | regular identifier hkey hstring hid =>
      cases h' with
      | regular identifier' hkey' hstring' hid' =>
          have heq := hS.injOn hstring hstring' (congrArg AccountId.value (hid.symm.trans hid'))
          exact hS.ofSecretKey_inj hkey hkey' (regularPrivateAccountPreimage_inj heq).1
      | pda programId seed identifier' hkey' hstring' hid' =>
          refine absurd (congrArg AccountId.value (hid.symm.trans hid'))
            (hS.ne_of_length hstring hstring' ?_)
          rw [regularPrivateAccountPreimage_length, privatePdaPreimage_length]
          decide
  | pda programId seed identifier hkey hstring hid =>
      cases h' with
      | regular identifier' hkey' hstring' hid' =>
          refine absurd (congrArg AccountId.value (hid.symm.trans hid'))
            (hS.ne_of_length hstring hstring' ?_)
          rw [regularPrivateAccountPreimage_length, privatePdaPreimage_length]
          decide
      | pda programId' seed' identifier' hkey' hstring' hid' =>
          have heq := hS.injOn hstring hstring' (congrArg AccountId.value (hid.symm.trans hid'))
          exact hS.ofSecretKey_inj hkey hkey' (privatePdaPreimage_inj heq).2.2.1

/-- The note an entry spends, if it is an update of a private account. -/
def Entry.source (e : Entry) : Option Commitment :=
  if e.identity.isUpdate then some (Commitment.new e.pre.accountId e.pre.account) else none

/-- Where the nullifier of a private account comes from. -/
inductive NoteSource (S : Set Bytes) (e : Entry) (u : NoteUpdate) : Prop
  | init (hidentity : e.identity.isUpdate = false)
      (hnullifier : u.nullifier = initNullifier e.pre.accountId)
      (hdefault : e.pre.account = Account.default)
      (hstring : initNullifierPreimage e.pre.accountId ∈ S)
  | update (nsk : NullifierSecretKey) (membershipProof : MembershipProof)
      (hidentity : e.identity.isUpdate = true)
      (hnullifier : u.nullifier = computeUpdateNullifierAndSetDigest membershipProof e.pre.account
        e.pre.accountId nsk)
      (hkey : KeyOf S e.pre.accountId nsk)
      (hstrings : ∀ s ∈ updateStrings membershipProof e.pre.account e.pre.accountId nsk, s ∈ S)

/-- The specification of `noteUpdate`, for a position bound as in a well-formed state. -/
theorem noteSource_of_noteUpdate {S : Set Bytes} {es : ExecutionState}
    {accountIdentities : List InputAccountIdentity} (hwf : es.WellFormed accountIdentities)
    {e : Entry} (he : e ∈ es.entries accountIdentities) {u : NoteUpdate}
    (h : noteUpdate es.privatePdaBoundPositions e.position e.pre e.identity = .ok (some u))
    (hstrings : ∀ s ∈ noteStrings es.privatePdaBoundPositions e.position e.pre e.identity, s ∈ S) :
    u.accountId = e.pre.accountId ∧ NoteSource S e u := by
  obtain ⟨hidentity, hpre, _⟩ := ExecutionState.of_mem_entries he
  cases hcase : e.identity with
  | publicAccount => rw [hcase] at h; cases h
  | privateAuthorizedInit ssk nsk identifier =>
      rw [hcase] at h hstrings
      simp only [noteUpdate, bind_eq_ok, ensure_eq_ok, exists_const, pure, Except.pure,
        Except.ok.injEq, Option.some.injEq] at h
      obtain ⟨hid, _, hdefault, rfl⟩ := h
      refine ⟨hid, .init (by rw [hcase]; rfl) (by rw [hid]) hdefault (hstrings _ ?_)⟩
      simp [noteStrings]
  | privateAuthorizedUpdate ssk nsk membershipProof identifier =>
      rw [hcase] at h hstrings
      simp only [noteUpdate, bind_eq_ok, ensure_eq_ok, exists_const, pure, Except.pure,
        Except.ok.injEq, Option.some.injEq] at h
      obtain ⟨hid, _, rfl⟩ := h
      refine ⟨hid, .update nsk membershipProof (by rw [hcase]; rfl) (by rw [hid])
        (.regular identifier ?_ ?_ hid.symm) fun s hs => hstrings s ?_⟩
      · exact hstrings _ (by simp [noteStrings])
      · exact hstrings _ (by simp [noteStrings])
      · simp [noteStrings, hs]
  | privateUnauthorized npk ssk identifier =>
      rw [hcase] at h hstrings
      simp only [noteUpdate, bind_eq_ok, ensure_eq_ok, exists_const, pure, Except.pure,
        Except.ok.injEq, Option.some.injEq] at h
      obtain ⟨hid, hdefault, _, rfl⟩ := h
      refine ⟨hid, .init (by rw [hcase]; rfl) (by rw [hid]) hdefault (hstrings _ ?_)⟩
      simp [noteStrings]
  | privatePdaInit npk ssk identifier =>
      rw [hcase] at h hstrings
      simp only [noteUpdate, bind_eq_ok, ensure_eq_ok, expect_eq_ok, exists_const, pure,
        Except.pure, Except.ok.injEq, Option.some.injEq] at h
      obtain ⟨_, hdefault, _, _, rfl⟩ := h
      refine ⟨rfl, .init (by rw [hcase]; rfl) rfl hdefault (hstrings _ ?_)⟩
      simp [noteStrings]
  | privatePdaUpdate ssk nsk membershipProof identifier =>
      rw [hcase] at h hstrings hidentity
      simp only [noteUpdate, bind_eq_ok, ensure_eq_ok, expect_eq_ok, exists_const, pure,
        Except.pure, Except.ok.injEq, Option.some.injEq] at h
      obtain ⟨_, v, hv, rfl⟩ := h
      -- the position was bound, so the id was derived from the key of `nsk`
      obtain ⟨pre', hpre', npk', identifier', hnpk, hid⟩ := hwf.bound e.position v hv
      rw [hpre] at hpre'
      cases hpre'
      rw [privatePdaNpk, hidentity, Option.bind_some] at hnpk
      cases hnpk
      refine ⟨rfl, .update nsk membershipProof (by rw [hcase]; rfl) rfl
        (.pda v.1 v.2 identifier ?_ ?_ hid) fun s hs => hstrings s ?_⟩
      · exact hstrings _ (by simp [noteStrings])
      · exact hstrings _ (by simp [noteStrings, pdaStrings, hv])
      · simp [noteStrings, hs]

/-- What an accepted input, hashing within `S`, satisfies. -/
structure ValidNotes (S : Set Bytes) (l : List Entry) (output : PrivacyPreservingCircuitOutput) :
    Prop where
  emitted : Emitted l output
  nodup : (l.map (·.pre.accountId)).Nodup
  accountId : ∀ p ∈ privateEntries l, p.2.accountId = p.1.pre.accountId
  source : ∀ p ∈ privateEntries l, NoteSource S p.1 p.2
  target : ∀ p ∈ privateEntries l,
    commitmentPreimage p.2.accountId (p.2.newAccount p.1.post) ∈ S
  balance : (l.map (·.pre.account.balance.toNat)).sum = (l.map (·.post.balance.toNat)).sum

/-- **The circuit.**  The notes of an accepted input are valid. -/
theorem validNotes_of_circuit [Zkvm] [ChaCha20] {S : Set Bytes}
    {input : PrivacyPreservingCircuitInput} {output : PrivacyPreservingCircuitOutput}
    (h : circuit input = .ok output) (hS : ∀ s ∈ circuitStrings input, s ∈ S) :
    ValidNotes S (circuitEntries input) output := by
  obtain ⟨es, hes, hentries, hlen, hupdates, hemitted⟩ := emitted_of_circuit h
  obtain ⟨hwf, hbalance⟩ := wellFormed_of_deriveFromOutputs hes
  have hstrings : ∀ e ∈ circuitEntries input, ∀ s ∈ e.strings es.privatePdaBoundPositions,
      s ∈ S := by
    intro e he s hs
    refine hS s ?_
    simp only [circuitStrings, hes]
    exact List.mem_append_left _ (List.mem_flatMap.2 ⟨e, hentries ▸ he, hs⟩)
  have hnote : ∀ p ∈ privateEntries (circuitEntries input),
      p.2.accountId = p.1.pre.accountId ∧ NoteSource S p.1 p.2 := by
    rintro ⟨e, u⟩ hp
    obtain ⟨he, hu⟩ := mem_privateEntries.1 hp
    refine noteSource_of_noteUpdate hwf (hentries ▸ he) ((hupdates e he).trans (by rw [hu])) ?_
    exact fun s hs => hstrings e he s (List.mem_append_left _ hs)
  refine ⟨hemitted, ?_, fun p hp => (hnote p hp).1, fun p hp => (hnote p hp).2, ?_, ?_⟩
  · have hids : (circuitEntries input).map (·.pre.accountId) = es.preStates.map (·.accountId) := by
      rw [hentries, ← ExecutionState.entries_map_pre hlen, List.map_map]
      rfl
    rw [hids]
    exact hwf.nodup
  · rintro ⟨e, u⟩ hp
    obtain ⟨he, hu⟩ := mem_privateEntries.1 hp
    refine hstrings e he _ (List.mem_append_right _ ?_)
    simp [hu]
  · rw [hentries]
    exact ExecutionState.entries_balance hwf hbalance hlen

end ExecutionZone
