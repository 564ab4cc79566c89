import ExecutionZone.Circuit.Entries
import ExecutionZone.Core.Formats

/-!
# Whom private outputs are made for

The circuit derives the id of a private account from the nullifier key the prover supplies for
it, and encrypts the account with a secret the prover supplies as well.  Nothing relates the
secret to the key.
-/

namespace ExecutionZone

variable [Sha256]

/-- The nullifier key a private account is supplied with. -/
def InputAccountIdentity.nullifierPublicKey : InputAccountIdentity → Option NullifierPublicKey
  | .publicAccount => none
  | .privateAuthorizedInit _ nsk _ | .privateAuthorizedUpdate _ nsk _ _
  | .privatePdaUpdate _ nsk _ _ => some (NullifierPublicKey.ofSecretKey nsk)
  | .privateUnauthorized npk _ _ | .privatePdaInit npk _ _ => some npk

/-- The id of a private account is derived from its key and its kind. -/
theorem recipient_of_noteUpdate {es : ExecutionState}
    {accountIdentities : List InputAccountIdentity} (hwf : es.WellFormed accountIdentities)
    {e : Entry} (he : e ∈ es.entries accountIdentities) {u : NoteUpdate}
    (h : noteUpdate es.privatePdaBoundPositions e.position e.pre e.identity = .ok (some u)) :
    ∃ npk, e.identity.nullifierPublicKey = some npk ∧
      u.accountId = AccountId.forPrivateAccount npk u.kind ∧
      privateAccountPreimage npk u.kind ∈
        noteStrings es.privatePdaBoundPositions e.position e.pre e.identity := by
  obtain ⟨hidentity, hpre, _⟩ := ExecutionState.of_mem_entries he
  -- a bound position holds a PDA of the key supplied for it
  have hbound : ∀ v, es.privatePdaBoundPositions.lookup e.position = some v →
      ∃ npk identifier, e.identity.npkIfPrivatePda = some (npk, identifier) ∧
        e.pre.accountId = AccountId.forPrivatePda v.1 v.2 npk identifier := by
    intro v hv
    obtain ⟨pre', hpre', npk, identifier, hnpk, hid⟩ := hwf.bound e.position v hv
    rw [hpre] at hpre'
    cases hpre'
    rw [privatePdaNpk, hidentity, Option.bind_some] at hnpk
    exact ⟨npk, identifier, hnpk, hid⟩
  cases hcase : e.identity with
  | publicAccount => rw [hcase] at h; cases h
  | privateAuthorizedInit ssk nsk identifier =>
      rw [hcase] at h
      simp only [noteUpdate, bind_eq_ok, ensure_eq_ok, exists_const, pure, Except.pure,
        Except.ok.injEq, Option.some.injEq] at h
      obtain ⟨_, _, _, rfl⟩ := h
      exact ⟨_, rfl, rfl, by simp [noteStrings, privateAccountPreimage]⟩
  | privateAuthorizedUpdate ssk nsk membershipProof identifier =>
      rw [hcase] at h
      simp only [noteUpdate, bind_eq_ok, ensure_eq_ok, exists_const, pure, Except.pure,
        Except.ok.injEq, Option.some.injEq] at h
      obtain ⟨_, _, rfl⟩ := h
      exact ⟨_, rfl, rfl, by simp [noteStrings, privateAccountPreimage]⟩
  | privateUnauthorized npk ssk identifier =>
      rw [hcase] at h
      simp only [noteUpdate, bind_eq_ok, ensure_eq_ok, exists_const, pure, Except.pure,
        Except.ok.injEq, Option.some.injEq] at h
      obtain ⟨_, _, _, rfl⟩ := h
      exact ⟨_, rfl, rfl, by simp [noteStrings, privateAccountPreimage]⟩
  | privatePdaInit npk ssk identifier =>
      rw [hcase] at h hbound
      simp only [noteUpdate, bind_eq_ok, ensure_eq_ok, expect_eq_ok, exists_const, pure,
        Except.pure, Except.ok.injEq, Option.some.injEq] at h
      obtain ⟨_, _, v, hv, rfl⟩ := h
      obtain ⟨npk', identifier', hnpk, hid⟩ := hbound v hv
      cases hnpk
      exact ⟨npk, rfl, hid, by simp [noteStrings, privateAccountPreimage, pdaStrings, hv]⟩
  | privatePdaUpdate ssk nsk membershipProof identifier =>
      rw [hcase] at h hbound
      simp only [noteUpdate, bind_eq_ok, ensure_eq_ok, expect_eq_ok, exists_const, pure,
        Except.pure, Except.ok.injEq, Option.some.injEq] at h
      obtain ⟨_, v, hv, rfl⟩ := h
      obtain ⟨npk', identifier', hnpk, hid⟩ := hbound v hv
      cases hnpk
      exact ⟨_, rfl, hid, by simp [noteStrings, privateAccountPreimage, pdaStrings, hv]⟩

variable [ChaCha20]

/-- The ciphertext of a private account at an output index. -/
def sealedOutput (p : Entry × NoteUpdate) (outputIndex : Nat) : Ciphertext :=
  encrypt (p.2.newAccount p.1.post) p.2.kind p.2.ssk (newCommitment p) outputIndex

theorem ciphertexts_of_emitAccounts {bound : Ledger.Map Nat (ProgramId × PdaSeed)}
    {position : Nat} {l : List (InputAccountIdentity × AccountWithMetadata × Account)}
    {acc acc' : PrivacyPreservingCircuitOutput × Nat}
    (h : emitAccounts bound position l acc = .ok acc') :
    acc'.1.ciphertexts = acc.1.ciphertexts ++
      (privateEntries (entriesFrom bound position l)).mapIdx fun i p =>
        sealedOutput p (acc.2 + i) := by
  induction l generalizing position acc with
  | nil =>
      cases h
      simp [entriesFrom, privateEntries]
  | cons x l ih =>
      obtain ⟨identity, pre, post⟩ := x
      simp only [emitAccounts, bind_eq_ok] at h
      obtain ⟨update, hupdate, acc₁, hacc, h⟩ := h
      have hjoin : ((noteUpdate bound position pre identity).toOption).join = update := by
        rw [hupdate]
        rfl
      rw [ih h]
      simp only [entriesFrom, hjoin]
      cases update with
      | none =>
          cases hacc
          rfl
      | some u =>
          simp only [emitAccount, emitPrivateOutput, bind_eq_ok, ensure_eq_ok, exists_const, pure,
            Except.pure, Except.ok.injEq] at hacc
          obtain ⟨_, rfl⟩ := hacc
          simp [privateEntries, List.mapIdx_cons, sealedOutput, newCommitment, Nat.add_assoc,
            Nat.add_comm 1]

/-- The output index counts the private accounts, and does not overflow. -/
theorem index_of_emitAccounts {bound : Ledger.Map Nat (ProgramId × PdaSeed)}
    {position : Nat} {l : List (InputAccountIdentity × AccountWithMetadata × Account)}
    {acc acc' : PrivacyPreservingCircuitOutput × Nat}
    (h : emitAccounts bound position l acc = .ok acc') :
    acc'.2 = acc.2 + (privateEntries (entriesFrom bound position l)).length ∧
      (acc.2 < 2 ^ 32 → acc'.2 < 2 ^ 32) := by
  induction l generalizing position acc with
  | nil =>
      cases h
      exact ⟨rfl, id⟩
  | cons x l ih =>
      obtain ⟨identity, pre, post⟩ := x
      simp only [emitAccounts, bind_eq_ok] at h
      obtain ⟨update, hupdate, acc₁, hacc, h⟩ := h
      have hjoin : ((noteUpdate bound position pre identity).toOption).join = update := by
        rw [hupdate]
        rfl
      obtain ⟨hcount, hbound⟩ := ih h
      simp only [entriesFrom, hjoin]
      cases update with
      | none =>
          cases hacc
          exact ⟨hcount, hbound⟩
      | some u =>
          simp only [emitAccount, emitPrivateOutput, bind_eq_ok, ensure_eq_ok, exists_const, pure,
            Except.pure, Except.ok.injEq] at hacc
          obtain ⟨hlt, rfl⟩ := hacc
          refine ⟨?_, fun _ => hbound hlt⟩
          rw [hcount]
          simp only [privateEntries, List.filterMap_cons, Option.map_some, List.length_cons]
          omega

variable [Zkvm]

/-- An accepted input has fewer than `2 ^ 32` private accounts. -/
theorem length_privateEntries_lt {input : PrivacyPreservingCircuitInput}
    {output : PrivacyPreservingCircuitOutput} (h : circuit input = .ok output) :
    (privateEntries (circuitEntries input)).length < 2 ^ 32 := by
  obtain ⟨es, hes, h⟩ := bind_eq_ok.1 h
  have hentries : circuitEntries input = es.entries input.accountIdentities := by
    simp only [circuitEntries, hes]
  simp only [computeCircuitOutput, bind_eq_ok, ensure_eq_ok, exists_const, pure, Except.pure,
    Except.ok.injEq] at h
  obtain ⟨_, states, hstates, ⟨output', n⟩, hemit, rfl⟩ := h
  rw [ExecutionState.states_eq_ok hstates] at hemit
  obtain ⟨hcount, hbound⟩ := index_of_emitAccounts hemit
  rw [Nat.zero_add] at hcount
  rw [hentries]
  exact hcount ▸ hbound (Nat.two_pow_pos 32)

/-- The ciphertexts of an accepted input are those of its private accounts. -/
theorem ciphertexts_of_circuit {input : PrivacyPreservingCircuitInput}
    {output : PrivacyPreservingCircuitOutput} (h : circuit input = .ok output) :
    output.ciphertexts = (privateEntries (circuitEntries input)).mapIdx fun i p =>
      sealedOutput p i := by
  obtain ⟨es, hes, h⟩ := bind_eq_ok.1 h
  have hentries : circuitEntries input = es.entries input.accountIdentities := by
    simp only [circuitEntries, hes]
  simp only [computeCircuitOutput, bind_eq_ok, ensure_eq_ok, exists_const, pure, Except.pure,
    Except.ok.injEq] at h
  obtain ⟨_, states, hstates, ⟨output', n⟩, hemit, rfl⟩ := h
  rw [ExecutionState.states_eq_ok hstates] at hemit
  have hciphertexts := ciphertexts_of_emitAccounts hemit
  simp only [Nat.zero_add, List.nil_append] at hciphertexts
  rw [hciphertexts, hentries]
  rfl

/-- A private account of an accepted input is made for the key supplied for it. -/
theorem recipient_of_circuit {S : Set Bytes} {input : PrivacyPreservingCircuitInput}
    {output : PrivacyPreservingCircuitOutput} (h : circuit input = .ok output)
    (hS : ∀ s ∈ circuitStrings input, s ∈ S) {p : Entry × NoteUpdate}
    (hp : p ∈ privateEntries (circuitEntries input)) :
    ∃ npk, p.1.identity.nullifierPublicKey = some npk ∧
      p.2.accountId = AccountId.forPrivateAccount npk p.2.kind ∧
      privateAccountPreimage npk p.2.kind ∈ S := by
  obtain ⟨es, hes, hentries, _, hupdates, _⟩ := emitted_of_circuit h
  obtain ⟨hwf, _⟩ := wellFormed_of_deriveFromOutputs hes
  obtain ⟨e, u⟩ := p
  obtain ⟨he, hu⟩ := mem_privateEntries.1 hp
  obtain ⟨npk, hnpk, hid, hstring⟩ := recipient_of_noteUpdate hwf (hentries ▸ he)
    ((hupdates e he).trans (by rw [hu]))
  refine ⟨npk, hnpk, hid, hS _ ?_⟩
  simp only [circuitStrings, hes]
  refine List.mem_append_left _ (List.mem_flatMap.2 ⟨e, hentries ▸ he, ?_⟩)
  exact List.mem_append_left _ hstring

end ExecutionZone
