import ExecutionZone.Circuit.Recipients
import ExecutionZone.Transaction.DoubleSpend
import ExecutionZone.Transaction.Nonces

/-!
# The journal of the circuit

An accepted input supplies an identity for each account its outputs list, in the order of their
first listing.  `JournalShape` says how the lists of the journal are laid out over these
positions: the public lists over the positions of public accounts, the commitments, nullifiers
and ciphertexts over the others.  The accounts are distinct, and what is published of different
accounts is distinct as well.
-/

namespace ExecutionZone

/-- The positions of the accounts supplied as public. -/
def publicPositions (accountIdentities : List InputAccountIdentity) : List Nat :=
  (accountIdentities.zipIdx.filter fun p => p.1.isPublic).map Prod.snd

/-- The positions of all other accounts. -/
def privatePositions (accountIdentities : List InputAccountIdentity) : List Nat :=
  (accountIdentities.zipIdx.filter fun p => !p.1.isPublic).map Prod.snd

variable [Sha256]

/-! ## Positions -/

/-- Exactly the public accounts contribute nothing to the notes. -/
theorem isNone_of_noteUpdate {bound : Ledger.Map Nat (ProgramId × PdaSeed)} {position : Nat}
    {pre : AccountWithMetadata} {identity : InputAccountIdentity} {update : Option NoteUpdate}
    (h : noteUpdate bound position pre identity = .ok update) :
    update.isNone = identity.isPublic := by
  cases update with
  | none =>
      rw [identity_of_noteUpdate h]
      rfl
  | some u =>
      cases identity with
      | publicAccount => cases h
      | privateAuthorizedInit | privateAuthorizedUpdate | privateUnauthorized | privatePdaInit
      | privatePdaUpdate => rfl

section

variable {l : List Entry} {accountIdentities : List InputAccountIdentity}

omit [Sha256] in
theorem positions_publicEntries
    (hzip : l.map (fun e => (e.identity, e.position)) = accountIdentities.zipIdx)
    (hupdate : ∀ e ∈ l, e.update.isNone = e.identity.isPublic) :
    (publicEntries l).map (·.position) = publicPositions accountIdentities := by
  rw [publicPositions, ← hzip, List.filter_map, List.map_map, publicEntries]
  exact congrArg _ (List.filter_congr hupdate)

omit [Sha256] in
theorem map_fst_privateEntries (l : List Entry) :
    (privateEntries l).map Prod.fst = l.filter fun e => !e.update.isNone := by
  induction l with
  | nil => rfl
  | cons e l ih =>
      cases hu : e.update with
      | none => simpa [privateEntries, hu] using ih
      | some u => simpa [privateEntries, hu] using ih

omit [Sha256] in
theorem positions_privateEntries
    (hzip : l.map (fun e => (e.identity, e.position)) = accountIdentities.zipIdx)
    (hupdate : ∀ e ∈ l, e.update.isNone = e.identity.isPublic) :
    (privateEntries l).map (·.1.position) = privatePositions accountIdentities := by
  have hmap : (privateEntries l).map (·.1.position) =
      ((privateEntries l).map Prod.fst).map (·.position) := by
    rw [List.map_map]
    rfl
  rw [hmap, map_fst_privateEntries, privatePositions, ← hzip, List.filter_map, List.map_map]
  refine congrArg _ (List.filter_congr fun e he => ?_)
  rw [hupdate e he]
  rfl

end

/-! ## The shape -/

variable [ChaCha20]

/-- The lists of a journal over the accounts `l` of an input, whose final state is `es`. -/
structure JournalShape (accountIdentities : List InputAccountIdentity) (es : ExecutionState)
    (l : List Entry) (output : PrivacyPreservingCircuitOutput) : Prop where
  /-- There is one entry for each position, in order. -/
  positions : l.map (fun e => (e.identity, e.position)) = accountIdentities.zipIdx
  /-- It has the account as first listed there, and its final value. -/
  accounts : l.map (·.pre) = es.preStates ∧ ∀ e ∈ l, e.post = es.postStates.get e.pre.accountId
  publicPositions : (publicEntries l).map (·.position) = publicPositions accountIdentities
  publicPreStates : output.publicPreStates = (publicEntries l).map (·.pre)
  publicPostStates : output.publicPostStates = (publicEntries l).map (·.post)
  nonces : output.publicPreStates.map (·.account.nonce) = output.publicPostStates.map (·.nonce)
  privatePositions : (privateEntries l).map (·.1.position) = privatePositions accountIdentities
  newNullifiers : output.newNullifiers = (privateEntries l).map (·.2.nullifier)
  newCommitments : output.newCommitments = (privateEntries l).map newCommitment
  ciphertexts : output.ciphertexts = (privateEntries l).mapIdx fun i p => sealedOutput p i
  accountIds_nodup : (l.map (·.pre.accountId)).Nodup
  nullifiers_nodup : (output.newNullifiers.map Prod.fst).Nodup
  commitments_nodup : output.newCommitments.Nodup
  balance : (l.map (·.pre.account.balance.toNat)).sum = (l.map (·.post.balance.toNat)).sum

variable {S : Set Bytes}

omit [ChaCha20] in
/-- Notes of different accounts have different commitments. -/
theorem ValidNotes.nodup_newCommitments {l : List Entry}
    {output : PrivacyPreservingCircuitOutput} (hS : CollisionFree S) (h : ValidNotes S l output) :
    ((privateEntries l).map newCommitment).Nodup := by
  rw [List.Nodup, List.pairwise_map]
  have hids := nodup_privateEntries h.nodup
  rw [List.Nodup, List.pairwise_map] at hids
  refine hids.imp_of_mem fun {p p'} hp hp' hne heq => hne ?_
  rw [← h.accountId p hp, ← h.accountId p' hp']
  exact NoteOf.unique hS ⟨_, h.target p hp, rfl⟩ ⟨_, h.target p' hp', heq⟩

variable [Zkvm]

/-- No account is revealed with another nonce. -/
theorem nonce_of_mem_publicEntries {input : PrivacyPreservingCircuitInput}
    {output : PrivacyPreservingCircuitOutput} (h : circuit input = .ok output) {e : Entry}
    (he : e ∈ publicEntries (circuitEntries input)) : e.post.nonce = e.pre.account.nonce := by
  obtain ⟨es, hes, _⟩ := emitted_of_circuit h
  exact kept_of_circuit h he (Q := fun a => a.nonce = e.pre.account.nonce)
    (fun c hc => keeps_nonce _ (valid_of_mem_consumedCalls hes hc).1) rfl

/-- **The journal.**  The output of an accepted input has the shape. -/
theorem journal_shape (hS : CollisionFree S) {input : PrivacyPreservingCircuitInput}
    {output : PrivacyPreservingCircuitOutput} (h : circuit input = .ok output)
    (hstrings : ∀ s ∈ circuitStrings input, s ∈ S) :
    ∃ es, deriveFromOutputs input.accountIdentities input.programId input.programOutputs =
        .ok es ∧
      JournalShape input.accountIdentities es (circuitEntries input) output := by
  obtain ⟨es, hes, hentries, hlen, hupdates, hemitted⟩ := emitted_of_circuit h
  have hnotes := validNotes_of_circuit h hstrings
  have hzip : (circuitEntries input).map (fun e => (e.identity, e.position)) =
      input.accountIdentities.zipIdx := by
    rw [hentries]
    exact ExecutionState.entries_zipIdx hlen
  have hnone : ∀ e ∈ circuitEntries input, e.update.isNone = e.identity.isPublic :=
    fun e he => isNone_of_noteUpdate (hupdates e he)
  refine ⟨es, hes, hzip, ⟨?_, ?_⟩, positions_publicEntries hzip hnone, hemitted.publicPreStates,
    hemitted.publicPostStates, ?_, positions_privateEntries hzip hnone, hemitted.newNullifiers,
    hemitted.newCommitments, ciphertexts_of_circuit h, hnotes.nodup, ?_, ?_, hnotes.balance⟩
  · rw [hentries]
    exact ExecutionState.entries_map_pre hlen
  · intro e he
    exact (ExecutionState.of_mem_entries (hentries ▸ he)).2.2
  · rw [hemitted.publicPreStates, hemitted.publicPostStates, List.map_map, List.map_map]
    exact List.map_congr_left fun e he => (nonce_of_mem_publicEntries h he).symm
  · have hnullifiers := hnotes.nodup_nullifiers hS
    rw [noteMoves, List.map_map] at hnullifiers
    rw [hemitted.newNullifiers, List.map_map]
    exact hnullifiers
  · rw [hemitted.newCommitments]
    exact hnotes.nodup_newCommitments hS

omit [Sha256] [ChaCha20] [Zkvm] in
/-- The input that spends a note into a public account. -/
theorem journal_shape_spent_note :
    let _ := Sample.sha256; let _ := Sample.zkvm SpentNote.script; let _ := Sample.chaCha20
    circuit SpentNote.input = .ok SpentNote.journal ∧
      publicPositions SpentNote.input.accountIdentities = [1] ∧
      privatePositions SpentNote.input.accountIdentities = [0] ∧
      ∃ es, JournalShape SpentNote.input.accountIdentities es (circuitEntries SpentNote.input)
        SpentNote.journal := by
  intro _ _ _
  have hcircuit : circuit SpentNote.input = .ok SpentNote.journal ∧
      ∀ s ∈ circuitStrings SpentNote.input, s ∈ SpentNote.strings := by decide +kernel
  obtain ⟨es, _, hshape⟩ := journal_shape SpentNote.collisionFree hcircuit.1 hcircuit.2
  exact ⟨hcircuit.1, by decide, by decide, es, hshape⟩

end ExecutionZone
