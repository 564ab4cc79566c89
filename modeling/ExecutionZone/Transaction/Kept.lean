import ExecutionZone.Circuit.Kept
import ExecutionZone.Programs.Native
import ExecutionZone.Transaction.Authority
import ExecutionZone.Transaction.Runs

/-!
# What accepted transactions keep

An accepted transaction takes an account through the calls behind it, and then changes its nonce
at most (`history_of_accepted`): the executed calls of a public transaction, the calls the
circuit consumed for a privacy-preserving one.  A property that no output of these calls breaks
is kept (`kept_of_accepted`).  So an owned account keeps its owner over every run, and the
built-in programs stay deployed.

`main_of_executed` and `main_of_consumed` give the meaning of a program whose binary is
known to the outputs of its calls.
-/

namespace ExecutionZone

open CallTree

section

variable [Sha256] [Zkvm] {st st' : V03State} {blockId : BlockId} {timestamp : Timestamp}
  {Q : Account → Prop} {id : AccountId}

/-! ## Public transactions -/

/-- An executed call. -/
def PendingCall.programCall (e : Executed PendingCall ProgramOutput) : ProgramCall :=
  ⟨e.call.call.programId, e.result⟩

/-- **Run.**  The executed calls lead from the value of an account before to the one after. -/
theorem history_of_runs {q : List (PendingCall × List (PendingCall × ProgramOutput))}
    {diff : Accounts} {calls : List (Executed PendingCall ProgramOutput)} {diff' : Accounts}
    (h : (publicMachine st blockId timestamp).Runs q diff calls diff') (id : AccountId) :
    Run (ProgramCall.Turns id) (Ledger.overlay Account.default st.publicState diff id)
      (calls.map PendingCall.programCall)
      (Ledger.overlay Account.default st.publicState diff' id) := by
  induction h with
  | nil diff => exact .nil
  | @cons c anc q diff out diff₁ calls diff' hstep _ ih =>
      refine Run.cons ?_ ih
      rcases (validCall_of_executeCall hstep).account id with
        ⟨hnot, hsame⟩ | ⟨pre, post, hmem, hid, hpre, hgranted⟩
      · rw [hsame]
        exact .unlisted hnot
      · exact .listed hmem hid hpre hgranted

theorem kept_of_runs {q : List (PendingCall × List (PendingCall × ProgramOutput))}
    {diff : Accounts} {calls : List (Executed PendingCall ProgramOutput)} {diff' : Accounts}
    (h : (publicMachine st blockId timestamp).Runs q diff calls diff')
    (hkeeps : ∀ e ∈ calls, e.result.Keeps Q id e.call.call.programId)
    (hQ : Q (Ledger.overlay Account.default st.publicState diff id)) :
    Q (Ledger.overlay Account.default st.publicState diff' id) :=
  kept_of_history (history_of_runs h id) (List.forall_mem_map.2 hkeeps) hQ

theorem valid_of_runs {q : List (PendingCall × List (PendingCall × ProgramOutput))}
    {diff : Accounts} {calls : List (Executed PendingCall ProgramOutput)} {diff' : Accounts}
    (h : (publicMachine st blockId timestamp).Runs q diff calls diff')
    {e : Executed PendingCall ProgramOutput} (he : e ∈ calls) :
    ValidExecution e.result.preStates e.result.postStates e.call.call.programId := by
  obtain ⟨_, _, hstep⟩ := h.step_of_mem e he
  exact (validCall_of_executeCall hstep).valid

/-- The executed calls of an accepted transaction, and what they make of an account. -/
theorem runs_of_transition [Schnorr] {tx : PublicTransaction}
    (h : st.transitionFromPublicTransaction tx blockId timestamp = .ok st') :
    ∃ diff, (publicMachine st blockId timestamp).Runs [(tx.initialCall st, [])] ∅
        (executedCalls tx st blockId timestamp) diff ∧
      ∀ id, st'.getAccountById id =
        (Ledger.overlay Account.default st.publicState diff id).withNonce
          (st'.getAccountById id).nonce := by
  obtain ⟨diff, hdiff, happly⟩ := bind_eq_ok.1 h
  obtain ⟨_, hruns, _⟩ := runs_of_fromPublicTransaction hdiff
  exact ⟨diff.publicDiff, hruns,
    fun id => (V03State.getAccountById_applyStateDiff (mapError_eq_ok.1 happly) id).1⟩

theorem kept_of_public [Schnorr] {tx : PublicTransaction}
    (h : st.transitionFromPublicTransaction tx blockId timestamp = .ok st')
    (hnonce : ∀ a n, Q a → Q (a.withNonce n))
    (hkeeps : ∀ e ∈ executedCalls tx st blockId timestamp,
      e.result.Keeps Q id e.call.call.programId)
    (hQ : Q (st.getAccountById id)) : Q (st'.getAccountById id) := by
  obtain ⟨diff, hruns, hget⟩ := runs_of_transition h
  rw [hget id]
  refine hnonce _ _ (kept_of_runs hruns hkeeps ?_)
  rwa [Ledger.overlay_empty]

/-! ## Privacy-preserving transactions -/

theorem valid_of_mem_consumedCalls {input : PrivacyPreservingCircuitInput} {es : ExecutionState}
    (h : deriveFromOutputs input.accountIdentities input.programId input.programOutputs = .ok es)
    {e : Executed CircuitCall ProgramOutput} (he : e ∈ consumedCalls input) :
    ValidExecution e.result.preStates e.result.postStates e.call.call.programId ∧
      Zkvm.verifiesOutput e.call.call.programId e.result = true := by
  obtain ⟨_, _, _, _, _, hruns, _⟩ := runs_of_deriveFromOutputs h
  obtain ⟨_, _, hstep⟩ := hruns.step_of_mem e he
  obtain ⟨_, hconsumed⟩ := consumed_of_step hstep
  exact ⟨hconsumed.valid, hconsumed.verifies⟩

variable [ChaCha20] [Schnorr] {S : Set Bytes}

/-- `a` is the entry of the account `id` among the public ones of an accepted input with the
journal of the transaction. -/
structure PublicEntry (S : Set Bytes) (st : V03State) (tx : PrivacyPreservingTransaction)
    (input : PrivacyPreservingCircuitInput) (id : AccountId) (a : Entry) : Prop where
  circuit : circuit input = .ok (tx.journal st)
  strings : ∀ s ∈ circuitStrings input, s ∈ S
  mem : a ∈ publicEntries (circuitEntries input)
  pre : a.pre = ⟨st.getAccountById id, decide (id ∈ tx.signerAccountIds), id⟩

omit [Schnorr] in
/-- A listed account is a public entry of an input behind the transaction. -/
theorem exists_publicEntry {tx : PrivacyPreservingTransaction} (hsound : SoundProof S tx.proof)
    (hvalid : ValidPrivate st tx) (hid : id ∈ tx.message.publicAccountIds) :
    ∃ input a, PublicEntry S st tx input id a := by
  obtain ⟨verifies, hdecode, hverifies⟩ := hvalid.proof
  obtain ⟨input, hcircuit, hstrings⟩ := hsound _ _ hdecode hverifies
  obtain ⟨_, _, _, _, _, hemitted⟩ := emitted_of_circuit hcircuit
  obtain ⟨haccountIds, hpres, _⟩ := publicEntries_of_journal hemitted
  rw [haccountIds] at hid
  obtain ⟨a, ha, rfl⟩ := List.mem_map.1 hid
  exact ⟨input, a, hcircuit, hstrings, ha, hpres a ha⟩

omit [Schnorr] in
/-- It gets the post state of the entry. -/
theorem PublicEntry.overlay {tx : PrivacyPreservingTransaction}
    {input : PrivacyPreservingCircuitInput} {a : Entry} (h : PublicEntry S st tx input id a)
    (hvalid : ValidPrivate st tx) :
    Ledger.overlay Account.default st.publicState tx.diff.publicDiff id = a.post := by
  obtain ⟨_, _, _, _, _, hemitted⟩ := emitted_of_circuit h.circuit
  obtain ⟨haccountIds, _, hzip⟩ := publicEntries_of_journal hemitted
  have hkeys : ((publicEntries (circuitEntries input)).map fun e =>
      (e.pre.accountId, e.post)).map Prod.fst = tx.message.publicAccountIds := by
    rw [List.map_map, haccountIds]
    rfl
  have hmem : (id, a.post) ∈ (publicEntries (circuitEntries input)).map
      fun e => (e.pre.accountId, e.post) := List.mem_map.2 ⟨a, h.mem, by rw [h.pre]⟩
  rw [PrivacyPreservingTransaction.diff, hzip]
  exact Ledger.overlay_insertAll_of_mem (hkeys.symm ▸ hvalid.accountIds_nodup) hmem

omit [Zkvm] [ChaCha20] [Schnorr] in
theorem overlay_of_unlisted {tx : PrivacyPreservingTransaction}
    (hid : id ∉ tx.message.publicAccountIds) :
    Ledger.overlay Account.default st.publicState tx.diff.publicDiff id =
      st.getAccountById id := by
  have hkeys : id ∉ (tx.message.publicAccountIds.zip tx.message.publicPostStates).map Prod.fst := by
    intro hmem
    obtain ⟨⟨_, _⟩, hpair, rfl⟩ := List.mem_map.1 hmem
    exact hid (List.of_mem_zip hpair).1
  rw [PrivacyPreservingTransaction.diff, Ledger.overlay_insertAll_of_notMem hkeys,
    Ledger.overlay_empty]
  rfl

omit [Schnorr] in
/-- What the diff of a valid transaction says of an account: its current value, or it is a
public entry of an input behind the transaction and gets its post state. -/
theorem publicEntry_of_valid {tx : PrivacyPreservingTransaction} (hsound : SoundProof S tx.proof)
    (hvalid : ValidPrivate st tx) (id : AccountId) :
    Ledger.overlay Account.default st.publicState tx.diff.publicDiff id = st.getAccountById id ∨
      ∃ input a, PublicEntry S st tx input id a ∧
        Ledger.overlay Account.default st.publicState tx.diff.publicDiff id = a.post := by
  by_cases hid : id ∈ tx.message.publicAccountIds
  · obtain ⟨input, a, ha⟩ := exists_publicEntry hsound hvalid hid
    exact .inr ⟨input, a, ha, ha.overlay hvalid⟩
  · exact .inl (overlay_of_unlisted hid)

/-- An accepted transaction leaves an account alone but for its nonce, or it is a public entry
of an input behind the transaction and gets its post state. -/
theorem publicEntry_of_transition {tx : PrivacyPreservingTransaction}
    (hsound : SoundProof S tx.proof)
    (h : st.transitionFromPrivacyPreservingTransaction tx blockId timestamp = .ok st')
    (id : AccountId) :
    st'.getAccountById id = (st.getAccountById id).withNonce (st'.getAccountById id).nonce ∨
      ∃ input a, PublicEntry S st tx input id a ∧
        st'.getAccountById id = a.post.withNonce (st'.getAccountById id).nonce := by
  obtain ⟨hvalid, happly⟩ := validPrivate_of_transition h
  have hget := (V03State.getAccountById_applyStateDiff happly id).1
  rcases publicEntry_of_valid hsound hvalid id with hsame | ⟨input, a, ha, hpost⟩
  · rw [hsame] at hget
    exact .inl hget
  · rw [hpost] at hget
    exact .inr ⟨input, a, ha, hget⟩

omit [Schnorr] in
/-- The consumed calls lead to its post state. -/
theorem PublicEntry.history {tx : PrivacyPreservingTransaction}
    {input : PrivacyPreservingCircuitInput} {a : Entry} (h : PublicEntry S st tx input id a) :
    Run (ProgramCall.Turns id) (st.getAccountById id)
      ((consumedCalls input).map CircuitCall.programCall) a.post := by
  have hhistory := history_of_circuit h.circuit h.mem
  rwa [h.pre] at hhistory

/-! ## Accepted transactions -/

/-- The calls of a transaction that act on the public account `id`.  A privacy-preserving one does
not name the outputs behind it: they are those of an input with its journal. -/
inductive Event.Acts (S : Set Bytes) (st : V03State) (id : AccountId) :
    Event → List ProgramCall → Prop
  | publicTx (tx : PublicTransaction) (blockId : BlockId) (timestamp : Timestamp) :
      Acts S st id ⟨.publicTx tx, blockId, timestamp⟩
        ((executedCalls tx st blockId timestamp).map PendingCall.programCall)
  | privacyPreserving {tx : PrivacyPreservingTransaction} (blockId : BlockId)
      (timestamp : Timestamp) {input : PrivacyPreservingCircuitInput} {a : Entry}
      (h : PublicEntry S st tx input id a) :
      Acts S st id ⟨.privacyPreserving tx, blockId, timestamp⟩
        ((consumedCalls input).map CircuitCall.programCall)
  | unlisted {tx : PrivacyPreservingTransaction} (blockId : BlockId) (timestamp : Timestamp)
      (h : id ∉ tx.message.publicAccountIds) :
      Acts S st id ⟨.privacyPreserving tx, blockId, timestamp⟩ []
  | programDeployment (tx : ProgramDeploymentTransaction) (blockId : BlockId)
      (timestamp : Timestamp) : Acts S st id ⟨.programDeployment tx, blockId, timestamp⟩ []

theorem exists_acts {e : Event} (hsound : e.tx.Sound S) (h : Accepted st e st')
    (id : AccountId) : ∃ calls, e.Acts S st id calls := by
  obtain ⟨tx, blockId, timestamp⟩ := e
  cases tx with
  | publicTx tx => exact ⟨_, .publicTx tx blockId timestamp⟩
  | privacyPreserving tx =>
      obtain ⟨hvalid, _⟩ := validPrivate_of_transition (show _ = _ from h)
      by_cases hid : id ∈ tx.message.publicAccountIds
      · obtain ⟨input, a, ha⟩ := exists_publicEntry hsound hvalid hid
        exact ⟨_, .privacyPreserving blockId timestamp ha⟩
      · exact ⟨_, .unlisted blockId timestamp hid⟩
  | programDeployment tx => exact ⟨_, .programDeployment tx blockId timestamp⟩

/-- **Step.**  An accepted transaction takes an account through the calls that act on it. -/
theorem history_of_accepted {e : Event} {calls : List ProgramCall} (hacts : e.Acts S st id calls)
    (h : Accepted st e st') : ∃ a, Run (ProgramCall.Turns id) (st.getAccountById id) calls a ∧
      st'.getAccountById id = a.withNonce (st'.getAccountById id).nonce := by
  cases hacts with
  | publicTx tx blockId timestamp =>
      obtain ⟨diff, hruns, hget⟩ := runs_of_transition (show _ = _ from h)
      have hhistory := history_of_runs hruns id
      rw [Ledger.overlay_empty] at hhistory
      exact ⟨_, hhistory, hget id⟩
  | privacyPreserving blockId timestamp hentry =>
      obtain ⟨hvalid, happly⟩ := validPrivate_of_transition (show _ = _ from h)
      have hget := (V03State.getAccountById_applyStateDiff happly id).1
      rw [hentry.overlay hvalid] at hget
      exact ⟨_, hentry.history, hget⟩
  | unlisted blockId timestamp hid =>
      obtain ⟨_, happly⟩ := validPrivate_of_transition (show _ = _ from h)
      have hget := (V03State.getAccountById_applyStateDiff happly id).1
      rw [overlay_of_unlisted hid] at hget
      exact ⟨_, .nil, hget⟩
  | programDeployment tx blockId timestamp =>
      obtain ⟨program, _, _, _, happly⟩ := deployed_of_transition (show _ = _ from h)
      have hget := (V03State.getAccountById_applyStateDiff happly id).1
      rw [Ledger.overlay_empty] at hget
      exact ⟨_, .nil, hget⟩

/-- No output behind the transaction breaks the property `Q` of the account `id`. -/
def Event.Keeps (S : Set Bytes) (Q : Account → Prop) (id : AccountId) (st : V03State)
    (e : Event) : Prop :=
  match e.tx with
  | .publicTx tx => ∀ c ∈ executedCalls tx st e.blockId e.timestamp,
      c.result.Keeps Q id c.call.call.programId
  | .privacyPreserving tx => ∀ input a, PublicEntry S st tx input id a →
      ∀ c ∈ consumedCalls input, c.result.Keeps Q id c.call.call.programId
  | .programDeployment _ => True

omit [Schnorr] in
theorem Event.Acts.keeps {e : Event} {calls : List ProgramCall} (hacts : e.Acts S st id calls)
    (hkeeps : e.Keeps S Q id st) : ∀ c ∈ calls, c.output.Keeps Q id c.programId := by
  cases hacts with
  | publicTx tx blockId timestamp => exact List.forall_mem_map.2 hkeeps
  | privacyPreserving blockId timestamp hentry =>
      exact List.forall_mem_map.2 (hkeeps _ _ hentry)
  | unlisted blockId timestamp hid => exact fun _ hc => absurd hc List.not_mem_nil
  | programDeployment tx blockId timestamp => exact fun _ hc => absurd hc List.not_mem_nil

/-- A property that no output breaks and that does not look at nonces. -/
theorem kept_of_accepted {e : Event} (hsound : e.tx.Sound S) (h : Accepted st e st')
    (hnonce : ∀ a n, Q a → Q (a.withNonce n)) (hkeeps : e.Keeps S Q id st)
    (hQ : Q (st.getAccountById id)) : Q (st'.getAccountById id) := by
  obtain ⟨calls, hacts⟩ := exists_acts hsound h id
  obtain ⟨a, hhistory, hget⟩ := history_of_accepted hacts h
  rw [hget]
  exact hnonce _ _ (kept_of_history hhistory (hacts.keeps hkeeps) hQ)

/-- Where every output of the transaction is valid, so is every check on single accounts. -/
theorem Event.keeps_of_valid {e : Event} (h : Accepted st e st')
    (hkeeps : ∀ (programId : ProgramId) (out : ProgramOutput),
      ValidExecution out.preStates out.postStates programId → out.Keeps Q id programId) :
    e.Keeps S Q id st := by
  obtain ⟨tx, blockId, timestamp⟩ := e
  cases tx with
  | publicTx tx =>
      intro c hc
      obtain ⟨_, hruns, _⟩ := runs_of_transition (show _ = _ from h)
      exact hkeeps _ _ (valid_of_runs hruns hc)
  | privacyPreserving tx =>
      intro input a ha c hc
      obtain ⟨es, hes, _⟩ := emitted_of_circuit ha.circuit
      exact hkeeps _ _ (valid_of_mem_consumedCalls hes hc).1
  | programDeployment tx => trivial

/-- An owned account keeps its owner. -/
theorem owner_of_accepted {e : Event} (hsound : e.tx.Sound S) (h : Accepted st e st')
    {owner : ProgramId} (howner : owner ≠ defaultProgramId)
    (hst : (st.getAccountById id).programOwner = owner) :
    (st'.getAccountById id).programOwner = owner := by
  refine kept_of_accepted (Q := fun a => a.programOwner = owner) hsound h (fun _ _ ha => ha)
    (Event.keeps_of_valid h ?_) hst
  intro programId out hvalid p hp _ hpre account hgranted
  have hpair := hvalid.pair p hp
  rw [hgranted.owned hpair (hpre ▸ howner), hpair.owner, hpre]

end

/-! ## Deployed programs -/

section

variable [Sha256] [BuiltinPrograms]

variable [Zkvm] [Schnorr]

/-- A deployment does not replace a program. -/
theorem BuiltinsDeployed.step {st st' : V03State} {e : Event} (hst : BuiltinsDeployed st)
    (h : Accepted st e st') : BuiltinsDeployed st' := by
  obtain ⟨tx, blockId, timestamp⟩ := e
  cases tx with
  | publicTx tx =>
      intro program hprogram
      rw [programs_of_transitionFromPublicTransaction (show _ = _ from h)]
      exact hst program hprogram
  | privacyPreserving tx =>
      obtain ⟨_, happly⟩ := validPrivate_of_transition (show _ = _ from h)
      obtain ⟨_, _, _, hprograms⟩ := V03State.applyStateDiff_eq_ok happly
      intro program hprogram
      rw [hprograms]
      exact hst program hprogram
  | programDeployment tx =>
      obtain ⟨deployed, _, _, hfree, happly⟩ := deployed_of_transition (show _ = _ from h)
      obtain ⟨_, _, _, hprograms⟩ := V03State.applyStateDiff_eq_ok happly
      intro program hprogram
      have hne : program.id ≠ deployed.id := by
        intro heq
        have hlookup := hst program hprogram
        rw [heq, AList.lookup_eq_none.2 hfree] at hlookup
        cases hlookup
      rw [hprograms, Option.elim_some, AList.lookup_insert_ne hne]
      exact hst program hprogram

/-- The built-in programs stay deployed. -/
theorem builtinsDeployed_of_run (hids : DistinctBuiltins)
    {initialData : List (AccountId × U128)} {notes : List (Commitment × Nullifier)}
    {genesisTimestamp : Timestamp} {st₀ st : V03State} {events : List Event}
    (hgenesis : V03State.newWithGenesisAccounts initialData notes genesisTimestamp = .ok st₀)
    (hrun : Run Accepted st₀ events st) : BuiltinsDeployed st :=
  hrun.invariant (builtinsDeployed_genesis hids hgenesis) fun _ _ _ hst h => hst.step h

end

/-! ## What known programs return -/

section

variable [Zkvm] {program : Program} {main : GuestInput → Except Panic ProgramOutput}

theorem main_of_executed {st : V03State} (himpl : program.Implements main)
    (hdeployed : st.programs.lookup program.id = some program) {c : PendingCall}
    {out : ProgramOutput} (hid : c.call.programId = program.id) (hout : c.output st = .ok out) :
    main ⟨program.id, c.caller.programId, c.call.preStates, c.call.instructionData⟩ =
      .ok out := by
  unfold PendingCall.output at hout
  rw [← hid] at hdeployed
  split at hout
  · cases hout
  · rename_i deployed hlookup
    rw [hdeployed] at hlookup
    cases hlookup
    exact himpl.execute _ _ (mapError_eq_ok.1 hout)

theorem main_of_consumed [Sha256] (himpl : program.Implements main)
    {input : PrivacyPreservingCircuitInput} {es : ExecutionState}
    (h : deriveFromOutputs input.accountIdentities input.programId input.programOutputs = .ok es)
    {e : Executed CircuitCall ProgramOutput} (he : e ∈ consumedCalls input)
    (hid : e.call.call.programId = program.id) : ∃ guest, main guest = .ok e.result := by
  have hverifies := (valid_of_mem_consumedCalls h he).2
  rw [hid] at hverifies
  exact himpl.verifies _ hverifies

end

/-! ## The life of an account -/

section

/-- The output of a call passed validation, and is one of `main` if the call is one of the
program. -/
structure ProgramCall.Genuine (program : Program)
    (main : GuestInput → Except Panic ProgramOutput) (c : ProgramCall) : Prop where
  valid : ValidExecution c.output.preStates c.output.postStates c.programId
  output : c.programId = program.id → ∃ guest, main guest = .ok c.output

variable [Sha256] [Zkvm] {program : Program} {main : GuestInput → Except Panic ProgramOutput}
  {S : Set Bytes} {st st' : V03State} {id : AccountId} {calls : List ProgramCall}

theorem genuine_of_mem_consumedCalls (himpl : program.Implements main)
    {input : PrivacyPreservingCircuitInput} {es : ExecutionState}
    (h : deriveFromOutputs input.accountIdentities input.programId input.programOutputs = .ok es) :
    ∀ c ∈ (consumedCalls input).map CircuitCall.programCall, c.Genuine program main :=
  List.forall_mem_map.2 fun _ hc =>
    ⟨(valid_of_mem_consumedCalls h hc).1, main_of_consumed himpl h hc⟩

variable [ChaCha20] [Schnorr]

/-- The calls that act on an account are genuine. -/
theorem Event.Acts.genuine (himpl : program.Implements main)
    (hdeployed : st.programs.lookup program.id = some program) {e : Event}
    (hacts : e.Acts S st id calls) (h : Accepted st e st') :
    ∀ c ∈ calls, c.Genuine program main := by
  cases hacts with
  | publicTx tx blockId timestamp =>
      obtain ⟨_, hruns, _⟩ := runs_of_transition (show _ = _ from h)
      refine List.forall_mem_map.2 fun c hc => ⟨valid_of_runs hruns hc, fun hid => ?_⟩
      obtain ⟨_, _, hstep⟩ := hruns.step_of_mem c hc
      exact ⟨_, main_of_executed himpl hdeployed hid (validCall_of_executeCall hstep).output⟩
  | privacyPreserving blockId timestamp hentry =>
      obtain ⟨_, hes, _⟩ := emitted_of_circuit hentry.circuit
      exact genuine_of_mem_consumedCalls himpl hes
  | unlisted blockId timestamp hid => exact fun _ hc => absurd hc List.not_mem_nil
  | programDeployment tx blockId timestamp => exact fun _ hc => absurd hc List.not_mem_nil

variable [BuiltinPrograms]

/-- What a transaction makes of an account, with the calls that act on it: of a public account when
it is accepted in some state, of a private one when the circuit accepts an input with it.  A run of
such steps takes the account each time where it was left before. -/
inductive AccountStep (S : Set Bytes) (id : AccountId) :
    Account → List ProgramCall → Account → Prop
  | publicly {st st' : V03State} {e : Event} {calls : List ProgramCall}
      (hdeployed : BuiltinsDeployed st) (hacts : e.Acts S st id calls) (h : Accepted st e st') :
      AccountStep S id (st.getAccountById id) calls (st'.getAccountById id)
  | privately {input : PrivacyPreservingCircuitInput} {output : PrivacyPreservingCircuitOutput}
      {p : Entry × NoteUpdate} (h : circuit input = .ok output)
      (hp : p ∈ privateEntries (circuitEntries input)) (hid : p.1.pre.accountId = id) :
      AccountStep S id p.1.pre.account ((consumedCalls input).map CircuitCall.programCall)
        (p.2.newAccount p.1.post)

/-- **Step.**  An account with an owner goes through genuine calls, and then its nonce changes at
most. -/
theorem AccountStep.history (himpl : program.Implements main) (hbuiltin : program ∈ builtinPrograms)
    {a a' : Account} (h : AccountStep S id a calls a')
    (howner : a.programOwner ≠ defaultProgramId) :
    (∀ c ∈ calls, c.Genuine program main) ∧ ∃ b, Run (ProgramCall.Turns id) a calls b ∧
      a' = b.withNonce a'.nonce := by
  cases h with
  | publicly hdeployed hacts h =>
      exact ⟨hacts.genuine himpl (hdeployed _ hbuiltin) h, history_of_accepted hacts h⟩
  | @privately input output p h hp hid =>
      obtain ⟨_, hes, _⟩ := emitted_of_circuit h
      obtain ⟨hmem, _⟩ := mem_privateEntries.1 hp
      have hhistory := history_of_entry h hmem (.inr howner)
      rw [hid] at hhistory
      exact ⟨genuine_of_mem_consumedCalls himpl hes, _, hhistory, rfl⟩

end

/-! ## Hashed strings -/

section

variable [Sha256]

def keyStrings (signaturesAndPublicKeys : List (Signature × PublicKey)) : List Bytes :=
  signaturesAndPublicKeys.map fun p => publicKeyPreimage p.2

/-- What is hashed for the signers of a transaction and for the PDAs of its executed calls. -/
def Event.strings [Zkvm] (st : V03State) (e : Event) : List Bytes :=
  match e.tx with
  | .publicTx tx => keyStrings tx.signaturesAndPublicKeys ++
      (executedCalls tx st e.blockId e.timestamp).flatMap fun c =>
        callStrings c.call.caller.programId c.call.call c.result
  | .privacyPreserving tx => keyStrings tx.signaturesAndPublicKeys
  | .programDeployment _ => []

variable {S : Set Bytes}

/-- No PDA signs. -/
theorem pda_not_signer (hS : CollisionFree S) {programId : ProgramId} {seed : PdaSeed}
    (hpda : publicPdaPreimage programId seed ∈ S) {keys : List (Signature × PublicKey)}
    (hkeys : ∀ s ∈ keyStrings keys, s ∈ S) :
    AccountId.forPublicPda programId seed ∉ signerAccountIds keys := by
  intro hmem
  obtain ⟨p, hp, heq⟩ := List.mem_map.1 hmem
  exact hS.ofPublicKey_ne_forPublicPda (hkeys _ (List.mem_map_of_mem hp)) hpda heq

/-! ## Marks on PDAs -/

variable [Zkvm] {st : V03State} {programId : ProgramId} {seed : PdaSeed}

/-- **Marked PDAs, public path.**  Where no mark on it is forged, a PDA that an executed output
marks was granted by an executed call of its program: to the call that marks it, or to one
that chains further calls. -/
theorem grantor_of_marked (hS : CollisionFree S) (hpda : publicPdaPreimage programId seed ∈ S)
    {tx : PublicTransaction} {blockId : BlockId} {timestamp : Timestamp} {diff : Accounts}
    (hruns : (publicMachine st blockId timestamp).Runs [(tx.initialCall st, [])] ∅
      (executedCalls tx st blockId timestamp) diff)
    (hstrings : ∀ s ∈ Event.strings st ⟨.publicTx tx, blockId, timestamp⟩, s ∈ S)
    (hforged : NoForgedMarkOn tx st (AccountId.forPublicPda programId seed))
    {e : Executed PendingCall ProgramOutput} (he : e ∈ executedCalls tx st blockId timestamp)
    (hmark : AccountId.forPublicPda programId seed ∈ authorizedIds e.result.preStates) :
    ∃ p ∈ executedCalls tx st blockId timestamp, ∃ c ∈ executedCalls tx st blockId timestamp,
      p.call.call.programId = programId ∧ c.call ∈ chainCalls p.call p.result ∧
      seed ∈ c.call.call.pdaSeeds ∧ (c = e ∨ c.result.chainedCalls ≠ []) := by
  have hsigner : AccountId.forPublicPda programId seed ∉ tx.signerAccountIds :=
    pda_not_signer hS hpda fun s hs => hstrings s (List.mem_append_left _ hs)
  obtain ⟨p, hp, c, hc, hissued, ⟨seed', hseed, heq⟩, hlast⟩ :=
    grantor_of_entitled hruns hsigner he (entitled_of_runs hruns hforged he hmark)
  obtain ⟨call, _, hcall⟩ := List.mem_map.1 hissued
  have hstring : publicPdaPreimage p.call.call.programId seed' ∈ S := by
    refine hstrings _ (List.mem_append_right _ (List.mem_flatMap.2 ⟨c, hc, ?_⟩))
    have hcaller : c.call.caller.programId = some p.call.call.programId := by rw [← hcall]
    rw [hcaller]
    exact seed_mem_callStrings hseed _
  obtain ⟨hprogram, hsame⟩ := hS.forPublicPda_inj hstring hpda heq
  exact ⟨p, hp, c, hc, hprogram, hissued, hsame ▸ hseed, hlast⟩

/-- **Marked PDAs, private path.**  A PDA among the public accounts that a consumed output marks
was granted by a consumed output of its program. -/
theorem issuer_of_marked [ChaCha20] (hS : CollisionFree S)
    (hpda : publicPdaPreimage programId seed ∈ S) {tx : PrivacyPreservingTransaction}
    {input : PrivacyPreservingCircuitInput} {a : Entry}
    (ha : PublicEntry S st tx input (AccountId.forPublicPda programId seed) a)
    (hkeys : ∀ s ∈ keyStrings tx.signaturesAndPublicKeys, s ∈ S)
    {c : Executed CircuitCall ProgramOutput} (hc : c ∈ consumedCalls input)
    (hmark : AccountId.forPublicPda programId seed ∈ authorizedIds c.result.preStates) :
    ∃ p ∈ consumedCalls input, p.call.call.programId = programId ∧
      p.result ∈ input.programOutputs ∧ p.result.selfProgramId = programId ∧
      c.call.call ∈ p.result.chainedCalls := by
  obtain ⟨pre, hpre, hauth, hid⟩ := mem_authorizedIds.1 hmark
  have hentry : a.pre.accountId = AccountId.forPublicPda programId seed := by rw [ha.pre]
  have hfirst : a.pre.isAuthorized = false := by
    rw [ha.pre]
    exact decide_eq_false (pda_not_signer hS hpda hkeys)
  obtain ⟨caller, seed', hcaller, hseed, heq⟩ :=
    derived_of_marked ha.circuit ha.mem hfirst hc hpre (hid.trans hentry.symm) hauth
  obtain ⟨es, hes, _⟩ := emitted_of_circuit ha.circuit
  have hstring : publicPdaPreimage caller seed' ∈ S := by
    refine ha.strings _ (callStrings_subset_circuitStrings hes hc ?_)
    rw [hcaller]
    exact seed_mem_callStrings hseed _
  obtain ⟨hprogram, _⟩ := hS.forPublicPda_inj hstring hpda (heq.symm.trans hentry)
  obtain ⟨p, hp, hissuer, hcall, _⟩ := issuer_of_mem_consumedCalls hes hc hcaller
  obtain ⟨hout, hself⟩ := result_of_mem_consumedCalls hes hp
  exact ⟨p, hp, hissuer.trans hprogram, hout, hself.trans (hissuer.trans hprogram), hcall⟩

end

end ExecutionZone
