import ExecutionZone.Transaction.Kept
import ExecutionZone.Transaction.Notes

/-!
# Nonces and replay

Programs do not touch nonces: outputs keep them, on the public path and in the circuit.  What
changes them is the application of a diff, which increments the nonce of a signer once for
every time it occurs in the list of signers (`nonce_of_accepted`).  A transaction may list a
key twice, with the same nonce, so signing does not always mean one increment
(`nonce_incremented_twice`, `nonce_accounting_iff`).

A transaction is accepted once (`no_replay`): the nonces it names, the commitments and
nullifiers it publishes or the program it deploys stay behind in every later state.
-/

namespace ExecutionZone

open CallTree

/-! ## Incrementing -/

theorem Nonce.val_of_increment {n n' : Nonce} (h : n.publicAccountNonceIncrement = .ok n') :
    n'.val.toNat = n.val.toNat + 1 := by
  unfold Nonce.publicAccountNonceIncrement at h
  split at h
  · rename_i val hval
    cases h
    exact U128.checkedAdd_eq_some hval
  · cases h

theorem Nonce.eq_of_toNat_eq {n n' : Nonce} (h : n.val.toNat = n'.val.toNat) : n = n' := by
  cases n
  cases n'
  exact congrArg Nonce.mk (BitVec.eq_of_toNat_eq h)

/-- Every occurrence of an account in the list counts. -/
theorem Accounts.nonce_incrementNonces {m m' : Accounts} {ids : List AccountId}
    (h : m.incrementNonces ids = .ok m') (id : AccountId) :
    (m'.get id).nonce.val.toNat = (m.get id).nonce.val.toNat + ids.count id := by
  induction ids generalizing m with
  | nil =>
      cases h
      rfl
  | cons signer ids ih =>
      simp only [Accounts.incrementNonces, bind_eq_ok] at h
      obtain ⟨nonce, hnonce, h⟩ := h
      rw [ih h]
      by_cases hid : id = signer
      · subst hid
        have hget : (Accounts.get (m.insert id ((m.get id).withNonce nonce)) id).nonce = nonce := by
          simp [Accounts.get, Account.withNonce]
        rw [hget, Nonce.val_of_increment hnonce, List.count_cons_self]
        omega
      · have hget : Accounts.get (m.insert signer ((m.get signer).withNonce nonce)) id = m.get id :=
          Ledger.get_insert_of_ne _ hid
        rw [hget, List.count_cons_of_ne (Ne.symm hid)]

section

variable [Sha256]

theorem V03State.nonce_applyStateDiff {st st' : V03State} {diff : StateDiff}
    (h : st.applyStateDiff diff = .ok st') (id : AccountId) :
    (st'.getAccountById id).nonce.val.toNat =
      (Ledger.overlay Account.default st.publicState diff.publicDiff id).nonce.val.toNat +
        diff.signerAccountIds.count id := by
  obtain ⟨hpublic, _⟩ := V03State.applyStateDiff_eq_ok h
  have hnonce := Accounts.nonce_incrementNonces hpublic id
  rwa [show Accounts.get (Ledger.insertAll st.publicState (Ledger.pairs diff.publicDiff)) id = _
    from Ledger.get_insertAll_pairs diff.publicDiff id] at hnonce

/-- The accounts that sign a transaction, as often as they sign it. -/
def NSSATransaction.signerAccountIds : NSSATransaction → List AccountId
  | .publicTx tx => tx.signerAccountIds
  | .privacyPreserving tx => tx.signerAccountIds
  | .programDeployment _ => []

/-- No valid output changes a nonce. -/
theorem keeps_nonce {programId : ProgramId} {out : ProgramOutput} {id : AccountId} (n : Nonce)
    (hvalid : ValidExecution out.preStates out.postStates programId) :
    out.Keeps (fun a => a.nonce = n) id programId := by
  rintro p hp _ hpre account hgranted
  have hpost : p.2.account.nonce = n := (hvalid.pair p hp).nonce.trans hpre
  cases hgranted with
  | unclaimed => exact hpost
  | claimed => exact hpost

variable [Zkvm] [ChaCha20] [Schnorr] {S : Set Bytes} {st st' : V03State}

omit [ChaCha20] in
/-- The accounts whose nonces a diff increments are those that sign. -/
theorem signerAccountIds_of_stateDiff {tx : NSSATransaction} {blockId : BlockId}
    {timestamp : Timestamp} {diff : StateDiff}
    (h : tx.stateDiff st blockId timestamp = .ok diff) :
    diff.signerAccountIds = tx.signerAccountIds := by
  cases tx with
  | publicTx tx =>
      obtain ⟨_, _, _, hdiff⟩ := runs_of_fromPublicTransaction h
      rw [hdiff]
      rfl
  | privacyPreserving tx =>
      simp only [NSSATransaction.stateDiff, fromPrivacyPreservingTransaction, bind_eq_ok, pure,
        Except.pure, Except.ok.injEq] at h
      obtain ⟨_, _, _, _, _, _, _, _, rfl⟩ := h
      rfl
  | programDeployment tx =>
      simp only [NSSATransaction.stateDiff, fromProgramDeploymentTransaction, mapError_eq_ok,
        bind_eq_ok, pure, Except.pure, Except.ok.injEq] at h
      obtain ⟨_, _, _, _, rfl⟩ := h
      rfl

/-- **Step.**  An accepted transaction adds to the nonce of an account the number of times it
signed. -/
theorem nonce_of_accepted {e : Event} (hsound : e.tx.Sound S) (h : Accepted st e st')
    (id : AccountId) :
    (st'.getAccountById id).nonce.val.toNat =
      (st.getAccountById id).nonce.val.toNat + e.tx.signerAccountIds.count id := by
  obtain ⟨tx, blockId, timestamp⟩ := e
  cases tx with
  | publicTx tx =>
      obtain ⟨diff, hdiff, happly⟩ := bind_eq_ok.1 (show _ = _ from h)
      obtain ⟨_, hruns, _, heq⟩ := runs_of_fromPublicTransaction hdiff
      have hkept := kept_of_runs (Q := fun a => a.nonce = (st.getAccountById id).nonce) hruns
        (fun e he => keeps_nonce _ (valid_of_runs hruns he)) (by rw [Ledger.overlay_empty]; rfl)
      rw [V03State.nonce_applyStateDiff (mapError_eq_ok.1 happly), hkept, heq]
      rfl
  | privacyPreserving tx =>
      obtain ⟨hvalid, happly⟩ := validPrivate_of_transition (show _ = _ from h)
      rw [V03State.nonce_applyStateDiff happly]
      rcases publicEntry_of_valid hsound hvalid id with hsame | ⟨input, a, ha, hpost⟩
      · rw [hsame]
        rfl
      · obtain ⟨es, hes, _⟩ := emitted_of_circuit ha.circuit
        have hkept : a.post.nonce = (st.getAccountById id).nonce :=
          kept_of_history (Q := fun a => a.nonce = (st.getAccountById id).nonce) ha.history
            (List.forall_mem_map.2 fun c hc =>
              keeps_nonce _ (valid_of_mem_consumedCalls hes hc).1) rfl
        rw [hpost, hkept]
        rfl
  | programDeployment tx =>
      obtain ⟨program, _, _, _, happly⟩ := deployed_of_transition (show _ = _ from h)
      rw [V03State.nonce_applyStateDiff happly, Ledger.overlay_empty]
      rfl

/-- **Run.**  Nonces do not decrease. -/
theorem nonce_le_of_run {events : List Event} (hsound : SoundProofs S events)
    (hrun : Run Accepted st events st') (id : AccountId) :
    (st.getAccountById id).nonce.val.toNat ≤ (st'.getAccountById id).nonce.val.toNat := by
  refine hrun.invariant_of_mem (I := fun s => (st.getAccountById id).nonce.val.toNat ≤
    (s.getAccountById id).nonce.val.toNat) le_rfl fun e he s s' hs hstep => ?_
  rw [nonce_of_accepted (hsound e he) hstep id]
  exact Nat.le_add_right_of_le hs

/-- **Nonce accounting.**  An accepted transaction increments the nonce of every account that
signed by exactly one and leaves all other nonces alone, if and only if no account signed it
twice. -/
theorem nonce_accounting_iff {e : Event} (hsound : e.tx.Sound S) (h : Accepted st e st') :
    (∀ id,
      (id ∈ e.tx.signerAccountIds → (st'.getAccountById id).nonce.val.toNat =
        (st.getAccountById id).nonce.val.toNat + 1) ∧
      (id ∉ e.tx.signerAccountIds →
        (st'.getAccountById id).nonce = (st.getAccountById id).nonce)) ↔
    e.tx.signerAccountIds.Nodup := by
  constructor
  · intro hall
    refine List.nodup_iff_count_le_one.2 fun id => ?_
    by_cases hid : id ∈ e.tx.signerAccountIds
    · have hone := (hall id).1 hid
      rw [nonce_of_accepted hsound h id] at hone
      exact Nat.le_of_eq (Nat.add_left_cancel hone)
    · rw [List.count_eq_zero_of_not_mem hid]
      exact Nat.zero_le 1
  · intro hnodup id
    have hnonce := nonce_of_accepted hsound h id
    constructor
    · intro hid
      rwa [List.count_eq_one_of_mem hnodup hid] at hnonce
    · intro hid
      rw [List.count_eq_zero_of_not_mem hid, Nat.add_zero] at hnonce
      exact Nonce.eq_of_toNat_eq hnonce

end

namespace RepeatedSigner

def script : Sample.Script := fun _ _ => .error "no such program"

def initialData : List (AccountId × U128) := [(Sample.signer 1, 100), (Sample.accountId 9, 5)]

def genesis : V03State :=
  let _ := Sample.sha256; let _ := Sample.builtins
  valueD (Sample.state [] []) (V03State.newWithGenesisAccounts initialData [] 0)

/-- A transfer signed with the keys of the given numbers. -/
def transfer (signers : List UInt8) : Event :=
  ⟨.publicTx (Sample.transaction (Sample.programId 2) [Sample.signer 1, Sample.accountId 9]
    (Sample.transferCodec.toVec (.transfer 30)) signers), 0, 0⟩

theorem genesis_eq :
    let _ := Sample.sha256; let _ := Sample.builtins
    V03State.newWithGenesisAccounts initialData [] 0 = .ok genesis := by
  intro _ _
  exact eq_ok_valueD (Sample.state [] []) (by decide +kernel)

end RepeatedSigner

/-- In the genesis state, a transfer that its sender signed twice with the same nonce is
accepted and increments the nonce by two. -/
theorem nonce_incremented_twice :
    let _ := Sample.sha256; let _ := Sample.zkvm RepeatedSigner.script; let _ := Sample.schnorr
    let _ := Sample.builtins
    V03State.newWithGenesisAccounts RepeatedSigner.initialData [] 0 =
      .ok RepeatedSigner.genesis ∧
    ∃ st', Accepted RepeatedSigner.genesis (RepeatedSigner.transfer [1, 1]) st' ∧
      Sample.signer 1 ∈ (RepeatedSigner.transfer [1, 1]).tx.signerAccountIds ∧
      (RepeatedSigner.genesis.getAccountById (Sample.signer 1)).nonce = ⟨0⟩ ∧
      (st'.getAccountById (Sample.signer 1)).nonce = ⟨2⟩ := by
  intro _ _ _ _
  obtain ⟨hok, hnonces⟩ :
      (RepeatedSigner.genesis.transition (RepeatedSigner.transfer [1, 1])).isOk = true ∧
      Sample.signer 1 ∈ (RepeatedSigner.transfer [1, 1]).tx.signerAccountIds ∧
      (RepeatedSigner.genesis.getAccountById (Sample.signer 1)).nonce = ⟨0⟩ ∧
      ((valueD RepeatedSigner.genesis (RepeatedSigner.genesis.transition
        (RepeatedSigner.transfer [1, 1]))).getAccountById (Sample.signer 1)).nonce = ⟨2⟩ := by
    decide +kernel
  exact ⟨RepeatedSigner.genesis_eq, _, eq_ok_valueD RepeatedSigner.genesis hok, hnonces⟩

/-- The same transfer signed once. -/
theorem nonce_accounting_iff_transfer :
    let _ := Sample.sha256; let _ := Sample.zkvm RepeatedSigner.script; let _ := Sample.schnorr
    ∃ st', Accepted RepeatedSigner.genesis (RepeatedSigner.transfer [1]) st' ∧
      ∀ id,
        (id ∈ (RepeatedSigner.transfer [1]).tx.signerAccountIds →
          (st'.getAccountById id).nonce.val.toNat =
            (RepeatedSigner.genesis.getAccountById id).nonce.val.toNat + 1) ∧
        (id ∉ (RepeatedSigner.transfer [1]).tx.signerAccountIds →
          (st'.getAccountById id).nonce = (RepeatedSigner.genesis.getAccountById id).nonce) := by
  intro _ _ _
  let _ := Sample.chaCha20
  have hok : (RepeatedSigner.genesis.transition (RepeatedSigner.transfer [1])).isOk = true := by
    decide +kernel
  have haccepted : Accepted _ _ _ := eq_ok_valueD RepeatedSigner.genesis hok
  refine ⟨_, haccepted, ?_⟩
  exact (nonce_accounting_iff (S := Set.univ) (Sample.sound _ _ _) haccepted).2
    (List.nodup_singleton _)

/-! ## Replay -/

section

variable [Sha256] [Zkvm] [Schnorr] {st st' : V03State}

/-- Commitments, nullifiers and programs stay. -/
structure Grows (st st' : V03State) : Prop where
  commitments : st.commitments ⊆ st'.commitments
  nullifiers : st.nullifierSet ⊆ st'.nullifierSet
  programs : ∀ id ∈ st.programs, id ∈ st'.programs

omit [Zkvm] [Schnorr] in
theorem grows_of_applyStateDiff {diff : StateDiff} (h : st.applyStateDiff diff = .ok st') :
    Grows st st' := by
  obtain ⟨hcommitments, hnullifiers, _⟩ := notes_of_applyStateDiff (S := Set.univ) h
  obtain ⟨_, _, _, hprograms⟩ := V03State.applyStateDiff_eq_ok h
  refine ⟨?_, ?_, fun id hid => ?_⟩
  · rw [hcommitments]
    exact Finset.subset_union_left
  · rw [hnullifiers]
    exact Finset.subset_union_left
  · rw [hprograms]
    cases diff.program with
    | none => exact hid
    | some program => exact (AList.mem_insert _).2 (.inr hid)

/-- **Run.**  Nothing is removed. -/
theorem grows_of_run {events : List Event} (hrun : Run Accepted st events st') :
    Grows st st' := by
  refine hrun.invariant (I := Grows st) ⟨subset_rfl, subset_rfl, fun _ => id⟩ ?_
  intro s e s' hs hstep
  obtain ⟨_, _, happly⟩ := accepted_iff.1 hstep
  have hgrows := grows_of_applyStateDiff happly
  exact ⟨hs.commitments.trans hgrows.commitments, hs.nullifiers.trans hgrows.nullifiers,
    fun id hid => hgrows.programs id (hs.programs id hid)⟩

omit [Zkvm] in
/-- The nonces a transaction names are those of its signers, in every state that it passes
the checks in. -/
theorem PublicTransaction.nonce_eq_of_checkMessage {tx : PublicTransaction}
    (h : tx.checkMessage st = .ok ()) (h' : tx.checkMessage st' = .ok ()) :
    ∀ id ∈ tx.signerAccountIds, (st.getAccountById id).nonce = (st'.getAccountById id).nonce := by
  simp only [PublicTransaction.checkMessage, bind_eq_ok, ensure_eq_ok, exists_const, checkNonces,
    forM_eq_ok] at h h'
  obtain ⟨_, hlen, _, hnonces⟩ := h
  obtain ⟨_, _, _, hnonces'⟩ := h'
  intro id hid
  have hlen' : tx.signerAccountIds.length ≤ tx.message.nonces.length := by
    rw [hlen]
    exact Nat.le_of_eq (List.length_map _)
  rw [← List.map_fst_zip hlen'] at hid
  obtain ⟨p, hp, rfl⟩ := List.mem_map.1 hid
  exact (hnonces p hp).trans (hnonces' p hp).symm

omit [Sha256] [Zkvm] [Schnorr] in
/-- A computation that neither panics nor returns reports an error. -/
theorem exists_err_of_noPanic {ε α : Type} {x : Except (Fault ε) α} (hpanic : NoPanic x)
    (hok : ∀ a, x ≠ .ok a) : ∃ e, x = .error (.err e) := by
  rcases x with (e | msg) | a
  · exact ⟨e, rfl⟩
  · exact absurd rfl (hpanic msg)
  · exact absurd rfl (hok a)

variable [ChaCha20] [BuiltinPrograms] {S : Set Bytes}

omit [ChaCha20] in
/-- A transaction without a diff is rejected, with an error if computing it does not panic. -/
theorem NSSATransaction.rejected_of_stateDiff {tx : NSSATransaction} {blockId : BlockId}
    {timestamp : Timestamp} (hpanic : NoPanic (tx.stateDiff st blockId timestamp))
    (hok : ∀ diff, tx.stateDiff st blockId timestamp ≠ .ok diff) :
    ∃ err, tx.validateOnState st blockId timestamp = .error (.err err) := by
  refine exists_err_of_noPanic ?_ fun diff h => ?_
  · refine (noPanic_mapError_err _).bind fun _ _ => hpanic.bind fun diff _ => ?_
    exact (noPanic_mapError_err _).bind fun _ _ => noPanic_ok _
  · simp only [NSSATransaction.validateOnState, bind_eq_ok] at h
    obtain ⟨_, _, diff', hdiff, _⟩ := h
    exact hok diff' hdiff

omit [ChaCha20] [BuiltinPrograms] in
/-- A privacy-preserving transaction creates a commitment or publishes a nullifier, and neither is
new in a later state. -/
theorem PrivacyPreservingTransaction.not_ok_of_grows {tx : PrivacyPreservingTransaction}
    {st₁ st₂ : V03State} {diff diff' : StateDiff} {b blockId : BlockId} {t timestamp : Timestamp}
    (hdiff : fromPrivacyPreservingTransaction tx st b t = .ok diff)
    (happly : st.applyStateDiff diff = .ok st₁) (hgrows : Grows st₁ st₂) :
    fromPrivacyPreservingTransaction tx st₂ blockId timestamp ≠ .ok diff' := by
  intro hdiff'
  simp only [fromPrivacyPreservingTransaction, bind_eq_ok, mapError_eq_ok, pure, Except.pure,
    Except.ok.injEq] at hdiff hdiff'
  obtain ⟨_, hcheck, _, _, _, _, _, _, rfl⟩ := hdiff
  obtain ⟨_, _, _, _, _, hnew, _, hnull, rfl⟩ := hdiff'
  simp only [V03State.checkCommitmentsAreNew, forM_eq_ok, ensure_eq_ok] at hnew
  simp only [V03State.checkNullifiersAreValid, forM_eq_ok, bind_eq_ok, ensure_eq_ok,
    exists_const] at hnull
  obtain ⟨hcommitments, hnullifiers, _⟩ := notes_of_applyStateDiff (S := Set.univ) happly
  simp only [PrivacyPreservingTransaction.checkMessage, bind_eq_ok, ensure_eq_ok,
    exists_const] at hcheck
  rcases hcheck.1 with hne | hne
  · obtain ⟨c, hc⟩ := List.exists_mem_of_ne_nil _ hne
    have hmem : c ∈ st₁.commitments := by
      rw [hcommitments]
      exact Finset.mem_union_right _ (List.mem_toFinset.2 hc)
    exact hnew c hc (V03State.mem_commitments.1 (hgrows.commitments hmem))
  · obtain ⟨p, hp⟩ := List.exists_mem_of_ne_nil _ hne
    have hmem : p.1 ∈ st₁.nullifierSet := by
      rw [hnullifiers]
      exact Finset.mem_union_right _ (List.mem_toFinset.2 (List.mem_map_of_mem hp))
    exact (hnull p hp).1 (hgrows.nullifiers hmem)

/-- **No replay.**  Once accepted, a privacy-preserving transaction, a deployment or a public
transaction with a signature is rejected in every later state, at every block and time. -/
theorem no_replay {e : Event} {st₁ st₂ : V03State} {events : List Event}
    (hsound : SoundProofs S (e :: events)) (h : Accepted st e st₁)
    (hrun : Run Accepted st₁ events st₂)
    (hsigned : ∀ tx, e.tx = .publicTx tx → tx.signaturesAndPublicKeys ≠ [])
    (blockId : BlockId) (timestamp : Timestamp) :
    ∃ err, e.tx.validateOnState st₂ blockId timestamp = .error (.err err) := by
  obtain ⟨diff, hdiff, happly⟩ := accepted_iff.1 h
  have hgrows := grows_of_run hrun
  obtain ⟨tx, b, t⟩ := e
  cases tx with
  | publicTx tx =>
      refine NSSATransaction.rejected_of_stateDiff (noPanic_fromPublicTransaction _ _ _ _) ?_
      intro diff' hdiff'
      obtain ⟨hcheck, _⟩ := runs_of_fromPublicTransaction hdiff
      obtain ⟨hcheck', _⟩ := runs_of_fromPublicTransaction hdiff'
      obtain ⟨p, hp⟩ := List.exists_mem_of_ne_nil _ (hsigned tx rfl)
      have hsigner : AccountId.ofPublicKey p.2 ∈ tx.signerAccountIds :=
        List.mem_map.2 ⟨p, hp, rfl⟩
      -- its nonce has been incremented since
      obtain ⟨hfirst, hrest⟩ := List.forall_mem_cons.1 hsound
      have hstep := nonce_of_accepted hfirst h (AccountId.ofPublicKey p.2)
      have hlater := nonce_le_of_run hrest hrun (AccountId.ofPublicKey p.2)
      have hcount : 0 < tx.signerAccountIds.count (AccountId.ofPublicKey p.2) :=
        List.count_pos_iff.2 hsigner
      rw [← PublicTransaction.nonce_eq_of_checkMessage hcheck hcheck' _ hsigner, hstep] at hlater
      exact absurd hlater (Nat.not_le_of_lt (Nat.lt_add_of_pos_right hcount))
  | privacyPreserving tx =>
      obtain ⟨hvalid, _⟩ := validPrivate_of_transition (show _ = _ from h)
      obtain ⟨verifies, hdecode, _⟩ := hvalid.proof
      have hpanic : NoPanic (fromPrivacyPreservingTransaction tx st₂ blockId timestamp) := by
        refine (noPanic_fromPrivacyPreservingTransaction_iff _ _ _ _).2 fun _ hnone => ?_
        rw [hdecode] at hnone
        cases hnone
      exact NSSATransaction.rejected_of_stateDiff hpanic fun _ =>
        PrivacyPreservingTransaction.not_ok_of_grows hdiff happly hgrows
  | programDeployment tx =>
      refine NSSATransaction.rejected_of_stateDiff (noPanic_mapError_err _) ?_
      intro diff' hdiff'
      obtain ⟨program, hid, _, _, hadded⟩ := deployed_of_transition (show _ = _ from h)
      obtain ⟨_, _, _, hprograms⟩ := V03State.applyStateDiff_eq_ok hadded
      have hmem : program.id ∈ st₁.programs := by
        rw [hprograms]
        exact (AList.mem_insert _).2 (.inl rfl)
      simp only [NSSATransaction.stateDiff, fromProgramDeploymentTransaction, Program.new,
        bind_eq_ok, mapError_eq_ok, ensure_eq_ok, exists_const, pure, Except.pure,
        Except.ok.injEq] at hdiff'
      obtain ⟨_, ⟨id, hid', rfl⟩, hnew, _⟩ := hdiff'
      rw [hid] at hid'
      cases hid'
      exact hnew (hgrows.programs _ hmem)

end

/-- The signed transfer is not accepted a second time, after a deployment. -/
theorem no_replay_transfer :
    let _ := Sample.sha256; let _ := Sample.zkvm RepeatedSigner.script; let _ := Sample.schnorr
    let _ := Sample.builtins
    ∃ st₁ st₂, Accepted RepeatedSigner.genesis (RepeatedSigner.transfer [1]) st₁ ∧
      Run Accepted st₁ [⟨.programDeployment ⟨[10]⟩, 0, 0⟩] st₂ ∧
      ∃ err, (RepeatedSigner.transfer [1]).tx.validateOnState st₂ 0 0 = .error (.err err) := by
  intro _ _ _ _
  let _ := Sample.chaCha20
  have hok : (RepeatedSigner.genesis.transition (RepeatedSigner.transfer [1]) >>= fun st =>
      st.transition ⟨.programDeployment ⟨[10]⟩, 0, 0⟩).isOk = true := by
    decide +kernel
  obtain ⟨st₂, hst₂⟩ := exists_of_isOk hok
  obtain ⟨st₁, haccepted, hdeployed⟩ := bind_eq_ok.1 hst₂
  have hrun : Run Accepted st₁ [⟨.programDeployment ⟨[10]⟩, 0, 0⟩] st₂ := Run.nil.snoc hdeployed
  refine ⟨st₁, st₂, haccepted, hrun, no_replay (S := Set.univ) (fun e _ => Sample.sound _ _ e.tx)
    haccepted hrun ?_ 0 0⟩
  rintro tx ⟨⟩
  exact List.cons_ne_nil _ _

end ExecutionZone
