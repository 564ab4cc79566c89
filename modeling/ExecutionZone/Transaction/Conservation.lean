import ExecutionZone.Transaction.Notes

/-!
# Conservation of native balance

No transaction creates or destroys native balance: what the public accounts hold together
with what the unspent notes are worth never changes.  Sums are exact: the faucet alone
starts with `u128::MAX`.

On the public path each call moves balance between the accounts it lists.  In the circuit
the accounts listed first with some balance end with the same balance in total; public ones
are in the message, and the moves of the private ones change the worth of the pool by the
difference of what they spend and what they create.
-/

namespace ExecutionZone

open CallTree NotePool

section

variable [Sha256]

/-- The balance of all public accounts. -/
def V03State.publicBalance (st : V03State) : Nat :=
  Ledger.total (fun a => a.balance.toNat) Account.default st.publicState

open Classical in
/-- What a note is worth: the balance of the account it opens to within `S`. -/
noncomputable def noteBalance (S : Set Bytes) (c : Commitment) : Nat :=
  if h : ∃ account, ∃ id, commitmentPreimage id account ∈ S ∧ c = Commitment.new id account then
    h.choose.balance.toNat
  else 0

/-- The balance of all public accounts and all unspent notes. -/
noncomputable def V03State.nativeBalance (S : Set Bytes) (st : V03State) : Nat :=
  st.publicBalance + ∑ c ∈ st.unspent S, noteBalance S c

theorem noteBalance_new {S : Set Bytes} (hS : CollisionFree S) {id : AccountId}
    {account : Account} (h : commitmentPreimage id account ∈ S) :
    noteBalance S (Commitment.new id account) = account.balance.toNat := by
  have hex : ∃ account' id', commitmentPreimage id' account' ∈ S ∧
      Commitment.new id account = Commitment.new id' account' := ⟨account, id, h, rfl⟩
  obtain ⟨id', hid', heq⟩ := hex.choose_spec
  have hbalance := (commitmentPreimage_inj (hS.injOn h hid' (congrArg Commitment.value heq))).2.2.1
  rw [noteBalance, dif_pos hex, hbalance]

/-! ## The public path -/

section

variable [Zkvm] {st st' : V03State} {blockId : BlockId} {timestamp : Timestamp}

/-- A call moves balance between the accounts it lists. -/
theorem ValidCall.balance {c : PendingCall} {diff : Accounts} {out : ProgramOutput}
    {diff' : Accounts} (h : ValidCall st blockId timestamp c diff out diff') :
    Ledger.total (fun a : Account => a.balance.toNat) Account.default
        (Ledger.insertAll st.publicState (Ledger.pairs diff')) =
      Ledger.total (fun a : Account => a.balance.toNat) Account.default
        (Ledger.insertAll st.publicState (Ledger.pairs diff)) := by
  have htotal := h.totalBy (f := fun _ a => a.balance.toNat) (fun _ => rfl)
    (List.map_id out.zipped) (fun p => p.1.account.balance.toNat)
    (fun p => p.2.account.balance.toNat) fun p _ account hgranted => by
      rw [hgranted.balance, Nat.add_comm]
      rfl
  rw [ProgramOutput.zipped,
    Ledger.map_zip_fst (Nat.le_of_eq h.valid.length_eq) fun p : AccountWithMetadata =>
      p.account.balance.toNat,
    Ledger.map_zip_snd (Nat.le_of_eq h.valid.length_eq.symm) fun p : AccountPostState =>
      p.account.balance.toNat, h.valid.sum_eq] at htotal
  exact Nat.add_right_cancel htotal

theorem balance_of_runs {q : List (PendingCall × List (PendingCall × ProgramOutput))}
    {diff : Accounts} {calls : List (Executed PendingCall ProgramOutput)} {diff' : Accounts}
    (h : (publicMachine st blockId timestamp).Runs q diff calls diff') :
    Ledger.total (fun a : Account => a.balance.toNat) Account.default
        (Ledger.insertAll st.publicState (Ledger.pairs diff')) =
      Ledger.total (fun a : Account => a.balance.toNat) Account.default
        (Ledger.insertAll st.publicState (Ledger.pairs diff)) := by
  induction h with
  | nil diff => rfl
  | cons hstep _ ih => rw [ih, (validCall_of_executeCall hstep).balance]

omit [Zkvm] in
/-- Nonces apart, the public accounts after a diff are the diff over those before. -/
theorem publicBalance_of_applyStateDiff {diff : StateDiff}
    (h : st.applyStateDiff diff = .ok st') :
    st'.publicBalance = Ledger.total (fun a : Account => a.balance.toNat) Account.default
      (Ledger.insertAll st.publicState (Ledger.pairs diff.publicDiff)) :=
  V03State.totalBy_applyStateDiff h (f := fun _ a => a.balance.toNat) (fun _ => rfl)
    fun _ _ _ => rfl

end

/-! ## The private path -/

section

variable {S : Set Bytes} {st st' : V03State} {l : List Entry}

/-- What valid notes spend and create is what their accounts hold before and after. -/
theorem ValidNotes.worth (hS : CollisionFree S) {output : PrivacyPreservingCircuitOutput}
    (h : ValidNotes S l output) :
    ((noteMoves l).map fun m => m.source.elim 0 (noteBalance S)) =
        (privateEntries l).map (·.1.pre.account.balance.toNat) ∧
      ((noteMoves l).map fun m => noteBalance S m.target) =
        (privateEntries l).map (·.1.post.balance.toNat) := by
  rw [noteMoves, List.map_map, List.map_map]
  constructor
  · refine List.map_congr_left fun p hp => ?_
    have hsource := h.source p hp
    cases hsource with
    | init hidentity _ hdefault =>
        simp only [Function.comp_apply, noteMove, Entry.source, hidentity, hdefault]
        rfl
    | update nsk membershipProof hidentity _ _ hstrings =>
        simp only [Function.comp_apply, noteMove, Entry.source, hidentity, if_true,
          Option.elim_some]
        exact noteBalance_new hS (hstrings _ (by simp [updateStrings]))
  · refine List.map_congr_left fun p hp => ?_
    simp only [Function.comp_apply, noteMove, newCommitment]
    rw [noteBalance_new hS (h.target p hp), NoteUpdate.newAccount, Account.withNonce_balance]

/-- The public accounts of a privacy-preserving transaction go from what the journal says
they hold before to what it says they hold after. -/
theorem publicBalance_of_emitted {tx : PrivacyPreservingTransaction}
    (hemitted : Emitted l (tx.journal st)) (hids : tx.message.publicAccountIds.Nodup)
    (h : st.applyStateDiff tx.diff = .ok st') :
    st'.publicBalance + ((publicEntries l).map (·.pre.account.balance.toNat)).sum =
      st.publicBalance + ((publicEntries l).map (·.post.balance.toNat)).sum := by
  obtain ⟨haccountIds, hpres, hzip⟩ := publicEntries_of_journal hemitted
  have htotal := Ledger.total_overlay_insertAll (f := fun a : Account => a.balance.toNat)
    (d := Account.default) rfl st.publicState ∅
    (l := (publicEntries l).map fun e => (e.pre.accountId, e.post))
    (by rw [List.map_map]; exact haccountIds ▸ hids)
  simp only [Ledger.overlay_empty, List.map_map, Function.comp_def] at htotal
  have hbefore : (publicEntries l).map (fun e =>
      (Ledger.get Account.default st.publicState e.pre.accountId).balance.toNat) =
      (publicEntries l).map (·.pre.account.balance.toNat) :=
    List.map_congr_left fun e he => by
      rw [hpres e he]
      rfl
  rw [hbefore] at htotal
  rw [publicBalance_of_applyStateDiff h, PrivacyPreservingTransaction.diff, hzip]
  exact htotal

variable [Zkvm] [ChaCha20] [Schnorr]

/-- **Step.**  An accepted transaction keeps the native balance. -/
theorem nativeBalance_of_accepted (hS : CollisionFree S) (hst : NotesValid S st) {e : Event}
    (hsound : e.tx.Sound S) (h : Accepted st e st') :
    st'.nativeBalance S = st.nativeBalance S := by
  by_cases hkind : ∃ tx, e.tx = .privacyPreserving tx
  · obtain ⟨tx, htx⟩ := hkind
    obtain ⟨_, blockId, timestamp⟩ := e
    cases htx
    obtain ⟨hvalid, happly⟩ := validPrivate_of_transition (show _ = _ from h)
    obtain ⟨l, hnotes, hmoves, _, hcommitments, hnullifiers⟩ :=
      moves_of_private hS hst hsound (show _ = _ from h)
    have hpublic := publicBalance_of_emitted hnotes.emitted hvalid.accountIds_nodup happly
    have hprivate := hmoves.sum_unspent (noteBalance S)
    rw [(hnotes.worth hS).1, (hnotes.worth hS).2, ← hcommitments, ← hnullifiers] at hprivate
    have hbalance := (sum_entries l (·.pre.account.balance.toNat)).symm.trans
      (hnotes.balance.trans (sum_entries l (·.post.balance.toNat)))
    unfold V03State.nativeBalance V03State.unspent
    omega
  · rw [not_exists] at hkind
    obtain ⟨diff, hnoCommitments, hnoNullifiers, happly⟩ := notes_of_not_private h hkind
    obtain ⟨hcommitments, hnullifiers, _⟩ := notes_of_applyStateDiff (S := S) happly
    rw [hnoCommitments, List.toFinset_nil, Finset.union_empty] at hcommitments
    rw [hnoNullifiers, List.toFinset_nil, Finset.union_empty] at hnullifiers
    have hpublic : st'.publicBalance = st.publicBalance := by
      obtain ⟨tx, blockId, timestamp⟩ := e
      cases tx with
      | publicTx tx =>
          obtain ⟨diff, hdiff, happly⟩ := bind_eq_ok.1 (show _ = _ from h)
          obtain ⟨_, hruns, _⟩ := runs_of_fromPublicTransaction hdiff
          exact (publicBalance_of_applyStateDiff (mapError_eq_ok.1 happly)).trans
            (balance_of_runs hruns)
      | privacyPreserving tx => exact absurd rfl (hkind tx)
      | programDeployment tx =>
          obtain ⟨program, _, _, _, happly⟩ := deployed_of_transition (show _ = _ from h)
          exact publicBalance_of_applyStateDiff happly
    rw [V03State.nativeBalance, V03State.nativeBalance, hpublic, V03State.unspent,
      V03State.unspent, hcommitments, hnullifiers]

/-- **Conservation of native balance.**  From a genesis state, over every run of accepted
transactions, the balance of all public accounts and all unspent notes never changes. -/
theorem native_balance_conserved [BuiltinPrograms] (hS : CollisionFree S)
    {initialData : List (AccountId × U128)}
    {notes : List (AccountId × Account)} {genesisTimestamp : Timestamp} {st₀ : V03State}
    (hgenesis : V03State.newWithGenesisAccounts initialData (genesisPrivateAccounts notes)
      genesisTimestamp = .ok st₀)
    (hstrings : GenesisHashedIn S notes) (hhashed : st₀.commitmentSet.HashedIn S)
    {events : List Event} (hsound : SoundProofs S events)
    (hrun : Run (AcceptedIn S) st₀ events st) :
    st.nativeBalance S = st₀.nativeBalance S := by
  have hinv := hrun.invariant_of_mem
    (I := fun st => NotesValid S st ∧ st.nativeBalance S = st₀.nativeBalance S)
    ⟨notesValid_genesis hstrings hgenesis hhashed, rfl⟩
    (fun e he st st' hI hstep => ⟨hI.1.step hS (hsound e he) hstep.1 hstep.2,
      (nativeBalance_of_accepted hS hI.1 (hsound e he) hstep.1).trans hI.2⟩)
  exact hinv.2

end

end

/-- The run that spends a note keeps the native balance. -/
theorem native_balance_conserved_spent_note :
    let _ := Sample.sha256; let _ := Sample.provingZkvm SpentNote.script [SpentNote.journal]
    let _ := Sample.chaCha20; let _ := Sample.schnorr; let _ := Sample.builtins
    Run (AcceptedIn { s | s ∈ SpentNote.strings }) SpentNote.genesis
        [SpentNote.topUp, SpentNote.spend] SpentNote.final ∧
      SpentNote.final.nativeBalance { s | s ∈ SpentNote.strings } =
        SpentNote.genesis.nativeBalance { s | s ∈ SpentNote.strings } := by
  intro _ _ _ _ _
  exact ⟨SpentNote.run.2, native_balance_conserved SpentNote.collisionFree SpentNote.genesis_eq
    SpentNote.genesisHashedIn SpentNote.run.1 (fun e _ => SpentNote.sound e.tx) SpentNote.run.2⟩

end ExecutionZone
