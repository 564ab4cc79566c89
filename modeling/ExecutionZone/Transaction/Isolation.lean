import ExecutionZone.Programs.Sample
import ExecutionZone.Transaction.PublicPath

/-!
# Program isolation on the public path

What the calls of a public transaction, taken together, can do to an account.
`Evolves calls id a a'` relates the values of an account before and after some executed
calls; one call satisfies it (`ValidCall.evolves`), it composes (`Evolves.trans`), so a
whole run does.

Neither the ids of the deployed programs nor the shape of the starting state matter:
`validate_execution` refuses every output that lists an account with the default owner
and a value other than the default one.
-/

namespace ExecutionZone

open CallTree

/-- How the account `id` may evolve from `a` to `a'` while `calls` are executed. -/
structure Evolves (calls : List (Executed PendingCall ProgramOutput)) (id : AccountId)
    (a a' : Account) : Prop where
  nonce : a'.nonce = a.nonce
  owner : a'.programOwner = a.programOwner ∨
    ∃ e ∈ calls, a'.programOwner = e.call.call.programId
  owned : a.programOwner ≠ defaultProgramId → a'.programOwner = a.programOwner
  foreign : a.programOwner ≠ defaultProgramId →
    (∀ e ∈ calls, e.call.call.programId ≠ a.programOwner) →
    a'.data = a.data ∧ a.balance ≤ a'.balance
  unowned : a.programOwner = defaultProgramId → a ≠ Account.default → a' = a
  unlisted : (∀ e ∈ calls, id ∉ e.result.preStates.map (·.accountId)) → a' = a

namespace Evolves

variable {calls calls' : List (Executed PendingCall ProgramOutput)} {id : AccountId}
  {a b c : Account}

theorem refl (calls : List (Executed PendingCall ProgramOutput)) (id : AccountId) (a : Account) :
    Evolves calls id a a :=
  ⟨rfl, .inl rfl, fun _ => rfl, fun _ _ => ⟨rfl, BitVec.le_refl _⟩, fun _ _ => rfl, fun _ => rfl⟩

theorem trans (h : Evolves calls id a b) (h' : Evolves calls' id b c) :
    Evolves (calls ++ calls') id a c where
  nonce := h'.nonce.trans h.nonce
  owner := by
    rcases h'.owner with hc | ⟨e, he, hc⟩
    · rcases h.owner with hb | ⟨e, he, hb⟩
      · exact .inl (hc.trans hb)
      · exact .inr ⟨e, List.mem_append_left _ he, hc.trans hb⟩
    · exact .inr ⟨e, List.mem_append_right _ he, hc⟩
  owned := fun ha => by
    have hb := h.owned ha
    rw [h'.owned (hb ▸ ha), hb]
  foreign := fun ha hcalls => by
    have hb := h.owned ha
    obtain ⟨hdata, hbal⟩ := h.foreign ha fun e he => hcalls e (List.mem_append_left _ he)
    obtain ⟨hdata', hbal'⟩ := h'.foreign (hb ▸ ha) fun e he =>
      hb ▸ hcalls e (List.mem_append_right _ he)
    exact ⟨hdata'.trans hdata, BitVec.le_trans hbal hbal'⟩
  unowned := fun ha hne => by
    have hb := h.unowned ha hne
    subst hb
    exact h'.unowned ha hne
  unlisted := fun hcalls => by
    have hb := h.unlisted fun e he => hcalls e (List.mem_append_left _ he)
    have hc := h'.unlisted fun e he => hcalls e (List.mem_append_right _ he)
    rw [hc, hb]

end Evolves

section

variable [Sha256] [Zkvm] {st : V03State} {blockId : BlockId} {timestamp : Timestamp}

/-- **Step.**  One executed call. -/
theorem ValidCall.evolves {c : PendingCall} {anc : List (PendingCall × ProgramOutput)}
    {diff : Accounts} {out : ProgramOutput} {diff' : Accounts}
    (h : ValidCall st blockId timestamp c diff out diff') (id : AccountId) :
    Evolves [⟨c, anc, out⟩] id (Ledger.overlay Account.default st.publicState diff id)
      (Ledger.overlay Account.default st.publicState diff' id) := by
  rcases h.account id with ⟨_, hsame⟩ | ⟨pre, post, hmem, rfl, hpre, hgranted⟩
  · rw [hsame]
    exact .refl _ _ _
  · have hpair := h.valid.pair _ hmem
    have hlisted : pre.accountId ∈ out.preStates.map (·.accountId) :=
      List.mem_map_of_mem (List.of_mem_zip hmem).1
    rw [← hpre]
    generalize Ledger.overlay Account.default st.publicState diff' pre.accountId = a' at hgranted
    have hunlisted : (∀ e ∈ [(⟨c, anc, out⟩ : Executed PendingCall ProgramOutput)],
        pre.accountId ∉ e.result.preStates.map (·.accountId)) → a' = pre.account :=
      fun hcalls => absurd hlisted (hcalls _ List.mem_cons_self)
    cases hgranted with
    | unclaimed hclaim =>
        refine ⟨hpair.nonce, .inl hpair.owner, fun _ => hpair.owner, ?_, ?_, hunlisted⟩
        · intro howner hcalls
          have hne : pre.account.programOwner ≠ c.call.programId :=
            Ne.symm (hcalls _ List.mem_cons_self)
          refine ⟨hpair.data_of_foreign howner hne, ?_⟩
          by_contra hb
          exact hne (hpair.decrease (BitVec.not_le.1 hb))
        · intro howner hne
          exact absurd (hpair.unowned howner) hne
    | claimed hclaim howner hallowed =>
        -- a claimed account had the default owner, hence the default value
        have hdef : pre.account.programOwner = defaultProgramId := hpair.owner ▸ howner
        refine ⟨hpair.nonce, .inr ⟨_, List.mem_cons_self, rfl⟩, ?_, ?_, ?_, hunlisted⟩
        · intro hne
          exact absurd hdef hne
        · intro hne
          exact absurd hdef hne
        · intro _ hne
          exact absurd (hpair.unowned hdef) hne

/-- **Run.**  All executed calls together. -/
theorem evolves_of_runs {q : List (PendingCall × List (PendingCall × ProgramOutput))}
    {diff : Accounts} {calls : List (Executed PendingCall ProgramOutput)} {diff' : Accounts}
    (h : (publicMachine st blockId timestamp).Runs q diff calls diff') (id : AccountId) :
    Evolves calls id (Ledger.overlay Account.default st.publicState diff id)
      (Ledger.overlay Account.default st.publicState diff' id) := by
  induction h with
  | nil diff => exact .refl _ _ _
  | cons hstep _ ih => exact (validCall_of_executeCall hstep).evolves id |>.trans ih

/-- **Program isolation.**  For an accepted public transaction, with `a` and `a'` the
values of any account before and after:
the owner changes only from the default id to the id of an executed program;
an owned account keeps its owner, and its data and at least its balance unless its owner
is executed; an account without an owner and with a value other than the default one
keeps everything but its nonce; and an account no executed output lists keeps everything,
or everything but its nonce if it signed. -/
theorem public_transaction_isolates [Schnorr] {tx : PublicTransaction} {st' : V03State}
    (h : st.transitionFromPublicTransaction tx blockId timestamp = .ok st') (id : AccountId) :
    let a := st.getAccountById id
    let a' := st'.getAccountById id
    let calls := executedCalls tx st blockId timestamp
    (a'.programOwner ≠ a.programOwner → a.programOwner = defaultProgramId ∧
      ∃ e ∈ calls, a'.programOwner = e.call.call.programId) ∧
    (a.programOwner ≠ defaultProgramId → a'.programOwner = a.programOwner ∧
      ((∀ e ∈ calls, e.call.call.programId ≠ a.programOwner) →
        a'.data = a.data ∧ a.balance ≤ a'.balance)) ∧
    (a.programOwner = defaultProgramId → a ≠ Account.default →
      a' = a.withNonce a'.nonce) ∧
    ((∀ e ∈ calls, id ∉ e.result.preStates.map (·.accountId)) →
      a' = a.withNonce a'.nonce ∧ (id ∉ tx.signerAccountIds → a' = a)) := by
  obtain ⟨diff, hdiff, happly⟩ := bind_eq_ok.1 h
  rw [mapError_eq_ok] at happly
  obtain ⟨_, hruns, _, hdiff⟩ := runs_of_fromPublicTransaction hdiff
  have hev := evolves_of_runs hruns id
  rw [Ledger.overlay_empty] at hev
  obtain ⟨hfields, hsame⟩ := V03State.getAccountById_applyStateDiff happly id
  have hsigners : diff.signerAccountIds = tx.signerAccountIds := by rw [hdiff]
  rw [hsigners] at hsame
  generalize Ledger.overlay Account.default st.publicState diff.publicDiff id = b at *
  have howner : (st'.getAccountById id).programOwner = b.programOwner := by
    rw [hfields, Account.withNonce_programOwner]
  have hdata : (st'.getAccountById id).data = b.data := by
    rw [hfields, Account.withNonce_data]
  have hbalance : (st'.getAccountById id).balance = b.balance := by
    rw [hfields, Account.withNonce_balance]
  intro a a' calls
  refine ⟨?_, ?_, ?_, ?_⟩
  · intro hne
    rw [howner] at hne ⊢
    refine ⟨?_, hev.owner.resolve_left hne⟩
    by_contra hdef
    exact hne (hev.owned hdef)
  · intro hdef
    rw [howner, hdata, hbalance]
    exact ⟨hev.owned hdef, hev.foreign hdef⟩
  · intro hdef hne
    rw [hev.unowned hdef hne] at hfields
    exact hfields
  · intro hcalls
    rw [hev.unlisted hcalls] at hfields hsame
    exact ⟨hfields, hsame⟩

end

/-- A signed transfer between two accounts of the transfer program. -/
theorem public_transaction_isolates_transfer :
    let st := Sample.state [(Sample.signer 1, Sample.account (Sample.programId 2) 100),
      (Sample.accountId 9, Sample.account (Sample.programId 2) 5)] [Sample.program 2]
    let tx := Sample.transaction (Sample.programId 2) [Sample.signer 1, Sample.accountId 9]
      (Sample.transferCodec.toVec (.transfer 30)) [1]
    let script : Sample.Script := fun _ _ => .error "no such program"
    let _ := Sample.sha256; let _ := Sample.zkvm script; let _ := Sample.schnorr
    ∃ st', st.transitionFromPublicTransaction tx 0 0 = .ok st' ∧
      (st'.getAccountById (Sample.signer 1)).programOwner =
        (st.getAccountById (Sample.signer 1)).programOwner := by
  intro st tx script _ _ _
  have hok : (st.transitionFromPublicTransaction tx 0 0).isOk = true := by decide +kernel
  obtain ⟨st', h⟩ := exists_of_isOk hok
  have howner : (st.getAccountById (Sample.signer 1)).programOwner ≠ defaultProgramId := by
    decide +kernel
  exact ⟨st', h, ((public_transaction_isolates h (Sample.signer 1)).2.1 howner).1⟩

end ExecutionZone
