import ExecutionZone.Programs.Sample
import ExecutionZone.Transaction.PublicPath

/-!
# Where authority comes from on the public path

An account may be marked as authorised in an executed output if it signed the
transaction, or if it is a PDA of a program on the path to the call, under a seed this
program listed in the call it issued on that path: `Entitled`.

What the loop checks is weaker.  A call inherits the marks of its caller's *request*,
which the caller's caller wrote, while the checks look at outputs.  A program can
therefore be handed a mark nobody is entitled to, leave the account out of its own
output, and pass the mark on.  `marks_entitled_iff` says that this is the only way an
output marks an account without entitlement, and `forged_mark_is_accepted` is a
transaction without a signature that empties an account this way.
-/

namespace ExecutionZone

open CallTree

section

variable [Sha256]

/-- The accounts a call with the given path may mark as authorised: signers, and PDAs of
the callers on the path under the seeds of the calls they issued on it. -/
def Entitled (signers : List AccountId) :
    PendingCall → List (PendingCall × ProgramOutput) → AccountId → Prop
  | _, [], id => id ∈ signers
  | c, (p, _) :: anc, id =>
      (∃ seed ∈ c.call.pdaSeeds, AccountId.forPublicPda p.call.programId seed = id) ∨
        Entitled signers p anc id

instance Entitled.decidable (signers : List AccountId) :
    (c : PendingCall) → (anc : List (PendingCall × ProgramOutput)) → (id : AccountId) →
      Decidable (Entitled signers c anc id)
  | _, [], id => inferInstanceAs (Decidable (id ∈ signers))
  | _, (p, _) :: anc, id =>
      have := Entitled.decidable signers p anc id
      inferInstanceAs (Decidable (_ ∨ Entitled signers p anc id))

variable [Zkvm]

/-- Every account an executed output marks as authorised is entitled to it. -/
def MarksEntitled (tx : PublicTransaction) (st : V03State) (blockId : BlockId)
    (timestamp : Timestamp) : Prop :=
  ∀ e ∈ executedCalls tx st blockId timestamp, ∀ id ∈ authorizedIds e.result.preStates,
    Entitled tx.signerAccountIds e.call e.ancestors id

instance (tx : PublicTransaction) (st : V03State) (blockId : BlockId) (timestamp : Timestamp) :
    Decidable (MarksEntitled tx st blockId timestamp) :=
  inferInstanceAs (Decidable (∀ e ∈ _, ∀ id ∈ _, Entitled _ _ _ _))

/-! ## The calls the deployed programs request -/

/-- The calls that the deployed programs, run on what they are handed, request from the
transaction's own call on: each with its path and what its program returns.  None of the
checks of the validation plays a role here. -/
inductive Requested (tx : PublicTransaction) (st : V03State) :
    PendingCall → List (PendingCall × ProgramOutput) → ProgramOutput → Prop
  | root {out : ProgramOutput} : (tx.initialCall st).output st = .ok out →
      Requested tx st (tx.initialCall st) [] out
  | child {p c : PendingCall} {anc : List (PendingCall × ProgramOutput)}
      {out out' : ProgramOutput} : Requested tx st p anc out → c ∈ chainCalls p out →
      c.output st = .ok out' → Requested tx st c ((p, out) :: anc) out'

/-- No mark of `id` in the request of a call is repeated by a call it chains unless `id` is
entitled to it, or is a PDA of the caller under the seeds of the chained call. -/
def NoForgedMarkOn (tx : PublicTransaction) (st : V03State) (id : AccountId) : Prop :=
  ∀ p anc out, Requested tx st p anc out → ∀ c ∈ chainCalls p out, ∀ out',
    c.output st = .ok out' → id ∈ authorizedIds out'.preStates →
    id ∈ authorizedIds p.call.preStates →
    (∀ seed ∈ c.call.pdaSeeds, AccountId.forPublicPda p.call.programId seed ≠ id) →
    Entitled tx.signerAccountIds p anc id

/-- No mark is forged, on any account. -/
def NoForgedMark (tx : PublicTransaction) (st : V03State) : Prop :=
  ∀ id, NoForgedMarkOn tx st id

variable {tx : PublicTransaction} {st : V03State} {blockId : BlockId} {timestamp : Timestamp}

theorem output_of_runs {q : List (PendingCall × List (PendingCall × ProgramOutput))}
    {diff : Accounts} {calls : List (Executed PendingCall ProgramOutput)} {diff' : Accounts}
    (h : (publicMachine st blockId timestamp).Runs q diff calls diff') :
    ∀ e ∈ calls, e.call.output st = .ok e.result ∧
      ∀ id ∈ authorizedIds e.result.preStates, e.call.mayAuthorize id := by
  intro e he
  obtain ⟨_, _, hstep⟩ := h.step_of_mem e he
  have hvalid := validCall_of_executeCall hstep
  refine ⟨hvalid.output, fun id hid => ?_⟩
  obtain ⟨pre, hpre, hauth, rfl⟩ := mem_authorizedIds.1 hid
  exact hvalid.authorized pre hpre hauth

/-- The executed calls of a run are requested calls. -/
theorem requested_of_runs {diff : Accounts} {calls : List (Executed PendingCall ProgramOutput)}
    {diff' : Accounts}
    (h : (publicMachine st blockId timestamp).Runs [(tx.initialCall st, [])] diff calls diff') :
    ∀ e ∈ calls, Requested tx st e.call e.ancestors e.result := by
  have hinv := h.invariant (I := fun _ => True)
    (J := fun c anc => ∀ out, c.output st = .ok out → Requested tx st c anc out)
    (P := fun e => Requested tx st e.call e.ancestors e.result) ?_ trivial ?_
  · exact hinv.2
  · intro c anc diff out diff' _ hJ hstep
    have hreq := hJ out (validCall_of_executeCall hstep).output
    exact ⟨trivial, fun c' hc' out' hout' => .child hreq hc' hout', hreq⟩
  · intro p hp
    rw [List.mem_singleton] at hp
    subst hp
    exact fun out hout => .root hout

/-- In a run to the end, every requested call is executed. -/
theorem executed_of_requested {diff : Accounts}
    {calls : List (Executed PendingCall ProgramOutput)} {diff' : Accounts}
    (h : (publicMachine st blockId timestamp).Runs [(tx.initialCall st, [])] diff calls diff')
    {c : PendingCall} {anc : List (PendingCall × ProgramOutput)} {out : ProgramOutput}
    (hreq : Requested tx st c anc out) : ⟨c, anc, out⟩ ∈ calls := by
  induction hreq with
  | root hout =>
      obtain ⟨r, hr⟩ := h.executed_of_pending _ List.mem_cons_self
      have hout' := (output_of_runs h _ hr).1
      rw [hout] at hout'
      cases hout'
      exact hr
  | @child p c anc out out' _ hc hout ih =>
      obtain ⟨r, hr⟩ := h.executed_of_children _ ih c hc
      have hout' := (output_of_runs h _ hr).1
      rw [hout] at hout'
      cases hout'
      exact hr

/-- A requested call that may mark an account is entitled to, or its caller was handed
the mark. -/
theorem Requested.entitled_or_handed {c : PendingCall}
    {anc : List (PendingCall × ProgramOutput)} {out : ProgramOutput}
    (hreq : Requested tx st c anc out) {id : AccountId} (hid : c.mayAuthorize id) :
    Entitled tx.signerAccountIds c anc id ∨
      ∃ p pout anc', anc = (p, pout) :: anc' ∧ Requested tx st p anc' pout ∧
        c ∈ chainCalls p pout ∧ id ∈ authorizedIds p.call.preStates := by
  cases hreq with
  | root hout =>
      rcases hid with hpda | hcaller
      · obtain ⟨p, hp, _⟩ := mem_computePublicAuthorizedPdas.1 hpda
        cases hp
      · exact .inl (List.mem_toFinset.1 hcaller)
  | @child p _ anc' pout _ hp hc hout =>
      obtain ⟨call, _, rfl⟩ := List.mem_map.1 hc
      rcases hid with hpda | hcaller
      · obtain ⟨q, hq, seed, hseed, heq⟩ := mem_computePublicAuthorizedPdas.1 hpda
        cases hq
        exact .inl (.inl ⟨seed, hseed, heq⟩)
      · exact .inr ⟨p, pout, anc', rfl, hp, hc, List.mem_toFinset.1 hcaller⟩

/-- Where no mark of `id` is forged, every executed output that marks it is entitled to. -/
theorem entitled_of_runs {diff : Accounts} {calls : List (Executed PendingCall ProgramOutput)}
    {diff' : Accounts}
    (h : (publicMachine st blockId timestamp).Runs [(tx.initialCall st, [])] diff calls diff')
    {id : AccountId} (hforged : NoForgedMarkOn tx st id)
    {e : Executed PendingCall ProgramOutput} (he : e ∈ calls)
    (hid : id ∈ authorizedIds e.result.preStates) :
    Entitled tx.signerAccountIds e.call e.ancestors id := by
  obtain ⟨hout, hauth⟩ := output_of_runs h e he
  have hreq := requested_of_runs h e he
  rcases hreq.entitled_or_handed (hauth id hid) with hent | ⟨p, pout, anc, heq, hp, hc, hmark⟩
  · exact hent
  · rw [heq]
    by_cases hpda : ∃ seed ∈ e.call.call.pdaSeeds,
        AccountId.forPublicPda p.call.programId seed = id
    · exact .inl hpda
    · refine .inr (hforged p anc pout hp _ hc _ hout hid hmark ?_)
      exact fun seed hseed heq => hpda ⟨seed, hseed, heq⟩

/-- Where every executed output that marks `id` is entitled to, no mark of it is forged. -/
theorem noForgedMarkOn_of_runs {diff : Accounts}
    {calls : List (Executed PendingCall ProgramOutput)} {diff' : Accounts}
    (h : (publicMachine st blockId timestamp).Runs [(tx.initialCall st, [])] diff calls diff')
    {id : AccountId} (hmarks : ∀ e ∈ calls, id ∈ authorizedIds e.result.preStates →
      Entitled tx.signerAccountIds e.call e.ancestors id) : NoForgedMarkOn tx st id := by
  intro p anc out hp c hc out' hout' hid _ hseeds
  have hexec := executed_of_requested h (.child hp hc hout')
  rcases hmarks _ hexec hid with ⟨seed, hseed, heq⟩ | hent
  · exact absurd heq (hseeds seed hseed)
  · exact hent

/-- **Provenance of authority.**  For an accepted transaction, every account marked as
authorised in an executed output is entitled to it exactly when no requested call repeats
a mark that its caller was handed without entitlement. -/
theorem marks_entitled_iff [Schnorr] {diff : StateDiff}
    (h : fromPublicTransaction tx st blockId timestamp = .ok diff) :
    MarksEntitled tx st blockId timestamp ↔ NoForgedMark tx st := by
  obtain ⟨_, hruns, _⟩ := runs_of_fromPublicTransaction h
  constructor
  · exact fun hmarks id => noForgedMarkOn_of_runs hruns fun e he hid => hmarks e he id hid
  · exact fun hforged e he id hid => entitled_of_runs hruns (hforged id) he hid

/-- **Grantors.**  What is entitled without having signed was granted: an executed call `p`
issued a call `c` with a seed of the account, and `c` is the entitled call itself or chains
further calls. -/
theorem grantor_of_entitled {diff : Accounts}
    {calls : List (Executed PendingCall ProgramOutput)} {diff' : Accounts}
    (h : (publicMachine st blockId timestamp).Runs [(tx.initialCall st, [])] diff calls diff')
    {id : AccountId} (hid : id ∉ tx.signerAccountIds)
    {e : Executed PendingCall ProgramOutput} (he : e ∈ calls)
    (hent : Entitled tx.signerAccountIds e.call e.ancestors id) :
    ∃ p ∈ calls, ∃ c ∈ calls, c.call ∈ chainCalls p.call p.result ∧
      (∃ seed ∈ c.call.call.pdaSeeds, AccountId.forPublicPda p.call.call.programId seed = id) ∧
      (c = e ∨ c.result.chainedCalls ≠ []) := by
  -- up the path, from the entitled call to the one that was granted the seed
  induction hn : e.ancestors.length generalizing e with
  | zero =>
      rw [List.length_eq_zero_iff.1 hn] at hent
      exact absurd hent hid
  | succ n ih =>
      rcases h.mem_issued e he with hroot | ⟨p, hp, hanc, hchild⟩
      · rw [List.mem_singleton, Prod.mk.injEq] at hroot
        rw [hroot.2] at hn
        cases hn
      · rw [hanc] at hent hn
        rcases hent with hseed | hent
        · exact ⟨p, hp, e, he, hchild, hseed, .inl rfl⟩
        · obtain ⟨p', hp', c, hc, hissued, hseed, hlast⟩ :=
            ih hp hent (Nat.succ.inj (by simpa using hn))
          refine ⟨p', hp', c, hc, hissued, hseed, .inr ?_⟩
          rcases hlast with rfl | hlast
          · intro hnil
            have hnone : chainCalls c.call c.result = [] := by rw [chainCalls, hnil, List.map_nil]
            exact absurd (hnone ▸ hchild : e.call ∈ []) List.not_mem_nil
          · exact hlast

end

/-! ## A forged mark -/

namespace ForgedMark

/-- Program `10` hands its accounts on to program `11`, all marked as authorised; program
`11` hands what it gets on to the transfer program.  Neither lists an account itself. -/
def script : Sample.Script
  | 10, input => .ok (ProgramOutput.new input.selfProgramId input.callerProgramId
      input.instructionData [] [] |>.withChainedCalls
        [⟨Sample.programId 11, input.preStates.map Vault.authorize, input.instructionData, []⟩])
  | 11, input => .ok (ProgramOutput.new input.selfProgramId input.callerProgramId
      input.instructionData [] [] |>.withChainedCalls
        [⟨Sample.programId 2, input.preStates, input.instructionData, []⟩])
  | _, _ => .error "no such program"

def victim : AccountId := Sample.accountId 9

def attacker : AccountId := Sample.accountId 8

def st : V03State :=
  Sample.state [(victim, Sample.account (Sample.programId 2) 100),
    (attacker, Sample.account (Sample.programId 2) 0)]
    [Sample.program 2, Sample.program 10, Sample.program 11]

/-- Nobody signs. -/
def tx : PublicTransaction :=
  Sample.transaction (Sample.programId 10) [victim, attacker]
    (Sample.transferCodec.toVec (.transfer 100)) []

end ForgedMark

/-- A transaction without signatures is accepted and moves the whole balance of an account
that no executed program is entitled to mark. -/
theorem forged_mark_is_accepted :
    let _ := Sample.sha256; let _ := Sample.zkvm ForgedMark.script; let _ := Sample.schnorr
    ForgedMark.tx.signaturesAndPublicKeys = [] ∧
    (∃ st', ForgedMark.st.transitionFromPublicTransaction ForgedMark.tx 0 0 = .ok st' ∧
      (ForgedMark.st.getAccountById ForgedMark.victim).balance = 100 ∧
      (st'.getAccountById ForgedMark.victim).balance = 0) ∧
    ¬MarksEntitled ForgedMark.tx ForgedMark.st 0 0 := by
  intro _ _ _
  refine ⟨rfl, ?_, by decide +kernel⟩
  have hbalance : (ForgedMark.st.transitionFromPublicTransaction ForgedMark.tx 0 0).map
      (fun st' => (st'.getAccountById ForgedMark.victim).balance) = .ok 0 := by decide +kernel
  cases hst : ForgedMark.st.transitionFromPublicTransaction ForgedMark.tx 0 0 with
  | error e => rw [hst] at hbalance; cases hbalance
  | ok st' =>
      rw [hst] at hbalance
      exact ⟨st', rfl, by decide +kernel, Except.ok.inj hbalance⟩

/-- The signed transfer has no forged mark, and its marks are entitled. -/
theorem marks_entitled_iff_transfer :
    let st := Sample.state [(Sample.signer 1, Sample.account (Sample.programId 2) 100),
      (Sample.accountId 9, Sample.account (Sample.programId 2) 5)] [Sample.program 2]
    let tx := Sample.transaction (Sample.programId 2) [Sample.signer 1, Sample.accountId 9]
      (Sample.transferCodec.toVec (.transfer 30)) [1]
    let _ := Sample.sha256; let _ := Sample.zkvm ForgedMark.script; let _ := Sample.schnorr
    (fromPublicTransaction tx st 0 0).isOk = true ∧ MarksEntitled tx st 0 0 ∧
      NoForgedMark tx st := by
  intro st tx _ _ _
  have hok : (fromPublicTransaction tx st 0 0).isOk = true := by decide +kernel
  obtain ⟨diff, h⟩ := exists_of_isOk hok
  have hmarks : MarksEntitled tx st 0 0 := by decide +kernel
  exact ⟨hok, hmarks, (marks_entitled_iff h).1 hmarks⟩

end ExecutionZone
