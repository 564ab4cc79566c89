import ExecutionZone.Circuit.Binding

/-!
# Authorisation across calls in the circuit

On the public path what a callee may use as authorised depends on its caller.  The circuit
remembers authorisation per account instead: an account is authorised throughout the
transaction exactly if it was marked when an output first listed it, and beyond that only
where a seed of the caller derives it (`mark_iff`).  Neither asks for the direct caller: a
program that was never handed an account can call another one with it
(`undelegated_call_is_accepted`).  `delegation_confined_iff` says that marks are confined to what
direct callers hand on exactly where programs list the authorised accounts they hand on.
-/

namespace ExecutionZone

open CallTree

section

variable [Sha256]

/-- An account that is marked where it is listed first and that an output lists for a chained
call is listed by the output that chained the call, or is a PDA of its program under the seeds
of the call. -/
def HandsOnListed (input : PrivacyPreservingCircuitInput) : Prop :=
  ∀ x ∈ consumptions input.programOutputs, ∀ pre ∈ x.result.preStates,
    MarkedIn (firstListings input.programOutputs) pre.accountId →
      pre.accountId ∈ x.caller.preStates.map (·.accountId) ∨
        DerivedBy input x.caller.selfProgramId x.call.pdaSeeds pre.accountId

instance (input : PrivacyPreservingCircuitInput) : Decidable (HandsOnListed input) :=
  inferInstanceAs (Decidable (∀ x ∈ consumptions input.programOutputs, ∀ pre ∈ x.result.preStates,
    MarkedIn _ _ → _))

variable [Zkvm]

/-- Every mark in an output consumed for a chained call is a mark in the output of its
direct caller, or one on a PDA of that caller under the seeds of the call. -/
def DelegationConfined (input : PrivacyPreservingCircuitInput) : Prop :=
  ∀ e ∈ consumedCalls input, ∀ caller ∈ e.ancestors.head?.map Prod.snd,
    ∀ pre ∈ e.result.preStates, pre.isAuthorized = true →
      MarkedIn caller.preStates pre.accountId ∨
        DerivedBy input caller.selfProgramId e.call.call.pdaSeeds pre.accountId

instance (input : PrivacyPreservingCircuitInput) : Decidable (DelegationConfined input) :=
  inferInstanceAs (Decidable (∀ e ∈ consumedCalls input,
    ∀ caller ∈ e.ancestors.head?.map Prod.snd, ∀ pre ∈ e.result.preStates,
      pre.isAuthorized = true → _))

/-- **Delegation.**  For an accepted input, marks are confined to what direct callers hand on
exactly if every program lists the authorised accounts that the programs it calls list, other
than the PDAs it has seeds for. -/
theorem delegation_confined_iff [ChaCha20] {input : PrivacyPreservingCircuitInput}
    {output : PrivacyPreservingCircuitOutput} (h : circuit input = .ok output) :
    DelegationConfined input ↔ HandsOnListed input := by
  obtain ⟨es, hes, _⟩ := bind_eq_ok.1 h
  constructor
  · intro hconfined x hx pre hpre hfirst
    obtain ⟨before, e, after, caller, hcalls, hcaller, rfl⟩ := (mem_consumptions hes x).1 hx
    have he : e ∈ consumedCalls input := hcalls ▸ List.mem_append_right _ List.mem_cons_self
    have hmark := (mark_iff hes hcalls hpre).2 (.inl hfirst)
    refine (hconfined e he caller hcaller pre hpre hmark).imp_left ?_
    rintro ⟨acc, hacc, hid, _⟩
    exact hid ▸ List.mem_map_of_mem hacc
  · intro hlisted e he caller hcaller pre hpre hmark
    obtain ⟨before, after, hcalls⟩ := List.append_of_mem he
    obtain ⟨p, hp, hresult, hprogram⟩ := issuer_of_ancestors hes he hcaller
    rcases (mark_iff hes hcalls hpre).1 hmark with hfirst | ⟨_, program, hcaller', hderived⟩
    · refine (hlisted _ ((mem_consumptions hes _).2
        ⟨before, e, after, caller, hcalls, hcaller, rfl⟩) pre hpre hfirst).imp_left fun hmem => ?_
      -- where the caller lists the account, it is marked as well
      obtain ⟨acc, hacc, hid⟩ := List.mem_map.1 hmem
      obtain ⟨before', after', hcalls'⟩ := List.append_of_mem hp
      exact ⟨acc, hacc, hid, (mark_iff hes hcalls' (hresult ▸ hacc)).2 (.inl (hid ▸ hfirst))⟩
    · rw [hprogram, Option.mem_some_iff] at hcaller'
      exact .inr (hcaller' ▸ hderived)

end

namespace UndelegatedCall

/-- The owner of the spent account, whose signature authorises it. -/
def payer : AccountWithMetadata :=
  ⟨Sample.account (Sample.programId 2) 100, true, Sample.signer 1⟩

def thief : AccountWithMetadata :=
  ⟨Sample.account (Sample.programId 2) 0, false, Sample.accountId 9⟩

/-- Program `10` calls program `11` without any account; program `11` calls the transfer
program on accounts it was not given. -/
def script : Sample.Script
  | 10, input => .ok (input.output (unchangedPostStates input.preStates)
      [⟨Sample.programId 11, [], [], []⟩])
  | 11, input => .ok (input.output []
      [⟨Sample.programId 2, [payer, thief], Sample.transferCodec.toVec (.transfer 100), []⟩])
  | _, _ => .error "no such program"

def input : PrivacyPreservingCircuitInput :=
  ⟨[Sample.output script 10 none [payer] [],
    Sample.output script 11 (some (Sample.programId 10)) [] [],
    Sample.output script 2 (some (Sample.programId 11)) [payer, thief]
      (Sample.transferCodec.toVec (.transfer 100))],
    [.publicAccount, .publicAccount], Sample.programId 10⟩

end UndelegatedCall

/-- Every output lists what its caller requested, and yet a program that was not handed an
account calls the transfer program with it. -/
theorem undelegated_call_is_accepted :
    let _ := Sample.sha256; let _ := Sample.zkvm UndelegatedCall.script; let _ := Sample.chaCha20
    (circuit UndelegatedCall.input).isOk = true ∧ CallsBound UndelegatedCall.input ∧
      ¬DelegationConfined UndelegatedCall.input := by
  intro _ _ _
  exact ⟨by decide +kernel, by decide +kernel, by decide +kernel⟩

/-- The transfer that its caller asked for is handed the accounts its caller lists. -/
theorem delegation_confined_iff_honest :
    let _ := Sample.sha256; let _ := Sample.zkvm RedirectedTransfer.script
    let _ := Sample.chaCha20
    (circuit RedirectedTransfer.honestInput).isOk = true ∧
      HandsOnListed RedirectedTransfer.honestInput ∧
      DelegationConfined RedirectedTransfer.honestInput := by
  intro _ _ _
  have hok : (circuit RedirectedTransfer.honestInput).isOk = true := by decide +kernel
  obtain ⟨output, h⟩ := exists_of_isOk hok
  have hlisted : HandsOnListed RedirectedTransfer.honestInput := by decide +kernel
  exact ⟨hok, hlisted, (delegation_confined_iff h).2 hlisted⟩

end ExecutionZone
