import ExecutionZone.Programs.SampleAmm
import ExecutionZone.Programs.TokenSupply
import ExecutionZone.Transaction.Kept

/-!
# Conservation of token supplies

The token program checks the owner of none of its accounts.  Over runs of public transactions
and deployments, the supply of every token is still what its holdings add up to, as long as
each account of the token program is used in one role only: `ρ` is the role in which the token
program creates an account, and each executed call of the token program agrees with it on the
accounts it claims and on those the program already owns.

A call of the token program exchanges what it reads for what it writes, both in the holdings
and in the definitions it owns: accounts of other programs keep their data, and a default
account is empty before.  Other programs change no data of the token program.
-/

namespace ExecutionZone

open CallTree Token

section

variable [BuiltinPrograms] (ρ : AccountId → Role)

/-- A measure of the data of the accounts that the token program owns in a role. -/
def ownedAs (role : Role) (m : AccountId → Data → Nat) (id : AccountId) (a : Account) : Nat :=
  if a.programOwner = BuiltinPrograms.token.id ∧ ρ id = role then m id a.data else 0

/-- The sum of a measure over all holdings. -/
def V03State.heldTotal (m : TokenHolding → Nat) (st : V03State) : Nat :=
  Ledger.totalBy (ownedAs ρ .holding fun _ data => (TokenHolding.tryFrom data).elim 0 m)
    Account.default st.publicState

/-- What the holdings of a token add up to. -/
def heldOf (kind : Kind) (token : AccountId) (accounts : Accounts) : Nat :=
  Ledger.totalBy (ownedAs ρ .holding fun _ => heldIn kind token) Account.default accounts

/-- The supply of a token. -/
def suppliedOf (kind : Kind) (token : AccountId) (accounts : Accounts) : Nat :=
  Ledger.totalBy (ownedAs ρ .definition (suppliedIn kind token)) Account.default accounts

/-! ## One account of a call -/

section

variable {ρ} {role : Role} {m : AccountId → Data → Nat} {pre : AccountWithMetadata}
  {post : AccountPostState} {account : Account}

theorem ownedAs_of_owner_ne {id : AccountId}
    (h : account.programOwner ≠ BuiltinPrograms.token.id) : ownedAs ρ role m id account = 0 :=
  if_neg fun hand => h hand.1

theorem ownedAs_of_owner {id : AccountId} (h : account.programOwner = BuiltinPrograms.token.id) :
    ownedAs ρ role m id account = if ρ id = role then m id account.data else 0 := by
  simp only [ownedAs, h, true_and]

theorem ownedAs_default (hne : BuiltinPrograms.token.id ≠ defaultProgramId) (id : AccountId) :
    ownedAs ρ role m id Account.default = 0 :=
  ownedAs_of_owner_ne hne.symm

variable [Sha256]

/-- The accounts of the token program change with its own calls only. -/
theorem ownedAs_of_foreign (hne : BuiltinPrograms.token.id ≠ defaultProgramId)
    {programId : ProgramId} (hprogram : programId ≠ BuiltinPrograms.token.id)
    (hpair : ValidPair programId pre.account post.account)
    (hgranted : Granted programId pre post account) :
    ownedAs ρ role m pre.accountId account = ownedAs ρ role m pre.accountId pre.account := by
  by_cases hown : pre.account.programOwner = BuiltinPrograms.token.id
  · have hdata := hpair.data_of_foreign (hown ▸ hne) fun h => hprogram (h.symm.trans hown)
    rw [hgranted.owned hpair (hown ▸ hne), ownedAs_of_owner hown,
      ownedAs_of_owner (hpair.owner.trans hown), hdata]
  · rw [ownedAs_of_owner_ne hown]
    cases hgranted with
    | unclaimed _ => exact ownedAs_of_owner_ne fun h => hown (hpair.owner.symm.trans h)
    | claimed _ _ _ => exact ownedAs_of_owner_ne hprogram

/-- In a call of the token program, what the data of an account adds in the role it is used in
is what the account adds. -/
theorem ownedAs_of_used (hne : BuiltinPrograms.token.id ≠ defaultProgramId)
    (hempty : m pre.accountId Account.default.data = 0)
    (hpair : ValidPair BuiltinPrograms.token.id pre.account post.account)
    (hgranted : Granted BuiltinPrograms.token.id pre post account) (hsettled : Token.Settled pre post)
    {used : Option Role} (hkept : used = none → post.account.data = pre.account.data)
    (hused : ∀ r ∈ used, pre.account.programOwner = BuiltinPrograms.token.id ∨ post.claim ≠ none →
      ρ pre.accountId = r) :
    ownedAs ρ role m pre.accountId account +
        (if used = some role then m pre.accountId pre.account.data else 0) =
      ownedAs ρ role m pre.accountId pre.account +
        (if used = some role then m pre.accountId post.account.data else 0) := by
  by_cases hown : pre.account.programOwner = BuiltinPrograms.token.id
  · rw [hgranted.owned hpair (hown ▸ hne), ownedAs_of_owner hown,
      ownedAs_of_owner (hpair.owner.trans hown)]
    cases used with
    | none => rw [hkept rfl]
    | some r =>
        rw [hused r rfl (.inl hown)]
        simp only [Option.some.injEq]
        exact Nat.add_comm _ _
  rw [ownedAs_of_owner_ne hown]
  by_cases hdefault : pre.account = Account.default
  · rw [hdefault, hempty, ite_self, Nat.add_zero, Nat.zero_add]
    cases hgranted with
    | unclaimed hclaim =>
        rcases hsettled hdefault with hclaimed | hdata
        · exact absurd hclaim hclaimed
        · rw [hdata, hdefault, hempty, ite_self]
          exact ownedAs_of_owner_ne fun h => hown (hpair.owner.symm.trans h)
    | claimed hclaim _ _ =>
        rw [ownedAs_of_owner rfl]
        cases used with
        | none =>
            have hdata : post.account.data = Account.default.data := hdefault ▸ hkept rfl
            rw [hdata, hempty, ite_self, ite_self]
        | some r =>
            rw [hused r rfl (.inr (hclaim ▸ Option.some_ne_none _))]
            simp only [Option.some.injEq]
  · have howner : pre.account.programOwner ≠ defaultProgramId := fun h => hdefault (hpair.unowned h)
    rw [hgranted.owned hpair howner, hpair.data_of_foreign howner hown,
      ownedAs_of_owner_ne fun h => hown (hpair.owner.symm.trans h)]

end

/-! ## One call -/

variable [InstructionCodec Token.Instruction]

/-- The accounts that a call of the token program claims or that the program owns are used in
their roles. -/
def UsesRoles (instructionData : InstructionData) (out : ProgramOutput) : Prop :=
  ∀ instruction ∈ InstructionCodec.deserialize (I := Token.Instruction) instructionData,
    ∀ e ∈ instruction.roles.zip out.zipped, ∀ role ∈ e.1,
      e.2.1.account.programOwner = BuiltinPrograms.token.id ∨ e.2.2.claim ≠ none →
        ρ e.2.1.accountId = role

instance (instructionData : InstructionData) (out : ProgramOutput) :
    Decidable (UsesRoles ρ instructionData out) :=
  inferInstanceAs (Decidable (∀ instruction ∈ InstructionCodec.deserialize instructionData,
    ∀ e ∈ Token.Instruction.roles instruction |>.zip out.zipped, ∀ role ∈ e.1, _ → _))

variable [Sha256] [Zkvm] {ρ} {st st' : V03State} {blockId : BlockId} {timestamp : Timestamp}

/-- **Step.**  A call adds as much to the holdings of a token as to its supply. -/
theorem supply_of_validCall (himpl : BuiltinPrograms.token.Implements Token.main)
    (hne : BuiltinPrograms.token.id ≠ defaultProgramId)
    (hdeployed : st.programs.lookup BuiltinPrograms.token.id = some BuiltinPrograms.token)
    {c : PendingCall} {diff : Accounts} {out : ProgramOutput} {diff' : Accounts}
    (h : ValidCall st blockId timestamp c diff out diff')
    (hroles : c.call.programId = BuiltinPrograms.token.id →
      UsesRoles ρ c.call.instructionData out) (kind : Kind) (token : AccountId) :
    heldOf ρ kind token (Ledger.insertAll st.publicState (Ledger.pairs diff')) +
        suppliedOf ρ kind token (Ledger.insertAll st.publicState (Ledger.pairs diff)) =
      heldOf ρ kind token (Ledger.insertAll st.publicState (Ledger.pairs diff)) +
        suppliedOf ρ kind token (Ledger.insertAll st.publicState (Ledger.pairs diff')) := by
  by_cases hprogram : c.call.programId = BuiltinPrograms.token.id
  · obtain ⟨instruction, hread, hconserves⟩ :=
      conserves_of_main (main_of_executed himpl hdeployed hprogram h.output)
    have hroles := hroles hprogram instruction hread
    have hlen : instruction.roles.length = out.zipped.length := by
      rw [ProgramOutput.zipped, List.length_zip, ← h.valid.length_eq, Nat.min_self,
        hconserves.length]
    have hl : (instruction.roles.zip out.zipped).map Prod.snd = out.zipped :=
      List.map_snd_zip (Nat.le_of_eq hlen.symm)
    have hone : ∀ role m, (∀ id, m id Account.default.data = 0) →
        ∀ e ∈ instruction.roles.zip out.zipped, ∀ account,
          Granted c.call.programId e.2.1 e.2.2 account →
          ownedAs ρ role m e.2.1.accountId account +
              (if e.1 = some role then m e.2.1.accountId e.2.1.account.data else 0) =
            ownedAs ρ role m e.2.1.accountId e.2.1.account +
              (if e.1 = some role then m e.2.1.accountId e.2.2.account.data else 0) := by
      intro role m hempty e he account hgranted
      have hmem : e.2 ∈ out.zipped := (List.of_mem_zip he).2
      have hpair := h.valid.pair e.2 hmem
      rw [hprogram] at hgranted hpair
      exact ownedAs_of_used hne (hempty _) hpair hgranted
        ((List.forall₂_iff_zip.1 hconserves.settled).2 hmem) (hconserves.kept e he) (hroles e he)
    have hheld := h.totalBy (ownedAs_default hne) hl _ _
      (hone .holding (fun _ => heldIn kind token) fun _ => rfl)
    have hsupplied := h.totalBy (ownedAs_default hne) hl _ _
      (hone .definition (suppliedIn kind token) fun _ => rfl)
    have hbalanced := hconserves.balanced kind token
    simp only [heldAs, suppliedAs] at hbalanced
    simp only [heldOf, suppliedOf]
    rw [ProgramOutput.zipped] at hheld hsupplied
    omega
  · have hone : ∀ role m, ∀ p ∈ out.zipped, ∀ account,
        Granted c.call.programId p.1 p.2 account →
        ownedAs ρ role m p.1.accountId account + 0 =
          ownedAs ρ role m p.1.accountId p.1.account + 0 :=
      fun role m p hp account hgranted =>
        ownedAs_of_foreign hne hprogram (h.valid.pair p hp) hgranted
    have hheld := h.totalBy (ownedAs_default hne) (List.map_id out.zipped) _ _
      (hone .holding fun _ => heldIn kind token)
    have hsupplied := h.totalBy (ownedAs_default hne) (List.map_id out.zipped) _ _
      (hone .definition (suppliedIn kind token))
    simp only [heldOf, suppliedOf]
    omega

/-! ## Holdings by kind -/

omit [InstructionCodec Token.Instruction] [Sha256] [Zkvm] in
theorem heldOf_fungible (D : AccountId) :
    heldOf ρ .fungible D st.publicState = st.heldTotal ρ (TokenHolding.balanceOf D) := by
  unfold heldOf V03State.heldTotal
  simp only [funext (heldIn_fungible D)]

omit [InstructionCodec Token.Instruction] [Sha256] [Zkvm] in
theorem heldOf_nonFungible (D : AccountId) :
    heldOf ρ .nonFungible D st.publicState =
      st.heldTotal ρ (TokenHolding.printBalanceOf D) +
        st.heldTotal ρ (TokenHolding.ownedCopyOf D) := by
  unfold heldOf V03State.heldTotal Ledger.totalBy
  rw [← Finset.sum_add_distrib]
  refine Finset.sum_congr rfl fun id _ => ?_
  unfold ownedAs
  split
  · exact heldIn_nonFungible D _
  · rfl

/-! ## Runs -/

theorem supply_of_runs (himpl : BuiltinPrograms.token.Implements Token.main)
    (hne : BuiltinPrograms.token.id ≠ defaultProgramId)
    (hdeployed : st.programs.lookup BuiltinPrograms.token.id = some BuiltinPrograms.token)
    {q : List (PendingCall × List (PendingCall × ProgramOutput))} {diff : Accounts}
    {calls : List (Executed PendingCall ProgramOutput)} {diff' : Accounts}
    (h : (publicMachine st blockId timestamp).Runs q diff calls diff')
    (hroles : ∀ e ∈ calls, e.call.call.programId = BuiltinPrograms.token.id →
      UsesRoles ρ e.call.call.instructionData e.result) {kind : Kind} {token : AccountId}
    (hst : heldOf ρ kind token (Ledger.insertAll st.publicState (Ledger.pairs diff)) =
      suppliedOf ρ kind token (Ledger.insertAll st.publicState (Ledger.pairs diff))) :
    heldOf ρ kind token (Ledger.insertAll st.publicState (Ledger.pairs diff')) =
      suppliedOf ρ kind token (Ledger.insertAll st.publicState (Ledger.pairs diff')) := by
  induction h with
  | nil diff => exact hst
  | @cons c anc q diff out diff₁ calls diff' hstep _ ih =>
      refine ih (fun e he => hroles e (List.mem_cons_of_mem _ he)) ?_
      have hcall := supply_of_validCall himpl hne hdeployed (validCall_of_executeCall hstep)
        (hroles _ List.mem_cons_self) kind token
      omega

omit [InstructionCodec Token.Instruction] [Zkvm] in
/-- Nonces do not count. -/
theorem supply_of_applyStateDiff (hne : BuiltinPrograms.token.id ≠ defaultProgramId)
    {diff : StateDiff} (h : st.applyStateDiff diff = .ok st') (kind : Kind) (token : AccountId) :
    heldOf ρ kind token st'.publicState =
        heldOf ρ kind token (Ledger.insertAll st.publicState (Ledger.pairs diff.publicDiff)) ∧
      suppliedOf ρ kind token st'.publicState =
        suppliedOf ρ kind token
          (Ledger.insertAll st.publicState (Ledger.pairs diff.publicDiff)) :=
  ⟨V03State.totalBy_applyStateDiff h (ownedAs_default hne) fun _ _ _ => rfl,
    V03State.totalBy_applyStateDiff h (ownedAs_default hne) fun _ _ _ => rfl⟩

variable [Schnorr]

variable (ρ) in
/-- A deployment, or a public transaction in which the token program uses its accounts in their
roles. -/
def Event.UsesRoles (st : V03State) (e : Event) : Prop :=
  match e.tx with
  | .publicTx tx => ∀ c ∈ executedCalls tx st e.blockId e.timestamp,
      c.call.call.programId = BuiltinPrograms.token.id →
        ExecutionZone.UsesRoles ρ c.call.call.instructionData c.result
  | .privacyPreserving _ => False
  | .programDeployment _ => True

omit [Schnorr] in
instance (st : V03State) : (e : Event) → Decidable (e.UsesRoles ρ st)
  | ⟨.publicTx tx, blockId, timestamp⟩ =>
      inferInstanceAs (Decidable (∀ c ∈ executedCalls tx st blockId timestamp, _ → _))
  | ⟨.privacyPreserving _, _, _⟩ => inferInstanceAs (Decidable False)
  | ⟨.programDeployment _, _, _⟩ => inferInstanceAs (Decidable True)

variable (ρ) in
/-- The token program is deployed, and every token has the supply that its holdings add up to. -/
structure SupplyHeld (st : V03State) : Prop where
  deployed : BuiltinsDeployed st
  held : ∀ kind token, heldOf ρ kind token st.publicState = suppliedOf ρ kind token st.publicState

theorem SupplyHeld.step (himpl : BuiltinPrograms.token.Implements Token.main)
    (hids : DistinctBuiltins) (hst : SupplyHeld ρ st) {e : Event} (h : Accepted st e st')
    (hroles : e.UsesRoles ρ st) : SupplyHeld ρ st' := by
  refine ⟨hst.deployed.step h, fun kind token => ?_⟩
  have htoken : BuiltinPrograms.token ∈ builtinPrograms := by simp [builtinPrograms]
  have hne := hids.ne_default _ htoken
  obtain ⟨tx, blockId, timestamp⟩ := e
  cases tx with
  | publicTx tx =>
      obtain ⟨diff, hdiff, happly⟩ := bind_eq_ok.1 (show _ = _ from h)
      obtain ⟨_, hruns, _⟩ := runs_of_fromPublicTransaction hdiff
      obtain ⟨hheld, hsupplied⟩ :=
        supply_of_applyStateDiff (ρ := ρ) hne (mapError_eq_ok.1 happly) kind token
      rw [hheld, hsupplied]
      exact supply_of_runs himpl hne (hst.deployed _ htoken) hruns hroles (hst.held kind token)
  | privacyPreserving tx => exact hroles.elim
  | programDeployment tx =>
      obtain ⟨program, _, _, _, happly⟩ := deployed_of_transition (show _ = _ from h)
      obtain ⟨hheld, hsupplied⟩ := supply_of_applyStateDiff (ρ := ρ) hne happly kind token
      rw [hheld, hsupplied]
      exact hst.held kind token

omit [InstructionCodec Token.Instruction] [Zkvm] [Schnorr] in
/-- At genesis there are no tokens. -/
theorem supplyHeld_genesis (hids : DistinctBuiltins) {initialData : List (AccountId × U128)}
    {notes : List (Commitment × Nullifier)} {genesisTimestamp : Timestamp}
    (h : V03State.newWithGenesisAccounts initialData notes genesisTimestamp = .ok st) :
    SupplyHeld ρ st := by
  have hnodup := hids.nodup
  have hdefault := hids.ne_default
  simp only [builtinPrograms, List.map_cons, List.map_nil, List.nodup_cons, List.mem_cons,
    not_or] at hnodup hdefault
  have howner : ∀ id, (st.getAccountById id).programOwner ≠ BuiltinPrograms.token.id :=
    genesis_forall (P := fun a => a.programOwner ≠ BuiltinPrograms.token.id)
      (hdefault _ (by simp)).symm hnodup.2.1.1 (fun _ => hnodup.2.1.1) hnodup.1.2.1 h
  have hzero : ∀ role m,
      Ledger.totalBy (ownedAs ρ role m) Account.default st.publicState = 0 := by
    intro role m
    exact Finset.sum_eq_zero fun id _ => ownedAs_of_owner_ne (howner id)
  exact ⟨builtinsDeployed_genesis hids h, fun kind token => (hzero _ _).trans (hzero _ _).symm⟩

omit [InstructionCodec Token.Instruction] [Zkvm] [Schnorr] [Sha256] in
/-- The supply of a token stands in its definition. -/
theorem suppliedOf_eq {D : AccountId} {d : TokenDefinition}
    (hne : BuiltinPrograms.token.id ≠ defaultProgramId)
    (howner : (st.getAccountById D).programOwner = BuiltinPrograms.token.id)
    (hρ : ρ D = .definition) (hread : TokenDefinition.tryFrom (st.getAccountById D).data = some d) :
    suppliedOf ρ d.kind D st.publicState = d.supply := by
  have hsingle := Ledger.totalBy_single (f := ownedAs ρ .definition (suppliedIn d.kind D))
    (ownedAs_default hne) st.publicState (k := D) fun id a hid => by
      rw [ownedAs, suppliedIn_of_ne _ _ hid, ite_self]
  have hget : Ledger.get Account.default st.publicState D = st.getAccountById D := rfl
  rw [suppliedOf, hsingle, hget, ownedAs_of_owner howner, if_pos hρ,
    suppliedIn_of_tryFrom _ _ hread, TokenDefinition.supplyOf, if_pos ⟨rfl, rfl⟩]

/-- **Conservation of token supplies.**  In every state reached from genesis by deployments and
public transactions in which the token program uses its accounts in the roles it creates them
in, a fungible definition has the total supply that the balances of its holdings add up to, and
a non-fungible one the printable supply that the print balances of its master holdings and its
owned printed copies add up to. -/
theorem token_supply_conserved (himpl : BuiltinPrograms.token.Implements Token.main)
    (hids : DistinctBuiltins) {initialData : List (AccountId × U128)}
    {notes : List (Commitment × Nullifier)} {genesisTimestamp : Timestamp} {st₀ : V03State}
    (hgenesis : V03State.newWithGenesisAccounts initialData notes genesisTimestamp = .ok st₀)
    {events : List Event}
    (hrun : Run (fun st e st' => Accepted st e st' ∧ e.UsesRoles ρ st) st₀ events st)
    {D : AccountId} (howner : (st.getAccountById D).programOwner = BuiltinPrograms.token.id)
    (hρ : ρ D = .definition) :
    (∀ name totalSupply metadataId authority,
      TokenDefinition.tryFrom (st.getAccountById D).data =
        some (.fungible name totalSupply metadataId authority) →
      totalSupply.toNat = st.heldTotal ρ (TokenHolding.balanceOf D)) ∧
    ∀ name printableSupply metadataId,
      TokenDefinition.tryFrom (st.getAccountById D).data =
        some (.nonFungible name printableSupply metadataId) →
      printableSupply.toNat = st.heldTotal ρ (TokenHolding.printBalanceOf D) +
        st.heldTotal ρ (TokenHolding.ownedCopyOf D) := by
  have hinv := hrun.invariant (supplyHeld_genesis (ρ := ρ) hids hgenesis)
    fun _ _ _ hst h => hst.step himpl hids h.1 h.2
  have hne := hids.ne_default BuiltinPrograms.token (by simp [builtinPrograms])
  constructor
  · intro name totalSupply metadataId authority hread
    have hheld := hinv.held .fungible D
    have hsupplied := suppliedOf_eq hne howner hρ hread
    rw [← heldOf_fungible, hheld]
    exact hsupplied.symm
  · intro name printableSupply metadataId hread
    have hheld := hinv.held .nonFungible D
    have hsupplied := suppliedOf_eq hne howner hρ hread
    rw [← heldOf_nonFungible, hheld]
    exact hsupplied.symm

end

/-! ## A run with a new token -/

namespace NewToken

def script : Sample.Script := Sample.tokenScript fun _ _ => .error "no such program"

def ρ (id : AccountId) : Role := if id = Sample.signer 1 then .definition else .holding

def genesis : V03State :=
  let _ := Sample.sha256; let _ := Sample.builtins
  valueD (Sample.state [] []) (V03State.newWithGenesisAccounts [] [] 0)

def name : Text := ⟨"", by decide⟩

/-- The signer `1` becomes the definition of a token, the signer `2` holds all of it. -/
def define : Event :=
  ⟨.publicTx (Sample.transaction (Sample.programId 3) [Sample.signer 1, Sample.signer 2]
    (Sample.tokenCodec.toVec (.newFungibleDefinition name 100)) [1, 2]), 0, 0⟩

/-- Then 30 of it go to the signer `3`. -/
def move : Event :=
  let tx := Sample.transaction (Sample.programId 3) [Sample.signer 2, Sample.signer 3]
    (Sample.tokenCodec.toVec (.transfer 30)) [2, 3]
  ⟨.publicTx { tx with message := { tx.message with nonces := [⟨1⟩, ⟨0⟩] } }, 1, 0⟩

def defined : V03State :=
  let _ := Sample.sha256; let _ := Sample.zkvm script; let _ := Sample.schnorr
  valueD genesis (genesis.transition define)

def final : V03State :=
  let _ := Sample.sha256; let _ := Sample.zkvm script; let _ := Sample.schnorr
  valueD genesis (defined.transition move)

theorem genesis_eq :
    let _ := Sample.sha256; let _ := Sample.builtins
    V03State.newWithGenesisAccounts [] [] 0 = .ok genesis := by
  intro _ _
  exact eq_ok_valueD (Sample.state [] []) (by decide +kernel)

theorem implements :
    let _ := Sample.zkvm script; let _ := Sample.builtins; let _ := Sample.tokenCodec
    BuiltinPrograms.token.Implements Token.main := by
  intro _ _ _
  exact ⟨fun _ _ h => h, fun out h => ⟨Sample.echoed out, of_decide_eq_true h⟩⟩

/-- The token after both transactions, which are accepted. -/
theorem evaluated :
    let _ := Sample.sha256; let _ := Sample.zkvm script; let _ := Sample.schnorr
    let _ := Sample.builtins; let _ := Sample.tokenCodec
    ((genesis.transition define).isOk = true ∧ (defined.transition move).isOk = true ∧
      define.UsesRoles ρ genesis ∧ move.UsesRoles ρ defined) ∧
    (final.getAccountById (Sample.signer 1)).programOwner = BuiltinPrograms.token.id ∧
      ρ (Sample.signer 1) = .definition ∧
      TokenHolding.tryFrom (final.getAccountById (Sample.signer 3)).data =
        some (.fungible (Sample.signer 1) 30) ∧
      TokenDefinition.tryFrom (final.getAccountById (Sample.signer 1)).data =
        some (.fungible name 100 none .renounced) := by
  decide +kernel

theorem run :
    let _ := Sample.sha256; let _ := Sample.zkvm script; let _ := Sample.schnorr
    let _ := Sample.builtins; let _ := Sample.tokenCodec
    Run (fun st e st' => Accepted st e st' ∧ e.UsesRoles ρ st) genesis [define, move] final := by
  intro _ _ _ _ _
  obtain ⟨⟨hdefine, hmove, hroles, hroles'⟩, _⟩ := evaluated
  exact .snoc (l := [define]) (s := defined) (.snoc .nil ⟨eq_ok_valueD genesis hdefine, hroles⟩)
    ⟨eq_ok_valueD genesis hmove, hroles'⟩

end NewToken

/-- After a transfer, the two holdings of a new token add up to its supply. -/
theorem token_supply_conserved_new_token :
    let _ := Sample.sha256; let _ := Sample.zkvm NewToken.script; let _ := Sample.schnorr
    let _ := Sample.builtins; let _ := Sample.tokenCodec
    TokenHolding.tryFrom (NewToken.final.getAccountById (Sample.signer 3)).data =
        some (.fungible (Sample.signer 1) 30) ∧
      100 = NewToken.final.heldTotal NewToken.ρ (TokenHolding.balanceOf (Sample.signer 1)) := by
  intro _ _ _ _ _
  obtain ⟨_, howner, hrole, hheld, hread⟩ := NewToken.evaluated
  have hsupply := token_supply_conserved NewToken.implements Sample.distinctBuiltins
    NewToken.genesis_eq NewToken.run howner hrole
  exact ⟨hheld, hsupply.1 NewToken.name 100 none .renounced hread⟩

end ExecutionZone
