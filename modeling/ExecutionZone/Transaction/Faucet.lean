import ExecutionZone.Transaction.Kept

/-!
# The system faucet

The faucet account is owned by the transfer program and is a PDA of the faucet program,
which marks it as authorised for whoever calls.  `validate_on_state` refuses a public
transaction whose own call is to the faucet program, and looks at nothing else: a program
that chains the call, or a privacy-preserving transaction, gets through
(`faucet_drained_by_chained_call`).

`faucet_protected` is what the code does guarantee, in every state reached from genesis by
any accepted transactions: a user transaction that does not reach the faucet program and
forges no mark on the faucet account leaves its balance at least as large.
-/

namespace ExecutionZone

open CallTree

section

variable [Sha256] [Zkvm] [BuiltinPrograms]

variable [InstructionCodec AuthenticatedTransfer.Instruction]

omit [Zkvm] [BuiltinPrograms] in
/-- An account of the transfer program that an output does not mark keeps its balance. -/
theorem keeps_of_unmarked {transferProgram : Program}
    (howner : transferProgram.id ≠ defaultProgramId) {programId : ProgramId}
    {out : ProgramOutput} (hvalid : ValidExecution out.preStates out.postStates programId)
    {id : AccountId}
    (hmain : programId = transferProgram.id → ∃ guest, AuthenticatedTransfer.main guest = .ok out)
    (hunmarked : programId = transferProgram.id → id ∉ authorizedIds out.preStates)
    (balance : U128) :
    out.Keeps (fun a => a.programOwner = transferProgram.id ∧ balance ≤ a.balance) id
      programId := by
  rintro p hp hid ⟨hpre, hbalance⟩ account hgranted
  have hpair := hvalid.pair p hp
  rw [hgranted.owned hpair (hpre ▸ howner)]
  refine ⟨hpair.owner.trans hpre, ?_⟩
  by_contra hlt
  have hdebit : p.2.account.balance < p.1.account.balance :=
    Nat.lt_of_lt_of_le (BitVec.not_le.1 hlt) hbalance
  have hprogram : programId = transferProgram.id := (hpair.decrease hdebit).symm.trans hpre
  obtain ⟨guest, hguest⟩ := hmain hprogram
  obtain ⟨hmark, _⟩ := AuthenticatedTransfer.debit_of_main hguest hp hdebit
  exact hunmarked hprogram
    (mem_authorizedIds.2 ⟨p.1, (List.of_mem_zip hp).1, hmark, hid⟩)

/-! ## Transactions that do not reach the faucet -/

variable [ChaCha20]

/-- No call requested in a public transaction is to the faucet program, and no mark on the
faucet account is forged; no input behind a privacy-preserving one has an output of the
faucet program. -/
def NSSATransaction.FaucetUnreached (tx : NSSATransaction) (st : V03State) : Prop :=
  match tx with
  | .publicTx tx =>
      (∀ c anc out, Requested tx st c anc out →
        c.call.programId ≠ BuiltinPrograms.faucet.id) ∧
      NoForgedMarkOn tx st systemFaucetAccountId
  | .privacyPreserving tx => ∀ input, circuit input = .ok (tx.journal st) →
      ∀ out ∈ input.programOutputs, out.selfProgramId ≠ BuiltinPrograms.faucet.id
  | .programDeployment _ => True

variable {S : Set Bytes} {st st' : V03State}

variable [Schnorr]

/-- No output behind a transaction that does not reach the faucet debits its account. -/
theorem keeps_of_faucetUnreached (hS : CollisionFree S)
    (htransfer : BuiltinPrograms.authenticatedTransfer.Implements AuthenticatedTransfer.main)
    (hids : DistinctBuiltins)
    (hfaucet : publicPdaPreimage BuiltinPrograms.faucet.id computeFaucetSeed ∈ S)
    (hdeployed : BuiltinsDeployed st) {e : Event} (h : Accepted st e st')
    (hstrings : ∀ s ∈ e.strings st, s ∈ S) (hunreached : e.tx.FaucetUnreached st)
    (balance : U128) :
    e.Keeps S (fun a => a.programOwner = BuiltinPrograms.authenticatedTransfer.id ∧
      balance ≤ a.balance) systemFaucetAccountId st := by
  have howner := hids.ne_default _ transfer_mem_builtinPrograms
  obtain ⟨tx, blockId, timestamp⟩ := e
  cases tx with
  | publicTx tx =>
      intro c hc
      obtain ⟨hcalls, hforged⟩ := hunreached
      obtain ⟨_, hruns, _⟩ := runs_of_transition (show _ = _ from h)
      refine keeps_of_unmarked howner (valid_of_runs hruns hc) (fun hid => ?_) (fun _ hmark => ?_)
        balance
      · exact ⟨_, main_of_executed htransfer (hdeployed _ transfer_mem_builtinPrograms) hid
          (output_of_runs hruns c hc).1⟩
      · obtain ⟨p, hp, _, _, hgrantor, _⟩ :=
          grantor_of_marked hS hfaucet hruns hstrings hforged hc hmark
        exact hcalls _ _ _ (requested_of_runs hruns p hp) hgrantor
  | privacyPreserving tx =>
      intro input a ha c hc
      obtain ⟨es, hes, _⟩ := emitted_of_circuit ha.circuit
      refine keeps_of_unmarked howner (valid_of_mem_consumedCalls hes hc).1
        (fun hid => main_of_consumed htransfer hes hc hid) (fun _ hmark => ?_) balance
      obtain ⟨_, _, _, hout, hself, _⟩ := issuer_of_marked hS hfaucet ha hstrings hc hmark
      exact hunreached input ha.circuit _ hout hself
  | programDeployment tx => trivial

/-- **Faucet.**  In every state reached from genesis by accepted transactions, a user
transaction that passes `validate_on_state`, does not reach the faucet program and forges no
mark on the faucet account does not lower the balance of that account. -/
theorem faucet_protected (hS : CollisionFree S)
    (htransfer : BuiltinPrograms.authenticatedTransfer.Implements AuthenticatedTransfer.main)
    (hids : DistinctBuiltins)
    (hfaucet : publicPdaPreimage BuiltinPrograms.faucet.id computeFaucetSeed ∈ S)
    (hclock : systemFaucetAccountId ∉ clockProgramAccountIds)
    {initialData : List (AccountId × U128)} {notes : List (Commitment × Nullifier)}
    {genesisTimestamp : Timestamp} {st₀ : V03State} {events : List Event}
    (hgenesis : V03State.newWithGenesisAccounts initialData notes genesisTimestamp = .ok st₀)
    (hrun : Run Accepted st₀ events st) {e : Event}
    (hsound : SoundProofs S (events ++ [e])) (hstrings : ∀ s ∈ e.strings st, s ∈ S)
    (hunreached : e.tx.FaucetUnreached st)
    (h : e.tx.executeCheckOnState st e.blockId e.timestamp = .ok st') :
    (st.getAccountById systemFaucetAccountId).balance ≤
      (st'.getAccountById systemFaucetAccountId).balance := by
  obtain ⟨hsound, hlast⟩ := soundProofs_concat.1 hsound
  have howner : (st.getAccountById systemFaucetAccountId).programOwner =
      BuiltinPrograms.authenticatedTransfer.id := by
    refine hrun.invariant_of_mem (I := fun st =>
      (st.getAccountById systemFaucetAccountId).programOwner =
        BuiltinPrograms.authenticatedTransfer.id) ?_ fun a hmem s s' hs ha => ?_
    · rw [faucet_genesis hclock hgenesis]
      rfl
    · exact owner_of_accepted (hsound a hmem) ha (hids.ne_default _ transfer_mem_builtinPrograms) hs
  have hdeployed := builtinsDeployed_of_run hids hgenesis hrun
  have haccepted := accepted_of_executeCheckOnState h
  exact (kept_of_accepted hlast haccepted (fun _ _ ha => ha)
    (keeps_of_faucetUnreached hS htransfer hids hfaucet hdeployed haccepted hstrings hunreached _)
    ⟨howner, BitVec.le_refl _⟩).2

end

/-! ## Reaching the faucet -/

namespace FaucetDrain

/-- Program `10` hands its accounts and its instruction on to the faucet program. -/
def script : Sample.Script
  | 10, input => .ok (input.output (unchangedPostStates input.preStates)
      [⟨Sample.programId 7, input.preStates, input.instructionData, []⟩])
  | _, _ => .error "no such program"

def faucet : AccountId :=
  let _ := Sample.sha256; let _ := Sample.builtins
  systemFaucetAccountId

def thief : AccountId := Sample.accountId 9

def vault : AccountId :=
  let _ := Sample.sha256
  computeVaultAccountId (Sample.programId 6) thief

def initialData : List (AccountId × U128) := [(Sample.signer 1, 100), (Sample.accountId 8, 5)]

def genesis : V03State :=
  let _ := Sample.sha256; let _ := Sample.builtins
  valueD (Sample.state [] [])
    (V03State.newWithGenesisAccounts initialData [] 0)

def deployment : Event := ⟨.programDeployment ⟨[10]⟩, 0, 0⟩

def deployed : V03State :=
  let _ := Sample.sha256; let _ := Sample.zkvm script; let _ := Sample.schnorr
  valueD genesis (genesis.transition deployment)

/-- Nobody signs; the faucet program is asked to move a million to the vault of the thief. -/
def drain : NSSATransaction :=
  .publicTx (Sample.transaction (Sample.programId 10) [faucet, vault]
    (Sample.faucetCodec.toVec ⟨Sample.programId 6, thief, 1000000⟩) [])

/-- A signed transfer. -/
def transfer : PublicTransaction :=
  Sample.transaction (Sample.programId 2) [Sample.signer 1, Sample.accountId 8]
    (Sample.transferCodec.toVec (.transfer 30)) [1]

def strings : List Bytes :=
  let _ := Sample.sha256; let _ := Sample.zkvm script; let _ := Sample.builtins
  publicPdaPreimage BuiltinPrograms.faucet.id computeFaucetSeed ::
    Event.strings deployed ⟨.publicTx transfer, 0, 0⟩

/-- The deployment and the transfer are accepted, and the transfer is none of the faucet's. -/
theorem evaluated :
    let _ := Sample.sha256; let _ := Sample.zkvm script; let _ := Sample.schnorr
    let _ := Sample.builtins
    (genesis.transition deployment).isOk = true ∧
    ((fromPublicTransaction transfer deployed 0 0).isOk = true ∧
      ((NSSATransaction.publicTx transfer).executeCheckOnState deployed 0 0).isOk = true ∧
      ∀ c ∈ executedCalls transfer deployed 0 0,
        c.call.call.programId ≠ BuiltinPrograms.faucet.id ∧
          systemFaucetAccountId ∉ authorizedIds c.result.preStates) ∧
    systemFaucetAccountId ∉ clockProgramAccountIds ∧
    (strings.dedup.map sha256).Nodup ∧ Bytes32.zero ∉ strings.dedup.map sha256 := by
  decide +kernel

theorem genesis_eq :
    let _ := Sample.sha256; let _ := Sample.builtins
    V03State.newWithGenesisAccounts initialData [] 0 = .ok genesis := by
  intro _ _
  exact eq_ok_valueD (Sample.state [] []) (by decide +kernel)

theorem run :
    let _ := Sample.sha256; let _ := Sample.zkvm script; let _ := Sample.schnorr
    Run Accepted genesis [deployment] deployed := by
  intro _ _ _
  exact Run.nil.snoc (eq_ok_valueD genesis evaluated.1)

end FaucetDrain

/-- In a state reached from genesis by a deployment, a transaction without signatures passes
`validate_on_state` and takes a million from the faucet. -/
theorem faucet_drained_by_chained_call :
    let _ := Sample.sha256; let _ := Sample.zkvm FaucetDrain.script; let _ := Sample.schnorr
    let _ := Sample.builtins
    V03State.newWithGenesisAccounts FaucetDrain.initialData [] 0 = .ok FaucetDrain.genesis ∧
    Run Accepted FaucetDrain.genesis [FaucetDrain.deployment] FaucetDrain.deployed ∧
    ∃ st', FaucetDrain.drain.executeCheckOnState FaucetDrain.deployed 0 0 = .ok st' ∧
      (st'.getAccountById systemFaucetAccountId).balance + 1000000 =
        (FaucetDrain.deployed.getAccountById systemFaucetAccountId).balance ∧
      (st'.getAccountById systemFaucetAccountId).balance <
        (FaucetDrain.deployed.getAccountById systemFaucetAccountId).balance := by
  intro _ _ _ _
  have hdrain : (FaucetDrain.drain.executeCheckOnState FaucetDrain.deployed 0 0).isOk = true ∧
      ((valueD FaucetDrain.genesis (FaucetDrain.drain.executeCheckOnState FaucetDrain.deployed 0
        0)).getAccountById systemFaucetAccountId).balance + 1000000 =
          (FaucetDrain.deployed.getAccountById systemFaucetAccountId).balance ∧
      ((valueD FaucetDrain.genesis (FaucetDrain.drain.executeCheckOnState FaucetDrain.deployed 0
        0)).getAccountById systemFaucetAccountId).balance <
          (FaucetDrain.deployed.getAccountById systemFaucetAccountId).balance := by
    decide +kernel
  exact ⟨FaucetDrain.genesis_eq, FaucetDrain.run, _, eq_ok_valueD FaucetDrain.genesis hdrain.1,
    hdrain.2⟩

/-- The signed transfer does not reach the faucet. -/
theorem faucet_protected_transfer :
    let _ := Sample.sha256; let _ := Sample.zkvm FaucetDrain.script; let _ := Sample.schnorr
    let _ := Sample.builtins; let _ := Sample.chaCha20
    NSSATransaction.FaucetUnreached (.publicTx FaucetDrain.transfer) FaucetDrain.deployed ∧
    ∃ st', (NSSATransaction.publicTx FaucetDrain.transfer).executeCheckOnState
        FaucetDrain.deployed 0 0 = .ok st' ∧
      (FaucetDrain.deployed.getAccountById systemFaucetAccountId).balance ≤
        (st'.getAccountById systemFaucetAccountId).balance := by
  intro _ _ _ _ _
  obtain ⟨_, ⟨hok, hexecuted, hcalls⟩, hclock, hdigests⟩ := FaucetDrain.evaluated
  obtain ⟨diff, hdiff⟩ := exists_of_isOk hok
  obtain ⟨_, hruns, _⟩ := runs_of_fromPublicTransaction hdiff
  have hunreached :
      NSSATransaction.FaucetUnreached (.publicTx FaucetDrain.transfer) FaucetDrain.deployed :=
    ⟨fun c anc out hreq => (hcalls _ (executed_of_requested hruns hreq)).1,
      noForgedMarkOn_of_runs hruns fun c hc hmark => absurd hmark (hcalls c hc).2⟩
  obtain ⟨st', hst'⟩ := exists_of_isOk hexecuted
  let _ := Sample.transferCodec
  refine ⟨hunreached, st', hst', ?_⟩
  exact faucet_protected (S := { s | s ∈ FaucetDrain.strings })
    (collisionFree_of_digests hdigests)
    (Sample.transfer_implements _ _) Sample.distinctBuiltins List.mem_cons_self
    hclock FaucetDrain.genesis_eq FaucetDrain.run
    (e := ⟨.publicTx FaucetDrain.transfer, 0, 0⟩) (fun e _ => Sample.sound _ _ e.tx)
    (fun s hs => List.mem_cons_of_mem _ hs) hunreached hst'

end ExecutionZone
