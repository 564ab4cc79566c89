import ExecutionZone.Transaction.Kept

/-!
# Vaults

The vault of an account id `X` is a PDA of the vault program, and the vault program asks for
the authority of `X` before it lets anything out of it.  But a *deposit* hands the vault, marked
as authorised, to the owner of the account that pays: whoever pays from an account of a program
of their own gets the vault of anyone they like (`vault_drained_by_deposit`).

`vault_protected` is what holds of runs in which vault calls chain only to the transfer program
and no mark is forged.  The invariant is that the vault account has no owner or the transfer
program as its owner (`VaultOwner`): with that, a debit of the vault is a transfer that the vault
program asked for, and only a claim of `X` makes it do so.
-/

namespace ExecutionZone

open CallTree

section

variable [Sha256] [Zkvm] [BuiltinPrograms] [ChaCha20]

/-! ## Confined vault calls -/

/-- The vault program chains only to the transfer program: in the calls requested in a public
transaction, which also forges no mark, and in the outputs of the inputs behind a
privacy-preserving one. -/
def Event.VaultConfined (st : V03State) (e : Event) : Prop :=
  match e.tx with
  | .publicTx tx => NoForgedMark tx st ∧
      ∀ c anc out, Requested tx st c anc out → c.call.programId = BuiltinPrograms.vault.id →
        ∀ call ∈ out.chainedCalls,
          call.programId = BuiltinPrograms.authenticatedTransfer.id
  | .privacyPreserving tx => ∀ input, circuit input = .ok (tx.journal st) →
      ∀ out ∈ input.programOutputs, out.selfProgramId = BuiltinPrograms.vault.id →
        ∀ call ∈ out.chainedCalls,
          call.programId = BuiltinPrograms.authenticatedTransfer.id
  | .programDeployment _ => True

/-- The transfer program owns the account, or nobody does. -/
def VaultOwner (a : Account) : Prop :=
  a.programOwner = defaultProgramId ∨
    a.programOwner = BuiltinPrograms.authenticatedTransfer.id

omit [Sha256] [Zkvm] [ChaCha20] in
/-- An output keeps `VaultOwner` if only the transfer program may claim the account. -/
theorem keeps_vaultOwner [Sha256] {programId : ProgramId} {out : ProgramOutput} {id : AccountId}
    (hvalid : ValidExecution out.preStates out.postStates programId)
    (hclaim : ∀ p ∈ out.zipped, p.1.accountId = id → ∀ claim, p.2.claim = some claim →
      ClaimAllowed programId p.1 claim →
      programId = BuiltinPrograms.authenticatedTransfer.id) :
    out.Keeps VaultOwner id programId := by
  intro p hp hid hpre account hgranted
  cases hgranted with
  | unclaimed _ =>
      unfold VaultOwner
      rwa [(hvalid.pair p hp).owner]
  | claimed hsome _ hallowed => exact .inr (hclaim p hp hid _ hsome hallowed)

variable [InstructionCodec Vault.Instruction] [InstructionCodec AuthenticatedTransfer.Instruction]
  {S : Set Bytes} {st st' : V03State}

omit [Zkvm] [BuiltinPrograms] [ChaCha20] in
/-- The vault program claims nothing. -/
theorem claim_of_vault_main {input : GuestInput} {out : ProgramOutput}
    (h : Vault.main input = .ok out) {p : AccountWithMetadata × AccountPostState}
    (hp : p ∈ out.zipped) : p.2.claim = none := by
  obtain ⟨call, rfl, _⟩ := Vault.main_eq_ok h
  have hpost : p.2 ∈ unchangedPostStates input.preStates := (List.of_mem_zip hp).2
  obtain ⟨pre, _, heq⟩ := List.mem_map.1 hpost
  rw [← heq]
  rfl

/-- What is assumed of the two programs and of the strings hashed for the vault of `X`. -/
structure VaultSetting (S : Set Bytes) (X : AccountId) : Prop where
  collisionFree : CollisionFree S
  transfer : BuiltinPrograms.authenticatedTransfer.Implements AuthenticatedTransfer.main
  vault : BuiltinPrograms.vault.Implements Vault.main
  ids : DistinctBuiltins
  pda : publicPdaPreimage BuiltinPrograms.vault.id (computeVaultSeed X) ∈ S
  seed : vaultSeedPreimage X ∈ S
  clock : computeVaultAccountId BuiltinPrograms.vault.id X ∉ clockProgramAccountIds

/-! ## Public transactions -/

section

variable {X : AccountId} {tx : PublicTransaction} {blockId : BlockId} {timestamp : Timestamp}
  {diff : Accounts}

/-- **Marks on the vault.**  A call that marks the vault is a transfer that an executed call of
the vault program asked for, with the seed of the vault. -/
theorem VaultSetting.marked (hX : VaultSetting S X) (hdeployed : BuiltinsDeployed st)
    (hruns : (publicMachine st blockId timestamp).Runs [(tx.initialCall st, [])] ∅
      (executedCalls tx st blockId timestamp) diff)
    (hstrings : ∀ s ∈ Event.strings st ⟨.publicTx tx, blockId, timestamp⟩, s ∈ S)
    (hconfined : Event.VaultConfined st ⟨.publicTx tx, blockId, timestamp⟩)
    {e : Executed PendingCall ProgramOutput} (he : e ∈ executedCalls tx st blockId timestamp)
    (hmark : computeVaultAccountId BuiltinPrograms.vault.id X ∈
      authorizedIds e.result.preStates) :
    e.call.call.programId = BuiltinPrograms.authenticatedTransfer.id ∧
      computeVaultSeed X ∈ e.call.call.pdaSeeds ∧
      ∃ p ∈ executedCalls tx st blockId timestamp,
        p.call.call.programId = BuiltinPrograms.vault.id ∧
        e.call ∈ chainCalls p.call p.result := by
  obtain ⟨hforged, hcalls⟩ := hconfined
  obtain ⟨p, hp, c, hc, hgrantor, hissued, hseed, hlast⟩ :=
    grantor_of_marked hX.collisionFree hX.pda hruns hstrings (hforged _) he hmark
  obtain ⟨call, hcall, hcaller⟩ := List.mem_map.1 hissued
  have htransfer : c.call.call.programId = BuiltinPrograms.authenticatedTransfer.id := by
    rw [← hcaller]
    exact hcalls _ _ _ (requested_of_runs hruns p hp) hgrantor call hcall
  have hnone : c.result.chainedCalls = [] :=
    AuthenticatedTransfer.chainedCalls_of_main (main_of_executed hX.transfer
      (hdeployed _ transfer_mem_builtinPrograms) htransfer (output_of_runs hruns c hc).1)
  rcases hlast with rfl | hlast
  · exact ⟨htransfer, hseed, p, hp, hgrantor, hissued⟩
  · exact absurd hnone hlast

/-- Executed outputs keep the owner of the vault. -/
theorem VaultSetting.keeps_owner_public (hX : VaultSetting S X) (hdeployed : BuiltinsDeployed st)
    (hruns : (publicMachine st blockId timestamp).Runs [(tx.initialCall st, [])] ∅
      (executedCalls tx st blockId timestamp) diff)
    (hstrings : ∀ s ∈ Event.strings st ⟨.publicTx tx, blockId, timestamp⟩, s ∈ S)
    (hconfined : Event.VaultConfined st ⟨.publicTx tx, blockId, timestamp⟩)
    {e : Executed PendingCall ProgramOutput} (he : e ∈ executedCalls tx st blockId timestamp) :
    e.result.Keeps VaultOwner (computeVaultAccountId BuiltinPrograms.vault.id X)
      e.call.call.programId := by
  refine keeps_vaultOwner (valid_of_runs hruns he) fun p hp hid claim hclaim hallowed => ?_
  cases claim with
  | authorized =>
      exact (hX.marked hdeployed hruns hstrings hconfined he
        (mem_authorizedIds.2 ⟨p.1, (List.of_mem_zip hp).1, hallowed, hid⟩)).1
  | pda seed =>
      have hstring : publicPdaPreimage e.call.call.programId seed ∈ S :=
        hstrings _ (List.mem_append_right _
          (List.mem_flatMap.2 ⟨e, he, claim_mem_callStrings hp hclaim _⟩))
      obtain ⟨hprogram, _⟩ :=
        hX.collisionFree.forPublicPda_inj hstring hX.pda (hallowed.symm.trans hid)
      have hnone := claim_of_vault_main (main_of_executed hX.vault
        (hdeployed _ vault_mem_builtinPrograms) hprogram (output_of_runs hruns e he).1) hp
      rw [hclaim] at hnone
      cases hnone

end

/-! ## Privacy-preserving transactions -/

/-- Consumed outputs keep the owner of the vault. -/
theorem VaultSetting.keeps_owner_private {X : AccountId} (hX : VaultSetting S X)
    {tx : PrivacyPreservingTransaction} {input : PrivacyPreservingCircuitInput} {a : Entry}
    (ha : PublicEntry S st tx input (computeVaultAccountId BuiltinPrograms.vault.id X) a)
    (hkeys : ∀ s ∈ keyStrings tx.signaturesAndPublicKeys, s ∈ S)
    (hcalls : ∀ out ∈ input.programOutputs, out.selfProgramId = BuiltinPrograms.vault.id →
      ∀ call ∈ out.chainedCalls, call.programId = BuiltinPrograms.authenticatedTransfer.id)
    {c : Executed CircuitCall ProgramOutput} (hc : c ∈ consumedCalls input) :
    c.result.Keeps VaultOwner (computeVaultAccountId BuiltinPrograms.vault.id X)
      c.call.call.programId := by
  obtain ⟨es, hes, _⟩ := emitted_of_circuit ha.circuit
  refine keeps_vaultOwner (valid_of_mem_consumedCalls hes hc).1
    fun p hp hid claim hclaim hallowed => ?_
  cases claim with
  | authorized =>
      obtain ⟨_, _, _, hout, hself, hcall⟩ := issuer_of_marked hX.collisionFree hX.pda ha hkeys hc
        (mem_authorizedIds.2 ⟨p.1, (List.of_mem_zip hp).1, hallowed, hid⟩)
      exact hcalls _ hout hself _ hcall
  | pda seed =>
      have hstring : publicPdaPreimage c.call.call.programId seed ∈ S :=
        ha.strings _ (callStrings_subset_circuitStrings hes hc
          (claim_mem_callStrings hp hclaim _))
      obtain ⟨hprogram, _⟩ :=
        hX.collisionFree.forPublicPda_inj hstring hX.pda (hallowed.symm.trans hid)
      obtain ⟨guest, hguest⟩ := main_of_consumed hX.vault hes hc hprogram
      have hnone := claim_of_vault_main hguest hp
      rw [hclaim] at hnone
      cases hnone

/-! ## Runs -/

variable [Schnorr]

/-- An accepted transaction with a sound proof and confined vault calls that hashes within `S`. -/
def VaultStep (S : Set Bytes) (st : V03State) (e : Event) (st' : V03State) : Prop :=
  Accepted st e st' ∧ e.tx.Sound S ∧ (∀ s ∈ e.strings st, s ∈ S) ∧ e.VaultConfined st

variable {X : AccountId}

/-- **Step.**  The vault keeps its owner. -/
theorem VaultSetting.step (hX : VaultSetting S X) (hdeployed : BuiltinsDeployed st) {e : Event}
    (h : VaultStep S st e st')
    (hst : VaultOwner (st.getAccountById (computeVaultAccountId BuiltinPrograms.vault.id X))) :
    VaultOwner (st'.getAccountById (computeVaultAccountId BuiltinPrograms.vault.id X)) := by
  obtain ⟨haccepted, hsound, hstrings, hconfined⟩ := h
  refine kept_of_accepted hsound haccepted (fun _ _ ha => ha) ?_ hst
  obtain ⟨tx, blockId, timestamp⟩ := e
  cases tx with
  | publicTx tx =>
      intro c hc
      obtain ⟨_, hruns, _⟩ := runs_of_transition (show _ = _ from haccepted)
      exact hX.keeps_owner_public hdeployed hruns hstrings hconfined hc
  | privacyPreserving tx =>
      intro input a ha c hc
      exact hX.keeps_owner_private ha hstrings (hconfined input ha.circuit) hc
  | programDeployment tx => trivial

omit [Zkvm] [ChaCha20] [InstructionCodec Vault.Instruction]
  [InstructionCodec AuthenticatedTransfer.Instruction] [Schnorr] in
/-- At genesis no program but the transfer program owns an account, the clock's apart. -/
theorem vaultOwner_genesis {id : AccountId} (hclock : id ∉ clockProgramAccountIds)
    {initialData : List (AccountId × U128)} {notes : List (Commitment × Nullifier)}
    {genesisTimestamp : Timestamp}
    (h : V03State.newWithGenesisAccounts initialData notes genesisTimestamp = .ok st) :
    VaultOwner (st.getAccountById id) := by
  exact genesis_forall_of_not_clock (.inl rfl) (.inr rfl) (fun _ => .inr rfl) h hclock

/-- **Run.**  The vault keeps its owner, and the built-in programs stay deployed. -/
theorem VaultSetting.of_run (hX : VaultSetting S X) {initialData : List (AccountId × U128)}
    {notes : List (Commitment × Nullifier)} {genesisTimestamp : Timestamp} {st₀ : V03State}
    {events : List Event}
    (hgenesis : V03State.newWithGenesisAccounts initialData notes genesisTimestamp = .ok st₀)
    (hrun : Run (VaultStep S) st₀ events st) :
    VaultOwner (st.getAccountById (computeVaultAccountId BuiltinPrograms.vault.id X)) ∧
      BuiltinsDeployed st := by
  refine hrun.invariant (I := fun st => VaultOwner (st.getAccountById
    (computeVaultAccountId BuiltinPrograms.vault.id X)) ∧ BuiltinsDeployed st) ?_ ?_
  · exact ⟨vaultOwner_genesis hX.clock hgenesis, builtinsDeployed_genesis hX.ids hgenesis⟩
  · rintro s e s' ⟨howner, hdeployed⟩ hstep
    exact ⟨hX.step hdeployed hstep howner, hdeployed.step hstep.1⟩

/-! ## Withdrawals -/

/-- What the executed calls of the vault program hash for the accounts they list. -/
def vaultStrings (tx : PublicTransaction) (st : V03State) (blockId : BlockId)
    (timestamp : Timestamp) : List Bytes :=
  ((executedCalls tx st blockId timestamp).filter
    (·.call.call.programId = BuiltinPrograms.vault.id)).flatMap fun c =>
      c.result.preStates.map fun pre => vaultSeedPreimage pre.accountId

/-- An executed program that derives the account `id` issued a call with the seed for it. -/
def AuthorizedAsPda (tx : PublicTransaction) (st : V03State) (blockId : BlockId)
    (timestamp : Timestamp) (id : AccountId) : Prop :=
  ∃ p ∈ executedCalls tx st blockId timestamp, ∃ c ∈ executedCalls tx st blockId timestamp,
    c.call ∈ chainCalls p.call p.result ∧
      ∃ seed ∈ c.call.call.pdaSeeds, AccountId.forPublicPda p.call.call.programId seed = id

instance (tx : PublicTransaction) (st : V03State) (blockId : BlockId) (timestamp : Timestamp)
    (id : AccountId) : Decidable (AuthorizedAsPda tx st blockId timestamp id) :=
  inferInstanceAs (Decidable (∃ p ∈ _, ∃ c ∈ _, _ ∧ ∃ seed ∈ _, _))

variable {tx : PublicTransaction} {blockId : BlockId} {timestamp : Timestamp} {diff : Accounts}

omit [Schnorr] in
/-- **Debits of the vault.**  A transfer that debits the vault of `X` was asked for by a call of
the vault program in which `X` is authorised. -/
theorem VaultSetting.owner_of_debit (hX : VaultSetting S X) (hdeployed : BuiltinsDeployed st)
    (hruns : (publicMachine st blockId timestamp).Runs [(tx.initialCall st, [])] ∅
      (executedCalls tx st blockId timestamp) diff)
    (hstrings : ∀ s ∈ Event.strings st ⟨.publicTx tx, blockId, timestamp⟩, s ∈ S)
    (hseeds : ∀ s ∈ vaultStrings tx st blockId timestamp, s ∈ S)
    (hconfined : Event.VaultConfined st ⟨.publicTx tx, blockId, timestamp⟩)
    {e : Executed PendingCall ProgramOutput} (he : e ∈ executedCalls tx st blockId timestamp)
    (hprogram : e.call.call.programId = BuiltinPrograms.authenticatedTransfer.id)
    {p : AccountWithMetadata × AccountPostState} (hp : p ∈ e.result.zipped)
    (hid : p.1.accountId = computeVaultAccountId BuiltinPrograms.vault.id X)
    (hdebit : p.2.account.balance < p.1.account.balance) :
    ∃ c ∈ executedCalls tx st blockId timestamp, X ∈ authorizedIds c.result.preStates := by
  have hguest := main_of_executed hX.transfer (hdeployed _ transfer_mem_builtinPrograms) hprogram
    (output_of_runs hruns e he).1
  obtain ⟨hauth, recipient, hpre⟩ := AuthenticatedTransfer.debit_of_main hguest hp hdebit
  have hmark : computeVaultAccountId BuiltinPrograms.vault.id X ∈
      authorizedIds e.result.preStates :=
    mem_authorizedIds.2 ⟨p.1, (List.of_mem_zip hp).1, hauth, hid⟩
  obtain ⟨_, hseed, c, hc, hvault, hissued⟩ :=
    hX.marked hdeployed hruns hstrings hconfined he hmark
  have hguest' := main_of_executed hX.vault (hdeployed _ vault_mem_builtinPrograms) hvault
    (output_of_runs hruns c hc).1
  obtain ⟨call, hout, hcases⟩ := Vault.main_eq_ok hguest'
  have hlist : c.result.preStates = c.call.call.preStates := by rw [hout]; rfl
  obtain ⟨call', hcall', hcaller⟩ := List.mem_map.1 hissued
  have hcall : e.call.call = call := by
    rw [hout] at hcall'
    rw [← hcaller]
    exact List.mem_singleton.1 hcall'
  rw [hcall] at hpre hseed
  rcases hcases with ⟨sender, recipientVault, recipientId, hlisted, _, hpres, _⟩ |
    ⟨owner, ownerVault, hlisted, howner, _, hpres, hcallSeeds⟩
  · -- a deposit: the vault would have to be the paying account, marked before the call
    have hsender : p.1 = sender := (List.cons.inj (Eq.trans hpre.symm hpres)).1
    have hmark' : computeVaultAccountId BuiltinPrograms.vault.id X ∈
        authorizedIds c.result.preStates := by
      refine mem_authorizedIds.2 ⟨p.1, ?_, hauth, hid⟩
      rw [hlist.trans hlisted, hsender]
      exact List.mem_cons_self
    have htransfer := (hX.marked hdeployed hruns hstrings hconfined hc hmark').1
    rw [hvault] at htransfer
    have hne : BuiltinPrograms.vault.id ≠ BuiltinPrograms.authenticatedTransfer.id := by
      have hnodup := hX.ids.nodup
      simp only [builtinPrograms, List.map_cons, List.nodup_cons, List.mem_cons, not_or] at hnodup
      exact Ne.symm hnodup.2.1.2.2.2.1
    exact absurd htransfer hne
  · -- a claim, with the seed of its owner
    rw [hcallSeeds, List.mem_singleton] at hseed
    have hmem : owner ∈ c.result.preStates := by
      rw [hlist.trans hlisted]
      exact List.mem_cons_self
    have hstring : vaultSeedPreimage owner.accountId ∈ S := by
      refine hseeds _ (List.mem_flatMap.2 ⟨c, List.mem_filter.2 ⟨hc, by simpa using hvault⟩, ?_⟩)
      exact List.mem_map_of_mem hmem
    have hsame : X = owner.accountId := vaultSeedPreimage_inj
      (hX.collisionFree.injOn hX.seed hstring (congrArg PdaSeed.value hseed))
    exact ⟨c, hc, mem_authorizedIds.2 ⟨owner, hmem, howner, hsame.symm⟩⟩

omit [InstructionCodec Vault.Instruction] [InstructionCodec AuthenticatedTransfer.Instruction] in
/-- For an accepted transaction, the executed calls show whether vault calls are confined. -/
theorem vaultConfined_of_executed {diff : StateDiff}
    (h : fromPublicTransaction tx st blockId timestamp = .ok diff)
    (hmarks : MarksEntitled tx st blockId timestamp)
    (hcalls : ∀ c ∈ executedCalls tx st blockId timestamp,
      c.call.call.programId = BuiltinPrograms.vault.id → ∀ call ∈ c.result.chainedCalls,
        call.programId = BuiltinPrograms.authenticatedTransfer.id) :
    Event.VaultConfined st ⟨.publicTx tx, blockId, timestamp⟩ := by
  obtain ⟨_, hruns, _⟩ := runs_of_fromPublicTransaction h
  refine ⟨fun id => noForgedMarkOn_of_runs hruns fun e he hid => hmarks e he id hid, ?_⟩
  exact fun c anc out hreq => hcalls _ (executed_of_requested hruns hreq)

/-- **Vaults.**  In every state reached from genesis by transactions with confined vault calls,
an accepted public transaction with confined vault calls lowers the balance of the vault of `X`
only if `X` signed it, or was authorised in it as a PDA by the program that derives it. -/
theorem vault_protected (hX : VaultSetting S X) {initialData : List (AccountId × U128)}
    {notes : List (Commitment × Nullifier)} {genesisTimestamp : Timestamp} {st₀ : V03State}
    {events : List Event}
    (hgenesis : V03State.newWithGenesisAccounts initialData notes genesisTimestamp = .ok st₀)
    (hrun : Run (VaultStep S) st₀ events st)
    (h : VaultStep S st ⟨.publicTx tx, blockId, timestamp⟩ st')
    (hseeds : ∀ s ∈ vaultStrings tx st blockId timestamp, s ∈ S)
    (hdebit : (st'.getAccountById (computeVaultAccountId BuiltinPrograms.vault.id X)).balance <
      (st.getAccountById (computeVaultAccountId BuiltinPrograms.vault.id X)).balance) :
    X ∈ tx.signerAccountIds ∨ AuthorizedAsPda tx st blockId timestamp X := by
  obtain ⟨howner, hdeployed⟩ := hX.of_run hgenesis hrun
  obtain ⟨haccepted, _, hstrings, hconfined⟩ := h
  obtain ⟨diff, hruns, hget⟩ := runs_of_transition (show _ = _ from haccepted)
  by_contra hnone
  rw [not_or] at hnone
  have hunmarked : ∀ c ∈ executedCalls tx st blockId timestamp,
      X ∉ authorizedIds c.result.preStates := by
    intro c hc hmark
    obtain ⟨p, hp, c', hc', hissued, hseed, _⟩ := grantor_of_entitled hruns hnone.1 hc
      (entitled_of_runs hruns (hconfined.1 X) hc hmark)
    exact hnone.2 ⟨p, hp, c', hc', hissued, hseed⟩
  have hkept := kept_of_public (Q := fun a => VaultOwner a ∧
      (st.getAccountById (computeVaultAccountId BuiltinPrograms.vault.id X)).balance ≤ a.balance)
    (show _ = _ from haccepted) (fun _ _ ha => ha) ?_ ⟨howner, BitVec.le_refl _⟩
  · exact absurd hkept.2 (BitVec.not_le.2 hdebit)
  · rintro e he p hp hid ⟨hpre, hbalance⟩ account hgranted
    have hkeeps := hX.keeps_owner_public hdeployed hruns hstrings hconfined he
    refine ⟨hkeeps p hp hid hpre account hgranted, ?_⟩
    rw [hgranted.balance]
    by_contra hlt
    have hdebit' : p.2.account.balance < p.1.account.balance :=
      Nat.lt_of_lt_of_le (BitVec.not_le.1 hlt) hbalance
    have hpair := (valid_of_runs hruns he).pair p hp
    rcases hpre with hdefault | htransfer
    · rw [hpair.unowned hdefault] at hdebit'
      exact absurd hdebit' (Nat.not_lt_zero _)
    · have hprogram := (hpair.decrease hdebit').symm.trans htransfer
      obtain ⟨c, hc, hmark⟩ := hX.owner_of_debit hdeployed hruns hstrings hseeds hconfined he
        hprogram hp hid hdebit'
      exact hunmarked c hc hmark

end

/-! ## A theft by deposit -/

namespace VaultTheft

def owner : AccountId := Sample.signer 3

def vault : AccountId :=
  let _ := Sample.sha256
  computeVaultAccountId (Sample.programId 6) owner

def thief : AccountWithMetadata :=
  ⟨Sample.account (Sample.programId 2) 5, false, Sample.accountId 8⟩

/-- Program `10` claims an account it gets alone.  Of two accounts it takes the second for a
vault, and asks the transfer program to move what it is told to from there to the thief. -/
def script : Sample.Script
  | 10, input => match input.preStates with
      | [pre] => .ok (input.output [.newClaimed pre.account .authorized] [])
      | [_, vault] => .ok (input.output (unchangedPostStates input.preStates)
          [⟨Sample.programId 2, [vault, thief], input.instructionData, []⟩])
      | _ => .error "one or two accounts"
  | _, _ => .error "no such program"

def initialData : List (AccountId × U128) := [(Sample.signer 1, 100), (Sample.accountId 8, 5)]

def genesis : V03State :=
  let _ := Sample.sha256; let _ := Sample.builtins
  valueD (Sample.state [] []) (V03State.newWithGenesisAccounts initialData [] 0)

/-- A signed deposit of 60. -/
def deposit : PublicTransaction :=
  Sample.transaction (Sample.programId 6) [Sample.signer 1, vault]
    (Sample.vaultCodec.toVec (.transfer owner 60)) [1]

def deployment : Event := ⟨.programDeployment ⟨[10]⟩, 0, 0⟩

/-- The thief lets program `10` claim an account. -/
def creation : Event :=
  ⟨.publicTx (Sample.transaction (Sample.programId 10) [Sample.signer 2] [] [2]), 0, 0⟩

/-- A deposit from the account of program `10`, which nobody signs. -/
def theft : PublicTransaction :=
  Sample.transaction (Sample.programId 6) [Sample.signer 2, vault]
    (Sample.vaultCodec.toVec (.transfer owner 60)) []

/-- A withdrawal of 20, signed by the owner. -/
def withdrawal : PublicTransaction :=
  Sample.transaction (Sample.programId 6) [owner, vault] (Sample.vaultCodec.toVec (.claim 20)) [3]

def after (st : V03State) (e : Event) : V03State :=
  let _ := Sample.sha256; let _ := Sample.zkvm script; let _ := Sample.schnorr
  valueD genesis (st.transition e)

def funded : V03State := after genesis ⟨.publicTx deposit, 0, 0⟩

def ready : V03State := after (after funded deployment) creation

theorem genesis_eq :
    let _ := Sample.sha256; let _ := Sample.builtins
    V03State.newWithGenesisAccounts initialData [] 0 = .ok genesis := by
  intro _ _
  exact eq_ok_valueD (Sample.state [] []) (by decide +kernel)

theorem accepted_after {st : V03State} {e : Event} :
    let _ := Sample.sha256; let _ := Sample.zkvm script; let _ := Sample.schnorr
    (st.transition e).isOk = true → Accepted st e (after st e) := by
  intro _ _ _ hok
  exact eq_ok_valueD genesis hok

def strings : List Bytes :=
  let _ := Sample.sha256; let _ := Sample.zkvm script; let _ := Sample.builtins
  publicPdaPreimage (Sample.programId 6) (computeVaultSeed owner) :: vaultSeedPreimage owner ::
    (Event.strings genesis ⟨.publicTx deposit, 0, 0⟩ ++
      (Event.strings funded ⟨.publicTx withdrawal, 0, 0⟩ ++ vaultStrings withdrawal funded 0 0))

/-- What the transactions evaluate to, once for all of them. -/
theorem evaluated :
    let _ := Sample.sha256; let _ := Sample.zkvm script; let _ := Sample.schnorr
    let _ := Sample.builtins
    ((genesis.transition ⟨.publicTx deposit, 0, 0⟩).isOk = true ∧
      (funded.transition deployment).isOk = true ∧
      ((after funded deployment).transition creation).isOk = true) ∧
    (computeVaultAccountId BuiltinPrograms.vault.id owner ∉ clockProgramAccountIds ∧
      (strings.dedup.map sha256).Nodup ∧ Bytes32.zero ∉ strings.dedup.map sha256) ∧
    ((fromPublicTransaction deposit genesis 0 0).isOk = true ∧
      MarksEntitled deposit genesis 0 0 ∧ ∀ c ∈ executedCalls deposit genesis 0 0,
        c.call.call.programId = BuiltinPrograms.vault.id → ∀ call ∈ c.result.chainedCalls,
          call.programId = BuiltinPrograms.authenticatedTransfer.id) ∧
    ((fromPublicTransaction withdrawal funded 0 0).isOk = true ∧
      MarksEntitled withdrawal funded 0 0 ∧ ∀ c ∈ executedCalls withdrawal funded 0 0,
        c.call.call.programId = BuiltinPrograms.vault.id → ∀ call ∈ c.result.chainedCalls,
          call.programId = BuiltinPrograms.authenticatedTransfer.id) ∧
    (funded.transitionFromPublicTransaction withdrawal 0 0).isOk = true ∧
      ((valueD genesis (funded.transitionFromPublicTransaction withdrawal 0 0)).getAccountById
        vault).balance = 40 ∧
      (funded.getAccountById vault).balance = 60 := by
  decide +kernel

theorem run :
    let _ := Sample.sha256; let _ := Sample.zkvm script; let _ := Sample.schnorr
    Run Accepted genesis [⟨.publicTx deposit, 0, 0⟩, deployment, creation] ready := by
  intro _ _ _
  obtain ⟨⟨hdeposit, hdeployment, hcreation⟩, _⟩ := evaluated
  exact ((Run.nil.snoc (accepted_after hdeposit)).snoc (accepted_after hdeployment)).snoc
    (accepted_after hcreation)

end VaultTheft

/-- A deposit that nobody signs, from an account of a program of the thief, empties the vault
of someone who neither signed nor is a PDA. -/
theorem vault_drained_by_deposit :
    let _ := Sample.sha256; let _ := Sample.zkvm VaultTheft.script; let _ := Sample.schnorr
    let _ := Sample.builtins
    V03State.newWithGenesisAccounts VaultTheft.initialData [] 0 = .ok VaultTheft.genesis ∧
    Run Accepted VaultTheft.genesis
      [⟨.publicTx VaultTheft.deposit, 0, 0⟩, VaultTheft.deployment, VaultTheft.creation]
      VaultTheft.ready ∧
    ∃ st', VaultTheft.ready.transitionFromPublicTransaction VaultTheft.theft 0 0 = .ok st' ∧
      (VaultTheft.ready.getAccountById
        (computeVaultAccountId BuiltinPrograms.vault.id VaultTheft.owner)).balance = 60 ∧
      (st'.getAccountById
        (computeVaultAccountId BuiltinPrograms.vault.id VaultTheft.owner)).balance = 0 ∧
      VaultTheft.owner ∉ VaultTheft.theft.signerAccountIds ∧
      ¬AuthorizedAsPda VaultTheft.theft VaultTheft.ready 0 0 VaultTheft.owner := by
  intro _ _ _ _
  have htheft : (VaultTheft.ready.transitionFromPublicTransaction VaultTheft.theft 0 0).isOk = true ∧
      (VaultTheft.ready.getAccountById
        (computeVaultAccountId BuiltinPrograms.vault.id VaultTheft.owner)).balance = 60 ∧
      ((valueD VaultTheft.genesis (VaultTheft.ready.transitionFromPublicTransaction
        VaultTheft.theft 0 0)).getAccountById
          (computeVaultAccountId BuiltinPrograms.vault.id VaultTheft.owner)).balance = 0 ∧
      VaultTheft.owner ∉ VaultTheft.theft.signerAccountIds ∧
      ¬AuthorizedAsPda VaultTheft.theft VaultTheft.ready 0 0 VaultTheft.owner := by decide +kernel
  exact ⟨VaultTheft.genesis_eq, VaultTheft.run, _, eq_ok_valueD VaultTheft.genesis htheft.1,
    htheft.2⟩

namespace VaultTheft

theorem setting :
    let _ := Sample.sha256; let _ := Sample.zkvm script; let _ := Sample.schnorr
    let _ := Sample.builtins; let _ := Sample.chaCha20; let _ := Sample.vaultCodec
    let _ := Sample.transferCodec
    VaultSetting { s | s ∈ strings } owner := by
  intro _ _ _ _ _ _ _
  obtain ⟨_, ⟨hclock, hdigests⟩, _⟩ := evaluated
  exact ⟨collisionFree_of_digests hdigests,
    Sample.transfer_implements _ _, Sample.vault_implements _ _, Sample.distinctBuiltins,
    List.mem_cons_self, List.mem_cons_of_mem _ List.mem_cons_self, hclock⟩

theorem deposit_confined :
    let _ := Sample.sha256; let _ := Sample.zkvm script; let _ := Sample.schnorr
    let _ := Sample.builtins; let _ := Sample.chaCha20
    Event.VaultConfined genesis ⟨.publicTx deposit, 0, 0⟩ := by
  intro _ _ _ _ _
  obtain ⟨_, _, ⟨hok, hmarks, hcalls⟩, _⟩ := evaluated
  obtain ⟨diff, hdiff⟩ := exists_of_isOk hok
  exact vaultConfined_of_executed hdiff hmarks hcalls

theorem withdrawal_confined :
    let _ := Sample.sha256; let _ := Sample.zkvm script; let _ := Sample.schnorr
    let _ := Sample.builtins; let _ := Sample.chaCha20
    Event.VaultConfined funded ⟨.publicTx withdrawal, 0, 0⟩ := by
  intro _ _ _ _ _
  obtain ⟨_, _, _, ⟨hok, hmarks, hcalls⟩, _⟩ := evaluated
  obtain ⟨diff, hdiff⟩ := exists_of_isOk hok
  exact vaultConfined_of_executed hdiff hmarks hcalls

end VaultTheft

/-- The withdrawal lowers the balance of the vault, and its owner signed. -/
theorem vault_protected_withdrawal :
    let _ := Sample.sha256; let _ := Sample.zkvm VaultTheft.script; let _ := Sample.schnorr
    let _ := Sample.builtins; let _ := Sample.chaCha20
    ∃ st', VaultTheft.funded.transitionFromPublicTransaction VaultTheft.withdrawal 0 0 = .ok st' ∧
      (st'.getAccountById VaultTheft.vault).balance = 40 ∧
      (VaultTheft.owner ∈ VaultTheft.withdrawal.signerAccountIds ∨
        AuthorizedAsPda VaultTheft.withdrawal VaultTheft.funded 0 0 VaultTheft.owner) := by
  intro _ _ _ _ _
  obtain ⟨⟨hdeposit, _⟩, _, _, _, hok, hbalance, hbefore⟩ := VaultTheft.evaluated
  have hdebit : ((valueD VaultTheft.genesis
      (VaultTheft.funded.transitionFromPublicTransaction VaultTheft.withdrawal 0
        0)).getAccountById VaultTheft.vault).balance <
        (VaultTheft.funded.getAccountById VaultTheft.vault).balance := by
    rw [hbalance, hbefore]
    decide
  have hst' := eq_ok_valueD VaultTheft.genesis hok
  let _ := Sample.vaultCodec
  let _ := Sample.transferCodec
  refine ⟨_, hst', hbalance, ?_⟩
  refine vault_protected VaultTheft.setting VaultTheft.genesis_eq
    (Run.nil.snoc ⟨VaultTheft.accepted_after hdeposit, trivial, ?_, VaultTheft.deposit_confined⟩)
    ⟨hst', trivial, ?_, VaultTheft.withdrawal_confined⟩ ?_ hdebit
  · exact fun s hs => List.mem_cons_of_mem _ (List.mem_cons_of_mem _ (List.mem_append_left _ hs))
  · exact fun s hs => List.mem_cons_of_mem _ (List.mem_cons_of_mem _
      (List.mem_append_right _ (List.mem_append_left _ hs)))
  · exact fun s hs => List.mem_cons_of_mem _ (List.mem_cons_of_mem _
      (List.mem_append_right _ (List.mem_append_right _ hs)))

end ExecutionZone
