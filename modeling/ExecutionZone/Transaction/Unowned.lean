import ExecutionZone.Transaction.Nonces

/-!
# Accounts without an owner

A program may put balance and data on an account nobody owns, but a transaction that leaves
it without an owner is accepted only if the account is what it was before, on both paths
(`unowned_of_accepted`).  So an account without an owner is empty in every reachable state
(`unowned_empty`): only its nonce can tell it from a fresh one.

The nonce does.  It is incremented for every signer, owned or not, while the transfer
program and `validate_execution` compare whole accounts with the default one.  An account
can be initialised exactly as long as its key has signed nothing (`initializable_iff`), and
`cosigner_locked_out` is a run in which a key signs along with somebody else's transfer and
can never claim its account.
-/

namespace ExecutionZone

open CallTree

section

variable [Sha256]

/-- An account without an owner has no balance and no data. -/
def Account.EmptyIfUnowned (a : Account) : Prop :=
  a.programOwner = defaultProgramId → a.balance = 0 ∧ a.data = Data.empty

/-! ## Staying without an owner -/

variable [Zkvm] [ChaCha20] [Schnorr] {S : Set Bytes} {st st' : V03State}

omit [Sha256] [Zkvm] [ChaCha20] [Schnorr] in
theorem eq_of_checkDefaultAccountsClaimed {diff : Accounts} {id : AccountId}
    (h : checkDefaultAccountsClaimed st diff = .ok ())
    (hpre : (st.getAccountById id).programOwner = defaultProgramId)
    (hpost : (Ledger.overlay Account.default st.publicState diff id).programOwner =
      defaultProgramId) :
    Ledger.overlay Account.default st.publicState diff id = st.getAccountById id := by
  simp only [checkDefaultAccountsClaimed, forM_eq_ok, ensure_eq_ok] at h
  cases hlookup : diff.lookup id with
  | none =>
      rw [Ledger.overlay, hlookup]
      rfl
  | some post =>
      rw [Ledger.overlay, hlookup, Option.getD_some] at hpost ⊢
      by_contra hne
      exact h _ (Ledger.mem_pairs.2 hlookup) hpre (Ne.symm hne) hpost

omit [Schnorr] in
theorem PublicEntry.eq_of_unowned {tx : PrivacyPreservingTransaction}
    {input : PrivacyPreservingCircuitInput} {id : AccountId} {a : Entry}
    (h : PublicEntry S st tx input id a)
    (hpre : (st.getAccountById id).programOwner = defaultProgramId)
    (hpost : a.post.programOwner = defaultProgramId) : a.post = st.getAccountById id := by
  obtain ⟨es, hes, _, _, _, hmem, heq⟩ := public_of_mem_publicEntries h.circuit h.mem
  obtain ⟨_, _, _, _, _, _, _, hclaimed⟩ := runs_of_deriveFromOutputs hes
  simp only [checkModifiedClaimed, forM_eq_ok] at hclaimed
  have hchecked := hclaimed a.pre hmem
  have haccount : a.pre.account = st.getAccountById id := by rw [h.pre]
  rw [if_pos (haccount ▸ hpre)] at hchecked
  simp only [bind_eq_ok, expect_eq_ok, ensure_eq_ok] at hchecked
  obtain ⟨post, hlookup, hmodified⟩ := hchecked
  rw [Accounts.get, Ledger.get, hlookup, Option.getD_some] at heq
  subst heq
  by_contra hne
  exact hmodified (haccount ▸ Ne.symm hne) hpost

/-- **Step.**  An account that stays without an owner changes in its nonce only. -/
theorem unowned_of_accepted {e : Event} (hsound : e.tx.Sound S) (h : Accepted st e st')
    {id : AccountId} (hpre : (st.getAccountById id).programOwner = defaultProgramId)
    (hpost : (st'.getAccountById id).programOwner = defaultProgramId) :
    st'.getAccountById id = (st.getAccountById id).withNonce (st'.getAccountById id).nonce := by
  obtain ⟨tx, blockId, timestamp⟩ := e
  cases tx with
  | publicTx tx =>
      obtain ⟨diff, hdiff, happly⟩ := bind_eq_ok.1 (show _ = _ from h)
      obtain ⟨_, _, hclaimed, _⟩ := runs_of_fromPublicTransaction hdiff
      have hget := (V03State.getAccountById_applyStateDiff (mapError_eq_ok.1 happly) id).1
      rw [hget] at hpost
      rwa [eq_of_checkDefaultAccountsClaimed hclaimed hpre hpost] at hget
  | privacyPreserving tx =>
      rcases publicEntry_of_transition hsound (show _ = _ from h) id with
        hsame | ⟨input, a, ha, hget⟩
      · exact hsame
      · rw [hget] at hpost
        rwa [ha.eq_of_unowned hpre hpost] at hget
  | programDeployment tx =>
      obtain ⟨program, _, _, _, happly⟩ := deployed_of_transition (show _ = _ from h)
      have hget := (V03State.getAccountById_applyStateDiff happly id).1
      rwa [Ledger.overlay_empty] at hget

/-- **Step.**  An empty account without an owner is owned or empty afterwards. -/
theorem Account.EmptyIfUnowned.step {e : Event} (hsound : e.tx.Sound S) (h : Accepted st e st')
    {id : AccountId} (hst : (st.getAccountById id).EmptyIfUnowned) :
    (st'.getAccountById id).EmptyIfUnowned := by
  intro hpost
  have hpre : (st.getAccountById id).programOwner = defaultProgramId := by
    by_contra howner
    exact howner ((owner_of_accepted hsound h howner rfl).symm.trans hpost)
  rw [unowned_of_accepted hsound h hpre hpost]
  exact hst hpre

variable [BuiltinPrograms] {initialData : List (AccountId × U128)}
  {notes : List (Commitment × Nullifier)} {genesisTimestamp : Timestamp} {st₀ : V03State}
  {events : List Event}

theorem emptyIfUnowned_of_run (hsound : SoundProofs S events)
    (hids : ∀ program ∈ builtinPrograms, program.id ≠ defaultProgramId)
    (hgenesis : V03State.newWithGenesisAccounts initialData notes genesisTimestamp = .ok st₀)
    (hrun : Run Accepted st₀ events st) (id : AccountId) :
    (st.getAccountById id).EmptyIfUnowned := by
  refine hrun.invariant_of_mem (I := fun st => (st.getAccountById id).EmptyIfUnowned) ?_
    fun e he _ _ hs h => hs.step (hsound e he) h
  have htransfer := hids _ transfer_mem_builtinPrograms
  refine genesis_forall (fun _ => ⟨rfl, rfl⟩) (fun h => absurd h htransfer)
    (fun _ h => absurd h htransfer) (fun h => ?_) hgenesis id
  exact absurd h (hids _ List.mem_cons_self)

/-- **Accounts without an owner.**  In every state reached from genesis by accepted
transactions of any kind, an account without an owner has no balance and no data. -/
theorem unowned_empty (hsound : SoundProofs S events)
    (hids : ∀ program ∈ builtinPrograms, program.id ≠ defaultProgramId)
    (hgenesis : V03State.newWithGenesisAccounts initialData notes genesisTimestamp = .ok st₀)
    (hrun : Run Accepted st₀ events st) (id : AccountId)
    (howner : (st.getAccountById id).programOwner = defaultProgramId) :
    (st.getAccountById id).balance = 0 ∧ (st.getAccountById id).data = Data.empty :=
  emptyIfUnowned_of_run hsound hids hgenesis hrun id howner

end

namespace Cosigner

/-- The sender of the transfer signs, and so does key `3`, which has nothing to do with it. -/
def transfer : Event := RepeatedSigner.transfer [1, 3]

def after : V03State :=
  let _ := Sample.sha256; let _ := Sample.zkvm RepeatedSigner.script; let _ := Sample.schnorr
  valueD RepeatedSigner.genesis (RepeatedSigner.genesis.transition transfer)

/-- The transfer leaves the account of key `3` without an owner and with a nonce; key `4` has no
part in it. -/
theorem evaluated :
    let _ := Sample.sha256; let _ := Sample.zkvm RepeatedSigner.script; let _ := Sample.schnorr
    (RepeatedSigner.genesis.transition transfer).isOk = true ∧
    ((after.getAccountById (Sample.signer 3)).programOwner = defaultProgramId ∧
      (after.getAccountById (Sample.signer 3)).nonce = ⟨1⟩) ∧
    (after.getAccountById (Sample.signer 4)).programOwner = defaultProgramId ∧
      ∀ e ∈ [transfer], Sample.signer 4 ∉ e.tx.signerAccountIds := by
  decide +kernel

theorem run :
    let _ := Sample.sha256; let _ := Sample.zkvm RepeatedSigner.script; let _ := Sample.schnorr
    Run Accepted RepeatedSigner.genesis [transfer] after := by
  intro _ _ _
  exact Run.nil.snoc (eq_ok_valueD RepeatedSigner.genesis evaluated.1)

end Cosigner

/-- After the transfer the account of key `3` has no owner, and a nonce. -/
theorem unowned_empty_cosigner :
    (Cosigner.after.getAccountById (Sample.signer 3)).programOwner = defaultProgramId ∧
    (Cosigner.after.getAccountById (Sample.signer 3)).nonce = ⟨1⟩ ∧
    (Cosigner.after.getAccountById (Sample.signer 3)).balance = 0 ∧
    (Cosigner.after.getAccountById (Sample.signer 3)).data = Data.empty := by
  let _ := Sample.sha256
  let _ := Sample.zkvm RepeatedSigner.script
  let _ := Sample.schnorr
  let _ := Sample.chaCha20
  let _ := Sample.builtins
  obtain ⟨_, ⟨hunowned, hnonce⟩, _⟩ := Cosigner.evaluated
  refine ⟨hunowned, hnonce, ?_⟩
  exact unowned_empty (S := Set.univ) (fun e _ => Sample.sound _ _ e.tx)
    Sample.distinctBuiltins.ne_default RepeatedSigner.genesis_eq Cosigner.run _ hunowned

/-! ## Fresh accounts -/

section

variable [Sha256] [Zkvm] [ChaCha20] [Schnorr] [BuiltinPrograms] {S : Set Bytes}
  {initialData : List (AccountId × U128)} {notes : List (Commitment × Nullifier)}
  {genesisTimestamp : Timestamp} {st₀ st : V03State} {events : List Event}

omit [BuiltinPrograms] in
/-- **Run.**  A nonce is still zero exactly if its account has signed nothing. -/
theorem nonce_eq_zero_iff_of_run (hsound : SoundProofs S events) {id : AccountId}
    (h₀ : (st₀.getAccountById id).nonce = ⟨0⟩) (hrun : Run Accepted st₀ events st) :
    (st.getAccountById id).nonce = ⟨0⟩ ↔ ∀ e ∈ events, id ∉ e.tx.signerAccountIds := by
  have hzero : ∀ n : Nonce, n = ⟨0⟩ ↔ n.val.toNat = 0 := fun n =>
    ⟨fun h => by rw [h]; rfl, fun h => Nonce.eq_of_toNat_eq h⟩
  induction hrun with
  | nil => simp [h₀]
  | snoc _ hstep ih =>
      obtain ⟨hsound, hlast⟩ := soundProofs_concat.1 hsound
      have ih := ih hsound
      rw [hzero] at ih ⊢
      rw [nonce_of_accepted hlast hstep id, Nat.add_eq_zero_iff, List.count_eq_zero,
        List.forall_mem_append, List.forall_mem_singleton]
      exact and_congr_left fun _ => ih

omit [Zkvm] [ChaCha20] [Schnorr] in
theorem nonce_genesis
    (h : V03State.newWithGenesisAccounts initialData notes genesisTimestamp = .ok st)
    (id : AccountId) : (st.getAccountById id).nonce = ⟨0⟩ :=
  genesis_forall (P := fun a => a.nonce = ⟨0⟩) rfl rfl (fun _ => rfl) rfl h id

/-- An account without an owner is the default one exactly if it has signed nothing. -/
theorem eq_default_iff_of_run (hsound : SoundProofs S events)
    (hids : ∀ program ∈ builtinPrograms, program.id ≠ defaultProgramId)
    (hgenesis : V03State.newWithGenesisAccounts initialData notes genesisTimestamp = .ok st₀)
    (hrun : Run Accepted st₀ events st) {id : AccountId}
    (howner : (st.getAccountById id).programOwner = defaultProgramId) :
    st.getAccountById id = Account.default ↔ ∀ e ∈ events, id ∉ e.tx.signerAccountIds := by
  rw [← nonce_eq_zero_iff_of_run hsound (nonce_genesis hgenesis id) hrun]
  obtain ⟨hbalance, hdata⟩ := emptyIfUnowned_of_run hsound hids hgenesis hrun id howner
  constructor
  · intro h
    rw [h]
    rfl
  · intro h
    cases hget : st.getAccountById id
    rw [hget] at howner hbalance hdata h
    cases howner
    cases hbalance
    cases hdata
    cases h
    rfl

/-! ## Initialising an account -/

omit [Sha256] [Zkvm] [ChaCha20] [Schnorr] in
theorem transfer_ne_faucet (hids : DistinctBuiltins) :
    BuiltinPrograms.authenticatedTransfer.id ≠ BuiltinPrograms.faucet.id := by
  have hnodup := hids.nodup
  simp only [builtinPrograms, List.map_cons, List.nodup_cons] at hnodup
  intro heq
  exact hnodup.2.1 (by simp [heq])

/-- No clock account loses its owner. -/
theorem unowned_not_clock (hsound : SoundProofs S events)
    (hids : ∀ program ∈ builtinPrograms, program.id ≠ defaultProgramId)
    (hgenesis : V03State.newWithGenesisAccounts initialData notes genesisTimestamp = .ok st₀)
    (hrun : Run Accepted st₀ events st) {id : AccountId}
    (howner : (st.getAccountById id).programOwner = defaultProgramId) :
    id ∉ clockProgramAccountIds := by
  intro hid
  have hclock := hids BuiltinPrograms.clock List.mem_cons_self
  refine hclock (Eq.trans ?_ howner)
  refine (hrun.invariant_of_mem (I := fun st => (st.getAccountById id).programOwner =
    BuiltinPrograms.clock.id) ?_ fun e he _ _ hs h =>
      owner_of_accepted (hsound e he) h hclock hs).symm
  rw [clock_genesis hgenesis hid]
  rfl

variable [InstructionCodec AuthenticatedTransfer.Instruction]

/-- The transaction with which the holder of a key claims their account for the transfer
program. -/
def initializeTransaction (key : PublicKey) (nonce : Nonce) (signature : Signature) :
    PublicTransaction :=
  ⟨⟨BuiltinPrograms.authenticatedTransfer.id, [AccountId.ofPublicKey key], [nonce],
    InstructionCodec.toVec AuthenticatedTransfer.Instruction.initializeAccount⟩,
    [(signature, key)]⟩

/-- The call for a fresh account. -/
def initializeCall (id : AccountId) : PendingCall :=
  ⟨⟨BuiltinPrograms.authenticatedTransfer.id, [⟨Account.default, true, id⟩],
    InstructionCodec.toVec AuthenticatedTransfer.Instruction.initializeAccount, []⟩, none, {id}⟩

/-- What the transfer program reads for it. -/
def initializeInput (id : AccountId) : GuestInput :=
  ⟨BuiltinPrograms.authenticatedTransfer.id, none, [⟨Account.default, true, id⟩],
    InstructionCodec.toVec AuthenticatedTransfer.Instruction.initializeAccount⟩

/-- What it returns. -/
def initializeOutput (id : AccountId) : ProgramOutput :=
  (initializeInput id).output [.newClaimed Account.default .authorized] []

def initializedAccount : Account :=
  { Account.default with programOwner := BuiltinPrograms.authenticatedTransfer.id }

/-- What becomes of the state. -/
def initializedDiff (id : AccountId) : Accounts := Ledger.insertAll ∅ [(id, initializedAccount)]

omit [Sha256] [Zkvm] [ChaCha20] [Schnorr] in
theorem main_initializeInput (id : AccountId) :
    AuthenticatedTransfer.main (initializeInput id) = .ok (initializeOutput id) := by
  simp only [AuthenticatedTransfer.main, readInstruction, initializeInput,
    InstructionCodec.deserialize_toVec]
  rfl

omit [Zkvm] [ChaCha20] [Schnorr] in
theorem initialCall_initializeTransaction {key : PublicKey}
    (hfresh : st.getAccountById (AccountId.ofPublicKey key) = Account.default) (nonce : Nonce)
    (signature : Signature) :
    (initializeTransaction key nonce signature).initialCall st =
      initializeCall (AccountId.ofPublicKey key) := by
  simp [PublicTransaction.initialCall, initializeTransaction, inputPreStates, hfresh,
    PublicTransaction.signerAccountIds, signerAccountIds, initializeCall]

omit [Sha256] [Zkvm] [ChaCha20] [Schnorr] in
theorem validateExecution_initializeOutput (id : AccountId) (executing : ProgramId) :
    validateExecution (initializeOutput id).preStates (initializeOutput id).postStates executing =
      .ok () := by
  simp only [validateExecution, bind_eq_ok, ensure_eq_ok, exists_const, forM_eq_ok]
  refine ⟨rfl, rfl, fun p hp => ?_, ⟨0, 0⟩, rfl, ⟨0, 0⟩, rfl, rfl⟩
  obtain rfl : p = (⟨Account.default, true, id⟩, .newClaimed Account.default .authorized) :=
    List.mem_singleton.1 hp
  simp only [validatePair, bind_eq_ok, ensure_eq_ok, exists_const]
  exact ⟨rfl, rfl, fun h => absurd h (BitVec.lt_irrefl _), fun h => absurd rfl h, fun _ => trivial⟩

omit [ChaCha20] [Schnorr] in
/-- Executing the call passes all checks. -/
theorem executeCall_initializeCall {id : AccountId}
    (hexecutes : Zkvm.execute BuiltinPrograms.authenticatedTransfer.elf (initializeInput id) =
      .ok (initializeOutput id))
    (hdeployed : st.programs.lookup BuiltinPrograms.authenticatedTransfer.id =
      some BuiltinPrograms.authenticatedTransfer)
    (hfresh : st.getAccountById id = Account.default)
    (blockId : BlockId) (timestamp : Timestamp) :
    executeCall st blockId timestamp (initializeCall id) ∅ =
      .ok (initializeOutput id, initializedDiff id) := by
  have hout : (initializeCall id).output st = .ok (initializeOutput id) := by
    simp only [PendingCall.output, initializeCall, hdeployed, Program.execute, mapError_eq_ok]
    exact hexecutes
  simp only [executeCall, bind_eq_ok, mapError_eq_ok, forM_eq_ok, pure, Except.pure,
    Except.ok.injEq, Prod.mk.injEq]
  refine ⟨_, hout, (), ?_, (), ?_, [initializedAccount], ?_, rfl, rfl⟩
  · intro pre hpre
    obtain rfl : pre = ⟨Account.default, true, id⟩ := List.mem_singleton.1 hpre
    simp only [checkPreState, bind_eq_ok, ensure_eq_ok, exists_const, Ledger.overlay_empty]
    exact ⟨hfresh.symm, fun _ => .inr (Finset.mem_singleton_self id)⟩
  · simp only [checkOutput, bind_eq_ok, ensure_eq_ok, exists_const, mapError_eq_ok]
    refine ⟨rfl, rfl, (), ?_, rfl, rfl⟩
    exact validateExecution_initializeOutput id _
  · simp only [initializeOutput, initializeInput, GuestInput.output, ProgramOutput.new,
      ProgramOutput.withChainedCalls, claimAccounts, bind_eq_ok, mapError_eq_ok, claimAccount,
      AccountPostState.newClaimed, checkClaim, ensure_eq_ok, exists_const, pure, Except.pure,
      Except.ok.injEq]
    exact ⟨initializedAccount, ⟨rfl, trivial, rfl⟩, [], rfl, rfl⟩

omit [Sha256] [Zkvm] [ChaCha20] [Schnorr] [InstructionCodec AuthenticatedTransfer.Instruction] in
theorem eq_of_lookup_initializedDiff {id id' : AccountId} {post : Account}
    (h : (initializedDiff id).lookup id' = some post) : id' = id ∧ post = initializedAccount := by
  by_cases hid : id' = id
  · subst hid
    rw [initializedDiff, Ledger.insertAll, Ledger.insertAll, AList.lookup_insert] at h
    exact ⟨rfl, (Option.some.inj h).symm⟩
  · rw [initializedDiff, Ledger.lookup_insertAll_of_notMem (by simpa using hid)] at h
    cases h

omit [ChaCha20] in
/-- The transaction is valid for a fresh account. -/
theorem fromPublicTransaction_initialize {key : PublicKey} {id : AccountId}
    (hid : AccountId.ofPublicKey key = id)
    (hexecutes : Zkvm.execute BuiltinPrograms.authenticatedTransfer.elf (initializeInput id) =
      .ok (initializeOutput id))
    (hdeployed : st.programs.lookup BuiltinPrograms.authenticatedTransfer.id =
      some BuiltinPrograms.authenticatedTransfer)
    (howner : BuiltinPrograms.authenticatedTransfer.id ≠ defaultProgramId)
    (hfresh : st.getAccountById id = Account.default) {signature : Signature}
    (hsigned : (initializeTransaction key (st.getAccountById id).nonce signature).isSigned = true)
    (blockId : BlockId) (timestamp : Timestamp) :
    fromPublicTransaction (initializeTransaction key (st.getAccountById id).nonce signature) st
      blockId timestamp = .ok ⟨[id], initializedDiff id, [], [], none⟩ := by
  subst hid
  simp only [fromPublicTransaction, bind_eq_ok, mapError_eq_ok, pure, Except.pure,
    Except.ok.injEq]
  refine ⟨(), ?_, initializedDiff _, ?_, (), ?_, rfl⟩
  · simp only [PublicTransaction.checkMessage, bind_eq_ok, ensure_eq_ok, exists_const, checkNonces,
      forM_eq_ok]
    refine ⟨rfl, rfl, hsigned, fun p hp => ?_⟩
    rw [List.mem_singleton.1 hp]
  · rw [initialCall_initializeTransaction hfresh]
    exact Machine.run_leaf
      (executeCall_initializeCall hexecutes hdeployed hfresh blockId timestamp) rfl
  · simp only [checkDefaultAccountsClaimed, forM_eq_ok, ensure_eq_ok]
    rintro ⟨id, post⟩ hmem _ _
    rw [(eq_of_lookup_initializedDiff (Ledger.mem_pairs.1 hmem)).2]
    exact howner

omit [Zkvm] [ChaCha20] [Schnorr] [InstructionCodec AuthenticatedTransfer.Instruction] in
theorem applyStateDiff_initialized (st : V03State) (id : AccountId) :
    ∃ st', st.applyStateDiff ⟨[id], initializedDiff id, [], [], none⟩ = .ok st' ∧
      (st'.getAccountById id).programOwner = BuiltinPrograms.authenticatedTransfer.id := by
  have hoverlay : Ledger.overlay Account.default st.publicState (initializedDiff id) id =
      initializedAccount :=
    Ledger.overlay_insertAll_of_mem (l := [(id, initializedAccount)]) (List.nodup_singleton _)
      (List.mem_singleton_self _)
  have happly : ∃ st', st.applyStateDiff ⟨[id], initializedDiff id, [], [], none⟩ = .ok st' := by
    have hget : Accounts.get (Ledger.insertAll st.publicState (Ledger.pairs (initializedDiff id)))
        id = initializedAccount := (Ledger.get_insertAll_pairs _ _).trans hoverlay
    simp only [V03State.applyStateDiff, Accounts.incrementNonces, hget]
    exact ⟨_, rfl⟩
  obtain ⟨st', hst'⟩ := happly
  refine ⟨st', hst', ?_⟩
  rw [(V03State.getAccountById_applyStateDiff hst' id).1, hoverlay]
  rfl

/-- **Initialisation.**  In a state reached from genesis, the holder of a key whose account has
no owner can give it to the transfer program, with the current nonce and any valid signature,
if and only if the account signed none of the transactions of the run. -/
theorem initializable_iff (hsound : SoundProofs S events)
    (htransfer : BuiltinPrograms.authenticatedTransfer.Implements AuthenticatedTransfer.main)
    (hids : DistinctBuiltins) {key : PublicKey} {id : AccountId}
    (hid : AccountId.ofPublicKey key = id)
    (hexecutes : ∀ out, AuthenticatedTransfer.main (initializeInput id) = .ok out →
      Zkvm.execute BuiltinPrograms.authenticatedTransfer.elf (initializeInput id) = .ok out)
    (hgenesis : V03State.newWithGenesisAccounts initialData notes genesisTimestamp = .ok st₀)
    (hrun : Run Accepted st₀ events st)
    (howner : (st.getAccountById id).programOwner = defaultProgramId) {signature : Signature}
    (hsigned : (initializeTransaction key (st.getAccountById id).nonce signature).isSigned = true)
    (blockId : BlockId) (timestamp : Timestamp) :
    (∃ st', (NSSATransaction.publicTx (initializeTransaction key (st.getAccountById id).nonce
          signature)).executeCheckOnState st blockId timestamp = .ok st' ∧
        (st'.getAccountById id).programOwner = BuiltinPrograms.authenticatedTransfer.id) ↔
      ∀ e ∈ events, id ∉ e.tx.signerAccountIds := by
  have hdeployed :=
    builtinsDeployed_of_run hids hgenesis hrun _ transfer_mem_builtinPrograms
  rw [← eq_default_iff_of_run hsound hids.ne_default hgenesis hrun howner]
  constructor
  · rintro ⟨st', hst', _⟩
    simp only [NSSATransaction.executeCheckOnState, NSSATransaction.validateOnState,
      bind_eq_ok] at hst'
    obtain ⟨_, ⟨_, _, diff, hdiff, _⟩, _⟩ := hst'
    obtain ⟨_, hruns, _⟩ := runs_of_fromPublicTransaction hdiff
    obtain ⟨out, _, hstep⟩ := hruns.step_of_head
    have hmain := main_of_executed htransfer hdeployed rfl (validCall_of_executeCall hstep).output
    have hfresh := AuthenticatedTransfer.fresh_of_main_initialize hmain
    rwa [hid] at hfresh
  · intro hfresh
    have hdiff := fromPublicTransaction_initialize hid (hexecutes _ (main_initializeInput id))
      hdeployed (hids.ne_default _ transfer_mem_builtinPrograms) hfresh hsigned blockId timestamp
    obtain ⟨st', happly, hst'⟩ := applyStateDiff_initialized st id
    refine ⟨st', ?_, hst'⟩
    simp only [NSSATransaction.executeCheckOnState, NSSATransaction.validateOnState, bind_eq_ok,
      mapError_eq_ok, pure, Except.pure, Except.ok.injEq]
    refine ⟨_, ⟨(), ensure_of _ (transfer_ne_faucet hids), _, hdiff, (), ?_, rfl⟩, happly⟩
    refine ensure_of _ fun clock hclock post hpost => ?_
    rw [(eq_of_lookup_initializedDiff hpost).1] at hclock
    exact absurd hclock (unowned_not_clock hsound hids.ne_default hgenesis hrun howner)

end

/-- Key `3` signs a transfer along with its sender.  Its account still has no owner, and it
can not be initialised with its current nonce. -/
theorem cosigner_locked_out :
    let _ := Sample.sha256; let _ := Sample.zkvm RepeatedSigner.script; let _ := Sample.schnorr
    let _ := Sample.builtins; let _ := Sample.transferCodec
    V03State.newWithGenesisAccounts RepeatedSigner.initialData [] 0 =
      .ok RepeatedSigner.genesis ∧
    Run Accepted RepeatedSigner.genesis [Cosigner.transfer] Cosigner.after ∧
    (Cosigner.after.getAccountById (Sample.signer 3)).programOwner = defaultProgramId ∧
    (Cosigner.after.getAccountById (Sample.signer 3)).nonce = ⟨1⟩ ∧
    (NSSATransaction.publicTx (initializeTransaction (Sample.publicKey 3) ⟨1⟩
      ⟨Vector.replicate 64 0⟩)).executeCheckOnState Cosigner.after 0 0 =
        .error (.err (.programExecutionFailed "Account must be uninitialized")) := by
  intro _ _ _ _ _
  obtain ⟨_, ⟨hunowned, hnonce⟩, _⟩ := Cosigner.evaluated
  exact ⟨RepeatedSigner.genesis_eq, Cosigner.run, hunowned, hnonce, by decide +kernel⟩

/-- Key `4`, which signed nothing, can claim its account. -/
theorem initializable_iff_bystander :
    let _ := Sample.sha256; let _ := Sample.zkvm RepeatedSigner.script; let _ := Sample.schnorr
    let _ := Sample.builtins; let _ := Sample.transferCodec
    ∃ st', (NSSATransaction.publicTx (initializeTransaction (Sample.publicKey 4)
        (Cosigner.after.getAccountById (Sample.signer 4)).nonce
        ⟨Vector.replicate 64 0⟩)).executeCheckOnState Cosigner.after 0 0 = .ok st' ∧
      (st'.getAccountById (Sample.signer 4)).programOwner =
        BuiltinPrograms.authenticatedTransfer.id := by
  intro _ _ _ _ _
  let _ := Sample.chaCha20
  obtain ⟨_, _, howner, hsigners⟩ := Cosigner.evaluated
  exact (initializable_iff (S := Set.univ) (fun e _ => Sample.sound _ _ e.tx)
    (Sample.transfer_implements _ _) Sample.distinctBuiltins rfl (fun out h => h)
    RepeatedSigner.genesis_eq Cosigner.run howner rfl 0 0).2 hsigners

end ExecutionZone
