import ExecutionZone.Lib.CallTree
import ExecutionZone.Transaction.Types

/-!
# Public execution

`ValidatedStateDiff::from_public_transaction`: the transaction's own call is executed,
then the calls it chains, depth first.  Each executed output is checked against the
pending diff over the state, against what its caller may authorise, and against
`validate_execution`; its claims are granted and its post states enter the diff.

The loop is the machine `publicMachine`.  `ValidCall` says what one executed call that
passed all checks has to satisfy; it is the only thing later arguments use about a call.
-/

namespace ExecutionZone

open CallTree

/-- Validation of a transaction: it succeeds, reports an error or panics. -/
abbrev Validation := Except (Fault NssaError)

/-- Who issued a pending call. -/
structure CallerData where
  programId : Option ProgramId
  authorizedAccounts : Finset AccountId
deriving DecidableEq

/-- A pending call with its caller. -/
structure PendingCall where
  call : ChainedCall
  caller : CallerData
deriving DecidableEq

variable [Sha256]

/-- The accounts a pending call may mark as authorised. -/
def PendingCall.mayAuthorize (c : PendingCall) (accountId : AccountId) : Prop :=
  accountId ∈ computePublicAuthorizedPdas c.caller.programId c.call.pdaSeeds ∨
    accountId ∈ c.caller.authorizedAccounts

instance (c : PendingCall) (accountId : AccountId) : Decidable (c.mayAuthorize accountId) :=
  inferInstanceAs (Decidable (_ ∨ _))

/-! ## One call -/

/-- `Program::execute`. -/
def Program.execute [Zkvm] (program : Program) (callerProgramId : Option ProgramId)
    (preStates : List AccountWithMetadata) (instructionData : InstructionData) :
    Except NssaError ProgramOutput :=
  (Zkvm.execute program.elf ⟨program.id, callerProgramId, preStates, instructionData⟩).mapError
    .programExecutionFailed

/-- Look up the program of a call and execute it on the requested pre states. -/
def PendingCall.output [Zkvm] (c : PendingCall) (st : V03State) :
    Except NssaError ProgramOutput :=
  match st.programs.lookup c.call.programId with
  | none => .error (.invalidInput "Unknown program")
  | some program =>
      program.execute c.caller.programId c.call.preStates c.call.instructionData

/-- The checks on one pre state of an output. -/
def checkPreState (st : V03State) (diff : Accounts) (c : PendingCall)
    (pre : AccountWithMetadata) : Except NssaError Unit := do
  let expected := Ledger.overlay Account.default st.publicState diff pre.accountId
  ensure (pre.account = expected) (.invalidProgramBehavior
    (.inconsistentAccountPreState pre.accountId expected pre.account))
  ensure (pre.isAuthorized = true → c.mayAuthorize pre.accountId)
    (.invalidProgramBehavior (.invalidAccountAuthorization pre.accountId))

/-- The checks on an output as a whole. -/
def checkOutput (blockId : BlockId) (timestamp : Timestamp) (c : PendingCall)
    (out : ProgramOutput) : Except NssaError Unit := do
  ensure (out.selfProgramId = c.call.programId)
    (.invalidProgramBehavior (.mismatchedProgramId c.call.programId out.selfProgramId))
  ensure (out.callerProgramId = c.caller.programId)
    (.invalidProgramBehavior (.mismatchedCallerProgramId c.caller.programId out.callerProgramId))
  (validateExecution out.preStates out.postStates c.call.programId).mapError
    fun e => .invalidProgramBehavior (.executionValidationFailed e)
  ensure (out.blockValidityWindow.isValidFor blockId ∧
      out.timestampValidityWindow.isValidFor timestamp) .outOfValidityWindow

/-- Whether `programId` may claim the account of `pre`. -/
def checkClaim (programId : ProgramId) (pre : AccountWithMetadata) :
    Claim → Except NssaError Unit
  | .authorized => ensure (pre.isAuthorized = true)
      (.invalidProgramBehavior (.claimedUnauthorizedAccount pre.accountId))
  | .pda seed =>
      let pda := AccountId.forPublicPda programId seed
      ensure (pre.accountId = pda) (.invalidProgramBehavior (.mismatchedPdaClaim pda pre.accountId))

/-- The account of a post state once its claim, if any, is granted. -/
def claimAccount (programId : ProgramId) (pre : AccountWithMetadata) (post : AccountPostState) :
    Except NssaError Account :=
  match post.claim with
  | none => .ok post.account
  | some claim => do
      ensure (post.account.programOwner = defaultProgramId)
        (.invalidProgramBehavior (.claimedNonDefaultAccount pre.accountId))
      checkClaim programId pre claim
      return { post.account with programOwner := programId }

/-- The loop over the claims.  A post state without a pre state at its index panics if
it makes a claim. -/
def claimAccounts (programId : ProgramId) :
    List AccountWithMetadata → List AccountPostState → Validation (List Account)
  | _, [] => .ok []
  | [], post :: posts => do
      ensure (post.claim = none) (.panic "index out of bounds")
      return post.account :: (← claimAccounts programId [] posts)
  | pre :: pres, post :: posts => do
      let account ← (claimAccount programId pre post).mapError .err
      return account :: (← claimAccounts programId pres posts)

/-- One turn of the loop: execute a call, check its output, extend the diff. -/
def executeCall [Zkvm] (st : V03State) (blockId : BlockId) (timestamp : Timestamp)
    (c : PendingCall) (diff : Accounts) : Validation (ProgramOutput × Accounts) := do
  let out ← (c.output st).mapError .err
  (out.preStates.forM (checkPreState st diff c)).mapError .err
  (checkOutput blockId timestamp c out).mapError .err
  let accounts ← claimAccounts c.call.programId out.preStates out.postStates
  return (out, Ledger.insertAll diff ((out.preStates.map (·.accountId)).zip accounts))

/-- The calls an output chains.  What they may authorise are the accounts the *request*
of their caller marked, whatever the caller's output says. -/
def chainCalls (c : PendingCall) (out : ProgramOutput) : List PendingCall :=
  out.chainedCalls.map fun call =>
    ⟨call, some c.call.programId, (authorizedIds c.call.preStates).toFinset⟩

/-- The loop of `from_public_transaction`. -/
def publicMachine [Zkvm] (st : V03State) (blockId : BlockId) (timestamp : Timestamp) :
    Machine PendingCall ProgramOutput Accounts (Fault NssaError) where
  step := executeCall st blockId timestamp
  children := chainCalls
  exceeded := .err .maxChainedCallsDepthExceeded

/-! ## The transaction -/

/-- The number of executed calls the loop lets through: the counter is compared with the
maximum before it is increased. -/
def callBudget : Nat := maxNumberChainedCalls + 1

/-- The pre states of the accounts a message names. -/
def inputPreStates (st : V03State) (signers accountIds : List AccountId) :
    List AccountWithMetadata :=
  accountIds.map fun id => ⟨st.getAccountById id, decide (id ∈ signers), id⟩

/-- The transaction's own call. -/
def PublicTransaction.initialCall (tx : PublicTransaction) (st : V03State) : PendingCall :=
  ⟨⟨tx.message.programId, inputPreStates st tx.signerAccountIds tx.message.accountIds,
    tx.message.instructionData, []⟩, none, tx.signerAccountIds.toFinset⟩

/-- The nonce of each signer is its current one. -/
def checkNonces (st : V03State) (signers : List AccountId) (nonces : List Nonce) :
    Except NssaError Unit :=
  (signers.zip nonces).forM fun (accountId, nonce) =>
    ensure ((st.getAccountById accountId).nonce = nonce) (.invalidInput "Nonce mismatch")

/-- The checks before anything is executed. -/
def PublicTransaction.checkMessage [Schnorr] (tx : PublicTransaction) (st : V03State) :
    Except NssaError Unit := do
  ensure (tx.message.accountIds.toFinset.card = tx.message.accountIds.length)
    (.invalidInput "Duplicate account_ids found in message")
  ensure (tx.message.nonces.length = tx.signaturesAndPublicKeys.length)
    (.invalidInput "Mismatch between number of nonces and signatures/public keys")
  ensure (tx.isSigned = true)
    (.invalidInput "Invalid signature for given message and public key")
  checkNonces st tx.signerAccountIds tx.message.nonces

/-- All modified accounts without an owner were claimed. -/
def checkDefaultAccountsClaimed (st : V03State) (diff : Accounts) : Except NssaError Unit :=
  (Ledger.pairs diff).forM fun (accountId, post) =>
    ensure ((st.getAccountById accountId).programOwner = defaultProgramId →
        st.getAccountById accountId ≠ post → post.programOwner ≠ defaultProgramId)
      (.invalidProgramBehavior (.defaultAccountModifiedWithoutClaim accountId))

/-- `ValidatedStateDiff::from_public_transaction`. -/
def fromPublicTransaction [Zkvm] [Schnorr] (tx : PublicTransaction) (st : V03State)
    (blockId : BlockId) (timestamp : Timestamp) : Validation StateDiff := do
  (tx.checkMessage st).mapError .err
  let diff ← (publicMachine st blockId timestamp).run callBudget [tx.initialCall st] ∅
  (checkDefaultAccountsClaimed st diff).mapError .err
  return ⟨tx.signerAccountIds, diff, [], [], none⟩

/-- `transition_from_public_transaction`. -/
def V03State.transitionFromPublicTransaction [Zkvm] [Schnorr] (st : V03State)
    (tx : PublicTransaction) (blockId : BlockId) (timestamp : Timestamp) :
    Validation V03State := do
  let diff ← fromPublicTransaction tx st blockId timestamp
  (st.applyStateDiff diff).mapError .panic

/-- The calls executed for a transaction, in order, if they all pass. -/
def executedCalls [Zkvm] (tx : PublicTransaction) (st : V03State) (blockId : BlockId)
    (timestamp : Timestamp) : List (Executed PendingCall ProgramOutput) :=
  match (publicMachine st blockId timestamp).trace callBudget [(tx.initialCall st, [])] ∅ with
  | .ok (calls, _) => calls
  | .error _ => []

/-! ## What an executed call satisfies -/

theorem claimAllowed_of_checkClaim {programId : ProgramId} {pre : AccountWithMetadata}
    {claim : Claim} {u : Unit} (h : checkClaim programId pre claim = .ok u) :
    ClaimAllowed programId pre claim := by
  cases claim with
  | authorized => simpa only [checkClaim, ensure_eq_ok, ClaimAllowed] using h
  | pda seed => simpa only [checkClaim, ensure_eq_ok, ClaimAllowed] using h

theorem granted_of_claimAccount {programId : ProgramId} {pre : AccountWithMetadata}
    {post : AccountPostState} {account : Account}
    (h : claimAccount programId pre post = .ok account) : Granted programId pre post account := by
  unfold claimAccount at h
  split at h
  · rename_i hclaim
    cases h
    exact .unclaimed hclaim
  · rename_i claim hclaim
    simp only [bind_eq_ok, ensure_eq_ok, pure, Except.pure, Except.ok.injEq] at h
    obtain ⟨_, howner, _, hallowed, rfl⟩ := h
    exact .claimed hclaim howner (claimAllowed_of_checkClaim hallowed)

theorem granted_of_claimAccounts {programId : ProgramId} {pres : List AccountWithMetadata}
    {posts : List AccountPostState} {accounts : List Account}
    (h : claimAccounts programId pres posts = .ok accounts) (hlen : pres.length = posts.length) :
    List.Forall₂ (fun p account => Granted programId p.1 p.2 account) (pres.zip posts)
      accounts := by
  induction pres generalizing posts accounts with
  | nil =>
      cases posts with
      | nil => cases h; exact .nil
      | cons post posts => simp at hlen
  | cons pre pres ih =>
      cases posts with
      | nil => simp at hlen
      | cons post posts =>
          simp only [claimAccounts, bind_eq_ok, pure, Except.pure, Except.ok.injEq] at h
          obtain ⟨account, haccount, rest, hrest, rfl⟩ := h
          exact .cons (granted_of_claimAccount (mapError_eq_ok.1 haccount))
            (ih hrest (by simpa using hlen))

/-- What a call that passed all checks satisfies. -/
structure ValidCall [Zkvm] (st : V03State) (blockId : BlockId) (timestamp : Timestamp)
    (c : PendingCall) (diff : Accounts) (out : ProgramOutput) (diff' : Accounts) : Prop where
  output : c.output st = .ok out
  consistent : ∀ pre ∈ out.preStates,
    pre.account = Ledger.overlay Account.default st.publicState diff pre.accountId
  authorized : ∀ pre ∈ out.preStates, pre.isAuthorized = true → c.mayAuthorize pre.accountId
  selfProgramId : out.selfProgramId = c.call.programId
  callerProgramId : out.callerProgramId = c.caller.programId
  valid : ValidExecution out.preStates out.postStates c.call.programId
  diff_eq : ∃ accounts,
    List.Forall₂ (fun p account => Granted c.call.programId p.1 p.2 account) out.zipped accounts ∧
      diff' = Ledger.insertAll diff ((out.preStates.map (·.accountId)).zip accounts)

/-- The specification of one turn of the loop. -/
theorem validCall_of_executeCall [Zkvm] {st : V03State} {blockId : BlockId}
    {timestamp : Timestamp} {c : PendingCall} {diff : Accounts} {out : ProgramOutput}
    {diff' : Accounts} (h : executeCall st blockId timestamp c diff = .ok (out, diff')) :
    ValidCall st blockId timestamp c diff out diff' := by
  simp only [executeCall, bind_eq_ok, mapError_eq_ok, forM_eq_ok, pure, Except.pure,
    Except.ok.injEq, Prod.mk.injEq] at h
  obtain ⟨_, hout, _, hpre, _, hcheck, accounts, haccounts, rfl, rfl⟩ := h
  simp only [checkOutput, bind_eq_ok, ensure_eq_ok, mapError_eq_ok, exists_const] at hcheck
  obtain ⟨hself, hcaller, _, hvalid, _⟩ := hcheck
  simp only [checkPreState, bind_eq_ok, ensure_eq_ok, exists_const] at hpre
  have hvalid := validExecution_of_validateExecution hvalid
  exact ⟨hout, fun pre hp => (hpre pre hp).1, fun pre hp => (hpre pre hp).2, hself, hcaller,
    hvalid, accounts, granted_of_claimAccounts haccounts hvalid.length_eq, rfl⟩

omit [Sha256] in
theorem zip_ids_eq {pres : List AccountWithMetadata} {posts : List AccountPostState}
    (hlen : pres.length = posts.length) (accounts : List Account) :
    (pres.map (·.accountId)).zip accounts =
      ((pres.zip posts).zip accounts).map fun e => (e.1.1.accountId, e.2) := by
  induction pres generalizing posts accounts with
  | nil => simp
  | cons pre pres ih =>
      cases posts with
      | nil => simp at hlen
      | cons post posts =>
          cases accounts with
          | nil => simp
          | cons account accounts =>
              have hlen' : pres.length = posts.length := by simpa using hlen
              simp [ih hlen']

/-- **One call, one account.**  An account the output does not list keeps its value; a
listed one had its current value as pre state, and gets what is granted of its post state. -/
theorem ValidCall.account [Zkvm] {st : V03State} {blockId : BlockId} {timestamp : Timestamp}
    {c : PendingCall} {diff : Accounts} {out : ProgramOutput} {diff' : Accounts}
    (h : ValidCall st blockId timestamp c diff out diff') (id : AccountId) :
    (id ∉ out.preStates.map (·.accountId) ∧
      Ledger.overlay Account.default st.publicState diff' id =
        Ledger.overlay Account.default st.publicState diff id) ∨
    ∃ pre post, (pre, post) ∈ out.zipped ∧ pre.accountId = id ∧
      pre.account = Ledger.overlay Account.default st.publicState diff id ∧
      Granted c.call.programId pre post
        (Ledger.overlay Account.default st.publicState diff' id) := by
  obtain ⟨accounts, hgranted, rfl⟩ := h.diff_eq
  rw [List.forall₂_iff_zip] at hgranted
  obtain ⟨hlen, hgranted⟩ := hgranted
  have hlen' : out.preStates.length = accounts.length := by
    rw [← hlen, ProgramOutput.zipped, List.length_zip, ← h.valid.length_eq, Nat.min_self]
  have hkeys : ((out.preStates.map (·.accountId)).zip accounts).map Prod.fst =
      out.preStates.map (·.accountId) := by
    rw [List.map_fst_zip (by simp [hlen'])]
  by_cases hid : id ∈ out.preStates.map (·.accountId)
  · right
    rw [← hkeys] at hid
    obtain ⟨⟨id', account⟩, hmem, rfl⟩ := List.mem_map.1 hid
    have hoverlay : Ledger.overlay Account.default st.publicState
        (Ledger.insertAll diff ((out.preStates.map (·.accountId)).zip accounts)) id' = account :=
      Ledger.overlay_insertAll_of_mem (by rw [hkeys]; exact h.valid.nodup) hmem
    rw [zip_ids_eq h.valid.length_eq] at hmem
    obtain ⟨⟨⟨pre, post⟩, account'⟩, hentry, heq⟩ := List.mem_map.1 hmem
    simp only [Prod.mk.injEq] at heq
    obtain ⟨rfl, rfl⟩ := heq
    refine ⟨pre, post, (List.of_mem_zip hentry).1, rfl, ?_, ?_⟩
    · exact h.consistent pre (List.of_mem_zip (List.of_mem_zip hentry).1).1
    · rw [zip_ids_eq h.valid.length_eq] at hoverlay ⊢
      rw [hoverlay]
      exact hgranted hentry
  · left
    refine ⟨hid, Ledger.overlay_insertAll_of_notMem ?_⟩
    rw [hkeys]
    exact hid

/-- **One call, all accounts.**  If for each listed account what is granted exchanges `before`
for `after` in a measure, so does the call in the total. -/
theorem ValidCall.totalBy [Zkvm] {st : V03State} {blockId : BlockId} {timestamp : Timestamp}
    {c : PendingCall} {diff : Accounts} {out : ProgramOutput} {diff' : Accounts}
    (h : ValidCall st blockId timestamp c diff out diff') {f : AccountId → Account → Nat}
    (hf : ∀ id, f id Account.default = 0) {ε : Type*} {l : List ε}
    {entry : ε → AccountWithMetadata × AccountPostState} (hl : l.map entry = out.zipped)
    (before after : ε → Nat)
    (hone : ∀ x ∈ l, ∀ account, Granted c.call.programId (entry x).1 (entry x).2 account →
      f (entry x).1.accountId account + before x =
        f (entry x).1.accountId (entry x).1.account + after x) :
    Ledger.totalBy f Account.default (Ledger.insertAll st.publicState (Ledger.pairs diff')) +
        (l.map before).sum =
      Ledger.totalBy f Account.default (Ledger.insertAll st.publicState (Ledger.pairs diff)) +
        (l.map after).sum := by
  obtain ⟨accounts, hgranted, rfl⟩ := h.diff_eq
  rw [← hl, List.forall₂_map_left_iff, List.forall₂_iff_zip] at hgranted
  obtain ⟨hlen, hgranted⟩ := hgranted
  have hids : (out.preStates.map (·.accountId)).zip accounts =
      (l.zip accounts).map fun e => ((entry e.1).1.accountId, e.2) := by
    rw [zip_ids_eq h.valid.length_eq, ← ProgramOutput.zipped, ← hl, List.zip_map_left,
      List.map_map]
    rfl
  have hkeys : ((l.zip accounts).map fun e => ((entry e.1).1.accountId, e.2)).map Prod.fst =
      out.preStates.map (·.accountId) := by
    rw [← hids, List.map_fst_zip]
    rw [List.length_map, ← hlen, ← List.length_map (f := entry), hl, ProgramOutput.zipped,
      List.length_zip, ← h.valid.length_eq, Nat.min_self]
  have htotal := Ledger.totalBy_overlay_insertAll hf st.publicState diff
    (hkeys.symm ▸ h.valid.nodup)
  rw [List.map_map, List.map_map] at htotal
  -- what is written is what is granted, what stood there is the pre state
  have hexchange := Ledger.sum_map_exchange (l := l.zip accounts)
    (u := fun e => f (entry e.1).1.accountId e.2) (b := fun e => before e.1)
    (v := fun e => f (entry e.1).1.accountId
      (Ledger.overlay Account.default st.publicState diff (entry e.1).1.accountId))
    (c := fun e => after e.1) fun e he => by
      have hmem := (List.of_mem_zip he).1
      have hzipped : entry e.1 ∈ out.zipped := hl ▸ List.mem_map_of_mem hmem
      rw [← h.consistent _ (List.of_mem_zip hzipped).1]
      exact hone e.1 hmem e.2 (hgranted he)
  rw [Ledger.map_zip_fst (Nat.le_of_eq hlen), Ledger.map_zip_fst (Nat.le_of_eq hlen)] at hexchange
  simp only [Function.comp_def] at htotal
  rw [hids]
  omega

/-! ## What an accepted transaction satisfies -/

/-- An accepted transaction passed the checks before, during and after execution, and its
executed calls are a run of the machine. -/
theorem runs_of_fromPublicTransaction [Zkvm] [Schnorr] {tx : PublicTransaction} {st : V03State}
    {blockId : BlockId} {timestamp : Timestamp} {diff : StateDiff}
    (h : fromPublicTransaction tx st blockId timestamp = .ok diff) :
    tx.checkMessage st = .ok () ∧
    (publicMachine st blockId timestamp).Runs [(tx.initialCall st, [])] ∅
      (executedCalls tx st blockId timestamp) diff.publicDiff ∧
    checkDefaultAccountsClaimed st diff.publicDiff = .ok () ∧
    diff = ⟨tx.signerAccountIds, diff.publicDiff, [], [], none⟩ := by
  simp only [fromPublicTransaction, bind_eq_ok, mapError_eq_ok, pure, Except.pure,
    Except.ok.injEq] at h
  obtain ⟨_, hmsg, publicDiff, hrun, _, hclaimed, rfl⟩ := h
  obtain ⟨calls, htrace⟩ := Machine.exists_runs_of_run (q := [(tx.initialCall st, [])]) hrun
  refine ⟨hmsg, ?_, hclaimed, rfl⟩
  have hcalls : executedCalls tx st blockId timestamp = calls := by
    simp only [executedCalls, htrace]
  rw [hcalls]
  exact (Machine.runs_of_trace htrace).1

/-- A public transaction deploys nothing. -/
theorem programs_of_transitionFromPublicTransaction [Zkvm] [Schnorr] {st st' : V03State}
    {tx : PublicTransaction} {blockId : BlockId} {timestamp : Timestamp}
    (h : st.transitionFromPublicTransaction tx blockId timestamp = .ok st') :
    st'.programs = st.programs := by
  obtain ⟨diff, hdiff, happly⟩ := bind_eq_ok.1 h
  obtain ⟨_, _, _, heq⟩ := runs_of_fromPublicTransaction hdiff
  obtain ⟨_, _, _, hprograms⟩ := V03State.applyStateDiff_eq_ok (mapError_eq_ok.1 happly)
  rw [hprograms, heq]
  rfl

end ExecutionZone
