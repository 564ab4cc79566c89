import ExecutionZone.Core.CircuitIo
import ExecutionZone.Core.Execution
import ExecutionZone.Lib.CallTree
import ExecutionZone.State.Basic

/-!
# The call loop of the circuit

`ExecutionState::derive_from_outputs`: the prover supplies the outputs of all executed
programs in order, and the circuit replays the loop of calls over them.  Each output is
verified to be one of its program, its instruction and its caller are those of the call it
is consumed for, and its accounts are synchronised with those seen before.

Two things differ from the public path.  The accounts of an output are not compared with
the accounts of the chained call it is consumed for; and authorisation is remembered per
account for the whole transaction, from the first output that lists the account.

The map from positions to the npk of private PDAs is computed from the account identities
once and never changes; it is the function `privatePdaNpk` here.
-/

namespace ExecutionZone

open CallTree

/-- The accounts involved, in the order in which they are first listed, with what is known
about them. -/
structure ExecutionState where
  preStates : List AccountWithMetadata
  postStates : Accounts
  blockValidityWindow : ValidityWindow BlockId
  timestampValidityWindow : ValidityWindow Timestamp
  /-- The positions whose npk has been bound to the account id, with program and seed. -/
  privatePdaBoundPositions : Ledger.Map Nat (ProgramId × PdaSeed)
  /-- The one account each program and seed stand for in the transaction. -/
  pdaFamilyBinding : Ledger.Map (ProgramId × PdaSeed) AccountId
deriving DecidableEq

/-- A pending call with the program that issued it. -/
structure CircuitCall where
  call : ChainedCall
  caller : Option ProgramId
deriving DecidableEq

variable [Sha256]

/-- The npk and identifier supplied for a position, if it is a private PDA. -/
def privatePdaNpk (accountIdentities : List InputAccountIdentity) (position : Nat) :
    Option (NullifierPublicKey × Identifier) :=
  accountIdentities[position]?.bind (·.npkIfPrivatePda)

/-! ## Bindings -/

/-- `assert_family_binding`. -/
def assertFamilyBinding (es : ExecutionState) (programId : ProgramId) (seed : PdaSeed)
    (accountId : AccountId) : Except Panic ExecutionState :=
  match es.pdaFamilyBinding.lookup (programId, seed) with
  | none => .ok { es with
      pdaFamilyBinding := es.pdaFamilyBinding.insert (programId, seed) accountId }
  | some existing => do
      ensure (existing = accountId)
        "Two different accounts resolved under the same (program, seed) in one transaction"
      return es

/-- `bind_private_pda_position`. -/
def bindPrivatePdaPosition (es : ExecutionState) (position : Nat) (programId : ProgramId)
    (seed : PdaSeed) : Except Panic ExecutionState :=
  match es.privatePdaBoundPositions.lookup position with
  | none => .ok { es with
      privatePdaBoundPositions := es.privatePdaBoundPositions.insert position (programId, seed) }
  | some existing => do
      ensure (existing = (programId, seed)) "Duplicate binding: conflicting (program_id, seed)"
      return es

/-- A caller seed that derives an account. -/
structure SeedMatch where
  seed : PdaSeed
  isPrivateForm : Bool
  caller : ProgramId
deriving DecidableEq

/-- Whether one seed of a caller derives the account, in its public or its private form. -/
def matchSeed (npk : Option (NullifierPublicKey × Identifier)) (accountId : AccountId)
    (caller : ProgramId) (seed : PdaSeed) : Option SeedMatch :=
  if AccountId.forPublicPda caller seed = accountId then some ⟨seed, false, caller⟩
  else
    match npk with
    | some (npk, identifier) =>
        if AccountId.forPrivatePda caller seed npk identifier = accountId then
          some ⟨seed, true, caller⟩
        else none
    | none => none

/-- The first seed of the caller that derives the account. -/
def matchedCallerSeed (npk : Option (NullifierPublicKey × Identifier)) (accountId : AccountId)
    (caller : Option ProgramId) (callerPdaSeeds : List PdaSeed) : Option SeedMatch :=
  caller.bind fun caller => callerPdaSeeds.findSome? (matchSeed npk accountId caller)

/-- The bindings a matched seed leaves behind. -/
def recordBindings (es : ExecutionState) (accountId : AccountId) (position : Nat) :
    Option SeedMatch → Except Panic ExecutionState
  | none => .ok es
  | some m => do
      let es ← assertFamilyBinding es m.caller m.seed accountId
      if m.isPrivateForm then bindPrivatePdaPosition es position m.caller m.seed else return es

/-! ## Synchronising accounts -/

/-- The position of an account among those seen so far. -/
def ExecutionState.position (es : ExecutionState) (accountId : AccountId) : Option Nat :=
  es.preStates.findIdx? fun acc => acc.accountId = accountId

/-- A pre state seen again: its value is the known post state, and it is authorised exactly
if it was so when first seen, or if a seed of the caller derives it. -/
def syncKnown (accountIdentities : List InputAccountIdentity) (caller : Option ProgramId)
    (callerPdaSeeds : List PdaSeed) (es : ExecutionState) (known : Account)
    (pre : AccountWithMetadata) : Except Panic ExecutionState := do
  ensure (known = pre.account) "Inconsistent pre state"
  let position ← expect (es.position pre.accountId) "Pre state must exist in execution state"
  let previous ← expect es.preStates[position]? "Pre state must exist in execution state"
  let matched := matchedCallerSeed (privatePdaNpk accountIdentities position) pre.accountId caller
    callerPdaSeeds
  let es ← recordBindings es pre.accountId position matched
  ensure (pre.isAuthorized = (previous.isAuthorized || matched.isSome))
    "Inconsistent authorization"
  return es

/-- A pre state, known or new.  A new one is taken over with the mark it comes with. -/
def syncPreState (accountIdentities : List InputAccountIdentity) (caller : Option ProgramId)
    (callerPdaSeeds : List PdaSeed) (es : ExecutionState) (pre : AccountWithMetadata) :
    Except Panic ExecutionState :=
  match es.postStates.lookup pre.accountId with
  | some known => syncKnown accountIdentities caller callerPdaSeeds es known pre
  | none => .ok { es with preStates := es.preStates ++ [pre] }

/-- The checks of a claim, by the kind of the account.  Nothing is asked of standalone
private accounts: whoever holds their keys may claim them. -/
def checkCircuitClaim (programId : ProgramId) (es : ExecutionState) (pre : AccountWithMetadata)
    (position : Nat) (identity : InputAccountIdentity) (claim : Claim) :
    Except Panic ExecutionState :=
  if identity.isPublic then
    match claim with
    | .authorized => do
        ensure (pre.isAuthorized = true) "Cannot claim unauthorized account"
        return es
    | .pda seed => do
        ensure (pre.accountId = AccountId.forPublicPda programId seed) "Invalid PDA claim"
        assertFamilyBinding es programId seed pre.accountId
  else if identity.isPrivatePda then
    match claim with
    | .authorized => do
        ensure (pre.isAuthorized = true) "Cannot claim unauthorized private PDA"
        return es
    | .pda seed => do
        let (npk, identifier) ← expect identity.npkIfPrivatePda
          "private PDA pre_state must have an npk in the position map"
        ensure (pre.accountId = AccountId.forPrivatePda programId seed npk identifier)
          "Invalid private PDA claim"
        let es ← bindPrivatePdaPosition es position programId seed
        assertFamilyBinding es programId seed pre.accountId
  else return es

/-- The claim of a post state, if any; the resulting account. -/
def syncClaim (accountIdentities : List InputAccountIdentity) (programId : ProgramId)
    (es : ExecutionState) (pre : AccountWithMetadata) (post : AccountPostState) :
    Except Panic (ExecutionState × Account) :=
  match post.claim with
  | none => .ok (es, post.account)
  | some claim => do
      ensure (post.account.programOwner = defaultProgramId) "Cannot claim an initialized account"
      let position ← expect (es.position pre.accountId) "Pre state must exist at this point"
      let identity ← expect accountIdentities[position]? "index out of bounds"
      let es ← checkCircuitClaim programId es pre position identity claim
      return (es, { post.account with programOwner := programId })

/-- `validate_and_sync_states`. -/
def validateAndSyncStates (accountIdentities : List InputAccountIdentity) (programId : ProgramId)
    (caller : Option ProgramId) (callerPdaSeeds : List PdaSeed) :
    ExecutionState → List (AccountWithMetadata × AccountPostState) → Except Panic ExecutionState
  | es, [] => .ok es
  | es, (pre, post) :: rest => do
      let es ← syncPreState accountIdentities caller callerPdaSeeds es pre
      let (es, account) ← syncClaim accountIdentities programId es pre post
      validateAndSyncStates accountIdentities programId caller callerPdaSeeds
        { es with postStates := es.postStates.insert pre.accountId account } rest

/-! ## The loop -/

variable [Zkvm]

/-- One turn of the loop: consume an output for a call. -/
def consumeOutput (accountIdentities : List InputAccountIdentity) (c : CircuitCall)
    (s : List ProgramOutput × ExecutionState) :
    Except Panic (ProgramOutput × (List ProgramOutput × ExecutionState)) :=
  match s.1 with
  | [] => .error "Insufficient program outputs for chained calls"
  | out :: rest => do
      ensure (c.call.instructionData = out.instructionData)
        "Mismatched instruction data between chained call and program output"
      ensure (Zkvm.verifiesOutput c.call.programId out = true) "verification failed"
      ensure (out.selfProgramId = c.call.programId)
        "Program output self_program_id does not match chained call program_id"
      ensure (out.callerProgramId = c.caller)
        "Program output caller_program_id does not match actual caller"
      (validateExecution out.preStates out.postStates c.call.programId).mapError
        fun _ => "Invalid program behavior in program"
      let es ← validateAndSyncStates accountIdentities c.call.programId c.caller c.call.pdaSeeds
        s.2 out.zipped
      return (out, rest, es)

def circuitMachine (accountIdentities : List InputAccountIdentity) :
    Machine CircuitCall ProgramOutput (List ProgramOutput × ExecutionState) Panic where
  step := consumeOutput accountIdentities
  children c out := out.chainedCalls.map fun call => ⟨call, some c.call.programId⟩
  exceeded := "Max chained calls depth is exceeded"

/-- The call the first output is consumed for. -/
def initialCircuitCall (programId : ProgramId) (first : ProgramOutput) : CircuitCall :=
  ⟨⟨programId, first.preStates, first.instructionData, []⟩, none⟩

/-- The intersection of the windows of all outputs. -/
def intersectWindows (windows : List (ValidityWindow UInt64)) : Option (ValidityWindow UInt64) :=
  ValidityWindow.tryFrom (windows.filterMap (·.start)).max? (windows.filterMap (·.stop)).min?

/-- The state before the first output. -/
def ExecutionState.initial (outputs : List ProgramOutput) : Except Panic ExecutionState := do
  let block ← expect (intersectWindows (outputs.map (·.blockValidityWindow)))
    "There should be non empty intersection in the program output block validity windows"
  let timestamp ← expect (intersectWindows (outputs.map (·.timestampValidityWindow)))
    "There should be non empty intersection in the program output timestamp validity windows"
  return ⟨[], ∅, block, timestamp, ∅, ∅⟩

/-- Every private PDA was bound. -/
def checkPrivatePdasBound (accountIdentities : List InputAccountIdentity)
    (es : ExecutionState) : Except Panic Unit :=
  accountIdentities.zipIdx.forM fun (identity, position) =>
    ensure (identity.isPrivatePda = true → position ∈ es.privatePdaBoundPositions)
      "private PDA pre_state has no proven (seed, npk) binding via Claim::Pda or caller pda_seeds"

/-- Every modified account without an owner was claimed. -/
def checkModifiedClaimed (es : ExecutionState) : Except Panic Unit :=
  es.preStates.forM fun pre =>
    if pre.account.programOwner = defaultProgramId then do
      let post ← expect (es.postStates.lookup pre.accountId) "Post state must exist for pre state"
      ensure (pre.account ≠ post → post.programOwner ≠ defaultProgramId)
        "Account was modified but not claimed"
    else return ()

/-- `derive_from_outputs`. -/
def deriveFromOutputs (accountIdentities : List InputAccountIdentity) (programId : ProgramId)
    (programOutputs : List ProgramOutput) : Except Panic ExecutionState := do
  let es ← ExecutionState.initial programOutputs
  match programOutputs with
  | [] => .error "No program outputs provided"
  | first :: _ => do
      let (rest, es) ← (circuitMachine accountIdentities).run (maxNumberChainedCalls + 1)
        [initialCircuitCall programId first] (programOutputs, es)
      ensure (rest = []) "Inner call without a chained call found"
      checkPrivatePdasBound accountIdentities es
      checkModifiedClaimed es
      return es

end ExecutionZone
