import ExecutionZone.Core.Hashing

/-!
# Programs, their outputs and the calls they chain

The data of `nssa_core::program`: what a program is handed, what it returns, and
which further calls it asks for.  A program's output lists *its own* account pre
states; whether these are the ones its caller requested is not part of the type.
-/

universe u

namespace ExecutionZone

/-- `MAX_NUMBER_CHAINED_CALLS`. -/
def maxNumberChainedCalls : Nat := 10

abbrev InstructionData := List UInt32

abbrev BlockId := UInt64

/-- `Timestamp = u64`, in milliseconds. -/
abbrev Timestamp := UInt64

/-- A call a program asks to be executed after it. -/
structure ChainedCall where
  programId : ProgramId
  preStates : List AccountWithMetadata
  instructionData : InstructionData
  /-- The callee is authorised on the accounts derived from the *caller* and these seeds. -/
  pdaSeeds : List PdaSeed
deriving DecidableEq

/-- The request of a program to become the owner of an account. -/
inductive Claim where
  | authorized
  | pda (seed : PdaSeed)
deriving DecidableEq

/-- An account after a program execution, with the claim the program makes on it. -/
structure AccountPostState where
  account : Account
  claim : Option Claim
deriving DecidableEq

namespace AccountPostState

def new (account : Account) : AccountPostState := ⟨account, none⟩

def newClaimed (account : Account) (claim : Claim) : AccountPostState := ⟨account, some claim⟩

/-- `new_claimed_if_default`: the claim is made only on an account without an owner. -/
def newClaimedIfDefault (account : Account) (claim : Claim) : AccountPostState :=
  ⟨account, if account.programOwner = defaultProgramId then some claim else none⟩

@[simp] theorem new_account (a : Account) : (new a).account = a := rfl

@[simp] theorem newClaimed_account (a : Account) (c : Claim) : (newClaimed a c).account = a := rfl

@[simp] theorem newClaimedIfDefault_account (a : Account) (c : Claim) :
    (newClaimedIfDefault a c).account = a := rfl

end AccountPostState

/-! ## Validity windows -/

/-- A half-open range `[start, stop)`; `none` is no bound.  Nothing keeps a window
that was read from bytes from being empty: only `tryFrom` checks. -/
structure ValidityWindow (T : Type u) where
  start : Option T
  stop : Option T
deriving DecidableEq

namespace ValidityWindow

variable {T : Type u}

def newUnbounded : ValidityWindow T := ⟨none, none⟩

section

variable [LE T] [LT T] [DecidableLE T] [DecidableLT T]

/-- `is_valid_for`. -/
def isValidFor (w : ValidityWindow T) (value : T) : Bool :=
  (w.start.all fun start => decide (start ≤ value)) &&
    (w.stop.all fun stop => decide (value < stop))

/-- `try_from((from, to))`, failing with `InvalidWindow` on an empty range. -/
def tryFrom (start stop : Option T) : Option (ValidityWindow T) :=
  match start, stop with
  | some a, some b => if b ≤ a then none else some ⟨some a, some b⟩
  | a, b => some ⟨a, b⟩

end

@[simp] theorem newUnbounded_isValidFor [LE T] [LT T] [DecidableLE T] [DecidableLT T] (v : T) :
    (newUnbounded : ValidityWindow T).isValidFor v = true := rfl

end ValidityWindow

/-! ## Inputs and outputs -/

/-- What a guest reads from its environment. -/
structure GuestInput where
  selfProgramId : ProgramId
  callerProgramId : Option ProgramId
  preStates : List AccountWithMetadata
  instructionData : InstructionData
deriving DecidableEq

/-- What a guest commits to its journal.  Every field is written by the guest itself. -/
structure ProgramOutput where
  selfProgramId : ProgramId
  callerProgramId : Option ProgramId
  instructionData : InstructionData
  preStates : List AccountWithMetadata
  postStates : List AccountPostState
  chainedCalls : List ChainedCall
  blockValidityWindow : ValidityWindow BlockId
  timestampValidityWindow : ValidityWindow Timestamp
deriving DecidableEq

namespace ProgramOutput

/-- `ProgramOutput::new`: no chained calls, unbounded windows. -/
def new (selfProgramId : ProgramId) (callerProgramId : Option ProgramId)
    (instructionData : InstructionData) (preStates : List AccountWithMetadata)
    (postStates : List AccountPostState) : ProgramOutput :=
  ⟨selfProgramId, callerProgramId, instructionData, preStates, postStates, [],
    .newUnbounded, .newUnbounded⟩

def withChainedCalls (o : ProgramOutput) (chainedCalls : List ChainedCall) : ProgramOutput :=
  { o with chainedCalls }

/-- The pre and post state of each account of the output. -/
def zipped (o : ProgramOutput) : List (AccountWithMetadata × AccountPostState) :=
  o.preStates.zip o.postStates

end ProgramOutput

/-! ## Program-derived authority -/

/-- `compute_public_authorized_pdas`. -/
def computePublicAuthorizedPdas [Sha256] (callerProgramId : Option ProgramId)
    (pdaSeeds : List PdaSeed) : Finset AccountId :=
  match callerProgramId with
  | none => ∅
  | some caller => (pdaSeeds.map (AccountId.forPublicPda caller)).toFinset

theorem mem_computePublicAuthorizedPdas [Sha256] {caller : Option ProgramId}
    {seeds : List PdaSeed} {a : AccountId} :
    a ∈ computePublicAuthorizedPdas caller seeds ↔
      ∃ p, caller = some p ∧ ∃ seed ∈ seeds, AccountId.forPublicPda p seed = a := by
  cases caller <;> simp [computePublicAuthorizedPdas]

/-- The ids of the accounts a list of pre states marks as authorised. -/
def authorizedIds (preStates : List AccountWithMetadata) : List AccountId :=
  (preStates.filter (·.isAuthorized)).map (·.accountId)

theorem mem_authorizedIds {l : List AccountWithMetadata} {a : AccountId} :
    a ∈ authorizedIds l ↔ ∃ p ∈ l, p.isAuthorized = true ∧ p.accountId = a := by
  simp [authorizedIds, and_assoc]

end ExecutionZone
