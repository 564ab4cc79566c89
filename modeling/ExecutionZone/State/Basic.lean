import ExecutionZone.Core.CircuitIo
import ExecutionZone.Core.Execution
import ExecutionZone.Lib.Ledger
import ExecutionZone.State.MerkleTree

/-!
# The ledger state

`nssa::state`: public accounts, the commitment set with the history of its roots, the
nullifier set and the deployed programs; the genesis state; and the application of a
validated state diff.

Maps are association lists without duplicate keys, so their iteration order, which the
source leaves open, is the order of insertion here.  Only the choice among several
errors of one transaction depends on it.
-/

namespace ExecutionZone

open Encoding

/-- An account id or seed given by 32 ASCII characters. -/
def bytes32OfAscii (s : String) (h : (asciiBytes s).length = 32) : Bytes32 :=
  ⟨(asciiBytes s).toArray, by simpa using h⟩

/-- A deployed program. -/
structure Program where
  id : ProgramId
  elf : Bytes
deriving DecidableEq

/-- The programs every state is born with. -/
class BuiltinPrograms where
  clock : Program
  authenticatedTransfer : Program
  token : Program
  amm : Program
  ata : Program
  vault : Program
  faucet : Program

/-! ## Errors -/

/-- How an executed program broke the rules. -/
inductive InvalidProgramBehaviorError where
  | inconsistentAccountPreState (accountId : AccountId) (expected actual : Account)
  | invalidAccountAuthorization (accountId : AccountId)
  | mismatchedProgramId (expected actual : ProgramId)
  | mismatchedCallerProgramId (expected actual : Option ProgramId)
  | executionValidationFailed (e : ExecutionValidationError)
  | claimedNonDefaultAccount (accountId : AccountId)
  | claimedUnauthorizedAccount (accountId : AccountId)
  | mismatchedPdaClaim (expected actual : AccountId)
  | defaultAccountModifiedWithoutClaim (accountId : AccountId)
deriving DecidableEq

/-- The errors of validating a transaction. -/
inductive NssaError where
  | invalidInput (msg : String)
  | invalidProgramBehavior (e : InvalidProgramBehaviorError)
  | programExecutionFailed (msg : String)
  | invalidPrivacyPreservingProof
  | invalidProgramBytecode (msg : String)
  | programAlreadyExists
  | maxChainedCallsDepthExceeded
  | outOfValidityWindow
deriving DecidableEq

/-! ## Accounts -/

/-- `HashMap<AccountId, Account>`. -/
abbrev Accounts := Ledger.Map AccountId Account

/-- The account at an id; a missing account is the default one. -/
def Accounts.get (m : Accounts) (accountId : AccountId) : Account :=
  Ledger.get Account.default m accountId

/-- `get_account_by_id_mut(id).nonce.public_account_nonce_increment()`, for each signer. -/
def Accounts.incrementNonces (m : Accounts) : List AccountId → Except Panic Accounts
  | [] => .ok m
  | id :: ids => do
      let nonce ← (m.get id).nonce.publicAccountNonceIncrement
      Accounts.incrementNonces (m.insert id ((m.get id).withNonce nonce)) ids

/-! ## The commitment set -/

section

variable [Sha256]

structure CommitmentSet where
  merkleTree : MerkleTree
  commitments : Ledger.Map Commitment Nat
  rootHistory : Finset CommitmentSetDigest
deriving DecidableEq

namespace CommitmentSet

def digest (cs : CommitmentSet) : CommitmentSetDigest := cs.merkleTree.root

/-- The loop of `extend`. -/
def insertCommitments (cs : CommitmentSet) : List Commitment → Except Panic CommitmentSet
  | [] => .ok cs
  | commitment :: rest => do
      let (index, merkleTree) ← cs.merkleTree.insert commitment.value
      insertCommitments
        { cs with merkleTree, commitments := cs.commitments.insert commitment index } rest

/-- `extend`: the root is recorded once, after all insertions. -/
def extend (cs : CommitmentSet) (commitments : List Commitment) :
    Except Panic CommitmentSet := do
  let cs ← cs.insertCommitments commitments
  return { cs with rootHistory := insert cs.digest cs.rootHistory }

def withCapacity (capacity : Nat) : Except Panic CommitmentSet := do
  let merkleTree ← MerkleTree.withCapacity capacity
  return ⟨merkleTree, ∅, ∅⟩

omit [Sha256] in
/-- `get_proof_for`. -/
def getProofFor (cs : CommitmentSet) (commitment : Commitment) :
    Except Panic (Option MembershipProof) :=
  match cs.commitments.lookup commitment with
  | none => .ok none
  | some index => do
      let path ← cs.merkleTree.getAuthenticationPathFor index
      return path.map fun path => (index, path)

end CommitmentSet

end

/-! ## The state -/

structure V03State where
  publicState : Accounts
  commitmentSet : CommitmentSet
  nullifierSet : Finset Nullifier
  programs : Ledger.Map ProgramId Program
deriving DecidableEq

/-- What a validated transaction changes. -/
structure StateDiff where
  signerAccountIds : List AccountId
  publicDiff : Accounts
  newCommitments : List Commitment
  newNullifiers : List Nullifier
  program : Option Program
deriving DecidableEq

namespace V03State

/-- `get_account_by_id`. -/
def getAccountById (st : V03State) (accountId : AccountId) : Account :=
  st.publicState.get accountId

/-- `get_proof_for_commitment`. -/
def getProofForCommitment (st : V03State) (commitment : Commitment) :
    Except Panic (Option MembershipProof) :=
  st.commitmentSet.getProofFor commitment

/-- `check_commitments_are_new`. -/
def checkCommitmentsAreNew (st : V03State) (newCommitments : List Commitment) :
    Except NssaError Unit :=
  newCommitments.forM fun commitment =>
    ensure (commitment ∉ st.commitmentSet.commitments) (.invalidInput "Commitment already seen")

/-- `check_nullifiers_are_valid`. -/
def checkNullifiersAreValid (st : V03State)
    (newNullifiers : List (Nullifier × CommitmentSetDigest)) : Except NssaError Unit :=
  newNullifiers.forM fun (nullifier, digest) => do
    ensure (nullifier ∉ st.nullifierSet) (NssaError.invalidInput "Nullifier already seen")
    ensure (digest ∈ st.commitmentSet.rootHistory)
      (.invalidInput "Unrecognized commitment set digest")

def insertProgram (st : V03State) (program : Program) : V03State :=
  { st with programs := st.programs.insert program.id program }

/-- `apply_state_diff`. -/
def applyStateDiff [Sha256] (st : V03State) (diff : StateDiff) : Except Panic V03State := do
  let publicState := Ledger.insertAll st.publicState (Ledger.pairs diff.publicDiff)
  let publicState ← Accounts.incrementNonces publicState diff.signerAccountIds
  let commitmentSet ← st.commitmentSet.extend diff.newCommitments
  let nullifierSet := st.nullifierSet ∪ diff.newNullifiers.toFinset
  let st : V03State := ⟨publicState, commitmentSet, nullifierSet, st.programs⟩
  return match diff.program with
    | some program => st.insertProgram program
    | none => st

end V03State

/-! ## What applying a diff does -/

/-- Incrementing nonces changes nothing but the nonces of the listed accounts. -/
theorem Accounts.get_incrementNonces {m m' : Accounts} {ids : List AccountId}
    (h : m.incrementNonces ids = .ok m') (id : AccountId) :
    m'.get id = (m.get id).withNonce (m'.get id).nonce ∧
      (id ∉ ids → m'.get id = m.get id) := by
  induction ids generalizing m with
  | nil => cases h; exact ⟨rfl, fun _ => rfl⟩
  | cons signer ids ih =>
      simp only [Accounts.incrementNonces, bind_eq_ok] at h
      obtain ⟨nonce, _, h⟩ := h
      obtain ⟨hfields, hsame⟩ := ih h
      by_cases hid : id = signer
      · subst hid
        refine ⟨?_, fun hn => absurd List.mem_cons_self hn⟩
        rw [hfields]
        simp [Accounts.get, Account.withNonce]
      · have hget : Accounts.get (m.insert signer ((m.get signer).withNonce nonce)) id = m.get id :=
          Ledger.get_insert_of_ne _ hid
        rw [hget] at hfields hsame
        exact ⟨hfields, fun hn => hsame fun hmem => hn (List.mem_cons_of_mem _ hmem)⟩

/-- The parts of an applied diff. -/
theorem V03State.applyStateDiff_eq_ok [Sha256] {st st' : V03State} {diff : StateDiff}
    (h : st.applyStateDiff diff = .ok st') :
    Accounts.incrementNonces (Ledger.insertAll st.publicState (Ledger.pairs diff.publicDiff))
        diff.signerAccountIds = .ok st'.publicState ∧
      st.commitmentSet.extend diff.newCommitments = .ok st'.commitmentSet ∧
      st'.nullifierSet = st.nullifierSet ∪ diff.newNullifiers.toFinset ∧
      st'.programs = diff.program.elim st.programs fun p => st.programs.insert p.id p := by
  simp only [V03State.applyStateDiff, bind_eq_ok, pure, Except.pure, Except.ok.injEq] at h
  obtain ⟨publicState, hpublic, commitmentSet, hcommit, rfl⟩ := h
  cases hp : diff.program with
  | none => exact ⟨hpublic, hcommit, rfl, rfl⟩
  | some program => exact ⟨hpublic, hcommit, rfl, rfl⟩

/-- After applying a diff, an account is what the diff over the state says, except for
its nonce if it signed. -/
theorem V03State.getAccountById_applyStateDiff [Sha256] {st st' : V03State} {diff : StateDiff}
    (h : st.applyStateDiff diff = .ok st') (id : AccountId) :
    st'.getAccountById id =
      (Ledger.overlay Account.default st.publicState diff.publicDiff id).withNonce
        (st'.getAccountById id).nonce ∧
    (id ∉ diff.signerAccountIds → st'.getAccountById id =
      Ledger.overlay Account.default st.publicState diff.publicDiff id) := by
  obtain ⟨hpublic, _⟩ := V03State.applyStateDiff_eq_ok h
  have hget := Accounts.get_incrementNonces hpublic id
  rwa [show Accounts.get (Ledger.insertAll st.publicState (Ledger.pairs diff.publicDiff)) id = _
    from Ledger.get_insertAll_pairs diff.publicDiff id] at hget

/-- A total that does not look at nonces is the one of the diff over the state. -/
theorem V03State.totalBy_applyStateDiff [Sha256] {st st' : V03State} {diff : StateDiff}
    (h : st.applyStateDiff diff = .ok st') {f : AccountId → Account → Nat}
    (hf : ∀ id, f id Account.default = 0) (hnonce : ∀ id a n, f id (a.withNonce n) = f id a) :
    Ledger.totalBy f Account.default st'.publicState =
      Ledger.totalBy f Account.default
        (Ledger.insertAll st.publicState (Ledger.pairs diff.publicDiff)) := by
  refine Ledger.totalBy_congr hf fun id => ?_
  have hget : Ledger.get Account.default st'.publicState id = st'.getAccountById id := rfl
  rw [Ledger.get_insertAll_pairs, hget, (V03State.getAccountById_applyStateDiff h id).1, hnonce]

/-! ## Genesis -/

/-- `CLOCK_PROGRAM_ACCOUNT_IDS`. -/
def clockProgramAccountIds : List AccountId :=
  [⟨bytes32OfAscii "/LEZ/ClockProgramAccount/0000001" (by decide)⟩,
    ⟨bytes32OfAscii "/LEZ/ClockProgramAccount/0000010" (by decide)⟩,
    ⟨bytes32OfAscii "/LEZ/ClockProgramAccount/0000050" (by decide)⟩]

/-- `CLOCK_01_PROGRAM_ACCOUNT_ID`. -/
def clock01ProgramAccountId : AccountId :=
  ⟨bytes32OfAscii "/LEZ/ClockProgramAccount/0000001" (by decide)⟩

/-- `CLOCK_10_PROGRAM_ACCOUNT_ID`. -/
def clock10ProgramAccountId : AccountId :=
  ⟨bytes32OfAscii "/LEZ/ClockProgramAccount/0000010" (by decide)⟩

/-- `CLOCK_50_PROGRAM_ACCOUNT_ID`. -/
def clock50ProgramAccountId : AccountId :=
  ⟨bytes32OfAscii "/LEZ/ClockProgramAccount/0000050" (by decide)⟩

/-- `compute_faucet_seed`. -/
def computeFaucetSeed : PdaSeed :=
  ⟨bytes32OfAscii "/LEZ/v0.3/FaucetSeed/0000000000/" (by decide)⟩

/-- `ClockAccountData::to_bytes` at block `0`. -/
def clockGenesisData (timestamp : Timestamp) : Data :=
  ⟨leBytes 8 0 ++ leBytes 8 timestamp.toNat, by simp [dataMaxLength]⟩

section

variable [Sha256]

/-- `compute_faucet_account_id`. -/
def computeFaucetAccountId (faucetProgramId : ProgramId) : AccountId :=
  AccountId.forPublicPda faucetProgramId computeFaucetSeed

variable [BuiltinPrograms]

def systemFaucetAccountId : AccountId := computeFaucetAccountId BuiltinPrograms.faucet.id

/-- `system_faucet_account`: the faucet holds `u128::MAX` and is owned by the transfer program. -/
def systemFaucetAccount : Account :=
  { Account.default with
    programOwner := BuiltinPrograms.authenticatedTransfer.id
    balance := BitVec.allOnes 128 }

def genesisAccount (balance : U128) : Account :=
  { Account.default with programOwner := BuiltinPrograms.authenticatedTransfer.id, balance }

/-- The public accounts of the genesis state. -/
def genesisPublicState (initialData : List (AccountId × U128)) (genesisTimestamp : Timestamp) :
    Accounts :=
  let accounts := Ledger.insertAll ∅ (initialData.map fun p => (p.1, genesisAccount p.2))
  let accounts := accounts.insert systemFaucetAccountId systemFaucetAccount
  Ledger.insertAll accounts (clockProgramAccountIds.map fun id => (id,
    { Account.default with
      programOwner := BuiltinPrograms.clock.id, data := clockGenesisData genesisTimestamp }))

/-- The built-in programs, in the order of their insertion. -/
def builtinPrograms : List Program :=
  [BuiltinPrograms.clock, BuiltinPrograms.authenticatedTransfer, BuiltinPrograms.token,
    BuiltinPrograms.amm, BuiltinPrograms.ata, BuiltinPrograms.vault, BuiltinPrograms.faucet]

omit [Sha256] in
theorem transfer_mem_builtinPrograms :
    BuiltinPrograms.authenticatedTransfer ∈ builtinPrograms := by
  simp [builtinPrograms]

omit [Sha256] in
theorem vault_mem_builtinPrograms : BuiltinPrograms.vault ∈ builtinPrograms := by
  simp [builtinPrograms]

omit [Sha256] in
theorem faucet_mem_builtinPrograms : BuiltinPrograms.faucet ∈ builtinPrograms := by
  simp [builtinPrograms]

/-- `new_with_genesis_accounts`. -/
def V03State.newWithGenesisAccounts (initialData : List (AccountId × U128))
    (initialPrivateAccounts : List (Commitment × Nullifier)) (genesisTimestamp : Timestamp) :
    Except Panic V03State := do
  let commitmentSet ← CommitmentSet.withCapacity 32
  let commitmentSet ← commitmentSet.extend [dummyCommitment]
  let commitmentSet ← commitmentSet.extend (initialPrivateAccounts.map Prod.fst)
  return ⟨genesisPublicState initialData genesisTimestamp, commitmentSet,
    (initialPrivateAccounts.map Prod.snd).toFinset,
    Ledger.insertAll ∅ (builtinPrograms.map fun program => (program.id, program))⟩

end

end ExecutionZone
