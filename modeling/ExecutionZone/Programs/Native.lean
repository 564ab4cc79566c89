import ExecutionZone.State.Basic

/-!
# The programs that move native balance

The guests `authenticated_transfer`, `vault` and `faucet`, as functions from what a
guest reads to what it commits.  Only the first changes balances.  The other two pass
accounts on, marked as authorised and with the seed of a PDA of theirs, to a program
they do not choose: the vault to the *owner* of an account it is handed, the faucet to a
program named in its instruction.

How instructions are serialised is a parameter; all that is used of it is that
deserialising a serialised instruction gives it back.
-/

namespace ExecutionZone

/-- The serialisation of the instructions of a program. -/
class InstructionCodec (I : Type) where
  /-- `risc0_zkvm::serde::to_vec`. -/
  toVec : I → InstructionData
  deserialize : InstructionData → Option I
  deserialize_toVec : ∀ i, deserialize (toVec i) = some i

/-- The instruction `read_nssa_inputs` reads. -/
def readInstruction (I : Type) [InstructionCodec I] (words : InstructionData) : Except Panic I :=
  expect (InstructionCodec.deserialize words) "called Result::unwrap() on an Err value"

/-- `unchanged_post_states`. -/
def unchangedPostStates (preStates : List AccountWithMetadata) : List AccountPostState :=
  preStates.map fun pre => .new pre.account

/-- The output of a guest that echoes what it was given. -/
def GuestInput.output (input : GuestInput) (postStates : List AccountPostState)
    (chainedCalls : List ChainedCall) : ProgramOutput :=
  (ProgramOutput.new input.selfProgramId input.callerProgramId input.instructionData
    input.preStates postStates).withChainedCalls chainedCalls

/-- The program is the guest `main`: what its binary returns, and what is proven to be an
output of it, are outputs of `main`. -/
structure Program.Implements [Zkvm] (program : Program)
    (main : GuestInput → Except Panic ProgramOutput) : Prop where
  execute : ∀ input out, Zkvm.execute program.elf input = .ok out → main input = .ok out
  verifies : ∀ out, Zkvm.verifiesOutput program.id out = true → ∃ input, main input = .ok out

/-! ## Authenticated transfer -/

namespace AuthenticatedTransfer

inductive Instruction where
  | transfer (amount : U128)
  | initializeAccount
deriving DecidableEq

/-- `initialize_account`. -/
def claimFresh (preState : AccountWithMetadata) : Except Panic AccountPostState := do
  ensure (preState.account = Account.default) "Account must be uninitialized"
  return .newClaimed preState.account .authorized

/-- The recipient of a transfer is claimed if nobody owns it. -/
def recipientPost (account : Account) : AccountPostState :=
  if account.programOwner = defaultProgramId then .newClaimed account .authorized
  else .new account

@[simp] theorem recipientPost_account (account : Account) :
    (recipientPost account).account = account := by
  unfold recipientPost
  split
  · rfl
  · rfl

/-- `transfer`. -/
def transfer (sender recipient : AccountWithMetadata) (balanceToMove : U128) :
    Except Panic (List AccountPostState) := do
  ensure (sender.isAuthorized = true) "Sender must be authorized"
  let senderBalance ← expect (sender.account.balance.checkedSub balanceToMove)
    "Sender has insufficient balance"
  let recipientBalance ← expect (recipient.account.balance.checkedAdd balanceToMove)
    "Recipient balance overflow"
  return [.new { sender.account with balance := senderBalance },
    recipientPost { recipient.account with balance := recipientBalance }]

variable [InstructionCodec Instruction]

/-- The post states, by instruction. -/
def postStates (preStates : List AccountWithMetadata) :
    Instruction → Except Panic (List AccountPostState)
  | .initializeAccount =>
      match preStates with
      | [accountToClaim] => do return [← claimFresh accountToClaim]
      | _ => .error "Initialize requires exactly 1 account"
  | .transfer balanceToMove =>
      match preStates with
      | [sender, recipient] => transfer sender recipient balanceToMove
      | _ => .error "Transfer requires exactly 2 accounts"

def main (input : GuestInput) : Except Panic ProgramOutput := do
  let instruction ← readInstruction Instruction input.instructionData
  return input.output (← postStates input.preStates instruction) []

variable {input : GuestInput} {out : ProgramOutput}

theorem main_eq_ok (h : main input = .ok out) :
    ∃ instruction posts, postStates input.preStates instruction = .ok posts ∧
      out = input.output posts [] := by
  simp only [main, bind_eq_ok, pure, Except.pure, Except.ok.injEq] at h
  obtain ⟨instruction, _, posts, hposts, rfl⟩ := h
  exact ⟨instruction, posts, hposts, rfl⟩

theorem chainedCalls_of_main (h : main input = .ok out) : out.chainedCalls = [] := by
  obtain ⟨_, _, _, rfl⟩ := main_eq_ok h
  rfl

/-- **Initialisation.**  Only the default account is initialised. -/
theorem fresh_of_main_initialize {selfProgramId : ProgramId} {caller : Option ProgramId}
    {pre : AccountWithMetadata}
    (h : main ⟨selfProgramId, caller, [pre], InstructionCodec.toVec Instruction.initializeAccount⟩ =
      .ok out) : pre.account = Account.default := by
  simp only [main, readInstruction, InstructionCodec.deserialize_toVec, bind_eq_ok, expect_eq_ok,
    Option.some.injEq, exists_eq_left', postStates, claimFresh, ensure_eq_ok] at h
  obtain ⟨_, ⟨_, ⟨_, hfresh, _⟩, _⟩, _⟩ := h
  exact hfresh

/-- **Transfer.**  Only the first account is debited, and it is authorised. -/
theorem debit_of_main (h : main input = .ok out)
    {p : AccountWithMetadata × AccountPostState} (hp : p ∈ out.zipped)
    (hdebit : p.2.account.balance < p.1.account.balance) :
    p.1.isAuthorized = true ∧ ∃ recipient, input.preStates = [p.1, recipient] := by
  obtain ⟨instruction, posts, hposts, rfl⟩ := main_eq_ok h
  change p ∈ input.preStates.zip posts at hp
  cases instruction with
  | initializeAccount =>
      simp only [postStates] at hposts
      split at hposts
      · rename_i account hpre
        simp only [claimFresh, bind_eq_ok, ensure_eq_ok, pure, Except.pure,
          Except.ok.injEq] at hposts
        obtain ⟨_, ⟨_, _, rfl⟩, rfl⟩ := hposts
        rw [hpre, List.zip_cons_cons, List.zip_nil_right, List.mem_singleton] at hp
        rw [hp] at hdebit
        exact absurd hdebit (BitVec.lt_irrefl _)
      · cases hposts
  | transfer amount =>
      simp only [postStates] at hposts
      split at hposts
      · rename_i sender recipient hpre
        simp only [transfer, bind_eq_ok, ensure_eq_ok, expect_eq_ok, pure, Except.pure,
          Except.ok.injEq, exists_const] at hposts
        obtain ⟨hauth, senderBalance, _, recipientBalance, hadd, rfl⟩ := hposts
        rw [hpre, List.zip_cons_cons, List.zip_cons_cons, List.zip_nil_right] at hp
        rcases List.mem_cons.1 hp with rfl | hp
        · exact ⟨hauth, recipient, hpre⟩
        · -- the recipient only gains
          rw [List.mem_singleton] at hp
          subst hp
          have hgain := U128.checkedAdd_eq_some hadd
          rw [BitVec.lt_def, recipientPost_account] at hdebit
          simp only at hdebit
          omega
      · cases hposts

end AuthenticatedTransfer

/-! ## Vault -/

/-- What is hashed for the seed of a vault. -/
def vaultSeedPreimage (ownerId : AccountId) : Bytes :=
  asciiBytes "/LEZ/v0.3/VaultSeed/00000000000/" ++ ownerId.value.toList

theorem vaultSeedPreimage_inj {a b : AccountId} (h : vaultSeedPreimage a = vaultSeedPreimage b) :
    a = b :=
  AccountId.value_inj (Bytes32.toList_inj (List.append_cancel_left h))

/-- `compute_vault_seed`. -/
def computeVaultSeed [Sha256] (ownerId : AccountId) : PdaSeed :=
  ⟨sha256 (vaultSeedPreimage ownerId)⟩

/-- `compute_vault_account_id`. -/
def computeVaultAccountId [Sha256] (vaultProgramId : ProgramId) (ownerId : AccountId) :
    AccountId :=
  AccountId.forPublicPda vaultProgramId (computeVaultSeed ownerId)

namespace Vault

inductive Instruction where
  | transfer (recipientId : AccountId) (amount : U128)
  | claim (amount : U128)
deriving DecidableEq

variable [Sha256] [InstructionCodec Instruction]
  [InstructionCodec AuthenticatedTransfer.Instruction]

/-- The account marked as authorised. -/
def authorize (pre : AccountWithMetadata) : AccountWithMetadata := { pre with isAuthorized := true }

/-- The calls, by instruction.  A deposit is executed by the owner of the sender, a
withdrawal by the owner of the vault account. -/
def chainedCalls (preStates : List AccountWithMetadata) :
    Instruction → Except Panic (List ChainedCall)
  | .transfer recipientId amount =>
      match preStates with
      | [sender, recipientVault] =>
          .ok [⟨sender.account.programOwner, [sender, authorize recipientVault],
            InstructionCodec.toVec (AuthenticatedTransfer.Instruction.transfer amount),
            [computeVaultSeed recipientId]⟩]
      | _ => .error "Transfer requires exactly 3 accounts"
  | .claim amount =>
      match preStates with
      | [owner, ownerVault] => do
          ensure (owner.isAuthorized = true) "Owner must be authorized to claim from the vault"
          return [⟨ownerVault.account.programOwner, [authorize ownerVault, owner],
            InstructionCodec.toVec (AuthenticatedTransfer.Instruction.transfer amount),
            [computeVaultSeed owner.accountId]⟩]
      | _ => .error "Claim requires exactly 2 accounts"

def main (input : GuestInput) : Except Panic ProgramOutput := do
  let instruction ← readInstruction Instruction input.instructionData
  return input.output (unchangedPostStates input.preStates)
    (← chainedCalls input.preStates instruction)

/-- **Vault.**  Nothing is changed or claimed, and one call is chained: a deposit names the
vault as recipient, a withdrawal needs its owner to be authorised. -/
theorem main_eq_ok {input : GuestInput} {out : ProgramOutput} (h : main input = .ok out) :
    ∃ call, out = input.output (unchangedPostStates input.preStates) [call] ∧
      ((∃ sender recipientVault recipientId, input.preStates = [sender, recipientVault] ∧
        call.programId = sender.account.programOwner ∧
        call.preStates = [sender, authorize recipientVault] ∧
        call.pdaSeeds = [computeVaultSeed recipientId]) ∨
      ∃ owner ownerVault, input.preStates = [owner, ownerVault] ∧ owner.isAuthorized = true ∧
        call.programId = ownerVault.account.programOwner ∧
        call.preStates = [authorize ownerVault, owner] ∧
        call.pdaSeeds = [computeVaultSeed owner.accountId]) := by
  simp only [main, bind_eq_ok, pure, Except.pure, Except.ok.injEq] at h
  obtain ⟨instruction, _, calls, hcalls, rfl⟩ := h
  cases instruction with
  | transfer recipientId amount =>
      simp only [chainedCalls] at hcalls
      split at hcalls
      · rename_i sender recipientVault hpre
        cases hcalls
        exact ⟨_, rfl, .inl ⟨sender, recipientVault, recipientId, hpre, rfl, rfl, rfl⟩⟩
      · cases hcalls
  | claim amount =>
      simp only [chainedCalls] at hcalls
      split at hcalls
      · rename_i owner ownerVault hpre
        simp only [bind_eq_ok, ensure_eq_ok, exists_const, pure, Except.pure,
          Except.ok.injEq] at hcalls
        obtain ⟨hauth, rfl⟩ := hcalls
        exact ⟨_, rfl, .inr ⟨owner, ownerVault, hpre, hauth, rfl, rfl, rfl⟩⟩
      · cases hcalls

/-- **Deposit.**  The call is to the owner of the sender. -/
theorem main_transfer {input : GuestInput} {out : ProgramOutput} {recipientId : AccountId}
    {amount : U128}
    (hinstruction : input.instructionData =
      InstructionCodec.toVec (Instruction.transfer recipientId amount))
    (h : main input = .ok out) :
    ∃ sender recipientVault, input.preStates = [sender, recipientVault] ∧
      out.chainedCalls = [⟨sender.account.programOwner, [sender, authorize recipientVault],
        InstructionCodec.toVec (AuthenticatedTransfer.Instruction.transfer amount),
        [computeVaultSeed recipientId]⟩] := by
  simp only [main, readInstruction, hinstruction, InstructionCodec.deserialize_toVec, bind_eq_ok,
    expect_eq_ok, Option.some.injEq, exists_eq_left', pure, Except.pure, Except.ok.injEq] at h
  obtain ⟨calls, hcalls, rfl⟩ := h
  simp only [chainedCalls] at hcalls
  split at hcalls
  · rename_i sender recipientVault hpre
    cases hcalls
    exact ⟨sender, recipientVault, hpre, rfl⟩
  · cases hcalls

end Vault

/-! ## Faucet -/

namespace Faucet

structure Instruction where
  vaultProgramId : ProgramId
  recipientId : AccountId
  amount : U128
deriving DecidableEq

variable [Sha256] [InstructionCodec Instruction] [InstructionCodec Vault.Instruction]

/-- The call to the vault program named in the instruction. -/
def chainedCalls (selfProgramId : ProgramId) (preStates : List AccountWithMetadata)
    (instruction : Instruction) : Except Panic (List ChainedCall) :=
  match preStates with
  | [faucet, recipientVault] => do
      ensure (faucet.accountId = computeFaucetAccountId selfProgramId)
        "First account must be faucet PDA"
      return [⟨instruction.vaultProgramId, [Vault.authorize faucet, recipientVault],
        InstructionCodec.toVec
          (Vault.Instruction.transfer instruction.recipientId instruction.amount),
        [computeFaucetSeed]⟩]
  | _ => .error "Transfer requires exactly 2 accounts"

/-- The faucet does not ask who calls it. -/
def main (input : GuestInput) : Except Panic ProgramOutput := do
  let instruction ← readInstruction Instruction input.instructionData
  return input.output (unchangedPostStates input.preStates)
    (← chainedCalls input.selfProgramId input.preStates instruction)

/-- **Faucet.**  The call is to the program the instruction names. -/
theorem main_eq_ok {input : GuestInput} {out : ProgramOutput} {instruction : Instruction}
    (hinstruction : input.instructionData = InstructionCodec.toVec instruction)
    (h : main input = .ok out) :
    ∃ faucet recipientVault, input.preStates = [faucet, recipientVault] ∧
      out.chainedCalls = [⟨instruction.vaultProgramId, [Vault.authorize faucet, recipientVault],
        InstructionCodec.toVec
          (Vault.Instruction.transfer instruction.recipientId instruction.amount),
        [computeFaucetSeed]⟩] := by
  simp only [main, readInstruction, hinstruction, InstructionCodec.deserialize_toVec, bind_eq_ok,
    expect_eq_ok, Option.some.injEq, exists_eq_left', pure, Except.pure, Except.ok.injEq] at h
  obtain ⟨calls, hcalls, rfl⟩ := h
  simp only [chainedCalls] at hcalls
  split at hcalls
  · rename_i faucet recipientVault hpre
    simp only [bind_eq_ok, ensure_eq_ok, exists_const, pure, Except.pure, Except.ok.injEq] at hcalls
    obtain ⟨_, rfl⟩ := hcalls
    exact ⟨faucet, recipientVault, hpre, rfl⟩
  · cases hcalls

end Faucet

end ExecutionZone
