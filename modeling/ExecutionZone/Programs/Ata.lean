import ExecutionZone.Programs.TokenEffects

/-!
# Associated token accounts

The guest `associated_token_account`.  The account of an owner for a token is a PDA of the program,
under a seed that is hashed from both ids.  Anyone may have it created.  Transfers and burns are
chained to the token program with the account marked as authorised, once the owner is.

The token program is not named: a creation is chained to the owner of the definition, the other
two to the owner of the account itself.
-/

namespace ExecutionZone.Ata

inductive Instruction where
  | create (ataProgramId : ProgramId)
  | transfer (ataProgramId : ProgramId) (amount : U128)
  | burn (ataProgramId : ProgramId) (amount : U128)
deriving DecidableEq

/-- What is hashed for the seed of an account. -/
def ataSeedPreimage (ownerId definitionId : AccountId) : Bytes :=
  ownerId.value.toList ++ definitionId.value.toList

theorem ataSeedPreimage_inj {a b c d : AccountId} (h : ataSeedPreimage a b = ataSeedPreimage c d) :
    a = c ∧ b = d := by
  obtain ⟨hfst, hsnd⟩ := List.append_inj h (by simp)
  exact ⟨AccountId.value_inj (Bytes32.toList_inj hfst),
    AccountId.value_inj (Bytes32.toList_inj hsnd)⟩

section

variable [Sha256]

/-- `compute_ata_seed`. -/
def computeAtaSeed (ownerId definitionId : AccountId) : PdaSeed :=
  ⟨sha256 (ataSeedPreimage ownerId definitionId)⟩

/-- `get_associated_token_account_id`. -/
def getAssociatedTokenAccountId (ataProgramId : ProgramId) (seed : PdaSeed) : AccountId :=
  AccountId.forPublicPda ataProgramId seed

/-- `verify_ata_and_get_seed`. -/
def verifyAtaAndGetSeed (ataAccount owner : AccountWithMetadata) (definitionId : AccountId)
    (ataProgramId : ProgramId) : Except Panic PdaSeed := do
  let seed := computeAtaSeed owner.accountId definitionId
  ensure (ataAccount.accountId = getAssociatedTokenAccountId ataProgramId seed)
    "ATA account ID does not match expected derivation"
  return seed

variable [InstructionCodec Token.Instruction]

/-- `create_associated_token_account`.  Nothing is done if the account exists. -/
def createAssociatedTokenAccount (owner tokenDefinition ataAccount : AccountWithMetadata)
    (ataProgramId : ProgramId) : Except Panic (List AccountPostState × List ChainedCall) := do
  let seed ← verifyAtaAndGetSeed ataAccount owner tokenDefinition.accountId ataProgramId
  let postStates := [.newClaimedIfDefault owner.account .authorized, .new tokenDefinition.account,
    .new ataAccount.account]
  if ataAccount.account ≠ Account.default then
    return (postStates, [])
  return (postStates, [⟨tokenDefinition.account.programOwner,
    [tokenDefinition, Vault.authorize ataAccount],
    InstructionCodec.toVec Token.Instruction.initializeAccount, [seed]⟩])

/-- A call on an account in the name of its owner.  Which token it holds is read from its data. -/
def spendFrom (owner ata other : AccountWithMetadata) (ataProgramId : ProgramId) (invalid : String)
    (preStates : List AccountWithMetadata) (instruction : Token.Instruction) :
    Except Panic (List AccountPostState × List ChainedCall) := do
  ensure (owner.isAuthorized = true) "Owner authorization is missing"
  let holding ← expect (Token.TokenHolding.tryFrom ata.account.data) invalid
  let seed ← verifyAtaAndGetSeed ata owner holding.definitionId ataProgramId
  return ([.new owner.account, .new ata.account, .new other.account],
    [⟨ata.account.programOwner, preStates, InstructionCodec.toVec instruction, [seed]⟩])

/-- `transfer_from_associated_token_account`. -/
def transferFromAssociatedTokenAccount (owner senderAta recipient : AccountWithMetadata)
    (ataProgramId : ProgramId) (amount : U128) :
    Except Panic (List AccountPostState × List ChainedCall) :=
  spendFrom owner senderAta recipient ataProgramId "Sender ATA must hold a valid token"
    [Vault.authorize senderAta, recipient] (.transfer amount)

/-- `burn_from_associated_token_account`. -/
def burnFromAssociatedTokenAccount (owner holderAta tokenDefinition : AccountWithMetadata)
    (ataProgramId : ProgramId) (amount : U128) :
    Except Panic (List AccountPostState × List ChainedCall) :=
  spendFrom owner holderAta tokenDefinition ataProgramId "Holder ATA must hold a valid token"
    [tokenDefinition, Vault.authorize holderAta] (.burn amount)

/-- The post states and the calls, by instruction. -/
def outcome (preStates : List AccountWithMetadata) :
    Instruction → Except Panic (List AccountPostState × List ChainedCall)
  | .create ataProgramId =>
      match preStates with
      | [owner, tokenDefinition, ataAccount] =>
          createAssociatedTokenAccount owner tokenDefinition ataAccount ataProgramId
      | _ => .error "Create instruction requires exactly three accounts"
  | .transfer ataProgramId amount =>
      match preStates with
      | [owner, senderAta, recipient] =>
          transferFromAssociatedTokenAccount owner senderAta recipient ataProgramId amount
      | _ => .error "Transfer instruction requires exactly three accounts"
  | .burn ataProgramId amount =>
      match preStates with
      | [owner, holderAta, tokenDefinition] =>
          burnFromAssociatedTokenAccount owner holderAta tokenDefinition ataProgramId amount
      | _ => .error "Burn instruction requires exactly three accounts"

def main [InstructionCodec Instruction] (input : GuestInput) : Except Panic ProgramOutput := do
  let instruction ← readInstruction Instruction input.instructionData
  let (postStates, chainedCalls) ← outcome input.preStates instruction
  return input.output postStates chainedCalls

/-! ## What is chained -/

/-- What a call hashes for seeds: the second account is the definition of the token, or holds
it. -/
def strings (out : ProgramOutput) : List Bytes :=
  match out.preStates with
  | owner :: second :: _ => ataSeedPreimage owner.accountId second.accountId ::
      (Token.TokenHolding.tryFrom second.account.data).toList.map fun holding =>
        ataSeedPreimage owner.accountId holding.definitionId
  | _ => []

/-- A chained call has the seed of one account, and the owner of the account is authorised, or
the call goes to the owner of the definition and initialises the account. -/
structure Chained (out : ProgramOutput) (call : ChainedCall) (owner : AccountWithMetadata)
    (definitionId : AccountId) : Prop where
  listed : owner ∈ out.preStates
  hashed : ataSeedPreimage owner.accountId definitionId ∈ strings out
  seeds : call.pdaSeeds = [computeAtaSeed owner.accountId definitionId]
  allowed : owner.isAuthorized = true ∨
    call.instructionData = InstructionCodec.toVec Token.Instruction.initializeAccount ∧
      ∃ definition ∈ out.preStates, definition.accountId = definitionId ∧
        call.programId = definition.account.programOwner

variable {out : ProgramOutput} {call : ChainedCall}

theorem chained_of_create {owner tokenDefinition ataAccount : AccountWithMetadata}
    {ataProgramId : ProgramId} {posts : List AccountPostState} {calls : List ChainedCall}
    (hpre : out.preStates = [owner, tokenDefinition, ataAccount])
    (h : createAssociatedTokenAccount owner tokenDefinition ataAccount ataProgramId =
      .ok (posts, calls)) (hcall : call ∈ calls) :
    ∃ owner definitionId, Chained out call owner definitionId := by
  simp only [createAssociatedTokenAccount, verifyAtaAndGetSeed, bind_eq_ok, ensure_eq_ok, pure,
    Except.pure, Except.ok.injEq, exists_const] at h
  obtain ⟨_, ⟨_, rfl⟩, h⟩ := h
  split at h
  · cases h
    cases hcall
  · cases h
    rw [List.mem_singleton.1 hcall]
    refine ⟨owner, tokenDefinition.accountId, by simp [hpre], ?_, rfl,
      .inr ⟨rfl, tokenDefinition, by simp [hpre], rfl, rfl⟩⟩
    rw [strings, hpre]
    exact List.mem_cons_self

theorem chained_of_spendFrom {owner ata other : AccountWithMetadata} {ataProgramId : ProgramId}
    {invalid : String} {preStates : List AccountWithMetadata} {instruction : Token.Instruction}
    {posts : List AccountPostState} {calls : List ChainedCall}
    (hpre : out.preStates = [owner, ata, other])
    (h : spendFrom owner ata other ataProgramId invalid preStates instruction = .ok (posts, calls))
    (hcall : call ∈ calls) : ∃ owner definitionId, Chained out call owner definitionId := by
  simp only [spendFrom, verifyAtaAndGetSeed, bind_eq_ok, ensure_eq_ok, expect_eq_ok, pure,
    Except.pure, Except.ok.injEq, exists_const, Prod.mk.injEq] at h
  obtain ⟨hauth, holding, hholding, _, ⟨_, rfl⟩, _, rfl⟩ := h
  rw [List.mem_singleton.1 hcall]
  refine ⟨owner, holding.definitionId, by simp [hpre], ?_, rfl, .inl hauth⟩
  simp only [strings, hpre, hholding, Option.toList_some, List.map_cons]
  exact List.mem_cons_of_mem _ List.mem_cons_self

/-- **Calls.**  What the program asks of others. -/
theorem chained_of_main [InstructionCodec Instruction] {input : GuestInput}
    (h : main input = .ok out) (hcall : call ∈ out.chainedCalls) :
    ∃ owner definitionId, Chained out call owner definitionId := by
  simp only [main, bind_eq_ok, pure, Except.pure, Except.ok.injEq] at h
  obtain ⟨instruction, _, ⟨posts, calls⟩, houtcome, rfl⟩ := h
  change call ∈ calls at hcall
  cases instruction with
  | create ataProgramId =>
      simp only [outcome] at houtcome
      split at houtcome
      · rename_i hpre
        exact chained_of_create hpre houtcome hcall
      · cases houtcome
  | transfer ataProgramId amount =>
      simp only [outcome] at houtcome
      split at houtcome
      · rename_i hpre
        exact chained_of_spendFrom hpre houtcome hcall
      · cases houtcome
  | burn ataProgramId amount =>
      simp only [outcome] at houtcome
      split at houtcome
      · rename_i hpre
        exact chained_of_spendFrom hpre houtcome hcall
      · cases houtcome

end

end ExecutionZone.Ata
