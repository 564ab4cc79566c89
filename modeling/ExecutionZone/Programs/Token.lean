import ExecutionZone.Core.Formats
import ExecutionZone.Programs.Native

/-!
# The token program

The guest `token`: definitions, holdings and metadata of fungible and non-fungible tokens,
as account data in the Borsh format, and the eleven instructions over them.

No instruction looks at the owner of an account or at the role in which its data was
written: an account takes part in every role its data decodes in.
-/

namespace ExecutionZone

/-- The data with the encoding of a value, as `From<&T> for Data` computes it. -/
def dataOf {α : Type} (c : Codec α) (tooBig : String) (a : α) : Except Panic Data :=
  expect (Data.tryFrom (c.write a)) tooBig

theorem decode_of_dataOf {α : Type} {c : Codec α} {tooBig : String} {a : α} {data : Data}
    (h : dataOf c tooBig a = .ok data) : c.decode data.bytes = some a := by
  rw [dataOf, expect_eq_ok, Data.tryFrom_eq_some] at h
  exact Codec.decode_eq_some.2 h

namespace Token

/-- A text in an account or in an instruction. -/
abbrev Text := Codec.Text

/-! ## Authorities -/

/-- `ApprovalError`. -/
inductive ApprovalError where
  | unauthorized
  | renounced
deriving DecidableEq

def ApprovalError.message : ApprovalError → Panic
  | .unauthorized => "not authorized: signer does not match admin authority"
  | .renounced => "authority renounced: operation requires an active admin"

/-- `Authority`: one admin, or none once it is renounced. -/
structure Authority where
  admin : Option AccountId
deriving DecidableEq

namespace Authority

def new (admin : AccountId) : Authority := ⟨some admin⟩

def renounced : Authority := ⟨none⟩

/-- `gate`: the signer is the active admin. -/
def gate (authority : Authority) (signer : AccountWithMetadata) : Except Panic Unit :=
  match authority.admin with
  | none => .error ApprovalError.renounced.message
  | some admin => ensure (signer.isAuthorized = true ∧ signer.accountId = admin)
      ApprovalError.unauthorized.message

/-- `transfer`. -/
def transfer (authority : Authority) (signer : AccountWithMetadata) (newAdmin : AccountId) :
    Except Panic Authority := do
  authority.gate signer
  return ⟨some newAdmin⟩

/-- `revoke`. -/
def revoke (authority : Authority) (signer : AccountWithMetadata) : Except Panic Authority := do
  authority.gate signer
  return ⟨none⟩

theorem gate_eq_ok {authority : Authority} {signer : AccountWithMetadata} {u : Unit}
    (h : authority.gate signer = .ok u) :
    signer.isAuthorized = true ∧ authority.admin = some signer.accountId := by
  unfold gate at h
  split at h
  · cases h
  · rename_i admin hadmin
    rw [ensure_eq_ok] at h
    exact ⟨h.1, by rw [hadmin, h.2]⟩

end Authority

/-! ## Account data -/

/-- `TokenDefinition`. -/
inductive TokenDefinition where
  | fungible (name : Text) (totalSupply : U128) (metadataId : Option AccountId)
      (authority : Authority)
  | nonFungible (name : Text) (printableSupply : U128) (metadataId : AccountId)
deriving DecidableEq

/-- `TokenHolding`. -/
inductive TokenHolding where
  | fungible (definitionId : AccountId) (balance : U128)
  | nftMaster (definitionId : AccountId) (printBalance : U128)
  | nftPrintedCopy (definitionId : AccountId) (owned : Bool)
deriving DecidableEq

/-- `MetadataStandard`. -/
inductive MetadataStandard where
  | simple
  | expanded
deriving DecidableEq

/-- `TokenMetadata`. -/
structure TokenMetadata where
  definitionId : AccountId
  standard : MetadataStandard
  uri : Text
  creators : Text
  primarySaleDate : UInt64
deriving DecidableEq

/-- `Authority`, as its option. -/
def Authority.codec : Codec Authority :=
  AccountId.codec.option.map ⟨Authority.mk, Authority.admin, fun _ => rfl, fun _ => rfl⟩

namespace TokenDefinition

/-- The two variants with their fields. -/
def codec : Codec TokenDefinition :=
  (((Codec.text.pair (U128.codec.pair (AccountId.codec.option.pair Authority.codec))).variant
    0).either ((Codec.text.pair (U128.codec.pair AccountId.codec)).variant 1)
      (by intro _ _; exact Codec.variant_read_of_ne (by decide) _ _)).map
    { toFun := Sum.elim (fun p => fungible p.1 p.2.1 p.2.2.1 p.2.2.2)
        fun p => nonFungible p.1 p.2.1 p.2.2
      invFun
        | fungible name totalSupply metadataId authority =>
            .inl (name, totalSupply, metadataId, authority)
        | nonFungible name printableSupply metadataId => .inr (name, printableSupply, metadataId)
      left_inv := by rintro (_ | _) <;> rfl
      right_inv := by rintro (_ | _) <;> rfl }

/-- `TokenDefinition::try_from`. -/
def tryFrom (data : Data) : Option TokenDefinition := codec.decode data.bytes

/-- `Data::from`. -/
def toData (definition : TokenDefinition) : Except Panic Data :=
  dataOf codec "Token definition encoded data should fit into Data" definition

end TokenDefinition

namespace TokenHolding

/-- The three variants with their fields. -/
def codec : Codec TokenHolding :=
  (((AccountId.codec.pair U128.codec).variant 0).either
    (((AccountId.codec.pair U128.codec).variant 1).either
      ((AccountId.codec.pair Codec.bool).variant 2)
        (by intro _ _; exact Codec.variant_read_of_ne (by decide) _ _))
      (by rintro (_ | _) _ <;> exact Codec.variant_read_of_ne (by decide) _ _)).map
    { toFun := Sum.elim (fun p => fungible p.1 p.2)
        (Sum.elim (fun p => nftMaster p.1 p.2) fun p => nftPrintedCopy p.1 p.2)
      invFun
        | fungible definitionId balance => .inl (definitionId, balance)
        | nftMaster definitionId printBalance => .inr (.inl (definitionId, printBalance))
        | nftPrintedCopy definitionId owned => .inr (.inr (definitionId, owned))
      left_inv := by rintro (_ | _ | _) <;> rfl
      right_inv := by rintro (_ | _ | _) <;> rfl }

/-- `TokenHolding::try_from`. -/
def tryFrom (data : Data) : Option TokenHolding := codec.decode data.bytes

/-- `Data::from`. -/
def toData (holding : TokenHolding) : Except Panic Data :=
  dataOf codec "Token holding encoded data should fit into Data" holding

/-- `zeroized_clone_from`. -/
def zeroizedCloneFrom : TokenHolding → TokenHolding
  | fungible definitionId _ => fungible definitionId 0
  | nftMaster definitionId _ => nftMaster definitionId 0
  | nftPrintedCopy definitionId _ => nftPrintedCopy definitionId false

/-- `zeroized_from_definition`. -/
def zeroizedFromDefinition (definitionId : AccountId) : TokenDefinition → TokenHolding
  | .fungible .. => fungible definitionId 0
  | .nonFungible .. => nftPrintedCopy definitionId false

/-- `definition_id`. -/
def definitionId : TokenHolding → AccountId
  | fungible definitionId _ | nftMaster definitionId _ | nftPrintedCopy definitionId _ =>
      definitionId

/-- How much of its token a holding holds: its balance, the copies a master can still print,
or the copy itself. -/
def amount : TokenHolding → Nat
  | fungible _ balance => balance.toNat
  | nftMaster _ printBalance => printBalance.toNat
  | nftPrintedCopy _ owned => owned.toNat

theorem amount_lt (h : TokenHolding) : h.amount < 2 ^ 128 := by
  cases h with
  | fungible _ balance => exact balance.isLt
  | nftMaster _ printBalance => exact printBalance.isLt
  | nftPrintedCopy _ owned => exact Nat.lt_of_le_of_lt (Bool.toNat_le owned) (by decide)

@[simp] theorem amount_zeroizedCloneFrom (h : TokenHolding) : h.zeroizedCloneFrom.amount = 0 := by
  cases h <;> rfl

@[simp] theorem definitionId_zeroizedCloneFrom (h : TokenHolding) :
    h.zeroizedCloneFrom.definitionId = h.definitionId := by
  cases h <;> rfl

@[simp] theorem codec_write_fungible (definitionId : AccountId) (balance : U128) :
    codec.write (fungible definitionId balance) =
      0 :: (AccountId.codec.write definitionId ++ U128.codec.write balance) := rfl

@[simp] theorem codec_write_nftMaster (definitionId : AccountId) (printBalance : U128) :
    codec.write (nftMaster definitionId printBalance) =
      1 :: (AccountId.codec.write definitionId ++ U128.codec.write printBalance) := rfl

@[simp] theorem codec_write_nftPrintedCopy (definitionId : AccountId) (owned : Bool) :
    codec.write (nftPrintedCopy definitionId owned) =
      2 :: (AccountId.codec.write definitionId ++ Codec.bool.write owned) := rfl

theorem length_le (h : TokenHolding) : (codec.write h).length ≤ 49 := by
  cases h <;> simp

end TokenHolding

/-- The two variants of the standard. -/
def MetadataStandard.codec : Codec MetadataStandard :=
  ((Codec.empty.variant 0).either (Codec.empty.variant 1)
    (by intro _ _; exact Codec.variant_read_of_ne (by decide) _ _)).map
    { toFun := Sum.elim (fun _ => simple) fun _ => expanded
      invFun
        | simple => .inl ()
        | expanded => .inr ()
      left_inv := by rintro (_ | _) <;> rfl
      right_inv := by rintro (_ | _) <;> rfl }

namespace TokenMetadata

/-- The fields in order. -/
def codec : Codec TokenMetadata :=
  (AccountId.codec.pair (MetadataStandard.codec.pair (Codec.text.pair (Codec.text.pair
    ((Codec.word 8).map ⟨UInt64.ofBitVec, UInt64.toBitVec, fun _ => rfl, fun _ => rfl⟩))))).map
    { toFun := fun p => ⟨p.1, p.2.1, p.2.2.1, p.2.2.2.1, p.2.2.2.2⟩
      invFun := fun m => (m.definitionId, m.standard, m.uri, m.creators, m.primarySaleDate)
      left_inv := fun _ => rfl
      right_inv := fun _ => rfl }

/-- `TokenMetadata::try_from`. -/
def tryFrom (data : Data) : Option TokenMetadata := codec.decode data.bytes

/-- `Data::from`. -/
def toData (metadata : TokenMetadata) : Except Panic Data :=
  dataOf codec "Token metadata encoded data should fit into Data" metadata

end TokenMetadata

/-- The authority a definition records; a non-fungible one has none. -/
def TokenDefinition.authority? : TokenDefinition → Option Authority
  | .fungible _ _ _ authority => some authority
  | .nonFungible .. => none

/-! ## Instructions -/

/-- `NewTokenDefinition`. -/
inductive NewTokenDefinition where
  | fungible (name : Text) (totalSupply : U128)
  | nonFungible (name : Text) (printableSupply : U128)
deriving DecidableEq

/-- `NewTokenMetadata`. -/
structure NewTokenMetadata where
  standard : MetadataStandard
  uri : Text
  creators : Text
deriving DecidableEq

inductive Instruction where
  | transfer (amountToTransfer : U128)
  | newFungibleDefinition (name : Text) (totalSupply : U128)
  | newFungibleDefinitionWithAuthority (name : Text) (totalSupply : U128)
      (mintAuthority : Option AccountId)
  | newDefinitionWithMetadata (newDefinition : NewTokenDefinition) (metadata : NewTokenMetadata)
  | initializeAccount
  | burn (amountToBurn : U128)
  | mint (amountToMint : U128)
  | mintWithAuthority (amountToMint : U128)
  | printNft
  | rotateAuthority (newAdmin : AccountId)
  | revokeAuthority
deriving DecidableEq

/-! ## Transfers -/

/-- Move an amount between two holdings of one kind. -/
def moveBalance (balanceToMove : U128) :
    TokenHolding → TokenHolding → Except Panic (TokenHolding × TokenHolding)
  | .fungible senderId senderBalance, .fungible recipientId recipientBalance => do
      let senderBalance ← expect (senderBalance.checkedSub balanceToMove) "Insufficient balance"
      let recipientBalance ← expect (recipientBalance.checkedAdd balanceToMove)
        "Recipient balance overflow"
      return (.fungible senderId senderBalance, .fungible recipientId recipientBalance)
  | .nftMaster senderId senderPrintBalance, .nftMaster recipientId recipientPrintBalance => do
      ensure (recipientPrintBalance = 0) "Invalid balance in recipient account for NFT transfer"
      ensure (senderPrintBalance = balanceToMove) "Invalid balance for NFT Master transfer"
      return (.nftMaster senderId recipientPrintBalance, .nftMaster recipientId senderPrintBalance)
  | .nftPrintedCopy senderId senderOwned, .nftPrintedCopy recipientId recipientOwned => do
      ensure (balanceToMove = 1) "Invalid balance for NFT Printed Copy transfer"
      ensure (senderOwned = true) "Sender does not own the NFT Printed Copy"
      ensure (recipientOwned = false) "Recipient already owns the NFT Printed Copy"
      return (.nftPrintedCopy senderId false, .nftPrintedCopy recipientId true)
  | _, _ => .error "Mismatched token holding types for transfer"

/-- The holding of an account; the default account has the given one. -/
def holdingOr (account : Account) (fresh : TokenHolding) (invalid : String) :
    Except Panic TokenHolding :=
  if account = Account.default then .ok fresh else expect (TokenHolding.tryFrom account.data) invalid

/-- The account with other data. -/
def withData (account : Account) (data : Data) : Account := { account with data }

/-- `transfer`. -/
def transfer (sender recipient : AccountWithMetadata) (balanceToMove : U128) :
    Except Panic (List AccountPostState) := do
  ensure (sender.isAuthorized = true) "Sender authorization is missing"
  let senderHolding ← expect (TokenHolding.tryFrom sender.account.data) "Invalid sender data"
  let recipientHolding ← holdingOr recipient.account senderHolding.zeroizedCloneFrom
    "Invalid recipient data"
  ensure (senderHolding.definitionId = recipientHolding.definitionId)
    "Sender and recipient definition id mismatch"
  let (senderHolding, recipientHolding) ← moveBalance balanceToMove senderHolding recipientHolding
  let senderData ← senderHolding.toData
  let recipientData ← recipientHolding.toData
  return [.new (withData sender.account senderData),
    .newClaimedIfDefault (withData recipient.account recipientData) .authorized]

/-! ## Definitions -/

/-- The two accounts of a fungible token. -/
def newFungible (definitionTarget holdingTarget : AccountWithMetadata) (name : Text)
    (totalSupply : U128) (authority : Authority) : Except Panic (List AccountPostState) := do
  ensure (definitionTarget.account = Account.default)
    "Definition target account must have default values"
  ensure (holdingTarget.account = Account.default) "Holding target account must have default values"
  let definitionData ← (TokenDefinition.fungible name totalSupply none authority).toData
  let holdingData ← (TokenHolding.fungible definitionTarget.accountId totalSupply).toData
  return [.newClaimed (withData definitionTarget.account definitionData) .authorized,
    .newClaimed (withData holdingTarget.account holdingData) .authorized]

/-- `new_fungible_definition`. -/
def newFungibleDefinition (definitionTarget holdingTarget : AccountWithMetadata) (name : Text)
    (totalSupply : U128) : Except Panic (List AccountPostState) :=
  newFungible definitionTarget holdingTarget name totalSupply .renounced

/-- `new_fungible_definition_with_authority`. -/
def newFungibleDefinitionWithAuthority (definitionTarget holdingTarget : AccountWithMetadata)
    (name : Text) (totalSupply : U128) (mintAuthority : Option AccountId) :
    Except Panic (List AccountPostState) :=
  newFungible definitionTarget holdingTarget name totalSupply
    (mintAuthority.elim .renounced .new)

/-- The definition and the first holding of a token with metadata. -/
def newToken (definitionId metadataId : AccountId) :
    NewTokenDefinition → TokenDefinition × TokenHolding
  | .fungible name totalSupply =>
      (.fungible name totalSupply (some metadataId) .renounced, .fungible definitionId totalSupply)
  | .nonFungible name printableSupply =>
      (.nonFungible name printableSupply metadataId, .nftMaster definitionId printableSupply)

/-- `new_definition_with_metadata`. -/
def newDefinitionWithMetadata (definitionTarget holdingTarget metadataTarget : AccountWithMetadata)
    (newDefinition : NewTokenDefinition) (metadata : NewTokenMetadata) :
    Except Panic (List AccountPostState) := do
  ensure (definitionTarget.account = Account.default)
    "Definition target account must have default values"
  ensure (holdingTarget.account = Account.default) "Holding target account must have default values"
  ensure (metadataTarget.account = Account.default)
    "Metadata target account must have default values"
  let (definition, holding) := newToken definitionTarget.accountId metadataTarget.accountId
    newDefinition
  let definitionData ← definition.toData
  let holdingData ← holding.toData
  let metadataData ← (TokenMetadata.mk definitionTarget.accountId metadata.standard metadata.uri
    metadata.creators 0).toData
  return [.newClaimed (withData definitionTarget.account definitionData) .authorized,
    .newClaimed (withData holdingTarget.account holdingData) .authorized,
    .newClaimed (withData metadataTarget.account metadataData) .authorized]

/-- `initialize_account`.  Whose definition it is does not matter. -/
def initializeAccount (definitionAccount accountToInitialize : AccountWithMetadata) :
    Except Panic (List AccountPostState) := do
  ensure (accountToInitialize.account = Account.default)
    "Only Uninitialized accounts can be initialized"
  let definition ← expect (TokenDefinition.tryFrom definitionAccount.account.data)
    "Definition account must be valid"
  let holdingData ←
    (TokenHolding.zeroizedFromDefinition definitionAccount.accountId definition).toData
  return [.new definitionAccount.account,
    .newClaimed (withData accountToInitialize.account holdingData) .authorized]

/-! ## Burning and minting -/

/-- Take an amount from a holding and from the supply of its token. -/
def burnFrom (amountToBurn : U128) :
    TokenDefinition → TokenHolding → Except Panic (TokenDefinition × TokenHolding)
  | .fungible name totalSupply metadataId authority, .fungible definitionId balance => do
      let balance ← expect (balance.checkedSub amountToBurn) "Insufficient balance to burn"
      let totalSupply ← expect (totalSupply.checkedSub amountToBurn) "Total supply underflow"
      return (.fungible name totalSupply metadataId authority, .fungible definitionId balance)
  | .nonFungible name printableSupply metadataId, .nftMaster definitionId printBalance => do
      let printableSupply ← expect (printableSupply.checkedSub amountToBurn)
        "Printable supply underflow"
      let printBalance ← expect (printBalance.checkedSub amountToBurn)
        "Insufficient balance to burn"
      return (.nonFungible name printableSupply metadataId, .nftMaster definitionId printBalance)
  | .nonFungible name printableSupply metadataId, .nftPrintedCopy definitionId owned => do
      ensure (amountToBurn = 1) "Invalid balance to burn for NFT Printed Copy"
      ensure (owned = true) "Cannot burn unowned NFT Printed Copy"
      let printableSupply ← expect (printableSupply.checkedSub 1) "Printable supply underflow"
      return (.nonFungible name printableSupply metadataId, .nftPrintedCopy definitionId false)
  | _, _ => .error "Mismatched Token Definition and Token Holding types"

/-- `burn`. -/
def burn (definitionAccount userHoldingAccount : AccountWithMetadata) (amountToBurn : U128) :
    Except Panic (List AccountPostState) := do
  ensure (userHoldingAccount.isAuthorized = true) "Authorization is missing"
  let definition ← expect (TokenDefinition.tryFrom definitionAccount.account.data)
    "Token Definition account must be valid"
  let holding ← expect (TokenHolding.tryFrom userHoldingAccount.account.data)
    "Token Holding account must be valid"
  ensure (definitionAccount.accountId = holding.definitionId)
    "Mismatch Token Definition and Token Holding"
  let (definition, holding) ← burnFrom amountToBurn definition holding
  let definitionData ← definition.toData
  let holdingData ← holding.toData
  return [.new (withData definitionAccount.account definitionData),
    .new (withData userHoldingAccount.account holdingData)]

/-- Add an amount to a holding and to the supply of its token. -/
def mintTo (amountToMint : U128) :
    TokenDefinition → TokenHolding → Except Panic (TokenDefinition × TokenHolding)
  | .fungible name totalSupply metadataId authority, .fungible definitionId balance => do
      let balance ← expect (balance.checkedAdd amountToMint) "Balance overflow on minting"
      let totalSupply ← expect (totalSupply.checkedAdd amountToMint) "Total supply overflow"
      return (.fungible name totalSupply metadataId authority, .fungible definitionId balance)
  | .nonFungible .., .nftMaster .. | .nonFungible .., .nftPrintedCopy .. =>
      .error "Cannot mint additional supply for Non-Fungible Tokens"
  | _, _ => .error "Mismatched Token Definition and Token Holding types"

/-- What both ways of minting do once they are allowed to. -/
def mintOn (definition : TokenDefinition) (definitionAccount userHoldingAccount :
    AccountWithMetadata) (amountToMint : U128) : Except Panic (List AccountPostState) := do
  let holding ← holdingOr userHoldingAccount.account
    (.zeroizedFromDefinition definitionAccount.accountId definition)
    "Token Holding account must be valid"
  ensure (definitionAccount.accountId = holding.definitionId)
    "Mismatch Token Definition and Token Holding"
  let (definition, holding) ← mintTo amountToMint definition holding
  let definitionData ← definition.toData
  let holdingData ← holding.toData
  return [.new (withData definitionAccount.account definitionData),
    .newClaimedIfDefault (withData userHoldingAccount.account holdingData) .authorized]

/-- `mint`: the definition account is authorised. -/
def mint (definitionAccount userHoldingAccount : AccountWithMetadata) (amountToMint : U128) :
    Except Panic (List AccountPostState) := do
  ensure (definitionAccount.isAuthorized = true) "Definition authorization is missing"
  let definition ← expect (TokenDefinition.tryFrom definitionAccount.account.data)
    "Token Definition account must be valid"
  mintOn definition definitionAccount userHoldingAccount amountToMint

/-- `mint_with_authority`: the recorded admin is authorised. -/
def mintWithAuthority (definitionAccount userHoldingAccount authorityAccount :
    AccountWithMetadata) (amountToMint : U128) : Except Panic (List AccountPostState) := do
  let definition ← expect (TokenDefinition.tryFrom definitionAccount.account.data)
    "Token Definition account must be valid"
  let authority ← expect definition.authority?
    "mint_with_authority is only supported for fungible tokens"
  authority.gate authorityAccount
  let postStates ← mintOn definition definitionAccount userHoldingAccount amountToMint
  return postStates ++ [.newClaimedIfDefault authorityAccount.account .authorized]

/-! ## Copies and authorities -/

/-- `print_nft`. -/
def printNft (masterAccount printedAccount : AccountWithMetadata) :
    Except Panic (List AccountPostState) := do
  ensure (masterAccount.isAuthorized = true) "Master NFT Account must be authorized"
  ensure (printedAccount.account = Account.default) "Printed Account must be uninitialized"
  let master ← expect (TokenHolding.tryFrom masterAccount.account.data)
    "Invalid Token Holding data"
  match master with
  | .nftMaster definitionId printBalance => do
      ensure (1 < printBalance) "Insufficient balance to print another NFT copy"
      let printBalance ← expect (printBalance.checkedSub 1) "Checked above"
      let masterData ← (TokenHolding.nftMaster definitionId printBalance).toData
      let printedData ← (TokenHolding.nftPrintedCopy definitionId true).toData
      return [.new (withData masterAccount.account masterData),
        .newClaimed (withData printedAccount.account printedData) .authorized]
  | _ => .error "Invalid Token Holding provided as NFT Master Account"

/-- Rewrite the authority of a fungible definition. -/
def updateAuthority (update : Authority → Except Panic Authority) (unsupported : String)
    (definitionAccount authorityAccount : AccountWithMetadata) :
    Except Panic (List AccountPostState) := do
  let definition ← expect (TokenDefinition.tryFrom definitionAccount.account.data)
    "Token Definition account must be valid"
  match definition with
  | .fungible name totalSupply metadataId authority => do
      let authority ← update authority
      let definitionData ← (TokenDefinition.fungible name totalSupply metadataId authority).toData
      return [.new (withData definitionAccount.account definitionData),
        .newClaimedIfDefault authorityAccount.account .authorized]
  | .nonFungible .. => .error unsupported

/-- `rotate_authority`. -/
def rotateAuthority (definitionAccount authorityAccount : AccountWithMetadata)
    (newAdmin : AccountId) : Except Panic (List AccountPostState) :=
  updateAuthority (fun authority => authority.transfer authorityAccount newAdmin)
    "rotate_authority is only supported for fungible tokens" definitionAccount authorityAccount

/-- `revoke_authority`. -/
def revokeAuthority (definitionAccount authorityAccount : AccountWithMetadata) :
    Except Panic (List AccountPostState) :=
  updateAuthority (fun authority => authority.revoke authorityAccount)
    "revoke_authority is only supported for fungible tokens" definitionAccount authorityAccount

/-! ## The guest -/

/-- The post states, by instruction. -/
def postStates (preStates : List AccountWithMetadata) :
    Instruction → Except Panic (List AccountPostState)
  | .transfer balanceToMove =>
      match preStates with
      | [sender, recipient] => transfer sender recipient balanceToMove
      | _ => .error "Transfer instruction requires exactly two accounts"
  | .newFungibleDefinition name totalSupply =>
      match preStates with
      | [definition, holding] => newFungibleDefinition definition holding name totalSupply
      | _ => .error "NewFungibleDefinition instruction requires exactly two accounts"
  | .newFungibleDefinitionWithAuthority name totalSupply mintAuthority =>
      match preStates with
      | [definition, holding] =>
          newFungibleDefinitionWithAuthority definition holding name totalSupply mintAuthority
      | _ => .error "NewFungibleDefinitionWithAuthority instruction requires exactly two accounts"
  | .newDefinitionWithMetadata newDefinition metadata =>
      match preStates with
      | [definition, holding, metadataAccount] =>
          newDefinitionWithMetadata definition holding metadataAccount newDefinition metadata
      | _ => .error "NewDefinitionWithMetadata instruction requires exactly three accounts"
  | .initializeAccount =>
      match preStates with
      | [definition, accountToInitialize] => initializeAccount definition accountToInitialize
      | _ => .error "InitializeAccount instruction requires exactly two accounts"
  | .burn amountToBurn =>
      match preStates with
      | [definition, holding] => burn definition holding amountToBurn
      | _ => .error "Burn instruction requires exactly two accounts"
  | .mint amountToMint =>
      match preStates with
      | [definition, holding] => mint definition holding amountToMint
      | _ => .error "Mint instruction requires exactly two accounts"
  | .mintWithAuthority amountToMint =>
      match preStates with
      | [definition, holding, authority] =>
          mintWithAuthority definition holding authority amountToMint
      | _ => .error "MintWithAuthority instruction requires exactly three accounts"
  | .printNft =>
      match preStates with
      | [master, printed] => printNft master printed
      | _ => .error "PrintNft instruction requires exactly two accounts"
  | .rotateAuthority newAdmin =>
      match preStates with
      | [definition, authority] => rotateAuthority definition authority newAdmin
      | _ => .error "RotateAuthority instruction requires exactly two accounts"
  | .revokeAuthority =>
      match preStates with
      | [definition, authority] => revokeAuthority definition authority
      | _ => .error "RevokeAuthority instruction requires exactly two accounts"

variable [InstructionCodec Instruction]

def main (input : GuestInput) : Except Panic ProgramOutput := do
  let instruction ← readInstruction Instruction input.instructionData
  return input.output (← postStates input.preStates instruction) []

end Token

end ExecutionZone
