import Mathlib.Data.Nat.Sqrt
import ExecutionZone.Programs.Token

/-!
# The AMM program

The guest `amm`: pools of two tokens, with one pool for a pair.  A pool records reserves;
the tokens themselves are in two vault accounts of the token program, and the shares of the
liquidity providers are a token of their own.  The program rewrites its pool account and
chains calls that are to move the tokens, to the program that *owns the user's holding*.

Arithmetic wraps, as in a release build without overflow checks, except for the products of
swaps; a division by zero panics.
-/

namespace ExecutionZone

namespace U128

/-- `u128::checked_mul`. -/
def checkedMul (x y : U128) : Option U128 :=
  if x.toNat * y.toNat < 2 ^ 128 then some (x * y) else none

/-- Division. -/
def divide (x y : U128) : Except Panic U128 :=
  if y = 0 then .error "attempt to divide by zero" else .ok (x / y)

/-- `u128::div_ceil`. -/
def divCeil (x y : U128) : Except Panic U128 :=
  if y = 0 then .error "attempt to divide by zero"
  else .ok (if 0 < x % y then x / y + 1 else x / y)

/-- `u128::isqrt`. -/
def isqrt (x : U128) : U128 := BitVec.ofNat 128 (Nat.sqrt x.toNat)

end U128

namespace Amm

open Token (TokenHolding withData)

inductive Instruction where
  | newDefinition (tokenAAmount tokenBAmount : U128) (ammProgramId : ProgramId)
  | addLiquidity (minAmountLiquidity maxAmountToAddTokenA maxAmountToAddTokenB : U128)
  | removeLiquidity (removeLiquidityAmount minAmountToRemoveTokenA minAmountToRemoveTokenB : U128)
  | swapExactInput (swapAmountIn minAmountOut : U128) (tokenDefinitionIdIn : AccountId)
  | swapExactOutput (exactAmountOut maxAmountIn : U128) (tokenDefinitionIdIn : AccountId)
deriving DecidableEq

/-! ## Pools -/

/-- `PoolDefinition`. -/
structure PoolDefinition where
  definitionTokenAId : AccountId
  definitionTokenBId : AccountId
  vaultAId : AccountId
  vaultBId : AccountId
  liquidityPoolId : AccountId
  liquidityPoolSupply : U128
  reserveA : U128
  reserveB : U128
  /-- Not used yet. -/
  fees : U128
  active : Bool
deriving DecidableEq

namespace PoolDefinition

/-- `PoolDefinition::default()`. -/
def default : PoolDefinition :=
  ⟨⟨Bytes32.zero⟩, ⟨Bytes32.zero⟩, ⟨Bytes32.zero⟩, ⟨Bytes32.zero⟩, ⟨Bytes32.zero⟩, 0, 0, 0, 0,
    false⟩

/-- The fields in order. -/
def codec : Codec PoolDefinition :=
  (AccountId.codec.pair (AccountId.codec.pair (AccountId.codec.pair (AccountId.codec.pair
    (AccountId.codec.pair (U128.codec.pair (U128.codec.pair (U128.codec.pair (U128.codec.pair
      Codec.bool))))))))).map
    { toFun := fun ⟨tokenA, tokenB, vaultA, vaultB, lp, supply, reserveA, reserveB, fees, active⟩ =>
        ⟨tokenA, tokenB, vaultA, vaultB, lp, supply, reserveA, reserveB, fees, active⟩
      invFun := fun d => (d.definitionTokenAId, d.definitionTokenBId, d.vaultAId, d.vaultBId,
        d.liquidityPoolId, d.liquidityPoolSupply, d.reserveA, d.reserveB, d.fees, d.active)
      left_inv := fun _ => rfl
      right_inv := fun _ => rfl }

/-- `PoolDefinition::try_from`. -/
def tryFrom (data : Data) : Option PoolDefinition := codec.decode data.bytes

/-- `Data::from`. -/
def toData (definition : PoolDefinition) : Except Panic Data :=
  dataOf codec "Token definition encoded data should fit into Data" definition

end PoolDefinition

/-! ## Addresses -/

/-- What is hashed for the seed of a pool: the two token ids, the larger one first. -/
def poolSeedPreimage (definitionTokenAId definitionTokenBId : AccountId) : Except Panic Bytes :=
  let bytesA := definitionTokenAId.value.toList
  let bytesB := definitionTokenBId.value.toList
  match compare bytesA bytesB with
  | .lt => .ok (bytesB ++ bytesA)
  | .gt => .ok (bytesA ++ bytesB)
  | .eq => .error "Definitions match"

/-- What is hashed for the seed of a vault of a pool. -/
def vaultPdaSeedPreimage (poolId definitionTokenId : AccountId) : Bytes :=
  poolId.value.toList ++ definitionTokenId.value.toList

/-- What is hashed for the seed of the liquidity token of a pool. -/
def liquidityTokenSeedPreimage (poolId : AccountId) : Bytes :=
  poolId.value.toList ++ Bytes32.zero.toList

section

variable [Sha256]

/-- `compute_pool_pda_seed`. -/
def computePoolPdaSeed (definitionTokenAId definitionTokenBId : AccountId) :
    Except Panic PdaSeed := do
  return ⟨sha256 (← poolSeedPreimage definitionTokenAId definitionTokenBId)⟩

/-- `compute_pool_pda`. -/
def computePoolPda (ammProgramId : ProgramId) (definitionTokenAId definitionTokenBId : AccountId) :
    Except Panic AccountId := do
  return AccountId.forPublicPda ammProgramId
    (← computePoolPdaSeed definitionTokenAId definitionTokenBId)

/-- `compute_vault_pda_seed`. -/
def computeVaultPdaSeed (poolId definitionTokenId : AccountId) : PdaSeed :=
  ⟨sha256 (vaultPdaSeedPreimage poolId definitionTokenId)⟩

/-- `compute_vault_pda`. -/
def computeVaultPda (ammProgramId : ProgramId) (poolId definitionTokenId : AccountId) : AccountId :=
  AccountId.forPublicPda ammProgramId (computeVaultPdaSeed poolId definitionTokenId)

/-- `compute_liquidity_token_pda_seed`. -/
def computeLiquidityTokenPdaSeed (poolId : AccountId) : PdaSeed :=
  ⟨sha256 (liquidityTokenSeedPreimage poolId)⟩

/-- `compute_liquidity_token_pda`. -/
def computeLiquidityTokenPda (ammProgramId : ProgramId) (poolId : AccountId) : AccountId :=
  AccountId.forPublicPda ammProgramId (computeLiquidityTokenPdaSeed poolId)

end

/-! ## Accounts and calls -/

/-- The accounts of the instructions that change the liquidity. -/
structure LiquidityAccounts where
  pool : AccountWithMetadata
  vaultA : AccountWithMetadata
  vaultB : AccountWithMetadata
  poolDefinitionLp : AccountWithMetadata
  userHoldingA : AccountWithMetadata
  userHoldingB : AccountWithMetadata
  userHoldingLp : AccountWithMetadata

/-- The accounts of a swap. -/
structure SwapAccounts where
  pool : AccountWithMetadata
  vaultA : AccountWithMetadata
  vaultB : AccountWithMetadata
  userHoldingA : AccountWithMetadata
  userHoldingB : AccountWithMetadata

def LiquidityAccounts.toList (a : LiquidityAccounts) : List AccountWithMetadata :=
  [a.pool, a.vaultA, a.vaultB, a.poolDefinitionLp, a.userHoldingA, a.userHoldingB,
    a.userHoldingLp]

def SwapAccounts.toList (a : SwapAccounts) : List AccountWithMetadata :=
  [a.pool, a.vaultA, a.vaultB, a.userHoldingA, a.userHoldingB]

/-- The post states and the chained calls. -/
abbrev Outcome := List AccountPostState × List ChainedCall

/-- The post states: that of the pool comes first, the other accounts do not change. -/
def LiquidityAccounts.postStates (a : LiquidityAccounts) (poolPost : AccountPostState) :
    List AccountPostState :=
  poolPost :: unchangedPostStates a.toList.tail

def SwapAccounts.postStates (a : SwapAccounts) (poolPost : AccountPostState) :
    List AccountPostState :=
  poolPost :: unchangedPostStates a.toList.tail

/-- The balance of an account that has to be a fungible holding. -/
def fungibleBalance (account : Account) (invalid notFungible : String) : Except Panic U128 := do
  match ← expect (TokenHolding.tryFrom account.data) invalid with
  | .fungible _ balance => return balance
  | _ => .error notFungible

variable [InstructionCodec Token.Instruction]

/-- `ChainedCall::new` with a token instruction, and `with_pda_seeds`. -/
def tokenCall (tokenProgramId : ProgramId) (preStates : List AccountWithMetadata)
    (instruction : Token.Instruction) (pdaSeeds : List PdaSeed) : ChainedCall :=
  ⟨tokenProgramId, preStates, InstructionCodec.toVec instruction, pdaSeeds⟩

/-! ## New pools -/

/-- What is recorded of a pool so far: nothing in the default account. -/
def poolOrDefault (account : Account) : Except Panic PoolDefinition :=
  if account = Account.default then .ok .default
  else expect (PoolDefinition.tryFrom account.data) "AMM program expects a valid Pool account"

/-- The name of every liquidity token. -/
def lpTokenName : Token.Text := ⟨"LP Token", by decide⟩

section

variable [Sha256]

/-- `new_definition`. -/
def newDefinition (a : LiquidityAccounts) (tokenAAmount tokenBAmount : U128)
    (ammProgramId : ProgramId) : Except Panic Outcome := do
  let definitionTokenAId := (← expect (TokenHolding.tryFrom a.userHoldingA.account.data)
    "New definition: AMM Program expects valid Token Holding account for Token A").definitionId
  let definitionTokenBId := (← expect (TokenHolding.tryFrom a.userHoldingB.account.data)
    "New definition: AMM Program expects valid Token Holding account for Token B").definitionId
  let tokenProgram := a.userHoldingA.account.programOwner
  ensure (a.userHoldingB.account.programOwner = tokenProgram)
    "User Token holdings must use the same Token Program"
  ensure (definitionTokenAId ≠ definitionTokenBId) "Cannot set up a swap for a token with itself"
  let poolPda ← computePoolPda ammProgramId definitionTokenAId definitionTokenBId
  ensure (a.pool.accountId = poolPda) "Pool Definition Account ID does not match PDA"
  ensure (a.vaultA.accountId =
      computeVaultPda ammProgramId a.pool.accountId definitionTokenAId)
    "Vault ID does not match PDA"
  ensure (a.vaultB.accountId =
      computeVaultPda ammProgramId a.pool.accountId definitionTokenBId)
    "Vault ID does not match PDA"
  ensure (a.poolDefinitionLp.accountId = computeLiquidityTokenPda ammProgramId a.pool.accountId)
    "Liquidity pool Token Definition Account ID does not match PDA"
  let poolAccountData ← poolOrDefault a.pool.account
  ensure (poolAccountData.active = false) "Cannot initialize an active Pool Definition"
  let initialLp := (tokenAAmount * tokenBAmount).isqrt
  let instruction : Token.Instruction :=
    if a.pool.account = Account.default then .newFungibleDefinition lpTokenName initialLp
    else .mint initialLp
  let poolData ← (PoolDefinition.mk definitionTokenAId definitionTokenBId a.vaultA.accountId
    a.vaultB.accountId a.poolDefinitionLp.accountId initialLp tokenAAmount tokenBAmount 0
    true).toData
  let poolPdaSeed ← computePoolPdaSeed definitionTokenAId definitionTokenBId
  return (a.postStates
      (.newClaimedIfDefault (withData a.pool.account poolData) (.pda poolPdaSeed)),
    [tokenCall tokenProgram [Vault.authorize a.poolDefinitionLp, a.userHoldingLp] instruction
        [computeLiquidityTokenPdaSeed a.pool.accountId],
      tokenCall tokenProgram [a.userHoldingB, Vault.authorize a.vaultB] (.transfer tokenBAmount)
        [computeVaultPdaSeed a.pool.accountId definitionTokenBId],
      tokenCall tokenProgram [a.userHoldingA, Vault.authorize a.vaultA] (.transfer tokenAAmount)
        [computeVaultPdaSeed a.pool.accountId definitionTokenAId]])

end

/-! ## Adding liquidity -/

/-- The two deposits and the shares minted for them. -/
structure Deposit where
  actualAmountA : U128
  actualAmountB : U128
  deltaLp : U128
deriving DecidableEq

/-- What `add_liquidity` computes from a pool and the bounds of the user. -/
def depositFor (d : PoolDefinition) (minAmountLiquidity maxAmountToAddTokenA
    maxAmountToAddTokenB : U128) : Except Panic Deposit := do
  let idealA ← (d.reserveA * maxAmountToAddTokenB).divide d.reserveB
  let idealB ← (d.reserveB * maxAmountToAddTokenA).divide d.reserveA
  let actualAmountA := if maxAmountToAddTokenA < idealA then maxAmountToAddTokenA else idealA
  let actualAmountB := if maxAmountToAddTokenB < idealB then maxAmountToAddTokenB else idealB
  ensure (actualAmountA ≤ maxAmountToAddTokenA) "Actual trade amounts cannot exceed max_amounts"
  ensure (actualAmountB ≤ maxAmountToAddTokenB) "Actual trade amounts cannot exceed max_amounts"
  ensure (actualAmountA ≠ 0) "A trade amount is 0"
  ensure (actualAmountB ≠ 0) "A trade amount is 0"
  let sharesA ← (d.liquidityPoolSupply * actualAmountA).divide d.reserveA
  let sharesB ← (d.liquidityPoolSupply * actualAmountB).divide d.reserveB
  let deltaLp := if sharesA ≤ sharesB then sharesA else sharesB
  ensure (deltaLp ≠ 0) "Payable LP must be nonzero"
  ensure (minAmountLiquidity ≤ deltaLp) "Payable LP is less than provided minimum LP amount"
  return ⟨actualAmountA, actualAmountB, deltaLp⟩

section

variable [Sha256]

/-- `add_liquidity`. -/
def addLiquidity (a : LiquidityAccounts) (minAmountLiquidity maxAmountToAddTokenA
    maxAmountToAddTokenB : U128) : Except Panic Outcome := do
  let d ← expect (PoolDefinition.tryFrom a.pool.account.data)
    "Add liquidity: AMM Program expects valid Pool Definition Account"
  ensure (a.vaultA.accountId = d.vaultAId) "Vault A was not provided"
  ensure (d.liquidityPoolId = a.poolDefinitionLp.accountId) "LP definition mismatch"
  ensure (a.vaultB.accountId = d.vaultBId) "Vault B was not provided"
  ensure (maxAmountToAddTokenA ≠ 0 ∧ maxAmountToAddTokenB ≠ 0) "Both max-balances must be nonzero"
  let vaultBBalance ← fungibleBalance a.vaultB.account
    "Add liquidity: AMM Program expects valid Token Holding Account for Vault B"
    "Add liquidity: AMM Program expects valid Fungible Token Holding Account for Vault B"
  let vaultABalance ← fungibleBalance a.vaultA.account
    "Add liquidity: AMM Program expects valid Token Holding Account for Vault A"
    "Add liquidity: AMM Program expects valid Fungible Token Holding Account for Vault A"
  ensure (d.reserveA ≠ 0) "Reserves must be nonzero"
  ensure (d.reserveB ≠ 0) "Reserves must be nonzero"
  ensure (d.reserveA ≤ vaultABalance) "Vaults' balances must be at least the reserve amounts"
  ensure (d.reserveB ≤ vaultBBalance) "Vaults' balances must be at least the reserve amounts"
  let deposit ← depositFor d minAmountLiquidity maxAmountToAddTokenA maxAmountToAddTokenB
  let poolData ← PoolDefinition.toData { d with
    liquidityPoolSupply := d.liquidityPoolSupply + deposit.deltaLp
    reserveA := d.reserveA + deposit.actualAmountA
    reserveB := d.reserveB + deposit.actualAmountB }
  let tokenProgramId := a.userHoldingA.account.programOwner
  return (a.postStates (.new (withData a.pool.account poolData)),
    [tokenCall tokenProgramId [Vault.authorize a.poolDefinitionLp, a.userHoldingLp]
        (.mint deposit.deltaLp) [computeLiquidityTokenPdaSeed a.pool.accountId],
      tokenCall tokenProgramId [a.userHoldingB, a.vaultB] (.transfer deposit.actualAmountB) [],
      tokenCall tokenProgramId [a.userHoldingA, a.vaultA] (.transfer deposit.actualAmountA) []])

end

/-! ## Removing liquidity -/

/-- The two withdrawals and the shares burned for them. -/
structure Withdrawal where
  withdrawAmountA : U128
  withdrawAmountB : U128
  deltaLp : U128
deriving DecidableEq

/-- What `remove_liquidity` computes from a pool and the amounts of the user. -/
def withdrawalFor (d : PoolDefinition) (removeLiquidityAmount minAmountToRemoveTokenA
    minAmountToRemoveTokenB : U128) : Except Panic Withdrawal := do
  let withdrawAmountA ← (d.reserveA * removeLiquidityAmount).divide d.liquidityPoolSupply
  let withdrawAmountB ← (d.reserveB * removeLiquidityAmount).divide d.liquidityPoolSupply
  ensure (minAmountToRemoveTokenA ≤ withdrawAmountA)
    "Insufficient minimal withdraw amount (Token A) provided for liquidity amount"
  ensure (minAmountToRemoveTokenB ≤ withdrawAmountB)
    "Insufficient minimal withdraw amount (Token B) provided for liquidity amount"
  let deltaLp ← (d.liquidityPoolSupply * removeLiquidityAmount).divide d.liquidityPoolSupply
  return ⟨withdrawAmountA, withdrawAmountB, deltaLp⟩

section

variable [Sha256]

/-- `remove_liquidity`. -/
def removeLiquidity (a : LiquidityAccounts) (removeLiquidityAmount minAmountToRemoveTokenA
    minAmountToRemoveTokenB : U128) : Except Panic Outcome := do
  let d ← expect (PoolDefinition.tryFrom a.pool.account.data)
    "Remove liquidity: AMM Program expects a valid Pool Definition Account"
  ensure (d.active = true) "Pool is inactive"
  ensure (d.liquidityPoolId = a.poolDefinitionLp.accountId) "LP definition mismatch"
  ensure (a.vaultA.accountId = d.vaultAId) "Vault A was not provided"
  ensure (a.vaultB.accountId = d.vaultBId) "Vault B was not provided"
  ensure (minAmountToRemoveTokenA ≠ 0) "Minimum withdraw amount must be nonzero"
  ensure (minAmountToRemoveTokenB ≠ 0) "Minimum withdraw amount must be nonzero"
  let userHoldingLpData ← expect (TokenHolding.tryFrom a.userHoldingLp.account.data)
    "Remove liquidity: AMM Program expects a valid Token Account for liquidity token"
  let userLpBalance ← fungibleBalance a.userHoldingLp.account
    "Remove liquidity: AMM Program expects a valid Token Account for liquidity token"
    "Remove liquidity: AMM Program expects a valid Fungible Token Holding Account for liquidity token"
  ensure (userLpBalance ≤ d.liquidityPoolSupply) "Invalid liquidity account provided"
  ensure (userHoldingLpData.definitionId = d.liquidityPoolId) "Invalid liquidity account provided"
  let withdrawal ← withdrawalFor d removeLiquidityAmount minAmountToRemoveTokenA
    minAmountToRemoveTokenB
  let poolData ← PoolDefinition.toData { d with
    liquidityPoolSupply := d.liquidityPoolSupply - withdrawal.deltaLp
    reserveA := d.reserveA - withdrawal.withdrawAmountA
    reserveB := d.reserveB - withdrawal.withdrawAmountB
    active := decide (d.liquidityPoolSupply - withdrawal.deltaLp ≠ 0) }
  let tokenProgramId := a.userHoldingA.account.programOwner
  return (a.postStates (.new (withData a.pool.account poolData)),
    [tokenCall tokenProgramId [Vault.authorize a.poolDefinitionLp, a.userHoldingLp]
        (.burn withdrawal.deltaLp) [computeLiquidityTokenPdaSeed a.pool.accountId],
      tokenCall tokenProgramId [Vault.authorize a.vaultB, a.userHoldingB]
        (.transfer withdrawal.withdrawAmountB)
        [computeVaultPdaSeed a.pool.accountId d.definitionTokenBId],
      tokenCall tokenProgramId [Vault.authorize a.vaultA, a.userHoldingA]
        (.transfer withdrawal.withdrawAmountA)
        [computeVaultPdaSeed a.pool.accountId d.definitionTokenAId]])

end

/-! ## Swaps -/

/-- `validate_swap_setup`. -/
def validateSwapSetup (a : SwapAccounts) : Except Panic PoolDefinition := do
  let d ← expect (PoolDefinition.tryFrom a.pool.account.data)
    "AMM Program expects a valid Pool Definition Account"
  ensure (d.active = true) "Pool is inactive"
  ensure (a.vaultA.accountId = d.vaultAId) "Vault A was not provided"
  ensure (a.vaultB.accountId = d.vaultBId) "Vault B was not provided"
  let vaultABalance ← fungibleBalance a.vaultA.account
    "AMM Program expects a valid Token Holding Account for Vault A"
    "AMM Program expects a valid Fungible Token Holding Account for Vault A"
  ensure (d.reserveA ≤ vaultABalance) "Reserve for Token A exceeds vault balance"
  let vaultBBalance ← fungibleBalance a.vaultB.account
    "AMM Program expects a valid Token Holding Account for Vault B"
    "AMM Program expects a valid Fungible Token Holding Account for Vault B"
  ensure (d.reserveB ≤ vaultBBalance) "Reserve for Token B exceeds vault balance"
  return d

/-- `create_swap_post_states`. -/
def createSwapPostStates (a : SwapAccounts) (d : PoolDefinition)
    (depositA withdrawA depositB withdrawB : U128) : Except Panic (List AccountPostState) := do
  let poolData ← PoolDefinition.toData { d with
    reserveA := d.reserveA + depositA - withdrawA
    reserveB := d.reserveB + depositB - withdrawB }
  return a.postStates (.new (withData a.pool.account poolData))

section

variable [Sha256]

/-- The calls of a swap: the deposit, and the withdrawal with the seed of the vault, which is
computed from the token of the holding in it. -/
def swapCalls (userDeposit vaultDeposit vaultWithdraw userWithdraw : AccountWithMetadata)
    (depositAmount withdrawAmount : U128) (poolId : AccountId) (invalid : String) :
    Except Panic (List ChainedCall) := do
  let tokenProgramId := userDeposit.account.programOwner
  let holding ← expect (TokenHolding.tryFrom vaultWithdraw.account.data) invalid
  return [tokenCall tokenProgramId [userDeposit, vaultDeposit] (.transfer depositAmount) [],
    tokenCall tokenProgramId [Vault.authorize vaultWithdraw, userWithdraw]
      (.transfer withdrawAmount) [computeVaultPdaSeed poolId holding.definitionId]]

/-- `swap_logic`. -/
def swapLogic (userDeposit vaultDeposit vaultWithdraw userWithdraw : AccountWithMetadata)
    (swapAmountIn minAmountOut reserveDepositVaultAmount reserveWithdrawVaultAmount : U128)
    (poolId : AccountId) : Except Panic (List ChainedCall × U128 × U128) := do
  let product ← expect (reserveWithdrawVaultAmount.checkedMul swapAmountIn)
    "reserve * amount_in overflows u128"
  let withdrawAmount ← product.divide (reserveDepositVaultAmount + swapAmountIn)
  ensure (minAmountOut ≤ withdrawAmount) "Withdraw amount is less than minimal amount out"
  ensure (withdrawAmount ≠ 0) "Withdraw amount should be nonzero"
  let calls ← swapCalls userDeposit vaultDeposit vaultWithdraw userWithdraw swapAmountIn
    withdrawAmount poolId "Swap Logic: AMM Program expects valid token data"
  return (calls, swapAmountIn, withdrawAmount)

/-- `exact_output_swap_logic`. -/
def exactOutputSwapLogic
    (userDeposit vaultDeposit vaultWithdraw userWithdraw : AccountWithMetadata)
    (exactAmountOut maxAmountIn reserveDepositVaultAmount reserveWithdrawVaultAmount : U128)
    (poolId : AccountId) : Except Panic (List ChainedCall × U128 × U128) := do
  ensure (exactAmountOut ≠ 0) "Exact amount out must be nonzero"
  ensure (exactAmountOut < reserveWithdrawVaultAmount) "Exact amount out exceeds reserve"
  let product ← expect (reserveDepositVaultAmount.checkedMul exactAmountOut)
    "reserve * amount_out overflows u128"
  let depositAmount ← product.divCeil (reserveWithdrawVaultAmount - exactAmountOut)
  ensure (depositAmount ≤ maxAmountIn) "Required input exceeds maximum amount in"
  let calls ← swapCalls userDeposit vaultDeposit vaultWithdraw userWithdraw depositAmount
    exactAmountOut poolId "Exact Output Swap Logic: AMM Program expects valid token data"
  return (calls, depositAmount, exactAmountOut)

/-- What both kinds of swaps do: pick the direction, run the logic on the accounts and the
reserves in that direction, rewrite the reserves. -/
def swapWith (logic : AccountWithMetadata → AccountWithMetadata → AccountWithMetadata →
      AccountWithMetadata → U128 → U128 → Except Panic (List ChainedCall × U128 × U128))
    (a : SwapAccounts) (tokenInId : AccountId) : Except Panic Outcome := do
  let d ← validateSwapSetup a
  if tokenInId = d.definitionTokenAId then
    let (calls, depositA, withdrawB) ← logic a.userHoldingA a.vaultA a.vaultB a.userHoldingB
      d.reserveA d.reserveB
    return (← createSwapPostStates a d depositA 0 0 withdrawB, calls)
  else if tokenInId = d.definitionTokenBId then
    let (calls, depositB, withdrawA) ← logic a.userHoldingB a.vaultB a.vaultA a.userHoldingA
      d.reserveB d.reserveA
    return (← createSwapPostStates a d 0 withdrawA depositB 0, calls)
  else .error "AccountId is not a token type for the pool"

/-- `swap_exact_input`. -/
def swapExactInput (a : SwapAccounts) (swapAmountIn minAmountOut : U128)
    (tokenInId : AccountId) : Except Panic Outcome :=
  swapWith (fun userDeposit vaultDeposit vaultWithdraw userWithdraw reserveIn reserveOut =>
    swapLogic userDeposit vaultDeposit vaultWithdraw userWithdraw swapAmountIn minAmountOut
      reserveIn reserveOut a.pool.accountId) a tokenInId

/-- `swap_exact_output`. -/
def swapExactOutput (a : SwapAccounts) (exactAmountOut maxAmountIn : U128)
    (tokenInId : AccountId) : Except Panic Outcome :=
  swapWith (fun userDeposit vaultDeposit vaultWithdraw userWithdraw reserveIn reserveOut =>
    exactOutputSwapLogic userDeposit vaultDeposit vaultWithdraw userWithdraw exactAmountOut
      maxAmountIn reserveIn reserveOut a.pool.accountId) a tokenInId

/-! ## The guest -/

/-- The seven accounts of an instruction that changes the liquidity. -/
def liquidityAccounts : List AccountWithMetadata → Except Panic LiquidityAccounts
  | [pool, vaultA, vaultB, poolDefinitionLp, userHoldingA, userHoldingB, userHoldingLp] =>
      .ok ⟨pool, vaultA, vaultB, poolDefinitionLp, userHoldingA, userHoldingB, userHoldingLp⟩
  | _ => .error "Transfer instruction requires exactly seven accounts"

/-- The five accounts of a swap. -/
def swapAccounts (preStates : List AccountWithMetadata) (wrong : String) :
    Except Panic SwapAccounts :=
  match preStates with
  | [pool, vaultA, vaultB, userHoldingA, userHoldingB] =>
      .ok ⟨pool, vaultA, vaultB, userHoldingA, userHoldingB⟩
  | _ => .error wrong

/-- The outcome, by instruction. -/
def outcome (preStates : List AccountWithMetadata) : Instruction → Except Panic Outcome
  | .newDefinition tokenAAmount tokenBAmount ammProgramId => do
      let a ← liquidityAccounts preStates
      ensure (tokenAAmount ≠ 0) "Token A should have a nonzero amount"
      ensure (tokenBAmount ≠ 0) "Token B should have a nonzero amount"
      newDefinition a tokenAAmount tokenBAmount ammProgramId
  | .addLiquidity minAmountLiquidity maxAmountToAddTokenA maxAmountToAddTokenB => do
      let a ← liquidityAccounts preStates
      ensure (minAmountLiquidity ≠ 0) "Min amount of liquidity should be nonzero"
      addLiquidity a minAmountLiquidity maxAmountToAddTokenA maxAmountToAddTokenB
  | .removeLiquidity removeLiquidityAmount minAmountToRemoveTokenA minAmountToRemoveTokenB => do
      let a ← liquidityAccounts preStates
      ensure (removeLiquidityAmount ≠ 0) "Remove liquidity amount must be nonzero"
      removeLiquidity a removeLiquidityAmount minAmountToRemoveTokenA minAmountToRemoveTokenB
  | .swapExactInput swapAmountIn minAmountOut tokenDefinitionIdIn => do
      let a ← swapAccounts preStates "SwapExactInput instruction requires exactly five accounts"
      swapExactInput a swapAmountIn minAmountOut tokenDefinitionIdIn
  | .swapExactOutput exactAmountOut maxAmountIn tokenDefinitionIdIn => do
      let a ← swapAccounts preStates "SwapExactOutput instruction requires exactly five accounts"
      swapExactOutput a exactAmountOut maxAmountIn tokenDefinitionIdIn

def main [InstructionCodec Instruction] (input : GuestInput) : Except Panic ProgramOutput := do
  let instruction ← readInstruction Instruction input.instructionData
  let (postStates, chainedCalls) ← outcome input.preStates instruction
  return input.output postStates chainedCalls

end

end Amm

end ExecutionZone
