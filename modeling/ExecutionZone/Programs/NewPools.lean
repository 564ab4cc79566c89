import ExecutionZone.Programs.Pools

/-!
# New pools

The first shares of a pool are the square root of the product of the deposits, and every later
share is computed from them.  The product is that of machine words: it wraps where the deposits
are large (`new_pool_supply_iff`), and a pool without shares is one nobody can withdraw from.

The accounts of a pool are at addresses of the AMM: the pool itself under its two tokens, each
vault under the pool and its token, the token of the shares under the pool.  Each address is
the hash of 64 bytes that are two ids, and nothing in these bytes tells which of the three it
is for (`addresses_separate_iff`).
-/

namespace ExecutionZone

namespace U128

theorem toNat_isqrt (x : U128) : x.isqrt.toNat = Nat.sqrt x.toNat := by
  unfold isqrt
  rw [BitVec.toNat_ofNat, Nat.mod_eq_of_lt ((Nat.sqrt_le_self _).trans_lt x.isLt)]

/-- The square root of a product that may wrap is that of the product exactly where it does
not wrap. -/
theorem toNat_isqrt_mul_iff (x y : U128) :
    (x * y).isqrt.toNat = Nat.sqrt (x.toNat * y.toNat) ↔ x.toNat * y.toNat < 2 ^ 128 := by
  rw [toNat_isqrt, BitVec.toNat_mul]
  constructor
  · intro h
    have hlt : Nat.sqrt (x.toNat * y.toNat % 2 ^ 128) < 2 ^ 64 :=
      Nat.sqrt_lt.2 (Nat.mod_lt _ (by decide))
    rw [h] at hlt
    exact Nat.sqrt_lt.1 hlt
  · intro h
    rw [Nat.mod_eq_of_lt h]

theorem divide_ne_error {x y : U128} (h : y ≠ 0) (e : Panic) : x.divide y ≠ .error e := by
  rw [divide, if_neg h]
  exact nofun

end U128

namespace Amm

open Token (TokenHolding withData executeCalls)

/-! ## Pools that can be used -/

/-- What a division by zero panics with. -/
def dividesByZero : Panic := "attempt to divide by zero"

theorem fungibleBalance_ne_error {account : Account} {invalid notFungible : String} {e : Panic}
    (hinvalid : invalid ≠ e) (hnotFungible : notFungible ≠ e) :
    fungibleBalance account invalid notFungible ≠ .error e := by
  intro h
  rcases bind_eq_error.1 h with h | ⟨holding, _, h⟩
  · exact hinvalid (expect_eq_error.1 h).2
  · cases holding with
    | fungible definitionId balance => cases h
    | nftMaster definitionId printBalance => exact hnotFungible (Except.error.inj h)
    | nftPrintedCopy definitionId owned => exact hnotFungible (Except.error.inj h)

theorem toData_ne_error {d : PoolDefinition} : d.toData ≠ .error dividesByZero := by
  intro h
  have hne : "Token definition encoded data should fit into Data" ≠ dividesByZero := by decide
  exact hne (expect_eq_error.1 h).2

theorem depositFor_ne_error {d : PoolDefinition} (hA : d.reserveA ≠ 0) (hB : d.reserveB ≠ 0)
    (minLiquidity maxA maxB : U128) :
    depositFor d minLiquidity maxA maxB ≠ .error dividesByZero := by
  simp [depositFor, bind_eq_error, ensure_eq_error, U128.divide_ne_error hA,
    U128.divide_ne_error hB, dividesByZero, pure, Except.pure]

theorem withdrawalFor_ne_error {d : PoolDefinition} (h : d.liquidityPoolSupply ≠ 0)
    (amount minA minB : U128) : withdrawalFor d amount minA minB ≠ .error dividesByZero := by
  simp [withdrawalFor, bind_eq_error, ensure_eq_error, U128.divide_ne_error h, dividesByZero, pure,
    Except.pure]

section

variable [InstructionCodec Token.Instruction] [Sha256]

/-- No instruction that changes the liquidity of the pool divides by zero. -/
def PoolDefinition.Usable (d : PoolDefinition) : Prop :=
  ∀ a : LiquidityAccounts, PoolDefinition.tryFrom a.pool.account.data = some d →
    (∀ minLiquidity maxA maxB, addLiquidity a minLiquidity maxA maxB ≠ .error dividesByZero) ∧
    ∀ amount minA minB, removeLiquidity a amount minA minB ≠ .error dividesByZero

theorem PoolDefinition.usable {d : PoolDefinition} (hA : d.reserveA ≠ 0) (hB : d.reserveB ≠ 0)
    (hsupply : d.liquidityPoolSupply ≠ 0) : d.Usable := by
  intro a hd
  refine ⟨fun minLiquidity maxA maxB => ?_, fun amount minA minB => ?_⟩
  · have hdeposit := depositFor_ne_error hA hB minLiquidity maxA maxB
    have hdata := @toData_ne_error
    have hbalance := @fungibleBalance_ne_error
    simp only [dividesByZero] at hdeposit hdata hbalance
    simp [addLiquidity, hd, bind_eq_error, ensure_eq_error, expect_eq_error, hdeposit, hdata,
      hbalance, dividesByZero, pure, Except.pure]
  · have hwithdrawal := withdrawalFor_ne_error hsupply amount minA minB
    have hdata := @toData_ne_error
    have hbalance := @fungibleBalance_ne_error
    simp only [dividesByZero] at hwithdrawal hdata hbalance
    simp [removeLiquidity, hd, bind_eq_error, ensure_eq_error, expect_eq_error, hwithdrawal, hdata,
      hbalance, dividesByZero, pure, Except.pure]

/-- Nobody can withdraw from an active pool without shares. -/
theorem removeLiquidity_of_supply_eq_zero {a : LiquidityAccounts} {d : PoolDefinition}
    (hpool : PoolDefinition.tryFrom a.pool.account.data = some d) (hactive : d.active = true)
    (hsupply : d.liquidityPoolSupply = 0) (hlp : d.liquidityPoolId = a.poolDefinitionLp.accountId)
    (hA : a.vaultA.accountId = d.vaultAId) (hB : a.vaultB.accountId = d.vaultBId)
    (hshares : TokenHolding.tryFrom a.userHoldingLp.account.data =
      some (.fungible d.liquidityPoolId 0)) :
    removeLiquidity a 1 1 1 = .error dividesByZero := by
  simp [removeLiquidity, hpool, hshares, hactive, hsupply, hA, hB, ← hlp, fungibleBalance,
    withdrawalFor, U128.divide, expect, ensure, bind, Except.bind, pure, Except.pure,
    dividesByZero, TokenHolding.definitionId]

theorem PoolDefinition.not_usable {d : PoolDefinition} (hactive : d.active = true)
    (hsupply : d.liquidityPoolSupply = 0) : ¬d.Usable := by
  intro husable
  have hlen : (PoolDefinition.codec.write d).length ≤ dataMaxLength := by
    simp [PoolDefinition.codec, dataMaxLength]
  have hpool : PoolDefinition.tryFrom ⟨PoolDefinition.codec.write d, hlen⟩ = some d :=
    Codec.decode_write _ _
  have hshares : TokenHolding.tryFrom (Sample.holdingData (.fungible d.liquidityPoolId 0)) =
      some (.fungible d.liquidityPoolId 0) :=
    TokenHolding.codec.decode_write (.fungible d.liquidityPoolId 0)
  let a : LiquidityAccounts :=
    { pool := ⟨Sample.dataAccount defaultProgramId ⟨PoolDefinition.codec.write d, hlen⟩, false,
        d.liquidityPoolId⟩
      vaultA := ⟨.default, false, d.vaultAId⟩
      vaultB := ⟨.default, false, d.vaultBId⟩
      poolDefinitionLp := ⟨.default, false, d.liquidityPoolId⟩
      userHoldingA := ⟨.default, false, d.vaultAId⟩
      userHoldingB := ⟨.default, false, d.vaultBId⟩
      userHoldingLp := ⟨Sample.dataAccount defaultProgramId
        (Sample.holdingData (.fungible d.liquidityPoolId 0)), false, d.liquidityPoolId⟩ }
  exact (husable a hpool).2 1 1 1
    (removeLiquidity_of_supply_eq_zero hpool hactive hsupply rfl rfl rfl hshares)

/-! ## The first shares -/

/-- The specification of `new_definition`: the pool it records, and the shares it mints. -/
theorem newDefinition_eq_ok {a : LiquidityAccounts} {x y : U128} {ammProgramId : ProgramId}
    {posts : List AccountPostState} {calls : List ChainedCall}
    (h : newDefinition a x y ammProgramId = .ok (posts, calls)) :
    ∃ d, poolAfter posts = some d ∧ d.active = true ∧ d.reserveA = x ∧ d.reserveB = y ∧
      d.liquidityPoolSupply = (x * y).isqrt ∧
      (calls.head?.bind tokenInstruction =
          some (.newFungibleDefinition lpTokenName d.liquidityPoolSupply) ∨
        calls.head?.bind tokenInstruction = some (.mint d.liquidityPoolSupply)) := by
  simp only [newDefinition, bind_eq_ok, ensure_eq_ok, exists_const, expect_eq_ok, pure, Except.pure,
    Except.ok.injEq, Prod.mk.injEq] at h
  obtain ⟨holdingA, _, holdingB, _, _, _, poolPda, _, _, _, _, _, recorded, _, _, data, hdata, seed,
    _, rfl, rfl⟩ := h
  refine ⟨_, decode_of_dataOf hdata, rfl, rfl, rfl, rfl, ?_⟩
  simp only [List.head?_cons, Option.bind_some, tokenInstruction_tokenCall]
  split
  · exact .inl rfl
  · exact .inr rfl

/-- **First shares.**  Where `new_definition` returns, it records an active pool and mints the
shares the pool records.  Exactly where the product of the deposits does not wrap, these are the
square root of the product, more than none, and the pool can be used. -/
theorem new_pool_supply_iff {a : LiquidityAccounts} {x y : U128} {ammProgramId : ProgramId}
    {posts : List AccountPostState} {calls : List ChainedCall} (hx : x ≠ 0) (hy : y ≠ 0)
    (h : newDefinition a x y ammProgramId = .ok (posts, calls)) :
    ∃ d, poolAfter posts = some d ∧ d.active = true ∧
      (calls.head?.bind tokenInstruction =
          some (.newFungibleDefinition lpTokenName d.liquidityPoolSupply) ∨
        calls.head?.bind tokenInstruction = some (.mint d.liquidityPoolSupply)) ∧
      ((d.liquidityPoolSupply.toNat = Nat.sqrt (x.toNat * y.toNat) ∧
          0 < d.liquidityPoolSupply.toNat ∧ d.Usable) ↔ x.toNat * y.toNat < 2 ^ 128) := by
  obtain ⟨d, hd, hactive, hA, hB, hsupply, hmint⟩ := newDefinition_eq_ok h
  refine ⟨d, hd, hactive, hmint, ?_⟩
  rw [hsupply]
  constructor
  · rintro ⟨hsqrt, _, _⟩
    exact (U128.toNat_isqrt_mul_iff x y).1 hsqrt
  · intro hlt
    have hsqrt := (U128.toNat_isqrt_mul_iff x y).2 hlt
    have hpos : 0 < (x * y).isqrt.toNat := by
      rw [hsqrt]
      exact Nat.sqrt_pos.2 (Nat.mul_pos (U128.toNat_pos hx) (U128.toNat_pos hy))
    refine ⟨hsqrt, hpos, PoolDefinition.usable ?_ ?_ ?_⟩
    · rwa [hA]
    · rwa [hB]
    · rw [hsupply]
      intro hzero
      rw [hzero] at hpos
      exact lt_irrefl _ hpos

end

namespace SamplePool

/-- The accounts of a user with a balance of each token, before there is a pool. -/
def freshAccounts [Sha256] (balance : U128) : LiquidityAccounts :=
  let ammProgramId := Sample.programId 4
  let poolId := valueD tokenA (computePoolPda ammProgramId tokenA tokenB)
  { pool := ⟨.default, false, poolId⟩
    vaultA := ⟨.default, false, computeVaultPda ammProgramId poolId tokenA⟩
    vaultB := ⟨.default, false, computeVaultPda ammProgramId poolId tokenB⟩
    poolDefinitionLp := ⟨.default, false, computeLiquidityTokenPda ammProgramId poolId⟩
    userHoldingA := holding 41 tokenA balance
    userHoldingB := holding 42 tokenB balance
    userHoldingLp := ⟨.default, true, Sample.accountId 43⟩ }

end SamplePool

/-- Deposits of `2 ^ 64` of each token: the product wraps to zero, and there is a pool with
reserves and without shares. -/
theorem pool_without_shares :
    let _ := Sample.sha256; let _ := Sample.tokenCodec
    let a := SamplePool.freshAccounts (2 ^ 64)
    ∃ posts calls m' d, newDefinition a (2 ^ 64) (2 ^ 64) (Sample.programId 4) = .ok (posts, calls) ∧
      executeCalls (SamplePool.ledger a.toList) calls = .ok m' ∧ poolAfter posts = some d ∧
      d.active = true ∧ d.liquidityPoolSupply = 0 ∧ ¬d.Usable ∧
      d.liquidityPoolSupply.toNat ≠ Nat.sqrt ((2 ^ 64 : U128).toNat * (2 ^ 64 : U128).toNat) := by
  intro _ _ a
  have hok : (newDefinition a (2 ^ 64) (2 ^ 64) (Sample.programId 4) >>= fun o =>
      executeCalls (SamplePool.ledger a.toList) o.2).isOk = true := by decide +kernel
  obtain ⟨m', hrun⟩ := exists_of_isOk hok
  obtain ⟨⟨posts, calls⟩, h, hm'⟩ := bind_eq_ok.1 hrun
  obtain ⟨d, hd, hactive, _, _, hsupply, _⟩ := newDefinition_eq_ok h
  have hzero : d.liquidityPoolSupply = 0 := by
    rw [hsupply]
    decide +kernel
  refine ⟨posts, calls, m', d, h, hm', hd, hactive, hzero, d.not_usable hactive hzero, ?_⟩
  rw [hsupply]
  exact fun hsqrt => absurd ((U128.toNat_isqrt_mul_iff _ _).1 hsqrt) (by decide +kernel)

/-- Deposits of 400 and 900 give 600 shares. -/
theorem new_pool_supply_iff_small :
    let _ := Sample.sha256; let _ := Sample.tokenCodec
    let a := SamplePool.freshAccounts 1000
    ∃ posts calls m' d, newDefinition a 400 900 (Sample.programId 4) = .ok (posts, calls) ∧
      executeCalls (SamplePool.ledger a.toList) calls = .ok m' ∧ poolAfter posts = some d ∧
      d.liquidityPoolSupply.toNat = 600 ∧ d.Usable := by
  intro _ _ a
  have hok : (newDefinition a 400 900 (Sample.programId 4) >>= fun o =>
      executeCalls (SamplePool.ledger a.toList) o.2).isOk = true := by decide +kernel
  obtain ⟨m', hrun⟩ := exists_of_isOk hok
  obtain ⟨⟨posts, calls⟩, h, hm'⟩ := bind_eq_ok.1 hrun
  obtain ⟨d, hd, _, _, hiff⟩ := new_pool_supply_iff (by decide) (by decide) h
  obtain ⟨hsqrt, _, husable⟩ := hiff.2 (by decide)
  refine ⟨posts, calls, m', d, h, hm', hd, ?_, husable⟩
  rw [hsqrt]
  exact (Nat.eq_sqrt.2 (by decide)).symm

/-! ## Addresses -/

/-- An address of the AMM, by what it is the address of. -/
inductive Address where
  | pool (tokenX tokenY : AccountId)
  | vault (poolId tokenId : AccountId)
  | liquidityToken (poolId : AccountId)
deriving DecidableEq

namespace Address

/-- What is hashed for the seed. -/
def seedPreimage : Address → Except Panic Bytes
  | pool tokenX tokenY => poolSeedPreimage tokenX tokenY
  | vault poolId tokenId => .ok (vaultPdaSeedPreimage poolId tokenId)
  | liquidityToken poolId => .ok (liquidityTokenSeedPreimage poolId)

/-- Two ids in order: the tokens `x` and `y` of a pool are `large` and `small`. -/
def Sorted (x y large small : AccountId) : Prop :=
  compare large.value.toList small.value.toList = .gt ∧
    ((x = large ∧ y = small) ∨ (x = small ∧ y = large))

/-- The two ids that are hashed. -/
def Halves (large small : AccountId) : Address → Prop
  | pool tokenX tokenY => Sorted tokenX tokenY large small
  | vault poolId tokenId => poolId = large ∧ tokenId = small
  | liquidityToken poolId => poolId = large ∧ small = ⟨Bytes32.zero⟩

/-- The same address: the tokens of a pool have no order. -/
def Same (s t : Address) : Prop :=
  s = t ∨ ∃ x y, s = pool x y ∧ t = pool y x

/-- Two addresses of different kinds with the same ids. -/
def Clash : Address → Address → Prop
  | vault poolId tokenId, liquidityToken poolId' | liquidityToken poolId', vault poolId tokenId =>
      poolId = poolId' ∧ tokenId = ⟨Bytes32.zero⟩
  | vault poolId tokenId, pool x y | pool x y, vault poolId tokenId => Sorted x y poolId tokenId
  | liquidityToken poolId, pool x y | pool x y, liquidityToken poolId =>
      Sorted x y poolId ⟨Bytes32.zero⟩
  | _, _ => False

theorem halves_of_seedPreimage {s : Address} {bytes : Bytes} (h : s.seedPreimage = .ok bytes) :
    ∃ large small, s.Halves large small ∧ bytes = large.value.toList ++ small.value.toList := by
  cases s with
  | pool x y =>
      simp only [seedPreimage, poolSeedPreimage] at h
      split at h
      · rename_i hlt
        cases h
        exact ⟨y, x, ⟨Std.OrientedCmp.gt_of_lt hlt, .inr ⟨rfl, rfl⟩⟩, rfl⟩
      · rename_i hgt
        cases h
        exact ⟨x, y, ⟨hgt, .inl ⟨rfl, rfl⟩⟩, rfl⟩
      · cases h
  | vault poolId tokenId =>
      cases h
      exact ⟨poolId, tokenId, ⟨rfl, rfl⟩, rfl⟩
  | liquidityToken poolId =>
      cases h
      exact ⟨poolId, ⟨Bytes32.zero⟩, ⟨rfl, rfl⟩, rfl⟩

theorem Sorted.unique {x y large small large' small' : AccountId} (h : Sorted x y large small)
    (h' : Sorted x y large' small') : large = large' ∧ small = small' := by
  obtain ⟨hgt, ⟨rfl, rfl⟩ | ⟨rfl, rfl⟩⟩ := h
  · obtain ⟨hgt', ⟨rfl, rfl⟩ | ⟨rfl, rfl⟩⟩ := h'
    · exact ⟨rfl, rfl⟩
    · cases (Std.OrientedCmp.lt_of_gt hgt).symm.trans hgt'
  · obtain ⟨hgt', ⟨rfl, rfl⟩ | ⟨rfl, rfl⟩⟩ := h'
    · cases (Std.OrientedCmp.lt_of_gt hgt).symm.trans hgt'
    · exact ⟨rfl, rfl⟩

theorem Sorted.same {x y x' y' large small : AccountId} (h : Sorted x y large small)
    (h' : Sorted x' y' large small) : Same (pool x y) (pool x' y') := by
  obtain ⟨_, ⟨rfl, rfl⟩ | ⟨rfl, rfl⟩⟩ := h
  · obtain ⟨_, ⟨rfl, rfl⟩ | ⟨rfl, rfl⟩⟩ := h'
    · exact .inl rfl
    · exact .inr ⟨_, _, rfl, rfl⟩
  · obtain ⟨_, ⟨rfl, rfl⟩ | ⟨rfl, rfl⟩⟩ := h'
    · exact .inr ⟨_, _, rfl, rfl⟩
    · exact .inl rfl

/-- Addresses with the same ids are the same, or of different kinds. -/
theorem same_or_clash {s t : Address} {large small : AccountId} (hs : s.Halves large small)
    (ht : t.Halves large small) : s.Same t ∨ s.Clash t := by
  cases s with
  | pool x y =>
      cases t with
      | pool x' y' => exact .inl (Sorted.same hs ht)
      | vault poolId tokenId =>
          obtain ⟨rfl, rfl⟩ := ht
          exact .inr hs
      | liquidityToken poolId =>
          obtain ⟨rfl, rfl⟩ := ht
          exact .inr hs
  | vault poolId tokenId =>
      obtain ⟨rfl, rfl⟩ := hs
      cases t with
      | pool x y => exact .inr ht
      | vault poolId' tokenId' =>
          obtain ⟨rfl, rfl⟩ := ht
          exact .inl (.inl rfl)
      | liquidityToken poolId' =>
          obtain ⟨rfl, rfl⟩ := ht
          exact .inr ⟨rfl, rfl⟩
  | liquidityToken poolId =>
      obtain ⟨rfl, rfl⟩ := hs
      cases t with
      | pool x y => exact .inr ht
      | vault poolId' tokenId =>
          obtain ⟨rfl, rfl⟩ := ht
          exact .inr ⟨rfl, rfl⟩
      | liquidityToken poolId' =>
          obtain ⟨rfl, _⟩ := ht
          exact .inl (.inl rfl)

theorem Clash.halves {s t : Address} {large small large' small' : AccountId} (h : s.Clash t)
    (hs : s.Halves large small) (ht : t.Halves large' small') :
    large = large' ∧ small = small' := by
  cases s with
  | pool x y =>
      cases t with
      | pool x' y' => cases h
      | vault poolId tokenId =>
          obtain ⟨rfl, rfl⟩ := ht
          exact Sorted.unique hs h
      | liquidityToken poolId =>
          obtain ⟨rfl, rfl⟩ := ht
          exact Sorted.unique hs h
  | vault poolId tokenId =>
      obtain ⟨rfl, rfl⟩ := hs
      cases t with
      | pool x y => exact Sorted.unique h ht
      | vault poolId' tokenId' => cases h
      | liquidityToken poolId' =>
          obtain ⟨rfl, rfl⟩ := h
          obtain ⟨rfl, rfl⟩ := ht
          exact ⟨rfl, rfl⟩
  | liquidityToken poolId =>
      obtain ⟨rfl, rfl⟩ := hs
      cases t with
      | pool x y => exact Sorted.unique h ht
      | vault poolId' tokenId =>
          obtain ⟨rfl, rfl⟩ := h
          obtain ⟨rfl, rfl⟩ := ht
          exact ⟨rfl, rfl⟩
      | liquidityToken poolId' => cases h

theorem Clash.not_same {s t : Address} (h : s.Clash t) : ¬s.Same t := by
  rintro (rfl | ⟨x, y, rfl, rfl⟩)
  · cases s <;> cases h
  · cases h

section

variable [Sha256]

/-- The seed. -/
def seed : Address → Except Panic PdaSeed
  | pool tokenX tokenY => computePoolPdaSeed tokenX tokenY
  | vault poolId tokenId => .ok (computeVaultPdaSeed poolId tokenId)
  | liquidityToken poolId => .ok (computeLiquidityTokenPdaSeed poolId)

/-- The account at the address. -/
def accountId (ammProgramId : ProgramId) : Address → Except Panic AccountId
  | pool tokenX tokenY => computePoolPda ammProgramId tokenX tokenY
  | vault poolId tokenId => .ok (computeVaultPda ammProgramId poolId tokenId)
  | liquidityToken poolId => .ok (computeLiquidityTokenPda ammProgramId poolId)

theorem seed_eq_ok {s : Address} {a : PdaSeed} (h : s.seed = .ok a) :
    ∃ bytes, s.seedPreimage = .ok bytes ∧ a = ⟨sha256 bytes⟩ := by
  cases s with
  | pool x y =>
      obtain ⟨bytes, hbytes, h⟩ := bind_eq_ok.1 h
      cases h
      exact ⟨bytes, hbytes, rfl⟩
  | vault poolId tokenId =>
      cases h
      exact ⟨_, rfl, rfl⟩
  | liquidityToken poolId =>
      cases h
      exact ⟨_, rfl, rfl⟩

theorem accountId_of_seed {s : Address} {a : PdaSeed} (h : s.seed = .ok a)
    (ammProgramId : ProgramId) :
    s.accountId ammProgramId = .ok (.forPublicPda ammProgramId a) := by
  cases s with
  | pool x y => exact bind_eq_ok.2 ⟨a, h, rfl⟩
  | vault poolId tokenId => cases h; rfl
  | liquidityToken poolId => cases h; rfl

/-- The strings hashed for an address. -/
def strings (ammProgramId : ProgramId) (s : Address) : List Bytes :=
  match s.seedPreimage, s.seed with
  | .ok bytes, .ok a => [bytes, publicPdaPreimage ammProgramId a]
  | _, _ => []

variable {S : Set Bytes} {s t : Address} {a b : PdaSeed}

theorem strings_of_seed (ha : s.seed = .ok a) {bytes : Bytes}
    (hbytes : s.seedPreimage = .ok bytes) (ammProgramId : ProgramId) :
    s.strings ammProgramId = [bytes, publicPdaPreimage ammProgramId a] := by
  rw [strings, ha, hbytes]

/-- Equal seeds are those of equal ids. -/
theorem seed_eq_iff (hS : CollisionFree S) (ammProgramId : ProgramId)
    (hs : ∀ x ∈ s.strings ammProgramId, x ∈ S) (ht : ∀ x ∈ t.strings ammProgramId, x ∈ S)
    (ha : s.seed = .ok a) (hb : t.seed = .ok b) :
    ∃ large small large' small', s.Halves large small ∧ t.Halves large' small' ∧
      (a = b ↔ large = large' ∧ small = small') := by
  obtain ⟨x, hx, rfl⟩ := seed_eq_ok ha
  obtain ⟨y, hy, rfl⟩ := seed_eq_ok hb
  rw [strings_of_seed ha hx] at hs
  rw [strings_of_seed hb hy] at ht
  obtain ⟨large, small, hhalves, rfl⟩ := halves_of_seedPreimage hx
  obtain ⟨large', small', hhalves', rfl⟩ := halves_of_seedPreimage hy
  refine ⟨large, small, large', small', hhalves, hhalves', ?_, ?_⟩
  · intro heq
    have hbytes := hS.injOn (hs _ (by simp)) (ht _ (by simp)) (congrArg PdaSeed.value heq)
    obtain ⟨hlarge, hsmall⟩ := List.append_inj hbytes (by simp)
    exact ⟨AccountId.value_inj (Bytes32.toList_inj hlarge),
      AccountId.value_inj (Bytes32.toList_inj hsmall)⟩
  · rintro ⟨rfl, rfl⟩
    rfl

end

end Address

section

variable [Sha256] {S : Set Bytes} {s t : Address} {a b : PdaSeed}

/-- **Addresses.**  Without collisions, the seeds of two addresses, and the accounts at them, are
the same only for the same address, exactly if the two addresses are not of different kinds with
the same ids: a vault for the token with id zero and the token of the shares of the same pool; a
vault or a token of shares and the pool whose larger token is the pool of the former, and whose
smaller token is the token of the vault, or zero. -/
theorem addresses_separate_iff (hS : CollisionFree S) (ammProgramId : ProgramId)
    (hs : ∀ x ∈ s.strings ammProgramId, x ∈ S) (ht : ∀ x ∈ t.strings ammProgramId, x ∈ S)
    (ha : s.seed = .ok a) (hb : t.seed = .ok b) :
    ((a = b → s.Same t) ↔ ¬s.Clash t) ∧
      ((s.accountId ammProgramId = t.accountId ammProgramId → s.Same t) ↔ ¬s.Clash t) := by
  have hids : s.accountId ammProgramId = t.accountId ammProgramId ↔ a = b := by
    rw [Address.accountId_of_seed ha, Address.accountId_of_seed hb, Except.ok.injEq]
    obtain ⟨x, hx, _⟩ := Address.seed_eq_ok ha
    obtain ⟨y, hy, _⟩ := Address.seed_eq_ok hb
    rw [Address.strings_of_seed ha hx] at hs
    rw [Address.strings_of_seed hb hy] at ht
    constructor
    · intro heq
      exact (hS.forPublicPda_inj (hs _ (by simp)) (ht _ (by simp)) heq).2
    · rintro rfl
      rfl
  rw [hids, and_self]
  obtain ⟨large, small, large', small', hhalves, hhalves', hiff⟩ :=
    Address.seed_eq_iff hS ammProgramId hs ht ha hb
  constructor
  · intro hsame hclash
    exact hclash.not_same (hsame (hiff.2 (hclash.halves hhalves hhalves')))
  · intro hclash heq
    obtain ⟨rfl, rfl⟩ := hiff.1 heq
    exact (Address.same_or_clash hhalves hhalves').resolve_right hclash

end

/-- The vault of a pool for the token with id zero is the token of its shares; a pool whose tokens
are a pool and a smaller token is the vault of the former for the latter. -/
theorem addresses_of_two_kinds :
    let _ := Sample.sha256
    let poolId := Sample.accountId 30
    ∃ a b, Address.seed (.vault poolId ⟨Bytes32.zero⟩) = .ok a ∧
      Address.seed (.liquidityToken poolId) = .ok a ∧
      ¬Address.Same (.vault poolId ⟨Bytes32.zero⟩) (.liquidityToken poolId) ∧
      Address.seed (.vault poolId SamplePool.tokenA) = .ok b ∧
      Address.seed (.pool SamplePool.tokenA poolId) = .ok b ∧
      ¬Address.Same (.vault poolId SamplePool.tokenA) (.pool SamplePool.tokenA poolId) ∧
      CollisionFree { x | x ∈ (Address.vault poolId ⟨Bytes32.zero⟩).strings (Sample.programId 4) ++
        (Address.vault poolId SamplePool.tokenA).strings (Sample.programId 4) } := by
  intro _ poolId
  refine ⟨_, _, rfl, rfl, ?_, rfl, ?_, ?_, ?_⟩
  · rintro (h | ⟨_, _, h, _⟩) <;> cases h
  · decide +kernel
  · rintro (h | ⟨_, _, h, _⟩) <;> cases h
  · exact collisionFree_of_digests (by decide +kernel)

/-- The two vaults of a pool. -/
theorem addresses_separate_iff_vaults :
    let _ := Sample.sha256
    let s := Address.vault (Sample.accountId 30) SamplePool.tokenA
    let t := Address.vault (Sample.accountId 30) SamplePool.tokenB
    s.seed ≠ t.seed ∧ s.accountId (Sample.programId 4) ≠ t.accountId (Sample.programId 4) := by
  intro _ s t
  have hS : CollisionFree { x | x ∈ s.strings (Sample.programId 4) ++
      t.strings (Sample.programId 4) } := collisionFree_of_digests (by decide +kernel)
  have hne : ¬s.Same t := by
    rintro (h | ⟨_, _, h, _⟩)
    · revert h
      decide +kernel
    · exact Address.noConfusion h
  obtain ⟨hseed, hid⟩ := addresses_separate_iff hS (Sample.programId 4)
    (fun x hx => List.mem_append_left _ hx) (fun x hx => List.mem_append_right _ hx) rfl rfl
  exact ⟨fun h => hne (hseed.2 id (Except.ok.inj h)), fun h => hne (hid.2 id h)⟩

end Amm

end ExecutionZone
