import ExecutionZone.Lib.ConstantProduct
import ExecutionZone.Programs.SampleAmm
import ExecutionZone.Programs.TokenEffects

/-!
# What pools are worth

The AMM computes amounts with machine words and leaves it to token calls to move them.
`executeCalls` runs these calls one after the other.  A token transfer into a vault fails if
the balance of the vault overflows, and the reserves of a pool are below the balances of its
vaults; so where the transfers succeed, the sums the AMM does not check are exact, and its
swaps and deposits are those of an exact constant-product pool.

For withdrawals this is not so: the shares to be burned are computed from a product that may
wrap, and no token call checks it (`remove_liquidity_fair_iff`).
-/

namespace ExecutionZone

open ConstantProduct

/-! ## Machine words -/

namespace U128

theorem checkedMul_eq_some {x y z : U128} (h : x.checkedMul y = some z) :
    z.toNat = x.toNat * y.toNat := by
  unfold checkedMul at h
  split at h
  · cases h
    rename_i hlt
    rw [BitVec.toNat_mul, Nat.mod_eq_of_lt hlt]
  · cases h

theorem toNat_pos {x : U128} (h : x ≠ 0) : 0 < x.toNat :=
  Nat.pos_of_ne_zero fun hzero => h (BitVec.eq_of_toNat_eq hzero)

theorem divide_eq_ok {x y z : U128} (h : x.divide y = .ok z) :
    0 < y.toNat ∧ z.toNat = x.toNat / y.toNat := by
  unfold divide at h
  split at h
  · cases h
  · cases h
    rename_i hy
    exact ⟨toNat_pos hy, BitVec.toNat_udiv⟩

/-- A wrapped product is divided. -/
theorem mul_divide_eq_ok {x y z w : U128} (h : (x * y).divide z = .ok w) :
    0 < z.toNat ∧ w.toNat = x.toNat * y.toNat % 2 ^ 128 / z.toNat := by
  have hdivide := divide_eq_ok h
  rwa [BitVec.toNat_mul] at hdivide

theorem divCeil_eq_ok {x y z : U128} (h : x.divCeil y = .ok z) :
    0 < y.toNat ∧ z.toNat = x.toNat ⌈/⌉ y.toNat := by
  unfold divCeil at h
  split at h
  · cases h
  · rename_i hy
    have hpos := toNat_pos hy
    refine ⟨hpos, ?_⟩
    have hdiv := Nat.div_add_mod x.toNat y.toNat
    have hmod := Nat.mod_lt x.toNat hpos
    rw [Nat.ceilDiv_eq_add_pred_div]
    cases h
    split
    · rename_i hrest
      rw [BitVec.lt_def, BitVec.toNat_umod] at hrest
      have hrest : 0 < x.toNat % y.toNat := hrest
      have hlt : x.toNat / y.toNat + 1 < 2 ^ 128 := by
        have hx := x.isLt
        have hhalf : x.toNat / y.toNat ≤ x.toNat / 2 :=
          Nat.div_le_div_left (by omega) (by decide)
        omega
      rw [BitVec.toNat_add, BitVec.toNat_udiv, show (1 : U128).toNat = 1 from rfl,
        Nat.mod_eq_of_lt hlt]
      symm
      rw [Nat.div_eq_iff hpos, Nat.add_mul, Nat.mul_comm (x.toNat / y.toNat)]
      omega
    · rename_i hrest
      rw [BitVec.lt_def, BitVec.toNat_umod] at hrest
      have hrest : ¬0 < x.toNat % y.toNat := hrest
      rw [BitVec.toNat_udiv]
      symm
      rw [Nat.div_eq_iff hpos, Nat.mul_comm (x.toNat / y.toNat)]
      omega

end U128

namespace Token

/-- How much of its token an account holds. -/
def balanceOf (account : Account) : Nat := ((TokenHolding.tryFrom account.data).map (·.amount)).getD 0

theorem balanceOf_eq {account : Account} {holding : TokenHolding}
    (h : TokenHolding.tryFrom account.data = some holding) : balanceOf account = holding.amount := by
  rw [balanceOf, h]
  rfl

theorem Moved.balanceOf_recipient {sender recipient : AccountWithMetadata} {x : U128}
    {posts : List AccountPostState} {hs hr hs' hr' : TokenHolding} {ds dr : Data}
    (h : Moved sender recipient x posts hs hr hs' hr' ds dr) :
    balanceOf recipient.account = hr.amount := by
  rcases h.recipientPre with ⟨hdefault, heq⟩ | ⟨_, hread⟩
  · rw [hdefault, heq, TokenHolding.amount_zeroizedCloneFrom]
    rfl
  · exact balanceOf_eq hread

theorem burnFrom_eq_ok {x : U128} {definition definition' : TokenDefinition}
    {holding holding' : TokenHolding}
    (h : burnFrom x definition holding = .ok (definition', holding')) :
    holding'.amount + x.toNat = holding.amount := by
  unfold burnFrom at h
  split at h
  · simp only [bind_eq_ok, expect_eq_ok, pure, Except.pure, Except.ok.injEq, Prod.mk.injEq] at h
    obtain ⟨_, hsub, _, _, _, rfl⟩ := h
    exact U128.checkedSub_eq_some hsub
  · simp only [bind_eq_ok, expect_eq_ok, pure, Except.pure, Except.ok.injEq, Prod.mk.injEq] at h
    obtain ⟨_, _, _, hsub, _, rfl⟩ := h
    exact U128.checkedSub_eq_some hsub
  · simp only [bind_eq_ok, ensure_eq_ok, exists_const, expect_eq_ok, pure, Except.pure,
      Except.ok.injEq, Prod.mk.injEq] at h
    obtain ⟨rfl, rfl, _, _, _, rfl⟩ := h
    rfl
  · cases h

/-! ## Token calls one after the other -/

/-- An account with what a call asked for. -/
def grant (programId : ProgramId) (post : AccountPostState) : Account :=
  if post.claim.isSome then { post.account with programOwner := programId } else post.account

theorem balanceOf_grant (programId : ProgramId) (post : AccountPostState) :
    balanceOf (grant programId post) = balanceOf post.account := by
  unfold grant
  split
  · rfl
  · rfl

def applyPosts (programId : ProgramId) (m : AccountId → Account) :
    List (AccountWithMetadata × AccountPostState) → AccountId → Account
  | [] => m
  | (pre, post) :: rest =>
      applyPosts programId (Function.update m pre.accountId (grant programId post)) rest

variable [InstructionCodec Instruction]

/-- Chained token calls, executed in order over the accounts `m`.  Each finds the values it was
requested with. -/
def executeCalls (m : AccountId → Account) :
    List ChainedCall → Except Panic (AccountId → Account)
  | [] => .ok m
  | call :: calls => do
      ensure (∀ pre ∈ call.preStates, pre.account = m pre.accountId)
        "inconsistent account pre state"
      let instruction ← readInstruction Instruction call.instructionData
      let posts ← postStates call.preStates instruction
      executeCalls (applyPosts call.programId m (call.preStates.zip posts)) calls

variable {m m' : AccountId → Account} {programId : ProgramId} {seeds : List PdaSeed}

theorem executeCalls_tokenCall {preStates : List AccountWithMetadata} {instruction : Instruction}
    {calls : List ChainedCall}
    (h : executeCalls m (Amm.tokenCall programId preStates instruction seeds :: calls) = .ok m') :
    (∀ pre ∈ preStates, pre.account = m pre.accountId) ∧
      ∃ posts, postStates preStates instruction = .ok posts ∧
        executeCalls (applyPosts programId m (preStates.zip posts)) calls = .ok m' := by
  simp only [executeCalls, bind_eq_ok, ensure_eq_ok, exists_const, readInstruction,
    expect_eq_ok] at h
  obtain ⟨hpre, _, hread, posts, hposts, hrest⟩ := h
  cases (InstructionCodec.deserialize_toVec instruction).symm.trans hread
  exact ⟨hpre, posts, hposts, hrest⟩

/-- **Transfer.**  An executed transfer does not overflow the balance of its recipient. -/
theorem executeCalls_credit {sender recipient : AccountWithMetadata} {x : U128}
    {calls : List ChainedCall}
    (h : executeCalls m (Amm.tokenCall programId [sender, recipient] (.transfer x) seeds :: calls) =
      .ok m') :
    balanceOf recipient.account + x.toNat < 2 ^ 128 ∧ ∃ m₁, executeCalls m₁ calls = .ok m' := by
  obtain ⟨_, posts, hposts, hrest⟩ := executeCalls_tokenCall h
  obtain ⟨hs, hr, hs', hr', ds, dr, hmoved⟩ := moved_of_transfer hposts
  rw [hmoved.balanceOf_recipient, ← hmoved.credit]
  exact ⟨hr'.amount_lt, _, hrest⟩

/-- **Transfer.**  What an executed transfer between different accounts does to the accounts. -/
theorem executeCalls_transfer {sender recipient : AccountWithMetadata} {x : U128}
    {calls : List ChainedCall}
    (h : executeCalls m (Amm.tokenCall programId [sender, recipient] (.transfer x) seeds :: calls) =
      .ok m') (hne : sender.accountId ≠ recipient.accountId) :
    ∃ m₁, executeCalls m₁ calls = .ok m' ∧ sender.account = m sender.accountId ∧
      recipient.account = m recipient.accountId ∧
      balanceOf (m₁ sender.accountId) + x.toNat = balanceOf sender.account ∧
      balanceOf (m₁ recipient.accountId) = balanceOf recipient.account + x.toNat ∧
      ∀ id, id ≠ sender.accountId → id ≠ recipient.accountId → m₁ id = m id := by
  obtain ⟨hpre, posts, hposts, hrest⟩ := executeCalls_tokenCall h
  obtain ⟨hs, hr, hs', hr', ds, dr, hmoved⟩ := moved_of_transfer hposts
  rw [hmoved.posts_eq] at hrest
  refine ⟨_, hrest, hpre sender (by simp), hpre recipient (by simp), ?_, ?_, ?_⟩
  · simp only [List.zip_cons_cons, List.zip_nil_right, applyPosts, Function.update_of_ne hne,
      Function.update_self, balanceOf_grant]
    rw [balanceOf_eq hmoved.senderPre, ← hmoved.debit]
    exact congrArg (· + x.toNat) (balanceOf_eq hmoved.senderPost)
  · simp only [List.zip_cons_cons, List.zip_nil_right, applyPosts, Function.update_self,
      balanceOf_grant]
    rw [hmoved.balanceOf_recipient, ← hmoved.credit]
    exact balanceOf_eq hmoved.recipientPost
  · intro id hsender hrecipient
    simp only [List.zip_cons_cons, List.zip_nil_right, applyPosts,
      Function.update_of_ne hsender, Function.update_of_ne hrecipient]

/-- **Burn.**  An executed burn takes the amount from the holding. -/
theorem executeCalls_burn {definition holding : AccountWithMetadata} {x : U128}
    {calls : List ChainedCall}
    (h : executeCalls m (Amm.tokenCall programId [definition, holding] (.burn x) seeds :: calls) =
      .ok m') :
    holding.account = m holding.accountId ∧ ∃ m₁, executeCalls m₁ calls = .ok m' ∧
      balanceOf (m₁ holding.accountId) + x.toNat = balanceOf holding.account := by
  obtain ⟨hpre, posts, hposts, hrest⟩ := executeCalls_tokenCall h
  simp only [postStates, burn, bind_eq_ok, ensure_eq_ok, expect_eq_ok, exists_const, pure,
    Except.pure, Except.ok.injEq] at hposts
  obtain ⟨_, _, _, _, hread, _, ⟨_, holding'⟩, hburn, _, _, _, hdata, rfl⟩ := hposts
  refine ⟨hpre holding (by simp), _, hrest, ?_⟩
  simp only [List.zip_cons_cons, List.zip_nil_right, applyPosts, Function.update_self,
    balanceOf_grant]
  rw [balanceOf_eq hread, ← burnFrom_eq_ok hburn]
  exact congrArg (· + x.toNat) (balanceOf_eq (decode_of_dataOf hdata))

end Token

namespace Amm

open Token (TokenHolding withData balanceOf executeCalls executeCalls_tokenCall
  executeCalls_credit executeCalls_transfer executeCalls_burn)

theorem fungibleBalance_eq_ok {account : Account} {invalid notFungible : String} {balance : U128}
    (h : fungibleBalance account invalid notFungible = .ok balance) :
    balanceOf account = balance.toNat := by
  simp only [fungibleBalance, bind_eq_ok, expect_eq_ok] at h
  obtain ⟨holding, hread, h⟩ := h
  rw [Token.balanceOf_eq hread]
  cases holding with
  | fungible definitionId balance => cases h; rfl
  | nftMaster definitionId printBalance => cases h
  | nftPrintedCopy definitionId owned => cases h

/-- The pool that the first post state records. -/
def poolAfter (posts : List AccountPostState) : Option PoolDefinition :=
  posts.head?.bind fun post => PoolDefinition.tryFrom post.account.data

/-! ## Deposits -/

/-- The specification of `depositFor`. -/
structure FairDeposit (d : PoolDefinition) (minLiquidity maxA maxB : U128) (x : Deposit) :
    Prop where
  amountA : 0 < x.actualAmountA.toNat ∧ x.actualAmountA ≤ maxA
  amountB : 0 < x.actualAmountB.toNat ∧ x.actualAmountB ≤ maxB
  minted : minLiquidity ≤ x.deltaLp
  sharesA : x.deltaLp.toNat * d.reserveA.toNat ≤
    d.liquidityPoolSupply.toNat * x.actualAmountA.toNat
  sharesB : x.deltaLp.toNat * d.reserveB.toNat ≤
    d.liquidityPoolSupply.toNat * x.actualAmountB.toNat

theorem fairDeposit_of_depositFor {d : PoolDefinition} {minLiquidity maxA maxB : U128}
    {x : Deposit} (h : depositFor d minLiquidity maxA maxB = .ok x) :
    FairDeposit d minLiquidity maxA maxB x := by
  simp only [depositFor, bind_eq_ok, ensure_eq_ok, exists_const, pure, Except.pure,
    Except.ok.injEq] at h
  obtain ⟨idealA, _, idealB, _, hmaxA, hmaxB, hzeroA, hzeroB, sharesA, hsharesA, sharesB, hsharesB,
    _, hmin, rfl⟩ := h
  obtain ⟨_, hsharesA⟩ := U128.mul_divide_eq_ok hsharesA
  obtain ⟨_, hsharesB⟩ := U128.mul_divide_eq_ok hsharesB
  refine ⟨⟨U128.toNat_pos hzeroA, hmaxA⟩, ⟨U128.toNat_pos hzeroB, hmaxB⟩, hmin, ?_, ?_⟩
  · refine (Nat.mul_le_mul_right d.reserveA.toNat (?_ : _ ≤ sharesA.toNat)).trans ?_
    · simp only
      split
      · exact le_rfl
      · rename_i hle
        exact (BitVec.not_le.1 hle).le
    · rw [hsharesA]
      exact wrapped_share_mul_le _ _ _ _
  · refine (Nat.mul_le_mul_right d.reserveB.toNat (?_ : _ ≤ sharesB.toNat)).trans ?_
    · simp only
      split
      · assumption
      · exact le_rfl
    · rw [hsharesB]
      exact wrapped_share_mul_le _ _ _ _

/-! ## Withdrawals -/

/-- A withdrawal of `amount` shares is fair: as many shares are burned and taken off the pool,
and the withdrawn amounts are no more than the shares are worth. -/
structure PaysFairly (d d' : PoolDefinition) (amount burned withdrawA withdrawB : U128) : Prop where
  burned_eq : burned = amount
  supply : d'.liquidityPoolSupply.toNat + burned.toNat = d.liquidityPoolSupply.toNat
  tokenA : withdrawA.toNat * d.liquidityPoolSupply.toNat ≤ d.reserveA.toNat * burned.toNat
  tokenB : withdrawB.toNat * d.liquidityPoolSupply.toNat ≤ d.reserveB.toNat * burned.toNat

theorem withdrawalFor_eq_ok {d : PoolDefinition} {amount minA minB : U128} {x : Withdrawal}
    (h : withdrawalFor d amount minA minB = .ok x) :
    0 < d.liquidityPoolSupply.toNat ∧
      x.withdrawAmountA.toNat * d.liquidityPoolSupply.toNat ≤ d.reserveA.toNat * amount.toNat ∧
      x.withdrawAmountB.toNat * d.liquidityPoolSupply.toNat ≤ d.reserveB.toNat * amount.toNat ∧
      x.deltaLp.toNat = d.liquidityPoolSupply.toNat * amount.toNat % 2 ^ 128 /
        d.liquidityPoolSupply.toNat := by
  simp only [withdrawalFor, bind_eq_ok, ensure_eq_ok, exists_const, pure, Except.pure,
    Except.ok.injEq] at h
  obtain ⟨withdrawA, hA, withdrawB, hB, _, _, deltaLp, hlp, rfl⟩ := h
  obtain ⟨hsupply, hA⟩ := U128.mul_divide_eq_ok hA
  obtain ⟨_, hB⟩ := U128.mul_divide_eq_ok hB
  obtain ⟨_, hlp⟩ := U128.mul_divide_eq_ok hlp
  refine ⟨hsupply, ?_, ?_, hlp⟩
  · rw [hA]
    exact wrapped_share_mul_le _ _ _ _
  · rw [hB]
    exact wrapped_share_mul_le _ _ _ _

/-! ## Liquidity -/

theorem poolAfter_liquidity {a : LiquidityAccounts} {d : PoolDefinition} {data : Data}
    (h : d.toData = .ok data) :
    poolAfter (a.postStates (.new (withData a.pool.account data))) = some d :=
  decode_of_dataOf h

theorem poolAfter_swap {a : SwapAccounts} {d : PoolDefinition} {data : Data}
    (h : d.toData = .ok data) :
    poolAfter (a.postStates (.new (withData a.pool.account data))) = some d :=
  decode_of_dataOf h

/-! ## A pool -/

namespace SamplePool

def tokenA : AccountId := Sample.accountId 21

def tokenB : AccountId := Sample.accountId 22

def lpToken : AccountId := Sample.accountId 33

/-- An account of the token program with a fungible holding. -/
def holding (id : UInt8) (token : AccountId) (balance : U128) : AccountWithMetadata :=
  ⟨Sample.dataAccount (Sample.programId 3) (Sample.holdingData (.fungible token balance)), true,
    Sample.accountId id⟩

def definition (supply reserve : U128) : PoolDefinition :=
  ⟨tokenA, tokenB, Sample.accountId 31, Sample.accountId 32, lpToken, supply, reserve, reserve, 0,
    true⟩

/-- A pool with the same reserves of both tokens, all in the vaults. -/
def pool (supply reserve : U128) : AccountWithMetadata :=
  ⟨Sample.dataAccount (Sample.programId 4)
    ⟨PoolDefinition.codec.write (definition supply reserve), by
      simp [PoolDefinition.codec, dataMaxLength]⟩, false, Sample.accountId 30⟩

theorem tryFrom_pool (supply reserve : U128) :
    PoolDefinition.tryFrom (pool supply reserve).account.data = some (definition supply reserve) :=
  Codec.decode_write _ _

def lpDefinition (supply : U128) : AccountWithMetadata :=
  ⟨Sample.dataAccount (Sample.programId 3)
    ⟨Token.TokenDefinition.codec.write (.fungible lpTokenName supply none .renounced), by
      have hname : lpTokenName.1.toByteArray.size = 8 := by decide
      simp [Token.TokenDefinition.codec, Token.Authority.codec, Token.Authority.renounced,
        dataMaxLength, hname]⟩, false, lpToken⟩

/-- The accounts of a user with 1000 of each token and some shares. -/
def accounts (supply reserve shares : U128) : LiquidityAccounts :=
  ⟨pool supply reserve, holding 31 tokenA reserve, holding 32 tokenB reserve, lpDefinition supply,
    holding 41 tokenA 1000, holding 42 tokenB 1000, holding 43 lpToken shares⟩

def swapAccounts (reserve : U128) : SwapAccounts :=
  ⟨pool 100 reserve, holding 31 tokenA reserve, holding 32 tokenB reserve, holding 41 tokenA 1000,
    holding 42 tokenB 1000⟩

/-- The accounts by their ids. -/
def ledger (accounts : List AccountWithMetadata) (id : AccountId) : Account :=
  ((accounts.find? (·.accountId = id)).map (·.account)).getD .default

end SamplePool

section

variable [InstructionCodec Token.Instruction]

/-- The token instruction of a call. -/
def tokenInstruction (call : ChainedCall) : Option Token.Instruction :=
  InstructionCodec.deserialize call.instructionData

@[simp] theorem tokenInstruction_tokenCall (programId : ProgramId)
    (preStates : List AccountWithMetadata) (instruction : Token.Instruction)
    (seeds : List PdaSeed) :
    tokenInstruction (tokenCall programId preStates instruction seeds) = some instruction :=
  InstructionCodec.deserialize_toVec instruction

variable [Sha256] {m m' : AccountId → Account}

/-- **Deposits.**  Where `add_liquidity` returns and its token calls succeed, the deposits are
within the bounds of the user, the shares minted are at least what the user asked for, and no
more than each deposit is worth; so the reserves behind a share do not fall. -/
theorem add_liquidity_does_not_dilute {a : LiquidityAccounts} {minLiquidity maxA maxB : U128}
    {posts : List AccountPostState} {calls : List ChainedCall}
    (h : addLiquidity a minLiquidity maxA maxB = .ok (posts, calls))
    (hcalls : executeCalls m calls = .ok m') :
    ∃ d d' depositA depositB minted, PoolDefinition.tryFrom a.pool.account.data = some d ∧
      poolAfter posts = some d' ∧
      calls.map tokenInstruction =
        [some (.mint minted), some (.transfer depositB), some (.transfer depositA)] ∧
      (0 < depositA.toNat ∧ depositA ≤ maxA) ∧ (0 < depositB.toNat ∧ depositB ≤ maxB) ∧
      minLiquidity ≤ minted ∧
      minted.toNat * d.reserveA.toNat ≤ d.liquidityPoolSupply.toNat * depositA.toNat ∧
      minted.toNat * d.reserveB.toNat ≤ d.liquidityPoolSupply.toNat * depositB.toNat ∧
      d'.reserveA.toNat = d.reserveA.toNat + depositA.toNat ∧
      d'.reserveB.toNat = d.reserveB.toNat + depositB.toNat ∧
      d.reserveA.toNat * (d.liquidityPoolSupply.toNat + minted.toNat) ≤
        d'.reserveA.toNat * d.liquidityPoolSupply.toNat ∧
      d.reserveB.toNat * (d.liquidityPoolSupply.toNat + minted.toNat) ≤
        d'.reserveB.toNat * d.liquidityPoolSupply.toNat := by
  simp only [addLiquidity, bind_eq_ok, ensure_eq_ok, exists_const, expect_eq_ok, pure, Except.pure,
    Except.ok.injEq, Prod.mk.injEq] at h
  obtain ⟨d, hd, _, _, _, _, balanceB, hbalanceB, balanceA, hbalanceA, _, _, hcoverA, hcoverB, x,
    hx, data, hdata, rfl, rfl⟩ := h
  have hfair := fairDeposit_of_depositFor hx
  -- the token program checks the sums that the pool does not
  obtain ⟨_, _, _, hcalls⟩ := executeCalls_tokenCall hcalls
  obtain ⟨hsumB, _, hcalls⟩ := executeCalls_credit hcalls
  obtain ⟨hsumA, _⟩ := executeCalls_credit hcalls
  rw [fungibleBalance_eq_ok hbalanceA] at hsumA
  rw [fungibleBalance_eq_ok hbalanceB] at hsumB
  have hreserveA : (d.reserveA + x.actualAmountA).toNat =
      d.reserveA.toNat + x.actualAmountA.toNat := by
    rw [BitVec.toNat_add, Nat.mod_eq_of_lt]
    exact Nat.lt_of_le_of_lt (Nat.add_le_add_right hcoverA _) hsumA
  have hreserveB : (d.reserveB + x.actualAmountB).toNat =
      d.reserveB.toNat + x.actualAmountB.toNat := by
    rw [BitVec.toNat_add, Nat.mod_eq_of_lt]
    exact Nat.lt_of_le_of_lt (Nat.add_le_add_right hcoverB _) hsumB
  refine ⟨d, _, x.actualAmountA, x.actualAmountB, x.deltaLp, hd, poolAfter_liquidity hdata,
    by simp, hfair.amountA, hfair.amountB, hfair.minted, hfair.sharesA, hfair.sharesB, hreserveA,
    hreserveB, ?_, ?_⟩
  · rw [hreserveA, Nat.mul_add, Nat.add_mul, Nat.mul_comm d.reserveA.toNat x.deltaLp.toNat,
      Nat.mul_comm x.actualAmountA.toNat]
    exact Nat.add_le_add_left hfair.sharesA _
  · rw [hreserveB, Nat.mul_add, Nat.add_mul, Nat.mul_comm d.reserveB.toNat x.deltaLp.toNat,
      Nat.mul_comm x.actualAmountB.toNat]
    exact Nat.add_le_add_left hfair.sharesB _

end

/-- Half a pool is added by a user who offers 500 of each token. -/
theorem add_liquidity_does_not_dilute_half :
    let _ := Sample.sha256; let _ := Sample.tokenCodec
    let a := SamplePool.accounts 100 1000 50
    ∃ posts calls m', addLiquidity a 1 500 500 = .ok (posts, calls) ∧
      executeCalls (SamplePool.ledger a.toList) calls = .ok m' ∧
      ∃ (d d' : PoolDefinition) (depositA minted : U128),
        PoolDefinition.tryFrom a.pool.account.data = some d ∧ poolAfter posts = some d' ∧
        minted.toNat * d.reserveA.toNat ≤ d.liquidityPoolSupply.toNat * depositA.toNat ∧
        d'.reserveA.toNat = d.reserveA.toNat + depositA.toNat := by
  intro _ _ a
  have hok : (addLiquidity a 1 500 500 >>= fun o =>
      executeCalls (SamplePool.ledger a.toList) o.2).isOk = true := by decide +kernel
  obtain ⟨m', hrun⟩ := exists_of_isOk hok
  obtain ⟨⟨posts, calls⟩, h, hm'⟩ := bind_eq_ok.1 hrun
  obtain ⟨d, d', depositA, _, minted, hd, hd', _, _, _, _, hshares, _, hreserve, _⟩ :=
    add_liquidity_does_not_dilute h hm'
  exact ⟨posts, calls, m', h, hm', d, d', depositA, minted, hd, hd', hshares, hreserve⟩

section

variable [InstructionCodec Token.Instruction] [Sha256] {m m' : AccountId → Account}

/-- **Withdrawals.**  Where `remove_liquidity` returns and its burn succeeds, the withdrawal is
fair exactly when the product of the supply and the amount does not wrap. -/
theorem remove_liquidity_fair_iff {a : LiquidityAccounts} {amount minA minB : U128}
    {posts : List AccountPostState} {calls : List ChainedCall}
    (h : removeLiquidity a amount minA minB = .ok (posts, calls))
    (hburn : executeCalls m (calls.take 1) = .ok m') :
    ∃ d d' burned withdrawA withdrawB, PoolDefinition.tryFrom a.pool.account.data = some d ∧
      poolAfter posts = some d' ∧
      calls.map tokenInstruction =
        [some (.burn burned), some (.transfer withdrawB), some (.transfer withdrawA)] ∧
      balanceOf (m' a.userHoldingLp.accountId) + burned.toNat =
        balanceOf (m a.userHoldingLp.accountId) ∧
      (PaysFairly d d' amount burned withdrawA withdrawB ↔
        d.liquidityPoolSupply.toNat * amount.toNat < 2 ^ 128) := by
  simp only [removeLiquidity, bind_eq_ok, ensure_eq_ok, exists_const, expect_eq_ok, pure,
    Except.pure, Except.ok.injEq, Prod.mk.injEq] at h
  obtain ⟨d, hd, _, _, _, _, _, _, _, _, balance, hbalance, hle, _, x, hx, data, hdata, rfl, rfl⟩ := h
  obtain ⟨hsupply, hA, hB, hlp⟩ := withdrawalFor_eq_ok hx
  rw [List.take_succ_cons, List.take_zero] at hburn
  obtain ⟨hpre, m₁, hm₁, hburned⟩ := executeCalls_burn hburn
  cases hm₁
  -- the holder has no more shares than the pool counts, so the counter does not wrap
  have hlt : x.deltaLp ≤ d.liquidityPoolSupply := by
    rw [fungibleBalance_eq_ok hbalance] at hburned
    rw [BitVec.le_def] at hle ⊢
    omega
  have hiff : x.deltaLp = amount ↔ d.liquidityPoolSupply.toNat * amount.toNat < 2 ^ 128 := by
    rw [← BitVec.toNat_inj, hlp, wrapped_share_eq_iff hsupply, Nat.mod_eq_iff_lt (by decide)]
  refine ⟨d, _, x.deltaLp, x.withdrawAmountA, x.withdrawAmountB, hd, poolAfter_liquidity hdata,
    by simp, hpre ▸ hburned, ?_⟩
  constructor
  · exact fun hfair => hiff.1 hfair.burned_eq
  · intro hsmall
    have heq := hiff.2 hsmall
    refine ⟨heq, ?_, heq ▸ hA, heq ▸ hB⟩
    rw [BitVec.toNat_sub_of_le hlt]
    exact Nat.sub_add_cancel hlt

end

/-- With a supply of `2 ^ 127` shares, a withdrawal of two shares wraps to a burn of none: a user
without shares takes one of each token out of the pool. -/
theorem withdrawal_without_shares :
    let _ := Sample.sha256; let _ := Sample.tokenCodec
    let a := SamplePool.accounts (2 ^ 127) (2 ^ 126) 0
    balanceOf a.userHoldingLp.account = 0 ∧
    ∃ posts calls m', removeLiquidity a 2 1 1 = .ok (posts, calls) ∧
      executeCalls (SamplePool.ledger a.toList) (calls.take 1) = .ok m' ∧
      calls.map tokenInstruction = [some (.burn 0), some (.transfer 1), some (.transfer 1)] ∧
      PoolDefinition.tryFrom a.pool.account.data =
        some (SamplePool.definition (2 ^ 127) (2 ^ 126)) ∧
      ∀ d', ¬PaysFairly (SamplePool.definition (2 ^ 127) (2 ^ 126)) d' 2 0 1 1 := by
  intro _ _ a
  have hok : (removeLiquidity a 2 1 1 >>= fun o =>
      executeCalls (SamplePool.ledger a.toList) (o.2.take 1)).isOk = true := by decide +kernel
  have hcalls : (removeLiquidity a 2 1 1).map (fun o => o.2.map tokenInstruction) =
      .ok [some (.burn 0), some (.transfer 1), some (.transfer 1)] := by decide +kernel
  obtain ⟨m', hrun⟩ := exists_of_isOk hok
  obtain ⟨⟨posts, calls⟩, h, hm'⟩ := bind_eq_ok.1 hrun
  rw [h] at hcalls
  refine ⟨by decide +kernel, posts, calls, m', h, hm', Except.ok.inj hcalls,
    SamplePool.tryFrom_pool _ _, fun d' hfair => ?_⟩
  have hne : (0 : U128) ≠ 2 := by decide
  exact hne hfair.burned_eq

/-- Half of the shares of a small pool. -/
theorem remove_liquidity_fair_iff_half :
    let _ := Sample.sha256; let _ := Sample.tokenCodec
    let a := SamplePool.accounts 100 1000 50
    ∃ posts calls m', removeLiquidity a 50 1 1 = .ok (posts, calls) ∧
      executeCalls (SamplePool.ledger a.toList) (calls.take 1) = .ok m' ∧
      ∃ d d' burned withdrawA withdrawB, poolAfter posts = some d' ∧
        PaysFairly d d' 50 burned withdrawA withdrawB := by
  intro _ _ a
  have hok : (removeLiquidity a 50 1 1 >>= fun o =>
      executeCalls (SamplePool.ledger a.toList) (o.2.take 1)).isOk = true := by decide +kernel
  obtain ⟨m', hrun⟩ := exists_of_isOk hok
  obtain ⟨⟨posts, calls⟩, h, hm'⟩ := bind_eq_ok.1 hrun
  obtain ⟨d, d', burned, withdrawA, withdrawB, hd, hd', _, _, hiff⟩ :=
    remove_liquidity_fair_iff h hm'
  have hpool : d = SamplePool.definition 100 1000 :=
    Option.some.inj (hd.symm.trans (SamplePool.tryFrom_pool 100 1000))
  have hsmall : d.liquidityPoolSupply.toNat * (50 : U128).toNat < 2 ^ 128 := by
    rw [hpool]
    decide
  exact ⟨posts, calls, m', h, hm', d, d', burned, withdrawA, withdrawB, hd', hiff.2 hsmall⟩

section

variable [InstructionCodec Token.Instruction] [Sha256] {m m' : AccountId → Account}

/-! ## Swaps -/

/-- The reserves of a pool, first that of the token that is paid in. -/
def PoolDefinition.reserves (d : PoolDefinition) (tokenInId : AccountId) : Option (U128 × U128) :=
  if tokenInId = d.definitionTokenAId then some (d.reserveA, d.reserveB)
  else if tokenInId = d.definitionTokenBId then some (d.reserveB, d.reserveA)
  else none

/-- What a user asks of a swap. -/
inductive SwapRequest where
  | exactInput (swapAmountIn minAmountOut : U128)
  | exactOutput (exactAmountOut maxAmountIn : U128)
deriving DecidableEq

/-- A swap of either kind. -/
def swap (a : SwapAccounts) (request : SwapRequest) (tokenInId : AccountId) :
    Except Panic Outcome :=
  match request with
  | .exactInput swapAmountIn minAmountOut => swapExactInput a swapAmountIn minAmountOut tokenInId
  | .exactOutput exactAmountOut maxAmountIn => swapExactOutput a exactAmountOut maxAmountIn tokenInId

/-- The user got what they asked for. -/
def SwapRequest.Met (taken paid : Nat) : SwapRequest → Prop
  | .exactInput swapAmountIn minAmountOut =>
      taken = swapAmountIn.toNat ∧ minAmountOut.toNat ≤ paid ∧ 1 ≤ paid
  | .exactOutput exactAmountOut maxAmountIn =>
      paid = exactAmountOut.toNat ∧ taken ≤ maxAmountIn.toNat

omit [InstructionCodec Token.Instruction] [Sha256] in
theorem validateSwapSetup_eq_ok {a : SwapAccounts} {d : PoolDefinition}
    (h : validateSwapSetup a = .ok d) :
    PoolDefinition.tryFrom a.pool.account.data = some d ∧
      d.reserveA.toNat ≤ balanceOf a.vaultA.account ∧
      d.reserveB.toNat ≤ balanceOf a.vaultB.account := by
  simp only [validateSwapSetup, bind_eq_ok, ensure_eq_ok, exists_const, expect_eq_ok, pure,
    Except.pure, Except.ok.injEq] at h
  obtain ⟨_, hd, _, _, _, balanceA, hbalanceA, hA, balanceB, hbalanceB, hB, rfl⟩ := h
  rw [fungibleBalance_eq_ok hbalanceA, fungibleBalance_eq_ok hbalanceB]
  exact ⟨hd, hA, hB⟩

/-- The two calls of a swap. -/
def IsSwapCalls (userIn vaultIn vaultOut userOut : AccountWithMetadata) (taken paid : U128)
    (calls : List ChainedCall) : Prop :=
  ∃ programId seeds, calls = [tokenCall programId [userIn, vaultIn] (.transfer taken) [],
    tokenCall programId [Vault.authorize vaultOut, userOut] (.transfer paid) seeds]

theorem isSwapCalls_of_swapCalls {userIn vaultIn vaultOut userOut : AccountWithMetadata}
    {taken paid : U128} {poolId : AccountId} {invalid : String} {calls : List ChainedCall}
    (h : swapCalls userIn vaultIn vaultOut userOut taken paid poolId invalid = .ok calls) :
    IsSwapCalls userIn vaultIn vaultOut userOut taken paid calls := by
  simp only [swapCalls, bind_eq_ok, pure, Except.pure, Except.ok.injEq] at h
  obtain ⟨_, _, rfl⟩ := h
  exact ⟨_, _, rfl⟩

section

variable {userIn vaultIn vaultOut userOut : AccountWithMetadata} {rIn rOut taken paid : U128}
  {poolId : AccountId} {calls : List ChainedCall}

/-- The specification of `swap_logic`: the payout of an exact pool, if the sum of reserve and
input does not wrap. -/
theorem swapLogic_eq_ok {x minOut : U128}
    (h : swapLogic userIn vaultIn vaultOut userOut x minOut rIn rOut poolId =
      .ok (calls, taken, paid)) :
    IsSwapCalls userIn vaultIn vaultOut userOut taken paid calls ∧ taken = x ∧ minOut ≤ paid ∧
      0 < paid.toNat ∧
      (rIn.toNat + x.toNat < 2 ^ 128 → paid.toNat = payout rIn.toNat rOut.toNat x.toNat) := by
  simp only [swapLogic, bind_eq_ok, ensure_eq_ok, exists_const, expect_eq_ok, pure, Except.pure,
    Except.ok.injEq, Prod.mk.injEq] at h
  obtain ⟨product, hproduct, w, hw, hmin, hzero, _, hcalls, rfl, rfl, rfl⟩ := h
  refine ⟨isSwapCalls_of_swapCalls hcalls, rfl, hmin, U128.toNat_pos hzero, fun hlt => ?_⟩
  rw [(U128.divide_eq_ok hw).2, U128.checkedMul_eq_some hproduct, BitVec.toNat_add,
    Nat.mod_eq_of_lt hlt]
  rfl

/-- The specification of `exact_output_swap_logic`: the cost of an exact pool. -/
theorem exactOutputSwapLogic_eq_ok {o maxIn : U128}
    (h : exactOutputSwapLogic userIn vaultIn vaultOut userOut o maxIn rIn rOut poolId =
      .ok (calls, taken, paid)) :
    IsSwapCalls userIn vaultIn vaultOut userOut taken paid calls ∧ paid = o ∧ taken ≤ maxIn ∧
      0 < o.toNat ∧ o.toNat < rOut.toNat ∧
      taken.toNat = cost rIn.toNat rOut.toNat o.toNat := by
  simp only [exactOutputSwapLogic, bind_eq_ok, ensure_eq_ok, exists_const, expect_eq_ok, pure,
    Except.pure, Except.ok.injEq, Prod.mk.injEq] at h
  obtain ⟨hzero, hlt, product, hproduct, x, hx, hmax, _, hcalls, rfl, rfl, rfl⟩ := h
  refine ⟨isSwapCalls_of_swapCalls hcalls, rfl, hmax, U128.toNat_pos hzero, hlt, ?_⟩
  rw [(U128.divCeil_eq_ok hx).2, U128.checkedMul_eq_some hproduct,
    BitVec.toNat_sub_of_le (BitVec.le_of_lt hlt)]
  rfl

/-- The logic of a swap of either kind. -/
def SwapRequest.logic (poolId : AccountId) : SwapRequest → AccountWithMetadata →
    AccountWithMetadata → AccountWithMetadata → AccountWithMetadata → U128 → U128 →
    Except Panic (List ChainedCall × U128 × U128)
  | .exactInput x minOut, userIn, vaultIn, vaultOut, userOut, rIn, rOut =>
      swapLogic userIn vaultIn vaultOut userOut x minOut rIn rOut poolId
  | .exactOutput o maxIn, userIn, vaultIn, vaultOut, userOut, rIn, rOut =>
      exactOutputSwapLogic userIn vaultIn vaultOut userOut o maxIn rIn rOut poolId

/-- **Amounts.**  Where the sum of reserve and input does not wrap, the amounts of a swap do not
lower the product of the reserves. -/
theorem SwapRequest.fair_of_logic {request : SwapRequest}
    (h : request.logic poolId userIn vaultIn vaultOut userOut rIn rOut = .ok (calls, taken, paid))
    (hlt : rIn.toNat + taken.toNat < 2 ^ 128) :
    request.Met taken.toNat paid.toNat ∧ paid.toNat ≤ rOut.toNat ∧
      rIn.toNat * rOut.toNat ≤ (rIn.toNat + taken.toNat) * (rOut.toNat - paid.toNat) := by
  cases request with
  | exactInput x minOut =>
      obtain ⟨_, rfl, hmin, hpos, hpaid⟩ := swapLogic_eq_ok h
      refine ⟨⟨rfl, hmin, hpos⟩, ?_⟩
      rw [hpaid hlt]
      exact ⟨payout_le _ _ _, product_le_payout _ _ _⟩
  | exactOutput o maxIn =>
      obtain ⟨_, rfl, hmax, _, hout, htaken⟩ := exactOutputSwapLogic_eq_ok h
      refine ⟨⟨rfl, hmax⟩, hout.le, ?_⟩
      rw [htaken]
      exact product_le_cost hout

theorem SwapRequest.calls_of_logic {request : SwapRequest}
    (h : request.logic poolId userIn vaultIn vaultOut userOut rIn rOut =
      .ok (calls, taken, paid)) :
    IsSwapCalls userIn vaultIn vaultOut userOut taken paid calls := by
  cases request with
  | exactInput x minOut => exact (swapLogic_eq_ok h).1
  | exactOutput o maxIn => exact (exactOutputSwapLogic_eq_ok h).1

omit [Sha256] in
/-- **Transfers.**  What the calls of a swap do to the two vaults. -/
theorem executeCalls_swap (hcalls : IsSwapCalls userIn vaultIn vaultOut userOut taken paid calls)
    (hnodup : [vaultIn.accountId, vaultOut.accountId, userIn.accountId,
      userOut.accountId].Nodup) (h : executeCalls m calls = .ok m') :
    vaultIn.account = m vaultIn.accountId ∧ vaultOut.account = m vaultOut.accountId ∧
      balanceOf (m' vaultIn.accountId) = balanceOf vaultIn.account + taken.toNat ∧
      balanceOf vaultIn.account + taken.toNat < 2 ^ 128 ∧
      balanceOf (m' vaultOut.accountId) + paid.toNat = balanceOf vaultOut.account := by
  obtain ⟨programId, seeds, rfl⟩ := hcalls
  simp only [List.nodup_cons, List.mem_cons, List.not_mem_nil, or_false, not_or] at hnodup
  obtain ⟨⟨hvaults, hinIn, hinOut⟩, ⟨houtIn, houtOut⟩, _⟩ := hnodup
  have hsum := (executeCalls_credit h).1
  obtain ⟨m₁, h₁, _, hin, _, hcredit, hsame₁⟩ := executeCalls_transfer h (Ne.symm hinIn)
  obtain ⟨m₂, h₂, hout, _, hdebit, _, hsame₂⟩ := executeCalls_transfer h₁ houtOut
  cases h₂
  refine ⟨hin, ?_, ?_, hsum, hdebit⟩
  · exact hout.trans (hsame₁ _ houtIn (Ne.symm hvaults))
  · rw [hsame₂ _ hvaults hinOut]
    exact hcredit

end

/-- The accounts and reserves of a swap, in its direction, and the pool after it. -/
inductive Directed (a : SwapAccounts) (d : PoolDefinition) (tokenInId : AccountId)
    (taken paid : U128) : AccountWithMetadata → AccountWithMetadata → AccountWithMetadata →
    AccountWithMetadata → U128 → U128 → PoolDefinition → Prop
  | fromA (h : tokenInId = d.definitionTokenAId) :
      Directed a d tokenInId taken paid a.userHoldingA a.vaultA a.vaultB a.userHoldingB d.reserveA
        d.reserveB { d with reserveA := d.reserveA + taken, reserveB := d.reserveB - paid }
  | fromB (hne : tokenInId ≠ d.definitionTokenAId) (h : tokenInId = d.definitionTokenBId) :
      Directed a d tokenInId taken paid a.userHoldingB a.vaultB a.vaultA a.userHoldingA d.reserveB
        d.reserveA { d with reserveA := d.reserveA - paid, reserveB := d.reserveB + taken }

theorem swap_eq_ok {a : SwapAccounts} {request : SwapRequest} {tokenInId : AccountId}
    {posts : List AccountPostState} {calls : List ChainedCall}
    (h : swap a request tokenInId = .ok (posts, calls)) :
    ∃ d d' taken paid userIn vaultIn vaultOut userOut rIn rOut, validateSwapSetup a = .ok d ∧
      poolAfter posts = some d' ∧
      Directed a d tokenInId taken paid userIn vaultIn vaultOut userOut rIn rOut d' ∧
      request.logic a.pool.accountId userIn vaultIn vaultOut userOut rIn rOut =
        .ok (calls, taken, paid) := by
  have hwith : swap a request tokenInId = swapWith (request.logic a.pool.accountId) a tokenInId := by
    cases request with
    | exactInput x minOut => rfl
    | exactOutput o maxIn => rfl
  have hadd : ∀ x : U128, x + 0 = x := BitVec.add_zero
  have hsub : ∀ x : U128, x - 0 = x := BitVec.sub_zero
  rw [hwith] at h
  simp only [swapWith, bind_eq_ok] at h
  obtain ⟨d, hd, h⟩ := h
  split at h
  · rename_i htoken
    simp only [bind_eq_ok, createSwapPostStates, pure, Except.pure, Except.ok.injEq,
      Prod.mk.injEq] at h
    obtain ⟨⟨calls, taken, paid⟩, hlogic, _, ⟨data, hdata, rfl⟩, rfl, rfl⟩ := h
    simp only [hadd, hsub] at hdata
    exact ⟨d, _, taken, paid, _, _, _, _, _, _, hd, poolAfter_swap hdata, .fromA htoken, hlogic⟩
  · rename_i hne
    split at h
    · rename_i htoken
      simp only [bind_eq_ok, createSwapPostStates, pure, Except.pure, Except.ok.injEq,
        Prod.mk.injEq] at h
      obtain ⟨⟨calls, taken, paid⟩, hlogic, _, ⟨data, hdata, rfl⟩, rfl, rfl⟩ := h
      simp only [hadd, hsub] at hdata
      exact ⟨d, _, taken, paid, _, _, _, _, _, _, hd, poolAfter_swap hdata, .fromB hne htoken,
        hlogic⟩
    · cases h

/-- What a swap has to leave: the product of the reserves, the differences between vaults and
reserves, and a user who got what they asked for. -/
structure KeepsValue (m m' : AccountId → Account) (a : SwapAccounts) (request : SwapRequest)
    (tokenInId : AccountId) (d d' : PoolDefinition) (taken paid : Nat) : Prop where
  product : d.reserveA.toNat * d.reserveB.toNat ≤ d'.reserveA.toNat * d'.reserveB.toNat
  vaultA : d'.reserveA.toNat + balanceOf (m a.vaultA.accountId) =
    d.reserveA.toNat + balanceOf (m' a.vaultA.accountId)
  vaultB : d'.reserveB.toNat + balanceOf (m a.vaultB.accountId) =
    d.reserveB.toNat + balanceOf (m' a.vaultB.accountId)
  coveredA : d'.reserveA.toNat ≤ balanceOf (m' a.vaultA.accountId)
  coveredB : d'.reserveB.toNat ≤ balanceOf (m' a.vaultB.accountId)
  reserves : ∃ rIn rOut rIn' rOut', d.reserves tokenInId = some (rIn, rOut) ∧
    d'.reserves tokenInId = some (rIn', rOut') ∧ rIn'.toNat = rIn.toNat + taken ∧
    rOut'.toNat + paid = rOut.toNat
  met : request.Met taken paid

/-- **Swaps.**  Where a swap of either kind returns and its transfers succeed, the product of the
reserves does not fall, each reserve changes as its vault does, and the user gets what they
asked for. -/
theorem swap_keeps_value {a : SwapAccounts} {request : SwapRequest} {tokenInId : AccountId}
    {posts : List AccountPostState} {calls : List ChainedCall}
    (h : swap a request tokenInId = .ok (posts, calls))
    (hnodup : [a.vaultA.accountId, a.vaultB.accountId, a.userHoldingA.accountId,
      a.userHoldingB.accountId].Nodup)
    (hcalls : executeCalls m calls = .ok m') :
    ∃ d d' taken paid, PoolDefinition.tryFrom a.pool.account.data = some d ∧
      poolAfter posts = some d' ∧ KeepsValue m m' a request tokenInId d d' taken paid := by
  obtain ⟨d, d', taken, paid, userIn, vaultIn, vaultOut, userOut, rIn, rOut, hd, hd', hdirected,
    hlogic⟩ := swap_eq_ok h
  obtain ⟨hpool, hcoverA, hcoverB⟩ := validateSwapSetup_eq_ok hd
  refine ⟨d, d', taken.toNat, paid.toNat, hpool, hd', ?_⟩
  have hswap := SwapRequest.calls_of_logic hlogic
  cases hdirected with
  | fromA htoken =>
      obtain ⟨hin, hout, hcredit, hsum, hdebit⟩ := executeCalls_swap hswap hnodup hcalls
      have hlt : d.reserveA.toNat + taken.toNat < 2 ^ 128 := by omega
      obtain ⟨hmet, hle, hproduct⟩ := SwapRequest.fair_of_logic hlogic hlt
      have hreserveA : (d.reserveA + taken).toNat = d.reserveA.toNat + taken.toNat := by
        rw [BitVec.toNat_add, Nat.mod_eq_of_lt hlt]
      have hreserveB : (d.reserveB - paid).toNat = d.reserveB.toNat - paid.toNat :=
        BitVec.toNat_sub_of_le hle
      rw [hin] at hcoverA hcredit
      rw [hout] at hcoverB hdebit
      refine ⟨?_, ?_, ?_, ?_, ?_, ⟨d.reserveA, d.reserveB, d.reserveA + taken, d.reserveB - paid,
        if_pos htoken, if_pos htoken, hreserveA, ?_⟩, hmet⟩
      · simpa only [hreserveA, hreserveB] using hproduct
      · simp only [hreserveA]; omega
      · simp only [hreserveB]; omega
      · simp only [hreserveA]; omega
      · simp only [hreserveB]; omega
      · rw [hreserveB]; omega
  | fromB hne htoken =>
      have hnodup' : [a.vaultB.accountId, a.vaultA.accountId, a.userHoldingB.accountId,
          a.userHoldingA.accountId].Nodup :=
        (((List.Perm.swap _ _ _).trans
          (((List.Perm.swap _ _ _).cons _).cons _)).nodup_iff).1 hnodup
      obtain ⟨hin, hout, hcredit, hsum, hdebit⟩ := executeCalls_swap hswap hnodup' hcalls
      have hlt : d.reserveB.toNat + taken.toNat < 2 ^ 128 := by omega
      obtain ⟨hmet, hle, hproduct⟩ := SwapRequest.fair_of_logic hlogic hlt
      have hreserveB : (d.reserveB + taken).toNat = d.reserveB.toNat + taken.toNat := by
        rw [BitVec.toNat_add, Nat.mod_eq_of_lt hlt]
      have hreserveA : (d.reserveA - paid).toNat = d.reserveA.toNat - paid.toNat :=
        BitVec.toNat_sub_of_le hle
      rw [hin] at hcoverB hcredit
      rw [hout] at hcoverA hdebit
      have hreserves : ∀ d' : PoolDefinition, d'.definitionTokenAId = d.definitionTokenAId →
          d'.definitionTokenBId = d.definitionTokenBId →
          d'.reserves tokenInId = some (d'.reserveB, d'.reserveA) := by
        intro d' hA hB
        rw [PoolDefinition.reserves, hA, hB, if_neg hne, if_pos htoken]
      refine ⟨?_, ?_, ?_, ?_, ?_, ⟨d.reserveB, d.reserveA, d.reserveB + taken, d.reserveA - paid,
        hreserves d rfl rfl, hreserves _ rfl rfl, hreserveB, ?_⟩, hmet⟩
      · rw [Nat.mul_comm d.reserveB.toNat, Nat.mul_comm (_ + _)] at hproduct
        simpa only [hreserveA, hreserveB] using hproduct
      · simp only [hreserveA]; omega
      · simp only [hreserveB]; omega
      · simp only [hreserveA]; omega
      · simp only [hreserveB]; omega
      · rw [hreserveA]; omega

end

/-- A swap of 100 in a pool with 1000 of each token. -/
theorem swap_keeps_value_hundred :
    let _ := Sample.sha256; let _ := Sample.tokenCodec
    let a := SamplePool.swapAccounts 1000
    ∃ posts calls m',
      swap a (.exactInput 100 90) SamplePool.tokenA = .ok (posts, calls) ∧
      executeCalls (SamplePool.ledger a.toList) calls = .ok m' ∧
      ∃ d d' taken paid, poolAfter posts = some d' ∧
        KeepsValue (SamplePool.ledger a.toList) m' a (.exactInput 100 90) SamplePool.tokenA d d'
          taken paid := by
  intro _ _ a
  have hok : (swap a (.exactInput 100 90) SamplePool.tokenA >>= fun o =>
      executeCalls (SamplePool.ledger a.toList) o.2).isOk = true := by decide +kernel
  obtain ⟨m', hrun⟩ := exists_of_isOk hok
  obtain ⟨⟨posts, calls⟩, h, hm'⟩ := bind_eq_ok.1 hrun
  obtain ⟨d, d', taken, paid, _, hd', hkeeps⟩ := swap_keeps_value h (by decide +kernel) hm'
  exact ⟨posts, calls, m', h, hm', d, d', taken, paid, hd', hkeeps⟩

section

variable [InstructionCodec Token.Instruction] [Sha256] {m m' : AccountId → Account}

omit [InstructionCodec Token.Instruction] [Sha256] in
theorem Directed.reserves {a : SwapAccounts} {d d' : PoolDefinition} {tokenInId : AccountId}
    {taken paid rIn rOut : U128} {userIn vaultIn vaultOut userOut : AccountWithMetadata}
    (h : Directed a d tokenInId taken paid userIn vaultIn vaultOut userOut rIn rOut d') :
    d.reserves tokenInId = some (rIn, rOut) := by
  cases h with
  | fromA htoken => exact if_pos htoken
  | fromB hne htoken => rw [PoolDefinition.reserves, if_neg hne, if_pos htoken]

/-- **Inverse.**  The deposit that an exact output asks for is the least input that an exact pool
pays the output for.  So an exact-input swap of this deposit on a pool with the same reserves
pays at least the output, and one of a unit less pays less, where their sums do not wrap. -/
theorem exact_output_inverts_exact_input
    {userIn vaultIn vaultOut userOut : AccountWithMetadata} {o maxIn rIn rOut deposit paid : U128}
    {poolId : AccountId} {calls : List ChainedCall} (hIn : 0 < rIn.toNat)
    (h : exactOutputSwapLogic userIn vaultIn vaultOut userOut o maxIn rIn rOut poolId =
      .ok (calls, deposit, paid)) :
    IsLeast { x : Nat | o.toNat ≤ rOut.toNat * x / (rIn.toNat + x) } deposit.toNat ∧
      0 < deposit.toNat ∧
      ∀ {a : SwapAccounts} {tokenInId : AccountId} {d : PoolDefinition} {x minOut : U128}
        {posts : List AccountPostState} {calls : List ChainedCall},
        PoolDefinition.tryFrom a.pool.account.data = some d →
        d.reserves tokenInId = some (rIn, rOut) →
        swapExactInput a x minOut tokenInId = .ok (posts, calls) →
        rIn.toNat + x.toNat < 2 ^ 128 →
        ∃ payment, calls.map tokenInstruction = [some (.transfer x), some (.transfer payment)] ∧
          (x = deposit → o ≤ payment) ∧ (x.toNat + 1 = deposit.toNat → payment < o) := by
  obtain ⟨_, rfl, _, hpos, hlt, hdeposit⟩ := exactOutputSwapLogic_eq_ok h
  refine ⟨?_, ?_, ?_⟩
  · rw [hdeposit]
    exact isLeast_cost hIn hlt
  · rw [hdeposit]
    exact cost_pos hIn hpos hlt
  · intro a tokenInId d x minOut posts calls hd hreserves hswap hsum
    obtain ⟨d₁, _, taken, payment, _, _, _, _, rIn₁, rOut₁, hd₁, _, hdirected, hlogic⟩ :=
      swap_eq_ok (show swap a (.exactInput x minOut) tokenInId = _ from hswap)
    cases (validateSwapSetup_eq_ok hd₁).1.symm.trans hd
    cases hdirected.reserves.symm.trans hreserves
    obtain ⟨⟨programId, seeds, rfl⟩, rfl, _, _, hpaid⟩ := swapLogic_eq_ok hlogic
    refine ⟨payment, by simp, ?_, ?_⟩
    · rintro rfl
      rw [BitVec.le_def, hpaid hsum, le_payout_iff_cost_le hIn hlt, hdeposit]
    · intro hless
      rw [BitVec.lt_def, hpaid hsum, ← Nat.not_le, le_payout_iff_cost_le hIn hlt, ← hdeposit]
      omega

end

/-- An output of 90 from 1000 of each token costs 99, and 99 pay 90. -/
theorem exact_output_inverts_exact_input_ninety :
    let _ := Sample.sha256; let _ := Sample.tokenCodec
    let a := SamplePool.swapAccounts 1000
    (exactOutputSwapLogic a.userHoldingA a.vaultA a.vaultB a.userHoldingB 90 200 1000 1000
      a.pool.accountId).map (·.2.1) = .ok 99 ∧
    IsLeast { x : Nat | 90 ≤ 1000 * x / (1000 + x) } 99 ∧
    ∃ posts calls payment, swapExactInput a 99 1 SamplePool.tokenA = .ok (posts, calls) ∧
      calls.map tokenInstruction = [some (.transfer 99), some (.transfer payment)] ∧
      90 ≤ payment := by
  intro _ _ a
  have hcost : (exactOutputSwapLogic a.userHoldingA a.vaultA a.vaultB a.userHoldingB 90 200 1000
      1000 a.pool.accountId).map (·.2.1) = .ok 99 := by decide +kernel
  have hlogic : (exactOutputSwapLogic a.userHoldingA a.vaultA a.vaultB a.userHoldingB 90 200 1000
      1000 a.pool.accountId).isOk = true := by decide +kernel
  have hok : (swapExactInput a 99 1 SamplePool.tokenA).isOk = true := by decide +kernel
  have hpool : PoolDefinition.tryFrom a.pool.account.data =
      some (SamplePool.definition 100 1000) := SamplePool.tryFrom_pool 100 1000
  have hreserves : (SamplePool.definition 100 1000).reserves SamplePool.tokenA =
      some (1000, 1000) := by decide +kernel
  refine ⟨hcost, ?_⟩
  obtain ⟨⟨posts, calls'⟩, hswap⟩ := exists_of_isOk hok
  obtain ⟨⟨calls, deposit, paid⟩, h⟩ := exists_of_isOk hlogic
  rw [h] at hcost
  have hdeposit : deposit = 99 := Except.ok.inj hcost
  subst hdeposit
  obtain ⟨hleast, _, hinverse⟩ := exact_output_inverts_exact_input (by decide) h
  obtain ⟨payment, hcalls, hpays, _⟩ := hinverse (a := a) hpool hreserves hswap (by decide)
  exact ⟨hleast, posts, calls', payment, hswap, hcalls, hpays rfl⟩

end Amm

end ExecutionZone
