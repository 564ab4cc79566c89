import Mathlib.Algebra.BigOperators.Group.List.Basic
import Mathlib.Algebra.Order.BigOperators.Group.List
import ExecutionZone.Core.Program
import ExecutionZone.Lib.Accumulator
import ExecutionZone.Lib.Run

/-!
# What one execution may do

`validate_execution` checks the post states a program returned against its pre
states.  `ValidExecution` states in one place what a passed check guarantees; every
later argument about a call rests on it and never on the order of the checks.

Balances are added as 256-bit numbers in two words.  `WrappedBalanceSum.value` reads
such a pair as an integer; a sum is the exact sum, and overflows only if that does not fit
into 256 bits.
-/

namespace ExecutionZone

/-! ## Exact sums in two words -/

/-- A number `lo + hi * 2 ^ 128`. -/
structure WrappedBalanceSum where
  lo : U128
  hi : U128
deriving DecidableEq

namespace WrappedBalanceSum

/-- The number represented. -/
def value (w : WrappedBalanceSum) : Nat := w.lo.toNat + w.hi.toNat * 2 ^ 128

/-- One turn of the loop of `from_balances`: the carry goes into `hi`. -/
def add (w : WrappedBalanceSum) (balance : U128) : Option WrappedBalanceSum :=
  if 2 ^ 128 ≤ w.lo.toNat + balance.toNat then
    (w.hi.checkedAdd 1).map fun hi => ⟨w.lo + balance, hi⟩
  else some ⟨w.lo + balance, w.hi⟩

/-- `from_balances`. -/
def fromBalances (balances : List U128) : Option WrappedBalanceSum :=
  balances.foldlM add ⟨0, 0⟩

theorem value_of_add {w w' : WrappedBalanceSum} {b : U128} (h : w.add b = some w') :
    w'.value = w.value + b.toNat := by
  have hlo := w.lo.isLt
  have hb := b.isLt
  unfold add at h
  split at h
  · rename_i hcarry
    obtain ⟨hi, hhi, rfl⟩ := Option.map_eq_some_iff.1 h
    have hhi : hi.toNat = w.hi.toNat + 1 := by simpa using U128.checkedAdd_eq_some hhi
    simp only [value, BitVec.toNat_add, hhi]
    omega
  · rename_i hcarry
    cases h
    simp only [value, BitVec.toNat_add]
    omega

theorem value_lt (w : WrappedBalanceSum) : w.value < 2 ^ 256 := by
  have hlo := w.lo.isLt
  have hhi := w.hi.isLt
  unfold value
  omega

theorem value_injective : Function.Injective value := by
  rintro ⟨lo, hi⟩ ⟨lo', hi'⟩ heq
  have hlo := lo.isLt
  have hlo' := lo'.isLt
  simp only [value] at heq
  obtain rfl : lo = lo' := BitVec.eq_of_toNat_eq (by omega)
  obtain rfl : hi = hi' := BitVec.eq_of_toNat_eq (by omega)
  rfl

/-- A turn fails only if there is a carry out of the second word. -/
theorem le_of_add_eq_none {w : WrappedBalanceSum} {b : U128} (h : w.add b = none) :
    2 ^ 256 ≤ w.value + b.toNat := by
  unfold add at h
  split at h
  · rename_i hcarry
    have hhi : 2 ^ 128 ≤ w.hi.toNat + (1 : U128).toNat := by
      by_contra hlt
      rw [Option.map_eq_none_iff, U128.checkedAdd, if_pos (Nat.lt_of_not_le hlt)] at h
      cases h
    have hone : (1 : U128).toNat = 1 := rfl
    unfold value
    omega
  · cases h

theorem accumulates : Accumulates add value BitVec.toNat (2 ^ 256) :=
  ⟨value_lt, value_of_add, le_of_add_eq_none⟩

/-- A sum that does not overflow is exact. -/
theorem value_of_fromBalances {l : List U128} {w : WrappedBalanceSum}
    (h : fromBalances l = some w) : w.value = (l.map BitVec.toNat).sum := by
  simpa [value] using accumulates.value_foldlM h

theorem fromBalances_eq_none_iff {l : List U128} :
    fromBalances l = none ↔ 2 ^ 256 ≤ (l.map BitVec.toNat).sum := by
  simpa [fromBalances, value] using accumulates.foldlM_eq_none_iff (l := l) (s := ⟨0, 0⟩)

theorem fromBalances_eq_some_iff {l : List U128} {w : WrappedBalanceSum} :
    fromBalances l = some w ↔ w.value = (l.map BitVec.toNat).sum := by
  refine ⟨value_of_fromBalances, fun hvalue => ?_⟩
  cases h : fromBalances l with
  | none =>
      rw [fromBalances_eq_none_iff, ← hvalue] at h
      exact absurd h (Nat.not_le_of_lt w.value_lt)
  | some w' => exact congrArg some (value_injective ((value_of_fromBalances h).trans hvalue.symm))

/-- The sum of sums. -/
theorem sum_flatten {parts : List (List U128)} {ws : List WrappedBalanceSum}
    (h : parts.mapM fromBalances = some ws) :
    (parts.flatten.map BitVec.toNat).sum = (ws.map value).sum := by
  induction parts generalizing ws with
  | nil =>
      cases h
      rfl
  | cons l parts ih =>
      rw [List.mapM_cons] at h
      obtain ⟨w, hw, h⟩ := Option.bind_eq_some_iff.1 h
      obtain ⟨ws', hws', h⟩ := Option.bind_eq_some_iff.1 h
      cases h
      rw [List.flatten_cons, List.map_append, List.sum_append, ih hws', List.map_cons,
        List.sum_cons, value_of_fromBalances hw]

/-- The sum of fewer than `2 ^ 128` balances does not overflow. -/
theorem exists_fromBalances {l : List U128} (h : l.length < 2 ^ 128) :
    ∃ w, fromBalances l = some w := by
  have hle : (l.map BitVec.toNat).sum ≤ (l.map BitVec.toNat).length * (2 ^ 128 - 1) := by
    refine List.sum_le_card_nsmul _ _ fun n hn => ?_
    obtain ⟨b, _, rfl⟩ := List.mem_map.1 hn
    exact Nat.le_pred_of_lt b.isLt
  rw [List.length_map] at hle
  cases hsum : fromBalances l with
  | none =>
      rw [fromBalances_eq_none_iff] at hsum
      omega
  | some w => exact ⟨w, rfl⟩

end WrappedBalanceSum

/-! ## The check -/

/-- Why an execution is rejected. -/
inductive ExecutionValidationError where
  | preStateAccountIdsNotUnique
  | mismatchedPreStatePostStateLength (preStateLength postStateLength : Nat)
  | modifiedNonce (accountId : AccountId)
  | modifiedProgramOwner (accountId : AccountId)
  | unauthorizedBalanceDecrease (accountId : AccountId)
      (ownerProgramId executingProgramId : ProgramId)
  | unauthorizedDataModification (accountId : AccountId) (executingProgramId : ProgramId)
  | nonDefaultAccountWithDefaultOwner (accountId : AccountId)
  | balanceSumOverflow
  | mismatchedTotalBalance (totalBalancePreStates totalBalancePostStates : WrappedBalanceSum)
deriving DecidableEq

/-- The checks 3 to 7 of `validate_execution`, on one account. -/
def validatePair (executingProgramId : ProgramId) (pre : AccountWithMetadata)
    (post : AccountPostState) : Except ExecutionValidationError Unit := do
  ensure (pre.account.nonce = post.account.nonce) (.modifiedNonce pre.accountId)
  ensure (pre.account.programOwner = post.account.programOwner)
    (.modifiedProgramOwner pre.accountId)
  ensure (post.account.balance < pre.account.balance →
      pre.account.programOwner = executingProgramId)
    (.unauthorizedBalanceDecrease pre.accountId pre.account.programOwner executingProgramId)
  ensure (pre.account.data ≠ post.account.data → pre.account ≠ Account.default →
      pre.account.programOwner = executingProgramId)
    (.unauthorizedDataModification pre.accountId executingProgramId)
  ensure (post.account.programOwner = defaultProgramId → pre.account = Account.default)
    (.nonDefaultAccountWithDefaultOwner pre.accountId)

/-- The sum of check 8. -/
def totalBalance (balances : List U128) : Except ExecutionValidationError WrappedBalanceSum :=
  match WrappedBalanceSum.fromBalances balances with
  | some total => .ok total
  | none => .error .balanceSumOverflow

/-- `validate_execution`. -/
def validateExecution (preStates : List AccountWithMetadata) (postStates : List AccountPostState)
    (executingProgramId : ProgramId) : Except ExecutionValidationError Unit := do
  ensure ((preStates.map (·.accountId)).toFinset.card = preStates.length)
    .preStateAccountIdsNotUnique
  ensure (preStates.length = postStates.length)
    (.mismatchedPreStatePostStateLength preStates.length postStates.length)
  (preStates.zip postStates).forM fun p => validatePair executingProgramId p.1 p.2
  let totalPre ← totalBalance (preStates.map (·.account.balance))
  let totalPost ← totalBalance (postStates.map (·.account.balance))
  ensure (totalPre = totalPost) (.mismatchedTotalBalance totalPre totalPost)

/-! ## What a passed check guarantees -/

/-- What may happen to one account while `executing` runs. -/
structure ValidPair (executing : ProgramId) (pre post : Account) : Prop where
  nonce : post.nonce = pre.nonce
  owner : post.programOwner = pre.programOwner
  decrease : post.balance < pre.balance → pre.programOwner = executing
  data : post.data ≠ pre.data → pre ≠ Account.default → pre.programOwner = executing
  unowned : pre.programOwner = defaultProgramId → pre = Account.default

/-- The data of an owned account changes by its owner only. -/
theorem ValidPair.data_of_foreign {executing : ProgramId} {pre post : Account}
    (h : ValidPair executing pre post) (howner : pre.programOwner ≠ defaultProgramId)
    (hforeign : pre.programOwner ≠ executing) : post.data = pre.data := by
  by_contra hdata
  refine hforeign (h.data hdata fun hdefault => howner ?_)
  rw [hdefault, Account.default_programOwner]

/-- What a passed `validate_execution` guarantees. -/
structure ValidExecution (preStates : List AccountWithMetadata)
    (postStates : List AccountPostState) (executing : ProgramId) : Prop where
  nodup : (preStates.map (·.accountId)).Nodup
  length_eq : preStates.length = postStates.length
  pair : ∀ p ∈ preStates.zip postStates, ValidPair executing p.1.account p.2.account
  sum_eq : (preStates.map (·.account.balance.toNat)).sum =
    (postStates.map (·.account.balance.toNat)).sum

theorem validPair_of_validatePair {executing : ProgramId} {pre : AccountWithMetadata}
    {post : AccountPostState} {u : Unit} (h : validatePair executing pre post = .ok u) :
    ValidPair executing pre.account post.account := by
  simp only [validatePair, bind_eq_ok, ensure_eq_ok, exists_const] at h
  obtain ⟨hn, ho, hb, hd, hu⟩ := h
  exact ⟨hn.symm, ho.symm, hb, fun hne => hd (Ne.symm hne), fun hp => hu (ho ▸ hp)⟩

/-- The checks 1 to 7 of `validate_execution`. -/
structure ValidPairs (preStates : List AccountWithMetadata) (postStates : List AccountPostState)
    (executing : ProgramId) : Prop where
  nodup : (preStates.map (·.accountId)).Nodup
  length_eq : preStates.length = postStates.length
  pair : ∀ p ∈ preStates.zip postStates, validatePair executing p.1 p.2 = .ok ()

theorem exists_totalBalance_iff {l l' : List U128} :
    (∃ w, totalBalance l = .ok w ∧ ∃ w', totalBalance l' = .ok w' ∧ w = w') ↔
      (l.map BitVec.toNat).sum < 2 ^ 256 ∧
        (l.map BitVec.toNat).sum = (l'.map BitVec.toNat).sum := by
  have htotal : ∀ {l w}, totalBalance l = .ok w ↔ WrappedBalanceSum.fromBalances l = some w := by
    intro l w
    unfold totalBalance
    split
    · rename_i total ht
      rw [ht, Except.ok.injEq, Option.some.injEq]
    · rename_i ht
      rw [ht]
      exact ⟨nofun, nofun⟩
  simp only [htotal, WrappedBalanceSum.fromBalances_eq_some_iff]
  constructor
  · rintro ⟨w, hw, _, hw', rfl⟩
    exact ⟨hw ▸ w.value_lt, hw.symm.trans hw'⟩
  · rintro ⟨hlt, heq⟩
    cases hsum : WrappedBalanceSum.fromBalances l with
    | none =>
        rw [WrappedBalanceSum.fromBalances_eq_none_iff] at hsum
        exact absurd hsum (Nat.not_le_of_lt hlt)
    | some w =>
        have hw := WrappedBalanceSum.value_of_fromBalances hsum
        exact ⟨w, hw, w, hw.trans heq, rfl⟩

/-- What `validate_execution` accepts. -/
theorem validateExecution_eq_ok_iff {preStates : List AccountWithMetadata}
    {postStates : List AccountPostState} {executing : ProgramId} :
    validateExecution preStates postStates executing = .ok () ↔
      ValidPairs preStates postStates executing ∧
        (preStates.map (·.account.balance.toNat)).sum < 2 ^ 256 ∧
        (preStates.map (·.account.balance.toNat)).sum =
          (postStates.map (·.account.balance.toNat)).sum := by
  have hsums : (∃ w, totalBalance (preStates.map (·.account.balance)) = .ok w ∧
      ∃ w', totalBalance (postStates.map (·.account.balance)) = .ok w' ∧ w = w') ↔ _ :=
    exists_totalBalance_iff
  simp only [List.map_map, Function.comp_def] at hsums
  have hunique : (preStates.map (·.accountId)).toFinset.card = preStates.length ↔
      (preStates.map (·.accountId)).Nodup := by
    rw [← toFinset_card_eq_length_iff, List.length_map]
  simp only [validateExecution, bind_eq_ok, ensure_eq_ok, exists_const, forM_eq_ok]
  rw [hsums, hunique]
  constructor
  · rintro ⟨hnodup, hlen, hpair, hbalances⟩
    exact ⟨⟨hnodup, hlen, hpair⟩, hbalances⟩
  · rintro ⟨⟨hnodup, hlen, hpair⟩, hbalances⟩
    exact ⟨hnodup, hlen, hpair, hbalances⟩

/-- The specification of `validate_execution`. -/
theorem validExecution_of_validateExecution {preStates : List AccountWithMetadata}
    {postStates : List AccountPostState} {executing : ProgramId} {u : Unit}
    (h : validateExecution preStates postStates executing = .ok u) :
    ValidExecution preStates postStates executing := by
  obtain ⟨hpairs, _, hsum⟩ := validateExecution_eq_ok_iff.1 h
  exact ⟨hpairs.nodup, hpairs.length_eq,
    fun p hp => validPair_of_validatePair (hpairs.pair p hp), hsum⟩

/-- **Exact sums.**  The sum of balances in two words overflows just if the exact sum does not fit
into 256 bits, and two sums are equal just if the exact sums are, in whatever order and parts the
balances are added.  So an execution that passes the other checks is accepted just if the exact
sums before and after are equal and fit. -/
theorem balance_sums_exact :
    (∀ l : List U128, WrappedBalanceSum.fromBalances l = none ↔
      2 ^ 256 ≤ (l.map BitVec.toNat).sum) ∧
    (∀ (l l' : List U128) w w', WrappedBalanceSum.fromBalances l = some w →
      WrappedBalanceSum.fromBalances l' = some w' →
      (w = w' ↔ (l.map BitVec.toNat).sum = (l'.map BitVec.toNat).sum)) ∧
    (∀ l l' : List U128, l.Perm l' →
      WrappedBalanceSum.fromBalances l = WrappedBalanceSum.fromBalances l') ∧
    (∀ (parts : List (List U128)) ws, parts.mapM WrappedBalanceSum.fromBalances = some ws →
      ∀ w, WrappedBalanceSum.fromBalances parts.flatten = some w ↔
        w.value = (ws.map WrappedBalanceSum.value).sum) ∧
    ∀ preStates postStates executing, validateExecution preStates postStates executing = .ok () ↔
      ValidPairs preStates postStates executing ∧
        (preStates.map (·.account.balance.toNat)).sum < 2 ^ 256 ∧
        (preStates.map (·.account.balance.toNat)).sum =
          (postStates.map (·.account.balance.toNat)).sum := by
  refine ⟨fun l => WrappedBalanceSum.fromBalances_eq_none_iff, ?_, ?_, ?_,
    fun _ _ _ => validateExecution_eq_ok_iff⟩
  · intro l l' w w' hw hw'
    rw [← WrappedBalanceSum.value_of_fromBalances hw, ← WrappedBalanceSum.value_of_fromBalances hw',
      WrappedBalanceSum.value_injective.eq_iff]
  · intro l l' hperm
    exact WrappedBalanceSum.accumulates.foldlM_congr WrappedBalanceSum.value_injective
      (hperm.map BitVec.toNat).sum_eq
  · intro parts ws hws w
    rw [WrappedBalanceSum.fromBalances_eq_some_iff, WrappedBalanceSum.sum_flatten hws]

/-- The carry of two balances, in either order. -/
theorem balance_sums_exact_carry :
    WrappedBalanceSum.fromBalances [BitVec.allOnes 128, 1] = some ⟨0, 1⟩ ∧
      WrappedBalanceSum.fromBalances [1, BitVec.allOnes 128] = some ⟨0, 1⟩ ∧
      WrappedBalanceSum.fromBalances [BitVec.allOnes 128] ≠
        WrappedBalanceSum.fromBalances [BitVec.allOnes 128, 1] := by
  have hcarry : WrappedBalanceSum.fromBalances [BitVec.allOnes 128, 1] = some ⟨0, 1⟩ := by decide
  have hone : WrappedBalanceSum.fromBalances [BitVec.allOnes 128] =
      some ⟨BitVec.allOnes 128, 0⟩ := by decide
  obtain ⟨_, hequal, hperm, _⟩ := balance_sums_exact
  refine ⟨hcarry, (hperm _ _ (.swap _ _ _)).trans hcarry, fun heq => ?_⟩
  have hsum := (hequal _ _ _ _ hone hcarry).1 (Option.some.inj (hone ▸ hcarry ▸ heq))
  exact absurd hsum (by decide)

/-! ## Claims -/

section

variable [Sha256]

/-- A claim a program is entitled to. -/
def ClaimAllowed (programId : ProgramId) (pre : AccountWithMetadata) : Claim → Prop
  | .authorized => pre.isAuthorized = true
  | .pda seed => pre.accountId = AccountId.forPublicPda programId seed

/-- What becomes of a post state: unclaimed it stays as it is, and a granted claim on an
account without an owner makes the program its owner. -/
inductive Granted (programId : ProgramId) (pre : AccountWithMetadata) (post : AccountPostState) :
    Account → Prop
  | unclaimed (hclaim : post.claim = none) : Granted programId pre post post.account
  | claimed {claim : Claim} (hclaim : post.claim = some claim)
      (howner : post.account.programOwner = defaultProgramId)
      (hallowed : ClaimAllowed programId pre claim) :
      Granted programId pre post { post.account with programOwner := programId }

variable {programId : ProgramId} {pre : AccountWithMetadata} {post : AccountPostState}
  {account : Account}

theorem Granted.balance (h : Granted programId pre post account) :
    account.balance = post.account.balance := by
  cases h with
  | unclaimed => rfl
  | claimed => rfl

theorem Granted.data (h : Granted programId pre post account) :
    account.data = post.account.data := by
  cases h with
  | unclaimed => rfl
  | claimed => rfl

/-- An account with an owner cannot be claimed. -/
theorem Granted.owned (h : Granted programId pre post account)
    (hpair : ValidPair programId pre.account post.account)
    (howner : pre.account.programOwner ≠ defaultProgramId) : account = post.account := by
  cases h with
  | unclaimed => rfl
  | claimed _ hdefault _ => exact absurd (hpair.owner.symm.trans hdefault) howner

/-- Whatever of an output is granted keeps `Q` of the account `id`. -/
def ProgramOutput.Keeps (Q : Account → Prop) (id : AccountId) (programId : ProgramId)
    (out : ProgramOutput) : Prop :=
  ∀ p ∈ out.zipped, p.1.accountId = id → Q p.1.account →
    ∀ account, Granted programId p.1 p.2 account → Q account

/-- A call of a program, by its output. -/
structure ProgramCall where
  programId : ProgramId
  output : ProgramOutput
deriving DecidableEq

/-- What a call makes of the account `id` when its value is `a`: nothing if the output does not
list it, and otherwise what is granted of its post state.  A run of such steps is the history of
the account. -/
inductive ProgramCall.Turns (id : AccountId) (a : Account) (c : ProgramCall) : Account → Prop
  | unlisted (h : id ∉ c.output.preStates.map (·.accountId)) : Turns id a c a
  | listed {p : AccountWithMetadata × AccountPostState} {account : Account}
      (hp : p ∈ c.output.zipped) (hid : p.1.accountId = id) (hpre : p.1.account = a)
      (hgranted : Granted c.programId p.1 p.2 account) : Turns id a c account

/-- What the calls of a history keep. -/
theorem kept_of_history {Q : Account → Prop} {id : AccountId} {a a' : Account}
    {calls : List ProgramCall} (h : Run (ProgramCall.Turns id) a calls a')
    (hkeeps : ∀ c ∈ calls, c.output.Keeps Q id c.programId) (hQ : Q a) : Q a' := by
  refine h.invariant_of_mem hQ fun c hc a a' hQ hturn => ?_
  cases hturn with
  | unlisted _ => exact hQ
  | listed hp hid hpre hgranted => exact hkeeps c hc _ hp hid (hpre ▸ hQ) _ hgranted

end

/-- The strings hashed for the PDAs of a call: those its caller lists seeds of, and those the
program claims. -/
def callStrings (caller : Option ProgramId) (call : ChainedCall) (out : ProgramOutput) :
    List Bytes :=
  (caller.toList.flatMap fun program => call.pdaSeeds.map (publicPdaPreimage program)) ++
    out.postStates.filterMap fun post => match post.claim with
      | some (.pda seed) => some (publicPdaPreimage call.programId seed)
      | _ => none

theorem seed_mem_callStrings {caller : ProgramId} {call : ChainedCall} {seed : PdaSeed}
    (h : seed ∈ call.pdaSeeds) (out : ProgramOutput) :
    publicPdaPreimage caller seed ∈ callStrings (some caller) call out := by
  refine List.mem_append_left _ ?_
  rw [Option.toList_some, List.flatMap_singleton]
  exact List.mem_map_of_mem h

theorem claim_mem_callStrings {call : ChainedCall} {out : ProgramOutput}
    {p : AccountWithMetadata × AccountPostState} (hp : p ∈ out.zipped) {seed : PdaSeed}
    (h : p.2.claim = some (.pda seed)) (caller : Option ProgramId) :
    publicPdaPreimage call.programId seed ∈ callStrings caller call out := by
  refine List.mem_append_right _ (List.mem_filterMap.2 ⟨p.2, (List.of_mem_zip hp).2, ?_⟩)
  rw [h]

end ExecutionZone
