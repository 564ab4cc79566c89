import Mathlib.Algebra.Order.Floor.Div
import Mathlib.Algebra.Order.Group.Nat
import Mathlib.Order.Bounds.Basic

/-!
# Constant-product pools

A pool holds reserves of two tokens and trades so that the product of the reserves does not
fall.  An exact input pays what the product allows, rounded down; an exact output costs what
the product requires, rounded up.  The two are inverse to each other: the cost of an output
is the least input that pays it.

All of this is exact arithmetic.  The last section is about products that are computed
modulo a bound before they are divided, as a machine without overflow checks does.
-/

namespace ExecutionZone.ConstantProduct

/-- What an input of `x` pays, from reserves `rIn` and `rOut`. -/
def payout (rIn rOut x : Nat) : Nat := rOut * x / (rIn + x)

/-- What an output of `o` costs, from reserves `rIn` and `rOut`. -/
def cost (rIn rOut o : Nat) : Nat := (rIn * o) ⌈/⌉ (rOut - o)

variable {rIn rOut x o : Nat}

theorem le_payout_iff (h : 0 < rIn + x) : o ≤ payout rIn rOut x ↔ o * (rIn + x) ≤ rOut * x :=
  Nat.le_div_iff_mul_le h

theorem cost_le_iff (h : o < rOut) : cost rIn rOut o ≤ x ↔ rIn * o ≤ (rOut - o) * x := by
  rw [cost, ceilDiv_le_iff_le_smul (Nat.sub_pos_of_lt h), smul_eq_mul]

theorem payout_le (rIn rOut x : Nat) : payout rIn rOut x ≤ rOut := by
  rcases Nat.eq_zero_or_pos (rIn + x) with hzero | hpos
  · simp [payout, hzero]
  · refine Nat.div_le_of_le_mul ?_
    rw [Nat.mul_comm (rIn + x)]
    exact Nat.mul_le_mul_left _ (Nat.le_add_left _ _)

/-- An exact input does not lower the product of the reserves. -/
theorem product_le_payout (rIn rOut x : Nat) :
    rIn * rOut ≤ (rIn + x) * (rOut - payout rIn rOut x) := by
  have hpaid : (rIn + x) * payout rIn rOut x ≤ rOut * x := Nat.mul_div_le _ _
  rw [Nat.mul_sub]
  have hsum : (rIn + x) * rOut = rIn * rOut + rOut * x := by
    rw [Nat.add_mul, Nat.mul_comm x]
  omega

/-- An exact output does not lower the product of the reserves. -/
theorem product_le_cost (h : o < rOut) :
    rIn * rOut ≤ (rIn + cost rIn rOut o) * (rOut - o) := by
  have hcost : rIn * o ≤ (rOut - o) * cost rIn rOut o := (cost_le_iff h).1 le_rfl
  have hsplit : rIn * rOut = rIn * (rOut - o) + rIn * o := by
    rw [← Nat.mul_add, Nat.sub_add_cancel h.le]
  rw [Nat.add_mul, Nat.mul_comm (cost rIn rOut o)]
  omega

/-- An input pays an output exactly when it covers its cost. -/
theorem le_payout_iff_cost_le (hIn : 0 < rIn) (h : o < rOut) :
    o ≤ payout rIn rOut x ↔ cost rIn rOut o ≤ x := by
  rw [le_payout_iff (by omega), cost_le_iff h, Nat.mul_add, Nat.sub_mul, Nat.mul_comm o rIn]
  have hle : o * x ≤ rOut * x := Nat.mul_le_mul_right _ h.le
  omega

/-- **Inverse.**  The cost of an output is the least input that pays it. -/
theorem isLeast_cost (hIn : 0 < rIn) (h : o < rOut) :
    IsLeast { x | o ≤ payout rIn rOut x } (cost rIn rOut o) := by
  constructor
  · exact (le_payout_iff_cost_le hIn h).2 le_rfl
  · exact fun x hx => (le_payout_iff_cost_le hIn h).1 hx

theorem cost_pos (hIn : 0 < rIn) (ho : 0 < o) (h : o < rOut) : 0 < cost rIn rOut o := by
  by_contra hzero
  have hle : rIn * o ≤ (rOut - o) * 0 := (cost_le_iff h).1 (Nat.not_lt.1 hzero)
  have hpos := Nat.mul_pos hIn ho
  omega

/-! ## Wrapped products -/

/-- A wrapped product is at most the exact one, and so is a share computed from it. -/
theorem wrapped_share_mul_le (x y z m : Nat) : x * y % m / z * z ≤ x * y :=
  (Nat.div_mul_le_self _ _).trans (Nat.mod_le _ _)

/-- Multiplying and dividing by the same number gives back the other factor exactly when the
product does not wrap. -/
theorem wrapped_share_eq_iff {x y m : Nat} (hx : 0 < x) : x * y % m / x = y ↔ x * y % m = x * y := by
  constructor
  · intro h
    refine le_antisymm (Nat.mod_le _ _) ?_
    have hle : x * (x * y % m / x) ≤ x * y % m := Nat.mul_div_le _ _
    rwa [h] at hle
  · intro h
    rw [h, Nat.mul_div_cancel_left _ hx]

end ExecutionZone.ConstantProduct
