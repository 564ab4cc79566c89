import Mathlib.Algebra.BigOperators.Group.List.Basic
import Mathlib.Algebra.GroupWithZero.Nat

/-!
# Checked accumulators

A loop adds up numbers in a representation of its own, and gives up when a sum does not fit.  If
every state stands for a number below a bound, and a turn either adds exactly or fails because
the sum reaches the bound, then so does the whole loop: it fails just if the exact sum does not
fit, whatever the order of the numbers.
-/

universe u v

namespace ExecutionZone

variable {σ : Type u} {α : Type v}

/-- `add` adds up weights below `bound`, exactly. -/
structure Accumulates (add : σ → α → Option σ) (value : σ → Nat) (weight : α → Nat)
    (bound : Nat) : Prop where
  value_lt : ∀ s, value s < bound
  value_add : ∀ {s a s'}, add s a = some s' → value s' = value s + weight a
  overflow : ∀ {s a}, add s a = none → bound ≤ value s + weight a

namespace Accumulates

variable {add : σ → α → Option σ} {value : σ → Nat} {weight : α → Nat} {bound : Nat}
  (h : Accumulates add value weight bound) {l l' : List α} {s s' : σ}
include h

theorem value_foldlM (hs : l.foldlM add s = some s') :
    value s' = value s + (l.map weight).sum := by
  induction l generalizing s with
  | nil =>
      cases hs
      rfl
  | cons a l ih =>
      rw [List.foldlM_cons] at hs
      obtain ⟨s₁, hadd, hs⟩ := Option.bind_eq_some_iff.1 hs
      rw [ih hs, h.value_add hadd, List.map_cons, List.sum_cons, Nat.add_assoc]

theorem foldlM_eq_none_iff : l.foldlM add s = none ↔ bound ≤ value s + (l.map weight).sum := by
  constructor
  · intro hnone
    induction l generalizing s with
    | nil => cases hnone
    | cons a l ih =>
        rw [List.foldlM_cons] at hnone
        rw [List.map_cons, List.sum_cons, ← Nat.add_assoc]
        cases hadd : add s a with
        | none => exact Nat.le_trans (h.overflow hadd) (Nat.le_add_right _ _)
        | some s₁ =>
            rw [hadd] at hnone
            rw [← h.value_add hadd]
            exact ih hnone
  · intro hle
    cases hs : l.foldlM add s with
    | none => rfl
    | some s' =>
        rw [← h.value_foldlM hs] at hle
        exact absurd hle (Nat.not_le_of_lt (h.value_lt s'))

/-- If a number has one representation only, the loop computes a function of the exact sum. -/
theorem foldlM_congr (hvalue : Function.Injective value)
    (hsum : (l.map weight).sum = (l'.map weight).sum) : l.foldlM add s = l'.foldlM add s := by
  cases hs : l.foldlM add s with
  | none =>
      rw [h.foldlM_eq_none_iff, hsum] at hs
      exact (h.foldlM_eq_none_iff.2 hs).symm
  | some s₁ =>
      cases hs' : l'.foldlM add s with
      | none =>
          rw [h.foldlM_eq_none_iff, ← hsum, ← h.foldlM_eq_none_iff, hs] at hs'
          cases hs'
      | some s₂ =>
          refine congrArg some (hvalue ?_)
          rw [h.value_foldlM hs, h.value_foldlM hs', hsum]

end Accumulates

end ExecutionZone
