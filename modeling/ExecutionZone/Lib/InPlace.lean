import ExecutionZone.Lib.Fault

/-!
# Updates in place

A value that is updated in place by one fallible update after the other keeps, when one of
them fails, what the updates before it did.  `applyInPlace` returns the value together with
how it ended; if all updates succeed it is their composition.
-/

universe u v

namespace ExecutionZone

variable {σ : Type u} {E : Type v} {s s' : σ} {f : σ → Except E σ} {fs : List (σ → Except E σ)}

/-- Apply updates up to the first that fails. -/
def applyInPlace (s : σ) : List (σ → Except E σ) → σ × Except E Unit
  | [] => (s, .ok ())
  | f :: fs =>
      match f s with
      | .ok s' => applyInPlace s' fs
      | .error e => (s, .error e)

/-- If the first update fails, nothing is changed. -/
theorem applyInPlace_of_error {e : E} (h : f s = .error e) :
    applyInPlace s (f :: fs) = (s, .error e) := by
  rw [applyInPlace, h]

theorem applyInPlace_eq_ok :
    applyInPlace s fs = (s', .ok ()) ↔ fs.foldlM (fun s f => f s) s = .ok s' := by
  induction fs generalizing s with
  | nil => simp [applyInPlace, pure, Except.pure]
  | cons f fs ih =>
      rw [applyInPlace, List.foldlM_cons, bind_eq_ok]
      cases h : f s with
      | error e => simp
      | ok s₁ =>
          rw [ih]
          simp

end ExecutionZone
