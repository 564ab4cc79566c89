import ExecutionZone.Lib.Run
import Mathlib.Data.List.Infix

/-!
# Queues in a transition system

A transition system with a queue in its states: an event appends items to the queue and takes
items from its front.  What was taken in a run is then a prefix of what was in the queue and
arrived, and if every event of some kind takes at least one item, as many such events as there
are items in the queue take all of them.
-/

universe u v w

namespace ExecutionZone.Fifo

variable {σ : Type u} {ι : Type v} {α : Type w} {step : σ → ι → σ → Prop} (items : σ → List α)
  {arrivals taken : ι → List α} {s s' : σ} {l : List ι}

/-- Nothing is lost or overtaken. -/
theorem conserved_of_run
    (hstep : ∀ s e s', step s e s' → items s ++ arrivals e = taken e ++ items s')
    (h : Run step s l s') : items s ++ l.flatMap arrivals = l.flatMap taken ++ items s' := by
  induction h with
  | nil => simp
  | snoc _ he ih =>
      rw [List.flatMap_append, List.flatMap_append, List.flatMap_singleton,
        List.flatMap_singleton, ← List.append_assoc, ih, List.append_assoc, hstep _ _ _ he,
        List.append_assoc]

variable {serves : ι → Bool} (good : α → Prop)

/-- **Progress.**  Let the serving events take an item as long as the first one is good.  A run
takes as many of the items that were good at its start as there are serving events in it. -/
theorem length_taken_of_run
    (hstep : ∀ s e s', step s e s' → items s ++ arrivals e = taken e ++ items s')
    (hserve : ∀ s e s', step s e s' → serves e = true →
      ∀ a rest, items s = a :: rest → good a → taken e ≠ [])
    (h : Run step s l s') (hgood : ∀ a ∈ items s, good a) :
    min (items s).length (l.countP serves) ≤ (l.flatMap taken).length := by
  induction h with
  | nil => simp
  | @snoc l s₁ e s' hrun he ih =>
      rw [List.countP_append, List.flatMap_append, List.length_append, List.flatMap_singleton,
        List.countP_singleton]
      by_cases hall : (items s).length ≤ (l.flatMap taken).length
      · omega
      by_cases hserves : serves e = true
      · -- the next item in the queue is one of those at the start
        have hconserved := conserved_of_run items hstep hrun
        have hdrop : (items s).drop (l.flatMap taken).length ++ l.flatMap arrivals = items s₁ := by
          rw [← List.drop_append_of_le_length (Nat.le_of_not_le hall), hconserved,
            List.drop_left]
        have hcons := List.drop_eq_getElem_cons (Nat.lt_of_not_le hall)
        rw [hcons, List.cons_append] at hdrop
        have htaken := List.length_pos_iff.2
          (hserve _ _ _ he hserves _ _ hdrop.symm (hgood _ (List.getElem_mem _)))
        rw [if_pos hserves]
        omega
      · rw [if_neg hserves]
        omega

/-- With enough serving events, all items are taken. -/
theorem prefix_taken_of_run
    (hstep : ∀ s e s', step s e s' → items s ++ arrivals e = taken e ++ items s')
    (hserve : ∀ s e s', step s e s' → serves e = true →
      ∀ a rest, items s = a :: rest → good a → taken e ≠ [])
    (h : Run step s l s') (hgood : ∀ a ∈ items s, good a)
    (hmany : (items s).length ≤ l.countP serves) : items s <+: l.flatMap taken := by
  have hlen := length_taken_of_run items good hstep hserve h hgood
  rw [Nat.min_eq_left hmany] at hlen
  refine List.prefix_of_prefix_length_le (List.prefix_append _ (l.flatMap arrivals)) ?_ hlen
  rw [conserved_of_run items hstep h]
  exact List.prefix_append _ _

end ExecutionZone.Fifo
