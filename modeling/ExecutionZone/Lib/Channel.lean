import Mathlib.Data.List.Induction
import Mathlib.Data.List.Nodup

/-!
# Reading a log by cursors

Some messages of a log carry a mark.  A reader remembers the mark of the last marked message it
has read and asks for what follows it.  If no mark occurs twice, what it gets is what it has not
read yet, after a part it has read that carries no marks (`after_lastMark`).
-/

universe u v

namespace ExecutionZone.Channel

variable {μ : Type u} {κ : Type v} {mark : μ → Option κ}

/-- The mark of the last marked message. -/
def lastMark (mark : μ → Option κ) (l : List μ) : Option κ := (l.filterMap mark).getLast?

theorem lastMark_concat_none {l : List μ} {m : μ} (h : mark m = none) :
    lastMark mark (l ++ [m]) = lastMark mark l := by
  rw [lastMark, List.filterMap_append, List.filterMap_cons_none h, List.filterMap_nil,
    List.append_nil]
  rfl

theorem lastMark_concat_some {l : List μ} {m : μ} {k : κ} (h : mark m = some k) :
    lastMark mark (l ++ [m]) = some k := by
  rw [lastMark, List.filterMap_append, List.filterMap_cons_some h, List.filterMap_nil,
    List.getLast?_concat]

variable [DecidableEq κ]

/-- The messages after the one with a given mark, or all of them. -/
def after (mark : μ → Option κ) (log : List μ) : Option κ → List μ
  | none => log
  | some k => (log.dropWhile fun m => mark m ≠ some k).tail

/-- Reading on from the last mark. -/
theorem after_lastMark {read rest : List μ} (h : ((read ++ rest).filterMap mark).Nodup) :
    ∃ before unmarked, read = before ++ unmarked ∧ (∀ m ∈ unmarked, mark m = none) ∧
      after mark (read ++ rest) (lastMark mark read) = unmarked ++ rest := by
  induction read using List.reverseRecOn generalizing rest with
  | nil => exact ⟨[], [], rfl, List.forall_mem_nil _, rfl⟩
  | append_singleton l m ih =>
      rw [List.append_assoc, List.singleton_append] at h
      rw [List.append_assoc, List.singleton_append]
      rcases hm : mark m with _ | k
      · obtain ⟨before, unmarked, rfl, hunmarked, hafter⟩ := ih h
        refine ⟨before, unmarked ++ [m], List.append_assoc _ _ _, ?_, ?_⟩
        · intro m' hm'
          rcases List.mem_append.1 hm' with hm' | hm'
          · exact hunmarked m' hm'
          · rw [List.mem_singleton.1 hm', hm]
        · rw [lastMark_concat_none hm, hafter, List.append_assoc, List.singleton_append]
      · refine ⟨l ++ [m], [], (List.append_nil _).symm, List.forall_mem_nil _, ?_⟩
        have hskip : ∀ m' ∈ l, decide (mark m' ≠ some k) = true := by
          intro m' hm'
          refine decide_eq_true fun heq => ?_
          rw [List.filterMap_append, List.filterMap_cons_some hm] at h
          exact (List.nodup_append.1 h).2.2 k (List.mem_filterMap.2 ⟨m', hm', heq⟩) k
            List.mem_cons_self rfl
        rw [lastMark_concat_some hm, after, List.dropWhile_append_of_pos hskip,
          List.dropWhile_cons_of_neg (by simp [hm])]
        rfl

end ExecutionZone.Channel
