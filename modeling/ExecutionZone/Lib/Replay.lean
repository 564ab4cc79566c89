import Mathlib.Data.List.Basic

/-!
# Replaying a log from checkpoints

A log is a list of entries, each of which may fail to apply.  `replay` applies a log to an
initial state.  A table of checkpoints holds, under `k`, the state after the first
`interval * k` entries; whatever checkpoint before `n` a replay starts from, it ends in the
state after the first `n` entries (`Checkpoints.replay_eq`).

The checkpoint of choice for `n` is `closest interval n`, the last one that is strictly
before `n`, so that the table has it before the entry `n` is complete.
-/

universe u v

namespace ExecutionZone.Replay

variable {σ : Type u} {β : Type v} {apply : σ → β → Option σ} {init s : σ} {log : List β}

/-- The positions of a log that has grown by one entry. -/
theorem getElem?_concat (log : List β) (b : β) (k : Nat) :
    (log ++ [b])[k]? = if k = log.length then some b else log[k]? := by
  grind

/-- The state after a log. -/
def replay (apply : σ → β → Option σ) (init : σ) (log : List β) : Option σ :=
  log.foldlM apply init

@[simp] theorem replay_nil : replay apply init [] = some init := rfl

theorem replay_append (l l' : List β) :
    replay apply init (l ++ l') = (replay apply init l).bind fun s => replay apply s l' :=
  List.foldlM_append

/-- A longer log is replayed on the state after its beginning. -/
theorem replay_append_of_eq {l l' : List β} (h : replay apply init l = some s) :
    replay apply init (l ++ l') = replay apply s l' := by
  rw [replay_append, h, Option.bind_some]

theorem replay_concat_of_eq {b : β} (h : replay apply init log = some s) :
    replay apply init (log ++ [b]) = apply s b := by
  rw [replay_append_of_eq h]
  exact Option.bind_fun_some (apply s b)

/-- **Invariant rule.**  What every entry of the log preserves. -/
theorem invariant_of_replay {I : σ → Prop}
    (hstep : ∀ s s' b, b ∈ log → I s → apply s b = some s' → I s') (hinit : I init)
    (h : replay apply init log = some s) : I s := by
  induction log generalizing init with
  | nil =>
      cases h
      exact hinit
  | cons b log ih =>
      obtain ⟨s₁, hs₁, hrest⟩ := Option.bind_eq_some_iff.1 h
      exact ih (fun s s' b' hb' => hstep s s' b' (List.mem_cons_of_mem _ hb'))
        (hstep init s₁ b List.mem_cons_self hinit hs₁) hrest

/-- A log that can be replayed can be replayed up to any point. -/
theorem exists_replay_take (n : Nat) (h : replay apply init log = some s) :
    ∃ s', replay apply init (log.take n) = some s' := by
  rw [← List.take_append_drop n log, replay_append] at h
  obtain ⟨s', hs', _⟩ := Option.bind_eq_some_iff.1 h
  exact ⟨s', hs'⟩

/-! ## Checkpoints -/

/-- Every entry of the table is the state after the entries of the log it stands for. -/
structure Checkpoints (apply : σ → β → Option σ) (interval : Nat) (init : σ) (log : List β)
    (table : Nat → Option σ) : Prop where
  le_length : ∀ k s, table k = some s → interval * k ≤ log.length
  replay_take : ∀ k s, table k = some s →
    replay apply init (log.take (interval * k)) = some s

namespace Checkpoints

variable {interval : Nat} {table : Nat → Option σ}

/-- **Replay from a checkpoint.** -/
theorem replay_eq (h : Checkpoints apply interval init log table) {k n : Nat}
    (hk : table k = some s) (hkn : interval * k ≤ n) :
    replay apply s ((log.take n).drop (interval * k)) = replay apply init (log.take n) := by
  have hsplit : log.take (interval * k) ++ (log.take n).drop (interval * k) = log.take n := by
    rw [show log.take (interval * k) = (log.take n).take (interval * k) by
      rw [List.take_take, Nat.min_eq_left hkn]]
    exact List.take_append_drop _ _
  rw [← replay_append_of_eq (h.replay_take k s hk), hsplit]

/-- Checkpoints stay right when the log grows. -/
theorem append (h : Checkpoints apply interval init log table) (l : List β) :
    Checkpoints apply interval init (log ++ l) table := by
  constructor
  · intro k s hk
    rw [List.length_append]
    exact Nat.le_add_right_of_le (h.le_length k s hk)
  · intro k s hk
    rw [List.take_append_of_le_length (h.le_length k s hk)]
    exact h.replay_take k s hk

/-- A further entry, computed from the log. -/
theorem update (h : Checkpoints apply interval init log table) {table' : Nat → Option σ} {j : Nat}
    (hj : interval * j ≤ log.length) (hs : replay apply init (log.take (interval * j)) = some s)
    (hself : table' j = some s) (hother : ∀ k, k ≠ j → table' k = table k) :
    Checkpoints apply interval init log table' := by
  constructor
  · intro k s' hk
    by_cases hkj : k = j
    · exact hkj ▸ hj
    · exact h.le_length k s' ((hother k hkj).symm.trans hk)
  · intro k s' hk
    by_cases hkj : k = j
    · rw [hkj, hself] at hk
      rw [hkj, hs, hk]
    · exact h.replay_take k s' ((hother k hkj).symm.trans hk)

end Checkpoints

/-! ## The closest checkpoint -/

/-- The last checkpoint strictly before the end of the `n`th entry. -/
def closest (interval n : Nat) : Nat := (n - 1) / interval

theorem mul_closest_le (interval n : Nat) : interval * closest interval n ≤ n :=
  Nat.le_trans (Nat.mul_div_le (n - 1) interval) (Nat.sub_le n 1)

/-- A checkpoint is computed from the one before it. -/
theorem closest_mul_succ {interval : Nat} (h : 0 < interval) (k : Nat) :
    closest interval (interval * (k + 1)) = k := by
  rw [closest, Nat.mul_add, Nat.mul_one, Nat.add_sub_assoc h, Nat.mul_add_div h,
    Nat.div_eq_of_lt (Nat.sub_lt h Nat.one_pos), Nat.add_zero]

end ExecutionZone.Replay
