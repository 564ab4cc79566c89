import Mathlib.Data.List.Induction

/-!
# Runs of a transition system

`Run step s₀ l s` says that the events `l`, taken one after the other from `s₀`, lead to
`s`.  The last event is the one an induction peels off, so an invariant may speak about
the events so far.
-/

universe u v w

namespace ExecutionZone

variable {σ : Type u} {α : Type v} {τ : Type w}

inductive Run (step : σ → α → σ → Prop) (s₀ : σ) : List α → σ → Prop
  | nil : Run step s₀ [] s₀
  | snoc {l s a s'} : Run step s₀ l s → step s a s' → Run step s₀ (l ++ [a]) s'

namespace Run

variable {step : σ → α → σ → Prop} {s₀ s : σ} {l : List α}

/-- Without events nothing happens. -/
theorem eq_of_nil (h : Run step s₀ [] s) : s₀ = s := by
  generalize hl : ([] : List α) = l at h
  cases h with
  | nil => rfl
  | snoc _ _ => exact absurd hl.symm (List.append_ne_nil_of_right_ne_nil _ (List.cons_ne_nil _ _))

/-- An invariant of the steps for the events of the run holds in the state reached. -/
theorem invariant_of_mem {I : σ → Prop} (h : Run step s₀ l s) (h₀ : I s₀)
    (hstep : ∀ a ∈ l, ∀ s s', I s → step s a s' → I s') : I s := by
  induction h with
  | nil => exact h₀
  | snoc _ ha ih =>
      refine hstep _ (List.mem_append_right _ (List.mem_singleton_self _)) _ _ ?_ ha
      exact ih fun a ha => hstep a (List.mem_append_left _ ha)

/-- An invariant of the steps holds in every state reached. -/
theorem invariant {I : σ → Prop} (h : Run step s₀ l s) (h₀ : I s₀)
    (hstep : ∀ s a s', I s → step s a s' → I s') : I s :=
  h.invariant_of_mem h₀ fun a _ s s' => hstep s a s'

/-- A run continues another. -/
theorem append {s' : σ} {l' : List α} (h : Run step s₀ l s) (h' : Run step s l' s') :
    Run step s₀ (l ++ l') s' := by
  induction h' with
  | nil => rwa [List.append_nil]
  | snoc _ ha ih =>
      rw [← List.append_assoc]
      exact ih.snoc ha

/-- A step before a run. -/
theorem cons {s₁ : σ} {a : α} (ha : step s₀ a s₁) (h : Run step s₁ l s) :
    Run step s₀ (a :: l) s :=
  append (.snoc .nil ha) h

/-- The last event of a run is a step. -/
theorem exists_of_concat {s' : σ} {a : α} (h : Run step s₀ (l ++ [a]) s') :
    ∃ s, Run step s₀ l s ∧ step s a s' := by
  generalize hm : l ++ [a] = m at h
  cases h with
  | nil => exact absurd hm (List.append_ne_nil_of_right_ne_nil _ (List.cons_ne_nil _ _))
  | @snoc l' s a' s' hrun hstep =>
      obtain ⟨rfl, heq⟩ := List.append_inj' hm rfl
      cases heq
      exact ⟨s, hrun, hstep⟩

/-- A run passes through a state after each of its events. -/
theorem exists_of_append {s' : σ} {l' : List α} (h : Run step s₀ (l ++ l') s') :
    ∃ s, Run step s₀ l s ∧ Run step s l' s' := by
  induction l' using List.reverseRecOn generalizing s' with
  | nil =>
      rw [List.append_nil] at h
      exact ⟨s', h, .nil⟩
  | append_singleton l' a ih =>
      rw [← List.append_assoc] at h
      obtain ⟨s₁, hrun, hstep⟩ := h.exists_of_concat
      obtain ⟨s, hfirst, hrest⟩ := ih hrun
      exact ⟨s, hfirst, hrest.snoc hstep⟩

/-- The first event of a run is a step. -/
theorem exists_of_cons {a : α} (h : Run step s₀ (a :: l) s) :
    ∃ s₁, step s₀ a s₁ ∧ Run step s₁ l s := by
  obtain ⟨s₁, hfirst, hrest⟩ := exists_of_append (show Run step s₀ ([a] ++ l) s from h)
  obtain ⟨s₀', hnil, hstep⟩ := exists_of_concat (show Run step s₀ ([] ++ [a]) s₁ from hfirst)
  exact ⟨s₁, hnil.eq_of_nil ▸ hstep, hrest⟩

/-- A run of a relation is one of every relation that is larger on its events. -/
theorem mono_of_mem {step' : σ → α → σ → Prop} (h : Run step s₀ l s)
    (hle : ∀ a ∈ l, ∀ s s', step s a s' → step' s a s') : Run step' s₀ l s := by
  induction h with
  | nil => exact .nil
  | snoc _ ha ih =>
      refine (ih fun a ha => hle a (List.mem_append_left _ ha)).snoc (hle _ ?_ _ _ ha)
      exact List.mem_append_right _ (List.mem_singleton_self _)

/-- A run of a relation is one of every larger relation. -/
theorem mono {step' : σ → α → σ → Prop} (h : Run step s₀ l s)
    (hle : ∀ s a s', step s a s' → step' s a s') : Run step' s₀ l s :=
  h.mono_of_mem fun a _ s s' => hle s a s'

/-- A run takes its steps from states with the invariant. -/
theorem restrict {I : σ → Prop} (h : Run step s₀ l s) (h₀ : I s₀)
    (hstep : ∀ s a s', I s → step s a s' → I s') :
    Run (fun s a s' => I s ∧ step s a s') s₀ l s := by
  induction h with
  | nil => exact .nil
  | snoc h ha ih => exact ih.snoc ⟨h.invariant h₀ hstep, ha⟩

/-- A run takes the steps it can take where it has come to. -/
theorem restrict_of_split {P : σ → α → Prop} (h : Run step s₀ l s)
    (hP : ∀ l₁ a l₂ s₁, l = l₁ ++ a :: l₂ → Run step s₀ l₁ s₁ → Run step s₁ (a :: l₂) s → P s₁ a) :
    Run (fun s a s' => P s a ∧ step s a s') s₀ l s := by
  induction l generalizing s₀ with
  | nil =>
      obtain rfl := h.eq_of_nil
      exact .nil
  | cons a l ih =>
      obtain ⟨s₁, ha, hrest⟩ := h.exists_of_cons
      refine .cons ⟨hP [] a l s₀ rfl .nil h, ha⟩ (ih hrest ?_)
      rintro l₁ b l₂ s₂ rfl hl₁ hl₂
      exact hP (a :: l₁) b l₂ s₂ rfl (.cons ha hl₁) hl₂

/-- Every event of a run is one of its steps. -/
theorem step_of_mem (h : Run step s₀ l s) {a : α} (ha : a ∈ l) : ∃ s s', step s a s' := by
  induction h with
  | nil => exact absurd ha List.not_mem_nil
  | snoc _ hstep ih =>
      rcases List.mem_append.1 ha with ha | ha
      · exact ih ha
      · rw [List.mem_singleton.1 ha]
        exact ⟨_, _, hstep⟩

/-- **Forward simulation.**  If every step of a system can be followed by another one within a
relation between their states, so can every run. -/
theorem exists_of_simulation {step' : τ → α → τ → Prop} {R : σ → τ → Prop}
    (hsim : ∀ s a s' t, R s t → step s a s' → ∃ t', step' t a t' ∧ R s' t')
    (h : Run step s₀ l s) {t₀ : τ} (h₀ : R s₀ t₀) : ∃ t, Run step' t₀ l t ∧ R s t := by
  induction h with
  | nil => exact ⟨t₀, .nil, h₀⟩
  | snoc _ ha ih =>
      obtain ⟨t, hrun, hR⟩ := ih
      obtain ⟨t', hstep, hR'⟩ := hsim _ _ _ _ hR ha
      exact ⟨t', hrun.snoc hstep, hR'⟩

end Run

end ExecutionZone
