import Mathlib.Data.List.Basic
import Mathlib.Data.List.Forall2

/-!
# Depth-first execution of a call tree

A *machine* executes calls one at a time.  Executing a call produces a result and
a new state, or fails; the result determines the further calls the callee issues.
Those are put in front of the pending calls, in order, so the calls of a tree are
executed depth first, left to right, within a budget of executed calls.

`run` is the loop itself.  `trace` is the same loop, additionally recording every
executed call together with the chain of calls that led to it, and `Runs` is its
big-step presentation, on which the induction rules of this file are stated.

Only successful runs have a `Runs` derivation: nothing here speaks about the calls
executed before a failure.
-/

universe u v w x

namespace ExecutionZone.CallTree

/-- One executed call: what it returned, and the calls on the path to it with what
they returned, nearest first. -/
structure Executed (C : Type u) (R : Type v) where
  /-- The call. -/
  call : C
  /-- The callers on the path to the call, nearest first. -/
  ancestors : List (C × R)
  /-- What the call returned. -/
  result : R

/-- How calls are executed, which calls a result issues, and the failure reported
when the budget is exhausted. -/
structure Machine (C : Type u) (R : Type v) (S : Type w) (E : Type x) where
  /-- Execute one call. -/
  step : C → S → Except E (R × S)
  /-- The calls issued by a call that returned. -/
  children : C → R → List C
  /-- The failure on an exhausted budget. -/
  exceeded : E

namespace Machine

variable {C : Type u} {R : Type v} {S : Type w} {E : Type x} (M : Machine C R S E)

/-- The loop: execute the first pending call, put its children in front. -/
def run : Nat → List C → S → Except E S
  | _, [], s => .ok s
  | 0, _ :: _, _ => .error M.exceeded
  | n + 1, c :: q, s =>
      match M.step c s with
      | .error e => .error e
      | .ok (r, s') => run n (M.children c r ++ q) s'

/-- The children of a call, each with the path that leads to it. -/
def issue (c : C) (anc : List (C × R)) (r : R) : List (C × List (C × R)) :=
  (M.children c r).map fun c' => (c', (c, r) :: anc)

/-- The loop, recording the executed calls. -/
def trace : Nat → List (C × List (C × R)) → S → Except E (List (Executed C R) × S)
  | _, [], s => .ok ([], s)
  | 0, _ :: _, _ => .error M.exceeded
  | n + 1, (c, anc) :: q, s =>
      match M.step c s with
      | .error e => .error e
      | .ok (r, s') =>
          match trace n (M.issue c anc r ++ q) s' with
          | .error e => .error e
          | .ok (t, s'') => .ok (⟨c, anc, r⟩ :: t, s'')

/-- `Runs q s t s'`: starting in `s` with `q` pending, the executed calls are `t`
and the final state is `s'`. -/
inductive Runs : List (C × List (C × R)) → S → List (Executed C R) → S → Prop
  /-- Nothing is pending. -/
  | nil (s : S) : Runs [] s [] s
  /-- The first pending call is executed. -/
  | cons {c anc q s r s' t s''} : M.step c s = .ok (r, s') →
      Runs (M.issue c anc r ++ q) s' t s'' →
      Runs ((c, anc) :: q) s (⟨c, anc, r⟩ :: t) s''

variable {M}

/-- A call without children. -/
theorem run_leaf {n : Nat} {c : C} {s s' : S} {r : R} (hstep : M.step c s = .ok (r, s'))
    (hleaf : M.children c r = []) : M.run (n + 1) [c] s = .ok s' := by
  simp only [run, hstep, hleaf, List.nil_append]

/-- The first pending call is executed. -/
theorem Runs.step_of_head {c : C} {anc : List (C × R)} {q : List (C × List (C × R))} {s s' : S}
    {t : List (Executed C R)} (h : M.Runs ((c, anc) :: q) s t s') :
    ∃ r s₁, M.step c s = .ok (r, s₁) := by
  cases h with
  | cons hstep _ => exact ⟨_, _, hstep⟩

/-- A successful recorded loop is a `Runs` derivation. -/
theorem runs_of_trace {n : Nat} {q : List (C × List (C × R))} {s : S}
    {t : List (Executed C R)} {s' : S} (h : M.trace n q s = .ok (t, s')) :
    M.Runs q s t s' ∧ t.length ≤ n := by
  induction n generalizing q s t with
  | zero =>
      cases q with
      | nil => simp only [trace, Except.ok.injEq, Prod.mk.injEq] at h
               obtain ⟨rfl, rfl⟩ := h
               exact ⟨.nil _, by simp⟩
      | cons p q => simp [trace] at h
  | succ n ih =>
      cases q with
      | nil => simp only [trace, Except.ok.injEq, Prod.mk.injEq] at h
               obtain ⟨rfl, rfl⟩ := h
               exact ⟨.nil _, by simp⟩
      | cons p q =>
          obtain ⟨c, anc⟩ := p
          simp only [trace] at h
          cases hs : M.step c s with
          | error e => simp [hs] at h
          | ok p =>
              obtain ⟨r, s₁⟩ := p
              simp only [hs] at h
              cases ht : M.trace n (M.issue c anc r ++ q) s₁ with
              | error e => simp [ht] at h
              | ok p =>
                  obtain ⟨t₁, s₂⟩ := p
                  simp only [ht, Except.ok.injEq, Prod.mk.injEq] at h
                  obtain ⟨rfl, rfl⟩ := h
                  obtain ⟨hr, hl⟩ := ih ht
                  exact ⟨.cons hs hr, by simpa using hl⟩

/-- Recording changes nothing: the loop is the recorded loop without its record. -/
theorem run_eq_trace (n : Nat) (q : List (C × List (C × R))) (s : S) :
    M.run n (q.map Prod.fst) s = (M.trace n q s).map Prod.snd := by
  induction n generalizing q s with
  | zero => cases q <;> rfl
  | succ n ih =>
      cases q with
      | nil => rfl
      | cons p q =>
          obtain ⟨c, anc⟩ := p
          simp only [List.map_cons, run, trace]
          cases hs : M.step c s with
          | error e => rfl
          | ok p =>
              obtain ⟨r, s'⟩ := p
              have hq : M.children c r ++ q.map Prod.fst =
                  (M.issue c anc r ++ q).map Prod.fst := by
                simp [issue, Function.comp_def]
              simp only [hq, ih]
              cases M.trace n (M.issue c anc r ++ q) s' <;> rfl

/-- A successful loop has a derivation. -/
theorem exists_runs_of_run {n : Nat} {q : List (C × List (C × R))} {s s' : S}
    (h : M.run n (q.map Prod.fst) s = .ok s') : ∃ t, M.trace n q s = .ok (t, s') := by
  rw [run_eq_trace] at h
  cases ht : M.trace n q s with
  | error e => simp [ht, Except.map] at h
  | ok p =>
      obtain ⟨t, s₁⟩ := p
      simp only [ht, Except.map, Except.ok.injEq] at h
      exact ⟨t, by rw [h]⟩

/-- The calls of a tree with what they return, depth first, where `f` says what a call returns. -/
def answers {E : Type x} (f : C → Except E R) (children : C → R → List C) : Nat → List C → List (C × R)
  | n + 1, c :: q =>
      match f c with
      | .ok r => (c, r) :: answers f children n (children c r ++ q)
      | .error _ => []
  | _, _ => []

/-- If what a call returns does not depend on the state, the executed calls are those of the
tree. -/
theorem answers_of_trace {E' : Type x} {f : C → Except E' R}
    (hf : ∀ c s r s', M.step c s = .ok (r, s') → f c = .ok r) {n : Nat}
    {q : List (C × List (C × R))} {s s' : S} {t : List (Executed C R)}
    (h : M.trace n q s = .ok (t, s')) :
    t.map (fun e => (e.call, e.result)) = answers f M.children n (q.map Prod.fst) := by
  obtain ⟨hruns, hlen⟩ := runs_of_trace h
  clear h
  induction hruns generalizing n with
  | nil s => cases n <;> rfl
  | @cons c anc q s r s₁ t s' hs _ ih =>
      cases n with
      | zero => cases hlen
      | succ n =>
          simp only [List.map_cons, answers, hf c s r s₁ hs, ih (Nat.le_of_succ_le_succ hlen),
            List.map_append, issue, List.map_map, Function.comp_def, List.map_id']

/-! ## Induction rules -/

/-- **Invariant rule.**  `I` is kept by the state, `J` by every pending call with its
path, and each executed call has `P`. -/
theorem Runs.invariant {I : S → Prop} {J : C → List (C × R) → Prop} {P : Executed C R → Prop}
    (hstep : ∀ c anc s r s', I s → J c anc → M.step c s = .ok (r, s') →
      I s' ∧ (∀ c' ∈ M.children c r, J c' ((c, r) :: anc)) ∧ P ⟨c, anc, r⟩)
    {q : List (C × List (C × R))} {s : S} {t : List (Executed C R)} {s' : S}
    (h : M.Runs q s t s') (hI : I s) (hJ : ∀ p ∈ q, J p.1 p.2) :
    I s' ∧ ∀ e ∈ t, P e := by
  induction h with
  | nil s => exact ⟨hI, by simp⟩
  | @cons c anc q s r s₁ t s₂ hs _ ih =>
      obtain ⟨hI₁, hch, hP⟩ := hstep c anc s r s₁ hI (hJ _ List.mem_cons_self) hs
      have hJ₁ : ∀ p ∈ M.issue c anc r ++ q, J p.1 p.2 := by
        intro p hp
        rcases List.mem_append.1 hp with hp | hp
        · obtain ⟨c', hc', rfl⟩ := List.mem_map.1 hp
          exact hch c' hc'
        · exact hJ p (List.mem_cons_of_mem _ hp)
      obtain ⟨hI₂, ht⟩ := ih hI₁ hJ₁
      refine ⟨hI₂, fun e he => ?_⟩
      rcases List.mem_cons.1 he with rfl | he
      · exact hP
      · exact ht e he

/-- Every executed call is one of the calls pending at the start, or was issued by
an executed call: the one at the head of its path. -/
theorem Runs.mem_issued {q : List (C × List (C × R))} {s : S} {t : List (Executed C R)} {s' : S}
    (h : M.Runs q s t s') :
    ∀ e ∈ t, (e.call, e.ancestors) ∈ q ∨
      ∃ p ∈ t, e.ancestors = (p.call, p.result) :: p.ancestors ∧
        e.call ∈ M.children p.call p.result := by
  induction h with
  | nil s => simp
  | @cons c anc q s r s₁ t s₂ hs _ ih =>
      intro e he
      rcases List.mem_cons.1 he with rfl | he
      · exact .inl List.mem_cons_self
      · rcases ih e he with hq | ⟨p, hp, hanc, hc⟩
        · rcases List.mem_append.1 hq with hq | hq
          · obtain ⟨c', hc', heq⟩ := List.mem_map.1 hq
            simp only [Prod.mk.injEq] at heq
            obtain ⟨rfl, hanc⟩ := heq
            exact .inr ⟨⟨c, anc, r⟩, List.mem_cons_self, hanc.symm, hc'⟩
          · exact .inl (List.mem_cons_of_mem _ hq)
        · exact .inr ⟨p, List.mem_cons_of_mem _ hp, hanc, hc⟩

/-- Every call pending at the start is executed. -/
theorem Runs.executed_of_pending {q : List (C × List (C × R))} {s : S} {t : List (Executed C R)}
    {s' : S} (h : M.Runs q s t s') : ∀ p ∈ q, ∃ r, ⟨p.1, p.2, r⟩ ∈ t := by
  induction h with
  | nil s => simp
  | @cons c anc q s r s₁ t s₂ hs _ ih =>
      intro p hp
      rcases List.mem_cons.1 hp with rfl | hp
      · exact ⟨r, List.mem_cons_self⟩
      · obtain ⟨r', hr'⟩ := ih p (List.mem_append_right _ hp)
        exact ⟨r', List.mem_cons_of_mem _ hr'⟩

/-- Every call an executed call issues is executed. -/
theorem Runs.executed_of_children {q : List (C × List (C × R))} {s : S} {t : List (Executed C R)}
    {s' : S} (h : M.Runs q s t s') :
    ∀ e ∈ t, ∀ c ∈ M.children e.call e.result,
      ∃ r, ⟨c, (e.call, e.result) :: e.ancestors, r⟩ ∈ t := by
  induction h with
  | nil s => simp
  | @cons c anc q s r s₁ t s₂ hs hrest ih =>
      intro e he c' hc'
      rcases List.mem_cons.1 he with rfl | he
      · have hmem : (c', (c, r) :: anc) ∈ M.issue c anc r ++ q :=
          List.mem_append_left _ (List.mem_map_of_mem hc')
        obtain ⟨r', hr'⟩ := hrest.executed_of_pending _ hmem
        exact ⟨r', List.mem_cons_of_mem _ hr'⟩
      · obtain ⟨r', hr'⟩ := ih e he c' hc'
        exact ⟨r', List.mem_cons_of_mem _ hr'⟩

/-- Every executed call was a successful step. -/
theorem Runs.step_of_mem {q : List (C × List (C × R))} {s : S} {t : List (Executed C R)} {s' : S}
    (h : M.Runs q s t s') : ∀ e ∈ t, ∃ s₁ s₂, M.step e.call s₁ = .ok (e.result, s₂) := by
  induction h with
  | nil s => simp
  | cons hs _ ih =>
      intro e he
      rcases List.mem_cons.1 he with rfl | he
      · exact ⟨_, _, hs⟩
      · exact ih e he

/-- **Invariant with history.**  `I` relates the state to the calls executed so far, and `G` is
what the steps do to the state.  So every executed call was a step from a state that `I` relates
to the calls before it, and what the steps before and after it did is related by `G`. -/
theorem Runs.history {I : List (Executed C R) → S → Prop} {G : S → S → Prop} (hrefl : ∀ s, G s s)
    (htrans : ∀ s₁ s₂ s₃, G s₁ s₂ → G s₂ s₃ → G s₁ s₃)
    (hstep : ∀ t c anc s r s', I t s → M.step c s = .ok (r, s') →
      I (t ++ [⟨c, anc, r⟩]) s' ∧ G s s')
    {q : List (C × List (C × R))} {s : S} {t : List (Executed C R)} {s' : S}
    (h : M.Runs q s t s') (t₀ : List (Executed C R)) (hI : I t₀ s) :
    (I (t₀ ++ t) s' ∧ G s s') ∧ ∀ t₁ e t₂, t = t₁ ++ e :: t₂ → ∃ s₁ s₂, I (t₀ ++ t₁) s₁ ∧
      G s s₁ ∧ M.step e.call s₁ = .ok (e.result, s₂) ∧ G s₂ s' := by
  induction h generalizing t₀ with
  | nil s => exact ⟨⟨by rwa [List.append_nil], hrefl s⟩, by simp⟩
  | @cons c anc q s r s₁ t s' hs _ ih =>
      obtain ⟨hI₁, hG₁⟩ := hstep t₀ c anc s r s₁ hI hs
      obtain ⟨⟨hI', hG'⟩, hcalls⟩ := ih _ hI₁
      rw [List.append_assoc] at hI'
      refine ⟨⟨hI', htrans _ _ _ hG₁ hG'⟩, fun t₁ e t₂ heq => ?_⟩
      cases t₁ with
      | nil =>
          cases heq
          exact ⟨s, s₁, by rwa [List.append_nil], hrefl s, hs, hG'⟩
      | cons e' t₁ =>
          cases heq
          obtain ⟨s₂, s₃, hI₂, hG₂, hstep₂, hG₃⟩ := hcalls t₁ e t₂ rfl
          rw [List.append_assoc] at hI₂
          exact ⟨s₂, s₃, hI₂, htrans _ _ _ hG₁ hG₂, hstep₂, hG₃⟩

/-- Every executed call was a step from a state with the invariant, and what the steps
before and after it did to the state is related by `G`. -/
theorem Runs.step_between {I : S → Prop} {G : S → S → Prop} (hrefl : ∀ s, G s s)
    (htrans : ∀ s₁ s₂ s₃, G s₁ s₂ → G s₂ s₃ → G s₁ s₃)
    (hstep : ∀ c s r s', I s → M.step c s = .ok (r, s') → I s' ∧ G s s')
    {q : List (C × List (C × R))} {s : S} {t : List (Executed C R)} {s' : S}
    (h : M.Runs q s t s') (hI : I s) :
    (I s' ∧ G s s') ∧ ∀ e ∈ t, ∃ s₁ s₂, I s₁ ∧ G s s₁ ∧
      M.step e.call s₁ = .ok (e.result, s₂) ∧ G s₂ s' := by
  obtain ⟨hend, hcalls⟩ := h.history (I := fun _ s => I s) hrefl htrans
    (fun _ c _ s r s' => hstep c s r s') [] hI
  refine ⟨hend, fun e he => ?_⟩
  obtain ⟨t₁, t₂, heq⟩ := List.append_of_mem he
  exact hcalls t₁ e t₂ heq

/-- **Budget.**  The loop returns if the calls fit into the budget, and reports that it is exhausted
if they do not. -/
theorem Runs.run_eq {q : List (C × List (C × R))} {s : S} {t : List (Executed C R)} {s' : S}
    (h : M.Runs q s t s') (n : Nat) :
    M.run n (q.map Prod.fst) s = if t.length ≤ n then .ok s' else .error M.exceeded := by
  induction h generalizing n with
  | nil s => cases n <;> rfl
  | @cons c anc q s r s₁ t s₂ hs _ ih =>
      cases n with
      | zero => simp [run]
      | succ n =>
          have hq : M.children c r ++ q.map Prod.fst = (M.issue c anc r ++ q).map Prod.fst := by
            simp [issue, Function.comp_def]
          simp only [List.map_cons, run, hs, hq, ih, List.length_cons, Nat.add_le_add_iff_right]

/-- **Lockstep.**  Two machines that execute related calls execute as many of them, with related
results, if the calls of related results are again related.  What is known of the calls of the
second machine may be used. -/
theorem Runs.lockstep {C' : Type u} {R' : Type v} {S' : Type w} {E' : Type x}
    {M' : Machine C' R' S' E'} {ρ : C → C' → Prop} {σ : R → R' → Prop} {P : Executed C' R' → Prop}
    (hstep : ∀ c s r s₁ c' anc' s' r' s₁', ρ c c' → P ⟨c', anc', r'⟩ →
      M.step c s = .ok (r, s₁) → M'.step c' s' = .ok (r', s₁') →
      σ r r' ∧ List.Forall₂ ρ (M.children c r) (M'.children c' r'))
    {q : List (C × List (C × R))} {s s₁ : S} {t : List (Executed C R)} (h : M.Runs q s t s₁)
    {q' : List (C' × List (C' × R'))} {s' s₁' : S'} {t' : List (Executed C' R')}
    (h' : M'.Runs q' s' t' s₁') (hP : ∀ e ∈ t', P e)
    (hq : List.Forall₂ (fun p p' => ρ p.1 p'.1) q q') :
    List.Forall₂ (fun e e' => σ e.result e'.result) t t' := by
  induction h generalizing q' s' t' with
  | nil s =>
      cases hq
      cases h'
      exact .nil
  | @cons c anc q s r s₁ t s₂ hs _ ih =>
      cases hq with
      | cons hρ hq =>
          cases h' with
          | @cons c' anc' _ _ r' s₁' t' _ hs' hrest' =>
              obtain ⟨hσ, hchildren⟩ := hstep _ _ _ _ _ anc' _ _ _ hρ (hP _ List.mem_cons_self)
                hs hs'
              refine .cons hσ (ih hrest' (fun e he => hP e (List.mem_cons_of_mem _ he)) ?_)
              refine List.rel_append ?_ hq
              exact List.forall₂_map_left_iff.2 (List.forall₂_map_right_iff.2 hchildren)

/-- The failure of a loop is that of a step, or an exhausted budget. -/
theorem run_error {P : E → Prop} (hexceeded : P M.exceeded)
    (hstep : ∀ c s e, M.step c s = .error e → P e) {n : Nat} {q : List C} {s : S} {e : E}
    (h : M.run n q s = .error e) : P e := by
  induction n generalizing q s with
  | zero =>
      cases q with
      | nil => cases h
      | cons c q => cases h; exact hexceeded
  | succ n ih =>
      cases q with
      | nil => cases h
      | cons c q =>
          simp only [run] at h
          cases hs : M.step c s with
          | error e' =>
              simp only [hs, Except.error.injEq] at h
              exact h ▸ hstep c s e' hs
          | ok p =>
              simp only [hs] at h
              exact ih h

end Machine

end ExecutionZone.CallTree
