import Mathlib.Data.Finset.Card
import Mathlib.Data.List.Forall2
import Mathlib.Data.List.Nodup

/-!
# Fallible computations

A computation fails in one of two ways: it reports an error to its caller, or it
panics.  `Fault` tells the two apart, so that "never panics" is a statement about
the result.  The remaining lemmas invert the combinators computations are written
with.
-/

universe u v w

namespace ExecutionZone

/-- A failed computation: a reported error, or a panic with its message. -/
inductive Fault (ε : Type u) where
  /-- An error reported to the caller. -/
  | err (e : ε)
  /-- A panic. -/
  | panic (msg : String)
deriving DecidableEq, Repr

/-- The failure with its error rewritten; a panic stays a panic. -/
def Fault.map {ε : Type u} {ε' : Type v} (f : ε → ε') : Fault ε → Fault ε'
  | .err e => .err (f e)
  | .panic msg => .panic msg

/-- A panic message, for computations that can only panic. -/
abbrev Panic := String

/-- Continue if the condition holds, fail otherwise. -/
def ensure {E : Type u} (p : Prop) [Decidable p] (e : E) : Except E Unit :=
  if p then .ok () else .error e

/-- The value of an option, failing if there is none. -/
def expect {E : Type u} {α : Type v} (x : Option α) (e : E) : Except E α :=
  match x with
  | some a => .ok a
  | none => .error e

section

variable {E E' : Type u} {α : Type v} {β : Type v}

@[simp] theorem expect_eq_ok {x : Option α} {e : E} {a : α} : expect x e = .ok a ↔ x = some a := by
  cases x <;> simp [expect]

@[simp] theorem ensure_eq_ok {p : Prop} [Decidable p] {e : E} {u : Unit} :
    ensure p e = .ok u ↔ p := by
  by_cases h : p <;> simp [ensure, h]

theorem ensure_of {p : Prop} [Decidable p] (e : E) (h : p) : ensure p e = .ok () := if_pos h

theorem ensure_of_not {p : Prop} [Decidable p] (e : E) (h : ¬p) : ensure p e = .error e :=
  if_neg h

theorem expect_eq_error {x : Option α} {e e' : E} :
    expect x e = .error e' ↔ x = none ∧ e = e' := by
  cases x <;> simp [expect]

theorem ensure_eq_error {p : Prop} [Decidable p] {e e' : E} :
    ensure p e = .error e' ↔ ¬p ∧ e = e' := by
  by_cases h : p <;> simp [ensure, h]

/-- A sequenced computation returns exactly when both stages do. -/
theorem bind_eq_ok {x : Except E α} {f : α → Except E β} {b : β} :
    (x >>= f) = .ok b ↔ ∃ a, x = .ok a ∧ f a = .ok b := by
  cases x <;> simp [bind, Except.bind]

/-- A sequenced computation fails with the failure of the stage that fails. -/
theorem bind_eq_error {x : Except E α} {f : α → Except E β} {e : E} :
    (x >>= f) = .error e ↔ x = .error e ∨ ∃ a, x = .ok a ∧ f a = .error e := by
  cases x <;> simp [bind, Except.bind]

/-- A loop returns exactly when every turn does. -/
theorem forM_eq_ok {f : α → Except E Unit} {l : List α} {u : Unit} :
    l.forM f = .ok u ↔ ∀ x ∈ l, f x = .ok () := by
  rw [List.forM_eq_forM]
  induction l with
  | nil => simp [pure, Except.pure]
  | cons x l ih =>
      simp only [List.forM_cons, bind_eq_ok, ih, List.forall_mem_cons]
      exact ⟨fun ⟨_, hx, hl⟩ => ⟨hx, hl⟩, fun ⟨hx, hl⟩ => ⟨(), hx, hl⟩⟩

/-- A loop fails with the failure of one of its turns. -/
theorem exists_of_forM_eq_error {f : α → Except E Unit} {l : List α} {e : E}
    (h : l.forM f = .error e) : ∃ x ∈ l, f x = .error e := by
  rw [List.forM_eq_forM] at h
  induction l with
  | nil => cases h
  | cons x l ih =>
      rw [List.forM_cons] at h
      rcases bind_eq_error.1 h with h | ⟨_, _, h⟩
      · exact ⟨x, List.mem_cons_self, h⟩
      · obtain ⟨y, hy, h⟩ := ih h
        exact ⟨y, List.mem_cons_of_mem _ hy, h⟩

/-- A loop that returns a value in each turn returns only if every turn does. -/
theorem forall₂_of_mapM {f : α → Except E β} {l : List α} {l' : List β} (h : l.mapM f = .ok l') :
    List.Forall₂ (fun a b => f a = .ok b) l l' := by
  induction l generalizing l' with
  | nil =>
      rw [List.mapM_nil] at h
      cases h
      exact .nil
  | cons a l ih =>
      rw [List.mapM_cons] at h
      simp only [bind_eq_ok, pure, Except.pure, Except.ok.injEq] at h
      obtain ⟨b, hb, rest, hrest, rfl⟩ := h
      exact .cons hb (ih hrest)

theorem mem_of_mapM {f : α → Except E β} {l : List α} {l' : List β} (h : l.mapM f = .ok l')
    {b : β} : b ∈ l' ↔ ∃ a ∈ l, f a = .ok b := by
  have hturns := forall₂_of_mapM h
  clear h
  induction hturns with
  | nil => simp
  | cons hturn _ ih =>
      rw [List.mem_cons, List.exists_mem_cons_iff, hturn, Except.ok.injEq, eq_comm]
      exact or_congr_right ih

theorem exists_of_mapM {f : α → Except E β} {l : List α} {l' : List β} (h : l.mapM f = .ok l')
    {a : α} (ha : a ∈ l) : ∃ b, f a = .ok b := by
  have hturns := forall₂_of_mapM h
  clear h
  induction hturns with
  | nil => cases ha
  | cons hturn _ ih =>
      rcases List.mem_cons.1 ha with rfl | ha
      · exact ⟨_, hturn⟩
      · exact ih ha

/-- A pure last step does not matter for whether a computation returns. -/
theorem exists_bind_pure_iff {x : Except E α} {f : α → β} :
    (∃ b, (x >>= fun a => pure (f a)) = .ok b) ↔ ∃ a, x = .ok a := by
  cases x <;> simp [bind, Except.bind, pure, Except.pure]

/-- Such a loop returns if every turn does. -/
theorem exists_mapM_iff {f : α → Except E β} {l : List α} :
    (∃ l', l.mapM f = .ok l') ↔ ∀ a ∈ l, ∃ b, f a = .ok b := by
  refine ⟨fun ⟨_, h⟩ a ha => exists_of_mapM h ha, fun h => ?_⟩
  induction l with
  | nil => exact ⟨[], List.mapM_nil⟩
  | cons a l ih =>
      obtain ⟨b, hb⟩ := h a List.mem_cons_self
      obtain ⟨l', hl'⟩ := ih fun a' ha' => h a' (List.mem_cons_of_mem _ ha')
      rw [List.mapM_cons, hb]
      exact ⟨b :: l', bind_eq_ok.2 ⟨b, rfl, bind_eq_ok.2 ⟨l', hl', rfl⟩⟩⟩

theorem mapError_eq_ok {f : E → E'} {x : Except E α} {a : α} :
    x.mapError f = .ok a ↔ x = .ok a := by
  cases x <;> simp [Except.mapError]

theorem mapError_eq_error {f : E → E'} {x : Except E α} {e : E'} :
    x.mapError f = .error e ↔ ∃ e', x = .error e' ∧ f e' = e := by
  cases x <;> simp [Except.mapError]

theorem exists_of_isOk {x : Except E α} (h : x.isOk = true) : ∃ a, x = .ok a := by
  cases x with
  | error e => cases h
  | ok a => exact ⟨a, rfl⟩

/-- The value of a computation, `d` if it fails. -/
def valueD (d : α) : Except E α → α
  | .ok a => a
  | .error _ => d

theorem eq_ok_valueD {x : Except E α} (d : α) (h : x.isOk = true) : x = .ok (valueD d x) := by
  obtain ⟨a, rfl⟩ := exists_of_isOk h
  rfl

end

/-! ## Computations whose failure does not matter

Two computations that fail with different errors are compared through what they return. -/

section

variable {E E' : Type u} {α β : Type v}

@[simp] theorem toOption_ok (a : α) : (Except.ok a : Except E α).toOption = some a := rfl

@[simp] theorem toOption_error (e : E) : (Except.error e : Except E α).toOption = none := rfl

theorem toOption_eq_some {x : Except E α} {a : α} : x.toOption = some a ↔ x = .ok a := by
  cases x <;> simp

theorem toOption_bind (x : Except E α) (f : α → Except E β) :
    (x >>= f).toOption = x.toOption.bind fun a => (f a).toOption := by
  cases x <;> rfl

@[simp] theorem toOption_mapError (f : E → E') (x : Except E α) :
    (x.mapError f).toOption = x.toOption := by
  cases x <;> rfl

@[simp] theorem toOption_ensure (p : Prop) [Decidable p] (e : E) :
    (ensure p e).toOption = if p then some () else none := by
  unfold ensure
  split
  · rfl
  · rfl

@[simp] theorem toOption_expect (x : Option α) (e : E) : (expect x e).toOption = x := by
  cases x <;> rfl

theorem toOption_foldlM (f : α → β → Except E α) (l : List β) (a : α) :
    (l.foldlM f a).toOption = l.foldlM (fun a b => (f a b).toOption) a := by
  induction l generalizing a with
  | nil => rfl
  | cons b l ih =>
      rw [List.foldlM_cons, List.foldlM_cons, toOption_bind]
      exact congrArg _ (funext ih)

/-- What can be done one after the other in one way can be done in the other. -/
theorem foldlM_eq_some_of_ok {f : α → β → Except E α} {g : α → β → Option α} {l : List β}
    {a a' : α} (hstep : ∀ a b a', f a b = .ok a' → g a b = some a') (h : l.foldlM f a = .ok a') :
    l.foldlM g a = some a' := by
  induction l generalizing a with
  | nil =>
      cases h
      rfl
  | cons b l ih =>
      rw [List.foldlM_cons] at h
      obtain ⟨a₁, hb, hl⟩ := bind_eq_ok.1 h
      rw [List.foldlM_cons, hstep a b a₁ hb]
      exact ih hl

end

/-! ## Computations with related results -/

/-- Both computations fail with the same error, or return related values. -/
inductive SameResult {E : Type u} {α : Type v} (R : α → α → Prop) :
    Except E α → Except E α → Prop
  | error (e : E) : SameResult R (.error e) (.error e)
  | ok {a b : α} (h : R a b) : SameResult R (.ok a) (.ok b)

namespace SameResult

variable {E E' : Type u} {α β : Type v} {γ : Type*} {R : α → α → Prop} {Q : β → β → Prop}

theorem bind {x y : Except E α} {f g : α → Except E β} (h : SameResult R x y)
    (hfg : ∀ a b, R a b → SameResult Q (f a) (g b)) : SameResult Q (x >>= f) (y >>= g) := by
  cases h with
  | error e => exact .error e
  | ok h => exact hfg _ _ h

theorem mapError {x y : Except E α} (h : SameResult R x y) (f : E → E') :
    SameResult R (x.mapError f) (y.mapError f) := by
  cases h with
  | error e => exact .error (f e)
  | ok h => exact .ok h

/-- One computation, followed by two that are related. -/
theorem bind_left (x : Except E α) {f g : α → Except E β}
    (hfg : ∀ a, SameResult Q (f a) (g a)) : SameResult Q (x >>= f) (x >>= g) := by
  cases x with
  | error e => exact .error e
  | ok a => exact hfg a

theorem foldlM {f g : α → γ → Except E α} (hfg : ∀ a b c, R a b → SameResult R (f a c) (g b c))
    {a b : α} (h : R a b) (l : List γ) : SameResult R (l.foldlM f a) (l.foldlM g b) := by
  induction l generalizing a b with
  | nil => exact .ok h
  | cons c l ih => exact (hfg a b c h).bind fun _ _ h' => ih h'

theorem exists_ok {x y : Except E α} (h : SameResult R x y) {a : α} (hx : x = .ok a) :
    ∃ b, y = .ok b ∧ R a b := by
  cases h with
  | error e => cases hx
  | ok h =>
      cases hx
      exact ⟨_, rfl, h⟩

end SameResult

/-! ## Computations that do not panic -/

/-- The computation returns or reports an error. -/
def NoPanic {ε : Type u} {α : Type v} (x : Except (Fault ε) α) : Prop :=
  ∀ msg, x ≠ .error (.panic msg)

section

variable {ε : Type u} {α β : Type v}

theorem noPanic_ok (a : α) : NoPanic (.ok a : Except (Fault ε) α) := fun _ h => by cases h

theorem noPanic_mapError_err (x : Except ε α) : NoPanic (x.mapError Fault.err) := by
  intro msg h
  cases x <;> cases h

theorem NoPanic.bind {x : Except (Fault ε) α} {f : α → Except (Fault ε) β} (hx : NoPanic x)
    (hf : ∀ a, x = .ok a → NoPanic (f a)) : NoPanic (x >>= f) := by
  intro msg h
  rcases bind_eq_error.1 h with h | ⟨a, ha, h⟩
  · exact hx msg h
  · exact hf a ha msg h

end

/-- A list has as many distinct elements as elements exactly when it has no
repetition: the uniqueness test by collecting into a set. -/
theorem toFinset_card_eq_length_iff {α : Type u} [DecidableEq α] {l : List α} :
    l.toFinset.card = l.length ↔ l.Nodup := by
  constructor
  · intro h
    rw [← List.dedup_eq_self]
    apply (List.dedup_sublist l).eq_of_length
    rw [← h, List.card_toFinset]
  · exact List.toFinset_card_of_nodup

end ExecutionZone
