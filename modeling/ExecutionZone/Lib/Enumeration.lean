import Mathlib.Algebra.GroupWithZero.Nat
import Mathlib.Data.List.Perm.Basic
import Mathlib.Data.Nat.Factorial.Basic
import Mathlib.Logic.Relation

/-!
# Enumerations

Ways of listing things, in the order in which loops do it: a list without the repetitions of
what came before, the permutations of a list by their positions, and what a search with a stack
finds.

The search does not remember where it was.  It ends if the elements can be weighed such that
each weighs more than its successors together (`exists_search`), and what it has found then is
what can be reached (`mem_search`).
-/

universe u

namespace ExecutionZone.Enumeration

variable {α : Type u}

/-! ## Without repetitions -/

theorem nodup_eraseDups [BEq α] [LawfulBEq α] (l : List α) : l.eraseDups.Nodup := by
  -- the rest is filtered before its repetitions are erased, so the induction is on the length
  induction hn : l.length using Nat.strong_induction_on generalizing l with
  | _ n ih =>
      cases l with
      | nil => exact List.nodup_nil
      | cons a l =>
          have hlt : (l.filter fun b => !b == a).length < n := by
            rw [← hn, List.length_cons]
            exact Nat.lt_succ_of_le (List.length_filter_le _ _)
          rw [List.eraseDups_cons, List.nodup_cons]
          refine ⟨?_, ih _ hlt _ rfl⟩
          simp [List.mem_eraseDups]

theorem length_eraseDups_le [BEq α] [LawfulBEq α] (l : List α) :
    l.eraseDups.length ≤ l.length :=
  (List.subperm_of_subset (nodup_eraseDups l) fun _ => List.mem_eraseDups.1).length_le

/-! ## Initial segments -/

/-- A list of numbers without repetitions, and with each number the one before, holds the
numbers below its length. -/
theorem mem_iff_lt_length {l : List Nat} (hnodup : l.Nodup) (hdown : ∀ n, n + 1 ∈ l → n ∈ l)
    (n : Nat) : n ∈ l ↔ n < l.length := by
  have hle : ∀ m ∈ l, ∀ k ≤ m, k ∈ l := by
    intro m hm k hk
    induction hk using Nat.decreasingInduction with
    | self => exact hm
    | of_succ k _ ih => exact hdown k ih
  constructor
  · intro hn
    have hsub : List.range (n + 1) ⊆ l := fun k hk =>
      hle n hn k (Nat.le_of_lt_succ (List.mem_range.1 hk))
    have hlen := (List.subperm_of_subset List.nodup_range hsub).length_le
    rwa [List.length_range] at hlen
  · intro hn
    by_contra hnot
    have hsub : l ⊆ List.range n := by
      intro k hk
      rw [List.mem_range]
      by_contra hge
      exact hnot (hle k hk n (Nat.le_of_not_lt hge))
    have hlen := (List.subperm_of_subset hnodup hsub).length_le
    rw [List.length_range] at hlen
    exact absurd hn (Nat.not_lt.2 hlen)

/-! ## Permutations -/

/-- An element of the list, and the list without it. -/
def picks : List α → List (α × List α)
  | [] => []
  | a :: l => (a, l) :: (picks l).map fun p => (p.1, a :: p.2)

/-- The ways to choose `n` elements one after the other, in the order of their positions. -/
def arrangements : Nat → List α → List (List α)
  | 0, _ => [[]]
  | n + 1, l => (picks l).flatMap fun p => (arrangements n p.2).map (p.1 :: ·)

/-- The permutations of the list, in the order of the positions. -/
def permutations (l : List α) : List (List α) := arrangements l.length l

theorem length_picks (l : List α) : (picks l).length = l.length := by
  induction l with
  | nil => rfl
  | cons a l ih => rw [picks, List.length_cons, List.length_map, ih, List.length_cons]

theorem perm_of_mem_picks {l : List α} {p : α × List α} (h : p ∈ picks l) :
    l.Perm (p.1 :: p.2) := by
  induction l generalizing p with
  | nil => cases h
  | cons a l ih =>
      rcases List.mem_cons.1 h with rfl | h
      · exact .refl _
      · obtain ⟨q, hq, rfl⟩ := List.mem_map.1 h
        exact ((ih hq).cons a).trans (.swap _ _ _)

theorem exists_mem_picks {l : List α} {a : α} (h : a ∈ l) : ∃ rest, (a, rest) ∈ picks l := by
  induction l with
  | nil => cases h
  | cons b l ih =>
      rcases List.mem_cons.1 h with rfl | h
      · exact ⟨l, List.mem_cons_self⟩
      · obtain ⟨rest, hrest⟩ := ih h
        exact ⟨b :: rest, List.mem_cons_of_mem _ (List.mem_map.2 ⟨_, hrest, rfl⟩)⟩

theorem mem_permutations {l l' : List α} : l' ∈ permutations l ↔ l'.Perm l := by
  suffices h : ∀ n (l l' : List α), l.length = n → (l' ∈ arrangements n l ↔ l'.Perm l) from
    h _ l l' rfl
  intro n
  induction n with
  | zero =>
      intro l l' hl
      rw [List.length_eq_zero_iff.1 hl, List.perm_nil]
      exact List.mem_singleton
  | succ n ih =>
      intro l l' hl
      have hrest : ∀ p ∈ picks l, p.2.length = n := by
        intro p hp
        have hlen := (perm_of_mem_picks hp).length_eq
        rw [hl, List.length_cons] at hlen
        exact (Nat.succ.inj hlen).symm
      simp only [arrangements, List.mem_flatMap, List.mem_map]
      constructor
      · rintro ⟨p, hp, tail, htail, rfl⟩
        exact (((ih _ _ (hrest p hp)).1 htail).cons _).trans (perm_of_mem_picks hp).symm
      · intro hperm
        cases l' with
        | nil =>
            rw [← hperm.length_eq] at hl
            cases hl
        | cons a tail =>
            obtain ⟨rest, hmem⟩ := exists_mem_picks (hperm.mem_iff.1 List.mem_cons_self)
            have htail : tail.Perm rest := (hperm.trans (perm_of_mem_picks hmem)).cons_inv
            exact ⟨(a, rest), hmem, tail, (ih _ _ (hrest _ hmem)).2 htail, rfl⟩

theorem length_permutations (l : List α) : (permutations l).length = l.length.factorial := by
  suffices h : ∀ n (l : List α), l.length = n → (arrangements n l).length = n.factorial from
    h _ l rfl
  intro n
  induction n with
  | zero => exact fun _ _ => rfl
  | succ n ih =>
      intro l hl
      have hall : ∀ p ∈ picks l, ((arrangements n p.2).map (p.1 :: ·)).length = n.factorial := by
        intro p hp
        have hlen := (perm_of_mem_picks hp).length_eq
        rw [hl, List.length_cons] at hlen
        rw [List.length_map, ih _ (Nat.succ.inj hlen).symm]
      rw [arrangements, List.length_flatMap, List.map_congr_left hall, List.map_const',
        List.sum_replicate_nat, length_picks, hl, Nat.factorial_succ]

/-! ## Searching with a stack -/

variable (children : α → List α)

/-- The element on top of the stack is taken off, and its children are put on the stack one
after the other and added to what was found.  `none` if the turns do not suffice. -/
def search : Nat → List α → List α → Option (List α)
  | _, [], found => some found
  | 0, _ :: _, _ => none
  | turns + 1, top :: stack, found =>
      search turns ((children top).reverse ++ stack) (found ++ children top)

variable {children} {turns : Nat} {stack found result : List α}

/-- **Termination.**  As many turns as the stack weighs are enough. -/
theorem exists_search {weight : α → Nat}
    (hweight : ∀ a, ((children a).map weight).sum < weight a)
    (h : (stack.map weight).sum ≤ turns) :
    ∃ result, search children turns stack found = some result := by
  induction turns generalizing stack found with
  | zero =>
      cases stack with
      | nil => exact ⟨found, rfl⟩
      | cons a stack =>
          have ha := hweight a
          rw [List.map_cons, List.sum_cons] at h
          omega
  | succ turns ih =>
      cases stack with
      | nil => exact ⟨found, rfl⟩
      | cons a stack =>
          refine ih ?_
          have ha := hweight a
          rw [List.map_cons, List.sum_cons] at h
          rw [List.map_append, List.sum_append, List.map_reverse, List.sum_reverse]
          omega

/-- Further turns change nothing. -/
theorem search_of_le {turns' : Nat} (h : search children turns stack found = some result)
    (hle : turns ≤ turns') : search children turns' stack found = some result := by
  induction turns generalizing turns' stack found with
  | zero =>
      cases stack with
      | nil =>
          cases turns' with
          | zero => exact h
          | succ turns' => exact h
      | cons a stack => cases h
  | succ turns ih =>
      obtain ⟨turns', rfl⟩ := Nat.exists_eq_succ_of_ne_zero (Nat.ne_zero_of_lt hle)
      cases stack with
      | nil => exact h
      | cons a stack =>
          rw [search] at h ⊢
          exact ih h (Nat.le_of_succ_le_succ hle)

/-- An invariant of the children holds for what is found. -/
theorem forall_mem_search {P : α → Prop} (hstep : ∀ a, P a → ∀ b ∈ children a, P b)
    (h : search children turns stack found = some result) (hstack : ∀ a ∈ stack, P a)
    (hfound : ∀ a ∈ found, P a) : ∀ a ∈ result, P a := by
  induction turns generalizing stack found with
  | zero =>
      cases stack with
      | nil =>
          cases h
          exact hfound
      | cons a stack => cases h
  | succ turns ih =>
      cases stack with
      | nil =>
          cases h
          exact hfound
      | cons a stack =>
          have hchildren := hstep a (hstack a List.mem_cons_self)
          refine ih h ?_ ?_
          · intro b hb
            rcases List.mem_append.1 hb with hb | hb
            · exact hchildren b (List.mem_reverse.1 hb)
            · exact hstack b (List.mem_cons_of_mem _ hb)
          · intro b hb
            rcases List.mem_append.1 hb with hb | hb
            · exact hfound b hb
            · exact hchildren b hb

/-- What is found is kept, and closed under children where nothing is left on the stack. -/
theorem closed_of_search (h : search children turns stack found = some result)
    (hclosed : ∀ a ∈ found, a ∈ stack ∨ ∀ b ∈ children a, b ∈ found) :
    (∀ a ∈ found, a ∈ result) ∧ ∀ a ∈ result, ∀ b ∈ children a, b ∈ result := by
  induction turns generalizing stack found with
  | zero =>
      cases stack with
      | nil =>
          cases h
          exact ⟨fun _ ha => ha, fun a ha => (hclosed a ha).resolve_left List.not_mem_nil⟩
      | cons a stack => cases h
  | succ turns ih =>
      cases stack with
      | nil =>
          cases h
          exact ⟨fun _ ha => ha, fun a ha => (hclosed a ha).resolve_left List.not_mem_nil⟩
      | cons top stack =>
          obtain ⟨hkept, hresult⟩ := ih h fun a ha => by
            rcases List.mem_append.1 ha with ha | ha
            · rcases hclosed a ha with hstack | hchildren
              · rcases List.mem_cons.1 hstack with rfl | hstack
                · exact .inr fun b hb => List.mem_append_right _ hb
                · exact .inl (List.mem_append_right _ hstack)
              · exact .inr fun b hb => List.mem_append_left _ (hchildren b hb)
            · exact .inl (List.mem_append_left _ (List.mem_reverse.2 ha))
          exact ⟨fun a ha => hkept a (List.mem_append_left _ ha), hresult⟩

/-- **What is found.**  The element the search starts with, and what can be reached from it. -/
theorem mem_search {a b : α} (h : search children turns [a] [a] = some result) :
    b ∈ result ↔ Relation.ReflTransGen (fun a b => b ∈ children a) a b := by
  constructor
  · refine fun hb => forall_mem_search (P := Relation.ReflTransGen (fun a b => b ∈ children a) a)
      (fun a ha b hb => ha.tail hb) h ?_ ?_ b hb
    · rintro b ⟨⟩
      · exact .refl
      · contradiction
    · rintro b ⟨⟩
      · exact .refl
      · contradiction
  · intro hreach
    obtain ⟨hkept, hclosed⟩ := closed_of_search h fun b hb => .inl hb
    induction hreach with
    | refl => exact hkept a (List.mem_singleton_self a)
    | tail _ hb ih => exact hclosed _ ih _ hb

end ExecutionZone.Enumeration
