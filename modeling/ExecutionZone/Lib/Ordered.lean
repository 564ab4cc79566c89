import ExecutionZone.Lib.Ledger
import Mathlib.Data.List.Lex
import Mathlib.Data.List.Sort
import Mathlib.Data.Option.Basic

/-!
# Finite maps in the order of their keys

A `BTreeMap` is iterated in ascending order of its keys.  The derived order of a structure or an
enumeration compares its variant and then its fields, which in the end are numbers and lists of
numbers, so a key can be compared by a list of lists of numbers (`OrderedKey`).

What an iteration sees is a function of the lookups (`ascending_congr`).  Where the values of two
maps are only related, so are the entries at the same places (`Matching.ascending`).
-/

universe u v w

namespace ExecutionZone

/-- Keys that are compared by lists of numbers. -/
class OrderedKey (κ : Type u) where
  rank : κ → List (List Nat)
  rank_injective : Function.Injective rank

/-! ## Lists with related elements -/

section

variable {α : Type u} {β : Type v} {γ : Type w} {R : α → β → Prop} {l : List α} {l' : List β}

theorem flatMap_eq_of_forall₂ (h : List.Forall₂ R l l') {f : α → List γ} {g : β → List γ}
    (hfg : ∀ a b, R a b → f a = g b) : l.flatMap f = l'.flatMap g := by
  induction h with
  | nil => rfl
  | cons hab _ ih => rw [List.flatMap_cons, List.flatMap_cons, hfg _ _ hab, ih]

theorem rel_find?_of_forall₂ (h : List.Forall₂ R l l') {p : α → Bool} {q : β → Bool}
    (hpq : ∀ a b, R a b → p a = q b) : Option.Rel R (l.find? p) (l'.find? q) := by
  induction h with
  | nil => exact .none
  | @cons a b l l' hab _ ih =>
      rw [List.find?_cons, List.find?_cons, hpq a b hab]
      cases q b with
      | true => exact .some hab
      | false => exact ih

theorem rel_findSome?_of_forall₂ {δ : Type*} {S : γ → δ → Prop} (h : List.Forall₂ R l l')
    {f : α → Option γ} {g : β → Option δ} (hfg : ∀ a b, R a b → Option.Rel S (f a) (g b)) :
    Option.Rel S (l.findSome? f) (l'.findSome? g) := by
  induction h with
  | nil => exact .none
  | @cons a b l l' hab _ ih =>
      rw [List.findSome?_cons, List.findSome?_cons]
      have hhead := hfg a b hab
      generalize f a = x at hhead
      generalize g b = y at hhead
      cases hhead with
      | some hxy => exact .some hxy
      | none => exact ih

end

namespace Ledger

/-! ## Ascending order -/

section

variable {κ : Type u} [OrderedKey κ] {β : Type v} {γ : Type w} {m : Map κ β} {m' : Map κ γ}

/-- The keys of a map in ascending order. -/
def sortedKeys (m : Map κ β) : List κ :=
  m.keys.insertionSort fun a b => OrderedKey.rank a ≤ OrderedKey.rank b

theorem mem_sortedKeys {k : κ} : k ∈ sortedKeys m ↔ k ∈ m :=
  (List.perm_insertionSort _ _).mem_iff.trans AList.mem_keys.symm

theorem nodup_sortedKeys : (sortedKeys m).Nodup :=
  (List.perm_insertionSort _ _).nodup_iff.2 m.nodupKeys

/-- The order of the keys does not depend on how the map was built. -/
theorem sortedKeys_congr (h : ∀ k, k ∈ m' ↔ k ∈ m) : sortedKeys m' = sortedKeys m := by
  let le : κ → κ → Prop := fun a b => OrderedKey.rank a ≤ OrderedKey.rank b
  have : Std.Total le := ⟨fun a b => le_total _ _⟩
  have : IsTrans κ le := ⟨fun a b c => le_trans⟩
  have hperm : (sortedKeys m').Perm (sortedKeys m) := by
    rw [List.perm_ext_iff_of_nodup nodup_sortedKeys nodup_sortedKeys]
    exact fun k => mem_sortedKeys.trans ((h k).trans mem_sortedKeys.symm)
  exact hperm.eq_of_pairwise
    (fun a b _ _ hab hba => OrderedKey.rank_injective (le_antisymm hab hba))
    (List.pairwise_insertionSort le _) (List.pairwise_insertionSort le _)

variable [DecidableEq κ]

/-- The entries of a map in ascending order of the keys. -/
def ascending (m : Map κ β) : List (κ × β) :=
  (sortedKeys m).filterMap fun k => (m.lookup k).map fun v => (k, v)

theorem mem_ascending {k : κ} {v : β} : (k, v) ∈ ascending m ↔ m.lookup k = some v := by
  simp only [ascending, List.mem_filterMap, Option.map_eq_some_iff, Prod.mk.injEq]
  constructor
  · rintro ⟨k, _, v, hv, rfl, rfl⟩
    exact hv
  · intro hv
    refine ⟨k, mem_sortedKeys.2 (AList.lookup_isSome.1 ?_), v, hv, rfl, rfl⟩
    rw [hv, Option.isSome_some]

theorem map_fst_ascending : (ascending m).map Prod.fst = sortedKeys m := by
  rw [ascending, List.map_filterMap]
  refine (List.filterMap_congr fun k hk => ?_).trans List.filterMap_some
  obtain ⟨v, hv⟩ := Option.isSome_iff_exists.1 (AList.lookup_isSome.2 (mem_sortedKeys.1 hk))
  rw [hv]
  rfl

theorem ascending_congr {m m' : Map κ β} (h : SameEntries m m') : ascending m' = ascending m := by
  rw [ascending, ascending, sortedKeys_congr fun k => h.mem_iff]
  exact List.filterMap_congr fun k _ => by rw [h k]

/-- A map has the same entries if they are inserted in ascending order. -/
theorem sameEntries_insertAll_ascending (m : Map κ β) :
    SameEntries m (insertAll ∅ (ascending m)) := by
  refine lookup_insertAll_eq (fun p hp => mem_ascending.1 hp) fun k hk => ?_
  rw [map_fst_ascending, mem_sortedKeys] at hk
  rw [AList.lookup_empty, AList.lookup_eq_none.2 hk]

end

/-! ## Maps with related values -/

section

variable {κ : Type u} [DecidableEq κ] {β : Type v} {γ : Type w}

/-- The same keys, with related values. -/
def Matching (R : β → γ → Prop) (m : Map κ β) (m' : Map κ γ) : Prop :=
  ∀ k, Option.Rel R (m.lookup k) (m'.lookup k)

namespace Matching

variable {R : β → γ → Prop} {m : Map κ β} {m' : Map κ γ}

theorem mem_iff (h : Matching R m m') {k : κ} : k ∈ m' ↔ k ∈ m := by
  rw [← AList.lookup_isSome, ← AList.lookup_isSome]
  have hk := h k
  generalize m.lookup k = x at hk ⊢
  generalize m'.lookup k = y at hk ⊢
  cases hk <;> rfl

theorem of_map {f : β → γ} (h : ∀ k, m'.lookup k = (m.lookup k).map f) (hf : ∀ v, R v (f v)) :
    Matching R m m' := by
  intro k
  rw [h k]
  cases m.lookup k with
  | some v => exact .some (hf v)
  | none => exact .none

theorem insert (h : Matching R m m') (k : κ) {v : β} {v' : γ} (hv : R v v') :
    Matching R (m.insert k v) (m'.insert k v') := by
  intro k'
  by_cases hk : k' = k
  · rw [hk, AList.lookup_insert, AList.lookup_insert]
    exact .some hv
  · rw [AList.lookup_insert_ne hk, AList.lookup_insert_ne hk]
    exact h k'

/-- The entries at the same places have the same keys and related values. -/
theorem ascending [OrderedKey κ] (h : Matching R m m') :
    List.Forall₂ (fun p q => p.1 = q.1 ∧ R p.2 q.2) (Ledger.ascending m)
      (Ledger.ascending m') := by
  rw [Ledger.ascending, Ledger.ascending, sortedKeys_congr fun k => h.mem_iff]
  generalize sortedKeys m = keys
  induction keys with
  | nil => exact .nil
  | cons k keys ih =>
      rw [List.filterMap_cons, List.filterMap_cons]
      have hk := h k
      generalize m.lookup k = x at hk
      generalize m'.lookup k = y at hk
      cases hk with
      | some hR => exact .cons ⟨rfl, hR⟩ ih
      | none => exact ih

end Matching

end

end Ledger

end ExecutionZone
