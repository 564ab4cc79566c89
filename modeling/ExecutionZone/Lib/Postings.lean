import ExecutionZone.Lib.Ledger

/-!
# Lists stored in finite maps

A key-value store has no lists, so an index from keys to growing lists is kept in two maps:
the length of each list, and its elements by key and position.  Elements are appended for
several keys at once, from a map that groups the new elements by key (`group`), and read
from a position on until the first missing one (`found`).  `Stores.append` says that the two
maps then store the longer lists.
-/

universe u v w

namespace ExecutionZone

namespace Ledger

variable {κ : Type u} [DecidableEq κ] {β : Type v} {m : Map κ β}

/-- A key that is written with one value only has this value. -/
theorem lookup_insertAll_of_unique {l : List (κ × β)} {k : κ} {v : β} (hmem : (k, v) ∈ l)
    (hunique : ∀ v', (k, v') ∈ l → v' = v) : (insertAll m l).lookup k = some v := by
  induction l generalizing m with
  | nil => cases hmem
  | cons p l ih =>
      have hrest : ∀ v', (k, v') ∈ l → v' = v := fun v' hv' =>
        hunique v' (List.mem_cons_of_mem _ hv')
      by_cases hl : k ∈ l.map Prod.fst
      · obtain ⟨⟨k', v'⟩, hv', rfl⟩ := List.mem_map.1 hl
        exact ih (hrest v' hv' ▸ hv') hrest
      · rw [insertAll, lookup_insertAll_of_notMem hl]
        rcases List.mem_cons.1 hmem with rfl | hmem
        · exact AList.lookup_insert _
        · exact absurd (List.mem_map_of_mem hmem) hl

end Ledger

namespace Postings

open Ledger

variable {κ : Type u} [DecidableEq κ] {β : Type v}

/-- Read until the first missing one. -/
def found {ι : Type w} (f : ι → Option β) : List ι → List β
  | [] => []
  | i :: is =>
      match f i with
      | some b => b :: found f is
      | none => []

/-- Positions are read from a list. -/
theorem found_range' {f : Nat → Option β} {l : List β} (h : ∀ i, f i = l[i]?) (k m : Nat) :
    found f (List.range' k m) = (l.drop k).take m := by
  induction m generalizing k with
  | zero => rfl
  | succ m ih =>
      rw [List.range'_succ, found, h]
      rcases hk : l[k]? with _ | b
      · rw [List.getElem?_eq_none_iff] at hk
        rw [List.drop_eq_nil_of_le hk]
        rfl
      · obtain ⟨hlt, rfl⟩ := List.getElem?_eq_some_iff.1 hk
        rw [List.drop_eq_getElem_cons hlt, List.take_succ_cons, ih (k + 1)]

/-! ## Grouping -/

section

variable {α : Type w} (keys : α → List κ) (value : α → β)

/-- Append a value to the lists of some keys. -/
def addTo (m : Map κ (List β)) (ks : List κ) (b : β) : Map κ (List β) :=
  ks.foldl (fun m k => m.insert k ((m.lookup k).getD [] ++ [b])) m

/-- The values of the items, by the keys of the items. -/
def group (items : List α) : Map κ (List β) :=
  items.foldl (fun m a => addTo m (keys a) (value a)) ∅

theorem get_addTo (m : Map κ (List β)) {ks : List κ} (hks : ks.Nodup) (b : β) (k : κ) :
    get [] (addTo m ks b) k = get [] m k ++ if k ∈ ks then [b] else [] := by
  induction ks generalizing m with
  | nil => exact (List.append_nil _).symm
  | cons k' ks ih =>
      obtain ⟨hk', hks⟩ := List.nodup_cons.1 hks
      rw [addTo, List.foldl_cons]
      refine (ih _ hks).trans ?_
      by_cases hk : k = k'
      · subst hk
        rw [get_insert_self, if_neg hk', List.append_nil, if_pos List.mem_cons_self]
        rfl
      · rw [get_insert_of_ne _ hk]
        simp only [List.mem_cons, hk, false_or]

/-- The list of a key has the values of the items that have the key, in order. -/
theorem get_group (hkeys : ∀ a, (keys a).Nodup) (items : List α) (k : κ) :
    get [] (group keys value items) k = (items.filter fun a => k ∈ keys a).map value := by
  have hfold : ∀ (items : List α) (m : Map κ (List β)),
      get [] (items.foldl (fun m a => addTo m (keys a) (value a)) m) k =
        get [] m k ++ (items.filter fun a => k ∈ keys a).map value := by
    intro items
    induction items with
    | nil => exact fun m => (List.append_nil _).symm
    | cons a items ih =>
        intro m
        rw [List.foldl_cons, ih, get_addTo m (hkeys a), List.append_assoc]
        by_cases hk : k ∈ keys a
        · simp only [hk, if_true, decide_true, List.filter_cons_of_pos, List.map_cons,
            List.singleton_append]
        · simp only [hk, if_false, decide_false, Bool.false_eq_true, not_false_eq_true,
            List.filter_cons_of_neg, List.nil_append]
  rw [group, hfold, get_empty, List.nil_append]

end

/-! ## Storing -/

/-- The lengths are in the first map, the elements in the second. -/
structure Stores (lists : κ → List β) (num : Map κ Nat) (item : Map (κ × Nat) β) : Prop where
  num : ∀ k, (num.lookup k).getD 0 = (lists k).length
  item : ∀ k i, item.lookup (k, i) = (lists k)[i]?

theorem stores_empty : Stores (fun _ : κ => ([] : List β)) ∅ ∅ := ⟨fun _ => rfl, fun _ _ => rfl⟩

/-- The lengths after new elements. -/
def appendNum (num : Map κ Nat) (news : List (κ × List β)) : Map κ Nat :=
  insertAll num (news.map fun p => (p.1, (num.lookup p.1).getD 0 + p.2.length))

/-- The elements after new ones, which follow those that are there. -/
def appendItem (num : Map κ Nat) (item : Map (κ × Nat) β) (news : List (κ × List β)) :
    Map (κ × Nat) β :=
  insertAll item (news.flatMap fun p =>
    p.2.zipIdx.map fun q => ((p.1, (num.lookup p.1).getD 0 + q.2), q.1))

variable {lists : κ → List β} {num : Map κ Nat} {item : Map (κ × Nat) β}

/-- What is written at a position of a key. -/
theorem mem_appendItem {news : Map κ (List β)} {k : κ} {i : Nat} {b : β} :
    ((k, i), b) ∈ ((pairs news).flatMap fun p =>
      p.2.zipIdx.map fun q => ((p.1, (num.lookup p.1).getD 0 + q.2), q.1)) ↔
    ∃ j, (get [] news k)[j]? = some b ∧ (num.lookup k).getD 0 + j = i := by
  simp only [List.mem_flatMap, List.mem_map, Prod.mk.injEq]
  constructor
  · rintro ⟨⟨k', l⟩, hl, ⟨b', j⟩, hj, ⟨rfl, hi⟩, rfl⟩
    refine ⟨j, ?_, hi⟩
    rw [Ledger.get, mem_pairs.1 hl]
    exact List.mem_zipIdx_iff_getElem?.1 hj
  · rintro ⟨j, hj, hi⟩
    rcases hl : news.lookup k with _ | l
    · rw [Ledger.get, hl] at hj
      cases hj
    · rw [Ledger.get, hl] at hj
      exact ⟨(k, l), mem_pairs.2 hl, (b, j), List.mem_zipIdx_iff_getElem?.2 hj, ⟨rfl, hi⟩, rfl⟩

/-- **Appending.** -/
theorem Stores.append (h : Stores lists num item) (news : Map κ (List β)) :
    Stores (fun k => lists k ++ get [] news k) (appendNum num (pairs news))
      (appendItem num item (pairs news)) := by
  constructor
  · intro k
    rw [List.length_append, ← h.num k]
    have hkeys : ((pairs news).map fun p => (p.1, (num.lookup p.1).getD 0 + p.2.length)).map
        Prod.fst = (pairs news).map Prod.fst := by
      rw [List.map_map]
      rfl
    rcases hl : news.lookup k with _ | l
    · have hnotMem : k ∉ (pairs news).map Prod.fst := by
        intro hmem
        obtain ⟨⟨k', l⟩, hp, rfl⟩ := List.mem_map.1 hmem
        rw [mem_pairs.1 hp] at hl
        cases hl
      rw [appendNum, lookup_insertAll_of_notMem (hkeys.symm ▸ hnotMem), Ledger.get, hl]
      rfl
    · have hmem : (k, (num.lookup k).getD 0 + l.length) ∈ (pairs news).map fun p =>
          (p.1, (num.lookup p.1).getD 0 + p.2.length) :=
        List.mem_map.2 ⟨(k, l), mem_pairs.2 hl, rfl⟩
      rw [appendNum, lookup_insertAll_of_mem (hkeys.symm ▸ nodup_keys_pairs) hmem, Ledger.get, hl]
      rfl
  · intro k i
    have hnum := h.num k
    by_cases hlt : i < (lists k).length
    · -- the new elements are behind the position
      rw [List.getElem?_append_left hlt, ← h.item k i]
      refine lookup_insertAll_of_notMem fun hmem => ?_
      obtain ⟨⟨_, b⟩, hb, rfl⟩ := List.mem_map.1 hmem
      obtain ⟨j, _, hj⟩ := mem_appendItem.1 hb
      omega
    · rw [List.getElem?_append_right (Nat.le_of_not_lt hlt)]
      rcases hb : (get [] news k)[i - (lists k).length]? with _ | b
      · have hnone : item.lookup (k, i) = none := by
          rw [h.item, List.getElem?_eq_none (Nat.le_of_not_lt hlt)]
        rw [← hnone]
        refine lookup_insertAll_of_notMem fun hmem => ?_
        obtain ⟨⟨_, b⟩, hb', rfl⟩ := List.mem_map.1 hmem
        obtain ⟨j, hj, hi⟩ := mem_appendItem.1 hb'
        rw [show j = i - (lists k).length by omega, hb] at hj
        cases hj
      · refine lookup_insertAll_of_unique (mem_appendItem.2 ⟨_, hb, by omega⟩) fun b' hb' => ?_
        obtain ⟨j, hj, hi⟩ := mem_appendItem.1 hb'
        rw [show j = i - (lists k).length by omega, hb] at hj
        exact (Option.some.inj hj).symm

end Postings

end ExecutionZone
