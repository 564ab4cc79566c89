import Mathlib.Algebra.BigOperators.Group.Finset.Basic
import Mathlib.Algebra.BigOperators.Group.List.Basic
import Mathlib.Algebra.GroupWithZero.Nat
import Mathlib.Data.List.AList

/-!
# Finite maps with a default value

A ledger is a finite map from keys to values in which a missing key stands for a
default value.  `get` reads it as a total function, `insertAll` writes a list of
entries, `overlay` reads a pending diff over a ledger.  `total` adds up a measure that
is zero on the default value; it depends only on what `get` returns, and writing
entries for distinct keys changes it by what is written minus what is replaced.
-/

universe u v

namespace ExecutionZone.Ledger

variable {κ : Type u} [DecidableEq κ] {β : Type v}

/-- A finite map. -/
abbrev Map (κ : Type u) (β : Type v) := AList fun _ : κ => β

/-- The value at a key, `d` if there is none. -/
def get (d : β) (m : Map κ β) (k : κ) : β := (m.lookup k).getD d

/-- Write a list of entries, in order. -/
def insertAll (m : Map κ β) : List (κ × β) → Map κ β
  | [] => m
  | (k, v) :: l => insertAll (m.insert k v) l

/-- Remove a list of keys. -/
def eraseAll (m : Map κ β) (ks : List κ) : Map κ β := ks.foldl (fun m k => m.erase k) m

/-- The value of a key in a diff over a ledger. -/
def overlay (d : β) (m diff : Map κ β) (k : κ) : β := (diff.lookup k).getD (get d m k)

section

variable {d : β} {m : Map κ β}

@[simp] theorem get_empty (k : κ) : get d (∅ : Map κ β) k = d := by simp [get]

@[simp] theorem get_insert_self (k : κ) (v : β) : get d (m.insert k v) k = v := by simp [get]

theorem get_insert_of_ne {k k' : κ} (v : β) (h : k' ≠ k) :
    get d (m.insert k v) k' = get d m k' := by
  simp [get, AList.lookup_insert_ne h]

theorem lookup_insertAll_of_notMem {l : List (κ × β)} {k : κ} (h : k ∉ l.map Prod.fst) :
    (insertAll m l).lookup k = m.lookup k := by
  induction l generalizing m with
  | nil => rfl
  | cons p l ih =>
      simp only [List.map_cons, List.mem_cons, not_or] at h
      rw [insertAll, ih h.2, AList.lookup_insert_ne h.1]

theorem lookup_insertAll_of_mem {l : List (κ × β)} (hl : (l.map Prod.fst).Nodup) {k : κ} {v : β}
    (h : (k, v) ∈ l) : (insertAll m l).lookup k = some v := by
  induction l generalizing m with
  | nil => simp at h
  | cons p l ih =>
      simp only [List.map_cons, List.nodup_cons] at hl
      rcases List.mem_cons.1 h with rfl | h
      · rw [insertAll, lookup_insertAll_of_notMem hl.1, AList.lookup_insert]
      · exact ih hl.2 h

theorem lookup_eraseAll_of_notMem {ks : List κ} {k : κ} (h : k ∉ ks) :
    (eraseAll m ks).lookup k = m.lookup k := by
  induction ks generalizing m with
  | nil => rfl
  | cons k' ks ih =>
      rw [List.mem_cons, not_or] at h
      exact (ih h.2).trans (AList.lookup_erase_ne h.1)

theorem lookup_eraseAll_of_mem {ks : List κ} {k : κ} (h : k ∈ ks) :
    (eraseAll m ks).lookup k = none := by
  induction ks generalizing m with
  | nil => cases h
  | cons k' ks ih =>
      by_cases hmem : k ∈ ks
      · exact ih hmem
      · rcases List.mem_cons.1 h with rfl | hmem'
        · exact (lookup_eraseAll_of_notMem hmem).trans (AList.lookup_erase _ _)
        · exact absurd hmem' hmem

/-- What a map holds was in it before or was written. -/
theorem mem_or_lookup_of_insertAll {l : List (κ × β)} {k : κ} {v : β}
    (h : (insertAll m l).lookup k = some v) : (k, v) ∈ l ∨ m.lookup k = some v := by
  induction l generalizing m with
  | nil => exact .inr h
  | cons p l ih =>
      rcases ih h with hmem | hlookup
      · exact .inl (List.mem_cons_of_mem _ hmem)
      · by_cases hk : k = p.1
        · subst hk
          rw [AList.lookup_insert] at hlookup
          rw [← Option.some.inj hlookup]
          exact .inl List.mem_cons_self
        · rw [AList.lookup_insert_ne hk] at hlookup
          exact .inr hlookup

theorem insertAll_append (l l' : List (κ × β)) :
    insertAll m (l ++ l') = insertAll (insertAll m l) l' := by
  induction l generalizing m with
  | nil => rfl
  | cons p l ih => exact ih

/-- A key that is written has one of the values written for it. -/
theorem exists_lookup_insertAll {l : List (κ × β)} {k : κ} (h : k ∈ l.map Prod.fst) :
    ∃ v, (insertAll m l).lookup k = some v ∧ (k, v) ∈ l := by
  induction l generalizing m with
  | nil => cases h
  | cons p l ih =>
      by_cases hmem : k ∈ l.map Prod.fst
      · obtain ⟨v, hv, hp⟩ := ih hmem
        exact ⟨v, hv, List.mem_cons_of_mem _ hp⟩
      · obtain rfl : k = p.1 := (List.mem_cons.1 h).resolve_right hmem
        refine ⟨p.2, ?_, List.mem_cons_self⟩
        rw [insertAll, lookup_insertAll_of_notMem hmem, AList.lookup_insert]

/-- Entries that agree with a function, in a map that agrees with it on the other keys. -/
theorem lookup_insertAll_eq {f : κ → Option β} {l : List (κ × β)}
    (hl : ∀ p ∈ l, f p.1 = some p.2) (hm : ∀ k, k ∉ l.map Prod.fst → m.lookup k = f k) (k : κ) :
    (insertAll m l).lookup k = f k := by
  by_cases hmem : k ∈ l.map Prod.fst
  · obtain ⟨v, hv, hp⟩ := exists_lookup_insertAll hmem
    exact hv.trans (hl (k, v) hp).symm
  · exact (lookup_insertAll_of_notMem hmem).trans (hm k hmem)

theorem get_insertAll_of_notMem {l : List (κ × β)} {k : κ} (h : k ∉ l.map Prod.fst) :
    get d (insertAll m l) k = get d m k := by
  rw [get, lookup_insertAll_of_notMem h, get]

theorem get_insertAll_of_mem {l : List (κ × β)} (hl : (l.map Prod.fst).Nodup) {k : κ} {v : β}
    (h : (k, v) ∈ l) : get d (insertAll m l) k = v := by
  rw [get, lookup_insertAll_of_mem hl h, Option.getD_some]

/-- What holds of every value written, and of the value before, holds of the value read. -/
theorem get_insertAll_of_forall {P : β → Prop} {l : List (κ × β)} (hl : ∀ p ∈ l, P p.2) {k : κ}
    (hk : P (get d m k)) : P (get d (insertAll m l) k) := by
  induction l generalizing m with
  | nil => exact hk
  | cons p l ih =>
      obtain ⟨k', v⟩ := p
      refine ih (fun p hp => hl p (List.mem_cons_of_mem _ hp)) ?_
      by_cases heq : k = k'
      · rw [heq, get_insert_self]
        exact hl _ List.mem_cons_self
      · rwa [get_insert_of_ne v heq]

theorem overlay_insertAll_of_notMem {diff : Map κ β} {l : List (κ × β)} {k : κ}
    (h : k ∉ l.map Prod.fst) : overlay d m (insertAll diff l) k = overlay d m diff k := by
  rw [overlay, lookup_insertAll_of_notMem h, overlay]

theorem overlay_insertAll_of_mem {diff : Map κ β} {l : List (κ × β)}
    (hl : (l.map Prod.fst).Nodup) {k : κ} {v : β} (h : (k, v) ∈ l) :
    overlay d m (insertAll diff l) k = v := by
  rw [overlay, lookup_insertAll_of_mem hl h, Option.getD_some]

@[simp] theorem overlay_empty (k : κ) : overlay d m ∅ k = get d m k := by simp [overlay]

/-- The entries of a map, as pairs. -/
def pairs (m : Map κ β) : List (κ × β) := m.entries.map fun e => (e.1, e.2)

theorem mem_pairs {k : κ} {v : β} : (k, v) ∈ pairs m ↔ m.lookup k = some v := by
  have h : (⟨k, v⟩ : Σ _ : κ, β) ∈ m.entries ↔ m.lookup k = some v := by
    rw [← AList.mem_lookup_iff]
    exact Option.mem_def
  rw [← h]
  constructor
  · intro hp
    obtain ⟨⟨k', v'⟩, he, heq⟩ := List.mem_map.1 hp
    cases heq
    exact he
  · exact fun he => List.mem_map.2 ⟨_, he, rfl⟩

omit [DecidableEq κ] in
theorem nodup_keys_pairs : ((pairs m).map Prod.fst).Nodup := by
  rw [pairs, List.map_map]
  exact m.nodupKeys

/-- Writing all entries of a diff is reading the diff over the ledger. -/
theorem get_insertAll_pairs (diff : Map κ β) (k : κ) :
    get d (insertAll m (pairs diff)) k = overlay d m diff k := by
  cases h : diff.lookup k with
  | none =>
      rw [overlay, h, Option.getD_none]
      refine get_insertAll_of_notMem fun hk => ?_
      obtain ⟨⟨k', v⟩, hp, rfl⟩ := List.mem_map.1 hk
      rw [mem_pairs.1 hp] at h
      cases h
  | some v =>
      rw [overlay, h, Option.getD_some]
      exact get_insertAll_of_mem nodup_keys_pairs (mem_pairs.2 h)

end

/-! ## Maps with the same entries -/

/-- The same entries, in perhaps another order. -/
def SameEntries (m m' : Map κ β) : Prop := ∀ k, m'.lookup k = m.lookup k

namespace SameEntries

variable {m m' : Map κ β}

theorem symm (h : SameEntries m m') : SameEntries m' m := fun k => (h k).symm

theorem get (h : SameEntries m m') (d : β) (k : κ) : Ledger.get d m' k = Ledger.get d m k :=
  congrArg (Option.getD · d) (h k)

theorem mem_iff (h : SameEntries m m') {k : κ} : k ∈ m' ↔ k ∈ m := by
  rw [← AList.lookup_isSome, ← AList.lookup_isSome, h k]

theorem insert (h : SameEntries m m') (k : κ) (v : β) :
    SameEntries (m.insert k v) (m'.insert k v) := by
  intro k'
  by_cases hk : k' = k
  · rw [hk, AList.lookup_insert, AList.lookup_insert]
  · rw [AList.lookup_insert_ne hk, AList.lookup_insert_ne hk, h k']

theorem insertAll (h : SameEntries m m') (l : List (κ × β)) :
    SameEntries (Ledger.insertAll m l) (Ledger.insertAll m' l) := by
  induction l generalizing m m' with
  | nil => exact h
  | cons p l ih => exact ih (h.insert p.1 p.2)

end SameEntries

/-! ## Lists of pairs -/

section

variable {α β γ : Type*}

theorem map_zip_fst {l : List α} {l' : List β} (h : l.length ≤ l'.length) (f : α → γ) :
    (l.zip l').map (fun p => f p.1) = l.map f := by
  have hmap := congrArg (List.map f) (List.map_fst_zip h)
  rwa [List.map_map] at hmap

theorem map_zip_snd {l : List α} {l' : List β} (h : l'.length ≤ l.length) (f : β → γ) :
    (l.zip l').map (fun p => f p.2) = l'.map f := by
  have hmap := congrArg (List.map f) (List.map_snd_zip h)
  rwa [List.map_map] at hmap

/-- Sums of which each term is exchanged for another one. -/
theorem sum_map_exchange {l : List α} {u v b c : α → Nat}
    (h : ∀ x ∈ l, u x + b x = v x + c x) :
    (l.map u).sum + (l.map b).sum = (l.map v).sum + (l.map c).sum := by
  rw [← List.sum_map_add, ← List.sum_map_add, List.map_congr_left h]

end

/-! ## Totals -/

section

variable {d : β}

/-- The sum of a measure of the keys and their values. -/
def totalBy (f : κ → β → Nat) (d : β) (m : Map κ β) : Nat :=
  ∑ k ∈ m.keys.toFinset, f k (get d m k)

/-- The sum of a measure over the keys of a map. -/
def total (f : β → Nat) (d : β) (m : Map κ β) : Nat := ∑ k ∈ m.keys.toFinset, f (get d m k)

section

variable {f : κ → β → Nat}

/-- Keys without a value add nothing. -/
theorem totalBy_eq_sum (hd : ∀ k, f k d = 0) {m : Map κ β} {T : Finset κ}
    (hT : m.keys.toFinset ⊆ T) : totalBy f d m = ∑ k ∈ T, f k (get d m k) := by
  refine Finset.sum_subset hT fun k _ hk => ?_
  have hn : m.lookup k = none := by
    rw [AList.lookup_eq_none, AList.mem_keys]
    simpa using hk
  rw [get, hn, Option.getD_none, hd]

/-- The total depends only on what `get` returns. -/
theorem totalBy_congr (hd : ∀ k, f k d = 0) {m m' : Map κ β}
    (h : ∀ k, f k (get d m k) = f k (get d m' k)) : totalBy f d m = totalBy f d m' := by
  rw [totalBy_eq_sum hd Finset.subset_union_left, totalBy_eq_sum hd Finset.subset_union_right]
  exact Finset.sum_congr rfl fun k _ => h k

/-- A measure of one key. -/
theorem totalBy_single (hd : ∀ k, f k d = 0) (m : Map κ β) {k : κ}
    (hk : ∀ k' v, k' ≠ k → f k' v = 0) : totalBy f d m = f k (get d m k) := by
  rw [totalBy_eq_sum hd (Finset.subset_insert k m.keys.toFinset),
    ← Finset.add_sum_erase _ _ (Finset.mem_insert_self k _)]
  rw [Finset.sum_eq_zero fun k' hk' => hk k' _ (Finset.ne_of_mem_erase hk'), Nat.add_zero]

theorem totalBy_insert (hd : ∀ k, f k d = 0) (m : Map κ β) (k : κ) (v : β) :
    totalBy f d (m.insert k v) + f k (get d m k) = totalBy f d m + f k v := by
  have hT : (m.insert k v).keys.toFinset ⊆ insert k m.keys.toFinset := by
    intro k' hk'
    rw [List.mem_toFinset, ← AList.mem_keys, AList.mem_insert] at hk'
    rw [Finset.mem_insert, List.mem_toFinset, ← AList.mem_keys]
    exact hk'
  rw [totalBy_eq_sum hd hT, totalBy_eq_sum hd (Finset.subset_insert k m.keys.toFinset),
    ← Finset.add_sum_erase _ _ (Finset.mem_insert_self k _),
    ← Finset.add_sum_erase _ _ (Finset.mem_insert_self k _), get_insert_self]
  have hrest : ∀ k' ∈ (insert k m.keys.toFinset).erase k,
      f k' (get d (m.insert k v) k') = f k' (get d m k') := fun k' hk' => by
    rw [get_insert_of_ne v (Finset.ne_of_mem_erase hk')]
  rw [Finset.sum_congr rfl hrest]
  omega

/-- Writing entries for distinct keys replaces what stood there. -/
theorem totalBy_insertAll (hd : ∀ k, f k d = 0) {m : Map κ β} {l : List (κ × β)}
    (hl : (l.map Prod.fst).Nodup) :
    totalBy f d (insertAll m l) + (l.map fun p => f p.1 (get d m p.1)).sum =
      totalBy f d m + (l.map fun p => f p.1 p.2).sum := by
  induction l generalizing m with
  | nil => rfl
  | cons p l ih =>
      obtain ⟨k, v⟩ := p
      simp only [List.map_cons, List.nodup_cons] at hl
      have hstep := totalBy_insert hd m k v
      have hrest := ih (m := m.insert k v) hl.2
      have hsame : (l.map fun p => f p.1 (get d (m.insert k v) p.1)) =
          l.map fun p => f p.1 (get d m p.1) := by
        refine List.map_congr_left fun p hp => ?_
        rw [get_insert_of_ne v]
        rintro rfl
        exact hl.1 (List.mem_map_of_mem hp)
      rw [hsame] at hrest
      simp only [insertAll, List.map_cons, List.sum_cons]
      omega

/-- Adding entries for distinct keys to a diff over a ledger. -/
theorem totalBy_overlay_insertAll (hd : ∀ k, f k d = 0) (m diff : Map κ β) {l : List (κ × β)}
    (hl : (l.map Prod.fst).Nodup) :
    totalBy f d (insertAll m (pairs (insertAll diff l))) +
        (l.map fun p => f p.1 (overlay d m diff p.1)).sum =
      totalBy f d (insertAll m (pairs diff)) + (l.map fun p => f p.1 p.2).sum := by
  have hget : ∀ k, get d (insertAll m (pairs (insertAll diff l))) k =
      get d (insertAll (insertAll m (pairs diff)) l) k := by
    intro k
    rw [get_insertAll_pairs]
    by_cases hk : k ∈ l.map Prod.fst
    · obtain ⟨⟨k, v⟩, hv, rfl⟩ := List.mem_map.1 hk
      rw [overlay_insertAll_of_mem hl hv, get_insertAll_of_mem hl hv]
    · rw [overlay_insertAll_of_notMem hk, get_insertAll_of_notMem hk, get_insertAll_pairs]
  have htotal := totalBy_insertAll hd (m := insertAll m (pairs diff)) hl
  simp only [get_insertAll_pairs] at htotal
  rw [totalBy_congr hd fun k => congrArg (f k) (hget k), htotal]

end

theorem total_overlay_insertAll {f : β → Nat} (hd : f d = 0) (m diff : Map κ β) {l : List (κ × β)}
    (hl : (l.map Prod.fst).Nodup) :
    total f d (insertAll m (pairs (insertAll diff l))) +
        (l.map fun p => f (overlay d m diff p.1)).sum =
      total f d (insertAll m (pairs diff)) + (l.map fun p => f p.2).sum :=
  totalBy_overlay_insertAll (f := fun _ => f) (fun _ => hd) m diff hl

end

/-! ## Maps whose entries stay -/

section

variable {m m' m'' : Map κ β}

/-- Every entry of `m` is one of `m'`. -/
def Extends (m m' : Map κ β) : Prop := ∀ k v, m.lookup k = some v → m'.lookup k = some v

theorem Extends.refl (m : Map κ β) : Extends m m := fun _ _ h => h

theorem Extends.trans (h : Extends m m') (h' : Extends m' m'') : Extends m m'' :=
  fun k v hv => h' k v (h k v hv)

/-- A new key. -/
theorem extends_insert {k : κ} (h : m.lookup k = none) (v : β) : Extends m (m.insert k v) := by
  intro k' v' hv'
  rw [AList.lookup_insert_ne]
  · exact hv'
  · rintro rfl
    rw [h] at hv'
    cases hv'

end

end ExecutionZone.Ledger
