import Mathlib.Data.List.Induction
import Mathlib.Data.Nat.Log
import Mathlib.Data.Set.Basic
import Mathlib.Tactic.Ring

/-!
# Perfect binary trees in heap order

A perfect binary tree over leaves `leaf 0, leaf 1, …` combines two neighbours into
their parent.  `value` is the value of the node of a given height and position, and
`climb` is the value reached by combining a start value with the siblings along a
path.  If `combine` has no collisions, a path that reaches the value of a node starts
at one of the leaves below it: `leaf_of_climb_eq`.

The second half is about the array representation: the node of height `k` and
position `p` in a tree of depth `D` sits at `slot D k p`, its children at twice its
index plus one and plus two.  `refresh` recomputes the ancestors of a node, `embed`
moves a tree into the left half of one of twice its size.
-/

universe u

namespace ExecutionZone.PerfectTree

variable {α : Type u}

section

variable (combine : α → α → α)

/-- The value of the node of height `k` at position `p`. -/
def value (leaf : Nat → α) : Nat → Nat → α
  | 0, p => leaf p
  | k + 1, p => combine (value leaf k (2 * p)) (value leaf k (2 * p + 1))

/-- Combine with one sibling: the node at an even position is a left child. -/
def climbOne (i : Nat) (x s : α) : α := if i % 2 = 0 then combine x s else combine s x

/-- Combine with the siblings along a path, from the bottom up. -/
def climb : Nat → α → List α → α
  | _, x, [] => x
  | i, x, s :: path => climb (i / 2) (climbOne combine i x s) path

/-- The pairs combined while climbing. -/
def climbPairs : Nat → α → List α → List (α × α)
  | _, _, [] => []
  | i, x, s :: path =>
      (if i % 2 = 0 then (x, s) else (s, x)) :: climbPairs (i / 2) (climbOne combine i x s) path

/-- The position of the other child of the same parent. -/
def sibling (p : Nat) : Nat := if p % 2 = 0 then p + 1 else p - 1

/-- The siblings on the way up from the node of height `k` at position `p`, for `n` levels. -/
def path (leaf : Nat → α) : Nat → Nat → Nat → List α
  | 0, _, _ => []
  | n + 1, k, p => value combine leaf k (sibling p) :: path leaf n (k + 1) (p / 2)

/-- The root of the perfect tree of depth `d` over a list of leaves: its halves combined. -/
def rootOf (blank : α) : Nat → List α → α
  | 0, leaves => leaves.headD blank
  | d + 1, leaves =>
      combine (rootOf blank d (leaves.take (2 ^ d))) (rootOf blank d (leaves.drop (2 ^ d)))

/-- The value of a node all of whose leaves are `blank`. -/
def blankValue (blank : α) : Nat → α
  | 0 => blank
  | k + 1 => combine (blankValue blank k) (blankValue blank k)

end

variable {combine : α → α → α}

/-- A node depends only on the leaves below it. -/
theorem value_congr {leaf leaf' : Nat → α} {k p : Nat}
    (h : ∀ j, j / 2 ^ k = p → leaf j = leaf' j) :
    value combine leaf k p = value combine leaf' k p := by
  induction k generalizing p with
  | zero => exact h p (by simp)
  | succ k ih =>
      have hdiv : ∀ j, j / 2 ^ (k + 1) = j / 2 ^ k / 2 := fun j => by
        rw [Nat.pow_succ, Nat.div_div_eq_div_mul]
      have hleft : value combine leaf k (2 * p) = value combine leaf' k (2 * p) :=
        ih fun j hj => h j (by rw [hdiv, hj]; omega)
      have hright : value combine leaf k (2 * p + 1) = value combine leaf' k (2 * p + 1) :=
        ih fun j hj => h j (by rw [hdiv, hj]; omega)
      simp only [value, hleft, hright]

theorem value_const (blank : α) (k p : Nat) :
    value combine (fun _ => blank) k p = blankValue combine blank k := by
  induction k generalizing p with
  | zero => rfl
  | succ k ih => simp only [value, blankValue, ih]

/-- A node above blank leaves only is blank. -/
theorem value_eq_blankValue {leaf : Nat → α} {blank : α} {k p : Nat}
    (h : ∀ j, j / 2 ^ k = p → leaf j = blank) :
    value combine leaf k p = blankValue combine blank k := by
  rw [← value_const blank k p]
  exact value_congr h

/-- A node is the root of the tree over the leaves below it. -/
theorem rootOf_eq_value (blank : α) {leaf : Nat → α} {k p : Nat} {leaves : List α}
    (h : ∀ j < 2 ^ k, leaves[j]? = some (leaf (p * 2 ^ k + j))) :
    rootOf combine blank k leaves = value combine leaf k p := by
  induction k generalizing p leaves with
  | zero =>
      have hhead := h 0 Nat.one_pos
      rw [Nat.pow_zero, Nat.mul_one, Nat.add_zero, ← List.head?_eq_getElem?] at hhead
      rw [rootOf, List.headD_eq_head?_getD, hhead]
      rfl
  | succ k ih =>
      have hleft : ∀ j < 2 ^ k, (leaves.take (2 ^ k))[j]? = some (leaf (2 * p * 2 ^ k + j)) := by
        intro j hj
        rw [List.getElem?_take_of_lt hj, h j (by rw [Nat.pow_succ]; omega)]
        congr 2
        ring
      have hright : ∀ j < 2 ^ k,
          (leaves.drop (2 ^ k))[j]? = some (leaf ((2 * p + 1) * 2 ^ k + j)) := by
        intro j hj
        rw [List.getElem?_drop, h _ (by rw [Nat.pow_succ]; omega)]
        congr 2
        ring
      rw [rootOf, value, ih hleft, ih hright]

theorem climb_append (i : Nat) (x : α) (path : List α) (s : α) :
    climb combine i x (path ++ [s]) =
      climbOne combine (i / 2 ^ path.length) (climb combine i x path) s := by
  induction path generalizing i x with
  | nil => simp [climb]
  | cons t path ih =>
      simp only [List.cons_append, climb, ih, List.length_cons]
      rw [Nat.div_div_eq_div_mul, ← Nat.pow_succ']

theorem climbPairs_append (i : Nat) (x : α) (path : List α) (s : α) :
    climbPairs combine i x (path ++ [s]) = climbPairs combine i x path ++
      [if i / 2 ^ path.length % 2 = 0 then (climb combine i x path, s)
        else (s, climb combine i x path)] := by
  induction path generalizing i x with
  | nil => simp [climbPairs, climb]
  | cons t path ih =>
      simp only [List.cons_append, climbPairs, climb, ih, List.length_cons]
      rw [Nat.div_div_eq_div_mul, ← Nat.pow_succ']

theorem climbOne_sibling (leaf : Nat → α) (k p : Nat) :
    climbOne combine p (value combine leaf k p) (value combine leaf k (sibling p)) =
      value combine leaf (k + 1) (p / 2) := by
  unfold climbOne sibling
  split
  · rename_i heven
    rw [value, show 2 * (p / 2) = p by omega]
  · rename_i hodd
    rw [value, show 2 * (p / 2) = p - 1 by omega, show p - 1 + 1 = p by omega]

theorem path_length (leaf : Nat → α) (n k p : Nat) : (path combine leaf n k p).length = n := by
  induction n generalizing k p with
  | zero => rfl
  | succ n ih => rw [path, List.length_cons, ih]

/-- **Completeness of paths.**  Climbing with the siblings of a node leads to its ancestor. -/
theorem climb_path (leaf : Nat → α) (n k p : Nat) :
    climb combine p (value combine leaf k p) (path combine leaf n k p) =
      value combine leaf (k + n) (p / 2 ^ n) := by
  induction n generalizing k p with
  | zero => simp [path, climb]
  | succ n ih =>
      rw [path, climb, climbOne_sibling, ih, Nat.div_div_eq_div_mul, ← Nat.pow_succ',
        Nat.add_right_comm, Nat.add_assoc]

/-- **Soundness of paths.**  Let `combine` have no collisions among the pairs `N` and
give no value in `B`, where `N` contains the pairs of the path and of the tree, and
`B` the start value and the leaves.  A path to the node of height `k` at position `p`
has length `k` and starts at a leaf below that node. -/
theorem leaf_of_climb_eq {N : Set (α × α)} {B : Set α}
    (hinj : ∀ a ∈ N, ∀ b ∈ N, combine a.1 a.2 = combine b.1 b.2 → a = b)
    (hsep : ∀ a ∈ N, combine a.1 a.2 ∉ B) {leaf : Nat → α} (hleaf : ∀ j, leaf j ∈ B)
    {x : α} (hx : x ∈ B) {i : Nat} {path : List α}
    (hpath : ∀ a ∈ climbPairs combine i x path, a ∈ N) {k p : Nat}
    (htree : ∀ k' q, k' < k → q / 2 ^ (k - 1 - k') = p →
      (value combine leaf k' (2 * q), value combine leaf k' (2 * q + 1)) ∈ N)
    (h : climb combine i x path = value combine leaf k p) :
    path.length = k ∧ ∃ j, j / 2 ^ k = p ∧ x = leaf j := by
  induction path using List.reverseRecOn generalizing k p with
  | nil =>
      cases k with
      | zero => exact ⟨rfl, p, by simp, h⟩
      | succ k =>
          -- the start value would be an inner node
          have hval : value combine leaf (k + 1) p ∈ B := by rw [← h]; exact hx
          exact absurd hval (hsep (_, _) (htree k p (by omega) (by simp)))
  | append_singleton path s ih =>
      rw [climbPairs_append] at hpath
      have hlast := hpath _ (List.mem_append_right _ List.mem_cons_self)
      have hinit : ∀ a ∈ climbPairs combine i x path, a ∈ N :=
        fun a ha => hpath a (List.mem_append_left _ ha)
      rw [climb_append] at h
      cases k with
      | zero =>
          -- a leaf would be an inner node
          refine absurd (hleaf p) ?_
          rw [show leaf p = _ from h.symm]
          unfold climbOne
          split at hlast <;> rename_i hpar
          · rw [if_pos hpar]; exact hsep _ hlast
          · rw [if_neg hpar]; exact hsep _ hlast
      | succ k =>
          have htop := htree k p (by omega) (by simp)
          have hsub : ∀ b, b / 2 = p → ∀ k' q, k' < k → q / 2 ^ (k - 1 - k') = b →
              (value combine leaf k' (2 * q), value combine leaf k' (2 * q + 1)) ∈ N := by
            intro b hb k' q hk' hq
            refine htree k' q (by omega) ?_
            rw [show k + 1 - 1 - k' = (k - 1 - k') + 1 by omega, Nat.pow_succ,
              ← Nat.div_div_eq_div_mul, hq, hb]
          have hup : ∀ b, b / 2 = p → climb combine i x path = value combine leaf k b →
              (path ++ [s]).length = k + 1 ∧ ∃ j, j / 2 ^ (k + 1) = p ∧ x = leaf j := by
            intro b hb hc
            obtain ⟨hlen, j, hj, hxj⟩ := ih hinit (hsub b hb) hc
            refine ⟨by simp [hlen], j, ?_, hxj⟩
            rw [Nat.pow_succ, ← Nat.div_div_eq_div_mul, hj, hb]
          unfold climbOne at h
          by_cases hpar : i / 2 ^ path.length % 2 = 0
          · rw [if_pos hpar] at h hlast
            have hpair := hinj _ hlast _ htop h
            exact hup (2 * p) (by omega) (congrArg Prod.fst hpair)
          · rw [if_neg hpar] at h hlast
            have hpair := hinj _ hlast _ htop h
            exact hup (2 * p + 1) (by omega) (congrArg Prod.snd hpair)

/-! ## The array -/

/-- The index of the node of height `k` at position `p` in a tree of depth `D`. -/
def slot (D k p : Nat) : Nat := 2 ^ (D - k) - 1 + p

theorem two_pow_sub_eq {D k : Nat} (hk : k < D) : 2 ^ (D - k) = 2 * 2 ^ (D - (k + 1)) := by
  rw [show D - k = (D - (k + 1)) + 1 by omega, Nat.pow_succ, Nat.mul_comm]

theorem slot_left {D k : Nat} (hk : k < D) (q : Nat) :
    2 * slot D (k + 1) q + 1 = slot D k (2 * q) := by
  have hpos := Nat.two_pow_pos (D - (k + 1))
  simp only [slot, two_pow_sub_eq hk]
  omega

theorem slot_right {D k : Nat} (hk : k < D) (q : Nat) :
    2 * slot D (k + 1) q + 2 = slot D k (2 * q + 1) := by
  have hpos := Nat.two_pow_pos (D - (k + 1))
  simp only [slot, two_pow_sub_eq hk]
  omega

theorem slot_parent {D k : Nat} (hk : k < D) (p : Nat) :
    (slot D k p - 1) / 2 = slot D (k + 1) (p / 2) := by
  have hpos := Nat.two_pow_pos (D - (k + 1))
  simp only [slot, two_pow_sub_eq hk]
  omega

/-- The index of the sibling: left children have odd indices. -/
def siblingIndex (i : Nat) : Nat := if i % 2 = 1 then i + 1 else i - 1

theorem slot_sibling {D k : Nat} (hk : k < D) (p : Nat) :
    siblingIndex (slot D k p) = slot D k (sibling p) := by
  have hpos := Nat.two_pow_pos (D - (k + 1))
  unfold siblingIndex sibling
  simp only [slot, two_pow_sub_eq hk]
  split <;> split <;> omega

theorem sibling_lt {p n : Nat} (h : p < 2 ^ (n + 1)) : sibling p < 2 ^ (n + 1) := by
  rw [Nat.pow_succ] at h ⊢
  unfold sibling
  split <;> omega

theorem slot_lt {D k p : Nat} (hp : p < 2 ^ (D - k)) : slot D k p < 2 ^ (D + 1) - 1 := by
  have hle : 2 ^ (D - k) ≤ 2 ^ D := Nat.pow_le_pow_right (by omega) (by omega)
  have hpos := Nat.two_pow_pos (D - k)
  have hsucc : 2 ^ (D + 1) = 2 * 2 ^ D := Nat.pow_succ'
  unfold slot
  omega

theorem slot_inj {D k k' p p' : Nat} (hk : k ≤ D) (hk' : k' ≤ D) (hp : p < 2 ^ (D - k))
    (hp' : p' < 2 ^ (D - k')) (h : slot D k p = slot D k' p') : k = k' ∧ p = p' := by
  have hlevel : ∀ {a b x y : Nat}, x < 2 ^ a → 2 ^ a - 1 + x = 2 ^ b - 1 + y → ¬a < b := by
    intro a b x y hx he hab
    have hle : 2 ^ (a + 1) ≤ 2 ^ b := Nat.pow_le_pow_right (by omega) hab
    have hsucc : 2 ^ (a + 1) = 2 * 2 ^ a := Nat.pow_succ'
    have hpos := Nat.two_pow_pos a
    omega
  have hab := hlevel hp h
  have hba := hlevel hp' h.symm
  have hkk : k = k' := by omega
  subst hkk
  unfold slot at h
  exact ⟨rfl, by omega⟩

/-- Every index of the array is the slot of a node. -/
theorem exists_slot {D i : Nat} (hi : i < 2 ^ (D + 1) - 1) :
    ∃ k ≤ D, ∃ p < 2 ^ (D - k), i = slot D k p := by
  have hlog : Nat.log 2 (i + 1) ≤ D := by
    have hlt : Nat.log 2 (i + 1) < D + 1 := Nat.log_lt_of_lt_pow (by omega) (by omega)
    omega
  have hle := Nat.pow_log_le_self 2 (show i + 1 ≠ 0 by omega)
  have hlt := Nat.lt_pow_succ_log_self (show 1 < 2 by omega) (i + 1)
  have hsucc : 2 ^ (Nat.log 2 (i + 1)).succ = 2 * 2 ^ Nat.log 2 (i + 1) := Nat.pow_succ'
  refine ⟨D - Nat.log 2 (i + 1), by omega, i + 1 - 2 ^ Nat.log 2 (i + 1), ?_, ?_⟩
  · rw [show D - (D - Nat.log 2 (i + 1)) = Nat.log 2 (i + 1) by omega]
    omega
  · unfold slot
    rw [show D - (D - Nat.log 2 (i + 1)) = Nat.log 2 (i + 1) by omega]
    omega

/-- The array holds the values of the tree over `leaf`, except possibly on the left
spine above height `d`. -/
structure Holds (combine : α → α → α) (leaf : Nat → α) (D d : Nat) (nodes : List α) : Prop where
  length_eq : nodes.length = 2 ^ (D + 1) - 1
  get : ∀ k ≤ D, ∀ p < 2 ^ (D - k), k ≤ d ∨ p ≠ 0 →
    nodes[slot D k p]? = some (value combine leaf k p)

section

variable [Inhabited α]

/-- Recompute `n` ancestors of the node at index `i`. -/
def refresh (combine : α → α → α) : Nat → Nat → List α → List α
  | 0, _, nodes => nodes
  | n + 1, i, nodes =>
      let parent := (i - 1) / 2
      refresh combine n parent (nodes.set parent
        (combine (nodes.getD (2 * parent + 1) default) (nodes.getD (2 * parent + 2) default)))

theorem refresh_length (n i : Nat) (nodes : List α) :
    (refresh combine n i nodes).length = nodes.length := by
  induction n generalizing i nodes with
  | zero => rfl
  | succ n ih => simp only [refresh, ih, List.length_set]

/-- Refreshing the ancestors of leaf `i` from height `m` on.  The nodes that hold their
value are those of `d` levels and off the left spine, except the ancestors of `i` above
`m`; each turn moves `m` one level up. -/
theorem refresh_get {leaf : Nat → α} {D d m n i : Nat} {nodes : List α} (hmn : m + n ≤ D)
    (hd : m + n ≤ d) (hi : i < 2 ^ D) (hlen : nodes.length = 2 ^ (D + 1) - 1)
    (hget : ∀ k ≤ D, ∀ p < 2 ^ (D - k), k ≤ d ∨ p ≠ 0 → k ≤ m ∨ p ≠ i / 2 ^ k →
      nodes[slot D k p]? = some (value combine leaf k p)) :
    ∀ k ≤ D, ∀ p < 2 ^ (D - k), k ≤ d ∨ p ≠ 0 → k ≤ m + n ∨ p ≠ i / 2 ^ k →
      (refresh combine n (slot D m (i / 2 ^ m)) nodes)[slot D k p]? =
        some (value combine leaf k p) := by
  induction n generalizing m nodes with
  | zero => exact hget
  | succ n ih =>
      have hpos : ∀ k ≤ D, i / 2 ^ k < 2 ^ (D - k) := fun k hk => by
        rw [Nat.div_lt_iff_lt_mul (Nat.two_pow_pos k), ← Nat.pow_add, Nat.sub_add_cancel hk]
        exact hi
      have hq : i / 2 ^ m / 2 = i / 2 ^ (m + 1) := by
        rw [Nat.div_div_eq_div_mul, ← Nat.pow_succ]
      have hup := hpos (m + 1) (by omega)
      have htwo := two_pow_sub_eq (show m < D by omega)
      have hleft := hget m (by omega) (2 * (i / 2 ^ (m + 1))) (by omega) (.inl (by omega))
        (.inl le_rfl)
      have hright := hget m (by omega) (2 * (i / 2 ^ (m + 1)) + 1) (by omega) (.inl (by omega))
        (.inl le_rfl)
      simp only [refresh, slot_parent (show m < D by omega), hq, slot_left (show m < D by omega),
        slot_right (show m < D by omega), List.getD_eq_getElem?_getD, hleft, hright,
        Option.getD_some]
      rw [show m + (n + 1) = (m + 1) + n by omega]
      refine ih (by omega) (by omega) (by simpa using hlen) ?_
      intro k hk p hp hspine hanc
      by_cases hk' : k = m + 1 ∧ p = i / 2 ^ (m + 1)
      · obtain ⟨rfl, rfl⟩ := hk'
        rw [List.getElem?_set_self (by rw [hlen]; exact slot_lt hp)]
        rfl
      · rw [List.getElem?_set_ne]
        · refine hget k hk p hp hspine ?_
          by_cases hkm : k ≤ m
          · exact .inl hkm
          · refine .inr fun hpe => ?_
            rcases hanc with hanc | hanc
            · have hke : k = m + 1 := by omega
              subst hke
              exact hk' ⟨rfl, hpe⟩
            · exact hanc hpe
        · intro heq
          obtain ⟨rfl, rfl⟩ := slot_inj (by omega) hk hup hp heq
          exact hk' ⟨rfl, rfl⟩

/-- **Inserting a leaf.**  Writing leaf `i` and refreshing `d'` ancestors gives the tree
with that leaf, correct up to height `d'`, if the left spine above `i` was correct up to
`d'`, or is completed at `d'` itself. -/
theorem Holds.insert {leaf : Nat → α} {D d d' i : Nat} {nodes : List α} {x : α}
    (h : Holds combine leaf D d nodes) (hd : d ≤ d') (hd' : d' ≤ d + 1) (hD : d' ≤ D)
    (hi : i < 2 ^ d') :
    Holds combine (Function.update leaf i x) D d'
      (refresh combine d' (slot D 0 i) (nodes.set (slot D 0 i) x)) := by
  have hiD : i < 2 ^ D := lt_of_lt_of_le hi (Nat.pow_le_pow_right (by omega) hD)
  refine ⟨by rw [refresh_length, List.length_set, h.length_eq], ?_⟩
  have hrefresh : ∀ k ≤ D, ∀ p < 2 ^ (D - k), k ≤ d' ∨ p ≠ 0 → k ≤ 0 + d' ∨ p ≠ i / 2 ^ k →
      (refresh combine d' (slot D 0 (i / 2 ^ 0)) (nodes.set (slot D 0 i) x))[slot D k p]? =
        some (value combine (Function.update leaf i x) k p) := by
    refine refresh_get (by omega) (by omega) hiD (by rw [List.length_set, h.length_eq]) ?_
    intro k hk p hp hspine hanc
    by_cases hleaf : k = 0 ∧ p = i
    · obtain ⟨rfl, rfl⟩ := hleaf
      rw [List.getElem?_set_self (by rw [h.length_eq]; exact slot_lt hp)]
      simp [value]
    · have hne : p ≠ i / 2 ^ k := by
        rcases hanc with hanc | hanc
        · intro hpe
          have hk0 : k = 0 := by omega
          subst hk0
          exact hleaf ⟨rfl, by simpa using hpe⟩
        · exact hanc
      have hslot : slot D 0 i ≠ slot D k p := fun heq =>
        hleaf (by
          obtain ⟨hk0, hpi⟩ := slot_inj (Nat.zero_le D) hk (by simpa using hiD) hp heq
          exact ⟨hk0.symm, hpi.symm⟩)
      have hval : value combine (Function.update leaf i x) k p = value combine leaf k p := by
        refine value_congr fun j hj => ?_
        rw [Function.update_of_ne]
        rintro rfl
        exact hne hj.symm
      rw [List.getElem?_set_ne hslot, hval]
      refine h.get k hk p hp ?_
      rcases hspine with hkd' | hp0
      · by_cases hkd : k ≤ d
        · exact .inl hkd
        · -- only the topmost refreshed node was not correct before, and it is an ancestor of i
          refine .inr fun hp0 => hne ?_
          have hke : k = d' := by omega
          rw [hp0, hke, Nat.div_eq_of_lt hi]
      · exact .inr hp0
  intro k hk p hp hspine
  simp only [Nat.pow_zero, Nat.div_one, Nat.zero_add] at hrefresh
  refine hrefresh k hk p hp hspine ?_
  by_cases hkd : k ≤ d'
  · exact .inl hkd
  · have hlt : i < 2 ^ k := lt_of_lt_of_le hi (Nat.pow_le_pow_right (by omega) (by omega))
    rw [Nat.div_eq_of_lt hlt]
    exact .inr (hspine.resolve_left hkd)

end

/-! ## A blank array -/

/-- The levels of a blank tree of depth `D`, root first. -/
def blankNodes (combine : α → α → α) (blank : α) (D : Nat) : List α :=
  (List.range (D + 1)).flatMap fun level =>
    List.replicate (2 ^ level) (blankValue combine blank (D - level))

theorem levels_length (f : Nat → α) (n : Nat) :
    ((List.range n).flatMap fun level => List.replicate (2 ^ level) (f level)).length =
      2 ^ n - 1 := by
  induction n with
  | zero => rfl
  | succ n ih =>
      have hpos := Nat.two_pow_pos n
      rw [List.range_succ, List.flatMap_append, List.length_append, ih]
      simp only [List.flatMap_cons, List.flatMap_nil, List.append_nil, List.length_replicate,
        Nat.pow_succ]
      omega

theorem levels_get (f : Nat → α) {n level p : Nat} (hl : level < n) (hp : p < 2 ^ level) :
    ((List.range n).flatMap fun level => List.replicate (2 ^ level) (f level))[2 ^ level - 1 + p]?
      = some (f level) := by
  induction n with
  | zero => omega
  | succ n ih =>
      rw [List.range_succ, List.flatMap_append]
      simp only [List.flatMap_cons, List.flatMap_nil, List.append_nil]
      by_cases hln : level < n
      · have hle : 2 ^ (level + 1) ≤ 2 ^ n := Nat.pow_le_pow_right (by omega) hln
        have hsucc : 2 ^ (level + 1) = 2 * 2 ^ level := Nat.pow_succ'
        rw [List.getElem?_append_left (by rw [levels_length]; omega)]
        exact ih hln
      · have hle : level = n := by omega
        subst hle
        rw [List.getElem?_append_right (by rw [levels_length]; omega), levels_length,
          List.getElem?_replicate, if_pos (by omega)]

theorem blankNodes_length (combine : α → α → α) (blank : α) (D : Nat) :
    (blankNodes combine blank D).length = 2 ^ (D + 1) - 1 := levels_length _ _

theorem blankNodes_get (combine : α → α → α) (blank : α) {D k p : Nat} (hk : k ≤ D)
    (hp : p < 2 ^ (D - k)) :
    (blankNodes combine blank D)[slot D k p]? = some (blankValue combine blank k) := by
  have h := levels_get (fun level => blankValue combine blank (D - level))
    (show D - k < D + 1 by omega) hp
  rw [show D - (D - k) = k by omega] at h
  exact h

theorem blankNodes_holds (combine : α → α → α) (blank : α) (D : Nat) :
    Holds combine (fun _ => blank) D 0 (blankNodes combine blank D) :=
  ⟨blankNodes_length combine blank D, fun k hk p hp _ => by
    rw [value_const]; exact blankNodes_get combine blank hk hp⟩

/-! ## Doubling -/

/-- Where the node at index `i` goes when the tree becomes the left half of a larger
one: its level starts where the next level started. -/
def embedIndex (i : Nat) : Nat := i + 2 ^ (i + 1).log2

theorem embedIndex_slot {D k p : Nat} (hk : k ≤ D) (hp : p < 2 ^ (D - k)) :
    embedIndex (slot D k p) = slot (D + 1) k p := by
  have hpos := Nat.two_pow_pos (D - k)
  have hlog : (slot D k p + 1).log2 = D - k := by
    rw [Nat.log2_eq_iff (by omega)]
    have hsucc : 2 ^ (D - k + 1) = 2 * 2 ^ (D - k) := Nat.pow_succ'
    unfold slot
    omega
  have hsucc : 2 ^ (D + 1 - k) = 2 * 2 ^ (D - k) := by
    rw [show D + 1 - k = (D - k) + 1 by omega, Nat.pow_succ']
  unfold embedIndex
  rw [hlog]
  unfold slot
  omega

/-- Write a list of nodes, each at its index in the larger array. -/
def embed : Nat → List α → List α → List α
  | _, [], target => target
  | i, x :: nodes, target => embed (i + 1) nodes (target.set (embedIndex i) x)

theorem embed_length (i : Nat) (nodes target : List α) :
    (embed i nodes target).length = target.length := by
  induction nodes generalizing i target with
  | nil => rfl
  | cons x nodes ih => simp only [embed, ih, List.length_set]

theorem embedIndex_lt {i j : Nat} (h : i < j) : embedIndex i < embedIndex j := by
  have hlog : (i + 1).log2 ≤ (j + 1).log2 := by
    rw [Nat.le_log2 (by omega)]
    exact le_trans (Nat.log2_self_le (by omega)) (by omega)
  have hpow : 2 ^ (i + 1).log2 ≤ 2 ^ (j + 1).log2 := Nat.pow_le_pow_right (by omega) hlog
  unfold embedIndex
  omega

theorem embed_get_of_ne {i t : Nat} {nodes target : List α}
    (h : ∀ j, i ≤ j → j < i + nodes.length → embedIndex j ≠ t) :
    (embed i nodes target)[t]? = target[t]? := by
  induction nodes generalizing i target with
  | nil => rfl
  | cons x nodes ih =>
      simp only [List.length_cons] at h
      simp only [embed]
      rw [ih fun j hj hlt => h j (by omega) (by omega),
        List.getElem?_set_ne (h i (by omega) (by omega))]

theorem embed_get {i j : Nat} {nodes target : List α} (hj : j < nodes.length)
    (ht : embedIndex (i + j) < target.length) :
    (embed i nodes target)[embedIndex (i + j)]? = nodes[j]? := by
  induction nodes generalizing i j target with
  | nil => simp at hj
  | cons x nodes ih =>
      simp only [embed]
      cases j with
      | zero =>
          rw [embed_get_of_ne fun j hij _ => ne_of_gt (embedIndex_lt (by omega)),
            Nat.add_zero, List.getElem?_set_self (by simpa using ht)]
          rfl
      | succ j =>
          rw [show i + (j + 1) = (i + 1) + j by omega] at ht ⊢
          rw [ih (by simpa using hj) (by simpa using ht)]
          rfl

/-- **Doubling.**  A full tree written into a blank array of twice its size is the same
tree, correct on all heights of the old one. -/
theorem Holds.embed {leaf : Nat → α} {D : Nat} {nodes : List α} {blank : α}
    (h : Holds combine leaf D D nodes) (hblank : ∀ j, 2 ^ D ≤ j → leaf j = blank) :
    Holds combine leaf (D + 1) D (embed 0 nodes (blankNodes combine blank (D + 1))) := by
  refine ⟨by rw [embed_length, blankNodes_length], fun k hk p hp hspine => ?_⟩
  by_cases hold : k ≤ D ∧ p < 2 ^ (D - k)
  · -- a node of the old tree
    obtain ⟨hkD, hpD⟩ := hold
    have hlt : slot D k p < nodes.length := by rw [h.length_eq]; exact slot_lt hpD
    have hget : (PerfectTree.embed 0 nodes (blankNodes combine blank (D + 1)))[embedIndex
        (0 + slot D k p)]? = nodes[slot D k p]? :=
      embed_get hlt
        (by rw [Nat.zero_add, embedIndex_slot hkD hpD, blankNodes_length]; exact slot_lt hp)
    rw [Nat.zero_add, embedIndex_slot hkD hpD] at hget
    rw [hget, h.get k hkD p hpD (.inl hkD)]
  · rw [embed_get_of_ne, blankNodes_get combine blank hk hp]
    · -- all leaves below are past the old tree
      congr 1
      refine (value_eq_blankValue fun j hj => hblank j ?_).symm
      have hp0 : k ≤ D → 2 ^ (D - k) ≤ p := fun hkD => by
        by_contra hlt
        exact hold ⟨hkD, by omega⟩
      by_cases hkD : k ≤ D
      · have hmul : 2 ^ (D - k) * 2 ^ k ≤ p * 2 ^ k := Nat.mul_le_mul_right _ (hp0 hkD)
        rw [← Nat.pow_add, Nat.sub_add_cancel hkD] at hmul
        have hle := Nat.div_mul_le_self j (2 ^ k)
        rw [hj] at hle
        omega
      · rw [show D + 1 - k = 0 by omega] at hp
        exact absurd (hspine.resolve_left hkD) (by omega)
    · intro j _ hj
      rw [Nat.zero_add, h.length_eq] at hj
      obtain ⟨k', hk', p', hp', rfl⟩ := exists_slot hj
      rw [embedIndex_slot hk' hp']
      intro heq
      have htwo : 2 ^ (D - k') ≤ 2 ^ (D + 1 - k') := Nat.pow_le_pow_right (by omega) (by omega)
      obtain ⟨rfl, rfl⟩ := slot_inj (by omega) hk (by omega) hp heq
      exact hold ⟨hk', hp'⟩

end ExecutionZone.PerfectTree
