import ExecutionZone.Lib.Enumeration
import ExecutionZone.Lib.Fault
import Mathlib.Combinatorics.Enumerative.Composition

/-!
# Paths in a key tree

`ChainIndex`: the numbers of the children on the way from the root.  The layer of a path is
the sum of these numbers, each counted one more, so a path is one layer below its left
neighbour, and below its parent.

The paths of a layer are enumerated from the one with zeros only: the last two numbers of a
path are merged, and all orders of what results are visited in turn.  `layer_enumeration_complete`
says that this ends and lists every path of the layer, once.  A path with a number other than
zero is an order of one in which this number was merged last, which the induction on the
length uses.
-/

namespace ExecutionZone

open Enumeration

/-- A path in a key tree. -/
abbrev ChainIndex := List UInt32

/-- `checked_add` on `u32`. -/
def checkedAddU32 (a b : UInt32) : Option UInt32 :=
  if a.toNat + b.toNat < 2 ^ 32 then some (a + b) else none

theorem checkedAddU32_eq_some {a b c : UInt32} :
    checkedAddU32 a b = some c ↔ c.toNat = a.toNat + b.toNat := by
  unfold checkedAddU32
  split
  · rename_i hlt
    rw [Option.some.injEq, ← UInt32.toNat_inj, UInt32.toNat_add, Nat.mod_eq_of_lt hlt]
    exact eq_comm
  · rename_i hge
    refine iff_of_false (by simp) fun heq => hge ?_
    rw [← heq]
    exact c.toNat_lt

namespace ChainIndex

/-- `root`. -/
def root : ChainIndex := []

/-- `index`. -/
def index (chainIndex : ChainIndex) : Option UInt32 := chainIndex.getLast?

/-- `next_in_line`. -/
def nextInLine (chainIndex : ChainIndex) : Option ChainIndex :=
  match chainIndex.getLast? with
  | none => some chainIndex
  | some last => (checkedAddU32 last 1).map fun last => chainIndex.dropLast ++ [last]

/-- `parent`. -/
def parent (chainIndex : ChainIndex) : Option ChainIndex :=
  if chainIndex = [] then none else some chainIndex.dropLast

/-- `nth_child`. -/
def nthChild (chainIndex : ChainIndex) (childId : UInt32) : ChainIndex := chainIndex ++ [childId]

/-- The layer of a path: its depth, without a bound. -/
def layer (chainIndex : ChainIndex) : Nat := (chainIndex.map fun cci => cci.toNat + 1).sum

/-- `depth`. -/
def depth (chainIndex : ChainIndex) : Except Panic Nat := do
  ensure (chainIndex.all fun cci => cci.toNat + 1 < 2 ^ 32) "Max cci reached"
  ensure (chainIndex.layer < 2 ^ 32) "attempt to add with overflow"
  return chainIndex.layer

/-- `collapse_back`. -/
def collapseBack (chainIndex : ChainIndex) : Option ChainIndex := do
  let res ← chainIndex.parent
  let lastMut ← res.getLast?
  let last ← chainIndex.getLast?
  let last ← checkedAddU32 lastMut (← checkedAddU32 last 1)
  return res.dropLast ++ [last]

/-- `shuffle_iter`. -/
def shuffleIter (chainIndex : ChainIndex) : List ChainIndex := (permutations chainIndex).eraseDups

/-- What the loop of `chain_ids_at_depth` pushes for a path. -/
def collapsed (chainIndex : ChainIndex) : List ChainIndex :=
  match chainIndex.collapseBack with
  | some collapsedId => collapsedId.shuffleIter
  | none => []

/-- A number of turns that is enough for a path of the given length. -/
def turns : Nat → Nat
  | 0 => 1
  | n + 1 => 1 + n.factorial * turns n

/-- The cumulative stack of `chain_ids_at_depth`, if the loop ends within the given number of
turns. -/
def cumulativeStack (turns depth : Nat) : Option (List ChainIndex) :=
  search collapsed turns [List.replicate depth 0] [List.replicate depth 0]

/-- `chain_ids_at_depth`. -/
def chainIdsAtDepth (depth : Nat) : List ChainIndex :=
  ((cumulativeStack (turns depth) depth).getD []).eraseDups

/-- `chain_ids_at_depth_rev`. -/
def chainIdsAtDepthRev (depth : Nat) : List ChainIndex :=
  (((cumulativeStack (turns depth) depth).getD []).reverse).eraseDups

/-! ## Layers -/

variable {c c' : ChainIndex} {i : UInt32} {n : Nat}

@[simp] theorem layer_nil : layer [] = 0 := rfl

@[simp] theorem layer_append (c c' : ChainIndex) : layer (c ++ c') = c.layer + c'.layer := by
  rw [layer, List.map_append, List.sum_append]
  rfl

@[simp] theorem layer_singleton (i : UInt32) : layer [i] = i.toNat + 1 := rfl

@[simp] theorem layer_nthChild (c : ChainIndex) (i : UInt32) :
    (c.nthChild i).layer = c.layer + i.toNat + 1 := by
  rw [nthChild, layer_append, layer_singleton, Nat.add_assoc]

theorem layer_perm (h : c.Perm c') : c.layer = c'.layer := (h.map _).sum_eq

theorem layer_replicate (n : Nat) : layer (List.replicate n 0) = n := by
  rw [layer, List.map_replicate, List.sum_replicate_nat]
  exact Nat.mul_one n

theorem length_le_layer (c : ChainIndex) : c.length ≤ c.layer := by
  induction c with
  | nil => exact le_rfl
  | cons i c ih =>
      rw [layer, List.map_cons, List.sum_cons, List.length_cons]
      change c.length + 1 ≤ i.toNat + 1 + layer c
      omega

theorem lt_of_mem (h : i ∈ c) : i.toNat < c.layer :=
  Nat.lt_of_succ_le (List.le_sum_of_mem (List.mem_map_of_mem h))

/-- Where it is below the bound, `depth` is the layer. -/
theorem depth_of_lt (h : c.layer < 2 ^ 32) : c.depth = .ok c.layer := by
  have hall : (c.all fun cci => cci.toNat + 1 < 2 ^ 32) = true := by
    refine List.all_eq_true.2 fun cci hcci => decide_eq_true ?_
    have := lt_of_mem hcci
    omega
  simp only [depth, ensure_of _ hall, ensure_of _ h]
  rfl

/-! ## Children -/

theorem nthChild_inj {p p' : ChainIndex} {i i' : UInt32} :
    p.nthChild i = p'.nthChild i' ↔ p = p' ∧ i = i' := by
  constructor
  · intro h
    obtain ⟨hp, hi⟩ := List.append_inj' h rfl
    exact ⟨hp, List.singleton_inj.1 hi⟩
  · rintro ⟨rfl, rfl⟩
    rfl

theorem nthChild_ne_nil (p : ChainIndex) (i : UInt32) : p.nthChild i ≠ [] :=
  List.append_ne_nil_of_right_ne_nil _ (List.cons_ne_nil _ _)

theorem nthChild_ne_self (p : ChainIndex) (i : UInt32) : p.nthChild i ≠ p := by
  intro h
  have hlayer := congrArg layer h
  rw [layer_nthChild] at hlayer
  omega

/-- A path that is not the root is a child. -/
theorem exists_nthChild (h : 1 ≤ c.layer) : ∃ p i, c = nthChild p i := by
  rcases c.eq_nil_or_concat' with rfl | ⟨p, i, hc⟩
  · cases h
  · exact ⟨p, i, hc⟩

@[simp] theorem index_nthChild (p : ChainIndex) (i : UInt32) : (p.nthChild i).index = some i :=
  List.getLast?_concat

@[simp] theorem parent_nthChild (p : ChainIndex) (i : UInt32) : (p.nthChild i).parent = some p := by
  rw [parent, if_neg (nthChild_ne_nil p i), nthChild, List.dropLast_concat]

theorem eq_nthChild_of_parent {p : ChainIndex} (h : c.parent = some p) :
    ∃ i, c = p.nthChild i := by
  rcases c.eq_nil_or_concat' with rfl | ⟨p', i, rfl⟩
  · cases h
  · rw [show p' ++ [i] = nthChild p' i from rfl, parent_nthChild] at h
    exact ⟨i, Option.some.inj h ▸ rfl⟩

theorem toNat_add_one (h : i.toNat + 1 < 2 ^ 32) : (i + 1).toNat = i.toNat + 1 := by
  rw [UInt32.toNat_add]
  exact Nat.mod_eq_of_lt h

theorem nextInLine_nthChild (p : ChainIndex) (h : i.toNat + 1 < 2 ^ 32) :
    (p.nthChild i).nextInLine = some (p.nthChild (i + 1)) := by
  have hadd : checkedAddU32 i 1 = some (i + 1) := checkedAddU32_eq_some.2 (toNat_add_one h)
  simp only [nextInLine, nthChild, List.getLast?_concat, hadd, Option.map_some,
    List.dropLast_concat]

/-! ## Collapsing -/

theorem parent_append (c : ChainIndex) (i : UInt32) : (c ++ [i]).parent = some c :=
  parent_nthChild c i

/-- The last two numbers are merged, if the result is a number. -/
theorem collapseBack_eq_some :
    c.collapseBack = some c' ↔ ∃ front a b v, c = front ++ [a, b] ∧ c' = front ++ [v] ∧
      v.toNat = a.toNat + b.toNat + 1 := by
  rcases c.eq_nil_or_concat' with rfl | ⟨init, b, rfl⟩
  · simp [collapseBack, parent]
  rcases init.eq_nil_or_concat' with rfl | ⟨front, a, rfl⟩
  · simp only [collapseBack, parent_append, List.getLast?_nil, Option.bind_eq_bind,
      Option.bind_some, Option.bind_none, reduceCtorEq, false_iff]
    rintro ⟨front, a, b', v, hc, -⟩
    have hlen := congrArg List.length hc
    simp at hlen
  · simp only [collapseBack, parent_append, List.getLast?_concat, Option.bind_eq_bind,
      Option.bind_some, Option.bind_eq_some_iff, checkedAddU32_eq_some, List.dropLast_concat,
      Option.pure_def, Option.some.injEq]
    rw [List.append_assoc, List.singleton_append]
    constructor
    · rintro ⟨b', hb', v, hv, rfl⟩
      refine ⟨front, a, b, v, rfl, rfl, ?_⟩
      rw [hv, hb', Nat.add_assoc]
      rfl
    · rintro ⟨front', a', b', v, hc, rfl, hv⟩
      obtain ⟨rfl, hab⟩ := List.append_inj' hc rfl
      cases hab
      have hlt : b.toNat + 1 < 2 ^ 32 := by
        have := v.toNat_lt
        omega
      have hsucc := toNat_add_one hlt
      refine ⟨b + 1, hsucc, v, ?_, rfl⟩
      rw [hv, hsucc, Nat.add_assoc]

theorem mem_collapsed : c' ∈ c.collapsed ↔ ∃ front a b v, c = front ++ [a, b] ∧
    c'.Perm (front ++ [v]) ∧ v.toNat = a.toNat + b.toNat + 1 := by
  unfold collapsed
  rcases hcollapse : c.collapseBack with _ | z
  · refine iff_of_false List.not_mem_nil ?_
    rintro ⟨front, a, b, v, hc, -, hv⟩
    rw [collapseBack_eq_some.2 ⟨front, a, b, v, hc, rfl, hv⟩] at hcollapse
    cases hcollapse
  · obtain ⟨front, a, b, v, rfl, rfl, hv⟩ := collapseBack_eq_some.1 hcollapse
    simp only [shuffleIter, List.mem_eraseDups, mem_permutations]
    constructor
    · exact fun hperm => ⟨front, a, b, v, rfl, hperm, hv⟩
    · rintro ⟨front', a', b', v', hc, hperm, hv'⟩
      obtain ⟨rfl, hab⟩ := List.append_inj' hc rfl
      cases hab
      rwa [UInt32.toNat_inj.1 (hv'.trans hv.symm)] at hperm

/-- Collapsing stays in the layer. -/
theorem layer_of_mem_collapsed (h : c' ∈ c.collapsed) : c'.layer = c.layer := by
  obtain ⟨front, a, b, v, rfl, hperm, hv⟩ := mem_collapsed.1 h
  have hab : layer [a, b] = a.toNat + 1 + (b.toNat + 1) := rfl
  rw [layer_perm hperm, layer_append, layer_append, layer_singleton, hv, hab]
  omega

theorem length_of_mem_collapsed (h : c' ∈ c.collapsed) : c.length = c'.length + 1 := by
  obtain ⟨front, a, b, v, rfl, hperm, _⟩ := mem_collapsed.1 h
  rw [hperm.length_eq, List.length_append, List.length_append]
  rfl

theorem length_collapsed_le (c : ChainIndex) : c.collapsed.length ≤ (c.length - 1).factorial := by
  unfold collapsed
  rcases hcollapse : c.collapseBack with _ | z
  · exact Nat.zero_le _
  · obtain ⟨front, a, b, v, rfl, rfl, _⟩ := collapseBack_eq_some.1 hcollapse
    refine (length_eraseDups_le _).trans (le_of_eq ?_)
    rw [length_permutations, List.length_append, List.length_append]
    rfl

/-! ## The enumeration -/

theorem sum_turns_lt (c : ChainIndex) :
    (c.collapsed.map fun c' => turns c'.length).sum < turns c.length := by
  have hlen := length_collapsed_le c
  rcases hc : c.length with _ | n
  · have hnil : c.collapsed = [] := by
      refine List.eq_nil_iff_forall_not_mem.2 fun c' hc' => ?_
      rw [length_of_mem_collapsed hc'] at hc
      cases hc
    rw [hnil]
    exact Nat.zero_lt_one
  · have hall : ∀ c' ∈ c.collapsed, turns c'.length = turns n := by
      intro c' hc'
      rw [length_of_mem_collapsed hc'] at hc
      rw [Nat.succ.inj hc]
    rw [hc] at hlen
    rw [List.map_congr_left hall, List.map_const', List.sum_replicate_nat, turns, Nat.add_comm 1]
    exact Nat.lt_succ_of_le (Nat.mul_le_mul_right _ hlen)

/-- **Termination.**  The loop ends, and what it has found does not depend on how many turns
it was given. -/
theorem exists_cumulativeStack (d : Nat) :
    ∃ ids, ∀ n, turns d ≤ n → cumulativeStack n d = some ids := by
  have hweight : ([List.replicate d (0 : UInt32)].map fun c => turns c.length).sum ≤ turns d := by
    rw [List.map_singleton, List.sum_singleton, List.length_replicate]
  obtain ⟨ids, hids⟩ : ∃ ids, cumulativeStack (turns d) d = some ids :=
    exists_search sum_turns_lt hweight
  exact ⟨ids, fun n hn => search_of_le hids hn⟩

/-- **Completeness.**  From the path with zeros every path of its layer is reached. -/
theorem reachable_of_layer {d : Nat} (h : c.layer = d) :
    Relation.ReflTransGen (fun c c' => c' ∈ collapsed c) (List.replicate d 0) c := by
  -- a path with a number other than zero is longer by one before this number is merged
  induction hn : d - c.length using Nat.strong_induction_on generalizing c with
  | _ n ih =>
      by_cases hzero : ∀ i ∈ c, i = 0
      · have hc : c = List.replicate c.length 0 := List.eq_replicate_of_mem hzero
        rw [hc, layer_replicate] at h
        rw [← h, ← hc]
      · push Not at hzero
        obtain ⟨v, hv, hne⟩ := hzero
        have hpos : 0 < v.toNat := Nat.pos_of_ne_zero fun heq => hne (UInt32.toNat_inj.1 heq)
        have hperm : c.Perm (c.erase v ++ [v]) :=
          (List.perm_cons_erase hv).trans (List.perm_append_singleton v _).symm
        have hsub : (v - 1).toNat + 1 = v.toNat := by
          rw [UInt32.toNat_sub_of_le v 1 (UInt32.le_iff_toNat_le.2 hpos)]
          exact Nat.sub_add_cancel hpos
        -- the path in which `v` is still two numbers
        let split : ChainIndex := c.erase v ++ [v - 1, 0]
        have hmem : c ∈ split.collapsed :=
          mem_collapsed.2 ⟨c.erase v, v - 1, 0, v, rfl, hperm, hsub.symm⟩
        have hlayer : split.layer = d := (layer_of_mem_collapsed hmem).symm.trans h
        have hlength := length_of_mem_collapsed hmem
        have hle := length_le_layer split
        exact (ih (d - split.length) (by omega) hlayer rfl).tail hmem

theorem mem_cumulativeStack {d : Nat} {ids : List ChainIndex}
    (h : cumulativeStack n d = some ids) : c ∈ ids ↔ c.layer = d := by
  rw [mem_search h]
  refine ⟨fun hreach => ?_, reachable_of_layer⟩
  induction hreach with
  | refl => exact layer_replicate d
  | tail _ hmem ih => exact (layer_of_mem_collapsed hmem).trans ih

theorem mem_chainIdsAtDepth {d : Nat} : c ∈ chainIdsAtDepth d ↔ c.layer = d := by
  obtain ⟨ids, hids⟩ := exists_cumulativeStack d
  have hstack := hids _ le_rfl
  rw [chainIdsAtDepth, hstack, List.mem_eraseDups]
  exact mem_cumulativeStack hstack

theorem mem_chainIdsAtDepthRev {d : Nat} : c ∈ chainIdsAtDepthRev d ↔ c.layer = d := by
  obtain ⟨ids, hids⟩ := exists_cumulativeStack d
  have hstack := hids _ le_rfl
  rw [chainIdsAtDepthRev, hstack, List.mem_eraseDups, List.mem_reverse]
  exact mem_cumulativeStack hstack

/-! ## The size of a layer -/

/-- The path whose numbers, counted one more, are the blocks of a composition. -/
def ofComposition {d : Nat} (comp : Composition d) : ChainIndex :=
  comp.blocks.map fun b => UInt32.ofNat (b - 1)

theorem map_ofComposition {d : Nat} (hd : d ≤ 2 ^ 32) (comp : Composition d) :
    (ofComposition comp).map (fun cci => cci.toNat + 1) = comp.blocks := by
  rw [ofComposition, List.map_map]
  refine (List.map_congr_left fun b hb => ?_).trans (List.map_id _)
  have hpos := comp.blocks_pos hb
  have hle : b ≤ d := comp.blocks_sum ▸ List.le_sum_of_mem hb
  have hlt : b - 1 < 2 ^ 32 := by omega
  simp only [Function.comp_apply, UInt32.toNat_ofNat_of_lt' hlt, id]
  omega

theorem exists_ofComposition {d : Nat} (h : c.layer = d) :
    ∃ comp : Composition d, ofComposition comp = c := by
  refine ⟨⟨c.map fun cci : UInt32 => cci.toNat + 1, fun hi => ?_, h⟩, ?_⟩
  · obtain ⟨cci, _, rfl⟩ := List.mem_map.1 hi
    exact Nat.succ_pos _
  · rw [ofComposition, List.map_map]
    refine (List.map_congr_left fun cci _ => ?_).trans (List.map_id _)
    simp only [Function.comp_apply, Nat.add_sub_cancel, UInt32.ofNat_toNat, id]

/-- A layer has as many paths as its number has compositions. -/
theorem length_of_forall_mem {d : Nat} {ids : List ChainIndex} (hd : d ≤ 2 ^ 32)
    (hnodup : ids.Nodup) (hmem : ∀ c, c ∈ ids ↔ layer c = d) : ids.length = 2 ^ (d - 1) := by
  have hinjective : Function.Injective (ofComposition (d := d)) := by
    intro comp comp' heq
    refine Composition.ext ?_
    rw [← map_ofComposition hd comp, heq, map_ofComposition hd comp']
  have hperm : ids.Perm ((Finset.univ : Finset (Composition d)).toList.map ofComposition) := by
    refine (List.perm_ext_iff_of_nodup hnodup ((Finset.nodup_toList _).map hinjective)).2 ?_
    intro c
    rw [hmem, List.mem_map]
    constructor
    · intro hlayer
      obtain ⟨comp, hcomp⟩ := exists_ofComposition hlayer
      exact ⟨comp, Finset.mem_toList.2 (Finset.mem_univ comp), hcomp⟩
    · rintro ⟨comp, -, rfl⟩
      rw [layer, map_ofComposition hd, comp.blocks_sum]
  rw [hperm.length_eq, List.length_map, Finset.length_toList, Finset.card_univ, composition_card]

theorem eq_nil_of_layer (h : c.layer = 0) : c = [] :=
  List.length_eq_zero_iff.1 (Nat.le_zero.1 (h ▸ length_le_layer c))

theorem eq_root_of_forall_mem {ids : List ChainIndex} (hnodup : ids.Nodup)
    (hmem : ∀ c, c ∈ ids ↔ layer c = 0) : ids = [root] := by
  refine List.perm_singleton.1 ((List.perm_ext_iff_of_nodup hnodup (List.nodup_singleton _)).2 ?_)
  intro c
  rw [hmem, List.mem_singleton]
  constructor
  · exact eq_nil_of_layer
  · rintro rfl
    exact layer_nil

/-- **Layers.**  For every depth, both enumerations end and list every path of the layer once,
and nothing else: the root for `0`, and for other numbers that fit in a depth as many as there
are compositions of the number. -/
theorem layer_enumeration_complete (d : Nat) :
    (∃ ids, ∀ n, turns d ≤ n → cumulativeStack n d = some ids) ∧
    ((chainIdsAtDepth d).Nodup ∧ ∀ c, c ∈ chainIdsAtDepth d ↔ layer c = d) ∧
    ((chainIdsAtDepthRev d).Nodup ∧ ∀ c, c ∈ chainIdsAtDepthRev d ↔ layer c = d) ∧
    (d = 0 → chainIdsAtDepth d = [root] ∧ chainIdsAtDepthRev d = [root]) ∧
    (1 ≤ d → d ≤ 2 ^ 32 →
      (chainIdsAtDepth d).length = 2 ^ (d - 1) ∧ (chainIdsAtDepthRev d).length = 2 ^ (d - 1)) := by
  have hnodup : (chainIdsAtDepth d).Nodup := nodup_eraseDups _
  have hnodupRev : (chainIdsAtDepthRev d).Nodup := nodup_eraseDups _
  have hmem : ∀ c, c ∈ chainIdsAtDepth d ↔ layer c = d := fun c => mem_chainIdsAtDepth
  have hmemRev : ∀ c, c ∈ chainIdsAtDepthRev d ↔ layer c = d := fun c => mem_chainIdsAtDepthRev
  refine ⟨exists_cumulativeStack d, ⟨hnodup, hmem⟩, ⟨hnodupRev, hmemRev⟩, ?_, ?_⟩
  · rintro rfl
    exact ⟨eq_root_of_forall_mem hnodup hmem, eq_root_of_forall_mem hnodupRev hmemRev⟩
  · intro _ hd
    exact ⟨length_of_forall_mem hd hnodup hmem, length_of_forall_mem hd hnodupRev hmemRev⟩

/-- The four paths of layer `3`, in both orders. -/
theorem layer_enumeration_complete_third :
    (chainIdsAtDepth 3).length = 2 ^ (3 - 1) ∧ (chainIdsAtDepthRev 3).length = 2 ^ (3 - 1) ∧
    chainIdsAtDepth 3 = [[0, 0, 0], [0, 1], [1, 0], [2]] ∧
    chainIdsAtDepthRev 3 = [[2], [1, 0], [0, 1], [0, 0, 0]] := by
  obtain ⟨hlength, hlengthRev⟩ :=
    (layer_enumeration_complete 3).2.2.2.2 (by decide) (by decide)
  exact ⟨hlength, hlengthRev, by decide +kernel, by decide +kernel⟩

end ChainIndex

end ExecutionZone
