import ExecutionZone.Core.Hashing

/-!
# The commitment tree

`nssa::merkle_tree`: an append-only tree of SHA-256 hashes in an array, whose
capacity doubles when it is full.  The root is that of the smallest perfect subtree
holding all values, so it sits on the left spine below index `0` most of the time,
and inserting updates only the nodes up to it.

`Represents t values` says that `t` is the tree of `values`.  Insertion keeps it
(`represents_insert`), and under it the root is the value of a perfect tree over the
leaf hashes, on which `PerfectTree.leaf_of_climb_eq` applies.

The table `DEFAULT_VALUES` of the source holds 32 iterated hashes of the zero node;
here they are computed, and the length of the table is what bounds the capacity.
-/

namespace ExecutionZone

open PerfectTree

/-! ## Powers of two -/

/-- The exponent of `usize::next_power_of_two`. -/
def logNextPowerOfTwo (n : Nat) : Nat := if n ≤ 1 then 0 else (n - 1).log2 + 1

theorem le_two_pow_logNextPowerOfTwo (n : Nat) : n ≤ 2 ^ logNextPowerOfTwo n := by
  unfold logNextPowerOfTwo
  split
  · simpa
  · have h := Nat.lt_log2_self (n := n - 1)
    omega

theorem logNextPowerOfTwo_le {n d : Nat} (h : n ≤ 2 ^ d) : logNextPowerOfTwo n ≤ d := by
  unfold logNextPowerOfTwo
  split
  · omega
  · rename_i hn
    have hlt := (Nat.log2_lt (n := n - 1) (k := d) (by omega)).2 (by omega)
    omega

theorem logNextPowerOfTwo_two_pow (d : Nat) : logNextPowerOfTwo (2 ^ d) = d := by
  refine le_antisymm (logNextPowerOfTwo_le le_rfl) ?_
  exact (Nat.pow_le_pow_iff_right (by decide)).1 (le_two_pow_logNextPowerOfTwo (2 ^ d))

theorem logNextPowerOfTwo_mono {m n : Nat} (h : m ≤ n) :
    logNextPowerOfTwo m ≤ logNextPowerOfTwo n :=
  logNextPowerOfTwo_le (le_trans h (le_two_pow_logNextPowerOfTwo n))

theorem logNextPowerOfTwo_succ_le (n : Nat) :
    logNextPowerOfTwo (n + 1) ≤ logNextPowerOfTwo n + 1 := by
  refine logNextPowerOfTwo_le ?_
  have h := le_two_pow_logNextPowerOfTwo n
  have hpos := Nat.two_pow_pos (logNextPowerOfTwo n)
  rw [Nat.pow_succ]
  omega

/-! ## The code -/

variable [Sha256]

instance : Inhabited Bytes32 := ⟨Bytes32.zero⟩

/-- `hash_value`. -/
def hashValue (value : Bytes32) : Bytes32 := sha256 (leafPreimage value)

/-- The tree: its nodes in heap order, the number of leaves it has room for and the
number it holds. -/
structure MerkleTree where
  nodes : List Bytes32
  capacity : Nat
  length : Nat
deriving DecidableEq

namespace MerkleTree

/-- The number of entries of `DEFAULT_VALUES`. -/
def numberOfDefaultValues : Nat := 32

/-- `with_capacity`; slicing the table of default values fails on a larger depth. -/
def withCapacity (capacity : Nat) : Except Panic MerkleTree := do
  let totalDepth := logNextPowerOfTwo capacity
  ensure (totalDepth < numberOfDefaultValues) "range end index out of range for slice"
  return ⟨blankNodes hashTwo Bytes32.zero totalDepth, 2 ^ totalDepth, 0⟩

/-- `depth`: the number of levels needed to hold all values. -/
def depth (t : MerkleTree) : Nat := logNextPowerOfTwo t.length

/-- The depth of the allocated tree; the capacity is a power of two. -/
def capacityDepth (t : MerkleTree) : Nat := t.capacity.log2

/-- `root_index`. -/
def rootIndex (t : MerkleTree) : Nat :=
  if t.depth = t.capacityDepth then 0 else 2 ^ (t.capacityDepth - t.depth) - 1

/-- `root`. -/
def root (t : MerkleTree) : Bytes32 := t.nodes.getD t.rootIndex default

/-- `reallocate_to_double_capacity`. -/
def reallocateToDoubleCapacity (t : MerkleTree) : Except Panic MerkleTree := do
  let this ← withCapacity (2 * t.capacity)
  return ⟨embed 0 t.nodes this.nodes, this.capacity, t.length⟩

/-- The part of `insert` after the capacity is known to suffice. -/
def insertLeaf (t : MerkleTree) (value : Bytes32) : MerkleTree :=
  let nodeIndex := t.length + t.capacity - 1
  let length := t.length + 1
  ⟨refresh hashTwo (logNextPowerOfTwo length) nodeIndex (t.nodes.set nodeIndex (hashValue value)),
    t.capacity, length⟩

/-- The reallocation at the start of `insert`. -/
def withRoom (t : MerkleTree) : Except Panic MerkleTree :=
  if t.length = t.capacity then t.reallocateToDoubleCapacity else .ok t

/-- `insert`, returning the index of the new leaf. -/
def insert (t : MerkleTree) (value : Bytes32) : Except Panic (Nat × MerkleTree) := do
  let t ← t.withRoom
  return (t.length, t.insertLeaf value)

/-- The loop of `get_authentication_path_for`: the siblings from a node up to the root. -/
def authenticationPath (nodes : List Bytes32) (rootIndex nodeIndex : Nat) :
    Except Panic (List Bytes32) :=
  if nodeIndex = rootIndex then .ok []
  else if nodeIndex = 0 then .error "attempt to subtract with overflow"
  else do
    let node ← expect nodes[siblingIndex nodeIndex]? "index out of bounds"
    return node :: (← authenticationPath nodes rootIndex ((nodeIndex - 1) / 2))
termination_by nodeIndex
decreasing_by omega

/-- `get_authentication_path_for`. -/
def getAuthenticationPathFor (t : MerkleTree) (index : Nat) :
    Except Panic (Option (List Bytes32)) :=
  if t.length ≤ index then .ok none
  else do return some (← authenticationPath t.nodes t.rootIndex (t.capacity + index - 1))

/-- The strings hashed into the inner nodes below the root. -/
def hashedPairs (t : MerkleTree) : Set Bytes :=
  { s | ∃ k p, k < t.depth ∧ p < 2 ^ (t.depth - k - 1) ∧
      s = nodePreimage (t.nodes.getD (slot t.capacityDepth k (2 * p)) default)
        (t.nodes.getD (slot t.capacityDepth k (2 * p + 1)) default) }

end MerkleTree

/-! ## The tree of a list of values -/

namespace MerkleTree

/-- The leaves of the tree of `values`: a leaf without a value is the zero node. -/
def leafAt (values : List Bytes32) (j : Nat) : Bytes32 :=
  (values.map hashValue).getD j Bytes32.zero

/-- `t` is the tree of `values`. -/
structure Represents (t : MerkleTree) (values : List Bytes32) : Prop where
  length_eq : t.length = values.length
  capacity_eq : t.capacity = 2 ^ t.capacityDepth
  length_le : t.length ≤ t.capacity
  holds : Holds hashTwo (leafAt values) t.capacityDepth t.depth t.nodes

theorem leafAt_append (values : List Bytes32) (v : Bytes32) :
    leafAt (values ++ [v]) = Function.update (leafAt values) values.length (hashValue v) := by
  funext j
  by_cases hj : j = values.length
  · subst hj
    simp [leafAt]
  · rw [Function.update_of_ne hj]
    simp only [leafAt, List.getD_eq_getElem?_getD, List.getElem?_map]
    rcases Nat.lt_or_gt_of_ne hj with hlt | hgt
    · rw [List.getElem?_append_left hlt]
    · rw [List.getElem?_eq_none (by simp; omega), List.getElem?_eq_none (by omega)]

theorem leafAt_of_le {values : List Bytes32} {j : Nat} (h : values.length ≤ j) :
    leafAt values j = Bytes32.zero := by
  simp [leafAt, h]

theorem withCapacity_eq_ok {n : Nat} {t : MerkleTree} (h : withCapacity n = .ok t) :
    t = ⟨blankNodes hashTwo Bytes32.zero (logNextPowerOfTwo n), 2 ^ logNextPowerOfTwo n, 0⟩ := by
  simp only [withCapacity, bind_eq_ok, ensure_eq_ok, exists_const, pure, Except.pure,
    Except.ok.injEq] at h
  exact h.2.symm

/-- A new tree is the tree of no values. -/
theorem represents_withCapacity {n : Nat} {t : MerkleTree} (h : withCapacity n = .ok t) :
    Represents t [] := by
  rw [withCapacity_eq_ok h]
  refine ⟨rfl, ?_, Nat.zero_le _, ?_⟩
  · simp [capacityDepth]
  · have hblank : leafAt [] = fun _ => Bytes32.zero := by funext j; simp [leafAt]
    simp only [hblank, capacityDepth, Nat.log2_two_pow, depth]
    exact blankNodes_holds hashTwo Bytes32.zero _

theorem Represents.depth_le {t : MerkleTree} {values : List Bytes32} (h : Represents t values) :
    t.depth ≤ t.capacityDepth :=
  logNextPowerOfTwo_le (h.capacity_eq ▸ h.length_le)

/-- A full tree of twice the capacity is the tree of the same values. -/
theorem represents_reallocate {t t' : MerkleTree} {values : List Bytes32}
    (h : Represents t values) (hfull : t.length = t.capacity)
    (hr : t.reallocateToDoubleCapacity = .ok t') :
    Represents t' values ∧ t'.length < t'.capacity := by
  simp only [reallocateToDoubleCapacity, bind_eq_ok, pure, Except.pure, Except.ok.injEq] at hr
  obtain ⟨this, hthis, rfl⟩ := hr
  have hcap : 2 * t.capacity = 2 ^ (t.capacityDepth + 1) := by
    rw [Nat.pow_succ, ← h.capacity_eq, Nat.mul_comm]
  rw [hcap] at hthis
  rw [withCapacity_eq_ok hthis, logNextPowerOfTwo_two_pow]
  have hdepth : t.depth = t.capacityDepth := by
    unfold depth
    rw [hfull, h.capacity_eq, logNextPowerOfTwo_two_pow]
  have hlt : t.length < 2 ^ (t.capacityDepth + 1) := by
    have hpos := Nat.two_pow_pos t.capacityDepth
    rw [← h.capacity_eq] at hpos
    omega
  refine ⟨⟨h.length_eq, ?_, Nat.le_of_lt hlt, ?_⟩, hlt⟩
  · simp [capacityDepth]
  · have hh := h.holds
    rw [hdepth] at hh
    have hembed : Holds hashTwo (leafAt values) (t.capacityDepth + 1) t.capacityDepth
        (embed 0 t.nodes (blankNodes hashTwo Bytes32.zero (t.capacityDepth + 1))) :=
      hh.embed fun j hj => leafAt_of_le (by rw [← h.length_eq, hfull, h.capacity_eq]; exact hj)
    simp only [capacityDepth, Nat.log2_two_pow, depth] at hembed hdepth ⊢
    rw [hdepth]
    exact hembed

theorem represents_insertLeaf {t : MerkleTree} {values : List Bytes32} {v : Bytes32}
    (h : Represents t values) (hroom : t.length < t.capacity) :
    Represents (t.insertLeaf v) (values ++ [v]) := by
  have hle : logNextPowerOfTwo (t.length + 1) ≤ t.capacityDepth :=
    logNextPowerOfTwo_le (h.capacity_eq ▸ hroom)
  have hindex : t.length + t.capacity - 1 = slot t.capacityDepth 0 t.length := by
    have hpos := Nat.two_pow_pos t.capacityDepth
    unfold slot
    rw [Nat.sub_zero, ← h.capacity_eq]
    omega
  refine ⟨by simp [insertLeaf, h.length_eq], h.capacity_eq, hroom, ?_⟩
  rw [leafAt_append, ← h.length_eq]
  simp only [insertLeaf, hindex]
  exact h.holds.insert (logNextPowerOfTwo_mono (Nat.le_succ _)) (logNextPowerOfTwo_succ_le _) hle
    (Nat.lt_of_lt_of_le (Nat.lt_succ_self _) (le_two_pow_logNextPowerOfTwo _))

/-- **Insertion.**  The new tree is that of the values with the new one at the end. -/
theorem represents_insert {t t' : MerkleTree} {values : List Bytes32} {v : Bytes32} {i : Nat}
    (h : Represents t values) (hi : t.insert v = .ok (i, t')) :
    Represents t' (values ++ [v]) ∧ i = values.length := by
  simp only [insert, bind_eq_ok, pure, Except.pure, Except.ok.injEq, Prod.mk.injEq] at hi
  obtain ⟨t₁, ht₁, rfl, rfl⟩ := hi
  have hrep : Represents t₁ values ∧ t₁.length < t₁.capacity := by
    unfold withRoom at ht₁
    split at ht₁
    · rename_i hfull
      exact represents_reallocate h hfull ht₁
    · rename_i hroom
      cases ht₁
      exact ⟨h, Nat.lt_of_le_of_ne h.length_le hroom⟩
  exact ⟨represents_insertLeaf hrep.1 hrep.2, hrep.1.length_eq⟩

/-! ## The root -/

theorem Represents.getD_slot {t : MerkleTree} {values : List Bytes32} (h : Represents t values)
    {k p : Nat} (hk : k ≤ t.depth) (hp : p < 2 ^ (t.capacityDepth - k)) :
    t.nodes.getD (slot t.capacityDepth k p) default = value hashTwo (leafAt values) k p := by
  rw [List.getD_eq_getElem?_getD,
    h.holds.get k (le_trans hk h.depth_le) p hp (.inl hk), Option.getD_some]

omit [Sha256] in
theorem rootIndex_eq (t : MerkleTree) : t.rootIndex = slot t.capacityDepth t.depth 0 := by
  unfold rootIndex slot
  split
  · rename_i heq
    simp [heq]
  · rfl

/-- The root is the value of the smallest perfect tree that holds all values. -/
theorem Represents.root_eq {t : MerkleTree} {values : List Bytes32} (h : Represents t values) :
    t.root = value hashTwo (leafAt values) t.depth 0 := by
  unfold root
  rw [t.rootIndex_eq]
  exact h.getD_slot le_rfl (Nat.two_pow_pos _)

omit [Sha256] in
/-- The loop collects the siblings of the perfect tree. -/
theorem authenticationPath_slot {combine : Bytes32 → Bytes32 → Bytes32} {leaf : Nat → Bytes32}
    {D d : Nat} {nodes : List Bytes32} (h : Holds combine leaf D d nodes) (hD : d ≤ D) {n k p : Nat}
    (hk : k + n = d) (hp : p < 2 ^ n) :
    authenticationPath nodes (slot D d 0) (slot D k p) = .ok (path combine leaf n k p) := by
  induction n generalizing k p with
  | zero =>
      obtain rfl : k = d := hk
      obtain rfl : p = 0 := Nat.lt_one_iff.1 hp
      rw [authenticationPath, if_pos rfl]
      rfl
  | succ n ih =>
      have hkD : k < D := by omega
      have hle : 2 ^ (n + 1) ≤ 2 ^ (D - k) := Nat.pow_le_pow_right (by omega) (by omega)
      have hne : slot D k p ≠ slot D d 0 := by
        intro heq
        have hsame := slot_inj (Nat.le_of_lt hkD) hD (lt_of_lt_of_le hp hle) (Nat.two_pow_pos _) heq
        omega
      have hpos : slot D k p ≠ 0 := by
        have htwo := two_pow_sub_eq hkD
        have hone := Nat.two_pow_pos (D - (k + 1))
        unfold slot
        omega
      have hnode := h.get k (Nat.le_of_lt hkD) (sibling p) (lt_of_lt_of_le (sibling_lt hp) hle)
        (.inl (by omega))
      have hup := ih (k := k + 1) (p := p / 2) (by omega) (by rw [Nat.pow_succ] at hp; omega)
      rw [authenticationPath, if_neg hne, if_neg hpos, slot_sibling hkD, hnode, slot_parent hkD, hup]
      rfl

/-- The path of a value is that of its leaf in the perfect tree. -/
theorem Represents.getAuthenticationPathFor_eq {t : MerkleTree} {values : List Bytes32}
    (h : Represents t values) {i : Nat} (hi : i < values.length) :
    t.getAuthenticationPathFor i = .ok (some (path hashTwo (leafAt values) t.depth 0 i)) := by
  have hlength : i < t.length := h.length_eq ▸ hi
  have hindex : t.capacity + i - 1 = slot t.capacityDepth 0 i := by
    have hpos := Nat.two_pow_pos t.capacityDepth
    unfold slot
    rw [Nat.sub_zero, ← h.capacity_eq]
    rw [← h.capacity_eq] at hpos
    omega
  have hdepth : i < 2 ^ t.depth := lt_of_lt_of_le hlength (le_two_pow_logNextPowerOfTwo t.length)
  unfold MerkleTree.getAuthenticationPathFor
  rw [if_neg (Nat.not_le_of_lt hlength), t.rootIndex_eq, hindex,
    authenticationPath_slot h.holds h.depth_le (Nat.zero_add _) hdepth]
  rfl

/-- **Paths.**  Every value has a path, and it leads to the root. -/
theorem Represents.getAuthenticationPathFor {t : MerkleTree} {values : List Bytes32}
    (h : Represents t values) {c : Commitment} {i : Nat} (hi : values[i]? = some c.value) :
    ∃ path, t.getAuthenticationPathFor i = .ok (some path) ∧ path.length = t.depth ∧
      computeDigestForPath c (i, path) = t.root := by
  obtain ⟨hlt, _⟩ := List.getElem?_eq_some_iff.1 hi
  have hdepth : i < 2 ^ t.depth :=
    lt_of_lt_of_le (h.length_eq ▸ hlt) (le_two_pow_logNextPowerOfTwo t.length)
  refine ⟨_, h.getAuthenticationPathFor_eq hlt, path_length _ _ _ _, ?_⟩
  have hleaf : sha256 (leafPreimage c.value) = value hashTwo (leafAt values) 0 i := by
    simp [value, leafAt, hi, hashValue]
  rw [computeDigestForPath, hleaf, climb_path, h.root_eq, Nat.zero_add, Nat.div_eq_of_lt hdepth]

/-- The pairs hashed below the root are those of the perfect tree. -/
theorem Represents.mem_hashedPairs {t : MerkleTree} {values : List Bytes32}
    (h : Represents t values) {k p : Nat} (hk : k < t.depth) (hp : p < 2 ^ (t.depth - k - 1)) :
    nodePreimage (value hashTwo (leafAt values) k (2 * p))
      (value hashTwo (leafAt values) k (2 * p + 1)) ∈ t.hashedPairs := by
  have hD := h.depth_le
  have hpow : 2 * 2 ^ (t.depth - k - 1) ≤ 2 ^ (t.capacityDepth - k) := by
    rw [← Nat.pow_succ']
    exact Nat.pow_le_pow_right (by omega) (by omega)
  refine ⟨k, p, hk, hp, ?_⟩
  rw [h.getD_slot (Nat.le_of_lt hk) (by omega), h.getD_slot (Nat.le_of_lt hk) (by omega)]

/-- **Membership.**  If no strings collide among those hashed in the tree, in its leaves
and along a path, then a path that leads from a commitment to the root witnesses that the
commitment is one of the values. -/
theorem Represents.mem_of_computeDigestForPath {t : MerkleTree} {values : List Bytes32}
    (h : Represents t values) {S : Set Bytes} (hS : CollisionFree S)
    (hpairs : t.hashedPairs ⊆ S) (hleaves : ∀ v ∈ values, leafPreimage v ∈ S)
    {c : Commitment} {proof : MembershipProof} (hc : leafPreimage c.value ∈ S)
    (hpath : ∀ a ∈ climbPairs hashTwo proof.1 (hashValue c.value) proof.2,
      nodePreimage a.1 a.2 ∈ S)
    (hroot : computeDigestForPath c proof = t.root) : c.value ∈ values := by
  rw [h.root_eq] at hroot
  -- base values: leaf hashes and the zero node
  obtain ⟨_, j, _, hj⟩ := leaf_of_climb_eq
    (N := { a | nodePreimage a.1 a.2 ∈ S })
    (B := { b | b = Bytes32.zero ∨ ∃ v, leafPreimage v ∈ S ∧ b = hashValue v })
    (fun a ha b hb he => Prod.ext_iff.2 (nodePreimage_inj (hS.injOn ha hb he)))
    (by
      rintro a ha (hz | ⟨v, hv, he⟩)
      · exact hS.ne_zero _ ha hz
      · refine hS.ne_of_length ha hv ?_ he
        rw [nodePreimage_length, leafPreimage_length]
        decide)
    (fun j => by
      by_cases hj : j < values.length
      · refine .inr ⟨values[j], hleaves _ (List.getElem_mem hj), ?_⟩
        simp [leafAt, hj]
      · exact .inl (leafAt_of_le (by omega)))
    (.inr ⟨c.value, hc, rfl⟩) hpath
    (fun k q hk hq => hpairs (h.mem_hashedPairs hk (by
      have hlt := (Nat.div_eq_zero_iff_lt (Nat.two_pow_pos _)).1 hq
      rwa [show t.depth - k - 1 = t.depth - 1 - k by omega])))
    hroot
  by_cases hlt : j < values.length
  · have he : leafAt values j = hashValue values[j] := by simp [leafAt, hlt]
    rw [he] at hj
    have hv := leafPreimage_inj (hS.injOn hc (hleaves _ (List.getElem_mem hlt)) hj)
    rw [hv]
    exact List.getElem_mem hlt
  · -- the zero node is no hash
    rw [leafAt_of_le (by omega)] at hj
    exact absurd hj (hS.ne_zero _ hc)

/-! ## Whole trees -/

/-- The leaves of the smallest perfect tree for some values, the missing ones zero. -/
def paddedLeaves (values : List Bytes32) : List Bytes32 :=
  values.map hashValue ++
    List.replicate (2 ^ logNextPowerOfTwo values.length - values.length) Bytes32.zero

/-- The root of that tree. -/
def paddedRoot (values : List Bytes32) : Bytes32 :=
  rootOf hashTwo Bytes32.zero (logNextPowerOfTwo values.length) (paddedLeaves values)

theorem paddedLeaves_getElem? {values : List Bytes32} {j : Nat}
    (h : j < 2 ^ logNextPowerOfTwo values.length) :
    (paddedLeaves values)[j]? = some (leafAt values j) := by
  unfold paddedLeaves leafAt
  by_cases hj : j < values.length
  · rw [List.getElem?_append_left (by rwa [List.length_map]), List.getD_eq_getElem?_getD,
      List.getElem?_eq_getElem (by rwa [List.length_map]), Option.getD_some]
  · have hnone : (values.map hashValue)[j]? = none :=
      List.getElem?_eq_none (by rw [List.length_map]; omega)
    rw [List.getElem?_append_right (by rw [List.length_map]; omega), List.length_map,
      List.getElem?_replicate, if_pos (by omega), List.getD_eq_getElem?_getD, hnone]
    rfl

theorem Represents.root_eq_paddedRoot {t : MerkleTree} {values : List Bytes32}
    (h : Represents t values) : t.root = paddedRoot values := by
  have hdepth : t.depth = logNextPowerOfTwo values.length := by rw [depth, h.length_eq]
  rw [h.root_eq, hdepth, paddedRoot]
  refine (rootOf_eq_value _ fun j hj => ?_).symm
  rw [Nat.zero_mul, Nat.zero_add]
  exact paddedLeaves_getElem? hj

/-- Insert some values, one after the other; the positions they got. -/
def insertAll : MerkleTree → List Bytes32 → Except Panic (List Nat × MerkleTree)
  | t, [] => .ok ([], t)
  | t, v :: values => do
      let (i, t) ← t.insert v
      let (is, t) ← t.insertAll values
      return (i :: is, t)

/-- There is a table entry for every depth up to `31`. -/
theorem withCapacity_of_le {n : Nat} (h : n ≤ 2 ^ 31) : ∃ t, withCapacity n = .ok t := by
  have hdepth : logNextPowerOfTwo n < numberOfDefaultValues :=
    Nat.lt_succ_of_le (logNextPowerOfTwo_le h)
  rw [withCapacity, ensure_of _ hdepth]
  exact ⟨_, rfl⟩

/-- Up to `2 ^ 31` values fit. -/
theorem Represents.exists_insert {t : MerkleTree} {values : List Bytes32}
    (h : Represents t values) (hlen : values.length < 2 ^ 31) (v : Bytes32) :
    ∃ t', t.insert v = .ok (values.length, t') ∧ Represents t' (values ++ [v]) := by
  have hroom : ∃ t₁, t.withRoom = .ok t₁ := by
    unfold withRoom
    split
    · rename_i hfull
      -- a full tree has a power of two of values, so its depth is below 31
      have hdepth : t.capacityDepth < 31 := by
        refine (Nat.pow_lt_pow_iff_right (by decide : 1 < 2)).1 ?_
        rwa [← h.capacity_eq, ← hfull, h.length_eq]
      have hle : 2 * t.capacity ≤ 2 ^ 31 := by
        rw [h.capacity_eq, ← Nat.pow_succ']
        exact Nat.pow_le_pow_right (by decide) hdepth
      obtain ⟨this, hthis⟩ := withCapacity_of_le hle
      rw [reallocateToDoubleCapacity, hthis]
      exact ⟨_, rfl⟩
    · exact ⟨t, rfl⟩
  obtain ⟨t₁, ht₁⟩ := hroom
  have hinsert : t.insert v = .ok (t₁.length, t₁.insertLeaf v) := by
    rw [insert, ht₁]
    rfl
  obtain ⟨hrepresents, hindex⟩ := represents_insert h hinsert
  exact ⟨_, hindex ▸ hinsert, hrepresents⟩

theorem Represents.exists_insertAll {t : MerkleTree} {values added : List Bytes32}
    (h : Represents t values) (hlen : (values ++ added).length ≤ 2 ^ 31) :
    ∃ t', t.insertAll added = .ok (List.range' values.length added.length, t') ∧
      Represents t' (values ++ added) := by
  induction added generalizing t values with
  | nil => exact ⟨t, rfl, by rwa [List.append_nil]⟩
  | cons v added ih =>
      have hlen' : (values ++ [v] ++ added).length ≤ 2 ^ 31 := by
        simpa only [List.append_assoc, List.singleton_append] using hlen
      rw [List.length_append, List.length_cons] at hlen
      obtain ⟨t₁, hinsert, h₁⟩ := h.exists_insert (by omega) v
      obtain ⟨t₂, hrest, h₂⟩ := ih h₁ hlen'
      refine ⟨t₂, ?_, by simpa only [List.append_assoc, List.singleton_append] using h₂⟩
      rw [insertAll, hinsert]
      simp only [bind, Except.bind, hrest, List.length_append, List.length_cons,
        List.length_nil, Nat.zero_add, List.range'_succ]
      rfl

/-- **Correctness of the tree.**  Whatever the capacity it is created with, up to `2 ^ 31` values
can be inserted; they get consecutive positions, the root is that of the perfect tree over
their hashes, padded with zero nodes, every value has a path of the depth of that tree to its
root, and there are no other paths. -/
theorem merkle_tree_correct (capacity : Nat) (values : List Bytes32)
    (hvalues : values.length ≤ 2 ^ 31) :
    (capacity ≤ 2 ^ 31 → ∃ empty, withCapacity capacity = .ok empty) ∧
    ∀ empty, withCapacity capacity = .ok empty →
      ∃ t, empty.insertAll values = .ok (List.range values.length, t) ∧
        t.root = paddedRoot values ∧
        (∀ i v, values[i]? = some v → ∃ path, t.getAuthenticationPathFor i = .ok (some path) ∧
          path.length = logNextPowerOfTwo values.length ∧
          computeDigestForPath ⟨v⟩ (i, path) = paddedRoot values) ∧
        ∀ i, values.length ≤ i → t.getAuthenticationPathFor i = .ok none := by
  refine ⟨withCapacity_of_le, fun empty hempty => ?_⟩
  have hlen : ([] ++ values).length ≤ 2 ^ 31 := by rwa [List.nil_append]
  obtain ⟨t, hinsert, h⟩ := (represents_withCapacity hempty).exists_insertAll hlen
  rw [List.nil_append] at h
  refine ⟨t, ?_, h.root_eq_paddedRoot, fun i v hv => ?_, fun i hi => ?_⟩
  · rw [List.range_eq_range']
    exact hinsert
  · obtain ⟨path, hpath, hlength, hdigest⟩ :=
      h.getAuthenticationPathFor (c := ⟨v⟩) hv
    rw [depth, h.length_eq] at hlength
    exact ⟨path, hpath, hlength, hdigest.trans h.root_eq_paddedRoot⟩
  · unfold MerkleTree.getAuthenticationPathFor
    rw [if_pos (h.length_eq ▸ hi)]

end MerkleTree

omit [Sha256] in
/-- Three values in a tree that is created for one and doubled twice. -/
theorem merkle_tree_correct_three :
    let _ : Sha256 := ⟨fun bytes => Vector.replicate 32 (bytes.foldl (· + ·) 1)⟩
    let values : List Bytes32 := [Vector.replicate 32 1, Vector.replicate 32 2,
      Vector.replicate 32 3]
    ∃ empty t, MerkleTree.withCapacity 1 = .ok empty ∧
      empty.insertAll values = .ok ([0, 1, 2], t) ∧ t.root = MerkleTree.paddedRoot values ∧
      t.capacity = 4 := by
  intro _ values
  obtain ⟨hcreated, hall⟩ := MerkleTree.merkle_tree_correct 1 values (by decide)
  obtain ⟨empty, hempty⟩ := hcreated (by decide)
  obtain ⟨t, hinsert, hroot, _⟩ := hall empty hempty
  have hcapacity : (MerkleTree.withCapacity 1 >>= fun empty => empty.insertAll values).map
      (·.2.capacity) = .ok 4 := by decide +kernel
  rw [hempty] at hcapacity
  simp only [bind, Except.bind, hinsert] at hcapacity
  exact ⟨empty, t, hempty, hinsert, hroot, Except.ok.inj hcapacity⟩

end ExecutionZone
