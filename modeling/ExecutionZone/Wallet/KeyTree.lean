import ExecutionZone.Core.Hashing
import ExecutionZone.Lib.Ledger
import ExecutionZone.Wallet.ChainIndex

/-!
# Key trees

`KeyTree`: the keys of a wallet by their paths, and the paths by the ids of the accounts of
the keys.  A node is added after the last child of another, or in the first gap of the layers.

The last child is found by bisection over all numbers of `u32`, which is right for trees that
have, with each path, its parent and its left neighbour.  These shapes are described as sets of
paths (`PathsClosed`); what a function does to a tree is what it does to its shape, and to its
keys what the derivation of keys does, which may panic.  The loops that search and fill a tree
are given a number of turns, and shown not to need more.
-/

namespace ExecutionZone

/-! ## Shapes -/

/-- A set of paths with the root, and with the parent and the left neighbour of each path. -/
structure PathsClosed (S : Set ChainIndex) : Prop where
  root : ChainIndex.root ∈ S
  parent : ∀ p i, ChainIndex.nthChild p i ∈ S → p ∈ S
  sibling : ∀ p i, ChainIndex.nthChild p i ∈ S → i ≠ 0 → ChainIndex.nthChild p (i - 1) ∈ S

/-- The children of a path are numbered from zero, and there are `n` of them. -/
def HasChildren (S : Set ChainIndex) (p : ChainIndex) (n : Nat) : Prop :=
  ∀ i : UInt32, p.nthChild i ∈ S ↔ i.toNat < n

section

variable {S S' : Set ChainIndex} {p c : ChainIndex} {i : UInt32} {n : Nat}

theorem toNat_sub_one (h : i ≠ 0) : (i - 1).toNat + 1 = i.toNat := by
  have hpos : 1 ≤ i.toNat := Nat.pos_of_ne_zero fun heq => h (UInt32.toNat_inj.1 heq)
  rw [UInt32.toNat_sub_of_le i 1 (UInt32.le_iff_toNat_le.2 hpos)]
  exact Nat.sub_add_cancel hpos

theorem pathsClosed_root : PathsClosed {ChainIndex.root} := by
  refine ⟨rfl, fun p i h => ?_, fun p i h => ?_⟩
  · exact absurd h (p.nthChild_ne_nil i)
  · exact absurd h (p.nthChild_ne_nil i)

/-- A child next to the others is added. -/
theorem PathsClosed.adjoin (h : PathsClosed S) (hp : p ∈ S)
    (hsibling : i ≠ 0 → p.nthChild (i - 1) ∈ S) : PathsClosed (insert (p.nthChild i) S) := by
  refine ⟨.inr h.root, fun p' i' hc => ?_, fun p' i' hc hi' => ?_⟩
  · rcases hc with hc | hc
    · obtain ⟨rfl, rfl⟩ := ChainIndex.nthChild_inj.1 hc
      exact .inr hp
    · exact .inr (h.parent p' i' hc)
  · rcases hc with hc | hc
    · obtain ⟨rfl, rfl⟩ := ChainIndex.nthChild_inj.1 hc
      exact .inr (hsibling hi')
    · exact .inr (h.sibling p' i' hc hi')

/-- Paths are removed, those of higher layers first. -/
theorem PathsClosed.of_layers (h : PathsClosed S) (hsub : S' ⊆ S) (hroot : ChainIndex.root ∈ S')
    (hlayers : ∀ c ∈ S, ∀ c' ∈ S', c.layer < c'.layer → c ∈ S') : PathsClosed S' := by
  refine ⟨hroot, fun p i hc => ?_, fun p i hc hi => ?_⟩
  · refine hlayers p (h.parent p i (hsub hc)) _ hc ?_
    rw [ChainIndex.layer_nthChild]
    omega
  · refine hlayers _ (h.sibling p i (hsub hc) hi) _ hc ?_
    rw [ChainIndex.layer_nthChild, ChainIndex.layer_nthChild, ← toNat_sub_one hi]
    omega

theorem HasChildren.adjoin (h : HasChildren S p n) (hi : i.toNat = n) :
    HasChildren (insert (p.nthChild i) S) p (n + 1) := by
  intro i'
  rw [Set.mem_insert_iff, h, ChainIndex.nthChild_inj, ← UInt32.toNat_inj, eq_self, true_and]
  omega

/-- The new child of a path with `n` children. -/
theorem HasChildren.pathsClosed (h : HasChildren S p n) (hS : PathsClosed S) (hp : p ∈ S)
    (hi : i.toNat = n) : PathsClosed (insert (p.nthChild i) S) := by
  refine hS.adjoin hp fun hne => (h _).2 ?_
  have hsub := toNat_sub_one hne
  omega

end

/-! ## Trees -/

/-- `KeyTreeNode`. -/
class KeyTreeNode (N : Type) where
  fromSeed : Bytes → Except Panic N
  deriveChild : N → UInt32 → Except Panic N
  accountIds : N → List AccountId

/-- `KeyTree`. -/
structure KeyTree (N : Type) where
  keyMap : Ledger.Map ChainIndex N
  accountIdMap : Ledger.Map AccountId ChainIndex

/-- The error of a loop that was not given enough turns. -/
def outOfTurns : Panic := "out of turns"

/-- `u32::midpoint`. -/
def midpoint (a b : UInt32) : UInt32 := UInt32.ofNat ((a.toNat + b.toNat) / 2)

theorem toNat_midpoint (a b : UInt32) : (midpoint a b).toNat = (a.toNat + b.toNat) / 2 := by
  refine UInt32.toNat_ofNat_of_lt' ?_
  have ha := a.toNat_lt
  have hb := b.toNat_lt
  change _ < 2 ^ 32
  omega

namespace KeyTree

variable {N : Type}

/-- The paths of a tree. -/
def shape (t : KeyTree N) : Set ChainIndex := { c | c ∈ t.keyMap }

instance (t : KeyTree N) (c : ChainIndex) : Decidable (c ∈ t.shape) :=
  inferInstanceAs (Decidable (c ∈ t.keyMap))

/-- The number of children of a path. -/
def numChildren (t : KeyTree N) (p : ChainIndex) : Nat :=
  t.keyMap.keys.countP fun c => c.parent = some p

/-! ### Searching -/

/-- The loop of `find_next_last_child_of_id`. -/
def searchChild (t : KeyTree N) (parentId : ChainIndex) :
    Nat → UInt32 → UInt32 → UInt32 → Except Panic (Option UInt32)
  | 0, _, _, _ => .error outOfTurns
  | turns + 1, right, leftBorder, rightBorder =>
      let rightmostChild := parentId.nthChild right
      match rightmostChild.nextInLine with
      | none => .ok none
      | some next =>
          match t.keyMap.lookup rightmostChild, t.keyMap.lookup next with
          | some _, some _ => t.searchChild parentId turns (midpoint right rightBorder) right rightBorder
          | some _, none => .ok (checkedAddU32 right 1)
          | none, none => t.searchChild parentId turns (midpoint leftBorder right) leftBorder right
          | none, some _ => .error "internal error: entered unreachable code"

/-- The turns of the bisection. -/
def searchTurns : Nat := 40

/-- `find_next_last_child_of_id`. -/
def findNextLastChildOfId (t : KeyTree N) (parentId : ChainIndex) :
    Except Panic (Option UInt32) :=
  if parentId ∉ t.keyMap then .ok none
  else if parentId.nthChild 0 ∉ t.keyMap then .ok (some 0)
  else t.searchChild parentId searchTurns (UInt32.ofNat (2 ^ 32 - 2)) 0 (UInt32.ofNat (2 ^ 32 - 1))

/-- The loop of `find_next_slot_layered`. -/
def searchSlot (t : KeyTree N) : Nat → Nat → Except Panic ChainIndex
  | 0, _ => .error outOfTurns
  | turns + 1, depth =>
      match (ChainIndex.chainIdsAtDepthRev depth).find? (· ∉ t.keyMap) with
      | some chainId => .ok chainId
      | none => t.searchSlot turns (depth + 1)

/-- `find_next_slot_layered`. -/
def findNextSlotLayered (t : KeyTree N) : Except Panic ChainIndex :=
  t.searchSlot (t.keyMap.keys.length + 1) 1

/-! ### Growing -/

variable [KeyTreeNode N]

/-- A node is stored, and its accounts are registered for it. -/
def insertNode (t : KeyTree N) (chainIndex : ChainIndex) (node : N) : KeyTree N :=
  ⟨t.keyMap.insert chainIndex node,
    Ledger.insertAll t.accountIdMap ((KeyTreeNode.accountIds node).map fun id => (id, chainIndex))⟩

/-- `new_from_root`. -/
def newFromRoot (root : N) : KeyTree N := insertNode ⟨∅, ∅⟩ ChainIndex.root root

/-- `new`. -/
def new (seed : Bytes) : Except Panic (KeyTree N) := do
  ensure (seed.length = 64) "SeedHolder seed is 64 bytes long"
  let rootKeys ← KeyTreeNode.fromSeed seed
  return newFromRoot rootKeys

/-- `generate_new_node`: the path of the new node, and the tree with it. -/
def generateNewNode (t : KeyTree N) (parentCci : ChainIndex) :
    Except Panic (Option (ChainIndex × KeyTree N)) :=
  match t.keyMap.lookup parentCci with
  | none => .ok none
  | some parentKeys => do
      let nextChildId ← expect (← t.findNextLastChildOfId parentCci)
        "Can be None only if parent is not present"
      let nextCci := parentCci.nthChild nextChildId
      let childKeys ← KeyTreeNode.deriveChild parentKeys nextChildId
      return some (nextCci, t.insertNode nextCci childKeys)

/-- `fill_node`. -/
def fillNode (t : KeyTree N) (chainIndex : ChainIndex) :
    Except Panic (Option (ChainIndex × KeyTree N)) :=
  match chainIndex.parent.bind fun parent => t.keyMap.lookup parent, chainIndex.index with
  | some parentKeys, some childId => do
      let childKeys ← KeyTreeNode.deriveChild parentKeys childId
      return some (chainIndex, t.insertNode chainIndex childKeys)
  | _, _ => .ok none

/-- `generate_new_node_layered`. -/
def generateNewNodeLayered (t : KeyTree N) : Except Panic (Option (ChainIndex × KeyTree N)) := do
  let chainIndex ← t.findNextSlotLayered
  t.fillNode chainIndex

/-- The inner loop of `generate_tree_for_depth`, with the stack and the tree after it. -/
def growChildren (depth : UInt32) (currId : ChainIndex) :
    Nat → ChainIndex → List ChainIndex → KeyTree N → Except Panic (List ChainIndex × KeyTree N)
  | 0, _, _, _ => .error outOfTurns
  | turns + 1, nextId, idStack, t => do
      let nextDepth ← nextId.depth
      if nextDepth < depth.toNat then
        let generated ← t.generateNewNode currId
        let t := (generated.map Prod.snd).getD t
        match nextId.nextInLine with
        | some id => growChildren depth currId turns id (nextId :: idStack) t
        | none => return (nextId :: idStack, t)
      else return (idStack, t)

/-- The outer loop of `generate_tree_for_depth`. -/
def growTree (depth : UInt32) : Nat → List ChainIndex → KeyTree N → Except Panic (KeyTree N)
  | _, [], t => .ok t
  | 0, _ :: _, _ => .error outOfTurns
  | turns + 1, currId :: idStack, t => do
      let (idStack, t) ← growChildren depth currId (depth.toNat + 1) (currId.nthChild 0) idStack t
      growTree depth turns idStack t

/-- `generate_tree_for_depth`. -/
def generateTreeForDepth (t : KeyTree N) (depth : UInt32) : Except Panic (KeyTree N) :=
  growTree depth (2 ^ (depth.toNat - 1)) [ChainIndex.root] t

@[simp] theorem shape_insertNode (t : KeyTree N) (c : ChainIndex) (node : N) :
    (t.insertNode c node).shape = insert c t.shape := by
  ext c'
  exact AList.mem_insert _

theorem shape_newFromRoot (root : N) : (newFromRoot root).shape = {ChainIndex.root} := by
  rw [newFromRoot, shape_insertNode, Set.insert_eq, Set.union_eq_left]
  exact fun c hc => absurd hc (AList.notMem_empty c)

/-! ## The last child -/

section

omit [KeyTreeNode N]

variable {t : KeyTree N} {p c : ChainIndex} {n turns : Nat} {i : UInt32}

theorem mem_shape : c ∈ t.shape ↔ ∃ node, t.keyMap.lookup c = some node := by
  rw [← Option.isSome_iff_exists, AList.lookup_isSome]
  rfl

theorem notMem_shape : c ∉ t.shape ↔ t.keyMap.lookup c = none := AList.lookup_eq_none.symm

/-- In a closed shape, the children of a path are numbered from zero. -/
theorem hasChildren_numChildren (h : PathsClosed t.shape) (p : ChainIndex) :
    HasChildren t.shape p (t.numChildren p) := by
  let numbers : List Nat := (t.keyMap.keys.filter fun c => c.parent = some p).map fun c =>
    (c.index.getD 0).toNat
  have hmem : ∀ i : UInt32, i.toNat ∈ numbers ↔ p.nthChild i ∈ t.shape := by
    intro i
    simp only [numbers, List.mem_map, List.mem_filter, decide_eq_true_eq]
    constructor
    · rintro ⟨c, ⟨hc, hparent⟩, hi⟩
      obtain ⟨i', rfl⟩ := ChainIndex.eq_nthChild_of_parent hparent
      rw [ChainIndex.index_nthChild, Option.getD_some, UInt32.toNat_inj] at hi
      exact hi ▸ AList.mem_keys.2 hc
    · intro hc
      exact ⟨p.nthChild i, ⟨AList.mem_keys.1 hc, p.parent_nthChild i⟩, by simp⟩
  have hnodup : numbers.Nodup := by
    refine List.Nodup.map_on ?_ (t.keyMap.nodupKeys.filter _)
    intro c hc c' hc' heq
    obtain ⟨i, rfl⟩ := ChainIndex.eq_nthChild_of_parent (by simpa using (List.mem_filter.1 hc).2)
    obtain ⟨i', rfl⟩ := ChainIndex.eq_nthChild_of_parent (by simpa using (List.mem_filter.1 hc').2)
    simp only [ChainIndex.index_nthChild, Option.getD_some, UInt32.toNat_inj] at heq
    rw [heq]
  have hdown : ∀ n, n + 1 ∈ numbers → n ∈ numbers := by
    intro n hn
    obtain ⟨c, _, hc⟩ := List.mem_map.1 hn
    have hlt : n + 1 < 2 ^ 32 := hc ▸ (c.index.getD 0).toNat_lt
    have hi : (UInt32.ofNat (n + 1)).toNat = n + 1 := UInt32.toNat_ofNat_of_lt' hlt
    have hne : UInt32.ofNat (n + 1) ≠ 0 := by
      intro hzero
      rw [hzero] at hi
      cases hi
    rw [← hi, hmem] at hn
    have hprev := h.sibling p _ hn hne
    rw [← hmem] at hprev
    have hsub := toNat_sub_one hne
    rw [hi] at hsub
    rwa [Nat.succ.inj hsub] at hprev
  have hlength : numbers.length = t.numChildren p := by
    rw [List.length_map, numChildren, List.countP_eq_length_filter]
  intro i
  rw [← hmem, ← hlength]
  exact Enumeration.mem_iff_lt_length hnodup hdown _

/-- What the loop returns is next to a child, and not a child. -/
theorem searchChild_eq_some {right leftBorder rightBorder : UInt32}
    (h : t.searchChild p turns right leftBorder rightBorder = .ok (some i)) :
    i ≠ 0 ∧ p.nthChild (i - 1) ∈ t.shape ∧ p.nthChild i ∉ t.shape := by
  induction turns generalizing right leftBorder rightBorder with
  | zero => cases h
  | succ turns ih =>
      rw [searchChild] at h
      split at h
      · cases h
      · rename_i next hnext
        split at h
        · exact ih h
        · rename_i hright hnone
          have hsucc := checkedAddU32_eq_some.1 (Except.ok.inj h)
          have hone : (1 : UInt32).toNat = 1 := rfl
          have hlt : right.toNat + 1 < 2 ^ 32 := by
            have := i.toNat_lt
            omega
          obtain rfl : i = right + 1 :=
            UInt32.toNat_inj.1 (hsucc.trans (ChainIndex.toNat_add_one hlt).symm)
          rw [ChainIndex.nextInLine_nthChild p hlt, Option.some.injEq] at hnext
          subst hnext
          refine ⟨?_, ?_, notMem_shape.2 hnone⟩
          · intro hzero
            rw [hzero] at hsucc
            change 0 = _ at hsucc
            omega
          · rw [UInt32.add_sub_cancel]
            exact mem_shape.2 ⟨_, hright⟩
        · exact ih h
        · cases h

/-- **Bisection.**  Between a child and a number that is none, `k` turns halve an interval of
at most `2 ^ k` numbers until the last child is found. -/
theorem searchChild_eq (hn : HasChildren t.shape p n) {leftBorder rightBorder : UInt32} {k : Nat}
    (hleft : leftBorder.toNat < n) (hright : n ≤ rightBorder.toNat)
    (hmax : rightBorder.toNat + 1 < 2 ^ 32)
    (hwidth : rightBorder.toNat - leftBorder.toNat ≤ 2 ^ k) (hturns : k < turns) :
    t.searchChild p turns (midpoint leftBorder rightBorder) leftBorder rightBorder =
      .ok (some (UInt32.ofNat n)) := by
  induction turns generalizing leftBorder rightBorder k with
  | zero => cases hturns
  | succ turns ih =>
      have hmid := toNat_midpoint leftBorder rightBorder
      generalize midpoint leftBorder rightBorder = right at hmid
      have hlt : right.toNat + 1 < 2 ^ 32 := by omega
      have hsucc := ChainIndex.toNat_add_one hlt
      rw [searchChild]
      simp only [ChainIndex.nextInLine_nthChild p hlt]
      have hchild := hn right
      have hnext := hn (right + 1)
      rw [hsucc] at hnext
      -- an interval of one number is never halved
      have hpow : ∀ j, k = j + 1 → 2 ^ k = 2 * 2 ^ j := by
        rintro j rfl
        exact Nat.pow_succ'
      by_cases hlow : right.toNat + 1 < n
      · obtain ⟨node, hnode⟩ := mem_shape.1 (hchild.2 (by omega))
        obtain ⟨node', hnode'⟩ := mem_shape.1 (hnext.2 hlow)
        simp only [hnode, hnode']
        cases k with
        | zero => omega
        | succ j =>
            have hpow := hpow j rfl
            exact ih (k := j) (by omega) hright hmax (by omega) (by omega)
      · have hnone := notMem_shape.1 (mt hnext.1 hlow)
        by_cases hlast : right.toNat < n
        · obtain ⟨node, hnode⟩ := mem_shape.1 (hchild.2 hlast)
          simp only [hnode, hnone]
          rw [checkedAddU32_eq_some.2 hsucc]
          refine congrArg (fun i => Except.ok (some i)) (UInt32.toNat_inj.1 ?_)
          rw [hsucc, UInt32.toNat_ofNat_of_lt' (show n < 2 ^ 32 by omega)]
          omega
        · simp only [notMem_shape.1 (mt hchild.1 hlast), hnone]
          cases k with
          | zero => omega
          | succ j =>
              have hpow := hpow j rfl
              exact ih (k := j) hleft (by omega) (by omega) (by omega) (by omega)

/-- **The last child.**  The number of children of a path is found, if there is room for
another one. -/
theorem findNextLastChildOfId_eq (hn : HasChildren t.shape p n) (hp : p ∈ t.shape)
    (hfew : n < 2 ^ 32 - 1) : t.findNextLastChildOfId p = .ok (some (UInt32.ofNat n)) := by
  rw [findNextLastChildOfId, if_neg (not_not.2 (show p ∈ t.keyMap from hp))]
  by_cases hfirst : p.nthChild 0 ∈ t.keyMap
  · rw [if_neg (not_not.2 hfirst), searchTurns]
    have hpos : 0 < n := (hn 0).1 hfirst
    -- the first turn looks at the two largest numbers, which are not children
    have hmax : (UInt32.ofNat (2 ^ 32 - 2)).toNat = 2 ^ 32 - 2 := rfl
    have hlt : (UInt32.ofNat (2 ^ 32 - 2)).toNat + 1 < 2 ^ 32 := by
      rw [hmax]
      decide
    have hsucc := ChainIndex.toNat_add_one hlt
    have hnone : t.keyMap.lookup (p.nthChild (UInt32.ofNat (2 ^ 32 - 2))) = none := by
      refine notMem_shape.1 fun hc => ?_
      have := (hn _).1 hc
      omega
    have hnone' : t.keyMap.lookup (p.nthChild (UInt32.ofNat (2 ^ 32 - 2) + 1)) = none := by
      refine notMem_shape.1 fun hc => ?_
      have := (hn _).1 hc
      omega
    rw [searchChild]
    simp only [ChainIndex.nextInLine_nthChild p hlt, hnone, hnone']
    exact searchChild_eq hn (k := 32) hpos (by omega) (by omega) (by rw [hmax]; decide) (by decide)
  · rw [if_pos hfirst]
    have hzero : n = 0 := by
      by_contra hne
      exact hfirst ((hn 0).2 (Nat.pos_of_ne_zero hne))
    rw [hzero]
    rfl

theorem findNextLastChildOfId_eq_some (h : t.findNextLastChildOfId p = .ok (some i)) :
    p.nthChild i ∉ t.shape ∧ (i ≠ 0 → p.nthChild (i - 1) ∈ t.shape) := by
  unfold findNextLastChildOfId at h
  split at h
  · cases h
  · split at h
    · rename_i hfirst
      cases h
      exact ⟨hfirst, fun hne => absurd rfl hne⟩
    · obtain ⟨_, hprev, hnot⟩ := searchChild_eq_some h
      exact ⟨hnot, fun _ => hprev⟩

/-! ## The first gap -/

/-- The path that is found is missing, and all paths of lower layers are there. -/
theorem searchSlot_eq_ok {d : Nat} (h : t.searchSlot turns d = .ok c)
    (hbelow : ∀ c' : ChainIndex, c'.layer < d → c' ∈ t.shape) :
    d ≤ c.layer ∧ c ∉ t.shape ∧ ∀ c' : ChainIndex, c'.layer < c.layer → c' ∈ t.shape := by
  induction turns generalizing d with
  | zero => cases h
  | succ turns ih =>
      rw [searchSlot] at h
      split at h
      · rename_i c' hfind
        cases h
        have hlayer := ChainIndex.mem_chainIdsAtDepthRev.1 (List.mem_of_find?_eq_some hfind)
        have hnot : c ∉ t.keyMap := by simpa using List.find?_some hfind
        rw [hlayer]
        exact ⟨le_rfl, hnot, hbelow⟩
      · rename_i hfind
        rw [List.find?_eq_none] at hfind
        obtain ⟨hle, hrest⟩ := ih h fun c' hc' => by
          rcases Nat.lt_succ_iff_lt_or_eq.1 hc' with hlt | heq
          · exact hbelow c' hlt
          · simpa [shape] using hfind c' (ChainIndex.mem_chainIdsAtDepthRev.2 heq)
        exact ⟨Nat.le_of_succ_le hle, hrest⟩

/-- Without a gap all layers that were looked at are full. -/
theorem exists_searchSlot (t : KeyTree N) (turns d : Nat) :
    (∃ c, t.searchSlot turns d = .ok c) ∨
      ∀ c : ChainIndex, d ≤ c.layer → c.layer < d + turns → c ∈ t.shape := by
  induction turns generalizing d with
  | zero => exact .inr fun c hle hlt => absurd hle (Nat.not_le.2 hlt)
  | succ turns ih =>
      rw [searchSlot]
      split
      · exact .inl ⟨_, rfl⟩
      · rename_i hfind
        rw [List.find?_eq_none] at hfind
        refine (ih (d + 1)).imp_right fun hfull c hle hlt => ?_
        rcases Nat.eq_or_lt_of_le hle with heq | hgt
        · simpa [shape] using hfind c (ChainIndex.mem_chainIdsAtDepthRev.2 heq.symm)
        · exact hfull c hgt (by omega)

/-- **The first gap.**  It is always found: a tree with a path in each of the layers the loop
looks at has more paths than it has. -/
theorem exists_findNextSlotLayered (t : KeyTree N) : ∃ c, t.findNextSlotLayered = .ok c := by
  refine (t.exists_searchSlot (t.keyMap.keys.length + 1) 1).resolve_right fun hfull => ?_
  let paths : List ChainIndex :=
    (List.range' 1 (t.keyMap.keys.length + 1)).map fun k => List.replicate k 0
  have hnodup : paths.Nodup := by
    refine (List.nodup_range' _).map fun k k' heq => ?_
    simpa using congrArg List.length heq
  have hsub : paths ⊆ t.keyMap.keys := by
    intro c hc
    obtain ⟨k, hk, rfl⟩ := List.mem_map.1 hc
    rw [List.mem_range'_1] at hk
    rw [← AList.mem_keys]
    refine hfull _ ?_ ?_
    · rw [ChainIndex.layer_replicate]
      exact hk.1
    · rw [ChainIndex.layer_replicate]
      exact hk.2
  have hlen := (List.subperm_of_subset hnodup hsub).length_le
  rw [List.length_map, List.length_range'] at hlen
  exact absurd hlen (Nat.not_succ_le_self _)

end

/-! ## New nodes -/

section

variable {t t' : KeyTree N} {p c : ChainIndex} {keys : N} {n turns : Nat}

/-- A node that is new in a tree: it is derived from one that is there, and next to its left
neighbour. -/
inductive Adjoins (t : KeyTree N) : ChainIndex → N → Prop
  | child {p i keys node} (hparent : t.keyMap.lookup p = some keys)
      (hderive : KeyTreeNode.deriveChild keys i = .ok node) (hnew : p.nthChild i ∉ t.shape)
      (hsibling : i ≠ 0 → p.nthChild (i - 1) ∈ t.shape) : Adjoins t (p.nthChild i) node

theorem Adjoins.notMem {node : N} (h : t.Adjoins c node) : c ∉ t.shape := by
  obtain ⟨_, _, hnew, _⟩ := h
  exact hnew

theorem Adjoins.pathsClosed {node : N} (h : t.Adjoins c node) (hclosed : PathsClosed t.shape) :
    PathsClosed (t.insertNode c node).shape := by
  obtain ⟨hparent, _, _, hsibling⟩ := h
  rw [shape_insertNode]
  exact hclosed.adjoin (mem_shape.2 ⟨_, hparent⟩) hsibling

theorem generateNewNode_eq_some (h : t.generateNewNode p = .ok (some (c, t'))) :
    ∃ child, t.Adjoins c child ∧ t' = t.insertNode c child := by
  unfold generateNewNode at h
  split at h
  · cases h
  · rename_i keys hkeys
    simp only [bind_eq_ok, expect_eq_ok, pure, Except.pure, Except.ok.injEq, Option.some.injEq,
      Prod.mk.injEq] at h
    obtain ⟨_, hfind, i, rfl, child, hchild, rfl, rfl⟩ := h
    obtain ⟨hnot, hsibling⟩ := findNextLastChildOfId_eq_some hfind
    exact ⟨child, .child hkeys hchild hnot hsibling, rfl⟩

/-- Where the children are numbered from zero, the next number is taken. -/
theorem generateNewNode_eq (hn : HasChildren t.shape p n) (hkeys : t.keyMap.lookup p = some keys)
    (hfew : n < 2 ^ 32 - 1) :
    t.generateNewNode p = (do
      let child ← KeyTreeNode.deriveChild keys (UInt32.ofNat n)
      return some (p.nthChild (UInt32.ofNat n), t.insertNode (p.nthChild (UInt32.ofNat n)) child)) := by
  simp only [generateNewNode, hkeys, findNextLastChildOfId_eq hn (mem_shape.2 ⟨keys, hkeys⟩) hfew]
  rfl

/-- **Layered generation.**  A missing path below which all layers are full is filled, as far as
its key can be derived. -/
theorem generateNewNodeLayered_eq (hroot : ChainIndex.root ∈ t.shape) :
    ∃ p i keys, t.keyMap.lookup p = some keys ∧ p.nthChild i ∉ t.shape ∧
      (∀ c : ChainIndex, c.layer < (p.nthChild i).layer → c ∈ t.shape) ∧
      t.generateNewNodeLayered = (do
        let child ← KeyTreeNode.deriveChild keys i
        return some (p.nthChild i, t.insertNode (p.nthChild i) child)) := by
  obtain ⟨c, hslot⟩ := t.exists_findNextSlotLayered
  obtain ⟨hpos, hnot, hbelow⟩ := searchSlot_eq_ok hslot fun c' hc' => by
    rw [ChainIndex.eq_nil_of_layer (Nat.lt_one_iff.1 hc')]
    exact hroot
  obtain ⟨p, i, rfl⟩ := ChainIndex.exists_nthChild hpos
  have hlt : p.layer < (p.nthChild i).layer := by
    rw [ChainIndex.layer_nthChild]
    omega
  obtain ⟨keys, hkeys⟩ := mem_shape.1 (hbelow p hlt)
  refine ⟨p, i, keys, hkeys, hnot, hbelow, ?_⟩
  rw [generateNewNodeLayered, hslot]
  change t.fillNode (p.nthChild i) = _
  simp only [fillNode, ChainIndex.parent_nthChild, ChainIndex.index_nthChild, Option.bind_some,
    hkeys]

end

end KeyTree

end ExecutionZone
