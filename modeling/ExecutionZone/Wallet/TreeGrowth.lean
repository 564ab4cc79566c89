import ExecutionZone.Wallet.KeyTree

/-!
# Growing and clearing a key tree

`generate_tree_for_depth` fills the layers below a depth: it keeps the paths whose children are
still to be generated on a stack, and generates the children of the one on top until they leave
the layers.  `Growing` is what holds between two turns of its inner loop, `Grown` between two
turns of the outer one.  Both speak about the shape of the tree only.

The layers are cleared in the other direction, the highest first (`visitedIds`), so clearing may
stop anywhere and leaves a closed shape (`PathsClosed.of_cleared`).
-/

namespace ExecutionZone

/-! ## Growing -/

/-- The tree while its layers below `d` are filled.  A path on the stack has no children, and a
path that is not has all of them. -/
structure Grown (d : Nat) (stack : List ChainIndex) (S : Set ChainIndex) : Prop where
  closed : PathsClosed S
  below : ∀ c ∈ S, c.layer < d
  nodup : stack.Nodup
  stacked : ∀ c ∈ stack, c ∈ S
  leaf : ∀ c ∈ stack, ∀ i, ChainIndex.nthChild c i ∉ S
  full : ∀ c ∈ S, c ∉ stack → ∀ i, (ChainIndex.nthChild c i).layer < d →
    ChainIndex.nthChild c i ∈ S

/-- The same while the children of `curr` are generated, which has `n` of them. -/
structure Growing (d : Nat) (curr : ChainIndex) (n : Nat) (stack : List ChainIndex)
    (S : Set ChainIndex) : Prop where
  closed : PathsClosed S
  below : ∀ c ∈ S, c.layer < d
  nodup : stack.Nodup
  stacked : ∀ c ∈ stack, c ∈ S
  leaf : ∀ c ∈ stack, ∀ i, ChainIndex.nthChild c i ∉ S
  full : ∀ c ∈ S, c ∉ stack → c ≠ curr → ∀ i, (ChainIndex.nthChild c i).layer < d →
    ChainIndex.nthChild c i ∈ S
  curr_mem : curr ∈ S
  curr_notMem : curr ∉ stack
  children : HasChildren S curr n

section

variable {d n : Nat} {curr c : ChainIndex} {stack : List ChainIndex} {S : Set ChainIndex}
  {i : UInt32}

theorem grown_root (hd : 1 ≤ d) : Grown d [ChainIndex.root] {ChainIndex.root} := by
  refine ⟨pathsClosed_root, ?_, List.nodup_singleton _, ?_, ?_, ?_⟩
  · rintro c rfl
    exact hd
  · exact fun c hc => List.mem_singleton.1 hc
  · exact fun c _ i hmem => absurd hmem (c.nthChild_ne_nil i)
  · exact fun c hc hnot => absurd (List.mem_singleton.2 hc) hnot

/-- The path on top of the stack is taken off. -/
theorem Grown.pop (h : Grown d (curr :: stack) S) : Growing d curr 0 stack S := by
  obtain ⟨hnot, hnodup⟩ := List.nodup_cons.1 h.nodup
  refine ⟨h.closed, h.below, hnodup, fun c hc => h.stacked c (List.mem_cons_of_mem _ hc),
    fun c hc => h.leaf c (List.mem_cons_of_mem _ hc), ?_, h.stacked curr List.mem_cons_self, hnot,
    fun i => ?_⟩
  · intro c hc hstack hne
    refine h.full c hc fun hmem => ?_
    rcases List.mem_cons.1 hmem with heq | hmem
    · exact hne heq
    · exact hstack hmem
  · exact iff_of_false (h.leaf curr List.mem_cons_self i) (Nat.not_lt_zero _)

/-- **Step.**  A child is generated, and put on the stack. -/
theorem Growing.push (h : Growing d curr n stack S) (hi : i.toNat = n)
    (hlayer : (curr.nthChild i).layer < d) :
    Growing d curr (n + 1) (curr.nthChild i :: stack) (insert (curr.nthChild i) S) := by
  have hnew : curr.nthChild i ∉ S := fun hmem => by
    have := (h.children i).1 hmem
    omega
  refine ⟨h.children.pathsClosed h.closed h.curr_mem hi, ?_, ?_, ?_, ?_, ?_, .inr h.curr_mem, ?_,
    h.children.adjoin hi⟩
  · rintro c (rfl | hc)
    · exact hlayer
    · exact h.below c hc
  · exact List.nodup_cons.2 ⟨fun hmem => hnew (h.stacked _ hmem), h.nodup⟩
  · intro c hc
    rcases List.mem_cons.1 hc with rfl | hc
    · exact .inl rfl
    · exact .inr (h.stacked c hc)
  · -- a new path has no children, since the tree has the parents of its paths
    intro c hc j hmem
    rcases List.mem_cons.1 hc with rfl | hc
    · rcases hmem with heq | hmem
      · exact ChainIndex.nthChild_ne_self _ _ heq
      · exact hnew (h.closed.parent _ _ hmem)
    · rcases hmem with heq | hmem
      · exact h.curr_notMem ((ChainIndex.nthChild_inj.1 heq).1 ▸ hc)
      · exact h.leaf c hc j hmem
  · rintro c (rfl | hc) hstack hne j hj
    · exact absurd List.mem_cons_self hstack
    · exact .inr (h.full c hc (fun hmem => hstack (List.mem_cons_of_mem _ hmem)) hne j hj)
  · intro hmem
    rcases List.mem_cons.1 hmem with heq | hmem
    · exact ChainIndex.nthChild_ne_self _ _ heq.symm
    · exact h.curr_notMem hmem

/-- All children below `d` are there. -/
theorem Growing.done (h : Growing d curr n stack S) (hn : d ≤ curr.layer + n + 1) :
    Grown d stack S := by
  refine ⟨h.closed, h.below, h.nodup, h.stacked, h.leaf, fun c hc hstack i hi => ?_⟩
  by_cases hcurr : c = curr
  · subst hcurr
    refine (h.children i).2 ?_
    rw [ChainIndex.layer_nthChild] at hi
    omega
  · exact h.full c hc hstack hcurr i hi

/-- When the stack is empty, the layers are full. -/
theorem Grown.eq (h : Grown d [] S) : S = { c | c.layer < d } := by
  refine Set.Subset.antisymm h.below fun c hc => ?_
  induction c using List.reverseRecOn with
  | nil => exact h.closed.root
  | append_singleton p i ih =>
      change (ChainIndex.nthChild p i).layer < d at hc
      refine h.full p (ih ?_) List.not_mem_nil i hc
      rw [ChainIndex.layer_nthChild] at hc
      exact lt_of_le_of_lt (Nat.le_add_right _ _) (Nat.lt_of_succ_lt hc)

end

namespace KeyTree

variable {N : Type} [KeyTreeNode N] {depth : UInt32} {curr : ChainIndex} {n turns : Nat}
  {stack : List ChainIndex} {t : KeyTree N} {i : UInt32} {root keys : N}

/-- The keys of a path, derived from those of the root. -/
def derivePath (root : N) (c : ChainIndex) : Except Panic N :=
  c.foldlM KeyTreeNode.deriveChild root

/-- The keys of the layers below a depth can be derived. -/
def Derivable (root : N) (d : Nat) : Prop :=
  ∀ c : ChainIndex, c.layer < d → ∃ keys, derivePath root c = .ok keys

/-- The keys in the tree are derived from those of the root. -/
def DerivedFrom (root : N) (t : KeyTree N) : Prop :=
  ∀ c keys, t.keyMap.lookup c = some keys → derivePath root c = .ok keys

theorem derivePath_nthChild (h : derivePath root curr = .ok keys) (i : UInt32) :
    derivePath root (curr.nthChild i) = KeyTreeNode.deriveChild keys i := by
  rw [derivePath] at h
  rw [derivePath, ChainIndex.nthChild, List.foldlM_append, h]
  exact bind_pure (KeyTreeNode.deriveChild keys i)

theorem DerivedFrom.insertNode (h : DerivedFrom root t)
    (hkeys : derivePath root curr = .ok keys) : DerivedFrom root (t.insertNode curr keys) := by
  intro c keys' hlookup
  by_cases hc : c = curr
  · subst hc
    cases (AList.lookup_insert _).symm.trans hlookup
    exact hkeys
  · exact h c keys' ((AList.lookup_insert_ne hc).symm.trans hlookup)

/-- The turns the outer loop still takes for a stack. -/
def weight (depth : UInt32) (stack : List ChainIndex) : Nat :=
  (stack.map fun c => 2 ^ (depth.toNat - 1 - c.layer)).sum

/-- **The inner loop.**  It returns if the keys can be derived, and generates the children below
the depth. -/
theorem growChildren_spec (h : Growing depth.toNat curr n stack t.shape)
    (hderived : DerivedFrom root t) (hi : i.toNat = n) (hle : curr.layer + n + 1 ≤ depth.toNat)
    (hturns : depth.toNat < turns + curr.layer + n + 1) :
    (∀ stack' t', growChildren depth curr turns (curr.nthChild i) stack t = .ok (stack', t') →
      Grown depth.toNat stack' t'.shape ∧ DerivedFrom root t' ∧
      weight depth stack' + 1 = weight depth stack + 2 ^ (depth.toNat - 1 - curr.layer - n)) ∧
    (Derivable root depth.toNat →
      ∃ r, growChildren depth curr turns (curr.nthChild i) stack t = .ok r) := by
  induction turns generalizing n i stack t with
  | zero => omega
  | succ turns ih =>
      have hlt := depth.toNat_lt
      have hlayer : (curr.nthChild i).layer = curr.layer + n + 1 := by
        rw [ChainIndex.layer_nthChild, hi]
      have hdepth : (curr.nthChild i).depth = .ok (curr.layer + n + 1) := by
        rw [ChainIndex.depth_of_lt (by omega), hlayer]
      rw [growChildren, hdepth]
      by_cases hmore : curr.layer + n + 1 < depth.toNat
      · -- the children so far are numbered from zero, so the next one has the next number
        obtain ⟨keys, hkeys⟩ := mem_shape.1 h.curr_mem
        have hgenerate := generateNewNode_eq h.children hkeys (show n < 2 ^ 32 - 1 by omega)
        have hofNat : UInt32.ofNat n = i := by
          rw [← hi, UInt32.ofNat_toNat]
        have hsucc : i.toNat + 1 < 2 ^ 32 := by omega
        rw [hofNat] at hgenerate
        have hpath := derivePath_nthChild (hderived curr keys hkeys) i
        simp only [bind, Except.bind, if_pos hmore, hgenerate,
          ChainIndex.nextInLine_nthChild curr hsucc]
        cases hderive : KeyTreeNode.deriveChild keys i with
        | error e =>
            refine ⟨fun _ _ hok => (by cases hok), fun hall => ?_⟩
            obtain ⟨child, hchild⟩ := hall (curr.nthChild i) (hlayer ▸ hmore)
            rw [hpath, hderive] at hchild
            cases hchild
        | ok child =>
            have hpush := h.push hi (hlayer ▸ hmore)
            rw [← shape_insertNode t _ child] at hpush
            obtain ⟨hspec, htotal⟩ := ih hpush (hderived.insertNode (hpath.trans hderive))
              (i := i + 1) ((ChainIndex.toNat_add_one hsucc).trans (congrArg (· + 1) hi)) (by omega) (by omega)
            refine ⟨fun stack' t' hok => ?_, htotal⟩
            obtain ⟨hgrown, hderived', hweight⟩ := hspec stack' t' hok
            refine ⟨hgrown, hderived', ?_⟩
            have hexp : depth.toNat - 1 - curr.layer - n =
                depth.toNat - 1 - curr.layer - (n + 1) + 1 := by omega
            have hpow : 2 ^ (depth.toNat - 1 - (curr.layer + n + 1)) =
                2 ^ (depth.toNat - 1 - curr.layer - (n + 1)) :=
              congrArg (2 ^ ·) (by omega)
            rw [hweight, weight, weight, List.map_cons, List.sum_cons, hlayer, hpow, hexp,
              Nat.pow_succ]
            omega
      · simp only [bind, Except.bind, if_neg hmore]
        refine ⟨fun stack' t' hok => ?_, fun _ => ⟨_, rfl⟩⟩
        cases hok
        refine ⟨h.done (by omega), hderived, ?_⟩
        rw [show depth.toNat - 1 - curr.layer - n = 0 by omega, Nat.pow_zero]

/-- **The outer loop.**  It returns if the keys can be derived, and fills the layers. -/
theorem growTree_spec (h : Grown depth.toNat stack t.shape) (hderived : DerivedFrom root t)
    (hturns : weight depth stack ≤ turns) :
    (∀ t', growTree depth turns stack t = .ok t' →
      t'.shape = { c | c.layer < depth.toNat } ∧ DerivedFrom root t') ∧
    (Derivable root depth.toNat → ∃ t', growTree depth turns stack t = .ok t') := by
  induction turns generalizing stack t with
  | zero =>
      cases stack with
      | nil =>
          refine ⟨fun t' hok => ?_, fun _ => ⟨t, rfl⟩⟩
          cases hok
          exact ⟨h.eq, hderived⟩
      | cons curr stack =>
          have hpos : 0 < 2 ^ (depth.toNat - 1 - curr.layer) := Nat.two_pow_pos _
          rw [weight, List.map_cons, List.sum_cons] at hturns
          omega
  | succ turns ih =>
      cases stack with
      | nil =>
          refine ⟨fun t' hok => ?_, fun _ => ⟨t, rfl⟩⟩
          cases hok
          exact ⟨h.eq, hderived⟩
      | cons curr stack =>
          have hbelow := h.below curr (h.stacked curr List.mem_cons_self)
          have hturns' : depth.toNat < (depth.toNat + 1) + curr.layer + 0 + 1 := by omega
          obtain ⟨hspec, htotal⟩ := growChildren_spec h.pop hderived
            (show (0 : UInt32).toNat = 0 from rfl) (by omega) hturns'
          have hnext : ∀ stack' t', growChildren depth curr (depth.toNat + 1) (curr.nthChild 0)
              stack t = .ok (stack', t') →
              Grown depth.toNat stack' t'.shape ∧ DerivedFrom root t' ∧
                weight depth stack' ≤ turns := by
            intro stack' t' hok
            obtain ⟨hgrown, hderived', hweight⟩ := hspec stack' t' hok
            rw [weight, List.map_cons, List.sum_cons] at hturns
            rw [Nat.sub_zero, weight, weight] at hweight
            exact ⟨hgrown, hderived', by rw [weight]; omega⟩
          constructor
          · intro t' hok
            rw [growTree] at hok
            obtain ⟨⟨stack', t₁⟩, hchildren, hrest⟩ := bind_eq_ok.1 hok
            obtain ⟨hgrown, hderived', hle⟩ := hnext stack' t₁ hchildren
            exact (ih hgrown hderived' hle).1 t' hrest
          · intro hall
            obtain ⟨⟨stack', t₁⟩, hchildren⟩ := htotal hall
            obtain ⟨hgrown, hderived', hle⟩ := hnext stack' t₁ hchildren
            obtain ⟨t', hrest⟩ := (ih hgrown hderived' hle).2 hall
            refine ⟨t', ?_⟩
            rw [growTree]
            exact bind_eq_ok.2 ⟨_, hchildren, hrest⟩

/-- **Filling the layers** of a tree that has a root only. -/
theorem generateTreeForDepth_spec (hshape : t.shape = {ChainIndex.root})
    (hroot : t.keyMap.lookup ChainIndex.root = some root) (hd : 1 ≤ depth.toNat) :
    (∀ t', t.generateTreeForDepth depth = .ok t' →
      t'.shape = { c | c.layer < depth.toNat }) ∧
    ((∃ t', t.generateTreeForDepth depth = .ok t') ↔ Derivable root depth.toNat) := by
  have hderived : DerivedFrom root t := by
    intro c keys hkeys
    have hc : c ∈ t.shape := mem_shape.2 ⟨keys, hkeys⟩
    rw [hshape] at hc
    cases hc
    cases hroot.symm.trans hkeys
    rfl
  obtain ⟨hspec, htotal⟩ : _ ∧ (_ → ∃ t', t.generateTreeForDepth depth = .ok t') :=
    growTree_spec (hshape ▸ grown_root hd) hderived le_rfl
  refine ⟨fun t' ht' => (hspec t' ht').1, ?_, htotal⟩
  rintro ⟨t', ht'⟩ c hc
  obtain ⟨hfilled, hderived'⟩ := hspec t' ht'
  rw [Set.ext_iff] at hfilled
  obtain ⟨keys, hkeys⟩ := mem_shape.1 ((hfilled c).2 hc)
  exact ⟨keys, hderived' c keys hkeys⟩

end KeyTree

/-! ## Clearing -/

/-- The paths `cleanup_tree_remove_uninit_layered` visits. -/
def visitedIds (depth : Nat) : List ChainIndex :=
  (List.range' 1 (depth - 1)).reverse.flatMap ChainIndex.chainIdsAtDepth

variable {depth : Nat} {c : ChainIndex}

theorem mem_visitedIds : c ∈ visitedIds depth ↔ 1 ≤ c.layer ∧ c.layer < depth := by
  simp only [visitedIds, List.mem_flatMap, List.mem_reverse, List.mem_range'_1,
    ChainIndex.mem_chainIdsAtDepth]
  constructor
  · rintro ⟨i, hi, rfl⟩
    omega
  · intro h
    exact ⟨c.layer, by omega, rfl⟩

/-- Higher layers come first. -/
theorem pairwise_visitedIds (depth : Nat) :
    (visitedIds depth).Pairwise fun c c' => c ≠ c' ∧ c'.layer ≤ c.layer := by
  refine List.pairwise_flatMap.2 ⟨fun i _ => ?_, ?_⟩
  · -- a path of the layer is listed once
    have hnodup : (ChainIndex.chainIdsAtDepth i).Nodup := Enumeration.nodup_eraseDups _
    refine hnodup.imp_of_mem fun {c c'} hc hc' hne => ⟨hne, ?_⟩
    rw [ChainIndex.mem_chainIdsAtDepth.1 hc, ChainIndex.mem_chainIdsAtDepth.1 hc']
  · have hsorted : (List.range' 1 (depth - 1)).Pairwise (· < ·) :=
      List.pairwise_lt_range' 1
    refine List.pairwise_reverse.2 (hsorted.imp fun {i j} hlt c hc c' hc' => ?_)
    rw [ChainIndex.mem_chainIdsAtDepth] at hc hc'
    refine ⟨?_, by omega⟩
    rintro rfl
    omega

theorem nodup_visitedIds (depth : Nat) : (visitedIds depth).Nodup :=
  (pairwise_visitedIds depth).imp And.left

/-- **Clearing.**  If all paths are in the visited layers, the paths up to any point can be
removed. -/
theorem PathsClosed.of_cleared {S S' : Set ChainIndex} (h : PathsClosed S)
    {cleared rest : List ChainIndex} (hvisited : visitedIds depth = cleared ++ rest)
    (hdeep : ∀ c ∈ S, c.layer < depth) (hS' : ∀ c, c ∈ S' ↔ c ∈ S ∧ c ∉ cleared) :
    PathsClosed S' := by
  have hmem : ∀ c ∈ cleared, 1 ≤ c.layer := by
    intro c hc
    exact (mem_visitedIds.1 (hvisited ▸ List.mem_append_left rest hc)).1
  refine h.of_layers (fun c hc => ((hS' c).1 hc).1) ((hS' _).2 ⟨h.root, fun hc => ?_⟩) ?_
  · exact absurd (hmem _ hc) (Nat.not_succ_le_zero 0)
  · intro c hc c' hc' hlt
    refine (hS' c).2 ⟨hc, fun hcleared => ?_⟩
    -- a path of a higher layer is visited before `c`, so it is cleared as well
    obtain ⟨hS, hnot⟩ := (hS' c').1 hc'
    have hvisit : c' ∈ cleared ++ rest := by
      rw [← hvisited]
      exact mem_visitedIds.2 ⟨Nat.one_le_of_lt hlt, hdeep c' hS⟩
    have hpairwise := hvisited ▸ pairwise_visitedIds depth
    rcases List.mem_append.1 hvisit with hc' | hc'
    · exact hnot hc'
    · have hle := ((List.pairwise_append.1 hpairwise).2.2 c hcleared c' hc').2
      exact absurd hlt (Nat.not_lt.2 hle)

end ExecutionZone
