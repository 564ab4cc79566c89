import ExecutionZone.Lib.Run
import ExecutionZone.Wallet.KeyNodes

/-!
# The shape of key trees

Runs of a key tree: nodes are added after the last child of another or in the first gap of the
layers, a tree with a root only is filled up to a depth, and nodes without initialised accounts
are removed, from a depth beyond all nodes.

Whatever the run, the tree has the parents and the left neighbours of its paths, and so all
that searches and fills it works (`key_tree_shape`).  Clearing a public tree goes through the
ids of the accounts, so there it matters that the nodes have different ones.
-/

namespace ExecutionZone

namespace KeyTree

variable {N : Type} [KeyTreeNode N]

/-! ## Runs -/

inductive TreeEvent where
  | generate (parentCci : ChainIndex)
  | generateLayered
  | generateForDepth (depth : UInt32)
  | cleanup (depth : UInt32)

/-- What can happen to a tree, with a relation for clearing it. -/
def TreeStep (Cleans : KeyTree N → UInt32 → KeyTree N → Prop) (t : KeyTree N) :
    TreeEvent → KeyTree N → Prop
  | .generate parentCci, t' => ∃ c, t.generateNewNode parentCci = .ok (some (c, t'))
  | .generateLayered, t' => ∃ c, t.generateNewNodeLayered = .ok (some (c, t'))
  | .generateForDepth depth, t' =>
      t.shape = {ChainIndex.root} ∧ t.generateTreeForDepth depth = .ok t'
  | .cleanup depth, t' => (∀ c ∈ t.shape, c.layer < depth.toNat) ∧ Cleans t depth t'

section

variable {P : KeyTree N → Prop} {t t' : KeyTree N} {depth : UInt32} {turns : Nat}
  {curr next : ChainIndex} {stack stack' : List ChainIndex}

/-- **Growing.**  What holds of a tree with a further path, holds of a tree that has grown. -/
theorem growChildren_induction
    (hinsert : ∀ t c node, P t → t.Adjoins c node → P (t.insertNode c node))
    (ht : P t) (h : growChildren depth curr turns next stack t = .ok (stack', t')) : P t' := by
  induction turns generalizing next stack t with
  | zero => cases h
  | succ turns ih =>
      rw [growChildren] at h
      obtain ⟨d, _, h⟩ := bind_eq_ok.1 h
      split at h
      · obtain ⟨generated, hgenerate, h⟩ := bind_eq_ok.1 h
        have ht' : P ((generated.map Prod.snd).getD t) := by
          rcases generated with _ | ⟨c, t₁⟩
          · exact ht
          · obtain ⟨child, hchild, rfl⟩ := generateNewNode_eq_some hgenerate
            exact hinsert t c child ht hchild
        split at h
        · exact ih ht' h
        · cases h
          exact ht'
      · cases h
        exact ht

theorem growTree_induction
    (hinsert : ∀ t c node, P t → t.Adjoins c node → P (t.insertNode c node))
    (ht : P t) (h : growTree depth turns stack t = .ok t') : P t' := by
  induction turns generalizing stack t with
  | zero =>
      cases stack with
      | nil =>
          cases h
          exact ht
      | cons curr stack => cases h
  | succ turns ih =>
      cases stack with
      | nil =>
          cases h
          exact ht
      | cons curr stack =>
          rw [growTree] at h
          obtain ⟨⟨stack', t₁⟩, hchildren, h⟩ := bind_eq_ok.1 h
          exact ih (growChildren_induction hinsert ht hchildren) h

/-- What layered generation adds. -/
theorem generateNewNodeLayered_eq_some {c : ChainIndex} (hroot : ChainIndex.root ∈ t.shape)
    (h : t.generateNewNodeLayered = .ok (some (c, t'))) :
    ∃ child, t.Adjoins c child ∧ t' = t.insertNode c child := by
  obtain ⟨p, i, keys, hkeys, hnot, hbelow, heq⟩ := generateNewNodeLayered_eq hroot
  rw [heq] at h
  simp only [bind_eq_ok, pure, Except.pure, Except.ok.injEq, Option.some.injEq,
    Prod.mk.injEq] at h
  obtain ⟨child, hchild, rfl, rfl⟩ := h
  refine ⟨child, .child hkeys hchild hnot fun hne => hbelow _ ?_, rfl⟩
  rw [ChainIndex.layer_nthChild, ChainIndex.layer_nthChild, ← toNat_sub_one hne]
  omega

/-- A tree without layers to fill stays as it is. -/
theorem generateTreeForDepth_zero (h : t.generateTreeForDepth 0 = .ok t') : t' = t := by
  have hdepth : (ChainIndex.nthChild ChainIndex.root 0).depth = .ok 1 :=
    ChainIndex.depth_of_lt (show 1 < 2 ^ 32 by decide)
  unfold generateTreeForDepth at h
  rw [show 2 ^ ((0 : UInt32).toNat - 1) = 0 + 1 from rfl, growTree, growChildren, hdepth] at h
  cases h
  rfl

end

variable {Cleans : KeyTree N → UInt32 → KeyTree N → Prop} {I : KeyTree N → Prop}
  {t t' : KeyTree N} {e : TreeEvent}

/-- What a step of clearing removes: the visited paths up to some point. -/
def Clears (t : KeyTree N) (depth : UInt32) (t' : KeyTree N) : Prop :=
  ∃ cleared rest, visitedIds depth.toNat = cleared ++ rest ∧
    ∀ c, c ∈ t'.shape ↔ c ∈ t.shape ∧ c ∉ cleared

/-- **Step.**  An invariant under which clearing removes the paths it visits is kept with the
closed shape. -/
theorem closed_of_step (hinsert : ∀ t c node, I t → t.Adjoins c node → I (t.insertNode c node))
    (hcleans : ∀ t depth t', I t → Cleans t depth t' → I t' ∧ Clears t depth t')
    (ht : I t ∧ PathsClosed t.shape) (hstep : TreeStep Cleans t e t') :
    I t' ∧ PathsClosed t'.shape := by
  obtain ⟨hI, hclosed⟩ := ht
  cases e with
  | generate parentCci =>
      obtain ⟨c, hc⟩ := hstep
      obtain ⟨child, hchild, rfl⟩ := generateNewNode_eq_some hc
      exact ⟨hinsert t c child hI hchild, hchild.pathsClosed hclosed⟩
  | generateLayered =>
      obtain ⟨c, hc⟩ := hstep
      obtain ⟨child, hchild, rfl⟩ := generateNewNodeLayered_eq_some hclosed.root hc
      exact ⟨hinsert t c child hI hchild, hchild.pathsClosed hclosed⟩
  | generateForDepth depth =>
      obtain ⟨hroot, hgrow⟩ := hstep
      refine ⟨growTree_induction hinsert hI hgrow, ?_⟩
      rcases Nat.eq_zero_or_pos depth.toNat with hzero | hpos
      · obtain rfl : depth = 0 := UInt32.toNat_inj.1 hzero
        rw [generateTreeForDepth_zero hgrow]
        exact hclosed
      · obtain ⟨root, hlookup⟩ := mem_shape.1 (hroot ▸ Set.mem_singleton ChainIndex.root)
        rw [(generateTreeForDepth_spec hroot hlookup hpos).1 t' hgrow]
        refine ⟨hpos, fun p i hlt => ?_, fun p i hlt hne => ?_⟩
        · rw [Set.mem_ofPred_eq, ChainIndex.layer_nthChild] at hlt
          exact lt_of_le_of_lt (Nat.le_add_right _ _) (Nat.lt_of_succ_lt hlt)
        · have hsub := toNat_sub_one hne
          rw [Set.mem_ofPred_eq, ChainIndex.layer_nthChild] at hlt ⊢
          omega
  | cleanup depth =>
      obtain ⟨hdeep, hclean⟩ := hstep
      obtain ⟨hI', cleared, rest, hvisited, hshape⟩ := hcleans t depth t' hI hclean
      exact ⟨hI', hclosed.of_cleared hvisited hdeep hshape⟩

/-- What a closed shape is good for. -/
structure WellShaped (t : KeyTree N) : Prop where
  closed : PathsClosed t.shape
  lastChild : ∀ p ∈ t.shape, t.numChildren p < 2 ^ 32 - 1 →
    t.findNextLastChildOfId p = .ok (some (UInt32.ofNat (t.numChildren p)))
  layered : ∃ p i keys, t.keyMap.lookup p = some keys ∧ p.nthChild i ∉ t.shape ∧
    (∀ c : ChainIndex, c.layer < (p.nthChild i).layer → c ∈ t.shape) ∧
    t.generateNewNodeLayered = (do
      let child ← KeyTreeNode.deriveChild keys i
      return some (p.nthChild i, t.insertNode (p.nthChild i) child))

theorem wellShaped (h : PathsClosed t.shape) : WellShaped t :=
  ⟨h, fun p hp hfew => findNextLastChildOfId_eq (hasChildren_numChildren h p) hp hfew,
    generateNewNodeLayered_eq h.root⟩

/-! ## Private trees -/

inductive PrivateEvent where
  | tree (e : TreeEvent)
  | register (cci : ChainIndex) (identifier : Identifier)
  | store (accountId : AccountId) (kind : PrivateAccountKind) (account : Account)

section

variable [Sha256] [Secp256k1] [Hmac] [ScalarArithmetic]

/-- What can happen to a private tree: identifiers are registered, and a wallet stores accounts
in it. -/
def PrivateStep (Cleans : KeyTreePrivate → UInt32 → KeyTreePrivate → Prop) (t : KeyTreePrivate) :
    PrivateEvent → KeyTreePrivate → Prop
  | .tree e, t' => TreeStep Cleans t e t'
  | .register cci identifier, t' =>
      ∃ accountId, t.registerIdentifierOnNode cci identifier = some (accountId, t')
  | .store accountId kind account, t' => ∃ u u' : UserKeyChain, u.privateKeyTree = t ∧
      u.insertPrivateAccount accountId kind account = .ok u' ∧ u'.privateKeyTree = t'

def CleansPrivate (t : KeyTreePrivate) (depth : UInt32) (t' : KeyTreePrivate) : Prop :=
  t.cleanupPrivate depth = t'

omit [Secp256k1] [Hmac] [ScalarArithmetic] in
theorem clears_of_cleansPrivate {t t' : KeyTreePrivate} {depth : UInt32}
    (h : CleansPrivate t depth t') : Clears t depth t' := by
  subst h
  refine ⟨t.clearedIds (visitedIds depth.toNat), _, List.takeWhile_append_dropWhile.symm,
    fun c => ?_⟩
  have hlookup := (lookup_clearPrivate (nodup_visitedIds depth.toNat) t).1 c
  rw [mem_shape, mem_shape, cleanupPrivate, hlookup]
  split
  · rename_i hmem
    simp only [reduceCtorEq, exists_false, hmem, not_true_eq_false, and_false]
  · rename_i hnot
    simp only [hnot, not_false_eq_true, and_true]

omit [Secp256k1] [Hmac] [ScalarArithmetic] in
theorem eq_of_register {t t' : KeyTreePrivate} {cci : ChainIndex} {identifier : Identifier}
    {accountId : AccountId} (h : t.registerIdentifierOnNode cci identifier = some (accountId, t')) :
    ∃ node, t.keyMap.lookup cci = some node ∧
      AccountId.forPrivateAccount node.keyChain.nullifierPublicKey (.regular identifier) =
        accountId ∧ t.accountIdMap.lookup accountId = none ∧
      t' = ⟨t.keyMap, t.accountIdMap.insert accountId cci⟩ := by
  unfold registerIdentifierOnNode at h
  split at h
  · cases h
  · rename_i node hnode
    dsimp only at h
    split at h
    · cases h
    · rename_i hnew
      cases h
      exact ⟨node, hnode, rfl, Option.not_isSome_iff_eq_none.1 hnew, rfl⟩

omit [Secp256k1] [Hmac] [ScalarArithmetic] in
/-- Only nodes that are there get accounts. -/
theorem shape_of_store {u u' : UserKeyChain} {accountId : AccountId} {kind : PrivateAccountKind}
    {account : Account} (h : u.insertPrivateAccount accountId kind account = .ok u') :
    u'.privateKeyTree.shape = u.privateKeyTree.shape := by
  rcases UserKeyChain.tree_of_insert h with heq | ⟨c, node, ids, hnode, heq, _⟩
  · rw [heq]
  · ext c'
    rw [heq, mem_shape, mem_shape]
    by_cases hc : c' = c
    · subst hc
      exact ⟨fun _ => ⟨node, hnode⟩, fun _ => ⟨_, AList.lookup_insert _⟩⟩
    · rw [AList.lookup_insert_ne hc]

/-- **Run.**  A private tree keeps its shape closed. -/
theorem closed_of_privateRun {root : ChildKeysPrivate} {events : List PrivateEvent}
    {t : KeyTreePrivate} (hrun : Run (PrivateStep CleansPrivate) (newFromRoot root) events t) :
    PathsClosed t.shape := by
  refine hrun.invariant (I := fun t => PathsClosed t.shape)
    (shape_newFromRoot root ▸ pathsClosed_root) fun t e t' hclosed hstep => ?_
  cases e with
  | tree e =>
      exact (closed_of_step (I := fun _ => True) (fun _ _ _ _ _ => trivial)
        (fun _ _ _ _ hclean => ⟨trivial, clears_of_cleansPrivate hclean⟩) ⟨trivial, hclosed⟩
        hstep).2
  | register cci identifier =>
      obtain ⟨accountId, hregister⟩ := hstep
      obtain ⟨_, _, _, _, rfl⟩ := eq_of_register hregister
      exact hclosed
  | store accountId kind account =>
      obtain ⟨u, u', rfl, hinsert, rfl⟩ := hstep
      rw [shape_of_store hinsert]
      exact hclosed

end

/-! ## Public trees -/

section

variable [Sha256] [Secp256k1] [Hmac] [ScalarArithmetic] [KeyDerivation]

/-- The id of every node is registered, if not for the node, then for one with the same id. -/
def IndexCovers (t : KeyTreePublic) : Prop :=
  ∀ c node, t.keyMap.lookup c = some node →
    ∃ c' node', t.accountIdMap.lookup node.accountId = some c' ∧
      t.keyMap.lookup c' = some node' ∧ node'.accountId = node.accountId

/-- Different nodes have different ids. -/
def DistinctIds (t : KeyTreePublic) : Prop :=
  ∀ c node c' node', t.keyMap.lookup c = some node → t.keyMap.lookup c' = some node' →
    node'.accountId = node.accountId → c' = c

/-- Every node is found by its id. -/
def Indexed (t : KeyTreePublic) : Prop :=
  ∀ c node, t.keyMap.lookup c = some node → t.accountIdMap.lookup node.accountId = some c

/-- Clearing a public tree whose nodes have different ids, with some answers of the node it
asks. -/
def CleansPublic (t : KeyTreePublic) (depth : UInt32) (t' : KeyTreePublic) : Prop :=
  t.DistinctIds ∧ ∃ (ε : Type) (getAccount : AccountId → Except ε Account),
    (t.cleanupPublic depth getAccount).1 = t'

omit [Secp256k1] [Hmac] [ScalarArithmetic] [KeyDerivation] in
theorem IndexCovers.indexed {t : KeyTreePublic} (h : t.IndexCovers) (hdistinct : t.DistinctIds) :
    t.Indexed := by
  intro c node hnode
  obtain ⟨c', node', hid, hnode', heq⟩ := h c node hnode
  rw [hid, hdistinct c node c' node' hnode hnode' heq]

omit [Secp256k1] [Hmac] [ScalarArithmetic] [KeyDerivation] in
theorem Indexed.covers {t : KeyTreePublic} (h : t.Indexed) : t.IndexCovers :=
  fun c node hnode => ⟨c, node, h c node hnode, hnode, rfl⟩

theorem IndexCovers.adjoin {t : KeyTreePublic} (h : t.IndexCovers) {c : ChainIndex}
    (hc : c ∉ t.shape) (node : ChildKeysPublic) : (t.insertNode c node).IndexCovers := by
  intro c₁ node₁ hnode₁
  change (t.keyMap.insert c node).lookup c₁ = some node₁ at hnode₁
  change ∃ c' node', (t.accountIdMap.insert node.accountId c).lookup node₁.accountId = some c' ∧
    (t.keyMap.insert c node).lookup c' = some node' ∧ _
  by_cases hid : node₁.accountId = node.accountId
  · exact ⟨c, node, by rw [hid, AList.lookup_insert], AList.lookup_insert _, hid.symm⟩
  · have hne : c₁ ≠ c := by
      rintro rfl
      rw [AList.lookup_insert, Option.some.injEq] at hnode₁
      exact hid (hnode₁ ▸ rfl)
    rw [AList.lookup_insert_ne hne] at hnode₁
    obtain ⟨c', node', hlookup, hnode', heq⟩ := h c₁ node₁ hnode₁
    have hne' : c' ≠ c := by
      rintro rfl
      exact hc (mem_shape.2 ⟨node', hnode'⟩)
    exact ⟨c', node', by rw [AList.lookup_insert_ne hid, hlookup],
      by rw [AList.lookup_insert_ne hne', hnode'], heq⟩

omit [Secp256k1] [Hmac] [ScalarArithmetic] [KeyDerivation] in
/-- Removing a node by its id. -/
theorem Indexed.remove {t : KeyTreePublic} (h : t.Indexed) {c : ChainIndex}
    {node : ChildKeysPublic} (hnode : t.keyMap.lookup c = some node) :
    t.remove node.accountId = ⟨t.keyMap.erase c, t.accountIdMap.erase node.accountId⟩ ∧
      (t.remove node.accountId).Indexed := by
  have heq : t.remove node.accountId =
      ⟨t.keyMap.erase c, t.accountIdMap.erase node.accountId⟩ := by
    unfold KeyTree.remove
    rw [h c node hnode]
  refine ⟨heq, ?_⟩
  rw [heq]
  intro c' node' hnode'
  have hne : c' ≠ c := by
    rintro rfl
    rw [AList.lookup_erase] at hnode'
    cases hnode'
  rw [AList.lookup_erase_ne hne] at hnode'
  have hid : node'.accountId ≠ node.accountId := by
    intro hid
    have h' := h c' node' hnode'
    rw [hid, h c node hnode, Option.some.injEq] at h'
    exact hne h'.symm
  rw [AList.lookup_erase_ne hid, h c' node' hnode']

omit [Secp256k1] [Hmac] [ScalarArithmetic] [KeyDerivation] in
/-- **Clearing a public tree.**  The paths up to the first initialised account go, or up to the
first answer that is missing. -/
theorem Indexed.clearPublic {ε : Type} (getAccount : AccountId → Except ε Account)
    {ids : List ChainIndex} {t : KeyTreePublic} (h : t.Indexed) :
    (clearPublic getAccount ids t).1.Indexed ∧
      ∃ cleared rest, ids = cleared ++ rest ∧
        ∀ c, c ∈ (KeyTree.clearPublic getAccount ids t).1.shape ↔ c ∈ t.shape ∧ c ∉ cleared := by
  induction ids generalizing t with
  | nil => exact ⟨h, [], [], rfl, fun c => by simp [KeyTree.clearPublic]⟩
  | cons id ids ih =>
      have hstop : ∃ cleared rest, id :: ids = cleared ++ rest ∧
          ∀ c, c ∈ t.shape ↔ c ∈ t.shape ∧ c ∉ cleared :=
        ⟨[], id :: ids, rfl, fun c => by simp⟩
      rw [KeyTree.clearPublic]
      split
      · rename_i hnode
        obtain ⟨hindexed, cleared, rest, hids, hshape⟩ := ih h
        refine ⟨hindexed, id :: cleared, rest, by rw [hids, List.cons_append], fun c => ?_⟩
        rw [hshape, List.mem_cons, not_or]
        refine ⟨fun ⟨hc, hnot⟩ => ⟨hc, ?_, hnot⟩, fun ⟨hc, _, hnot⟩ => ⟨hc, hnot⟩⟩
        rintro rfl
        exact notMem_shape.2 hnode hc
      · rename_i node hnode
        split
        · exact ⟨h, hstop⟩
        · split
          · obtain ⟨hremove, hindexed⟩ := h.remove hnode
            obtain ⟨hindexed', cleared, rest, hids, hshape⟩ := ih hindexed
            refine ⟨hindexed', id :: cleared, rest, by rw [hids, List.cons_append], fun c => ?_⟩
            have herase : c ∈ (t.remove node.accountId).shape ↔ c ≠ id ∧ c ∈ t.shape := by
              rw [hremove]
              exact AList.mem_erase
            rw [hshape, herase, List.mem_cons, not_or]
            tauto
          · exact ⟨h, hstop⟩

omit [Secp256k1] [Hmac] [ScalarArithmetic] [KeyDerivation] in
theorem clears_of_cleansPublic {t t' : KeyTreePublic} {depth : UInt32} (h : t.IndexCovers)
    (hclean : CleansPublic t depth t') : t'.IndexCovers ∧ Clears t depth t' := by
  obtain ⟨hdistinct, ε, getAccount, rfl⟩ := hclean
  have hindexed := h.indexed hdistinct
  exact ⟨(hindexed.clearPublic getAccount).1.covers, (hindexed.clearPublic getAccount).2⟩

/-- **Run.**  A public tree keeps its shape closed. -/
theorem closed_of_publicRun {root : ChildKeysPublic} {events : List TreeEvent} {t : KeyTreePublic}
    (hrun : Run (TreeStep CleansPublic) (newFromRoot root) events t) : PathsClosed t.shape := by
  have hcovers : (newFromRoot root).IndexCovers :=
    IndexCovers.adjoin (t := ⟨∅, ∅⟩) (fun c node hnode => by cases hnode)
      (AList.notMem_empty _) root
  refine (hrun.invariant (I := fun t : KeyTreePublic => t.IndexCovers ∧ PathsClosed t.shape)
    ⟨hcovers, shape_newFromRoot root ▸ pathsClosed_root⟩ fun t e t' ht hstep => ?_).2
  exact closed_of_step (fun t c node h hc => h.adjoin hc.notMem node)
    (fun t depth t' h hclean => clears_of_cleansPublic h hclean) ht hstep

/-! ## The shape -/

/-- **Filling.**  What filling a tree that has only a root gives: all paths up to a depth, and
it returns exactly if the keys of these paths can be derived. -/
def FillsLayers (N : Type) [KeyTreeNode N] : Prop :=
  ∀ (t : KeyTree N) (root : N) (depth : UInt32), t.shape = {ChainIndex.root} →
    t.keyMap.lookup ChainIndex.root = some root → 1 ≤ depth.toNat →
    (∀ t', t.generateTreeForDepth depth = .ok t' → t'.shape = { c | c.layer < depth.toNat }) ∧
    ((∃ t', t.generateTreeForDepth depth = .ok t') ↔ Derivable root depth.toNat)

/-- **The shape of key trees.**  In every run of a private tree, and of a public tree whose nodes
have different ids whenever it is cleared, the paths are closed under parents and left
neighbours.  So the search for the last child counts the children of a node, and layered
generation fills the first gap of the first layer that has one. -/
theorem key_tree_shape :
    (∀ (root : ChildKeysPrivate) events t,
      Run (PrivateStep CleansPrivate) (newFromRoot root) events t → t.WellShaped) ∧
    (∀ (root : ChildKeysPublic) events t,
      Run (TreeStep CleansPublic) (newFromRoot root) events t → t.WellShaped) ∧
    FillsLayers ChildKeysPrivate ∧ FillsLayers ChildKeysPublic :=
  ⟨fun _ _ _ hrun => wellShaped (closed_of_privateRun hrun),
    fun _ _ _ hrun => wellShaped (closed_of_publicRun hrun),
    fun _ _ _ hshape hroot hdepth => generateTreeForDepth_spec hshape hroot hdepth,
    fun _ _ _ hshape hroot hdepth => generateTreeForDepth_spec hshape hroot hdepth⟩

end

end KeyTree

namespace Sample

/-- The sample hash in place of a hash with a key. -/
@[reducible] def hmac : Hmac :=
  ⟨fun input key => (sha256.digest (input ++ key), sha256.digest (key ++ input))⟩

@[reducible] def scalars : ScalarArithmetic :=
  ⟨fun a _ => some a, fun a _ => some a, fun _ => true⟩

end Sample

namespace GrownTree

def root : ChildKeysPrivate :=
  let _ := Sample.sha256
  let keyChain : KeyChain := ⟨⟨Bytes32.zero⟩, ⟨Bytes32.zero, Bytes32.zero⟩,
    NullifierPublicKey.ofSecretKey Bytes32.zero, []⟩
  ⟨keyChain, Ledger.insertAll ∅ [(.regular 0, Account.default)], Bytes32.zero, none⟩

/-- All paths of the layers below the third. -/
def filled : KeyTreePrivate :=
  let _ := Sample.sha256; let _ := Sample.curve; let _ := Sample.hmac; let _ := Sample.scalars
  valueD ⟨∅, ∅⟩ ((KeyTree.newFromRoot root).generateTreeForDepth 3)

/-- The account of the first child. -/
def childId : AccountId :=
  let _ := Sample.sha256
  ((filled.idsAt [0]).head?).getD (Sample.accountId 0)

/-- The first child has received something. -/
def received : UserKeyChain :=
  let _ := Sample.sha256
  let wallet := UserKeyChain.newWithAccounts filled
  valueD wallet (wallet.insertPrivateAccount childId (.regular 0)
    (Sample.account (Sample.programId 2) 5))

def cleared : KeyTreePrivate :=
  let _ := Sample.sha256
  received.privateKeyTree.cleanupPrivate 3

end GrownTree

/-- A tree is filled, an account arrives at the first child, and clearing leaves the root and that
child. -/
theorem key_tree_shape_cleared :
    let _ := Sample.sha256; let _ := Sample.curve; let _ := Sample.hmac; let _ := Sample.scalars
    GrownTree.cleared.WellShaped ∧ GrownTree.filled.keyMap.keys.length = 4 ∧
      GrownTree.cleared.keyMap.keys = [[0], []] := by
  intro _ _ _ _
  let _ := Sample.keyDerivation
  obtain ⟨hfilled, hreceived, hkeys⟩ :
      ((KeyTree.newFromRoot GrownTree.root).generateTreeForDepth 3).isOk = true ∧
      ((UserKeyChain.newWithAccounts GrownTree.filled).insertPrivateAccount GrownTree.childId
        (.regular 0) (Sample.account (Sample.programId 2) 5)).isOk = true ∧
      GrownTree.filled.keyMap.keys.length = 4 ∧
        GrownTree.cleared.keyMap.keys = [[0], []] := by decide +kernel
  have hgrow := eq_ok_valueD (⟨∅, ∅⟩ : KeyTreePrivate) hfilled
  have hstore := eq_ok_valueD (UserKeyChain.newWithAccounts GrownTree.filled) hreceived
  have hroot := KeyTree.shape_newFromRoot GrownTree.root
  have hshape := (KeyTree.key_tree_shape.2.2.1 _ GrownTree.root 3 hroot (AList.lookup_insert _)
    (by decide)).1 _ hgrow
  refine ⟨KeyTree.key_tree_shape.1 GrownTree.root
    [.tree (.generateForDepth 3), .store GrownTree.childId (.regular 0) _, .tree (.cleanup 3)] _
    (.cons ⟨hroot, hgrow⟩ (.cons ⟨_, _, rfl, hstore, rfl⟩ (.cons ⟨?_, rfl⟩ .nil))), hkeys⟩
  intro c hc
  rw [KeyTree.shape_of_store hstore] at hc
  exact hshape.subset hc

end ExecutionZone
