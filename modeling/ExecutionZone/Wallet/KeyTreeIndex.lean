import ExecutionZone.Wallet.KeyTreeShape

/-!
# The account ids of a private key tree

`account_id_map` leads from account ids to nodes.  An entry is good if there is such a node and
its key gives the id for some kind.  Nodes that are added, identifiers that are registered and
accounts that are stored keep all entries good.

Clearing removes a node with the ids of its accounts.  A registered identifier is no account
until one is stored, so its entry stays behind.  The index stays good exactly if every entry of
a node that goes is the id of an account that goes (`key_tree_index_iff`).
-/

namespace ExecutionZone

namespace KeyTree

variable [Sha256]

/-- Every entry leads to a node whose key gives the id. -/
def IndexSound (t : KeyTreePrivate) : Prop :=
  ∀ accountId c, t.accountIdMap.lookup accountId = some c →
    ∃ node, t.keyMap.lookup c = some node ∧
      ∃ kind, AccountId.forPrivateAccount node.keyChain.nullifierPublicKey kind = accountId

/-- The entries of the nodes that clearing a tree removes are ids of the accounts it removes. -/
def EntriesCleared (t : KeyTreePrivate) (depth : UInt32) : Prop :=
  let cleared := t.clearedIds (visitedIds depth.toNat)
  ∀ accountId c, t.accountIdMap.lookup accountId = some c → c ∈ cleared →
    accountId ∈ cleared.flatMap t.idsAt

/-! ## Single steps -/

section

variable {t : KeyTreePrivate} {c : ChainIndex} {node : ChildKeysPrivate}

theorem IndexSound.adjoin [Secp256k1] [Hmac] [ScalarArithmetic] (h : t.IndexSound)
    (hc : c ∉ t.shape) (node : ChildKeysPrivate) : (t.insertNode c node).IndexSound := by
  intro accountId c' hentry
  rcases Ledger.mem_or_lookup_of_insertAll hentry with hmem | hold
  · obtain ⟨id, hid, heq⟩ := List.mem_map.1 hmem
    cases heq
    obtain ⟨kind, _, hkind⟩ := List.mem_map.1 hid
    exact ⟨node, AList.lookup_insert _, kind, hkind⟩
  · obtain ⟨node', hnode', hkind⟩ := h accountId c' hold
    have hne : c' ≠ c := by
      rintro rfl
      exact hc (mem_shape.2 ⟨node', hnode'⟩)
    exact ⟨node', (AList.lookup_insert_ne hne).trans hnode', hkind⟩

/-- An entry for a node whose key gives the id. -/
theorem IndexSound.register (h : t.IndexSound) (hnode : t.keyMap.lookup c = some node)
    (kind : PrivateAccountKind) :
    IndexSound ⟨t.keyMap, t.accountIdMap.insert
      (AccountId.forPrivateAccount node.keyChain.nullifierPublicKey kind) c⟩ := by
  intro accountId c' hentry
  by_cases hid : accountId = AccountId.forPrivateAccount node.keyChain.nullifierPublicKey kind
  · subst hid
    rw [AList.lookup_insert, Option.some.injEq] at hentry
    exact ⟨node, hentry ▸ hnode, kind, rfl⟩
  · rw [AList.lookup_insert_ne hid] at hentry
    exact h accountId c' hentry

/-- A node can be replaced by one with the same key. -/
theorem IndexSound.replace (h : t.IndexSound) (hnode : t.keyMap.lookup c = some node)
    {node' : ChildKeysPrivate} (hkey : node'.keyChain = node.keyChain) :
    IndexSound ⟨t.keyMap.insert c node', t.accountIdMap⟩ := by
  intro accountId c' hentry
  obtain ⟨old, hold, kind, hkind⟩ := h accountId c' hentry
  by_cases hc : c' = c
  · subst hc
    obtain rfl : old = node := Option.some.inj (hold.symm.trans hnode)
    exact ⟨node', AList.lookup_insert _, kind, by rw [hkey, hkind]⟩
  · exact ⟨old, (AList.lookup_insert_ne hc).trans hold, kind, hkind⟩

theorem IndexSound.store {u u' : UserKeyChain} {accountId : AccountId}
    {kind : PrivateAccountKind} {account : Account} (h : u.privateKeyTree.IndexSound)
    (hinsert : u.insertPrivateAccount accountId kind account = .ok u') :
    u'.privateKeyTree.IndexSound := by
  rcases UserKeyChain.tree_of_insert hinsert with heq | ⟨c, node, ids, hnode, heq, hids⟩
  · rw [heq]
    exact h
  · rw [heq]
    have hreplaced : IndexSound ⟨u.privateKeyTree.keyMap.insert c
        { node with accounts := node.accounts.insert kind account },
        u.privateKeyTree.accountIdMap⟩ := h.replace hnode rfl
    rcases hids with rfl | ⟨rfl, rfl⟩
    · exact hreplaced
    · exact hreplaced.register (AList.lookup_insert _) kind

/-- **Clearing.**  What is left behind are the entries that are no ids of accounts. -/
theorem indexSound_cleanup_iff (h : t.IndexSound) (depth : UInt32) :
    (t.cleanupPrivate depth).IndexSound ↔ t.EntriesCleared depth := by
  obtain ⟨hkeys, hids⟩ := lookup_clearPrivate (nodup_visitedIds depth.toNat) t
  constructor
  · intro hsound accountId c hentry hc
    by_contra hnot
    obtain ⟨node, hnode, _⟩ := hsound accountId c
      ((hids accountId).trans ((if_neg hnot).trans hentry))
    have hnone := (hkeys c).trans (if_pos hc)
    cases hnode.symm.trans hnone
  · intro hcleared accountId c hentry
    rw [cleanupPrivate, hids] at hentry
    split at hentry
    · cases hentry
    · rename_i hnot
      obtain ⟨node, hnode, hkind⟩ := h accountId c hentry
      have hkept : c ∉ t.clearedIds (visitedIds depth.toNat) :=
        fun hc => hnot (hcleared accountId c hentry hc)
      exact ⟨node, (hkeys c).trans ((if_neg hkept).trans hnode), hkind⟩

end

/-! ## Runs -/

section

variable [Secp256k1] [Hmac] [ScalarArithmetic]

/-- Clearing a tree that leaves no entry behind. -/
def CleansEntries (t : KeyTreePrivate) (depth : UInt32) (t' : KeyTreePrivate) : Prop :=
  t.EntriesCleared depth ∧ CleansPrivate t depth t'

theorem indexSound_of_step {t t' : KeyTreePrivate} {e : PrivateEvent}
    (h : t.IndexSound ∧ PathsClosed t.shape) (hstep : PrivateStep CleansEntries t e t') :
    t'.IndexSound ∧ PathsClosed t'.shape := by
  cases e with
  | tree e =>
      refine closed_of_step (fun t c node h hc => h.adjoin hc.notMem node) ?_ h hstep
      rintro t depth t' hsound ⟨hcleared, hclean⟩
      exact ⟨hclean ▸ (indexSound_cleanup_iff hsound depth).2 hcleared,
        clears_of_cleansPrivate hclean⟩
  | register cci identifier =>
      obtain ⟨accountId, hregister⟩ := hstep
      obtain ⟨node, hnode, rfl, _, rfl⟩ := eq_of_register hregister
      exact ⟨h.1.register hnode (.regular identifier), h.2⟩
  | store accountId kind account =>
      obtain ⟨u, u', rfl, hinsert, rfl⟩ := hstep
      exact ⟨h.1.store hinsert, shape_of_store hinsert ▸ h.2⟩

/-- **The index of a private tree.**  In every run in which clearing leaves no entry behind, each
entry leads to a node whose key gives the id; and where all did before, clearing keeps that
exactly if it leaves none behind. -/
theorem key_tree_index_iff :
    (∀ (root : ChildKeysPrivate) events t,
      Run (PrivateStep CleansEntries) (newFromRoot root) events t → t.IndexSound) ∧
    ∀ (t : KeyTreePrivate) (depth : UInt32), t.IndexSound →
      ((t.cleanupPrivate depth).IndexSound ↔ t.EntriesCleared depth) := by
  refine ⟨fun root events t hrun => ?_, fun t depth h => indexSound_cleanup_iff h depth⟩
  have hempty : IndexSound ⟨∅, ∅⟩ := fun accountId c hentry => by cases hentry
  have hroot : (newFromRoot root).IndexSound := hempty.adjoin (AList.notMem_empty _) root
  exact (hrun.invariant (I := fun t => t.IndexSound ∧ PathsClosed t.shape)
    ⟨hroot, shape_newFromRoot root ▸ pathsClosed_root⟩ fun _ _ _ h hstep =>
      indexSound_of_step h hstep).1

end

end KeyTree

namespace LeftBehind

/-- A tree with one child. -/
def generated : Option (ChainIndex × KeyTreePrivate) :=
  let _ := Sample.sha256; let _ := Sample.curve; let _ := Sample.hmac; let _ := Sample.scalars
  valueD none ((KeyTree.newFromRoot GrownTree.root).generateNewNode ChainIndex.root)

def child : KeyTreePrivate := (generated.map Prod.snd).getD ⟨∅, ∅⟩

/-- The identifier 5 is registered for the child. -/
def registration : Option (AccountId × KeyTreePrivate) :=
  let _ := Sample.sha256
  child.registerIdentifierOnNode [0] 5

def accountId : AccountId := (registration.map Prod.fst).getD (Sample.accountId 0)

def registered : KeyTreePrivate := (registration.map Prod.snd).getD ⟨∅, ∅⟩

def cleared : KeyTreePrivate :=
  let _ := Sample.sha256
  registered.cleanupPrivate 2

end LeftBehind

/-- An identifier is registered for a child that is then cleared.  The entry leads nowhere, and an
account that arrives under this id makes the wallet panic. -/
theorem registered_identifier_left_behind :
    let _ := Sample.sha256; let _ := Sample.curve; let _ := Sample.hmac; let _ := Sample.scalars
    (∃ events, Run (KeyTree.PrivateStep KeyTree.CleansPrivate)
      (KeyTree.newFromRoot GrownTree.root) events LeftBehind.cleared) ∧
    ¬ LeftBehind.cleared.IndexSound ∧
    ∀ account, (UserKeyChain.newWithAccounts LeftBehind.cleared).insertPrivateAccount
      LeftBehind.accountId (.regular 5) account =
        .error (.panic "Node must be present in a tree") := by
  intro _ _ _ _
  obtain ⟨hgenerated, hregistered, hlayers, hentry, hnode⟩ :
      (((KeyTree.newFromRoot GrownTree.root).generateNewNode ChainIndex.root).isOk = true ∧
        LeftBehind.generated.isSome) ∧
      LeftBehind.registration.isSome ∧
      (∀ c ∈ LeftBehind.registered.keyMap.keys, c.layer < 2) ∧
      LeftBehind.cleared.accountIdMap.lookup LeftBehind.accountId = some [0] ∧
      (LeftBehind.cleared.keyMap.lookup [0]).isNone := by decide +kernel
  have hnone := Option.isNone_iff_eq_none.1 hnode
  obtain ⟨⟨c, t⟩, ht⟩ := Option.isSome_iff_exists.1 hgenerated.2
  obtain ⟨⟨id, t'⟩, ht'⟩ := Option.isSome_iff_exists.1 hregistered
  have hgenerate : KeyTree.PrivateStep KeyTree.CleansPrivate (KeyTree.newFromRoot GrownTree.root)
      (.tree (.generate ChainIndex.root)) LeftBehind.child := by
    refine ⟨c, ?_⟩
    rw [LeftBehind.child, ht]
    exact (eq_ok_valueD none hgenerated.1).trans (congrArg Except.ok ht)
  have hregister : KeyTree.PrivateStep KeyTree.CleansPrivate LeftBehind.child (.register [0] 5)
      LeftBehind.registered := by
    refine ⟨id, ?_⟩
    rw [LeftBehind.registered, ht']
    exact ht'
  have hcleanup : KeyTree.PrivateStep KeyTree.CleansPrivate LeftBehind.registered
      (.tree (.cleanup 2)) LeftBehind.cleared := ⟨hlayers, rfl⟩
  refine ⟨⟨_, .cons hgenerate (.cons hregister (.cons hcleanup .nil))⟩, ?_, fun account => ?_⟩
  · intro hsound
    obtain ⟨node, hnode, _⟩ := hsound _ _ hentry
    cases hnode.symm.trans hnone
  · have hshared : (UserKeyChain.newWithAccounts LeftBehind.cleared).sharedPrivateAccounts.lookup
        LeftBehind.accountId = none := rfl
    have himported : (UserKeyChain.newWithAccounts LeftBehind.cleared).findImported
        LeftBehind.accountId = none := rfl
    exact UserKeyChain.insertPrivateAccount_of_missing hshared himported hentry hnone

end ExecutionZone
