import Mathlib.Algebra.BigOperators.Group.Finset.Basic
import Mathlib.Algebra.GroupWithZero.Nat
import Mathlib.Data.Finset.Basic

/-!
# Pools of notes

A pool holds notes and nullifiers; both only grow.  `nullifies c n` says that publishing
`n` spends `c`, and the worth of a pool lies in its unspent notes.

A transaction is a list of moves.  A move publishes a nullifier and adds a note; it spends
the note its nullifier belongs to, if any.  If the moves are valid, the notes they spend
leave the unspent notes and the notes they add enter them (`ValidMoves.mem_unspent`), so
the worth changes by the difference (`ValidMoves.sum_unspent`).
-/

universe u v

namespace ExecutionZone.NotePool

variable {C : Type u} {N : Type v}

/-- Publish `nullifier`, which spends `source`, and add `target`. -/
structure Move (C : Type u) (N : Type v) where
  source : Option C
  nullifier : N
  target : C

def Spent (nullifies : C → N → Prop) (nulls : Finset N) (c : C) : Prop :=
  ∃ n ∈ nulls, nullifies c n

open Classical in
noncomputable def unspent (nullifies : C → N → Prop) (coms : Finset C) (nulls : Finset N) :
    Finset C :=
  coms.filter fun c => ¬Spent nullifies nulls c

variable {nullifies : C → N → Prop} {coms : Finset C} {nulls : Finset N}

theorem mem_unspent {c : C} :
    c ∈ unspent nullifies coms nulls ↔ c ∈ coms ∧ ¬Spent nullifies nulls c := by
  classical
  exact Finset.mem_filter

/-- Each move spends an unspent note or none, and adds a note that was not there. -/
structure ValidMoves (nullifies : C → N → Prop) (coms : Finset C) (nulls : Finset N)
    (moves : List (Move C N)) : Prop where
  nullifies_iff : ∀ m ∈ moves, ∀ c, nullifies c m.nullifier ↔ m.source = some c
  source_mem : ∀ m ∈ moves, ∀ c, m.source = some c → c ∈ unspent nullifies coms nulls
  sources_nodup : (moves.filterMap (·.source)).Nodup
  target_notMem : ∀ m ∈ moves, m.target ∉ coms
  target_not_spent : ∀ m ∈ moves, ¬Spent nullifies nulls m.target
  targets_nodup : (moves.map (·.target)).Nodup

section

variable [DecidableEq C] [DecidableEq N] {moves : List (Move C N)}

/-- The unspent notes after valid moves. -/
theorem ValidMoves.mem_unspent (h : ValidMoves nullifies coms nulls moves) {c : C} :
    c ∈ unspent nullifies (coms ∪ (moves.map (·.target)).toFinset)
        (nulls ∪ (moves.map (·.nullifier)).toFinset) ↔
      (c ∈ unspent nullifies coms nulls ∧ c ∉ moves.filterMap (·.source)) ∨
        c ∈ moves.map (·.target) := by
  have hspent : Spent nullifies (nulls ∪ (moves.map (·.nullifier)).toFinset) c ↔
      Spent nullifies nulls c ∨ c ∈ moves.filterMap (·.source) := by
    constructor
    · rintro ⟨n, hn, hc⟩
      rcases Finset.mem_union.1 hn with hn | hn
      · exact .inl ⟨n, hn, hc⟩
      · obtain ⟨m, hm, rfl⟩ := List.mem_map.1 (List.mem_toFinset.1 hn)
        exact .inr (List.mem_filterMap.2 ⟨m, hm, (h.nullifies_iff m hm c).1 hc⟩)
    · rintro (⟨n, hn, hc⟩ | hc)
      · exact ⟨n, Finset.mem_union_left _ hn, hc⟩
      · obtain ⟨m, hm, hc⟩ := List.mem_filterMap.1 hc
        refine ⟨m.nullifier, Finset.mem_union_right _ ?_, (h.nullifies_iff m hm c).2 hc⟩
        exact List.mem_toFinset.2 (List.mem_map_of_mem hm)
  rw [NotePool.mem_unspent, NotePool.mem_unspent, hspent, Finset.mem_union, List.mem_toFinset]
  constructor
  · rintro ⟨hc | hc, hs⟩
    · exact .inl ⟨⟨hc, fun hs' => hs (.inl hs')⟩, fun hs' => hs (.inr hs')⟩
    · exact .inr hc
  · rintro (⟨⟨hc, hs⟩, hn⟩ | hc)
    · exact ⟨.inl hc, fun hs' => hs'.elim hs hn⟩
    · -- a new note is neither spent before nor by a move, whose source is an old note
      refine ⟨.inr hc, ?_⟩
      obtain ⟨m, hm, rfl⟩ := List.mem_map.1 hc
      rintro (hs | hs)
      · exact h.target_not_spent m hm hs
      · obtain ⟨m', hm', hsource⟩ := List.mem_filterMap.1 hs
        exact h.target_notMem m hm (NotePool.mem_unspent.1 (h.source_mem m' hm' _ hsource)).1

omit [DecidableEq C] [DecidableEq N] in
theorem sum_sources (moves : List (Move C N)) (f : C → Nat) :
    ((moves.filterMap (·.source)).map f).sum = (moves.map fun m => m.source.elim 0 f).sum := by
  induction moves with
  | nil => rfl
  | cons m moves ih =>
      cases hm : m.source with
      | none =>
          rw [List.filterMap_cons_none hm, List.map_cons, List.sum_cons, hm, ih, Option.elim_none,
            Nat.zero_add]
      | some c =>
          rw [List.filterMap_cons_some hm, List.map_cons, List.sum_cons, ih, List.map_cons,
            List.sum_cons, hm, Option.elim_some]

/-- The worth of the pool changes by what is added minus what is spent. -/
theorem ValidMoves.sum_unspent (h : ValidMoves nullifies coms nulls moves) (f : C → Nat) :
    ∑ c ∈ unspent nullifies (coms ∪ (moves.map (·.target)).toFinset)
        (nulls ∪ (moves.map (·.nullifier)).toFinset), f c +
        (moves.map fun m => m.source.elim 0 f).sum =
      ∑ c ∈ unspent nullifies coms nulls, f c + (moves.map fun m => f m.target).sum := by
  have htargets : (moves.map fun m => f m.target).sum = ((moves.map (·.target)).map f).sum := by
    rw [List.map_map]
    rfl
  have hsub : (moves.filterMap (·.source)).toFinset ⊆ unspent nullifies coms nulls := by
    intro c hc
    obtain ⟨m, hm, hc⟩ := List.mem_filterMap.1 (List.mem_toFinset.1 hc)
    exact h.source_mem m hm c hc
  have hset : unspent nullifies (coms ∪ (moves.map (·.target)).toFinset)
      (nulls ∪ (moves.map (·.nullifier)).toFinset) =
      (unspent nullifies coms nulls \ (moves.filterMap (·.source)).toFinset) ∪
        (moves.map (·.target)).toFinset := by
    ext c
    rw [h.mem_unspent, Finset.mem_union, Finset.mem_sdiff, List.mem_toFinset, List.mem_toFinset]
  have hdisj : Disjoint (unspent nullifies coms nulls \ (moves.filterMap (·.source)).toFinset)
      (moves.map (·.target)).toFinset := by
    refine Finset.disjoint_left.2 fun c hc ht => ?_
    obtain ⟨m, hm, rfl⟩ := List.mem_map.1 (List.mem_toFinset.1 ht)
    exact h.target_notMem m hm (NotePool.mem_unspent.1 (Finset.mem_sdiff.1 hc).1).1
  rw [hset, Finset.sum_union hdisj, ← sum_sources, htargets,
    ← List.sum_toFinset f h.sources_nodup, ← List.sum_toFinset f h.targets_nodup, ← Finset.sum_sdiff hsub]
  exact Nat.add_right_comm _ _ _

end

end ExecutionZone.NotePool
