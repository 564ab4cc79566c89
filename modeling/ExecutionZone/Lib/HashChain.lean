import Mathlib.Data.List.Basic
import Mathlib.Data.List.Induction

/-!
# Chains of digests

Records in a row, each of which carries the digest of the one before it: `prev b` is what it
carries and `own b` is its own digest.  Where a digest determines the content of its record, and
the content determines the position of the record and what it carries, the last digest determines
the contents of the whole chain.
-/

universe u v w

namespace ExecutionZone.HashChain

variable {β : Type u} {H : Type v} {γ : Type w} {prev own : β → H} {root : H} {b : β}
  {l l' : List β}

/-- The first record carries `root`, and every other one the digest of its predecessor. -/
def Linked (prev own : β → H) (root : H) : List β → Prop
  | [] => True
  | b :: l => prev b = root ∧ Linked prev own (own b) l

/-- The last digest, or `root`. -/
def tip (own : β → H) (root : H) (l : List β) : H := l.foldl (fun _ b => own b) root

@[simp] theorem tip_concat (l : List β) (b : β) : tip own root (l ++ [b]) = own b :=
  List.foldl_append

theorem linked_concat :
    Linked prev own root (l ++ [b]) ↔ Linked prev own root l ∧ prev b = tip own root l := by
  induction l generalizing root with
  | nil => simp [Linked, tip]
  | cons a l ih =>
      rw [List.cons_append, Linked, Linked, ih, and_assoc]
      rfl

/-- The position of a record is part of its content. -/
def Positioned (ordinal : β → Nat) (l : List β) : Prop :=
  ∀ i b, l[i]? = some b → ordinal b = i + 1

theorem Positioned.length_eq {ordinal : β → Nat} (h : Positioned ordinal (l ++ [b])) :
    ordinal b = l.length + 1 := h _ _ List.getElem?_concat_length

theorem Positioned.of_concat {ordinal : β → Nat} (h : Positioned ordinal (l ++ [b])) :
    Positioned ordinal l := by
  intro i a hi
  refine h i a ?_
  rw [List.getElem?_append_left (List.getElem?_eq_some_iff.1 hi).1, hi]

/-- **Commitment.**  Two chains with the same last digest have the same contents. -/
theorem map_content_eq {content : β → γ} {ordinal : β → Nat}
    (hown : ∀ b ∈ l, ∀ b' ∈ l', own b = own b' → content b = content b')
    (hprev : ∀ b b', content b = content b' → prev b = prev b')
    (hordinal : ∀ b b', content b = content b' → ordinal b = ordinal b')
    (hl : Linked prev own root l) (hl' : Linked prev own root l') (hpos : Positioned ordinal l)
    (hpos' : Positioned ordinal l') (hne : l ≠ []) (hne' : l' ≠ [])
    (htip : tip own root l = tip own root l') : l.map content = l'.map content := by
  -- from the end: the last records have equal contents, hence equal positions and predecessors
  induction l using List.reverseRecOn generalizing l' with
  | nil => exact absurd rfl hne
  | append_singleton l b ih =>
      obtain ⟨l', b', rfl⟩ := l'.eq_nil_or_concat'.resolve_left hne'
      have hcontent : content b = content b' := by
        refine hown b (List.mem_concat_self) b' (List.mem_concat_self) ?_
        rwa [tip_concat, tip_concat] at htip
      have hlen : l.length = l'.length := by
        have h := hordinal b b' hcontent
        rw [hpos.length_eq, hpos'.length_eq] at h
        exact Nat.succ.inj h
      obtain ⟨hl, hb⟩ := linked_concat.1 hl
      obtain ⟨hl', hb'⟩ := linked_concat.1 hl'
      have hcontents : l.map content = l'.map content := by
        rcases l.eq_nil_or_concat' with rfl | ⟨m, a, rfl⟩
        · rw [List.eq_nil_of_length_eq_zero hlen.symm]
        · refine ih (fun a ha a' ha' => hown a (List.mem_append_left _ ha) a'
            (List.mem_append_left _ ha')) hl hl' hpos.of_concat hpos'.of_concat (by simp) ?_
            (hb.symm.trans ((hprev b b' hcontent).trans hb'))
          rintro rfl
          rw [List.length_append] at hlen
          cases hlen
      rw [List.map_append, List.map_append, hcontents, List.map_singleton, List.map_singleton,
        hcontent]

end ExecutionZone.HashChain
