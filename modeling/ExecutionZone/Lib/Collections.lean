import Mathlib.Data.Finset.Sort
import Mathlib.Order.Lattice
import ExecutionZone.Lib.Borsh
import ExecutionZone.Lib.Ledger

/-!
# Borsh of collections

The number of elements of a collection is written in four bytes, so a collection can be too
large to be written.  A `PartialCodec` is an encoding that may fail to write; what it has written
is read back.

Maps and sets are written as the list of their elements in ascending order.  Reading inserts the
elements of a list one by one, in any order: the map that is read has the same entries, and
perhaps another order of iteration.
-/

universe u v

namespace ExecutionZone

open Encoding

/-- A self-delimiting encoding that may fail to write a value. -/
structure PartialCodec (α : Type u) where
  write : α → Option (List UInt8)
  read : List UInt8 → Option (α × List UInt8)
  read_write : ∀ {a bytes}, write a = some bytes → ∀ rest, read (bytes ++ rest) = some (a, rest)

/-- An encoding that never fails. -/
def Codec.toPartial {α : Type u} (c : Codec α) : PartialCodec α where
  write a := some (c.write a)
  read := c.read
  read_write h rest := by
    cases h
    exact c.read_write _ rest

namespace PartialCodec

variable {α : Type u} {β : Type v}

/-- `borsh::from_slice`: the value must use all bytes. -/
def decode (c : PartialCodec α) (bytes : List UInt8) : Option α :=
  match c.read bytes with
  | some (a, []) => some a
  | _ => none

theorem decode_write {c : PartialCodec α} {a : α} {bytes : List UInt8}
    (h : c.write a = some bytes) : c.decode bytes = some a := by
  have hread := c.read_write h []
  rw [List.append_nil] at hread
  rw [decode, hread]

@[simp] theorem isSome_write_toPartial (c : Codec α) (a : α) :
    (c.toPartial.write a).isSome = true := rfl

/-! ## Numbers and records -/

/-- `usize`, in eight bytes. -/
def usize : PartialCodec Nat where
  write n := if n < 2 ^ 64 then some (leBytes 8 n) else none
  read bytes := if 8 ≤ bytes.length then some (leNat (bytes.take 8), bytes.drop 8) else none
  read_write {n bytes} h rest := by
    split at h
    · rename_i hlt
      cases h
      have hlen := leBytes_length 8 n
      have hlt : n < 256 ^ 8 := hlt
      rw [if_pos (by rw [List.length_append, hlen]; omega), List.take_left' hlen,
        List.drop_left' hlen, leNat_leBytes, Nat.mod_eq_of_lt hlt]
    · cases h

theorem isSome_write_usize {n : Nat} : (usize.write n).isSome = true ↔ n < 2 ^ 64 := by
  simp [usize]

/-- The same encoding, for a type with the same values. -/
def map (c : PartialCodec α) (e : α ≃ β) : PartialCodec β where
  write b := c.write (e.symm b)
  read bytes := (c.read bytes).map fun p => (e p.1, p.2)
  read_write {b bytes} h rest := by
    rw [c.read_write h, Option.map_some, e.apply_symm_apply]

theorem isSome_write_map {c : PartialCodec α} {e : α ≃ β} {b : β} :
    ((c.map e).write b).isSome = true ↔ (c.write (e.symm b)).isSome = true := Iff.rfl

/-- Two fields. -/
def pair (c : PartialCodec α) (d : PartialCodec β) : PartialCodec (α × β) where
  write p := (c.write p.1).bind fun first => (d.write p.2).map fun second => first ++ second
  read bytes := (c.read bytes).bind fun p => (d.read p.2).map fun q => ((p.1, q.1), q.2)
  read_write {p bytes} h rest := by
    obtain ⟨first, hfirst, h⟩ := Option.bind_eq_some_iff.1 h
    obtain ⟨second, hsecond, rfl⟩ := Option.map_eq_some_iff.1 h
    rw [List.append_assoc, c.read_write hfirst, Option.bind_some, d.read_write hsecond]
    rfl

/-- Both parts can be written. -/
theorem isSome_bind_map {x y : Option (List UInt8)} :
    (x.bind fun first => y.map fun second => first ++ second).isSome = true ↔
      x.isSome = true ∧ y.isSome = true := by
  cases x <;> cases y <;> simp

theorem isSome_write_pair {c : PartialCodec α} {d : PartialCodec β} {p : α × β} :
    ((c.pair d).write p).isSome = true ↔
      (c.write p.1).isSome = true ∧ (d.write p.2).isSome = true := isSome_bind_map

/-! ## Lists -/

/-- A number of values, one after the other. -/
def readMany (c : PartialCodec α) : Nat → List UInt8 → Option (List α × List UInt8)
  | 0, bytes => some ([], bytes)
  | n + 1, bytes => (c.read bytes).bind fun p => (c.readMany n p.2).map fun q => (p.1 :: q.1, q.2)

/-- Values, one after the other. -/
def writeMany (c : PartialCodec α) : List α → Option (List UInt8)
  | [] => some []
  | a :: l => (c.write a).bind fun first => (c.writeMany l).map fun rest => first ++ rest

theorem readMany_writeMany {c : PartialCodec α} {l : List α} {bytes : List UInt8}
    (h : c.writeMany l = some bytes) (rest : List UInt8) :
    c.readMany l.length (bytes ++ rest) = some (l, rest) := by
  induction l generalizing bytes with
  | nil =>
      cases h
      rfl
  | cons a l ih =>
      obtain ⟨first, hfirst, h⟩ := Option.bind_eq_some_iff.1 h
      obtain ⟨others, hothers, rfl⟩ := Option.map_eq_some_iff.1 h
      rw [List.length_cons, readMany, List.append_assoc, c.read_write hfirst, Option.bind_some,
        ih hothers]
      rfl

theorem isSome_writeMany {c : PartialCodec α} {l : List α} :
    (c.writeMany l).isSome = true ↔ ∀ a ∈ l, (c.write a).isSome = true := by
  induction l with
  | nil => simp [writeMany]
  | cons a l ih => rw [writeMany, isSome_bind_map, ih, List.forall_mem_cons]

/-- `Vec<T>`: the number of elements in four bytes, then the elements. -/
def vec (c : PartialCodec α) : PartialCodec (List α) where
  write l :=
    if l.length < 2 ^ 32 then (c.writeMany l).map fun bytes => leBytes 4 l.length ++ bytes
    else none
  read bytes :=
    if 4 ≤ bytes.length then c.readMany (leNat (bytes.take 4)) (bytes.drop 4) else none
  read_write {l bytes} h rest := by
    split at h
    · rename_i hlt
      obtain ⟨elements, helements, rfl⟩ := Option.map_eq_some_iff.1 h
      have hlen := leBytes_length 4 l.length
      have hlt : l.length < 256 ^ 4 := hlt
      rw [List.append_assoc, if_pos (by rw [List.length_append, hlen]; omega),
        List.take_left' hlen, List.drop_left' hlen, leNat_leBytes, Nat.mod_eq_of_lt hlt]
      exact readMany_writeMany helements rest
    · cases h

theorem isSome_write_vec {c : PartialCodec α} {l : List α} :
    (c.vec.write l).isSome = true ↔
      l.length < 2 ^ 32 ∧ ∀ a ∈ l, (c.write a).isSome = true := by
  rw [← isSome_writeMany]
  change (if l.length < 2 ^ 32 then _ else none).isSome = true ↔ _
  split
  · rename_i h
    simp only [Option.isSome_map, h, true_and]
  · rename_i h
    simp only [Option.isSome_none, Bool.false_eq_true, h, false_and]

end PartialCodec

/-! ## Maps and sets -/

section

variable {κ : Type u} {β : Type v}

/-- The entries of a `HashMap` in ascending order of the keys, which `key` compares. -/
def sortedPairs (key : κ → Nat) (m : Ledger.Map κ β) : List (κ × β) :=
  (Ledger.pairs m).mergeSort fun p q => decide (key p.1 ≤ key q.1)

theorem perm_sortedPairs (key : κ → Nat) (m : Ledger.Map κ β) :
    (sortedPairs key m).Perm (Ledger.pairs m) := List.mergeSort_perm _ _

theorem length_sortedPairs (key : κ → Nat) (m : Ledger.Map κ β) :
    (sortedPairs key m).length = (Ledger.pairs m).length := (perm_sortedPairs key m).length_eq

/-- The elements of a set in ascending order. -/
def sortedElements (key : κ → Nat) (hkey : Function.Injective key) (s : Finset κ) : List κ :=
  letI : LinearOrder κ := LinearOrder.lift' key hkey
  s.sort

theorem nodup_sortedElements (key : κ → Nat) (hkey : Function.Injective key) (s : Finset κ) :
    (sortedElements key hkey s).Nodup := Finset.sort_nodup _ _

theorem length_sortedElements (key : κ → Nat) (hkey : Function.Injective key) (s : Finset κ) :
    (sortedElements key hkey s).length = s.card := Finset.length_sort _

variable [DecidableEq κ]

/-- A map has the same entries if they are inserted in another order. -/
theorem sameEntries_sortedPairs (key : κ → Nat) (m : Ledger.Map κ β) :
    Ledger.SameEntries m (Ledger.insertAll ∅ (sortedPairs key m)) := by
  intro k
  have hperm := perm_sortedPairs key m
  have hnodup : ((sortedPairs key m).map Prod.fst).Nodup :=
    (hperm.map Prod.fst).nodup_iff.2 Ledger.nodup_keys_pairs
  cases hlookup : m.lookup k with
  | some v =>
      exact Ledger.lookup_insertAll_of_mem hnodup (hperm.mem_iff.2 (Ledger.mem_pairs.2 hlookup))
  | none =>
      rw [Ledger.lookup_insertAll_of_notMem, AList.lookup_empty]
      intro hmem
      obtain ⟨⟨k', v⟩, hpair, rfl⟩ := List.mem_map.1 hmem
      have hsome := Ledger.mem_pairs.1 (hperm.mem_iff.1 hpair)
      cases hlookup.symm.trans hsome

theorem toFinset_sortedElements (key : κ → Nat) (hkey : Function.Injective key) (s : Finset κ) :
    (sortedElements key hkey s).toFinset = s := by
  ext a
  rw [List.mem_toFinset, sortedElements, Finset.mem_sort]

end

end ExecutionZone
