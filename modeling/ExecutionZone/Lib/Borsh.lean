import Mathlib.Data.Sum.Basic
import Mathlib.Logic.Equiv.Defs
import ExecutionZone.Lib.Encoding

/-!
# Borsh

The encodings that `borsh` derives.  An encoding reads a value off the front of a byte
string and returns the rest.  A `Codec` carries the two laws every such format has: what
was written is read back, and whatever is read was written, so that a value has one
encoding.  `decode` reads a whole string, as `try_from_slice` does, and succeeds exactly
on the encodings.

The combinators below are the shapes of the format: fixed-width words and arrays, records
as concatenations, enumerations as a tag before the variant, options and texts.
-/

universe u v

namespace ExecutionZone

open Encoding

/-- A self-delimiting encoding of the values of a type. -/
structure Codec (α : Type u) where
  /-- `BorshSerialize::serialize`. -/
  write : α → List UInt8
  /-- `BorshDeserialize::deserialize`, with the bytes that are left. -/
  read : List UInt8 → Option (α × List UInt8)
  read_write : ∀ a rest, read (write a ++ rest) = some (a, rest)
  write_of_read : ∀ {bytes a rest}, read bytes = some (a, rest) → bytes = write a ++ rest

namespace Codec

variable {α : Type u} {β : Type v}

/-- `BorshDeserialize::try_from_slice`: the value must use all bytes. -/
def decode (c : Codec α) (bytes : List UInt8) : Option α :=
  match c.read bytes with
  | some (a, []) => some a
  | _ => none

theorem decode_write (c : Codec α) (a : α) : c.decode (c.write a) = some a := by
  have hread := c.read_write a []
  rw [List.append_nil] at hread
  rw [decode, hread]

/-- What is decoded is the encoding of the value. -/
theorem decode_eq_some {c : Codec α} {bytes : List UInt8} {a : α} :
    c.decode bytes = some a ↔ bytes = c.write a := by
  constructor
  · intro h
    unfold decode at h
    split at h
    · rename_i hread
      cases h
      rw [c.write_of_read hread, List.append_nil]
    · cases h
  · rintro rfl
    exact c.decode_write a

theorem isSome_decode {c : Codec α} {bytes : List UInt8} :
    (c.decode bytes).isSome = true ↔ ∃ a, bytes = c.write a := by
  rw [Option.isSome_iff_exists]
  exact exists_congr fun a => decode_eq_some

/-- The encodings are the strings of `n` bytes. -/
def Fixed (c : Codec α) (n : Nat) : Prop := ∀ bytes, (∃ a, bytes = c.write a) ↔ bytes.length = n

/-! ## Words and arrays -/

/-- `n` bytes, little endian. -/
def word (n : Nat) : Codec (BitVec (8 * n)) where
  write x := leBytes n x.toNat
  read bytes :=
    if n ≤ bytes.length then some (BitVec.ofNat _ (leNat (bytes.take n)), bytes.drop n) else none
  read_write x rest := by
    have hlen := leBytes_length n x.toNat
    have hlt : x.toNat < 256 ^ n := by
      have := x.isLt
      rwa [Nat.pow_mul] at this
    rw [if_pos (by rw [List.length_append, hlen]; omega), List.take_left' hlen,
      List.drop_left' hlen, leNat_leBytes, Nat.mod_eq_of_lt hlt, BitVec.ofNat_toNat,
      BitVec.setWidth_eq]
  write_of_read {bytes x rest} h := by
    split at h
    · rename_i hle
      cases h
      have hlen : (bytes.take n).length = n := List.length_take_of_le hle
      have hlt : leNat (bytes.take n) < 2 ^ (8 * n) := by
        have := leNat_lt (bytes.take n)
        rw [hlen] at this
        rwa [Nat.pow_mul]
      have hbytes := leBytes_leNat (bytes.take n)
      rw [hlen] at hbytes
      rw [BitVec.toNat_ofNat, Nat.mod_eq_of_lt hlt, hbytes, List.take_append_drop]
    · cases h

@[simp] theorem word_write_length (n : Nat) (x : BitVec (8 * n)) :
    ((word n).write x).length = n := leBytes_length _ _

theorem word_fixed (n : Nat) : (word n).Fixed n := by
  intro bytes
  constructor
  · rintro ⟨x, rfl⟩
    exact word_write_length n x
  · intro hlen
    have hread : (word n).read bytes =
        some (BitVec.ofNat _ (leNat (bytes.take n)), bytes.drop n) := 
      if_pos (Nat.le_of_eq hlen.symm)
    have hbytes := (word n).write_of_read hread
    rw [List.drop_of_length_le (Nat.le_of_eq hlen), List.append_nil] at hbytes
    exact ⟨_, hbytes⟩

/-- `[u8; n]`. -/
def array (n : Nat) : Codec (Vector UInt8 n) where
  write v := v.toList
  read bytes :=
    if h : n ≤ bytes.length then
      some (⟨(bytes.take n).toArray, by rw [List.size_toArray, List.length_take_of_le h]⟩,
        bytes.drop n)
    else none
  read_write v rest := by
    have hlen : v.toList.length = n := Vector.length_toList
    rw [dif_pos (by rw [List.length_append, hlen]; omega)]
    simp only [List.take_left' hlen, List.drop_left' hlen]
    rfl
  write_of_read {bytes v rest} h := by
    split at h
    · cases h
      rw [Vector.toList_mk, List.toList_toArray, List.take_append_drop]
    · cases h

@[simp] theorem array_write (n : Nat) (v : Vector UInt8 n) : (array n).write v = v.toList := rfl

theorem array_fixed (n : Nat) : (array n).Fixed n := by
  intro bytes
  constructor
  · rintro ⟨v, rfl⟩
    exact Vector.length_toList
  · intro hlen
    exact ⟨⟨bytes.toArray, by rw [List.size_toArray, hlen]⟩, rfl⟩

/-! ## Records and enumerations -/

/-- The same encoding, for a type with the same values. -/
def map (c : Codec α) (e : α ≃ β) : Codec β where
  write b := c.write (e.symm b)
  read bytes := (c.read bytes).map fun p => (e p.1, p.2)
  read_write b rest := by
    rw [c.read_write, Option.map_some, e.apply_symm_apply]
  write_of_read {bytes b rest} h := by
    obtain ⟨⟨a, rest'⟩, hread, heq⟩ := Option.map_eq_some_iff.1 h
    cases heq
    rw [e.symm_apply_apply]
    exact c.write_of_read hread

@[simp] theorem map_write (c : Codec α) (e : α ≃ β) (b : β) :
    (c.map e).write b = c.write (e.symm b) := rfl

theorem Fixed.map {c : Codec α} {n : Nat} (h : c.Fixed n) (e : α ≃ β) : (c.map e).Fixed n := by
  intro bytes
  rw [← h bytes]
  constructor
  · rintro ⟨b, rfl⟩
    exact ⟨e.symm b, rfl⟩
  · rintro ⟨a, rfl⟩
    exact ⟨e a, by rw [map_write, e.symm_apply_apply]⟩

/-- Two fields. -/
def pair (c : Codec α) (d : Codec β) : Codec (α × β) where
  write p := c.write p.1 ++ d.write p.2
  read bytes := (c.read bytes).bind fun p => (d.read p.2).map fun q => ((p.1, q.1), q.2)
  read_write p rest := by
    rw [List.append_assoc, c.read_write, Option.bind_some, d.read_write]
    rfl
  write_of_read {bytes p rest} h := by
    obtain ⟨⟨a, tail⟩, hread, h⟩ := Option.bind_eq_some_iff.1 h
    obtain ⟨⟨b, rest'⟩, hread', heq⟩ := Option.map_eq_some_iff.1 h
    cases heq
    have htail : tail = d.write b ++ rest' := d.write_of_read hread'
    rw [c.write_of_read hread, htail, List.append_assoc]

@[simp] theorem pair_write (c : Codec α) (d : Codec β) (p : α × β) :
    (c.pair d).write p = c.write p.1 ++ d.write p.2 := rfl

theorem Fixed.pair {c : Codec α} {d : Codec β} {m n : Nat} (hc : c.Fixed m) (hd : d.Fixed n) :
    (c.pair d).Fixed (m + n) := by
  intro bytes
  constructor
  · rintro ⟨p, rfl⟩
    rw [pair_write, List.length_append, (hc _).1 ⟨p.1, rfl⟩, (hd _).1 ⟨p.2, rfl⟩]
  · intro hlen
    obtain ⟨a, ha⟩ := (hc (bytes.take m)).2 (by rw [List.length_take]; omega)
    obtain ⟨b, hb⟩ := (hd (bytes.drop m)).2 (by rw [List.length_drop]; omega)
    exact ⟨(a, b), by rw [pair_write, ← ha, ← hb, List.take_append_drop]⟩

/-- Nothing. -/
def empty : Codec Unit where
  write _ := []
  read bytes := some ((), bytes)
  read_write _ _ := rfl
  write_of_read h := by cases h; rfl

@[simp] theorem empty_write (a : Unit) : empty.write a = [] := rfl

/-- A variant of an enumeration: its tag, then its fields. -/
def variant (tag : UInt8) (c : Codec α) : Codec α where
  write a := tag :: c.write a
  read
    | [] => none
    | t :: bytes => if t = tag then c.read bytes else none
  read_write a rest := by
    simp only [List.cons_append, if_true]
    exact c.read_write a rest
  write_of_read {bytes a rest} h := by
    cases bytes with
    | nil => cases h
    | cons t bytes =>
        simp only at h
        split at h
        · rename_i htag
          rw [htag, c.write_of_read h, List.cons_append]
        · cases h

@[simp] theorem variant_write (tag : UInt8) (c : Codec α) (a : α) :
    (c.variant tag).write a = tag :: c.write a := rfl

theorem variant_read_of_ne {tag t : UInt8} (h : t ≠ tag) (c : Codec α) (bytes : List UInt8) :
    (c.variant tag).read (t :: bytes) = none := if_neg h

/-- One of two encodings that are told apart by the first of them. -/
def either (c : Codec α) (d : Codec β) (h : ∀ b rest, c.read (d.write b ++ rest) = none) :
    Codec (α ⊕ β) where
  write := Sum.elim c.write d.write
  read bytes :=
    match c.read bytes with
    | some p => some (.inl p.1, p.2)
    | none => (d.read bytes).map fun p => (.inr p.1, p.2)
  read_write s rest := by
    cases s with
    | inl a => simp only [Sum.elim_inl, c.read_write]
    | inr b => simp only [Sum.elim_inr, h, d.read_write, Option.map_some]
  write_of_read {bytes s rest} hread := by
    split at hread
    · rename_i hc
      cases hread
      exact c.write_of_read hc
    · obtain ⟨p, hd, heq⟩ := Option.map_eq_some_iff.1 hread
      cases heq
      exact d.write_of_read hd

@[simp] theorem either_write (c : Codec α) (d : Codec β)
    (h : ∀ b rest, c.read (d.write b ++ rest) = none) (s : α ⊕ β) :
    (c.either d h).write s = Sum.elim c.write d.write s := rfl

/-- `bool`: one byte, `0` or `1`. -/
def bool : Codec Bool where
  write b := [if b then 1 else 0]
  read
    | 0 :: bytes => some (false, bytes)
    | 1 :: bytes => some (true, bytes)
    | _ => none
  read_write b rest := by cases b <;> rfl
  write_of_read {bytes b rest} h := by
    split at h
    · cases h; rfl
    · cases h; rfl
    · cases h

@[simp] theorem bool_write_length (b : Bool) : (bool.write b).length = 1 := rfl

/-- `Option<T>`: the tag `0`, or the tag `1` and a value. -/
def option (c : Codec α) : Codec (Option α) :=
  ((empty.variant 0).either (c.variant 1) fun _ _ => variant_read_of_ne (by decide) _ _).map
    { toFun := Sum.elim (fun _ => none) some
      invFun := fun o => o.elim (.inl ()) .inr
      left_inv := by rintro (_ | a) <;> rfl
      right_inv := by rintro (_ | a) <;> rfl }

@[simp] theorem option_write_none (c : Codec α) : c.option.write none = [0] := rfl

@[simp] theorem option_write_some (c : Codec α) (a : α) :
    c.option.write (some a) = 1 :: c.write a := rfl

/-! ## Sequences -/

/-- A number of values, one after the other. -/
def readMany (c : Codec α) : Nat → List UInt8 → Option (List α × List UInt8)
  | 0, bytes => some ([], bytes)
  | n + 1, bytes => (c.read bytes).bind fun p => (c.readMany n p.2).map fun q => (p.1 :: q.1, q.2)

theorem readMany_write (c : Codec α) (l : List α) (rest : List UInt8) :
    c.readMany l.length (l.flatMap c.write ++ rest) = some (l, rest) := by
  induction l with
  | nil => rfl
  | cons a l ih =>
      rw [List.length_cons, readMany, List.flatMap_cons, List.append_assoc, c.read_write,
        Option.bind_some, ih]
      rfl

theorem write_of_readMany {c : Codec α} {n : Nat} {bytes rest : List UInt8} {l : List α}
    (h : c.readMany n bytes = some (l, rest)) :
    l.length = n ∧ bytes = l.flatMap c.write ++ rest := by
  induction n generalizing bytes l with
  | zero =>
      cases h
      exact ⟨rfl, rfl⟩
  | succ n ih =>
      obtain ⟨⟨a, tail⟩, hread, h⟩ := Option.bind_eq_some_iff.1 h
      obtain ⟨⟨l', rest'⟩, hmany, heq⟩ := Option.map_eq_some_iff.1 h
      cases heq
      obtain ⟨hlen, htail⟩ := ih hmany
      refine ⟨by rw [List.length_cons, hlen], ?_⟩
      rw [c.write_of_read hread, List.flatMap_cons, List.append_assoc]
      exact congrArg _ htail

/-- `[T; n]`. -/
def vector (c : Codec α) (n : Nat) : Codec (Vector α n) where
  write v := v.toList.flatMap c.write
  read bytes := (c.readMany n bytes).bind fun p =>
    if h : p.1.length = n then some (⟨p.1.toArray, by rwa [List.size_toArray]⟩, p.2) else none
  read_write v rest := by
    have hlen : v.toList.length = n := Vector.length_toList
    have hread := c.readMany_write v.toList rest
    rw [hlen] at hread
    rw [hread, Option.bind_some, dif_pos hlen]
    rfl
  write_of_read {bytes v rest} h := by
    obtain ⟨⟨l, rest'⟩, hread, h⟩ := Option.bind_eq_some_iff.1 h
    split at h
    · cases h
      rw [(write_of_readMany hread).2, Vector.toList_mk, List.toList_toArray]
    · cases h

@[simp] theorem vector_write (c : Codec α) (n : Nat) (v : Vector α n) :
    (c.vector n).write v = v.toList.flatMap c.write := rfl

/-- A byte string of bounded length, with the length in four bytes before it. -/
def boundedBytes (max : Nat) (hmax : max < 2 ^ 32) :
    Codec { bytes : List UInt8 // bytes.length ≤ max } where
  write b := leBytes 4 b.1.length ++ b.1
  read bytes :=
    if 4 ≤ bytes.length then
      let n := leNat (bytes.take 4)
      let tail := bytes.drop 4
      if h : n ≤ max ∧ n ≤ tail.length then
        some (⟨tail.take n, Nat.le_trans (List.length_take_le n tail) h.1⟩, tail.drop n)
      else none
    else none
  read_write b rest := by
    have hlen := leBytes_length 4 b.1.length
    have hlt : b.1.length < 256 ^ 4 := Nat.lt_of_le_of_lt b.2 hmax
    simp only [List.append_assoc, List.take_left' hlen, List.drop_left' hlen, leNat_leBytes,
      Nat.mod_eq_of_lt hlt, List.take_left, List.drop_left]
    rw [if_pos (by rw [List.length_append, hlen]; omega),
      dif_pos ⟨b.2, by rw [List.length_append]; omega⟩]
  write_of_read {bytes b rest} h := by
    split at h
    · rename_i hfour
      simp only at h
      split at h
      · rename_i hle
        cases h
        have hlen : (bytes.take 4).length = 4 := List.length_take_of_le hfour
        have hbytes := leBytes_leNat (bytes.take 4)
        rw [hlen] at hbytes
        simp only [List.length_take_of_le hle.2, hbytes, List.append_assoc,
          List.take_append_drop]
      · cases h
    · cases h

/-! ## Texts -/

/-- A text that fits into the memory of a 32-bit machine. -/
def Text := { s : String // s.toByteArray.size < 2 ^ 32 }
deriving DecidableEq

/-- `String`: the length in four bytes, then the UTF-8 bytes. -/
def text : Codec Text where
  write s := leBytes 4 s.1.toByteArray.size ++ s.1.toByteArray.data.toList
  read bytes :=
    if 4 ≤ bytes.length then
      let n := leNat (bytes.take 4)
      let tail := bytes.drop 4
      if n ≤ tail.length then
        let utf8 : ByteArray := ⟨(tail.take n).toArray⟩
        if h : utf8.size < 2 ^ 32 ∧ utf8.IsValidUTF8 then
          some (⟨.ofByteArray utf8 h.2, h.1⟩, tail.drop n)
        else none
      else none
    else none
  read_write s rest := by
    have hlen := leBytes_length 4 s.1.toByteArray.size
    have hsize : s.1.toByteArray.data.toList.length = s.1.toByteArray.size := rfl
    have hlt : s.1.toByteArray.size < 256 ^ 4 := s.2
    have hvalid : (⟨s.1.toByteArray.data⟩ : ByteArray).IsValidUTF8 := s.1.isValidUTF8
    simp only [List.append_assoc, List.take_left' hlen, List.drop_left' hlen, leNat_leBytes,
      Nat.mod_eq_of_lt hlt, List.take_left' hsize, List.drop_left' hsize, Array.toArray_toList]
    rw [if_pos (by rw [List.length_append, hlen]; omega),
      if_pos (by rw [List.length_append, hsize]; omega), dif_pos ⟨s.2, hvalid⟩]
    rfl
  write_of_read {bytes s rest} h := by
    split at h
    · rename_i hfour
      simp only at h
      split at h
      · rename_i hle
        split at h
        · cases h
          have hlen : (bytes.take 4).length = 4 := List.length_take_of_le hfour
          have hsize : (ByteArray.mk ((bytes.drop 4).take (leNat (bytes.take 4))).toArray).size =
              leNat (bytes.take 4) := by
            rw [ByteArray.size, List.size_toArray, List.length_take_of_le hle]
          have hbytes := leBytes_leNat (bytes.take 4)
          rw [hlen] at hbytes
          simp only [hsize, hbytes, List.append_assoc, List.take_append_drop]
        · cases h
      · cases h
    · cases h

@[simp] theorem text_write_length (s : Text) :
    (text.write s).length = 4 + s.1.toByteArray.size := by
  rw [text, List.length_append, leBytes_length]
  rfl

theorem text_write_of_size_eq_zero {s : Text} (h : s.1.toByteArray.size = 0) :
    text.write s = [0, 0, 0, 0] := by
  have hdata : s.1.toByteArray.data.toList = [] := List.eq_nil_of_length_eq_zero h
  change leBytes 4 s.1.toByteArray.size ++ s.1.toByteArray.data.toList = _
  rw [h, hdata]
  rfl

end Codec

end ExecutionZone
