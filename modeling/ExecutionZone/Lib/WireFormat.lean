import ExecutionZone.Lib.Borsh

/-!
# Wire formats

Not every value of a type has an encoding: a list has one if its length fits into four bytes, and
a format may refuse values that fail a test when it reads them.  A `WireFormat` says which values
fit and carries the two laws of a format for them: what was written is read back, and whatever is
read fits and was written.  So `decode` is the inverse of `write` on the values that fit, and
accepts nothing else.
-/

universe u v

namespace ExecutionZone

open Encoding

/-- A self-delimiting encoding of the values that fit. -/
structure WireFormat (α : Type u) where
  /-- The values that are written and read back. -/
  Fits : α → Prop
  /-- `BorshSerialize::serialize`, on the values that fit. -/
  write : α → List UInt8
  /-- `BorshDeserialize::deserialize`, with the bytes that are left. -/
  read : List UInt8 → Option (α × List UInt8)
  read_write : ∀ {a}, Fits a → ∀ rest, read (write a ++ rest) = some (a, rest)
  of_read : ∀ {bytes a rest}, read bytes = some (a, rest) → Fits a ∧ bytes = write a ++ rest

/-- A format all values fit into. -/
def Codec.toWire {α : Type u} (c : Codec α) : WireFormat α where
  Fits _ := True
  write := c.write
  read := c.read
  read_write _ rest := c.read_write _ rest
  of_read h := ⟨trivial, c.write_of_read h⟩

namespace WireFormat

variable {α : Type u} {β : Type v}

/-- `borsh::from_slice`: the value must use all bytes. -/
def decode (c : WireFormat α) (bytes : List UInt8) : Option α :=
  match c.read bytes with
  | some (a, []) => some a
  | _ => none

/-- **Canonical form.**  Exactly the encodings of the values that fit are decoded. -/
theorem decode_eq_some {c : WireFormat α} {bytes : List UInt8} {a : α} :
    c.decode bytes = some a ↔ c.Fits a ∧ bytes = c.write a := by
  constructor
  · intro h
    unfold decode at h
    split at h
    · rename_i hread
      cases h
      obtain ⟨hfits, hbytes⟩ := c.of_read hread
      exact ⟨hfits, hbytes.trans (List.append_nil _)⟩
    · cases h
  · rintro ⟨hfits, rfl⟩
    have hread := c.read_write hfits []
    rw [List.append_nil] at hread
    rw [decode, hread]

/-- A value that fits is determined by its encoding and what follows. -/
theorem write_append_inj {c : WireFormat α} {a b : α} {rest rest' : List UInt8} (ha : c.Fits a)
    (hb : c.Fits b) (h : c.write a ++ rest = c.write b ++ rest') : a = b ∧ rest = rest' := by
  have hread := c.read_write ha rest
  rw [h, c.read_write hb] at hread
  cases hread
  exact ⟨rfl, rfl⟩

theorem write_injOn (c : WireFormat α) : Set.InjOn c.write { a | c.Fits a } := by
  intro a ha b hb h
  have happend : c.write a ++ [] = c.write b ++ [] := congrArg (· ++ []) h
  exact (write_append_inj ha hb happend).1

@[simp] theorem fits_toWire (c : Codec α) (a : α) : c.toWire.Fits a ↔ True := Iff.rfl

/-! ## Records and tests -/

/-- The same format, for a type with the same values. -/
def map (c : WireFormat α) (e : α ≃ β) : WireFormat β where
  Fits b := c.Fits (e.symm b)
  write b := c.write (e.symm b)
  read bytes := (c.read bytes).map fun p => (e p.1, p.2)
  read_write {b} h rest := by
    rw [c.read_write h, Option.map_some, e.apply_symm_apply]
  of_read {bytes b rest} h := by
    obtain ⟨⟨a, rest'⟩, hread, heq⟩ := Option.map_eq_some_iff.1 h
    cases heq
    rw [e.symm_apply_apply]
    exact c.of_read hread

@[simp] theorem fits_map (c : WireFormat α) (e : α ≃ β) (b : β) :
    (c.map e).Fits b ↔ c.Fits (e.symm b) := Iff.rfl

/-- Two fields. -/
def pair (c : WireFormat α) (d : WireFormat β) : WireFormat (α × β) where
  Fits p := c.Fits p.1 ∧ d.Fits p.2
  write p := c.write p.1 ++ d.write p.2
  read bytes := (c.read bytes).bind fun p => (d.read p.2).map fun q => ((p.1, q.1), q.2)
  read_write {p} h rest := by
    rw [List.append_assoc, c.read_write h.1, Option.bind_some, d.read_write h.2]
    rfl
  of_read {bytes p rest} h := by
    obtain ⟨⟨a, tail⟩, hread, h⟩ := Option.bind_eq_some_iff.1 h
    obtain ⟨⟨b, rest'⟩, hread', heq⟩ := Option.map_eq_some_iff.1 h
    cases heq
    obtain ⟨ha, hbytes⟩ := c.of_read hread
    obtain ⟨hb, htail⟩ := d.of_read hread'
    refine ⟨⟨ha, hb⟩, ?_⟩
    change tail = d.write b ++ rest' at htail
    rw [hbytes, htail, List.append_assoc]

@[simp] theorem fits_pair (c : WireFormat α) (d : WireFormat β) (p : α × β) :
    (c.pair d).Fits p ↔ c.Fits p.1 ∧ d.Fits p.2 := Iff.rfl

/-- A value has to pass a test when it is read. -/
def guarded (c : WireFormat α) (p : α → Bool) : WireFormat α where
  Fits a := c.Fits a ∧ p a = true
  write := c.write
  read bytes := (c.read bytes).filter fun q => p q.1
  read_write {a} h rest := by
    rw [c.read_write h.1]
    exact Option.filter_eq_some_iff.2 ⟨rfl, h.2⟩
  of_read {bytes a rest} h := by
    obtain ⟨hread, hp⟩ := Option.filter_eq_some_iff.1 h
    obtain ⟨ha, hbytes⟩ := c.of_read hread
    exact ⟨⟨ha, hp⟩, hbytes⟩

@[simp] theorem fits_guarded (c : WireFormat α) (p : α → Bool) (a : α) :
    (c.guarded p).Fits a ↔ c.Fits a ∧ p a = true := Iff.rfl

/-! ## Enumerations -/

/-- A variant of an enumeration: its tag, then its fields. -/
def variant (tag : UInt8) (c : WireFormat α) : WireFormat α where
  Fits := c.Fits
  write a := tag :: c.write a
  read
    | [] => none
    | t :: bytes => if t = tag then c.read bytes else none
  read_write {a} h rest := by
    simp only [List.cons_append, if_true]
    exact c.read_write h rest
  of_read {bytes a rest} h := by
    cases bytes with
    | nil => cases h
    | cons t bytes =>
        simp only at h
        split at h
        · rename_i htag
          obtain ⟨ha, hbytes⟩ := c.of_read h
          exact ⟨ha, by rw [htag, hbytes, List.cons_append]⟩
        · cases h

theorem variant_read_of_ne {tag t : UInt8} (h : t ≠ tag) (c : WireFormat α) (bytes : List UInt8) :
    (c.variant tag).read (t :: bytes) = none := if_neg h

/-- One of two formats that are told apart by the first of them. -/
def either (c : WireFormat α) (d : WireFormat β) (h : ∀ b rest, c.read (d.write b ++ rest) = none) :
    WireFormat (α ⊕ β) where
  Fits := Sum.elim c.Fits d.Fits
  write := Sum.elim c.write d.write
  read bytes :=
    match c.read bytes with
    | some p => some (.inl p.1, p.2)
    | none => (d.read bytes).map fun p => (.inr p.1, p.2)
  read_write {s} hs rest := by
    cases s with
    | inl a =>
        have ha : c.Fits a := hs
        simp only [Sum.elim_inl, c.read_write ha]
    | inr b =>
        have hb : d.Fits b := hs
        simp only [Sum.elim_inr, h, d.read_write hb, Option.map_some]
  of_read {bytes s rest} hread := by
    split at hread
    · rename_i hc
      cases hread
      exact c.of_read hc
    · obtain ⟨p, hd, heq⟩ := Option.map_eq_some_iff.1 hread
      cases heq
      exact d.of_read hd

/-! ## Lists -/

/-- A number of values, one after the other. -/
def readMany (c : WireFormat α) : Nat → List UInt8 → Option (List α × List UInt8)
  | 0, bytes => some ([], bytes)
  | n + 1, bytes => (c.read bytes).bind fun p => (c.readMany n p.2).map fun q => (p.1 :: q.1, q.2)

theorem readMany_write (c : WireFormat α) {l : List α} (h : ∀ a ∈ l, c.Fits a)
    (rest : List UInt8) : c.readMany l.length (l.flatMap c.write ++ rest) = some (l, rest) := by
  induction l with
  | nil => rfl
  | cons a l ih =>
      rw [List.forall_mem_cons] at h
      rw [List.length_cons, readMany, List.flatMap_cons, List.append_assoc, c.read_write h.1,
        Option.bind_some, ih h.2]
      rfl

theorem of_readMany {c : WireFormat α} {n : Nat} {bytes rest : List UInt8} {l : List α}
    (h : c.readMany n bytes = some (l, rest)) :
    l.length = n ∧ (∀ a ∈ l, c.Fits a) ∧ bytes = l.flatMap c.write ++ rest := by
  induction n generalizing bytes l with
  | zero =>
      cases h
      exact ⟨rfl, List.forall_mem_nil _, rfl⟩
  | succ n ih =>
      obtain ⟨⟨a, tail⟩, hread, h⟩ := Option.bind_eq_some_iff.1 h
      obtain ⟨⟨l', rest'⟩, hmany, heq⟩ := Option.map_eq_some_iff.1 h
      cases heq
      obtain ⟨ha, hbytes⟩ := c.of_read hread
      obtain ⟨hlen, hl, htail⟩ := ih hmany
      refine ⟨by rw [List.length_cons, hlen], List.forall_mem_cons.2 ⟨ha, hl⟩, ?_⟩
      change tail = _ at htail
      rw [hbytes, htail, List.flatMap_cons, List.append_assoc]

/-- A length that fits is a word of four bytes. -/
theorem leBytes_four {n : Nat} (h : n < 2 ^ 32) :
    leBytes 4 n = (Codec.word 4).write (BitVec.ofNat (8 * 4) n) := by
  change _ = leBytes 4 (BitVec.ofNat (8 * 4) n).toNat
  rw [BitVec.toNat_ofNat, Nat.mod_eq_of_lt h]

/-- `Vec<T>`: the number of elements in four bytes, then the elements. -/
def vec (c : WireFormat α) : WireFormat (List α) where
  Fits l := l.length < 2 ^ 32 ∧ ∀ a ∈ l, c.Fits a
  write l := leBytes 4 l.length ++ l.flatMap c.write
  read bytes := ((Codec.word 4).read bytes).bind fun p => c.readMany p.1.toNat p.2
  read_write {l} h rest := by
    rw [leBytes_four h.1, List.append_assoc, (Codec.word 4).read_write, Option.bind_some,
      BitVec.toNat_ofNat, Nat.mod_eq_of_lt h.1]
    exact c.readMany_write h.2 rest
  of_read {bytes l rest} h := by
    obtain ⟨⟨n, tail⟩, hread, hmany⟩ := Option.bind_eq_some_iff.1 h
    obtain ⟨hlen, hl, htail⟩ := of_readMany hmany
    have hbytes := (Codec.word 4).write_of_read hread
    change tail = _ at htail
    rw [htail] at hbytes
    change l.length = n.toNat at hlen
    refine ⟨⟨hlen ▸ n.isLt, hl⟩, ?_⟩
    rw [hbytes, hlen, List.append_assoc]
    rfl

@[simp] theorem fits_vec (c : WireFormat α) (l : List α) :
    c.vec.Fits l ↔ l.length < 2 ^ 32 ∧ ∀ a ∈ l, c.Fits a := Iff.rfl

end WireFormat

end ExecutionZone
