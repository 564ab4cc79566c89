import Mathlib.Algebra.Group.Nat.Even
import Mathlib.Data.Nat.Init

/-!
# Fixed-width encodings

Little-endian byte strings of a given width, and the one fact every concatenated
encoding rests on: two strings of the same layout are equal only if their fields
are.  The width is an argument, so the same definition serves every fixed-width
integer.
-/

namespace ExecutionZone.Encoding

/-- The `n` low-order bytes of `x`, least significant first. -/
def leBytes : Nat → Nat → List UInt8
  | 0, _ => []
  | n + 1, x => UInt8.ofNat x :: leBytes n (x / 256)

/-- The number denoted by a little-endian byte string. -/
def leNat : List UInt8 → Nat
  | [] => 0
  | b :: bs => b.toNat + 256 * leNat bs

@[simp] theorem leBytes_length (n x : Nat) : (leBytes n x).length = n := by
  induction n generalizing x with
  | zero => rfl
  | succ n ih => simp [leBytes, ih]

/-- Decoding gives back the number modulo the width. -/
@[simp] theorem leNat_leBytes (n x : Nat) : leNat (leBytes n x) = x % 256 ^ n := by
  induction n generalizing x with
  | zero => simp [leBytes, leNat, Nat.mod_one]
  | succ n ih =>
      simp only [leBytes, leNat, ih, UInt8.toNat_ofNat']
      rw [show (2 : Nat) ^ 8 = 256 from rfl, Nat.pow_succ', Nat.mod_mul]

/-- Numbers within the width are determined by their encoding. -/
theorem leBytes_inj {n x y : Nat} (hx : x < 256 ^ n) (hy : y < 256 ^ n)
    (h : leBytes n x = leBytes n y) : x = y := by
  have := congrArg leNat h
  rwa [leNat_leBytes, leNat_leBytes, Nat.mod_eq_of_lt hx, Nat.mod_eq_of_lt hy] at this

/-- A byte string denotes a number within its width. -/
theorem leNat_lt (bs : List UInt8) : leNat bs < 256 ^ bs.length := by
  induction bs with
  | nil => simp [leNat]
  | cons b bs ih =>
      have hb := b.toNat_lt
      simp only [leNat, List.length_cons, Nat.pow_succ]
      omega

/-- Encoding gives back a byte string of the right length. -/
@[simp] theorem leBytes_leNat (bs : List UInt8) : leBytes bs.length (leNat bs) = bs := by
  induction bs with
  | nil => rfl
  | cons b bs ih =>
      have hb := b.toNat_lt
      have hdiv : (b.toNat + 256 * leNat bs) / 256 = leNat bs := by omega
      have hmod : UInt8.ofNat (b.toNat + 256 * leNat bs) = b := by
        apply UInt8.toNat.inj
        rw [UInt8.toNat_ofNat']
        omega
      simp only [List.length_cons, leNat, leBytes, hdiv, hmod, ih]

/-- Concatenated fixed-width fields: the encoding of each element determines it, so
the encoding of the sequence determines the sequence. -/
theorem flatMap_inj {α : Type*} {f : α → List UInt8} {k : Nat} (hk : 0 < k)
    (hlen : ∀ a, (f a).length = k) (hf : ∀ a b, f a = f b → a = b) :
    ∀ {as bs : List α}, as.flatMap f = bs.flatMap f → as = bs
  | [], [], _ => rfl
  | [], b :: bs, h => by
      have := congrArg List.length h
      simp only [List.flatMap_nil, List.flatMap_cons, List.length_nil, List.length_append,
        hlen] at this
      omega
  | a :: as, [], h => by
      have := congrArg List.length h
      simp only [List.flatMap_nil, List.flatMap_cons, List.length_nil, List.length_append,
        hlen] at this
      omega
  | a :: as, b :: bs, h => by
      simp only [List.flatMap_cons] at h
      obtain ⟨h₁, h₂⟩ := List.append_inj h (by rw [hlen, hlen])
      rw [hf a b h₁, flatMap_inj hk hlen hf h₂]

end ExecutionZone.Encoding
