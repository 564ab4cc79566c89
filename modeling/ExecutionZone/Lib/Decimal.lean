import ExecutionZone.Lib.Fault

/-!
# Decimal numerals

Unsigned integers below a bound are printed without leading zeros, and parsed from a non-empty
list of digits, after an optional plus sign.  The parser multiplies and adds with overflow checks.
It accepts more than what is printed: signs and leading zeros, and nothing else (`toDigits_eq`).
-/

namespace ExecutionZone.Decimal

/-- Why a numeral is rejected. -/
inductive ParseIntError where
  | empty
  | invalidDigit
  | posOverflow
deriving DecidableEq

/-- `to_digit`, in base ten. -/
def toDigit (c : Char) : Option Nat := if c.isDigit then some (c.toNat - '0'.toNat) else none

/-- The loop over the digits, after those that make up `result`. -/
def parseDigits (bound : Nat) : Nat → List Char → Except ParseIntError Nat
  | result, [] => .ok result
  | result, c :: digits => do
      let x ← expect (toDigit c) .invalidDigit
      ensure (result * 10 < bound) .posOverflow
      ensure (result * 10 + x < bound) .posOverflow
      parseDigits bound (result * 10 + x) digits

/-- `from_str` of an unsigned integer type with the values below `bound`. -/
def parse (bound : Nat) : List Char → Except ParseIntError Nat
  | [] => .error .empty
  | ['+'] => .error .invalidDigit
  | ['-'] => .error .invalidDigit
  | '+' :: digits => parseDigits bound 0 digits
  | digits => parseDigits bound 0 digits

/-- A numeral without its sign. -/
def withoutSign : List Char → List Char
  | '+' :: digits => digits
  | digits => digits

/-- Digits without leading zeros; the last digit stays. -/
def withoutZeros (digits : List Char) : List Char :=
  match digits.dropWhile (· = '0') with
  | [] => ['0']
  | digits => digits

variable {bound n result : Nat} {c : Char} {digits : List Char}

/-! ## What is parsed -/

theorem le_ofDigitChars (digits : List Char) (result : Nat) :
    result ≤ Nat.ofDigitChars 10 digits result := by
  induction digits generalizing result with
  | nil => exact Nat.le_refl _
  | cons c digits ih =>
      rw [Nat.ofDigitChars_cons]
      refine Nat.le_trans ?_ (ih _)
      omega

/-- The checks fail just if the number is too large in the end. -/
theorem parseDigits_eq_ok_iff (hresult : result < bound) :
    parseDigits bound result digits = .ok n ↔
      (∀ c ∈ digits, c.isDigit = true) ∧ Nat.ofDigitChars 10 digits result = n ∧ n < bound := by
  induction digits generalizing result with
  | nil =>
      rw [parseDigits, Except.ok.injEq]
      constructor
      · rintro rfl
        exact ⟨nofun, rfl, hresult⟩
      · rintro ⟨_, rfl, _⟩
        rfl
  | cons c digits ih =>
      rw [List.forall_mem_cons, Nat.ofDigitChars_cons, Nat.mul_comm 10 result]
      simp only [parseDigits, bind_eq_ok, expect_eq_ok, ensure_eq_ok, exists_const, toDigit]
      constructor
      · rintro ⟨x, hx, _, hlt, hrest⟩
        split at hx
        · rename_i hdigit
          cases hx
          obtain ⟨hdigits, hvalue, hbound⟩ := (ih hlt).1 hrest
          exact ⟨⟨hdigit, hdigits⟩, hvalue, hbound⟩
        · cases hx
      · rintro ⟨⟨hdigit, hdigits⟩, rfl, hbound⟩
        have hle := le_ofDigitChars digits (result * 10 + (c.toNat - '0'.toNat))
        have hlt := Nat.lt_of_le_of_lt hle hbound
        exact ⟨_, if_pos hdigit, Nat.lt_of_le_of_lt (Nat.le_add_right _ _) hlt, hlt,
          (ih hlt).2 ⟨hdigits, rfl, hbound⟩⟩

/-- What is parsed is a non-empty list of digits once the sign is gone. -/
theorem digits_of_parse (hbound : 0 < bound) {numeral : List Char}
    (h : parse bound numeral = .ok n) :
    withoutSign numeral ≠ [] ∧ (∀ c ∈ withoutSign numeral, c.isDigit = true) ∧
      Nat.ofDigitChars 10 (withoutSign numeral) 0 = n ∧ n < bound := by
  unfold parse at h
  split at h
  · cases h
  · cases h
  · cases h
  · rename_i digits hsign
    exact ⟨hsign, (parseDigits_eq_ok_iff hbound).1 h⟩
  · rename_i hempty _ _ hplus
    have hsame : withoutSign numeral = numeral := by
      unfold withoutSign
      split
      · exact absurd rfl (hplus _)
      · rfl
    rw [hsame]
    exact ⟨hempty, (parseDigits_eq_ok_iff hbound).1 h⟩

/-! ## What is printed -/

theorem digitChar_of_isDigit (h : c.isDigit = true) :
    Nat.digitChar (c.toNat - '0'.toNat) = c ∧ c.toNat - '0'.toNat < 10 := by
  have hzero : '0'.toNat = 48 := rfl
  have hnine : '9'.toNat = 57 := rfl
  obtain ⟨hle, hge⟩ := Char.isDigit_iff_toNat.1 h
  refine ⟨Char.toNat_inj.1 ?_, by omega⟩
  rw [Nat.toNat_digitChar_of_lt_ten (by omega)]
  omega

/-- More digits after those of a number that is not zero. -/
theorem toDigits_ofDigitChars_of_pos (hpos : 0 < result)
    (h : ∀ c ∈ digits, c.isDigit = true) :
    Nat.toDigits 10 (Nat.ofDigitChars 10 digits result) = Nat.toDigits 10 result ++ digits := by
  induction digits generalizing result with
  | nil => exact (List.append_nil _).symm
  | cons c digits ih =>
      obtain ⟨hchar, hlt⟩ := digitChar_of_isDigit (h c List.mem_cons_self)
      have hdigits := Nat.toDigits_append_toDigits (by decide : 1 < 10) hpos hlt
      rw [Nat.toDigits_of_lt_base hlt, hchar] at hdigits
      rw [Nat.ofDigitChars_cons, ih (by omega) fun c hc => h c (List.mem_cons_of_mem _ hc),
        ← hdigits, List.append_assoc, List.singleton_append]

/-- **Normal form.**  The value of a list of digits is printed as these digits without leading
zeros. -/
theorem toDigits_ofDigitChars (h : ∀ c ∈ digits, c.isDigit = true) :
    Nat.toDigits 10 (Nat.ofDigitChars 10 digits 0) = withoutZeros digits := by
  induction digits with
  | nil => rfl
  | cons c digits ih =>
      obtain ⟨hdigit, hdigits⟩ := List.forall_mem_cons.1 h
      obtain ⟨hchar, hlt⟩ := digitChar_of_isDigit hdigit
      rw [Nat.ofDigitChars_cons, Nat.mul_zero, Nat.zero_add]
      by_cases hzero : c = '0'
      · subst hzero
        rw [Nat.sub_self, ih hdigits, withoutZeros, withoutZeros, List.dropWhile_cons,
          if_pos (decide_eq_true rfl)]
      · have hpos : 0 < c.toNat - '0'.toNat := by
          refine Nat.pos_of_ne_zero fun hsub => hzero ?_
          rw [hsub] at hchar
          exact hchar.symm
        rw [toDigits_ofDigitChars_of_pos hpos hdigits, Nat.toDigits_of_lt_base hlt, hchar,
          withoutZeros, List.dropWhile_cons, if_neg (by simpa using hzero)]
        rfl

/-- What is accepted is printed without sign and leading zeros. -/
theorem toDigits_eq (hbound : 0 < bound) {numeral : List Char} (h : parse bound numeral = .ok n) :
    Nat.toDigits 10 n = withoutZeros (withoutSign numeral) := by
  obtain ⟨_, hdigits, rfl, _⟩ := digits_of_parse hbound h
  exact toDigits_ofDigitChars hdigits

/-- **Round trip.**  What is printed is accepted. -/
theorem parse_toDigits (h : n < bound) : parse bound (Nat.toDigits 10 n) = .ok n := by
  have hdigits : ∀ c ∈ Nat.toDigits 10 n, c.isDigit = true := fun c hc =>
    Nat.isDigit_of_mem_toDigits (by decide) (by decide) hc
  have hparse : parseDigits bound 0 (Nat.toDigits 10 n) = .ok n :=
    (parseDigits_eq_ok_iff (Nat.zero_lt_of_lt h)).2
      ⟨hdigits, Nat.ofDigitChars_toDigits (by decide) (by decide), h⟩
  generalize hn : Nat.toDigits 10 n = numeral at hdigits hparse
  unfold parse
  split
  · exact absurd hn Nat.toDigits_ne_nil
  · exact absurd (hdigits '+' List.mem_cons_self) (by decide)
  · exact absurd (hdigits '-' List.mem_cons_self) (by decide)
  · exact absurd (hdigits '+' List.mem_cons_self) (by decide)
  · exact hparse

end ExecutionZone.Decimal
