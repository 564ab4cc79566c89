import ExecutionZone.Lib.Decimal
import ExecutionZone.Wallet.ChainIndex

/-!
# Paths as text

`Display` and `FromStr` of `ChainIndex`: a slash, and then the numbers of the path with slashes
between them.  What is displayed is parsed back.  The parser also accepts numbers with a plus sign
or leading zeros, and denotes by a text the path that is displayed as this text without them
(`chain_index_text_round_trip`).
-/

namespace ExecutionZone

inductive ChainIndexError where
  | noRootFound
  | parseIntError (e : Decimal.ParseIntError)
deriving DecidableEq

/-- `u32::from_str`. -/
def parseU32 (s : List Char) : Except Decimal.ParseIntError UInt32 :=
  (Decimal.parse (2 ^ 32) s).map UInt32.ofNat

/-- `Display` of `u32`. -/
def displayU32 (n : UInt32) : List Char := Nat.toDigits 10 n.toNat

theorem parseU32_displayU32 (n : UInt32) : parseU32 (displayU32 n) = .ok n := by
  rw [parseU32, displayU32, Decimal.parse_toDigits n.toNat_lt]
  exact congrArg Except.ok UInt32.ofNat_toNat

theorem displayU32_of_parseU32 {s : List Char} {n : UInt32} (h : parseU32 s = .ok n) :
    displayU32 n = Decimal.withoutZeros (Decimal.withoutSign s) := by
  rw [parseU32] at h
  cases hparse : Decimal.parse (2 ^ 32) s with
  | error e =>
      rw [hparse] at h
      cases h
  | ok m =>
      rw [hparse] at h
      cases h
      obtain ⟨_, _, _, hlt⟩ := Decimal.digits_of_parse (by decide) hparse
      rw [displayU32, UInt32.toNat_ofNat_of_lt' hlt]
      exact Decimal.toDigits_eq (by decide) hparse

/-- No slash in a number. -/
theorem slash_notMem_displayU32 {l : List UInt32} : ∀ s ∈ l.map displayU32, '/' ∉ s := by
  intro s hs hmem
  obtain ⟨n, _, rfl⟩ := List.mem_map.1 hs
  exact absurd (Nat.isDigit_of_mem_toDigits (by decide) (by decide) hmem) (by decide)

namespace ChainIndex

/-- `from_str`. -/
def fromStr (s : String) : Except ChainIndexError ChainIndex := do
  ensure (s.toList.head? = some '/') .noRootFound
  if s = "/" then return []
  let splittedChain := s.toList.tail.splitOn '/'
  splittedChain.mapM fun splitCh => (parseU32 splitCh).mapError .parseIntError

/-- `fmt`. -/
def display (chainIndex : ChainIndex) : String :=
  String.ofList ('/' :: ((chainIndex.dropLast.flatMap fun cci => displayU32 cci ++ ['/']) ++
    match chainIndex.getLast? with
    | some last => displayU32 last
    | none => []))

/-- A text with each of its numbers written without sign and leading zeros. -/
def normalize (s : String) : String :=
  if s = "/" then s
  else String.ofList ('/' :: ['/'].intercalate ((s.toList.tail.splitOn '/').map fun splitCh =>
    Decimal.withoutZeros (Decimal.withoutSign splitCh)))

/-- What is displayed, as a list with separators. -/
theorem toList_display (c : ChainIndex) :
    c.display.toList = '/' :: ['/'].intercalate (c.map displayU32) := by
  rw [display, String.toList_ofList]
  congr 1
  induction c with
  | nil => rfl
  | cons cci c ih =>
      cases c with
      | nil => simp
      | cons cci' c =>
          rw [List.dropLast_cons_cons, List.flatMap_cons, List.getLast?_cons_cons,
            List.append_assoc, ih]
          exact List.intercalate_cons_cons.symm

/-- The root, and no other path, is displayed as a slash. -/
theorem display_eq_root {c : ChainIndex} : c.display = "/" ↔ c = [] := by
  constructor
  · intro h
    have htext := congrArg String.toList h
    rw [toList_display] at htext
    cases c with
    | nil => rfl
    | cons cci c =>
        have hempty : ['/'].intercalate (displayU32 cci :: c.map displayU32) = [] :=
          (List.cons.inj htext).2
        have hsplit : (['/'].intercalate ((cci :: c).map displayU32)).splitOn '/' =
            (cci :: c).map displayU32 :=
          List.splitOn_intercalate '/' slash_notMem_displayU32 (List.cons_ne_nil _ _)
        rw [List.map_cons, hempty] at hsplit
        exact absurd (List.cons.inj hsplit).1.symm Nat.toDigits_ne_nil
  · rintro rfl
    rfl

theorem fromStr_display (c : ChainIndex) : fromStr c.display = .ok c := by
  have hhead : c.display.toList.head? = some '/' := by rw [toList_display, List.head?_cons]
  rw [fromStr, ensure_of _ hhead]
  by_cases hroot : c = []
  · subst hroot
    rfl
  · have hsplit : c.display.toList.tail.splitOn '/' = c.map displayU32 := by
      rw [toList_display, List.tail_cons]
      exact List.splitOn_intercalate '/' slash_notMem_displayU32
        (mt List.map_eq_nil_iff.1 hroot)
    have hparse : ∀ c : ChainIndex, (c.map displayU32).mapM (fun splitCh =>
        (parseU32 splitCh).mapError ChainIndexError.parseIntError) = .ok c := by
      intro c
      induction c with
      | nil => rfl
      | cons cci c ih =>
          rw [List.map_cons, List.mapM_cons, parseU32_displayU32, ih]
          rfl
    change (if c.display = "/" then _ else _) = _
    rw [if_neg (mt display_eq_root.1 hroot), hsplit]
    exact hparse c

/-- The numbers of an accepted text, in normal form. -/
theorem map_displayU32_of_mapM {splittedChain : List (List Char)} {c : ChainIndex}
    (h : splittedChain.mapM (fun splitCh =>
      (parseU32 splitCh).mapError ChainIndexError.parseIntError) = .ok c) :
    c.map displayU32 = splittedChain.map fun splitCh =>
      Decimal.withoutZeros (Decimal.withoutSign splitCh) := by
  have hturns := forall₂_of_mapM h
  clear h
  induction hturns with
  | nil => rfl
  | cons hturn _ ih =>
      rw [List.map_cons, List.map_cons, ih, displayU32_of_parseU32 (mapError_eq_ok.1 hturn)]

/-- What is accepted is displayed in normal form. -/
theorem display_of_fromStr {s : String} {c : ChainIndex} (h : fromStr s = .ok c) :
    c.display = normalize s := by
  obtain ⟨_, _, h⟩ := bind_eq_ok.1 h
  rw [normalize]
  split at h
  · rename_i hroot
    cases h
    rw [if_pos hroot, hroot]
    rfl
  · rename_i hroot
    rw [if_neg hroot, ← map_displayU32_of_mapM h, ← toList_display, String.ofList_toList]

/-- **Round trip.**  What is displayed is parsed back; so different paths are displayed
differently; and a text that is accepted denotes the path that is displayed as its normal form. -/
theorem chain_index_text_round_trip :
    (∀ c : ChainIndex, fromStr c.display = .ok c) ∧
    (∀ c c' : ChainIndex, c ≠ c' → c.display ≠ c'.display) ∧
    ∀ (s : String) (c : ChainIndex), fromStr s = .ok c → c.display = normalize s := by
  refine ⟨fromStr_display, ?_, fun s c h => display_of_fromStr h⟩
  intro c c' hne heq
  have hparse := fromStr_display c
  rw [heq, fromStr_display, Except.ok.injEq] at hparse
  exact hne hparse.symm

/-- A text with a sign and leading zeros, and its normal form. -/
theorem chain_index_text_round_trip_signed :
    fromStr "/+7/003/0" = .ok [7, 3, 0] ∧ display [7, 3, 0] = normalize "/+7/003/0" ∧
      normalize "/+7/003/0" = "/7/3/0" := by
  have hparse : fromStr "/+7/003/0" = .ok [7, 3, 0] := by decide +kernel
  exact ⟨hparse, chain_index_text_round_trip.2.2 _ _ hparse, by decide +kernel⟩

end ChainIndex

end ExecutionZone
