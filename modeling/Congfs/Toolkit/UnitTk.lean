import Mathlib.Algebra.Order.Ring.Int

/-!
# Sizes for humans

`UnitTk` prints a number with the largest unit that divides it, checks such strings and reads them.
A string is the list of its characters.
-/

namespace Congfs.UnitTk

open List

/-- The units that are read, which stand for powers of 1024. -/
def units : List (Char × ℤ) :=
  [('P', 1125899906842624), ('T', 1099511627776), ('G', 1073741824), ('M', 1048576), ('K', 1024)]

/-- The units that are printed and accepted. -/
def allUnits : List (Char × ℤ) := ('E', 1152921504606846976) :: units

def isUnit (unit : Char) (u : Char × ℤ) : Bool := unit = u.1 || unit = u.1.toLower

/-- The number at the start of the string. -/
def number (s : List Char) : ℕ := Nat.ofDigitChars 10 (s.takeWhile Char.isDigit) 0

/-- `atoll`, with the nearest value for a number out of range. -/
def strToInt64 (s : List Char) : ℤ :=
  let value : ℤ := match s.dropWhile (· ∈ [' ', '\t', '\n', '\x0b', '\x0c', '\r']) with
    | '-' :: s => -number s
    | '+' :: s => number s
    | s => number s
  max (-9223372036854775808) (min value 9223372036854775807)

def strHumanToInt64 (s : List Char) : ℤ :=
  if s.length < 2 then strToInt64 s else
  match units.find? fun u => s.getLast?.any (isUnit · u) with
  | some u => (strToInt64 s.dropLast * u.2).bmod 18446744073709551616
  | none => strToInt64 s

/-- `sprintf` with `%qd`. -/
def sprintf (a : ℤ) : List Char :=
  if a < 0 then '-' :: Nat.toDigits 10 a.natAbs else Nat.toDigits 10 a.natAbs

/-- The test whether the number is printed with the unit. -/
def fits (a : ℤ) (u : Char × ℤ) : Bool := (a ≥ u.2 || -a ≥ u.2) && a.tmod u.2 = 0

def int64ToHumanStr (a : ℤ) : List Char :=
  match allUnits.find? (fits a) with
  | some u => sprintf (a.tdiv u.2) ++ [u.1]
  | none => sprintf a

def isNumeric (testString : List Char) : Bool := !testString.isEmpty && testString.all Char.isDigit

def isValidHumanString (humanString : List Char) : Bool :=
  !humanString.isEmpty && (isNumeric humanString ||
    isNumeric humanString.dropLast && allUnits.any fun u => humanString.getLast?.any (isUnit · u))

/-- What the letter of a unit stands for. -/
def factor (unit : Char) : ℕ := 1024 ^ (['K', 'M', 'G', 'T', 'P', 'E'].idxOf unit.toUpper + 1)

theorem isNumeric_iff : isNumeric s ↔ s ≠ [] ∧ ∀ c ∈ s, c.isDigit := by
  simp [isNumeric]

theorem isNumeric_toDigits (n : ℕ) : isNumeric (Nat.toDigits 10 n) :=
  isNumeric_iff.mpr ⟨by simp, fun _ => Nat.isDigit_of_mem_toDigits (by decide) (by decide)⟩

theorem units_find (h : allUnits.any (isUnit unit)) : ¬unit.isDigit ∧ units.find? (isUnit unit) =
    if unit.toUpper = 'E' then none else some (unit.toUpper, (factor unit : ℤ)) := by
  simp only [allUnits, units, isUnit, any_cons, any_nil, Bool.or_eq_true, decide_eq_true_eq,
    Bool.or_false] at h
  rcases h with (rfl | rfl) | (rfl | rfl) | (rfl | rfl) | (rfl | rfl) | (rfl | rfl) | rfl
    | rfl <;> decide

theorem allUnits_mem : ∀ u ∈ allUnits, allUnits.any (isUnit u.1) ∧ factor u.1 = u.2 ∧
    (u.1.toUpper = 'E' ↔ u = ('E', 2 ^ 60)) := by
  decide

/-- The string ends in a digit and is read as the number, whatever other characters follow. -/
structure Reads (s : List Char) (a : ℤ) : Prop where
  last : ∃ c, s.getLast? = some c ∧ c.isDigit
  read : ∀ rest, (∀ c ∈ rest.head?, ¬c.isDigit) → strToInt64 (s ++ rest) = a

theorem number_append (hs : isNumeric s) (hrest : ∀ c ∈ rest.head?, ¬c.isDigit) :
    number (s ++ rest) = Nat.ofDigitChars 10 s 0 := by
  rw [number, takeWhile_append_of_pos (isNumeric_iff.mp hs).2]
  cases rest <;> simp_all

theorem reads_digits (hs : isNumeric s) (hlt : Nat.ofDigitChars 10 s 0 < 2 ^ 63) :
    Reads s (Nat.ofDigitChars 10 s 0) := by
  obtain ⟨hne, hdigits⟩ := isNumeric_iff.mp hs
  refine ⟨⟨_, getLast?_eq_some_getLast hne, hdigits _ (getLast_mem hne)⟩, fun rest hrest => ?_⟩
  rw [← number_append hs hrest] at hlt ⊢
  obtain ⟨c, s, rfl⟩ := exists_cons_of_ne_nil hne
  have hc : c.isDigit := hdigits c mem_cons_self
  have hspace : c ∉ [' ', '\t', '\n', '\x0b', '\x0c', '\r'] := by
    simp only [mem_cons, not_mem_nil, or_false]
    rintro (rfl | rfl | rfl | rfl | rfl | rfl) <;> cases hc
  rw [cons_append] at hlt
  rw [strToInt64, cons_append, dropWhile_cons_of_neg (by simpa using hspace)]
  split
  · next h => cases h; cases hc
  · next h => cases h; cases hc
  · omega

theorem reads_sprintf (ha : a.natAbs < 2 ^ 63) : Reads (sprintf a) a := by
  have hnum := isNumeric_toDigits a.natAbs
  have hdigits := reads_digits hnum
  rw [Nat.ofDigitChars_ten_toDigits] at hdigits
  unfold sprintf
  split
  · next h =>
    obtain ⟨c, hlast, hc⟩ := (hdigits ha).last
    refine ⟨⟨c, by simp [getLast?_cons, hlast], hc⟩, fun rest hrest => ?_⟩
    change max _ (min (-(number (_ ++ rest) : ℤ)) _) = a
    rw [number_append hnum hrest, Nat.ofDigitChars_ten_toDigits]
    omega
  · next h =>
    rw [Int.natAbs_of_nonneg (Int.not_lt.mp h)] at hdigits
    exact hdigits ha

namespace Reads

variable (h : Reads s a)
include h

theorem strToInt64_eq : strToInt64 s = a := by
  have hread := h.read [] (by simp)
  rwa [append_nil] at hread

theorem human : strHumanToInt64 s = a := by
  obtain ⟨c, hlast, hc⟩ := h.last
  have hnone : units.find? (isUnit c) = none :=
    find?_eq_none.mpr fun u hu hunit =>
      (units_find (any_eq_true.mpr ⟨u, mem_cons_of_mem _ hu, hunit⟩)).1 hc
  simp [strHumanToInt64, hlast, hnone, h.strToInt64_eq]

theorem human_append (hunit : allUnits.any (isUnit unit))
    (hlt : (a * factor unit).natAbs < 2 ^ 63) :
    strHumanToInt64 (s ++ [unit]) = if unit.toUpper = 'E' then a else a * factor unit := by
  obtain ⟨hdigit, hfind⟩ := units_find hunit
  have hlen : ¬(s ++ [unit]).length < 2 := by
    obtain ⟨c, hlast, -⟩ := h.last
    cases s with
    | nil => cases hlast
    | cons => simp
  rw [strHumanToInt64, if_neg hlen]
  simp only [getLast?_concat, Option.any_some, hfind, dropLast_concat, h.strToInt64_eq]
  by_cases hE : unit.toUpper = 'E'
  · simpa [hE] using h.read [unit] (by simpa using hdigit)
  · simp only [hE, if_false]
    exact Int.bmod_eq_of_le (by omega) (by omega)

end Reads

theorem isValidHumanString_append_iff (hunit : ¬unit.isDigit) :
    isValidHumanString (s ++ [unit]) ↔ isNumeric s ∧ allUnits.any (isUnit unit) := by
  have hnot : isNumeric (s ++ [unit]) = false := by
    rw [← Bool.not_eq_true, isNumeric_iff]
    exact fun h => hunit (h.2 unit (by simp))
  simp [isValidHumanString, hnot]

theorem isNumeric_sprintf (h : 0 ≤ a) : isNumeric (sprintf a) := by
  rw [sprintf, if_neg (Int.not_lt.mpr h)]
  exact isNumeric_toDigits _

theorem isValidHumanString_int64ToHumanStr (h : 0 ≤ a) :
    isValidHumanString (int64ToHumanStr a) := by
  unfold int64ToHumanStr
  split
  · next u hu =>
    obtain ⟨hunit, hfactor, -⟩ := allUnits_mem u (mem_of_find?_eq_some hu)
    have hpos : 0 ≤ a.tdiv u.2 := Int.tdiv_nonneg h (by omega)
    exact (isValidHumanString_append_iff (units_find hunit).1).mpr ⟨isNumeric_sprintf hpos, hunit⟩
  · have hnum := isNumeric_sprintf h
    simp [isValidHumanString, hnum, (isNumeric_iff.mp hnum).1]

theorem strHumanToInt64_int64ToHumanStr (ha : a.natAbs < 2 ^ 63) :
    strHumanToInt64 (int64ToHumanStr a) = a ↔ ¬(a ≠ 0 ∧ 2 ^ 60 ∣ a) := by
  have hfits : fits a ('E', 2 ^ 60) ↔ a ≠ 0 ∧ 2 ^ 60 ∣ a := by
    simp only [fits, Bool.and_eq_true, Bool.or_eq_true, decide_eq_true_eq,
      ← Int.dvd_iff_tmod_eq_zero]
    omega
  rw [← hfits, int64ToHumanStr]
  split
  · next u hu =>
    obtain ⟨hunit, hfactor, hE⟩ := allUnits_mem u (mem_of_find?_eq_some hu)
    have hmod := find?_some hu
    simp only [fits, Bool.and_eq_true, decide_eq_true_eq] at hmod
    have hcancel := Int.tdiv_mul_cancel_of_tmod_eq_zero hmod.2
    have hle := lt_of_le_of_lt (Int.natAbs_tdiv_le_natAbs a u.2) ha
    rw [(reads_sprintf hle).human_append hunit (by rwa [hfactor, hcancel]), hfactor, hcancel]
    by_cases hu' : u = ('E', 2 ^ 60)
    · subst hu'
      have hne := (hfits.mp (find?_some hu)).1
      refine iff_of_false (fun heq => ?_) (not_not_intro (find?_some hu))
      rw [if_pos (hE.mpr rfl)] at heq
      rw [heq] at hcancel
      omega
    · have hnot : ¬fits a ('E', 2 ^ 60) := fun hfit =>
        hu' (Option.some.inj (hu.symm.trans (find?_cons_of_pos hfit)))
      exact iff_of_true (if_neg (mt hE.mp hu')) hnot
  · next hnone =>
    exact iff_of_true (reads_sprintf ha).human (find?_eq_none.mp hnone _ mem_cons_self)

/-- Numbers are printed, accepted and read again, but an exbibyte is not read. -/
theorem human_iff (a : ℤ) (s : List Char) (unit : Char) :
    (-2 ^ 63 < a → a < 2 ^ 63 → (0 ≤ a → isValidHumanString (int64ToHumanStr a)) ∧
      (strHumanToInt64 (int64ToHumanStr a) = a ↔ ¬(a ≠ 0 ∧ 2 ^ 60 ∣ a))) ∧
    (¬unit.isDigit → isValidHumanString (s ++ [unit]) →
      Nat.ofDigitChars 10 s 0 * factor unit < 2 ^ 63 →
      (strHumanToInt64 (s ++ [unit]) = Nat.ofDigitChars 10 s 0 * factor unit ↔
        Nat.ofDigitChars 10 s 0 = 0 ∨ unit.toUpper ≠ 'E')) := by
  refine ⟨fun h h' =>
    ⟨isValidHumanString_int64ToHumanStr, strHumanToInt64_int64ToHumanStr (by omega)⟩, ?_⟩
  intro hunit hvalid hfit
  obtain ⟨hs, hmem⟩ := (isValidHumanString_append_iff hunit).mp hvalid
  have hread := reads_digits hs
  generalize Nat.ofDigitChars 10 s 0 = n at hread hfit ⊢
  have hlt : n < 2 ^ 63 := Nat.lt_of_le_of_lt (Nat.le_mul_of_pos_right n (Nat.pow_pos (by decide)))
    hfit
  rw [(hread hlt).human_append hmem (by rwa [← Int.natCast_mul, Int.natAbs_natCast])]
  by_cases hE : unit.toUpper = 'E'
  · have hfactor : factor unit = 2 ^ 60 := by rw [factor, hE]; rfl
    rw [hfactor, if_pos hE]
    simp only [hE, ne_eq, not_true_eq_false, or_false]
    omega
  · simp [hE]

/-- An exbibyte is printed as `1E`, which is accepted and read as 1. -/
theorem exbibyte_read_as_one : int64ToHumanStr (2 ^ 60) = ['1', 'E'] ∧
    isValidHumanString ['1', 'E'] ∧ strHumanToInt64 ['1', 'E'] = 1 := by
  decide

end Congfs.UnitTk
