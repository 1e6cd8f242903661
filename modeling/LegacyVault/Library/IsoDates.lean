import LegacyVault.Library.IsoTime
import Mathlib.Algebra.GroupWithZero.Nat
import Mathlib.Data.List.Basic

/-!
# Reading calendar text

The instant that a text in the form of `toISOString` denotes. The days of a
date are counted by eras of 400 years, as `civilFromDays` counts them; a text
is cut where the fields of fixed width begin.
-/

namespace LegacyVault.IsoTime

/-- The count of days since 1970-01-01 of a date. -/
def daysFromCivil (year : Int) (month day : Nat) : Int :=
  let shifted := if month ≤ 2 then year - 1 else year
  let yearOfEra := (shifted % 400).toNat
  let monthIndex := if month ≤ 2 then month + 9 else month - 3
  let dayOfYear := (153 * monthIndex + 2) / 5 + day - 1
  shifted / 400 * 146097 + (365 * yearOfEra + yearOfEra / 4 - yearOfEra / 100 + dayOfYear : Nat) -
    719468

/-- The year of an era is of the century that its day is in. -/
theorem century_eq {day year century : Nat} (hday : day < 146096) (hcentury : century = day / 36524)
    (hyear : year = (day - day / 1460 + century) / 365) : year / 100 = century := by
  have hcases : century = 0 ∨ century = 1 ∨ century = 2 ∨ century = 3 := by omega
  rcases hcases with rfl | rfl | rfl | rfl <;> omega

/-- A day of an era is in the year that is computed for it. -/
theorem yearOfEra_bounds {day year : Nat} (hday : day < 146097)
    (hyear : year = (day - day / 1460 + day / 36524 - day / 146096) / 365) :
    year < 400 ∧ 365 * year + year / 4 - year / 100 ≤ day ∧
      day - (365 * year + year / 4 - year / 100) < 366 := by
  by_cases hlast : day = 146096
  · subst hlast hyear
    decide
  · have hera : day / 146096 = 0 := by omega
    rw [hera, Nat.sub_zero] at hyear
    have hcentury := century_eq (by omega) rfl hyear
    have hcases : day / 36524 = 0 ∨ day / 36524 = 1 ∨ day / 36524 = 2 ∨ day / 36524 = 3 := by omega
    rw [hcentury]
    rcases hcases with h | h | h | h <;> rw [h] at hyear ⊢ <;> omega

/-- A day of a year is in the month that is computed for it. -/
theorem monthIndex_bounds {day month : Nat} (hday : day < 366)
    (hmonth : month = (5 * day + 2) / 153) :
    month < 12 ∧ (153 * month + 2) / 5 ≤ day := by
  omega

/-- The days of the date of some days. -/
theorem daysFromCivil_civilFromDays (days : Int) :
    daysFromCivil (civilFromDays days).1 (civilFromDays days).2.1 (civilFromDays days).2.2 =
      days := by
  simp only [civilFromDays]
  generalize hday : ((days + 719468) % 146097).toNat = day
  generalize hyear : (day - day / 1460 + day / 36524 - day / 146096) / 365 = year
  obtain ⟨hyears, hle, hlt⟩ := yearOfEra_bounds (by omega) hyear.symm
  generalize hdayOfYear : day - (365 * year + year / 4 - year / 100) = dayOfYear at hlt
  generalize hmonth : (5 * dayOfYear + 2) / 153 = month
  obtain ⟨hmonths, hstart⟩ := monthIndex_bounds hlt hmonth.symm
  generalize hera : (days + 719468) / 146097 = era
  have hdays : days = era * 146097 + day - 719468 := by omega
  by_cases hearly : month < 10
  · have hlate : ¬month + 3 ≤ 2 := by omega
    rw [if_pos hearly, if_neg hlate, daysFromCivil]
    simp only [if_neg hlate]
    have hof : (((year : Int) + era * 400 + 0) % 400).toNat = year := by omega
    have hdiv : ((year : Int) + era * 400 + 0) / 400 = era := by omega
    rw [hof, hdiv]
    omega
  · have hlate : month - 9 ≤ 2 := by omega
    rw [if_neg hearly, if_pos hlate, daysFromCivil]
    simp only [if_pos hlate]
    have hof : (((year : Int) + era * 400 + 1 - 1) % 400).toNat = year := by omega
    have hdiv : ((year : Int) + era * 400 + 1 - 1) / 400 = era := by omega
    rw [hof, hdiv]
    omega

/-- The number that some digits denote. -/
def number (digits : List Char) : Nat := Nat.ofDigitChars 10 digits 0

/-- Padded digits denote their number. -/
theorem number_padded (width n : Nat) : number (padded width n).toList = n := by
  rw [number, padded, String.toList_ofList, Nat.ofDigitChars_append,
    Nat.ofDigitChars_replicate_zero, Nat.mul_zero, Nat.ofDigitChars_ten_toDigits]

/-- A number that fits has just the width. -/
theorem length_padded {width n : Nat} (hwidth : 0 < width) (h : n < 10 ^ width) :
    (padded width n).toList.length = width := by
  have hle := (Nat.length_toDigits_le_iff (by decide) hwidth).mpr h
  rw [padded, String.toList_ofList, List.length_append, List.length_replicate]
  omega

/-- Padded digits are digits. -/
theorem isDigit_of_mem_padded {width n : Nat} {c : Char} (h : c ∈ (padded width n).toList) :
    c.isDigit = true := by
  rw [padded, String.toList_ofList, List.mem_append, List.mem_replicate] at h
  rcases h with ⟨-, rfl⟩ | h
  · rfl
  · exact Nat.isDigit_of_mem_toDigits (by decide) (by decide) h

/-- The year that a year field denotes. -/
def parseYear : List Char → Int
  | '-' :: digits => -(number digits : Int)
  | '+' :: digits => number digits
  | digits => number digits

/-- The instant of the fields that follow a year. -/
def parseFields (year : Int) : List Char → Option Int
  | ['-', m₁, m₂, '-', d₁, d₂, 'T', h₁, h₂, ':', n₁, n₂, ':', s₁, s₂, '.', f₁, f₂, f₃, 'Z'] =>
    some (daysFromCivil year (number [m₁, m₂]) (number [d₁, d₂]) * 86400000 +
      number [h₁, h₂] * 3600000 + number [n₁, n₂] * 60000 + number [s₁, s₂] * 1000 +
      number [f₁, f₂, f₃])
  | _ => none

/-- The instant of a text in the form of `toISOString`. -/
def parseISOString (text : String) : Option Int :=
  let start := text.toList.length - 20
  parseFields (parseYear (text.toList.take start)) (text.toList.drop start)

/-- Digits without a sign denote their number. -/
theorem parseYear_digits {digits : List Char} (h : ∀ c ∈ digits, c.isDigit = true) :
    parseYear digits = number digits := by
  cases digits with
  | nil => rfl
  | cons c digits =>
    have hdigit : c.isDigit = true := h c List.mem_cons_self
    have hminus : c ≠ '-' := by
      intro hc
      rw [hc] at hdigit
      exact absurd hdigit (by decide)
    have hplus : c ≠ '+' := by
      intro hc
      rw [hc] at hdigit
      exact absurd hdigit (by decide)
    unfold parseYear
    split
    · rename_i heq
      exact absurd (List.cons.inj heq).1 hminus
    · rename_i heq
      exact absurd (List.cons.inj heq).1 hplus
    · rfl

/-- A year field denotes its year. -/
theorem parseYear_yearText (year : Int) : parseYear (yearText year).toList = year := by
  rw [yearText]
  split
  · rename_i hyear
    rw [parseYear_digits (fun c hc => isDigit_of_mem_padded hc), number_padded]
    omega
  · rename_i hyear
    by_cases hnegative : year < 0
    · rw [if_pos hnegative, String.toList_append]
      change -(number (padded 6 year.natAbs).toList : Int) = year
      rw [number_padded]
      omega
    · rw [if_neg hnegative, String.toList_append]
      change (number (padded 6 year.natAbs).toList : Int) = year
      rw [number_padded]
      omega

/-- Months and days have two digits. -/
theorem civilFromDays_bounds (days : Int) :
    (civilFromDays days).2.1 < 100 ∧ (civilFromDays days).2.2 < 100 := by
  simp only [civilFromDays]
  generalize hday : ((days + 719468) % 146097).toNat = day
  generalize hyear : (day - day / 1460 + day / 36524 - day / 146096) / 365 = year
  obtain ⟨-, -, hlt⟩ := yearOfEra_bounds (by omega) hyear.symm
  generalize hdayOfYear : day - (365 * year + year / 4 - year / 100) = dayOfYear at hlt
  constructor
  · split <;> omega
  · omega

/-- The two digits of a small number. -/
theorem two_digits {n : Nat} (h : n < 100) :
    ∃ a b, (padded 2 n).toList = [a, b] ∧ number [a, b] = n := by
  obtain ⟨a, b, hdigits⟩ := List.length_eq_two.mp (length_padded (Nat.succ_pos 1) h)
  exact ⟨a, b, hdigits, hdigits ▸ number_padded 2 n⟩

/-- The three digits of a number below a thousand. -/
theorem three_digits {n : Nat} (h : n < 1000) :
    ∃ a b c, (padded 3 n).toList = [a, b, c] ∧ number [a, b, c] = n := by
  obtain ⟨a, b, c, hdigits⟩ := List.length_eq_three.mp (length_padded (Nat.succ_pos 2) h)
  exact ⟨a, b, c, hdigits, hdigits ▸ number_padded 3 n⟩

/-- The text of an instant parses to it. -/
theorem parseISOString_toISOString (instant : Int) :
    parseISOString (toISOString instant) = some instant := by
  obtain ⟨hmonths, hdays⟩ := civilFromDays_bounds (instant / 86400000)
  have hdate := daysFromCivil_civilFromDays (instant / 86400000)
  rw [toISOString]
  generalize civilFromDays (instant / 86400000) = date at hmonths hdays hdate
  obtain ⟨year, month, day⟩ := date
  generalize hmillis : (instant % 86400000).toNat = millis
  have hbound : millis < 86400000 := by omega
  obtain ⟨m₁, m₂, hmonth, hm⟩ := two_digits hmonths
  obtain ⟨d₁, d₂, hday, hd⟩ := two_digits hdays
  obtain ⟨h₁, h₂, hhour, hh⟩ := two_digits (show millis / 3600000 < 100 by omega)
  obtain ⟨n₁, n₂, hminute, hn⟩ := two_digits (show millis / 60000 % 60 < 100 by omega)
  obtain ⟨s₁, s₂, hsecond, hs⟩ := two_digits (show millis / 1000 % 60 < 100 by omega)
  obtain ⟨f₁, f₂, f₃, hfraction, hf⟩ := three_digits (show millis % 1000 < 1000 by omega)
  have hchars : (yearText year ++ "-" ++ padded 2 month ++ "-" ++ padded 2 day ++ "T" ++
      padded 2 (millis / 3600000) ++ ":" ++ padded 2 (millis / 60000 % 60) ++ ":" ++
      padded 2 (millis / 1000 % 60) ++ "." ++ padded 3 (millis % 1000) ++ "Z").toList =
      (yearText year).toList ++ ['-', m₁, m₂, '-', d₁, d₂, 'T', h₁, h₂, ':', n₁, n₂, ':', s₁, s₂,
        '.', f₁, f₂, f₃, 'Z'] := by
    simp only [String.toList_append, hmonth, hday, hhour, hminute, hsecond, hfraction,
      List.append_assoc]
    rfl
  rw [parseISOString, hchars]
  have hlength : ((yearText year).toList ++ ['-', m₁, m₂, '-', d₁, d₂, 'T', h₁, h₂, ':', n₁, n₂,
      ':', s₁, s₂, '.', f₁, f₂, f₃, 'Z']).length - 20 = (yearText year).toList.length := by
    rw [List.length_append]
    rfl
  simp only [hlength]
  rw [List.drop_left, List.take_left, parseYear_yearText, parseFields, hm, hd, hh, hn, hs, hf,
    hdate]
  rw [Option.some.injEq]
  omega

end LegacyVault.IsoTime
