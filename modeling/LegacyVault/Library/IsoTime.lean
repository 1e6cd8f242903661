import Mathlib.Tactic.Common

/-!
# Calendar text of an instant

`Date.prototype.toISOString` for instants in milliseconds since the epoch:
the proleptic Gregorian date and the time of day in UTC. Years outside
0 to 9999 carry a sign and six digits, as the standard asks.
-/

namespace LegacyVault.IsoTime

/-- Decimal digits padded with zeros to a width. -/
def padded (width n : Nat) : String :=
  let digits := Nat.toDigits 10 n
  String.ofList (List.replicate (width - digits.length) '0' ++ digits)

/-- Year, month and day of a count of days since 1970-01-01. -/
def civilFromDays (days : Int) : Int × Nat × Nat :=
  let shifted := days + 719468
  let era := shifted / 146097
  let dayOfEra := (shifted % 146097).toNat
  let yearOfEra := (dayOfEra - dayOfEra / 1460 + dayOfEra / 36524 - dayOfEra / 146096) / 365
  let dayOfYear := dayOfEra - (365 * yearOfEra + yearOfEra / 4 - yearOfEra / 100)
  let monthIndex := (5 * dayOfYear + 2) / 153
  let day := dayOfYear - (153 * monthIndex + 2) / 5 + 1
  let month := if monthIndex < 10 then monthIndex + 3 else monthIndex - 9
  (yearOfEra + era * 400 + if month ≤ 2 then 1 else 0, month, day)

/-- The year field of an ISO date. -/
def yearText (year : Int) : String :=
  if 0 ≤ year ∧ year ≤ 9999 then padded 4 year.toNat
  else (if year < 0 then "-" else "+") ++ padded 6 year.natAbs

/-- `new Date(instant).toISOString()`. -/
def toISOString (instant : Int) : String :=
  let (year, month, day) := civilFromDays (instant / 86400000)
  let millis := (instant % 86400000).toNat
  yearText year ++ "-" ++ padded 2 month ++ "-" ++ padded 2 day ++ "T" ++
    padded 2 (millis / 3600000) ++ ":" ++ padded 2 (millis / 60000 % 60) ++ ":" ++
    padded 2 (millis / 1000 % 60) ++ "." ++ padded 3 (millis % 1000) ++ "Z"

example : toISOString 1709210096789 = "2024-02-29T12:34:56.789Z" := by decide

end LegacyVault.IsoTime
