import LegacyVault.Library.EcmaText
import LegacyVault.Library.EcmaValues
import Mathlib.Data.Int.Log
import Mathlib.Data.Rat.Floor

/-!
# Conversions of the language

`Number` of a text, with the rounding of its literal to a double; the truth
and the text of a parsed value; and which statuses `fetch` calls ok. A finite
double is the rational it denotes.
-/

namespace LegacyVault.EcmaValues

open EcmaText JsonText

/-! ## Numbers -/

/-- The integer nearest to a number; of two, the even one. -/
def roundToEven (value : ℚ) : ℤ :=
  let below := ⌊value⌋
  let rest := 2 * (value - below)
  if rest < 1 then below
  else if rest > 1 then below + 1
  else if below % 2 = 0 then below
  else below + 1

/-- The double nearest to a number, when it is finite. -/
def toDouble (value : ℚ) : Option ℚ :=
  if value = 0 then some 0
  else
    let unit : ℚ := 2 ^ max (Int.log 2 |value| - 52) (-1074)
    let rounded := roundToEven (value / unit) * unit
    if |rounded| < 2 ^ 1024 then some rounded else none

/-- The value of a digit of any radix up to sixteen. -/
def digitValue? (c : Char) : Option Nat :=
  if '0' ≤ c ∧ c ≤ '9' then some (c.toNat - 48)
  else if 'a' ≤ c ∧ c ≤ 'f' then some (c.toNat - 87)
  else if 'A' ≤ c ∧ c ≤ 'F' then some (c.toNat - 55)
  else none

/-- The number some digits denote. There is at least one. -/
def digits? (radix : Nat) (digits : List Char) : Option Nat :=
  let values := digits.map digitValue?
  if digits ≠ [] ∧ values.all (fun value => value.any (· < radix)) then
    some (values.foldl (fun total value => total * radix + value.getD 0) 0)
  else none

/-- An exponent with its sign. -/
def exponent? : List Char → Option ℤ
  | '-' :: digits => (digits? 10 digits).map (fun value => -(value : ℤ))
  | '+' :: digits => (digits? 10 digits).map (fun value => (value : ℤ))
  | digits => (digits? 10 digits).map (fun value => (value : ℤ))

/-- A decimal literal without its sign. -/
def decimal? (literal : List Char) : Option ℚ :=
  let whole := literal.takeWhile Char.isDigit
  let afterWhole := literal.dropWhile Char.isDigit
  let fraction := match afterWhole with
    | '.' :: rest => rest.takeWhile Char.isDigit
    | _ => []
  let afterFraction := match afterWhole with
    | '.' :: rest => rest.dropWhile Char.isDigit
    | rest => rest
  let exponent : Option ℤ := match afterFraction with
    | [] => some 0
    | 'e' :: rest => exponent? rest
    | 'E' :: rest => exponent? rest
    | _ => none
  (digits? 10 (whole ++ fraction)).bind fun value =>
    exponent.map fun exponent => (value : ℚ) * 10 ^ (exponent - (fraction.length : ℤ))

/-- The number a literal denotes. No literal at all is zero. -/
def literal? : List Char → Option ℚ
  | [] => some 0
  | '0' :: 'x' :: digits => (digits? 16 digits).map (fun value => (value : ℚ))
  | '0' :: 'X' :: digits => (digits? 16 digits).map (fun value => (value : ℚ))
  | '0' :: 'o' :: digits => (digits? 8 digits).map (fun value => (value : ℚ))
  | '0' :: 'O' :: digits => (digits? 8 digits).map (fun value => (value : ℚ))
  | '0' :: 'b' :: digits => (digits? 2 digits).map (fun value => (value : ℚ))
  | '0' :: 'B' :: digits => (digits? 2 digits).map (fun value => (value : ℚ))
  | '-' :: literal => (decimal? literal).map (fun value => -value)
  | '+' :: literal => decimal? literal
  | literal => decimal? literal

/-- `Number(text)`, when `Number.isFinite` is true of it. -/
def finiteNumber? (text : String) : Option ℚ :=
  (literal? (trim text).toList).bind toDouble

/-- The product of two doubles, kept between two bounds. -/
def clampedProduct (low high a b : ℚ) : ℚ :=
  match toDouble (a * b) with
  | some product => min (max product low) high
  | none => if 0 < a * b then high else low

/-- White space alone is zero. -/
theorem finiteNumber?_blank {text : String} (h : isBlank text = true) :
    finiteNumber? text = some 0 := by
  have htrim : trim text = "" := by simpa [isBlank] using h
  rw [finiteNumber?, htrim]
  rfl

/-- Nothing is left of a product with zero. -/
theorem clampedProduct_zero {low high : ℚ} (hlow : low ≤ 0) (hhigh : 0 ≤ high) (b : ℚ) :
    clampedProduct low high 0 b = 0 := by
  rw [clampedProduct, zero_mul, toDouble, if_pos rfl]
  change min (max 0 low) high = 0
  rw [max_eq_left hlow, min_eq_left hhigh]

/-- `ok` of a response. -/
def responseOk (status : Nat) : Bool := 200 ≤ status && status ≤ 299

/-- A response that is ok is neither throttled nor failed. -/
theorem not_failed_of_ok {status : Nat} (h : responseOk status = true) :
    ¬ (status = 429 ∨ 500 ≤ status) := by
  rw [responseOk, Bool.and_eq_true, decide_eq_true_iff, decide_eq_true_iff] at h
  omega

/-! ## Values -/

/-- `Boolean(value)`. -/
def Value.truthy : Value → Bool
  | .null => false
  | .bool value => value
  | .num (.finite literal) => Number.natValue? (.finite literal) != some 0
  | .num .nan => false
  | .num _ => true
  | .str text => text != ""
  | .arr _ => true
  | .obj _ => true

/-- `value?.name`. A text or an array has none of the members that are read here. -/
def readMember (name : String) : Option Value → Option Value
  | some (.obj members) => members.lookup name
  | _ => none

/-- `value?.[0]`. What is read of the first character of a text is undefined like the text's. -/
def readFirst : Option Value → Option Value
  | some (.arr items) => items.head?
  | some (.obj members) => members.lookup "0"
  | _ => none

/-- `value ?? other`. -/
def orElse (value : Option Value) (other : Value) : Value :=
  match value with
  | none => other
  | some .null => other
  | some value => value

/-- The text of a number. -/
def Number.text : Number → String
  | .finite literal => String.ofList (literal.first :: literal.rest)
  | .nan => "NaN"
  | .infinity => "Infinity"
  | .negInfinity => "-Infinity"

mutual

/-- The text of a value in a template. An object with a member `toString` has none: the
conversion throws. -/
def Value.text? : Value → Option String
  | .null => some "null"
  | .bool true => some "true"
  | .bool false => some "false"
  | .num value => some value.text
  | .str text => some text
  | .arr items => (itemTexts? items).map (fun texts => ",".intercalate texts)
  | .obj members => if (members.lookup "toString").isSome then none else some "[object Object]"

/-- The texts of the items of an array. Nothing is written for `null`. -/
def itemTexts? : List Value → Option (List String)
  | [] => some []
  | .null :: items => (itemTexts? items).map (fun texts => "" :: texts)
  | item :: items =>
    item.text?.bind fun text => (itemTexts? items).map (fun texts => text :: texts)

end

end LegacyVault.EcmaValues
