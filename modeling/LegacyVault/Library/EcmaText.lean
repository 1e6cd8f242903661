import Mathlib.Algebra.GroupWithZero.Nat
import Mathlib.Data.List.DropRight
import Mathlib.Data.String.Basic

/-!
# Text as ECMAScript sees it

White space and line terminators, `trim`, the truth of an optional text, and
comparisons of times that may not parse. A time that does not parse is not a
number: every comparison with it fails.
-/

namespace LegacyVault.EcmaText

/-- A character that `String.prototype.trim` strips. -/
def isSpace (c : Char) : Bool :=
  ['\t', '\n', '\x0b', '\x0c', '\r', ' ', '\u00a0', '\u1680', '\u2028', '\u2029', '\u202f',
    '\u205f', '\u3000', '\ufeff'].contains c || ('\u2000' ≤ c && c ≤ '\u200a')

/-- `String.prototype.trim`. -/
def trim (text : String) : String :=
  String.ofList ((text.toList.dropWhile isSpace).rdropWhile isSpace)

/-- The text has nothing but white space. -/
def isBlank (text : String) : Bool := trim text == ""

/-- What remains after trimming is part of the text. -/
theorem toList_trim_infix (text : String) : (trim text).toList <:+: text.toList := by
  have hsuffix : text.toList.dropWhile isSpace <:+ text.toList := List.dropWhile_suffix _
  have hprefix : (text.toList.dropWhile isSpace).rdropWhile isSpace <+:
      text.toList.dropWhile isSpace := List.rdropWhile_prefix _ _
  rw [trim, String.toList_ofList]
  exact hprefix.isInfix.trans hsuffix.isInfix

/-- `length` of a text: its UTF-16 code units. -/
def utf16Length (text : String) : Nat :=
  (text.toList.map (fun c => if c.toNat < 65536 then 1 else 2)).sum

/-- A digit of the Base64 alphabet. -/
def base64Digit (n : Nat) : Char :=
  if n < 26 then Char.ofNat (n + 65)
  else if n < 52 then Char.ofNat (n + 71)
  else if n < 62 then Char.ofNat (n - 4)
  else if n = 62 then '+' else '/'

/-- The Base64 digits of some bytes, padded. -/
def base64Digits : List UInt8 → List Char
  | [] => []
  | [a] => [base64Digit (a.toNat / 4), base64Digit (a.toNat % 4 * 16), '=', '=']
  | [a, b] => [base64Digit (a.toNat / 4), base64Digit (a.toNat % 4 * 16 + b.toNat / 16),
      base64Digit (b.toNat % 16 * 4), '=']
  | a :: b :: c :: rest =>
    base64Digit (a.toNat / 4) :: base64Digit (a.toNat % 4 * 16 + b.toNat / 16) ::
      base64Digit (b.toNat % 16 * 4 + c.toNat / 64) :: base64Digit (c.toNat % 64) ::
        base64Digits rest

/-- `toString("base64")` of a buffer. -/
def base64 (bytes : List UInt8) : String := String.ofList (base64Digits bytes)

/-- `Boolean(text)` of a text that may be missing. -/
def truthy (text : Option String) : Bool := text.any (· ≠ "")

/-- A text is true unless it is empty. -/
@[simp] theorem truthy_some {text : String} : truthy (some text) = true ↔ text ≠ "" := by
  simp [truthy]

@[simp] theorem truthy_none : truthy none = false := rfl

section Times

/-- The first time is not after the second. -/
def notAfter : Option Int → Option Int → Bool
  | some a, some b => a ≤ b
  | _, _ => false

/-- The first time is after the second. -/
def isAfter : Option Int → Option Int → Bool
  | some a, some b => b < a
  | _, _ => false

/-- The first time is at most some milliseconds before the second, and not after it. -/
def within (maximum : Int) : Option Int → Option Int → Bool
  | some earlier, some now => earlier ≤ now && now - earlier ≤ maximum
  | _, _ => false

theorem notAfter_iff {a b : Option Int} :
    notAfter a b = true ↔ ∃ x y, a = some x ∧ b = some y ∧ x ≤ y := by
  cases a <;> cases b <;> simp [notAfter]

theorem isAfter_iff {a b : Option Int} :
    isAfter a b = true ↔ ∃ x y, a = some x ∧ b = some y ∧ y < x := by
  cases a <;> cases b <;> simp [isAfter]

theorem within_iff {maximum : Int} {earlier now : Option Int} :
    within maximum earlier now = true ↔
      ∃ t n, earlier = some t ∧ now = some n ∧ t ≤ n ∧ n - t ≤ maximum := by
  cases earlier <;> cases now <;> simp [within]

end Times

end LegacyVault.EcmaText
