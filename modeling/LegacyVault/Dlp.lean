import LegacyVault.Library.EcmaText
import LegacyVault.Library.RegularExpressions

/-!
# Prohibited content

`scanDlp`: the rules for prohibited content, each a pattern of the source,
and the Luhn test of card numbers. A pattern that ignores case compares
characters by their simple case folding.
-/

namespace LegacyVault

open EcmaText RegularExpressions

/-- What a scan can find. -/
inductive DlpFinding where
  | password | pin | recoveryCode | seedPhrase | privateKey | completeSsn | paymentCard
  | safeCombination | promptInjection
  deriving DecidableEq

/-- The name of a finding. -/
def DlpFinding.text : DlpFinding → String
  | password => "password"
  | pin => "pin"
  | recoveryCode => "recovery-code"
  | seedPhrase => "seed-phrase"
  | privateKey => "private-key"
  | completeSsn => "complete-ssn"
  | paymentCard => "payment-card"
  | safeCombination => "safe-combination"
  | promptInjection => "prompt-injection"

/-- `\d`. -/
def digit : Pattern := .char Char.isDigit

/-- `\s`. -/
def space : Pattern := .char isSpace

/-- Simple case folding, as far as it reaches letters of the patterns. -/
def foldCase (c : Char) : Char :=
  if c = '\u017f' then 's' else if c = '\u212a' then 'k' else c.toLower

/-- A text in any case. -/
def anyCase (text : String) : Pattern := literal (fun a b => foldCase a == foldCase b) text

/-- A word character. -/
def isWordChar (c : Char) : Bool := c.isAlphanum || c == '_'

/-- `\b` of a pattern that ignores case. -/
def anyCaseBoundary : Pattern := .boundary (fun c => isWordChar (foldCase c))

/-- `\s*[:=]`. -/
def assigns : Pattern := .seq space.star (.char (fun c => c == ':' || c == '='))

/-- The pattern of a rule. Card numbers have none. -/
def dlpRule : DlpFinding → Option Pattern
  | .privateKey => some (sequence [anyCase "-----BEGIN ",
      oneOf [anyCase "RSA ", anyCase "EC ", anyCase "OPENSSH ", .empty],
      anyCase "PRIVATE KEY-----"])
  | .completeSsn => some (sequence [.boundary isWordChar, digit.times 3, .char (· == '-'),
      digit.times 2, .char (· == '-'), digit.times 4, .boundary isWordChar])
  | .password => some (sequence [anyCaseBoundary,
      oneOf [anyCase "password", anyCase "passcode", anyCase "authentication answer"], assigns,
      space.star, (Pattern.char (fun c => !isSpace c)).plus])
  | .pin => some (sequence [anyCaseBoundary, anyCase "pin", assigns, space.star,
      .repeated 4 (some 12) digit, anyCaseBoundary])
  | .recoveryCode => some (sequence [anyCaseBoundary,
      oneOf [anyCase "recovery", anyCase "backup"], space.plus, anyCase "code", assigns,
      space.star,
      .repeated 6 none (.char (fun c => (foldCase c).isAlphanum || c == '-')),
      anyCaseBoundary])
  | .seedPhrase => some (sequence [anyCaseBoundary, oneOf [anyCase "seed", anyCase "recovery"],
      space.plus, anyCase "phrase", assigns])
  | .safeCombination => some (sequence [anyCaseBoundary, oneOf [anyCase "safe", anyCase "vault"],
      space.plus, anyCase "combination", assigns])
  | .promptInjection => some (sequence [anyCaseBoundary,
      oneOf [anyCase "ignore", anyCase "override"], space.plus,
      (Pattern.seq (anyCase "all") space.plus).optional,
      oneOf [anyCase "previous", anyCase "prior", anyCase "system"], space.plus,
      anyCase "instructions", anyCaseBoundary])
  | .paymentCard => none

/-- The Luhn sum of digits, last digit first, with every second one doubled. -/
def luhnSum : Bool → List Nat → Nat
  | _, [] => 0
  | double, digit :: digits =>
    (if double then if 9 < 2 * digit then 2 * digit - 9 else 2 * digit else digit) +
      luhnSum (!double) digits

/-- `passesLuhn`. -/
def passesLuhn (value : List Char) : Bool :=
  let digits := (value.filter Char.isDigit).map (fun c => c.toNat - '0'.toNat)
  13 ≤ digits.length && digits.length ≤ 19 && luhnSum false digits.reverse % 10 == 0

/-- `(?:\d[ -]?)` thirteen to nineteen times. -/
def cardPattern : Pattern :=
  .repeated 13 (some 19)
    (.seq digit (Pattern.char (fun c => c == ' ' || c == '-')).optional)

/-- The finding is made in the text. -/
def finds (text : List Char) (finding : DlpFinding) : Bool :=
  match dlpRule finding with
  | some pattern => pattern.test text
  | none => (cardPattern.matchAll text).any passesLuhn

/-- `scanDlp`, with the findings in the order of their names. -/
def scanDlp (text : String) : List DlpFinding :=
  [DlpFinding.completeSsn, .password, .paymentCard, .pin, .privateKey, .promptInjection,
    .recoveryCode, .safeCombination, .seedPhrase].filter (finds text.toList)

end LegacyVault
