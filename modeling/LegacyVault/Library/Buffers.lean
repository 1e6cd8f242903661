import LegacyVault.Library.EcmaText

/-!
# Buffers and their encodings

The bytes of a text in UTF-8 and the text of bytes, and what
`Buffer.from(text, "base64")` reads: the digits of either alphabet, with
everything else skipped. Reading what was written returns the bytes. How
ill-formed UTF-8 is replaced is a parameter.
-/

namespace LegacyVault.Buffers

open EcmaText

/-- The bytes of a buffer. -/
abbrev Bytes := List UInt8

/-- `Buffer.from(text, "utf8")`. -/
def utf8 (text : String) : Bytes := text.toByteArray.data.toList

/-- `toString("utf8")`, with a replacement for bytes that are not well formed. -/
def fromUtf8 (replaced : Bytes → String) (bytes : Bytes) : String :=
  (String.fromUTF8? ⟨bytes.toArray⟩).getD (replaced bytes)

/-- Reading the bytes of a text returns the text. -/
@[simp] theorem fromUtf8_utf8 (replaced : Bytes → String) (text : String) :
    fromUtf8 replaced (utf8 text) = text := by
  have hbytes : (⟨(utf8 text).toArray⟩ : ByteArray) = text.toByteArray := by
    rw [utf8, Array.toArray_toList]
  rw [fromUtf8, hbytes, String.fromUTF8?, dif_pos text.isValidUTF8]
  rfl

theorem utf8_injective : Function.Injective utf8 := by
  intro a b h
  have hread := congrArg (fromUtf8 (fun _ => "")) h
  rwa [fromUtf8_utf8, fromUtf8_utf8] at hread

/-- The bytes of a text, one character at a time. -/
theorem utf8_ofList (l : List Char) : utf8 (String.ofList l) = l.flatMap String.utf8EncodeChar := by
  rw [utf8, String.toByteArray_ofList, List.utf8Encode]
  simp

/-- The one byte of a character of ASCII. -/
theorem utf8EncodeChar_ascii {c : Char} (h : c.toNat < 128) :
    String.utf8EncodeChar c = [UInt8.ofNat c.toNat] := by
  have hval : c.val.toNat ≤ 127 := Nat.le_of_lt_succ h
  simp only [String.utf8EncodeChar, if_pos hval]
  rfl

/-- The value of a Base64 digit of either alphabet. -/
def base64Value (c : Char) : Option Nat :=
  if 'A' ≤ c ∧ c ≤ 'Z' then some (c.toNat - 65)
  else if 'a' ≤ c ∧ c ≤ 'z' then some (c.toNat - 71)
  else if '0' ≤ c ∧ c ≤ '9' then some (c.toNat + 4)
  else if c = '+' ∨ c = '-' then some 62
  else if c = '/' ∨ c = '_' then some 63
  else none

/-- The bytes of groups of six bits. What does not fill a byte is dropped. -/
def sextetBytes : List Nat → Bytes
  | a :: b :: c :: d :: rest =>
    UInt8.ofNat (a * 4 + b / 16) :: UInt8.ofNat (b % 16 * 16 + c / 4) ::
      UInt8.ofNat (c % 4 * 64 + d) :: sextetBytes rest
  | [a, b, c] => [UInt8.ofNat (a * 4 + b / 16), UInt8.ofNat (b % 16 * 16 + c / 4)]
  | [a, b] => [UInt8.ofNat (a * 4 + b / 16)]
  | _ => []

/-- `Buffer.from(text, "base64")`. -/
def fromBase64 (text : String) : Bytes := sextetBytes (text.toList.filterMap base64Value)

theorem base64Value_base64Digit : ∀ n < 64, base64Value (base64Digit n) = some n := by decide

theorem base64Value_padding : base64Value '=' = none := by decide

/-- Six bits at a time make the bytes they were taken from. -/
theorem sextetBytes_base64Digits (bytes : Bytes) :
    sextetBytes ((base64Digits bytes).filterMap base64Value) = bytes := by
  have hdigit : ∀ {n : Nat} {rest : List Char}, n < 64 →
      (base64Digit n :: rest).filterMap base64Value = n :: rest.filterMap base64Value :=
    fun hn => List.filterMap_cons_some (base64Value_base64Digit _ hn)
  have hpadding : ∀ {rest : List Char},
      ('=' :: rest).filterMap base64Value = rest.filterMap base64Value :=
    List.filterMap_cons_none base64Value_padding
  have hbyte : ∀ (a : UInt8) (n : Nat), n = a.toNat → UInt8.ofNat n = a := by
    intro a n hn
    rw [hn, UInt8.ofNat_toNat]
  induction bytes using base64Digits.induct with
  | case1 => rfl
  | case2 a =>
    have ha := a.toNat_lt
    rw [base64Digits, hdigit (by omega), hdigit (by omega), hpadding, hpadding,
      List.filterMap_nil, sextetBytes, hbyte a _ (by omega)]
  | case3 a b =>
    have ha := a.toNat_lt
    have hb := b.toNat_lt
    rw [base64Digits, hdigit (by omega), hdigit (by omega), hdigit (by omega), hpadding,
      List.filterMap_nil, sextetBytes, hbyte a _ (by omega), hbyte b _ (by omega)]
  | case4 a b c rest ih =>
    have ha := a.toNat_lt
    have hb := b.toNat_lt
    have hc := c.toNat_lt
    rw [base64Digits, hdigit (by omega), hdigit (by omega), hdigit (by omega), hdigit (by omega),
      sextetBytes, ih, hbyte a _ (by omega), hbyte b _ (by omega), hbyte c _ (by omega)]

/-- Reading what was written returns the bytes. -/
@[simp] theorem fromBase64_base64 (bytes : Bytes) : fromBase64 (base64 bytes) = bytes := by
  rw [fromBase64, base64, String.toList_ofList, sextetBytes_base64Digits]

end LegacyVault.Buffers
