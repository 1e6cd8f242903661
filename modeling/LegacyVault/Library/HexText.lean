import LegacyVault.Library.JsonText

/-!
# Hexadecimal text of bytes

The text `Buffer.toString("hex")` writes, and what `Buffer.from(text, "hex")`
reads: pairs of digits of either case, up to the first pair that is none.
-/

namespace LegacyVault.HexText

open JsonText

/-- Two lower-case digits for each byte. -/
def hexDigits (bytes : List UInt8) : List Char :=
  bytes.flatMap (fun byte => [hexDigit (byte.toNat / 16), hexDigit (byte.toNat % 16)])

/-- `toString("hex")` of a buffer. -/
def hex (bytes : List UInt8) : String := String.ofList (hexDigits bytes)

/-- The bytes of leading pairs of hexadecimal digits. -/
def hexBytes : List Char → List UInt8
  | high :: low :: rest =>
    match hexValue high, hexValue low with
    | some high, some low => UInt8.ofNat (16 * high + low) :: hexBytes rest
    | _, _ => []
  | _ => []

/-- `Buffer.from(text, "hex")`. -/
def fromHex (text : String) : List UInt8 := hexBytes text.toList

/-- Reading what was written returns the bytes. -/
@[simp] theorem hexBytes_hexDigits (bytes : List UInt8) : hexBytes (hexDigits bytes) = bytes := by
  induction bytes with
  | nil => rfl
  | cons byte bytes ih =>
    have hbound : byte.toNat < 256 := byte.toNat_lt
    have hhigh : hexValue (hexDigit (byte.toNat / 16)) = some (byte.toNat / 16) :=
      hexValue_hexDigit _ (by omega)
    have hlow : hexValue (hexDigit (byte.toNat % 16)) = some (byte.toNat % 16) :=
      hexValue_hexDigit _ (by omega)
    have hbyte : 16 * (byte.toNat / 16) + byte.toNat % 16 = byte.toNat := Nat.div_add_mod _ _
    rw [hexDigits] at ih
    simp only [hexDigits, List.flatMap_cons, List.cons_append, List.nil_append, hexBytes, hhigh,
      hlow, hbyte, UInt8.ofNat_toNat, ih]

@[simp] theorem fromHex_hex (bytes : List UInt8) : fromHex (hex bytes) = bytes := by
  rw [fromHex, hex, String.toList_ofList, hexBytes_hexDigits]

end LegacyVault.HexText
