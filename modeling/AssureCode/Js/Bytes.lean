import AssureCode.Js.Stringify

/-! # Strings and bytes

`Buffer.from(text, 'utf8')`, `buffer.toString('hex')` and `Buffer.from(text, 'hex')`. Reading
hexadecimal stops before the first pair that is not two digits; a last digit without a partner is
left out.
-/

namespace AssureCode.Js

open Json (hexValue)
open Json.Reader (hexValue_hexDigit)

/-- The bytes of a code point. -/
def utf8Bytes (c : ℕ) : List UInt8 :=
  let next (shift : ℕ) := UInt8.ofNat (0x80 + (c >>> shift) % 0x40)
  if c < 0x80 then [UInt8.ofNat c]
  else if c < 0x800 then [UInt8.ofNat (0xC0 + c >>> 6), next 0]
  else if c < 0x10000 then [UInt8.ofNat (0xE0 + c >>> 12), next 6, next 0]
  else [UInt8.ofNat (0xF0 + c >>> 18), next 12, next 6, next 0]

/-- `Buffer.from(text, 'utf8')`; a surrogate alone becomes the replacement character. -/
def utf8 : Text → List UInt8
  | [] => []
  | [u] => utf8Bytes (if isLeadSurrogate u || isTrailSurrogate u then 0xFFFD else u)
  | u :: v :: t =>
    if isLeadSurrogate u && isTrailSurrogate v then
      utf8Bytes (0x10000 + (u - 0xD800) * 0x400 + (v - 0xDC00)) ++ utf8 t
    else
      utf8Bytes (if isLeadSurrogate u || isTrailSurrogate u then 0xFFFD else u) ++ utf8 (v :: t)

/-- `buffer.toString('hex')` -/
def toHex (b : List UInt8) : Text :=
  b.flatMap fun x => [hexDigit (x.toNat / 16), hexDigit (x.toNat % 16)]

/-- `Buffer.from(text, 'hex')` -/
def fromHex : Text → List UInt8
  | u :: v :: t =>
    match hexValue u, hexValue v with
    | some d, some e => UInt8.ofNat (16 * d + e) :: fromHex t
    | _, _ => []
  | _ => []

/-- What is written is read back. -/
@[simp] theorem fromHex_toHex (b : List UInt8) : fromHex (toHex b) = b := by
  induction b with
  | nil => rfl
  | cons x b ih =>
    have hlt : x.toNat < 256 := x.toNat_lt
    have hx : 16 * (x.toNat / 16) + x.toNat % 16 = x.toNat := Nat.div_add_mod _ _
    have hcons : toHex (x :: b) =
        hexDigit (x.toNat / 16) :: hexDigit (x.toNat % 16) :: toHex b := rfl
    rw [hcons, fromHex, hexValue_hexDigit (by omega), hexValue_hexDigit (Nat.mod_lt _ (by decide))]
    simp only [hx, ih, UInt8.ofNat_toNat]

end AssureCode.Js
