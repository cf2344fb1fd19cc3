import AssureCode.Js.Bytes
import AssureCode.Python.Text

/-! # Base64 and UTF-8 as a `Buffer` reads them

`Buffer.from(text, 'base64')` takes both alphabets, passes over anything else and ends with the
padding. `buffer.toString('utf-8')` replaces each longest part of a sequence that no character has.
-/

namespace AssureCode.Js

/-! ## Base64 -/

def base64Value (u : ℕ) : Option ℕ :=
  if 65 ≤ u ∧ u ≤ 90 then some (u - 65)
  else if 97 ≤ u ∧ u ≤ 122 then some (u - 71)
  else if 48 ≤ u ∧ u ≤ 57 then some (u + 4)
  else if u = 43 ∨ u = 45 then some 62
  else if u = 47 ∨ u = 95 then some 63
  else none

/-- Four digits are three bytes; two or three at the end are one or two. -/
def ofSextets : List ℕ → List UInt8
  | a :: b :: c :: d :: rest =>
    UInt8.ofNat (4 * a + b / 16) :: UInt8.ofNat (16 * (b % 16) + c / 4) ::
      UInt8.ofNat (64 * (c % 4) + d) :: ofSextets rest
  | [a, b, c] => [UInt8.ofNat (4 * a + b / 16), UInt8.ofNat (16 * (b % 16) + c / 4)]
  | [a, b] => [UInt8.ofNat (4 * a + b / 16)]
  | _ => []

/-- The code unit of `=`. -/
def padding : ℕ := 61

/-- `Buffer.from(text, 'base64')` -/
def fromBase64 (t : Text) : List UInt8 :=
  ofSextets ((t.takeWhile (· ≠ padding)).filterMap base64Value)

/-! ## UTF-8 -/

/-- A sequence that is not complete: bytes to come, what it has, and bounds of the next byte. -/
structure Partial where
  need : ℕ
  point : ℕ
  lower : ℕ
  upper : ℕ

/-- The first byte of a sequence. -/
def startByte (b : ℕ) : Text × Option Partial :=
  if b < 0x80 then ([b], none)
  else if 0xC2 ≤ b ∧ b ≤ 0xDF then ([], some ⟨1, b - 0xC0, 0x80, 0xBF⟩)
  else if 0xE0 ≤ b ∧ b ≤ 0xEF then
    ([], some ⟨2, b - 0xE0, if b = 0xE0 then 0xA0 else 0x80, if b = 0xED then 0x9F else 0xBF⟩)
  else if 0xF0 ≤ b ∧ b ≤ 0xF4 then
    ([], some ⟨3, b - 0xF0, if b = 0xF0 then 0x90 else 0x80, if b = 0xF4 then 0x8F else 0xBF⟩)
  else ([0xFFFD], none)

/-- A byte out of bounds ends the sequence, and is then the first of another. -/
def nextByte : Option Partial → ℕ → Text × Option Partial
  | none, b => startByte b
  | some p, b =>
    if p.lower ≤ b ∧ b ≤ p.upper then
      if p.need = 1 then (Python.unitsOf (0x40 * p.point + (b - 0x80)), none)
      else ([], some ⟨p.need - 1, 0x40 * p.point + (b - 0x80), 0x80, 0xBF⟩)
    else
      let r := startByte b
      (0xFFFD :: r.1, r.2)

def readUtf8 : Option Partial → List UInt8 → Text
  | none, [] => []
  | some _, [] => [0xFFFD]
  | p, b :: bs =>
    let r := nextByte p b.toNat
    r.1 ++ readUtf8 r.2 bs

/-- `buffer.toString('utf-8')` -/
def ofUtf8 (bytes : List UInt8) : Text := readUtf8 none bytes

end AssureCode.Js
