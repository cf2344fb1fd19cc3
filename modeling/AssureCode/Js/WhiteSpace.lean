import Mathlib.Tactic.Common

/-! # White space of the JavaScript string functions

`String.prototype.trim` removes the white space and line terminator code units
of ECMAScript. All of them lie in the basic plane, so the same test serves
code points and UTF-16 code units.
-/

namespace AssureCode.Js

def isWhiteSpace (c : ℕ) : Bool :=
  (9 ≤ c && c ≤ 13) || c == 0x20 || c == 0xA0 || c == 0x1680 || (0x2000 ≤ c && c ≤ 0x200A) ||
    c == 0x2028 || c == 0x2029 || c == 0x202F || c == 0x205F || c == 0x3000 || c == 0xFEFF

/-- `s.trim() === ''` -/
def isBlank (s : String) : Bool := s.toList.all fun c => isWhiteSpace c.toNat

end AssureCode.Js
