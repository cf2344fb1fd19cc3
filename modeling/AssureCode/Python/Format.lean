import AssureCode.Js.Number

/-! # Numbers of the Python services

`round` and the fixed-point format codes in exact arithmetic, with ties to even as both have
them.
-/

namespace AssureCode.Python

open Js

/-- `round(x, digits)` -/
def round (x : ℚ) (digits : ℕ) : ℚ := halfEven (x * 10 ^ digits) / 10 ^ digits

/-- The format code `.{digits}f`. -/
def fixed (digits : ℕ) (x : ℚ) : String :=
  let n := (halfEven (x * 10 ^ digits)).natAbs
  let sign := if halfEven (x * 10 ^ digits) < 0 then "-" else ""
  let decimals := (Nat.toDigits 10 (n % 10 ^ digits)).leftpad digits '0'
  sign ++ toString (n / 10 ^ digits) ++ if digits = 0 then "" else "." ++ String.ofList decimals

/-- The format code `.0%`. -/
def percent (x : ℚ) : String := fixed 0 (100 * x) ++ "%"

theorem round_intCast_div (n : ℤ) (digits : ℕ) :
    round ((n : ℚ) / 10 ^ digits) digits = n / 10 ^ digits := by
  rw [round, div_mul_cancel₀ _ (by positivity), halfEven_intCast]

theorem round_nonneg {x : ℚ} (hx : 0 ≤ x) (digits : ℕ) : 0 ≤ round x digits := by
  have h : 0 ≤ halfEven (x * 10 ^ digits) := by
    apply le_halfEven
    push_cast
    positivity
  have h' : (0 : ℚ) ≤ halfEven (x * 10 ^ digits) := by exact_mod_cast h
  rw [round]
  positivity

end AssureCode.Python
