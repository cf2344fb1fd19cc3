import AssureCode.Js.Coercion

/-! # Dates

`new Date(value).getTime()`. How a text is read as a date is up to the implementation for all but
one format, and is a parameter.
-/

namespace AssureCode.Js

/-- Milliseconds, at most so many days from the epoch. -/
abbrev TimeValue : Type := {t : ℤ // |t| ≤ 8640000000000000}

def truncate (q : ℚ) : ℤ := if 0 ≤ q then ⌊q⌋ else ⌈q⌉

theorem abs_truncate_le {q : ℚ} {n : ℕ} (h : |q| ≤ n) : |truncate q| ≤ n := by
  obtain ⟨hlo, hhi⟩ := abs_le.mp h
  rw [truncate, abs_le]
  split
  · next hq =>
    have hfloor : (0 : ℤ) ≤ ⌊q⌋ := Int.floor_nonneg.mpr hq
    have hle : ⌊q⌋ ≤ (n : ℤ) := by exact_mod_cast (Int.floor_le q).trans hhi
    omega
  · next hq =>
    have hceil : ⌈q⌉ ≤ (0 : ℤ) := Int.ceil_le.mpr (by exact_mod_cast (not_le.mp hq).le)
    have hle : -(n : ℤ) ≤ ⌈q⌉ := by exact_mod_cast hlo.trans (Int.le_ceil q)
    omega

/-- `TimeClip`, with `none` for `NaN`. -/
def timeClip : Number → Option TimeValue
  | .finite q _ =>
    if h : |q| ≤ (8640000000000000 : ℕ) then some ⟨truncate q, abs_truncate_le h⟩ else none
  | _ => none

/-- `new Date(v).getTime()`, with `none` for a TypeError. -/
def getTime (parseDate : Text → Option TimeValue) : Option Json → Option (Option TimeValue)
  | none => some none
  | some .null => some (timeClip (.ofRat 0))
  | some (.bool value) => some (timeClip (.ofRat (if value then 1 else 0)))
  | some (.number value) => some (timeClip value)
  | some v => v.toText.map parseDate

/-- `(a - b) / 1000`, floored at zero. -/
def secondsBetween (a b : TimeValue) : Number :=
  .ofRat (max 0 (rounded (a.1 - b.1 : ℤ) / 1000))

theorem isFinite_ofRat {q : ℚ} (h : |rounded q| < 2 ^ 1024) : (Number.ofRat q).isFinite := by
  rw [Number.ofRat, dif_pos h]
  rfl

/-- Times are not so far apart that a number could not hold the difference. -/
theorem isFinite_secondsBetween (a b : TimeValue) : (secondsBetween a b).isFinite := by
  obtain ⟨a, ha⟩ := a
  obtain ⟨b, hb⟩ := b
  have hbound : IsDouble (2 ^ 54) := ⟨1, 54, by norm_num, by norm_num, by norm_num, by norm_num⟩
  have hdiff : rounded (a - b : ℤ) ≤ 2 ^ 54 := by
    rcases le_total 0 (a - b) with hle | hle
    · apply rounded_le hbound (by exact_mod_cast hle)
      have hlt : a - b ≤ 2 ^ 54 := by
        rw [abs_le] at ha hb
        omega
      exact_mod_cast hlt
    · exact (rounded_nonpos (by exact_mod_cast hle)).trans (by norm_num)
  have hnonneg : (0 : ℚ) ≤ max 0 (rounded (a - b : ℤ) / 1000) := le_max_left ..
  have hle : rounded (max 0 (rounded (a - b : ℤ) / 1000)) ≤ 2 ^ 54 :=
    rounded_le hbound hnonneg (max_le (by norm_num) (by linarith))
  apply isFinite_ofRat
  rw [abs_of_nonneg (rounded_nonneg hnonneg)]
  exact lt_of_le_of_lt hle (pow_lt_pow_right₀ one_lt_two (by norm_num))

end AssureCode.Js
