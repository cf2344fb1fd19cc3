import Mathlib.Data.Int.Log
import Mathlib.Data.Rat.Floor
import Mathlib.Algebra.Order.Field.Power
import Mathlib.Tactic.Linarith
import Mathlib.Tactic.NormNum
import Mathlib.Tactic.Positivity

/-! # The Number type

A JavaScript number is an IEEE 754 double. A finite one is kept as the rational
it denotes together with the proof that a double denotes it; the two zeros are
one value. The exact result of an operation or of a conversion is rounded to the
nearest double, ties to the even significand.
-/

namespace AssureCode.Js

/-- A significand of 53 bits and an exponent of the double format. -/
def IsDouble (q : ℚ) : Prop :=
  ∃ m e : ℤ, |m| < 2 ^ 53 ∧ -1074 ≤ e ∧ e ≤ 971 ∧ q = m * 2 ^ e

inductive Number
  | nan
  | infinity (negative : Bool)
  | finite (value : ℚ) (isDouble : IsDouble value)
  deriving DecidableEq

theorem isDouble_intCast {n : ℤ} (h : |n| < 2 ^ 53) : IsDouble n :=
  ⟨n, 0, h, by norm_num, by norm_num, by simp⟩

theorem isDouble_natCast {n : ℕ} (h : n < 2 ^ 53) : IsDouble n :=
  isDouble_intCast (n := n) (by rw [abs_of_nonneg] <;> omega)

theorem IsDouble.neg {q : ℚ} (h : IsDouble q) : IsDouble (-q) := by
  obtain ⟨m, e, hm, he, he', rfl⟩ := h
  exact ⟨-m, e, by rwa [abs_neg], he, he', by push_cast; ring⟩

theorem IsDouble.abs_lt {q : ℚ} (h : IsDouble q) : |q| < 2 ^ 1024 := by
  obtain ⟨m, e, hm, -, he, rfl⟩ := h
  rw [abs_mul, abs_of_pos (show (0 : ℚ) < 2 ^ e by positivity)]
  have hm' : |(m : ℚ)| < 2 ^ 53 := by exact_mod_cast hm
  calc |(m : ℚ)| * 2 ^ e < 2 ^ 53 * 2 ^ e := by gcongr
    _ ≤ 2 ^ 53 * 2 ^ (971 : ℤ) := by gcongr; norm_num
    _ = 2 ^ 1024 := by rw [zpow_ofNat, ← pow_add]

/-! ## Rounding to an integer -/

def halfEven (x : ℚ) : ℤ :=
  if Int.fract x < 1 / 2 then ⌊x⌋
  else if 1 / 2 < Int.fract x then ⌊x⌋ + 1
  else if ⌊x⌋ % 2 = 0 then ⌊x⌋
  else ⌊x⌋ + 1

@[simp] theorem halfEven_intCast (n : ℤ) : halfEven n = n := by
  simp [halfEven]

theorem halfEven_bounds (x : ℚ) : ⌊x⌋ ≤ halfEven x ∧ halfEven x ≤ ⌈x⌉ := by
  rcases eq_or_ne (Int.fract x) 0 with h | h
  · have hx : x = ⌊x⌋ := by
      have := Int.floor_add_fract x
      rw [h, add_zero] at this
      exact this.symm
    rw [hx, halfEven_intCast]
    simp
  · have hc : ⌈x⌉ = ⌊x⌋ + 1 := (Int.ceil_eq_floor_add_one_iff_notMem x).2 fun hm =>
      h (Int.fract_eq_zero_iff.2 hm)
    unfold halfEven
    split_ifs <;> omega

theorem le_halfEven {n : ℤ} {x : ℚ} (h : n ≤ x) : n ≤ halfEven x :=
  (Int.le_floor.2 h).trans (halfEven_bounds x).1

theorem halfEven_le {n : ℤ} {x : ℚ} (h : x ≤ n) : halfEven x ≤ n :=
  (halfEven_bounds x).2.trans (Int.ceil_le.2 h)

theorem halfEven_mono {x y : ℚ} (h : x ≤ y) : halfEven x ≤ halfEven y := by
  rcases (Int.floor_mono h).lt_or_eq with hlt | heq
  · calc halfEven x ≤ ⌈x⌉ := (halfEven_bounds x).2
      _ ≤ ⌊x⌋ + 1 := Int.ceil_le_floor_add_one x
      _ ≤ ⌊y⌋ := hlt
      _ ≤ halfEven y := (halfEven_bounds y).1
  · have hfract : Int.fract x ≤ Int.fract y := by
      rw [Int.fract, Int.fract, heq]
      linarith
    simp only [halfEven, heq]
    split_ifs <;> first | omega | linarith

theorem halfEven_add_half {n : ℤ} (hn : n % 2 = 0) : halfEven (n + 1 / 2) = n := by
  have hfloor : ⌊(n : ℚ) + 1 / 2⌋ = n := by
    rw [Int.floor_eq_iff]
    constructor <;> linarith
  have hfract : Int.fract ((n : ℚ) + 1 / 2) = 1 / 2 := by
    rw [Int.fract, hfloor, add_sub_cancel_left]
  rw [halfEven, hfract, hfloor, if_neg (lt_irrefl _), if_neg (lt_irrefl _), if_pos hn]

theorem halfEven_le_iff {n : ℤ} {x : ℚ} (hn : n % 2 = 0) : halfEven x ≤ n ↔ x ≤ n + 1 / 2 := by
  have hx := Int.floor_add_fract x
  constructor
  · intro h
    by_contra hlt
    rcases ((halfEven_bounds x).1.trans h).lt_or_eq with hfloor | hfloor
    · have hle : (⌊x⌋ : ℚ) + 1 ≤ n := by exact_mod_cast hfloor
      have := Int.fract_lt_one x
      linarith
    · rw [hfloor] at hx
      have hhalf : 1 / 2 < Int.fract x := by linarith
      rw [halfEven, if_neg (not_lt.mpr hhalf.le), if_pos hhalf] at h
      omega
  · intro h
    exact (halfEven_mono h).trans_eq (halfEven_add_half hn)

/-! ## Rounding to a double -/

/-- The exponent of the last significand bit of a double near `q`. -/
def scale (q : ℚ) : ℤ := max (Int.log 2 |q| - 52) (-1074)

def significand (q : ℚ) : ℤ := halfEven (q / 2 ^ scale q)

def rounded (q : ℚ) : ℚ := significand q * 2 ^ scale q

theorem abs_lt_pow_scale (q : ℚ) : |q| < 2 ^ 53 * 2 ^ scale q := by
  have hlog : |q| < (2 : ℚ) ^ (Int.log 2 |q| + 1) := by
    exact_mod_cast Int.lt_zpow_succ_log_self (b := 2) (by norm_num) |q|
  calc |q| < 2 ^ (Int.log 2 |q| + 1) := hlog
    _ ≤ 2 ^ (53 + scale q) := by
        apply zpow_le_zpow_right₀ (by norm_num)
        unfold scale
        omega
    _ = 2 ^ 53 * 2 ^ scale q := by rw [zpow_add₀ (by norm_num)]; norm_num

theorem abs_significand_le (q : ℚ) : |significand q| ≤ 2 ^ 53 := by
  have hpos : (0 : ℚ) < 2 ^ scale q := by positivity
  have hq : |q / 2 ^ scale q| < 2 ^ 53 := by
    rw [abs_div, abs_of_pos hpos, div_lt_iff₀ hpos]
    exact abs_lt_pow_scale q
  rw [abs_lt] at hq
  rw [abs_le]
  constructor
  · apply le_halfEven
    push_cast
    exact hq.1.le
  · apply halfEven_le
    push_cast
    exact hq.2.le

theorem pow_scale_le_abs {q : ℚ} (h : scale q ≠ -1074) (hq : q ≠ 0) :
    2 ^ 52 * 2 ^ scale q ≤ |q| := by
  have hs : scale q = Int.log 2 |q| - 52 := by unfold scale at h ⊢; omega
  have hlog : (2 : ℚ) ^ Int.log 2 |q| ≤ |q| := by
    exact_mod_cast Int.zpow_log_le_self (b := 2) (by norm_num) (abs_pos.2 hq)
  calc (2 : ℚ) ^ 52 * 2 ^ scale q = 2 ^ (52 + scale q) := by
        rw [zpow_add₀ (by norm_num)]; norm_num
    _ = 2 ^ Int.log 2 |q| := by rw [hs]; congr 1; omega
    _ ≤ |q| := hlog

/-- Above the smallest scale the significand uses all 53 bits. -/
theorem le_abs_significand {q : ℚ} (h : scale q ≠ -1074) (hq : q ≠ 0) :
    2 ^ 52 ≤ |significand q| := by
  have hpos : (0 : ℚ) < 2 ^ scale q := by positivity
  have hle : (2 : ℚ) ^ 52 ≤ |q / 2 ^ scale q| := by
    rw [abs_div, abs_of_pos hpos, le_div_iff₀ hpos]
    exact pow_scale_le_abs h hq
  rw [le_abs] at hle ⊢
  rcases hle with hle | hle
  · left
    apply le_halfEven
    push_cast
    exact hle
  · right
    have : significand q ≤ -2 ^ 52 := by
      apply halfEven_le
      push_cast
      linarith
    omega

theorem isDouble_rounded {q : ℚ} (h : |rounded q| < 2 ^ 1024) : IsDouble (rounded q) := by
  have hpos : (0 : ℚ) < 2 ^ scale q := by positivity
  have hlow : -1074 ≤ scale q := by unfold scale; omega
  rcases eq_or_ne q 0 with rfl | hq
  · exact ⟨0, 0, by norm_num, by norm_num, by norm_num, by simp [rounded, significand, halfEven]⟩
  have hscale : scale q ≤ 971 := by
    by_cases hs : scale q = -1074
    · omega
    have hm : (2 : ℚ) ^ 52 ≤ |(significand q : ℚ)| := by
      exact_mod_cast le_abs_significand hs hq
    rw [rounded, abs_mul, abs_of_pos hpos] at h
    have : (2 : ℚ) ^ (52 + scale q) < 2 ^ (1024 : ℤ) := by
      calc (2 : ℚ) ^ (52 + scale q) = 2 ^ 52 * 2 ^ scale q := by
            rw [zpow_add₀ (by norm_num)]; norm_num
        _ ≤ |(significand q : ℚ)| * 2 ^ scale q := by gcongr
        _ < 2 ^ (1024 : ℤ) := by exact_mod_cast h
    have := (zpow_lt_zpow_iff_right₀ (by norm_num : (1 : ℚ) < 2)).1 this
    omega
  rcases lt_or_eq_of_le (abs_significand_le q) with hm | hm
  · exact ⟨_, _, hm, hlow, hscale, rfl⟩
  -- the carry out of the significand: one more in the exponent
  have hval : |rounded q| = 2 ^ (53 + scale q) := by
    rw [rounded, abs_mul, abs_of_pos hpos, zpow_add₀ (by norm_num)]
    have : |(significand q : ℚ)| = 2 ^ 53 := by exact_mod_cast hm
    rw [this]
    norm_num
  rw [hval] at h
  have hlt : 53 + scale q < 1024 := by
    rw [← zpow_lt_zpow_iff_right₀ (by norm_num : (1 : ℚ) < 2)]
    exact_mod_cast h
  rcases (abs_eq (by norm_num)).1 hm with hs | hs
  all_goals
    refine ⟨significand q / 2, scale q + 1, by rw [hs]; norm_num, by omega, by omega, ?_⟩
    rw [rounded, hs, zpow_add₀ (by norm_num)]
    norm_num
    ring

theorem rounded_of_isDouble {q : ℚ} (h : IsDouble q) : rounded q = q := by
  obtain ⟨m, e, hm, he, -, rfl⟩ := h
  rcases eq_or_ne m 0 with rfl | hm0
  · simp [rounded, significand, halfEven]
  have hle : scale (m * 2 ^ e) ≤ e := by
    have hlt : |(m : ℚ) * 2 ^ e| < ((2 : ℕ) : ℚ) ^ (53 + e) := by
      rw [abs_mul, abs_of_pos (show (0 : ℚ) < 2 ^ e by positivity)]
      have hm' : |(m : ℚ)| < 2 ^ 53 := by exact_mod_cast hm
      calc |(m : ℚ)| * 2 ^ e < 2 ^ 53 * 2 ^ e := by gcongr
        _ = ((2 : ℕ) : ℚ) ^ (53 + e) := by push_cast; rw [zpow_add₀ (by norm_num)]; norm_num
    have := (Int.lt_zpow_iff_log_lt (by norm_num) (by positivity)).1 hlt
    unfold scale
    omega
  -- below the exponent of the double the quotient is an integer
  obtain ⟨k, hk⟩ := Int.le.dest hle
  have hq : (m : ℚ) * 2 ^ e / 2 ^ scale (m * 2 ^ e) = ((m * 2 ^ k : ℤ) : ℚ) := by
    rw [div_eq_iff (by positivity)]
    conv_lhs => rw [← hk, zpow_add₀ (by norm_num), zpow_natCast]
    push_cast
    ring
  rw [rounded, significand, hq, halfEven_intCast, ← hq]
  exact div_mul_cancel₀ _ (by positivity)

/-- A double is a whole number of the last places of `q`, unless it is smaller than `q`. -/
theorem IsDouble.multiple_or_lt {q b : ℚ} (hb : IsDouble b) (hq : q ≠ 0) :
    (∃ n : ℤ, b = n * 2 ^ scale q) ∨ |b| < 2 ^ 52 * 2 ^ scale q ∧ 2 ^ 52 * 2 ^ scale q ≤ |q| := by
  obtain ⟨m, e, hm, he, -, rfl⟩ := hb
  rcases le_or_gt (scale q) e with hle | hlt
  · obtain ⟨k, hk⟩ := Int.le.dest hle
    refine .inl ⟨m * 2 ^ k, ?_⟩
    rw [← hk, zpow_add₀ (by norm_num), zpow_natCast]
    push_cast
    ring
  · refine .inr ⟨?_, pow_scale_le_abs (by omega) hq⟩
    have hm' : |(m : ℚ)| < 2 ^ 53 := by exact_mod_cast hm
    rw [abs_mul, abs_of_pos (show (0 : ℚ) < 2 ^ e by positivity)]
    calc |(m : ℚ)| * 2 ^ e < 2 ^ 53 * 2 ^ e := by gcongr
      _ = 2 ^ 52 * 2 ^ (e + 1) := by rw [zpow_add₀ (by norm_num)]; ring
      _ ≤ 2 ^ 52 * 2 ^ scale q := by
        gcongr
        · norm_num
        · omega

theorem rounded_nonneg {q : ℚ} (hq : 0 ≤ q) : 0 ≤ rounded q := by
  have hpos : (0 : ℚ) < 2 ^ scale q := by positivity
  have hsignificand : 0 ≤ significand q := le_halfEven (by
    push_cast
    exact div_nonneg hq hpos.le)
  exact mul_nonneg (by exact_mod_cast hsignificand) hpos.le

theorem rounded_nonpos {q : ℚ} (hq : q ≤ 0) : rounded q ≤ 0 := by
  have hpos : (0 : ℚ) < 2 ^ scale q := by positivity
  have hsignificand : significand q ≤ 0 := halfEven_le (by
    push_cast
    exact div_nonpos_of_nonpos_of_nonneg hq hpos.le)
  exact mul_nonpos_of_nonpos_of_nonneg (by exact_mod_cast hsignificand) hpos.le

/-- Rounding does not pass a double. -/
theorem rounded_le {q b : ℚ} (hb : IsDouble b) (hq : 0 ≤ q) (h : q ≤ b) : rounded q ≤ b := by
  have hpos : (0 : ℚ) < 2 ^ scale q := by positivity
  rcases hq.eq_or_lt with rfl | hq
  · rwa [rounded_of_isDouble (by exact_mod_cast isDouble_natCast (n := 0) (by norm_num))]
  rcases hb.multiple_or_lt hq.ne' with ⟨n, rfl⟩ | ⟨hlt, hle⟩
  · have hn : significand q ≤ n := halfEven_le ((div_le_iff₀ hpos).2 h)
    exact mul_le_mul_of_nonneg_right (by exact_mod_cast hn) hpos.le
  · rw [abs_of_pos hq] at hle
    rw [abs_of_pos (hq.trans_le h)] at hlt
    linarith

theorem le_rounded {q b : ℚ} (hb : IsDouble b) (hb₀ : 0 < b) (h : b ≤ q) : b ≤ rounded q := by
  have hpos : (0 : ℚ) < 2 ^ scale q := by positivity
  have hq : 0 < q := hb₀.trans_le h
  rcases hb.multiple_or_lt hq.ne' with ⟨n, rfl⟩ | ⟨hlt, hle⟩
  · have hn : n ≤ significand q := le_halfEven ((le_div_iff₀ hpos).2 h)
    exact mul_le_mul_of_nonneg_right (by exact_mod_cast hn) hpos.le
  · rw [abs_of_pos hb₀] at hlt
    rw [abs_of_pos hq] at hle
    have hn : (2 ^ 52 : ℤ) ≤ significand q := le_halfEven (by
      push_cast
      exact (le_div_iff₀ hpos).2 hle)
    calc b ≤ 2 ^ 52 * 2 ^ scale q := hlt.le
      _ ≤ rounded q := mul_le_mul_of_nonneg_right (by exact_mod_cast hn) hpos.le

/-- The Number value of an exact result. -/
def Number.ofRat (q : ℚ) : Number :=
  if h : |rounded q| < 2 ^ 1024 then .finite (rounded q) (isDouble_rounded h)
  else .infinity (q < 0)

theorem Number.ofRat_of_rounded {p q : ℚ} (h : IsDouble q) (hp : rounded p = q) :
    Number.ofRat p = .finite q h := by
  rw [ofRat, dif_pos (by rw [hp]; exact h.abs_lt)]
  simp only [hp]

/-- Integers below `2 ^ 53` are exact. -/
theorem Number.ofRat_natCast {n : ℕ} (h : n < 2 ^ 53) :
    Number.ofRat n = .finite n (isDouble_natCast h) :=
  ofRat_of_rounded _ (rounded_of_isDouble (isDouble_natCast h))

/-- `a < b` -/
def Number.lt : Number → Number → Bool
  | .finite p _, .finite q _ => p < q
  | .finite _ _, .infinity negative => !negative
  | .infinity negative, .finite _ _ => negative
  | .infinity negative, .infinity negative' => negative && !negative'
  | .nan, _ => false
  | _, .nan => false

def Number.isFinite : Number → Bool
  | .finite _ _ => true
  | _ => false

def Number.add : Number → Number → Number
  | .finite p _, .finite q _ => .ofRat (p + q)
  | .infinity s, .finite _ _ => .infinity s
  | .finite _ _, .infinity t => .infinity t
  | .infinity s, .infinity t => if s = t then .infinity s else .nan
  | .nan, _ => .nan
  | _, .nan => .nan

example : Number.ofRat (1 / 10) = .ofRat (3602879701896397 / 2 ^ 55) := by decide +kernel

end AssureCode.Js
