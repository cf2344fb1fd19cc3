import Mathlib.Tactic.LinearCombination
import AssureCode.Js.Number
import AssureCode.Js.Numeral

/-! # Numbers as text

A number prints as the shortest decimal that rounds to it, laid out by its
magnitude. A JSON number literal is a numeral without superfluous zeros and
without empty parts. Every finite number is the value of its own text.
-/

namespace AssureCode.Js

def Number.neg : Number → Number
  | .nan => .nan
  | .infinity negative => .infinity !negative
  | .finite q h => .finite (-q) h.neg

/-- The closest decimal with `k` digits that rounds to `x`, as digits and a power of ten. -/
def decimalOf (x : ℚ) (k : ℕ) : Option (ℕ × ℤ) :=
  let e := Int.log 10 x + 1 - k
  let y := x / 10 ^ e
  ([halfEven y, ⌊y⌋ + ⌈y⌉ - halfEven y].find? fun (s : ℤ) => rounded (s * 10 ^ e) = x).map fun s =>
    if s = 10 ^ k then (10 ^ (k - 1), e + 1) else (s.toNat, e)

def shortest (x : ℚ) : Option (ℕ × ℤ) :=
  (List.range 1500).findSome? fun k => decimalOf x (k + 1)

/-- `s · 10 ^ e` with its decimal point at the place `Number::toString` puts it. -/
def layout (s : ℕ) (e : ℤ) : Numeral :=
  let digits := digitsOf s
  let n := digits.length + e
  if 0 ≤ e ∧ n ≤ 21 then ⟨digits ++ zeros e.toNat, none, none⟩
  else if 0 < n ∧ n ≤ 21 then ⟨digits.take n.toNat, some (digits.drop n.toNat), none⟩
  else if -6 < n ∧ n ≤ 0 then ⟨[0x30], some (zeros (-n).toNat ++ digits), none⟩
  else ⟨digits.take 1, if digits.length = 1 then none else some (digits.drop 1),
    some ⟨n - 1 < 0, digitsOf (n - 1).natAbs⟩⟩

def unsignedText (x : ℚ) : Text :=
  if x = 0 then (layout 0 0).text
  else ((shortest x).map fun (s, e) => (layout s e).text).getD []

/-- `Number::toString` -/
def Number.text : Number → Text
  | .nan => units "NaN"
  | .infinity negative => if negative then units "-Infinity" else units "Infinity"
  | .finite x _ => if x < 0 then 0x2D :: unsignedText (-x) else unsignedText x

structure Numeral.IsJson (n : Numeral) : Prop where
  whole : n.whole ≠ []
  leading : n.whole.head? = some 0x30 → n.whole.length = 1
  fraction : n.fraction ≠ some []
  exponent : ∀ e ∈ n.exponent, e.digits ≠ []

instance (n : Numeral) : Decidable n.IsJson :=
  decidable_of_iff (n.whole ≠ [] ∧ (n.whole.head? = some 0x30 → n.whole.length = 1) ∧
    n.fraction ≠ some [] ∧ ∀ e ∈ n.exponent, e.digits ≠ [])
    ⟨fun ⟨hw, hl, hf, he⟩ => ⟨hw, hl, hf, he⟩, fun ⟨hw, hl, hf, he⟩ => ⟨hw, hl, hf, he⟩⟩

def unsignedJsonNumber (t : Text) : Option Number :=
  (Numeral.scan t).bind fun n => if n.IsJson then some (.ofRat n.value) else none

/-- A JSON number literal. -/
def jsonNumber : Text → Option Number
  | 0x2D :: t => (unsignedJsonNumber t).map Number.neg
  | t => unsignedJsonNumber t

/-! ## Layout -/

variable {s : ℕ} {e : ℤ} {x : ℚ}

theorem layout_digits (s : ℕ) (e : ℤ) : (layout s e).Digits := by
  have hd : ∀ u ∈ digitsOf s, isDigit u := fun u => isDigit_of_mem_digitsOf
  unfold layout
  dsimp only
  split_ifs
  · refine ⟨fun u hu => ?_, by simp, by simp⟩
    rcases List.mem_append.1 hu with hu | hu
    · exact hd u hu
    · exact isDigit_of_mem_zeros hu
  · refine ⟨fun u hu => hd u (List.mem_of_mem_take hu), ?_, by simp⟩
    rintro f ⟨⟩ u hu
    exact hd u (List.mem_of_mem_drop hu)
  · refine ⟨by simp [isDigit], ?_, by simp⟩
    rintro f ⟨⟩ u hu
    rcases List.mem_append.1 hu with hu | hu
    · exact isDigit_of_mem_zeros hu
    · exact hd u hu
  · refine ⟨fun u hu => hd u (List.mem_of_mem_take hu), by simp, ?_⟩
    rintro f ⟨⟩ u hu
    exact isDigit_of_mem_digitsOf hu
  · refine ⟨fun u hu => hd u (List.mem_of_mem_take hu), ?_, ?_⟩
    · rintro f ⟨⟩ u hu
      exact hd u (List.mem_of_mem_drop hu)
    · rintro f ⟨⟩ u hu
      exact isDigit_of_mem_digitsOf hu

theorem length_digitsOf_pos (s : ℕ) : 0 < (digitsOf s).length :=
  List.length_pos_iff.2 (digitsOf_ne_nil s)

theorem layout_isJson (h : 0 < s ∨ e = 0) : (layout s e).IsJson := by
  have hpos := length_digitsOf_pos s
  have hexp : ∀ n : ℤ, digitsOf n.natAbs ≠ [] := fun n => digitsOf_ne_nil _
  rcases Nat.eq_zero_or_pos s with rfl | hs
  · obtain rfl : e = 0 := by omega
    exact ⟨by decide, by decide, by decide, by decide⟩
  obtain ⟨u, t, ht⟩ := List.exists_cons_of_length_pos hpos
  have hu := head_digitsOf_ne_zero hs ht
  unfold layout
  dsimp only
  split_ifs with h₁ h₂ h₃ h₄
  · refine ⟨by simp [ht], fun hh => ?_, by simp, by simp⟩
    simp [ht, hu] at hh
  · obtain ⟨n, hn⟩ : ∃ n : ℕ, ((digitsOf s).length + e).toNat = n + 1 :=
      ⟨((digitsOf s).length + e).toNat - 1, by omega⟩
    rw [hn]
    refine ⟨by simp [ht], fun hh => by simp [ht, hu] at hh, ?_, by simp⟩
    simp only [ne_eq, Option.some.injEq, List.drop_eq_nil_iff]
    omega
  · exact ⟨by simp, by simp, by simp [ht], by simp⟩
  · exact ⟨by simp [ht], fun hh => by simp [ht, hu] at hh, by simp, by simpa using hexp _⟩
  · refine ⟨by simp [ht], fun hh => by simp [ht, hu] at hh, ?_, by simpa using hexp _⟩
    simp only [ne_eq, Option.some.injEq, List.drop_eq_nil_iff]
    omega

theorem layout_value (s : ℕ) (e : ℤ) : (layout s e).value = s * 10 ^ e := by
  have hpos := length_digitsOf_pos s
  unfold layout
  dsimp only
  split_ifs with h₁ h₂ h₃ h₄
  · obtain ⟨k, rfl⟩ := Int.eq_ofNat_of_zero_le h₁.1
    simp [Numeral.value, Numeral.fractionDigits, Numeral.exponentValue, digitsValue_append]
    ring
  · simp only [Numeral.value, Numeral.fractionDigits, Numeral.exponentValue, Option.getD_some,
      List.take_append_drop, digitsValue_digitsOf, List.length_drop, Option.map_none,
      Option.getD_none]
    congr 2
    omega
  · have hzero : digitsValue [0x30] = 0 := rfl
    simp only [Numeral.value, Numeral.fractionDigits, Numeral.exponentValue, Option.getD_some,
      digitsValue_append, digitsValue_zeros, digitsValue_digitsOf, List.length_append,
      length_zeros, Option.map_none, Option.getD_none, hzero, mul_zero, zero_add]
    congr 2
    omega
  all_goals
    have hexp : (Exponent.mk (decide ((digitsOf s).length + e - 1 < 0))
        (digitsOf ((digitsOf s).length + e - 1).natAbs)).value = (digitsOf s).length + e - 1 := by
      simp only [Exponent.value, digitsValue_digitsOf, decide_eq_true_eq]
      split_ifs <;> omega
    simp only [Numeral.value, Numeral.fractionDigits, Numeral.exponentValue, Option.getD_some,
      Option.map_some, hexp, Option.getD_none, List.append_nil, List.length_nil,
      List.take_append_drop, List.length_drop, digitsValue_digitsOf]
  · rw [List.take_of_length_le (by omega), digitsValue_digitsOf]
    congr 2
    omega
  · congr 2
    omega

/-! ## The shortest decimal -/

theorem decimalOf_spec {k : ℕ} (hx : 0 < x) (h : decimalOf x (k + 1) = some (s, e)) :
    rounded (s * 10 ^ e) = x := by
  unfold decimalOf at h
  dsimp only at h
  generalize he' : Int.log 10 x + 1 - ((k + 1 : ℕ) : ℤ) = e' at h
  obtain ⟨d, hd, hse⟩ := Option.map_eq_some_iff.1 h
  have hr : rounded (d * 10 ^ e') = x := by simpa using List.find?_some hd
  -- both candidates lie between the floor and the ceiling
  have hd0 : 0 ≤ d := by
    have hfloor : 0 ≤ ⌊x / 10 ^ e'⌋ := Int.floor_nonneg.2 (by positivity)
    have hb := halfEven_bounds (x / 10 ^ e')
    have := List.mem_of_find?_eq_some hd
    simp only [List.mem_cons, List.not_mem_nil, or_false] at this
    omega
  split_ifs at hse with hten
  · obtain ⟨rfl, rfl⟩ := Prod.mk.inj hse
    rw [← hr, hten, zpow_add₀ (by norm_num)]
    congr 1
    push_cast
    rw [pow_succ]
    ring
  · obtain ⟨rfl, rfl⟩ := Prod.mk.inj hse
    rw [← hr]
    congr 2
    exact_mod_cast Int.toNat_of_nonneg hd0

theorem shortest_spec (hx : 0 < x) (h : shortest x = some (s, e)) :
    rounded (s * 10 ^ e) = x := by
  obtain ⟨k, -, hk⟩ := List.exists_of_findSome?_eq_some h
  exact decimalOf_spec hx hk

/-- Enough decimals write a double out exactly. -/
theorem exists_exact (h : IsDouble x) {j : ℕ} (hj : 1074 ≤ j) : ∃ n : ℤ, x * 10 ^ j = n := by
  obtain ⟨m, e, -, he, -, rfl⟩ := h
  obtain ⟨k, hk⟩ := Int.le.dest (show 0 ≤ e + j by omega)
  refine ⟨m * 2 ^ k * 5 ^ j, ?_⟩
  have h2 : (2 : ℚ) ^ e * 2 ^ j = 2 ^ k := by
    rw [← zpow_natCast, ← zpow_natCast, ← zpow_add₀ (by norm_num), ← hk, zero_add]
  rw [show (10 : ℚ) = 2 * 5 by norm_num, mul_pow]
  push_cast
  linear_combination (m : ℚ) * 5 ^ j * h2

theorem decimalOf_isSome (h : IsDouble x) {k : ℕ} (hk : Int.log 10 x + 1075 ≤ k) :
    (decimalOf x k).isSome := by
  obtain ⟨j, hj⟩ := Int.le.dest (show (1074 : ℤ) ≤ k - (Int.log 10 x + 1) by omega)
  obtain ⟨n, hn⟩ := exists_exact h (j := 1074 + j) (by omega)
  have hpow : x / 10 ^ (Int.log 10 x + 1 - k) = n := by
    rw [← hn, div_eq_mul_inv, ← zpow_neg, ← zpow_natCast]
    congr 2
    omega
  have hback : (n : ℚ) * 10 ^ (Int.log 10 x + 1 - k) = x := by
    rw [← hpow]
    exact div_mul_cancel₀ _ (by positivity)
  unfold decimalOf
  simp only [hpow, halfEven_intCast, Option.isSome_map, List.find?_isSome]
  exact ⟨n, List.mem_cons_self, by simp [hback, rounded_of_isDouble h]⟩

theorem log_lt_of_isDouble (h : IsDouble x) (hx : 0 < x) : Int.log 10 x < 400 := by
  rw [← Int.lt_zpow_iff_log_lt (by norm_num) hx]
  calc x = |x| := (abs_of_pos hx).symm
    _ < 2 ^ 1024 := h.abs_lt
    _ ≤ (2 ^ 3) ^ 400 := by rw [← pow_mul]; exact pow_le_pow_right₀ (by norm_num) (by norm_num)
    _ ≤ 10 ^ 400 := by gcongr; norm_num
    _ = ((10 : ℕ) : ℚ) ^ (400 : ℤ) := by rw [zpow_ofNat, Nat.cast_ofNat]

theorem shortest_isSome (h : IsDouble x) (hx : 0 < x) : (shortest x).isSome := by
  have hlog := log_lt_of_isDouble h hx
  rw [shortest, List.findSome?_isSome_iff]
  refine ⟨1490, List.mem_range.2 (by norm_num), decimalOf_isSome h (by push_cast; omega)⟩

/-- The text of a finite number reads back as that number. -/
theorem unsignedText_spec (h : IsDouble x) (hx : 0 ≤ x) :
    ∃ n : Numeral, unsignedText x = n.text ∧ n.Digits ∧ n.IsJson ∧ rounded n.value = x := by
  rcases hx.eq_or_lt with rfl | hx
  · refine ⟨layout 0 0, by simp [unsignedText], layout_digits _ _, layout_isJson (.inr rfl), ?_⟩
    rw [layout_value]
    simp [rounded, significand, halfEven]
  obtain ⟨⟨s, e⟩, hs⟩ := Option.isSome_iff_exists.1 (shortest_isSome h hx)
  have hr := shortest_spec hx hs
  have hpos : 0 < s := by
    rcases Nat.eq_zero_or_pos s with rfl | hpos
    · simp [rounded, significand, halfEven] at hr
      exact absurd hr hx.ne
    · exact hpos
  refine ⟨layout s e, by simp [unsignedText, hx.ne', hs], layout_digits _ _,
    layout_isJson (.inl hpos), ?_⟩
  rw [layout_value, hr]

/-! ## Reading a number back -/

theorem unsignedJsonNumber_text {n : Numeral} (hd : n.Digits) (hj : n.IsJson) :
    unsignedJsonNumber n.text = some (.ofRat n.value) := by
  simp [unsignedJsonNumber, Numeral.scan_text hd, hj]

theorem head_text_isDigit {n : Numeral} (hd : n.Digits) (hj : n.IsJson) :
    ∃ u t, n.text = u :: t ∧ isDigit u := by
  obtain ⟨u, t, ht⟩ := List.exists_cons_of_ne_nil hj.whole
  exact ⟨u, _, by rw [Numeral.text, ht]; rfl, hd.whole u (ht ▸ List.mem_cons_self)⟩

theorem jsonNumber_text (h : IsDouble x) :
    jsonNumber (Number.text (.finite x h)) = some (.finite x h) := by
  unfold Number.text
  dsimp only
  split_ifs with hx
  · obtain ⟨n, hn, hd, hj, hr⟩ := unsignedText_spec h.neg (by linarith)
    have hval := Number.ofRat_of_rounded h.neg hr
    simp [jsonNumber, hn, unsignedJsonNumber_text hd hj, hval, Number.neg]
  · obtain ⟨n, hn, hd, hj, hr⟩ := unsignedText_spec h (by linarith)
    have hval := Number.ofRat_of_rounded h hr
    obtain ⟨u, t, ht, hu⟩ := head_text_isDigit hd hj
    have hne : u ≠ 0x2D := by rintro rfl; simp [isDigit] at hu
    rw [hn, ← hval, ← unsignedJsonNumber_text hd hj, ht]
    simp [jsonNumber, hne]

example : Number.text (.ofRat (1 / 10)) = units "0.1" := by decide +kernel

end AssureCode.Js
