import Mathlib.Algebra.Order.Field.Rat
import Mathlib.Tactic.NormNum
import Mathlib.Tactic.Ring
import AssureCode.Js.Text

/-! # Decimal numerals

The shared shape of number literals: digits, a point with more digits, an
exponent. `scan` reads a whole text as a numeral and inverts `Numeral.text`;
each grammar then restricts the parts on its own.
-/

namespace AssureCode.Js

def isDigit (u : ℕ) : Bool := 0x30 ≤ u && u ≤ 0x39

def digitsValue (t : Text) : ℕ := t.foldl (fun n u => 10 * n + (u - 0x30)) 0

/-- The decimal digits of a natural number. -/
def digitsOf (n : ℕ) : Text := (Nat.toDigits 10 n).map Char.toNat

def zeros (n : ℕ) : Text := List.replicate n 0x30

structure Exponent where
  negative : Bool
  digits : Text
  deriving DecidableEq

structure Numeral where
  whole : Text
  fraction : Option Text
  exponent : Option Exponent
  deriving DecidableEq

def Exponent.text (e : Exponent) : Text :=
  0x65 :: (if e.negative then 0x2D else 0x2B) :: e.digits

def Exponent.value (e : Exponent) : ℤ :=
  if e.negative then -(digitsValue e.digits : ℤ) else digitsValue e.digits

namespace Numeral

def fractionDigits (n : Numeral) : Text := n.fraction.getD []

def exponentValue (n : Numeral) : ℤ := (n.exponent.map Exponent.value).getD 0

def value (n : Numeral) : ℚ :=
  digitsValue (n.whole ++ n.fractionDigits) * 10 ^ (n.exponentValue - n.fractionDigits.length)

def text (n : Numeral) : Text :=
  n.whole ++ (n.fraction.map (0x2E :: ·)).getD [] ++ (n.exponent.map Exponent.text).getD []

/-- The digits after a decimal point, if there is one, and what follows. -/
def scanFraction : Text → Option Text × Text
  | 0x2E :: t => (some (t.takeWhile isDigit), t.dropWhile isDigit)
  | t => (none, t)

/-- The digits of an exponent after its optional sign. -/
def scanSign : Text → Exponent
  | 0x2D :: t => ⟨true, t⟩
  | 0x2B :: t => ⟨false, t⟩
  | t => ⟨false, t⟩

/-- The rest of a numeral is an exponent or nothing. -/
def scanExponent : Text → Option (Option Exponent)
  | [] => some none
  | u :: t =>
    if (u == 0x65 || u == 0x45) && (scanSign t).digits.all isDigit then some (some (scanSign t))
    else none

def scan (t : Text) : Option Numeral :=
  let (fraction, rest) := scanFraction (t.dropWhile isDigit)
  (scanExponent rest).map fun exponent => ⟨t.takeWhile isDigit, fraction, exponent⟩

/-- All parts are made of digits. -/
structure Digits (n : Numeral) : Prop where
  whole : ∀ u ∈ n.whole, isDigit u
  fraction : ∀ f ∈ n.fraction, ∀ u ∈ f, isDigit u
  exponent : ∀ e ∈ n.exponent, ∀ u ∈ e.digits, isDigit u

end Numeral

/-! ## Digits -/

variable {s t : Text} {n : ℕ}

theorem isDigit_of_mem_digitsOf {u : ℕ} (h : u ∈ digitsOf n) : isDigit u := by
  obtain ⟨c, hc, rfl⟩ := List.mem_map.1 h
  have := Nat.isDigit_of_mem_toDigits (by norm_num) (by norm_num) hc
  simpa [Char.isDigit, isDigit, UInt32.le_iff_toNat_le] using this

theorem isDigit_of_mem_zeros {u : ℕ} (h : u ∈ zeros n) : isDigit u := by
  rw [zeros, List.mem_replicate] at h
  simp [h.2, isDigit]

theorem digitsOf_ne_nil (n : ℕ) : digitsOf n ≠ [] := by simp [digitsOf]

theorem digitsValue_foldl (t : Text) (a : ℕ) :
    t.foldl (fun n u => 10 * n + (u - 0x30)) a = 10 ^ t.length * a + digitsValue t := by
  induction t generalizing a with
  | nil => simp [digitsValue]
  | cons u t ih =>
    rw [digitsValue, List.foldl_cons, List.foldl_cons, ih, ih (10 * 0 + (u - 0x30)),
      List.length_cons, pow_succ]
    ring

theorem digitsValue_append (s t : Text) :
    digitsValue (s ++ t) = 10 ^ t.length * digitsValue s + digitsValue t := by
  rw [digitsValue, List.foldl_append, digitsValue_foldl]
  rfl

theorem digitsValue_lt (h : ∀ u ∈ t, isDigit u) : digitsValue t < 10 ^ t.length := by
  induction t with
  | nil => simp [digitsValue]
  | cons u t ih =>
    have hu := h u List.mem_cons_self
    have ht := ih fun v hv => h v (List.mem_cons_of_mem _ hv)
    simp only [isDigit, Bool.and_eq_true, decide_eq_true_eq] at hu
    rw [← List.singleton_append, digitsValue_append, List.length_append, List.length_singleton,
      pow_add]
    have : digitsValue [u] ≤ 9 := by
      simp only [digitsValue, List.foldl_cons, List.foldl_nil]
      omega
    have := Nat.mul_le_mul_left (10 ^ t.length) this
    omega

@[simp] theorem digitsValue_digitsOf (n : ℕ) : digitsValue (digitsOf n) = n := by
  rw [digitsValue, digitsOf, List.foldl_map]
  exact Nat.ofDigitChars_ten_toDigits

@[simp] theorem digitsValue_zeros (n : ℕ) : digitsValue (zeros n) = 0 := by
  induction n with
  | zero => rfl
  | succ n ih =>
    rw [zeros, List.replicate_succ', ← zeros, digitsValue_append, ih]
    rfl

@[simp] theorem length_zeros (n : ℕ) : (zeros n).length = n := List.length_replicate

/-- The first digit of a positive number is not zero. -/
theorem head_digitsOf_ne_zero {u : ℕ} (hn : 0 < n) (h : digitsOf n = u :: t) : u ≠ 0x30 := by
  rintro rfl
  have hval : digitsValue t = n := by
    rw [← digitsValue_digitsOf n, h]
    rfl
  have hlen : (Nat.toDigits 10 n).length = t.length + 1 := by
    have := congrArg List.length h
    simpa [digitsOf] using this
  rcases Nat.eq_zero_or_pos t.length with ht | ht
  · rw [List.length_eq_zero_iff.1 ht] at hval
    simp only [digitsValue, List.foldl_nil] at hval
    omega
  · have hlt : n < 10 ^ t.length := hval ▸ digitsValue_lt fun v hv =>
      isDigit_of_mem_digitsOf (n := n) (h ▸ List.mem_cons_of_mem _ hv)
    have := (Nat.length_toDigits_le_iff (by norm_num) ht).2 hlt
    omega

/-! ## Reading back -/

namespace Numeral

theorem scanSign_sign (negative : Bool) (t : Text) :
    scanSign ((if negative then 0x2D else 0x2B) :: t) = ⟨negative, t⟩ := by
  cases negative <;> rfl

/-- No digit and no point starts the exponent part. -/
theorem exponent_text_stops (exponent : Option Exponent) :
    let rest := (exponent.map Exponent.text).getD []
    rest.takeWhile isDigit = [] ∧ rest.dropWhile isDigit = rest ∧
      scanFraction rest = (none, rest) := by
  cases exponent <;> simp [Exponent.text, isDigit, scanFraction]

theorem scanExponent_text {exponent : Option Exponent}
    (h : ∀ e ∈ exponent, ∀ u ∈ e.digits, isDigit u) :
    scanExponent ((exponent.map Exponent.text).getD []) = some exponent := by
  cases exponent with
  | none => rfl
  | some e =>
    have hd : e.digits.all isDigit := List.all_eq_true.2 (h e rfl)
    simp only [Option.map_some, Option.getD_some, Exponent.text, scanExponent, scanSign_sign]
    simp [hd]

theorem scan_text {n : Numeral} (h : n.Digits) : scan n.text = some n := by
  obtain ⟨whole, fraction, exponent⟩ := n
  obtain ⟨htake, hdrop, hnone⟩ := exponent_text_stops exponent
  have he := scanExponent_text h.exponent
  unfold scan text
  generalize (exponent.map Exponent.text).getD [] = rest at *
  rw [List.append_assoc, List.dropWhile_append_of_pos h.whole,
    List.takeWhile_append_of_pos h.whole]
  cases fraction with
  | none => simp [htake, hdrop, hnone, he]
  | some f =>
    have hf := h.fraction f rfl
    simp [scanFraction, List.dropWhile_append_of_pos hf, List.takeWhile_append_of_pos hf,
      isDigit, htake, hdrop, he]

end Numeral

end AssureCode.Js
