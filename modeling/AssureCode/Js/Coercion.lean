import AssureCode.Js.Stringify

/-! # Coercions of JSON values

`ToString`, `ToNumber` and `+` on values that came out of `JSON.parse`. The only
own properties such a value has are data, so an object coerces through the inherited
methods unless it carries a member of its own named `toString`, which is not callable:
that is a TypeError.
-/

namespace AssureCode.Js

/-- The digits of a `0x`, `0o` or `0b` literal. -/
def radixNumber (base : ℕ) (digits : Text) : Number :=
  if digits ≠ [] ∧ digits.all fun u => (Json.hexValue u).any (· < base) then
    .ofRat (digits.foldl (fun n u => base * n + (Json.hexValue u).getD 0) 0 : ℕ)
  else .nan

def unsignedDecimal (t : Text) : Number :=
  if t = units "Infinity" then .infinity false
  else match Numeral.scan t with
    | none => .nan
    | some n =>
      if n.whole ++ n.fractionDigits ≠ [] ∧ ∀ e ∈ n.exponent, e.digits ≠ [] then .ofRat n.value
      else .nan

/-- `StringToNumber` -/
def stringToNumber (t : Text) : Number :=
  match trim t with
  | [] => .ofRat 0
  | 0x2B :: t => unsignedDecimal t
  | 0x2D :: t => (unsignedDecimal t).neg
  | u :: v :: t =>
    if u = 0x30 ∧ (v = 0x78 ∨ v = 0x58) then radixNumber 16 t
    else if u = 0x30 ∧ (v = 0x6F ∨ v = 0x4F) then radixNumber 8 t
    else if u = 0x30 ∧ (v = 0x62 ∨ v = 0x42) then radixNumber 2 t
    else unsignedDecimal (u :: v :: t)
  | t => unsignedDecimal t

/-- Digits and points have nothing to trim, no sign and no radix. -/
theorem stringToNumber_decimal {t : Text} (h : ∀ u ∈ t, isDigit u = true ∨ u = 0x2E)
    (hne : t ≠ []) : stringToNumber t = unsignedDecimal t := by
  have hplain : ∀ u ∈ t, 0x2E ≤ u ∧ u ≤ 0x39 := by
    intro u hu
    rcases h u hu with hdigit | rfl
    · simp only [isDigit, Bool.and_eq_true, decide_eq_true_eq] at hdigit
      omega
    · omega
  have hspace : ∀ u ∈ t, isWhiteSpace u = false := by
    intro u hu
    have hbounds := hplain u hu
    simp only [isWhiteSpace, Bool.or_eq_false_iff, Bool.and_eq_false_iff, decide_eq_false_iff_not,
      beq_eq_false_iff_ne]
    omega
  have htrim : trim t = t := by
    obtain ⟨u, hu⟩ := List.exists_cons_of_ne_nil hne
    obtain ⟨t', rfl⟩ := hu
    have hstart : trimStart (u :: t') = u :: t' :=
      List.dropWhile_cons_of_neg (by rw [hspace u List.mem_cons_self]; exact Bool.false_ne_true)
    rw [trim, hstart]
    rcases List.eq_nil_or_concat' (u :: t') with hnil | ⟨s, v, hs⟩
    · cases hnil
    · rw [hs]
      exact trimEnd_concat (hspace v (by rw [hs]; simp))
  rw [stringToNumber, htrim]
  split
  · exact absurd rfl hne
  · exact absurd (hplain _ List.mem_cons_self) (by decide)
  · exact absurd (hplain _ List.mem_cons_self) (by decide)
  · next u v t _ _ =>
    have hv := hplain v (by simp)
    rw [if_neg (by omega), if_neg (by omega), if_neg (by omega)]
  · rfl

/-- What is read back is the number closest to the numeral. -/
theorem stringToNumber_numeral {m : Numeral} (hd : m.Digits) (hexp : m.exponent = none)
    (hw : m.whole ≠ []) : stringToNumber m.text = .ofRat m.value := by
  have hchars : ∀ u ∈ m.text, isDigit u = true ∨ u = 0x2E := by
    intro u hu
    rw [Numeral.text, hexp, Option.map_none, Option.getD_none, List.append_nil,
      List.mem_append] at hu
    rcases hu with hu | hu
    · exact .inl (hd.whole u hu)
    · cases hf : m.fraction with
      | none => rw [hf] at hu; cases hu
      | some f =>
        rw [hf, Option.map_some, Option.getD_some] at hu
        rcases List.mem_cons.mp hu with rfl | hu
        · exact .inr rfl
        · exact .inl (hd.fraction f hf u hu)
  have hne : m.text ≠ [] := by simp [Numeral.text, hw]
  have hinfinity : m.text ≠ units "Infinity" := by
    intro heq
    rcases hchars 0x49 (by rw [heq]; decide) with h | h <;> cases h
  rw [stringToNumber_decimal hchars hne, unsignedDecimal, if_neg hinfinity,
    Numeral.scan_text hd]
  refine if_pos ⟨by simp [hw], ?_⟩
  rw [hexp]
  simp

theorem stringToNumber_digitsOf (n : ℕ) : stringToNumber (digitsOf n) = .ofRat n := by
  have hd : Numeral.Digits ⟨digitsOf n, none, none⟩ :=
    ⟨fun _ => isDigit_of_mem_digitsOf, by simp, by simp⟩
  have h := stringToNumber_numeral hd rfl (digitsOf_ne_nil n)
  simpa [Numeral.text, Numeral.value, Numeral.fractionDigits, Numeral.exponentValue] using h

namespace Json

def isNull : Json → Bool
  | .null => true
  | _ => false

mutual

/-- `ToString`, with `none` for a TypeError. -/
def toText : Json → Option Text
  | .null => some (units "null")
  | .bool value => some (if value then units "true" else units "false")
  | .number value => some value.text
  | .string value => some value
  | .array items => (itemTexts items).map (join [0x2C])
  | .object members =>
    if units "toString" ∈ members.map Prod.fst then none else some (units "[object Object]")

/-- The texts that `join` puts together; `null` leaves its place empty. -/
def itemTexts : List Json → Option (List Text)
  | [] => some []
  | v :: vs =>
    (if v.isNull then some [] else toText v).bind fun t => (itemTexts vs).map (t :: ·)

end

/-- `Number(v)` -/
def toNumber : Json → Option Number
  | .null => some (.ofRat 0)
  | .bool value => some (.ofRat (if value then 1 else 0))
  | .number value => some value
  | v => v.toText.map stringToNumber

/-- `n + v`: a string on the right makes it a concatenation. -/
def plus (n : Number) : Json → Option Json
  | .null => some (.number (n.add (.ofRat 0)))
  | .bool value => some (.number (n.add (.ofRat (if value then 1 else 0))))
  | .number value => some (.number (n.add value))
  | v => v.toText.map fun t => .string (n.text ++ t)

/-- Whether `v ? … : …` takes the first branch. -/
def truthy : Json → Bool
  | .null => false
  | .bool value => value
  | .number value => value ≠ .nan ∧ value ≠ .ofRat 0
  | .string value => value ≠ []
  | .array _ | .object _ => true

/-- `v ?? …` goes on to the right of `??` when this is `none`. -/
def nonNullish : Option Json → Option Json
  | some .null => none
  | v => v

end Json

end AssureCode.Js
