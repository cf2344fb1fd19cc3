import AssureCode.Js.Text

/-! # Strings as code points

A Python string is its sequence of code points, and a JavaScript string its sequence of code
units. A JSON document carries the one into the other.
-/

namespace AssureCode.Python

open Js

/-- The code points of a literal of the source. -/
def text (s : String) : Text := s.toList.map (·.toNat)

/-- The string that a JSON document with these code units denotes in Python. -/
def decode : Text → Text
  | h :: l :: rest =>
    if 0xD800 ≤ h ∧ h < 0xDC00 ∧ 0xDC00 ≤ l ∧ l < 0xE000 then
      (0x10000 + (h - 0xD800) * 0x400 + (l - 0xDC00)) :: decode rest
    else h :: decode (l :: rest)
  | rest => rest

/-- The code units of a code point. -/
def unitsOf (c : ℕ) : Text :=
  if c < 0x10000 then [c] else [0xD800 + (c - 0x10000) / 0x400, 0xDC00 + (c - 0x10000) % 0x400]

/-- The JavaScript string that a JSON document with these code points denotes. -/
def encode (t : Text) : Text := t.flatMap unitsOf

def isSurrogate (c : ℕ) : Bool := 0xD800 ≤ c && c < 0xE000

def isSpace (c : ℕ) : Bool :=
  (9 ≤ c && c ≤ 13) || (0x1C ≤ c && c ≤ 0x20) || c == 0x85 || c == 0xA0 || c == 0x1680 ||
    (0x2000 ≤ c && c ≤ 0x200A) || c == 0x2028 || c == 0x2029 || c == 0x202F || c == 0x205F ||
    c == 0x3000

/-- `t.strip()` -/
def strip (t : Text) : Text := (t.dropWhile isSpace).rdropWhile isSpace

/-- An exception that answers the request, with its detail. -/
structure HttpException (τ : Type) where
  statusCode : ℕ
  detail : τ
  headers : List (String × String) := []
  deriving DecidableEq, Repr

/-- A text below the surrogates is encoded as it stands, and nothing else is encoded as it. -/
theorem encode_eq_iff {s t : Text} (h : ∀ u ∈ s, u < 0xD800) : encode t = s ↔ t = s := by
  induction s generalizing t with
  | nil =>
    cases t with
    | nil => simp [encode]
    | cons c t =>
      rw [encode, List.flatMap_cons, unitsOf]
      split <;> simp
  | cons u s ih =>
    obtain ⟨hu, hs⟩ := List.forall_mem_cons.mp h
    cases t with
    | nil => simp [encode]
    | cons c t =>
      rw [encode, List.flatMap_cons, unitsOf, ← encode]
      split
      · simp [ih hs]
      · have hne : 0xD800 + (c - 0x10000) / 0x400 ≠ u := by omega
        have hc : c ≠ u := by omega
        simp [hne, hc]

/-! ## Splitting what is encoded -/

theorem encode_cons (c : ℕ) (t : Text) : encode (c :: t) = unitsOf c ++ encode t :=
  List.flatMap_cons

theorem encode_append (s t : Text) : encode (s ++ t) = encode s ++ encode t :=
  List.flatMap_append

/-- Below the surrogates a code unit is a code point. -/
theorem exists_of_encode_eq_append_cons {t x y : Text} {c : ℕ} (hc : c < 0xD800)
    (h : encode t = x ++ c :: y) : ∃ s u, t = s ++ c :: u ∧ encode s = x ∧ encode u = y := by
  induction t generalizing x with
  | nil => simp [encode] at h
  | cons d t ih =>
    rw [encode_cons, unitsOf] at h
    split at h
    · cases x with
      | nil =>
        obtain ⟨rfl, rfl⟩ := List.cons.inj h
        exact ⟨[], t, rfl, rfl, rfl⟩
      | cons v x =>
        obtain ⟨rfl, htail⟩ := List.cons.inj h
        obtain ⟨s, u, rfl, rfl, rfl⟩ := ih htail
        refine ⟨d :: s, u, rfl, ?_, rfl⟩
        rw [encode_cons, unitsOf, if_pos ‹_›]
        rfl
    · rcases x with _ | ⟨v, _ | ⟨v', x⟩⟩
      · have hlead := (List.cons.inj h).1
        omega
      · have htrail := (List.cons.inj (List.cons.inj h).2).1
        omega
      · obtain ⟨rfl, hpair⟩ := List.cons.inj h
        obtain ⟨rfl, hrest⟩ := List.cons.inj hpair
        obtain ⟨s, u, rfl, rfl, rfl⟩ := ih hrest
        refine ⟨d :: s, u, rfl, ?_, rfl⟩
        rw [encode_cons, unitsOf, if_neg ‹_›]
        rfl

theorem exists_of_encode_eq_append {t w y : Text} (hw : ∀ u ∈ w, u < 0xD800)
    (h : encode t = w ++ y) : ∃ u, t = w ++ u ∧ encode u = y := by
  induction w generalizing t with
  | nil => exact ⟨t, rfl, h⟩
  | cons c w ih =>
    obtain ⟨hc, hw⟩ := List.forall_mem_cons.mp hw
    obtain ⟨s, u, rfl, hs, hu⟩ := exists_of_encode_eq_append_cons (x := []) hc h
    obtain ⟨v, rfl, hv⟩ := ih hw hu
    cases s with
    | nil => exact ⟨v, rfl, hv⟩
    | cons d s =>
      rw [encode_cons, unitsOf] at hs
      split at hs <;> cases hs

end AssureCode.Python
