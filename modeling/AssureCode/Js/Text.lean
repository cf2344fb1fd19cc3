import Mathlib.Data.List.DropRight
import AssureCode.Js.WhiteSpace

/-! # Strings as code units

A JavaScript string is its sequence of UTF-16 code units. `units` gives those of
a literal of the source.
-/

namespace AssureCode.Js

abbrev Text := List ℕ

/-- A character outside the basic plane is a surrogate pair. -/
def codeUnits (c : Char) : Text :=
  if c.toNat < 0x10000 then [c.toNat]
  else [0xD800 + (c.toNat - 0x10000) / 0x400, 0xDC00 + (c.toNat - 0x10000) % 0x400]

def units (s : String) : Text := s.toList.flatMap codeUnits

/-- The code unit of `\n`. -/
abbrev newline : ℕ := 10

/-- `t.split('\n')` -/
def lines (t : Text) : List Text := t.splitOn newline

/-- The lines of `t` that a newline has ended. -/
def completed (t : Text) : List Text := (lines t).dropLast

/-- What stands after the last newline of `t`. -/
def unfinished (t : Text) : Text := (lines t).getLastD []

def trimStart (t : Text) : Text := t.dropWhile isWhiteSpace

/-- `t.trim()` -/
def trim (t : Text) : Text := (trimStart t).rdropWhile isWhiteSpace

def Blank (t : Text) : Prop := ∀ u ∈ t, isWhiteSpace u

instance (t : Text) : Decidable (Blank t) := inferInstanceAs (Decidable (∀ u ∈ t, _))

variable {s t : Text}

theorem lines_append_newline (s t : Text) : lines (s ++ newline :: t) = lines s ++ lines t :=
  List.splitOn_append_cons_self s t

theorem lines_eq_singleton (h : newline ∉ t) : lines t = [t] :=
  List.splitOn_eq_singleton h

/-- Text without a newline continues the unfinished line. -/
theorem lines_append (s : Text) (h : newline ∉ t) :
    lines (s ++ t) = completed s ++ [unfinished s ++ t] := by
  by_cases hs : newline ∈ s
  · -- cut after the last newline
    obtain ⟨b, a, hrev, hb⟩ := List.eq_append_cons_of_mem (List.mem_reverse.2 hs)
    obtain rfl : s = a.reverse ++ newline :: b.reverse := by
      have := congrArg List.reverse hrev
      simpa using this
    have hb' : newline ∉ b.reverse := by simpa using hb
    have hbt : newline ∉ b.reverse ++ t := by simp [hb, h]
    rw [List.append_assoc, List.cons_append, lines_append_newline, lines_eq_singleton hbt,
      completed, unfinished, lines_append_newline, lines_eq_singleton hb']
    simp
  · have hst : newline ∉ s ++ t := by simp [hs, h]
    rw [lines_eq_singleton hst, completed, unfinished, lines_eq_singleton hs]
    rfl

theorem trimStart_append_of_blank (h : Blank s) : trimStart (s ++ t) = trimStart t :=
  List.dropWhile_append_of_pos h

theorem trimStart_append_of_not_blank (h : ¬ Blank s) : trimStart (s ++ t) = trimStart s ++ t := by
  unfold Blank at h
  simp only [trimStart, List.dropWhile_append]
  rw [if_neg]
  simpa [List.isEmpty_iff, List.dropWhile_eq_nil_iff] using h

theorem trimStart_ne_nil (h : ¬ Blank s) : trimStart s ≠ [] := by
  unfold Blank at h
  simpa [trimStart, List.dropWhile_eq_nil_iff] using h

theorem trimEnd_concat {u : ℕ} (h : isWhiteSpace u = false) :
    (t ++ [u]).rdropWhile isWhiteSpace = t ++ [u] :=
  List.rdropWhile_concat_neg _ _ _ (by simp [h])

/-! ## Occurrences -/

variable {w : Text} {c : ℕ}

theorem prefix_append_cons (hc : c ∉ w) (h : w <+: s ++ c :: t) : w <+: s := by
  induction s generalizing w with
  | nil =>
    rcases List.prefix_cons_iff.mp h with rfl | ⟨v, rfl, -⟩
    · exact List.nil_prefix
    · exact absurd List.mem_cons_self hc
  | cons d s ih =>
    rcases List.prefix_cons_iff.mp h with rfl | ⟨v, rfl, hv⟩
    · exact List.nil_prefix
    · exact List.cons_prefix_cons.mpr ⟨rfl, ih (fun h => hc (List.mem_cons_of_mem _ h)) hv⟩

theorem infix_append_cons (hc : c ∉ w) (h : w <:+: s ++ c :: t) : w <:+: s ∨ w <:+: t := by
  induction s with
  | nil =>
    rcases List.infix_cons_iff.mp h with h | h
    · exact .inl (prefix_append_cons (s := []) hc h).isInfix
    · exact .inr h
  | cons d s ih =>
    rcases List.infix_cons_iff.mp h with h | h
    · exact .inl (prefix_append_cons hc h).isInfix
    · exact (ih h).imp_left fun h => List.infix_cons_iff.mpr (.inr h)

/-! ## Both ends -/

/-- No character of the class stands at either end. -/
structure Bare (p : ℕ → Bool) (t : Text) : Prop where
  head : ∀ u ∈ t.head?, p u = false
  last : ∀ u ∈ t.getLast?, p u = false

variable {p : ℕ → Bool}

theorem Bare.dropWhile_rdropWhile (h : Bare p t) : (t.dropWhile p).rdropWhile p = t := by
  have hstart : t.dropWhile p = t := by
    cases t with
    | nil => rfl
    | cons u t => exact List.dropWhile_cons_of_neg (by rw [h.head u rfl]; exact Bool.false_ne_true)
  rw [hstart]
  rcases List.eq_nil_or_concat' t with rfl | ⟨s, v, rfl⟩
  · rfl
  · exact List.rdropWhile_concat_neg _ _ _ (by simp [h.last v (by simp)])

theorem bare_dropWhile_rdropWhile (p : ℕ → Bool) (t : Text) :
    Bare p ((t.dropWhile p).rdropWhile p) := by
  constructor
  · intro u hu
    have hprefix : (t.dropWhile p).rdropWhile p <+: t.dropWhile p := List.rdropWhile_prefix p _
    have hhead : u ∈ (t.dropWhile p).head? := by
      obtain ⟨r, hr⟩ := hprefix
      rw [← hr, List.head?_append, hu]
      rfl
    have hnot := List.head?_dropWhile_not p t
    rw [show (t.dropWhile p).head? = some u from hhead] at hnot
    exact hnot
  · intro u hu
    obtain ⟨hne, rfl⟩ := List.mem_getLast?_eq_getLast hu
    exact Bool.not_eq_true _ ▸ List.rdropWhile_last_not p (t.dropWhile p) hne

end AssureCode.Js
