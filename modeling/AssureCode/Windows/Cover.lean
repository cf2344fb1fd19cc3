import Mathlib.Algebra.Order.Ring.Nat
import Mathlib.Data.List.Basic
import Mathlib.Tactic.Ring

/-! # Windows over a list

A list is read through windows of one width whose starts are a stride apart. Where the stride is
at most the width, the parts that no window before showed are the list again.
-/

namespace AssureCode.Windows

variable {α : Type*}

/-- Where the windows over a list of this length start. -/
def starts (length stride : ℕ) : List ℕ := List.range' 0 ((length + stride - 1) / stride) stride

def slice (l : List α) (width i : ℕ) : List α := (l.drop i).take width

/-- The windows over a list. -/
def slices (l : List α) (width stride : ℕ) : List (List α) :=
  (starts l.length stride).map (slice l width)

/--
What windows show that none before them covered. They come with their starts; one that starts at
0 is the first one over another list.
-/
def uncovered : ℕ → List (ℕ × List α) → List α
  | _, [] => []
  | covered, (i, w) :: rest =>
    let before := if i = 0 then 0 else covered
    w.drop (before - i) ++ uncovered (max before (i + w.length)) rest

/-- No window ends before one that precedes it over the same list. -/
def Advances : ℕ → List (ℕ × List α) → Prop
  | _, [] => True
  | covered, (i, w) :: rest =>
    (if i = 0 then 0 else covered) ≤ i + w.length ∧ Advances (i + w.length) rest

/-- The first window is the first one over a list. -/
def FromZero (ps : List (ℕ × List α)) : Prop := ∀ p ∈ ps.head?, p.1 = 0

variable {l x w : List α} {ps rest : List (ℕ × List α)} {width stride i n covered : ℕ}

theorem uncovered_of_fromZero (h : FromZero ps) : uncovered covered ps = uncovered 0 ps := by
  cases ps with
  | nil => rfl
  | cons p ps =>
    have hp : p.1 = 0 := h p rfl
    simp [uncovered, hp]

theorem advances_of_fromZero (h : FromZero ps) : Advances covered ps ↔ Advances 0 ps := by
  cases ps with
  | nil => rfl
  | cons p ps =>
    have hp : p.1 = 0 := h p rfl
    simp [Advances, hp]

/-- What is put behind the last window is uncovered. -/
theorem uncovered_extend (h : Advances covered (ps ++ [(i, w)])) :
    uncovered covered (ps ++ [(i, w ++ x)]) = uncovered covered (ps ++ [(i, w)]) ++ x := by
  induction ps generalizing covered with
  | nil =>
    obtain ⟨hle, -⟩ := h
    simp only [List.nil_append, uncovered, List.append_nil]
    exact List.drop_append_of_le_length (by omega)
  | cons p ps ih =>
    obtain ⟨hle, hrest⟩ := h
    simp only [List.cons_append, uncovered, List.append_assoc]
    rw [max_eq_right hle, ih hrest]

theorem length_slice (l : List α) (width i : ℕ) :
    (slice l width i).length = min width (l.length - i) := by
  simp [slice]

theorem drop_slice_append (h : i ≤ covered) :
    (slice l width i).drop (covered - i) ++ l.drop (max covered (i + (slice l width i).length)) =
      l.drop covered := by
  have hslice : (slice l width i).drop (covered - i) =
      (l.drop covered).take (width - (covered - i)) := by
    rw [slice, List.drop_take, List.drop_drop, Nat.add_sub_cancel' h]
  have hrest : l.drop (max covered (i + (slice l width i).length)) =
      (l.drop covered).drop (width - (covered - i)) := by
    rw [List.drop_drop, length_slice]
    by_cases hend : i + width ≤ l.length
    · congr 1
      omega
    · rw [List.drop_eq_nil_of_le (by omega), List.drop_eq_nil_of_le (by omega)]
  rw [hslice, hrest, List.take_append_drop]

/-- The windows from a start on show what is not covered before. -/
theorem uncovered_range' (hpos : 0 < stride) (hle : stride ≤ width) (hrest : FromZero rest)
    (hend : l.length ≤ i + n * stride) (hlast : i + n * stride < l.length + stride)
    (hcovered : n ≠ 0 → i ≤ covered) (hdone : n = 0 → l.length ≤ covered) :
    uncovered covered (((List.range' i n stride).map fun i => (i, slice l width i)) ++ rest) =
      l.drop (if n ≠ 0 ∧ i = 0 then 0 else covered) ++ uncovered 0 rest := by
  induction n generalizing i covered with
  | zero => simp [List.drop_eq_nil_of_le (hdone rfl), uncovered_of_fromZero hrest]
  | succ n ih =>
    rw [Nat.succ_mul] at hend hlast
    have hlength := length_slice l width i
    have hbefore : i ≤ if i = 0 then 0 else covered := by
      split
      · omega
      · exact hcovered (Nat.succ_ne_zero n)
    simp only [List.range'_succ, List.map_cons, List.cons_append, uncovered]
    rw [ih (by omega) (by omega), ← List.append_assoc]
    · rw [if_neg (show ¬ (n ≠ 0 ∧ i + stride = 0) by omega), drop_slice_append hbefore]
      simp
    · intro hn
      have hmul : stride ≤ n * stride := Nat.le_mul_of_pos_left stride (Nat.pos_of_ne_zero hn)
      omega
    · rintro rfl
      omega

/-- The windows from a start on end one after the other. -/
theorem advances_range' (hpos : 0 < stride) (hrest : FromZero rest) (hadv : Advances 0 rest)
    (hlast : i + n * stride < l.length + stride)
    (hcovered : covered ≤ i + width ∧ covered ≤ l.length) :
    Advances covered (((List.range' i n stride).map fun i => (i, slice l width i)) ++ rest) := by
  induction n generalizing i covered with
  | zero => simpa [advances_of_fromZero hrest] using hadv
  | succ n ih =>
    rw [Nat.succ_mul] at hlast
    have hlength := length_slice l width i
    simp only [List.range'_succ, List.map_cons, List.cons_append, Advances]
    constructor
    · split <;> omega
    · apply ih <;> omega

/-! ## All the windows over a list -/

/-- The windows over a list with their starts, before those over other lists. -/
def windows (l : List α) (width stride : ℕ) : List (ℕ × List α) :=
  (starts l.length stride).map fun i => (i, slice l width i)

/-- How many windows there are. -/
theorem starts_eq (hpos : 0 < stride) (hl : l ≠ []) : ∃ n, n ≠ 0 ∧ l.length ≤ n * stride ∧
    n * stride < l.length + stride ∧ starts l.length stride = List.range' 0 n stride := by
  have hlength := List.length_pos_iff.mpr hl
  have hdiv := Nat.div_add_mod' (l.length + stride - 1) stride
  have hmod := Nat.mod_lt (l.length + stride - 1) hpos
  refine ⟨(l.length + stride - 1) / stride, ?_, by omega, by omega, rfl⟩
  intro hzero
  rw [hzero, Nat.zero_mul] at hdiv
  omega

theorem slices_ne_nil (hpos : 0 < stride) (hl : l ≠ []) : slices l width stride ≠ [] := by
  obtain ⟨n, hn, -, -, hstarts⟩ := starts_eq hpos hl
  simp [slices, hstarts, hn]

theorem slices_eq_concat (width : ℕ) (hpos : 0 < stride) (hl : l ≠ []) :
    ∃ init, slices l width stride =
      init ++ [slice l width ((l.length - 1) / stride * stride)] := by
  obtain ⟨n, hn, hend, hlast, hstarts⟩ := starts_eq hpos hl
  obtain ⟨m, rfl⟩ := Nat.exists_eq_succ_of_ne_zero hn
  have hlength := List.length_pos_iff.mpr hl
  rw [Nat.succ_mul] at hend hlast
  have hdiv : (l.length - 1) / stride = m := by
    apply Nat.div_eq_of_lt_le
    · omega
    · rw [Nat.succ_mul]
      omega
  rw [slices, hstarts, Nat.succ_eq_add_one, List.range'_concat, List.map_append, hdiv,
    Nat.mul_comm m stride, Nat.zero_add]
  exact ⟨_, rfl⟩

theorem fromZero_windows_append (hpos : 0 < stride) (hl : l ≠ []) :
    FromZero (windows l width stride ++ rest) := by
  obtain ⟨n, hn, -, -, hstarts⟩ := starts_eq hpos hl
  obtain ⟨n, rfl⟩ := Nat.exists_eq_succ_of_ne_zero hn
  simp [windows, hstarts, FromZero, List.range'_succ]

/-- Where the stride is at most the width, the windows show the list. -/
theorem uncovered_windows (hpos : 0 < stride) (hle : stride ≤ width) (hl : l ≠ [])
    (hrest : FromZero rest) :
    uncovered covered (windows l width stride ++ rest) = l ++ uncovered 0 rest := by
  rw [uncovered_of_fromZero (fromZero_windows_append hpos hl)]
  obtain ⟨n, hn, hend, hlast, hstarts⟩ := starts_eq hpos hl
  rw [windows, hstarts, uncovered_range' hpos hle hrest (by omega) (by omega) (by omega) (by omega)]
  simp

theorem advances_windows (hpos : 0 < stride) (hl : l ≠ []) (hrest : FromZero rest)
    (hadv : Advances 0 rest) : Advances covered (windows l width stride ++ rest) := by
  rw [advances_of_fromZero (fromZero_windows_append hpos hl)]
  obtain ⟨n, hn, hend, hlast, hstarts⟩ := starts_eq hpos hl
  rw [windows, hstarts]
  apply advances_range' hpos hrest hadv <;> omega

theorem zip_starts_slices : (starts l.length stride).zip (slices l width stride) =
    windows l width stride :=
  List.map_prod_left_eq_zip.symm

end AssureCode.Windows
