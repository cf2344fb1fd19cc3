import Mathlib.Data.List.Basic

/-! # Loops that collect

A loop over a list whose body gives something, gives nothing or raises. It raises with the first
of its elements that does, and else returns what the others gave, in order.
-/

namespace AssureCode

variable {ε α β : Type*} {f : α → Except ε (Option β)} {x : α} {xs : List α} {y : β} {ys : List β}
  {e : ε}

def collect (f : α → Except ε (Option β)) : List α → Except ε (List β)
  | [] => .ok []
  | x :: xs =>
    match f x, collect f xs with
    | .error e, _ => .error e
    | _, .error e => .error e
    | .ok y, .ok ys => .ok (y.toList ++ ys)

@[simp] theorem collect_nil : collect f [] = .ok [] := rfl

theorem collect_cons_eq_ok : collect f (x :: xs) = .ok ys ↔
    ∃ o rest, f x = .ok o ∧ collect f xs = .ok rest ∧ ys = o.toList ++ rest := by
  rw [collect]
  rcases f x with e | o <;> rcases collect f xs with e' | rest <;> simp [eq_comm]

/-- The loop returns when the body does for every element. -/
theorem exists_collect_iff : (∃ ys, collect f xs = .ok ys) ↔ ∀ x ∈ xs, ∃ o, f x = .ok o := by
  induction xs with
  | nil => simp
  | cons x xs ih =>
    rw [List.forall_mem_cons, ← ih]
    simp only [collect_cons_eq_ok]
    constructor
    · rintro ⟨_, o, rest, ho, hrest, rfl⟩
      exact ⟨⟨o, ho⟩, rest, hrest⟩
    · rintro ⟨⟨o, ho⟩, rest, hrest⟩
      exact ⟨_, o, rest, ho, hrest, rfl⟩

theorem mem_collect (h : collect f xs = .ok ys) : y ∈ ys ↔ ∃ x ∈ xs, f x = .ok (some y) := by
  induction xs generalizing ys with
  | nil =>
    cases h
    simp
  | cons x xs ih =>
    obtain ⟨o, rest, ho, hrest, rfl⟩ := collect_cons_eq_ok.mp h
    simp [ih hrest, ho, Option.mem_toList]

/-- Nothing is collected when the body gives nothing for any element. -/
theorem collect_eq_nil_iff (h : collect f xs = .ok ys) : ys = [] ↔ ∀ x ∈ xs, f x = .ok none := by
  induction xs generalizing ys with
  | nil =>
    cases h
    simp
  | cons x xs ih =>
    obtain ⟨o, rest, ho, hrest, rfl⟩ := collect_cons_eq_ok.mp h
    rw [List.forall_mem_cons, ← ih hrest, ho]
    cases o <;> simp

end AssureCode
