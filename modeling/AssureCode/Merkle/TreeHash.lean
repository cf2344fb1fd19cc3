import Mathlib.Algebra.Ring.Parity
import Mathlib.Data.Nat.Log
import Mathlib.Tactic.Common

/-! # Merkle tree hashes

A list of hashes has one hash above it, in two ways: top down, by cutting the list at the largest
power of two below its length; and bottom up, level by level, pairing neighbours and promoting a
last one that has none. Both give the same.
-/

namespace AssureCode.Merkle

universe u

variable {α : Type u} {l l' : List α} {n : ℕ}

/-! ## The cut -/

/-- The largest power of two below `n`, from `n = 2` on. -/
def split (n : ℕ) : ℕ := 2 ^ Nat.log 2 (n - 1)

theorem split_pos (n : ℕ) : 0 < split n := Nat.two_pow_pos _

theorem split_lt (h : 2 ≤ n) : split n < n := by
  have hle : 2 ^ Nat.log 2 (n - 1) ≤ n - 1 := Nat.pow_log_le_self 2 (by omega)
  unfold split
  omega

theorem le_two_mul_split (n : ℕ) : n ≤ 2 * split n := by
  have hlt : n - 1 < 2 ^ (Nat.log 2 (n - 1) + 1) := Nat.lt_pow_succ_log_self (by decide) _
  rw [Nat.pow_succ] at hlt
  unfold split
  omega

/-- Cutting at a power of two that fits is cutting at the largest one. -/
theorem split_eq {k : ℕ} (hlt : 2 ^ k < n) (hle : n ≤ 2 ^ (k + 1)) : split n = 2 ^ k := by
  have hlog : Nat.log 2 (n - 1) = k := Nat.log_eq_of_pow_le_of_lt_pow (by omega) (by omega)
  rw [split, hlog]

/-- Half of the nodes, rounded up, are cut at half of the place. -/
theorem split_half (h : 2 < n) : split n = 2 * split ((n + 1) / 2) := by
  have hlog : Nat.log 2 (n - 1) ≠ 0 := (Nat.log_pos (by decide) (by omega)).ne'
  obtain ⟨k, hk⟩ := Nat.exists_eq_succ_of_ne_zero hlog
  have hlt := split_lt (n := n) (by omega)
  have hle := le_two_mul_split n
  rw [split, hk, Nat.succ_eq_add_one, Nat.pow_succ] at hlt hle ⊢
  have hhalf : split ((n + 1) / 2) = 2 ^ k := split_eq (by omega) (by rw [Nat.pow_succ]; omega)
  rw [hhalf, Nat.mul_comm]

/-! ## Top down -/

section TreeHash

variable (node : α → α → α) (empty : α)

/-- The Merkle Tree Hash over a list of leaf hashes. -/
def treeHash : List α → α
  | [] => empty
  | [a] => a
  | a :: b :: l =>
    let k := split (l.length + 2)
    node (treeHash ((a :: b :: l).take k)) (treeHash ((a :: b :: l).drop k))
termination_by l => l.length
decreasing_by
  · have := split_lt (n := l.length + 2) (by omega)
    simp only [List.length_take, List.length_cons]
    omega
  · have := split_pos (l.length + 2)
    simp only [List.length_drop, List.length_cons]
    omega

variable {node empty}

@[simp] theorem treeHash_nil : treeHash node empty [] = empty := by rw [treeHash]

@[simp] theorem treeHash_singleton (a : α) : treeHash node empty [a] = a := by rw [treeHash]

theorem treeHash_split (h : 2 ≤ l.length) :
    treeHash node empty l = node (treeHash node empty (l.take (split l.length)))
      (treeHash node empty (l.drop (split l.length))) := by
  match l, h with
  | a :: b :: l, _ => rw [treeHash]; rfl

end TreeHash

/-! ## Bottom up -/

section Levels

variable (node : α → α → α)

/-- The level above: neighbours are paired, a last one without a neighbour is promoted. -/
def above : List α → List α
  | a :: b :: l => node a b :: above l
  | l => l

variable {node}

theorem length_above : ∀ l : List α, (above node l).length = (l.length + 1) / 2
  | [] => by simp [above]
  | [_] => by simp [above]
  | a :: b :: l => by
    rw [above, List.length_cons, length_above l, List.length_cons, List.length_cons]
    omega

/-- An even number of nodes is paired without its successors. -/
theorem above_append : ∀ {l : List α} (l' : List α), Even l.length →
    above node (l ++ l') = above node l ++ above node l'
  | [], _, _ => rfl
  | [_], _, h => by simp at h
  | a :: b :: l, l', h => by
    have hl : Even l.length := by simpa [Nat.even_add_one] using h
    rw [List.cons_append, List.cons_append, above, above, above_append l' hl, List.cons_append]

/-- Going up one level keeps the tree hash. -/
theorem treeHash_above {empty : α} (l : List α) :
    treeHash node empty (above node l) = treeHash node empty l := by
  induction hn : l.length using Nat.strong_induction_on generalizing l with
  | _ n ih =>
    rcases Nat.lt_or_ge 2 n with h | h
    · -- the cut is even, so that the level above is cut there too
      have hcut := split_half h
      have hlt := split_lt (n := n) (by omega)
      have hpos := split_pos ((n + 1) / 2)
      have htake : (l.take (split n)).length = split n := by rw [List.length_take]; omega
      have hsplit :
          above node l = above node (l.take (split n)) ++ above node (l.drop (split n)) := by
        conv_lhs => rw [← List.take_append_drop (split n) l]
        exact above_append _ (by rw [htake, hcut]; exact even_two_mul _)
      have hhalf : (above node (l.take (split n))).length = split ((n + 1) / 2) := by
        rw [length_above, htake]
        omega
      have hlen : (above node l).length = (n + 1) / 2 := by rw [length_above, hn]
      rw [treeHash_split (by omega), treeHash_split (l := l) (by omega), hlen, hn, hsplit,
        List.take_left' hhalf, List.drop_left' hhalf,
        ih _ hlt _ htake, ih (n - split n) (by omega) _ (by rw [List.length_drop, hn])]
    · match l, hn with
      | [], _ | [_], _ => rfl
      | [a, b], _ =>
        have hcut : split [a, b].length = 1 := by simp [split]
        rw [treeHash_split (l := [a, b]) le_rfl, hcut, List.take_one]
        simp [above]
      | _ :: _ :: _ :: _, hn =>
        simp only [List.length_cons] at hn
        omega

end Levels

end AssureCode.Merkle
