import Mathlib.Data.Set.Card
import Mathlib.Tactic.Common

/-! # Counting the actors of a system

A system of unboundedly many actors moves one of them at a time. How many of them meet a condition
then changes by what that one gains or loses.
-/

namespace AssureCode.Actors

universe u

variable {ι : Type*} {α : Type u} {f : ι → α} {p : α → Prop} {i : ι} {b : α}

/-- Unless one of the others keeps the condition, all hinges on the one that moves. -/
theorem exists_or_alone {q r : ι → Prop} (i : ι) (h : ∃ j, q j) (hothers : ∀ j ≠ i, q j → r j) :
    (∃ j, r j) ∨ (q i ∧ ∀ j ≠ i, ¬ q j) := by
  by_cases hex : ∃ j ≠ i, q j
  · obtain ⟨j, hji, hj⟩ := hex
    exact .inl ⟨j, hothers j hji hj⟩
  · right
    obtain ⟨j, hj⟩ := h
    have hji : j = i := by_contra fun hji => hex ⟨j, hji, hj⟩
    subst hji
    exact ⟨hj, fun k hkj hk => hex ⟨k, hkj, hk⟩⟩

theorem ncard_sdiff_self [DecidablePred p] (h : {j | p (f j)}.Finite) (i : ι) :
    {j | p (f j)}.ncard = ({j | p (f j)} \ {i}).ncard + if p (f i) then 1 else 0 := by
  split
  · next hi =>
    have hmem : i ∈ {j | p (f j)} := hi
    exact (Set.ncard_sdiff_singleton_add_one hmem h).symm
  · next hi =>
    have hmem : i ∉ {j | p (f j)} := hi
    rw [Set.sdiff_singleton_eq_self hmem, Nat.add_zero]

variable [DecidableEq ι]

theorem sdiff_update : {j | p (Function.update f i b j)} \ {i} = {j | p (f j)} \ {i} := by
  ext j
  apply and_congr_left
  intro hj
  rw [Set.mem_ofPred_eq, Set.mem_ofPred_eq, Function.update_of_ne hj]

theorem finite_update (h : {j | p (f j)}.Finite) : {j | p (Function.update f i b j)}.Finite := by
  apply Set.Finite.subset (h.insert i)
  intro j hj
  by_cases hji : j = i
  · exact .inl hji
  · exact .inr (by rwa [Set.mem_ofPred_eq, Function.update_of_ne hji] at hj)

theorem ncard_update [DecidablePred p] (h : {j | p (f j)}.Finite) :
    {j | p (Function.update f i b j)}.ncard + (if p (f i) then 1 else 0) =
      {j | p (f j)}.ncard + if p b then 1 else 0 := by
  rw [ncard_sdiff_self (finite_update h) i, sdiff_update, ncard_sdiff_self h i,
    Function.update_self, Nat.add_right_comm]

end AssureCode.Actors
