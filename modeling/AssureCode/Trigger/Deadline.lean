import Mathlib.Algebra.BigOperators.Intervals
import AssureCode.Trigger.Model

/-! # The deadline of the retries

The loop looks at the deadline before an attempt and before a sleep, and not at how long an attempt
may take. It returns, and it returns in time unless it begins an attempt too late.
-/

namespace AssureCode.Trigger

open Finset Js TriggerDeps

variable (deps : TriggerDeps) (attempts : ℕ → Attempt)

/-- When an attempt begins, if those before it are all retried. -/
def start (k : ℕ) : ℕ := ∑ i ∈ range k, ((attempts i).took + backoff (i + 1))

/-- The worker makes the attempt. -/
def Begun (k : ℕ) : Prop :=
  deps.enabled = true ∧ start attempts k < deps.deadline ∧
    ∀ i < k, (deps.settle (attempts i).response).isRight = true

/-- No attempt is begun with less time left than it takes. -/
def InTime : Prop :=
  ∀ k, Begun deps attempts k → start attempts k + (attempts k).took ≤ deps.deadline

variable {deps attempts} {k made now : ℕ} {detail : Text} {outcome : TriggerOutcome}

theorem le_backoff (n : ℕ) : 1000 ≤ backoff n := by
  unfold backoff
  split <;> decide

theorem start_succ (k : ℕ) :
    start attempts (k + 1) = start attempts k + (attempts k).took + backoff (k + 1) := by
  rw [start, sum_range_succ, ← start, Nat.add_assoc]

theorem start_mono {j k : ℕ} (h : j ≤ k) : start attempts j ≤ start attempts k :=
  sum_le_sum_of_subset (range_subset_range.mpr h)

/-- An attempt that settles the matter is the last one. -/
theorem le_of_begun (h : deps.settle (attempts k).response = .inl outcome) {j : ℕ}
    (hj : Begun deps attempts j) : j ≤ k := by
  by_contra! hlt
  have hretried := hj.2.2 k hlt
  rw [h] at hretried
  exact absurd hretried Bool.false_ne_true

/-- Once the deadline is there no attempt is begun. -/
theorem not_begun (h : deps.deadline ≤ start attempts k) {j : ℕ} (hj : k ≤ j) :
    ¬ Begun deps attempts j := fun hb =>
  absurd hb.2.1 (not_lt.mpr (h.trans (start_mono hj)))

/-- From the attempt `made` on the loop returns, in time if no attempt from there on is late. -/
theorem retry_returns (henabled : deps.enabled = true)
    (hnow : start attempts made ≤ deps.deadline)
    (hretried : ∀ i < made, (deps.settle (attempts i).response).isRight = true) :
    ∃ r, (∀ fuel, (deps.deadline - start attempts made) / 1000 < fuel →
        deps.retry attempts fuel (start attempts made) made detail = some r) ∧
      (r.2 ≤ deps.deadline ↔ ∀ j, made ≤ j → Begun deps attempts j →
        start attempts j + (attempts j).took ≤ deps.deadline) := by
  -- the time left decides: every round sleeps
  induction hleft : deps.deadline - start attempts made using Nat.strong_induction_on
    generalizing made detail with
  | _ left ih =>
    by_cases hlt : start attempts made < deps.deadline
    · have hbegun : Begun deps attempts made := ⟨henabled, hlt, hretried⟩
      have hround : ∀ fuel, left / 1000 < fuel → ∃ n, fuel = n + 1 := fun fuel hfuel =>
        Nat.exists_eq_succ_of_ne_zero (Nat.ne_zero_of_lt hfuel)
      cases hsettle : deps.settle (attempts made).response with
      | inl outcome =>
        refine ⟨(outcome, start attempts made + (attempts made).took), fun fuel hfuel => ?_,
          fun h j hj hb => ?_, fun h => h made le_rfl hbegun⟩
        · obtain ⟨n, rfl⟩ := hround fuel hfuel
          simp only [retry, if_pos hlt, hsettle]
        · rw [le_antisymm (le_of_begun hsettle hb) hj]
          exact h
      | inr d =>
        have hnext : start attempts (made + 1) = _ := start_succ made
        by_cases hbreak : deps.deadline ≤
            start attempts made + (attempts made).took + backoff (made + 1)
        · refine ⟨(.unavailable (made + 1) d, start attempts made + (attempts made).took),
            fun fuel hfuel => ?_, fun h j hj hb => ?_, fun h => h made le_rfl hbegun⟩
          · obtain ⟨n, rfl⟩ := hround fuel hfuel
            simp only [retry, if_pos hlt, hsettle, if_pos hbreak]
          · rcases hj.eq_or_lt with rfl | hj
            · exact h
            · exact absurd hb (not_begun (hnext ▸ hbreak) hj)
        · have hwait := le_backoff (made + 1)
          have hretried' : ∀ i < made + 1,
              (deps.settle (attempts i).response).isRight = true := fun i hi => by
            rcases Nat.lt_succ_iff_lt_or_eq.mp hi with hi | rfl
            · exact hretried i hi
            · rw [hsettle]
              rfl
          obtain ⟨r, hr, hiff⟩ := @ih (deps.deadline - start attempts (made + 1)) (by omega)
            (made + 1) d (by omega) hretried' rfl
          refine ⟨r, fun fuel hfuel => ?_, fun h j hj hb => ?_, fun h => hiff.mpr fun j hj =>
            h j (Nat.le_of_succ_le hj)⟩
          · obtain ⟨n, rfl⟩ := hround fuel hfuel
            simp only [retry, if_pos hlt, hsettle, if_neg hbreak]
            rw [← hnext]
            exact hr n (by omega)
          · rcases hj.eq_or_lt with rfl | hj
            · omega
            · exact hiff.mp h j hj hb
    · have hdue : deps.deadline ≤ start attempts made := not_lt.mp hlt
      refine ⟨(.unavailable made detail, start attempts made), fun fuel hfuel => ?_,
        fun _ j hj hb => absurd hb (not_begun hdue hj), fun _ => hnow⟩
      obtain ⟨n, rfl⟩ := Nat.exists_eq_succ_of_ne_zero (Nat.ne_zero_of_lt hfuel)
      rw [retry, if_neg hlt]

/--
`triggerScoring` returns after one round for each second of its deadline at most, and it returns
by the deadline exactly when it begins no attempt that takes longer than what is left.
-/
theorem returns_inTime_iff (deps : TriggerDeps) (attempts : ℕ → Attempt) :
    ∃ r, (∀ fuel, deps.deadline / 1000 < fuel → triggerScoring fuel deps attempts = some r) ∧
      (r.2 ≤ deps.deadline ↔ InTime deps attempts) := by
  cases henabled : deps.enabled with
  | false =>
    refine ⟨(.disabled, 0), fun fuel _ => ?_, fun _ k hk => ?_, fun _ => Nat.zero_le _⟩
    · rw [triggerScoring, henabled]
      rfl
    · exact absurd (henabled.symm.trans hk.1) Bool.false_ne_true
  | true =>
    obtain ⟨r, hr, hiff⟩ := @retry_returns deps attempts 0 (units "no attempt completed") henabled
      (Nat.zero_le _) fun i hi => absurd hi (Nat.not_lt_zero i)
    refine ⟨r, fun fuel hfuel => ?_, hiff.trans ?_⟩
    · rw [triggerScoring, henabled]
      exact hr fuel hfuel
    · exact ⟨fun h k => h k (Nat.zero_le k), fun h k _ => h k⟩

/-! ## An attempt just before the deadline -/

/-- A gateway that answers 503, the second time after 7999 ms and else after 8000 ms. -/
def slowGateway (k : ℕ) : Attempt where
  response := .ok ⟨503, .error ⟨[], []⟩, []⟩
  took := if k = 1 then 7999 else 8000

theorem deadline_overrun :
    (∀ k, (slowGateway k).took ≤ ({ enabled := true } : TriggerDeps).perAttempt) ∧
      ∃ r, triggerScoring 21 { enabled := true } slowGateway = some r ∧
        ¬ r.2 ≤ ({ enabled := true } : TriggerDeps).deadline := by
  constructor
  · intro k
    rw [slowGateway]
    split_ifs <;> decide
  · have hclock : (triggerScoring 21 { enabled := true } slowGateway).map Prod.snd =
        some 27999 := by decide +kernel
    obtain ⟨r, hr, hlate⟩ := Option.map_eq_some_iff.mp hclock
    refine ⟨r, hr, ?_⟩
    rw [hlate]
    decide

end AssureCode.Trigger
