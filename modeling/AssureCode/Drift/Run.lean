import AssureCode.Drift.Model
import Mathlib.Algebra.BigOperators.Group.List.Basic

/-! # Runs of the detector

Without embeddings a detector never throws, and its martingale is the sum of the bets.
-/

namespace AssureCode.Drift

theorem conformalPValue_of_ne_nil {calibration : List ℝ} (h : calibration ≠ []) (x : ℝ) :
    conformalPValue calibration x =
      .ok ((1 + calibration.countP (x ≤ ·)) / (calibration.length + 1)) := by
  simp [conformalPValue, h]

namespace ConformalDriftDetector

section Statistics

variable {V : Type*} [NormedAddCommGroup V] (d : ConformalDriftDetector V) (x : ℝ) (rs : List ℝ)

noncomputable def pValue : ℝ :=
  (1 + d.calibration.countP (x ≤ ·)) / (d.calibration.length + 1)

/-- What a residual adds to the log martingale. -/
noncomputable def logBet : ℝ :=
  Real.log d.epsilon + (d.epsilon - 1) * Real.log (d.pValue x)

/-- The log martingale exceeds its threshold after the first `t + 1` residuals. -/
def Exceeds (t : ℕ) : Prop :=
  d.logAlarmThreshold < d.logMartingale + ((rs.take (t + 1)).map d.logBet).sum

theorem exceeds_concat {t : ℕ} (ht : t < rs.length) :
    d.Exceeds (rs ++ [x]) t ↔ d.Exceeds rs t := by
  rw [Exceeds, List.take_append_of_le_length ht]
  rfl

theorem verdict_accumulate (hc : d.cusumH = none) :
    (d.accumulate (d.pValue x) x).verdict =
      if d.logAlarmThreshold < d.logMartingale + d.logBet x then (true, .martingale)
      else (false, .none) := by
  rw [verdict]
  simp only [accumulate, hc]
  rfl

@[simp] theorem record_steps (step : DriftStep) :
    (d.record step).state.steps = d.state.steps ++ [step] := by
  rw [record]
  exact (apply_ite DriftState.steps _ _ _).trans (ite_self _)

theorem record_alarmedAt (step : DriftStep) :
    (d.record step).state.alarmedAt =
      if step.alarmed && d.state.alarmedAt.isNone then some step.index
      else d.state.alarmedAt := by
  rw [record]
  exact apply_ite DriftState.alarmedAt _ _ _

end Statistics

variable {V : Type*} [NormedAddCommGroup V] [InnerProductSpace ℝ V]
variable (d : ConformalDriftDetector V) (x : ℝ) (rs : List ℝ)

/-- The step of a residual that comes without an embedding. -/
noncomputable def stepOf : DriftStep :=
  let accumulated := d.accumulate (d.pValue x) x
  { index := d.state.steps.length
    residual := x
    pValue := d.pValue x
    logMartingale := accumulated.logMartingale
    cusum := accumulated.cusum
    cumulativeDrift := 1 - inner ℝ (d.centroid : V) d.c0
    alarmed := accumulated.verdict.1
    reason := accumulated.verdict.2 }

noncomputable def next : ConformalDriftDetector V :=
  (d.accumulate (d.pValue x) x).record (d.stepOf x)

theorem cosine_direction (a b : Direction V) : cosine (a : V) b = .ok (inner ℝ (a : V) b) := by
  simp [cosine, a.2, b.2]

theorem observeResidual_none : d.observeResidual x none = (.ok (d.stepOf x), d.next x) := by
  rw [observeResidual, conformalPValue_of_ne_nil d.calibrated]
  simp only [advance, cosine_direction]
  rfl

noncomputable def after : ConformalDriftDetector V := rs.foldl next d

@[simp] theorem after_nil : d.after [] = d := rfl

@[simp] theorem after_concat : d.after (rs ++ [x]) = (d.after rs).next x := by
  simp [after]

theorem observeAll_eq : d.observeAll rs = (.ok (), d.after rs) := by
  induction rs generalizing d with
  | nil => rfl
  | cons x rs ih =>
    rw [observeAll, observeResidual_none]
    exact ih (d.next x)

/-! ## A fresh detector -/

section Fresh

variable {δ ε η : ℝ} {c : V}

theorem of_construct {calibration : List ℝ} {kappa h : Option ℝ} {d : ConformalDriftDetector V}
    (hd : construct c calibration δ ε η kappa h = .ok d) :
    d.calibration = calibration ∧ d.delta = δ ∧ d.epsilon = ε ∧ d.cusumKappa = kappa ∧
      d.cusumH = h ∧ d.logMartingale = 0 ∧ d.cusum = 0 ∧ d.state = {} := by
  unfold construct at hd
  split at hd
  · cases hd
  · split at hd
    · cases hd
    · split at hd
      · cases hd
      · cases hc : normalize c with
        | error e =>
          rw [hc] at hd
          cases hd
        | ok c0 =>
          rw [hc] at hd
          cases hd
          exact ⟨rfl, rfl, rfl, rfl, rfl, rfl, rfl, rfl⟩

theorem construct_isOk {calibration : List ℝ} (hc : c ≠ 0) (hcalibration : calibration ≠ [])
    (hδ : δ ∈ Set.Ioo 0 1) (hε : ε ∈ Set.Ioo 0 1) (kappa h : Option ℝ) :
    ∃ d, construct c calibration δ ε η kappa h = .ok d := by
  simp only [construct, hcalibration, hδ, hε, normalize, norm_eq_zero, hc, not_true_eq_false,
    dite_false]
  exact ⟨_, rfl⟩

end Fresh

/-! ## What a step keeps -/

@[simp] theorem next_cusumH : (d.next x).cusumH = d.cusumH := rfl

@[simp] theorem next_logMartingale :
    (d.next x).logMartingale = d.logMartingale + d.logBet x := rfl

@[simp] theorem next_logBet : (d.next x).logBet = d.logBet := rfl

@[simp] theorem next_logAlarmThreshold : (d.next x).logAlarmThreshold = d.logAlarmThreshold := rfl

theorem after_eq {β : Type*} {f : ConformalDriftDetector V → β}
    (h : ∀ d x, f (d.next x) = f d) : f (d.after rs) = f d := by
  induction rs using List.reverseRecOn with
  | nil => rfl
  | append_singleton rs x ih => rw [after_concat, h, ih]

@[simp] theorem after_logBet : (d.after rs).logBet = d.logBet := d.after_eq rs next_logBet

@[simp] theorem after_logAlarmThreshold : (d.after rs).logAlarmThreshold = d.logAlarmThreshold :=
  d.after_eq rs next_logAlarmThreshold

@[simp] theorem after_cusumH : (d.after rs).cusumH = d.cusumH := d.after_eq rs next_cusumH

theorem after_logMartingale :
    (d.after rs).logMartingale = d.logMartingale + (rs.map d.logBet).sum := by
  induction rs using List.reverseRecOn with
  | nil => simp
  | append_singleton rs x ih => simp [ih, add_assoc]

/-! ## The martingale alarm -/

theorem exceeds_concat_length :
    d.Exceeds (rs ++ [x]) rs.length ↔
      d.logAlarmThreshold < (d.after rs).logMartingale + d.logBet x := by
  rw [Exceeds, after_logMartingale, List.take_of_length_le (by simp)]
  simp [add_assoc]

theorem next_alarmedAt : (d.next x).state.alarmedAt =
    if (d.stepOf x).alarmed && d.state.alarmedAt.isNone then some (d.stepOf x).index
    else d.state.alarmedAt :=
  record_alarmedAt _ _

theorem next_alarmReason : (d.next x).state.alarmReason =
    if (d.stepOf x).alarmed && d.state.alarmedAt.isNone then (d.stepOf x).reason
    else d.state.alarmReason := by
  rw [next, record]
  exact apply_ite DriftState.alarmReason _ _ _

theorem stepOf_of_exceeds (hc : d.cusumH = none)
    (hx : d.logAlarmThreshold < d.logMartingale + d.logBet x) :
    (d.stepOf x).alarmed = true ∧ (d.stepOf x).reason = .martingale := by
  have hverdict := (d.verdict_accumulate x hc).trans (if_pos hx)
  exact ⟨congrArg Prod.fst hverdict, congrArg Prod.snd hverdict⟩

theorem stepOf_of_not_exceeds (hc : d.cusumH = none)
    (hx : ¬ d.logAlarmThreshold < d.logMartingale + d.logBet x) :
    (d.stepOf x).alarmed = false :=
  congrArg Prod.fst ((d.verdict_accumulate x hc).trans (if_neg hx))

/--
Without CUSUM the alarm of a fresh detector is the martingale's, and is raised exactly when the
log martingale exceeds its threshold at some step.
-/
theorem after_alarm (hc : d.cusumH = none) (hs : d.state = {}) :
    ((d.after rs).state.alarmedAt = none ∧ (d.after rs).state.alarmReason = .none ∧
        ∀ t < rs.length, ¬ d.Exceeds rs t) ∨
      ((d.after rs).state.alarmedAt ≠ none ∧ (d.after rs).state.alarmReason = .martingale ∧
        ∃ t < rs.length, d.Exceeds rs t) := by
  induction rs using List.reverseRecOn with
  | nil => simp [hs]
  | append_singleton rs x ih =>
    have hc' : (d.after rs).cusumH = none := (d.after_cusumH rs).trans hc
    have hlast : d.Exceeds (rs ++ [x]) rs.length ↔ (d.after rs).logAlarmThreshold <
        (d.after rs).logMartingale + (d.after rs).logBet x := by
      rw [exceeds_concat_length, after_logAlarmThreshold, after_logBet]
    rw [after_concat, next_alarmedAt, next_alarmReason]
    obtain ⟨hnone, hreason, hnot⟩ | ⟨hsome, hreason, t, ht, hexceeds⟩ := ih
    · by_cases hx : d.Exceeds (rs ++ [x]) rs.length
      · right
        obtain ⟨halarmed, hwhy⟩ := (d.after rs).stepOf_of_exceeds x hc' (hlast.mp hx)
        simp only [halarmed, hnone, hwhy, Option.isNone_none, Bool.and_self, if_true]
        exact ⟨Option.some_ne_none _, trivial, rs.length, by simp, hx⟩
      · left
        have halarmed := (d.after rs).stepOf_of_not_exceeds x hc' (hx ∘ hlast.mpr)
        simp only [halarmed, Bool.false_and, Bool.false_eq_true, if_false]
        refine ⟨hnone, hreason, ?_⟩
        intro t ht hexceeds
        obtain ht | rfl := Nat.lt_succ_iff_lt_or_eq.mp (by simpa using ht)
        · exact hnot t ht ((d.exceeds_concat x rs ht).mp hexceeds)
        · exact hx hexceeds
    · right
      simp only [Option.isNone_eq_false_iff.mpr (Option.isSome_iff_ne_none.mpr hsome),
        Bool.and_false, Bool.false_eq_true, if_false]
      exact ⟨hsome, hreason, t, by simp; omega, (d.exceeds_concat x rs ht).mpr hexceeds⟩

theorem alarmReason_after_iff (hc : d.cusumH = none) (hs : d.state = {}) :
    (d.after rs).state.alarmReason = .martingale ↔ ∃ t < rs.length, d.Exceeds rs t := by
  obtain ⟨-, hreason, hnot⟩ | ⟨-, hreason, hexceeds⟩ := d.after_alarm rs hc hs
  · simpa [hreason] using hnot
  · simp only [hreason, hexceeds]

end ConformalDriftDetector

end AssureCode.Drift
