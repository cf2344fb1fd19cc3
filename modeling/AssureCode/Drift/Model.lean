import Mathlib.Analysis.InnerProductSpace.Basic
import Mathlib.Analysis.Normed.Module.RCLike.Basic
import Mathlib.Analysis.SpecialFunctions.Log.Basic

/-! # The conformal drift detector

`ConformalDriftDetector` of the scope guard in exact real arithmetic, over any space of
embeddings. A detector watches one conversation: it turns each residual into a p-value against
the calibration residuals it was built with, and bets against that value.
-/

namespace AssureCode.Drift

inductive Thrown
  | notCalibrated (message : String)
  | valueError (message : String)

noncomputable def conformalPValue (calibration : List ℝ) (observed : ℝ) : Except Thrown ℝ :=
  let n := calibration.length
  if n = 0 then
    .error (.notCalibrated "conformal p-value requires a non-empty calibration set")
  else
    let ge := calibration.countP (observed ≤ ·)
    .ok ((1 + ge) / (n + 1))

inductive AlarmReason
  | none
  | martingale
  | cusum
  deriving DecidableEq

structure DriftStep where
  index : ℕ
  residual : ℝ
  pValue : ℝ
  logMartingale : ℝ
  cusum : ℝ
  cumulativeDrift : ℝ
  alarmed : Bool
  reason : AlarmReason

structure DriftState where
  steps : List DriftStep := []
  alarmedAt : Option ℕ := .none
  alarmReason : AlarmReason := .none

def DriftState.alarmed (s : DriftState) : Bool := s.alarmedAt.isSome

variable {V : Type*} [NormedAddCommGroup V] [InnerProductSpace ℝ V]

/-- A normalized vector. -/
abbrev Direction (V : Type*) [NormedAddCommGroup V] := {v : V // ‖v‖ = 1}

noncomputable def normalize (v : V) : Except Thrown (Direction V) :=
  if h : ‖v‖ = 0 then
    .error (.valueError "cannot normalize a zero vector")
  else
    .ok ⟨‖v‖⁻¹ • v, norm_smul_inv_norm (𝕜 := ℝ) (norm_ne_zero_iff.mp h)⟩

noncomputable def cosine (a b : V) : Except Thrown ℝ :=
  let denom := ‖a‖ * ‖b‖
  if denom = 0 then
    .error (.valueError "cosine is undefined for a zero vector")
  else
    .ok (inner ℝ a b / denom)

/-- The detector, with what its constructor has checked. -/
structure ConformalDriftDetector (V : Type*) [NormedAddCommGroup V] where
  c0 : Direction V
  centroid : Direction V
  calibration : List ℝ
  calibrated : calibration ≠ []
  delta : Set.Ioo (0 : ℝ) 1
  epsilon : Set.Ioo (0 : ℝ) 1
  eta : ℝ
  cusumKappa : Option ℝ
  cusumH : Option ℝ
  logMartingale : ℝ := 0
  cusum : ℝ := 0
  state : DriftState := {}

namespace ConformalDriftDetector

noncomputable def construct (contractCentroid : V) (calibrationResiduals : List ℝ)
    (delta epsilon eta : ℝ) (cusumKappa cusumH : Option ℝ) :
    Except Thrown (ConformalDriftDetector V) :=
  if calibrated : calibrationResiduals = [] then
    .error (.notCalibrated <|
      "ConformalDriftDetector requires calibration residuals from known in-scope " ++
      "traffic. There is no default: a martingale calibrated against nothing reports " ++
      "a false-alarm rate for a distribution that was never measured. Build the T2 " ++
      "calibration set (Phase 7), or pass synthetic residuals with " ++
      "calibration_is_synthetic=True for testing.")
  else if hδ : delta ∉ Set.Ioo 0 1 then
    .error (.valueError "delta must be in (0, 1)")
  else if hε : epsilon ∉ Set.Ioo 0 1 then
    .error (.valueError "epsilon must be in (0, 1)")
  else do
    let c0 ← normalize contractCentroid
    return {
      c0, calibrated, eta, cusumKappa, cusumH
      calibration := calibrationResiduals
      centroid := c0
      delta := ⟨delta, not_not.mp hδ⟩
      epsilon := ⟨epsilon, not_not.mp hε⟩ }

noncomputable def logAlarmThreshold (d : ConformalDriftDetector V) : ℝ :=
  Real.log (1 / d.delta)

/-- The statistics after a p-value. -/
noncomputable def accumulate (d : ConformalDriftDetector V) (p residual : ℝ) :
    ConformalDriftDetector V :=
  { d with
    logMartingale := d.logMartingale + (Real.log d.epsilon + (d.epsilon - 1) * Real.log p)
    cusum := match d.cusumKappa with
      | some kappa => max 0 (d.cusum + (residual - kappa))
      | none => d.cusum }

noncomputable def advance (d : ConformalDriftDetector V) :
    Option V → Except Thrown (ConformalDriftDetector V)
  | none => .ok d
  | some e => do
    let centroid ← normalize ((d.centroid : V) + d.eta • e)
    return { d with centroid }

noncomputable def verdict (d : ConformalDriftDetector V) : Bool × AlarmReason :=
  if d.logAlarmThreshold < d.logMartingale then (true, .martingale)
  else match d.cusumH with
    | some h => if h < d.cusum then (true, .cusum) else (false, .none)
    | none => (false, .none)

/-- Keep a step; the first that alarms is kept as the alarm. -/
def record (d : ConformalDriftDetector V) (step : DriftStep) : ConformalDriftDetector V :=
  let steps := d.state.steps ++ [step]
  { d with
    state :=
      if step.alarmed && d.state.alarmedAt.isNone then
        { steps, alarmedAt := step.index, alarmReason := step.reason }
      else { d.state with steps } }

/-- The detector is also returned when it throws, with the statistics already accumulated. -/
noncomputable def observeResidual (d : ConformalDriftDetector V) (residual : ℝ)
    (embedding : Option V) : Except Thrown DriftStep × ConformalDriftDetector V :=
  let index := d.state.steps.length
  match conformalPValue d.calibration residual with
  | .error e => (.error e, d)
  | .ok pValue =>
    let d := d.accumulate pValue residual
    match d.advance embedding with
    | .error e => (.error e, d)
    | .ok d =>
      match cosine (d.centroid : V) d.c0 with
      | .error e => (.error e, d)
      | .ok cos =>
        let (alarmed, reason) := d.verdict
        let step := {
          index, residual, pValue, alarmed, reason
          logMartingale := d.logMartingale
          cusum := d.cusum
          cumulativeDrift := 1 - cos }
        (.ok step, d.record step)

/-- The residuals of a conversation one by one, without embeddings. -/
noncomputable def observeAll (d : ConformalDriftDetector V) :
    List ℝ → Except Thrown Unit × ConformalDriftDetector V
  | [] => (.ok (), d)
  | residual :: rest =>
    match d.observeResidual residual none with
    | (.error e, d) => (.error e, d)
    | (.ok _, d) => d.observeAll rest

end ConformalDriftDetector

end AssureCode.Drift
