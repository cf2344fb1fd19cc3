import AssureCode.Scoring.Model

/-! # What measurements are worth

The score is a sum of rounded parts. In hundredths of a point each part is an integer, and the
last rounding of the source leaves their sum as it is.
-/

namespace AssureCode.Scoring

open Python Js

/-- Telemetry that the route scores. -/
def TelemetryData.Scorable (tel : TelemetryData) : Prop :=
  tel.criticalVulnerabilities + tel.highVulnerabilities ≤ tel.totalVulnerabilities ∧
    tel.totalTests ≠ 0

/-- What attaining a part of a whole earns under a weight, in hundredths of a point. -/
def earned (weight part : ℚ) : ℤ := halfEven (10000 * (weight * part))

/--
What measurements are worth, in hundredths of a point: the parts of tests passed, of
maintainability, of security and of messages in scope, each of them weighed and rounded. Without
a message the weights of the other three are taken out of 0.85.
-/
def worth (tel : TelemetryData) (a : ScopeAdherence) : ℤ :=
  let tests : ℚ := tel.passedTests / tel.totalTests
  let maintainability : ℚ := tel.maintainability / 100
  let security : ℚ := securityScore tel.totalVulnerabilities tel.criticalVulnerabilities
    tel.highVulnerabilities / 100
  if a.total = 0 then
    earned (0.40 / 0.85) tests + earned (0.25 / 0.85) maintainability +
      earned (0.20 / 0.85) security
  else
    earned 0.40 tests + earned 0.25 maintainability + earned 0.20 security +
      earned 0.15 (a.allowed / a.total)

variable {tel : TelemetryData} {a : ScopeAdherence} {req : XaiScoreRequest} {weight part part' : ℚ}

theorem validateTelemetry_eq_ok :
    validateTelemetry req = .ok () ↔ req.telemetry.Scorable := by
  simp only [validateTelemetry, TelemetryData.Scorable]
  split_ifs with hcounts htests
  · simp [Nat.not_le.mpr hcounts]
  · simp [htests]
  · simp [Nat.not_lt.mp hcounts, htests]

/-! ## The score in hundredths -/

theorem contribution_term (name : String) (value weight : ℚ) (justification : String) :
    (term name value weight justification).contribution =
      (earned weight (value / 100) : ℚ) / 100 := by
  have hvalue : 10000 * (weight * (value / 100)) = weight * value * 10 ^ 2 := by ring
  simp only [term, Python.round, earned, hvalue]
  norm_num

theorem sum_measuredTerms (tel : TelemetryData) (wTest wMaint wSec : ℚ) :
    ((measuredTerms tel wTest wMaint wSec).map (·.contribution)).sum =
      ((earned wTest (tel.passedTests / tel.totalTests) +
        earned wMaint (tel.maintainability / 100) +
        earned wSec (securityScore tel.totalVulnerabilities tel.criticalVulnerabilities
          tel.highVulnerabilities / 100) : ℤ) : ℚ) / 100 := by
  have htests : 100 * (tel.passedTests : ℚ) / tel.totalTests / 100 =
      tel.passedTests / tel.totalTests := by ring
  simp only [measuredTerms, List.map_cons, List.map_nil, List.sum_cons, List.sum_nil,
    contribution_term, htests]
  push_cast
  ring

theorem sum_buildTerms (tel : TelemetryData) (a : ScopeAdherence) :
    ((buildTerms tel a).map (·.contribution)).sum = (worth tel a : ℚ) / 100 := by
  unfold buildTerms worth ScopeAdherence.ratio
  by_cases h : a.total = 0
  · simp only [h, if_true, sum_measuredTerms]
    norm_num
  · have hscope : 100 * ((a.allowed : ℚ) / a.total) / 100 = a.allowed / a.total := by ring
    simp only [h, if_false, List.map_append, List.sum_append, sum_measuredTerms, List.map_cons,
      List.map_nil, List.sum_cons, List.sum_nil, contribution_term, hscope]
    norm_num
    ring

/-- The score is what the measurements are worth. -/
theorem trustScore_buildTerms (tel : TelemetryData) (a : ScopeAdherence) :
    trustScore (buildTerms tel a) = (worth tel a : ℚ) / 100 := by
  rw [trustScore, sum_buildTerms]
  exact_mod_cast round_intCast_div (worth tel a) 2

theorem earned_mono (hw : 0 ≤ weight) (hp : part ≤ part') :
    earned weight part ≤ earned weight part' := by
  apply halfEven_mono
  gcongr

theorem earned_nonneg (hw : 0 ≤ weight) (hp : 0 ≤ part) :
    0 ≤ earned weight part := by
  apply le_halfEven
  push_cast
  positivity

theorem worth_nonneg (tel : TelemetryData) (a : ScopeAdherence) : 0 ≤ worth tel a := by
  have hmaint : 0 ≤ tel.maintainability / 100 := div_nonneg tel.maintainability_nonneg (by norm_num)
  have hsec : 0 ≤ securityScore tel.totalVulnerabilities tel.criticalVulnerabilities
      tel.highVulnerabilities / 100 := div_nonneg (le_max_left _ _) (by norm_num)
  have htests : (0 : ℚ) ≤ tel.passedTests / tel.totalTests := by positivity
  have hscope : (0 : ℚ) ≤ a.allowed / a.total := by positivity
  simp only [worth]
  split
  · have h₁ := earned_nonneg (show (0 : ℚ) ≤ 0.40 / 0.85 by norm_num) htests
    have h₂ := earned_nonneg (show (0 : ℚ) ≤ 0.25 / 0.85 by norm_num) hmaint
    have h₃ := earned_nonneg (show (0 : ℚ) ≤ 0.20 / 0.85 by norm_num) hsec
    omega
  · have h₁ := earned_nonneg (show (0 : ℚ) ≤ 0.40 by norm_num) htests
    have h₂ := earned_nonneg (show (0 : ℚ) ≤ 0.25 by norm_num) hmaint
    have h₃ := earned_nonneg (show (0 : ℚ) ≤ 0.20 by norm_num) hsec
    have h₄ := earned_nonneg (show (0 : ℚ) ≤ 0.15 by norm_num) hscope
    omega

end AssureCode.Scoring
