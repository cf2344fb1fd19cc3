import AssureCode.Scoring.Worth

/-! # The scores of two requests, and of one

Every term is a part of a whole under its weight, so the score keeps to its scale as long as no
part exceeds its whole, and better measurements do not lower it. Nothing compares the tests that
passed with the tests there are.
-/

namespace AssureCode.Scoring

open Python Js Settlement

/-- The score and the value of every term are between 0 and 100. -/
structure XaiScoreResponse.OnScale (res : XaiScoreResponse) : Prop where
  trustScore : 0 ≤ res.trustScore ∧ res.trustScore ≤ 100
  value : ∀ t ∈ res.terms, 0 ≤ t.value ∧ t.value ≤ 100

/-- The second measurements are nowhere worse, over as many tests and scope checks. -/
structure NowhereWorse (tel tel' : TelemetryData) (a a' : ScopeAdherence) : Prop where
  totalTests : tel'.totalTests = tel.totalTests
  total : a'.total = a.total
  passedTests : tel.passedTests ≤ tel'.passedTests
  maintainability : tel.maintainability ≤ tel'.maintainability
  totalVulnerabilities : tel'.totalVulnerabilities ≤ tel.totalVulnerabilities
  criticalVulnerabilities : tel'.criticalVulnerabilities ≤ tel.criticalVulnerabilities
  highVulnerabilities : tel'.highVulnerabilities ≤ tel.highVulnerabilities
  allowed : a.allowed ≤ a'.allowed

variable {d d' : Deps} {o o' : Outcome} {s s' : Profiles} {req req' : XaiScoreRequest}
  {res res' : XaiScoreResponse} {tel tel' : TelemetryData} {a a' : ScopeAdherence} {x : ℚ}

/-- A response carries the terms of its measurements and what they are worth. -/
theorem calculateXaiScore_eq_ok (h : (calculateXaiScore d o s req).1 = .ok res) :
    req.telemetry.Scorable ∧ ∃ a, d.adherence req.contractId = .ok a ∧
      res.terms = buildTerms req.telemetry a ∧
      res.trustScore = (worth req.telemetry a : ℚ) / 100 := by
  unfold calculateXaiScore at h
  rcases hv : validateTelemetry req with e | u
  · simp [hv] at h
  · rcases ha : d.adherence req.contractId with err | a
    · simp [hv, ha] at h
    · simp only [hv, ha, Except.ok.injEq] at h
      subst h
      exact ⟨validateTelemetry_eq_ok.mp hv, a, rfl, rfl, trustScore_buildTerms _ _⟩

/-! ## The scale -/

theorem securityScore_le (total critical high : ℕ) : securityScore total critical high ≤ 100 := by
  apply max_le (by norm_num)
  have h : (0 : ℚ) ≤ 40 * critical + 20 * high + 5 * total := by positivity
  linarith

theorem round_le_hundred_iff : Python.round x 2 ≤ 100 ↔ x ≤ 100 + 1 / 200 := by
  have hiff := halfEven_le_iff (n := 10000) (x := x * 10 ^ 2) (by norm_num)
  rw [Python.round, div_le_iff₀ (by norm_num), show (100 : ℚ) * 10 ^ 2 = (10000 : ℤ) by norm_num,
    Int.cast_le, hiff]
  constructor <;>
  · intro h
    push_cast at h ⊢
    linarith

/-- The values of the terms, in report order. -/
theorem forall_mem_buildTerms {P : ℚ → Prop} :
    (∀ t ∈ buildTerms tel a, P t.value) ↔
      P (Python.round (100 * tel.passedTests / tel.totalTests) 2) ∧
        P (Python.round tel.maintainability 2) ∧
        P (Python.round (securityScore tel.totalVulnerabilities tel.criticalVulnerabilities
          tel.highVulnerabilities) 2) ∧
        (a.total ≠ 0 → P (Python.round (100 * (a.allowed / a.total)) 2)) := by
  unfold buildTerms ScopeAdherence.ratio
  by_cases h : a.total = 0 <;> simp [h, measuredTerms, term]

/-- All terms but that of the tests have a value on the scale. -/
theorem values_onScale_iff (hcount : a.measured → a.allowed ≤ a.total) :
    (∀ t ∈ buildTerms tel a, 0 ≤ t.value ∧ t.value ≤ 100) ↔
      (100 * tel.passedTests / tel.totalTests : ℚ) ≤ 100 + 1 / 200 := by
  have hsec := securityScore_le tel.totalVulnerabilities tel.criticalVulnerabilities
    tel.highVulnerabilities
  rw [forall_mem_buildTerms (P := fun x => 0 ≤ x ∧ x ≤ 100)]
  simp only [round_le_hundred_iff]
  constructor
  · rintro ⟨⟨-, htests⟩, -⟩
    exact htests
  · rintro htests
    have hmaint := tel.maintainability_le
    refine ⟨⟨round_nonneg (by positivity) 2, htests⟩,
      ⟨round_nonneg tel.maintainability_nonneg 2, by linarith⟩,
      ⟨round_nonneg (le_max_left _ _) 2, by linarith⟩, fun htotal => ?_⟩
    have hpos : (0 : ℚ) < a.total := by exact_mod_cast Nat.pos_of_ne_zero htotal
    have hallowed : (a.allowed : ℚ) ≤ a.total := by
      exact_mod_cast hcount (by simp [ScopeAdherence.measured, Nat.pos_of_ne_zero htotal])
    have hratio : (a.allowed : ℚ) / a.total ≤ 1 := (div_le_one hpos).mpr hallowed
    constructor
    · exact round_nonneg (by positivity) 2
    · linarith

/-- Tests that exceed their whole by the rounding of their value earn no more than the whole. -/
theorem worth_le (htests : (tel.passedTests / tel.totalTests : ℚ) ≤ 20001 / 20000)
    (hcount : a.measured → a.allowed ≤ a.total) : worth tel a ≤ 10000 := by
  have hmaint : tel.maintainability / 100 ≤ 1 :=
    (div_le_one (by norm_num)).mpr tel.maintainability_le
  have hsec : securityScore tel.totalVulnerabilities tel.criticalVulnerabilities
      tel.highVulnerabilities / 100 ≤ 1 := (div_le_one (by norm_num)).mpr (securityScore_le _ _ _)
  simp only [worth]
  split
  · have h₁ := earned_mono (show (0 : ℚ) ≤ 0.40 / 0.85 by norm_num) htests
    have h₂ := earned_mono (show (0 : ℚ) ≤ 0.25 / 0.85 by norm_num) hmaint
    have h₃ := earned_mono (show (0 : ℚ) ≤ 0.20 / 0.85 by norm_num) hsec
    have hwhole : earned (0.40 / 0.85) (20001 / 20000) + earned (0.25 / 0.85) 1 +
        earned (0.20 / 0.85) 1 = 10000 := by decide +kernel
    omega
  · rename_i htotal
    have hpos : (0 : ℚ) < a.total := by exact_mod_cast Nat.pos_of_ne_zero htotal
    have hallowed : (a.allowed : ℚ) ≤ a.total := by
      exact_mod_cast hcount (by simp [ScopeAdherence.measured, Nat.pos_of_ne_zero htotal])
    have hscope : (a.allowed : ℚ) / a.total ≤ 1 := (div_le_one hpos).mpr hallowed
    have h₁ := earned_mono (show (0 : ℚ) ≤ 0.40 by norm_num) htests
    have h₂ := earned_mono (show (0 : ℚ) ≤ 0.25 by norm_num) hmaint
    have h₃ := earned_mono (show (0 : ℚ) ≤ 0.20 by norm_num) hsec
    have h₄ := earned_mono (show (0 : ℚ) ≤ 0.15 by norm_num) hscope
    have hwhole : earned 0.40 (20001 / 20000) + earned 0.25 1 + earned 0.20 1 +
        earned 0.15 1 = 10000 := by decide +kernel
    omega

/--
A response is on the scale exactly when the tests that passed are no more than the tests there
are, but for what the rounding of their value takes away.
-/
theorem onScale_iff (h : (calculateXaiScore d o s req).1 = .ok res)
    (hcount : ∀ a, d.adherence req.contractId = .ok a → a.measured → a.allowed ≤ a.total) :
    res.OnScale ↔ 20000 * req.telemetry.passedTests ≤ 20001 * req.telemetry.totalTests := by
  obtain ⟨⟨-, htests⟩, a, ha, hterms, hscore⟩ := calculateXaiScore_eq_ok h
  have hpos : (0 : ℚ) < req.telemetry.totalTests := by
    exact_mod_cast Nat.pos_of_ne_zero htests
  have hvalues : (∀ t ∈ buildTerms req.telemetry a, 0 ≤ t.value ∧ t.value ≤ 100) ↔ _ :=
    values_onScale_iff (hcount a ha)
  have hratio : (req.telemetry.passedTests / req.telemetry.totalTests : ℚ) ≤ 20001 / 20000 ↔
      20000 * req.telemetry.passedTests ≤ 20001 * req.telemetry.totalTests := by
    rw [div_le_div_iff₀ hpos (by norm_num), mul_comm (req.telemetry.passedTests : ℚ)]
    norm_cast
  have hvalue : (100 * req.telemetry.passedTests / req.telemetry.totalTests : ℚ) ≤ 100 + 1 / 200 ↔
      (req.telemetry.passedTests / req.telemetry.totalTests : ℚ) ≤ 20001 / 20000 := by
    rw [mul_div_assoc]
    constructor <;> intro h <;> linarith
  rw [← hratio, ← hvalue]
  constructor
  · rintro ⟨-, hall⟩
    rw [hterms] at hall
    exact hvalues.mp hall
  · intro hle
    have hworth : (worth req.telemetry a : ℚ) ≤ 10000 := by
      exact_mod_cast worth_le (hvalue.mp hle) (hcount a ha)
    have hnonneg : (0 : ℚ) ≤ worth req.telemetry a := by exact_mod_cast worth_nonneg _ a
    constructor
    · rw [hscore]
      constructor <;> linarith
    · rw [hterms]
      exact hvalues.mpr hle

/-- A contract with these scope checks, and a model that is down. -/
def checked (a : ScopeAdherence) : Deps where
  adherence _ := .ok a
  generate _ _ := none
  mirrored _ := false
  now := "2026-01-01T00:00:00+00:00"

theorem contract_ne : "c-1" ≠ "" := by decide

theorem freelancer_ne : "alice" ≠ "" := by decide

def reporting (tel : TelemetryData) : XaiScoreRequest where
  contractId := "c-1"
  freelancerId := "alice"
  telemetry := tel
  contractId_ne := contract_ne
  freelancerId_ne := freelancer_ne

/-- Nine tests of ten passed, and one high finding. -/
def mostPassed : TelemetryData :=
  ⟨80, 3, 9, 10, 1, 0, 1, by norm_num, by norm_num, by norm_num⟩

/-- Thirty tests of ten passed, and three critical findings. -/
def overcounted : TelemetryData :=
  { mostPassed with
    passedTests := 30
    totalVulnerabilities := 3
    criticalVulnerabilities := 3
    highVulnerabilities := 0 }

theorem onScale_mostPassed :
    ∃ res, (calculateXaiScore (checked ⟨1, 2⟩) .ok (fun _ => none) (reporting mostPassed)).1 =
      .ok res ∧ res.OnScale := by
  obtain ⟨res, hres⟩ : ∃ res, (calculateXaiScore (checked ⟨1, 2⟩) .ok (fun _ => none)
      (reporting mostPassed)).1 = .ok res := ⟨_, rfl⟩
  refine ⟨res, hres, (onScale_iff hres ?_).mpr (by decide)⟩
  rintro a ⟨⟩ -
  decide

/-- More tests than there are make up for the findings, far over the scale. -/
theorem overcounted_offScale :
    ∃ res, (calculateXaiScore (checked ⟨0, 0⟩) .ok (fun _ => none) (reporting overcounted)).1 =
      .ok res ∧ res.trustScore = 16471 / 100 ∧ ¬ res.OnScale := by
  have hscore : trustScore (buildTerms overcounted ⟨0, 0⟩) = 16471 / 100 := by decide +kernel
  refine ⟨_, rfl, hscore, ?_⟩
  rintro ⟨⟨-, hle⟩, -⟩
  exact absurd (hscore.symm.le.trans hle) (by norm_num)

/-! ## The order -/

theorem securityScore_anti {total critical high total' critical' high' : ℕ} (ht : total' ≤ total)
    (hc : critical' ≤ critical) (hh : high' ≤ high) :
    securityScore total critical high ≤ securityScore total' critical' high' := by
  unfold securityScore
  gcongr

theorem worth_mono (h : NowhereWorse tel tel' a a') : worth tel a ≤ worth tel' a' := by
  have hp := h.passedTests
  have ha := h.allowed
  have htests : (tel.passedTests / tel.totalTests : ℚ) ≤ tel'.passedTests / tel'.totalTests := by
    rw [h.totalTests]
    gcongr
  have hscope : (a.allowed / a.total : ℚ) ≤ a'.allowed / a'.total := by
    rw [h.total]
    gcongr
  have hmaint : tel.maintainability / 100 ≤ tel'.maintainability / 100 := by
    linarith [h.maintainability]
  have hsec : securityScore tel.totalVulnerabilities tel.criticalVulnerabilities
      tel.highVulnerabilities / 100 ≤ securityScore tel'.totalVulnerabilities
        tel'.criticalVulnerabilities tel'.highVulnerabilities / 100 := by
    linarith [securityScore_anti h.totalVulnerabilities h.criticalVulnerabilities
      h.highVulnerabilities]
  simp only [worth, h.total]
  split
  · have h₁ := earned_mono (show (0 : ℚ) ≤ 0.40 / 0.85 by norm_num) htests
    have h₂ := earned_mono (show (0 : ℚ) ≤ 0.25 / 0.85 by norm_num) hmaint
    have h₃ := earned_mono (show (0 : ℚ) ≤ 0.20 / 0.85 by norm_num) hsec
    omega
  · have h₁ := earned_mono (show (0 : ℚ) ≤ 0.40 by norm_num) htests
    have h₂ := earned_mono (show (0 : ℚ) ≤ 0.25 by norm_num) hmaint
    have h₃ := earned_mono (show (0 : ℚ) ≤ 0.20 by norm_num) hsec
    have h₄ := earned_mono (show (0 : ℚ) ≤ 0.15 by norm_num) hscope
    rw [h.total] at h₄
    omega

/-- Measurements that are nowhere worse are not scored lower. -/
theorem trustScore_mono (h : (calculateXaiScore d o s req).1 = .ok res)
    (h' : (calculateXaiScore d' o' s' req').1 = .ok res')
    (ha : d.adherence req.contractId = .ok a) (ha' : d'.adherence req'.contractId = .ok a')
    (hmono : NowhereWorse req.telemetry req'.telemetry a a') :
    res.trustScore ≤ res'.trustScore := by
  obtain ⟨-, b, hb, -, hscore⟩ := calculateXaiScore_eq_ok h
  obtain ⟨-, b', hb', -, hscore'⟩ := calculateXaiScore_eq_ok h'
  cases ha.symm.trans hb
  cases ha'.symm.trans hb'
  have hworth : (worth req.telemetry a : ℚ) ≤ worth req'.telemetry a' := by
    exact_mod_cast worth_mono hmono
  rw [hscore, hscore']
  linarith

/-- All tests of ten passed, and the same finding. -/
def allPassed : TelemetryData := { mostPassed with passedTests := 10 }

theorem trustScore_mono_allPassed :
    ∃ res res',
      (calculateXaiScore (checked ⟨1, 2⟩) .ok (fun _ => none) (reporting mostPassed)).1 = .ok res ∧
      (calculateXaiScore (checked ⟨2, 2⟩) .ok (fun _ => none) (reporting allPassed)).1 = .ok res' ∧
      res.trustScore ≤ res'.trustScore := by
  obtain ⟨res, hres⟩ : ∃ res, (calculateXaiScore (checked ⟨1, 2⟩) .ok (fun _ => none)
      (reporting mostPassed)).1 = .ok res := ⟨_, rfl⟩
  obtain ⟨res', hres'⟩ : ∃ res, (calculateXaiScore (checked ⟨2, 2⟩) .ok (fun _ => none)
      (reporting allPassed)).1 = .ok res := ⟨_, rfl⟩
  refine ⟨res, res', hres, hres', trustScore_mono hres hres' rfl rfl ?_⟩
  constructor <;> simp [allPassed, mostPassed, reporting]

end AssureCode.Scoring
