import AssureCode.Scoring.Worth
import AssureCode.Transition.Run

/-! # The scale of the stored trust scores

`freelancer_profiles.trust_score` is written by the score route, by the settlement of a contract
and when a profile is created. The ranking reads it as a number between 0 and 1. A settlement
divides the points of the oracle by a hundred; the score route stores its points as they are.
-/

namespace AssureCode.Scoring

open Machine Python Js Settlement Oracle

inductive Action
  | score (d : Deps) (o : Outcome) (req : XaiScoreRequest)
  /-- The worker commits a settlement. -/
  | settle (freelancerId : String) (trustScore : Option TrustScore)
  /-- `ensureFreelancerProfile` inserts a row, with the column's default. -/
  | createProfile (freelancerId : String)

def step (s : Profiles) : Action → Option Profiles
  | .score d o req => some (calculateXaiScore d o s req).2
  | .settle freelancerId trustScore => some (creditProfile s freelancerId trustScore)
  | .createProfile freelancerId =>
    if (s freelancerId).isSome then none
    else some (Function.update s freelancerId (some ⟨1 / 2, 0⟩))

/-- Every stored score is on the scale of the ranking. -/
def InScale (s : Profiles) : Prop :=
  ∀ f, ∀ p ∈ s f, 0 ≤ p.trustScore ∧ p.trustScore ≤ 1

def system : Machine Profiles Action where
  init := InScale
  step := step

/-- No measurements worth more than a point are stored over the score of a profile. -/
def OnePointAtMost (s : Profiles) : Action → Prop
  | .score d o req => o ≠ .failed → (s req.freelancerId).isSome → req.telemetry.Scorable →
    ∀ a, d.adherence req.contractId = .ok a → worth req.telemetry a ≤ 100
  | _ => True

variable {s t : Profiles} {act : Action} {as : List Action} {tel : TelemetryData}
  {a : ScopeAdherence} {d : Deps} {o : Outcome} {req : XaiScoreRequest} {freelancerId : String}

/-! ## What a step stores -/

theorem worth_inScale_iff :
    (0 ≤ (worth tel a : ℚ) / 100 ∧ (worth tel a : ℚ) / 100 ≤ 1) ↔ worth tel a ≤ 100 := by
  have h : (0 : ℚ) ≤ worth tel a := by exact_mod_cast worth_nonneg tel a
  rw [and_iff_right (by positivity), div_le_one (by norm_num)]
  norm_cast

/-- A request leaves the profiles alone, or stores the score of its measurements. -/
theorem calculateXaiScore_cases (d : Deps) (o : Outcome) (s : Profiles) (req : XaiScoreRequest) :
    (∃ a, o ≠ .failed ∧ req.telemetry.Scorable ∧ d.adherence req.contractId = .ok a ∧
      (calculateXaiScore d o s req).2 =
        rescoreProfile s req.freelancerId ((worth req.telemetry a : ℚ) / 100)) ∨
      (calculateXaiScore d o s req).2 = s ∧ (o ≠ .failed → req.telemetry.Scorable →
        ∀ a, d.adherence req.contractId ≠ .ok a) := by
  rcases hv : validateTelemetry req with e | u
  · right
    constructor
    · simp [calculateXaiScore, hv]
    · rintro - hscorable
      rw [validateTelemetry_eq_ok.mpr hscorable] at hv
      cases hv
  · have hscorable : req.telemetry.Scorable := validateTelemetry_eq_ok.mp hv
    rcases ha : d.adherence req.contractId with err | a
    · right
      simp [calculateXaiScore, hv, ha]
    · cases o with
      | failed =>
        right
        simp [calculateXaiScore, hv, ha, updateTrustScore]
      | ok | lost =>
        left
        use a
        simp [calculateXaiScore, hv, ha, updateTrustScore, trustScore_buildTerms, hscorable]

/-- An update of one profile keeps the scale when the new score is on it. -/
theorem inScale_update (hs : InScale s) {p : Option Profile} :
    InScale (Function.update s freelancerId p) ↔
      ∀ q ∈ p, 0 ≤ q.trustScore ∧ q.trustScore ≤ 1 := by
  constructor
  · rintro h q hq
    apply h freelancerId q
    rwa [Function.update_self]
  · rintro h f q hq
    by_cases hf : f = freelancerId
    · subst hf
      rw [Function.update_self] at hq
      exact h q hq
    · rw [Function.update_of_ne hf] at hq
      exact hs f q hq

theorem inScale_rescoreProfile (hs : InScale s) {x : ℚ} :
    InScale (rescoreProfile s freelancerId x) ↔
      ((s freelancerId).isSome → 0 ≤ x ∧ x ≤ 1) := by
  rw [rescoreProfile, inScale_update hs]
  cases s freelancerId <;> simp

/-- A settlement stores hundredths of the oracle's points. -/
theorem inScale_creditProfile (hs : InScale s) (trustScore : Option TrustScore) :
    InScale (creditProfile s freelancerId trustScore) := by
  unfold creditProfile
  split
  · rename_i t
    split
    · exact hs
    · rw [inScale_update hs]
      intro q hq
      obtain ⟨p, -, rfl⟩ := Option.mem_map.mp hq
      have hle : (t.hundredths : ℚ) ≤ 10000 := by exact_mod_cast t.le_max
      constructor
      · rw [TrustScore.toNumber]
        positivity
      · rw [TrustScore.toNumber, div_div, div_le_one (by norm_num)]
        linarith
  · exact hs

/-- A step keeps the scale exactly when it stores no points over the score of a profile. -/
theorem inScale_step (hs : InScale s) (h : step s act = some t) :
    OnePointAtMost s act ↔ InScale t := by
  cases act with
  | score d o req =>
    cases h
    rcases calculateXaiScore_cases d o s req with ⟨a, ho, hscorable, ha, hstored⟩ | ⟨hsame, hno⟩
    · rw [hstored, inScale_rescoreProfile hs, worth_inScale_iff]
      constructor
      · rintro h hrow
        exact h ho hrow hscorable a ha
      · rintro h - hrow - b hb
        cases ha.symm.trans hb
        exact h hrow
    · rw [hsame]
      apply iff_of_true _ hs
      rintro ho - hscorable a ha
      exact absurd ha (hno ho hscorable a)
  | settle freelancerId trustScore =>
    cases h
    exact iff_of_true trivial (inScale_creditProfile hs trustScore)
  | createProfile freelancerId =>
    simp only [step, Option.ite_none_left_eq_some, Option.some.injEq] at h
    obtain ⟨-, rfl⟩ := h
    apply iff_of_true trivial
    rw [inScale_update hs]
    rintro q ⟨⟩
    norm_num

/-- Stored scores stay on the scale of the ranking exactly in the runs that store no points. -/
theorem scores_inScale_iff (h : system.Run Any s as t) (hs : InScale s) :
    (∀ r ∈ system.visited s as, InScale r) ↔ system.Run OnePointAtMost s as t :=
  h.forall_visited_iff (fun _ _ _ _ _ => trivial)
    (fun _ _ _ _ hs hst => inScale_step hs hst) trivial hs

/-! ## Two requests -/

/-- A contract without scope checks, and a model that is down. -/
def unmeasured : Deps where
  adherence _ := .ok ⟨0, 0⟩
  generate _ _ := none
  mirrored _ := false
  now := "2026-01-01T00:00:00+00:00"

/-- Every test passed, and nothing found. -/
def flawless : XaiScoreRequest where
  contractId := "c-1"
  freelancerId := "alice"
  telemetry := ⟨100, 1, 10, 10, 0, 0, 0, by norm_num, by norm_num, by norm_num⟩
  contractId_ne := by decide
  freelancerId_ne := by decide

/-- One test of a hundred passed, and three critical findings. -/
def hopeless : XaiScoreRequest where
  contractId := "c-1"
  freelancerId := "alice"
  telemetry := ⟨0, 40, 1, 100, 3, 3, 0, by norm_num, by norm_num, by norm_num⟩
  contractId_ne := by decide
  freelancerId_ne := by decide

def onlyAlice : Profiles := Function.update (fun _ => none) "alice" (some ⟨1 / 2, 0⟩)

theorem onlyAlice_inScale : InScale onlyAlice := by
  have hnone : InScale fun _ => none := by
    rintro f p ⟨⟩
  rw [onlyAlice, inScale_update hnone]
  rintro p ⟨⟩
  norm_num

/-- A settlement and a request that is worth half a point stay on the scale. -/
theorem scores_inScale_hopeless :
    ∃ t, system.Run OnePointAtMost onlyAlice
        [.settle "alice" (some ⟨9500, by decide⟩), .score unmeasured .ok hopeless] t ∧
      (∀ r ∈ system.visited onlyAlice
        [.settle "alice" (some ⟨9500, by decide⟩), .score unmeasured .ok hopeless], InScale r) ∧
      t "alice" = some ⟨47 / 100, 1⟩ := by
  have hrun : system.Run OnePointAtMost onlyAlice
      [.settle "alice" (some ⟨9500, by decide⟩), .score unmeasured .ok hopeless]
      (calculateXaiScore unmeasured .ok (creditProfile onlyAlice "alice"
        (some ⟨9500, by decide⟩)) hopeless).2 := by
    apply Run.cons trivial rfl
    apply Run.single _ rfl
    rintro - - - a ⟨⟩
    decide +kernel
  have hany : system.Run Any onlyAlice _ _ := hrun.mono_of_invariant (I := fun _ => True)
    (fun _ _ _ _ _ _ => trivial) (fun _ _ _ _ _ _ => trivial) trivial
  exact ⟨_, hrun, (scores_inScale_iff hany onlyAlice_inScale).mpr hrun, by decide +kernel⟩

/-- A flawless delivery is stored as a hundred. -/
theorem points_stored :
    InScale onlyAlice ∧ ∃ t, system.Run Any onlyAlice [.score unmeasured .ok flawless] t ∧
      ∃ p ∈ t "alice", p.trustScore = 100 := by
  constructor
  · exact onlyAlice_inScale
  · have hstored : (calculateXaiScore unmeasured .ok onlyAlice flawless).2 "alice" =
        some ⟨100, 0⟩ := by decide +kernel
    exact ⟨_, .single trivial rfl, ⟨100, 0⟩, hstored, rfl⟩

end AssureCode.Scoring
