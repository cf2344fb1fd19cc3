import AssureCode.Pipeline.Model

/-! # Audits and scores that belong together

The signals and the score of the oracle row arrive separately. An approval goes
by one audit exactly when a passing score never meets the passing signals of
another audit, or of one that was recorded after a newer one.
-/

namespace AssureCode.Pipeline

open Machine Oracle

variable {s t : State} {act : Action} {as : List Action} {a : Audit} {e : ScoreEvent} {now : ℕ}

/-- The audit is the newest of those recorded, itself included. -/
def State.Newest (s : State) (a : Audit) : Prop := ∀ x ∈ s.recorded, x.audit.run ≤ a.run

/-- One audit gave the row its signals and its score, and none recorded is newer. -/
def State.Coherent (s : State) : Prop :=
  ∃ a, s.recorded.head?.map (·.audit) = some a ∧ s.scored.map (·.audit) = some a ∧ s.Newest a

/-- The row would be approved, were no scope check rejected. -/
def State.Approvable (s : State) : Prop :=
  ∃ r ∈ s.oracleState, r.signals.allPassed ∧ r.scorePasses

/-- The score the event carries passes, once stored. -/
def ScoreEvent.passes (e : ScoreEvent) : Prop :=
  ∃ t, scoreColumns e.trustScore e.criticalVulns = some (t, 0) ∧ ¬ t.below

/--
Passing signals are recorded over a passing score only if the score is of the same audit, and a
passing score over passing signals likewise; and only of the newest audit recorded.
-/
def KeepsCoherent (s : State) : Action → Prop
  | .recordAudit a => a.payload.signals.allPassed → (∃ r ∈ s.oracleState, r.scorePasses) →
      s.scored.map (·.audit) = some a ∧ s.Newest a
  | .recordScore e now => e.applies s.oracleState now → e.passes →
      (∃ r ∈ s.oracleState, r.signals.allPassed) →
        s.recorded.head?.map (·.audit) = some e.audit ∧ s.Newest e.audit
  | _ => True

/-! ## The history tells what the row holds -/

/-- What the history says of a row: the last recorded signals and the last applied score. -/
structure OracleHistory (s : State) : Prop where
  signals : ∀ r ∈ s.oracleState,
    r.signals = s.recorded.head?.elim ⟨false, false, false⟩ (·.audit.payload.signals)
  score : ∀ r ∈ s.oracleState, s.scored.bind (fun e => scoreColumns e.trustScore e.criticalVulns) =
    r.trustScore.bind fun t => r.criticalVulns.map (t, ·)
  absent : s.oracleState = none → s.recorded = [] ∧ s.scored = none

/-- The oracle row and its history as they were. -/
structure SameOracle (s t : State) : Prop where
  oracleState : t.oracleState = s.oracleState
  recorded : t.recorded = s.recorded
  scored : t.scored = s.scored

/-- A step records an audit, stores a score, or leaves the oracle row alone. -/
theorem oracle_step (h : step s act = some t) :
    (∃ a, act = .recordAudit a ∧
      t.oracleState = some (Oracle.recordAudit s.oracleState a.payload.signals) ∧
      t.recorded = ⟨a, s.hasReal⟩ :: s.recorded ∧ t.scored = s.scored) ∨
    (∃ e now q c, act = .recordScore e now ∧ e.applies s.oracleState now ∧
      scoreColumns e.trustScore e.criticalVulns = some (q, c) ∧
      t.oracleState = some { s.oracleState.getD {} with
        trustScore := some q, criticalVulns := some c, scoredAt := some (e.scoredAt.getD now) } ∧
      t.recorded = s.recorded ∧ t.scored = some e) ∨
    SameOracle s t ∧ (∀ a, act ≠ .recordAudit a) ∧
      ∀ e now, act = .recordScore e now → ¬ e.applies s.oracleState now := by
  cases act with
  | recordAudit a =>
    simp only [step, Option.ite_none_right_eq_some, Option.some.injEq] at h
    obtain ⟨-, rfl⟩ := h
    exact .inl ⟨a, rfl, rfl, rfl, rfl⟩
  | recordScore e now =>
    simp only [step, Option.ite_none_right_eq_some, Option.some.injEq] at h
    obtain ⟨-, rfl⟩ := h
    by_cases ha : e.applies s.oracleState now
    · obtain ⟨⟨q, c⟩, hc⟩ := Option.isSome_iff_exists.mp ha.1
      exact .inr <| .inl
        ⟨e, now, q, c, rfl, ha, hc, recordScore_of_applies hc ha.2, rfl, if_pos ha⟩
    · refine .inr <| .inr ⟨⟨recordScore_of_not_applies ha, rfl, if_neg ha⟩, by simp, ?_⟩
      rintro e' now' heq
      cases heq
      exact ha
  | read =>
    obtain ⟨a, -, rfl⟩ := Option.map_eq_some_iff.mp h
    exact .inr <| .inr ⟨⟨rfl, rfl, rfl⟩, by simp, by simp⟩
  | check callerCode =>
    simp only [step, Option.ite_none_left_eq_some, Option.some.injEq] at h
    obtain ⟨-, rfl⟩ := h
    exact .inr <| .inr ⟨⟨rfl, rfl, rfl⟩, by simp, by simp⟩
  | push | rescope checks =>
    cases h
    exact .inr <| .inr ⟨⟨rfl, rfl, rfl⟩, by simp, by simp⟩
  | _ =>
    simp only [step, Option.ite_none_right_eq_some, Option.some.injEq] at h
    obtain ⟨-, rfl⟩ := h
    exact .inr <| .inr ⟨⟨rfl, rfl, rfl⟩, by simp, by simp⟩

theorem oracleHistory_step (hs : OracleHistory s) (h : step s act = some t) : OracleHistory t := by
  rcases oracle_step h with ⟨a, -, ho, hr, hsc⟩ | ⟨e, now, q, c, -, -, hc, ho, hr, hsc⟩ |
    ⟨⟨ho, hr, hsc⟩, -⟩
  · refine ⟨?_, ?_, by simp [ho]⟩
    · simp [ho, hr]
    · rw [ho, hsc]
      rintro _ ⟨⟩
      cases hrow : s.oracleState with
      | none => simp [(hs.absent hrow).2, Oracle.recordAudit]
      | some r => simpa [Oracle.recordAudit] using hs.score r hrow
  · refine ⟨?_, ?_, by simp [ho]⟩
    · rw [ho, hr]
      rintro _ ⟨⟩
      cases hrow : s.oracleState with
      | none => simp [(hs.absent hrow).1, OracleState.signals]
      | some r => simpa [OracleState.signals] using hs.signals r hrow
    · rw [ho, hsc]
      rintro _ ⟨⟩
      simp [hc]
  · exact ⟨by rw [ho, hr]; exact hs.signals, by rw [ho, hsc]; exact hs.score,
      by rw [ho, hr, hsc]; exact hs.absent⟩

theorem oracleHistory_run {K : State → Action → Prop} (h : system.Run K {} as s) :
    OracleHistory s :=
  h.invariant (fun _ _ _ hs _ hst => oracleHistory_step hs hst) ⟨by simp, by simp, by simp⟩

/-! ## Coherence -/

theorem coherent_step (hp : s.Approvable → s.Coherent) (h : step s act = some t) :
    KeepsCoherent s act ↔ (t.Approvable → t.Coherent) := by
  rcases oracle_step h with ⟨a, rfl, ho, hr, hsc⟩ | ⟨e, now, q, c, rfl, ha, hc, ho, hr, hsc⟩ |
    ⟨⟨ho, hr, hsc⟩, hna, hne⟩
  · have happ : t.Approvable ↔
        a.payload.signals.allPassed ∧ ∃ r ∈ s.oracleState, r.scorePasses := by
      simp [State.Approvable, ho]
    have hcoh : t.Coherent ↔ s.scored.map (·.audit) = some a ∧ s.Newest a := by
      simp [State.Coherent, hr, hsc, State.Newest]
    rw [happ, hcoh, KeepsCoherent, and_imp]
  · have hpass : e.passes ↔ ¬ q.below ∧ c = 0 := by
      simp [ScoreEvent.passes, hc, and_comm]
    have hsig : (s.oracleState.getD {}).signals.allPassed ↔
        ∃ r ∈ s.oracleState, r.signals.allPassed := by
      cases s.oracleState <;> simp [OracleState.signals, AuditSignals.allPassed]
    have happ : t.Approvable ↔ e.passes ∧ ∃ r ∈ s.oracleState, r.signals.allPassed := by
      rw [hpass, ← hsig, and_comm]
      simp [State.Approvable, ho, OracleState.scorePasses, OracleState.signals]
    have hcoh : t.Coherent ↔
        s.recorded.head?.map (·.audit) = some e.audit ∧ s.Newest e.audit := by
      simp only [State.Coherent, State.Newest, hr, hsc, Option.map_some, Option.some.injEq]
      constructor
      · rintro ⟨_, hlast, rfl, hnew⟩
        exact ⟨hlast, hnew⟩
      · rintro ⟨hlast, hnew⟩
        exact ⟨e.audit, hlast, rfl, hnew⟩
    rw [happ, hcoh, and_imp]
    exact ⟨fun hk => hk ha, fun hk _ => hk⟩
  · have hsame : (t.Approvable → t.Coherent) ↔ (s.Approvable → s.Coherent) := by
      simp only [State.Approvable, State.Coherent, State.Newest, ho, hr, hsc]
    refine iff_of_true ?_ (hsame.mpr hp)
    cases act with
    | recordAudit a => exact absurd rfl (hna a)
    | recordScore e now => exact fun ha => absurd ha (hne e now rfl)
    | _ => trivial

theorem approvable_iff : s.Approvable ↔
    ∃ checks, (evaluate s.oracleState checks).approved = true := by
  simp only [evaluate_approved, State.Approvable]
  constructor
  · rintro ⟨r, hr, hsig, hsc⟩
    exact ⟨[], r, hr, hsig, hsc, rfl⟩
  · rintro ⟨checks, r, hr, hsig, hsc, -⟩
    exact ⟨r, hr, hsig, hsc⟩

/--
In every state a run visits, an approval, whatever the scope checks, goes by the signals and the
score of the newest audit recorded, if and only if each step of the run keeps passing signals and
passing scores of different audits apart.
-/
theorem approved_coherent_iff (h : system.Run Any {} as s) :
    (∀ r ∈ system.visited {} as, OracleHistory r ∧
      ∀ checks, (evaluate r.oracleState checks).approved = true → r.Coherent) ↔
    system.Run KeepsCoherent {} as s := by
  have hiff := h.forall_visited_iff (I := OracleHistory) (P := fun s => s.Approvable → s.Coherent)
    (K := KeepsCoherent) (fun _ _ _ hs hst => oracleHistory_step hs hst)
    (fun _ _ _ _ hp hst => coherent_step hp hst) ⟨by simp, by simp, by simp⟩
    (by simp [State.Approvable])
  have hhist : ∀ r ∈ system.visited {} as, OracleHistory r :=
    h.forall_visited (fun _ _ _ hs _ hst => oracleHistory_step hs hst) ⟨by simp, by simp, by simp⟩
  rw [← hiff]
  apply forall₂_congr
  intro r hr
  rw [approvable_iff]
  exact ⟨fun hc ⟨checks, ha⟩ => hc.2 checks ha,
    fun hc => ⟨hhist r hr, fun checks ha => hc ⟨checks, ha⟩⟩⟩

/-! ## A score that outlives its audit -/

def passingPayload : AuditPayload where
  maintainability := some 90
  passedTests := some 3
  totalTests := some 3
  vulnerabilities := some 0
  securityScanComplete := some true

/-- A push is audited, as run `n`, and the audit recorded. -/
def auditPasses (n : ℕ) : List Action :=
  [.push, .start false, .save passingPayload, .publish ⟨n, passingPayload⟩,
    .recordAudit ⟨n, passingPayload⟩]

def passingScore : ScoreEvent := ⟨⟨0, passingPayload⟩, 95, 0, some 1⟩

/-- The first audit is scored; the second is recorded before its own score is in. -/
def outlives : List Action :=
  auditPasses 0 ++ [.read, .score passingScore, .recordScore passingScore 1] ++ auditPasses 1

theorem exec_outlives : ∃ s, system.exec {} outlives = some s ∧
    (evaluate s.oracleState s.scopeChecks).approved = true ∧
    s.recorded.head?.map (·.audit) = some ⟨1, passingPayload⟩ ∧
    s.scored.map (·.audit) = some ⟨0, passingPayload⟩ := by
  have h : (system.exec {} outlives).map (fun s => decide (
      (evaluate s.oracleState s.scopeChecks).approved = true ∧
      s.recorded.head?.map (·.audit) = some ⟨1, passingPayload⟩ ∧
      s.scored.map (·.audit) = some ⟨0, passingPayload⟩)) = some true := by decide +kernel
  obtain ⟨s, hs, heq⟩ := Option.map_eq_some_iff.mp h
  exact ⟨s, hs, of_decide_eq_true heq⟩

theorem approved_coherent_outlives : ∃ s, system.exec {} outlives = some s ∧
    ((∀ r ∈ system.visited {} outlives, OracleHistory r ∧
      ∀ checks, (evaluate r.oracleState checks).approved = true → r.Coherent) ↔
    system.Run KeepsCoherent {} outlives s) := by
  obtain ⟨s, hs, -⟩ := exec_outlives
  exact ⟨s, hs, approved_coherent_iff (run_of_exec hs)⟩

theorem approved_incoherent : ¬ ∀ as s, system.Run Any {} as s →
    (evaluate s.oracleState s.scopeChecks).approved = true → s.Coherent := by
  intro hall
  obtain ⟨s, hs, ha, hlast, hscored⟩ := exec_outlives
  obtain ⟨a, hl, hsc, -⟩ := hall outlives s (run_of_exec hs) ha
  rw [hl] at hlast
  rw [hsc, Option.some.injEq] at hscored
  rw [hscored] at hlast
  simp at hlast

end AssureCode.Pipeline
