import AssureCode.Oracle.Store
import AssureCode.Transition.LastWrite

/-! # Delivery of scores

The upsert of `recordScore` makes of the three score columns a register that keeps the last write:
whatever order scores come in and however often, and whatever audits come between, the columns end
as the latest score that they admit has it.
-/

namespace AssureCode.Oracle

/-- The arguments of `recordScore`, with a `scoredAt`. -/
structure ScoreCall where
  trustScore : ℚ
  criticalVulns : ℚ
  scoredAt : ℕ
  deriving DecidableEq

inductive Delivery
  | audit (signals : AuditSignals)
  | score (call : ScoreCall) (now : ℕ)

def deliver (row : Option OracleState) : Delivery → Option OracleState
  | .audit signals => some (recordAudit row signals)
  | .score call now =>
    recordScore row call.trustScore call.criticalVulns (some call.scoredAt) now

/-- The values of the two score columns, when these admit them. -/
def ScoreCall.columns (call : ScoreCall) : Option (TrustScore × ℕ) :=
  scoreColumns call.trustScore call.criticalVulns

def Delivery.call? : Delivery → Option ScoreCall
  | .audit _ => none
  | .score call _ => some call

/-- The calls among the deliveries. -/
def calls (ds : List Delivery) : List ScoreCall := ds.filterMap Delivery.call?

/-- The calls whose values the columns admit. -/
def admitted (ds : List Delivery) : List ScoreCall := (calls ds).filter (·.columns.isSome)

/-- The score columns hold the call, or nothing yet. -/
def Holds (row : Option OracleState) : Option ScoreCall → Prop
  | none => ∀ r ∈ row, r.scoredAt = none
  | some call => ∃ r t c, row = some r ∧ call.columns = some (t, c) ∧ r.trustScore = some t ∧
      r.criticalVulns = some c ∧ r.scoredAt = some call.scoredAt

variable {row : Option OracleState} {held : Option ScoreCall} {call : ScoreCall}
  {ds : List Delivery} {d : Delivery} {t : TrustScore} {c now : ℕ}

/-- An audit leaves the score columns alone. -/
theorem holds_audit {signals : AuditSignals} (h : Holds row held) :
    Holds (some (recordAudit row signals)) held := by
  cases held with
  | none =>
    rintro r ⟨⟩
    cases row with
    | none => rfl
    | some r => exact h r rfl
  | some call =>
    obtain ⟨r, t, c, rfl, hcolumns, ht, hc, hat⟩ := h
    exact ⟨_, t, c, rfl, hcolumns, ht, hc, hat⟩

theorem scoreApplies_iff (h : Holds row held) (stamp : ℕ) :
    scoreApplies row stamp ↔ ∀ b ∈ held, b.scoredAt ≤ stamp := by
  cases held with
  | none =>
    refine iff_of_true (fun r hr stored hstored => ?_) nofun
    rw [h r hr] at hstored
    cases hstored
  | some call =>
    obtain ⟨r, t, c, rfl, -, -, -, hat⟩ := h
    simp [scoreApplies, hat]

/-- A score writes the columns as a register is written, when they admit its values. -/
theorem holds_score (call : ScoreCall) (now : ℕ) (h : Holds row held) :
    Holds (recordScore row call.trustScore call.criticalVulns (some call.scoredAt) now)
      (if call.columns.isSome then LastWrite.write ScoreCall.scoredAt held call else held) := by
  cases hcolumns : call.columns with
  | none =>
    rw [recordScore_of_not_applies fun hboth => by rw [ScoreCall.columns] at hcolumns; simp_all]
    exact h
  | some tc =>
    obtain ⟨t, c⟩ := tc
    rw [Option.isSome_some, if_pos rfl]
    by_cases hle : ∀ b ∈ held, b.scoredAt ≤ call.scoredAt
    · have happlies : scoreApplies row ((some call.scoredAt).getD now) :=
        (scoreApplies_iff h _).mpr hle
      rw [recordScore_of_applies hcolumns happlies, LastWrite.write_of_le hle]
      exact ⟨_, t, c, rfl, hcolumns, rfl, rfl, rfl⟩
    · rw [recordScore_of_not_applies fun hboth => hle ((scoreApplies_iff h _).mp hboth.2),
        LastWrite.write_of_lt hle]
      exact h

/-- The row after any deliveries holds what a register would that has had the admitted calls. -/
theorem holds_deliveries (h : Holds row none) (ds : List Delivery) :
    Holds (ds.foldl deliver row)
      ((admitted ds).foldl (LastWrite.write ScoreCall.scoredAt) none) := by
  induction ds using List.reverseRecOn with
  | nil => exact h
  | append_singleton ds d ih =>
    rw [List.foldl_append, List.foldl_cons, List.foldl_nil, admitted, calls, List.filterMap_append,
      List.filter_append, List.foldl_append, ← calls, ← admitted]
    cases d with
    | audit signals => exact holds_audit ih
    | score call now =>
      have hscore := holds_score call now ih
      cases hcolumns : call.columns.isSome with
      | true =>
        rw [hcolumns, if_pos rfl] at hscore
        simpa [deliver, Delivery.call?, hcolumns] using hscore
      | false =>
        rw [hcolumns] at hscore
        simpa [deliver, Delivery.call?, hcolumns] using hscore

/-- A score of 90 and a later one that the check of the column refuses. -/
def refusedLast : List Delivery := [.score ⟨90, 0, 1⟩ 0, .audit ⟨true, true, true⟩,
  .score ⟨101, 0, 2⟩ 0]

end AssureCode.Oracle
