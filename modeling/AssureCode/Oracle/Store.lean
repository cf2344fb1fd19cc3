import Mathlib.Data.Rat.Floor
import Mathlib.Tactic.Common

/-! # The oracle store

The `oracle_state` row of a contract, the statements that write it, and the
evaluation that reads it together with the scope checks. The score column is
`NUMERIC(5,2)` under a check constraint, so a stored score is a number of
hundredths between 0 and 100.00.
-/

namespace AssureCode.Oracle

/-- A value the `trust_score` column admits, counted in hundredths. -/
structure TrustScore where
  hundredths : ℕ
  le_max : hundredths ≤ 10000
  deriving DecidableEq, Repr

namespace TrustScore

/-- `NUMERIC(5,2)` rounds half away from zero; the check constraint refuses the rest. -/
def ofNumber (q : ℚ) : Option TrustScore :=
  let r : ℤ := if 0 ≤ q then ⌊q * 100 + 1 / 2⌋ else -⌊-q * 100 + 1 / 2⌋
  if h : 0 ≤ r ∧ r ≤ 10000 then some ⟨r.toNat, by omega⟩ else none

def toNumber (t : TrustScore) : ℚ := (t.hundredths : ℚ) / 100

/-- `String(Number(row.trust_score))`: the decimals without trailing zeros. -/
def toString (t : TrustScore) : String :=
  let units := s!"{t.hundredths / 100}"
  let tenths := t.hundredths / 10 % 10
  let last := t.hundredths % 10
  if last ≠ 0 then s!"{units}.{tenths}{last}"
  else if tenths ≠ 0 then s!"{units}.{tenths}"
  else units

/-- `TRUST_SCORE_THRESHOLD`, in points. -/
def threshold : ℕ := 85

/-- `trustScore < TRUST_SCORE_THRESHOLD` -/
def below (t : TrustScore) : Prop := t.hundredths < threshold * 100

instance (t : TrustScore) : Decidable t.below :=
  inferInstanceAs (Decidable (t.hundredths < threshold * 100))

theorem below_iff (t : TrustScore) : t.below ↔ t.toNumber < threshold := by
  rw [below, toNumber, div_lt_iff₀ (by norm_num)]
  exact_mod_cast Iff.rfl

end TrustScore

/-- A row of `oracle_state`; `scored_at` is read off the producer's clock. -/
structure OracleState where
  astPassed : Bool := false
  testsPassed : Bool := false
  securityPassed : Bool := false
  trustScore : Option TrustScore := none
  criticalVulns : Option ℕ := none
  scoredAt : Option ℕ := none
  deriving DecidableEq, Repr

/-- The columns of `scope_checks` that the evaluation counts. -/
structure ScopeCheck where
  allowed : Bool
  dismissed : Bool
  deriving DecidableEq, Repr

/-- The three signals an `AUDIT_COMPLETED` event carries. -/
structure AuditSignals where
  astPassed : Bool
  testsPassed : Bool
  securityPassed : Bool
  deriving DecidableEq, Repr

def AuditSignals.allPassed (g : AuditSignals) : Prop :=
  g.astPassed = true ∧ g.testsPassed = true ∧ g.securityPassed = true

instance (g : AuditSignals) : Decidable g.allPassed :=
  inferInstanceAs (Decidable (_ ∧ _ ∧ _))

structure OracleSignals where
  astPassed : Bool
  testsPassed : Bool
  securityPassed : Bool
  scopePassed : Bool
  trustScore : Option TrustScore
  criticalVulns : Option ℕ
  deriving DecidableEq, Repr

structure OracleVerdict where
  approved : Bool
  signals : OracleSignals
  blockers : List String
  deriving DecidableEq, Repr

def OracleState.signals (row : OracleState) : AuditSignals :=
  ⟨row.astPassed, row.testsPassed, row.securityPassed⟩

/-- The upsert of `recordAudit`: it writes the three signal columns and no other. -/
def recordAudit (row : Option OracleState) (g : AuditSignals) : OracleState :=
  { row.getD {} with
    astPassed := g.astPassed
    testsPassed := g.testsPassed
    securityPassed := g.securityPassed }

/-- The values `recordScore` sends to the two score columns, when the columns admit them. -/
def scoreColumns (trustScore criticalVulns : ℚ) : Option (TrustScore × ℕ) :=
  if criticalVulns.den = 1 ∧ 0 ≤ criticalVulns.num ∧ criticalVulns.num < 2 ^ 31 then
    (TrustScore.ofNumber trustScore).map fun t => (t, criticalVulns.num.toNat)
  else none

/-- The guard of `recordScore`: never replace a score by one stamped earlier. -/
def scoreApplies (row : Option OracleState) (scoredAt : ℕ) : Prop :=
  ∀ r ∈ row, ∀ stored ∈ r.scoredAt, stored ≤ scoredAt

instance (row : Option OracleState) (scoredAt : ℕ) : Decidable (scoreApplies row scoredAt) :=
  match row with
  | none => isTrue (by simp [scoreApplies])
  | some r =>
    match h : r.scoredAt with
    | none => isTrue (by simp [scoreApplies, h])
    | some stored =>
      decidable_of_iff (stored ≤ scoredAt) (by simp [scoreApplies, h])

/--
The upsert of `recordScore`. A statement that the columns refuse raises, and leaves the row
as it was; `now` is what `COALESCE` falls back to when the event has no `scoredAt`.
-/
def recordScore (row : Option OracleState) (trustScore criticalVulns : ℚ)
    (scoredAt : Option ℕ) (now : ℕ) : Option OracleState :=
  match scoreColumns trustScore criticalVulns with
  | none => row
  | some (t, c) =>
    let stamp := scoredAt.getD now
    if scoreApplies row stamp then
      some { row.getD {} with
        trustScore := some t, criticalVulns := some c, scoredAt := some stamp }
    else row

/-- `count(*) FILTER (WHERE NOT allowed AND NOT dismissed)` -/
def rejected (checks : List ScopeCheck) : ℕ :=
  checks.countP fun c => !c.allowed && !c.dismissed

def signalsOf (row : Option OracleState) (checks : List ScopeCheck) : OracleSignals where
  astPassed := row.elim false (·.astPassed)
  testsPassed := row.elim false (·.testsPassed)
  securityPassed := row.elim false (·.securityPassed)
  scopePassed := rejected checks == 0
  trustScore := row.bind (·.trustScore)
  criticalVulns := row.bind (·.criticalVulns)

/-- One guarded `blockers.push`. -/
def blocker (c : Bool) (text : String) : List String := if c then [text] else []

def trustBlockers : Option TrustScore → List String
  | none => ["no trust score recorded (XAI_SCORED never received)"]
  | some t => blocker (decide t.below)
      s!"trust score {t.toString} is below the {TrustScore.threshold} threshold"

def criticalBlockers : Option ℕ → List String
  | none => ["critical vulnerability count unknown"]
  | some c => blocker (decide (0 < c)) s!"{c} critical vulnerability(ies) present"

def blockersOf (row : Option OracleState) (checks : List ScopeCheck) : List String :=
  let signals := signalsOf row checks
  blocker row.isNone "no audit or score has been recorded for this contract" ++
    blocker (!signals.astPassed) "AST maintainability signal not satisfied" ++
    blocker (!signals.testsPassed) "hidden test suite did not fully pass" ++
    blocker (!signals.securityPassed) "security scan reported findings" ++
    blocker (!signals.scopePassed) s!"{rejected checks} scope check(s) were rejected" ++
    trustBlockers signals.trustScore ++
    criticalBlockers signals.criticalVulns

def evaluate (row : Option OracleState) (checks : List ScopeCheck) : OracleVerdict where
  approved := (blockersOf row checks).isEmpty
  signals := signalsOf row checks
  blockers := blockersOf row checks

/-- A stored score that would pass the gate. -/
def OracleState.scorePasses (row : OracleState) : Prop :=
  (∃ t ∈ row.trustScore, ¬ t.below) ∧ row.criticalVulns = some 0

@[simp] theorem blocker_eq_nil {c : Bool} {text : String} : blocker c text = [] ↔ c = false := by
  cases c <;> simp [blocker]

@[simp] theorem trustBlockers_eq_nil {t : Option TrustScore} :
    trustBlockers t = [] ↔ ∃ s ∈ t, ¬ s.below := by
  cases t <;> simp [trustBlockers]

@[simp] theorem criticalBlockers_eq_nil {c : Option ℕ} :
    criticalBlockers c = [] ↔ c = some 0 := by
  cases c <;> simp [criticalBlockers]

/-- The gate approves exactly the rows whose signals and score pass, with no rejected check. -/
theorem evaluate_approved {row : Option OracleState} {checks : List ScopeCheck} :
    (evaluate row checks).approved = true ↔
      ∃ r ∈ row, r.signals.allPassed ∧ r.scorePasses ∧ rejected checks = 0 := by
  cases row with
  | none => simp [evaluate, blockersOf, blocker]
  | some r =>
    simp only [evaluate, blockersOf, signalsOf, List.isEmpty_iff, List.append_eq_nil_iff,
      blocker_eq_nil, trustBlockers_eq_nil, criticalBlockers_eq_nil, Option.isNone_some,
      Option.elim_some, Option.bind_some, Bool.not_eq_eq_eq_not, Bool.not_false, beq_iff_eq,
      Option.mem_def, Option.some.injEq, exists_eq_left', true_and, OracleState.signals,
      AuditSignals.allPassed, OracleState.scorePasses]
    tauto

@[simp] theorem signals_recordAudit (row : Option OracleState) (g : AuditSignals) :
    (recordAudit row g).signals = g := rfl

@[simp] theorem scorePasses_recordAudit (row : Option OracleState) (g : AuditSignals) :
    (recordAudit row g).scorePasses ↔ ∃ r ∈ row, r.scorePasses := by
  cases row with
  | none => simp [recordAudit, OracleState.scorePasses]
  | some r => simp [recordAudit, OracleState.scorePasses]

/-- A score that the columns admit and that is not stamped earlier than the stored one is stored. -/
theorem recordScore_of_applies {row : Option OracleState} {trustScore criticalVulns : ℚ}
    {scoredAt : Option ℕ} {now c : ℕ} {t : TrustScore}
    (hc : scoreColumns trustScore criticalVulns = some (t, c))
    (ha : scoreApplies row (scoredAt.getD now)) :
    recordScore row trustScore criticalVulns scoredAt now = some { row.getD {} with
      trustScore := some t, criticalVulns := some c, scoredAt := some (scoredAt.getD now) } := by
  simp [recordScore, hc, ha]

theorem recordScore_of_not_applies {row : Option OracleState} {trustScore criticalVulns : ℚ}
    {scoredAt : Option ℕ} {now : ℕ} (h : ¬ ((scoreColumns trustScore criticalVulns).isSome ∧
      scoreApplies row (scoredAt.getD now))) :
    recordScore row trustScore criticalVulns scoredAt now = row := by
  unfold recordScore
  split
  · rfl
  · rename_i t c hc
    rw [if_neg]
    exact fun ha => h ⟨by simp [hc], ha⟩

end AssureCode.Oracle
