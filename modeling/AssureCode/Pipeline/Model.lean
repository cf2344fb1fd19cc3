import AssureCode.Oracle.Store
import AssureCode.Transition.Run

/-! # The audit pipeline of one contract

Pushes, the CI runs that audit them, the `audit_results` rows, the events on the
bus, the score route and the oracle row the settlement worker keeps. Runs and
requests overlap freely, and the bus delivers what was published in any order
and any number of times. What the oracle row was last written from is kept as
history.
-/

namespace AssureCode.Pipeline

open Oracle

/-- The audit results, as far as the oracle and the routes read them. -/
structure AuditPayload where
  maintainability : Option ℚ := none
  passedTests : Option ℚ := none
  totalTests : Option ℚ := none
  vulnerabilities : Option ℚ := none
  securityScanComplete : Option Bool := none
  demo : Bool := false
  deriving DecidableEq, Repr

/-- The signals `subscribeAuditSignals` takes from an event. -/
def AuditPayload.signals (p : AuditPayload) : AuditSignals where
  astPassed := decide (10 ≤ p.maintainability.getD (-1))
  testsPassed := decide (p.passedTests.getD 0 = p.totalTests.getD 0 ∧ 0 < p.totalTests.getD 0)
  securityPassed := decide (p.vulnerabilities.getD 1 = 0) && p.securityScanComplete != some false

/-- A completed run; runs are numbered in the order in which they save their row. -/
structure Audit where
  run : ℕ
  payload : AuditPayload
  deriving DecidableEq, Repr

/-- An `XAI_SCORED` event, with the audit whose telemetry was scored. -/
structure ScoreEvent where
  audit : Audit
  trustScore : ℚ
  criticalVulns : ℚ
  scoredAt : Option ℕ
  deriving DecidableEq, Repr

/-- A `recordAudit` that took place, and whether a real audit had a row by then. -/
structure Recording where
  audit : Audit
  overReal : Bool
  deriving DecidableEq, Repr

/--
`rows` lists the newest row first. A push, a request that has passed the guard and a run are
known by the `demo` flag they carry.
-/
structure State where
  nextRun : ℕ := 0
  rows : List Audit := []
  admitted : List Bool := []
  pushes : List Bool := []
  running : List Bool := []
  saved : List Audit := []
  published : List Audit := []
  scoring : List Audit := []
  scores : List ScoreEvent := []
  oracleState : Option OracleState := none
  scopeChecks : List ScopeCheck := []
  recorded : List Recording := []
  scored : Option ScoreEvent := none

/-- `SELECT 1 FROM audit_results WHERE … (payload->>'demo')::boolean IS NOT TRUE` -/
def State.hasReal (s : State) : Bool := s.rows.any fun a => !a.payload.demo

inductive Action
  /-- `simulate-push` looks for a real audit and passes its guard. -/
  | check (callerCode : Bool)
  | simulate (demo : Bool)
  /-- A webhook publishes a real push. -/
  | push
  | start (demo : Bool)
  | abandon (demo : Bool)
  | save (payload : AuditPayload)
  | publish (audit : Audit)
  | recordAudit (audit : Audit)
  /-- The score route reads the latest row. -/
  | read
  | score (event : ScoreEvent)
  | recordScore (event : ScoreEvent) (now : ℕ)
  | rescope (checks : List ScopeCheck)
  deriving DecidableEq

/-- The score an event writes, when the guard of `recordScore` lets it. -/
def ScoreEvent.applies (e : ScoreEvent) (row : Option OracleState) (now : ℕ) : Prop :=
  (scoreColumns e.trustScore e.criticalVulns).isSome ∧ scoreApplies row (e.scoredAt.getD now)

instance (e : ScoreEvent) (row : Option OracleState) (now : ℕ) : Decidable (e.applies row now) :=
  inferInstanceAs (Decidable (_ ∧ _))

def step (s : State) : Action → Option State
  | .check callerCode =>
    if s.hasReal then none else some { s with admitted := (!callerCode) :: s.admitted }
  | .simulate demo =>
    if demo ∈ s.admitted then
      some { s with admitted := s.admitted.erase demo, pushes := demo :: s.pushes }
    else none
  | .push => some { s with pushes := false :: s.pushes }
  | .start demo => if demo ∈ s.pushes then some { s with running := demo :: s.running } else none
  | .abandon demo =>
    if demo ∈ s.running then some { s with running := s.running.erase demo } else none
  | .save payload =>
    if payload.demo ∈ s.running then
      some { s with
        nextRun := s.nextRun + 1
        rows := ⟨s.nextRun, payload⟩ :: s.rows
        running := s.running.erase payload.demo
        saved := ⟨s.nextRun, payload⟩ :: s.saved }
    else none
  | .publish audit =>
    if audit ∈ s.saved then
      some { s with saved := s.saved.erase audit, published := audit :: s.published }
    else none
  | .recordAudit audit =>
    if audit ∈ s.published then
      some { s with
        oracleState := some (Oracle.recordAudit s.oracleState audit.payload.signals)
        recorded := ⟨audit, s.hasReal⟩ :: s.recorded }
    else none
  | .read => s.rows.head?.map fun audit => { s with scoring := audit :: s.scoring }
  | .score event =>
    if event.audit ∈ s.scoring then
      some { s with scoring := s.scoring.erase event.audit, scores := event :: s.scores }
    else none
  | .recordScore event now =>
    if event ∈ s.scores then
      some { s with
        oracleState := Oracle.recordScore s.oracleState event.trustScore event.criticalVulns
          event.scoredAt now
        scored := if event.applies s.oracleState now then some event else s.scored }
    else none
  | .rescope checks => some { s with scopeChecks := checks }

def system : Machine State Action where
  init := (· = {})
  step := step

end AssureCode.Pipeline
