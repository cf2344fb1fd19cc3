import AssureCode.Oracle.Store
import AssureCode.Transition.Run
import AssureCode.Trigger.Model

/-! # Scoring attempts on one contract

The audit, the assignment and the score of a contract, the gateway's score route, and the attempts
of the settlement worker with auto-scoring enabled: one for each audit that it records, and one for
each sweep that selects the contract. An attempt asks the gateway any number of times.
-/

namespace AssureCode.Trigger

open Js Oracle

/-- `SCORE_MAX_ATTEMPTS` -/
def scoreMaxAttempts : ℕ := 5

/-- A row of `oracle_state`. -/
structure Row where
  state : OracleState
  scoreAttempts : ℕ := 0

/-- An `XAI_SCORED` event. -/
structure ScoreEvent where
  trustScore : ℚ
  criticalVulns : ℚ
  scoredAt : ℕ
  deriving DecidableEq

structure State where
  /-- The ledger has entries of the contract. -/
  chain : Bool := false
  /-- There is a row of `audit_results`. -/
  audited : Bool := false
  /-- `''` when nobody is assigned. -/
  freelancerId : Text := []
  row : Option Row := none
  published : List ScoreEvent := []
  /-- Calls of `attemptScoring` that are due, those that ask, and those that were declined. -/
  due : ℕ := 0
  asking : ℕ := 0
  declined : ℕ := 0
  /-- The attempts made since the contract became scorable. -/
  made : ℕ := 0

/-- How the scorer answers the route, and whether the event can be published. -/
inductive Scorer
  | scored (event : ScoreEvent) (published : Bool)
  | refused (status : ℕ)
  | unreachable

/-- What becomes of a request to the route. -/
inductive Net
  | delivered
  /-- Something before the route answers in its place. -/
  | replaced (status : ℕ)
  /-- The route runs, and its answer is lost. -/
  | lost (e : Thrown)
  | dropped (e : Thrown)

namespace State

variable (s : State)

def unscored : Bool := s.row.any fun r => r.state.trustScore.isNone

/-- The contract has a recorded audit, an assigned freelancer and no trust score. -/
def scorable : Bool := s.audited && s.unscored && s.freelancerId ≠ []

def scoreAttempts : ℕ := (s.row.map (·.scoreAttempts)).getD 0

/-- `WHERE trust_score IS NULL AND score_attempts < $1` -/
def selected : Bool := s.unscored && s.scoreAttempts < scoreMaxAttempts

def setAttempts (n : ℕ) : State :=
  { s with row := s.row.map fun r => { r with scoreAttempts := n } }

/-- The status of `GET /score`, and the event that it publishes. -/
def score (readable : Bool) (scorer : Scorer) : ℕ × List ScoreEvent :=
  if !s.chain then (404, [])
  else if !readable then (503, [])
  else if !s.audited then (409, [])
  else if s.freelancerId = [] then (409, [])
  else
    match scorer with
    | .scored event published => if published then (200, [event]) else (500, [])
    | .refused status => (if status = 409 ∨ status = 422 then status else 502, [])
    | .unreachable => (502, [])

end State

inductive Action
  | lock
  | audit
  | assign (freelancerId : Text)
  | reject
  | recordAudit (signals : AuditSignals)
  | sweep
  /-- An attempt begins; its `UPDATE` may fail. -/
  | begin (counted : Bool)
  | ask (net : Net) (readable : Bool) (scorer : Scorer) (scores : Except Thrown (Number × Number))
    (body : Text)
  /-- The deadline is there, or the worker is gone. -/
  | giveUp
  /-- A declined attempt ends; its `UPDATE` may fail. -/
  | finish (taken : Bool)
  /-- Somebody else opens the score. -/
  | view (readable : Bool) (scorer : Scorer)
  | recordScore (event : ScoreEvent)

def Net.reaches : Net → Bool
  | .delivered | .lost _ => true
  | _ => false

def Net.response (net : Net) (status : ℕ) (scores : Except Thrown (Number × Number)) (body : Text) :
    Except Thrown Answer :=
  match net with
  | .delivered => .ok ⟨status, scores, body⟩
  | .replaced other => .ok ⟨other, scores, body⟩
  | .lost e | .dropped e => .error e

/-- The row after an `XAI_SCORED` event; the attempts are no column of that statement. -/
def scoredRow (row : Option Row) (e : ScoreEvent) : Option Row :=
  (Oracle.recordScore (row.map (·.state)) e.trustScore e.criticalVulns (some e.scoredAt) 0).map
    fun state => ⟨state, (row.map (·.scoreAttempts)).getD 0⟩

/-- The effect of an action. -/
def act (deps : TriggerDeps) (s : State) : Action → Option State
  | .lock => some { s with chain := true }
  | .audit => some { s with audited := true }
  | .assign freelancerId => some { s with freelancerId }
  | .reject => some { s with freelancerId := [] }
  | .recordAudit signals =>
    if s.audited then
      let state := Oracle.recordAudit (s.row.map (·.state)) signals
      some { s with row := some ⟨state, s.scoreAttempts⟩, due := s.due + 1 }
    else none
  | .sweep => if s.selected then some { s with due := s.due + 1 } else none
  | .begin counted =>
    if s.due = 0 then none
    else
      let t := if counted then s.setAttempts (s.scoreAttempts + 1) else s
      some { t with due := s.due - 1, asking := s.asking + 1 }
  | .ask net readable scorer scores body =>
    if s.asking = 0 then none
    else
      let (status, events) := s.score readable scorer
      let published := if net.reaches then events ++ s.published else s.published
      match deps.settle (net.response status scores body) with
      | .inl (.declined _ _) =>
        some { s with published, asking := s.asking - 1, declined := s.declined + 1 }
      | .inl _ => some { s with published, asking := s.asking - 1 }
      | .inr _ => some { s with published }
  | .giveUp => if s.asking = 0 then none else some { s with asking := s.asking - 1 }
  | .finish taken =>
    if s.declined = 0 then none
    else
      let t := if taken then s.setAttempts scoreMaxAttempts else s
      some { t with declined := s.declined - 1 }
  | .view readable scorer =>
    some { s with published := (s.score readable scorer).2 ++ s.published }
  | .recordScore event =>
    if event ∈ s.published then some { s with row := scoredRow s.row event } else none

def Action.begins : Action → Bool
  | .begin _ => true
  | _ => false

/-- The attempts made are counted from where the contract became scorable. -/
def step (deps : TriggerDeps) (s : State) (a : Action) : Option State :=
  (act deps s a).map fun t =>
    { t with made := if t.scorable && s.scorable then s.made + a.begins.toNat else 0 }

def system (deps : TriggerDeps) : Machine State Action where
  init := (· = {})
  step := step deps

end AssureCode.Trigger
