import AssureCode.Js.Number
import AssureCode.Js.Numeral

/-! # Asking for a score

The settlement worker asks the gateway to score a contract and asks again while the answer may
change, until a deadline. Time passes only while it waits for an attempt or sleeps between two.
-/

namespace AssureCode.Trigger

open Js

/-- What an attempt throws. -/
structure Thrown where
  name : Text
  message : Text

/-- An answer of the gateway. -/
structure Answer where
  status : ℕ
  /-- `trustScore` and `criticalVulns` of the body as numbers. -/
  scores : Except Thrown (Number × Number)
  /-- The body as a text, `''` if it cannot be read. -/
  body : Text

/-- What an attempt comes to, and how long it takes. -/
structure Attempt where
  response : Except Thrown Answer
  took : ℕ

inductive TriggerOutcome
  | scored (trustScore criticalVulns : Number)
  | declined (status : ℕ) (detail : Text)
  | misconfigured (status : ℕ) (detail : Text)
  | unavailable (attempts : ℕ) (detail : Text)
  | disabled

structure TriggerDeps where
  enabled : Bool
  deadlineMs : Option ℕ := none
  perAttemptMs : Option ℕ := none

/-- `TERMINAL_STATUSES` -/
def terminalStatuses : List ℕ := [400, 404, 409, 422]

/-- `AUTH_STATUSES` -/
def authStatuses : List ℕ := [401, 403]

/-- `BACKOFFS_MS` at the number of attempts made. -/
def backoff : ℕ → ℕ
  | 0 | 1 => 1000
  | 2 => 3000
  | _ => 7000

namespace TriggerDeps

/-- `DEFAULT_DEADLINE_MS` where none is given. -/
def deadline (deps : TriggerDeps) : ℕ := deps.deadlineMs.getD 20000

/-- `DEFAULT_PER_ATTEMPT_MS` where none is given. -/
def perAttempt (deps : TriggerDeps) : ℕ := deps.perAttemptMs.getD 8000

/-- The detail of an attempt that has thrown. -/
def thrownDetail (deps : TriggerDeps) (e : Thrown) : Text :=
  if e.name = units "TimeoutError" ∨ e.name = units "AbortError" then
    units "timed out after " ++ digitsOf deps.perAttempt ++ units "ms"
  else e.message

/-- An outcome, or the detail of an attempt after which another one may be made. -/
def settle (deps : TriggerDeps) : Except Thrown Answer → TriggerOutcome ⊕ Text
  | .error e => .inr (deps.thrownDetail e)
  | .ok answer =>
    if 200 ≤ answer.status ∧ answer.status < 300 then
      match answer.scores with
      | .ok (trustScore, criticalVulns) => .inl (.scored trustScore criticalVulns)
      | .error e => .inr (deps.thrownDetail e)
    else
      let detail := answer.body.take 500
      if answer.status ∈ authStatuses then .inl (.misconfigured answer.status detail)
      else if answer.status ∈ terminalStatuses then .inl (.declined answer.status detail)
      else .inr (units "HTTP " ++ digitsOf answer.status ++ units ": " ++ detail)

/--
The loop from the time `now` on, after `made` attempts, for at most `fuel` rounds: the outcome and
the time when it is returned.
-/
def retry (deps : TriggerDeps) (attempts : ℕ → Attempt) :
    ℕ → ℕ → ℕ → Text → Option (TriggerOutcome × ℕ)
  | 0, _, _, _ => none
  | fuel + 1, now, made, lastDetail =>
    if now < deps.deadline then
      let attempt := attempts made
      let now := now + attempt.took
      match deps.settle attempt.response with
      | .inl outcome => some (outcome, now)
      | .inr detail =>
        let wait := backoff (made + 1)
        if deps.deadline ≤ now + wait then some (.unavailable (made + 1) detail, now)
        else retry deps attempts fuel (now + wait) (made + 1) detail
    else some (.unavailable made lastDetail, now)

end TriggerDeps

def triggerScoring (fuel : ℕ) (deps : TriggerDeps) (attempts : ℕ → Attempt) :
    Option (TriggerOutcome × ℕ) :=
  if !deps.enabled then some (.disabled, 0)
  else deps.retry attempts fuel 0 0 (units "no attempt completed")

end AssureCode.Trigger
