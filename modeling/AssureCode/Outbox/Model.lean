import Mathlib.Data.List.Sort
import AssureCode.Js.Json
import AssureCode.Settlement.Model

/-! # The outbox relay

The `outbox` table, the bus, and any number of passes of `OutboxRelay.pump` over them, each a
program of statements and calls inside one transaction. A row is claimed by locking it, and rows
that are locked are passed over. A statement or call may succeed, throw without having taken
effect, or throw after taking effect; a process may die between any two of them, and its locks
then stay until the server notices.
-/

namespace AssureCode.Outbox

open Js
open Settlement (Outcome)

/-- The arguments of `publish`. -/
structure Message where
  topic : Text
  payload : Json
  correlationId : Option Text

/-- A row of `outbox`; `sent`: `sent_at` is set; `lockedBy`: the pass that has it locked. -/
structure Row where
  outboxId : ℕ
  topic : Text
  payload : Json
  correlationId : Option Text
  createdAt : ℕ
  sent : Bool := false
  lockedBy : Option ℕ := none

/-- What `pump` publishes of a row; `||` makes an empty `correlation_id` none. -/
def Row.message (row : Row) : Message where
  topic := row.topic
  payload := row.payload
  correlationId := if row.correlationId = some [] then none else row.correlationId

/-- Where a pass stands: the statement or call that comes next. -/
inductive Task
  | connect
  | beginTransaction
  | select
  | publish (row : Row) (rest : List Row)
  | markSent (row : Row) (rest : List Row)
  | commit
  | rollback

/-- What a pass has done: the updates of its transaction, and the rows it has had published. -/
structure Pass where
  updated : List ℕ := []
  published : List ℕ := []
  processed : ℕ := 0

inductive Relay
  | idle
  | running (τ : Task) (pass : Pass)
  | returned (processed : ℕ)
  /-- The connection is gone, and the server has not noticed. -/
  | cut

/-- `published` are the rows whose `publish` has returned at some time. -/
structure State where
  rows : List Row := []
  bus : List Message := []
  published : List ℕ := []
  relays : ℕ → Relay := fun _ => .idle

def State.setRelay (s : State) (i : ℕ) (b : Relay) : State :=
  { s with relays := Function.update s.relays i b }

/-- What the `SELECT` is after: `ORDER BY created_at`, and no row that is locked. -/
def State.claimable (s : State) : List Row :=
  (s.rows.filter fun r => !r.sent ∧ r.lockedBy = none).insertionSort (·.createdAt ≤ ·.createdAt)

/-- `LIMIT $1` -/
def State.batch (s : State) (batchSize : ℕ) : List Row := s.claimable.take batchSize

/-- `FOR UPDATE` -/
def lock (i : ℕ) (batch : List Row) (row : Row) : Row :=
  if batch.any (·.outboxId = row.outboxId) then { row with lockedBy := some i } else row

def unlock (i : ℕ) (row : Row) : Row :=
  if row.lockedBy = some i then { row with lockedBy := none } else row

/-- The updates of a transaction, as the others see them when it commits. -/
def apply (updated : List ℕ) (row : Row) : Row :=
  if row.outboxId ∈ updated then { row with sent := true } else row

/-- The loop over `res.rows`. -/
def loop : List Row → Task
  | [] => .commit
  | row :: rest => .publish row rest

/-- The statement or call of a task, as far as it takes effect. -/
def perform (batchSize : ℕ) (s : State) (i : ℕ) (pass : Pass) : Task → State
  | .select => { s with rows := s.rows.map (lock i (s.batch batchSize)) }
  | .publish row _ => { s with bus := s.bus ++ [row.message] }
  | .commit => { s with rows := s.rows.map fun r => unlock i (apply pass.updated r) }
  | .rollback => { s with rows := s.rows.map (unlock i) }
  | .connect | .beginTransaction | .markSent .. => s

/-- Where a pass goes on when its statement or call returns. -/
def next (batchSize : ℕ) (s : State) (pass : Pass) : Task → Relay
  | .connect => .running .beginTransaction pass
  | .beginTransaction => .running .select pass
  | .select => .running (loop (s.batch batchSize)) pass
  | .publish row rest =>
    .running (.markSent row rest) { pass with published := pass.published ++ [row.outboxId] }
  | .markSent row rest =>
    .running (loop rest) { pass with
      updated := pass.updated ++ [row.outboxId]
      processed := pass.processed + 1 }
  | .commit | .rollback => .returned pass.processed

/-- Where a pass goes on when its statement or call throws. -/
def raised (pass : Pass) : Task → Relay
  | .connect => .returned pass.processed
  | .publish _ rest => .running (loop rest) pass
  | .rollback => .cut
  | .beginTransaction | .select | .markSent .. | .commit => .running .rollback pass

/-- The rows that a task has had published when it returns. -/
def Task.publishes : Task → List ℕ
  | .publish row _ => [row.outboxId]
  | _ => []

inductive Action
  /-- A row is appended by a transaction of another kind that commits. -/
  | append (row : Row)
  | pump (i : ℕ)
  | advance (i : ℕ) (o : Outcome)
  | crash (i : ℕ)
  | reap (i : ℕ)

def advance (batchSize : ℕ) (s : State) (i : ℕ) (o : Outcome) (τ : Task) (pass : Pass) : State :=
  match o with
  | .ok => State.setRelay
    { perform batchSize s i pass τ with published := s.published ++ τ.publishes } i
    (next batchSize s pass τ)
  | .failed => s.setRelay i (raised pass τ)
  | .lost => (perform batchSize s i pass τ).setRelay i (raised pass τ)

def step (batchSize : ℕ) (s : State) : Action → Option State
  | .append row =>
    if s.rows.any (·.outboxId = row.outboxId) then none
    else some { s with rows := s.rows ++ [{ row with sent := false, lockedBy := none }] }
  | .pump i =>
    match s.relays i with
    | .idle => some (s.setRelay i (.running .connect {}))
    | _ => none
  | .advance i o =>
    match s.relays i with
    | .running τ pass => some (advance batchSize s i o τ pass)
    | _ => none
  | .crash i =>
    match s.relays i with
    | .running _ _ => some (s.setRelay i .cut)
    | _ => none
  | .reap i =>
    match s.relays i with
    | .cut => some (State.setRelay { s with rows := s.rows.map (unlock i) } i (.returned 0))
    | _ => none

/-- The outbox is empty and no pass has begun. -/
def Initial (s : State) : Prop :=
  s.rows = [] ∧ s.bus = [] ∧ s.published = [] ∧ ∀ i, s.relays i = .idle

def system (batchSize : ℕ) : Machine State Action where
  init := Initial
  step := step batchSize

end AssureCode.Outbox
