import Mathlib.Logic.Function.Basic
import AssureCode.Ledger.Writer

/-! # The ledger client and its database session

A statement that fails has no effect on the tables, in a transaction or outside of one; numbers of
the sequence that it drew stay drawn, and an advisory lock that it took stays taken.
-/

namespace AssureCode.LedgerClient

open Js Ledger

/-! ## The database -/

/-- What the database computes: its digest, its columns and its hash of a lock's name. -/
structure Postgres where
  sha256 : Text → Text
  jsonb : Text → Option Payload
  varchar : Text → Option Text
  hashtext : Text → ℤ

structure OutboxRow where
  topic : Text
  payload : Payload
  correlationId : Option Text

structure Store where
  ledger : Database
  outbox : List OutboxRow

theorem below_skip (db : Database) (n : ℕ) : ∀ row ∈ db.rows, row.ledgerId < db.nextId + n :=
  fun row hrow => Nat.lt_add_right n (db.below row hrow)

/-- The sequence goes on. -/
def Store.skip (s : Store) (n : ℕ) : Store where
  ledger :=
    { s.ledger with
      nextId := s.ledger.nextId + n
      below := below_skip s.ledger n }
  outbox := s.outbox

/-- How often the session has taken each lock. -/
abbrev Locks : Type := ℤ → ℕ

/-- `pg_advisory_lock` -/
def Locks.acquire (locks : Locks) (key : ℤ) : Locks := Function.update locks key (locks key + 1)

/-- `pg_advisory_unlock` -/
def Locks.release (locks : Locks) (key : ℤ) : Locks := Function.update locks key (locks key - 1)

/-- Where a statement fails for a reason of its own, seen from the lock of `append_ledger`. -/
inductive Fault
  | before
  | locked
  | after
  deriving DecidableEq

inductive ClientError
  | append (error : AppendError)
  | notStringifiable
  | invalidJson
  /-- The row is none of `outbox`. -/
  | refused
  | failed

/-! ## The functions of the database -/

section Functions

variable (pg : Postgres)

/-- `append_ledger`, with the lock. -/
def appendLedgerLocked (db : Database) (locks : Locks) (contractId actionType canonical : Text)
    (fault : Option Fault) : Except ClientError (LedgerRow × Database) × Locks :=
  if fault = some .before then (.error .failed, locks)
  else if canonical = [] then
    ((appendLedger pg.sha256 pg.jsonb db contractId actionType canonical).mapError .append, locks)
  else
    let held := locks.acquire (pg.hashtext contractId)
    if fault = some .locked then (.error .failed, held)
    else
      match appendLedger pg.sha256 pg.jsonb db contractId actionType canonical with
      | .error e => (.error (.append e), held)
      | .ok r =>
        let freed := held.release (pg.hashtext contractId)
        if fault = some .after then (.error .failed, freed) else (.ok r, freed)

/-- A parameter that is cast to `jsonb`; `undefined` is sent as `NULL`. -/
def castEvent (event : Option Text) : Option (Option Payload) :=
  match event with
  | none => some none
  | some text => (pg.jsonb text).map some

/-- The `INSERT` into `outbox`, whose topic and payload are not `NULL`. -/
def insertOutbox (s : Store) (topic : Text) (payload : Option Payload)
    (correlationId : Option Text) : Option Store := do
  let topic ← pg.varchar topic
  let payload ← payload
  let correlationId ← correlationId.elim (some none) fun c => (pg.varchar c).map some
  return { s with outbox := s.outbox ++ [⟨topic, payload, correlationId⟩] }

/-- `append_ledger_and_outbox` with its arguments; a fault after the lock is one of the rest. -/
def appendLedgerAndOutbox (s : Store) (locks : Locks) (contractId actionType canonical topic : Text)
    (event : Option Text) (correlationId : Option Text) (fault : Option Fault) :
    Except ClientError (LedgerRow × Store) × Locks :=
  match castEvent pg event with
  | none => (.error .invalidJson, locks)
  | some payload =>
    match appendLedgerLocked pg s.ledger locks contractId actionType canonical fault with
    | (.error e, locks) => (.error e, locks)
    | (.ok (row, db), locks) =>
      match insertOutbox pg { s with ledger := db } topic payload correlationId with
      | none => (.error .refused, locks)
      | some s => (.ok (row, s), locks)

end Functions

/-! ## A session -/

/-- A session, with the tables as its open transaction has them. -/
structure Session where
  committed : Store
  transaction : Option Store
  locks : Locks

def Session.store (x : Session) : Store := x.transaction.getD x.committed

def Session.put (x : Session) (s : Store) : Session :=
  match x.transaction with
  | none => { x with committed := s }
  | some _ => { x with transaction := some s }

def Session.skip (x : Session) (n : ℕ) : Session :=
  { x with committed := x.committed.skip n, transaction := x.transaction.map (·.skip n) }

/-- A statement, with the numbers that it draws if it fails. -/
def Session.query {α : Type} (x : Session) (drawn : ℕ)
    (f : Store → Locks → Except ClientError (α × Store) × Locks) : Except ClientError α × Session :=
  match f x.store x.locks with
  | (.error e, locks) => (.error e, Session.skip { x with locks := locks } drawn)
  | (.ok (a, s), locks) => (.ok a, Session.put { x with locks := locks } s)

def Session.begin (x : Session) : Session := { x with transaction := some x.store }

def Session.commit (x : Session) : Session := { x with committed := x.store, transaction := none }

/-- The tables are as they were; the sequence is not. -/
def Session.rollback (x : Session) : Session :=
  { x with
    committed := x.committed.skip (x.store.ledger.nextId - x.committed.ledger.nextId)
    transaction := none }

/-! ## The client -/

/-- An idle connection of the pool. -/
structure Connection where
  store : Store
  locks : Locks

def Connection.session (c : Connection) : Session := ⟨c.store, none, c.locks⟩

/-- The arguments of `append`. -/
structure Append where
  contractId : Text
  actionType : Text
  payload : Data

/-- What `JSON.stringify` makes of an event. -/
inductive Stringified
  | throws
  | undefined
  | text (value : Text)

/-- The parameter for an event. -/
def Stringified.parameter : Stringified → Except ClientError (Option Text)
  | .throws => .error .notStringifiable
  | .undefined => .ok none
  | .text value => .ok (some value)

/-- The arguments of `appendWithOutbox`. -/
structure AppendWithOutbox extends Append where
  eventTopic : Text
  event : Stringified
  correlationId : Option Text

/-- What fails during a call of `appendWithOutbox`, and the numbers that are drawn with it. -/
structure Faults where
  connect : Bool
  procedure : Option Fault
  procedureDrawn : ℕ
  begin : Bool
  append : Option Fault
  appendDrawn : ℕ
  insert : Bool
  commit : Bool
  rollback : Bool

/-- `correlationId || null` -/
def AppendWithOutbox.correlation (call : AppendWithOutbox) : Option Text :=
  call.correlationId.filter (· ≠ [])

section Client

variable (pg : Postgres)

/-- `LedgerClient.append`, on the client's own connection or its caller's. -/
def append (x : Session) (call : Append) (fault : Option Fault) (drawn : ℕ) :
    Except ClientError LedgerRow × Session :=
  match canonicalize call.payload with
  | .error e => (.error (.append (.notCanonicalizable e)), x)
  | .ok canonical =>
    x.query drawn fun s locks =>
      let r := appendLedgerLocked pg s.ledger locks call.contractId call.actionType canonical fault
      (r.1.map fun p => (p.1, { s with ledger := p.2 }), r.2)

/-- The stored procedure, in a transaction of its own. -/
def viaProcedure (x : Session) (call : AppendWithOutbox) (o : Faults) :
    Except ClientError LedgerRow × Session :=
  match canonicalize call.payload, call.event.parameter with
  | .error e, _ => (.error (.append (.notCanonicalizable e)), x)
  | .ok _, .error e => (.error e, x)
  | .ok canonical, .ok event =>
    x.query o.procedureDrawn fun s locks =>
      appendLedgerAndOutbox pg s locks call.contractId call.actionType canonical call.eventTopic
        event call.correlation o.procedure

/-- What the fallback does in its transaction, up to the `COMMIT`. -/
def inTransaction (x : Session) (call : AppendWithOutbox) (o : Faults) :
    Except ClientError LedgerRow × Session :=
  match append pg x call.toAppend o.append o.appendDrawn with
  | (.error e, x) => (.error e, x)
  | (.ok row, x) =>
    match call.event.parameter with
    | .error e => (.error e, x)
    | .ok event =>
      if o.insert then (.error .failed, x)
      else
        match castEvent pg event with
        | none => (.error .invalidJson, x)
        | some payload =>
          match insertOutbox pg x.store call.eventTopic payload call.correlation with
          | none => (.error .refused, x)
          | some s =>
            let x := x.put s
            if o.commit then (.error .failed, x) else (.ok row, x.commit)

/-- `LedgerClient.appendWithOutbox` -/
def appendWithOutbox (c : Connection) (call : AppendWithOutbox) (o : Faults) :
    Except ClientError LedgerRow × Session :=
  if o.connect then (.error .failed, c.session)
  else
    match viaProcedure pg c.session call o with
    | (.ok row, x) => (.ok row, x)
    | (.error _, x) =>
      -- The fallback: nothing of the first path is left but the numbers and the locks.
      if o.begin then (.error .failed, x)
      else
        match inTransaction pg x.begin call o with
        | (.ok row, x) => (.ok row, x)
        | (.error e, x) => if o.rollback then (.error .failed, x) else (.error e, x.rollback)

end Client

end AssureCode.LedgerClient
