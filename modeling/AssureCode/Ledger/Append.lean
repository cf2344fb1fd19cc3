import Mathlib.Data.List.Sort
import Mathlib.Logic.Function.Basic
import AssureCode.Transition.Run

/-! # Appending to the ledger of one contract

`append_ledger` as the statements a database session executes, under READ
COMMITTED. A row is visible to its own session from the `INSERT` on and to the
others from the `COMMIT` on; the advisory lock belongs to the session, not to
the transaction, so nothing but the function's own last statement or the end of
the session gives it back.
-/

namespace AssureCode.Ledger

/-- A row of `merkle_ledger` that `append_ledger` wrote. -/
structure Row where
  ledgerId : ℕ
  actionType : String
  payloadCanonical : String
  previousHash : String
  currentHash : String
  deriving DecidableEq, Repr

/-- The arguments of a call, next to the contract. -/
structure Entry where
  actionType : String
  payloadCanonical : String
  deriving DecidableEq, Repr

/-- Where a session stands in `append_ledger`; `ending` is the implicit commit after it. -/
inductive Call
  | idle
  | locking (entry : Entry)
  | selecting (entry : Entry)
  | inserting (entry : Entry) (previousHash : String)
  | unlocking
  | ending
  deriving DecidableEq, Repr

inductive Transaction | autocommit | opened | aborted
  deriving DecidableEq, Repr

structure Session where
  call : Call := .idle
  transaction : Transaction := .autocommit
  pending : List Row := []
  deriving DecidableEq, Repr

/-- The lock counts how often its session has taken it. -/
structure State where
  nextId : ℕ := 1
  committed : List Row := []
  lock : Option (ℕ × ℕ) := none
  sessions : ℕ → Session := fun _ => {}

/-- `ORDER BY ledger_id` -/
def ordered (rows : List Row) : List Row :=
  rows.insertionSort fun r q => r.ledgerId ≤ q.ledgerId

/-- `v_previous_hash` after the `SELECT` and its `NULL` check. -/
def previousHash (rows : List Row) : String :=
  ((ordered rows).getLast?.map (·.currentHash)).getD "GENESIS"

/-- `pg_advisory_lock`; `none` while another session holds the lock. -/
def acquire (lock : Option (ℕ × ℕ)) (i : ℕ) : Option (ℕ × ℕ) :=
  match lock with
  | none => some (i, 1)
  | some (j, n) => if j = i then some (i, n + 1) else none

/-- `pg_advisory_unlock` -/
def release (lock : Option (ℕ × ℕ)) (i : ℕ) : Option (ℕ × ℕ) :=
  match lock with
  | some (j, n) => if j = i then (if n ≤ 1 then none else some (i, n - 1)) else some (j, n)
  | none => none

/-- The session after an error: what its transaction wrote is gone, its locks are not. -/
def Session.raise (x : Session) : Session where
  call := .idle
  transaction := if x.transaction = .autocommit then .autocommit else .aborted
  pending := []

inductive Action
  | begin (i : ℕ)
  | call (i : ℕ) (entry : Entry)
  | lock (i : ℕ)
  | select (i : ℕ)
  | insert (i : ℕ)
  | unlock (i : ℕ)
  /-- The implicit commit of an autocommitted statement. -/
  | finish (i : ℕ)
  /-- The statement under way raises, in this function or elsewhere in the transaction. -/
  | fail (i : ℕ)
  | commit (i : ℕ)
  | rollback (i : ℕ)
  /-- The session ends and gives its locks back. -/
  | disconnect (i : ℕ)
  /-- A row of another contract, or a failed `INSERT`, draws from the sequence. -/
  | draw
  deriving DecidableEq, Repr

def State.set (s : State) (i : ℕ) (x : Session) : State :=
  { s with sessions := Function.update s.sessions i x }

/-- Commit what session `i` has written. -/
def State.publish (s : State) (i : ℕ) : State :=
  State.set { s with committed := s.committed ++ (s.sessions i).pending } i {}

section Step

variable (sha256 : String → String)

/-- The row the function inserts; the hashed text separates payload and hash by a line feed. -/
def newRow (s : State) (entry : Entry) (previous : String) : Row where
  ledgerId := s.nextId
  actionType := entry.actionType
  payloadCanonical := entry.payloadCanonical
  previousHash := previous
  currentHash := sha256 (entry.payloadCanonical ++ "\n" ++ previous)

def step (s : State) : Action → Option State
  | .begin i =>
    let x := s.sessions i
    if x.call = .idle ∧ x.transaction = .autocommit then
      some (s.set i { x with transaction := .opened })
    else none
  | .call i entry =>
    let x := s.sessions i
    if x.call = .idle ∧ x.transaction ≠ .aborted then
      -- An empty text is refused before the lock is taken.
      some (s.set i (if entry.payloadCanonical = "" then x.raise
        else { x with call := .locking entry }))
    else none
  | .lock i =>
    match (s.sessions i).call, acquire s.lock i with
    | .locking entry, some lock =>
      some (State.set { s with lock := some lock } i
        { s.sessions i with call := .selecting entry })
    | _, _ => none
  | .select i =>
    match (s.sessions i).call with
    | .selecting entry => some (s.set i { s.sessions i with
        call := .inserting entry (previousHash (s.committed ++ (s.sessions i).pending)) })
    | _ => none
  | .insert i =>
    match (s.sessions i).call with
    | .inserting entry previous => some (State.set { s with nextId := s.nextId + 1 } i
        { s.sessions i with
          call := .unlocking
          pending := (s.sessions i).pending ++ [newRow sha256 s entry previous] })
    | _ => none
  | .unlock i =>
    let x := s.sessions i
    if x.call = .unlocking then
      some (State.set { s with lock := release s.lock i } i
        { x with call := if x.transaction = .autocommit then .ending else .idle })
    else none
  | .finish i => if (s.sessions i).call = .ending then some (s.publish i) else none
  | .fail i =>
    let x := s.sessions i
    if x.call = .idle ∧ x.transaction ≠ .opened then none else some (s.set i x.raise)
  | .commit i =>
    let x := s.sessions i
    if x.call = .idle then
      match x.transaction with
      | .opened => some (s.publish i)
      | .aborted => some (s.set i {})
      | .autocommit => none
    else none
  | .rollback i =>
    let x := s.sessions i
    if x.call = .idle ∧ x.transaction ≠ .autocommit then some (s.set i {}) else none
  | .disconnect i => some (State.set
      { s with lock := s.lock.filter fun l => l.1 ≠ i } i {})
  | .draw => some { s with nextId := s.nextId + 1 }

def system : Machine State Action where
  init := (· = {})
  step := step sha256

end Step

/-- Every row names the hash of the row before it, the first one `previous`. -/
def Linked (previous : String) : List Row → Prop
  | [] => True
  | r :: rows => r.previousHash = previous ∧ Linked r.currentHash rows

/-- The committed ledger is one chain from `GENESIS`. -/
def State.Linear (s : State) : Prop := Linked "GENESIS" (ordered s.committed)

end AssureCode.Ledger
