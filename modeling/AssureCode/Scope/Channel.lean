import AssureCode.Js.Number
import AssureCode.Scope.Model
import AssureCode.Settlement.Model

/-! # Messages in flight

The requests that the gateway has sent to the guard, the table of decisions and the events that
were published. A number of the table is taken before the row is there, so that rows may come out
of the order of their numbers.
-/

namespace AssureCode.Scope

open Js Program Python
open Settlement (Outcome)

/-- A row of `scope_checks`. -/
structure Check extends ScopeDecisionRecord where
  checkId : ℕ

/-- A request to the guard: whether the guard has taken it, and what it has answered. -/
structure Exchange where
  request : ScopeCheckRequest
  accepted : Bool := false
  answer : Option Answer := none

structure Store where
  exchanges : List Exchange := []
  /-- Contracts with the first hashes of their chains. -/
  heads : List (Text × Text) := []
  checks : List Check := []
  nextCheckId : ℕ := 1
  events : List (Text × ScopeEvent) := []

/-- How a call comes out, and what it answers where that is not up to the store. -/
structure Choice where
  outcome : Outcome := .ok
  text : Text := []
  query : Option (List ℚ) := none
  retrieved : List RetrievedChunk := []

variable (settings : Settings)

namespace Store

variable (s : Store)

def checksOf (contractId : Text) : List Check :=
  s.checks.filter (·.contractId = contractId)

/-- `ORDER BY check_id ASC` -/
def byCheckId (checks : List Check) : List Check :=
  checks.mergeSort fun a b => a.checkId ≤ b.checkId

def residuals (contractId : Text) : List ℚ :=
  (byCheckId (s.checksOf contractId)).map fun row => rounded (1 - row.similarity)

def accept (id : ℕ) : Store :=
  { s with exchanges := s.exchanges.modify id fun x => { x with accepted := true } }

def respond (id : ℕ) (answer : Answer) : Store :=
  { s with exchanges := s.exchanges.modify id fun x => { x with answer := some answer } }

/-- The columns of numbers are `REAL`. -/
def insertCheck (checkId : ℕ) (decision : ScopeDecisionRecord) : Store :=
  { s with checks := s.checks ++ [{ decision with
      checkId
      similarity := settings.real decision.similarity
      threshold := settings.real decision.threshold }] }

end Store

/-- Nothing is received before it is answered, unless the time is over. -/
def received (s : Store) (id : ℕ) : Outcome → Option (Option Answer)
  | .ok => (s.exchanges[id]?.bind (·.answer)).map some
  | _ => some none

def serve (s : Store) (_ : Trail) (c : Query) (x : Choice) : Option (c.Answer × Store) :=
  match c with
  | .send request =>
    some (s.exchanges.length, { s with exchanges := s.exchanges ++ [⟨request, false, none⟩] })
  | .receive id => (received s id x.outcome).map fun answer => (answer, s)
  | .randomUUID | .utcNow => some (x.text, s)
  | .publish event correlationId =>
    match x.outcome with
    | .ok => some (some (), { s with events := s.events ++ [(correlationId, event)] })
    | .lost => some (none, { s with events := s.events ++ [(correlationId, event)] })
    | .failed => some (none, s)
  | .accept id =>
    match s.exchanges[id]? with
    | some ⟨request, false, _⟩ => some (request, s.accept id)
    | _ => none
  | .genesis contractId =>
    some (if x.outcome = .ok then .ok (s.heads.lookup contractId) else .error x.text, s)
  | .embed _ => some (x.query, s)
  | .search _ _ k =>
    if x.outcome = .ok then
      if x.retrieved.length ≤ k then some (.ok x.retrieved, s) else none
    else some (.error x.text, s)
  | .nextCheckId => some (s.nextCheckId, { s with nextCheckId := s.nextCheckId + 1 })
  | .insertCheck checkId decision =>
    match x.outcome with
    | .ok => some (.ok (), s.insertCheck settings checkId decision)
    | .lost => some (.error x.text, s.insertCheck settings checkId decision)
    | .failed => some (.error x.text, s)
  | .respond id answer => some ((), s.respond id answer)
  | .residuals contractId =>
    some (if x.outcome = .ok then .ok (s.residuals contractId) else .error x.text, s)

/-- A contract is locked: its chain begins. -/
structure Lock where
  contractId : Text
  genesisHash : Text

def pass (s : Store) (lock : Lock) : Option Store :=
  if (s.heads.lookup lock.contractId).isSome then none
  else some { s with heads := s.heads ++ [(lock.contractId, lock.genesisHash)] }

inductive Request
  | chat (contractId : Text) (message role : Option Text)
  | check (id : ℕ)
  | drift (contractId : Text)

def start : Request → Flow Query Query.Answer Reply
  | .chat contractId message role => ⟨[], chat contractId message role⟩
  | .check id => ⟨[], answerCheck settings id⟩
  | .drift contractId => ⟨[], assessDrift settings contractId⟩

def service : Service Query Query.Answer Reply Store Request Choice Lock where
  start _ request := some (start settings request)
  serve := serve settings
  pass := pass

abbrev System : Type := Concurrent.State Query Query.Answer Reply Store

abbrev Action : Type := Concurrent.Action Request Choice Lock

def Initial (s : Store) : Prop := s.exchanges = [] ∧ s.checks = [] ∧ s.events = []

def system : Machine System Action := Concurrent.system (service settings) Initial

end AssureCode.Scope
