import AssureCode.Push.Model
import AssureCode.Settlement.Model

/-! # Pushes in flight

The contracts that repositories are linked to, the stream of pushes, the rows of `audit_results`
and what else was published. A handler may take any push of the stream at any time, also one that
has been taken before.
-/

namespace AssureCode.Push

open Js Program
open Settlement (Outcome)
open Webhook (Contracts)

structure Store where
  contracts : Contracts
  pushes : List Push := []
  audits : List AuditResults := []
  messages : List Message := []

/-- How a call comes out, and what it answers where that is not up to the store. -/
structure Choice where
  outcome : Outcome := .ok
  text : Text := []
  chain : ℕ := 0
  github : SourceFetcher.GitHub := ⟨.unreachable [], fun _ _ => .unreachable []⟩
  bundle : Option Text := none
  execution : Execution := .unavailable [] []
  fetched : Security.Fetched := .rejected []

namespace Store

variable (s : Store)

/-- `(payload->>'demo')::boolean IS NOT TRUE` -/
def realAudit (contractId : Text) : Bool :=
  s.audits.any fun row => row.contractId = contractId && !row.demo

def publish (id correlationId : Text) : Message → Store
  | .codePushReceived push => { s with pushes := s.pushes ++ [⟨id, correlationId, push⟩] }
  | message => { s with messages := s.messages ++ [message] }

def save (row : AuditResults) : Store := { s with audits := s.audits ++ [row] }

end Store

/-- A process has run. -/
def Execution.hasRun : Execution → Bool
  | .unavailable .. => false
  | .ran .. => true

variable (g : Settings)

/-- A call that may throw, before or after it has taken effect. -/
def attempt {α : Type} (s s' : Store) (a : α) : Outcome → Option α × Store
  | .ok => (some a, s')
  | .lost => (none, s')
  | .failed => (none, s)

def answered {α : Type} (a : α) (outcome : Outcome) : Option α :=
  if outcome = .ok then some a else none

def serve (s : Store) (_ : Trail) (c : Query) (x : Choice) : Option (c.Answer × Store) :=
  match c with
  -- no handler waits for what it begins with
  | .received _ | .asked _ _ => none
  | .cleanup _ => some ((), s)
  | .resolveContractId name =>
    some (answered (Webhook.resolveContractId s.contracts name) x.outcome, s)
  | .getChain _ => some (answered x.chain x.outcome, s)
  | .realAudit contractId => some (answered (s.realAudit contractId) x.outcome, s)
  | .randomUUID | .now => some (x.text, s)
  | .publish message correlationId =>
    some (attempt s (s.publish x.text correlationId message) x.text x.outcome)
  | .take offset => s.pushes[offset]?.map fun push => (push, s)
  | .fetchSource ref => some (SourceFetcher.fetchSource g.fetcher x.github ref, s)
  | .fetchTestBundle _ => some (x.bundle, s)
  | .materialise _ => some (answered () x.outcome, s)
  | .execute _ workspace =>
    -- without a workspace there is nothing to run
    if workspace.isNone && x.execution.hasRun then none else some (x.execution, s)
  | .scan _ => some (x.fetched, s)
  | .save row => some (attempt s (s.save row) () x.outcome)

inductive Request
  | webhook (delivery : Delivery)
  | simulatePush (contractId : Text) (body : Option Json)
  | handlePush (offset : ℕ)

def start : Request → Flow Query Query.Answer Reply
  | .webhook delivery => ⟨[⟨.received delivery, ()⟩], webhook g delivery⟩
  | .simulatePush contractId body => ⟨[⟨.asked contractId body, ()⟩], simulatePush contractId body⟩
  | .handlePush offset => ⟨[], handlePush g offset⟩

/-- Contracts come, are linked and change by other routes. -/
def service : Service Query Query.Answer Reply Store Request Choice Contracts where
  start _ request := some (start g request)
  serve := serve g
  pass s contracts := some { s with contracts }

abbrev System : Type := Concurrent.State Query Query.Answer Reply Store

abbrev Action : Type := Concurrent.Action Request Choice Contracts

def Initial (s : Store) : Prop := s.pushes = [] ∧ s.audits = [] ∧ s.messages = []

def system : Machine System Action := Concurrent.system (service g) Initial

end AssureCode.Push
