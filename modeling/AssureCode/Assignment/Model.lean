import AssureCode.Ledger.Chain
import AssureCode.Settlement.Model

/-! # Assigning a freelancer

The routes that assign a contract, decide on the assignment and lock the contract, for one
contract. Every handler is a program of statements, one a step. A statement may succeed, throw
without having taken effect, or throw after taking effect; a process may die between any two
steps. A request has a number of its own.
-/

namespace AssureCode.Assignment

open Js Ledger
open Settlement (Outcome)

/-! ## Tables -/

inductive Role | client | freelancer | auditor | admin
  deriving DecidableEq

def Role.name : Role → Text
  | .client => units "client"
  | .freelancer => units "freelancer"
  | .auditor => units "auditor"
  | .admin => units "admin"

inductive Status | pending | accepted | rejected
  deriving DecidableEq

def Status.name : Status → Text
  | .pending => units "PENDING"
  | .accepted => units "ACCEPTED"
  | .rejected => units "REJECTED"

inductive ReasonCode
  | deadlineInfeasible
  | outsideExpertise
  | compensationMismatch
  | unavailable
  | other
  deriving DecidableEq

def ReasonCode.name : ReasonCode → Text
  | .deadlineInfeasible => units "DEADLINE_INFEASIBLE"
  | .outsideExpertise => units "OUTSIDE_EXPERTISE"
  | .compensationMismatch => units "COMPENSATION_MISMATCH"
  | .unavailable => units "UNAVAILABLE"
  | .other => units "OTHER"

/-- What `RejectAssignmentSchema` gives. -/
structure RejectAssignment where
  reasonCode : Option ReasonCode := none
  reasonText : Option Text := none
  deriving DecidableEq

/-- What `/lock` takes from the body that `InitializeContractSchema` gives. -/
structure Terms where
  title : Text
  requirements : Text
  budgetCents : Number
  deadline : Text
  deriving DecidableEq

/-- The parties of the row of `contracts`. -/
structure Contract where
  clientId : Text
  freelancerId : Option Text := none
  deriving DecidableEq

/-- A row of `contract_assignments`. -/
structure Row where
  assignmentId : ℕ
  freelancerId : Text
  status : Status := .pending
  lockedLedgerId : Option ℕ := none
  lockedLedgerHash : Option Text := none
  rejectionReason : RejectAssignment := {}
  deriving DecidableEq

/-- What a route of this file hands to `appendWithOutbox`. -/
inductive Posting
  | assigned (freelancerId : Text) (assignmentId : ℕ)
  | accepted (freelancerId : Text) (assignmentId : ℕ) (lockedLedgerHash : Option Text)
  | rejected (freelancerId : Text) (assignmentId : ℕ) (reason : RejectAssignment)
  | locked (terms : Terms)
  deriving DecidableEq

/-- The action types of the other routes and of the settlement worker. -/
inductive Kind
  | testsGenerated
  | escrowCreated
  | escrowAuthorized
  | escrowEvent
  | scopeDriftAssessed
  | contractRepoLinked
  | settlementCompleted
  deriving DecidableEq

def Kind.name : Kind → Text
  | .testsGenerated => units "TESTS_GENERATED"
  | .escrowCreated => units "ESCROW_CREATED"
  | .escrowAuthorized => units "ESCROW_AUTHORIZED"
  | .escrowEvent => units "ESCROW_EVENT"
  | .scopeDriftAssessed => units "SCOPE_DRIFT_ASSESSED"
  | .contractRepoLinked => units "CONTRACT_REPO_LINKED"
  | .settlementCompleted => units "SETTLEMENT_COMPLETED"

inductive Record
  | posting (p : Posting)
  | other (kind : Kind) (payload : Data)

def Posting.actionType : Posting → Text
  | .assigned .. => units "CONTRACT_ASSIGNED"
  | .accepted .. => units "ASSIGNMENT_ACCEPTED"
  | .rejected .. => units "ASSIGNMENT_REJECTED"
  | .locked _ => units "CONTRACT_LOCKED"

def Record.actionType : Record → Text
  | .posting p => p.actionType
  | .other kind _ => kind.name

/-- `EVENT_TOPICS` -/
def Posting.topic : Posting → Text
  | .assigned .. => units "assignment.pending"
  | .accepted .. => units "assignment.accepted"
  | .rejected .. => units "assignment.rejected"
  | .locked _ => units "contract.locked"

/-- `x ?? null` -/
def orNull (x : Option Text) : Data := x.elim .null .string

/-- What the payloads of the three entries begin with; a `BIGINT` is read as a string. -/
def parties (contractId freelancerId : Text) (assignmentId : ℕ) : List (Text × Data) := [
  (units "contractId", .string contractId),
  (units "freelancerId", .string freelancerId),
  (units "assignmentId", .string (digitsOf assignmentId))]

/-- The payload for the ledger. -/
def Posting.payload (contractId : Text) : Posting → Data
  | .assigned freelancerId assignmentId => .object (parties contractId freelancerId assignmentId)
  | .accepted freelancerId assignmentId lockedLedgerHash => .object <|
    parties contractId freelancerId assignmentId ++
      [(units "lockedLedgerHash", orNull lockedLedgerHash)]
  | .rejected freelancerId assignmentId reason => .object <|
    parties contractId freelancerId assignmentId ++
      [(units "reasonCode", orNull (reason.reasonCode.map ReasonCode.name))]
  | .locked terms => .object [
    (units "title", .string terms.title),
    (units "requirements", .string terms.requirements),
    (units "budgetCents", .number terms.budgetCents),
    (units "deadline", .string terms.deadline)]

/-- The payload for the outbox. -/
def Posting.event (contractId : Text) : Posting → Data
  | .assigned freelancerId assignmentId | .accepted freelancerId assignmentId _ =>
    .object (parties contractId freelancerId assignmentId)
  | .rejected freelancerId assignmentId reason => .object <|
    parties contractId freelancerId assignmentId ++
      [(units "reasonCode", orNull (reason.reasonCode.map ReasonCode.name)),
        (units "reasonText", orNull reason.reasonText)]
  | .locked terms => .object [
    (units "contractId", .string contractId),
    (units "title", .string terms.title),
    (units "budgetCents", .number terms.budgetCents),
    (units "deadline", .string terms.deadline)]

def Record.payload (contractId : Text) : Record → Data
  | .posting p => p.payload contractId
  | .other _ payload => payload

/-- A row of `merkle_ledger`. -/
structure Entry where
  ledgerId : ℕ
  record : Record
  previousHash : Text
  currentHash : Text

/-- A row of `outbox`. -/
structure Message where
  topic : Text
  payload : Data

/-- `ledger_id` and `current_hash` of the genesis row. -/
abbrev Genesis := ℕ × Text

/-- The rows are in the order of their numbers; a sequence also serves other contracts. -/
structure Database where
  users : List Text := []
  contract : Option Contract := none
  assignments : List Row := []
  nextAssignmentId : ℕ := 1
  ledger : List Entry := []
  nextLedgerId : ℕ := 1
  outbox : List Message := []

instance (db : Database) (userId : Text) : Decidable (userId ∈ db.users) :=
  decidable_of_iff (db.users.any (· = userId)) (by simp)

/-- `ORDER BY ledger_id ASC LIMIT 1` -/
def Database.genesis (db : Database) : Option Genesis :=
  db.ledger.head?.map fun e => (e.ledgerId, e.currentHash)

/-! ## Requests -/

/-- `request.user`, or the flag of a machine caller. -/
inductive Caller
  | service
  | anonymous
  | user (userId : Text) (role : Role)
  deriving DecidableEq

/-- A body of `/assignment/reject`: its two members, or something that is no such object. -/
inductive RejectBody
  | object (reasonCode reasonText : Option Text)
  | malformed
  deriving DecidableEq

inductive Call
  /-- `freelancerId` is `none` when the body lacks it. -/
  | assign (freelancerId : Option Text)
  | accept
  | reject (body : RejectBody)
  /-- `none` is a body that `InitializeContractSchema` refuses. -/
  | lock (body : Option Terms)
  deriving DecidableEq

structure Request where
  call : Call
  caller : Caller
  deriving DecidableEq

inductive Reply
  | assigned (freelancerId : Text) (assignmentId : ℕ)
  | decided (assignmentId : ℕ) (status : Status)
  | locked (hash : Text)
  | error (statusCode : ℕ) (error : Text) (message : Option Text := none)
    (status : Option Status := none)
  deriving DecidableEq

def Reply.statusCode : Reply → ℕ
  | .error statusCode _ _ _ => statusCode
  | _ => 200

/-- The answer to what a route throws, when it is no refusal of a schema. -/
def internalServerError : Reply := .error 500 (units "Internal Server Error")

def invalidRequestBody : Reply := .error 400 (units "Invalid request body")

def alreadyActive : Reply :=
  .error 409 (units "ASSIGNMENT_ALREADY_ACTIVE")
    (some (units "This contract already has an accepted assignment."))

def alreadyPending : Reply :=
  .error 409 (units "ASSIGNMENT_ALREADY_PENDING")
    (some (units "A decision is already pending for this contract."))

def notPending (status : Option Status) : Reply :=
  .error 409 (units "ASSIGNMENT_NOT_PENDING")
    (some (status.elim (units "No pending assignment found for you on this contract.")
      fun status => units "This assignment is already " ++ status.name ++ units "."))
    status

/-! ## The guards -/

/-- The one role, and the one party, that a route admits. -/
def Call.party : Call → Role
  | .assign _ | .lock _ => .client
  | .accept | .reject _ => .freelancer

/-- `requireRole`; `none` lets the request pass. -/
def requireRole (allowed : Role) : Caller → Option Reply
  | .service => none
  | .anonymous => some (.error 401 (units "Unauthorized")
      (some (units "Authentication token required for this resource")))
  | .user _ role =>
    if role = allowed then none
    else some (.error 403 (units "Forbidden") (some (units "Role '" ++ role.name ++
      units "' is not authorized. Allowed roles: " ++ allowed.name)))

/-- `requireContractParty`, once it has read the contract. -/
def requireContractParty (party : Role) (userId : Text) (row : Option Contract) : Option Reply :=
  row.bind fun row =>
    if party = .client ∧ userId = row.clientId ∨
        party = .freelancer ∧ row.freelancerId = some userId then none
    else some (.error 403 (units "Forbidden")
      (some (units "You are not a party to this contract.")))

def accessCheckUnavailable : Reply :=
  .error 503 (units "CONTRACT_ACCESS_CHECK_UNAVAILABLE")
    (some (units "Could not confirm contract ownership; refusing to proceed."))

/-! ## The handlers -/

def ReasonCode.parse (code : Text) : Option ReasonCode :=
  [ReasonCode.deadlineInfeasible, .outsideExpertise, .compensationMismatch, .unavailable,
    .other].find? (·.name = code)

/-- `RejectAssignmentSchema.parse`; `none` where it throws. -/
def RejectBody.parse : RejectBody → Option RejectAssignment
  | .malformed => none
  | .object reasonCode reasonText => do
    let reasonCode ← match reasonCode with
      | none => some none
      | some code => (ReasonCode.parse code).map some
    if reasonText.any (2000 < ·.length) then none
    else if reasonCode = some .other ∧ trim (reasonText.getD []) = [] then none
    else some { reasonCode, reasonText }

/-- Each constructor names the statement that comes next. -/
inductive Task
  | selectAccepted (freelancerId : Text)
  | selectGenesis (freelancerId : Text)
  | updateFreelancer (freelancerId : Text) (h0 : Option Genesis)
  | insertAssignment (freelancerId : Text) (h0 : Option Genesis)
  | accept (userId : Text)
  | selectAnchor (userId : Text) (assignmentId : ℕ) (lockedLedgerHash : Option Text)
  | updateAnchor (userId : Text) (assignmentId : ℕ) (lockedLedgerHash : Option Text) (h0 : Genesis)
  | reject (userId : Text) (reason : RejectAssignment)
  | clearFreelancer (userId : Text) (assignmentId : ℕ) (reason : RejectAssignment)
  /-- After an `UPDATE` that has matched no row. -/
  | selectStatus (userId : Text)
  /-- The stored procedure. -/
  | appendWithOutbox (p : Posting)
  /-- The transaction that is tried when the stored procedure has failed. -/
  | appendManually (p : Posting)
  deriving DecidableEq

inductive Next
  | task (t : Task)
  | done (reply : Reply)
  | throw (reply : Reply)
  deriving DecidableEq

/-- A handler up to its first statement. -/
def Request.start (q : Request) : Next :=
  match q.call, q.caller with
  | .assign freelancerId, _ =>
    if freelancerId.getD [] = [] then .done (.error 400 (units "freelancerId is required"))
    else .task (.selectAccepted (freelancerId.getD []))
  | .accept, .user userId _ => .task (.accept userId)
  | .reject body, caller =>
    match body.parse, caller with
    | none, _ => .throw invalidRequestBody
    | some reason, .user userId _ => .task (.reject userId reason)
    | some _, _ => .throw internalServerError
  | .lock body, _ =>
    body.elim (.throw invalidRequestBody) fun terms => .task (.appendWithOutbox (.locked terms))
  -- `user` is undefined.
  | .accept, _ => .throw internalServerError

/-- `WHERE contract_id = $1 AND freelancer_id = $2 AND status = 'PENDING'` -/
def Row.pendingFor (userId : Text) (r : Row) : Bool := r.freelancerId = userId ∧ r.status = .pending

def Row.accept (r : Row) : Row := { r with status := .accepted }

def Row.reject (reason : RejectAssignment) (r : Row) : Row :=
  { r with status := .rejected, rejectionReason := reason }

def Row.setAnchor (h0 : Genesis) (r : Row) : Row :=
  { r with lockedLedgerId := some h0.1, lockedLedgerHash := some h0.2 }

/-- `UPDATE contract_assignments SET … WHERE …` -/
def Database.update (db : Database) (p : Row → Bool) (f : Row → Row) : Database :=
  { db with assignments := db.assignments.map fun r => if p r then f r else r }

def Database.setFreelancer (db : Database) (freelancerId : Option Text) : Database :=
  { db with contract := db.contract.map fun c => { c with freelancerId } }

section Append

variable (sha256 : Text → Text) (contractId : Text)

/-- `append_ledger`; `none` where it throws, or `canonicalize` before it. -/
def append (db : Database) (record : Record) : Option (Database × Entry) :=
  match db.contract, canonicalize (record.payload contractId) with
  | some _, .ok payloadCanonical =>
    let previousHash := (db.ledger.getLast?.map (·.currentHash)).getD genesis
    let entry : Entry := {
      ledgerId := db.nextLedgerId
      record
      previousHash
      currentHash := chainHash sha256 payloadCanonical previousHash }
    some ({ db with
      ledger := db.ledger ++ [entry]
      nextLedgerId := db.nextLedgerId + 1 }, entry)
  | _, _ => none

def post (db : Database) (p : Posting) : Option (Database × Entry) :=
  (append sha256 contractId db (.posting p)).map fun (db, entry) =>
    ({ db with outbox := db.outbox ++ [⟨p.topic, p.event contractId⟩] }, entry)

end Append

/-- What the route answers when the append has succeeded. -/
def Posting.reply (entry : Entry) : Posting → Reply
  | .assigned freelancerId assignmentId => .assigned freelancerId assignmentId
  | .accepted _ assignmentId _ => .decided assignmentId .accepted
  | .rejected _ assignmentId _ => .decided assignmentId .rejected
  | .locked _ => .locked entry.currentHash

/-- After a row was accepted; `!lockedLedgerHash` -/
def anchor (userId : Text) (assignmentId : ℕ) (lockedLedgerHash : Option Text) : Task :=
  if lockedLedgerHash.getD [] = [] then .selectAnchor userId assignmentId lockedLedgerHash
  else .appendWithOutbox (.accepted userId assignmentId lockedLedgerHash)

/-- Where a handler goes on when the statement of its task throws. -/
def raised : Task → Next
  | .selectAnchor userId assignmentId lockedLedgerHash
  | .updateAnchor userId assignmentId lockedLedgerHash _ =>
    .task (.appendWithOutbox (.accepted userId assignmentId lockedLedgerHash))
  | .appendWithOutbox p => .task (.appendManually p)
  | _ => .throw internalServerError

/-- The `INSERT` and its `catch`. -/
def insertAssignment (db : Database) (freelancerId : Text) (h0 : Option Genesis) :
    Database × Next :=
  let drawn := { db with nextAssignmentId := db.nextAssignmentId + 1 }
  if db.assignments.any (·.status = .pending) then (drawn, .done alreadyPending)
  else if db.contract = none ∨ freelancerId ∉ db.users then (drawn, .throw internalServerError)
  else
    ({ drawn with
      assignments := db.assignments ++ [{
        assignmentId := db.nextAssignmentId
        freelancerId
        lockedLedgerId := h0.map (·.1)
        lockedLedgerHash := h0.map (·.2) }] },
      .task (.appendWithOutbox (.assigned freelancerId db.nextAssignmentId)))

section Perform

variable (sha256 : Text → Text) (contractId : Text)

/-- The statement of a task, when nothing but the database makes it fail. -/
def perform (db : Database) : Task → Database × Next
  | .selectAccepted freelancerId =>
    (db, if db.assignments.any (·.status = .accepted) then .done alreadyActive
      else .task (.selectGenesis freelancerId))
  | .selectGenesis freelancerId => (db, .task (.updateFreelancer freelancerId db.genesis))
  | .updateFreelancer freelancerId h0 =>
    -- The foreign key is checked for a row that is there.
    if db.contract.isSome ∧ freelancerId ∉ db.users then (db, .throw internalServerError)
    else (db.setFreelancer freelancerId, .task (.insertAssignment freelancerId h0))
  | .insertAssignment freelancerId h0 => insertAssignment db freelancerId h0
  | .accept userId =>
    match db.assignments.find? (·.pendingFor userId) with
    | none => (db, .task (.selectStatus userId))
    | some r =>
      (db.update (·.pendingFor userId) Row.accept,
        .task (anchor userId r.assignmentId r.lockedLedgerHash))
  | .selectAnchor userId assignmentId lockedLedgerHash =>
    (db, .task (db.genesis.elim
      (.appendWithOutbox (.accepted userId assignmentId lockedLedgerHash))
      (.updateAnchor userId assignmentId lockedLedgerHash)))
  | .updateAnchor userId assignmentId _ h0 =>
    (db.update (·.assignmentId = assignmentId) (Row.setAnchor h0),
      .task (.appendWithOutbox (.accepted userId assignmentId (some h0.2))))
  | .reject userId reason =>
    match db.assignments.find? (·.pendingFor userId) with
    | none => (db, .task (.selectStatus userId))
    | some r =>
      (db.update (·.pendingFor userId) (Row.reject reason),
        .task (.clearFreelancer userId r.assignmentId reason))
  | .clearFreelancer userId assignmentId reason =>
    (db.setFreelancer none, .task (.appendWithOutbox (.rejected userId assignmentId reason)))
  | .selectStatus userId =>
    (db, .done (notPending
      ((db.assignments.filter (·.freelancerId = userId)).getLast?.map (·.status))))
  | .appendWithOutbox p =>
    (post sha256 contractId db p).elim (db, .task (.appendManually p))
      fun (db, entry) => (db, .done (p.reply entry))
  | .appendManually p =>
    (post sha256 contractId db p).elim (db, .throw internalServerError)
      fun (db, entry) => (db, .done (p.reply entry))

end Perform

/-! ## The system -/

/-- In `running`, `again` says that `withIdempotency` runs a handler once more that throws. -/
inductive Actor
  | idle
  | guarded (q : Request)
  | admitted (q : Request)
  | running (q : Request) (task : Task) (again : Bool)
  | answered (q : Request) (reply : Reply)
  | died (q : Request)
  deriving DecidableEq

structure State where
  db : Database := {}
  actors : ℕ → Actor := fun _ => .idle

def State.setActor (s : State) (i : ℕ) (a : Actor) : State :=
  { s with actors := Function.update s.actors i a }

/-- The role is checked before anything is read. -/
def Request.enter (q : Request) : Actor :=
  match requireRole q.call.party q.caller, q.caller with
  | some reply, _ => .answered q reply
  | none, .service => .admitted q
  | none, _ => .guarded q

/-- `requireContractParty`, when its `SELECT` succeeds. -/
def Request.pass (q : Request) (row : Option Contract) : Actor :=
  match q.caller with
  | .user userId _ =>
    (requireContractParty q.call.party userId row).elim (.admitted q) (.answered q)
  | _ => .admitted q

/-- A handler that is not run again. -/
def Request.goOn (q : Request) : Next → Actor
  | .task task => .running q task false
  | .done reply | .throw reply => .answered q reply

def Request.goto (q : Request) (again : Bool) : Next → Actor
  | .task task => .running q task again
  | .done reply => .answered q reply
  | .throw reply => if again then q.goOn q.start else .answered q reply

inductive Action
  | register (userId : Text)
  | initializeContract (clientId : Text)
  /-- Another route, or the worker, appends to the ledger of the contract. -/
  | record (kind : Kind) (payload : Data)
  /-- Another contract draws from a sequence. -/
  | drawAssignment
  | drawLedger
  | request (i : ℕ) (q : Request)
  /-- `withIdempotency` runs the handler. -/
  | run (i : ℕ) (again : Bool)
  /-- `withIdempotency` answers without running the handler. -/
  | replay (i : ℕ) (reply : Reply)
  | advance (i : ℕ) (o : Outcome)
  | crash (i : ℕ)

section Step

variable (sha256 : Text → Text) (contractId : Text)

def advance (s : State) (i : ℕ) (o : Outcome) : Option State :=
  match s.actors i, o with
  | .guarded q, .ok => some (s.setActor i (q.pass s.db.contract))
  | .guarded q, _ => some (s.setActor i (.answered q accessCheckUnavailable))
  | .running q task again, .failed => some (s.setActor i (q.goto again (raised task)))
  | .running q task again, .ok =>
    let (db, next) := perform sha256 contractId s.db task
    some (State.setActor { s with db } i (q.goto again next))
  | .running q task again, .lost =>
    let (db, _) := perform sha256 contractId s.db task
    some (State.setActor { s with db } i (q.goto again (raised task)))
  | _, _ => none

def step (s : State) : Action → Option State
  | .register userId => some { s with db.users := userId :: s.db.users }
  | .initializeContract clientId =>
    if clientId ∈ s.db.users then
      some { s with db.contract := s.db.contract.or (some { clientId }) }
    else none
  | .record kind payload =>
    (append sha256 contractId s.db (.other kind payload)).map fun (db, _) => { s with db }
  | .drawAssignment => some { s with db.nextAssignmentId := s.db.nextAssignmentId + 1 }
  | .drawLedger => some { s with db.nextLedgerId := s.db.nextLedgerId + 1 }
  | .request i q => if s.actors i = .idle then some (s.setActor i q.enter) else none
  | .run i again =>
    match s.actors i with
    | .admitted q => some (s.setActor i (q.goto again q.start))
    | _ => none
  | .replay i reply =>
    match s.actors i with
    | .admitted q => some (s.setActor i (.answered q reply))
    | _ => none
  | .advance i o => advance sha256 contractId s i o
  | .crash i =>
    match s.actors i with
    | .guarded q | .admitted q | .running q _ _ => some (s.setActor i (.died q))
    | _ => none

end Step

/-- There is no contract yet, nothing about it, and no request. -/
def Initial (s : State) : Prop :=
  s.db.contract = none ∧ s.db.assignments = [] ∧ s.db.ledger = [] ∧ s.db.outbox = [] ∧
    ∀ i, s.actors i = .idle

def system (sha256 : Text → Text) (contractId : Text) : Machine State Action where
  init := Initial
  step := step sha256 contractId

/-- A request is being worked on. -/
def Actor.busy : Actor → Bool
  | .guarded _ | .admitted _ | .running .. => true
  | _ => false

/-- No request is in progress. -/
def Quiescent (s : State) : Prop := ∀ i, (s.actors i).busy = false

end AssureCode.Assignment
