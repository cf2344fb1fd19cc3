import AssureCode.Provisioning.Names
import AssureCode.Settlement.Model

/-! # Provisioning repositories

The leg of the settlement worker that gives each contract a repository of the organisation: the
subscription to accepted assignments, `attemptProvisioning` and the sweep that retries it. Each of
them is a program of statements and calls, one a step. One may succeed, throw without having taken
effect, or throw after taking effect; a process may die between any two steps.
-/

namespace AssureCode.Provisioning

open Js
open Settlement (Outcome)

/-! ## Tables -/

/-- A row of `contracts`; `active` is that its status is `'ACTIVE'`. -/
structure Contract where
  title : Text
  githubRepoFullName : Option Text := none
  active : Bool := false

structure User where
  displayName : Text
  githubLogin : Option Text

inductive Status | pending | repoCreated | collaboratorAdded | complete | failed
  deriving DecidableEq

inductive CollaboratorStatus | pending | invited | accepted | failed
  deriving DecidableEq

inductive WebhookStatus | pending | attached
  deriving DecidableEq

/-- A row of `repo_provisioning`. -/
structure Row where
  contractId : Text
  repoName : Text
  repoFullName : Option Text := none
  freelancerUserId : Text
  freelancerGithubLogin : Text
  collaboratorStatus : CollaboratorStatus := .pending
  webhookStatus : WebhookStatus := .pending
  status : Status := .pending
  attempts : ℕ := 0
  deriving DecidableEq

/-- What the workers share: the tables, and the names of the organisation's repositories. -/
structure Shared where
  contracts : Text → Option Contract := fun _ => none
  users : Text → Option User := fun _ => none
  rows : List Row := []
  repositories : List Text := []

/-- `SELECT * FROM repo_provisioning WHERE contract_id = $1` -/
def Shared.row? (d : Shared) (contractId : Text) : Option Row :=
  d.rows.find? (·.contractId = contractId)

/-- `UPDATE repo_provisioning … WHERE contract_id = $1` -/
def Shared.update (d : Shared) (contractId : Text) (f : Row → Row) : Shared :=
  { d with rows := d.rows.map fun r => if r.contractId = contractId then f r else r }

/-- `SELECT title`, and what stands for it where there is no row. -/
def Shared.title (d : Shared) (contractId : Text) : Text :=
  ((d.contracts contractId).map (·.title)).getD contractId

/-- The repository that GitHub finds under a name. -/
def Shared.repository? (d : Shared) (name : Text) : Option Text :=
  d.repositories.find? fun existing => toLowerCase existing = toLowerCase name

/-- The `full_name` of a repository of the organisation. -/
def fullName (org name : Text) : Text := org ++ 0x2F :: name

/-! ## Tasks -/

def maxNameAttempts : ℕ := 5

def maxAttempts : ℕ := 5

/-- The arguments of `insertProvisioningRow`. -/
structure Args where
  title : Text
  freelancerDisplayName : Text
  terminal : Bool
  deriving DecidableEq

inductive CollaboratorOutcome | invited | alreadyCollaborator | unknownLogin
  deriving DecidableEq

/-- Where a handler stands: the statement or call that comes next. -/
inductive Task
  | selectRow
  | selectTitle
  | selectDisplayName (title : Text)
  | count (args : Args) (attempt : ℕ)
  | insert (args : Args) (attempt : ℕ) (repoName : Text)
  | reselectRow
  | countAttempt (row : Row)
  /-- The `POST` of `createOrgRepo`, and the `GET` when the name is taken. -/
  | createOrgRepo (row : Row)
  | readOrgRepo (row : Row)
  | recordRepo (row : Row) (repoFullName : Text)
  | addOutsideCollaborator (row : Row) (repoFullName : Text)
  | recordCollaborator (row : Row) (repoFullName : Text) (outcome : CollaboratorOutcome)
  | attachWebhook (repoFullName : Text)
  | recordWebhook (repoFullName : Text)
  | updateContract (repoFullName : Text)
  /-- The sweep stops retrying a row. -/
  | giveUp
  deriving DecidableEq

/-- After a task another one, or the end of the handler. -/
inductive Next
  | task (τ : Task)
  | leave
  deriving DecidableEq

structure Call where
  contractId : Text
  freelancerId : Text
  githubLogin : Text
  deriving DecidableEq

/-- After `insertProvisioningRow`, whose errors are caught. -/
def Args.after (args : Args) : Next := if args.terminal then .leave else .task .reselectRow

/-- With the row in hand; `undefined` is none. -/
def proceed : Option Row → Next
  | none => .leave
  | some row => if row.status = .complete ∨ row.status = .failed then .leave
    else .task (.countAttempt row)

def attach (row : Row) (repoFullName : Text) : Next :=
  if row.webhookStatus ≠ .attached then .task (.attachWebhook repoFullName) else .leave

def collaborate (row : Row) (repoFullName : Text) : Next :=
  if row.collaboratorStatus ≠ .invited ∧ row.collaboratorStatus ≠ .accepted then
    .task (.addOutsideCollaborator row repoFullName)
  else attach row repoFullName

/-- `if (!repoFullName)` -/
def create (row : Row) : Next :=
  let repoFullName := row.repoFullName.getD []
  if repoFullName = [] then .task (.createOrgRepo row) else collaborate row repoFullName

/-- The `INSERT`: the key of the table decides first, then the unique name, then the references. -/
def insertRow (d : Shared) (call : Call) (args : Args) (attempt : ℕ) (repoName : Text) :
    Shared × Next :=
  if (d.row? call.contractId).isSome then (d, args.after)
  else if d.rows.any (·.repoName = repoName) then
    (d, if attempt < maxNameAttempts then .task (.count args (attempt + 1)) else args.after)
  else if (d.contracts call.contractId).isNone ∨ (d.users call.freelancerId).isNone then
    (d, args.after)
  else
    ({ d with
      rows := d.rows ++ [{
        contractId := call.contractId
        repoName
        freelancerUserId := call.freelancerId
        freelancerGithubLogin := call.githubLogin
        status := if args.terminal then .failed else .pending }] }, args.after)

/-- The statement or call of a task, when nothing makes it fail. -/
def perform (org : Text) (answer : CollaboratorOutcome) (d : Shared) (call : Call) :
    Task → Shared × Next
  | .selectRow =>
    match d.row? call.contractId with
    | none => (d, .task .selectTitle)
    | some row => (d, proceed (some row))
  | .selectTitle => (d, .task (.selectDisplayName (d.title call.contractId)))
  | .selectDisplayName title =>
    let freelancerDisplayName :=
      ((d.users call.freelancerId).map (·.displayName)).getD (units "freelancer")
    (d, .task (.count { title, freelancerDisplayName, terminal := false } 1))
  | .count args attempt =>
    let base := base args.title args.freelancerDisplayName
    let num := (d.rows.filter fun r => like (base ++ units "-%") r.repoName).length + attempt
    (d, .task (.insert args attempt (repoName base num)))
  | .insert args attempt repoName => insertRow d call args attempt repoName
  | .reselectRow => (d, proceed (d.row? call.contractId))
  | .countAttempt row =>
    (d.update call.contractId fun r => { r with attempts := r.attempts + 1 }, create row)
  | .createOrgRepo row =>
    match d.repository? row.repoName with
    | none => ({ d with repositories := d.repositories ++ [row.repoName] },
        .task (.recordRepo row (fullName org row.repoName)))
    | some _ => (d, .task (.readOrgRepo row))
  | .readOrgRepo row =>
    (d, (d.repository? row.repoName).elim .leave fun existing =>
      .task (.recordRepo row (fullName org existing)))
  | .recordRepo row repoFullName =>
    (d.update call.contractId fun r =>
      { r with repoFullName := some repoFullName, status := .repoCreated },
      collaborate row repoFullName)
  | .addOutsideCollaborator row repoFullName =>
    (d, .task (.recordCollaborator row repoFullName answer))
  | .recordCollaborator row repoFullName outcome =>
    match outcome with
    | .unknownLogin =>
      (d.update call.contractId fun r => { r with collaboratorStatus := .failed }, .leave)
    | .invited =>
      (d.update call.contractId fun r =>
        { r with collaboratorStatus := .invited, status := .collaboratorAdded },
        attach row repoFullName)
    | .alreadyCollaborator =>
      (d.update call.contractId fun r =>
        { r with collaboratorStatus := .accepted, status := .collaboratorAdded },
        attach row repoFullName)
  | .attachWebhook repoFullName => (d, .task (.recordWebhook repoFullName))
  | .recordWebhook repoFullName =>
    (d.update call.contractId fun r => { r with webhookStatus := .attached, status := .complete },
      .task (.updateContract repoFullName))
  | .updateContract repoFullName =>
    ({ d with
      contracts := Function.update d.contracts call.contractId
        ((d.contracts call.contractId).map fun c =>
          { c with githubRepoFullName := some repoFullName, active := true }) }, .leave)
  | .giveUp => (d.update call.contractId fun r => { r with status := .failed }, .leave)

/-- Where a handler goes on when its statement or call throws. -/
def raised : Task → Next
  | .count args _ | .insert args _ _ => args.after
  | _ => .leave

/-- What a task leaves behind, and where its handler goes on. -/
def attempt (org : Text) (answer : CollaboratorOutcome) (d : Shared) (call : Call) (τ : Task) :
    Outcome → Shared × Next
  | .ok => perform org answer d call τ
  | .failed => (d, raised τ)
  | .lost => ((perform org answer d call τ).1, raised τ)

/-! ## The system -/

/-- An accepted assignment has its title read first; `rest` is what a sweep has still to come to. -/
inductive Actor
  | idle
  | accepted (contractId freelancerId : Text) (title : Option Text)
  | sweeping
  | running (call : Call) (τ : Task) (rest : List Row)
  | ended
  deriving DecidableEq

structure State where
  shared : Shared := {}
  actors : ℕ → Actor := fun _ => .idle

def State.setActor (s : State) (i : ℕ) (a : Actor) : State :=
  { s with actors := Function.update s.actors i a }

/-- The loop of `reconcileStuckProvisioning`. -/
def sweep : List Row → Actor
  | [] => .ended
  | row :: rest =>
    .running {
      contractId := row.contractId
      freelancerId := row.freelancerUserId
      githubLogin := row.freelancerGithubLogin
    } (if maxAttempts ≤ row.attempts then .giveUp else .selectRow) rest

def Call.goto (call : Call) (rest : List Row) : Next → Actor
  | .task τ => .running call τ rest
  | .leave => sweep rest

/-- The subscription, when it has the title: a freelancer without a login ends it. -/
def begin (d : Shared) (contractId freelancerId title : Text) : Actor :=
  let user := d.users freelancerId
  let githubLogin := (user.bind (·.githubLogin)).getD []
  let freelancerDisplayName := (user.map (·.displayName)).getD (units "The freelancer")
  let call := { contractId, freelancerId, githubLogin }
  if githubLogin = [] then
    .running call (.count { title, freelancerDisplayName, terminal := true } 1) []
  else .running call .selectRow []

inductive Action
  | contract (contractId title : Text)
  | user (userId : Text) (user : User)
  /-- The owners of the organisation make and delete repositories of their own. -/
  | createRepository (name : Text)
  | deleteRepository (name : Text)
  | accept (i : ℕ) (contractId freelancerId : Text)
  | attemptProvisioning (i : ℕ) (call : Call)
  | reconcile (i : ℕ)
  /-- The answer is GitHub's to an invitation. -/
  | advance (i : ℕ) (o : Outcome) (answer : CollaboratorOutcome)
  | crash (i : ℕ)

def advance (org : Text) (s : State) (i : ℕ) (o : Outcome) (answer : CollaboratorOutcome) :
    Option State :=
  match s.actors i with
  | .accepted contractId freelancerId none =>
    some (s.setActor i (if o = .ok
      then .accepted contractId freelancerId (some (s.shared.title contractId)) else .ended))
  | .accepted contractId freelancerId (some title) =>
    some (s.setActor i (if o = .ok then begin s.shared contractId freelancerId title else .ended))
  | .sweeping =>
    some (s.setActor i (if o = .ok
      then sweep (s.shared.rows.filter fun r => r.status ≠ .complete ∧ r.status ≠ .failed)
      else .ended))
  | .running call τ rest =>
    let (shared, next) := attempt org answer s.shared call τ o
    some (State.setActor { s with shared } i (call.goto rest next))
  | _ => none

def step (org : Text) (s : State) : Action → Option State
  | .contract contractId title =>
    if (s.shared.contracts contractId).isSome then none
    else some { s with
      shared.contracts := Function.update s.shared.contracts contractId (some { title }) }
  | .user userId user =>
    some { s with shared.users := Function.update s.shared.users userId (some user) }
  | .createRepository name =>
    if (s.shared.repository? name).isSome then none
    else some { s with shared.repositories := s.shared.repositories ++ [name] }
  | .deleteRepository name =>
    some { s with shared.repositories := s.shared.repositories.filter (· ≠ name) }
  | .accept i contractId freelancerId =>
    if s.actors i = .idle then
      some (s.setActor i (if contractId = [] ∨ freelancerId = [] then .ended
        else .accepted contractId freelancerId none))
    else none
  | .attemptProvisioning i call =>
    if s.actors i = .idle then some (s.setActor i (.running call .selectRow [])) else none
  | .reconcile i => if s.actors i = .idle then some (s.setActor i .sweeping) else none
  | .advance i o answer => advance org s i o answer
  | .crash i => if s.actors i = .idle then none else some (s.setActor i .ended)

/-- No row is there yet and no repository linked, and nobody is at work. -/
def Initial (s : State) : Prop :=
  s.shared.rows = [] ∧
    (∀ contractId c, s.shared.contracts contractId = some c → c.githubRepoFullName = none) ∧
    ∀ i, s.actors i = .idle

def system (org : Text) : Machine State Action where
  init := Initial
  step := step org

end AssureCode.Provisioning
