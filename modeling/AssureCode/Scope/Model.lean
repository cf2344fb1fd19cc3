import AssureCode.Js.Stringify
import AssureCode.Python.Format
import AssureCode.Python.Text
import AssureCode.Transition.Concurrent

/-! # The chat channel and its guard

A message of a chat is delivered by the gateway only after the scope guard, another process, has
checked it against the contract. The guard records each of its decisions before it answers, and
its drift route reads the record back. Each route is a program of what it waits for; the texts of
the gateway are code units, and those of the guard code points.
-/

namespace AssureCode.Scope

open Js Program Python

structure ScopeCheckRequest where
  contractId : Text
  message : Text
  sender : Text
  deriving DecidableEq

structure RetrievedChunk where
  chunkIdx : ℕ
  content : Text
  similarity : ℚ
  deriving DecidableEq

structure ScopeCheckResponse where
  allowed : Bool
  similarityScore : ℚ
  reason : Text
  suggestedMediation : Option Text
  checkedAt : Text
  contractId : Text
  genesisHash : Text
  threshold : ℚ
  retrieved : List RetrievedChunk
  embeddingModel : Text
  deriving DecidableEq

structure ScopeDecisionRecord where
  contractId : Text
  sender : Text
  message : Text
  allowed : Bool
  similarity : ℚ
  threshold : ℚ
  genesisHash : Text
  deriving DecidableEq

/-- The payload of an event of the topic `scope.checked`. -/
structure ScopeEvent where
  contractId : Text
  message : Text
  allowed : Bool
  reason : Option Text := none
  mediation : Option Text := none
  sender : Option Text := none
  deriving DecidableEq

/-- What the guard answers to the gateway; a refusal has the text of its body. -/
inductive Answer
  | checked (response : ScopeCheckResponse)
  | refused (statusCode : ℕ) (detail : Text)
  deriving DecidableEq

/-- What a request waits for; a request to the guard is sent and its answer received. -/
inductive Query
  | send (request : ScopeCheckRequest)
  | receive (id : ℕ)
  | randomUUID
  | publish (event : ScopeEvent) (correlationId : Text)
  | accept (id : ℕ)
  | genesis (contractId : Text)
  | embed (message : Text)
  | search (contractId : Text) (query : List ℚ) (k : ℕ)
  | nextCheckId
  | insertCheck (checkId : ℕ) (decision : ScopeDecisionRecord)
  | utcNow
  | respond (id : ℕ) (answer : Answer)
  | residuals (contractId : Text)
  deriving DecidableEq

/-- `none` and errors are exceptions; nothing is received after the time that is allowed. -/
abbrev Query.Answer : Query → Type
  | .send _ | .nextCheckId => ℕ
  | .receive _ => Option Scope.Answer
  | .randomUUID | .utcNow => Text
  | .publish _ _ => Option Unit
  | .accept _ => ScopeCheckRequest
  | .genesis _ => Except Text (Option Text)
  | .embed _ => Option (List ℚ)
  | .search _ _ _ => Except Text (List RetrievedChunk)
  | .insertCheck _ _ => Except Text Unit
  | .respond _ _ => Unit
  | .residuals _ => Except Text (List ℚ)

abbrev Event : Type := Program.Event Query.Answer

abbrev Trail : Type := List Event

abbrev Code : Type → Type := Program Query Query.Answer

inductive Reply
  | error (status : ℕ) (error : Text)
  | delivered (message sender : Text)
  | blocked (reason mediation : Text)
  | responded
  | raised (exception : HttpException Text)
  /-- The residuals that a drift assessment is made of. -/
  | assessed (contractId genesisHash : Text) (residuals : List ℚ)

/-! ## The guard -/

/-- The guard's settings, and the column type `REAL` of what it records. -/
structure Settings where
  retrievalK : ℕ
  scopeThreshold : ℚ
  embeddingModel : Text
  calibration : List ℚ
  driftDelta : ℚ := 5 / 100
  driftEpsilon : ℚ := 92 / 100
  real : ℚ → ℚ

variable (settings : Settings)

/-- `anchor.genesis`, with the text of its LedgerAnchorUnavailable. -/
def genesis (contractId : Text) : Code (Except Text Text) := do
  match ← await (Query.genesis contractId) with
  | .error err => pure (.error err)
  | .ok none => pure (.error (text "contract " ++ contractId ++
      text " has no ledger entries, so there is no genesis hash " ++
      text "to anchor a scope decision to. Lock the contract before checking scope."))
  | .ok (some genesisHash) => pure (.ok genesisHash)

def embed (message : Text) : Code (List ℚ) := do
  ofOption (← await (Query.embed message))

/-- `scope_log.record`: the row takes its number and is inserted after that. -/
def record (decision : ScopeDecisionRecord) : Code (Except Text Unit) := do
  let checkId ← await Query.nextCheckId
  await (Query.insertCheck checkId decision)

/-- `max` over the similarities. -/
def best (first : RetrievedChunk) (rest : List RetrievedChunk) : ℚ :=
  rest.foldl (fun b r => max b r.similarity) first.similarity

def reasonOf (best : ℚ) : Text :=
  if settings.scopeThreshold ≤ best then
    text "Request matches indexed contract requirements (best similarity " ++
      text (fixed 3 best) ++ text " >= threshold " ++ text (fixed 3 settings.scopeThreshold) ++
      text ")."
  else
    text "Request does not match the agreed contract requirements (best similarity " ++
      text (fixed 3 best) ++ text " < threshold " ++ text (fixed 3 settings.scopeThreshold) ++
      text ")."

def mediationOf (best : ℚ) (genesisHash : Text) : Option Text :=
  if settings.scopeThreshold ≤ best then none
  else some
    (text "Scope Guard alert: this request does not resemble the requirements anchored at " ++
      text "contract hash " ++ genesisHash.take 16 ++ text "…. To proceed, raise a scope " ++
      text "amendment or a milestone addendum so the change is priced and recorded.")

def decisionOf (request : ScopeCheckRequest) (best : ℚ) (genesisHash : Text) :
    ScopeDecisionRecord where
  contractId := request.contractId
  sender := request.sender
  message := request.message
  allowed := settings.scopeThreshold ≤ best
  similarity := best
  threshold := settings.scopeThreshold
  genesisHash := genesisHash

def exception (statusCode : ℕ) (detail : Text) : Except (HttpException Text) ScopeCheckResponse :=
  .error { statusCode, detail }

/-- What follows the retrieval: the decision is recorded, and answered only then. -/
def decideScope (request : ScopeCheckRequest) (genesisHash : Text)
    (retrieved : List RetrievedChunk) : Code (Except (HttpException Text) ScopeCheckResponse) :=
  match retrieved with
  | [] => pure (exception 409 (text "No contract text indexed for " ++ request.contractId ++
      text ". The scope guard has nothing " ++
      text "to compare against; ingest the contract requirements before checking scope."))
  | first :: rest => do
    let decision := decisionOf settings request (best first rest) genesisHash
    match ← record decision with
    | .error err => pure (exception 503 (text "Scope decision computed (allowed=" ++
        text (if decision.allowed then "True" else "False") ++ text ", similarity=" ++
        text (fixed 4 decision.similarity) ++ text ") but could not be recorded: " ++ err ++
        text ". Refusing to return an unrecorded decision."))
    | .ok () => do
      let checkedAt ← await Query.utcNow
      pure (.ok {
        allowed := decision.allowed
        similarityScore := round decision.similarity 4
        reason := reasonOf settings decision.similarity
        suggestedMediation := mediationOf settings decision.similarity genesisHash
        checkedAt
        contractId := request.contractId
        genesisHash
        threshold := settings.scopeThreshold
        retrieved := retrieved.map fun r =>
          { r with content := r.content.take 400, similarity := round r.similarity 4 }
        embeddingModel := settings.embeddingModel })

def checkScope (request : ScopeCheckRequest) :
    Code (Except (HttpException Text) ScopeCheckResponse) :=
  if strip request.message = [] then pure (exception 400 (text "Message cannot be empty"))
  else do
    match ← genesis request.contractId with
    | .error err => pure (exception 409 err)
    | .ok genesisHash => do
      let query ← embed request.message
      match ← await (Query.search request.contractId query settings.retrievalK) with
      | .error err => pure (exception 503 (text "Scope corpus unavailable: " ++ err))
      | .ok retrieved => decideScope settings request genesisHash retrieved

/-- The body of an answer with an exception's detail, as the gateway reads it. -/
def detailBody (detail : Text) : Text :=
  units "\x7b\"detail\":" ++ quote (Python.encode detail) ++ units "\x7d"

def answerOf : Except (HttpException Text) ScopeCheckResponse → Answer
  | .error e => .refused e.statusCode (detailBody e.detail)
  | .ok response => .checked response

/-- A request at the guard's end of the line; what is not caught there answers 500. -/
def answerCheck (id : ℕ) : Code Reply := do
  let request ← await (Query.accept id)
  let answer ← Program.catching (do return answerOf (← checkScope settings request))
    (pure (.refused 500 (units "Internal Server Error")))
  await (Query.respond id answer)
  return .responded

def driftException (statusCode : ℕ) (detail : Text) : Code Reply :=
  pure (.raised { statusCode, detail })

/-- The drift route up to the detector, which is made anew for the residuals that it returns. -/
def assessDrift (contractId : Text) : Code Reply := do
  match ← genesis contractId with
  | .error err => driftException 409 err
  | .ok genesisHash =>
    if settings.calibration = [] then
      driftException 503
        (text "No drift calibration set is configured, so no anytime-valid false-alarm rate " ++
          text "can be reported. The conformal guarantee requires calibration residuals from " ++
          text "known in-scope traffic (the T2 set). Set SCOPE_DRIFT_CALIBRATION_PATH. " ++
          text "Refusing to return an alarm whose delta would describe nothing.")
    else do
      match ← await (Query.residuals contractId) with
      | .error err => driftException 503 (text "Scope decision log unavailable: " ++ err)
      | .ok [] => driftException 409 (text "No scope decisions are recorded for " ++ contractId ++
          text ". Drift is a property of a " ++ text "sequence; there is no sequence to assess.")
      | .ok residuals => pure (.assessed contractId genesisHash residuals)

/-! ## The gateway -/

def publish (event : ScopeEvent) (correlationId : Text) : Code Unit := do
  ofOption (← await (Query.publish event correlationId))

/-- `||`, for a text that may be missing. -/
def orElse (t : Option Text) (default : Text) : Text := (t.filter (· ≠ [])).getD default

/-- What follows a decision of the guard. -/
def deliver (contractId message sender : Text) (response : ScopeCheckResponse) : Code Reply :=
  if response.allowed then do
    let correlationId ← await Query.randomUUID
    publish { contractId, message, allowed := true, sender := some sender } correlationId
    return .delivered message sender
  else do
    let reason := Python.encode response.reason
    let mediation := response.suggestedMediation.map Python.encode
    let rejectionId ← await Query.randomUUID
    publish { contractId, message, allowed := false, reason := some reason, mediation } rejectionId
    return .blocked reason (orElse mediation
      (units "Off-scope change request blocked by automated Scope Guard."))

/-- The chat route behind its guard; the role is that of the caller, if there is one. -/
def chat (contractId : Text) (message : Option Text) (role : Option Text) : Code Reply :=
  match message.filter (· ≠ []) with
  | none => pure (.error 400 (units "Message is required"))
  | some message => do
    let sender := role.getD (units "service")
    let id ← await (Query.send ⟨decode contractId, decode message, decode sender⟩)
    match ← await (Query.receive id) with
    | none => pure (.error 503
        (units "Message not delivered: the scope guard is unreachable, so this request could " ++
          units "not be checked against the contract."))
    | some (.refused statusCode detail) => pure (.error (if statusCode = 409 then 409 else 503)
        (units "Message not delivered: the scope guard returned " ++ units (toString statusCode) ++
          units " and the request was therefore never checked. " ++ detail))
    | some (.checked response) => deliver contractId message sender response

end AssureCode.Scope
