import AssureCode.Ast.Model
import AssureCode.Push.Signature
import AssureCode.Sandbox.Counts
import AssureCode.Sandbox.Fences
import AssureCode.Security.DualLayer
import AssureCode.Transition.Concurrent
import AssureCode.Webhook.Resolve

/-! # From a push to its audit

The ingest service takes deliveries from GitHub, the gateway takes simulated pushes, and the CI
worker audits what either of them has published. The handler of each is a program of what it waits
for. The worker hears of a push again when it has not acknowledged it.
-/

namespace AssureCode.Push

open Js Program
open Ast (ASTAnalysisResult Babel FunctionComplexity)
open Security (Fetched JsRuntime ScanBody SecurityScanResult Severity Vulnerability)
open SourceFetcher (PushRef SourceUnavailableError)

/-! ## What is passed on -/

/-- A request's body as the content type parsers take it. -/
inductive Body
  | json (bytes : List UInt8)
  | text (value : Text)
  | missing

/-- A request for `POST /webhooks/github`. -/
structure Delivery where
  signature : Option Text
  eventType : Option Text
  correlationId : Option Text
  body : Body

/-- The payload of `code.push.received`, as either producer writes it. -/
inductive CodePush
  | pushed (contractId : Text) (commitHash repoUrl ref pusher : Json) (timestamp : Text)
  | simulated (contractId eventId code : Text) (demo : Bool)

namespace CodePush

def contractId : CodePush → Text
  | .pushed contractId .. | .simulated contractId .. => contractId

def code : CodePush → Option Text
  | .pushed .. => none
  | .simulated _ _ code _ => some code

/-- `Boolean(demo)` -/
def demo : CodePush → Bool
  | .pushed .. => false
  | .simulated _ _ _ demo => demo

/-- `repoUrl && commitHash ? { repoUrl, commitHash } : undefined` -/
def pushRef : CodePush → Option (Json × Json)
  | .pushed _ commitHash repoUrl .. =>
    if repoUrl.truthy && commitHash.truthy then some (repoUrl, commitHash) else none
  | .simulated .. => none

end CodePush

/-- An event of a push, as the worker hears it. -/
structure Push where
  id : Text
  correlationId : Text
  payload : CodePush

inductive BundleSource | aiService | demo
  deriving DecidableEq

/-- The files of a workspace that are not the same in each: the module and its suite. -/
structure Workspace where
  code : Text
  bundle : Text
  bundleSource : BundleSource
  deriving DecidableEq

/-- How the sandbox comes out: nothing could be run, or a process has ended. -/
inductive Execution
  | unavailable (runner message : Text)
  | ran (runner stdout stderr : Text) (exitCode : ℤ) (timedOut : Bool)

structure SandboxExecutionResult where
  provisioned : Bool
  runner : Text
  passedTests : Number
  totalTests : Number
  testFailures : Option (List Json)
  rawOutput : Text
  exitCode : ℤ
  timedOut : Bool

/-- The payload of an audit, and the row that is kept of it. -/
structure AuditResults where
  contractId : Text
  maintainability : Number
  cyclomaticComplexity : ℕ
  passedTests : Number
  totalTests : Number
  testFailures : List Json
  complexFunctions : List FunctionComplexity
  vulnerabilities : ℕ
  vulnerabilityDetails : List Vulnerability
  criticalVulns : ℕ
  highVulns : ℕ
  securityScore : ℤ
  sandboxRunner : Text
  securityScanComplete : Bool
  layersRun : List Security.ScanLayer
  securityScanError : Option Text
  passed : Bool
  timestamp : Text
  demo : Bool

/-- What is published; the topic is that of the constructor. -/
inductive Message
  | codePushReceived (push : CodePush)
  | ciSandboxReady (contractId runner : Text) (provisioned : Bool)
  | ciAstCompleted (contractId : Text) (results : ASTAnalysisResult)
  | ciTestsCompleted (contractId : Text) (passedTests totalTests : Number)
  | securityScanCompleted (contractId : Text) (results : SecurityScanResult)
  | auditCompleted (results : AuditResults)

/-- What is waited for; a request of either kind begins with its own arrival. -/
inductive Query
  | received (delivery : Delivery)
  | asked (contractId : Text) (code : Option Json)
  | resolveContractId (repoFullName : Text)
  | getChain (contractId : Text)
  | realAudit (contractId : Text)
  | randomUUID
  | now
  | publish (message : Message) (correlationId : Text)
  | take (offset : ℕ)
  | fetchSource (ref : PushRef)
  | fetchTestBundle (contractId : Text)
  | materialise (workspace : Workspace)
  | execute (contractId : Text) (workspace : Option Workspace)
  | scan (body : ScanBody)
  | save (row : AuditResults)
  | cleanup (workspace : Workspace)

/-- `none` and errors are exceptions; a chain is answered with its length. -/
abbrev Query.Answer : Query → Type
  | .resolveContractId _ => Option (Option Text)
  | .getChain _ => Option ℕ
  | .realAudit _ => Option Bool
  | .randomUUID | .now => Text
  | .publish _ _ => Option Text
  | .take _ => Push
  | .fetchSource _ => Except SourceUnavailableError Text
  | .fetchTestBundle _ => Option Text
  | .materialise _ | .save _ => Option Unit
  | .execute _ _ => Execution
  | .scan _ => Fetched
  | .received _ | .asked _ _ | .cleanup _ => Unit

abbrev Event : Type := Program.Event Query.Answer

abbrev Trail : Type := List Event

abbrev Code : Type → Type := Program Query Query.Answer

/-- What a request is answered, and how a push has been handled. -/
inductive Reply
  | send (status : ℕ) (body : List (Text × Json))
  | processed
  | failed

/-- What the three processes are given, and what their runtimes compute. -/
structure Settings where
  /-- HMAC-SHA256 under `GITHUB_WEBHOOK_SECRET`. -/
  hmac : List UInt8 → List UInt8
  /-- What `pg` makes of a parameter that is no string. -/
  prepareValue : Json → Text
  /-- `ENABLE_GITHUB_SOURCE_FETCH === 'true'` -/
  sourceFetch : Bool
  fetcher : SourceFetcher.GitHubSourceFetcher
  babel : Babel
  js : JsRuntime
  /-- The index of a program that could be parsed. -/
  maintainabilityIndex : Text → Number

variable (g : Settings)

/-! ## The ingest service -/

/-- `'0'.repeat(40)` -/
def nullSha : Text := List.replicate 40 0x30

/-- `v?.[key]`; a property that is not there is `undefined`. -/
def property (v : Option Json) (key : String) : Option Json := v.bind fun v => v.get (units key)

/-- `v || default` -/
def orElse (v : Option Json) (default : Json) : Json := (v.filter Json.truthy).getD default

/-- The body and the bytes that are signed; the request is not handled without. -/
def Body.read : Body → Option (Json × List UInt8)
  | .json bytes => (Json.parse (ofUtf8 bytes)).map fun payload => (payload, bytes)
  | .text value => some (.string value, utf8 (Json.stringify (.string value)))
  | .missing => none

def commitHash (payload : Json) : Json :=
  orElse (payload.get (units "after"))
    (orElse (property (payload.get (units "head_commit")) "id") (.string nullSha))

/-- `payload.deleted === true || commitHash === NULL_SHA` -/
def branchDeleted (payload : Json) : Bool :=
  (match payload.get (units "deleted") with
    | some (.bool true) => true
    | _ => false) ||
  match commitHash payload with
  | .string commit => commit == nullSha
  | _ => false

def repository (payload : Json) (key : String) : Option Json :=
  property (payload.get (units "repository")) key

def repoUrl (payload : Json) : Json :=
  orElse (repository payload "clone_url") (orElse (repository payload "html_url") (.string []))

def pusher (payload : Json) : Json :=
  orElse (property (payload.get (units "pusher")) "name")
    (orElse (property (payload.get (units "sender")) "login") (.string (units "unknown")))

def eventPayload (contractId : Text) (payload : Json) (timestamp : Text) : CodePush :=
  .pushed contractId (commitHash payload) (repoUrl payload)
    (orElse (payload.get (units "ref")) (.string (units "refs/heads/main"))) (pusher payload)
    timestamp

/-- A string is a parameter as it is. -/
def parameter : Json → Text
  | .string value => value
  | v => g.prepareValue v

def refusal (status : ℕ) (error message : Text) : Reply :=
  .send status [(units "error", .string error), (units "message", .string message)]

def ignored (status : ℕ) (members : List (Text × Json)) : Reply :=
  .send status ([(units "status", .string (units "ignored")), (units "ignored", .bool true)] ++
    members)

/-- `request.headers['x-correlation-id']`, which the hook has set where it was missing. -/
def correlationOf (delivery : Delivery) : Code Text :=
  match delivery.correlationId.filter (· ≠ []) with
  | some correlationId => pure correlationId
  | none => await Query.randomUUID

/-- A push for a contract is published. -/
def accept (delivery : Delivery) (contractId : Text) (payload : Json) : Code Reply := do
  let timestamp ← await Query.now
  let correlationId ← correlationOf delivery
  let eventId ← ofOption
    (← await (Query.publish (.codePushReceived (eventPayload contractId payload timestamp))
      correlationId))
  return .send 202 [
    (units "status", .string (units "accepted")),
    (units "eventId", .string eventId),
    (units "correlationId", .string correlationId),
    (units "topic", .string (units "code.push.received"))]

/-- The contract of a repository is looked up. -/
def resolve (delivery : Delivery) (name payload : Json) : Code Reply := do
  match ← await (Query.resolveContractId (parameter g name)) with
  | none =>
    return refusal 503 (units "Service Unavailable")
      (units "Could not resolve the contract for this repository; retry later")
  | some contractId =>
    match contractId.filter (· ≠ []) with
    | none => do
      let repoFullName ← ofOption name.toText
      return refusal 404 (units "Not Found") (units "No contract is linked to " ++ repoFullName ++
        units ". Link it with PATCH /api/contracts/:contractId/github-repo.")
    | some contractId => accept delivery contractId payload

/-- A signed push. -/
def push (delivery : Delivery) (payload : Json) : Code Reply :=
  if payload.isNull then raised
  else if branchDeleted payload then
    pure (ignored 200 [(units "reason", .string (units "branch deleted"))])
  else
    match (repository payload "full_name").filter Json.truthy with
    | none => pure (refusal 400 (units "Bad Request")
        (units "push payload has no repository.full_name"))
    | some name => resolve g delivery name payload

/-- `POST /webhooks/github` -/
def webhook (delivery : Delivery) : Code Reply :=
  match delivery.body.read with
  | none => raised
  | some (payload, rawBody) =>
    if verifyGitHubSignature g.hmac rawBody delivery.signature then
      if delivery.eventType = some (units "push") then push g delivery payload
      else pure (ignored 200 [(units "event", .string (delivery.eventType.getD []))])
    else pure (refusal 401 (units "Unauthorized") (units "Invalid HMAC signature"))

/-! ## The gateway -/

def simulatedPushDemoCode : Text :=
  units ("// Demo push — no real freelancer submission flow exists yet.\n" ++
    "function add(a, b) \x7b\n  return a + b;\n\x7d\n\nmodule.exports = \x7b add \x7d;\n")

/-- `request.body?.code?.trim()`; only texts can be trimmed. -/
def callerCode : Option Json → Option (Option Text)
  | none | some .null => some none
  | some (.string code) => some (some (trim code))
  | some _ => none

/-- `POST /api/contracts/:contractId/simulate-push`, behind its guard. -/
def simulatePush (contractId : Text) (body : Option Json) : Code Reply := do
  let callerCode ← ofOption (callerCode body)
  let submitted := callerCode.filter (· ≠ [])
  let eventId ← await Query.randomUUID
  let chain ← ofOption (← await (Query.getChain contractId))
  if chain = 0 then
    return .send 404 [(units "error", .string (units "Contract not found"))]
  else do
    let realAudit ← ofOption (← await (Query.realAudit contractId))
    if realAudit then
      return .send 409 [(units "error", .string
        (units "This contract has already received a real GitHub push. Simulate Push is " ++
          units "disabled for it to avoid silently overwriting the real audit result — push a " ++
          units "new commit to the repository to re-run verification."))]
    else do
      let published ← await (Query.publish (.codePushReceived (.simulated contractId eventId
        (submitted.getD simulatedPushDemoCode) submitted.isNone)) eventId)
      let _ ← ofOption published
      return .send 200 [
        (units "message", .string (units "GitHub push event simulated")),
        (units "eventId", .string eventId)]

/-! ## The CI worker -/

def demoTestBundle : Text :=
  units ("const \x7b describe, it, expect \x7d = require('@jest/globals');\n" ++
    "const \x7b add \x7d = require('../index.js');\n\n" ++
    "describe('demo contract — add()', () => \x7b\n" ++
    "  it('sums two positive integers', () => \x7b\n    expect(add(2, 3)).toBe(5);\n  \x7d);\n\n" ++
    "  it('is identity when adding zero', () => \x7b\n    expect(add(7, 0)).toBe(7);\n" ++
    "  \x7d);\n\n  it('handles negative operands', () => \x7b\n" ++
    "    expect(add(-4, 1)).toBe(-3);\n  \x7d);\n\n  it('is commutative', () => \x7b\n" ++
    "    expect(add(9, 4)).toBe(add(4, 9));\n  \x7d);\n\n" ++
    "  it('exports a callable', () => \x7b\n    expect(typeof add).toBe('function');\n" ++
    "  \x7d);\n\x7d);\n")

/-- A text that is missing, empty or blank. -/
def blank (code : Option Text) : Bool := trim (code.getD []) = []

/-- `fetchSource(pushRef)`; a URL that is no text cannot be matched. -/
def fetchSource (ref : Json × Json) : Code Text :=
  match ref.1, ref.2.toText with
  | .string repoUrl, some commitHash => do
    match ← await (Query.fetchSource ⟨repoUrl, commitHash⟩) with
    | .error _ => raised
    | .ok source => return source
  | _, _ => raised

/-- The code that came with the push, or else what is fetched of it. -/
def submitted (payload : CodePush) : Code (Option Text) :=
  match payload.pushRef with
  | some ref =>
    if blank payload.code && g.sourceFetch then do
      let source ← fetchSource ref
      return some source
    else pure payload.code
  | none => pure payload.code

/-- The code to audit; without any the run ends here. -/
def sampleCode (payload : CodePush) : Code Text := do
  let code ← submitted g payload
  if blank code then raised else return code.getD []

def fetchTestBundle (contractId : Text) : Code Text := do
  let body := Sandbox.WorkspaceBuilder.stripCodeFences
    (← ofOption (← await (Query.fetchTestBundle contractId)))
  if trim body = [] then raised else return body

def testBundle (contractId code : Text) (demo : Bool) : Code Workspace :=
  if demo then pure ⟨code, demoTestBundle, .demo⟩
  else do
    let bundle ← fetchTestBundle contractId
    return ⟨code, bundle, .aiService⟩

def buildWorkspace (contractId code : Text) (demo : Bool) : Code Workspace := do
  let workspace ← testBundle contractId code demo
  ofOption (← await (Query.materialise workspace))
  return workspace

/-- What the adapter and `runInSandbox` make of it. -/
def Execution.result : Execution → SandboxExecutionResult
  | .unavailable runner message => {
      provisioned := false
      runner
      passedTests := .ofRat 0
      totalTests := .ofRat 0
      testFailures := none
      rawOutput := units "[sandbox-unavailable] " ++ message
      exitCode := 1
      timedOut := false }
  | .ran runner stdout stderr exitCode timedOut => {
      provisioned := !timedOut
      runner
      passedTests := (Sandbox.parseTestOutput stdout).passedTests
      totalTests := (Sandbox.parseTestOutput stdout).totalTests
      testFailures := (Sandbox.parseTestOutput stdout).testFailures
      rawOutput := (if trim stdout ≠ [] then trim stdout else trim stderr).take 20000
      exitCode
      timedOut }

def maintainability (code : Text) : Number :=
  match g.babel.parse code with
  | .error _ => .ofRat 0
  | .ok _ => g.maintainabilityIndex code

/-- `p === q` -/
def sameNumber (p q : Number) : Bool := p ≠ .nan && p = q

def overallPassed (maintainability : Number) (sandbox : SandboxExecutionResult)
    (scan : SecurityScanResult) : Bool :=
  scan.passed && decide (.llm ∈ scan.layersRun) &&
    sameNumber sandbox.passedTests sandbox.totalTests &&
    (Number.ofRat 0).lt sandbox.totalTests && (Number.ofRat 50).lt maintainability

/-- The worst ten of the functions above a complexity of ten. -/
def complexFunctions (ast : ASTAnalysisResult) : List FunctionComplexity :=
  ((ast.functions.filter fun fn => 10 < fn.cyclomaticComplexity).insertionSort
    fun a b => b.cyclomaticComplexity ≤ a.cyclomaticComplexity).take 10

def auditResults (contractId code : Text) (sandbox : SandboxExecutionResult)
    (scan : SecurityScanResult) (timestamp : Text) (demo : Bool) : AuditResults :=
  let ast := Ast.analyzeAST g.babel code
  { contractId
    maintainability := maintainability g code
    cyclomaticComplexity := ast.cyclomaticComplexity
    passedTests := sandbox.passedTests
    totalTests := sandbox.totalTests
    testFailures := sandbox.testFailures.getD []
    complexFunctions := complexFunctions ast
    vulnerabilities := scan.vulnerabilities.length
    vulnerabilityDetails := scan.vulnerabilities.take 30
    criticalVulns := Security.countOf .critical scan.vulnerabilities
    highVulns := Security.countOf .high scan.vulnerabilities
    securityScore := scan.score
    sandboxRunner := sandbox.runner
    securityScanComplete := decide (.llm ∈ scan.layersRun)
    layersRun := scan.layersRun
    securityScanError := scan.llmError
    passed := overallPassed (maintainability g code) sandbox scan
    timestamp
    demo }

def publish (message : Message) (correlationId : Text) : Code Unit := do
  let published ← await (Query.publish message correlationId)
  let _ ← ofOption published

def performDualLayerScan (code : Text) : Code SecurityScanResult := do
  let fetched ← await (Query.scan ⟨code, false⟩)
  match Security.performDualLayerScan g.js (fun _ => fetched) code with
  | .error _ => raised
  | .ok scan => return scan

/-- The row is saved before the audit is made known. -/
def complete (contractId correlationId code : Text) (demo : Bool)
    (sandbox : SandboxExecutionResult) (scan : SecurityScanResult) : Code Unit := do
  let timestamp ← await Query.now
  let results := auditResults g contractId code sandbox scan timestamp demo
  ofOption (← await (Query.save results))
  publish (.auditCompleted results) correlationId

/-- What is done with a workspace; a run goes on without one. -/
def audit (contractId correlationId code : Text) (demo : Bool) (workspace : Option Workspace) :
    Code Unit := do
  let execution ← await (Query.execute contractId workspace)
  let sandbox := execution.result
  publish (.ciSandboxReady contractId sandbox.runner sandbox.provisioned) correlationId
  publish (.ciAstCompleted contractId (Ast.analyzeAST g.babel code)) correlationId
  publish (.ciTestsCompleted contractId sandbox.passedTests sandbox.totalTests) correlationId
  let scan ← performDualLayerScan g code
  publish (.securityScanCompleted contractId scan) correlationId
  complete g contractId correlationId code demo sandbox scan

/-- `finally { … }` -/
def finallyCleanup (workspace : Option Workspace) (p : Code Unit) : Code Unit :=
  match workspace with
  | none => p
  | some workspace => do
    p.catching (do
      await (Query.cleanup workspace)
      raised)
    await (Query.cleanup workspace)

def processCodePush (correlationId : Text) (payload : CodePush) : Code Unit := do
  let code ← sampleCode g payload
  let workspace ← catching (do
      let workspace ← buildWorkspace payload.contractId code payload.demo
      return some workspace)
    (pure none)
  finallyCleanup workspace
    (audit g payload.contractId correlationId code payload.demo workspace)

/-- The handler of `code.push.received`, which never rejects. -/
def handlePush (offset : ℕ) : Code Reply := do
  let event ← await (Query.take offset)
  let correlationId := if event.correlationId ≠ [] then event.correlationId else event.id
  catching (do
      processCodePush g correlationId event.payload
      return .processed)
    (pure .failed)

end AssureCode.Push
