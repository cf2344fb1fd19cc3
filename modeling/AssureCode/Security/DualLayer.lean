import AssureCode.Security.Route

/-! # The dual-layer scan of the CI worker

The worker runs the static layer itself, asks the AI service for the other one, and merges the
findings of the two.
-/

namespace AssureCode.Security

open Js Python

/-- What the worker posts. -/
structure ScanBody where
  code : Text
  includeStatic : Bool

/-- How the call of the service ends for the worker. -/
inductive Fetched
  /-- The call or the reading of its body rejects, with this message. -/
  | rejected (message : Text)
  /-- A status outside of 200 to 299, with the text of the body. -/
  | refused (status : ℕ) (body : Text)
  | ok (vulnerabilities : Option (List Vulnerability))
  deriving DecidableEq

/-- The findings of the answer, or why there are none. -/
def Fetched.findings : Fetched → Except Text (List Vulnerability)
  | .rejected message => .error message
  | .refused status body =>
    .error (units s!"ai-service /security-scan returned HTTP {status}: " ++ body.take 200)
  | .ok vulnerabilities =>
    .ok ((vulnerabilities.getD []).map fun v => { v with layer := .llm })

/-- A finding of the model is dropped when a static one has its key. -/
def merge (staticFindings llmFindings : List Vulnerability) : List Vulnerability :=
  staticFindings ++ llmFindings.filter fun v =>
    decide (∀ w ∈ staticFindings, findingKey w.type w.line ≠ findingKey v.type v.line)

def performDualLayerScan (js : JsRuntime) (fetch : ScanBody → Fetched) (code : Text)
    (requireLlmLayer : Bool := false) : Except Text SecurityScanResult :=
  let staticFindings := performStaticScan js code
  let result (merged : List Vulnerability) (llmError : Option Text) : SecurityScanResult := {
    vulnerabilities := merged
    passed := passes merged
    score := computeSecurityScore merged
    -- An empty message counts as no error.
    layersRun := if ∀ m ∈ llmError, m = [] then [.static, .llm] else [.static]
    llmError := llmError.filter fun m => m ≠ [] }
  match (fetch ⟨code, false⟩).findings with
  | .ok llmFindings => .ok (result (merge staticFindings llmFindings) none)
  | .error llmError =>
    if requireLlmLayer then
      .error (units "Layer 2 security scan unavailable and required: " ++ llmError)
    else .ok (result (merge staticFindings []) (some llmError))

/-! ## Against the service -/

/-- A finding as the response carries it to the worker. -/
def Vulnerability.encoded (v : Vulnerability) : Vulnerability :=
  { v with type := encode v.type, category := encode v.category, message := encode v.message }

/-- Texts that the fields of the body admit. -/
def Admitted (code : Text) : Prop :=
  (code.all fun c => !Python.isSurrogate c) = true ∧ code ≠ [] ∧ code.length ≤ 200000

instance (code : Text) : Decidable (Admitted code) := inferInstanceAs (Decidable (_ ∧ _ ∧ _))

theorem length_le_of_mem_none : ∀ t ∈ (none : Option Text), t.length ≤ 128 := by
  rintro t ⟨⟩

/-- The request a posted body is read as; others are refused. -/
def readBody (body : ScanBody) : Option SecurityScanRequest :=
  if h : Admitted (decode body.code) then
    some {
      code := decode body.code
      includeStatic := body.includeStatic
      code_ne := h.2.1
      code_length := h.2.2
      contractId_length := length_le_of_mem_none }
  else none

theorem readBody_spec {body : ScanBody} {req : SecurityScanRequest}
    (h : readBody body = some req) :
    req.code = decode body.code ∧ req.includeStatic = body.includeStatic ∧
      req.includeLlm = true := by
  unfold readBody at h
  split at h
  · cases h
    exact ⟨rfl, rfl, rfl⟩
  · cases h

/-- The service as the worker reaches it; `bodyOf` writes an exception as a response body. -/
def answer (rt : PyRuntime) (bodyOf : HttpException Text → Text) (refusal : Text) (llm : LlmClient)
    (nonce : Text) (body : ScanBody) : Fetched :=
  match readBody body with
  | none => .refused 422 refusal
  | some req =>
    match securityScan rt llm nonce req with
    | .error e => .refused e.statusCode (bodyOf e)
    | .ok res => .ok (some (res.vulnerabilities.map (·.encoded)))

end AssureCode.Security
