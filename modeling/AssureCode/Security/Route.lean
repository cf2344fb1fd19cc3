import AssureCode.Js.Number
import AssureCode.Security.Guard
import AssureCode.Transition.Loop

/-! # The security scan of the AI service

`POST /security-scan`: the static layer, the attempts at injection, and the findings of a model,
read off whatever text the model answers with. What the Python runtime makes of texts and numbers
is taken from it.
-/

namespace AssureCode.Security

open Js Python

/-! ## Values -/

inductive PyValue
  | none
  | bool (b : Bool)
  | int (n : ℤ)
  | float (x : Number)
  | str (t : Text)
  | list (items : List PyValue)
  | dict (entries : List (Text × PyValue))

inductive PyError
  | valueError (message : Text)
  | typeError
  | overflowError
  | other

structure PyRuntime where
  engine : Engine
  /-- The first group of the first match of the markdown fence. -/
  fenced : Text → Option Text
  /-- `json.loads` -/
  loads : Text → Except PyError PyValue
  /-- `str` of a value that is no string. -/
  str : PyValue → Text
  upper : Text → Text
  repr : Text → Text
  /-- `int` of a string. -/
  int : Text → Option ℤ

namespace PyRuntime

variable (rt : PyRuntime)

def toStr : PyValue → Text
  | .str t => t
  | v => rt.str v

def toInt : PyValue → Except PyError ℤ
  | .none | .list _ | .dict _ => .error .typeError
  | .bool b => .ok b.toNat
  | .int n => .ok n
  | .float .nan => .error (.valueError (text "cannot convert float NaN to integer"))
  | .float (.infinity _) => .error .overflowError
  | .float (.finite q _) => .ok (if 0 ≤ q then ⌊q⌋ else ⌈q⌉)
  | .str t =>
    match rt.int t with
    | some n => .ok n
    | Option.none =>
      .error (.valueError (text "invalid literal for int() with base 10: " ++ rt.repr t))

end PyRuntime

/-- `entries.get(key, default)` -/
def getItem (entries : List (Text × PyValue)) (key : String) (default : PyValue) : PyValue :=
  ((entries.find? fun entry => entry.1 = text key).map (·.2)).getD default

/-! ## What the model is asked -/

def promptHead : String :=
  "You are a application security reviewer auditing untrusted code against the\n" ++
  "OWASP Top 10:2025 categories listed below.\n" ++
  "\n"

def promptRules : String :=
  "\n" ++
  "\n" ++
  "Report only vulnerabilities you can point to in the code. Do not report\n" ++
  "stylistic issues, missing tests, or hypothetical risks that require code not\n" ++
  "shown here. If the code has no vulnerability, return an empty array.\n" ++
  "\n" ++
  "Before reporting a finding, verify ALL of the following. If any fails, do not\n" ++
  "report it -- it is a false positive, not a vulnerability:\n" ++
  "\n" ++
  "  - You can name the exact line where untrusted input enters and the exact\n" ++
  "    line where it reaches a dangerous sink (a DOM write, a query, a shell\n" ++
  "    command, a file path, a URL) UNCHANGED. If the value is filtered,\n" ++
  "    validated against an allowlist, or type-converted anywhere between entry\n" ++
  "    and sink, it is not unsanitized -- do not call it that because the\n" ++
  "    variable name suggests user input.\n" ++
  "  - The flaw is exploitable with the code exactly as shown, not \"if this\n" ++
  "    later gets more traffic / more users / a backend.\" Missing logging,\n" ++
  "    missing rate-limiting, and missing server-side validation are not\n" ++
  "    findings unless the code shown here demonstrably talks to a server or\n" ++
  "    logs sensitive data -- a client-only script with no network call has\n" ++
  "    no server-side anything to be missing.\n" ++
  "  - A regex is \"vulnerable to catastrophic backtracking\" only if it contains\n" ++
  "    a nested or overlapping quantifier, such as `(a+)+` or `(a|a)*`. A single\n" ++
  "    bounded character class like `[A-Za-z0-9]\x7b1,100\x7d` is not, regardless of\n" ++
  "    how it looks -- verify the actual quantifier structure before claiming\n" ++
  "    this, do not pattern-match on \"regex\" plus \"user input\".\n" ++
  "\n" ++
  "Respond with ONLY a JSON array, no prose and no markdown fence. Each element:\n" ++
  "\n" ++
  "  \x7b\"type\": \"SCREAMING_SNAKE_CASE_ID\",\n" ++
  "    \"category\": \"A0N:2025\",\n" ++
  "    \"severity\": \"LOW|MEDIUM|HIGH|CRITICAL\",\n" ++
  "    \"message\": \"one sentence naming the specific flaw\",\n" ++
  "    \"line\": <1-based line number>\x7d\n" ++
  "\n"

/-- `PROMPT_TEMPLATE.format` -/
def scanPrompt (e : Engine) (nonce code : Text) : Text :=
  let categoryLines := categories.map fun c => text "  " ++ c.1 ++ text s!" — {c.2}"
  let block := guard e nonce code
  text promptHead ++ [newline].intercalate categoryLines ++ text promptRules ++
    instructionPreamble block (text "code") ++ text "\n\nCode under review:\n" ++ block.render ++
    text "\n"

/-! ## What it answers -/

abbrev openBracket : ℕ := 0x5B
abbrev closeBracket : ℕ := 0x5D

/-- `t.rfind(c)` -/
def rfind (t : Text) (c : ℕ) : Option ℕ :=
  (t.reverse.findIdx? (· = c)).map fun k => t.length - 1 - k

/-- The text between the first opening and the last closing bracket. -/
def bracketed (t : Text) : Option Text :=
  match t.findIdx? (· = openBracket), rfind t closeBracket with
  | some first, some last => if last < first then none else some ((t.take (last + 1)).drop first)
  | _, _ => none

def extractJsonArray (rt : PyRuntime) (raw : Text) : Except PyError (List PyValue) := do
  let stripped := strip raw
  let unfenced := ((rt.fenced stripped).map strip).getD stripped
  let array ←
    if unfenced.head? = some openBracket then .ok unfenced
    else match bracketed unfenced with
      | some t => .ok t
      | none => .error (.valueError
          (text "no JSON array found in model response: " ++ raw.take 200))
  match ← rt.loads array with
  | .list items => .ok items
  | _ => .error (.valueError (text "model response was not a JSON array"))

/-- `SEVERITIES` -/
def severityOf (t : Text) : Option Severity :=
  if t = text "LOW" then some .low
  else if t = text "MEDIUM" then some .medium
  else if t = text "HIGH" then some .high
  else if t = text "CRITICAL" then some .critical
  else none

/-- The finding an item of the answer is kept as, if it is one at a real line. -/
def normalizeItem (rt : PyRuntime) (maxLine : ℕ) : PyValue → Except PyError (Option Vulnerability)
  | .dict item =>
    let severity := severityOf (rt.upper (rt.toStr (getItem item "severity" (.str []))))
    let category := rt.toStr (getItem item "category" (.str []))
    match rt.toInt (getItem item "line" (.int 0)) with
    | .error .typeError | .error (.valueError _) => .ok none
    | .error e => .error e
    | .ok line =>
      match severity with
      | none => .ok none
      | some severity =>
        if ∀ c ∈ categories, c.1 ≠ category then .ok none
        else if line < 1 ∨ (maxLine : ℤ) < line then .ok none
        else .ok (some {
          type := (rt.toStr (getItem item "type" (.str (text "UNSPECIFIED")))).take 80
          category := category
          severity := severity
          message := (rt.toStr (getItem item "message" (.str []))).take 500
          line := line.toNat
          layer := .llm })
  | _ => .ok none

def normalizeLlmFindings (rt : PyRuntime) (maxLine : ℕ) (items : List PyValue) :
    Except PyError (List Vulnerability) :=
  collect (normalizeItem rt maxLine) items

/-! ## The route -/

/-- A request that the model of its body admits. -/
structure SecurityScanRequest where
  code : Text
  contractId : Option Text := none
  includeStatic : Bool := true
  includeLlm : Bool := true
  code_ne : code ≠ []
  code_length : code.length ≤ 200000
  contractId_length : ∀ t ∈ contractId, t.length ≤ 128

structure SecurityScanResponse where
  contractId : Option Text
  taxonomyVersion : String
  vulnerabilities : List Vulnerability
  passed : Bool
  score : ℤ
  layersRun : List ScanLayer

inductive LlmError
  | unavailable (message : Text) (retryAfter : ℕ)
  | other

/-- The model's client: a prompt and a number of tokens, and the answer. -/
abbrev LlmClient : Type := Text → ℕ → Except LlmError Text

def internalServerError : HttpException Text where
  statusCode := 500
  detail := text "Internal Server Error"

/-- The items of the model's answer to the prompt for this code. -/
def askModel (rt : PyRuntime) (llm : LlmClient) (nonce code : Text) :
    Except (HttpException Text) (List PyValue) :=
  match llm (scanPrompt rt.engine nonce code) 2048 with
  | .error (.unavailable message retryAfter) =>
    .error ⟨503, message, [("Retry-After", toString retryAfter)]⟩
  | .error .other => .error internalServerError
  | .ok raw =>
    match extractJsonArray rt raw with
    | .error (.valueError err) =>
      .error ⟨502, text "LLM returned an unparseable security report: " ++ err, []⟩
    | .error _ => .error internalServerError
    | .ok items => .ok items

/-- The findings of the model for this code. -/
def llmFindings (rt : PyRuntime) (llm : LlmClient) (nonce code : Text) :
    Except (HttpException Text) (List Vulnerability) := do
  let items ← askModel rt llm nonce code
  match normalizeLlmFindings rt (code.count newline + 1) items with
  | .error _ => .error internalServerError
  | .ok found => .ok found

/-- The findings of the layers that are on, the static ones before those of the model. -/
def scanLayers (rt : PyRuntime) (llm : LlmClient) (nonce : Text) (req : SecurityScanRequest) :
    Except (HttpException Text) (List Vulnerability) :=
  let injectionSignals := scanForInjection rt.engine req.code
  let found := if req.includeStatic then
      scan rt.engine req.code ++ signalsToFindings rt.repr injectionSignals
    else []
  if req.includeLlm then do
    let ofModel ← llmFindings rt llm nonce req.code
    -- A static finding of the same type on the same line is kept instead.
    return found ++ ofModel.filter fun v =>
      decide (∀ w ∈ found, ¬ (w.type = v.type ∧ w.line = v.line))
  else .ok found

def securityScan (rt : PyRuntime) (llm : LlmClient) (nonce : Text) (req : SecurityScanRequest) :
    Except (HttpException Text) SecurityScanResponse := do
  if !req.includeStatic && !req.includeLlm then
    .error ⟨400, text "At least one scan layer must be enabled", []⟩
  else
    let found ← scanLayers rt llm nonce req
    return {
      contractId := req.contractId
      taxonomyVersion := taxonomyVersion
      vulnerabilities := found
      passed := passes found
      score := computeSecurityScore found
      layersRun := (if req.includeStatic then [.static] else []) ++
        if req.includeLlm then [.llm] else [] }

end AssureCode.Security
