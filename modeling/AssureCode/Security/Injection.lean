import AssureCode.Security.DualLayer

/-! # What becomes of an attempt at injection

The service finds the attempts in every source, and reports them when it runs the static layer.
The worker tells it not to, and does not look for them itself. So an attempt is reported only if
the model, which it addresses, reports it.
-/

namespace AssureCode.Security

open Js Python

/-- The scan reports an attempt at injection, and fails for it. -/
def SecurityScanResult.ReportsInjection (result : SecurityScanResult) : Prop :=
  (∃ v ∈ result.vulnerabilities, v.type = injectionType ∧ v.severity = .high) ∧
    result.passed = false

/-- An item of an answer that is kept as the finding of an attempt. -/
def InjectionItem (rt : PyRuntime) (maxLine : ℕ) (item : PyValue) : Prop :=
  ∃ v, normalizeItem rt maxLine item = .ok (some v) ∧ v.type = injectionType ∧ v.severity = .high

/-- The model itself reports an attempt in this code. -/
def ModelReportsInjection (rt : PyRuntime) (llm : LlmClient) (nonce code : Text) : Prop :=
  ∃ items, askModel rt llm nonce code = .ok items ∧
    ∃ item ∈ items, InjectionItem rt (code.count newline + 1) item

variable {rt : PyRuntime} {llm : LlmClient} {js : JsRuntime} {nonce code refusal : Text}
  {bodyOf : HttpException Text → Text} {found vs : List Vulnerability}

/-! ## The findings of the model -/

theorem exists_mem_llmFindings (h : llmFindings rt llm nonce code = .ok found) :
    (∃ v ∈ found, v.type = injectionType ∧ v.severity = .high) ↔
      ModelReportsInjection rt llm nonce code := by
  unfold llmFindings at h
  cases hask : askModel rt llm nonce code with
  | error e => simp [hask, bind, Except.bind] at h
  | ok items =>
    cases hnorm : normalizeLlmFindings rt (code.count newline + 1) items with
    | error e => simp [hask, hnorm, bind, Except.bind] at h
    | ok ofModel =>
      obtain rfl : ofModel = found := by simpa [hask, hnorm, bind, Except.bind] using h
      simp only [mem_collect hnorm, ModelReportsInjection, InjectionItem, hask,
        Except.ok.injEq, exists_eq_left']
      constructor
      · rintro ⟨v, ⟨item, hitem, hv⟩, h⟩
        exact ⟨item, hitem, v, hv, h⟩
      · rintro ⟨item, hitem, v, hv, h⟩
        exact ⟨v, ⟨item, hitem, hv⟩, h⟩

/-- Without the static layer the service answers with the findings of the model alone. -/
theorem answer_eq_ok {vulnerabilities : Option (List Vulnerability)}
    (h : answer rt bodyOf refusal llm nonce ⟨code, false⟩ = .ok vulnerabilities) :
    ∃ found, llmFindings rt llm nonce (decode code) = .ok found ∧
      vulnerabilities = some (found.map (·.encoded)) := by
  unfold answer at h
  cases hreq : readBody ⟨code, false⟩ with
  | none => simp [hreq] at h
  | some req =>
    obtain ⟨hcode, hstatic, hllm⟩ := readBody_spec hreq
    cases hfound : llmFindings rt llm nonce (decode code) with
    | error e =>
      simp [hreq, securityScan, scanLayers, hcode, hstatic, hllm, hfound, bind, Except.bind] at h
    | ok found =>
      use found
      simp [hreq, securityScan, scanLayers, hcode, hstatic, hllm, hfound, bind, Except.bind, pure,
        Except.pure] at h
      simp [h]

/-! ## The merge -/

theorem type_of_mem_rules : ∀ spec ∈ rules, spec.type ≠ injectionType := by decide +kernel

theorem injectionType_lt : ∀ u ∈ injectionType, u < 0xD800 := by decide

/-- No rule reports attempts, so that the static findings hide none that the model reports. -/
theorem exists_mem_merge_iff :
    (∃ v ∈ merge (performStaticScan js code) vs, v.type = injectionType ∧ v.severity = .high) ↔
      ∃ v ∈ vs, v.type = injectionType ∧ v.severity = .high := by
  have hstatic : ∀ w ∈ performStaticScan js code, w.type ≠ injectionType := by
    intro w hw
    obtain ⟨spec, hspec, line, rfl⟩ := mem_performStaticScan hw
    exact type_of_mem_rules spec hspec
  constructor
  · rintro ⟨v, hv, htype, hsev⟩
    rcases List.mem_append.mp hv with hv | hv
    · exact absurd htype (hstatic v hv)
    · exact ⟨v, List.mem_of_mem_filter hv, htype, hsev⟩
  · rintro ⟨v, hv, htype, hsev⟩
    have hkeys : ∀ w ∈ performStaticScan js code,
        findingKey w.type w.line ≠ findingKey v.type v.line := by
      intro w hw hkey
      exact hstatic w hw ((findingKey_inj hkey).1.trans htype)
    have hmem : v ∈ merge (performStaticScan js code) vs := by
      simp only [merge, List.mem_append, List.mem_filter, decide_eq_true_eq]
      exact .inr ⟨hv, hkeys⟩
    exact ⟨v, hmem, htype, hsev⟩

theorem exists_mem_encoded_iff :
    (∃ v ∈ (vs.map (·.encoded)).map fun v => { v with layer := .llm },
      v.type = injectionType ∧ v.severity = .high) ↔
      ∃ v ∈ vs, v.type = injectionType ∧ v.severity = .high := by
  simp [Vulnerability.encoded, encode_eq_iff injectionType_lt]

/-! ## The scan -/

/-- Where both layers run, an attempt is reported exactly when the model reports one. -/
theorem reportsInjection_iff {vulnerabilities : Option (List Vulnerability)}
    (requireLlmLayer : Bool)
    (hran : answer rt bodyOf refusal llm nonce ⟨code, false⟩ = .ok vulnerabilities) :
    ∃ result, performDualLayerScan js (answer rt bodyOf refusal llm nonce) code requireLlmLayer =
        .ok result ∧
      (result.ReportsInjection ↔ ModelReportsInjection rt llm nonce (decode code)) := by
  obtain ⟨found, hfound, rfl⟩ := answer_eq_ok hran
  simp only [performDualLayerScan, hran, Fetched.findings, Option.getD_some, Except.ok.injEq,
    exists_eq_left']
  rw [← exists_mem_llmFindings hfound, SecurityScanResult.ReportsInjection, exists_mem_merge_iff,
    exists_mem_encoded_iff]
  apply and_iff_left_of_imp
  intro hexists
  obtain ⟨v, hv, -, hsev⟩ := exists_mem_merge_iff.mpr (exists_mem_encoded_iff.mpr hexists)
  exact not_passes_of_high hv hsev

/--
Where both layers run, the attempts found in a source are reported exactly when there are none or
the model reports one.
-/
theorem injection_reported_iff {vulnerabilities : Option (List Vulnerability)}
    (requireLlmLayer : Bool)
    (hran : answer rt bodyOf refusal llm nonce ⟨code, false⟩ = .ok vulnerabilities) :
    ∃ result, performDualLayerScan js (answer rt bodyOf refusal llm nonce) code requireLlmLayer =
        .ok result ∧
      ((scanForInjection rt.engine (decode code) ≠ [] → result.ReportsInjection) ↔
        scanForInjection rt.engine (decode code) = [] ∨
          ModelReportsInjection rt llm nonce (decode code)) := by
  obtain ⟨result, hresult, hiff⟩ :=
    (reportsInjection_iff requireLlmLayer hran : ∃ r, performDualLayerScan js _ _ _ = .ok r ∧ _)
  refine ⟨result, hresult, ?_⟩
  rw [hiff]
  tauto

/-! ## A fence in the source -/

/-- An engine that has matches for the fence; the other patterns have none in the source below. -/
def fencesOnly : Engine where
  matchesAt pattern _ t i := pattern = "```" && (text "```").isPrefixOf (t.drop i)

def aFence : Text := units "```"

/-- The model's report of the fence. -/
def fenceReport : PyValue :=
  .dict [(text "type", .str injectionType), (text "category", .str injectionCategory),
    (text "severity", .str (text "HIGH")), (text "message", .str (text "Fence in the code.")),
    (text "line", .int 1)]

def fenceReportText : Text :=
  text ("[\x7b\"type\": \"LLM_PROMPT_INJECTION_ATTEMPT\", \"category\": \"A05:2025\", " ++
    "\"severity\": \"HIGH\", \"message\": \"Fence in the code.\", \"line\": 1\x7d]")

/-- A runtime that can read the two answers below. -/
def twoAnswers : PyRuntime where
  engine := fencesOnly
  fenced _ := none
  loads t :=
    if t = text "[]" then .ok (.list [])
    else if t = fenceReportText then .ok (.list [fenceReport])
    else .error (.valueError (text "Expecting value: line 1 column 1 (char 0)"))
  str _ := []
  upper t := t
  repr t := 0x27 :: t ++ [0x27]
  int _ := none

def fencesOnlyJs : JsRuntime where
  engine := fencesOnly
  localeCompare _ _ := 0

/-- The service with a model that gives this answer to everything. -/
def answering (raw : Text) : ScanBody → Fetched :=
  answer twoAnswers (·.detail) [] (fun _ _ => .ok raw) (text "0123456789abcdef")

theorem scan_aFence : performStaticScan fencesOnlyJs aFence = [] := by
  have hnone :
      scanRules fencesOnly findingKey (fun before => (lines before).length) aFence = [] := by
    decide +kernel
  simp [performStaticScan, fencesOnlyJs, hnone]

theorem signals_aFence : scanForInjection fencesOnly (decode aFence) =
    [⟨text "DELIMITER_BREAKOUT",
      text "text containing a fence sequence that could terminate the code block", 1, aFence⟩] := by
  decide +kernel

/-- A model that reports the fence has it reported. -/
theorem injection_reported_fence :
    ∃ result, performDualLayerScan fencesOnlyJs (answering fenceReportText) aFence true =
        .ok result ∧
      scanForInjection fencesOnly (decode aFence) ≠ [] ∧ result.ReportsInjection := by
  have hran : answering fenceReportText ⟨aFence, false⟩ = .ok (some [
      ⟨injectionType, injectionCategory, .high, text "Fence in the code.", 1, .llm⟩]) := by
    decide +kernel
  have hfound : llmFindings twoAnswers (fun _ _ => .ok fenceReportText) (text "0123456789abcdef")
      (decode aFence) =
        .ok [⟨injectionType, injectionCategory, .high, text "Fence in the code.", 1, .llm⟩] := by
    decide +kernel
  obtain ⟨result, hresult, hiff⟩ :=
    (injection_reported_iff true hran : ∃ r, performDualLayerScan fencesOnlyJs _ _ _ = .ok r ∧ _)
  have hsignals : scanForInjection fencesOnly (decode aFence) ≠ [] := by
    rw [signals_aFence]
    exact List.cons_ne_nil _ _
  refine ⟨result, hresult, hsignals, hiff.mpr (.inr ?_) hsignals⟩
  exact (exists_mem_llmFindings hfound).mp ⟨_, List.mem_singleton_self _, rfl, rfl⟩

/-- A model that finds nothing has the source with the fence pass. -/
theorem fence_unreported :
    ∃ result, performDualLayerScan fencesOnlyJs (answering (text "[]")) aFence = .ok result ∧
      scanForInjection fencesOnly (decode aFence) ≠ [] ∧ result.vulnerabilities = [] ∧
      result.passed = true ∧ result.layersRun = [.static, .llm] := by
  have hran : answering (text "[]") ⟨aFence, false⟩ = .ok (some []) := by
    decide +kernel
  have hsignals : scanForInjection fencesOnly (decode aFence) ≠ [] := by
    rw [signals_aFence]
    exact List.cons_ne_nil _ _
  simp [performDualLayerScan, hran, Fetched.findings, scan_aFence, merge, hsignals, passes, countOf]

end AssureCode.Security
