import AssureCode.Security.Completeness
import AssureCode.Security.DualLayer

/-! # The severities that a merge shows

Both services put the findings of the model after the static ones and leave out those of a type
and a line that a static finding has, whatever their severity is.
-/

namespace AssureCode.Security

open Js Python

def Severity.rank : Severity → ℕ
  | .low => 0
  | .medium => 1
  | .high => 2
  | .critical => 3

/-- A severity that alone keeps a scan from passing. -/
def Severity.Grave (severity : Severity) : Prop := severity = .critical ∨ severity = .high

/-- The highest severity that is found for a type and a line. -/
def IsHighest (found : List Vulnerability) (type : Text) (line : ℕ) (severity : Severity) : Prop :=
  (∃ v ∈ found, v.type = type ∧ v.line = line ∧ v.severity = severity) ∧
    ∀ v ∈ found, v.type = type → v.line = line → v.severity.rank ≤ severity.rank

/--
A merged result shows the highest static severity for each type and line, the model's where no
static finding has them, and it passes unless one of these is grave.
-/
structure ShowsStaticFirst (staticFindings llmFindings merged : List Vulnerability)
    (passed : Bool) : Prop where
  highest : ∀ type line severity, IsHighest merged type line severity ↔
    IsHighest staticFindings type line severity ∨
      ¬ Reports staticFindings type line ∧ IsHighest llmFindings type line severity
  verdict : passed = false ↔ (∃ v ∈ staticFindings, v.severity.Grave) ∨
    ∃ v ∈ llmFindings, v.severity.Grave ∧ ¬ Reports staticFindings v.type v.line

/-- What the scan route answers for two layers. -/
def joined (found ofModel : List Vulnerability) : List Vulnerability :=
  found ++ ofModel.filter fun v => decide (∀ w ∈ found, ¬ (w.type = v.type ∧ w.line = v.line))

/-- The deterministic findings of the scan route. -/
def staticLayer (rt : PyRuntime) (req : SecurityScanRequest) : List Vulnerability :=
  if req.includeStatic then
    scan rt.engine req.code ++ signalsToFindings rt.repr (scanForInjection rt.engine req.code)
  else []

variable {s l m : List Vulnerability} {v : Vulnerability} {type : Text} {line : ℕ}
  {severity : Severity}

/-! ## What is merged -/

theorem mem_merge_iff : v ∈ merge s l ↔ v ∈ s ∨ v ∈ l ∧ ¬ Reports s v.type v.line := by
  simp only [merge, List.mem_append, List.mem_filter, decide_eq_true_eq, Reports, not_exists,
    not_and]
  apply or_congr_right
  apply and_congr_right
  rintro -
  constructor
  · rintro h w hw htype hline
    exact h w hw (by rw [htype, hline])
  · rintro h w hw hkey
    obtain ⟨htype, hline⟩ := findingKey_inj hkey
    exact h w hw htype hline

theorem mem_joined_iff : v ∈ joined s l ↔ v ∈ s ∨ v ∈ l ∧ ¬ Reports s v.type v.line := by
  simp [joined, Reports]

/-! ## What is shown -/

theorem IsHighest.reports (h : IsHighest s type line severity) : Reports s type line := by
  obtain ⟨⟨v, hv, htype, hline, -⟩, -⟩ := h
  exact ⟨v, hv, htype, hline⟩

theorem isHighest_congr (h : ∀ v, v.type = type → v.line = line → (v ∈ m ↔ v ∈ s)) :
    IsHighest m type line severity ↔ IsHighest s type line severity := by
  unfold IsHighest
  constructor
  all_goals
    rintro ⟨⟨v, hv, htype, hline, hsev⟩, hmax⟩
    constructor
    · exact ⟨v, by simpa only [h v htype hline] using hv, htype, hline, hsev⟩
    · rintro w hw hwtype hwline
      exact hmax w (by simpa only [h w hwtype hwline] using hw) hwtype hwline

theorem passes_eq_false_iff : passes m = false ↔ ∃ v ∈ m, v.severity.Grave := by
  simp only [passes, Bool.and_eq_false_iff, beq_eq_false_iff_ne, ← Nat.pos_iff_ne_zero, countOf_pos,
    Severity.Grave, and_or_left, exists_or]

theorem showsStaticFirst_of_mem
    (h : ∀ v, v ∈ m ↔ v ∈ s ∨ v ∈ l ∧ ¬ Reports s v.type v.line) :
    ShowsStaticFirst s l m (passes m) := by
  constructor
  · intro type line severity
    by_cases hreports : Reports s type line
    · rw [isHighest_congr (s := s)]
      · simp [hreports]
      · rintro v rfl rfl
        simp [h, hreports]
    · rw [isHighest_congr (s := l)]
      · have hnone : ¬ IsHighest s type line severity := mt IsHighest.reports hreports
        simp [hreports, hnone]
      · rintro v rfl rfl
        have hout : v ∉ s := fun hv => hreports ⟨v, hv, rfl, rfl⟩
        simp [h, hreports, hout]
  · rw [passes_eq_false_iff]
    constructor
    · rintro ⟨v, hv, hgrave⟩
      rcases (h v).mp hv with hv | ⟨hv, hout⟩
      · exact .inl ⟨v, hv, hgrave⟩
      · exact .inr ⟨v, hv, hgrave, hout⟩
    · rintro (⟨v, hv, hgrave⟩ | ⟨v, hv, hgrave, hout⟩)
      · exact ⟨v, (h v).mpr (.inl hv), hgrave⟩
      · exact ⟨v, (h v).mpr (.inr ⟨hv, hout⟩), hgrave⟩

theorem scanLayers_of_includeLlm {rt : PyRuntime} {llm : LlmClient} {nonce : Text}
    {req : SecurityScanRequest} (hreq : req.includeLlm = true)
    (hl : llmFindings rt llm nonce req.code = .ok l) :
    scanLayers rt llm nonce req = .ok (joined (staticLayer rt req) l) := by
  simp only [scanLayers, hreq, if_true, hl]
  rfl

/--
The merge of any two lists, in either service, shows the static severities first, and so do the
results of a scan in which both layers ran.
-/
theorem merged_showsStaticFirst :
    (∀ s l, ShowsStaticFirst s l (merge s l) (passes (merge s l)) ∧
      ShowsStaticFirst s l (joined s l) (passes (joined s l))) ∧
    (∀ js fetch code requireLlmLayer l, (fetch ⟨code, false⟩).findings = .ok l →
      ∃ res, performDualLayerScan js fetch code requireLlmLayer = .ok res ∧
        ShowsStaticFirst (performStaticScan js code) l res.vulnerabilities res.passed) ∧
    ∀ rt llm nonce (req : SecurityScanRequest) l, req.includeLlm = true →
      llmFindings rt llm nonce req.code = .ok l →
      ∃ res, securityScan rt llm nonce req = .ok res ∧
        ShowsStaticFirst (staticLayer rt req) l res.vulnerabilities res.passed := by
  refine ⟨fun s l => ⟨?_, ?_⟩, fun js fetch code requireLlmLayer l hl => ?_,
    fun rt llm nonce req l hreq hl => ?_⟩
  · exact showsStaticFirst_of_mem fun _ => mem_merge_iff
  · exact showsStaticFirst_of_mem fun _ => mem_joined_iff
  · simp only [performDualLayerScan, hl, Except.ok.injEq, exists_eq_left']
    exact showsStaticFirst_of_mem fun _ => mem_merge_iff
  · simp only [securityScan, hreq, Bool.not_true, Bool.and_false,
      scanLayers_of_includeLlm hreq hl, bind, Except.bind, pure, Except.pure]
    exact ⟨_, rfl, showsStaticFirst_of_mem fun _ => mem_joined_iff⟩

/-! ## A graver report of the same flaw -/

/-- What the static layer reports of the two blocks. -/
def swallowed : Vulnerability where
  type := units "SILENT_EXCEPTION_SWALLOW"
  category := units "A10:2025"
  severity := .medium
  message := units "Exception caught and discarded, hiding the failure"
  line := 1
  layer := .static

/-- The model's report of the first one. -/
def graverReport : Vulnerability where
  type := units "SILENT_EXCEPTION_SWALLOW"
  category := units "A10:2025"
  severity := .high
  message := units "A failed payment is treated as a paid one."
  line := 1
  layer := .llm

theorem performStaticScan_twoBlocks : performStaticScan blocksOnlyJs twoBlocks = [swallowed] := by
  have hone : scanRules blocksOnly findingKey (fun before => (lines before).length) twoBlocks =
      [swallowed] := by decide +kernel
  simp [performStaticScan, blocksOnlyJs, hone]

theorem showsStaticFirst_twoBlocks :
    ∃ res, performDualLayerScan blocksOnlyJs (fun _ => .ok (some [graverReport])) twoBlocks =
        .ok res ∧
      ShowsStaticFirst (performStaticScan blocksOnlyJs twoBlocks) [graverReport]
        res.vulnerabilities res.passed :=
  merged_showsStaticFirst.2.1 blocksOnlyJs _ twoBlocks false _ rfl

/-- The graver severity is not in the result, which passes. -/
theorem graver_severity_hidden :
    ∃ res, performDualLayerScan blocksOnlyJs (fun _ => .ok (some [graverReport])) twoBlocks =
        .ok res ∧
      graverReport.severity = .high ∧ res.passed = true ∧
      IsHighest (performStaticScan blocksOnlyJs twoBlocks ++ [graverReport]) graverReport.type 1
        .high ∧
      ¬ IsHighest res.vulnerabilities graverReport.type 1 .high := by
  have hmerge : merge [swallowed] [graverReport] = [swallowed] := by decide +kernel
  simp only [performDualLayerScan, Fetched.findings, Option.getD_some, List.map_cons, List.map_nil,
    performStaticScan_twoBlocks, Except.ok.injEq, exists_eq_left']
  rw [show { graverReport with layer := .llm } = graverReport from rfl, hmerge]
  refine ⟨rfl, by decide +kernel, ?_, ?_⟩
  · constructor
    · exact ⟨graverReport, by simp, rfl, rfl, rfl⟩
    · simp [swallowed, graverReport, Severity.rank]
  · rintro ⟨⟨v, hv, -, -, hsev⟩, -⟩
    rw [List.mem_singleton] at hv
    subst hv
    cases hsev

end AssureCode.Security
