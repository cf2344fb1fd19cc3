import AssureCode.Push.Attested
import AssureCode.Security.Merge

/-! # What a push that passes has been through

The verdict of a row is about one run: a push passes exactly when its suite was run and all of it
passed, both scans have found nothing grave, and the code is maintainable. A run leaves nothing
behind: it saves one row at most, makes known only what it has saved, and removes its workspace.
-/

namespace AssureCode.Push

open Js Program Machine
open Concurrent (OnTrail)
open Security (Fetched JsRuntime SecurityScanResult performStaticScan Reports)

variable {g : Settings} {s t u : System} {as : List Action}

/-- The suite was run in a workspace, and what was printed counts tests, all of them passed. -/
def TestsPassed (workspace : Option Workspace) (execution : Execution) : Prop :=
  workspace.isSome ∧ ∃ runner stdout stderr exitCode timedOut,
    execution = .ran runner stdout stderr exitCode timedOut ∧
    sameNumber (Sandbox.parseTestOutput stdout).passedTests
      (Sandbox.parseTestOutput stdout).totalTests = true ∧
    (Number.ofRat 0).lt (Sandbox.parseTestOutput stdout).totalTests = true

/--
The rules find nothing grave, and the model has answered; what it finds is not grave, or the rules
have a finding of this type in this line.
-/
structure ScansClean (js : JsRuntime) (code : Text) (fetched : Fetched) : Prop where
  rules : ∀ v ∈ performStaticScan js code, ¬ v.severity.Grave
  answered : ∀ message, fetched.findings = .error message → message = []
  model : ∀ found, fetched.findings = .ok found → ∀ v ∈ found, v.severity.Grave →
    Reports (performStaticScan js code) v.type v.line

structure Passing (g : Settings) (code : Text) (workspace : Option Workspace)
    (execution : Execution) (fetched : Fetched) : Prop where
  tests : TestsPassed workspace execution
  scans : ScansClean g.js code fetched
  maintainable : (Number.ofRat 50).lt (maintainability g code) = true

/-! ## The verdict -/

section Verdict

variable {js : JsRuntime} {code : Text} {workspace : Option Workspace} {execution : Execution}
  {fetched : Fetched} {scan : SecurityScanResult}

theorem scan_passed_iff
    (h : Security.performDualLayerScan js (fun _ => fetched) code = .ok scan) :
    (scan.passed && decide (.llm ∈ scan.layersRun)) = true ↔ ScansClean js code fetched := by
  have hgrave : ∀ l, Security.passes (Security.merge (performStaticScan js code) l) = true ↔
      (∀ v ∈ performStaticScan js code, ¬ v.severity.Grave) ∧
        ∀ v ∈ l, v.severity.Grave → Reports (performStaticScan js code) v.type v.line := by
    intro l
    rw [← Bool.not_eq_false, Security.passes_eq_false_iff]
    constructor
    · intro hnone
      refine ⟨fun v hv hgrave => hnone ⟨v, Security.mem_merge_iff.mpr (.inl hv), hgrave⟩, ?_⟩
      intro v hv hgrave
      by_contra hout
      exact hnone ⟨v, Security.mem_merge_iff.mpr (.inr ⟨hv, hout⟩), hgrave⟩
    · rintro ⟨hrules, hmodel⟩ ⟨v, hv, hgrave⟩
      rcases Security.mem_merge_iff.mp hv with hv | ⟨hv, hout⟩
      · exact hrules v hv hgrave
      · exact hout (hmodel v hv hgrave)
  unfold Security.performDualLayerScan at h
  rw [Bool.and_eq_true, decide_eq_true_eq]
  cases hfindings : fetched.findings with
  | ok found =>
    simp only [hfindings] at h
    cases h
    rw [hgrave]
    constructor
    · rintro ⟨⟨hrules, hmodel⟩, -⟩
      refine ⟨hrules, fun message heq => ?_, fun found' heq => ?_⟩
      · rw [hfindings] at heq
        cases heq
      · rw [hfindings] at heq
        cases heq
        exact hmodel
    · intro hclean
      exact ⟨⟨hclean.rules, hclean.model found hfindings⟩, by simp⟩
  | error message =>
    simp only [hfindings, Bool.false_eq_true, if_false] at h
    cases h
    rw [hgrave]
    constructor
    · rintro ⟨⟨hrules, -⟩, hran⟩
      refine ⟨hrules, fun message' heq => ?_, fun found heq => ?_⟩
      · rw [hfindings] at heq
        cases heq
        by_contra hne
        simp [hne] at hran
      · rw [hfindings] at heq
        cases heq
    · intro hclean
      exact ⟨⟨hclean.rules, fun v hv => absurd hv List.not_mem_nil⟩,
        by simp [hclean.answered message hfindings]⟩

theorem tests_passed_iff (hran : execution.hasRun = true → workspace.isSome) :
    (sameNumber execution.result.passedTests execution.result.totalTests &&
      (Number.ofRat 0).lt execution.result.totalTests) = true ↔
      TestsPassed workspace execution := by
  cases execution with
  | unavailable runner message =>
    have hzero : (Number.ofRat 0).lt (Number.ofRat 0) = false := by decide +kernel
    simp [Execution.result, TestsPassed, hzero]
  | ran runner stdout stderr exitCode timedOut =>
    rw [Bool.and_eq_true]
    constructor
    · exact fun ⟨hsame, hpos⟩ => ⟨hran rfl, _, _, _, _, _, rfl, hsame, hpos⟩
    · rintro ⟨-, _, _, _, _, _, heq, hsame, hpos⟩
      cases heq
      exact ⟨hsame, hpos⟩

theorem overallPassed_iff (hran : execution.hasRun = true → workspace.isSome)
    (h : Security.performDualLayerScan g.js (fun _ => fetched) code = .ok scan) :
    overallPassed (maintainability g code) execution.result scan = true ↔
      Passing g code workspace execution fetched := by
  rw [overallPassed, Bool.and_eq_true, Bool.and_assoc, Bool.and_eq_true, scan_passed_iff h,
    tests_passed_iff hran]
  constructor
  · exact fun ⟨⟨hscans, htests⟩, hmaintainable⟩ => ⟨htests, hscans, hmaintainable⟩
  · exact fun h => ⟨⟨h.scans, h.tests⟩, h.maintainable⟩

end Verdict

section Traces

variable (hs : (system g).init s) (h : (system g).Run Any s as t)
include hs h

theorem isSome_of_hasRun {contractId : Text} {workspace : Option Workspace} {execution : Execution}
    (hev : OnTrail t ⟨.execute contractId workspace, execution⟩)
    (hran : execution.hasRun = true) : workspace.isSome := by
  obtain ⟨u, v, trail, x, -, -, hserve⟩ := served hs h hev nofun nofun
  simp only [serve] at hserve
  split at hserve
  · cases hserve
  · next hnone =>
    obtain ⟨rfl, -⟩ := Prod.mk.inj (Option.some.inj hserve)
    rw [hran, Bool.and_true, Bool.not_eq_true, Option.isNone_eq_false_iff] at hnone
    exact hnone

end Traces

def Reply.isProcessed : Reply → Bool
  | .processed => true
  | .send _ _ => false
  | .failed => false

/-- What a handler leaves behind when it has ended. -/
structure Settled (t : System) (f : Flow Query Query.Answer Reply) : Prop where
  once : f.trail.Pairwise fun ev ev' => IsSave ev' → ¬ IsSave ev
  processed : f.rest = .done .processed → Cleaned f.trail ∧ ∃ row ∈ t.store.audits,
    .auditCompleted row ∈ t.store.messages ∧ (⟨.save row, some ()⟩ : Event) ∈ f.trail
  failed : f.rest = .done .failed → Cleaned f.trail

theorem of_attempt_eq_some {α : Type} {s s' s'' : Store} {a b : α} {outcome : Settlement.Outcome}
    (h : attempt s s' a outcome = (some b, s'')) : b = a ∧ s'' = s' := by
  cases outcome <;> cases h
  exact ⟨rfl, rfl⟩

section Ends

variable (hs : (system g).init s) (h : (system g).Run Any s as t)
include hs h

theorem mem_audits_of_saved {row : AuditResults} (hev : OnTrail t ⟨.save row, some ()⟩) :
    row ∈ t.store.audits := by
  obtain ⟨u, v, trail, x, -, ⟨pre, post, -, hpost⟩, hserve⟩ := served hs h hev nofun nofun
  have hsaved : row ∈ v.store.audits := by
    rw [(of_attempt_eq_some (Option.some.inj hserve)).2]
    exact List.mem_concat_self
  exact (kept_run hpost).audits hsaved

theorem mem_messages_of_published {row : AuditResults} {correlationId eventId : Text}
    (hev : OnTrail t ⟨.publish (.auditCompleted row) correlationId, some eventId⟩) :
    .auditCompleted row ∈ t.store.messages := by
  obtain ⟨u, v, trail, x, -, ⟨pre, post, -, hpost⟩, hserve⟩ := served hs h hev nofun nofun
  have hpublished : .auditCompleted row ∈ v.store.messages := by
    rw [(of_attempt_eq_some (Option.some.inj hserve)).2]
    exact List.mem_concat_self
  exact (kept_run hpost).messages hpublished

/--
What is made known of an audit has its row. A run saves one row at most; when it has ended its
workspace is removed, and a push that counts as processed has a row that was made known.
-/
theorem runs_settled :
    (∀ row, .auditCompleted row ∈ t.store.messages → row ∈ t.store.audits) ∧
      ∀ i f, t.flows i = some f → Settled t f := by
  obtain ⟨hcomplied, hgood⟩ := complied hs h
  constructor
  · intro row hrow
    obtain ⟨correlationId, r, i, f, hf, hpublished⟩ := (sound_of_run hs h).announced row hrow
    obtain ⟨before, hsubset, hsaved⟩ := (hcomplied i f hf).exists_subset hpublished
    exact mem_audits_of_saved hs h ⟨i, f, hf, hsubset hsaved⟩
  · intro i f hf
    have hended : ∀ reply, f.rest = .done reply → Ended f.trail reply := by
      intro reply hrest
      have hmeets := hgood i f hf
      rw [Concurrent.Good, hrest] at hmeets
      exact hmeets
    refine ⟨(hcomplied i f hf).pairwise ?_, fun hrest => ?_, hended .failed⟩
    · rintro before ev hfollows ⟨row, r, rfl⟩
      exact hfollows.1
    · obtain ⟨hcleaned, row, correlationId, eventId, hsaved, hpublished⟩ := hended _ hrest
      exact ⟨hcleaned, row, mem_audits_of_saved hs h ⟨i, f, hf, hsaved⟩,
        mem_messages_of_published hs h ⟨i, f, hf, hpublished⟩, hsaved⟩

end Ends

theorem runs_settled_passingPush : ∃ t f,
    (system widgetSettings).exec widgetsLinked passingPush = some t ∧ t.flows 1 = some f ∧
    Cleaned f.trail ∧ ∃ row ∈ t.store.audits, .auditCompleted row ∈ t.store.messages := by
  have h : ((system widgetSettings).exec widgetsLinked passingPush).any fun t =>
      (t.flows 1).any fun f => f.reply.any Reply.isProcessed := by decide +kernel
  obtain ⟨t, ht, h⟩ := (Option.any_eq_true _ _).mp h
  obtain ⟨f, hf, h⟩ := (Option.any_eq_true _ _).mp h
  obtain ⟨reply, hreply, h⟩ := (Option.any_eq_true _ _).mp h
  obtain ⟨-, hsettled⟩ := runs_settled init_widgetsLinked (run_of_exec ht)
  cases reply with
  | processed =>
    obtain ⟨hcleaned, row, hrow, hannounced, -⟩ :=
      (hsettled 1 f hf).processed (Flow.reply_eq_some.mp hreply)
    exact ⟨t, f, ht, hf, hcleaned, row, hrow, hannounced⟩
  | send | failed => cases h

end AssureCode.Push
