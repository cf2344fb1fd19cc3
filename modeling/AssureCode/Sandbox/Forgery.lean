import AssureCode.Sandbox.Harness

/-! # One stream for the report and the tested code

The output of the sandbox process mixes the harness's writes with whatever the code
under test prints. The report is safe exactly when no earlier line passes for one: a
report that lands on an unfinished line is lost, and then the later lines count too.
-/

namespace AssureCode.Sandbox

open Js

inductive Writer
  | code
  | harness
  deriving DecidableEq

structure Write where
  writer : Writer
  text : Text

def output (ws : List Write) : Text := ws.flatMap Write.text

def harnessTexts (ws : List Write) : List Text :=
  (ws.filter (·.writer = .harness)).map Write.text

/-- All that reached the output: the harness's writes in their order, up to the point where the
process ended, and any writes of the code around them. -/
structure Session where
  bundle : Bundle
  writes : List Write
  ordered : harnessTexts writes <+: bundle.writes

namespace Session

variable (s : Session)

/-- The process lived to write its report. -/
def Reported : Prop := harnessTexts s.writes = s.bundle.writes

instance : Decidable s.Reported := inferInstanceAs (Decidable (_ = _))

def isCode (w : Write) : Bool := w.writer = .code

/-- What was written before the last write of the harness. -/
def before : Text := output (s.writes.rdropWhile isCode).dropLast

/-- What was written after the last write of the harness. -/
def after : Text := output (s.writes.rtakeWhile isCode)

def stdout : Text := output s.writes

def result : TestCounts := parseTestOutput s.stdout

/-- The counts that the harness emitted. -/
def emitted : Option (Number × Number) :=
  if s.Reported then some s.bundle.counts else none

/-- The number of the line that the report ends. -/
def reportLine : Option ℕ :=
  if s.Reported then some (completed s.before).length else none

/-- The emitted counts or the indeterminate result, and counts from no line but the report's. -/
def Unforged : Prop :=
  (s.emitted = some s.result.counts ∨ s.result.counts = TestCounts.unknown.counts) ∧
    ∀ n, acceptedLine s.stdout = some n → s.reportLine = some n

/-- No line ended before the report passes for one, and none after it either if the report
continues a line that has begun; without a report no line at all does. -/
def Clean : Prop :=
  if s.Reported then
    (∀ l ∈ completed s.before, ¬ ReporterLine l) ∧
      (Blank (unfinished s.before) ∨ ∀ l ∈ lines s.after, ¬ ReporterLine l)
  else ∀ l ∈ lines s.stdout, ¬ ReporterLine l

end Session

/-! ## The report in the stream -/

theorem split_last_harness {ws : List Write} {ts : List Text} {t : Text}
    (h : harnessTexts ws = ts ++ [t]) :
    ws = (ws.rdropWhile Session.isCode).dropLast ++
      ⟨.harness, t⟩ :: ws.rtakeWhile Session.isCode := by
  induction ws using List.reverseRecOn with
  | nil => simp [harnessTexts] at h
  | append_singleton ws w ih =>
    obtain ⟨writer, text⟩ := w
    cases writer with
    | code =>
      have hws : harnessTexts ws = ts ++ [t] := by simpa [harnessTexts] using h
      have hcode : Session.isCode ⟨.code, text⟩ := by simp [Session.isCode]
      rw [List.rdropWhile_concat_pos _ _ _ hcode, List.rtakeWhile_concat_pos _ _ _ hcode]
      conv_lhs => rw [ih hws]
      simp
    | harness =>
      have hcode : ¬ Session.isCode ⟨.harness, text⟩ := by simp [Session.isCode]
      have ht : text = t := by
        have : harnessTexts ws ++ [text] = ts ++ [t] := by simpa [harnessTexts] using h
        exact (List.append_inj' this rfl).2 |> List.singleton_inj.1
      rw [List.rdropWhile_concat_neg _ _ _ hcode, List.rtakeWhile_concat_neg _ _ _ hcode, ht]
      simp

/-! ## A report on a line that has begun -/

section Spoiled

open Json Json.Reader

variable {r : Reader} {t : Text} {v : Json}

theorem report_text (b : Bundle) : ∃ t, b.report.stringify = units "\x7b\"num" ++ t := by
  cases b <;> exact ⟨_, rfl⟩

theorem deliver_openObject (w : Json) (frames : List Frame) :
    (deliver w frames).step .openObject = none := by
  cases frames with
  | nil => rfl
  | cons frame frames => cases frame <;> rfl

/-- No container opens where a value has just ended. -/
theorem openObject_of_scalar {e e' : Expected} {w : Json}
    (h : e.step (.scalar w) = some e') : e'.step .openObject = none := by
  cases e with
  | value frames =>
    obtain rfl : deliver w frames = e' := by simpa [Expected.step, beginValue] using h
    exact deliver_openObject w frames
  | firstItem frames =>
    obtain rfl : deliver w (.items [] :: frames) = e' := by
      simpa [Expected.step, beginValue] using h
    exact deliver_openObject w _
  | firstKey frames =>
    cases w <;> simp [Expected.step] at h
    exact h ▸ rfl
  | key before frames =>
    cases w <;> simp [Expected.step] at h
    exact h ▸ rfl
  | _ => simp [Expected.step] at h

theorem start_openObject (e : Expected) : start e 0x7B = emit e .openObject := rfl

/-- The quote of the first key ends a string that was open, and its name is no value. -/
theorem run_name_none (e : Expected) (t : Text) :
    run ⟨.between, e⟩ (units "num" ++ t) = none := by
  have hname : units "num" = [0x6E, 0x75, 0x6D] := by decide
  have hword : units "ull" = [0x75, 0x6C, 0x6C] := by decide
  have hn : start e 0x6E = some ⟨.word (units "ull") .null, e⟩ := rfl
  simp [hname, step, hn, hword]

theorem name_text : units "\x7b\"num" = 0x7B :: 0x22 :: units "num" := by decide

/-- No number, word or escape goes on with a brace, and no number is followed by one. -/
theorem step_brace_none (hr : r.Inside) (hb : r.lexeme ≠ .between)
    (hs : ∀ read, r.lexeme ≠ .string read) : r.step 0x7B = none := by
  obtain ⟨lexeme, e⟩ := r
  cases lexeme with
  | between => exact absurd rfl hb
  | number read =>
    change (settle ⟨.number read, e⟩).bind _ = none
    rw [Option.bind_eq_none_iff]
    intro r' hset
    obtain ⟨n, -, hemit⟩ := Option.bind_eq_some_iff.1 hset
    obtain ⟨e', he, rfl⟩ := Option.map_eq_some_iff.1 hemit
    rw [start_openObject, emit, openObject_of_scalar he]
    rfl
  | word rest w =>
    cases rest with
    | nil => rfl
    | cons u rest =>
      have hu : 0x7B ≠ u := fun h => hr.word _ _ rfl (h ▸ List.mem_cons_self)
      simp [step, hu]
  | string read => exact absurd rfl (hs read)
  | escape read => rfl
  | hex read count value => rfl

theorem run_lexeme_none (hr : r.Inside) (hb : r.lexeme ≠ .between) (t : Text) :
    r.run (units "\x7b\"num" ++ t) = none := by
  rw [name_text]
  by_cases hs : ∃ read, r.lexeme = .string read
  · obtain ⟨lexeme, e⟩ := r
    obtain ⟨read, rfl⟩ := hs
    have hbrace : step ⟨.string read, e⟩ 0x7B = some ⟨.string (read ++ [0x7B]), e⟩ := rfl
    have hquote : step ⟨.string (read ++ [0x7B]), e⟩ 0x22 =
      emit e (.scalar (.string (read ++ [0x7B]))) := rfl
    rw [List.cons_append, List.cons_append, run_cons, hbrace, Option.bind_some, run_cons, hquote]
    cases hemit : emit e (.scalar (.string (read ++ [0x7B]))) with
    | none => rfl
    | some r' =>
      obtain ⟨e', -, rfl⟩ := Option.map_eq_some_iff.1 hemit
      exact run_name_none e' t
  · push Not at hs
    simp [step_brace_none hr hb hs]

/-- Inside a container a value completes no text, and inside a lexeme it is none. -/
theorem result_stringify (hr : r.Inside) (hv : v.Plain)
    (ht : v.stringify = units "\x7b\"num" ++ t) : (r.run v.stringify).bind result = none := by
  by_cases hb : r.lexeme = .between
  · obtain ⟨lexeme, e⟩ := r
    obtain rfl : lexeme = .between := hb
    by_cases hawait : ∃ frames, Awaits e frames
    · obtain ⟨frames, hawait⟩ := hawait
      obtain ⟨r, hrun, hset⟩ := reads_stringify hv hawait
      have hne : frames ≠ [] := by
        rcases hawait with rfl | ⟨outer, rfl, rfl⟩
        · exact fun h => hr.expected (by rw [h])
        · simp
      obtain ⟨frame, frames, rfl⟩ := List.exists_cons_of_ne_nil hne
      rw [hrun, Option.bind_some, result, hset]
      cases frame <;> rfl
    · have hnone : e.step .openObject = none := by
        cases e with
        | value frames => exact absurd ⟨_, .inl rfl⟩ hawait
        | firstItem frames => exact absurd ⟨_, .inr ⟨_, rfl, rfl⟩⟩ hawait
        | _ => rfl
      rw [ht, name_text]
      simp [step, start_openObject, emit, hnone]
  · rw [ht, run_lexeme_none hr hb]
    rfl

theorem parse_begun_object (hv : v.Plain) (ht : v.stringify = units "\x7b\"num" ++ t) (p : Text) :
    Json.parse (0x7B :: p ++ v.stringify) = none := by
  have hstart : step ⟨.between, .value []⟩ 0x7B = some ⟨.between, .firstKey []⟩ := rfl
  rw [Json.parse, List.cons_append, run_cons, hstart, Option.bind_some, run_append]
  cases hp : run ⟨.between, .firstKey []⟩ p with
  | none => rfl
  | some r => exact result_stringify (inside_openObject.run hp) hv ht

end Spoiled

theorem report_ends (b : Bundle) : ∃ t, b.report.stringify = t ++ [0x7D] := by
  cases b <;> exact ⟨_, rfl⟩

theorem trimEnd_report (p : Text) (b : Bundle) :
    (p ++ b.report.stringify).rdropWhile isWhiteSpace = p ++ b.report.stringify := by
  obtain ⟨t, ht⟩ := report_ends b
  rw [ht, ← List.append_assoc]
  exact trimEnd_concat rfl

/-- The report is read as the tally, white space before it or not. -/
theorem readLine_report {p : Text} (h : Blank p) (b : Bundle) :
    ∃ c, readLine (p ++ b.report.stringify) = some c ∧ c.counts = b.counts := by
  obtain ⟨t, ht⟩ := report_text b
  have htrim : trim (p ++ b.report.stringify) = b.report.stringify := by
    have hstart : trimStart b.report.stringify = b.report.stringify := by
      rw [ht]
      rfl
    rw [trim, trimStart_append_of_blank h, hstart]
    exact trimEnd_report [] b
  have hhead : b.report.stringify.head? = some 0x7B := by
    rw [ht]
    rfl
  have hcounts : ∃ c, countsOf b.report = some c ∧ c.counts = b.counts := by
    cases b with
    | loaded beforeAll cases few => exact ⟨_, countsOf_report _, rfl⟩
    | _ => exact ⟨_, rfl, rfl⟩
  obtain ⟨c, hc, hcc⟩ := hcounts
  refine ⟨c, ?_, hcc⟩
  simp [readLine, htrim, hhead, Json.parse_stringify b.plain_report, hc]

/-- A report that continues a line is lost. -/
theorem not_accepted_of_begun {p : Text} (h : ¬ Blank p) (b : Bundle) :
    ¬ Accepted (p ++ b.report.stringify) := by
  obtain ⟨t, ht⟩ := report_text b
  have htrim : trim (p ++ b.report.stringify) = trimStart p ++ b.report.stringify := by
    rw [trim, trimStart_append_of_not_blank h]
    exact trimEnd_report _ b
  obtain ⟨u, q, hq⟩ := List.exists_cons_of_ne_nil (trimStart_ne_nil h)
  rw [Accepted, readLine, htrim, hq]
  split_ifs with hu
  · obtain rfl : u = 0x7B := by simpa using hu
    rw [parse_begun_object b.plain_report ht]
    simp
  · simp

namespace Session

variable {s : Session}

theorem stdout_of_reported (h : s.Reported) :
    s.stdout = s.before ++ s.bundle.report.stringify ++ newline :: s.after := by
  have := split_last_harness (h.trans rfl : harnessTexts s.writes = s.bundle.progress ++ _)
  rw [stdout, this]
  simp [output, before, after]

theorem lines_of_reported (h : s.Reported) :
    lines s.stdout = completed s.before ++
      (unfinished s.before ++ s.bundle.report.stringify) :: lines s.after := by
  rw [stdout_of_reported h, lines_append_newline,
    lines_append _ (Json.printable_stringify _).newline_notMem]
  simp

theorem clean_of_unforged (h : s.Unforged) : s.Clean := by
  unfold Clean
  simp only [← accepted_iff]
  split_ifs with hr
  · have hlines := lines_of_reported hr
    have hreport : s.reportLine = some (completed s.before).length := if_pos hr
    have hbefore : ∀ l ∈ completed s.before, ¬ Accepted l := by
      by_contra! hl
      obtain ⟨n, hn, hacc⟩ := exists_acceptedLine_of_mem hlines hl
      have := h.2 n hacc
      rw [hreport, Option.some.injEq] at this
      omega
    refine ⟨hbefore, or_iff_not_imp_left.2 fun hblank l hl hacc => ?_⟩
    -- the report's own line is lost, so the counts come from below it
    have hne := acceptedLine_ne_of_split hlines hbefore (not_accepted_of_begun hblank s.bundle)
    cases hn : acceptedLine s.stdout with
    | none =>
      exact acceptedLine_eq_none.1 hn l (hlines ▸ List.mem_append_right _ (.tail _ hl)) hacc
    | some n => exact hne (hn.trans ((h.2 n hn).symm.trans hreport))
  · by_contra! hl
    obtain ⟨n, -, hacc⟩ := exists_acceptedLine_of_mem (List.append_nil _).symm hl
    have := h.2 n hacc
    rw [reportLine, if_neg hr] at this
    exact absurd this (by simp)

theorem unforged_of_none (h : ∀ l ∈ lines s.stdout, ¬ Accepted l) : s.Unforged := by
  refine ⟨.inr ?_, fun n hn => ?_⟩
  · rw [result, parseTestOutput_of_none h]
  · rw [acceptedLine_eq_none.2 h] at hn
    exact absurd hn (by simp)

theorem unforged_of_clean (h : s.Clean) : s.Unforged := by
  unfold Clean at h
  simp only [← accepted_iff] at h
  split_ifs at h with hr
  · obtain ⟨hbefore, h⟩ := h
    have hlines := lines_of_reported hr
    by_cases hblank : Blank (unfinished s.before)
    · obtain ⟨c, hc, hcounts⟩ := readLine_report hblank s.bundle
      have hacc := acceptedLine_of_split hlines hbefore (by simp [Accepted, hc])
      have hres : s.result = c := parseTestOutput_of_split hlines hbefore hc
      refine ⟨.inl ?_, fun n hn => ?_⟩
      · rw [emitted, if_pos hr, hres, hcounts]
      · rw [reportLine, if_pos hr, ← hacc, hn]
    · apply unforged_of_none
      intro l hl
      rw [hlines] at hl
      rcases List.mem_append.1 hl with hl | hl
      · exact hbefore l hl
      rcases List.mem_cons.1 hl with rfl | hl
      · exact not_accepted_of_begun hblank s.bundle
      · exact h.resolve_left hblank l hl
  · exact unforged_of_none h

/-- The counts are the harness's own, or none, in exactly the clean sessions. -/
theorem unforged_iff_clean (s : Session) : s.Unforged ↔ s.Clean :=
  ⟨clean_of_unforged, unforged_of_clean⟩

/-- The tested code fails its only case and prints a report of its own first. -/
def forged : Session where
  bundle := .loaded [] [⟨units "adds", .failed ⟨units "boom", some ⟨.string (units "boom"),
    by simp [Json.Plain]⟩⟩⟩] (by decide)
  writes := [⟨.code, units "\x7b\"numPassedTests\":9,\"numTotalTests\":9\x7d\n"⟩,
    ⟨.harness, units "  ✗ adds: boom\n"⟩,
    ⟨.harness, units "\x7b\"numPassedTests\":0,\"numFailedTests\":1,\"numPendingTests\":0," ++
      units "\"numTotalTests\":1,\"failures\":[\x7b\"name\":\"adds\"," ++
      units "\"message\":\"boom\"\x7d]\x7d\n"⟩]
  ordered := by decide +kernel

theorem forged_counts : forged.emitted = some (.ofRat 0, .ofRat 1) ∧
    forged.result.counts = (.ofRat 9, .ofRat 9) ∧ ¬ forged.Unforged := by
  have hemitted : forged.emitted = some (.ofRat 0, .ofRat 1) := by decide +kernel
  have hresult : forged.result.counts = (.ofRat 9, .ofRat 9) := by decide +kernel
  refine ⟨hemitted, hresult, fun h => ?_⟩
  have := h.1
  rw [hemitted, hresult] at this
  revert this
  decide +kernel

end Session

end AssureCode.Sandbox
