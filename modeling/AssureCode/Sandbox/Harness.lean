import AssureCode.Sandbox.Counts

/-! # The test harness

What `main` of the harness writes for a bundle, as a list of the texts it passes to
`process.stdout.write`: progress lines first, the report last. Names and messages come
from the bundle and may hold any code units. The report reads back as the tally.
-/

namespace AssureCode.Sandbox

open Js

/-- A thrown value: its message in the progress line, and as `JSON.stringify` serializes it. -/
structure Thrown where
  printed : Text
  message : Option {v : Json // v.Plain}

inductive Outcome
  | skipped
  | passed
  | failed (thrown : Thrown)

structure Case where
  name : Text
  outcome : Outcome

structure Tally where
  passed : ℕ
  failed : ℕ
  skipped : ℕ
  failures : List (Text × Option {v : Json // v.Plain})

def Tally.empty : Tally := ⟨0, 0, 0, []⟩

def runCase (t : Tally) (c : Case) : Tally :=
  match c.outcome with
  | .skipped => { t with skipped := t.skipped + 1 }
  | .passed => { t with passed := t.passed + 1 }
  | .failed thrown =>
    { t with failed := t.failed + 1, failures := t.failures ++ [(c.name, thrown.message)] }

/-- The progress line of a case. -/
def caseLine (c : Case) : Text :=
  match c.outcome with
  | .skipped => units "  - " ++ c.name ++ units " (skipped)\n"
  | .passed => units "  ✓ " ++ c.name ++ units "\n"
  | .failed thrown => units "  ✗ " ++ c.name ++ units ": " ++ thrown.printed ++ units "\n"

/-- What the harness finds: no path, a bundle that throws while loading, or the messages of the
failed `beforeAll` hooks and the cases. An array has fewer than `2 ^ 32` elements. -/
inductive Bundle
  | missing
  | unloadable (path message : Text)
  | loaded (beforeAll : List Text) (cases : List Case) (few : cases.length < 2 ^ 32)

def count (n : ℕ) : Json := .number (.ofRat n)

def failureJson (f : Text × Option {v : Json // v.Plain}) : Json :=
  .object ((units "name", .string f.1) :: (f.2.map fun m => (units "message", m.1)).toList)

/-- The reporter shape that `parseTestOutput` looks for. -/
def Tally.report (t : Tally) : Json :=
  .object ([(units "numPassedTests", count t.passed), (units "numFailedTests", count t.failed),
    (units "numPendingTests", count t.skipped),
    (units "numTotalTests", count (t.passed + t.failed))] ++
    if t.failures.length > 0 then [(units "failures", .array (t.failures.map failureJson))] else [])

/-- The report of a run that measured nothing. -/
def emptyReport : Json :=
  .object [(units "numPassedTests", count 0), (units "numFailedTests", count 0),
    (units "numTotalTests", count 0)]

namespace Bundle

def tally : Bundle → Tally
  | .loaded _ cases _ => cases.foldl runCase .empty
  | _ => .empty

def report : Bundle → Json
  | .loaded beforeAll cases few => (loaded beforeAll cases few).tally.report
  | _ => emptyReport

def progress : Bundle → List Text
  | .missing => [units "[harness] no test bundle path supplied\n"]
  | .unloadable path message =>
    [units "[harness] failed to load " ++ path ++ units ": " ++ message ++ units "\n"]
  | .loaded beforeAll cases _ =>
    (beforeAll.map fun m => units "[harness] beforeAll failed: " ++ m ++ units "\n") ++
      cases.map caseLine

/-- All writes of `main`. -/
def writes (b : Bundle) : List Text :=
  b.progress ++ [b.report.stringify ++ [newline]]

/-- The passed and total counts that the report states. -/
def counts (b : Bundle) : Number × Number :=
  (.ofRat b.tally.passed, .ofRat (b.tally.passed + b.tally.failed : ℕ))

end Bundle

/-! ## The tally -/

def Tally.cases (t : Tally) : ℕ := t.passed + t.failed + t.skipped

theorem cases_runCase (t : Tally) (c : Case) : (runCase t c).cases = t.cases + 1 := by
  unfold runCase Tally.cases
  cases c.outcome <;> dsimp only <;> omega

theorem cases_foldl (cases : List Case) (t : Tally) :
    (cases.foldl runCase t).cases = t.cases + cases.length := by
  induction cases generalizing t with
  | nil => rfl
  | cons c cases ih =>
    rw [List.foldl_cons, ih, cases_runCase, List.length_cons]
    omega

theorem Bundle.tally_cases_lt (b : Bundle) : b.tally.cases < 2 ^ 32 := by
  cases b with
  | loaded beforeAll cases few =>
    rw [tally, cases_foldl]
    simpa [Tally.cases, Tally.empty] using few
  | _ => simp [tally, Tally.cases, Tally.empty]

/-! ## The report reads back -/

variable {n : ℕ} {t : Tally}

theorem plain_count (h : n < 2 ^ 53) : (count n).Plain := by
  rw [count, Json.Plain, Number.ofRat_natCast h]
  rfl

theorem plain_failureJson (f : Text × Option {v : Json // v.Plain}) : (failureJson f).Plain := by
  obtain ⟨name, message⟩ := f
  cases message with
  | none => simp [failureJson, Json.Plain, Json.PlainMembers]
  | some m =>
    simp only [failureJson, Option.map_some, Option.toList_some, Json.Plain, Json.PlainMembers]
    exact ⟨by simp only [List.map_cons, List.map_nil]; decide, trivial, m.2, trivial⟩

theorem plain_failures (fs : List (Text × Option {v : Json // v.Plain})) :
    Json.PlainItems (fs.map failureJson) := by
  induction fs with
  | nil => trivial
  | cons f fs ih => exact ⟨plain_failureJson f, ih⟩

theorem Tally.plain_report (h : t.cases < 2 ^ 32) : t.report.Plain := by
  unfold Tally.cases at h
  unfold Tally.report
  have hp := plain_count (n := t.passed) (by omega)
  have hf := plain_count (n := t.failed) (by omega)
  have hs := plain_count (n := t.skipped) (by omega)
  have ht := plain_count (n := t.passed + t.failed) (by omega)
  split_ifs
  · simp only [List.cons_append, List.nil_append, Json.Plain, Json.PlainMembers]
    exact ⟨by simp only [List.map_cons, List.map_nil]; decide, hp, hf, hs, ht,
      plain_failures _, trivial⟩
  · simp only [List.append_nil, Json.Plain, Json.PlainMembers]
    exact ⟨by simp only [List.map_cons, List.map_nil]; decide, hp, hf, hs, ht, trivial⟩

theorem plain_emptyReport : emptyReport.Plain := by
  have h := plain_count (n := 0) (by norm_num)
  simp only [emptyReport, Json.Plain, Json.PlainMembers]
  exact ⟨by decide, h, h, h, trivial⟩

theorem Bundle.plain_report (b : Bundle) : b.report.Plain := by
  cases b with
  | loaded beforeAll cases few => exact Tally.plain_report (tally_cases_lt _)
  | _ => exact plain_emptyReport

theorem countsOf_report (t : Tally) : countsOf t.report =
    some ⟨.ofRat t.passed, .ofRat (t.passed + t.failed : ℕ), testFailuresOf t.report⟩ :=
  rfl

end AssureCode.Sandbox
