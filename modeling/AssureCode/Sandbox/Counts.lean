import AssureCode.Js.Coercion

/-! # Reading the test counts

`parseTestOutput` goes through the lines of a process's output and takes the counts
from the first line that is a JSON object in the shape of a test reporter. Nothing
in a line says who wrote it.
-/

namespace AssureCode.Sandbox

open Js

structure TestCounts where
  passedTests : Number
  totalTests : Number
  testFailures : Option (List Json)

/-- Zero of zero, the indeterminate result. -/
def TestCounts.unknown : TestCounts := ⟨.ofRat 0, .ofRat 0, none⟩

def TestCounts.counts (c : TestCounts) : Number × Number := (c.passedTests, c.totalTests)

/-- `Number(parsed.numTotalTests ?? parsed.numPassedTests + (parsed.numFailedTests ?? 0))` -/
def totalTestsOf (parsed : Json) (numPassedTests : Number) : Option Number :=
  match Json.nonNullish (parsed.get (units "numTotalTests")) with
  | some total => total.toNumber
  | none =>
    let failed := (Json.nonNullish (parsed.get (units "numFailedTests"))).getD (.number (.ofRat 0))
    (Json.plus numPassedTests failed).bind Json.toNumber

def testFailuresOf (parsed : Json) : Option (List Json) :=
  match parsed.get (units "failures") with
  | some (.array failures) => some failures
  | _ => none

/-- The counts of a parsed line; an exception counts as none. -/
def countsOf (parsed : Json) : Option TestCounts :=
  match parsed.get (units "numPassedTests") with
  | some (.number passed) =>
    (totalTestsOf parsed passed).map fun total => ⟨passed, total, testFailuresOf parsed⟩
  | _ =>
    match parsed.get (units "passed"), parsed.get (units "total") with
    | some (.number passed), some (.number total) => some ⟨passed, total, none⟩
    | _, _ => none

/-- One turn of the loop; `none` goes on to the next line. -/
def readLine (line : Text) : Option TestCounts :=
  let trimmed := trim line
  if trimmed.head? = some 0x7B then (Json.parse trimmed).bind countsOf else none

def parseTestOutput (stdout : Text) : TestCounts :=
  ((lines stdout).findSome? readLine).getD .unknown

/-- The parser takes its counts from a line of this kind. -/
def Accepted (line : Text) : Prop := (readLine line).isSome

instance (line : Text) : Decidable (Accepted line) := inferInstanceAs (Decidable (_ = true))

/-- An object with numeric counts under the keys of one of the two reporters. -/
def ReporterShaped (parsed : Json) : Prop :=
  (∃ n, parsed.get (units "numPassedTests") = some (.number n) ∧ (totalTestsOf parsed n).isSome) ∨
    (∀ n, parsed.get (units "numPassedTests") ≠ some (.number n)) ∧
      ∃ p t, parsed.get (units "passed") = some (.number p) ∧
        parsed.get (units "total") = some (.number t)

/-- A line that holds such an object and nothing else but white space around it. -/
def ReporterLine (line : Text) : Prop :=
  (trim line).head? = some 0x7B ∧ ∃ parsed, Json.parse (trim line) = some parsed ∧
    ReporterShaped parsed

/-- The number of the line that the counts are taken from. -/
def acceptedLine (stdout : Text) : Option ℕ := (lines stdout).findIdx? (Accepted ·)

variable {stdout : Text} {before after : List Text} {line : Text} {c : TestCounts}

theorem countsOf_isSome_iff (parsed : Json) : (countsOf parsed).isSome ↔ ReporterShaped parsed := by
  unfold countsOf ReporterShaped
  split
  · rename_i n hn
    simp [hn]
  · rename_i hjest
    rw [or_iff_right fun ⟨n, hn, _⟩ => hjest n hn, and_iff_right hjest]
    split
    · rename_i p t hp ht
      simp [hp, ht]
    · rename_i hvitest
      simp only [Option.isSome_none, Bool.false_eq_true, false_iff]
      rintro ⟨p, t, hp, ht⟩
      exact hvitest p t hp ht

theorem accepted_iff (line : Text) : Accepted line ↔ ReporterLine line := by
  unfold Accepted readLine ReporterLine
  dsimp only
  split_ifs with h
  · cases Json.parse (trim line) <;> simp [h, countsOf_isSome_iff]
  · simp [h]

theorem parseTestOutput_of_split (h : lines stdout = before ++ line :: after)
    (hb : ∀ l ∈ before, ¬ Accepted l) (hc : readLine line = some c) :
    parseTestOutput stdout = c := by
  have hnone : before.findSome? readLine = none :=
    List.findSome?_eq_none_iff.2 fun l hl => by simpa [Accepted] using hb l hl
  simp [parseTestOutput, h, List.findSome?_append, hnone, hc]

theorem parseTestOutput_of_none (h : ∀ l ∈ lines stdout, ¬ Accepted l) :
    parseTestOutput stdout = .unknown := by
  have hnone : (lines stdout).findSome? readLine = none :=
    List.findSome?_eq_none_iff.2 fun l hl => by simpa [Accepted] using h l hl
  rw [parseTestOutput, hnone]
  rfl

theorem acceptedLine_eq_none : acceptedLine stdout = none ↔ ∀ l ∈ lines stdout, ¬ Accepted l := by
  simp [acceptedLine, List.findIdx?_eq_none_iff]

theorem acceptedLine_of_split (h : lines stdout = before ++ line :: after)
    (hb : ∀ l ∈ before, ¬ Accepted l) (hl : Accepted line) :
    acceptedLine stdout = some before.length := by
  have hnone : before.findIdx? (Accepted ·) = none := by
    simpa [List.findIdx?_eq_none_iff] using hb
  simp [acceptedLine, h, List.findIdx?_append, hnone, hl, List.findIdx?_cons]

theorem acceptedLine_ne_of_split (h : lines stdout = before ++ line :: after)
    (hb : ∀ l ∈ before, ¬ Accepted l) (hl : ¬ Accepted line) :
    acceptedLine stdout ≠ some before.length := by
  have hnone : before.findIdx? (Accepted ·) = none := by
    simpa [List.findIdx?_eq_none_iff] using hb
  rw [acceptedLine, h, List.findIdx?_append, hnone, List.findIdx?_cons]
  cases after.findIdx? (Accepted ·) <;> simp [hl]

theorem exists_acceptedLine_of_mem (h : lines stdout = before ++ after)
    (hl : ∃ l ∈ before, Accepted l) : ∃ n < before.length, acceptedLine stdout = some n := by
  obtain ⟨l, hmem, hl⟩ := hl
  obtain ⟨n, hn⟩ : ∃ n, before.findIdx? (Accepted ·) = some n := by
    rw [← Option.isSome_iff_exists, List.findIdx?_isSome]
    exact List.any_eq_true.2 ⟨l, hmem, by simpa using hl⟩
  refine ⟨n, (List.findIdx?_eq_some_iff_getElem.1 hn).1, ?_⟩
  simp [acceptedLine, h, List.findIdx?_append, hn]

end AssureCode.Sandbox
