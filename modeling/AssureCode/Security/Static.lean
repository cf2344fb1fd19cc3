import Mathlib.Data.List.Lex
import AssureCode.Js.Numeral
import AssureCode.Security.Rules

/-! # The static scan

Layer 1 as both services run it. A regular expression engine is taken for what it makes of a
pattern: the positions of a text at which a match of it starts.
-/

namespace AssureCode.Security

open Js

structure Flags where
  ignoreCase : Bool := false
  multiline : Bool := false
  dotAll : Bool := false
  deriving DecidableEq, Repr

structure Engine where
  matchesAt : String → Flags → Text → ℕ → Bool

/-- Where the leftmost match starts. -/
def Engine.search (e : Engine) (pattern : String) (flags : Flags) (t : Text) : Option ℕ :=
  (List.range (t.length + 1)).find? fun i => e.matchesAt pattern flags t i

def Engine.test (e : Engine) (pattern : String) (flags : Flags) (t : Text) : Bool :=
  (e.search pattern flags t).isSome

inductive ScanLayer | static | llm
  deriving DecidableEq, Repr

structure Vulnerability where
  type : Text
  category : Text
  severity : Severity
  message : Text
  line : ℕ
  layer : ScanLayer
  deriving DecidableEq, Repr

/-- The finding of a rule on a line. -/
def RuleSpec.at (spec : RuleSpec) (line : ℕ) : Vulnerability where
  type := spec.type
  category := spec.category
  severity := spec.severity
  message := spec.message
  line := line
  layer := .static

section Scan

variable {κ : Type} [DecidableEq κ] (e : Engine) (key : Text → ℕ → κ) (lineOf : Text → ℕ)

/-- The findings so far, in order, and their keys. -/
abbrev Findings (κ : Type) : Type := List Vulnerability × List κ

def record (found : Findings κ) (spec : RuleSpec) (line : ℕ) : Findings κ :=
  if ∀ k ∈ found.2, k ≠ key spec.type line then
    (found.1 ++ [spec.at line], key spec.type line :: found.2)
  else found

def scanLine (spec : RuleSpec) (found : Findings κ) (p : Text × ℕ) : Findings κ :=
  if e.test spec.pattern { ignoreCase := spec.caseInsensitive } p.1 then
    record key found spec (p.2 + 1)
  else found

/-- The lines one after the other, and then the first match in the whole source. -/
def scanRule (code : Text) (found : Findings κ) (spec : RuleSpec) : Findings κ :=
  let perLine := (lines code).zipIdx.foldl (scanLine e key spec) found
  match e.search spec.pattern { ignoreCase := spec.caseInsensitive, dotAll := true } code with
  | some index => record key perLine spec (lineOf (code.take index))
  | none => perLine

def scanRules (code : Text) : List Vulnerability :=
  (rules.foldl (scanRule e key lineOf code) ([], [])).1

end Scan

/-- The JavaScript runtime of the scanner: its engine, and `String.prototype.localeCompare`. -/
structure JsRuntime where
  engine : Engine
  localeCompare : Text → Text → ℤ

/-- `${type}:${line}` -/
def findingKey (type : Text) (line : ℕ) : Text := type ++ 0x3A :: digitsOf line

/-- A key has one colon after the last of the type's. -/
theorem findingKey_inj {s t : Text} {n m : ℕ} (h : findingKey s n = findingKey t m) :
    s = t ∧ n = m := by
  have hdigits : ∀ (s : Text) (n : ℕ),
      (findingKey s n).reverse.takeWhile (· ≠ 0x3A) = (digitsOf n).reverse := by
    intro s n
    have hall : ∀ u ∈ (digitsOf n).reverse, decide (u ≠ 0x3A) = true := by
      intro u hu
      rw [decide_eq_true_iff]
      rintro rfl
      have := isDigit_of_mem_digitsOf (List.mem_reverse.mp hu)
      revert this
      decide
    rw [findingKey, List.reverse_append, List.reverse_cons, List.append_assoc,
      List.takeWhile_append_of_pos hall]
    simp
  have hn : digitsOf n = digitsOf m := by
    rw [← List.reverse_inj, ← hdigits s n, h, hdigits]
  constructor
  · rwa [findingKey, findingKey, hn, List.append_left_inj] at h
  · rw [← digitsValue_digitsOf n, hn, digitsValue_digitsOf]

/-- The scan of the CI worker. -/
def performStaticScan (js : JsRuntime) (code : Text) : List Vulnerability :=
  (scanRules js.engine findingKey (fun before => (lines before).length) code).mergeSort
    fun a b => a.line < b.line || a.line == b.line && js.localeCompare a.type b.type ≤ 0

/-- The scan of the AI service. -/
def scan (e : Engine) (code : Text) : List Vulnerability :=
  (scanRules e Prod.mk (fun before => before.count newline + 1) code).mergeSort
    fun a b => a.line < b.line || a.line == b.line && a.type ≤ b.type

def countOf (severity : Severity) (found : List Vulnerability) : ℕ :=
  found.countP (·.severity = severity)

/-- The published formula; a critical finding counts twice, as it is one of the total. -/
def computeSecurityScore (found : List Vulnerability) : ℤ :=
  max 0 (100 - countOf .critical found * 40 - countOf .high found * 20 - found.length * 5)

/-- No critical and no high finding. -/
def passes (found : List Vulnerability) : Bool :=
  countOf .critical found == 0 && countOf .high found == 0

structure SecurityScanResult where
  vulnerabilities : List Vulnerability
  passed : Bool
  score : ℤ
  layersRun : List ScanLayer
  llmError : Option Text := none

/-- Layer 1 only. -/
def performSecurityScan (js : JsRuntime) (code : Text) : SecurityScanResult where
  vulnerabilities := performStaticScan js code
  passed := passes (performStaticScan js code)
  score := computeSecurityScore (performStaticScan js code)
  layersRun := [.static]

section Findings

variable {κ : Type} [DecidableEq κ] {e : Engine} {key : Text → ℕ → κ} {lineOf : Text → ℕ}
  {found : Findings κ} {spec : RuleSpec} {code : Text} {line : ℕ} {v : Vulnerability}

theorem mem_record (h : v ∈ (record key found spec line).1) :
    v ∈ found.1 ∨ v = spec.at line := by
  unfold record at h
  split at h
  · simpa using h
  · exact .inl h

omit [DecidableEq κ] in
/-- What the steps of a loop add to the findings, the loop does. -/
theorem mem_foldl {β : Type} {step : Findings κ → β → Findings κ} {P : β → Prop}
    (hstep : ∀ found b, v ∈ (step found b).1 → v ∈ found.1 ∨ P b) (bs : List β)
    (found : Findings κ) (h : v ∈ (bs.foldl step found).1) : v ∈ found.1 ∨ ∃ b ∈ bs, P b := by
  induction bs generalizing found with
  | nil => exact .inl h
  | cons b bs ih =>
    rcases ih _ h with h | ⟨b', hb, hp⟩
    · rcases hstep found b h with h | hp
      · exact .inl h
      · exact .inr ⟨b, List.mem_cons_self, hp⟩
    · exact .inr ⟨b', List.mem_cons_of_mem _ hb, hp⟩

theorem mem_scanLine {p : Text × ℕ} (h : v ∈ (scanLine e key spec found p).1) :
    v ∈ found.1 ∨ ∃ line, v = spec.at line := by
  unfold scanLine at h
  split at h
  · rcases mem_record h with h | h
    · exact .inl h
    · exact .inr ⟨_, h⟩
  · exact .inl h

theorem mem_scanRule (h : v ∈ (scanRule e key lineOf code found spec).1) :
    v ∈ found.1 ∨ ∃ line, v = spec.at line := by
  have hlines : ∀ found : Findings κ,
      v ∈ ((lines code).zipIdx.foldl (scanLine e key spec) found).1 →
        v ∈ found.1 ∨ ∃ line, v = spec.at line := by
    intro found h
    rcases mem_foldl (P := fun _ => ∃ line, v = spec.at line) (fun _ _ => mem_scanLine) _ found h
      with h | ⟨-, -, h⟩
    · exact .inl h
    · exact .inr h
  simp only [scanRule] at h
  split at h
  · rcases mem_record h with h | h
    · exact hlines found h
    · exact .inr ⟨_, h⟩
  · exact hlines found h

/-- Every finding is the finding of a rule. -/
theorem mem_scanRules (h : v ∈ scanRules e key lineOf code) :
    ∃ spec ∈ rules, ∃ line, v = spec.at line := by
  have hrule : ∀ (found : Findings κ) spec, v ∈ (scanRule e key lineOf code found spec).1 →
      v ∈ found.1 ∨ ∃ line, v = spec.at line := fun _ _ => mem_scanRule
  have hscan := mem_foldl hrule rules ([], []) h
  rcases hscan with h | h
  · cases h
  · exact h

theorem mem_performStaticScan {js : JsRuntime} (h : v ∈ performStaticScan js code) :
    ∃ spec ∈ rules, ∃ line, v = spec.at line :=
  mem_scanRules (List.mem_mergeSort.mp h)

theorem countOf_pos {severity : Severity} {found : List Vulnerability} :
    0 < countOf severity found ↔ ∃ v ∈ found, v.severity = severity := by
  simp [countOf, List.countP_pos_iff]

theorem not_passes_of_high {found : List Vulnerability} (hv : v ∈ found)
    (h : v.severity = .high) : passes found = false := by
  have hpos : 0 < countOf .high found := countOf_pos.mpr ⟨v, hv, h⟩
  simp [passes, hpos.ne']

end Findings

end AssureCode.Security
