import Mathlib.Data.List.Nodup
import AssureCode.Security.Static

/-! # What the static scan reports

A rule is tried on each line, and once on the whole source. Of the matches over the whole source
only the first one counts, so that a construct over several lines is seen once.
-/

namespace AssureCode.Security

open Js

/-- There is a finding of this type on this line. -/
def Reports (found : List Vulnerability) (type : Text) (line : ℕ) : Prop :=
  ∃ v ∈ found, v.type = type ∧ v.line = line

/-- The number of the line of a position, counted from 0. -/
def lineAt (code : Text) (i : ℕ) : ℕ := (code.take i).count newline

/-- A match of the rule starts at a position of a line. -/
def RuleSpec.MatchesLine (spec : RuleSpec) (e : Engine) (line : Text) : Prop :=
  ∃ i ≤ line.length, e.matchesAt spec.pattern { ignoreCase := spec.caseInsensitive } line i

/-- A match of the rule over the whole source starts at this position. -/
def RuleSpec.MatchesSource (spec : RuleSpec) (e : Engine) (code : Text) (i : ℕ) : Prop :=
  i ≤ code.length ∧
    e.matchesAt spec.pattern { ignoreCase := spec.caseInsensitive, dotAll := true } code i

instance (spec : RuleSpec) (e : Engine) (code : Text) (i : ℕ) :
    Decidable (spec.MatchesSource e code i) := inferInstanceAs (Decidable (_ ∧ _))

/-- The scan is complete for its rules, and reports nothing twice. -/
structure Complete (e : Engine) (code : Text) (found : List Vulnerability) : Prop where
  within : ∀ spec ∈ rules, ∀ n line, (lines code)[n]? = some line → spec.MatchesLine e line →
    Reports found spec.type (n + 1)
  across : ∀ spec ∈ rules, ∀ i, spec.MatchesSource e code i →
    Reports found spec.type (lineAt code i + 1)
  once : found.Pairwise fun v w => ¬ (v.type = w.type ∧ v.line = w.line)

/--
Every match over the whole source starts on the line of the first one of its rule, or on a line
that the rule matches within.
-/
def NoneBehind (e : Engine) (code : Text) : Prop :=
  ∀ spec ∈ rules, ∀ i, spec.MatchesSource e code i →
    (∃ j, e.search spec.pattern { ignoreCase := spec.caseInsensitive, dotAll := true } code =
      some j ∧ lineAt code j = lineAt code i) ∨
    ∃ line, (lines code)[lineAt code i]? = some line ∧ spec.MatchesLine e line

theorem length_lines (t : Text) : (lines t).length = t.count newline + 1 := by
  unfold lines
  induction t with
  | nil => simp
  | cons u t ih =>
    rw [List.splitOn_cons_eq_if_modifyHead, List.count_cons]
    split <;> simp [*]

/-! ## What is recorded -/

section Recording

variable {κ : Type} {key : Text → ℕ → κ} {found : Findings κ} {spec : RuleSpec} {line : ℕ}

/-- The keys are those of the findings, each once. -/
structure Keyed (key : Text → ℕ → κ) (found : Findings κ) : Prop where
  keys : found.2 = (found.1.map fun v => key v.type v.line).reverse
  nodup : found.2.Nodup

/-- A step adds findings of these types on these lines, and no others. -/
def Records (key : Text → ℕ → κ) (step : Findings κ → Findings κ) (P : Text → ℕ → Prop) : Prop :=
  ∀ found, Keyed key found → Keyed key (step found) ∧
    ∀ type line, Reports (step found).1 type line ↔ Reports found.1 type line ∨ P type line

theorem Records.congr {step : Findings κ → Findings κ} {P Q : Text → ℕ → Prop}
    (h : Records key step P) (hPQ : ∀ type line, P type line ↔ Q type line) :
    Records key step Q := by
  rintro found hfound
  obtain ⟨hkeyed, hreports⟩ := h found hfound
  constructor
  · exact hkeyed
  · intro type line
    rw [hreports, hPQ]

theorem Records.comp {first second : Findings κ → Findings κ} {P Q : Text → ℕ → Prop}
    (hfirst : Records key first P) (hsecond : Records key second Q) :
    Records key (fun found => second (first found)) fun type line => P type line ∨ Q type line := by
  rintro found hfound
  obtain ⟨hkeyed, hreports⟩ := hfirst found hfound
  obtain ⟨hkeyed', hreports'⟩ := hsecond _ hkeyed
  constructor
  · exact hkeyed'
  · intro type line
    rw [hreports', hreports, or_assoc]

theorem records_id : Records key (fun found => found) fun _ _ => False := by
  rintro found hfound
  simp [hfound]

/-- What each step of a loop adds, the loop adds. -/
theorem records_foldl {β : Type} {step : Findings κ → β → Findings κ} {P : β → Text → ℕ → Prop}
    (h : ∀ b, Records key (step · b) (P b)) (bs : List β) :
    Records key (bs.foldl step ·) fun type line => ∃ b ∈ bs, P b type line := by
  induction bs with
  | nil => exact records_id.congr (by simp)
  | cons b bs ih => exact ((h b).comp ih).congr (by simp)

variable [DecidableEq κ] {e : Engine} {lineOf : Text → ℕ} {code : Text}

theorem records_record (hkey : ∀ s n t m, key s n = key t m → s = t ∧ n = m) :
    Records key (record key · spec line) fun type n => spec.type = type ∧ line = n := by
  rintro ⟨found, keys⟩ ⟨hkeys, hnodup⟩
  simp only at hkeys hnodup
  simp only [record]
  split
  · rename_i hnew
    constructor
    · constructor
      · simp [hkeys, RuleSpec.at]
      · rw [List.nodup_cons]
        exact ⟨fun hmem => hnew _ hmem rfl, hnodup⟩
    · simp [Reports, RuleSpec.at, or_and_right, exists_or]
  · rename_i hold
    constructor
    · exact ⟨hkeys, hnodup⟩
    · rintro type n
      constructor
      · exact .inl
      · rintro (h | ⟨rfl, rfl⟩)
        · exact h
        · simp only [hkeys, List.mem_reverse, List.mem_map, not_forall, not_not] at hold
          obtain ⟨k, ⟨v, hv, rfl⟩, hk⟩ := hold
          exact ⟨v, hv, hkey _ _ _ _ hk⟩

theorem records_scanLine (hkey : ∀ s n t m, key s n = key t m → s = t ∧ n = m) (p : Text × ℕ) :
    Records key (scanLine e key spec · p) fun type n =>
      spec.type = type ∧ spec.MatchesLine e p.1 ∧ p.2 + 1 = n := by
  have htest : e.test spec.pattern { ignoreCase := spec.caseInsensitive } p.1 = true ↔
      spec.MatchesLine e p.1 := by
    simp [Engine.test, Engine.search, RuleSpec.MatchesLine, Nat.lt_succ_iff]
  unfold scanLine
  by_cases h : spec.MatchesLine e p.1
  · simp only [htest.mpr h, if_true]
    exact (records_record hkey).congr (by simp [h])
  · simp only [mt htest.mp h]
    exact records_id.congr (by simp [h])

/-- A rule is recorded for the lines it matches within, and for the line of its first match. -/
theorem records_scanRule (hkey : ∀ s n t m, key s n = key t m → s = t ∧ n = m) :
    Records key (scanRule e key lineOf code · spec) fun type n => spec.type = type ∧
      ((∃ line m, (lines code)[m]? = some line ∧ spec.MatchesLine e line ∧ m + 1 = n) ∨
        ∃ i, e.search spec.pattern { ignoreCase := spec.caseInsensitive, dotAll := true } code =
          some i ∧ lineOf (code.take i) = n) := by
  have hlines : Records key ((lines code).zipIdx.foldl (scanLine e key spec) ·) _ :=
    records_foldl (records_scanLine hkey) _
  unfold scanRule
  split
  · rename_i index hindex
    apply (hlines.comp (records_record hkey)).congr
    rintro type n
    simp only [Prod.exists, List.mk_mem_zipIdx_iff_getElem?, hindex]
    constructor
    · rintro (⟨line, m, hline, htype, hmatch⟩ | ⟨htype, hn⟩)
      · exact ⟨htype, .inl ⟨line, m, hline, hmatch⟩⟩
      · exact ⟨htype, .inr ⟨index, rfl, hn⟩⟩
    · rintro ⟨htype, ⟨line, m, hline, hmatch⟩ | ⟨i, ⟨⟩, hn⟩⟩
      · exact .inl ⟨line, m, hline, htype, hmatch⟩
      · exact .inr ⟨htype, hn⟩
  · rename_i hnone
    apply hlines.congr
    rintro type n
    simp only [Prod.exists, List.mk_mem_zipIdx_iff_getElem?, hnone, reduceCtorEq, false_and,
      exists_false, or_false]
    constructor
    · rintro ⟨line, m, hline, htype, hmatch⟩
      exact ⟨htype, line, m, hline, hmatch⟩
    · rintro ⟨htype, line, m, hline, hmatch⟩
      exact ⟨line, m, hline, htype, hmatch⟩

end Recording

/-! ## The two scans -/

theorem types_nodup : (rules.map (·.type)).Nodup := by decide +kernel

section Scans

variable {κ : Type} [DecidableEq κ] {key : Text → ℕ → κ} {e : Engine} {lineOf : Text → ℕ}
  {code : Text} {found : List Vulnerability} {spec : RuleSpec} {n : ℕ}

omit [DecidableEq κ] in
theorem keyed_nil : Keyed key ([], []) := ⟨rfl, List.nodup_nil⟩

theorem records_scanRules (hkey : ∀ s n t m, key s n = key t m → s = t ∧ n = m) :
    Records key (rules.foldl (scanRule e key lineOf code) ·) fun type n =>
      ∃ spec ∈ rules, spec.type = type ∧
        ((∃ line m, (lines code)[m]? = some line ∧ spec.MatchesLine e line ∧ m + 1 = n) ∨
          ∃ i, e.search spec.pattern { ignoreCase := spec.caseInsensitive, dotAll := true } code =
            some i ∧ lineOf (code.take i) = n) :=
  records_foldl (fun _ => records_scanRule hkey) rules

theorem reports_scanRules_iff (hkey : ∀ s n t m, key s n = key t m → s = t ∧ n = m)
    (hline : ∀ t, lineOf t = t.count newline + 1) (hspec : spec ∈ rules) :
    Reports (scanRules e key lineOf code) spec.type (n + 1) ↔
      (∃ line, (lines code)[n]? = some line ∧ spec.MatchesLine e line) ∨
        ∃ i, e.search spec.pattern { ignoreCase := spec.caseInsensitive, dotAll := true } code =
          some i ∧ lineAt code i = n := by
  rw [scanRules, (records_scanRules hkey _ keyed_nil).2]
  constructor
  · rintro (⟨v, ⟨⟩, -⟩ | ⟨spec', hspec', htype, hmatch⟩)
    cases List.inj_on_of_nodup_map types_nodup hspec' hspec htype
    rcases hmatch with ⟨line, m, hget, hmatch, hm⟩ | ⟨i, hi, hn⟩
    · cases hm
      exact .inl ⟨line, hget, hmatch⟩
    · rw [hline, Nat.add_right_cancel_iff] at hn
      exact .inr ⟨i, hi, hn⟩
  · rintro (⟨line, hget, hmatch⟩ | ⟨i, hi, hn⟩)
    · exact .inr ⟨spec, hspec, rfl, .inl ⟨line, n, hget, hmatch, rfl⟩⟩
    · refine .inr ⟨spec, hspec, rfl, .inr ⟨i, hi, ?_⟩⟩
      rw [hline]
      exact congrArg (· + 1) hn

theorem once_scanRules (hkey : ∀ s n t m, key s n = key t m → s = t ∧ n = m) :
    (scanRules e key lineOf code).Pairwise fun v w => ¬ (v.type = w.type ∧ v.line = w.line) := by
  obtain ⟨hkeys, hnodup⟩ : Keyed key (rules.foldl (scanRule e key lineOf code) ([], [])) :=
    (records_scanRules hkey _ keyed_nil).1
  rw [hkeys, List.nodup_reverse, List.Nodup, List.pairwise_map] at hnodup
  apply hnodup.imp
  rintro v w hne ⟨htype, hline⟩
  exact hne (by rw [htype, hline])

/-- In any order, the findings are complete exactly when no match is behind the first one. -/
theorem complete_iff_of_perm (hkey : ∀ s n t m, key s n = key t m → s = t ∧ n = m)
    (hline : ∀ t, lineOf t = t.count newline + 1)
    (hperm : found.Perm (scanRules e key lineOf code)) :
    Complete e code found ↔ NoneBehind e code := by
  have hreports : ∀ type n,
      Reports found type n ↔ Reports (scanRules e key lineOf code) type n := by
    simp only [Reports, hperm.mem_iff, implies_true]
  constructor
  · rintro ⟨-, hacross, -⟩ spec hspec i hi
    have h := hacross spec hspec i hi
    rw [hreports, reports_scanRules_iff hkey hline hspec] at h
    exact h.symm
  · intro hnone
    constructor
    · rintro spec hspec n line hget hmatch
      rw [hreports, reports_scanRules_iff hkey hline hspec]
      exact .inl ⟨line, hget, hmatch⟩
    · rintro spec hspec i hi
      rw [hreports, reports_scanRules_iff hkey hline hspec]
      exact (hnone spec hspec i hi).symm
    · apply (hperm.pairwise_iff _).mpr (once_scanRules hkey)
      rintro v w h ⟨htype, hline⟩
      exact h ⟨htype.symm, hline.symm⟩

end Scans

/-- Each of the two scans is complete exactly when no match is behind the first one of its rule. -/
theorem scans_complete_iff (js : JsRuntime) (e : Engine) (code : Text) :
    (Complete js.engine code (performStaticScan js code) ↔ NoneBehind js.engine code) ∧
      (Complete e code (scan e code) ↔ NoneBehind e code) := by
  constructor
  · exact complete_iff_of_perm (fun _ _ _ _ => findingKey_inj) length_lines
      (List.mergeSort_perm _ _)
  · exact complete_iff_of_perm (fun _ _ _ _ => Prod.mk.inj) (fun _ => rfl)
      (List.mergeSort_perm _ _)

/-! ## Two blocks -/

/-- Two catch blocks that discard what they catch, each over two lines. -/
def twoBlocks : Text := units "catch (e) \x7b\n\x7d\ncatch (e) \x7b\n\x7d"

def swallowPattern : String :=
  "catch\\s*\\([^)]*\\)\\s*\\\x7b\\s*\\\x7d|catch\\s*\\\x7b\\s*\\\x7d|" ++
    "except[^:]*:\\s*pass\\b"

/-- An engine that knows the matches of the rules in the source above: both are of one rule. -/
def blocksOnly : Engine where
  matchesAt pattern _ t i := pattern = swallowPattern && t = twoBlocks && (i = 0 || i = 14)

def blocksOnlyJs : JsRuntime where
  engine := blocksOnly
  localeCompare _ _ := 0

/-- The second block is reported by neither scan. -/
theorem second_block_missed :
    ¬ Complete blocksOnly twoBlocks (performStaticScan blocksOnlyJs twoBlocks) ∧
      ¬ Complete blocksOnly twoBlocks (scan blocksOnly twoBlocks) := by
  have hone : ∀ found : List Vulnerability, (∀ v ∈ found, v.line = 1) →
      ¬ Complete blocksOnly twoBlocks found := by
    rintro found hfound ⟨-, hacross, -⟩
    have hmatch : ∃ spec ∈ rules, spec.MatchesSource blocksOnly twoBlocks 14 := by
      decide +kernel
    obtain ⟨spec, hspec, hmatch⟩ := hmatch
    obtain ⟨v, hv, -, hline⟩ := hacross spec hspec 14 hmatch
    rw [hfound v hv] at hline
    revert hline
    decide +kernel
  constructor
  · apply hone
    have hall : ∀ v ∈
        scanRules blocksOnly findingKey (fun before => (lines before).length) twoBlocks,
        v.line = 1 := by decide +kernel
    rintro v hv
    exact hall v (List.mem_mergeSort.mp hv)
  · apply hone
    have hall : ∀ v ∈
        scanRules blocksOnly Prod.mk (fun before => before.count newline + 1) twoBlocks,
        v.line = 1 := by decide +kernel
    rintro v hv
    exact hall v (List.mem_mergeSort.mp hv)

end AssureCode.Security
