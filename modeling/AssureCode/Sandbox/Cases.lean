import AssureCode.Sandbox.Expect
import AssureCode.Sandbox.Harness

/-! # Which assertions a passing case vouches for

`main` counts a case as passed when its hooks and its body come to an end without an exception. A
promise that nobody awaits is not seen by then: a matcher that fails only by rejecting fails no
case unless its call is awaited.
-/

namespace AssureCode.Sandbox

open Js

/-- An error of this message; the report shows it as it is. -/
def Thrown.error (message : Text) : Thrown := ⟨message, some ⟨.string message, trivial⟩⟩

instance : Raises Thrown := ⟨Thrown.error⟩

/-- A matcher call, with the objects as they are when it is made. -/
structure Call where
  realm : Realm Thrown
  actual : Value
  form : Form
  awaited : Bool
  jestStyle : form.isResolves → awaited

inductive Statement
  | call (k : Call)
  /-- Other code that throws. -/
  | raise (e : Thrown)
  /-- Other code that does not end in time. -/
  | hang

abbrev Body := List Statement

/-- An entry of `cases`, with the hooks around its function. -/
structure TestCase where
  name : Text
  beforeEach : List Body
  fn : Option Body
  afterEach : List Body
  skip : Bool

namespace Call

def result (k : Call) : Result Thrown := k.form.result k.realm k.actual

/-- The assertion of the call holds. -/
def Holds (k : Call) : Prop := k.form.Holds k.realm k.actual

end Call

/-- The error of `withTimeout`. -/
def timedOut (ms : ℕ) (label : Text) : Thrown :=
  .error (units "timed out after " ++ units (toString ms) ++ units "ms: " ++ label)

namespace Statement

def call? : Statement → Option Call
  | call k => some k
  | _ => none

def run (ms : ℕ) (label : Text) : Statement → Except Thrown Unit
  | call k =>
    match k.result with
    | .returned => .ok ()
    | .threw e => .error e
    | .promise p =>
      if k.awaited then
        match p with
        | .fulfilled () => .ok ()
        | .rejected e => .error e
        | .pending => .error (timedOut ms label)
      else .ok ()
  | raise e => .error e
  | hang => .error (timedOut ms label)

end Statement

/-- Statements one after the other, each with the label of its `withTimeout`. -/
def execute (ms : ℕ) : List (Text × Statement) → Except Thrown Unit
  | [] => .ok ()
  | (label, x) :: xs =>
    match x.run ms label with
    | .ok () => execute ms xs
    | .error e => .error e

/-- The matcher calls among the statements that are reached. -/
def executedCalls (ms : ℕ) : List (Text × Statement) → List Call
  | [] => []
  | (label, x) :: xs =>
    x.call?.toList ++
      match x.run ms label with
      | .ok () => executedCalls ms xs
      | .error _ => []

namespace TestCase

variable (c : TestCase) (ms : ℕ)

def label (l : Text) (body : Body) : List (Text × Statement) := body.map (l, ·)

/-- The statements of the hooks and of the function, in the order of `main`. -/
def statements (body : Body) : List (Text × Statement) :=
  c.beforeEach.flatMap (label (units "beforeEach")) ++ label c.name body ++
    c.afterEach.flatMap (label (units "afterEach"))

/-- What runs of the case; nothing of one that is skipped or has no function. -/
def reached : List (Text × Statement) :=
  match c.skip, c.fn with
  | false, some body => c.statements body
  | _, _ => []

def outcome : Outcome :=
  match c.skip, c.fn with
  | false, some body =>
    match execute ms (c.statements body) with
    | .ok () => .passed
    | .error e => .failed e
  | _, _ => .skipped

def executed : List Call := executedCalls ms c.reached

end TestCase

/-- A bundle that loads. -/
structure TestBundle where
  caseTimeoutMs : ℕ := 5000
  /-- The messages of the `beforeAll` hooks that failed. -/
  beforeAll : List Text := []
  cases : List TestCase
  few : cases.length < 2 ^ 32

namespace TestBundle

/-- `main`, with the outcome of every case. -/
def bundle (b : TestBundle) : Bundle :=
  .loaded b.beforeAll (b.cases.map fun c => ⟨c.name, c.outcome b.caseTimeoutMs⟩)
    (by rw [List.length_map]; exact b.few)

end TestBundle

/-! ## What passing means -/

/-- A passed case has executed no assertion that fails, and neither has any case of a bundle
whose report counts as many passed tests as tests. -/
def TestBundle.Vouches (b : TestBundle) : Prop :=
  (∀ c ∈ b.cases, c.outcome b.caseTimeoutMs = .passed →
      ∀ k ∈ c.executed b.caseTimeoutMs, k.Holds) ∧
    ∀ n ∈ countsOf b.bundle.report, n.passedTests = n.totalTests →
      ∀ c ∈ b.cases, ∀ k ∈ c.executed b.caseTimeoutMs, k.Holds

/-- A failure would be seen: the promise of an async matcher is awaited unless the assertion
holds, and a comparison under `.resolves` is right about the value that it is not made with. -/
def Call.Watched (k : Call) : Prop :=
  match k.form with
  | .direct (.matcher _) => True
  | .direct .toThrow | .not _ => k.awaited ∨ k.Holds
  | .resolves expected => deepEqual k.realm k.actual expected = .ok true → k.Holds

/-- Something in the case throws, or every call is watched. -/
def TestCase.Watched (c : TestCase) (ms : ℕ) : Prop :=
  (∃ x ∈ c.reached, ∃ e, x.2.run ms x.1 = .error e) ∨
    ∀ x ∈ c.reached, ∀ k ∈ x.2.call?, k.Watched

variable {k : Call} {c : TestCase} {b : TestBundle} {ms : ℕ} {label : Text}
  {xs : List (Text × Statement)}

/-! ## One call -/

theorem await_of_run (h : (Statement.call k).run ms label = .ok ())
    (hk : k.awaited ∨ ∀ p, k.result ≠ .promise p) : k.result.await = .fulfilled () := by
  rw [Statement.run] at h
  cases hr : k.result with
  | returned => rfl
  | threw e => simp [hr] at h
  | promise p =>
    have hawaited : k.awaited := hk.resolve_right fun hp => hp p hr
    cases p <;> simp_all [Result.await]

/-- A call that does not fail its case is watched exactly when its assertion holds. -/
theorem watched_iff_holds (h : (Statement.call k).run ms label = .ok ()) :
    k.Watched ↔ k.Holds := by
  obtain ⟨realm, actual, form, awaited, jestStyle⟩ := k
  have hawait := await_of_run h
  cases form with
  | direct a =>
    cases a with
    | matcher m =>
      have happly : ((Assertion.matcher m).apply realm actual).await = .fulfilled () := by
        refine hawait (.inr fun p hp => ?_)
        simp only [Call.result, Form.result, Assertion.apply] at hp
        split at hp <;> cases hp
      exact ⟨fun _ => apply_eq_fulfilled.mp happly, fun _ => trivial⟩
    | toThrow =>
      refine ⟨fun hwatched => ?_, .inr⟩
      rcases hwatched with hawaited | hholds
      · have happly : (Assertion.toThrow.apply realm actual).await = .fulfilled () :=
          hawait (.inl hawaited)
        exact apply_eq_fulfilled.mp happly
      · exact hholds
  | not a =>
    refine ⟨fun hwatched => ?_, .inr⟩
    rcases hwatched with hawaited | hholds
    · exact not_holds (hawait (.inl hawaited))
    · exact hholds
  | resolves expected =>
    have hequal : deepEqual realm actual expected = .ok true :=
      resolvesToEqual_eq_fulfilled.mp (hawait (.inl (jestStyle rfl)))
    exact ⟨fun hwatched => hwatched hequal, fun hholds _ => hholds⟩

/-! ## One case -/

theorem execute_eq_ok : execute ms xs = .ok () ↔ ∀ x ∈ xs, x.2.run ms x.1 = .ok () := by
  induction xs with
  | nil => simp [execute]
  | cons x xs ih =>
    obtain ⟨label, x⟩ := x
    rw [List.forall_mem_cons, ← ih, execute]
    cases x.run ms label <;> simp

theorem executedCalls_of_ok (h : execute ms xs = .ok ()) :
    executedCalls ms xs = xs.filterMap (·.2.call?) := by
  induction xs with
  | nil => rfl
  | cons x xs ih =>
    obtain ⟨label, x⟩ := x
    rw [execute] at h
    cases hx : x.run ms label with
    | error e => simp [hx] at h
    | ok =>
      simp only [hx] at h
      rw [executedCalls, hx, List.filterMap_cons]
      dsimp only
      rw [ih h]
      cases x.call? <;> rfl

theorem outcome_passed_iff : c.outcome ms = .passed ↔
    c.skip = false ∧ c.fn.isSome ∧ execute ms c.reached = .ok () := by
  unfold TestCase.outcome TestCase.reached
  cases c.skip <;> cases c.fn <;> simp
  cases execute ms (c.statements _) <;> simp

theorem call?_eq_some {x : Statement} (h : x.call? = some k) : x = .call k := by
  cases x <;> cases h
  rfl

/-- A case vouches for its assertions exactly when it is watched. -/
theorem vouches_case_iff : (c.outcome ms = .passed → ∀ k ∈ c.executed ms, k.Holds) ↔
    c.Watched ms := by
  constructor
  · intro h
    by_cases hrun : execute ms c.reached = .ok ()
    · right
      intro x hx k hk
      have hreached : c.skip = false ∧ c.fn.isSome := by
        unfold TestCase.reached at hx
        split at hx
        · next hskip hfn => exact ⟨hskip, by rw [hfn]; rfl⟩
        · cases hx
      have hpassed : c.outcome ms = .passed :=
        outcome_passed_iff.mpr ⟨hreached.1, hreached.2, hrun⟩
      have hmem : k ∈ c.executed ms := by
        rw [TestCase.executed, executedCalls_of_ok hrun]
        exact List.mem_filterMap.mpr ⟨x, hx, hk⟩
      have hok := execute_eq_ok.mp hrun x hx
      rw [call?_eq_some hk] at hok
      exact (watched_iff_holds hok).mpr (h hpassed k hmem)
    · left
      rw [execute_eq_ok] at hrun
      push Not at hrun
      obtain ⟨x, hx, hne⟩ := hrun
      refine ⟨x, hx, ?_⟩
      cases hr : x.2.run ms x.1 with
      | ok => exact absurd hr hne
      | error e => exact ⟨e, rfl⟩
  · intro hwatched hpassed k hk
    obtain ⟨-, -, hrun⟩ := outcome_passed_iff.mp hpassed
    rw [TestCase.executed, executedCalls_of_ok hrun] at hk
    obtain ⟨x, hx, hcall⟩ := List.mem_filterMap.mp hk
    have hok := execute_eq_ok.mp hrun x hx
    rcases hwatched with ⟨x', hx', e, he⟩ | hwatched
    · cases (execute_eq_ok.mp hrun x' hx').symm.trans he
    · have hk := hwatched x hx k hcall
      rw [call?_eq_some hcall] at hok
      exact (watched_iff_holds hok).mp hk

/-! ## The report -/

def Outcome.isFailed : Outcome → Bool
  | failed _ => true
  | _ => false

theorem failed_foldl (cases : List Case) (t : Tally) :
    (cases.foldl runCase t).failed = t.failed + cases.countP (·.outcome.isFailed) := by
  induction cases generalizing t with
  | nil => rfl
  | cons c cases ih =>
    rw [List.foldl_cons, ih, List.countP_cons]
    unfold runCase
    cases c.outcome <;> simp only [Outcome.isFailed] <;> grind

theorem executed_of_skipped (h : c.outcome ms = .skipped) : c.executed ms = [] := by
  have hreached : c.reached = [] := by
    unfold TestCase.outcome at h
    unfold TestCase.reached
    split at h
    · split at h <;> cases h
    · rfl
  rw [TestCase.executed, hreached, executedCalls]

/-- The counts agree only when no case has failed. -/
theorem isFailed_of_counts {n : TestCounts} (hn : n ∈ countsOf b.bundle.report)
    (heq : n.passedTests = n.totalTests) (hc : c ∈ b.cases) :
    (c.outcome b.caseTimeoutMs).isFailed = false := by
  have hlt := b.bundle.tally_cases_lt
  have hreport : countsOf b.bundle.report = some ⟨.ofRat b.bundle.tally.passed,
      .ofRat (b.bundle.tally.passed + b.bundle.tally.failed : ℕ), testFailuresOf _⟩ :=
    countsOf_report b.bundle.tally
  obtain rfl := Option.some.inj (hreport.symm.trans hn)
  unfold Tally.cases at hlt
  rw [Number.ofRat_natCast (by omega), Number.ofRat_natCast (by omega)] at heq
  have hcount : b.bundle.tally.passed = b.bundle.tally.passed + b.bundle.tally.failed := by
    simpa using heq
  have hfailed : b.bundle.tally.failed =
      0 + (b.cases.map fun c => (⟨c.name, c.outcome b.caseTimeoutMs⟩ : Case)).countP
        (·.outcome.isFailed) := failed_foldl _ Tally.empty
  have hzero := hfailed.symm.trans (Nat.left_eq_add.mp hcount)
  rw [Nat.zero_add] at hzero
  have hnone := List.countP_eq_zero.mp hzero _ (List.mem_map_of_mem hc)
  simpa using hnone

theorem vouches_iff (b : TestBundle) : b.Vouches ↔ ∀ c ∈ b.cases, c.Watched b.caseTimeoutMs := by
  constructor
  · intro h c hc
    exact vouches_case_iff.mp (h.1 c hc)
  · intro h
    have hpassed : ∀ c ∈ b.cases, c.outcome b.caseTimeoutMs = .passed →
        ∀ k ∈ c.executed b.caseTimeoutMs, k.Holds :=
      fun c hc => vouches_case_iff.mpr (h c hc)
    refine ⟨hpassed, fun n hn heq c hc k hk => ?_⟩
    cases hout : c.outcome b.caseTimeoutMs with
    | passed => exact hpassed c hc hout k hk
    | skipped => rw [executed_of_skipped hout] at hk; cases hk
    | failed e =>
      have hfailed := isFailed_of_counts hn heq hc
      rw [hout] at hfailed
      cases hfailed

/-! ## A failure that nobody sees -/

/-- `it('one', () => { expect(1).not.toBe(1); })` -/
def expectOneNotOne : Call where
  realm := {}
  actual := .nat 1
  form := .not (.matcher (.toBe (.nat 1)))
  awaited := false
  jestStyle := nofun

def notAwaited : TestBundle where
  cases := [⟨units "one", [], some [.call expectOneNotOne], [], false⟩]
  few := by decide

/-- The only assertion of the bundle fails, and its only case passes. -/
theorem failing_case_passes : ¬ ∀ b : TestBundle, b.Vouches := by
  intro hall
  have hmem : expectOneNotOne ∈ (⟨units "one", [], some [.call expectOneNotOne], [], false⟩ :
      TestCase).executed 5000 := List.mem_singleton_self _
  have hholds : expectOneNotOne.Holds :=
    (hall notAwaited).1 _ (List.mem_singleton_self _) rfl expectOneNotOne hmem
  have hequal : (Matcher.toBe (.nat 1)).condition expectOneNotOne.realm (.nat 1) = .ok true := by
    rw [Matcher.condition, decide_eq_true rfl]
  exact hholds hequal

end AssureCode.Sandbox
