import AssureCode.Js.Value

/-! # The matchers of the harness

A matcher called directly throws at once when its condition fails, but `toThrow`, everything
reached through `.not` and everything under `.resolves` is an async function: it throws nothing,
and its failure is a promise that rejects.
-/

namespace AssureCode.Sandbox

open Js

variable {ε : Type} [Raises ε] (w : Realm ε) (actual : Value)

def render (value : Value) : Except ε Text :=
  let error? : Option (Text × Text) := match value with
    | .object i => (w.heap i).error
    | _ => none
  match value, error? with
  | .primitive (.string t), _ => .ok (quote t)
  | _, some (name, message) => .ok (name ++ units ": " ++ message)
  | value, none =>
    match w.stringify value with
    | .ok (some t) => .ok t
    | _ => w.text value

/-- Structural equality, with room for so many nested calls. -/
def deepEqualWithin : ℕ → Value → Value → Except ε Bool
  | 0, _, _ => .error (Raises.error (units "Maximum call stack size exceeded"))
  | n + 1, a, b =>
    if a = b then .ok true
    else if w.typeOf a ≠ w.typeOf b then .ok false
    else if a = .null ∨ b = .null then .ok false
    else if w.typeOf a ≠ "object" then .ok false
    else
      match a, b with
      | .object i, .object j => do
        if (← (w.heap i).isArray) ≠ (← (w.heap j).isArray) then return false
        let ak ← (w.heap i).keys
        let bk ← (w.heap j).keys
        if ak.length ≠ bk.length then return false
        ak.allM fun k => do
          if ← (w.heap j).hasOwn k then
            deepEqualWithin n (← (w.heap i).get k) (← (w.heap j).get k)
          else return false
      | _, _ => .ok false

def deepEqual : Value → Value → Except ε Bool := deepEqualWithin w w.stack

/-! ## Matchers -/

inductive Matcher
  | toBe (expected : Value)
  | toEqual (expected : Value)
  | toStrictEqual (expected : Value)
  | toBeTruthy
  | toBeFalsy
  | toBeNull
  | toBeUndefined
  | toBeDefined
  | toBeGreaterThan (n : Value)
  | toBeGreaterThanOrEqual (n : Value)
  | toBeLessThan (n : Value)
  | toBeLessThanOrEqual (n : Value)
  | toContain (needle : Value)
  | toHaveLength (n : Value)
  | toHaveProperty (key : Value)
  | toMatch (re : Value)

namespace Matcher

def contains (needle : Value) : Except ε Bool :=
  match actual with
  | .primitive (.string t) => do
    let regExp : Bool := match needle with
      | .object i => (w.heap i).test.isSome
      | _ => false
    if regExp then
      throw <| Raises.error <|
        units "First argument to String.prototype.includes must not be a regular expression"
    return (← w.toText needle) <:+: t
  | .primitive _ => .ok false
  | .object i => do
    if ← (w.heap i).isArray then
      (w.heap i).elements.anyM fun v => do deepEqual w (← v) needle
    else return false

def hasMatch (re : Value) : Except ε Bool := do
  let test : Option (Text → Except ε Bool) := match re with
    | .object i => (w.heap i).test
    | _ => none
  let t ← w.text actual
  match test with
  | some test => test t
  | none => return (← w.text re) <:+: t

/-- What the matcher asks of the actual value. -/
def condition : Matcher → Except ε Bool
  | toBe expected => .ok (actual = expected)
  | toEqual expected | toStrictEqual expected => deepEqual w actual expected
  | toBeTruthy => .ok (Realm.truthy actual)
  | toBeFalsy => .ok (!Realm.truthy actual)
  | toBeNull => .ok (actual = .null)
  | toBeUndefined => .ok (actual = .undefined)
  | toBeDefined => .ok (actual ≠ .undefined)
  | toBeGreaterThan n => w.greaterThan actual n
  | toBeGreaterThanOrEqual n => w.greaterThanOrEqual actual n
  | toBeLessThan n => w.lessThan actual n
  | toBeLessThanOrEqual n => w.lessThanOrEqual actual n
  | toContain needle => contains w actual needle
  | toHaveLength n =>
    if Realm.truthy actual then do return Realm.strictEquals (← w.length actual) n
    else .ok false
  | toHaveProperty key => if Realm.truthy actual then w.hasProperty key actual else .ok false
  | toMatch re => hasMatch w actual re

/-- `expected … …` around the renderings of two values. -/
def sentence (verb : String) (value : Value) : Except ε Text := do
  return units "expected " ++ (← render w actual) ++ units verb ++ (← render w value)

/-- The same with one value. -/
def clause (rest : String) : Except ε Text := do
  return units "expected " ++ (← render w actual) ++ units rest

/-- The message of the `AssertionError`. -/
def message : Matcher → Except ε Text
  | toBe expected => sentence w actual " to be " expected
  | toEqual expected | toStrictEqual expected => sentence w actual " to equal " expected
  | toBeTruthy => clause w actual " to be truthy"
  | toBeFalsy => clause w actual " to be falsy"
  | toBeNull => clause w actual " to be null"
  | toBeUndefined => clause w actual " to be undefined"
  | toBeDefined => .ok (units "expected value to be defined")
  | toBeGreaterThan n => sentence w actual " > " n
  | toBeGreaterThanOrEqual n => sentence w actual " >= " n
  | toBeLessThan n => sentence w actual " < " n
  | toBeLessThanOrEqual n => sentence w actual " <= " n
  | toContain needle => sentence w actual " to contain " needle
  | toHaveLength n => do
    let expected ← w.toText n
    let length ← if Realm.truthy actual then do w.toText (← w.length actual) else .ok (units "none")
    return units "expected length " ++ expected ++ units ", got " ++ length
  | toHaveProperty key => sentence w actual " to have property " key
  | toMatch re => do
    return units "expected " ++ (← render w actual) ++ units " to match " ++ (← w.text re)

/-- A direct call. -/
def check (m : Matcher) : Except ε Unit := do
  if ← m.condition w actual then return ()
  throw (Raises.error (← m.message w actual))

def name : Matcher → String
  | toBe _ => "toBe"
  | toEqual _ => "toEqual"
  | toStrictEqual _ => "toStrictEqual"
  | toBeTruthy => "toBeTruthy"
  | toBeFalsy => "toBeFalsy"
  | toBeNull => "toBeNull"
  | toBeUndefined => "toBeUndefined"
  | toBeDefined => "toBeDefined"
  | toBeGreaterThan _ => "toBeGreaterThan"
  | toBeGreaterThanOrEqual _ => "toBeGreaterThanOrEqual"
  | toBeLessThan _ => "toBeLessThan"
  | toBeLessThanOrEqual _ => "toBeLessThanOrEqual"
  | toContain _ => "toContain"
  | toHaveLength _ => "toHaveLength"
  | toHaveProperty _ => "toHaveProperty"
  | toMatch _ => "toMatch"

end Matcher

/-! ## Calls -/

/-- How a call ends: it returns nothing, throws, or returns a promise. -/
inductive Result (ε : Type)
  | returned
  | threw (e : ε)
  | promise (p : Awaited ε Unit)

/-- What `await` makes of it. -/
def Result.await : Result ε → Awaited ε Unit
  | returned => .fulfilled ()
  | threw e => .rejected e
  | promise p => p

/-- An async function that waits in a `try` and goes on with whether an exception was caught. -/
def afterCatch {α : Type} (p : Awaited ε α) (rest : Bool → Except ε Unit) : Awaited ε Unit :=
  let run (caught : Bool) : Awaited ε Unit :=
    match rest caught with
    | .ok () => .fulfilled ()
    | .error e => .rejected e
  match p with
  | .fulfilled _ => run false
  | .rejected _ => run true
  | .pending => .pending

def toThrow : Awaited ε Unit :=
  let called : Awaited ε Value :=
    match w.call actual with
    | .ok v => w.await v
    | .error e => .rejected e
  afterCatch called fun threw =>
    if threw then .ok () else .error (Raises.error (units "expected function to throw"))

inductive Assertion
  | matcher (m : Matcher)
  | toThrow

namespace Assertion

def name : Assertion → String
  | matcher m => m.name
  | toThrow => "toThrow"

/-- `matchers[name](...args)` -/
def apply : Assertion → Result ε
  | matcher m =>
    match m.check w actual with
    | .ok () => .returned
    | .error e => .threw e
  | toThrow => .promise (Sandbox.toThrow w actual)

/-- `matchers.not[name](...args)` -/
def not (a : Assertion) : Awaited ε Unit :=
  afterCatch (a.apply w actual).await fun failed =>
    if failed then .ok ()
    else .error <| Raises.error <|
      units "expected NOT ." ++ units a.name ++ units "(...) to hold"

/-- What the assertion says of the actual value. -/
def Holds : Assertion → Prop
  | matcher m => m.condition w actual = .ok true
  | toThrow => (∃ e, w.call actual = .error e) ∨ ∃ v e, w.call actual = .ok v ∧
      w.await v = .rejected e

end Assertion

/-- `matchers.resolves.toEqual(expected)` -/
def resolvesToEqual (expected : Value) : Awaited ε Unit :=
  match (Matcher.toEqual expected).check w actual with
  | .ok () => .fulfilled ()
  | .error e => .rejected e

/-- How a matcher is reached from `expect(actual)`. -/
inductive Form
  | direct (a : Assertion)
  | not (a : Assertion)
  | resolves (expected : Value)

namespace Form

def result : Form → Result ε
  | direct a => a.apply w actual
  | not a => .promise (a.not w actual)
  | resolves expected => .promise (resolvesToEqual w actual expected)

def Holds : Form → Prop
  | direct a => a.Holds w actual
  | not a => ¬ a.Holds w actual
  | resolves expected => ∃ v, w.await actual = .fulfilled v ∧ deepEqual w v expected = .ok true

/-- The matcher returns a promise in Jest too, and has to be awaited. -/
def isResolves : Form → Bool
  | resolves _ => true
  | _ => false

end Form

/-! ## What a call that does not fail shows -/

variable {w actual} {a : Assertion} {m : Matcher} {expected : Value}

theorem check_eq_ok : m.check w actual = .ok () ↔ m.condition w actual = .ok true := by
  unfold Matcher.check
  cases m.condition w actual with
  | error e => exact ⟨nofun, nofun⟩
  | ok holds =>
    cases holds with
    | true => exact ⟨fun _ => rfl, fun _ => rfl⟩
    | false =>
      refine ⟨fun h => ?_, nofun⟩
      cases hm : m.message w actual <;> simp [bind, Except.bind, hm, throw, throwThe,
        MonadExceptOf.throw] at h

theorem toThrow_eq_fulfilled :
    toThrow w actual = .fulfilled () ↔ Assertion.toThrow.Holds w actual := by
  unfold toThrow Assertion.Holds
  cases hc : w.call actual with
  | error e => simp [afterCatch]
  | ok v => cases hv : w.await v <;> simp [afterCatch, hv]

/-- A direct call succeeds exactly when its assertion holds. -/
theorem apply_eq_fulfilled : (a.apply w actual).await = .fulfilled () ↔ a.Holds w actual := by
  cases a with
  | matcher m =>
    rw [Assertion.Holds, ← check_eq_ok, Assertion.apply]
    cases m.check w actual <;> simp [Result.await]
  | toThrow => exact toThrow_eq_fulfilled

theorem not_holds (h : a.not w actual = .fulfilled ()) : ¬ a.Holds w actual := by
  rw [← apply_eq_fulfilled]
  intro hf
  rw [Assertion.not, hf] at h
  cases h

theorem resolvesToEqual_eq_fulfilled : resolvesToEqual w actual expected = .fulfilled () ↔
    deepEqual w actual expected = .ok true := by
  have hcheck : (Matcher.toEqual expected).check w actual = .ok () ↔
      deepEqual w actual expected = .ok true := check_eq_ok
  rw [← hcheck, resolvesToEqual]
  cases (Matcher.toEqual expected).check w actual <;> simp

end AssureCode.Sandbox
