import AssureCode.Js.Coercion

/-! # Values and objects

A value is a primitive or a reference to an object. An object is known by what the language's
operations on it answer; each of them may run code of its own and throw, and a promise may never
settle.
-/

namespace AssureCode.Js

/-- Here the two zeros differ: a `number` is not the negative one. -/
inductive Primitive
  | undefined
  | null
  | bool (value : Bool)
  | number (value : Number)
  | negativeZero
  | bigint (value : ℤ)
  | string (value : Text)
  | symbol (id : ℕ) (description : Text)
  deriving DecidableEq

inductive Value
  | primitive (value : Primitive)
  | object (reference : ℕ)
  deriving DecidableEq

abbrev Value.undefined : Value := .primitive .undefined

abbrev Value.null : Value := .primitive .null

abbrev Value.string (t : Text) : Value := .primitive (.string t)

def Value.nat (n : ℕ) : Value := .primitive (.number (.ofRat n))

/-- What comes of waiting, in the end. -/
inductive Awaited (ε α : Type)
  | fulfilled (a : α)
  | rejected (e : ε)
  | pending

inductive PropertyKey
  | text (t : Text)
  | symbol (id : ℕ)

inductive Hint | number | string

/-- The answers of an object; by default it is empty, with no prototype but `Object.prototype`. -/
structure Obj (ε : Type) where
  /-- `Array.isArray` -/
  isArray : Except ε Bool := .ok false
  /-- `Object.keys` -/
  keys : Except ε (List Text) := .ok []
  /-- `Object.prototype.hasOwnProperty.call` -/
  hasOwn : Text → Except ε Bool := fun _ => .ok false
  /-- `in` -/
  has : PropertyKey → Except ε Bool := fun _ => .ok false
  get : Text → Except ε Value := fun _ => .ok .undefined
  /-- What the callback of `some` is called with, one after the other. -/
  elements : List (Except ε Value) := []
  /-- The end of a call without arguments, for a function. -/
  call : Option (Except ε Value) := none
  toPrimitive : Hint → Except ε Primitive := fun _ => .ok (.string (units "[object Object]"))
  /-- `JSON.stringify` -/
  json : Except ε (Option Text) := .ok (some (units "\x7b\x7d"))
  /-- The name and the message, for an instance of `Error`. -/
  error : Option (Text × Text) := none
  /-- `test`, for an instance of `RegExp`. -/
  test : Option (Text → Except ε Bool) := none
  /-- What `await` comes to, for a promise. -/
  awaited : Option (Awaited ε Value) := none

/-- Exceptions that the language raises itself. -/
class Raises (ε : Type) where
  error : Text → ε

/-- The objects at the time of an operation, and the calls that the stack has room for. -/
structure Realm (ε : Type) where
  heap : ℕ → Obj ε := fun _ => {}
  stack : ℕ := 10000

/-! ## Primitives -/

namespace Primitive

def truthy : Primitive → Bool
  | undefined | null | negativeZero => false
  | bool value => value
  | number value => value ≠ .nan ∧ value ≠ .ofRat 0
  | bigint value => value ≠ 0
  | string value => value ≠ []
  | symbol _ _ => true

def typeOf : Primitive → String
  | undefined => "undefined"
  | null => "object"
  | bool _ => "boolean"
  | number _ | negativeZero => "number"
  | bigint _ => "bigint"
  | string _ => "string"
  | symbol _ _ => "symbol"

/-- `String(p)` -/
def text : Primitive → Text
  | undefined => units "undefined"
  | null => units "null"
  | bool value => units (if value then "true" else "false")
  | number value => value.text
  | negativeZero => units "0"
  | bigint value => units (toString value)
  | string value => value
  | symbol _ description => units "Symbol(" ++ description ++ units ")"

/-- `===` -/
def strictEquals : Primitive → Primitive → Bool
  | number a, number b => a ≠ .nan ∧ a = b
  | number a, negativeZero | negativeZero, number a => a = .ofRat 0
  | symbol i _, symbol j _ => i = j
  | a, b => a = b

section Compare

variable {ε : Type} [Raises ε]

/-- `ToString` -/
def toText : Primitive → Except ε Text
  | symbol _ _ => .error (Raises.error (units "Cannot convert a Symbol value to a string"))
  | p => .ok p.text

/-- The mathematical value of a number, with none for `NaN`. -/
def ofNumber : Number → Option (WithBot (WithTop ℚ))
  | .nan => none
  | .infinity negative => some (if negative then ⊥ else (⊤ : WithTop ℚ))
  | .finite value _ => some (value : WithTop ℚ)

/-- `ToNumeric`, as the mathematical value. -/
def toNumeric : Primitive → Except ε (Option (WithBot (WithTop ℚ)))
  | undefined => .ok none
  | null | negativeZero => .ok (ofNumber (.ofRat 0))
  | bool value => .ok (ofNumber (.ofRat (if value then 1 else 0)))
  | number value => .ok (ofNumber value)
  | bigint value => .ok (some (((value : ℚ) : WithTop ℚ) : WithBot (WithTop ℚ)))
  | string value => .ok (ofNumber (stringToNumber value))
  | symbol _ _ => .error (Raises.error (units "Cannot convert a Symbol value to a number"))

def digitsValue (base : ℕ) (t : Text) : Option ℤ :=
  if t ≠ [] ∧ t.all fun u => (Json.hexValue u).any (· < base) then
    some (t.foldl (fun n u => base * n + (Json.hexValue u).getD 0) 0 : ℕ)
  else none

/-- `StringToBigInt` -/
def stringToBigInt (t : Text) : Option ℤ :=
  match trim t with
  | [] => some 0
  | 0x2B :: t => digitsValue 10 t
  | 0x2D :: t => (digitsValue 10 t).map (- ·)
  | u :: v :: t =>
    if u = 0x30 ∧ (v = 0x78 ∨ v = 0x58) then digitsValue 16 t
    else if u = 0x30 ∧ (v = 0x6F ∨ v = 0x4F) then digitsValue 8 t
    else if u = 0x30 ∧ (v = 0x62 ∨ v = 0x42) then digitsValue 2 t
    else digitsValue 10 (u :: v :: t)
  | t => digitsValue 10 t

/-- `IsLessThan`; `none` when a side is not a number. -/
def isLessThan : Primitive → Primitive → Except ε (Option Bool)
  | string s, string t => .ok (some (s < t))
  | bigint n, string t => .ok ((stringToBigInt t).map (n < ·))
  | string s, bigint n => .ok ((stringToBigInt s).map (· < n))
  | p, q => do
    let x ← p.toNumeric
    let y ← q.toNumeric
    return x.bind fun x => y.map fun y => x < y

end Compare

end Primitive

/-! ## Operations -/

namespace Realm

variable {ε : Type} [Raises ε] (w : Realm ε)

/-- `!!v` -/
def truthy : Value → Bool
  | .primitive p => p.truthy
  | .object _ => true

def typeOf : Value → String
  | .primitive p => p.typeOf
  | .object i => if (w.heap i).call.isSome then "function" else "object"

/-- `===` -/
def strictEquals : Value → Value → Bool
  | .primitive p, .primitive q => p.strictEquals q
  | a, b => a = b

def toPrimitive (hint : Hint) : Value → Except ε Primitive
  | .primitive p => .ok p
  | .object i => (w.heap i).toPrimitive hint

/-- `ToString` -/
def toText (v : Value) : Except ε Text := do
  (← w.toPrimitive .string v).toText

/-- `String(v)` -/
def text : Value → Except ε Text
  | .primitive p => .ok p.text
  | v => w.toText v

/-- `ToPropertyKey` -/
def toPropertyKey (v : Value) : Except ε PropertyKey := do
  match ← w.toPrimitive .string v with
  | .symbol id _ => return .symbol id
  | p => return .text (← p.toText)

/-- A relation of two values: the left one is converted first. -/
def relation (r : Primitive → Primitive → Except ε Bool) (a b : Value) : Except ε Bool := do
  let p ← w.toPrimitive .number a
  let q ← w.toPrimitive .number b
  r p q

/-- `a < b` -/
def lessThan : Value → Value → Except ε Bool :=
  w.relation fun p q => return (← p.isLessThan q) = some true

/-- `a > b` -/
def greaterThan : Value → Value → Except ε Bool :=
  w.relation fun p q => return (← q.isLessThan p) = some true

/-- `a <= b` -/
def lessThanOrEqual : Value → Value → Except ε Bool :=
  w.relation fun p q => return (← q.isLessThan p) = some false

/-- `a >= b` -/
def greaterThanOrEqual : Value → Value → Except ε Bool :=
  w.relation fun p q => return (← p.isLessThan q) = some false

/-- `v.length` where `v` is neither `undefined` nor `null` -/
def length : Value → Except ε Value
  | .primitive (.string t) => .ok (.nat t.length)
  | .primitive _ => .ok .undefined
  | .object i => (w.heap i).get (units "length")

/-- `key in v` -/
def hasProperty (key : Value) : Value → Except ε Bool
  | .object i => do (w.heap i).has (← w.toPropertyKey key)
  | .primitive p => do
    let k ← w.text key
    .error <| Raises.error <|
      units "Cannot use 'in' operator to search for '" ++ k ++ units "' in " ++ p.text

/-- `v()` -/
def call : Value → Except ε Value
  | .object i => (w.heap i).call.getD (.error (Raises.error (units "actual is not a function")))
  | _ => .error (Raises.error (units "actual is not a function"))

/-- `await v` -/
def await : Value → Awaited ε Value
  | .object i => (w.heap i).awaited.getD (.fulfilled (.object i))
  | v => .fulfilled v

/-- `JSON.stringify(v)` -/
def stringify : Value → Except ε (Option Text)
  | .primitive .undefined | .primitive (.symbol _ _) => .ok none
  | .primitive .null => .ok (some (units "null"))
  | .primitive (.bool value) => .ok (some (units (if value then "true" else "false")))
  | .primitive (.number value) => .ok (some (Json.number value).stringify)
  | .primitive .negativeZero => .ok (some (units "0"))
  | .primitive (.bigint _) => .error (Raises.error (units "Do not know how to serialize a BigInt"))
  | .primitive (.string t) => .ok (some (quote t))
  | .object i => (w.heap i).json

end Realm

end AssureCode.Js
