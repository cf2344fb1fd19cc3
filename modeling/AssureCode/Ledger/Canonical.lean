import AssureCode.Js.Sorted

/-! # Canonical JSON

`canonicalize` writes a value with the members of every object in the order of their keys, and
refuses what JSON cannot hold. What it writes reads back as the value it was given, so that two
values have one text only if they are the same.
-/

namespace AssureCode.Ledger

open Js

/-- A JavaScript value, as far as `serialize` looks at it. -/
inductive Data
  | null
  | undefined
  | bool (value : Bool)
  | number (value : Number)
  | negativeZero
  | bigint
  | string (value : Text)
  | symbol
  | function
  | date
  /-- A hole is `none`. -/
  | array (items : List (Option Data))
  /-- The keys are those of `Object.keys`. -/
  | object (members : List (Text × Data))

structure NotCanonicalizableError where
  message : Text
  deriving DecidableEq

/-- The order of two keys, as the sign of a number. -/
def compareCodeUnits : Text → Text → ℤ
  | u :: a, v :: b => if u ≠ v then u - v else compareCodeUnits a b
  | a, b => a.length - b.length

/-- `sort(compareCodeUnits)`, of keys that keep their values. -/
def sortKeys {α : Type} (members : List (Text × α)) : List (Text × α) :=
  members.insertionSort fun m n => compareCodeUnits m.1 n.1 ≤ 0

def serializeString (value : Text) : Text := quote value

def serializeNumber (value : Number) : Except NotCanonicalizableError Text :=
  if value.isFinite then .ok value.text
  else .error ⟨value.text ++
    units (" has no JSON representation. JSON.stringify would emit null for it, " ++
      "which would let two different payloads hash to the same value.")⟩

/-- `NotCanonicalizableError` with a message that names the path. -/
def refuse (start : String) (path : Text) (rest : String) : Except NotCanonicalizableError Text :=
  .error ⟨units start ++ path ++ units rest⟩

mutual

def serialize : Data → Text → Except NotCanonicalizableError Text
  | .null, _ => .ok (units "null")
  | .bool value, _ => .ok (units (if value then "true" else "false"))
  | .number value, _ => serializeNumber value
  | .negativeZero, _ => .ok (units "0")
  | .string value, _ => .ok (serializeString value)
  | .bigint, path => refuse "BigInt at " path (" cannot be canonically serialized: JSON has no " ++
    "bigint type, and narrowing it to a double would change the value being anchored.")
  | .undefined, path => refuse "undefined at " path (" cannot be canonically serialized. " ++
    "JSON.stringify silently drops it, so the payload that was hashed would not be the payload " ++
    "that was passed.")
  | .function, path => refuse "function at " path " cannot be serialized."
  | .symbol, path => refuse "symbol at " path " cannot be serialized."
  | .array items, path => do
    let items ← serializeItems items path 0
    return 0x5B :: join [0x2C] items ++ [0x5D]
  | .date, path => refuse "Date at " path (" cannot be canonically serialized. Convert it to a " ++
    "string at the call site, so the payload that is stored is the payload that was hashed.")
  | .object members, path => do
    let members ← (sortKeys (serializeMembers members path)).mapM fun (key, text) =>
      text.map fun text => serializeString key ++ 0x3A :: text
    return 0x7B :: join [0x2C] members ++ [0x7D]

/-- `value.map(…)` from index `i` on; it leaves holes, which `join` takes for empty texts. -/
def serializeItems : List (Option Data) → Text → ℕ → Except NotCanonicalizableError (List Text)
  | [], _, _ => .ok []
  | none :: items, path, i => return [] :: (← serializeItems items path (i + 1))
  | some item :: items, path, i => do
    let text ← serialize item (path ++ 0x5B :: digitsOf i ++ [0x5D])
    return text :: (← serializeItems items path (i + 1))

/-- What `serialize` makes of each member; the first failure in the order of keys is thrown. -/
def serializeMembers :
    List (Text × Data) → Text → List (Text × Except NotCanonicalizableError Text)
  | [], _ => []
  | (key, v) :: members, path =>
    (key, serialize v (path ++ 0x2E :: key)) :: serializeMembers members path

end

/-- Canonical RFC 8785 serialization. -/
def canonicalize (value : Data) : Except NotCanonicalizableError Text := serialize value (units "$")

/-! ## JSON values -/

mutual

/-- The JSON value that it is, with one zero; `none` for what JSON does not have. -/
def Data.value : Data → Option Json
  | .null => some .null
  | .bool value => some (.bool value)
  | .number value => some (.number value)
  | .negativeZero => some (.number (.ofRat 0))
  | .string value => some (.string value)
  | .array items => (Data.valueItems items).map .array
  | .object members => (Data.valueMembers members).map .object
  | _ => none

def Data.valueItems : List (Option Data) → Option (List Json)
  | [] => some []
  | none :: _ => none
  | some item :: items => do return (← item.value) :: (← Data.valueItems items)

def Data.valueMembers : List (Text × Data) → Option (List (Text × Json))
  | [] => some []
  | (key, v) :: members => do return (key, ← v.value) :: (← Data.valueMembers members)

end

mutual

/-- A value that was read from JSON. -/
def data : Json → Data
  | .null => .null
  | .bool value => .bool value
  | .number value => .number value
  | .string value => .string value
  | .array items => .array (dataItems items)
  | .object members => .object (dataMembers members)

def dataItems : List Json → List (Option Data)
  | [] => []
  | v :: vs => some (data v) :: dataItems vs

def dataMembers : List (Text × Json) → List (Text × Data)
  | [] => []
  | (key, v) :: members => (key, data v) :: dataMembers members

end

example : canonicalize (.object [(units "b", .number (.ofRat 2)), (units "a", .negativeZero)]) =
    .ok (units "\x7b\"a\":0,\"b\":2\x7d") := by
  decide +kernel

end AssureCode.Ledger
