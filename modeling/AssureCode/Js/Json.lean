import AssureCode.Js.NumberText

/-! # JSON values and `JSON.parse`

The reader takes the text one code unit at a time. Its state is the lexeme it is
inside and, for the grammar, what may come next together with the containers that
are still open. A text is accepted when the reader has finished one value.
-/

namespace AssureCode.Js

/-- Object members are in order of first insertion, with distinct keys. -/
inductive Json
  | null
  | bool (value : Bool)
  | number (value : Number)
  | string (value : Text)
  | array (items : List Json)
  | object (members : List (Text × Json))

/-- Creating a property keeps the place of a key that is there already. -/
def setMember (members : List (Text × Json)) (key : Text) (value : Json) : List (Text × Json) :=
  if key ∈ members.map Prod.fst then
    members.map fun m => if m.1 = key then (key, value) else m
  else members ++ [(key, value)]

/-- `v[key]` for an object, `none` being `undefined`. -/
def Json.get : Json → Text → Option Json
  | .object members, key => members.lookup key
  | _, _ => none

namespace Json

inductive Token
  | openArray
  | closeArray
  | openObject
  | closeObject
  | comma
  | colon
  | scalar (value : Json)

/-- An open container with what it has so far. -/
inductive Frame
  | items (before : List Json)
  | member (before : List (Text × Json)) (key : Text)

/-- What the grammar allows next. -/
inductive Expected
  | value (frames : List Frame)
  | firstItem (frames : List Frame)
  | firstKey (frames : List Frame)
  | key (before : List (Text × Json)) (frames : List Frame)
  | colon (before : List (Text × Json)) (key : Text) (frames : List Frame)
  | afterItem (items : List Json) (frames : List Frame)
  | afterMember (members : List (Text × Json)) (frames : List Frame)
  | done (value : Json)

def deliver (value : Json) : List Frame → Expected
  | [] => .done value
  | .items before :: frames => .afterItem (before ++ [value]) frames
  | .member before key :: frames => .afterMember (setMember before key value) frames

/-- The first token of a value. -/
def beginValue : Token → List Frame → Option Expected
  | .scalar value, frames => some (deliver value frames)
  | .openArray, frames => some (.firstItem frames)
  | .openObject, frames => some (.firstKey frames)
  | _, _ => none

def Expected.step : Expected → Token → Option Expected
  | .value frames, token => beginValue token frames
  | .firstItem frames, .closeArray => some (deliver (.array []) frames)
  | .firstItem frames, token => beginValue token (.items [] :: frames)
  | .firstKey frames, .closeObject => some (deliver (.object []) frames)
  | .firstKey frames, .scalar (.string name) => some (.colon [] name frames)
  | .key before frames, .scalar (.string name) => some (.colon before name frames)
  | .colon before name frames, .colon => some (.value (.member before name :: frames))
  | .afterItem items frames, .comma => some (.value (.items items :: frames))
  | .afterItem items frames, .closeArray => some (deliver (.array items) frames)
  | .afterMember members frames, .comma => some (.key members frames)
  | .afterMember members frames, .closeObject => some (deliver (.object members) frames)
  | _, _ => none

inductive Lexeme
  | between
  | number (read : Text)
  /-- Inside `null`, `true` or `false`, with the code units still to come. -/
  | word (rest : Text) (value : Json)
  | string (read : Text)
  | escape (read : Text)
  /-- Inside `\uXXXX`, with the digits seen and their value. -/
  | hex (read : Text) (count value : ℕ)

structure Reader where
  lexeme : Lexeme
  expected : Expected

def isJsonSpace (u : ℕ) : Bool := u == 0x20 || u == 0x09 || u == 0x0A || u == 0x0D

/-- Digits, sign, point and exponent letter. -/
def isNumberUnit (u : ℕ) : Bool :=
  isDigit u || u == 0x2D || u == 0x2B || u == 0x2E || u == 0x65 || u == 0x45

def punctuation : ℕ → Option Token
  | 0x5B => some .openArray
  | 0x5D => some .closeArray
  | 0x7B => some .openObject
  | 0x7D => some .closeObject
  | 0x2C => some .comma
  | 0x3A => some .colon
  | _ => none

/-- The code unit that a two unit escape stands for. -/
def unescape : ℕ → Option ℕ
  | 0x22 => some 0x22
  | 0x5C => some 0x5C
  | 0x2F => some 0x2F
  | 0x62 => some 0x08
  | 0x66 => some 0x0C
  | 0x6E => some 0x0A
  | 0x72 => some 0x0D
  | 0x74 => some 0x09
  | _ => none

def hexValue (u : ℕ) : Option ℕ :=
  if isDigit u then some (u - 0x30)
  else if 0x61 ≤ u ∧ u ≤ 0x66 then some (u - 0x61 + 10)
  else if 0x41 ≤ u ∧ u ≤ 0x46 then some (u - 0x41 + 10)
  else none

namespace Reader

def emit (expected : Expected) (token : Token) : Option Reader :=
  (expected.step token).map (⟨.between, ·⟩)

/-- A code unit that is not inside a lexeme. -/
def start (expected : Expected) (u : ℕ) : Option Reader :=
  if isJsonSpace u then some ⟨.between, expected⟩
  else if u = 0x22 then some ⟨.string [], expected⟩
  else if u = 0x2D ∨ isDigit u then some ⟨.number [u], expected⟩
  else if u = 0x6E then some ⟨.word (units "ull") .null, expected⟩
  else if u = 0x74 then some ⟨.word (units "rue") (.bool true), expected⟩
  else if u = 0x66 then some ⟨.word (units "alse") (.bool false), expected⟩
  else (punctuation u).bind (emit expected)

/-- A number is over only when something else follows it. -/
def settle (r : Reader) : Option Reader :=
  match r.lexeme with
  | .between => some r
  | .number read => (jsonNumber read).bind fun n => emit r.expected (.scalar (.number n))
  | _ => none

def step (r : Reader) (u : ℕ) : Option Reader :=
  match r.lexeme with
  | .between => start r.expected u
  | .number read =>
    if isNumberUnit u then some ⟨.number (read ++ [u]), r.expected⟩
    else r.settle.bind fun r => start r.expected u
  | .word [] _ => none
  | .word (v :: rest) value =>
    if u ≠ v then none
    else if rest = [] then emit r.expected (.scalar value)
    else some ⟨.word rest value, r.expected⟩
  | .string read =>
    if u = 0x22 then emit r.expected (.scalar (.string read))
    else if u = 0x5C then some ⟨.escape read, r.expected⟩
    else if u < 0x20 then none
    else some ⟨.string (read ++ [u]), r.expected⟩
  | .escape read =>
    if u = 0x75 then some ⟨.hex read 0 0, r.expected⟩
    else (unescape u).map fun c => ⟨.string (read ++ [c]), r.expected⟩
  | .hex read count value =>
    (hexValue u).map fun d =>
      if count = 3 then ⟨.string (read ++ [16 * value + d]), r.expected⟩
      else ⟨.hex read (count + 1) (16 * value + d), r.expected⟩

def run (r : Reader) (t : Text) : Option Reader := t.foldlM step r

def result (r : Reader) : Option Json :=
  r.settle.bind fun r => match r.expected with
    | .done value => some value
    | _ => none

end Reader

/-- `JSON.parse`, with `none` for a SyntaxError. -/
def parse (t : Text) : Option Json :=
  (Reader.run ⟨.between, .value []⟩ t).bind Reader.result

/-! ## The reader in steps -/

namespace Reader

variable {r r' : Reader} {e : Expected} {s t : Text} {u : ℕ}

@[simp] theorem run_nil (r : Reader) : r.run [] = some r := rfl

@[simp] theorem run_cons (r : Reader) (u : ℕ) (t : Text) :
    r.run (u :: t) = (r.step u).bind fun r => r.run t := by
  simp [run, List.foldlM_cons]

theorem run_append (r : Reader) (s t : Text) :
    r.run (s ++ t) = (r.run s).bind fun r => r.run t := by
  simp [run, List.foldlM_append]

/-- After a settled value a code unit outside numbers starts the next lexeme. -/
theorem step_of_settle (h : r.settle = some ⟨.between, e⟩) (hu : isNumberUnit u = false) :
    r.step u = start e u := by
  obtain ⟨lexeme, expected⟩ := r
  cases lexeme with
  | between =>
    obtain rfl : expected = e := by simpa [settle] using h
    rfl
  | number read => simp [step, hu, h]
  | _ => simp [settle] at h

/-! ## Inside a container -/

theorem deliver_ne_value (v : Json) (frames : List Frame) : deliver v frames ≠ .value [] := by
  cases frames with
  | nil => simp [deliver]
  | cons frame frames => cases frame <;> simp [deliver]

theorem beginValue_ne_value (token : Token) (frames : List Frame) :
    beginValue token frames ≠ some (.value []) := by
  cases token <;> simp [beginValue, deliver_ne_value]

/-- No token leads back to the place where the outermost value is awaited. -/
theorem step_ne_value (e : Expected) (token : Token) : e.step token ≠ some (.value []) := by
  unfold Expected.step
  split <;> simp [deliver_ne_value, beginValue_ne_value]

/-- A reader that has seen the start of the outermost value. -/
structure Inside (r : Reader) : Prop where
  expected : r.expected ≠ .value []
  word : ∀ rest v, r.lexeme = .word rest v → 0x7B ∉ rest

theorem Inside.of_emit {token : Token} (h : emit e token = some r) : r.Inside := by
  obtain ⟨e', he, rfl⟩ := Option.map_eq_some_iff.1 h
  exact ⟨fun hv => step_ne_value e token (hv ▸ he), by simp⟩

theorem Inside.of_start (he : e ≠ .value []) (h : start e u = some r) : r.Inside := by
  unfold start at h
  split_ifs at h
  all_goals first
    | (obtain rfl := Option.some.inj h; exact ⟨he, by simp [units, codeUnits]⟩)
    | skip
  obtain ⟨token, -, h⟩ := Option.bind_eq_some_iff.1 h
  exact .of_emit h

theorem Inside.of_settle (hr : r.Inside) (h : r.settle = some r') : r'.Inside := by
  unfold settle at h
  split at h
  · exact Option.some.inj h ▸ hr
  · obtain ⟨n, -, h⟩ := Option.bind_eq_some_iff.1 h
    exact .of_emit h
  · exact absurd h (by simp)

theorem Inside.step (hr : r.Inside) (h : r.step u = some r') : r'.Inside := by
  obtain ⟨lexeme, e⟩ := r
  cases lexeme with
  | between => exact .of_start hr.expected h
  | number read =>
    simp only [Reader.step] at h
    split_ifs at h
    · obtain rfl := Option.some.inj h
      exact ⟨hr.expected, by simp⟩
    · obtain ⟨r₁, h₁, h⟩ := Option.bind_eq_some_iff.1 h
      exact .of_start (hr.of_settle h₁).expected h
  | word rest v =>
    cases rest with
    | nil => simp [Reader.step] at h
    | cons w rest =>
      simp only [Reader.step] at h
      split_ifs at h
      · exact .of_emit h
      · obtain rfl := Option.some.inj h
        refine ⟨hr.expected, ?_⟩
        rintro _ _ ⟨⟩
        exact fun hm => hr.word _ _ rfl (List.mem_cons_of_mem _ hm)
  | string read =>
    simp only [Reader.step] at h
    split_ifs at h
    · exact .of_emit h
    all_goals
      obtain rfl := Option.some.inj h
      exact ⟨hr.expected, by simp⟩
  | escape read =>
    simp only [Reader.step] at h
    split_ifs at h
    · obtain rfl := Option.some.inj h
      exact ⟨hr.expected, by simp⟩
    · obtain ⟨c, -, rfl⟩ := Option.map_eq_some_iff.1 h
      exact ⟨hr.expected, by simp⟩
  | hex read count value =>
    obtain ⟨d, -, rfl⟩ := Option.map_eq_some_iff.1 h
    split_ifs <;> exact ⟨hr.expected, by simp⟩

theorem Inside.run (hr : r.Inside) (h : r.run t = some r') : r'.Inside := by
  induction t generalizing r with
  | nil => exact Option.some.inj h ▸ hr
  | cons u t ih =>
    rw [run_cons] at h
    obtain ⟨r₁, h₁, h⟩ := Option.bind_eq_some_iff.1 h
    exact ih (hr.step h₁) h

/-- The state after the opening brace of an object. -/
theorem inside_openObject : Inside ⟨.between, .firstKey []⟩ := ⟨by simp, by simp⟩

end Reader

end Json

end AssureCode.Js
