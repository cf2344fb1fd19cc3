import AssureCode.Js.Json

/-! # `JSON.stringify`

The serialization of a JSON value, and the round trip: the reader gives back every
value whose numbers are finite and whose objects have distinct keys. The text of a
value has no control characters, so it never spans lines.
-/

namespace AssureCode.Js

/-- `Array.prototype.join` -/
def join (separator : Text) : List Text → Text
  | [] => []
  | t :: ts => t ++ ts.flatMap (separator ++ ·)

def hexDigit (d : ℕ) : ℕ := if d < 10 then 0x30 + d else 0x61 + (d - 10)

def unicodeEscape (u : ℕ) : Text :=
  [0x5C, 0x75, hexDigit (u / 4096 % 16), hexDigit (u / 256 % 16), hexDigit (u / 16 % 16),
    hexDigit (u % 16)]

def isLeadSurrogate (u : ℕ) : Bool := 0xD800 ≤ u && u ≤ 0xDBFF

def isTrailSurrogate (u : ℕ) : Bool := 0xDC00 ≤ u && u ≤ 0xDFFF

/-- A code unit on its own; a surrogate here has lost its partner. -/
def escapeUnit (u : ℕ) : Text :=
  if u = 0x08 then [0x5C, 0x62]
  else if u = 0x09 then [0x5C, 0x74]
  else if u = 0x0A then [0x5C, 0x6E]
  else if u = 0x0C then [0x5C, 0x66]
  else if u = 0x0D then [0x5C, 0x72]
  else if u = 0x22 then [0x5C, 0x22]
  else if u = 0x5C then [0x5C, 0x5C]
  else if u < 0x20 ∨ isLeadSurrogate u ∨ isTrailSurrogate u then unicodeEscape u
  else [u]

def escapeText : Text → Text
  | [] => []
  | [u] => escapeUnit u
  | u :: v :: t =>
    if isLeadSurrogate u && isTrailSurrogate v then u :: v :: escapeText t
    else escapeUnit u ++ escapeText (v :: t)

def quote (t : Text) : Text := 0x22 :: escapeText t ++ [0x22]

namespace Json

mutual

/-- `JSON.stringify` -/
def stringify : Json → Text
  | .null => units "null"
  | .bool value => if value then units "true" else units "false"
  | .number value => if value.isFinite then value.text else units "null"
  | .string value => quote value
  | .array items => 0x5B :: join [0x2C] (stringifyItems items) ++ [0x5D]
  | .object members => 0x7B :: join [0x2C] (stringifyMembers members) ++ [0x7D]

def stringifyItems : List Json → List Text
  | [] => []
  | v :: vs => stringify v :: stringifyItems vs

def stringifyMembers : List (Text × Json) → List Text
  | [] => []
  | (key, v) :: ms => (quote key ++ 0x3A :: stringify v) :: stringifyMembers ms

end

mutual

/-- Finite numbers and distinct keys throughout. -/
def Plain : Json → Prop
  | .number value => value.isFinite
  | .array items => PlainItems items
  | .object members => (members.map Prod.fst).Nodup ∧ PlainMembers members
  | _ => True

def PlainItems : List Json → Prop
  | [] => True
  | v :: vs => Plain v ∧ PlainItems vs

def PlainMembers : List (Text × Json) → Prop
  | [] => True
  | (_, v) :: ms => Plain v ∧ PlainMembers ms

end

end Json

/-! ## Strings -/

namespace Json.Reader

variable {e : Expected} {frames : List Frame}

theorem hexValue_hexDigit {d : ℕ} (h : d < 16) : hexValue (hexDigit d) = some d := by
  revert d
  decide

theorem run_unicodeEscape (read t : Text) {u : ℕ} (h : u < 0x10000) :
    run ⟨.string read, e⟩ (unicodeEscape u ++ t) = run ⟨.string (read ++ [u]), e⟩ t := by
  have hval : 16 * (16 * (16 * (u / 4096 % 16) + u / 256 % 16) + u / 16 % 16) + u % 16 = u := by
    omega
  have hd := fun d => hexValue_hexDigit (Nat.mod_lt d (show 0 < 16 by norm_num))
  simp [unicodeEscape, step, hd, hval]

theorem run_escape (read t : Text) {c u : ℕ} (h : unescape c = some u) (hc : c ≠ 0x75) :
    run ⟨.string read, e⟩ (0x5C :: c :: t) = run ⟨.string (read ++ [u]), e⟩ t := by
  have hslash : step ⟨.string read, e⟩ 0x5C = some ⟨.escape read, e⟩ := rfl
  rw [run_cons, hslash, Option.bind_some, run_cons]
  simp [step, hc, h]

theorem run_escapeUnit (read t : Text) (u : ℕ) :
    run ⟨.string read, e⟩ (escapeUnit u ++ t) = run ⟨.string (read ++ [u]), e⟩ t := by
  unfold escapeUnit
  split_ifs with h₁ h₂ h₃ h₄ h₅ h₆ h₇ h₈
  · rw [h₁]
    exact run_escape read t rfl (by decide)
  · rw [h₂]
    exact run_escape read t rfl (by decide)
  · rw [h₃]
    exact run_escape read t rfl (by decide)
  · rw [h₄]
    exact run_escape read t rfl (by decide)
  · rw [h₅]
    exact run_escape read t rfl (by decide)
  · rw [h₆]
    exact run_escape read t rfl (by decide)
  · rw [h₇]
    exact run_escape read t rfl (by decide)
  · apply run_unicodeEscape
    simp only [isLeadSurrogate, isTrailSurrogate, Bool.and_eq_true, decide_eq_true_eq] at h₈
    omega
  · have h : ¬ u < 0x20 := fun h => h₈ (.inl h)
    simp [step, h₆, h₇, h]

theorem run_escapeText (read s t : Text) :
    run ⟨.string read, e⟩ (escapeText s ++ t) = run ⟨.string (read ++ s), e⟩ t := by
  induction s using escapeText.induct generalizing read with
  | case1 => simp [escapeText]
  | case2 u => exact run_escapeUnit read t u
  | case3 u v s h ih =>
    have hu : u ≠ 0x22 ∧ u ≠ 0x5C ∧ ¬ u < 0x20 ∧ v ≠ 0x22 ∧ v ≠ 0x5C ∧ ¬ v < 0x20 := by
      simp only [isLeadSurrogate, isTrailSurrogate, Bool.and_eq_true, decide_eq_true_eq] at h
      omega
    obtain ⟨h₁, h₂, h₃, h₄, h₅, h₆⟩ := hu
    simp [escapeText, h, step, h₁, h₂, h₃, h₄, h₅, h₆, ih]
  | case4 u v s h ih =>
    rw [escapeText, if_neg h, List.append_assoc, run_escapeUnit, ih]
    simp

theorem run_quote (s t : Text) :
    run ⟨.between, e⟩ (quote s ++ t) = (emit e (.scalar (.string s))).bind (run · t) := by
  have hstart : start e 0x22 = some ⟨.string [], e⟩ := rfl
  simp only [quote, List.cons_append, List.append_assoc, run_cons, step, hstart,
    Option.bind_some, run_escapeText, List.nil_append]
  rfl

/-! ## Values -/

/-- A value may come next and then belongs to the innermost of `frames`. -/
def Awaits (e : Expected) (frames : List Frame) : Prop :=
  e = .value frames ∨ ∃ outer, e = .firstItem outer ∧ frames = .items [] :: outer

theorem Awaits.scalar (h : Awaits e frames) (v : Json) :
    e.step (.scalar v) = some (deliver v frames) := by
  rcases h with rfl | ⟨outer, rfl, rfl⟩ <;> rfl

theorem Awaits.openArray (h : Awaits e frames) : e.step .openArray = some (.firstItem frames) := by
  rcases h with rfl | ⟨outer, rfl, rfl⟩ <;> rfl

theorem Awaits.openObject (h : Awaits e frames) : e.step .openObject = some (.firstKey frames) := by
  rcases h with rfl | ⟨outer, rfl, rfl⟩ <;> rfl

/-- The reader has taken a value; a number may still be waiting for its end. -/
def Reads (r : Reader) (t : Text) (e : Expected) : Prop :=
  ∃ r', r.run t = some r' ∧ r'.settle = some ⟨.between, e⟩

theorem Reads.of_run {r : Reader} {t : Text} (h : r.run t = some ⟨.between, e⟩) : r.Reads t e :=
  ⟨_, h, rfl⟩

theorem start_punctuation {u : ℕ} {token : Token} (h : punctuation u = some token) :
    isNumberUnit u = false ∧ start e u = emit e token := by
  unfold punctuation at h
  split at h
  case h_7 => simp at h
  all_goals
    obtain rfl := Option.some.inj h
    exact ⟨rfl, rfl⟩

/-- One more token after a value. -/
theorem Reads.token {r : Reader} {s t : Text} {token : Token} {e' e'' : Expected}
    (h : r.Reads s e) (u : ℕ) (hu : punctuation u = some token) (he : e.step token = some e')
    (ht : Reads ⟨.between, e'⟩ t e'') : r.Reads (s ++ u :: t) e'' := by
  obtain ⟨r₁, h₁, hset⟩ := h
  obtain ⟨r₂, h₂, hset₂⟩ := ht
  obtain ⟨hn, hs⟩ := start_punctuation (e := e) hu
  refine ⟨r₂, ?_, hset₂⟩
  rw [run_append, h₁, Option.bind_some, run_cons, step_of_settle hset hn, hs, emit, he]
  exact h₂

theorem Reads.nil (e : Expected) : Reads ⟨.between, e⟩ [] e := .of_run rfl

theorem reads_quote {s : Text} {e' : Expected} (h : e.step (.scalar (.string s)) = some e') :
    Reads ⟨.between, e⟩ (quote s) e' := .of_run <| by
  have := run_quote (e := e) s []
  rw [List.append_nil] at this
  simp [this, emit, h]

theorem run_word (v : Json) {rest : Text} (h : rest ≠ []) :
    run ⟨.word rest v, e⟩ rest = emit e (.scalar v) := by
  induction rest with
  | nil => exact absurd rfl h
  | cons u rest ih =>
    rcases eq_or_ne rest [] with rfl | hne
    · simp [step]
    · rw [run_cons, ← ih hne]
      simp [step, hne]

/-- `null`, `true` and `false`. -/
theorem reads_word {u : ℕ} {rest : Text} {v : Json} (h : Awaits e frames)
    (hs : start e u = some ⟨.word rest v, e⟩) (hne : rest ≠ []) :
    Reads ⟨.between, e⟩ (u :: rest) (deliver v frames) := .of_run <| by
  have hstep : step ⟨.between, e⟩ u = some ⟨.word rest v, e⟩ := hs
  rw [run_cons, hstep, Option.bind_some, run_word v hne, emit, h.scalar]
  rfl

theorem isNumberUnit_of_mem_text {n : Numeral} (h : n.Digits) {u : ℕ} (hu : u ∈ n.text) :
    isNumberUnit u := by
  have hdigit : ∀ {v}, isDigit v → isNumberUnit v := fun hv => by simp [isNumberUnit, hv]
  obtain ⟨whole, fraction, exponent⟩ := n
  simp only [Numeral.text, List.mem_append] at hu
  rcases hu with (hu | hu) | hu
  · exact hdigit (h.whole u hu)
  · cases fraction with
    | none => simp at hu
    | some f =>
      simp only [Option.map_some, Option.getD_some, List.mem_cons] at hu
      rcases hu with rfl | hu
      · rfl
      · exact hdigit (h.fraction f rfl u hu)
  · cases exponent with
    | none => simp at hu
    | some x =>
      simp only [Option.map_some, Option.getD_some, Exponent.text, List.mem_cons] at hu
      rcases hu with rfl | rfl | hu
      · rfl
      · cases x.negative <;> rfl
      · exact hdigit (h.exponent x rfl u hu)

/-- A finite number prints as a sign or digit and then code units of numbers. -/
theorem finite_text {n : Number} (hn : n.isFinite) :
    ∃ u t, n.text = u :: t ∧ (u = 0x2D ∨ isDigit u) ∧ ∀ v ∈ t, isNumberUnit v := by
  cases n with
  | nan => simp [Number.isFinite] at hn
  | infinity negative => simp [Number.isFinite] at hn
  | finite x h =>
    unfold Number.text
    dsimp only
    split_ifs with hx
    · obtain ⟨m, hm, hd, -, -⟩ := unsignedText_spec h.neg (by linarith)
      exact ⟨_, _, rfl, .inl rfl, fun v hv => isNumberUnit_of_mem_text hd (hm ▸ hv)⟩
    · obtain ⟨m, hm, hd, hj, -⟩ := unsignedText_spec h (by linarith)
      obtain ⟨u, t, ht, hu⟩ := head_text_isDigit hd hj
      exact ⟨u, t, hm.trans ht, .inr hu, fun v hv =>
        isNumberUnit_of_mem_text hd (ht ▸ List.mem_cons_of_mem _ hv)⟩

theorem run_number (read : Text) {t : Text} (h : ∀ u ∈ t, isNumberUnit u) :
    run ⟨.number read, e⟩ t = some ⟨.number (read ++ t), e⟩ := by
  induction t generalizing read with
  | nil => simp
  | cons u t ih =>
    have hu := h u List.mem_cons_self
    rw [run_cons]
    simp only [step, hu, if_true, Option.bind_some]
    rw [ih _ fun v hv => h v (List.mem_cons_of_mem _ hv), List.append_assoc, List.singleton_append]

theorem reads_number (h : Awaits e frames) {n : Number} (hn : n.isFinite) :
    Reads ⟨.between, e⟩ n.text (deliver (.number n) frames) := by
  obtain ⟨u, t, ht, hu, hrest⟩ := finite_text hn
  have hstart : start e u = some ⟨.number [u], e⟩ := by
    have hspace : isJsonSpace u = false ∧ u ≠ 0x22 := by
      simp only [isDigit, Bool.and_eq_true, decide_eq_true_eq] at hu
      simp only [isJsonSpace, Bool.or_eq_false_iff, beq_eq_false_iff_ne]
      omega
    simp [start, hspace.1, hspace.2, hu]
  have hval : jsonNumber n.text = some n := by
    cases n with
    | finite x hx => exact jsonNumber_text hx
    | nan => simp [Number.isFinite] at hn
    | infinity negative => simp [Number.isFinite] at hn
  refine ⟨⟨.number n.text, e⟩, ?_, ?_⟩
  · rw [ht, run_cons]
    simp only [step, hstart, Option.bind_some]
    exact run_number [u] hrest
  · simp [settle, hval, emit, h.scalar]

theorem setMember_of_notMem {members : List (Text × Json)} {key : Text} (v : Json)
    (h : key ∉ members.map Prod.fst) : setMember members key v = members ++ [(key, v)] :=
  if_neg h

mutual

theorem reads_stringify : ∀ {v : Json} {e : Expected} {frames : List Frame}, v.Plain →
    Awaits e frames → Reads ⟨.between, e⟩ (stringify v) (deliver v frames)
  | .null, e, frames, _, h => reads_word h (u := 0x6E) rfl (by decide)
  | .bool true, e, frames, _, h => reads_word h (u := 0x74) rfl (by decide)
  | .bool false, e, frames, _, h => reads_word h (u := 0x66) rfl (by decide)
  | .number n, e, frames, hv, h => by
    rw [Plain] at hv
    rw [stringify, if_pos hv]
    exact reads_number h hv
  | .string t, e, frames, _, h => reads_quote (h.scalar _)
  | .array [], e, frames, _, h =>
    (Reads.nil e).token 0x5B rfl h.openArray ((Reads.nil _).token 0x5D rfl rfl (.nil _))
  | .array (v :: vs), e, frames, hv, h => by
    simp only [Plain, PlainItems] at hv
    have hfirst := reads_stringify hv.1 (.inr ⟨frames, rfl, rfl⟩)
    have hitems := reads_items hv.2 ((Reads.nil e).token 0x5B rfl h.openArray hfirst)
    have hclose := hitems.token 0x5D rfl rfl (.nil _)
    simpa [stringify, stringifyItems, join] using hclose
  | .object [], e, frames, _, h =>
    (Reads.nil e).token 0x7B rfl h.openObject ((Reads.nil _).token 0x7D rfl rfl (.nil _))
  | .object ((key, v) :: ms), e, frames, hv, h => by
    simp only [Plain, PlainMembers] at hv
    have hfirst := reads_member (e := .firstKey frames) (k := key) hv.2.1 rfl
    rw [setMember_of_notMem v (by simp), List.nil_append] at hfirst
    have hmembers := reads_members hv.2.2 hv.1 ((Reads.nil e).token 0x7B rfl h.openObject hfirst)
    have hclose := hmembers.token 0x7D rfl rfl (.nil _)
    simpa [stringify, stringifyMembers, join] using hclose

theorem reads_items : ∀ {vs : List Json} {frames : List Frame} {r : Reader} {s : Text}
    {before : List Json}, PlainItems vs → r.Reads s (.afterItem before frames) →
    r.Reads (s ++ (stringifyItems vs).flatMap ([0x2C] ++ ·)) (.afterItem (before ++ vs) frames)
  | [], frames, r, s, before, _, h => by simpa [stringifyItems] using h
  | v :: vs, frames, r, s, before, hv, h => by
    simp only [PlainItems] at hv
    have hnext := h.token 0x2C rfl rfl (reads_stringify hv.1 (.inl rfl))
    have := reads_items hv.2 hnext
    simpa [stringifyItems] using this

theorem reads_member : ∀ {v : Json} {k : Text} {before : List (Text × Json)} {e : Expected}
    {frames : List Frame}, v.Plain →
    e.step (.scalar (.string k)) = some (.colon before k frames) →
    Reads ⟨.between, e⟩ (quote k ++ 0x3A :: stringify v)
      (.afterMember (setMember before k v) frames)
  | v, k, before, e, frames, hv, h => by
    exact (reads_quote h).token 0x3A rfl rfl (reads_stringify hv (.inl rfl))

theorem reads_members : ∀ {ms : List (Text × Json)} {frames : List Frame} {r : Reader} {s : Text}
    {before : List (Text × Json)}, PlainMembers ms →
    ((before ++ ms).map Prod.fst).Nodup → r.Reads s (.afterMember before frames) →
    r.Reads (s ++ (stringifyMembers ms).flatMap ([0x2C] ++ ·)) (.afterMember (before ++ ms) frames)
  | [], frames, r, s, before, _, _, h => by simpa [stringifyMembers] using h
  | (key, v) :: ms, frames, r, s, before, hv, hd, h => by
    simp only [PlainMembers] at hv
    have hnext := h.token 0x2C rfl rfl (reads_member (e := .key before frames) (k := key) hv.1 rfl)
    have hkey : key ∉ before.map Prod.fst := by
      rw [List.map_append, List.nodup_append'] at hd
      exact fun hmem => hd.2.2 hmem List.mem_cons_self
    rw [setMember_of_notMem v hkey] at hnext
    have := reads_members hv.2 (by simpa using hd) hnext
    simpa [stringifyMembers] using this

end

end Json.Reader

/-- `JSON.parse(JSON.stringify(v))` is `v`. -/
theorem Json.parse_stringify {v : Json} (h : v.Plain) : parse (stringify v) = some v := by
  have hreads : Reader.Reads ⟨.between, .value []⟩ v.stringify (deliver v []) :=
    Reader.reads_stringify h (.inl rfl)
  obtain ⟨r, hr, hset⟩ := hreads
  simp [parse, hr, Reader.result, hset, deliver]

example : (Json.parse (units "[2.50e1, \"\\u0041\"]")).map Json.stringify =
    some (units "[25,\"A\"]") := by
  decide +kernel

/-! ## One line -/

/-- No control characters. -/
def Printable (t : Text) : Prop := ∀ u ∈ t, 0x20 ≤ u

instance (t : Text) : Decidable (Printable t) := inferInstanceAs (Decidable (∀ u ∈ t, _))

variable {s t : Text}

theorem Printable.append (hs : Printable s) (ht : Printable t) : Printable (s ++ t) := by
  intro u hu
  rcases List.mem_append.1 hu with hu | hu
  · exact hs u hu
  · exact ht u hu

theorem Printable.cons {u : ℕ} (hu : 0x20 ≤ u) (ht : Printable t) : Printable (u :: t) := by
  intro v hv
  rcases List.mem_cons.1 hv with rfl | hv
  · exact hu
  · exact ht v hv

theorem printable_nil : Printable [] := by
  intro u hu
  simp at hu

theorem Printable.newline_notMem (h : Printable t) : newline ∉ t := fun hn => by
  have := h newline hn
  simp [newline] at this

theorem printable_join {separator : Text} (hs : Printable separator) {ts : List Text}
    (h : ∀ t ∈ ts, Printable t) : Printable (join separator ts) := by
  cases ts with
  | nil => exact printable_nil
  | cons t ts =>
    apply (h t List.mem_cons_self).append
    intro u hu
    obtain ⟨w, hw, hu⟩ := List.mem_flatMap.1 hu
    exact hs.append (h w (List.mem_cons_of_mem _ hw)) u hu

theorem printable_escapeUnit (u : ℕ) : Printable (escapeUnit u) := by
  have hdigit : ∀ d, 0x20 ≤ hexDigit d := fun d => by unfold hexDigit; split_ifs <;> omega
  unfold escapeUnit
  split_ifs with h₁ h₂ h₃ h₄ h₅ h₆ h₇ h₈
  iterate 7 decide
  · intro v hv
    simp only [unicodeEscape, List.mem_cons, List.not_mem_nil, or_false] at hv
    rcases hv with rfl | rfl | rfl | rfl | rfl | rfl
    · norm_num
    · norm_num
    all_goals exact hdigit _
  · exact .cons (not_lt.1 fun h => h₈ (.inl h)) printable_nil

theorem printable_escapeText (s : Text) : Printable (escapeText s) := by
  induction s using escapeText.induct with
  | case1 => exact printable_nil
  | case2 u => exact printable_escapeUnit u
  | case3 u v s h ih =>
    rw [escapeText, if_pos h]
    simp only [isLeadSurrogate, isTrailSurrogate, Bool.and_eq_true, decide_eq_true_eq] at h
    exact .cons (by omega) (.cons (by omega) ih)
  | case4 u v s h ih =>
    rw [escapeText, if_neg h]
    exact (printable_escapeUnit u).append ih

theorem printable_quote (s : Text) : Printable (quote s) :=
  .append (.cons (by norm_num) (printable_escapeText s)) (.cons (by norm_num) printable_nil)

theorem Number.printable_text {n : Number} (hn : n.isFinite) : Printable n.text := by
  obtain ⟨u, t, ht, hu, hrest⟩ := Json.Reader.finite_text hn
  rw [ht]
  refine .cons ?_ fun v hv => ?_
  · simp only [isDigit, Bool.and_eq_true, decide_eq_true_eq] at hu
    omega
  · have := hrest v hv
    simp only [Json.isNumberUnit, isDigit, Bool.or_eq_true, Bool.and_eq_true, decide_eq_true_eq,
      beq_iff_eq] at this
    omega

namespace Json

mutual

theorem printable_stringify : ∀ v : Json, Printable (stringify v)
  | .null => by decide
  | .bool true => by decide
  | .bool false => by decide
  | .number n => by
    rw [stringify]
    split_ifs with h
    · exact n.printable_text h
    · decide
  | .string t => printable_quote t
  | .array items => by
    rw [stringify]
    exact .append (.cons (by norm_num) (printable_join (by decide) (printable_items items)))
      (.cons (by norm_num) printable_nil)
  | .object members => by
    rw [stringify]
    exact .append (.cons (by norm_num) (printable_join (by decide) (printable_members members)))
      (.cons (by norm_num) printable_nil)

theorem printable_items : ∀ vs : List Json, ∀ t ∈ stringifyItems vs, Printable t
  | [], t, h => by simp [stringifyItems] at h
  | v :: vs, t, h => by
    rcases List.mem_cons.1 h with rfl | h
    · exact printable_stringify v
    · exact printable_items vs t h

theorem printable_members : ∀ ms : List (Text × Json), ∀ t ∈ stringifyMembers ms, Printable t
  | [], t, h => by simp [stringifyMembers] at h
  | (key, v) :: ms, t, h => by
    rcases List.mem_cons.1 h with rfl | h
    · exact (printable_quote key).append (.cons (by norm_num) (printable_stringify v))
    · exact printable_members ms t h

end

end Json

end AssureCode.Js
