import AssureCode.Ledger.Canonical

/-! # Canonical text is a normal form

On JSON values `canonicalize` is `JSON.stringify` of the value with its members sorted, so that
the round trip of the language carries over.
-/

namespace AssureCode.Ledger

open Js Json

/-! ## The order of keys -/

theorem compareCodeUnits_pos : ∀ {a b : Text}, 0 < compareCodeUnits a b ↔ b < a
  | [], [] => by simp [compareCodeUnits]
  | [], v :: b => by
    simp only [compareCodeUnits, List.length_cons, List.length_nil, List.not_lt_nil, iff_false]
    omega
  | u :: a, [] => by
    simp only [compareCodeUnits, List.length_cons, List.length_nil, List.nil_lt_cons, iff_true]
    omega
  | u :: a, v :: b => by
    rw [compareCodeUnits, List.cons_lt_cons_iff, ← compareCodeUnits_pos]
    split
    · next hne => omega
    · next heq => simp [not_not.mp heq]

theorem compareCodeUnits_nonpos {a b : Text} : compareCodeUnits a b ≤ 0 ↔ a ≤ b := by
  rw [← not_lt, compareCodeUnits_pos]
  exact not_lt

theorem sortKeys_eq {α : Type} (members : List (Text × α)) :
    sortKeys members = sortByKey members := by
  simp only [sortKeys, sortByKey, compareCodeUnits_nonpos]

/-! ## Successful runs -/

section Ok

variable {ε α β : Type} {b : β} {xs : List α} {ys : List β}

theorem bind_eq_ok {x : Except ε α} {f : α → Except ε β} :
    x >>= f = .ok b ↔ ∃ a, x = .ok a ∧ f a = .ok b := by
  cases x <;> simp [bind, Except.bind]

theorem exists_ok_of_mapM {f : α → Except ε β} (h : xs.mapM f = .ok ys) :
    ∀ x ∈ xs, ∃ y, f x = .ok y := by
  induction xs generalizing ys with
  | nil => simp
  | cons x xs ih =>
    rw [List.mapM_cons] at h
    obtain ⟨y, hy, h⟩ := bind_eq_ok.mp h
    obtain ⟨zs, hzs, -⟩ := bind_eq_ok.mp h
    exact List.forall_mem_cons.mpr ⟨⟨y, hy⟩, ih hzs⟩

theorem length_of_mapM {f : α → Except ε β} (h : xs.mapM f = .ok ys) :
    ys.length = xs.length := by
  induction xs generalizing ys with
  | nil => cases h; rfl
  | cons x xs ih =>
    rw [List.mapM_cons] at h
    obtain ⟨y, -, h⟩ := bind_eq_ok.mp h
    obtain ⟨zs, hzs, h⟩ := bind_eq_ok.mp h
    cases h
    rw [List.length_cons, List.length_cons, ih hzs]

end Ok

/-! ## JSON values -/

theorem Data.valueItems_cons {item : Data} {items : List (Option Data)} {vs : List Json}
    (h : Data.valueItems (some item :: items) = some vs) :
    ∃ v ws, item.value = some v ∧ Data.valueItems items = some ws ∧ vs = v :: ws := by
  simp only [Data.valueItems, Option.bind_eq_bind, Option.bind_eq_some_iff, Option.pure_def,
    Option.some.injEq] at h
  obtain ⟨v, hv, ws, hws, rfl⟩ := h
  exact ⟨v, ws, hv, hws, rfl⟩

theorem Data.valueMembers_cons {key : Text} {d : Data} {members : List (Text × Data)}
    {ms : List (Text × Json)} (h : Data.valueMembers ((key, d) :: members) = some ms) :
    ∃ v ns, d.value = some v ∧ Data.valueMembers members = some ns ∧ ms = (key, v) :: ns := by
  simp only [Data.valueMembers, Option.bind_eq_bind, Option.bind_eq_some_iff, Option.pure_def,
    Option.some.injEq] at h
  obtain ⟨v, hv, ns, hns, rfl⟩ := h
  exact ⟨v, ns, hv, hns, rfl⟩

mutual

theorem value_data : ∀ v : Json, (data v).value = some v
  | .null | .bool _ | .number _ | .string _ => rfl
  | .array items => by rw [data, Data.value, valueItems_data items]; rfl
  | .object members => by rw [data, Data.value, valueMembers_data members]; rfl

theorem valueItems_data : ∀ vs : List Json, Data.valueItems (dataItems vs) = some vs
  | [] => rfl
  | v :: vs => by rw [dataItems, Data.valueItems, value_data v, valueItems_data vs]; rfl

theorem valueMembers_data : ∀ ms : List (Text × Json), Data.valueMembers (dataMembers ms) = some ms
  | [] => rfl
  | (key, v) :: ms => by
    rw [dataMembers, Data.valueMembers, value_data v, valueMembers_data ms]; rfl

end

/-! ## The canonical text -/

theorem stringifyMembers_eq (ms : List (Text × Json)) :
    stringifyMembers ms = ms.map fun m => quote m.1 ++ 0x3A :: m.2.stringify := by
  induction ms with
  | nil => rfl
  | cons m ms ih => rw [stringifyMembers, ih, List.map_cons]

theorem serializeNumber_eq {n : Number} (h : n.isFinite) :
    serializeNumber n = .ok (Json.number n).stringify := by
  rw [serializeNumber, stringify, if_pos h, if_pos h]

theorem stringify_zero : (Json.number (.ofRat 0)).stringify = units "0" := by decide +kernel

/-- Members that all have a text are written in the order of their keys. -/
theorem mapM_sortKeys (ms : List (Text × Json)) :
    (sortKeys (ms.map fun m =>
        (m.1, (.ok m.2.stringify : Except NotCanonicalizableError Text)))).mapM
        (fun m => m.2.map fun text => serializeString m.1 ++ 0x3A :: text) =
      .ok (stringifyMembers (sortByKey ms)) := by
  rw [sortKeys_eq, ← map_sortByKey fun v : Json => (.ok v.stringify : Except _ Text),
    stringifyMembers_eq, List.mapM_map]
  generalize sortByKey ms = ms
  induction ms with
  | nil => rfl
  | cons m ms ih => rw [List.mapM_cons, ih, List.map_cons]; rfl

mutual

theorem serialize_value : ∀ {d : Data} {v : Json} (path : Text), d.value = some v → v.Plain →
    serialize d path = .ok v.sorted.stringify
  | .null, v, path, hv, hp => by cases hv; rfl
  | .bool value, v, path, hv, hp => by cases hv; cases value <;> rfl
  | .number value, v, path, hv, hp => by
    cases hv
    exact serializeNumber_eq hp
  | .negativeZero, v, path, hv, hp => by
    cases hv
    rw [serialize, sorted, stringify_zero]
    all_goals simp
  | .string value, v, path, hv, hp => by cases hv; rfl
  | .array items, v, path, hv, hp => by
    obtain ⟨vs, hvs, rfl⟩ := Option.map_eq_some_iff.mp hv
    rw [Plain] at hp
    rw [serialize, serializeItems_value path 0 hvs hp]
    rfl
  | .object members, v, path, hv, hp => by
    obtain ⟨ms, hms, rfl⟩ := Option.map_eq_some_iff.mp hv
    rw [Plain] at hp
    rw [serialize, serializeMembers_value path hms hp.2, mapM_sortKeys]
    rfl
  | .undefined, v, path, hv, hp => by cases hv
  | .bigint, v, path, hv, hp => by cases hv
  | .symbol, v, path, hv, hp => by cases hv
  | .function, v, path, hv, hp => by cases hv
  | .date, v, path, hv, hp => by cases hv

theorem serializeItems_value :
    ∀ {items : List (Option Data)} {vs : List Json} (path : Text) (i : ℕ),
    Data.valueItems items = some vs → PlainItems vs →
    serializeItems items path i = .ok (stringifyItems (sortedItems vs))
  | [], vs, path, i, hvs, hp => by cases hvs; rfl
  | none :: items, vs, path, i, hvs, hp => by cases hvs
  | some item :: items, vs, path, i, hvs, hp => by
    obtain ⟨v, ws, hv, hws, rfl⟩ := Data.valueItems_cons hvs
    rw [PlainItems] at hp
    rw [serializeItems, serialize_value _ hv hp.1, serializeItems_value path (i + 1) hws hp.2]
    rfl

theorem serializeMembers_value : ∀ {members : List (Text × Data)} {ms : List (Text × Json)}
    (path : Text), Data.valueMembers members = some ms → PlainMembers ms →
    serializeMembers members path = (sortedMembers ms).map fun m => (m.1, .ok m.2.stringify)
  | [], ms, path, hms, hp => by cases hms; rfl
  | (key, d) :: members, ms, path, hms, hp => by
    obtain ⟨v, ns, hv, hns, rfl⟩ := Data.valueMembers_cons hms
    rw [PlainMembers] at hp
    rw [serializeMembers, serialize_value _ hv hp.1, serializeMembers_value path hns hp.2]
    rfl

end

theorem canonicalize_value {d : Data} {v : Json} (hd : d.value = some v) (hv : v.Plain) :
    canonicalize d = .ok v.sorted.stringify :=
  serialize_value _ hd hv

theorem canonicalize_data {v : Json} (hv : v.Plain) :
    canonicalize (data v) = .ok v.sorted.stringify :=
  canonicalize_value (value_data v) hv

/-! ## What has a canonical text -/

theorem serializeItems_ok {vs : List Json} {path : Text} {i : ℕ} {ts : List Text}
    (h : serializeItems (dataItems vs) path i = .ok ts) :
    ∀ v ∈ vs, ∃ path t, serialize (data v) path = .ok t := by
  induction vs generalizing i ts with
  | nil => simp
  | cons v vs ih =>
    rw [dataItems, serializeItems] at h
    obtain ⟨t, ht, h⟩ := bind_eq_ok.mp h
    obtain ⟨rest, hrest, -⟩ := bind_eq_ok.mp h
    exact List.forall_mem_cons.mpr ⟨⟨_, t, ht⟩, ih hrest⟩

theorem serializeMembers_eq (ms : List (Text × Json)) (path : Text) :
    serializeMembers (dataMembers ms) path =
      ms.map fun m => (m.1, serialize (data m.2) (path ++ 0x2E :: m.1)) := by
  induction ms with
  | nil => rfl
  | cons m ms ih => rw [dataMembers, serializeMembers, ih, List.map_cons]

/-- A number that is too large for a double is refused wherever it stands. -/
theorem plain_of_serialize {v : Json} {path t : Text} (hv : v.Distinct)
    (h : serialize (data v) path = .ok t) : v.Plain := by
  induction v using Json.induct generalizing path t with
  | null | bool value | string value => trivial
  | number value =>
    by_contra hinf
    rw [Plain] at hinf
    rw [data, serialize, serializeNumber, if_neg hinf] at h
    cases h
  | array items ih =>
    rw [Distinct, distinctItems_iff] at hv
    rw [data, serialize] at h
    obtain ⟨ts, hts, -⟩ := bind_eq_ok.mp h
    rw [Plain, plainItems_iff]
    intro v hmem
    obtain ⟨path', t', ht'⟩ := serializeItems_ok hts v hmem
    exact ih v hmem (hv v hmem) ht'
  | object members ih =>
    rw [Distinct, distinctMembers_iff] at hv
    rw [data, serialize, serializeMembers_eq, sortKeys_eq] at h
    obtain ⟨ts, hts, -⟩ := bind_eq_ok.mp h
    rw [Plain, plainMembers_iff]
    refine ⟨hv.1, fun m hmem => ?_⟩
    have hsorted : (m.1, serialize (data m.2) (path ++ 0x2E :: m.1)) ∈
        sortByKey (members.map fun m => (m.1, serialize (data m.2) (path ++ 0x2E :: m.1))) :=
      (sortByKey_perm _).mem_iff.mpr (List.mem_map.mpr ⟨m, hmem, rfl⟩)
    obtain ⟨text, htext⟩ := exists_ok_of_mapM hts _ hsorted
    cases hm : serialize (data m.2) (path ++ 0x2E :: m.1) with
    | error e => rw [hm] at htext; cases htext
    | ok t' => exact ih m hmem (hv.2 m hmem) hm

theorem canonicalize_eq_ok_iff {v : Json} {t : Text} (hv : v.Distinct) :
    canonicalize (data v) = .ok t ↔ v.Plain ∧ v.sorted.stringify = t := by
  constructor
  · intro h
    have hp := plain_of_serialize hv h
    rw [canonicalize_data hp, Except.ok.injEq] at h
    exact ⟨hp, h⟩
  · rintro ⟨hp, rfl⟩
    exact canonicalize_data hp

/-- A nested value with the negative zero. -/
def nested : Data :=
  .object [(units "b", .array [some (.bool true), some .null]),
    (units "a", .object [(units "y", .negativeZero), (units "x", .string (units "é"))])]

/-- Its members in another order, and the other zero. -/
def nestedSwapped : Data :=
  .object [(units "a", .object [(units "x", .string (units "é")),
    (units "y", .number (.ofRat 0))]), (units "b", .array [some (.bool true), some .null])]

end AssureCode.Ledger
