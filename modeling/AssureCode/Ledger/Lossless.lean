import AssureCode.Js.Stuck
import AssureCode.Ledger.Values

/-! # What a canonical text keeps

`serialize` looks at the elements that `map` visits and at the keys of `Object.keys`. Where a value
has nothing else, the text reads back as its content. Symbol keys and further properties of an
array are lost, a missing element leaves a text that is no JSON, and an element of the prototype
is written as the array's own.
-/

namespace AssureCode.Ledger

open Js Json Reader

variable {heap : Heap} {n : ℕ} {v : Value} {j : Json} {path t : Text}

/-! ## Content -/

/-- The elements that are the array's own and enumerable, from index `i` on. -/
def ownElements : List Slot → ℕ → List (ℕ × Value)
  | [], _ => []
  | .own value :: slots, i => (i, value) :: ownElements slots (i + 1)
  | _ :: slots, i => ownElements slots (i + 1)

mutual

/-- The own enumerable content of the value is this JSON value, with one zero. -/
def Content (heap : Heap) : Json → Value → Prop
  | .null, v => v = .null
  | .bool b, v => v = .primitive (.bool b)
  | .number x, v => v = .primitive (.number x) ∨ v = .primitive .negativeZero ∧ x = .ofRat 0
  | .string s, v => v = .string s
  | .array items, v => ∃ reference slots, v = .object reference ∧
      heap reference = .array slots [] [] ∧ ContentItems heap items 0 (ownElements slots 0)
  | .object ms, v => ∃ reference members, v = .object reference ∧
      heap reference = .ordinary members [] ∧
      (members.entries.map Prod.fst).Perm (ms.map Prod.fst) ∧
      ContentMembers heap ms members.entries

def ContentItems (heap : Heap) : List Json → ℕ → List (ℕ × Value) → Prop
  | [], _, own => own = []
  | j :: js, i, own => ∃ v rest, own = (i, v) :: rest ∧ Content heap j v ∧
      ContentItems heap js (i + 1) rest

def ContentMembers (heap : Heap) : List (Text × Json) → List (Text × Value) → Prop
  | [], _ => True
  | (key, j) :: ms, entries =>
    (∃ v, entries.lookup key = some v ∧ Content heap j v) ∧ ContentMembers heap ms entries

end

/-! ## Conditions -/

/-- A primitive that is not refused. -/
def writable : Primitive → Bool
  | .undefined | .bigint _ | .symbol _ _ => false
  | .number x => x.isFinite
  | _ => true

/-- The call stack suffices, and nothing that is read on the way is refused. -/
def Canonicalizable (heap : Heap) : ℕ → Value → Prop
  | 0, _ => False
  | _ + 1, .primitive p => writable p
  | n + 1, .object reference =>
    match heap reference with
    | .function | .date => False
    | .array slots _ _ => ∀ slot ∈ slots, ∀ item ∈ slot.read, Canonicalizable heap n item
    | .ordinary members _ => ∀ member ∈ members.entries, Canonicalizable heap n member.2

/--
Nothing enumerable is out of the way: no symbol keys, and in arrays no properties but the elements,
which are all own ones or a single missing one.
-/
def Faithful (heap : Heap) : ℕ → Value → Prop
  | 0, _ | _ + 1, .primitive _ => True
  | n + 1, .object reference =>
    match heap reference with
    | .function | .date => True
    | .array slots named symbols => named = [] ∧ symbols = [] ∧
        (slots = [.hole] ∨ ∀ slot ∈ slots, ∃ item, slot = .own item ∧ Faithful heap n item)
    | .ordinary members symbols =>
        symbols = [] ∧ ∀ member ∈ members.entries, Faithful heap n member.2

/-! ## What is written -/

/-- The JSON value in the text of an accepted value; an array of one missing element is empty. -/
def reading (heap : Heap) : ℕ → Value → Option Json
  | 0, _ => none
  | _ + 1, .primitive p => (primitiveData p).value
  | n + 1, .object reference =>
    match heap reference with
    | .function | .date => none
    | .array slots _ _ =>
      if slots = [.hole] then some (.array [])
      else (slots.mapM fun slot : Slot => slot.read.bind (reading heap n)).map .array
    | .ordinary members _ =>
      ((sortKeys members.entries).mapM fun member =>
        (reading heap n member.2).map fun j => (member.1, j)).map .object

section Options

variable {α β : Type} {f : α → Option β} {xs : List α} {ys : List β}

theorem mapM_eq_some_iff_map : xs.mapM f = some ys ↔ xs.map f = ys.map some := by
  induction xs generalizing ys with
  | nil => cases ys <;> simp
  | cons x xs ih =>
    cases ys with
    | nil => simp [List.mapM_cons, Option.bind_eq_some_iff]
    | cons y ys => simp [List.mapM_cons, Option.bind_eq_some_iff, ← ih]

theorem mapM_eq_none_of_mem (h : none ∈ xs.map f) : xs.mapM f = none := by
  cases hm : xs.mapM f with
  | none => rfl
  | some ys =>
    rw [mapM_eq_some_iff_map.mp hm] at h
    exact absurd h (none_notMem_map_some ys)

end Options

/-- The text of a value is a JSON text, or stuck. -/
def TextOf (t : Text) (o : Option Json) : Prop :=
  o.elim (Stuck t) fun j => j.Plain ∧ t = j.stringify

theorem not_textOf_nil {o : Option Json} : ¬ TextOf [] o := by
  intro h
  cases o with
  | none =>
    have hnone := @h (.value []) [] (.inl rfl)
    cases hnone
  | some j =>
    obtain ⟨hplain, hnil⟩ := h
    have hparse := parse_stringify hplain
    rw [← hnil] at hparse
    cases hparse

theorem textOf_number {x : Number} {t : Text} (h : serializeNumber x = .ok t) :
    TextOf t (some (.number x)) := by
  by_cases hx : x.isFinite
  · rw [serializeNumber_eq hx] at h
    cases h
    exact ⟨hx, rfl⟩
  · rw [serializeNumber, if_neg hx] at h
    cases h

theorem textOf_primitive {p : Primitive} (h : serializeLeaf (primitiveData p) path = .ok t) :
    TextOf t (primitiveData p).value := by
  cases p with
  | number x =>
    apply textOf_number (x := x)
    rw [serializeLeaf, primitiveData, serialize] at h
    cases hs : serializeNumber x with
    | ok s => rw [hs] at h; cases h; rfl
    | error e => rw [hs] at h; cases h
  | bool value => cases value <;> cases h <;> exact ⟨trivial, rfl⟩
  | negativeZero =>
    cases h
    have hzero : (Number.ofRat 0).isFinite := by decide +kernel
    exact ⟨hzero, stringify_zero.symm⟩
  | null | string _ => cases h; exact ⟨trivial, rfl⟩
  | undefined | bigint _ | symbol _ _ => cases h

/-- The items of an array are those that `map` visits; a missing one has no text. -/
theorem itemTexts {slots : List Slot} {ts : List Text}
    (h : (slots.zipIdx.mapM fun slot => slot.1.read.elim (.ok []) fun item =>
      serializeIn heap n item (path ++ 0x5B :: digitsOf slot.2 ++ [0x5D])) = .ok ts)
    (ih : ∀ {v : Value} {path t : Text}, serializeIn heap n v path = .ok t →
      TextOf t (reading heap n v)) :
    List.Forall₂ (fun slot t => slot = .hole ∧ t = [] ∨
      TextOf t (slot.read.bind (reading heap n))) slots ts := by
  rw [← List.zipIdx_map_fst 0 slots, List.forall₂_map_left_iff]
  apply (forall₂_of_mapM_ok h).imp
  rintro ⟨slot, i⟩ t ht
  cases slot with
  | hole => cases ht; exact .inl ⟨rfl, rfl⟩
  | hidden value | own value => exact .inr (ih ht)

theorem TextOf.itemText {o : Option Json} (h : TextOf t o) : ItemText t o := by
  cases o with
  | none => exact .inr h
  | some j => exact h

theorem textOf_array {slots : List Slot} {ts : List Text} {f : Slot → Option Json}
    (h : List.Forall₂ (fun slot t => slot = .hole ∧ t = [] ∨ TextOf t (f slot)) slots ts)
    (hhole : f .hole = none) (hslots : slots ≠ [.hole]) :
    TextOf (0x5B :: join [0x2C] ts ++ [0x5D]) ((slots.mapM f).map .array) := by
  have hts : ts ≠ [[]] := by
    rintro rfl
    cases h with
    | cons hslot hrest =>
      cases hrest
      rcases hslot with ⟨rfl, -⟩ | hslot
      · exact hslots rfl
      · exact not_textOf_nil hslot
  have hitems : List.Forall₂ ItemText ts (slots.map f) := by
    refine List.forall₂_map_right_iff.mpr (h.imp ?_).flip
    rintro slot t (⟨rfl, rfl⟩ | ht)
    · simp only [flip, hhole, ItemText, true_or]
    · exact ht.itemText
  rcases array_text hitems hts with ⟨items, hmap, hplain, rfl⟩ | ⟨hnone, hstuck⟩
  · rw [mapM_eq_some_iff_map.mpr hmap]
    exact ⟨hplain, rfl⟩
  · rw [mapM_eq_none_of_mem hnone]
    exact @hstuck

theorem textOf_object {members : List (Text × Value)} {ts : List Text} {f : Value → Option Json}
    (h : List.Forall₂ (fun m t => ∃ u, t = quote m.1 ++ 0x3A :: u ∧ TextOf u (f m.2)) members ts)
    (hd : (members.map Prod.fst).Nodup) :
    TextOf (0x7B :: join [0x2C] ts ++ [0x7D])
      ((members.mapM fun m => (f m.2).map fun j => (m.1, j)).map .object) := by
  have hms : List.Forall₂ MemberText ts (members.map fun m => (m.1, f m.2)) :=
    List.forall₂_map_right_iff.mpr h.flip
  have hkeys : ((members.map fun m => (m.1, f m.2)).map Prod.fst).Nodup := by
    rw [List.map_map]
    exact hd
  rcases object_text hms hkeys with ⟨ms, hmap, hplain, rfl⟩ | ⟨hnone, hstuck⟩
  · have hread : members.map (fun m => (f m.2).map fun j => (m.1, j)) = ms.map some := by
      have := congrArg (List.map fun m : Text × Option Json => m.2.map fun j => (m.1, j)) hmap
      rw [List.map_map, List.map_map] at this
      exact this
    rw [mapM_eq_some_iff_map.mpr hread]
    refine ⟨⟨?_, hplain⟩, rfl⟩
    rw [hmap, List.map_map] at hkeys
    exact hkeys
  · rw [mapM_eq_none_of_mem]
    · exact @hstuck
    · rw [List.map_map, List.mem_map] at hnone
      obtain ⟨m, hm, hnone⟩ := hnone
      exact List.mem_map.mpr ⟨m, hm, Option.map_eq_none_iff.mpr hnone⟩

/-- The text is that of the reading, and without one the reader does not get through it. -/
theorem textOf_serializeIn (h : serializeIn heap n v path = .ok t) :
    TextOf t (reading heap n v) := by
  induction n generalizing v path t with
  | zero => cases h
  | succ n ih =>
    cases v with
    | primitive p => exact textOf_primitive h
    | object reference =>
      rw [serializeIn] at h
      rw [reading]
      cases hobj : heap reference with
      | function => simp only [hobj] at h; cases h
      | date => simp only [hobj] at h; cases h
      | array slots named symbols =>
        simp only [hobj] at h ⊢
        obtain ⟨ts, hts, h⟩ := bind_eq_ok.mp h
        cases h
        split_ifs with hslots
        · rw [hslots] at hts
          cases hts
          exact ⟨trivial, rfl⟩
        · exact textOf_array (itemTexts hts ih) rfl hslots
      | ordinary members symbols =>
        simp only [hobj] at h ⊢
        obtain ⟨ts, hts, h⟩ := bind_eq_ok.mp h
        cases h
        refine textOf_object ((forall₂_of_mapM_ok hts).imp ?_) ?_
        · intro m t ht
          obtain ⟨u, hu, ht⟩ := bind_eq_ok.mp ht
          cases ht
          exact ⟨u, rfl, ih hu⟩
        · rw [sortKeys_eq, ((sortByKey_perm _).map _).nodup_iff]
          exact members.distinct

/-! ## What is accepted -/

theorem exists_mapM_pure {α β : Type} {m : Type → Type} [Monad m] [LawfulMonad m] {f : α → m β}
    {xs : List α} (h : ∀ x ∈ xs, ∃ y, f x = pure y) : ∃ ys, xs.mapM f = pure ys := by
  induction xs with
  | nil => exact ⟨[], List.mapM_nil⟩
  | cons x xs ih =>
    obtain ⟨⟨y, hy⟩, h⟩ := List.forall_mem_cons.mp h
    obtain ⟨ys, hys⟩ := ih h
    exact ⟨y :: ys, by rw [List.mapM_cons, hy, hys, pure_bind, pure_bind]⟩

theorem exists_mapM_ok {ε α β : Type} {f : α → Except ε β} {xs : List α} :
    (∃ ys, xs.mapM f = .ok ys) ↔ ∀ x ∈ xs, ∃ y, f x = .ok y :=
  ⟨fun ⟨_, h⟩ => exists_ok_of_mapM h, exists_mapM_pure⟩

theorem exists_bind_ok {ε α β : Type} {x : Except ε α} {f : α → β} :
    (∃ b, (x >>= fun a => .ok (f a)) = .ok b) ↔ ∃ a, x = .ok a := by
  cases x <;> simp [bind, Except.bind]

theorem writable_iff {p : Primitive} :
    (∃ t, serializeLeaf (primitiveData p) path = .ok t) ↔ writable p := by
  cases p with
  | number x =>
    rw [serializeLeaf, primitiveData, serialize, serializeNumber, writable]
    split_ifs with hx <;> simp [Except.mapError, hx]
  | undefined | bigint _ | symbol _ _ =>
    simp [serializeLeaf, primitiveData, serialize, refuse, Except.mapError, writable]
  | null | bool _ | negativeZero | string _ =>
    simp [serializeLeaf, primitiveData, serialize, Except.mapError, writable]

theorem slot_accepted {slot : Slot} {f : Value → Except Thrown Text} {P : Value → Prop}
    (h : ∀ item, (∃ t, f item = .ok t) ↔ P item) :
    (∃ t, slot.read.elim (.ok []) f = .ok t) ↔ ∀ item ∈ slot.read, P item := by
  cases slot with
  | hole => simp [Slot.read]
  | hidden value | own value => simp [Slot.read, h]

/-- `serialize` throws on what is not accepted, and on nothing else. -/
theorem canonicalizable_iff :
    (∃ t, serializeIn heap n v path = .ok t) ↔ Canonicalizable heap n v := by
  induction n generalizing v path with
  | zero => simp [serializeIn, Canonicalizable]
  | succ n ih =>
    cases v with
    | primitive p => exact writable_iff
    | object reference =>
      rw [serializeIn, Canonicalizable]
      cases hobj : heap reference with
      | function | date => simp [serializeLeaf, serialize, refuse, Except.mapError]
      | array slots named symbols =>
        apply (exists_bind_ok.trans exists_mapM_ok).trans
        apply (forall₂_congr fun x _ => slot_accepted fun _ => ih).trans
        have hmap := List.forall_mem_map (l := slots.zipIdx) (f := Prod.fst)
          (P := fun slot : Slot => ∀ item ∈ slot.read, Canonicalizable heap n item)
        rw [List.zipIdx_map_fst] at hmap
        exact hmap.symm
      | ordinary members symbols =>
        apply (exists_bind_ok.trans exists_mapM_ok).trans
        simp only [sortKeys_eq, (sortByKey_perm _).mem_iff]
        exact forall₂_congr fun m hm => exists_bind_ok.trans ih

/-! ## What is kept -/

/-- An accepted value from which nothing is lost can be read back. -/
theorem exists_reading (ha : Canonicalizable heap n v) (hf : Faithful heap n v) :
    ∃ j, reading heap n v = some j := by
  induction n generalizing v with
  | zero => exact absurd ha id
  | succ n ih =>
    cases v with
    | primitive p =>
      cases p with
      | undefined | bigint _ | symbol _ _ => cases ha
      | null | bool _ | number _ | negativeZero | string _ => exact ⟨_, rfl⟩
    | object reference =>
      rw [Canonicalizable] at ha
      rw [Faithful] at hf
      rw [reading]
      cases hobj : heap reference with
      | function | date => simp only [hobj] at ha
      | array slots named symbols =>
        simp only [hobj] at ha hf ⊢
        split_ifs with hslots
        · exact ⟨_, rfl⟩
        have hitems : ∀ slot ∈ slots, ∃ j, slot.read.bind (reading heap n) = some j := by
          intro slot hslot
          obtain ⟨item, rfl, hitem⟩ := (hf.2.2.resolve_left hslots) slot hslot
          exact ih (ha _ hslot item rfl) hitem
        obtain ⟨js, hjs⟩ := exists_mapM_pure hitems
        exact ⟨.array js, by rw [hjs]; rfl⟩
      | ordinary members symbols =>
        simp only [hobj] at ha hf ⊢
        have hmembers : ∀ m ∈ sortKeys members.entries,
            ∃ r, (reading heap n m.2).map (fun j => (m.1, j)) = some r := by
          intro m hm
          rw [sortKeys_eq, (sortByKey_perm _).mem_iff] at hm
          obtain ⟨j, hj⟩ := ih (ha m hm) (hf.2 m hm)
          exact ⟨(m.1, j), by rw [hj]; rfl⟩
        obtain ⟨ms, hms⟩ := exists_mapM_pure hmembers
        exact ⟨.object ms, by rw [hms]; rfl⟩

theorem le_of_mem_ownElements {slots : List Slot} {i : ℕ} {m : ℕ × Value}
    (h : m ∈ ownElements slots i) : i ≤ m.1 := by
  induction slots generalizing i with
  | nil => cases h
  | cons slot slots ih =>
    cases slot with
    | own value =>
      rcases List.mem_cons.mp h with rfl | h
      · exact le_rfl
      · have := ih h
        omega
    | hole | hidden value =>
      have := ih (i := i + 1) h
      omega

/-- The items are the content of the elements only if all elements are own ones. -/
theorem contentItems_iff {slots : List Slot} {js : List Json} {i : ℕ}
    (h : List.Forall₂ (fun slot j => slot.read.bind (reading heap n) = some j) slots js)
    (ih : ∀ {v j}, reading heap n v = some j → (Content heap j v ↔ Faithful heap n v)) :
    ContentItems heap js i (ownElements slots i) ↔
      ∀ slot ∈ slots, ∃ item, slot = .own item ∧ Faithful heap n item := by
  induction h generalizing i with
  | nil => simp [ContentItems, ownElements]
  | @cons slot j slots js hslot _ ih' =>
    rw [List.forall_mem_cons, ← ih' (i := i + 1)]
    cases slot with
    | hole => cases hslot
    | hidden value =>
      refine iff_of_false ?_ (by simp)
      rintro ⟨v, rest, hown, -⟩
      have hmem : (i, v) ∈ ownElements slots (i + 1) := by
        rw [ownElements] at hown
        rw [hown]
        exact List.mem_cons_self
        all_goals simp
      have := le_of_mem_ownElements hmem
      omega
    | own value =>
      have hvalue := ih (v := value) (j := j) hslot
      simp [ContentItems, ownElements, hvalue]

theorem contentMembers_iff {ms : List (Text × Json)} {entries : List (Text × Value)} :
    ContentMembers heap ms entries ↔
      ∀ m ∈ ms, ∃ v, entries.lookup m.1 = some v ∧ Content heap m.2 v := by
  induction ms with
  | nil => simp [ContentMembers]
  | cons m ms ih => rw [ContentMembers, ih, List.forall_mem_cons]

theorem content_array_iff {reference : ℕ} {slots : List Slot} {named : List (Text × Value)}
    {symbols : List (ℕ × Value)} {js : List Json}
    (hobj : heap reference = .array slots named symbols) :
    Content heap (.array js) (.object reference) ↔
      named = [] ∧ symbols = [] ∧ ContentItems heap js 0 (ownElements slots 0) := by
  rw [Content]
  constructor
  · rintro ⟨reference, slots', ⟨rfl⟩, hobj', hitems⟩
    cases hobj.symm.trans hobj'
    exact ⟨rfl, rfl, hitems⟩
  · rintro ⟨rfl, rfl, hitems⟩
    exact ⟨reference, slots, rfl, hobj, hitems⟩

theorem content_object_iff {reference : ℕ} {members : Members} {symbols : List (ℕ × Value)}
    {ms : List (Text × Json)} (hobj : heap reference = .ordinary members symbols) :
    Content heap (.object ms) (.object reference) ↔ symbols = [] ∧
      (members.entries.map Prod.fst).Perm (ms.map Prod.fst) ∧
      ContentMembers heap ms members.entries := by
  rw [Content]
  constructor
  · rintro ⟨reference, members', ⟨rfl⟩, hobj', hmembers⟩
    cases hobj.symm.trans hobj'
    exact ⟨rfl, hmembers⟩
  · rintro ⟨rfl, hmembers⟩
    exact ⟨reference, members, rfl, hobj, hmembers⟩

theorem content_primitive {p : Primitive} (h : (primitiveData p).value = some j) :
    Content heap j (.primitive p) := by
  cases p with
  | null | bool _ | string _ => cases h; simp [Content]
  | number x => cases h; exact .inl rfl
  | negativeZero => cases h; exact .inr ⟨rfl, rfl⟩
  | undefined | bigint _ | symbol _ _ => cases h

section Forall₂

variable {α β : Type} {R : α → β → Prop} {xs : List α} {ys : List β}

theorem forall₂_mem_left (h : List.Forall₂ R xs ys) {x : α} (hx : x ∈ xs) :
    ∃ y ∈ ys, R x y := by
  induction h with
  | nil => cases hx
  | cons hxy _ ih =>
    rcases List.mem_cons.mp hx with rfl | hx
    · exact ⟨_, List.mem_cons_self, hxy⟩
    · obtain ⟨y, hy, hxy⟩ := ih hx
      exact ⟨y, List.mem_cons_of_mem _ hy, hxy⟩

theorem forall₂_mem_right (h : List.Forall₂ R xs ys) {y : β} (hy : y ∈ ys) :
    ∃ x ∈ xs, R x y :=
  forall₂_mem_left h.flip hy

end Forall₂

/-- Members that were read, in the order of their keys. -/
theorem members_content {members : Members} {ms : List (Text × Json)}
    (h : List.Forall₂ (fun m r => m.1 = r.1 ∧ reading heap n m.2 = some r.2)
      (sortKeys members.entries) ms)
    (ih : ∀ {v j}, reading heap n v = some j → (Content heap j v ↔ Faithful heap n v)) :
    (members.entries.map Prod.fst).Perm (ms.map Prod.fst) ∧
      (ContentMembers heap ms members.entries ↔
        ∀ m ∈ members.entries, Faithful heap n m.2) := by
  have hperm : (sortKeys members.entries).Perm members.entries := by
    rw [sortKeys_eq]
    exact sortByKey_perm _
  have hkeys : ms.map Prod.fst = (sortKeys members.entries).map Prod.fst :=
    map_eq_of_forall₂ h fun m r hmr => hmr.1.symm
  refine ⟨hkeys ▸ (hperm.map Prod.fst).symm, ?_⟩
  rw [contentMembers_iff]
  constructor
  · intro hcontent m hm
    obtain ⟨r, hr, hkey, hread⟩ := forall₂_mem_left h (hperm.mem_iff.mpr hm)
    obtain ⟨v, hv, hrv⟩ := hcontent r hr
    rw [lookup_eq_some_iff_mem members.distinct, ← hkey] at hv
    have heq : m = (m.1, v) := List.inj_on_of_nodup_map members.distinct hm hv rfl
    have hvalue : m.2 = v := congrArg Prod.snd heq
    exact (ih hread).mp (hvalue ▸ hrv)
  · intro hfaithful r hr
    obtain ⟨m, hm, hkey, hread⟩ := forall₂_mem_right h hr
    have hm := hperm.mem_iff.mp hm
    exact ⟨m.2, (lookup_eq_some_iff_mem members.distinct).mpr (hkey ▸ hm),
      (ih hread).mpr (hfaithful m hm)⟩

/-- What is read is the content if and only if nothing is out of the way. -/
theorem content_iff (h : reading heap n v = some j) :
    Content heap j v ↔ Faithful heap n v := by
  induction n generalizing v j with
  | zero => cases h
  | succ n ih =>
    cases v with
    | primitive p => exact iff_of_true (content_primitive h) trivial
    | object reference =>
      rw [reading] at h
      rw [Faithful]
      cases hobj : heap reference with
      | function | date => simp only [hobj] at h; cases h
      | array slots named symbols =>
        simp only [hobj] at h ⊢
        split_ifs at h with hslots
        · cases h
          simp [content_array_iff hobj, hslots, ContentItems, ownElements]
        · obtain ⟨js, hjs, rfl⟩ := Option.map_eq_some_iff.mp h
          rw [content_array_iff hobj, contentItems_iff (forall₂_of_mapM_some hjs) ih]
          simp [hslots]
      | ordinary members symbols =>
        simp only [hobj] at h ⊢
        obtain ⟨ms, hms, rfl⟩ := Option.map_eq_some_iff.mp h
        have hread : List.Forall₂ (fun m r => m.1 = r.1 ∧ reading heap n m.2 = some r.2)
            (sortKeys members.entries) ms := by
          apply (forall₂_of_mapM_some hms).imp
          intro m r hr
          obtain ⟨j, hj, rfl⟩ := Option.map_eq_some_iff.mp hr
          exact ⟨rfl, hj⟩
        obtain ⟨hperm, hmembers⟩ := members_content hread ih
        simp [content_object_iff hobj, hperm, hmembers]

/-! ## Canonical texts -/

/-- The text of an accepted value is JSON for its content if and only if nothing is lost. -/
theorem parse_content_iff (h : canonicalizeIn heap n v = .ok t) :
    (∃ j, Json.parse t = some j ∧ Content heap j v) ↔ Faithful heap n v := by
  have ht := textOf_serializeIn h
  have ha : Canonicalizable heap n v := canonicalizable_iff.mp ⟨t, h⟩
  constructor
  · rintro ⟨j, hj, hcontent⟩
    cases hr : reading heap n v with
    | none =>
      rw [hr] at ht
      rw [parse_stuck ht] at hj
      cases hj
    | some j' =>
      rw [hr] at ht
      obtain ⟨hplain, rfl⟩ := ht
      rw [parse_stringify hplain] at hj
      cases hj
      exact (content_iff hr).mp hcontent
  · intro hf
    obtain ⟨j, hj⟩ := exists_reading ha hf
    rw [hj] at ht
    obtain ⟨hplain, rfl⟩ := ht
    exact ⟨j, parse_stringify hplain, (content_iff hj).mpr hf⟩

/--
A text of canonicalize reads back as the value's content exactly for the values that are refused or
have nothing enumerable out of the way, and of those two have one text only with one content.
-/
theorem canonicalizeIn_lossless (heap : Heap) (stack : ℕ) (v : Value) :
    ((∀ t, canonicalizeIn heap stack v = .ok t →
        ∃ j, Json.parse t = some j ∧ Content heap j v) ↔
      (Canonicalizable heap stack v → Faithful heap stack v)) ∧
    ∀ (heap' : Heap) (w : Value) (t : Text),
      (Canonicalizable heap stack v → Faithful heap stack v) →
      (Canonicalizable heap' stack w → Faithful heap' stack w) →
      canonicalizeIn heap stack v = .ok t → canonicalizeIn heap' stack w = .ok t →
      ∃ j, Content heap j v ∧ Content heap' j w := by
  have hiff : ∀ (heap : Heap) (v : Value),
      (∀ t, canonicalizeIn heap stack v = .ok t →
          ∃ j, Json.parse t = some j ∧ Content heap j v) ↔
        (Canonicalizable heap stack v → Faithful heap stack v) := by
    intro heap v
    constructor
    · intro h ha
      obtain ⟨t, ht⟩ := canonicalizable_iff.mpr ha
      exact (parse_content_iff ht).mp (h t ht)
    · intro h t ht
      exact (parse_content_iff ht).mpr (h (canonicalizable_iff.mp ⟨t, ht⟩))
  refine ⟨hiff heap v, fun heap' w t hv hw htv htw => ?_⟩
  obtain ⟨j, hj, hcontent⟩ := (hiff heap v).mpr hv t htv
  obtain ⟨j', hj', hcontent'⟩ := (hiff heap' w).mpr hw t htw
  cases hj.symm.trans hj'
  exact ⟨j, hcontent, hcontent'⟩

/-- An array `[, 1]`. -/
def sparse : Heap := fun _ => .array [.hole, .own (.nat 1)] [] []

/-- An object whose one property has a symbol as key, and an empty object. -/
def tagged : Heap
  | 0 => .ordinary ⟨[], List.nodup_nil⟩ [(0, .nat 1)]
  | _ => .ordinary ⟨[], List.nodup_nil⟩ []

theorem canonicalizeIn_lossy :
    (canonicalizeIn sparse 2 (.object 0) = .ok (units "[,1]") ∧
      Json.parse (units "[,1]") = none) ∧
    canonicalizeIn tagged 1 (.object 0) = .ok (units "\x7b\x7d") ∧
    canonicalizeIn tagged 1 (.object 1) = .ok (units "\x7b\x7d") ∧
    ¬ ∃ j, Content tagged j (.object 0) ∧ Content tagged j (.object 1) := by
  refine ⟨⟨by decide +kernel, by decide +kernel⟩, by rfl, by rfl, ?_⟩
  rintro ⟨j, hj, -⟩
  cases j with
  | object ms =>
    have hobj : tagged 0 = .ordinary ⟨[], List.nodup_nil⟩ [(0, .nat 1)] := rfl
    have hsymbols := (content_object_iff hobj).mp hj
    cases hsymbols.1
  | array items =>
    obtain ⟨reference, slots, ⟨rfl⟩, hobj, -⟩ := hj
    cases hobj
  | null | bool _ | string _ => cases hj
  | number x => rcases hj with hj | ⟨hj, -⟩ <;> cases hj

end AssureCode.Ledger
