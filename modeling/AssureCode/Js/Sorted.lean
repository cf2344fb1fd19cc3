import Mathlib.Data.List.Lex
import Mathlib.Data.List.Sort
import AssureCode.Js.Map
import AssureCode.Js.Stringify

/-! # Values up to the order of members

The members of an object have no order of their own. Two values are the same when every object in
one has the members of its counterpart, in whatever order; sorting the members by key all through
a value is a normal form of this.
-/

namespace AssureCode.Js

/-- Sort by key, in the order of code units. -/
def sortByKey {α : Type*} (members : List (Text × α)) : List (Text × α) :=
  members.insertionSort fun m n => m.1 ≤ n.1

section SortByKey

variable {α β : Type*} {ms ns : List (Text × α)}

theorem sortByKey_perm (ms : List (Text × α)) : (sortByKey ms).Perm ms :=
  List.perm_insertionSort _ ms

theorem sortByKey_idem (ms : List (Text × α)) : sortByKey (sortByKey ms) = sortByKey ms := by
  have htotal : Std.Total fun m n : Text × α => m.1 ≤ n.1 := ⟨fun m n => le_total m.1 n.1⟩
  have htrans : IsTrans (Text × α) fun m n => m.1 ≤ n.1 := ⟨fun _ _ _ => le_trans⟩
  exact (List.pairwise_insertionSort _ ms).insertionSort_eq

theorem map_sortByKey (f : α → β) (ms : List (Text × α)) :
    (sortByKey ms).map (fun m => (m.1, f m.2)) = sortByKey (ms.map fun m => (m.1, f m.2)) :=
  List.map_insertionSort _ _ _ _ fun _ _ _ _ => Iff.rfl

/-- With distinct keys there is one way to sort. -/
theorem sortByKey_eq (hd : (ms.map Prod.fst).Nodup) (h : ms.Perm ns) :
    sortByKey ms = sortByKey ns := by
  have htotal : Std.Total fun m n : Text × α => m.1 ≤ n.1 := ⟨fun m n => le_total m.1 n.1⟩
  have htrans : IsTrans (Text × α) fun m n => m.1 ≤ n.1 := ⟨fun _ _ _ => le_trans⟩
  refine List.Perm.eq_of_pairwise ?_
    (List.pairwise_insertionSort (fun m n : Text × α => m.1 ≤ n.1) ms)
    (List.pairwise_insertionSort _ ns)
    ((sortByKey_perm ms).trans (h.trans (sortByKey_perm ns).symm))
  intro m n hm hn hmn hnm
  have hm' : m ∈ ms := (sortByKey_perm ms).mem_iff.mp hm
  have hn' : n ∈ ms := h.mem_iff.mpr ((sortByKey_perm ns).mem_iff.mp hn)
  exact List.inj_on_of_nodup_map hd hm' hn' (le_antisymm hmn hnm)

end SortByKey

namespace Json

mutual

/-- Equal as JSON values: the members of objects may stand in another order. -/
def Same : Json → Json → Prop
  | .null, .null => True
  | .bool a, .bool b => a = b
  | .number a, .number b => a = b
  | .string a, .string b => a = b
  | .array vs, .array ws => SameItems vs ws
  | .object ms, .object ns => ms.length = ns.length ∧ SameMembers ms ns
  | _, _ => False

def SameItems : List Json → List Json → Prop
  | [], [] => True
  | v :: vs, w :: ws => Same v w ∧ SameItems vs ws
  | _, _ => False

/-- Every member of the first object has its counterpart in the second. -/
def SameMembers : List (Text × Json) → List (Text × Json) → Prop
  | [], _ => True
  | (key, v) :: ms, ns => (∃ w, ns.lookup key = some w ∧ Same v w) ∧ SameMembers ms ns

end

mutual

/-- No object has two members of one key. -/
def Distinct : Json → Prop
  | .array items => DistinctItems items
  | .object members => (members.map Prod.fst).Nodup ∧ DistinctMembers members
  | _ => True

def DistinctItems : List Json → Prop
  | [] => True
  | v :: vs => Distinct v ∧ DistinctItems vs

def DistinctMembers : List (Text × Json) → Prop
  | [] => True
  | (_, v) :: ms => Distinct v ∧ DistinctMembers ms

end

mutual

/-- All objects sorted by key. -/
def sorted : Json → Json
  | .array items => .array (sortedItems items)
  | .object members => .object (sortByKey (sortedMembers members))
  | v => v

def sortedItems : List Json → List Json
  | [] => []
  | v :: vs => sorted v :: sortedItems vs

def sortedMembers : List (Text × Json) → List (Text × Json)
  | [] => []
  | (key, v) :: ms => (key, sorted v) :: sortedMembers ms

end

/-- Induction over a value: a container follows from what is in it. -/
@[elab_as_elim]
theorem induct {motive : Json → Prop} (null : motive .null) (bool : ∀ value, motive (.bool value))
    (number : ∀ value, motive (.number value)) (string : ∀ value, motive (.string value))
    (array : ∀ items, (∀ v ∈ items, motive v) → motive (.array items))
    (object : ∀ members, (∀ m ∈ members, motive m.2) → motive (.object members)) (v : Json) :
    motive v :=
  @Json.rec motive (fun vs => ∀ v ∈ vs, motive v) (fun ms => ∀ m ∈ ms, motive m.2)
    (fun m => motive m.2) null bool number string (fun items ih => array items ih)
    (fun members ih => object members ih) (by simp)
    (fun _ _ hv hvs => List.forall_mem_cons.mpr ⟨hv, hvs⟩) (by simp)
    (fun _ _ hm hms => List.forall_mem_cons.mpr ⟨hm, hms⟩) (fun _ _ hv => hv) v

/-! ## Members and items, one by one -/

variable {v w : Json} {vs ws : List Json} {ms ns : List (Text × Json)}

theorem plainItems_iff : PlainItems vs ↔ ∀ v ∈ vs, v.Plain := by
  induction vs with
  | nil => simp [PlainItems]
  | cons v vs ih => rw [PlainItems, ih, List.forall_mem_cons]

theorem plainMembers_iff : PlainMembers ms ↔ ∀ m ∈ ms, m.2.Plain := by
  induction ms with
  | nil => simp [PlainMembers]
  | cons m ms ih => rw [PlainMembers, ih, List.forall_mem_cons]

theorem distinctItems_iff : DistinctItems vs ↔ ∀ v ∈ vs, v.Distinct := by
  induction vs with
  | nil => simp [DistinctItems]
  | cons v vs ih => rw [DistinctItems, ih, List.forall_mem_cons]

theorem distinctMembers_iff : DistinctMembers ms ↔ ∀ m ∈ ms, m.2.Distinct := by
  induction ms with
  | nil => simp [DistinctMembers]
  | cons m ms ih => rw [DistinctMembers, ih, List.forall_mem_cons]

theorem sortedItems_eq (vs : List Json) : sortedItems vs = vs.map sorted := by
  induction vs with
  | nil => rfl
  | cons v vs ih => rw [sortedItems, ih, List.map_cons]

theorem sortedMembers_eq (ms : List (Text × Json)) :
    sortedMembers ms = ms.map fun m => (m.1, m.2.sorted) := by
  induction ms with
  | nil => rfl
  | cons m ms ih => rw [sortedMembers, ih, List.map_cons]

theorem keys_sortedMembers (ms : List (Text × Json)) :
    (sortedMembers ms).map Prod.fst = ms.map Prod.fst := by
  rw [sortedMembers_eq, List.map_map]
  rfl

theorem sameMembers_iff :
    SameMembers ms ns ↔ ∀ m ∈ ms, ∃ w, ns.lookup m.1 = some w ∧ m.2.Same w := by
  induction ms with
  | nil => simp [SameMembers]
  | cons m ms ih => rw [SameMembers, ih, List.forall_mem_cons]

theorem Plain.distinct : ∀ {v : Json}, v.Plain → v.Distinct := by
  intro v
  induction v using Json.induct with
  | array items ih =>
    rw [Plain, Distinct, plainItems_iff, distinctItems_iff]
    exact fun h v hv => ih v hv (h v hv)
  | object members ih =>
    rw [Plain, Distinct, plainMembers_iff, distinctMembers_iff]
    exact fun h => ⟨h.1, fun m hm => ih m hm (h.2 m hm)⟩
  | _ => exact fun _ => trivial

theorem SameItems.exists_mem (h : SameItems vs ws) : ∀ v ∈ vs, ∃ w ∈ ws, v.Same w := by
  induction vs generalizing ws with
  | nil => simp
  | cons v vs ih =>
    cases ws with
    | nil => exact h.elim
    | cons w ws =>
      refine List.forall_mem_cons.mpr ⟨⟨w, List.mem_cons_self, h.1⟩, fun v' hv' => ?_⟩
      obtain ⟨w', hw', hsame⟩ := ih h.2 v' hv'
      exact ⟨w', List.mem_cons_of_mem _ hw', hsame⟩

/-- What is the same as a value with finite numbers has the same finite numbers. -/
theorem Plain.of_same {v w : Json} (hs : v.Same w) (hv : v.Distinct) (hw : w.Plain) : v.Plain := by
  induction v using Json.induct generalizing w with
  | null | bool value | string value => trivial
  | number value =>
    cases w with
    | number value' => exact (show value = value' from hs) ▸ hw
    | _ => exact hs.elim
  | array items ih =>
    cases w with
    | array items' =>
      rw [Distinct, distinctItems_iff] at hv
      rw [Plain, plainItems_iff] at hw ⊢
      intro v hmem
      obtain ⟨w, hw', hsame⟩ := SameItems.exists_mem hs v hmem
      exact ih v hmem hsame (hv v hmem) (hw w hw')
    | _ => exact hs.elim
  | object members ih =>
    cases w with
    | object members' =>
      rw [Distinct, distinctMembers_iff] at hv
      rw [Plain, plainMembers_iff] at hw ⊢
      refine ⟨hv.1, fun m hmem => ?_⟩
      obtain ⟨w, hw', hsame⟩ := sameMembers_iff.mp hs.2 m hmem
      exact ih m hmem hsame (hv.2 m hmem) (hw.2 _ ((lookup_eq_some_iff_mem hw.1).mp hw'))
    | _ => exact hs.elim

/-! ## The normal form -/

theorem sorted_sorted (v : Json) : v.sorted.sorted = v.sorted := by
  induction v using induct with
  | array items ih =>
    rw [sorted, sorted, sortedItems_eq, sortedItems_eq, List.map_map]
    exact congrArg _ (List.map_congr_left ih)
  | object members ih =>
    have hvalues : (sortedMembers members).map (fun m => (m.1, m.2.sorted)) =
        sortedMembers members := by
      rw [sortedMembers_eq, List.map_map]
      exact List.map_congr_left fun m hm => Prod.ext rfl (ih m hm)
    rw [sorted, sorted, sortedMembers_eq (sortByKey _), map_sortByKey, hvalues, sortByKey_idem]
  | _ => rfl

theorem plain_sorted : ∀ {v : Json}, v.Plain → v.sorted.Plain := by
  intro v
  induction v using induct with
  | array items ih =>
    rw [sorted, Plain, Plain, plainItems_iff, plainItems_iff, sortedItems_eq, List.forall_mem_map]
    exact fun h v hv => ih v hv (h v hv)
  | object members ih =>
    rw [sorted, Plain, Plain, plainMembers_iff, plainMembers_iff]
    rintro ⟨hd, hp⟩
    have hperm := sortByKey_perm (sortedMembers members)
    refine ⟨(hperm.map Prod.fst).nodup_iff.mpr (by rwa [keys_sortedMembers]), fun m hm => ?_⟩
    rw [hperm.mem_iff, sortedMembers_eq] at hm
    obtain ⟨n, hn, rfl⟩ := List.mem_map.mp hm
    exact ih n hn (hp n hn)
  | _ => exact id

theorem items_same_iff (h : ∀ v ∈ vs, ∀ w ∈ ws, v.Same w ↔ v.sorted = w.sorted) :
    SameItems vs ws ↔ sortedItems vs = sortedItems ws := by
  induction vs generalizing ws with
  | nil => cases ws <;> simp [SameItems, sortedItems]
  | cons v vs ih =>
    cases ws with
    | nil => simp [SameItems, sortedItems]
    | cons w ws =>
      have hrest := ih fun v hv w hw =>
        h v (List.mem_cons_of_mem _ hv) w (List.mem_cons_of_mem _ hw)
      rw [SameItems, h v List.mem_cons_self w List.mem_cons_self, hrest, sortedItems, sortedItems,
        List.cons.injEq]

/-- The members of two objects agree as soon as those of their sorted values do, in any order. -/
theorem members_same_iff (hms : (ms.map Prod.fst).Nodup) (hns : (ns.map Prod.fst).Nodup)
    (h : ∀ m ∈ ms, ∀ n ∈ ns, m.2.Same n.2 ↔ m.2.sorted = n.2.sorted) :
    ms.length = ns.length ∧ SameMembers ms ns ↔ (sortedMembers ms).Perm (sortedMembers ns) := by
  have hlength : ∀ ms, (sortedMembers ms).length = ms.length := fun ms => by
    rw [sortedMembers_eq, List.length_map]
  rw [sameMembers_iff]
  constructor
  · rintro ⟨hlen, hmem⟩
    have hsub : sortedMembers ms ⊆ sortedMembers ns := by
      intro x hx
      rw [sortedMembers_eq] at hx ⊢
      obtain ⟨m, hm, rfl⟩ := List.mem_map.mp hx
      obtain ⟨w, hw, hsame⟩ := hmem m hm
      have hw' : (m.1, w) ∈ ns := (lookup_eq_some_iff_mem hns).mp hw
      exact List.mem_map.mpr ⟨_, hw', Prod.ext rfl ((h m hm _ hw').mp hsame).symm⟩
    have hnodup : (sortedMembers ms).Nodup :=
      .of_map Prod.fst (by rwa [keys_sortedMembers])
    exact (hnodup.subperm hsub).perm_of_length_le (by rw [hlength, hlength, hlen])
  · intro hperm
    refine ⟨by rw [← hlength ms, ← hlength ns, hperm.length_eq], fun m hm => ?_⟩
    have hmem : (m.1, m.2.sorted) ∈ sortedMembers ns := by
      rw [← hperm.mem_iff, sortedMembers_eq]
      exact List.mem_map.mpr ⟨m, hm, rfl⟩
    rw [sortedMembers_eq] at hmem
    obtain ⟨n, hn, heq⟩ := List.mem_map.mp hmem
    obtain ⟨hkey, hvalue⟩ := Prod.mk.inj heq
    exact ⟨n.2, (lookup_eq_some_iff_mem hns).mpr (hkey ▸ hn), (h m hm n hn).mpr hvalue.symm⟩

/-- Sorting is a normal form: values are the same if and only if they are equal once sorted. -/
theorem same_iff_sorted {v w : Json} (hv : v.Plain) (hw : w.Plain) :
    v.Same w ↔ v.sorted = w.sorted := by
  induction v using induct generalizing w with
  | array items ih =>
    cases w with
    | array items' =>
      rw [Plain, plainItems_iff] at hv hw
      rw [Same, items_same_iff fun v hv' w hw' => ih v hv' (hv v hv') (hw w hw'), sorted, sorted,
        array.injEq]
    | _ => simp [Same, sorted]
  | object members ih =>
    cases w with
    | object members' =>
      rw [Plain, plainMembers_iff] at hv hw
      rw [Same, members_same_iff hv.1 hw.1 fun m hm n hn => ih m hm (hv.2 m hm) (hw.2 n hn), sorted,
        sorted, object.injEq]
      constructor
      · exact sortByKey_eq (by rw [keys_sortedMembers]; exact hv.1)
      · intro h
        exact (sortByKey_perm _).symm.trans (h ▸ sortByKey_perm _)
    | _ => simp [Same, sorted]
  | _ => cases w <;> simp [Same, sorted]

theorem same_sorted {v : Json} (hv : v.Plain) : v.sorted.Same v :=
  (same_iff_sorted (plain_sorted hv) hv).mpr (sorted_sorted v)

theorem stringify_inj {v w : Json} (hv : v.Plain) (hw : w.Plain) :
    v.stringify = w.stringify ↔ v = w := by
  refine ⟨fun h => ?_, congrArg _⟩
  have hread : some v = some w := by rw [← parse_stringify hv, ← parse_stringify hw, h]
  exact Option.some.inj hread

end Json

end AssureCode.Js
