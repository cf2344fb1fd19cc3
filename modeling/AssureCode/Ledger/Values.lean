import AssureCode.Js.Value
import AssureCode.Ledger.Normal

/-! # Canonical texts of all values

`serialize` on values that refer to objects, which may share parts, lead back to themselves and
have properties that `serialize` does not look at. Each call takes one frame of the call stack. On
a value that unfolds into a tree it is `serialize` of that tree.
-/

namespace AssureCode.Ledger

open Js Json

/-! ## Objects -/

/-- An array's element: missing, read through a prototype or hidden from enumeration, or its own. -/
inductive Slot
  | hole
  | hidden (value : Value)
  | own (value : Value)
  deriving DecidableEq

/-- What `map` reads of an element that it visits. -/
def Slot.read : Slot → Option Value
  | .hole => none
  | .hidden value => some value
  | .own value => some value

/-- The properties that `Object.keys` names, with their values. -/
structure Members where
  entries : List (Text × Value)
  distinct : (entries.map Prod.fst).Nodup

/-- An object, with its own enumerable properties. -/
inductive Object
  | function
  /-- `value instanceof Date` -/
  | date
  /-- An array, with its elements and what else it has. -/
  | array (slots : List Slot) (named : List (Text × Value)) (symbols : List (ℕ × Value))
  /-- Any other object: plain, boxed, a `Map`, a `Set`, an instance of a class. -/
  | ordinary (members : Members) (symbols : List (ℕ × Value))

/-- What the references refer to. -/
abbrev Heap : Type := ℕ → Object

/-! ## Serializing -/

/-- A value that is no object, as `serialize` sees it. -/
def primitiveData : Primitive → Data
  | .undefined => .undefined
  | .null => .null
  | .bool value => .bool value
  | .number value => .number value
  | .negativeZero => .negativeZero
  | .bigint _ => .bigint
  | .string value => .string value
  | .symbol _ _ => .symbol

inductive Thrown
  /-- The call stack is exceeded. -/
  | rangeError
  | notCanonicalizable (error : NotCanonicalizableError)
  deriving DecidableEq

/-- `serialize` of what it refuses or writes at once. -/
def serializeLeaf (d : Data) (path : Text) : Except Thrown Text :=
  (serialize d path).mapError .notCanonicalizable

/-- `serialize`, with the frames that the call stack still has. -/
def serializeIn (heap : Heap) : ℕ → Value → Text → Except Thrown Text
  | 0, _, _ => .error .rangeError
  | _ + 1, .primitive p, path => serializeLeaf (primitiveData p) path
  | stack + 1, .object reference, path =>
    match heap reference with
    | .function => serializeLeaf .function path
    | .array slots _ _ => do
      let items ← slots.zipIdx.mapM fun slot =>
        slot.1.read.elim (.ok []) fun item =>
          serializeIn heap stack item (path ++ 0x5B :: digitsOf slot.2 ++ [0x5D])
      return 0x5B :: join [0x2C] items ++ [0x5D]
    | .date => serializeLeaf .date path
    | .ordinary members _ => do
      let members ← (sortKeys members.entries).mapM fun member => do
        return serializeString member.1 ++
          0x3A :: (← serializeIn heap stack member.2 (path ++ 0x2E :: member.1))
      return 0x7B :: join [0x2C] members ++ [0x7D]

def canonicalizeIn (heap : Heap) (stack : ℕ) (value : Value) : Except Thrown Text :=
  serializeIn heap stack value (units "$")

/-- The tree that `serialize` sees, when the call stack suffices for it. -/
def view (heap : Heap) : ℕ → Value → Option Data
  | 0, _ => none
  | _ + 1, .primitive p => some (primitiveData p)
  | stack + 1, .object reference =>
    match heap reference with
    | .function => some .function
    | .array slots _ _ =>
      (slots.mapM fun slot : Slot =>
        slot.read.elim (some none) fun item => (view heap stack item).map some).map .array
    | .date => some .date
    | .ordinary members _ =>
      ((sortKeys members.entries).mapM fun member =>
        (view heap stack member.2).map fun d => (member.1, d)).map .object

/-! ## Runs over a list -/

section Run

variable {ε ε' α β γ : Type} {R : α → β → Prop} {xs : List α} {ys : List β}

theorem forall₂_of_mapM_ok {f : α → Except ε β} (h : xs.mapM f = .ok ys) :
    List.Forall₂ (fun x y => f x = .ok y) xs ys := by
  induction xs generalizing ys with
  | nil => cases h; exact .nil
  | cons x xs ih =>
    rw [List.mapM_cons] at h
    obtain ⟨y, hy, h⟩ := bind_eq_ok.mp h
    obtain ⟨zs, hzs, h⟩ := bind_eq_ok.mp h
    cases h
    exact .cons hy (ih hzs)

theorem forall₂_of_mapM_some {f : α → Option β} (h : xs.mapM f = some ys) :
    List.Forall₂ (fun x y => f x = some y) xs ys := by
  induction xs generalizing ys with
  | nil => cases h; exact .nil
  | cons x xs ih =>
    rw [List.mapM_cons] at h
    obtain ⟨y, hy, h⟩ := Option.bind_eq_some_iff.mp h
    obtain ⟨zs, hzs, h⟩ := Option.bind_eq_some_iff.mp h
    cases h
    exact .cons hy (ih hzs)

theorem mapM_congr_forall₂ {f : α → Except ε γ} {g : β → Except ε γ} (h : List.Forall₂ R xs ys)
    (hfg : ∀ x y, R x y → f x = g y) : xs.mapM f = ys.mapM g := by
  induction h with
  | nil => rfl
  | cons hxy _ ih => rw [List.mapM_cons, List.mapM_cons, hfg _ _ hxy, ih]

theorem forall₂_zipIdx (h : List.Forall₂ R xs ys) (i : ℕ) :
    List.Forall₂ (fun x y => R x.1 y.1 ∧ x.2 = y.2) (xs.zipIdx i) (ys.zipIdx i) := by
  induction h generalizing i with
  | nil => exact .nil
  | cons hxy _ ih => exact .cons ⟨hxy, rfl⟩ (ih (i + 1))

theorem map_eq_of_forall₂ {f : α → γ} {g : β → γ} (h : List.Forall₂ R xs ys)
    (hfg : ∀ x y, R x y → g y = f x) : ys.map g = xs.map f := by
  induction h with
  | nil => rfl
  | cons hxy _ ih => rw [List.map_cons, List.map_cons, hfg _ _ hxy, ih]

theorem mapError_map (x : Except ε α) (f : α → β) (g : ε → ε') :
    (x.map f).mapError g = (x.mapError g).map f := by
  cases x <;> rfl

theorem mapError_bind (x : Except ε α) (f : α → Except ε β) (g : ε → ε') :
    (x >>= f).mapError g = x.mapError g >>= fun a => (f a).mapError g := by
  cases x <;> rfl

theorem mapError_mapM (f : α → Except ε β) (g : ε → ε') (xs : List α) :
    (xs.mapM f).mapError g = xs.mapM fun x => (f x).mapError g := by
  induction xs with
  | nil => rfl
  | cons x xs ih =>
    rw [List.mapM_cons, List.mapM_cons, mapError_bind]
    simp only [mapError_bind, ih]
    rfl

end Run

/-! ## Trees -/

theorem serializeItems_zipIdx (items : List (Option Data)) (path : Text) (i : ℕ) :
    serializeItems items path i = (items.zipIdx i).mapM fun item =>
      item.1.elim (.ok []) fun d => serialize d (path ++ 0x5B :: digitsOf item.2 ++ [0x5D]) := by
  induction items generalizing i with
  | nil => rfl
  | cons item items ih =>
    cases item with
    | none => rw [serializeItems, ih, List.zipIdx_cons, List.mapM_cons]; rfl
    | some d => rw [serializeItems, ih, List.zipIdx_cons, List.mapM_cons]; rfl

theorem serializeMembers_map (members : List (Text × Data)) (path : Text) :
    serializeMembers members path =
      members.map fun m => (m.1, serialize m.2 (path ++ 0x2E :: m.1)) := by
  induction members with
  | nil => rfl
  | cons m members ih => rw [serializeMembers, ih, List.map_cons]

theorem sortByKey_of_sorted {α : Type} {ms : List (Text × α)}
    (h : (ms.map Prod.fst).Pairwise (· ≤ ·)) : sortByKey ms = ms :=
  List.Pairwise.insertionSort_eq (List.pairwise_map.mp h)

theorem sorted_sortKeys {α : Type} (ms : List (Text × α)) :
    ((sortKeys ms).map Prod.fst).Pairwise (· ≤ ·) := by
  have htotal : Std.Total fun m n : Text × α => m.1 ≤ n.1 := ⟨fun m n => le_total m.1 n.1⟩
  have htrans : IsTrans (Text × α) fun m n => m.1 ≤ n.1 := ⟨fun _ _ _ => le_trans⟩
  rw [sortKeys_eq]
  exact List.pairwise_map.mpr (List.pairwise_insertionSort _ ms)

/-- An object whose members are sorted is written member by member. -/
theorem serialize_sorted {members : List (Text × Data)} (path : Text)
    (h : (members.map Prod.fst).Pairwise (· ≤ ·)) :
    serialize (.object members) path =
      (members.mapM fun m => (serialize m.2 (path ++ 0x2E :: m.1)).map fun text =>
        serializeString m.1 ++ 0x3A :: text).map fun members =>
          0x7B :: join [0x2C] members ++ [0x7D] := by
  have hkeys : ((members.map fun m => (m.1, serialize m.2 (path ++ 0x2E :: m.1))).map
      Prod.fst).Pairwise (· ≤ ·) := by
    rw [List.map_map]
    exact h
  rw [serialize, serializeMembers_map, sortKeys_eq, sortByKey_of_sorted hkeys, List.mapM_map]
  rfl

/-- On a value that unfolds into a tree, `serialize` is that of the tree. -/
theorem serializeIn_of_view {heap : Heap} {stack : ℕ} {v : Value} {d : Data} (path : Text)
    (h : view heap stack v = some d) : serializeIn heap stack v path = serializeLeaf d path := by
  induction stack generalizing v d path with
  | zero => cases h
  | succ stack ih =>
    cases v with
    | primitive p => cases h; rfl
    | object reference =>
      rw [view] at h
      rw [serializeIn]
      cases hobj : heap reference with
      | function => simp only [hobj] at h ⊢; cases h; rfl
      | date => simp only [hobj] at h ⊢; cases h; rfl
      | array slots named symbols =>
        simp only [hobj] at h ⊢
        obtain ⟨items, hitems, rfl⟩ := Option.map_eq_some_iff.mp h
        rw [serializeLeaf, serialize, serializeItems_zipIdx, mapError_bind, mapError_mapM,
          mapM_congr_forall₂ (forall₂_zipIdx (forall₂_of_mapM_some hitems) 0)]
        · rfl
        rintro ⟨slot, i⟩ ⟨item, j⟩ ⟨hitem, rfl⟩
        cases hread : slot.read with
        | none => simp only [hread, Option.elim] at hitem ⊢; cases hitem; rfl
        | some value =>
          simp only [hread, Option.elim] at hitem ⊢
          obtain ⟨d, hd, rfl⟩ := Option.map_eq_some_iff.mp hitem
          exact ih _ hd
      | ordinary members symbols =>
        simp only [hobj] at h ⊢
        obtain ⟨ms, hms, rfl⟩ := Option.map_eq_some_iff.mp h
        have hms := forall₂_of_mapM_some hms
        have hkeys : ms.map Prod.fst = (sortKeys members.entries).map Prod.fst := by
          apply map_eq_of_forall₂ hms
          intro m d hd
          obtain ⟨d', -, rfl⟩ := Option.map_eq_some_iff.mp hd
          rfl
        rw [serializeLeaf, serialize_sorted path (hkeys ▸ sorted_sortKeys _), mapError_map,
          mapError_mapM, mapM_congr_forall₂ hms]
        · rfl
        intro m d hd
        obtain ⟨d', hd', rfl⟩ := Option.map_eq_some_iff.mp hd
        rw [ih _ hd', mapError_map]
        rfl

end AssureCode.Ledger
