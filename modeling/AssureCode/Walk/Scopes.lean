import Mathlib.Algebra.BigOperators.Group.List.Basic
import Mathlib.Data.List.Infix
import Mathlib.Tactic.Abel

/-! # Walks through trees

A forest is a row of branches, each a node with the forest below it. A walk visits a node before
what is below it. When some nodes are scopes, a node belongs to the nearest scope above it; the
weights of what belongs to a scope are added up along the tree, and again visit by visit.
-/

namespace AssureCode.Walk

inductive Forest (α : Type*)
  | nil
  | cons (label : α) (below after : Forest α)

structure Branch (α : Type*) where
  label : α
  below : Forest α

/-- A node where a walk finds it: its place, root last, and the nodes above it, nearest first. -/
structure Visit (α : Type*) where
  place : List ℕ
  node : Branch α
  above : List (List ℕ × Branch α)

variable {α M : Type*}

/-- The branches that stand in the row. -/
def Forest.branches : Forest α → List (Branch α)
  | nil => []
  | cons a below after => ⟨a, below⟩ :: after.branches

/-- The visits to the branches below `place`, the first of which is the `i`-th there. -/
def Forest.visits (place : List ℕ) (above : List (List ℕ × Branch α)) :
    ℕ → Forest α → List (Visit α)
  | _, nil => []
  | i, cons a below after =>
    ⟨i :: place, ⟨a, below⟩, above⟩ ::
      (visits (i :: place) ((i :: place, ⟨a, below⟩) :: above) 0 below ++
        visits place above (i + 1) after)

def Branch.visits (t : Branch α) : List (Visit α) :=
  Forest.visits [] [] 0 (.cons t.label t.below .nil)

/-- The place of the nearest scope. -/
def nearest (scope : Branch α → Bool) (above : List (List ℕ × Branch α)) : Option (List ℕ) :=
  (above.find? (scope ·.2)).map (·.1)

section Weights

variable [AddCommMonoid M] (scope : Branch α → Bool) (weight : Branch α → M)

/-- The weight of a forest without what belongs to the scopes in it. -/
def Forest.outer : Forest α → M
  | .nil => 0
  | .cons a below after =>
    weight ⟨a, below⟩ + (if scope ⟨a, below⟩ then 0 else below.outer) + after.outer

/-- The weight of what belongs to a scope. -/
def Branch.inner (t : Branch α) : M := t.below.outer scope weight

/-- The weight of what belongs to no scope. -/
def Branch.outer (t : Branch α) : M := Forest.outer scope weight (.cons t.label t.below .nil)

/-- The weight of the visited nodes that have the nearest scope at a place, or have none. -/
def tally (visits : List (Visit α)) (place : Option (List ℕ)) : M :=
  ((visits.filter fun v => nearest scope v.above = place).map (weight ·.node)).sum

variable {scope weight} {visits visits' : List (Visit α)} {place : List ℕ} {k : Option (List ℕ)}
  {above : List (List ℕ × Branch α)} {i : ℕ} {f : Forest α} {v : Visit α}

/-- Every weight belongs to one scope, or to none. -/
theorem Forest.sum_visits (place : List ℕ) (above : List (List ℕ × Branch α)) (i : ℕ)
    (f : Forest α) :
    ((f.visits place above i).map (weight ·.node)).sum =
      (((f.visits place above i).filter (scope ·.node)).map (·.node.inner scope weight)).sum +
        f.outer scope weight := by
  induction f generalizing place above i with
  | nil => simp [Forest.visits, Forest.outer]
  | cons a below after ihbelow ihafter =>
    rw [Forest.visits, Forest.outer, List.map_cons, List.sum_cons, List.map_append, List.sum_append,
      ihbelow, ihafter, List.filter_cons]
    by_cases h : scope ⟨a, below⟩ = true
    · rw [if_pos h, if_pos h]
      simp only [List.filter_append, List.map_cons, List.map_append, List.sum_cons, List.sum_append,
        Branch.inner]
      abel
    · rw [if_neg h, if_neg h]
      simp only [List.filter_append, List.map_append, List.sum_append]
      abel

@[simp] theorem tally_nil : tally scope weight ([] : List (Visit α)) k = 0 := rfl

theorem tally_cons : tally scope weight (v :: visits) k =
    (if nearest scope v.above = k then weight v.node else 0) + tally scope weight visits k := by
  rw [tally, List.filter_cons]
  split_ifs with h h' h' <;> simp_all [tally]

theorem tally_append : tally scope weight (visits ++ visits') k =
    tally scope weight visits k + tally scope weight visits' k := by
  simp [tally]

theorem tally_perm (h : visits.Perm visits') :
    tally scope weight visits k = tally scope weight visits' k :=
  ((h.filter _).map _).sum_eq

theorem nearest_cons {t : Branch α} : nearest scope ((place, t) :: above) =
    if scope t then some place else nearest scope above := by
  rw [nearest, List.find?_cons]
  cases scope t <;> rfl

/-- The first place is not at or below one of those from the `i`-th below the second on. -/
def Apart (x place : List ℕ) (i : ℕ) : Prop := ∀ j ≥ i, ¬ j :: place <:+ x

theorem Apart.ne {x : List ℕ} (h : Apart x place i) : x ≠ i :: place := by
  rintro rfl
  exact h i le_rfl List.suffix_rfl

theorem Apart.below {x : List ℕ} (h : Apart x place i) : Apart x (i :: place) 0 :=
  fun j _ hj => h i le_rfl ((List.suffix_cons j _).trans hj)

theorem Apart.after {x : List ℕ} (h : Apart x place i) : Apart x place (i + 1) :=
  fun j hj => h j (Nat.le_of_succ_le hj)

/-- Seen from a place apart, a forest has what belongs to the scope around it. -/
theorem tally_apart {x : List ℕ} (h : Apart x place i) :
    tally scope weight (f.visits place above i) (some x) =
      if nearest scope above = some x then f.outer scope weight else 0 := by
  induction f generalizing place above i with
  | nil => simp [Forest.visits, Forest.outer]
  | cons a below after ihbelow ihafter =>
    rw [Forest.visits, tally_cons, tally_append, ihbelow h.below, ihafter h.after, nearest_cons,
      Forest.outer]
    have hne : some (i :: place) ≠ some x := fun heq => h.ne (Option.some.inj heq).symm
    split_ifs <;> simp_all [add_assoc]

/-- The visits of a forest are at its own places. -/
theorem suffix_of_mem_visits (h : v ∈ f.visits place above i) :
    ∃ j ≥ i, j :: place <:+ v.place := by
  induction f generalizing place above i with
  | nil => cases h
  | cons a below after ihbelow ihafter =>
    rw [Forest.visits, List.mem_cons, List.mem_append] at h
    rcases h with rfl | h | h
    · exact ⟨i, le_rfl, List.suffix_rfl⟩
    · obtain ⟨j, -, hj⟩ := ihbelow h
      exact ⟨i, le_rfl, (List.suffix_cons j _).trans hj⟩
    · obtain ⟨j, hj, hsuffix⟩ := ihafter h
      exact ⟨j, Nat.le_of_succ_le hj, hsuffix⟩

theorem eq_of_suffix {x : List ℕ} {j : ℕ} (hi : i :: place <:+ x) (hj : j :: place <:+ x) :
    i = j := by
  have heq := (List.suffix_of_suffix_length_le hi hj le_rfl).eq_of_length rfl
  exact (List.cons.inj heq).1

/-- What is found at the `i`-th place or below it is apart from the places after it. -/
theorem apart_of_suffix {x : List ℕ} (h : i :: place <:+ x) : Apart x place (i + 1) :=
  fun _ hj hsuffix => Nat.ne_of_lt hj (eq_of_suffix h hsuffix)

theorem apart_self : Apart place place i := fun j _ h => by
  have := h.length_le
  rw [List.length_cons] at this
  omega

/-- A walk finds for each scope the weight of what belongs to it. -/
theorem tally_scope (h : ∀ x, nearest scope above = some x → Apart x place i)
    (hv : v ∈ f.visits place above i) (hscope : scope v.node = true) :
    tally scope weight (f.visits place above i) (some v.place) = v.node.inner scope weight := by
  induction f generalizing place above i with
  | nil => cases hv
  | cons a below after ihbelow ihafter =>
    have hnot : nearest scope above ≠ some v.place := fun hnearest => by
      obtain ⟨j, hj, hsuffix⟩ := suffix_of_mem_visits hv
      exact h _ hnearest j hj hsuffix
    rw [Forest.visits, List.mem_cons, List.mem_append] at hv
    rw [Forest.visits, tally_cons, tally_append, if_neg hnot, zero_add]
    rcases hv with rfl | hbelow | hafter
    · rw [tally_apart apart_self, tally_apart (apart_of_suffix List.suffix_rfl), if_neg hnot,
        nearest_cons, if_pos hscope, if_pos rfl, add_zero]
      rfl
    · obtain ⟨j, -, hj⟩ := suffix_of_mem_visits hbelow
      have hapart : ∀ x, nearest scope ((i :: place, ⟨a, below⟩) :: above) = some x →
          Apart x (i :: place) 0 := by
        intro x hx
        rw [nearest_cons] at hx
        split_ifs at hx
        · cases hx
          exact apart_self
        · exact (h x hx).below
      rw [ihbelow hapart hbelow,
        tally_apart (apart_of_suffix ((List.suffix_cons j _).trans hj)), if_neg hnot, add_zero]
    · obtain ⟨j, hj, hsuffix⟩ := suffix_of_mem_visits hafter
      have hout : ¬ i :: place <:+ v.place := fun hi =>
        Nat.ne_of_lt hj (eq_of_suffix hi hsuffix)
      have hnone : nearest scope ((i :: place, ⟨a, below⟩) :: above) ≠ some v.place := by
        rw [nearest_cons]
        split_ifs
        · exact fun heq => hout (Option.some.inj heq ▸ List.suffix_rfl)
        · exact hnot
      rw [tally_apart fun _ _ hi => hout ((List.suffix_cons _ _).trans hi), if_neg hnone, zero_add,
        ihafter (fun x hx => (h x hx).after) hafter]

namespace Branch

variable {t : Branch α}

theorem sum_visits (t : Branch α) : (t.visits.map (weight ·.node)).sum =
    ((t.visits.filter (scope ·.node)).map (·.node.inner scope weight)).sum +
      t.outer scope weight :=
  Forest.sum_visits [] [] 0 _

theorem tally_visits (hv : v ∈ t.visits) (hscope : scope v.node = true) :
    tally scope weight t.visits (some v.place) = v.node.inner scope weight :=
  tally_scope (fun _ h => by cases h) hv hscope

end Branch

end Weights

end AssureCode.Walk
