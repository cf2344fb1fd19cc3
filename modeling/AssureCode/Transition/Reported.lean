import Mathlib.Data.List.Basic

/-! # Writes that are reported

A store is written and read, and reports of each write whether it took. What is reported is durable
when every live read shows it until its key is written again.
-/

namespace AssureCode.Reported

variable {κ ν σ ω : Type}

/-- What can be seen of an operation. -/
inductive Seen (κ ν : Type)
  | written (key : κ) (value : ν) (reported : Bool)
  | read (live : Bool) (contents : List (κ × ν))

/-- Live reads show the value until the key is written again. -/
def Kept (key : κ) (value : ν) : List (Seen κ ν) → Prop
  | [] => True
  | .written key' _ _ :: seen => key' = key ∨ Kept key value seen
  | .read live contents :: seen => (live → (key, value) ∈ contents) ∧ Kept key value seen

def Durable : List (Seen κ ν) → Prop
  | [] => True
  | .written key value reported :: seen => (reported → Kept key value seen) ∧ Durable seen
  | .read _ _ :: seen => Durable seen

section Run

variable (step : σ → ω → Seen κ ν × σ)

def observe : σ → List ω → List (Seen κ ν)
  | _, [] => []
  | s, o :: os => (step s o).1 :: observe (step s o).2 os

/-- Each operation with the state that it finds. -/
def visited : σ → List ω → List (σ × ω)
  | _, [] => []
  | s, o :: os => (s, o) :: visited (step s o).2 os

/-- The store has a value until its key is written again, and shows it in live reads. -/
structure Tracks (Holds : σ → κ → ν → Prop) : Prop where
  keeps : ∀ s o k v, Holds s k v → (∀ value reported, (step s o).1 ≠ .written k value reported) →
    Holds (step s o).2 k v
  shows : ∀ s o k v contents, Holds s k v → (step s o).1 = .read true contents →
    (k, v) ∈ contents

variable {step} {Holds : σ → κ → ν → Prop} {k : κ} {v : ν} {s : σ} {os : List ω}

theorem kept_observe (h : Tracks step Holds) (hs : Holds s k v) : Kept k v (observe step s os) := by
  induction os generalizing s with
  | nil => trivial
  | cons o os ih =>
    rw [observe]
    cases hseen : (step s o).1 with
    | written key value reported =>
      by_cases hkey : key = k
      · exact .inl hkey
      · refine .inr (ih (h.keeps s o k v hs fun value' reported' heq => hkey ?_))
        rw [hseen] at heq
        cases heq
        rfl
    | read live contents =>
      refine ⟨?_, ih (h.keeps s o k v hs fun _ _ heq => ?_)⟩
      · rintro rfl
        exact h.shows s o k v contents hs hseen
      · rw [hseen] at heq
        cases heq

/-- The rule: what every reported write puts into the store is durable. -/
theorem durable_observe (h : Tracks step Holds)
    (hwrite : ∀ p ∈ visited step s os, ∀ k v,
      (step p.1 p.2).1 = .written k v true → Holds (step p.1 p.2).2 k v) :
    Durable (observe step s os) := by
  induction os generalizing s with
  | nil => trivial
  | cons o os ih =>
    rw [visited, List.forall_mem_cons] at hwrite
    have hrest := ih hwrite.2
    rw [observe]
    cases hseen : (step s o).1 with
    | written key value reported =>
      refine ⟨?_, hrest⟩
      rintro rfl
      exact kept_observe h (hwrite.1 key value hseen)
    | read live contents => exact hrest

end Run

end AssureCode.Reported
