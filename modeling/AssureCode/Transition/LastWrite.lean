import Mathlib.Data.List.Induction
import Mathlib.Order.Lattice
import Mathlib.Tactic.Common

/-! # The last write

A register that takes a write unless it holds one stamped later. When the stamps tell the writes
apart, what it holds in the end depends on the set of the writes alone.
-/

namespace AssureCode.LastWrite

variable {α τ : Type*} [LinearOrder τ] (stamp : α → τ)

/-- A write replaces what is not stamped later. -/
def write (held : Option α) (a : α) : Option α :=
  match held with
  | none => some a
  | some b => if stamp b ≤ stamp a then some a else held

variable {stamp} {held : Option α} {a b : α} {as bs : List α}

theorem write_of_le (h : ∀ b ∈ held, stamp b ≤ stamp a) : write stamp held a = some a := by
  cases held with
  | none => rfl
  | some b => exact if_pos (h b rfl)

theorem write_of_lt (h : ¬ ∀ b ∈ held, stamp b ≤ stamp a) : write stamp held a = held := by
  cases held with
  | none => exact absurd nofun h
  | some b =>
    refine if_neg fun hle => h ?_
    rintro _ ⟨⟩
    exact hle

variable (stamp) in
/-- It holds one of the writes, and none of them is stamped later. -/
def Latest (as : List α) : Option α → Prop
  | none => as = []
  | some a => a ∈ as ∧ ∀ b ∈ as, stamp b ≤ stamp a

theorem latest_write (h : Latest stamp as held) :
    Latest stamp (as ++ [a]) (write stamp held a) := by
  by_cases hle : ∀ b ∈ held, stamp b ≤ stamp a
  · rw [write_of_le hle]
    refine ⟨by simp, ?_⟩
    rw [List.forall_mem_append, List.forall_mem_singleton]
    refine ⟨fun c hc => ?_, le_rfl⟩
    cases held with
    | none =>
      cases h
      cases hc
    | some b => exact le_trans (h.2 c hc) (hle b rfl)
  · rw [write_of_lt hle]
    cases held with
    | none => exact absurd nofun hle
    | some b =>
      refine ⟨List.mem_append_left _ h.1, ?_⟩
      rw [List.forall_mem_append, List.forall_mem_singleton]
      refine ⟨h.2, ?_⟩
      by_contra hlt
      apply hle
      rintro _ ⟨⟩
      exact le_of_lt (not_le.mp hlt)

theorem latest_foldl (as : List α) : Latest stamp as (as.foldl (write stamp) none) := by
  induction as using List.reverseRecOn with
  | nil => rfl
  | append_singleton as a ih =>
    rw [List.foldl_append]
    exact latest_write ih

/-- Where the stamps tell the writes apart, one that none is stamped later than is held. -/
theorem Latest.eq_some (h : Latest stamp as held) (hinj : ∀ b ∈ as, ∀ c ∈ as,
      stamp b = stamp c → b = c) (ha : a ∈ as) (hmax : ∀ b ∈ as, stamp b ≤ stamp a) :
    held = some a := by
  cases held with
  | none =>
    cases h
    cases ha
  | some b => rw [hinj b h.1 a ha (le_antisymm (hmax b h.1) (h.2 a ha))]

end AssureCode.LastWrite
