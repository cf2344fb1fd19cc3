import Mathlib.Data.List.Nodup
import AssureCode.Js.Text

/-! # Maps

A JavaScript `Map` from strings keeps its keys in the order in which they were first set.
-/

namespace AssureCode.Js

/-- With distinct keys, looking a key up finds the entry that has it. -/
theorem lookup_eq_some_iff_mem {α : Type*} {entries : List (Text × α)} {k : Text} {v : α}
    (hd : (entries.map Prod.fst).Nodup) : entries.lookup k = some v ↔ (k, v) ∈ entries := by
  induction entries with
  | nil => simp
  | cons e entries ih =>
    obtain ⟨k', w⟩ := e
    rw [List.map_cons, List.nodup_cons] at hd
    rw [List.lookup_cons, List.mem_cons, Prod.mk.injEq, ← ih hd.2]
    by_cases hk : k = k'
    · subst hk
      have hnone : entries.lookup k ≠ some v := fun h =>
        hd.1 (List.mem_map.mpr ⟨_, (ih hd.2).mp h, rfl⟩)
      simp [hnone, eq_comm]
    · simp [beq_eq_false_iff_ne.mpr hk, hk]

structure Map (α : Type) where
  entries : List (Text × α)
  distinct : (entries.map Prod.fst).Nodup

namespace Map

variable {α : Type} {m : Map α} {k k' : Text} {v w : α}

def empty : Map α := ⟨[], .nil⟩

def size (m : Map α) : ℕ := m.entries.length

def get (m : Map α) (k : Text) : Option α := m.entries.lookup k

theorem keys_replace (entries : List (Text × α)) (k : Text) (v : α) :
    (entries.map fun e => if e.1 = k then (k, v) else e).map Prod.fst = entries.map Prod.fst := by
  rw [List.map_map]
  apply List.map_congr_left
  intro e _
  by_cases he : e.1 = k <;> simp [he]

theorem get_eq_some_iff : m.get k = some v ↔ (k, v) ∈ m.entries :=
  lookup_eq_some_iff_mem m.distinct

theorem mem_keys_iff : k ∈ m.entries.map Prod.fst ↔ ∃ v, m.get k = some v := by
  constructor
  · intro h
    obtain ⟨⟨_, v⟩, he, rfl⟩ := List.mem_map.mp h
    exact ⟨v, get_eq_some_iff.mpr he⟩
  · rintro ⟨v, h⟩
    exact List.mem_map.mpr ⟨_, get_eq_some_iff.mp h, rfl⟩

theorem not_mem_keys (h : m.get k = none) : k ∉ m.entries.map Prod.fst := by
  rw [mem_keys_iff, h]
  rintro ⟨v, ⟨⟩⟩

/-- A key that is there already keeps its place. -/
def set (m : Map α) (k : Text) (v : α) : Map α :=
  match h : m.get k with
  | some _ =>
    ⟨m.entries.map fun e => if e.1 = k then (k, v) else e, by
      rw [keys_replace]
      exact m.distinct⟩
  | none =>
    ⟨m.entries ++ [(k, v)], by
      rw [List.map_append]
      exact List.nodup_append'.mpr
        ⟨m.distinct, List.nodup_singleton k, by simpa using not_mem_keys h⟩⟩

theorem entries_set_of_some (h : m.get k = some w) : (m.set k v).entries =
    m.entries.map fun e => if e.1 = k then (k, v) else e := by
  unfold set
  split
  · rfl
  · next hnone => cases h.symm.trans hnone

theorem entries_set_of_none (h : m.get k = none) :
    (m.set k v).entries = m.entries ++ [(k, v)] := by
  unfold set
  split
  · next hsome => cases h.symm.trans hsome
  · rfl

def filter (m : Map α) (p : Text → α → Bool) : Map α :=
  ⟨m.entries.filter fun e => p e.1 e.2, m.distinct.sublist (List.filter_sublist.map _)⟩

def delete (m : Map α) (k : Text) : Map α := m.filter fun k' _ => k' ≠ k

/-- Delete the first `n` keys. -/
def drop (m : Map α) (n : ℕ) : Map α :=
  ⟨m.entries.drop n, m.distinct.sublist ((List.drop_sublist n _).map _)⟩

theorem size_set_of_some (h : m.get k = some w) : (m.set k v).size = m.size := by
  rw [size, entries_set_of_some h, List.length_map, size]

theorem size_set_of_none (h : m.get k = none) : (m.set k v).size = m.size + 1 := by
  rw [size, entries_set_of_none h, List.length_append, List.length_singleton, size]

theorem size_set_le : (m.set k v).size ≤ m.size + 1 := by
  cases h : m.get k with
  | some w =>
    rw [size_set_of_some h]
    exact Nat.le_succ _
  | none => rw [size_set_of_none h]

theorem size_filter_le (p : Text → α → Bool) : (m.filter p).size ≤ m.size :=
  List.length_filter_le ..

theorem size_drop (n : ℕ) : (m.drop n).size = m.size - n := by
  rw [drop, size, List.length_drop, size]

theorem size_drop_le (n : ℕ) : (m.drop n).size ≤ m.size := by
  rw [size_drop]
  exact Nat.sub_le ..

@[simp] theorem get_empty : (empty : Map α).get k = none := rfl

theorem mem_entries_set : (k', w) ∈ (m.set k v).entries ↔
    if k' = k then w = v else (k', w) ∈ m.entries := by
  cases h : m.get k with
  | some w' =>
    rw [entries_set_of_some h, List.mem_map]
    constructor
    · rintro ⟨e', he', heq⟩
      split at heq
      · cases heq
        rw [if_pos rfl]
      · next hne =>
        cases heq
        rwa [if_neg hne]
    · intro h'
      split at h'
      · next hk =>
        subst hk
        subst h'
        exact ⟨_, get_eq_some_iff.mp h, if_pos rfl⟩
      · next hk => exact ⟨(k', w), h', if_neg hk⟩
  | none =>
    rw [entries_set_of_none h, List.mem_append, List.mem_singleton, Prod.mk.injEq]
    split
    · next hk =>
      subst hk
      have hnot : (k', w) ∉ m.entries := fun hmem =>
        not_mem_keys h (List.mem_map.mpr ⟨_, hmem, rfl⟩)
      simp [hnot]
    · next hk => simp [hk]

theorem filter_eq_self {p : Text → α → Bool} (h : ∀ e ∈ m.entries, p e.1 e.2) :
    m.filter p = m := by
  obtain ⟨entries, distinct⟩ := m
  simpa only [filter, mk.injEq, List.filter_eq_self] using h

@[simp] theorem get_set_self : (m.set k v).get k = some v := by
  rw [get_eq_some_iff, mem_entries_set, if_pos rfl]

theorem get_set_ne (h : k' ≠ k) : (m.set k v).get k' = m.get k' := by
  ext w
  rw [get_eq_some_iff, get_eq_some_iff, mem_entries_set, if_neg h]

theorem get_filter (p : Text → α → Bool) : (m.filter p).get k = (m.get k).filter (p k) := by
  ext w
  rw [get_eq_some_iff, Option.filter_eq_some_iff, get_eq_some_iff]
  exact List.mem_filter

@[simp] theorem get_delete_self : (m.delete k).get k = none := by
  rw [delete, get_filter, Option.filter_eq_none_iff]
  simp

theorem get_delete_ne (h : k' ≠ k) : (m.delete k).get k' = m.get k' := by
  rw [delete, get_filter]
  cases m.get k' <;> simp [h]

theorem get_of_get_drop {n : ℕ} (h : (m.drop n).get k = some v) : m.get k = some v :=
  get_eq_some_iff.mpr (List.mem_of_mem_drop (get_eq_some_iff.mp h))

end Map

end AssureCode.Js
