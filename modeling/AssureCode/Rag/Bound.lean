import AssureCode.Rag.Grouping

/-! # The length of the chunks

Whole units and windows keep to the target. What is held back at the end of a text goes to the
last chunk as it is, without a look at its length.
-/

namespace AssureCode.Rag

open Js Python Windows

/-- The length of the last chunk of an emitted unit of this length. -/
def lastLength (targetChars overlapChars length : ℕ) : ℕ :=
  if targetChars < length then
    length - (length - 1) / stride targetChars overlapChars * stride targetChars overlapChars
  else length

/--
The short units that are left over at the end of the text, if there are any after a group of
others, fit behind the last chunk of that group with a space between.
-/
def RuntFits (targetChars overlapChars : ℕ) (t : Text) : Prop :=
  ∀ groups last rest, Grouping 16 (splitUnits t) (groups ++ [last]) rest → rest ≠ [] →
    lastLength targetChars overlapChars (joined last).length + 1 + (joined rest).length ≤
      targetChars

variable {t u runt : Text} {target overlap : ℕ}

theorem length_le_of_mem_emit {c : Text} (h : c ∈ emit target overlap u) : c.length ≤ target := by
  unfold emit splitOversized slices at h
  split at h
  · obtain ⟨i, -, rfl⟩ := List.mem_map.mp h
    rw [length_slice]
    exact min_le_left _ _
  · rename_i hle
    rw [List.mem_singleton] at h
    subst h
    exact Nat.le_of_not_lt hle

/-- The last chunk of an emitted unit. -/
theorem emit_eq_concat (overlap : ℕ) (hu : u ≠ []) (htarget : 0 < target) :
    ∃ init w, emit target overlap u = init ++ [w] ∧
      w.length = lastLength target overlap u.length := by
  unfold emit lastLength
  split
  · have hpos : 0 < stride target overlap := lt_of_lt_of_le Nat.one_pos (le_max_left _ _)
    have hle : stride target overlap ≤ target := max_le htarget (Nat.sub_le _ _)
    obtain ⟨init, hinit⟩ := slices_eq_concat target hpos hu
    refine ⟨init, _, hinit, ?_⟩
    have hlength := List.length_pos_iff.mpr hu
    have hdiv := Nat.div_add_mod' (u.length - 1) (stride target overlap)
    have hmod := Nat.mod_lt (u.length - 1) hpos
    rw [length_slice]
    omega
  · exact ⟨[], u, rfl, rfl⟩

theorem forall_mem_addRunt_iff {us : List Text} (hus : ∀ u ∈ us, u ≠ []) (htarget : 0 < target)
    (hrunt : runt.length ≤ target) :
    (∀ c ∈ addRunt (us.flatMap (emit target overlap)) runt, c.length ≤ target) ↔
      ∀ init last, us = init ++ [last] → runt ≠ [] →
        lastLength target overlap last.length + 1 + runt.length ≤ target := by
  have hemit : ∀ c ∈ us.flatMap (emit target overlap), c.length ≤ target := by
    rintro c hc
    obtain ⟨u, -, hc⟩ := List.mem_flatMap.mp hc
    exact length_le_of_mem_emit hc
  by_cases hnil : runt = []
  · simp only [addRunt, hnil, if_true]
    exact iff_of_true hemit (by simp)
  · induction us using List.reverseRecOn with
    | nil => simpa [addRunt, hnil] using hrunt
    | append_singleton us last ih =>
      obtain ⟨init, w, hlast, hlength⟩ := emit_eq_concat overlap (hus last (by simp)) htarget
      rw [List.flatMap_append, List.flatMap_singleton, hlast, ← List.append_assoc] at hemit ⊢
      rw [addRunt_concat _ _ hnil]
      constructor
      · rintro h init' last' hus' -
        obtain ⟨-, rfl⟩ := List.append_singleton_inj.mp hus'
        have hc := h (w ++ space :: runt) (by simp)
        rw [List.length_append, List.length_cons, hlength] at hc
        omega
      · rintro h c hc
        rcases List.mem_append.mp hc with hc | hc
        · exact hemit c (List.mem_append_left _ hc)
        · rw [List.mem_singleton] at hc
          subst hc
          have hfits := h us last rfl hnil
          rw [List.length_append, List.length_cons, hlength]
          omega

/-- The target bounds the chunks exactly when what is left over fits. -/
theorem chunkText_length_le_iff (t : Text) (overlap : ℕ) (htarget : 16 ≤ target) :
    (∀ c ∈ chunkText t target overlap, c.content.length ≤ target) ↔ RuntFits target overlap t := by
  obtain ⟨groups, rest, hgroup, hchunks⟩ := chunkText_eq t target overlap
  have hedged : ∀ u ∈ rest, Edged u := by
    rintro u hu
    apply edged_of_mem_splitUnits (t := t)
    rw [hgroup.units]
    exact List.mem_append_right _ hu
  have hrest : joined rest ≠ [] ↔ rest ≠ [] := by
    constructor
    · rintro h rfl
      exact h rfl
    · exact fun h => (edged_joined hedged h).ne_nil
  have hcontents : (∀ c ∈ chunkText t target overlap, c.content.length ≤ target) ↔
      ∀ c ∈ addRunt ((groups.map joined).flatMap (emit target overlap)) (joined rest),
        c.length ≤ target := by
    rw [hchunks, ← List.flatMap_map]
    conv_rhs => rw [← map_content_zipIdx (addRunt _ _), List.forall_mem_map]
  rw [hcontents, forall_mem_addRunt_iff (hgroup.ne_nil_of_mem (by decide)) (by omega)
     (by have := hgroup.rest; omega)]
  constructor
  · rintro h groups' last rest' hgroup' hne
    obtain ⟨rfl, rfl⟩ := hgroup.unique hgroup'
    exact h (groups'.map joined) (joined last) (by simp) (hrest.mpr hne)
  · rintro h init last hmap hne
    obtain ⟨gs, ls, rfl, rfl, hls⟩ := List.map_eq_append_iff.mp hmap
    obtain ⟨g, rfl, rfl⟩ := List.map_eq_singleton_iff.mp hls
    exact h gs g rest hgroup (hrest.mp hne)

/-! ## A runt behind a full chunk -/

/-- A line of 64 characters, and one of two. -/
def fullLine : Text := List.replicate 64 0x61 ++ newline :: [0x6F, 0x6B]

/-- A line of 60 characters, and one of two. -/
def shorterLine : Text := List.replicate 60 0x61 ++ newline :: [0x6F, 0x6B]

theorem runtFits_shorterLine :
    (∀ c ∈ chunkText shorterLine 64 0, c.content.length ≤ 64) ∧ RuntFits 64 0 shorterLine := by
  have hbound : ∀ c ∈ chunkText shorterLine 64 0, c.content.length ≤ 64 := by decide +kernel
  exact ⟨hbound, (chunkText_length_le_iff shorterLine 0 (by decide)).mp hbound⟩

/-- The one chunk has all of the line, a space and what was left over. -/
theorem fullLine_exceeds : ∃ c ∈ chunkText fullLine 64 0, c.content.length = 67 := by
  decide +kernel

end AssureCode.Rag
