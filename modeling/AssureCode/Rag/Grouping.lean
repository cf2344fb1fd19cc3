import AssureCode.Rag.Chunker

/-! # Units put together

The loop of the chunker puts units together, with a space between them, until they are long
enough. What it emits and what it holds back are told from the units alone.
-/

namespace AssureCode.Rag

open Js Python Windows

/-- The units of a group, with a space between them. -/
def joined (us : List Text) : Text := [space].intercalate us

/-- A group is as long as a chunk has to be, and no beginning of it is. -/
structure Filled (least : ℕ) (g : List Text) : Prop where
  long : least ≤ (joined g).length
  short : ∀ p, p <+: g → p ≠ g → (joined p).length < least

/-- The units in groups, and those left over at the end. -/
structure Grouping (least : ℕ) (us : List Text) (groups : List (List Text)) (rest : List Text) :
    Prop where
  units : us = groups.flatten ++ rest
  filled : ∀ g ∈ groups, Filled least g
  rest : (joined rest).length < least

variable {u : Text} {us g g' p x rest rest' : List Text} {groups groups' : List (List Text)}
  {least target overlap : ℕ} {t : Text}

theorem joined_concat (hne : us ≠ []) : joined (us ++ [u]) = joined us ++ space :: u := by
  unfold joined
  induction us with
  | nil => exact absurd rfl hne
  | cons v vs ih =>
    cases vs with
    | nil => simp
    | cons w ws =>
      have h := ih (List.cons_ne_nil w ws)
      simp only [List.cons_append] at h
      simp [h]

theorem length_joined_append (p x : List Text) : (joined p).length ≤ (joined (p ++ x)).length := by
  induction x using List.reverseRecOn with
  | nil => simp
  | append_singleton x u ih =>
    rw [← List.append_assoc]
    by_cases h : p ++ x = []
    · obtain ⟨rfl, rfl⟩ := List.append_eq_nil_iff.mp h
      simp [joined]
    · rw [joined_concat h, List.length_append]
      omega

theorem length_joined_le (h : p <+: g) : (joined p).length ≤ (joined g).length := by
  obtain ⟨x, rfl⟩ := h
  exact length_joined_append p x

theorem edged_joined (h : ∀ u ∈ us, Edged u) (hne : us ≠ []) : Edged (joined us) := by
  induction us using List.reverseRecOn with
  | nil => exact absurd rfl hne
  | append_singleton us u ih =>
    have hu : Edged u := h u (by simp)
    by_cases hus : us = []
    · simpa [hus, joined] using hu
    · rw [joined_concat hus]
      exact (ih (fun v hv => h v (List.mem_append_left _ hv)) hus).join hu

theorem squeeze_joined (us : List Text) : squeeze (joined us) = squeeze us.flatten := by
  induction us using List.reverseRecOn with
  | nil => rfl
  | append_singleton us u ih =>
    by_cases hus : us = []
    · simp [hus, joined]
    · rw [joined_concat hus, squeeze_append, squeeze_cons_of_space rfl, ih]
      simp

theorem addRunt_concat (cs : List Text) (w : Text) {runt : Text} (hrunt : runt ≠ []) :
    addRunt (cs ++ [w]) runt = cs ++ [w ++ space :: runt] := by
  simp [addRunt, hrunt]

theorem map_content_zipIdx (contents : List Text) :
    (contents.zipIdx.map fun c => (⟨c.2, c.1⟩ : Chunk)).map (·.content) = contents := by
  simp [List.map_map, Function.comp_def]

theorem Grouping.ne_nil_of_mem (h : Grouping least us groups rest) (hleast : 0 < least) :
    ∀ u ∈ groups.map joined, u ≠ [] := by
  rintro u hu
  obtain ⟨g, hg, rfl⟩ := List.mem_map.mp hu
  have hlong := (h.filled g hg).long
  rintro hnil
  rw [hnil, List.length_nil] at hlong
  omega

/-! ## The loop -/

/-- The loop groups the units it has taken. -/
theorem foldl_takeUnit (hleast : 0 < least) (h : ∀ u ∈ us, Edged u) :
    ∃ groups rest, Grouping least us groups rest ∧
      us.foldl (takeUnit target overlap least) ([], []) =
        (groups.flatMap fun g => emit target overlap (joined g), joined rest) := by
  induction us using List.reverseRecOn with
  | nil => exact ⟨[], [], ⟨rfl, by simp, hleast⟩, rfl⟩
  | append_singleton us u ih =>
    obtain ⟨groups, rest, hgroup, hfold⟩ := ih fun v hv => h v (List.mem_append_left _ hv)
    have hrest : ∀ v ∈ rest, Edged v := by
      intro v hv
      exact h v (by simp [hgroup.units, hv])
    have hu : Edged u := h u (by simp)
    have hcurrent : (if joined rest = [] then u else strip (joined rest ++ space :: u)) =
        joined (rest ++ [u]) := by
      by_cases hnil : rest = []
      · simp [hnil, joined]
      · have hjoined := edged_joined hrest hnil
        rw [if_neg hjoined.ne_nil, strip_of_edged (hjoined.join hu), joined_concat hnil]
    rw [List.foldl_concat, hfold]
    simp only [takeUnit, hcurrent]
    split
    · rename_i hshort
      exact ⟨groups, rest ++ [u], ⟨by simp [hgroup.units], hgroup.filled, hshort⟩, rfl⟩
    · rename_i hlong
      refine ⟨groups ++ [rest ++ [u]], [], ⟨by simp [hgroup.units], ?_, hleast⟩, by simp [joined]⟩
      rintro g hg
      rcases List.mem_append.mp hg with hg | hg
      · exact hgroup.filled g hg
      · rw [List.mem_singleton] at hg
        subst hg
        constructor
        · exact Nat.le_of_not_lt hlong
        · intro p hp hne
          apply lt_of_le_of_lt (length_joined_le _) hgroup.rest
          rcases List.prefix_concat_iff.mp hp with hp | hp
          · exact absurd hp hne
          · exact hp

theorem splitUnits_of_blank (h : strip t = []) : splitUnits t = [] := by
  rw [List.eq_nil_iff_forall_not_mem]
  intro u hu
  obtain ⟨⟨c, hc, hspace⟩, -⟩ := edged_of_mem_splitUnits hu
  have hmem : c ∈ squeeze (splitUnits t).flatten := by
    rw [squeeze, List.mem_filter]
    exact ⟨List.mem_flatten.mpr ⟨u, hu, List.mem_of_head? hc⟩, by simp [hspace]⟩
  rw [squeeze_splitUnits, ← squeeze_strip, h] at hmem
  cases hmem

/-- The chunks of a text are those of the groups of its units. -/
theorem chunkText_eq (t : Text) (target overlap : ℕ) :
    ∃ groups rest, Grouping 16 (splitUnits t) groups rest ∧
      chunkText t target overlap =
        (addRunt (groups.flatMap fun g => emit target overlap (joined g)) (joined rest)).zipIdx.map
          fun c => ⟨c.2, c.1⟩ := by
  obtain ⟨groups, rest, hgroup, hfold⟩ :
      ∃ groups rest, Grouping 16 (splitUnits t) groups rest ∧
        (splitUnits t).foldl (takeUnit target overlap 16) ([], []) = _ :=
    foldl_takeUnit (by norm_num) fun u hu => edged_of_mem_splitUnits hu
  refine ⟨groups, rest, hgroup, ?_⟩
  by_cases hblank : strip t = []
  · rw [splitUnits_of_blank hblank, List.foldl_nil, Prod.mk.injEq] at hfold
    simp [chunkText, hblank, ← hfold.1, ← hfold.2, addRunt]
  · simp only [chunkText, hblank, if_false, hfold]

/-! ## One grouping -/

theorem Filled.eq_of_append_eq (hg : Filled least g) (hg' : Filled least g')
    (h : g ++ x = g' ++ p) : g = g' := by
  rcases List.prefix_or_prefix_of_prefix (List.prefix_append g x) (h ▸ List.prefix_append g' p)
    with hle | hle
  · by_contra hne
    exact absurd (hg'.short g hle hne) (Nat.not_lt.mpr hg.long)
  · by_contra hne
    exact absurd (hg.short g' hle (Ne.symm hne)) (Nat.not_lt.mpr hg'.long)

/-- Units are grouped in one way. -/
theorem Grouping.unique (h : Grouping least us groups rest) (h' : Grouping least us groups' rest') :
    groups = groups' ∧ rest = rest' := by
  induction groups generalizing us groups' with
  | nil =>
    cases groups' with
    | nil =>
      have hunits := h.units.symm.trans h'.units
      exact ⟨rfl, by simpa using hunits⟩
    | cons g' gs' =>
      have hunits : rest = g' ++ (gs'.flatten ++ rest') := by
        simpa using h.units.symm.trans h'.units
      have hlong := (h'.filled g' List.mem_cons_self).long
      have hshort := h.rest
      have hle := length_joined_append g' (gs'.flatten ++ rest')
      rw [← hunits] at hle
      omega
  | cons g gs ih =>
    cases groups' with
    | nil =>
      have hunits : rest' = g ++ (gs.flatten ++ rest) := by
        simpa using h'.units.symm.trans h.units
      have hlong := (h.filled g List.mem_cons_self).long
      have hshort := h'.rest
      have hle := length_joined_append g (gs.flatten ++ rest)
      rw [← hunits] at hle
      omega
    | cons g' gs' =>
      have hunits : g ++ (gs.flatten ++ rest) = g' ++ (gs'.flatten ++ rest') := by
        simpa using h.units.symm.trans h'.units
      obtain rfl := (h.filled g List.mem_cons_self).eq_of_append_eq
        (h'.filled g' List.mem_cons_self) hunits
      have htail : gs.flatten ++ rest = gs'.flatten ++ rest' := List.append_cancel_left hunits
      have hgs : Grouping least (gs.flatten ++ rest) gs rest :=
        ⟨rfl, fun k hk => h.filled k (List.mem_cons_of_mem _ hk), h.rest⟩
      have hgs' : Grouping least (gs.flatten ++ rest) gs' rest' :=
        ⟨htail, fun k hk => h'.filled k (List.mem_cons_of_mem _ hk), h'.rest⟩
      obtain ⟨rfl, rfl⟩ := ih hgs hgs'
      exact ⟨rfl, rfl⟩

end AssureCode.Rag
