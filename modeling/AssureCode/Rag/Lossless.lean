import AssureCode.Rag.Grouping

/-! # No text is lost

Taken without what earlier windows of the same unit showed, the chunks have all the characters of
the text that are no space, in order.
-/

namespace AssureCode.Rag

open Js Python Windows

/-- Where the chunks of an emitted unit start in it. -/
def startsIn (targetChars overlapChars : ℕ) (unit : Text) : List ℕ :=
  if targetChars < unit.length then starts unit.length (stride targetChars overlapChars) else [0]

/--
The chunks are numbered in order. They are the chunks of emitted units, the last of them with what
was held back; without what windows before them covered, they have the text.
-/
structure Lossless (targetChars overlapChars : ℕ) (t : Text) (chunks : List Chunk) : Prop where
  numbered : chunks.map (·.idx) = List.range chunks.length
  kept : ∃ (units : List Text) (runt : Text),
    chunks.map (·.content) = addRunt (units.flatMap (emit targetChars overlapChars)) runt ∧
    (units.flatMap (startsIn targetChars overlapChars)).length = chunks.length ∧
    squeeze (uncovered 0 ((units.flatMap (startsIn targetChars overlapChars)).zip
      (chunks.map (·.content)))) = squeeze t

variable {t runt u : Text} {units : List Text} {target overlap : ℕ}

/-! ## Emitted units -/

theorem stride_pos : 0 < stride target overlap := lt_of_lt_of_le Nat.one_pos (le_max_left _ _)

theorem stride_le (h : 0 < target) : stride target overlap ≤ target :=
  max_le h (Nat.sub_le _ _)

theorem emit_ne_nil (hu : u ≠ []) : emit target overlap u ≠ [] := by
  unfold emit splitOversized
  split
  · exact slices_ne_nil stride_pos hu
  · exact List.cons_ne_nil _ _

theorem length_startsIn : (startsIn target overlap u).length = (emit target overlap u).length := by
  unfold startsIn emit splitOversized slices
  split <;> simp

theorem length_flatMap_startsIn (units : List Text) (target overlap : ℕ) :
    (units.flatMap (startsIn target overlap)).length =
      (units.flatMap (emit target overlap)).length := by
  simp [List.length_flatMap, length_startsIn]

/-- The chunks of emitted units, with their starts. -/
def marked (targetChars overlapChars : ℕ) (units : List Text) : List (ℕ × Text) :=
  (units.flatMap (startsIn targetChars overlapChars)).zip
    (units.flatMap (emit targetChars overlapChars))

theorem marked_cons : marked target overlap (u :: units) =
    (if target < u.length then windows u target (stride target overlap) else [(0, u)]) ++
      marked target overlap units := by
  simp only [marked, List.flatMap_cons, List.zip_append length_startsIn]
  congr 1
  unfold startsIn emit splitOversized
  split
  · exact zip_starts_slices
  · rfl

theorem fromZero_marked (h : ∀ u ∈ units, u ≠ []) : FromZero (marked target overlap units) := by
  cases units with
  | nil => simp [FromZero, marked]
  | cons u us =>
    rw [marked_cons]
    split
    · exact fromZero_windows_append stride_pos (h u List.mem_cons_self)
    · simp [FromZero]

/-- The chunks of emitted units show the units. -/
theorem uncovered_marked (overlap : ℕ) (htarget : 0 < target) (h : ∀ u ∈ units, u ≠ []) :
    uncovered 0 (marked target overlap units) = units.flatten := by
  induction units with
  | nil => rfl
  | cons u us ih =>
    obtain ⟨hu, hus⟩ := List.forall_mem_cons.mp h
    rw [marked_cons, List.flatten_cons, ← ih hus]
    split
    · exact uncovered_windows stride_pos (stride_le htarget) hu (fromZero_marked hus)
    · simp [uncovered, uncovered_of_fromZero (fromZero_marked hus)]

theorem advances_marked (target overlap : ℕ) (h : ∀ u ∈ units, u ≠ []) :
    Advances 0 (marked target overlap units) := by
  induction units with
  | nil => trivial
  | cons u us ih =>
    obtain ⟨hu, hus⟩ := List.forall_mem_cons.mp h
    rw [marked_cons]
    split
    · exact advances_windows stride_pos hu (fromZero_marked hus) (ih hus)
    · simp [Advances, advances_of_fromZero (fromZero_marked hus), ih hus]

/-! ## What is held back -/

/-- What is held back comes after all that the chunks show. -/
theorem uncovered_addRunt (htarget : 0 < target) (h : ∀ u ∈ units, u ≠ [])
    (hne : units.flatMap (emit target overlap) ≠ []) (hrunt : runt ≠ []) :
    uncovered 0 ((units.flatMap (startsIn target overlap)).zip
      (addRunt (units.flatMap (emit target overlap)) runt)) = units.flatten ++ space :: runt := by
  obtain ⟨init, last, hemit⟩ : ∃ init last, units.flatMap (emit target overlap) = init ++ [last] :=
    ⟨_, _, (List.dropLast_append_getLast hne).symm⟩
  have hlength := length_flatMap_startsIn units target overlap
  rw [hemit, List.length_append, List.length_singleton] at hlength
  have hstarts : units.flatMap (startsIn target overlap) ≠ [] := by
    rintro hnil
    simp [hnil] at hlength
  obtain ⟨firsts, i, hfirsts⟩ :
      ∃ firsts i, units.flatMap (startsIn target overlap) = firsts ++ [i] :=
    ⟨_, _, (List.dropLast_append_getLast hstarts).symm⟩
  have hzip : ∀ w, (firsts ++ [i]).zip (init ++ [w]) = firsts.zip init ++ [(i, w)] := by
    intro w
    rw [hfirsts] at hlength
    rw [List.zip_append (by simpa using hlength)]
    rfl
  have hmarked : marked target overlap units = firsts.zip init ++ [(i, last)] := by
    rw [marked, hfirsts, hemit, hzip]
  have hshow := uncovered_marked overlap htarget h
  have hadv := advances_marked target overlap h
  rw [hmarked] at hshow hadv
  rw [hemit, addRunt_concat _ _ hrunt, hfirsts, hzip, uncovered_extend hadv, hshow]

/-! ## The chunks -/

theorem numbered_zipIdx (contents : List Text) :
    (contents.zipIdx.map fun c => (⟨c.2, c.1⟩ : Chunk)).map (·.idx) =
      List.range (contents.zipIdx.map fun c => (⟨c.2, c.1⟩ : Chunk)).length := by
  simp [List.map_map, Function.comp_def, List.range_eq_range']

theorem length_addRunt (chunks : List Text) (hne : chunks ≠ []) :
    (addRunt chunks runt).length = chunks.length := by
  unfold addRunt
  split
  · rfl
  · rw [List.getLast?_eq_some_getLast hne]
    have hpos := List.length_pos_iff.mpr hne
    simp only [List.length_append, List.length_dropLast, List.length_singleton]
    omega

theorem squeeze_map_joined (groups : List (List Text)) :
    squeeze (groups.map joined).flatten = squeeze groups.flatten.flatten := by
  induction groups with
  | nil => rfl
  | cons g gs ih => simp [squeeze_joined, ih]

/-- What the loop makes of units is made of their groups, or of all of them. -/
theorem exists_kept (overlap : ℕ) {us rest : List Text} {groups : List (List Text)}
    (htarget : 16 ≤ target) (hgroup : Grouping 16 us groups rest) :
    ∃ (units : List Text) (runt : Text),
      addRunt (groups.flatMap fun g => emit target overlap (joined g)) (joined rest) =
        addRunt (units.flatMap (emit target overlap)) runt ∧
      (units.flatMap (startsIn target overlap)).length =
        (addRunt (units.flatMap (emit target overlap)) runt).length ∧
      squeeze (uncovered 0 ((units.flatMap (startsIn target overlap)).zip
        (addRunt (units.flatMap (emit target overlap)) runt))) = squeeze us.flatten := by
  have hpos : 0 < target := by omega
  have hunits := hgroup.ne_nil_of_mem (by decide)
  have hsqueeze : squeeze us.flatten =
      squeeze (groups.map joined).flatten ++ squeeze (joined rest) := by
    rw [hgroup.units, List.flatten_append, squeeze_append, squeeze_joined, squeeze_map_joined]
  rw [hsqueeze, ← List.flatMap_map]
  by_cases hrest : joined rest = []
  · refine ⟨groups.map joined, [], by rw [hrest], ?_, ?_⟩
    · exact length_flatMap_startsIn _ _ _
    · rw [hrest]
      simp only [addRunt, if_true, squeeze_nil, List.append_nil]
      rw [← marked, uncovered_marked overlap hpos hunits]
  · by_cases hnone : (groups.map joined).flatMap (emit target overlap) = []
    · -- What is held back is all there is, and a chunk of its own.
      have hgroups : groups.map joined = [] := by
        rw [List.eq_nil_iff_forall_not_mem]
        intro u hu
        exact emit_ne_nil (hunits u hu) (List.flatMap_eq_nil_iff.mp hnone u hu)
      have hshort : ¬ target < (joined rest).length := by
        have := hgroup.rest
        omega
      refine ⟨[joined rest], [], ?_, ?_, ?_⟩
      · simp [hnone, addRunt, hrest, emit, hshort]
      · simp [addRunt, emit, startsIn, hshort]
      · simp [hgroups, addRunt, emit, startsIn, hshort, uncovered]
    · refine ⟨groups.map joined, joined rest, rfl, ?_, ?_⟩
      · rw [length_addRunt _ hnone, length_flatMap_startsIn]
      · rw [uncovered_addRunt hpos hunits hnone hrest, squeeze_append,
          squeeze_cons_of_space rfl]

/-- Targets from 16 on lose no text, whatever the overlap. -/
theorem chunkText_lossless (t : Text) (overlap : ℕ) (htarget : 16 ≤ target) :
    Lossless target overlap t (chunkText t target overlap) := by
  obtain ⟨groups, rest, hgroup, hchunks⟩ := chunkText_eq t target overlap
  obtain ⟨units, runt, hcontents, hlength, hkept⟩ := exists_kept overlap htarget hgroup
  rw [hchunks, hcontents]
  constructor
  · exact numbered_zipIdx _
  · refine ⟨units, runt, map_content_zipIdx _, by simpa using hlength, ?_⟩
    rw [map_content_zipIdx, hkept, squeeze_splitUnits]

/-- A requirement in windows, and a note that is too short to stand alone. -/
def oneRequirement : Text :=
  text "Every failed delivery is retried with a growing delay until the receiver answers.\nNotes."

theorem chunkText_lossless_oneRequirement :
    Lossless 64 8 oneRequirement (chunkText oneRequirement 64 8) :=
  chunkText_lossless oneRequirement 8 (by decide)

end AssureCode.Rag
