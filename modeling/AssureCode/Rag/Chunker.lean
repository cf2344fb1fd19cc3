import AssureCode.Python.Text
import AssureCode.Windows.Cover

/-! # The chunker

The text of a contract is split into semantic units, and each of them becomes a chunk. A unit that
is too short is held back for the next one, and a longer one than the target is read in windows.
-/

namespace AssureCode.Rag

open Js Python Windows

abbrev space : ℕ := 0x20

structure Chunk where
  idx : ℕ
  content : Text
  deriving DecidableEq, Repr

/-! ## Units -/

/-- `text.split("\n\n")` -/
def paragraphs : Text → List Text
  | [] => [[]]
  | [c] => [[c]]
  | c :: d :: t =>
    if c = newline ∧ d = newline then [] :: paragraphs t
    else (paragraphs (d :: t)).modifyHead (c :: ·)

/-- A terminator of a sentence. -/
def isTerminator (c : ℕ) : Bool := c == 0x2E || c == 0x21 || c == 0x3F

/--
`_SENTENCE_BREAK.split`, after a character that may end a sentence, or inside of the break that
follows such a character.
-/
def sentences (ended inBreak : Bool) : Text → List Text
  | [] => [[]]
  | c :: t =>
    if isSpace c && inBreak then sentences false true t
    else if isSpace c && ended then [] :: sentences false true t
    else (sentences (isTerminator c) false t).modifyHead (c :: ·)

/-- The pieces without the space around them, if there is anything else. -/
def trimmed (pieces : List Text) : List Text := (pieces.map strip).filter (· ≠ [])

/-- The lines of the paragraphs. -/
def lineUnits (t : Text) : List Text := (trimmed (paragraphs t)).flatMap fun p => trimmed (lines p)

def splitUnits (t : Text) : List Text :=
  let units := lineUnits t
  if units.length ≤ 1 then trimmed (sentences false false (units.head?.getD (strip t))) else units

/-! ## Chunks -/

def stride (targetChars overlapChars : ℕ) : ℕ := max 1 (targetChars - overlapChars)

def splitOversized (unit : Text) (targetChars overlapChars : ℕ) : List Text :=
  slices unit targetChars (stride targetChars overlapChars)

/-- The chunks of a text that is long enough. -/
def emit (targetChars overlapChars : ℕ) (current : Text) : List Text :=
  if targetChars < current.length then splitOversized current targetChars overlapChars
  else [current]

/-- A unit after the chunks so far and what is held back. -/
def takeUnit (targetChars overlapChars minChunkChars : ℕ) (s : List Text × Text) (unit : Text) :
    List Text × Text :=
  let current := if s.2 = [] then unit else strip (s.2 ++ space :: unit)
  if current.length < minChunkChars then (s.1, current)
  else (s.1 ++ emit targetChars overlapChars current, [])

/-- What is held back in the end goes to the last chunk. -/
def addRunt (chunks : List Text) (pending : Text) : List Text :=
  if pending = [] then chunks
  else match chunks.getLast? with
    | some last => chunks.dropLast ++ [last ++ space :: pending]
    | none => [pending]

def chunkText (t : Text) (targetChars : ℕ := 512) (overlapChars : ℕ := 64)
    (minChunkChars : ℕ := 16) : List Chunk :=
  if strip t = [] then []
  else
    let s := (splitUnits t).foldl (takeUnit targetChars overlapChars minChunkChars) ([], [])
    (addRunt s.1 s.2).zipIdx.map fun c => ⟨c.2, c.1⟩

/-! ## What splitting keeps -/

/-- The characters that are no space. -/
def squeeze (t : Text) : Text := t.filter fun c => !isSpace c

/-- A text that does not begin or end with space. -/
structure Edged (t : Text) : Prop where
  head : ∃ c, t.head? = some c ∧ isSpace c = false
  last : ∃ c, t.getLast? = some c ∧ isSpace c = false

variable {s t u : Text} {pieces us : List Text}

@[simp] theorem squeeze_nil : squeeze [] = [] := rfl

@[simp] theorem squeeze_append (s t : Text) : squeeze (s ++ t) = squeeze s ++ squeeze t := by
  simp [squeeze]

theorem squeeze_cons_of_space {c : ℕ} (h : isSpace c = true) (t : Text) :
    squeeze (c :: t) = squeeze t := by
  simp [squeeze, h]

theorem squeeze_eq_nil (h : ∀ c ∈ t, isSpace c) : squeeze t = [] := by
  rw [squeeze, List.filter_eq_nil_iff]
  rintro c hc
  simp [h c hc]

theorem squeeze_flatten_modifyHead (c : ℕ) (hne : pieces ≠ []) :
    squeeze (pieces.modifyHead (c :: ·)).flatten = squeeze [c] ++ squeeze pieces.flatten := by
  cases pieces with
  | nil => exact absurd rfl hne
  | cons p ps =>
    rw [← squeeze_append]
    rfl

@[simp] theorem squeeze_strip (t : Text) : squeeze (strip t) = squeeze t := by
  have hleft : squeeze (t.takeWhile isSpace) = [] :=
    squeeze_eq_nil fun c hc => List.mem_takeWhile_imp hc
  have hright : squeeze ((t.dropWhile isSpace).rtakeWhile isSpace) = [] :=
    squeeze_eq_nil fun c hc => List.mem_rtakeWhile_imp hc
  calc squeeze (strip t)
      = squeeze (strip t ++ (t.dropWhile isSpace).rtakeWhile isSpace) := by
        rw [squeeze_append, hright, List.append_nil]
    _ = squeeze (t.dropWhile isSpace) := by
        rw [strip, List.rdropWhile_append_rtakeWhile]
    _ = squeeze (t.takeWhile isSpace ++ t.dropWhile isSpace) := by
        rw [squeeze_append, hleft, List.nil_append]
    _ = squeeze t := by rw [List.takeWhile_append_dropWhile]

/-! ## Trimmed texts -/

theorem edged_strip (h : strip t ≠ []) : Edged (strip t) := by
  have hbare : Bare isSpace (strip t) := bare_dropWhile_rdropWhile isSpace t
  have hhead := List.head?_eq_some_head h
  have hlast := List.getLast?_eq_some_getLast h
  exact ⟨⟨_, hhead, hbare.head _ hhead⟩, ⟨_, hlast, hbare.last _ hlast⟩⟩

theorem strip_of_edged (h : Edged t) : strip t = t := by
  obtain ⟨⟨c, hc, hcspace⟩, ⟨d, hd, hdspace⟩⟩ := h
  refine Bare.dropWhile_rdropWhile ⟨fun u hu => ?_, fun u hu => ?_⟩
  · cases hc.symm.trans hu
    exact hcspace
  · cases hd.symm.trans hu
    exact hdspace

theorem Edged.ne_nil (h : Edged t) : t ≠ [] := by
  obtain ⟨⟨c, hc, -⟩, -⟩ := h
  rintro rfl
  cases hc

theorem Edged.join (hs : Edged s) (ht : Edged t) : Edged (s ++ space :: t) := by
  constructor
  · obtain ⟨c, hc, hspace⟩ := hs.head
    exact ⟨c, by rw [List.head?_append_of_ne_nil _ hs.ne_nil, hc], hspace⟩
  · obtain ⟨c, hc, hspace⟩ := ht.last
    refine ⟨c, ?_, hspace⟩
    rw [List.getLast?_append_of_ne_nil _ (List.cons_ne_nil _ _),
      List.getLast?_cons_of_ne_nil ht.ne_nil,
      hc]

theorem edged_of_mem_trimmed (h : u ∈ trimmed pieces) : Edged u := by
  simp only [trimmed, List.mem_filter, List.mem_map, decide_eq_true_eq] at h
  obtain ⟨⟨p, -, rfl⟩, hne⟩ := h
  exact edged_strip hne

theorem squeeze_trimmed (pieces : List Text) :
    squeeze (trimmed pieces).flatten = squeeze pieces.flatten := by
  induction pieces with
  | nil => rfl
  | cons p ps ih =>
    rw [List.flatten_cons, squeeze_append, ← ih, ← squeeze_strip p]
    by_cases h : strip p = []
    · simp [trimmed, h]
    · simp [trimmed, h]

/-! ## Units -/

theorem paragraphs_ne_nil (t : Text) : paragraphs t ≠ [] := by
  fun_induction paragraphs <;> simp_all

theorem squeeze_paragraphs (t : Text) : squeeze (paragraphs t).flatten = squeeze t := by
  fun_induction paragraphs with
  | case1 => rfl
  | case2 c => simp
  | case3 c d t h ih =>
    obtain ⟨rfl, rfl⟩ := h
    exact ih
  | case4 c d t h ih =>
    rw [squeeze_flatten_modifyHead c (paragraphs_ne_nil _), ih, ← squeeze_append]
    rfl

theorem sentences_ne_nil (ended inBreak : Bool) (t : Text) : sentences ended inBreak t ≠ [] := by
  fun_induction sentences <;> simp_all

theorem squeeze_sentences (ended inBreak : Bool) (t : Text) :
    squeeze (sentences ended inBreak t).flatten = squeeze t := by
  fun_induction sentences with
  | case1 => rfl
  | case2 ended inBreak c t h ih =>
    rw [ih, squeeze_cons_of_space (Bool.and_eq_true_iff.mp h).1]
  | case3 ended inBreak c t h h' ih =>
    rw [List.flatten_cons, List.nil_append, ih,
      squeeze_cons_of_space (Bool.and_eq_true_iff.mp h').1]
  | case4 ended inBreak c t h h' ih =>
    rw [squeeze_flatten_modifyHead c (sentences_ne_nil _ _ _), ih, ← squeeze_append]
    rfl

theorem squeeze_lines (t : Text) : squeeze (lines t).flatten = squeeze t := by
  unfold lines
  induction t with
  | nil => rfl
  | cons c t ih =>
    rw [List.splitOn_cons_eq_if_modifyHead]
    split
    · rename_i h
      rw [beq_iff_eq] at h
      subst h
      exact ih
    · rw [squeeze_flatten_modifyHead c (List.splitOn_ne_nil _ _), ih, ← squeeze_append]
      rfl

theorem squeeze_lineUnits (t : Text) : squeeze (lineUnits t).flatten = squeeze t := by
  have hlines : ∀ pieces : List Text,
      squeeze (pieces.flatMap fun p => trimmed (lines p)).flatten = squeeze pieces.flatten := by
    intro pieces
    induction pieces with
    | nil => rfl
    | cons p ps ih => simp [squeeze_trimmed, squeeze_lines, ih]
  rw [lineUnits, hlines, squeeze_trimmed, squeeze_paragraphs]

/-- The units have all the characters that are no space, in order. -/
theorem squeeze_splitUnits (t : Text) : squeeze (splitUnits t).flatten = squeeze t := by
  have hunits := squeeze_lineUnits t
  simp only [splitUnits]
  split
  · rw [squeeze_trimmed, squeeze_sentences]
    cases h : lineUnits t with
    | nil => simp
    | cons u us =>
      rename_i hlength
      have hus : us = [] := by simpa [h] using hlength
      simpa [h, hus] using hunits
  · exact hunits

theorem edged_of_mem_splitUnits (h : u ∈ splitUnits t) : Edged u := by
  simp only [splitUnits] at h
  split at h
  · exact edged_of_mem_trimmed h
  · obtain ⟨p, -, hu⟩ := List.mem_flatMap.mp h
    exact edged_of_mem_trimmed hu

end AssureCode.Rag
