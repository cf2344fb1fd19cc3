import Mathlib.Logic.Function.Basic
import AssureCode.Python.Text

/-! # Text files

A directory as `open` sees it in text mode. Writing turns each `\n` into the line separator of the
platform, and reading turns every `\r\n` and every `\r` into `\n`, so that a text comes back as it
was exactly when it has no carriage return. The text of a file stands for its UTF-8 bytes.
-/

namespace AssureCode.Artifacts

open Js Python

/-! ## Line ends -/

/-- The code point of `\r`. -/
abbrev carriageReturn : ℕ := 13

inductive Platform
  | posix
  | windows
  deriving DecidableEq

/-- `os.linesep` -/
def Platform.linesep : Platform → Text
  | .posix => [newline]
  | .windows => [carriageReturn, newline]

/-- What `f.write(t)` puts into a file. -/
def Platform.written (pf : Platform) (t : Text) : Text :=
  t.flatMap fun u => if u = newline then pf.linesep else [u]

/-- What `f.read()` makes of a file. -/
def universal : Text → Text
  | 13 :: 10 :: t => newline :: universal t
  | 13 :: t => newline :: universal t
  | u :: t => u :: universal t
  | [] => []

/-- `t.encode("utf-8")` does not raise. -/
def Encodable (t : Text) : Prop := ∀ u ∈ t, Python.isSurrogate u = false

instance (t : Text) : Decidable (Encodable t) :=
  inferInstanceAs (Decidable (∀ u ∈ t, Python.isSurrogate u = false))

variable {pf : Platform} {s t : Text} {u : ℕ}

theorem universal_cons (h : u ≠ carriageReturn) : universal (u :: t) = u :: universal t := by
  rw [universal]
  · exact fun _ h13 _ => h h13
  · exact h

theorem universal_linesep (pf : Platform) (t : Text) :
    universal (pf.linesep ++ t) = newline :: universal t := by
  cases pf with
  | posix => exact universal_cons (by decide)
  | windows => rfl

theorem carriageReturn_not_mem_universal (t : Text) : carriageReturn ∉ universal t := by
  fun_induction universal t with
  | case1 t ih => exact List.not_mem_cons_of_ne_of_not_mem (by decide) ih
  | case2 t _ ih => exact List.not_mem_cons_of_ne_of_not_mem (by decide) ih
  | case3 u t _ hu ih => exact List.not_mem_cons_of_ne_of_not_mem (fun h => hu h.symm) ih
  | case4 => simp

/-- A text is read back as it was written exactly when it has no carriage return. -/
theorem universal_written_iff : universal (pf.written t) = t ↔ carriageReturn ∉ t := by
  constructor
  · intro h
    rw [← h]
    exact carriageReturn_not_mem_universal _
  · intro h
    induction t with
    | nil => rfl
    | cons u t ih =>
      rw [List.mem_cons, not_or] at h
      obtain ⟨hu, ht⟩ := h
      rw [Platform.written, List.flatMap_cons, ← Platform.written]
      by_cases hn : u = newline
      · rw [if_pos hn, universal_linesep, ih ht, hn]
      · rw [if_neg hn, List.singleton_append, universal_cons (Ne.symm hu), ih ht]

/-! ## Directories -/

/-- What was raised. -/
inductive Raised
  | storeUnavailable (message : Text)
  | osError
  | unicodeEncodeError
  deriving DecidableEq

/-- An absolute path, after links, dots and letter case are resolved. -/
abbrev Path : Type := Text

/-- What stands at a path: a file comes with the key that it was last opened for. -/
inductive Entry
  | directory
  | file (key content : Text)
  deriving DecidableEq

abbrev Disk : Type := Path → Option Entry

/--
What a name leads to: the directories on the way, and the file, unless the operating system
refuses the rest of the name.
-/
structure Place where
  parents : List Path
  file : Option Path

/-- `os.makedirs(…, exist_ok=True)` -/
def Disk.makedirs (d : Disk) : List Path → Except Raised Unit × Disk
  | [] => (.ok (), d)
  | p :: ps =>
    match d p with
    | some .directory => makedirs d ps
    | some (.file _ _) => (.error .osError, d)
    | none => makedirs (Function.update d p (some .directory)) ps

/-- `open(…, "w")` and `f.write(body)`: the file is emptied before the text is encoded. -/
def Disk.write (pf : Platform) (d : Disk) (p : Path) (key body : Text) :
    Except Raised Unit × Disk :=
  if d p = some .directory then (.error .osError, d)
  else if Encodable body then
    (.ok (), Function.update d p (some (.file key (pf.written body))))
  else (.error .unicodeEncodeError, Function.update d p (some (.file key [])))

/-- What `os.path.exists` finds, and what it is. -/
def Disk.lookup (d : Disk) (pl : Place) : Option Entry :=
  if ∀ p ∈ pl.parents, d p = some .directory then pl.file.bind d else none

/-- More directories, and nothing else. -/
structure Grown (d d' : Disk) : Prop where
  kept : ∀ {p e}, d p = some e → d' p = some e
  files : ∀ {p key content}, d' p = some (.file key content) → d p = some (.file key content)

variable {d d' d'' : Disk} {p : Path} {ps : List Path} {r : Except Raised Unit} {key body : Text}

theorem Grown.refl : Grown d d := ⟨id, id⟩

theorem Grown.trans (h : Grown d d') (h' : Grown d' d'') : Grown d d'' :=
  ⟨fun hd => h'.kept (h.kept hd), fun hd => h.files (h'.files hd)⟩

theorem grown_update (h : d p = none) : Grown d (Function.update d p (some .directory)) := by
  constructor
  · intro q e hq
    rw [Function.update_of_ne _ _ _, hq]
    rintro rfl
    rw [h] at hq
    cases hq
  · intro q key content hq
    by_cases hqp : q = p
    · subst hqp
      rw [Function.update_self] at hq
      cases hq
    · rwa [Function.update_of_ne hqp] at hq

theorem grown_makedirs (h : d.makedirs ps = (r, d')) :
    Grown d d' ∧ (r = .ok () → ∀ p ∈ ps, d' p = some .directory) := by
  induction ps generalizing d with
  | nil =>
    cases h
    exact ⟨.refl, by simp⟩
  | cons p ps ih =>
    rw [Disk.makedirs] at h
    split at h
    · rename_i hp
      obtain ⟨hgrown, hall⟩ := ih h
      exact ⟨hgrown, fun hr => List.forall_mem_cons.mpr ⟨hgrown.kept hp, hall hr⟩⟩
    · cases h
      exact ⟨.refl, by simp⟩
    · rename_i hp
      obtain ⟨hgrown, hall⟩ := ih h
      constructor
      · exact (grown_update hp).trans hgrown
      · intro hr
        exact List.forall_mem_cons.mpr ⟨hgrown.kept (Function.update_self ..), hall hr⟩

theorem Grown.lookup {pl : Place} {e : Entry} (h : Grown d d') (hpl : d.lookup pl = some e) :
    d'.lookup pl = some e := by
  unfold Disk.lookup at hpl
  split at hpl
  · rename_i hparents
    obtain ⟨p, hp, hd⟩ := Option.bind_eq_some_iff.mp hpl
    rw [Disk.lookup, if_pos fun p hp => h.kept (hparents p hp), hp]
    exact h.kept hd
  · cases hpl

/-- A file is opened at the path, or nothing is done. -/
theorem write_cases (h : d.write pf p key body = (r, d')) :
    (r = .error .osError ∧ d' = d) ∨
    (d p ≠ some .directory ∧ r = .ok () ∧ Encodable body ∧
      d' = Function.update d p (some (.file key (pf.written body)))) ∨
    (d p ≠ some .directory ∧ r = .error .unicodeEncodeError ∧ ¬ Encodable body ∧
      d' = Function.update d p (some (.file key []))) := by
  unfold Disk.write at h
  split at h
  · cases h
    exact .inl ⟨rfl, rfl⟩
  · rename_i hp
    split at h
    · rename_i henc
      cases h
      exact .inr (.inl ⟨hp, rfl, henc, rfl⟩)
    · rename_i henc
      cases h
      exact .inr (.inr ⟨hp, rfl, henc, rfl⟩)

end AssureCode.Artifacts
