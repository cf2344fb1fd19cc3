import Mathlib.Data.List.Infix
import AssureCode.Js.Numeral

/-! # Names of repositories

A repository is named after the title of its contract, the first name of the freelancer and a
running number. The case of both is preserved, GitHub's comparison of names ignores it.
-/

namespace AssureCode.Provisioning

open Js

/-- `[A-Za-z0-9]` -/
def isAlphanumeric (u : ℕ) : Bool :=
  isDigit u || (0x41 ≤ u && u ≤ 0x5A) || (0x61 ≤ u && u ≤ 0x7A)

def hyphen : ℕ := 0x2D

/-- `s.replace(/[^A-Za-z0-9]+/g, '-')` -/
def hyphenate : Text → Text
  | [] => []
  | u :: t =>
    if isAlphanumeric u then u :: hyphenate t
    -- The last unit of a run of others gives the hyphen.
    else if t.head?.all isAlphanumeric then hyphen :: hyphenate t
    else hyphenate t

/-- `s.replace(/^-+|-+$/g, '')` -/
def stripHyphens (t : Text) : Text := (t.dropWhile (· = hyphen)).rdropWhile (· = hyphen)

def slugifyComponent (s : Text) (maxLen : ℕ) : Text :=
  let slug := (stripHyphens (hyphenate (trim s))).take maxLen
  if slug = [] then units "x" else slug

/-- `(freelancerDisplayName || 'freelancer').trim().split(/\s+/)[0]` -/
def firstName (freelancerDisplayName : Text) : Text :=
  let name := if freelancerDisplayName = [] then units "freelancer" else freelancerDisplayName
  (trim name).takeWhile (!isWhiteSpace ·)

def base (title freelancerDisplayName : Text) : Text :=
  slugifyComponent title 40 ++ hyphen :: slugifyComponent (firstName freelancerDisplayName) 20

/-- `String(num).padStart(2, '0')` -/
def padded (num : ℕ) : Text := zeros (2 - (digitsOf num).length) ++ digitsOf num

def repoName (base : Text) (num : ℕ) : Text := base ++ hyphen :: padded num

example : base (units " Fintech Real-Time  Dashboard!") (units "Priya Sharma") =
    units "Fintech-Real-Time-Dashboard-Priya" := by decide

/-- `text LIKE pattern`, for a pattern without a backslash -/
def like : Text → Text → Bool
  | [], text => text = []
  | u :: pattern, text =>
    if u = 0x25 then text.tails.any (like pattern)
    else if u = 0x5F then text ≠ [] ∧ like pattern text.tail
    else text.head? = some u ∧ like pattern text.tail

variable {s t : Text} {u m n : ℕ}

/-! ## The pattern -/

/-- The units of a slug. -/
def isSlugUnit (u : ℕ) : Bool := isAlphanumeric u || u == hyphen

theorem isSlugUnit_hyphenate (h : u ∈ hyphenate t) : isSlugUnit u := by
  induction t with
  | nil => cases h
  | cons v t ih =>
    rw [hyphenate] at h
    split at h
    · next hv =>
      rcases List.mem_cons.mp h with rfl | h
      · rw [isSlugUnit, hv, Bool.true_or]
      · exact ih h
    split at h
    · rcases List.mem_cons.mp h with rfl | h
      · decide
      · exact ih h
    · exact ih h

theorem isSlugUnit_slugifyComponent (h : u ∈ slugifyComponent s n) : isSlugUnit u := by
  rw [slugifyComponent] at h
  split at h
  · rw [List.mem_singleton.mp h]
    decide
  · have hstrip := List.mem_of_mem_take h
    have hdrop := (List.rdropWhile_prefix _ _).subset hstrip
    exact isSlugUnit_hyphenate ((List.dropWhile_suffix _).subset hdrop)

theorem isSlugUnit_base (h : u ∈ base s t) : isSlugUnit u := by
  rcases List.mem_append.mp h with h | h
  · exact isSlugUnit_slugifyComponent h
  rcases List.mem_cons.mp h with rfl | h
  · decide
  · exact isSlugUnit_slugifyComponent h

theorem like_cons (h : isSlugUnit u) :
    like (u :: t) s ↔ ∃ rest, s = u :: rest ∧ like t rest := by
  have hne : u ≠ 0x25 ∧ u ≠ 0x5F := by
    refine ⟨?_, ?_⟩ <;> rintro rfl <;> revert h <;> decide
  rw [like, if_neg hne.1, if_neg hne.2]
  cases s <;> simp

/-- No title and no name makes a wildcard. -/
theorem like_base (title freelancerDisplayName name : Text) :
    like (base title freelancerDisplayName ++ units "-%") name ↔
      base title freelancerDisplayName ++ [hyphen] <+: name := by
  have hunits : ∀ u ∈ base title freelancerDisplayName, isSlugUnit u := fun u => isSlugUnit_base
  generalize base title freelancerDisplayName = b at hunits
  induction b generalizing name with
  | nil =>
    have hend : ∀ rest, like [0x25] rest := fun rest =>
      List.any_eq_true.mpr ⟨[], (List.mem_tails _ _).mpr List.nil_suffix, rfl⟩
    rw [show [] ++ units "-%" = [hyphen, 0x25] by decide, like_cons (by decide)]
    constructor
    · rintro ⟨rest, rfl, -⟩
      exact ⟨rest, rfl⟩
    · rintro ⟨post, rfl⟩
      exact ⟨post, rfl, hend post⟩
  | cons u b ih =>
    obtain ⟨hu, hb⟩ := List.forall_mem_cons.mp hunits
    rw [List.cons_append, like_cons hu, List.cons_append]
    constructor
    · rintro ⟨rest, rfl, hrest⟩
      exact List.cons_prefix_cons.mpr ⟨rfl, (ih rest hb).mp hrest⟩
    · rintro ⟨post, rfl⟩
      exact ⟨_, rfl, (ih _ hb).mpr ⟨post, rfl⟩⟩

/-! ## Case -/

/-- GitHub compares names without regard to case. -/
def toLowerCase (t : Text) : Text :=
  t.map fun u => if 0x41 ≤ u ∧ u ≤ 0x5A then u + 0x20 else u

/-- Different texts, but the same for GitHub. -/
def DiffersInCase (s t : Text) : Prop := s ≠ t ∧ toLowerCase s = toLowerCase t

instance (s t : Text) : Decidable (DiffersInCase s t) := inferInstanceAs (Decidable (_ ∧ _))

@[simp] theorem toLowerCase_append : toLowerCase (s ++ t) = toLowerCase s ++ toLowerCase t :=
  List.map_append

@[simp] theorem toLowerCase_cons :
    toLowerCase (u :: t) = (if 0x41 ≤ u ∧ u ≤ 0x5A then u + 0x20 else u) :: toLowerCase t := rfl

theorem toLowerCase_digits (h : ∀ u ∈ t, isDigit u) : toLowerCase t = t := by
  refine (List.map_congr_left fun u hu => if_neg ?_).trans t.map_id
  have hdigit := h u hu
  simp only [isDigit, Bool.and_eq_true, decide_eq_true_eq] at hdigit
  omega

theorem isDigit_of_mem_padded (h : u ∈ padded n) : isDigit u := by
  rcases List.mem_append.mp h with h | h
  · exact isDigit_of_mem_zeros h
  · exact isDigit_of_mem_digitsOf h

theorem hyphen_notMem_padded : hyphen ∉ padded n :=
  fun h => absurd (isDigit_of_mem_padded h) (by decide)

theorem padded_inj : padded m = padded n ↔ m = n := by
  refine ⟨fun h => ?_, congrArg padded⟩
  have hvalue := congrArg digitsValue h
  simpa [padded, digitsValue_append] using hvalue

theorem append_hyphen_inj {b b' : Text} (hs : hyphen ∉ s) (ht : hyphen ∉ t) :
    b ++ hyphen :: s = b' ++ hyphen :: t ↔ b = b' ∧ s = t := by
  constructor
  · intro h
    rcases List.append_eq_append_iff.mp h with ⟨c, rfl, hc⟩ | ⟨c, rfl, hc⟩
    · cases c with
      | nil => exact ⟨(List.append_nil b).symm, (List.cons.inj hc).2⟩
      | cons u c => exact absurd (by rw [(List.cons.inj hc).2]; simp) hs
    · cases c with
      | nil => exact ⟨List.append_nil b', (List.cons.inj hc).2.symm⟩
      | cons u c => exact absurd (by rw [(List.cons.inj hc).2]; simp) ht
  · rintro ⟨rfl, rfl⟩
    rfl

/-- Names differ in case when their slugs do and their numbers are the same. -/
theorem differsInCase_repoName :
    DiffersInCase (repoName s m) (repoName t n) ↔ DiffersInCase s t ∧ m = n := by
  have hlower : ∀ k, toLowerCase (padded k) = padded k := fun k =>
    toLowerCase_digits fun _ => isDigit_of_mem_padded
  have hhyphen : (if 0x41 ≤ hyphen ∧ hyphen ≤ 0x5A then hyphen + 0x20 else hyphen) = hyphen := by
    decide
  have hinj : ∀ b b', b ++ hyphen :: padded m = b' ++ hyphen :: padded n ↔ b = b' ∧ m = n :=
    fun b b' => (append_hyphen_inj hyphen_notMem_padded hyphen_notMem_padded).trans
      (and_congr_right fun _ => padded_inj)
  simp only [DiffersInCase, repoName, ne_eq, toLowerCase_append, toLowerCase_cons, hlower, hhyphen,
    hinj]
  constructor
  · rintro ⟨hne, hs, rfl⟩
    exact ⟨⟨fun h => hne ⟨h, rfl⟩, hs⟩, rfl⟩
  · rintro ⟨⟨hne, hs⟩, rfl⟩
    exact ⟨fun h => hne h.1, hs, rfl⟩

/-- Some title, name and number make this name. -/
def Slugged (name : Text) : Prop :=
  ∃ title freelancerDisplayName num, name = repoName (base title freelancerDisplayName) num

/-- Names of the same number whose slugs differ in letter case only. -/
def SlugsDifferInCase (name name' : Text) : Prop :=
  ∃ title freelancerDisplayName title' freelancerDisplayName' num,
    name = repoName (base title freelancerDisplayName) num ∧
      name' = repoName (base title' freelancerDisplayName') num ∧
        DiffersInCase (base title freelancerDisplayName) (base title' freelancerDisplayName')

theorem slugsDifferInCase_iff (hs : Slugged s) (ht : Slugged t) :
    SlugsDifferInCase s t ↔ DiffersInCase s t := by
  constructor
  · rintro ⟨title, name, title', name', num, rfl, rfl, h⟩
    exact differsInCase_repoName.mpr ⟨h, rfl⟩
  · intro h
    obtain ⟨title, name, num, rfl⟩ := hs
    obtain ⟨title', name', num', rfl⟩ := ht
    obtain ⟨hslugs, rfl⟩ := differsInCase_repoName.mp h
    exact ⟨title, name, title', name', num, rfl, rfl, hslugs⟩

end AssureCode.Provisioning
