import Mathlib.Data.List.Infix

/-! # Backtracking patterns

A pattern without anchors gives its matches at the start of a text in the order in which a
backtracking engine comes to them. What it matches is a language; which match comes first also
depends on which of its repetitions are lazy.
-/

namespace AssureCode.Regex

variable {α : Type}

inductive Pattern (α : Type)
  | nil
  | one (p : α → Bool)
  | seq (r s : Pattern α)
  | opt (r : Pattern α)
  /-- As many characters of the class as there are. -/
  | many (p : α → Bool)
  /-- As few characters of the class as will do. -/
  | lazy (p : α → Bool)
  | group (r : Pattern α)

/-- The groups of a match, and the text after it. -/
abbrev Match (α : Type) : Type := List (List α) × List α

/-- What is left of a text after a run of the class, the longest run first. -/
def longest (p : α → Bool) : List α → List (List α)
  | [] => [[]]
  | a :: t => if p a then longest p t ++ [a :: t] else [a :: t]

def shortest (p : α → Bool) : List α → List (List α)
  | [] => [[]]
  | a :: t => (a :: t) :: if p a then shortest p t else []

namespace Pattern

/-- The text itself. -/
def literal [DecidableEq α] : List α → Pattern α
  | [] => .nil
  | a :: w => .seq (.one (· = a)) (literal w)

def results : Pattern α → List α → List (Match α)
  | .nil, t => [([], t)]
  | .one _, [] => []
  | .one p, a :: t => if p a then [([], t)] else []
  | .seq r s, t => (r.results t).flatMap fun m => (s.results m.2).map fun n => (m.1 ++ n.1, n.2)
  | .opt r, t => r.results t ++ [([], t)]
  | .many p, t => (longest p t).map fun u => ([], u)
  | .lazy p, t => (shortest p t).map fun u => ([], u)
  | .group r, t => (r.results t).map fun m => (t.take (t.length - m.2.length) :: m.1, m.2)

/--
The groups of the matches from left to right, none inside of another; the first `skip` characters
belong to the last match. The pattern is one that no empty text matches.
-/
def findAll (r : Pattern α) (skip : ℕ) : List α → List (List (List α))
  | [] => []
  | a :: t =>
    match skip with
    | n + 1 => findAll r n t
    | 0 =>
      match (r.results (a :: t)).head? with
      | some m => m.1 :: findAll r (t.length - m.2.length) t
      | none => findAll r 0 t

/-- The texts that a pattern matches as a whole. -/
def Accepts : Pattern α → List α → Prop
  | .nil, w => w = []
  | .one p, w => ∃ a, p a = true ∧ w = [a]
  | .seq r s, w => ∃ u v, r.Accepts u ∧ s.Accepts v ∧ w = u ++ v
  | .opt r, w => r.Accepts w ∨ w = []
  | .many p, w => ∀ a ∈ w, p a = true
  | .lazy p, w => ∀ a ∈ w, p a = true
  | .group r, w => r.Accepts w

/-- The pattern has no groups. -/
def plain : Pattern α → Bool
  | .seq r s => r.plain && s.plain
  | .opt r => r.plain
  | .group _ => false
  | _ => true

/-- Some part of the text matches. -/
def Finds (r : Pattern α) (t : List α) : Prop := ∃ w, r.Accepts w ∧ w <:+: t

variable {r s : Pattern α} {p : α → Bool} {t u w : List α} {m : Match α}

/-! ## What is matched -/

theorem mem_longest : u ∈ longest p t ↔ ∃ w, (∀ a ∈ w, p a = true) ∧ t = w ++ u := by
  induction t with
  | nil => simp [longest]
  | cons a t ih =>
    rw [longest]
    split
    next ha =>
      rw [List.mem_append, ih, List.mem_singleton]
      constructor
      · rintro (⟨w, hw, rfl⟩ | rfl)
        · exact ⟨a :: w, List.forall_mem_cons.mpr ⟨ha, hw⟩, rfl⟩
        · exact ⟨[], by simp, rfl⟩
      · rintro ⟨_ | ⟨b, w⟩, hw, h⟩
        · exact .inr h.symm
        · obtain ⟨rfl, rfl⟩ := List.cons.inj h
          exact .inl ⟨w, (List.forall_mem_cons.mp hw).2, rfl⟩
    next ha =>
      rw [List.mem_singleton]
      constructor
      · rintro rfl
        exact ⟨[], by simp, rfl⟩
      · rintro ⟨_ | ⟨b, w⟩, hw, h⟩
        · exact h.symm
        · obtain ⟨rfl, rfl⟩ := List.cons.inj h
          exact absurd (hw _ List.mem_cons_self) ha

/-- Both orders come to the same matches. -/
theorem mem_shortest : u ∈ shortest p t ↔ u ∈ longest p t := by
  induction t with
  | nil => rfl
  | cons a t ih =>
    rw [shortest, longest]
    split <;> simp [ih, or_comm]

/-- Backtracking comes to the texts of the language and to no others. -/
theorem mem_results_iff : (∃ c, (c, u) ∈ r.results t) ↔ ∃ w, r.Accepts w ∧ t = w ++ u := by
  induction r generalizing t u with
  | nil => simp [results, Accepts, eq_comm]
  | one p =>
    cases t with
    | nil => simp [results, Accepts]
    | cons a t =>
      by_cases ha : p a
      · simp only [results, if_pos ha, Accepts]
        constructor
        · rintro ⟨c, hc⟩
          cases List.mem_singleton.mp hc
          exact ⟨[a], ⟨a, ha, rfl⟩, rfl⟩
        · rintro ⟨_, ⟨b, hb, rfl⟩, h⟩
          cases h
          exact ⟨[], List.mem_singleton_self _⟩
      · simp only [results, if_neg ha, Accepts]
        constructor
        · rintro ⟨c, hc⟩
          cases hc
        · rintro ⟨_, ⟨b, hb, rfl⟩, h⟩
          cases h
          exact absurd hb ha
  | seq r s ihr ihs =>
    constructor
    · rintro ⟨c, hc⟩
      obtain ⟨m, hm, hmap⟩ := List.mem_flatMap.mp hc
      obtain ⟨n, hn, heq⟩ := List.mem_map.mp hmap
      cases heq
      obtain ⟨v, hv, rfl⟩ := ihr.mp ⟨m.1, hm⟩
      obtain ⟨w, hw, hrest⟩ := ihs.mp ⟨n.1, hn⟩
      exact ⟨v ++ w, ⟨v, w, hv, hw, rfl⟩, by rw [hrest, List.append_assoc]⟩
    · rintro ⟨_, ⟨v, w, hv, hw, rfl⟩, rfl⟩
      obtain ⟨c, hc⟩ := ihr.mpr ⟨v, hv, List.append_assoc v w u⟩
      obtain ⟨d, hd⟩ := ihs.mpr ⟨w, hw, rfl⟩
      exact ⟨c ++ d, List.mem_flatMap.mpr ⟨_, hc, List.mem_map.mpr ⟨_, hd, rfl⟩⟩⟩
  | opt r ih =>
    constructor
    · rintro ⟨c, hc⟩
      rcases List.mem_append.mp hc with hc | hc
      · obtain ⟨w, hw, rfl⟩ := ih.mp ⟨c, hc⟩
        exact ⟨w, .inl hw, rfl⟩
      · cases List.mem_singleton.mp hc
        exact ⟨[], .inr rfl, rfl⟩
    · rintro ⟨w, hw | rfl, rfl⟩
      · obtain ⟨c, hc⟩ := ih.mpr ⟨w, hw, rfl⟩
        exact ⟨c, List.mem_append_left _ hc⟩
      · exact ⟨[], List.mem_append_right _ (List.mem_singleton_self _)⟩
  | many p => simp [results, Accepts, mem_longest]
  | lazy p => simp [results, Accepts, mem_shortest, mem_longest]
  | group r ih =>
    refine Iff.trans ⟨?_, ?_⟩ ih
    · rintro ⟨c, hc⟩
      obtain ⟨m, hm, heq⟩ := List.mem_map.mp hc
      cases heq
      exact ⟨m.1, hm⟩
    · rintro ⟨c, hc⟩
      exact ⟨_, List.mem_map.mpr ⟨_, hc, rfl⟩⟩

theorem results_eq_nil_iff : r.results t = [] ↔ ∀ w, r.Accepts w → ¬ w <+: t := by
  rw [List.eq_nil_iff_forall_not_mem]
  constructor
  · rintro h w hw ⟨u, rfl⟩
    obtain ⟨c, hc⟩ := mem_results_iff.mpr ⟨w, hw, rfl⟩
    exact h _ hc
  · rintro h ⟨c, u⟩ hc
    obtain ⟨w, hw, rfl⟩ := mem_results_iff.mp ⟨c, hc⟩
    exact h w hw ⟨u, rfl⟩

@[simp] theorem accepts_literal [DecidableEq α] {v : List α} : (literal v).Accepts w ↔ w = v := by
  induction v generalizing w with
  | nil => rfl
  | cons a v ih => simp [literal, Accepts, ih]

theorem groups_eq_nil (hr : r.plain = true) (h : m ∈ r.results t) : m.1 = [] := by
  induction r generalizing t m with
  | nil => exact congrArg Prod.fst (List.mem_singleton.mp h)
  | one p =>
    cases t with
    | nil => cases h
    | cons a t =>
      rw [results] at h
      split at h
      · exact congrArg Prod.fst (List.mem_singleton.mp h)
      · cases h
  | seq r s ihr ihs =>
    rw [plain, Bool.and_eq_true] at hr
    obtain ⟨n, hn, hmap⟩ := List.mem_flatMap.mp h
    obtain ⟨k, hk, rfl⟩ := List.mem_map.mp hmap
    rw [ihr hr.1 hn, ihs hr.2 hk, List.append_nil]
  | opt r ih =>
    rcases List.mem_append.mp h with h | h
    · exact ih hr h
    · exact congrArg Prod.fst (List.mem_singleton.mp h)
  | many p =>
    obtain ⟨u, -, rfl⟩ := List.mem_map.mp h
    rfl
  | lazy p =>
    obtain ⟨u, -, rfl⟩ := List.mem_map.mp h
    rfl
  | group r => cases hr

/-- A part of a text that has no match has none. -/
theorem Finds.of_infix (h : r.Finds u) (hu : u <:+: t) : r.Finds t := by
  obtain ⟨w, hw, hwu⟩ := h
  exact ⟨w, hw, hwu.trans hu⟩

/-! ## All matches -/

theorem findAll_eq_nil {skip : ℕ} (h : ¬ r.Finds t) : r.findAll skip t = [] := by
  induction t generalizing skip with
  | nil => rfl
  | cons a t ih =>
    have hrest : ∀ n, r.findAll n t = [] := fun n =>
      ih fun ht => h (ht.of_infix (List.suffix_cons a t).isInfix)
    have hnone : r.results (a :: t) = [] := results_eq_nil_iff.mpr fun w hw hpre =>
      h ⟨w, hw, hpre.isInfix⟩
    cases skip with
    | succ n => exact hrest n
    | zero =>
      rw [findAll, hnone]
      exact hrest 0

theorem not_finds_of_findAll (hempty : ¬ r.Accepts []) (h : r.findAll 0 t = []) :
    ¬ r.Finds t := by
  induction t with
  | nil =>
    rintro ⟨w, hw, hinfix⟩
    exact hempty (List.infix_nil.mp hinfix ▸ hw)
  | cons a t ih =>
    rw [findAll] at h
    cases hhead : (r.results (a :: t)).head? with
    | some m =>
      rw [hhead] at h
      cases h
    | none =>
      rw [hhead] at h
      rintro ⟨w, hw, hinfix⟩
      rcases List.infix_cons_iff.mp hinfix with hpre | hinfix
      · exact results_eq_nil_iff.mp (List.head?_eq_none_iff.mp hhead) w hw hpre
      · exact ih h ⟨w, hw, hinfix⟩

/-- Each match is the first one at its start. -/
theorem exists_of_mem_findAll {skip : ℕ} {g : List (List α)} (h : g ∈ r.findAll skip t) :
    ∃ u m, u <:+ t ∧ (r.results u).head? = some m ∧ g = m.1 := by
  induction t generalizing skip with
  | nil => cases h
  | cons a t ih =>
    have hlater : ∀ n, g ∈ r.findAll n t →
        ∃ u m, u <:+ a :: t ∧ (r.results u).head? = some m ∧ g = m.1 := fun n hg => by
      obtain ⟨u, m, hu, hm⟩ := ih hg
      exact ⟨u, m, hu.trans (List.suffix_cons a t), hm⟩
    cases skip with
    | succ n => exact hlater n h
    | zero =>
      rw [findAll] at h
      cases hhead : (r.results (a :: t)).head? with
      | none =>
        rw [hhead] at h
        exact hlater 0 h
      | some m =>
        rw [hhead] at h
        rcases List.mem_cons.mp h with rfl | h
        · exact ⟨a :: t, m, List.suffix_refl _, hhead, rfl⟩
        · exact hlater _ h

/-! ## The first match -/

theorem exists_of_head?_flatMap {β γ : Type} {l : List β} {f : β → List γ} {c : γ}
    (h : (l.flatMap f).head? = some c) : ∃ b ∈ l, (f b).head? = some c := by
  induction l with
  | nil => cases h
  | cons b l ih =>
    rw [List.flatMap_cons, List.head?_append] at h
    cases hb : (f b).head? with
    | some d =>
      rw [hb] at h
      cases h
      exact ⟨b, List.mem_cons_self, hb⟩
    | none =>
      rw [hb] at h
      obtain ⟨b', hb', h⟩ := ih h
      exact ⟨b', List.mem_cons_of_mem _ hb', h⟩

/-- A lazy repetition ends before what follows it could have matched earlier. -/
theorem exists_of_head?_lazy {γ : Type} {f : List α → List γ} {c : γ}
    (h : ((shortest p t).flatMap f).head? = some c) :
    ∃ w u, t = w ++ u ∧ (f u).head? = some c ∧ ∀ x y, w = x ++ y → y ≠ [] → f (y ++ u) = [] := by
  induction t with
  | nil =>
    refine ⟨[], [], rfl, by simpa [shortest] using h, fun x y hw hy => ?_⟩
    exact absurd (List.append_eq_nil_iff.mp hw.symm).2 hy
  | cons a t ih =>
    rw [shortest, List.flatMap_cons, List.head?_append] at h
    cases ha : (f (a :: t)).head? with
    | some d =>
      rw [ha] at h
      cases h
      refine ⟨[], a :: t, rfl, ha, fun x y hw hy => ?_⟩
      exact absurd (List.append_eq_nil_iff.mp hw.symm).2 hy
    | none =>
      rw [ha] at h
      split at h
      next =>
        obtain ⟨w, u, rfl, hhead, hnone⟩ := ih h
        refine ⟨a :: w, u, rfl, hhead, fun x y hw hy => ?_⟩
        cases x with
        | nil =>
          subst hw
          exact List.head?_eq_none_iff.mp ha
        | cons b x => exact hnone x y (List.cons.inj hw).2 hy
      next => cases h

end Pattern

end AssureCode.Regex
