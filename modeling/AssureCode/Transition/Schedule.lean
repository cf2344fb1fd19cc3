import Mathlib.Data.List.Induction
import AssureCode.Transition.Run

/-! # Schedules

What a run does can be settled by the order of its actions alone: that actions of some kinds occur
one after another.
-/

namespace AssureCode.Machine

universe u v

variable {σ : Type u} {α : Type v}

/-- After actions that meet `P` an action of the kind `q` occurs. -/
def Then (P : List α → Prop) (q : α → Prop) (as : List α) : Prop :=
  ∃ pre a post, as = pre ++ a :: post ∧ P pre ∧ q a

/-- Actions of these kinds occur in this order. -/
def InOrder (kinds : List (α → Prop)) : List α → Prop :=
  kinds.foldl Then fun _ => True

variable {P : List α → Prop} {q : α → Prop} {kinds : List (α → Prop)} {as : List α} {a : α}

theorem then_concat : Then P q (as ++ [a]) ↔ Then P q as ∨ P as ∧ q a := by
  constructor
  · rintro ⟨pre, b, post, h, hpre, hb⟩
    rcases List.eq_nil_or_concat' post with rfl | ⟨post, c, rfl⟩
    · obtain ⟨rfl, hab⟩ := List.append_inj' h rfl
      cases hab
      exact .inr ⟨hpre, hb⟩
    · rw [← List.cons_append, ← List.append_assoc] at h
      exact .inl ⟨pre, b, post, (List.append_inj' h rfl).1, hpre, hb⟩
  · rintro (⟨pre, b, post, rfl, hpre, hb⟩ | ⟨has, ha⟩)
    · exact ⟨pre, b, post ++ [a], by simp, hpre, hb⟩
    · exact ⟨as, a, [], rfl, has, ha⟩

theorem inOrder_concat (kinds : List (α → Prop)) (q : α → Prop) :
    InOrder (kinds ++ [q]) = Then (InOrder kinds) q := by
  rw [InOrder, List.foldl_append]
  rfl

theorem exists_mem_of_inOrder (h : InOrder kinds as) : ∀ q ∈ kinds, ∃ a ∈ as, q a := by
  induction kinds using List.reverseRecOn generalizing as with
  | nil => simp
  | append_singleton kinds p ih =>
    rw [inOrder_concat] at h
    obtain ⟨pre, b, post, rfl, hpre, hb⟩ := h
    rw [List.forall_mem_append, List.forall_mem_singleton]
    exact ⟨fun q hq => (ih hpre q hq).imp fun _ h => ⟨List.mem_append_left _ h.1, h.2⟩,
      b, by simp, hb⟩

variable {M : Machine σ α} {s t : σ}

/--
When the actions so far and the next one decide what a step does, the schedule decides what all
steps of a run do.
-/
theorem Run.forall_steps_iff_schedule {I : List α → σ → Prop} {Q : σ → α → σ → Prop}
    {K : List α → α → Prop} (h : M.Run Any s as t)
    (hI : ∀ p s a t, I p s → M.step s a = some t → Q s a t → I (p ++ [a]) t)
    (hK : ∀ p s a t, I p s → M.step s a = some t → (K p a ↔ Q s a t)) (hs : I [] s) :
    (∀ x ∈ M.steps s as, Q x.1 x.2.1 x.2.2) ↔
      ∀ pre a post, as = pre ++ a :: post → K pre a := by
  suffices hfrom : ∀ p, I p s → ((∀ x ∈ M.steps s as, Q x.1 x.2.1 x.2.2) ↔
      ∀ pre a post, as = pre ++ a :: post → K (p ++ pre) a) from hfrom [] hs
  clear hs
  induction h with
  | nil s => simp [steps]
  | @cons s t u a as _ hst _ ih =>
    intro p hs
    rw [steps_cons hst, List.forall_mem_cons]
    constructor
    · rintro ⟨hq, hrest⟩ pre b post heq
      cases pre with
      | nil =>
        cases heq
        rw [List.append_nil]
        exact (hK p s a t hs hst).mpr hq
      | cons c pre =>
        cases heq
        have hlater := (ih _ (hI p s a t hs hst hq)).mp hrest pre b post rfl
        rwa [List.append_assoc] at hlater
    · intro hall
      have hq : Q s a t := (hK p s a t hs hst).mp (by simpa using hall [] a as rfl)
      refine ⟨hq, (ih _ (hI p s a t hs hst hq)).mpr fun pre b post heq => ?_⟩
      have hlater := hall (a :: pre) b post (by rw [heq, List.cons_append])
      rwa [List.append_assoc]

/-- A preorder holds along a run when every step keeps to it. -/
theorem Run.pairwise_iff_steps {R : σ → σ → Prop} (h : M.Run Any s as t) (hrefl : ∀ s, R s s)
    (htrans : ∀ s t u, R s t → R t u → R s u) :
    (M.visited s as).Pairwise R ↔ ∀ x ∈ M.steps s as, R x.1 x.2.2 := by
  induction h with
  | nil s => simp [visited, steps]
  | @cons s t u a as _ hst hr ih =>
    rw [visited_cons hst, steps_cons hst, List.pairwise_cons, ih, List.forall_mem_cons]
    refine and_congr_left fun hsteps =>
      ⟨fun hall => hall t mem_visited_self, fun hstep r hmem => ?_⟩
    obtain ⟨rest, hvisited⟩ : ∃ rest, M.visited t as = t :: rest := by cases as <;> exact ⟨_, rfl⟩
    have hpair := ih.mpr hsteps
    rw [hvisited] at hpair hmem
    have hfrom : R t r :=
      List.forall_mem_cons.mpr ⟨hrefl t, (List.pairwise_cons.mp hpair).1⟩ r hmem
    exact htrans s t r hstep hfrom

/-- One state is compared with all that come after it, by what each step does to the comparison. -/
theorem Run.forall_visited_iff_splits {R : σ → σ → Prop} {K : σ → σ → α → Prop} {r : σ}
    (h : M.Run Any s as t) (hK : ∀ u a v, M.step u a = some v → R r u → (K r u a ↔ R r v))
    (hr : R r s) :
    (∀ v ∈ M.visited s as, R r v) ↔
      ∀ pre a post u, as = pre ++ a :: post → M.Run Any s pre u → K r u a := by
  induction h with
  | nil s => simpa [visited] using hr
  | @cons s t u a as _ hst _ ih =>
    rw [visited_cons hst, List.forall_mem_cons]
    constructor
    · rintro ⟨-, hrest⟩ pre b post v heq hpre
      have ht : R r t := hrest t mem_visited_self
      cases hpre with
      | nil =>
        cases heq
        exact (hK s a t hst hr).mpr ht
      | cons _ hst' hpre =>
        cases heq
        cases hst.symm.trans hst'
        exact (ih ht).mp hrest _ b post v rfl hpre
    · intro hall
      have ht : R r t := (hK s a t hst hr).mp (hall [] a as s rfl (.nil s))
      refine ⟨hr, (ih ht).mpr fun pre b post v heq hpre => ?_⟩
      exact hall (a :: pre) b post v (by rw [heq, List.cons_append]) (.cons trivial hst hpre)

/-- Any relation holds along a run when every step keeps it with all the states so far. -/
theorem Run.pairwise_iff_splits {R : σ → σ → Prop} {K : σ → σ → α → Prop}
    (h : M.Run Any s as t) (hrefl : ∀ s, R s s)
    (hK : ∀ r u a v, M.step u a = some v → R r u → (K r u a ↔ R r v)) :
    (M.visited s as).Pairwise R ↔
      ∀ pre a post u, as = pre ++ a :: post → M.Run Any s pre u →
        ∀ r ∈ M.visited s pre, K r u a := by
  induction h with
  | nil s => simp [visited]
  | @cons s t u a as _ hst hr ih =>
    have hfrom := (Run.cons (K := Any) trivial hst hr).forall_visited_iff_splits (hK s) (hrefl s)
    rw [visited_cons hst, List.forall_mem_cons] at hfrom
    rw [visited_cons hst, List.pairwise_cons, ih]
    constructor
    · rintro ⟨hs, hrest⟩ pre b post v heq hpre r hmem
      have hown := hfrom.mp ⟨hrefl s, hs⟩ pre b post v heq hpre
      cases hpre with
      | nil =>
        cases heq
        cases List.mem_singleton.mp hmem
        exact hown
      | cons _ hst' hpre =>
        cases heq
        cases hst.symm.trans hst'
        rw [visited_cons hst] at hmem
        rcases List.mem_cons.mp hmem with rfl | hmem
        · exact hown
        · exact hrest _ b post v rfl hpre r hmem
    · intro hall
      constructor
      · exact (hfrom.mpr fun pre b post v heq hpre => hall pre b post v heq hpre s
          mem_visited_self).2
      · intro pre b post v heq hpre r hmem
        refine hall (a :: pre) b post v (by rw [heq, List.cons_append])
          (.cons trivial hst hpre) r ?_
        rw [visited_cons hst]
        exact List.mem_cons_of_mem s hmem

end AssureCode.Machine
