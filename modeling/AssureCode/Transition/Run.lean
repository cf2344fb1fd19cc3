import Mathlib.Data.List.Basic
import Mathlib.Tactic.Common

/-! # Runs of a partial transition function

A machine is given by its initial states and a partial step function, so a run
is determined by its first state and the list of its actions. Conditions on
steps cut out the runs whose every step meets them.
-/

namespace AssureCode

universe u v

structure Machine (σ : Type u) (α : Type v) where
  init : σ → Prop
  step : σ → α → Option σ

namespace Machine

variable {σ : Type u} {α : Type v}

/-- The actions lead from the first state to the last, every step meeting the condition. -/
inductive Run (M : Machine σ α) (K : σ → α → Prop) : σ → List α → σ → Prop
  | nil (s : σ) : Run M K s [] s
  | cons {s t u : σ} {a : α} {as : List α} :
      K s a → M.step s a = some t → Run M K t as u → Run M K s (a :: as) u

/-- The condition that admits every step. -/
def Any : σ → α → Prop := fun _ _ => True

/-- Execute a list of actions; `none` when one of them is not enabled. -/
def exec (M : Machine σ α) : σ → List α → Option σ
  | s, [] => some s
  | s, a :: as => (M.step s a).bind fun t => M.exec t as

/-- The states a list of actions passes through, the first one included. -/
def visited (M : Machine σ α) : σ → List α → List σ
  | s, [] => [s]
  | s, a :: as => s :: ((M.step s a).elim [] fun t => M.visited t as)

/-- The steps a list of actions takes, each with the states before and after it. -/
def steps (M : Machine σ α) : σ → List α → List (σ × α × σ)
  | _, [] => []
  | s, a :: as => (M.step s a).elim [] fun t => (s, a, t) :: M.steps t as

variable {M : Machine σ α} {K K' : σ → α → Prop} {s t u : σ} {a : α} {as bs : List α}

theorem Run.single (hk : K s a) (hs : M.step s a = some t) : M.Run K s [a] t :=
  .cons hk hs (.nil t)

theorem Run.append (h : M.Run K s as t) (h' : M.Run K t bs u) : M.Run K s (as ++ bs) u := by
  induction h with
  | nil s => exact h'
  | cons hk hs _ ih => exact .cons hk hs (ih h')

theorem run_of_exec_forall (h : M.exec s as = some t) (hk : ∀ a ∈ as, ∀ s, K s a) :
    M.Run K s as t := by
  induction as generalizing s with
  | nil => cases h; exact .nil _
  | cons a as ih =>
    obtain ⟨ha, hrest⟩ := List.forall_mem_cons.mp hk
    obtain ⟨r, hr, hexec⟩ := Option.bind_eq_some_iff.mp h
    exact .cons (ha s) hr (ih hexec hrest)

theorem run_of_exec (h : M.exec s as = some t) : M.Run Any s as t :=
  run_of_exec_forall h fun _ _ _ => trivial

/-- The invariant rule: what each admitted step preserves, a whole run preserves. -/
theorem Run.invariant {I : σ → Prop} (h : M.Run K s as t)
    (hI : ∀ s a t, I s → K s a → M.step s a = some t → I t) (hs : I s) : I t := by
  induction h with
  | nil s => exact hs
  | cons hk hst _ ih => exact ih (hI _ _ _ hs hk hst)

/-- An invariant of the admitted steps may be used to admit them under another condition. -/
theorem Run.mono_of_invariant {I : σ → Prop} (h : M.Run K s as t)
    (hI : ∀ s a t, I s → K s a → M.step s a = some t → I t)
    (hK : ∀ s a t, I s → K s a → M.step s a = some t → K' s a) (hs : I s) : M.Run K' s as t := by
  induction h with
  | nil s => exact .nil s
  | cons hk hst _ ih => exact .cons (hK _ _ _ hs hk hst) hst (ih (hI _ _ _ hs hk hst))

theorem visited_cons (hs : M.step s a = some t) :
    M.visited s (a :: as) = s :: M.visited t as := by
  simp [visited, hs]

theorem Run.forall_visited {I : σ → Prop} (h : M.Run K s as t)
    (hI : ∀ s a t, I s → K s a → M.step s a = some t → I t) (hs : I s) :
    ∀ r ∈ M.visited s as, I r := by
  induction h with
  | nil s => simpa [visited] using hs
  | cons hk hst _ ih =>
    rw [visited_cons hst]
    exact List.forall_mem_cons.mpr ⟨hs, ih (hI _ _ _ hs hk hst)⟩

theorem mem_visited_self : s ∈ M.visited s as := by
  cases as <;> simp [visited]

theorem Run.mem_visited (h : M.Run K s as t) : t ∈ M.visited s as := by
  induction h with
  | nil s => exact mem_visited_self
  | cons _ hst _ ih => rw [visited_cons hst]; exact List.mem_cons_of_mem _ ih

/-- A run is split at any state it visits. -/
theorem Run.exists_of_mem_visited (h : M.Run K s as t) (hu : u ∈ M.visited s as) :
    ∃ pre post, M.Run K s pre u ∧ M.Run K u post t := by
  induction h with
  | nil s =>
    rw [List.mem_singleton.mp hu]
    exact ⟨[], [], .nil s, .nil s⟩
  | @cons s t v a as hk hst hr ih =>
    rw [visited_cons hst] at hu
    rcases List.mem_cons.mp hu with rfl | hu
    · exact ⟨[], a :: as, .nil u, .cons hk hst hr⟩
    · obtain ⟨pre, post, hpre, hpost⟩ := ih hu
      exact ⟨a :: pre, post, .cons hk hst hpre, hpost⟩

theorem steps_cons (hs : M.step s a = some t) :
    M.steps s (a :: as) = (s, a, t) :: M.steps t as := by
  simp [steps, hs]

/-- What each admitted step establishes, every step of a run establishes. -/
theorem Run.forall_steps {I : σ → Prop} {Q : σ → α → σ → Prop} (h : M.Run K s as t)
    (hI : ∀ s a t, I s → K s a → M.step s a = some t → I t)
    (hQ : ∀ s a t, I s → K s a → M.step s a = some t → Q s a t) (hs : I s) :
    ∀ x ∈ M.steps s as, Q x.1 x.2.1 x.2.2 := by
  induction h with
  | nil s => simp [steps]
  | cons hk hst _ ih =>
    rw [steps_cons hst]
    exact List.forall_mem_cons.mpr ⟨hQ _ _ _ hs hk hst, ih (hI _ _ _ hs hk hst)⟩

/-- A run is split at any of its steps. -/
theorem Run.exists_of_mem_steps {x : σ × α × σ} (h : M.Run K s as t) (hx : x ∈ M.steps s as) :
    ∃ pre post, M.Run K s pre x.1 ∧ M.step x.1 x.2.1 = some x.2.2 ∧ M.Run K x.2.2 post t := by
  induction h with
  | nil s => simp [steps] at hx
  | @cons s t u a as hk hst hr ih =>
    rw [steps_cons hst] at hx
    rcases List.mem_cons.mp hx with rfl | hx
    · exact ⟨[], as, .nil s, hst, hr⟩
    · obtain ⟨pre, post, hpre, hstep, hpost⟩ := ih hx
      exact ⟨a :: pre, post, .cons hk hst hpre, hstep, hpost⟩

/-- A condition that says of each step of a run what it does. -/
theorem Run.forall_steps_iff_of_mem {Q : σ → α → σ → Prop} (h : M.Run Any s as t)
    (hK : ∀ x ∈ M.steps s as, K x.1 x.2.1 ↔ Q x.1 x.2.1 x.2.2) :
    (∀ x ∈ M.steps s as, Q x.1 x.2.1 x.2.2) ↔ M.Run K s as t := by
  induction h with
  | nil s => exact ⟨fun _ => .nil s, fun _ => by simp [steps]⟩
  | @cons s t u a as _ hst _ ih =>
    rw [steps_cons hst, List.forall_mem_cons] at hK ⊢
    obtain ⟨ha, hrest⟩ := hK
    rw [ih hrest, ← ha]
    constructor
    · rintro ⟨hk, hrun⟩
      exact .cons hk hst hrun
    · intro hrun
      cases hrun with
      | cons hk hst' hrun =>
        cases hst.symm.trans hst'
        exact ⟨hk, hrun⟩

/-- A run that is executed is admitted by any condition that its steps meet. -/
theorem run_of_exec_steps (h : M.exec s as = some t) (hk : ∀ x ∈ M.steps s as, K x.1 x.2.1) :
    M.Run K s as t :=
  ((run_of_exec h).forall_steps_iff_of_mem (Q := fun s a _ => K s a) fun _ _ => Iff.rfl).mp hk

/-- What every admitted step keeps holds in the end once some action has brought it about. -/
theorem Run.reaches {I P : σ → Prop} {E : α → Prop} (h : M.Run K s as t)
    (hI : ∀ s a t, I s → K s a → M.step s a = some t → I t)
    (hP : ∀ s a t, I s → K s a → M.step s a = some t → P s ∨ E a → P t) (hs : I s)
    (hp : P s ∨ ∃ a ∈ as, E a) : P t := by
  induction h with
  | nil s => simpa using hp
  | cons hk hst _ ih =>
    apply ih (hI _ _ _ hs hk hst)
    rcases hp with hp | ⟨b, hb, he⟩
    · exact .inl (hP _ _ _ hs hk hst (.inl hp))
    · rcases List.mem_cons.mp hb with rfl | hb
      · exact .inl (hP _ _ _ hs hk hst (.inr he))
      · exact .inr ⟨b, hb, he⟩

/-- A run without certain actions is one whose steps are not taken by them. -/
theorem Run.avoiding {E : α → Prop} (h : M.Run K s as t) (hE : ∀ a ∈ as, ¬ E a) :
    M.Run (fun s a => K s a ∧ ¬ E a) s as t := by
  induction h with
  | nil s => exact .nil s
  | cons hk hst _ ih =>
    obtain ⟨ha, hrest⟩ := List.forall_mem_cons.mp hE
    exact .cons ⟨hk, ha⟩ hst (ih hrest)

/--
A property is settled step by step: when a condition is exactly what keeps `P` over one step and
gives `Q` of it, a run that starts with `P` visits only states with `P` by steps with `Q` if and
only if each step meets it.
-/
theorem Run.forall_iff {I P : σ → Prop} {Q : σ → α → σ → Prop} (h : M.Run Any s as t)
    (hI : ∀ s a t, I s → M.step s a = some t → I t)
    (hK : ∀ s a t, I s → P s → M.step s a = some t → (K s a ↔ P t ∧ Q s a t)) (hs : I s)
    (hp : P s) :
    ((∀ r ∈ M.visited s as, P r) ∧ ∀ x ∈ M.steps s as, Q x.1 x.2.1 x.2.2) ↔ M.Run K s as t := by
  induction h with
  | nil s => exact ⟨fun _ => .nil s, fun _ => by simpa [visited, steps] using hp⟩
  | @cons s t u a as _ hst hr ih =>
    rw [visited_cons hst, steps_cons hst, List.forall_mem_cons, List.forall_mem_cons]
    constructor
    · rintro ⟨⟨-, hrest⟩, hq, hsteps⟩
      have hpt : P t := hrest t mem_visited_self
      exact .cons ((hK _ _ _ hs hp hst).mpr ⟨hpt, hq⟩) hst
        ((ih (hI _ _ _ hs hst) hpt).mp ⟨hrest, hsteps⟩)
    · intro h
      cases h with
      | cons hk hst' hrest =>
        cases hst.symm.trans hst'
        obtain ⟨hpt, hq⟩ := (hK _ _ _ hs hp hst).mp hk
        obtain ⟨hvisited, hsteps⟩ := (ih (hI _ _ _ hs hst) hpt).mpr hrest
        exact ⟨⟨hp, hvisited⟩, hq, hsteps⟩

/-- The same for a property of states alone. -/
theorem Run.forall_visited_iff {I P : σ → Prop} (h : M.Run Any s as t)
    (hI : ∀ s a t, I s → M.step s a = some t → I t)
    (hK : ∀ s a t, I s → P s → M.step s a = some t → (K s a ↔ P t)) (hs : I s) (hp : P s) :
    (∀ r ∈ M.visited s as, P r) ↔ M.Run K s as t := by
  have hiff := h.forall_iff (K := K) (Q := fun _ _ _ => True) hI
    (fun s a t hs hp hst => by rw [and_true]; exact hK s a t hs hp hst) hs hp
  rw [← hiff]
  exact (and_iff_left fun _ _ => trivial).symm

/-- The same for a property of steps alone. -/
theorem Run.forall_steps_iff {I : σ → Prop} {Q : σ → α → σ → Prop} (h : M.Run Any s as t)
    (hI : ∀ s a t, I s → M.step s a = some t → I t)
    (hK : ∀ s a t, I s → M.step s a = some t → (K s a ↔ Q s a t)) (hs : I s) :
    (∀ x ∈ M.steps s as, Q x.1 x.2.1 x.2.2) ↔ M.Run K s as t := by
  have hiff := h.forall_iff (K := K) (P := fun _ => True) (Q := Q) hI
    (fun s a t hs _ hst => by rw [true_and]; exact hK s a t hs hst) hs trivial
  rw [← hiff]
  exact (and_iff_right fun _ _ => trivial).symm

/--
Stability is settled step by step: when a condition is exactly what keeps `P` over one step, a
run keeps `P` from every state it visits to every later one if and only if each of its steps
meets the condition.
-/
theorem Run.pairwise_visited_iff {I P : σ → Prop} (h : M.Run Any s as t)
    (hI : ∀ s a t, I s → M.step s a = some t → I t)
    (hK : ∀ s a t, I s → M.step s a = some t → (K s a ↔ (P s → P t))) (hs : I s) :
    (M.visited s as).Pairwise (fun r r' => P r → P r') ↔ M.Run K s as t := by
  induction h with
  | nil s => simpa [visited] using Run.nil s
  | @cons s t u a as _ hst hr ih =>
    rw [visited_cons hst, List.pairwise_cons, ih (hI _ _ _ hs hst)]
    constructor
    · rintro ⟨hP, hrest⟩
      exact .cons ((hK _ _ _ hs hst).mpr (hP t mem_visited_self)) hst hrest
    · intro h
      cases h with
      | cons hk hst' hrest =>
        cases hst.symm.trans hst'
        refine ⟨fun r hr hps => ?_, hrest⟩
        have hpt : P t := (hK _ _ _ hs hst).mp hk hps
        have hkeep : ∀ s a t, I s ∧ P s → K s a → M.step s a = some t → I t ∧ P t :=
          fun s a t h hk hst => ⟨hI s a t h.1 hst, (hK s a t h.1 hst).mp hk h.2⟩
        exact (hrest.forall_visited hkeep ⟨hI _ _ _ hs hst, hpt⟩ r hr).2

end Machine

end AssureCode
