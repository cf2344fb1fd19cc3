import Mathlib.Data.List.Induction
import Mathlib.Logic.Function.Basic
import AssureCode.Transition.Program
import AssureCode.Transition.Run

/-! # Programs side by side

Any number of programs run over one store, which serves their calls one at a time. A flow is a
program under way together with its trail: the calls it has made so far, after those of earlier
flows that it goes on from. Whatever the programs have in common call by call then holds of every
call that is served, and an invariant has to be kept only by such calls.
-/

namespace AssureCode

/-- A program under way. -/
structure Flow (γ : Type) (ρ : γ → Type) (α : Type) where
  trail : List (Program.Event ρ)
  rest : Program γ ρ α

/-- The call that is next; `none` when it has ended. -/
def Flow.next {γ : Type} {ρ : γ → Type} {α : Type} (f : Flow γ ρ α) : Option γ :=
  match f.rest with
  | .call c _ => some c
  | _ => none

/-- What it has returned; `none` before it ends, and after an exception. -/
def Flow.reply {γ : Type} {ρ : γ → Type} {α : Type} (f : Flow γ ρ α) : Option α :=
  match f.rest with
  | .done a => some a
  | .raised => none
  | .call _ _ => none

theorem Flow.reply_eq_some {γ : Type} {ρ : γ → Type} {α : Type} {f : Flow γ ρ α} {a : α} :
    f.reply = some a ↔ f.rest = .done a := by
  obtain ⟨trail, rest⟩ := f
  cases rest <;> simp [reply]

/-- A store: which flows its requests start, how it serves a call, and what it does by itself. -/
structure Service (γ : Type) (ρ : γ → Type) (α σ β κ δ : Type) where
  /-- `none` for a request that nobody can make. -/
  start : σ → β → Option (Flow γ ρ α)
  /-- The trail of the caller is there to be recorded; `none` when the call cannot succeed. -/
  serve : σ → List (Program.Event ρ) → (c : γ) → κ → Option (ρ c × σ)
  pass : σ → δ → Option σ

namespace Concurrent

variable {γ : Type} {ρ : γ → Type} {α σ β κ δ : Type}

structure State (γ : Type) (ρ : γ → Type) (α σ : Type) where
  store : σ
  flows : ℕ → Option (Flow γ ρ α)

inductive Action (β κ δ : Type)
  | start (i : ℕ) (request : β)
  /-- The next call of flow `i` is served with what is left to choice. -/
  | call (i : ℕ) (choice : κ)
  /-- The next call of flow `i` raises. -/
  | fail (i : ℕ)
  | pass (d : δ)

def State.set (s : State γ ρ α σ) (i : ℕ) (f : Flow γ ρ α) : State γ ρ α σ :=
  { s with flows := Function.update s.flows i (some f) }

variable (service : Service γ ρ α σ β κ δ)

def step (s : State γ ρ α σ) : Action β κ δ → Option (State γ ρ α σ)
  | .start i request =>
    match s.flows i with
    | none => (service.start s.store request).map (s.set i)
    | some _ => none
  | .call i choice =>
    match s.flows i with
    | some ⟨trail, .call c next⟩ =>
      (service.serve s.store trail c choice).map fun served =>
        State.set { s with store := served.2 } i ⟨trail ++ [⟨c, served.1⟩], next served.1⟩
    | _ => none
  | .fail i =>
    match s.flows i with
    | some ⟨trail, .call _ _⟩ => some (s.set i ⟨trail, .raised⟩)
    | _ => none
  | .pass d => (service.pass s.store d).map fun store => { s with store }

/-- Nothing is under way at first. -/
def system (init : σ → Prop) : Machine (State γ ρ α σ) (Action β κ δ) where
  init s := init s.store ∧ ∀ i, s.flows i = none
  step := step service

/-- What a step does. -/
inductive Moves (s : State γ ρ α σ) : Action β κ δ → State γ ρ α σ → Prop
  | start {i : ℕ} {request : β} {f : Flow γ ρ α} (h : s.flows i = none)
      (hf : service.start s.store request = some f) : Moves s (.start i request) (s.set i f)
  | call {i : ℕ} {choice : κ} {trail : List (Program.Event ρ)} {c : γ}
      {next : ρ c → Program γ ρ α} {r : ρ c} {store : σ}
      (h : s.flows i = some ⟨trail, .call c next⟩)
      (hr : service.serve s.store trail c choice = some (r, store)) :
      Moves s (.call i choice) (State.set { s with store } i ⟨trail ++ [⟨c, r⟩], next r⟩)
  | fail {i : ℕ} {trail : List (Program.Event ρ)} {c : γ} {next : ρ c → Program γ ρ α}
      (h : s.flows i = some ⟨trail, .call c next⟩) : Moves s (.fail i) (s.set i ⟨trail, .raised⟩)
  | pass {d : δ} {store : σ} (h : service.pass s.store d = some store) :
      Moves s (.pass d) { s with store }

variable {service} {s t : State γ ρ α σ} {a : Action β κ δ} {i j : ℕ} {f g : Flow γ ρ α}

theorem moves_of_step (h : step service s a = some t) : Moves service s a t := by
  cases a with
  | start i request =>
    simp only [step] at h
    split at h
    · next hnone =>
      obtain ⟨f, hf, rfl⟩ := Option.map_eq_some_iff.mp h
      exact .start hnone hf
    · cases h
  | call i choice =>
    simp only [step] at h
    split at h
    · next trail c next hflow =>
      obtain ⟨⟨r, store⟩, hr, rfl⟩ := Option.map_eq_some_iff.mp h
      exact .call hflow hr
    · cases h
  | fail i =>
    simp only [step] at h
    split at h
    · next trail c next hflow =>
      cases h
      exact .fail hflow
    · cases h
  | pass d =>
    obtain ⟨store, hstore, rfl⟩ := Option.map_eq_some_iff.mp h
    exact .pass hstore

@[simp] theorem set_store : (s.set i f).store = s.store := rfl

@[simp] theorem set_self : (s.set i f).flows i = some f := Function.update_self ..

theorem set_ne (h : j ≠ i) : (s.set i f).flows j = s.flows j := Function.update_of_ne h ..

/-- A flow afterwards is the one that was put there, or another as before. -/
theorem set_cases (h : (s.set i f).flows j = some g) :
    (j = i ∧ g = f) ∨ (j ≠ i ∧ s.flows j = some g) := by
  rcases eq_or_ne j i with rfl | hne
  · rw [set_self] at h
    exact .inl ⟨rfl, (Option.some.inj h).symm⟩
  · rw [set_ne hne] at h
    exact .inr ⟨hne, h⟩

/-- The flow that an action is about. -/
def Action.flow : Action β κ δ → Option ℕ
  | .start i _ | .call i _ | .fail i => some i
  | .pass _ => none

theorem flows_of_moves (h : Moves service s a t) (hj : a.flow ≠ some j) :
    t.flows j = s.flows j := by
  cases h with
  | start | call | fail => exact set_ne fun heq => hj (congrArg some heq.symm)
  | pass => rfl

/-- Flows that no action is about are not there at any step. -/
theorem flows_beyond {init : σ → Prop} {n : ℕ} {as : List (Action β κ δ)}
    (h : (system service init).exec s as = some t)
    (hs : ∀ i, n ≤ i → s.flows i = none)
    (has : (as.all fun a => a.flow.all fun i => decide (i < n)) = true) :
    ∀ x ∈ (system service init).steps s as, ∀ i, n ≤ i → x.1.flows i = none := by
  have hrun : (system service init).Run (fun _ a => ∀ i, a.flow = some i → i < n) s as t := by
    apply Machine.run_of_exec_forall h
    intro a ha _ i hflow
    have hlt := List.all_eq_true.mp has a ha
    rw [hflow, Option.all_some, decide_eq_true_eq] at hlt
    exact hlt
  refine hrun.forall_steps (I := fun s => ∀ i, n ≤ i → s.flows i = none)
    (Q := fun s _ _ => ∀ i, n ≤ i → s.flows i = none) ?_ (fun _ _ _ hs _ _ => hs) hs
  intro s a t hs ha hst i hi
  rw [flows_of_moves (moves_of_step hst) fun hflow => absurd (ha i hflow) (by omega), hs i hi]

/-! ## Trails -/

section Trails

variable {ev : Program.Event ρ}

def OnTrail (s : State γ ρ α σ) (ev : Program.Event ρ) : Prop :=
  ∃ i f, s.flows i = some f ∧ ev ∈ f.trail

/-- A trail is left as it was or goes on with a call that is served; or its flow starts with it. -/
theorem trail_cases (h : Moves service s a t) (hf : t.flows i = some f) :
    (∃ f', s.flows i = some f' ∧ f.trail = f'.trail) ∨
      (s.flows i = none ∧ ∃ request, service.start s.store request = some f) ∨
      ∃ trail c next choice r, s.flows i = some ⟨trail, .call c next⟩ ∧
        service.serve s.store trail c choice = some (r, t.store) ∧ f.trail = trail ++ [⟨c, r⟩] := by
  cases h with
  | start hnone hflow =>
    rcases set_cases hf with ⟨rfl, rfl⟩ | ⟨-, hf⟩
    · exact .inr (.inl ⟨hnone, _, hflow⟩)
    · exact .inl ⟨f, hf, rfl⟩
  | call hflow hr =>
    rcases set_cases hf with ⟨rfl, rfl⟩ | ⟨-, hf⟩
    · exact .inr (.inr ⟨_, _, _, _, _, hflow, hr, rfl⟩)
    · exact .inl ⟨f, hf, rfl⟩
  | fail hflow =>
    rcases set_cases hf with ⟨rfl, rfl⟩ | ⟨-, hf⟩
    · exact .inl ⟨_, hflow, rfl⟩
    · exact .inl ⟨f, hf, rfl⟩
  | pass => exact .inl ⟨f, hf, rfl⟩

/-- What comes onto a trail was there when its flow started, or is a call that is served. -/
theorem mem_trail_cases (h : Moves service s a t) (hf : t.flows i = some f) (hev : ev ∈ f.trail) :
    (∃ f', s.flows i = some f' ∧ ev ∈ f'.trail) ∨
      (∃ request, service.start s.store request = some f) ∨
      ∃ trail next choice, s.flows i = some ⟨trail, .call ev.1 next⟩ ∧
        service.serve s.store trail ev.1 choice = some (ev.2, t.store) := by
  rcases trail_cases h hf with ⟨f', hf', heq⟩ | ⟨-, hstart⟩ | ⟨trail, c, next, x, r, hflow, hr, heq⟩
  · exact .inl ⟨f', hf', heq ▸ hev⟩
  · exact .inr (.inl hstart)
  · rw [heq, List.mem_append, List.mem_singleton] at hev
    rcases hev with hev | rfl
    · exact .inl ⟨_, hflow, hev⟩
    · exact .inr (.inr ⟨trail, next, x, hflow, hr⟩)

theorem mem_trail_of_moves (h : Moves service s a t) (hf : s.flows i = some f)
    (hev : ev ∈ f.trail) : ∃ f', t.flows i = some f' ∧ ev ∈ f'.trail := by
  cases h with
  | @start j _ _ hnone _ =>
    have hne : i ≠ j := by
      rintro rfl
      rw [hnone] at hf
      cases hf
    exact ⟨f, (set_ne hne).trans hf, hev⟩
  | @call j _ _ _ _ _ _ hflow _ =>
    rcases eq_or_ne i j with rfl | hne
    · cases hf.symm.trans hflow
      exact ⟨_, set_self, List.mem_append_left _ hev⟩
    · exact ⟨f, (set_ne hne).trans hf, hev⟩
  | @fail j _ _ _ hflow =>
    rcases eq_or_ne i j with rfl | hne
    · cases hf.symm.trans hflow
      exact ⟨_, set_self, hev⟩
    · exact ⟨f, (set_ne hne).trans hf, hev⟩
  | pass => exact ⟨f, hf, hev⟩

theorem OnTrail.moves (hs : OnTrail s ev) (h : Moves service s a t) : OnTrail t ev := by
  obtain ⟨i, f, hf, hev⟩ := hs
  obtain ⟨f', hf', hev'⟩ := mem_trail_of_moves h hf hev
  exact ⟨i, f', hf', hev'⟩

/-- At some moment of the run the call was served, and answered so. -/
def ServedIn (service : Service γ ρ α σ β κ δ) (init : σ → Prop) (s t : State γ ρ α σ)
    (ev : Program.Event ρ) : Prop :=
  ∃ u v pre post a trail choice, (system service init).Run Machine.Any s pre u ∧
    (system service init).step u a = some v ∧ (system service init).Run Machine.Any v post t ∧
    service.serve u.store trail ev.1 choice = some (ev.2, v.store)

/-- What is on a trail in the end was there at first, or has come there in the run. -/
theorem served_of_run {init : σ → Prop} {as : List (Action β κ δ)}
    (h : (system service init).Run Machine.Any s as t) (hev : OnTrail t ev) :
    OnTrail s ev ∨ (∃ i request store f, .start i request ∈ as ∧
      service.start store request = some f ∧ ev ∈ f.trail) ∨ ServedIn service init s t ev := by
  induction h with
  | nil s => exact .inl hev
  | @cons s v t a as hk hst hrun ih =>
    rcases ih hev with ⟨i, f, hf, hmem⟩ | ⟨i, request, store, f, ha, hf, hmem⟩ |
      ⟨u, w, pre, post, b, trail, choice, hpre, hstep, hpost, hserve⟩
    · cases moves_of_step hst with
      | start hnone hstart =>
        rcases set_cases hf with ⟨rfl, rfl⟩ | ⟨-, hf⟩
        · exact .inr (.inl ⟨_, _, _, f, List.mem_cons_self, hstart, hmem⟩)
        · exact .inl ⟨i, f, hf, hmem⟩
      | call hflow hserve =>
        rcases set_cases hf with ⟨rfl, rfl⟩ | ⟨-, hf⟩
        · rcases List.mem_append.mp hmem with hmem | hmem
          · exact .inl ⟨i, _, hflow, hmem⟩
          · rw [List.mem_singleton.mp hmem]
            exact .inr (.inr ⟨s, _, [], as, _, _, _, .nil s, hst, hrun, hserve⟩)
        · exact .inl ⟨i, f, hf, hmem⟩
      | fail hflow =>
        rcases set_cases hf with ⟨rfl, rfl⟩ | ⟨-, hf⟩
        · exact .inl ⟨i, _, hflow, hmem⟩
        · exact .inl ⟨i, f, hf, hmem⟩
      | pass => exact .inl ⟨i, f, hf, hmem⟩
    · exact .inr (.inl ⟨i, request, store, f, List.mem_cons_of_mem _ ha, hf, hmem⟩)
    · exact .inr (.inr ⟨u, w, a :: pre, post, b, trail, choice, .cons hk hst hpre, hstep, hpost,
        hserve⟩)

/-- When nothing is under way at first, it has come there in the run. -/
theorem served_of_init {init : σ → Prop} {as : List (Action β κ δ)}
    (hs : (system service init).init s) (h : (system service init).Run Machine.Any s as t)
    (hev : OnTrail t ev) : (∃ i request store f, .start i request ∈ as ∧
      service.start store request = some f ∧ ev ∈ f.trail) ∨ ServedIn service init s t ev := by
  refine (served_of_run h hev).resolve_left ?_
  rintro ⟨i, f, hf, -⟩
  rw [hs.2 i] at hf
  cases hf

end Trails

/-! ## What all flows have in common -/

section Common

variable {K : List (Program.Event ρ) → γ → Prop} {Q : List (Program.Event ρ) → α → Prop}

/-- Every call of the rest is admitted, and it ends well unless it raises. -/
def Good (K : List (Program.Event ρ) → γ → Prop) (Q : List (Program.Event ρ) → α → Prop)
    (f : Flow γ ρ α) : Prop :=
  f.rest.Meets K Q (fun _ => True) f.trail

def AllGood (K : List (Program.Event ρ) → γ → Prop) (Q : List (Program.Event ρ) → α → Prop)
    (s : State γ ρ α σ) : Prop :=
  ∀ i f, s.flows i = some f → Good K Q f

theorem AllGood.set {store : σ} (hs : AllGood K Q s) (hf : Good K Q f) :
    AllGood K Q (State.set { s with store } i f) := by
  intro j g hg
  rcases set_cases hg with ⟨rfl, rfl⟩ | ⟨-, hg⟩
  · exact hf
  · exact hs j g hg

/-- The call that is next is admitted. -/
theorem AllGood.admitted {trail : List (Program.Event ρ)} {c : γ} {next : ρ c → Program γ ρ α}
    (hs : AllGood K Q s) (h : s.flows i = some ⟨trail, .call c next⟩) : K trail c :=
  (hs i _ h).1

theorem allGood_step (hs : AllGood K Q s)
    (hstart : ∀ i request f, a = .start i request → service.start s.store request = some f →
      Good K Q f)
    (h : step service s a = some t) : AllGood K Q t := by
  cases moves_of_step h with
  | start hnone hf => exact hs.set (hstart _ _ _ rfl hf)
  | call hflow hr => exact hs.set ((hs _ _ hflow).2 _)
  | fail hflow => exact hs.set trivial
  | pass hstore => exact hs

/-- A step keeps what the flows have in common and an invariant of the admitted calls. -/
theorem invariant_step {init : σ → Prop} {I : State γ ρ α σ → Prop}
    {C : State γ ρ α σ → Action β κ δ → Prop}
    (hstart : ∀ s i request f, I s → C s (.start i request) →
      service.start s.store request = some f → Good K Q f)
    (hI : ∀ s a t, I s → AllGood K Q s → C s a → Moves service s a t → I t) :
    ∀ s a t, I s ∧ AllGood K Q s → C s a → (system service init).step s a = some t →
      I t ∧ AllGood K Q t := by
  rintro s a t ⟨hs, hgood⟩ hc hst
  refine ⟨hI s a t hs hgood hc (moves_of_step hst), allGood_step hgood ?_ hst⟩
  rintro i request f rfl hf
  exact hstart s i request f hs hc hf

/-- Every call of a trail was admitted by the events before it. -/
def Complied (K : List (Program.Event ρ) → γ → Prop) (h : List (Program.Event ρ)) : Prop :=
  ∀ before ev, before ++ [ev] <+: h → K before ev.1

theorem complied_nil : Complied K [] :=
  fun _ _ hprefix => absurd (List.prefix_nil.mp hprefix) (by simp)

theorem Complied.concat {h : List (Program.Event ρ)} {ev : Program.Event ρ} (hh : Complied K h)
    (hev : K h ev.1) : Complied K (h ++ [ev]) := by
  intro before last hprefix
  rcases List.prefix_concat_iff.mp hprefix with heq | hprefix
  · obtain ⟨rfl, hlast⟩ := List.append_inj' heq rfl
    rw [List.singleton_inj.mp hlast]
    exact hev
  · exact hh before last hprefix

theorem Complied.exists_before {h : List (Program.Event ρ)} {ev : Program.Event ρ}
    (hh : Complied K h) (hev : ev ∈ h) : ∃ before, before ++ [ev] <+: h ∧ K before ev.1 := by
  obtain ⟨before, after, rfl⟩ := List.append_of_mem hev
  have hprefix : before ++ [ev] <+: before ++ ev :: after := ⟨after, by simp⟩
  exact ⟨before, hprefix, hh before ev hprefix⟩

theorem Complied.exists_subset {h : List (Program.Event ρ)} {ev : Program.Event ρ}
    (hh : Complied K h) (hev : ev ∈ h) : ∃ before, before ⊆ h ∧ K before ev.1 := by
  obtain ⟨before, hle, hbefore⟩ := hh.exists_before hev
  exact ⟨before, ((Program.prefix_concat ..).trans hle).subset, hbefore⟩

/-- Calls that are admitted only where there was none of their kind are there once. -/
theorem Complied.eq_of_first {h : List (Program.Event ρ)} {ev ev' : Program.Event ρ}
    {P : Program.Event ρ → Prop} (hh : Complied K h)
    (hK : ∀ before ev, K before ev.1 → P ev → ∀ ev' ∈ before, ¬ P ev') (hev : ev ∈ h)
    (hev' : ev' ∈ h) (hp : P ev) (hp' : P ev') : ev = ev' := by
  obtain ⟨before, ⟨after, rfl⟩, hbefore⟩ := hh.exists_before hev
  obtain ⟨before', hprefix', hbefore'⟩ := hh.exists_before hev'
  rcases List.prefix_or_prefix_of_prefix hprefix' (List.prefix_append (before ++ [ev]) after) with
    hle | hle
  · rcases List.prefix_concat_iff.mp hle with heq | hle
    · exact (List.singleton_inj.mp (List.append_inj' heq rfl).2).symm
    · exact absurd hp' (hK before ev hbefore hp ev' (hle.subset List.mem_concat_self))
  · rcases List.prefix_concat_iff.mp hle with heq | hle
    · exact List.singleton_inj.mp (List.append_inj' heq rfl).2
    · exact absurd hp (hK before' ev' hbefore' hp' ev (hle.subset List.mem_concat_self))

/-- So are events of such calls, also those that are equal. -/
theorem Complied.pairwise {h : List (Program.Event ρ)} {P : Program.Event ρ → Prop}
    (hh : Complied K h) (hK : ∀ before ev, K before ev.1 → P ev → ∀ ev' ∈ before, ¬ P ev') :
    h.Pairwise fun ev ev' => P ev' → ¬ P ev := by
  induction h using List.reverseRecOn with
  | nil => exact .nil
  | append_singleton h last ih =>
    have hinit : Complied K h :=
      fun before ev hle => hh before ev (hle.trans (List.prefix_append ..))
    refine List.pairwise_append.mpr ⟨ih hinit, List.pairwise_singleton .., ?_⟩
    intro ev hev ev' hev' hp'
    rw [List.mem_singleton.mp hev'] at hp'
    exact hK h last (hh h last List.prefix_rfl) hp' ev hev

/-- When nothing is under way at first, an invariant of the admitted calls holds in a run. -/
theorem forall_visited_of_run {init : σ → Prop} {I : State γ ρ α σ → Prop}
    {as : List (Action β κ δ)} (hs : (system service init).init s)
    (h : (system service init).Run Machine.Any s as t)
    (hstart : ∀ store request f, service.start store request = some f → Good K Q f)
    (hI : ∀ s a t, I s → AllGood K Q s → Moves service s a t → I t) (hinit : I s) :
    ∀ u ∈ (system service init).visited s as, I u ∧ AllGood K Q u := by
  have hstep : ∀ s a t, I s ∧ AllGood K Q s → Machine.Any s a →
      (system service init).step s a = some t → I t ∧ AllGood K Q t := by
    apply invariant_step
    · exact fun s i request f _ _ => hstart s.store request f
    · exact fun s a t hs hgood _ hmoves => hI s a t hs hgood hmoves
  have hgood : AllGood K Q s := by
    intro i f hf
    rw [hs.2 i] at hf
    cases hf
  exact h.forall_visited hstep ⟨hinit, hgood⟩

/-- When all calls are admitted, so is what has been called in a run. -/
theorem complied_of_run {init : σ → Prop} {as : List (Action β κ δ)}
    (hs : (system service init).init s) (h : (system service init).Run Machine.Any s as t)
    (hstart : ∀ store request f, service.start store request = some f →
      Good K Q f ∧ Complied K f.trail) :
    ∀ u ∈ (system service init).visited s as,
      (∀ i f, u.flows i = some f → Complied K f.trail) ∧ AllGood K Q u := by
  refine forall_visited_of_run (I := fun u => ∀ i f, u.flows i = some f → Complied K f.trail)
    hs h (fun store request f hf => (hstart store request f hf).1) ?_ ?_
  · intro s a t hs hgood hmoves i f hf
    rcases trail_cases hmoves hf with ⟨f', hf', heq⟩ | ⟨-, request, hrequest⟩ |
      ⟨trail, c, next, x, r, hflow, -, heq⟩
    · rw [heq]
      exact hs i f' hf'
    · exact (hstart _ request f hrequest).2
    · rw [heq]
      exact (hs i _ hflow).concat (hgood.admitted hflow)
  · intro i f hf
    rw [hs.2 i] at hf
    cases hf

end Common

/-! ## What is handed out once -/

section Tokens

variable {τ : Type} {token : Program.Event ρ → Option τ} {Spent : σ → τ → Prop}

/-- Some answers are tokens, and an answer is never a token that is spent. -/
structure HandsOut (service : Service γ ρ α σ β κ δ) (token : Program.Event ρ → Option τ)
    (Spent : σ → τ → Prop) : Prop where
  start : ∀ store request f, service.start store request = some f → ∀ ev ∈ f.trail, token ev = none
  serve : ∀ store trail c x r store', service.serve store trail c x = some (r, store') →
    (∀ k, Spent store k → Spent store' k) ∧
      ∀ k, token ⟨c, r⟩ = some k → ¬ Spent store k ∧ Spent store' k
  pass : ∀ store d store', service.pass store d = some store' →
    ∀ k, Spent store k → Spent store' k

/-- Tokens on trails are spent, and no two flows have one in common. -/
structure Exclusive (token : Program.Event ρ → Option τ) (Spent : σ → τ → Prop)
    (s : State γ ρ α σ) : Prop where
  spent : ∀ i f, s.flows i = some f → ∀ ev ∈ f.trail, ∀ k, token ev = some k → Spent s.store k
  once : ∀ i f, s.flows i = some f → ∀ j g, s.flows j = some g → ∀ ev ∈ f.trail, ∀ ev' ∈ g.trail,
    ∀ k, token ev = some k → token ev' = some k → i = j

theorem spent_moves (hands : HandsOut service token Spent) (h : Moves service s a t) {k : τ}
    (hk : Spent s.store k) : Spent t.store k := by
  cases h with
  | start | fail => exact hk
  | call hflow hr => exact (hands.serve _ _ _ _ _ _ hr).1 k hk
  | pass hstore => exact hands.pass _ _ _ hstore k hk

/-- A token on a trail has been there already, or is handed out now. -/
theorem token_cases (hands : HandsOut service token Spent) (h : Moves service s a t)
    (hf : t.flows i = some f) {ev : Program.Event ρ} (hev : ev ∈ f.trail) {k : τ}
    (hk : token ev = some k) :
    (∃ f', s.flows i = some f' ∧ ev ∈ f'.trail) ∨
      (a.flow = some i ∧ ¬ Spent s.store k ∧ Spent t.store k) := by
  cases h with
  | start hnone hflow =>
    rcases set_cases hf with ⟨rfl, rfl⟩ | ⟨-, hf⟩
    · rw [hands.start _ _ _ hflow ev hev] at hk
      cases hk
    · exact .inl ⟨f, hf, hev⟩
  | call hflow hr =>
    rcases set_cases hf with ⟨rfl, rfl⟩ | ⟨-, hf⟩
    · rcases List.mem_append.mp hev with hev | hev
      · exact .inl ⟨_, hflow, hev⟩
      · rw [List.mem_singleton.mp hev] at hk
        exact .inr ⟨rfl, (hands.serve _ _ _ _ _ _ hr).2 k hk⟩
    · exact .inl ⟨f, hf, hev⟩
  | fail hflow =>
    rcases set_cases hf with ⟨rfl, rfl⟩ | ⟨-, hf⟩
    · exact .inl ⟨_, hflow, hev⟩
    · exact .inl ⟨f, hf, hev⟩
  | pass => exact .inl ⟨f, hf, hev⟩

theorem exclusive_moves (hands : HandsOut service token Spent) (hs : Exclusive token Spent s)
    (h : Moves service s a t) : Exclusive token Spent t := by
  constructor
  · intro i f hf ev hev k hk
    rcases token_cases hands h hf hev hk with ⟨f', hf', hev⟩ | ⟨-, -, hspent⟩
    · exact spent_moves hands h (hs.spent i f' hf' ev hev k hk)
    · exact hspent
  · intro i f hf j g hg ev hev ev' hev' k hk hk'
    rcases token_cases hands h hf hev hk with ⟨f', hf', hev⟩ | ⟨hi, hnot, -⟩
    · rcases token_cases hands h hg hev' hk' with ⟨g', hg', hev'⟩ | ⟨-, hnot, -⟩
      · exact hs.once i f' hf' j g' hg' ev hev ev' hev' k hk hk'
      · exact absurd (hs.spent i f' hf' ev hev k hk) hnot
    · rcases token_cases hands h hg hev' hk' with ⟨g', hg', hev'⟩ | ⟨hj, -, -⟩
      · exact absurd (hs.spent j g' hg' ev' hev' k hk') hnot
      · exact Option.some.inj (hi.symm.trans hj)

theorem exclusive_of_run {init : σ → Prop} {as : List (Action β κ δ)}
    (hands : HandsOut service token Spent) (hs : (system service init).init s)
    (h : (system service init).Run Machine.Any s as t) :
    ∀ u ∈ (system service init).visited s as, Exclusive token Spent u := by
  apply h.forall_visited fun s a t hs _ hst => exclusive_moves hands hs (moves_of_step hst)
  constructor
  · intro i f hf
    rw [hs.2 i] at hf
    cases hf
  · intro i f hf
    rw [hs.2 i] at hf
    cases hf

end Tokens

end Concurrent

end AssureCode
