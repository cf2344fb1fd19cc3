import AssureCode.Provisioning.Steps

/-! # One repository for each contract

A repository is recorded for a contract under its name, or under one that differs from it in letter
case. The names are unique, so two contracts come to share a repository exactly when one is
recorded for a contract whose name differs in case only from that of a contract with a repository.
-/

namespace AssureCode.Provisioning

open Js Machine
open Settlement (Outcome)

/-- The contract has the repository, in one table or in the other. -/
def Shared.Has (d : Shared) (contractId repoFullName : Text) : Prop :=
  (∃ r ∈ d.rows, r.contractId = contractId ∧ r.repoFullName = some repoFullName) ∨
    d.Linked contractId repoFullName

/-- No two contracts have the same repository. -/
def Shared.Isolated (d : Shared) : Prop :=
  ∀ c c' x x', d.Has c x → d.Has c' x' → toLowerCase x = toLowerCase x' → c = c'

/--
Where a repository is recorded for a contract, no contract that has one is named with the same
number after a slug that differs in letter case only.
-/
def NamesApart (s : State) : Action → Prop
  | .advance i o _ => ∀ row repoFullName,
      (s.actors i).task = some (.recordRepo row repoFullName) → o ≠ .failed →
        ∀ r ∈ s.shared.rows, r.repoFullName ≠ none → ¬ SlugsDifferInCase r.repoName row.repoName
  | _ => True

/-- Contracts with repositories have names that differ by more than case. -/
def Apart (es : List Entry) : Prop :=
  ∀ e ∈ es, ∀ e' ∈ es, e.repoFullName ≠ none → e'.repoFullName ≠ none →
    e.contractId ≠ e'.contractId → toLowerCase e.repoName ≠ toLowerCase e'.repoName

instance (es : List Entry) : Decidable (Apart es) := inferInstanceAs (Decidable (∀ _ ∈ _, _))

variable {org : Text} {answer : CollaboratorOutcome} {s t : State} {a : Action} {as : List Action}
  {d : Shared} {i : ℕ} {o : Outcome} {es es' : List Entry} {c x name : Text}

theorem owns_of_has (h : d.Sound org) (hx : d.Has c x) : Owns org d.entries c x := by
  rcases hx with ⟨r, hr, rfl, hx⟩ | hx
  · refine ⟨r.entry, mem_entries hr, rfl, ?_, h.recorded _ (mem_entries hr) x hx⟩
    rw [Row.entry, hx]
    exact Option.some_ne_none x
  · exact h.linked c x hx

/-- Repositories are shared exactly when names of contracts that have them agree up to case. -/
theorem isolated_iff (h : d.Sound org) : d.Isolated ↔ Apart d.entries := by
  constructor
  · intro hiso e he e' he' hsome hsome' hc hname
    obtain ⟨r, hr, rfl⟩ := List.mem_map.mp he
    obtain ⟨r', hr', rfl⟩ := List.mem_map.mp he'
    obtain ⟨x, hx⟩ := Option.ne_none_iff_exists'.mp hsome
    obtain ⟨x', hx'⟩ := Option.ne_none_iff_exists'.mp hsome'
    refine hc (hiso _ _ x x' (.inl ⟨r, hr, rfl, hx⟩) (.inl ⟨r', hr', rfl, hx'⟩) ?_)
    rw [h.recorded _ he x hx, h.recorded _ he' x' hx', toLowerCase_fullName, hname]
  · intro hapart c c' x x' hx hx' heq
    obtain ⟨e, he, rfl, hsome, hx⟩ := owns_of_has h hx
    obtain ⟨e', he', rfl, hsome', hx'⟩ := owns_of_has h hx'
    by_contra hc
    rw [hx, hx', toLowerCase_fullName] at heq
    exact hapart e he e' he' hsome hsome' hc heq

/-! ## One step -/

theorem apart_of_subset (h : Apart es) (hsub : ∀ e ∈ es', e.repoFullName ≠ none → e ∈ es) :
    Apart es' := fun e he e' he' hsome hsome' =>
  h e (hsub e he hsome) e' (hsub e' he' hsome') hsome hsome'

/-- Recording a repository keeps the names apart exactly when the new one is apart from them. -/
theorem apart_record (h : d.Sound org) (hn : Named d.entries c name) (hp : Apart d.entries) :
    (∀ e ∈ d.entries, e.repoFullName ≠ none → ¬ SlugsDifferInCase e.repoName name) ↔
      Apart (d.entries.map (Entry.record c x)) := by
  obtain ⟨e₀, he₀, rfl, rfl⟩ := hn
  have hslugs : ∀ e ∈ d.entries,
      SlugsDifferInCase e.repoName e₀.repoName ↔ DiffersInCase e.repoName e₀.repoName :=
    fun e he => slugsDifferInCase_iff (h.slugged e he) (h.slugged e₀ he₀)
  have hsame : ∀ e ∈ d.entries, e.contractId = e₀.contractId → e = e₀ := fun e he =>
    h.eq_of_contractId he he₀
  constructor
  · intro hdiffers
    -- The entry with the new repository, and another one that has a repository.
    have hnew : ∀ e ∈ d.entries, e.contractId ≠ e₀.contractId → e.repoFullName ≠ none →
        toLowerCase e.repoName ≠ toLowerCase e₀.repoName := by
      intro e he hc hsome heq
      have hne : e.repoName ≠ e₀.repoName := fun hname =>
        hc (by rw [h.eq_of_repoName he he₀ hname])
      exact hdiffers e he hsome ((hslugs e he).mpr ⟨hne, heq⟩)
    simp only [Apart, List.forall_mem_map]
    intro e he e' he' hsome hsome' hc
    simp only [Entry.record] at hsome hsome' hc ⊢
    split at hsome <;> split at hsome' <;> rename_i h₁ h₂
    · simp only [if_pos h₁, if_pos h₂] at hc
      exact absurd (h₁.trans h₂.symm) hc
    · simp only [if_pos h₁, if_neg h₂]
      rw [hsame e he h₁]
      exact (hnew e' he' h₂ hsome').symm
    · simp only [if_neg h₁, if_pos h₂]
      rw [hsame e' he' h₂]
      exact hnew e he h₁ hsome
    · simp only [if_neg h₁, if_neg h₂] at hc ⊢
      exact hp e he e' he' hsome hsome' hc
  · intro hapart e he hsome hdiffers
    obtain ⟨hne, heq⟩ := (hslugs e he).mp hdiffers
    have hc : e.contractId ≠ e₀.contractId := fun hc => hne (by rw [hsame e he hc])
    have hself : e₀.record e₀.contractId x = { e₀ with repoFullName := some x } := if_pos rfl
    have hother : e.record e₀.contractId x = e := if_neg hc
    refine hapart _ (List.mem_map_of_mem he) _ (List.mem_map_of_mem he₀) ?_ ?_ ?_ ?_
    · rwa [hother]
    · rw [hself]
      exact Option.some_ne_none x
    · rwa [hother, hself]
    · rwa [hother, hself]

theorem namesApart_of_task (h : ∀ row x, (s.actors i).task ≠ some (.recordRepo row x)) :
    NamesApart s (.advance i o answer) := fun row x hτ => absurd hτ (h row x)

theorem namesApart_iff (hs : Sound org s) (hp : Apart s.shared.entries)
    (h : step org s a = some t) : NamesApart s a ↔ Apart t.shared.entries := by
  cases step_cases h with
  | quiet he _ _ htask =>
    refine iff_of_true ?_ (by rwa [he])
    cases a with
    | advance i o answer =>
      apply namesApart_of_task
      intro row x
      rw [htask i o answer rfl]
      exact nofun
    | _ => trivial
  | @attempt i o answer call τ rest hi =>
    have htask : (s.actors i).task = some τ := by rw [hi]; rfl
    have hother : (∀ row x, τ ≠ .recordRepo row x) → NamesApart s (.advance i o answer) :=
      fun hne => namesApart_of_task fun row x hrecord =>
        hne row x (Option.some.inj (htask.symm.trans hrecord))
    rcases attempt_effect org o with ⟨ho, heq⟩ | ⟨ho, heffect⟩
    · apply iff_of_true (fun _ _ _ hne => absurd ho hne)
      change Apart (attempt org answer s.shared call τ o).1.entries
      rwa [heq]
    change _ ↔ Apart (attempt org answer s.shared call τ o).1.entries
    cases heffect with
    | keep he _ hne => exact iff_of_true (hother hne) (by rwa [he])
    | link he => exact iff_of_true (hother nofun) (by rwa [he])
    | insert _ _ he =>
      refine iff_of_true (hother nofun) (apart_of_subset hp fun e hmem hsome => ?_)
      rw [he] at hmem
      rcases List.mem_append.mp hmem with hmem | hmem
      · exact hmem
      · rw [List.mem_singleton.mp hmem] at hsome
        exact absurd rfl hsome
    | @record row x _ he =>
      have hτ := hs.fits i call _ rest hi
      rw [he, ← apart_record hs.shared hτ.1 hp, Shared.entries, List.forall_mem_map]
      constructor
      · exact fun hk => hk row x htask ho
      · intro hk row' x' hrecord _
        cases htask.symm.trans hrecord
        exact hk

/-! ## Runs -/

theorem apart_visited_iff (hs : Initial s) (h : (system org).Run Any s as t) :
    (∀ r ∈ (system org).visited s as, Apart r.shared.entries) ↔
      (system org).Run NamesApart s as t := by
  refine h.forall_visited_iff (I := Sound org) (fun _ _ _ => sound_step)
    (fun _ _ _ hs hp => namesApart_iff hs hp) (sound_initial hs) ?_
  intro e he
  rw [Shared.entries, hs.1] at he
  cases he

/--
No two contracts ever share a repository exactly in those runs in which none is recorded beside
another of the same number whose slug differs in letter case only.
-/
theorem repositories_isolated_iff (org : Text) (hs : Initial s)
    (h : (system org).Run Any s as t) :
    (∀ r ∈ (system org).visited s as, r.shared.Isolated) ↔ (system org).Run NamesApart s as t := by
  rw [← apart_visited_iff hs h]
  have hsound := h.forall_visited (I := Sound org) (fun _ _ _ hs _ => sound_step hs)
    (sound_initial hs)
  exact forall₂_congr fun r hr => isolated_iff (hsound r hr).shared

/-- Two contracts with these titles are accepted by the same freelancer, one after the other. -/
def dashboards (title title' : String) : List Action :=
  let provision i n := List.replicate n (Action.advance i .ok .invited)
  [.user (units "f") ⟨units "Ann Lee", some (units "ann")⟩, .contract (units "AC-1") (units title),
    .contract (units "AC-2") (units title'), .accept 0 (units "AC-1") (units "f")] ++
    provision 0 16 ++ .accept 1 (units "AC-2") (units "f") :: provision 1 16

theorem initial_default : Initial {} := ⟨rfl, nofun, fun _ => rfl⟩

theorem repositories_isolated_iff_numbered :
    ∃ t, (system (units "acme")).exec {} (dashboards "Dashboard" "Dashboard") = some t ∧
      ∀ r ∈ (system (units "acme")).visited {} (dashboards "Dashboard" "Dashboard"),
        r.shared.Isolated := by
  have h : ((system (units "acme")).exec {} (dashboards "Dashboard" "Dashboard")).isSome := by
    decide +kernel
  obtain ⟨t, ht⟩ := Option.isSome_iff_exists.mp h
  have hrun := run_of_exec ht
  have hall : ∀ r ∈ (system (units "acme")).visited {} (dashboards "Dashboard" "Dashboard"),
      Apart r.shared.entries := by decide +kernel
  exact ⟨t, ht, (repositories_isolated_iff _ initial_default hrun).mpr
    ((apart_visited_iff initial_default hrun).mp hall)⟩

/-- The second contract adopts the repository of the first. -/
theorem repositories_shared : ¬ ∀ (org : Text) s as t, Initial s →
    (system org).Run Any s as t → ∀ r ∈ (system org).visited s as, r.shared.Isolated := by
  intro hall
  have h : ((system (units "acme")).exec {} (dashboards "Dashboard" "dashboard" ++
      [.advance 1 .ok .invited])).any fun t =>
      ((t.shared.contracts (units "AC-1")).bind (·.githubRepoFullName) =
        some (units "acme/Dashboard-Ann-01")) ∧
      ((t.shared.contracts (units "AC-2")).bind (·.githubRepoFullName) =
        some (units "acme/Dashboard-Ann-01")) := by decide +kernel
  obtain ⟨t, ht, h⟩ := (Option.any_eq_true _ _).mp h
  obtain ⟨hfirst, hsecond⟩ := of_decide_eq_true h
  have hrun := run_of_exec ht
  have hiso := hall _ _ _ t initial_default hrun t hrun.mem_visited
  have heq := hiso _ _ _ _ (.inr (Option.bind_eq_some_iff.mp hfirst))
    (.inr (Option.bind_eq_some_iff.mp hsecond)) rfl
  exact absurd heq (by decide)

end AssureCode.Provisioning
