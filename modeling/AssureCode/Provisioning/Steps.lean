import Mathlib.Data.List.Nodup
import AssureCode.Provisioning.Model

/-! # Names and repositories in a run

What each task does to the names and repositories of the table is said once, as is what a task
relies on that was found out by those before it. The names stay unique, and a repository is
recorded for a contract under its name, up to case.
-/

namespace AssureCode.Provisioning

open Js
open Settlement (Outcome)

def Shared.Linked (d : Shared) (contractId repoFullName : Text) : Prop :=
  ∃ c, d.contracts contractId = some c ∧ c.githubRepoFullName = some repoFullName

/-! ## Names and repositories -/

/-- What a row says about names and repositories. -/
structure Entry where
  contractId : Text
  repoName : Text
  repoFullName : Option Text
  deriving DecidableEq

def Row.entry (r : Row) : Entry := ⟨r.contractId, r.repoName, r.repoFullName⟩

def Shared.entries (d : Shared) : List Entry := d.rows.map Row.entry

def Entry.record (contractId repoFullName : Text) (e : Entry) : Entry :=
  if e.contractId = contractId then { e with repoFullName := some repoFullName } else e

/-- The contract has the name. -/
def Named (es : List Entry) (contractId repoName : Text) : Prop :=
  ∃ e ∈ es, e.contractId = contractId ∧ e.repoName = repoName

/-- The contract has a repository, and its name is that of this one, up to case. -/
def Owns (org : Text) (es : List Entry) (contractId repoFullName : Text) : Prop :=
  ∃ e ∈ es, e.contractId = contractId ∧ e.repoFullName ≠ none ∧
    toLowerCase repoFullName = toLowerCase (fullName org e.repoName)

/-- Every entry is still there, and with a repository if it had one. -/
def Grows (es es' : List Entry) : Prop :=
  ∀ e ∈ es, ∃ e' ∈ es', e'.contractId = e.contractId ∧ e'.repoName = e.repoName ∧
    (e.repoFullName ≠ none → e'.repoFullName ≠ none)

/-- What the keys of the tables and the order of the statements make sure of. -/
structure Shared.Sound (org : Text) (d : Shared) : Prop where
  keyed : (d.entries.map (·.contractId)).Nodup
  named : (d.entries.map (·.repoName)).Nodup
  slugged : ∀ e ∈ d.entries, Slugged e.repoName
  recorded : ∀ e ∈ d.entries, ∀ x, e.repoFullName = some x →
    toLowerCase x = toLowerCase (fullName org e.repoName)
  linked : ∀ c x, d.Linked c x → Owns org d.entries c x

variable {org : Text} {answer : CollaboratorOutcome} {s t : State} {a : Action} {as : List Action}
  {d d' : Shared} {call : Call} {τ σ : Task} {rest : List Row} {next : Next} {i : ℕ} {o : Outcome}
  {es es' : List Entry} {e e' : Entry} {row r : Row} {c x name : Text}

theorem Grows.refl (es : List Entry) : Grows es es := fun e he => ⟨e, he, rfl, rfl, id⟩

theorem Named.mono (h : Named es c name) (hg : Grows es es') : Named es' c name := by
  obtain ⟨e, he, rfl, rfl⟩ := h
  obtain ⟨e', he', hc, hn, -⟩ := hg e he
  exact ⟨e', he', hc, hn⟩

theorem Owns.mono (h : Owns org es c x) (hg : Grows es es') : Owns org es' c x := by
  obtain ⟨e, he, rfl, hsome, hx⟩ := h
  obtain ⟨e', he', hc, hn, hsome'⟩ := hg e he
  exact ⟨e', he', hc, hsome' hsome, by rw [hn, hx]⟩

theorem toLowerCase_fullName {name' : Text} :
    toLowerCase (fullName org name) = toLowerCase (fullName org name') ↔
      toLowerCase name = toLowerCase name' := by
  rw [fullName, fullName, toLowerCase_append, toLowerCase_append, List.append_cancel_left_eq,
    toLowerCase_cons, toLowerCase_cons, List.cons.injEq, eq_self, true_and]

theorem Shared.Sound.eq_of_contractId (h : d.Sound org) (he : e ∈ d.entries)
    (he' : e' ∈ d.entries) (hc : e.contractId = e'.contractId) : e = e' :=
  List.inj_on_of_nodup_map h.keyed he he' hc

theorem Shared.Sound.eq_of_repoName (h : d.Sound org) (he : e ∈ d.entries)
    (he' : e' ∈ d.entries) (hn : e.repoName = e'.repoName) : e = e' :=
  List.inj_on_of_nodup_map h.named he he' hn

theorem mem_entries (h : r ∈ d.rows) : r.entry ∈ d.entries := List.mem_map_of_mem h

/-! ## Tasks -/

theorem entries_update {f : Row → Row} (hf : ∀ r, (f r).entry = r.entry) :
    (d.update c f).entries = d.entries := by
  rw [Shared.entries, Shared.update, List.map_map]
  apply List.map_congr_left
  intro r _
  rw [Function.comp_apply]
  split
  · exact hf r
  · rfl

theorem entries_record : (d.update c fun r =>
      { r with repoFullName := some x, status := .repoCreated }).entries =
    d.entries.map (Entry.record c x) := by
  rw [Shared.entries, Shared.entries, Shared.update, List.map_map, List.map_map]
  apply List.map_congr_left
  intro r _
  rw [Function.comp_apply, Function.comp_apply, Entry.record]
  split <;> rename_i hc
  · exact (if_pos hc).symm
  · exact (if_neg hc).symm

theorem mem_of_row? (h : d.row? c = some r) : r.entry ∈ d.entries ∧ r.contractId = c := by
  have hc := List.find?_some h
  exact ⟨mem_entries (List.mem_of_find?_eq_some h), of_decide_eq_true hc⟩

/-- What a task leaves behind that takes effect. -/
inductive Effect (d : Shared) (call : Call) : Task → Shared → Prop
  | keep {τ : Task} {d' : Shared} : d'.entries = d.entries → d'.contracts = d.contracts →
      (∀ row x, τ ≠ .recordRepo row x) → Effect d call τ d'
  | insert {args : Args} {n : ℕ} {name : Text} {d' : Shared} :
      (∀ e ∈ d.entries, e.contractId ≠ call.contractId) → (∀ e ∈ d.entries, e.repoName ≠ name) →
      d'.entries = d.entries ++ [⟨call.contractId, name, none⟩] → d'.contracts = d.contracts →
      Effect d call (.insert args n name) d'
  | record {row : Row} {x : Text} {d' : Shared} :
      d'.entries = d.entries.map (Entry.record call.contractId x) → d'.contracts = d.contracts →
      Effect d call (.recordRepo row x) d'
  | link {x : Text} {d' : Shared} : d'.entries = d.entries →
      d'.contracts = Function.update d.contracts call.contractId
        ((d.contracts call.contractId).map fun c =>
          { c with githubRepoFullName := some x, active := true }) →
      Effect d call (.updateContract x) d'

theorem insertRow_effect {args : Args} {n : ℕ} :
    Effect d call (.insert args n name) (insertRow d call args n name).1 := by
  rw [insertRow]
  split
  · exact .keep rfl rfl nofun
  next hkey =>
  split
  · exact .keep rfl rfl nofun
  next hname =>
  split
  · exact .keep rfl rfl nofun
  refine .insert ?_ ?_ (by simp [Shared.entries, Row.entry]) rfl
  · intro e he
    obtain ⟨r, hr, rfl⟩ := List.mem_map.mp he
    simpa [Shared.row?] using fun hc => hkey (by simpa [Shared.row?] using ⟨r, hr, hc⟩)
  · intro e he
    obtain ⟨r, hr, rfl⟩ := List.mem_map.mp he
    exact fun hn => hname (List.any_eq_true.mpr ⟨r, hr, decide_eq_true hn⟩)

theorem perform_effect : Effect d call τ (perform org answer d call τ).1 := by
  cases τ with
  | insert args n name => exact insertRow_effect
  | recordRepo row x => exact .record entries_record rfl
  | updateContract x => exact .link rfl rfl
  | selectRow => rw [perform]; split <;> exact .keep rfl rfl nofun
  | createOrgRepo row => rw [perform]; split <;> exact .keep rfl rfl nofun
  | recordCollaborator row x outcome =>
    cases outcome <;> exact .keep (entries_update fun _ => rfl) rfl nofun
  | countAttempt | recordWebhook | giveUp => exact .keep (entries_update fun _ => rfl) rfl nofun
  | _ => exact .keep rfl rfl nofun

/-- A task is effective, or leaves everything as it is. -/
theorem attempt_effect (org : Text) (o : Outcome) :
    (o = .failed ∧ (attempt org answer d call τ o).1 = d) ∨
      (o ≠ .failed ∧ Effect d call τ (attempt org answer d call τ o).1) := by
  cases o with
  | failed => exact .inl ⟨rfl, rfl⟩
  | ok | lost => exact .inr ⟨nofun, perform_effect⟩

theorem grows_record : Grows es (es.map (Entry.record c x)) := by
  refine fun e hmem => ⟨_, List.mem_map_of_mem hmem, ?_⟩
  rw [Entry.record]
  split
  · exact ⟨rfl, rfl, fun _ => Option.some_ne_none _⟩
  · exact ⟨rfl, rfl, id⟩

theorem grows_concat : Grows es (es ++ [e]) :=
  fun e' hmem => ⟨e', List.mem_append_left _ hmem, rfl, rfl, id⟩

theorem Effect.grows (h : Effect d call τ d') : Grows d.entries d'.entries := by
  cases h with
  | keep he | link he => rw [he]; exact .refl _
  | insert _ _ he => rw [he]; exact grows_concat
  | record he => rw [he]; exact grows_record

/-- What a task relies on that has been found out by those before it. -/
def Task.Fits (org : Text) (es : List Entry) (c : Text) : Task → Prop
  | .insert _ _ name => Slugged name
  | .countAttempt row =>
    Named es c row.repoName ∧ ∀ x, row.repoFullName = some x → Owns org es c x
  | .createOrgRepo row | .readOrgRepo row => Named es c row.repoName
  | .recordRepo row x =>
    Named es c row.repoName ∧ toLowerCase x = toLowerCase (fullName org row.repoName)
  | .addOutsideCollaborator _ x | .recordCollaborator _ x _ | .attachWebhook x |
    .recordWebhook x | .updateContract x => Owns org es c x
  | _ => True

def Next.Fits (org : Text) (es : List Entry) (c : Text) : Next → Prop
  | .task τ => τ.Fits org es c
  | .leave => True

theorem Task.Fits.mono (h : τ.Fits org es c) (hg : Grows es es') : τ.Fits org es' c := by
  cases τ with
  | insert => exact h
  | countAttempt row => exact ⟨h.1.mono hg, fun x hx => (h.2 x hx).mono hg⟩
  | createOrgRepo | readOrgRepo => exact Named.mono h hg
  | recordRepo => exact ⟨h.1.mono hg, h.2⟩
  | addOutsideCollaborator | recordCollaborator | attachWebhook | recordWebhook |
    updateContract => exact Owns.mono h hg
  | _ => trivial

theorem Next.Fits.mono (h : next.Fits org es c) (hg : Grows es es') : next.Fits org es' c := by
  cases next with
  | task τ => exact Task.Fits.mono h hg
  | leave => trivial

theorem fits_after {args : Args} : args.after.Fits org es c := by
  rw [Args.after]
  split <;> trivial

theorem fits_raised : (raised τ).Fits org es c := by
  cases τ with
  | count | insert => exact fits_after
  | _ => trivial

theorem fits_proceed (h : d.Sound org) (hr : d.row? c = some row) :
    (proceed (some row)).Fits org d.entries c := by
  obtain ⟨hmem, rfl⟩ := mem_of_row? hr
  rw [proceed]
  split
  · trivial
  refine ⟨⟨_, hmem, rfl, rfl⟩, fun x hx => ⟨_, hmem, rfl, ?_, h.recorded _ hmem x hx⟩⟩
  rw [Row.entry, hx]
  exact Option.some_ne_none x

theorem fits_attach (h : Owns org es c x) : (attach row x).Fits org es c := by
  rw [attach]
  split
  · exact h
  · trivial

theorem fits_collaborate (h : Owns org es c x) : (collaborate row x).Fits org es c := by
  rw [collaborate]
  split
  · exact h
  · exact fits_attach h

theorem fits_create (hn : Named es c row.repoName)
    (ho : ∀ x, row.repoFullName = some x → Owns org es c x) : (create row).Fits org es c := by
  rw [create]
  split
  · exact hn
  · next hne =>
    cases hfull : row.repoFullName with
    | none => exact absurd (by rw [hfull]; rfl) hne
    | some x => exact fits_collaborate (ho x hfull)

theorem fits_insertRow {args : Args} {n : ℕ} :
    (insertRow d call args n name).2.Fits org es c := by
  rw [insertRow]
  split
  · exact fits_after
  split
  · split
    · trivial
    · exact fits_after
  split <;> exact fits_after

/-- What follows a task relies on no more than what that has left behind. -/
theorem fits_perform (h : d.Sound org) (hτ : τ.Fits org d.entries call.contractId) :
    (perform org answer d call τ).2.Fits org (perform org answer d call τ).1.entries
      call.contractId := by
  have hgrows : Grows d.entries (perform org answer d call τ).1.entries := perform_effect.grows
  cases τ with
  | selectRow =>
    rw [perform]
    cases hr : d.row? call.contractId with
    | none => trivial
    | some row => exact fits_proceed h hr
  | reselectRow =>
    rw [perform]
    cases hr : d.row? call.contractId with
    | none => trivial
    | some row => exact fits_proceed h hr
  | count args n => exact ⟨args.title, args.freelancerDisplayName, _, rfl⟩
  | insert args n name => exact fits_insertRow
  | countAttempt row =>
    have hnext : (create row).Fits org d.entries call.contractId := fits_create hτ.1 hτ.2
    exact hnext.mono hgrows
  | createOrgRepo row =>
    rw [perform]
    split
    · exact ⟨hτ, rfl⟩
    · exact hτ
  | readOrgRepo row =>
    rw [perform]
    cases hfind : d.repository? row.repoName with
    | none => trivial
    | some existing =>
      have hcase := List.find?_some hfind
      exact ⟨hτ, toLowerCase_fullName.mpr (of_decide_eq_true hcase)⟩
  | recordRepo row x =>
    rw [perform, entries_record]
    obtain ⟨⟨e, he, hc, hn⟩, hx⟩ := hτ
    refine fits_collaborate ⟨e.record call.contractId x, List.mem_map_of_mem he, ?_⟩
    rw [Entry.record, if_pos hc]
    exact ⟨hc, Option.some_ne_none x, by rw [hx, hn]⟩
  | addOutsideCollaborator | attachWebhook => exact hτ
  | recordCollaborator row x outcome =>
    have hnext : (attach row x).Fits org d.entries call.contractId := fits_attach hτ
    cases outcome with
    | unknownLogin => trivial
    | invited | alreadyCollaborator => exact hnext.mono hgrows
  | recordWebhook x => exact Owns.mono hτ hgrows
  | _ => trivial

/-! ## One step -/

theorem linked_congr (h : d'.contracts = d.contracts) : d'.Linked = d.Linked := by
  funext c x
  rw [Shared.Linked, h]
  rfl

theorem nodup_map_concat {f : Entry → Text} (h : (es.map f).Nodup) (hf : ∀ e' ∈ es, f e' ≠ f e) :
    ((es ++ [e]).map f).Nodup := by
  rw [List.map_append, List.map_singleton, ← List.concat_eq_append]
  apply h.concat
  intro hmem
  obtain ⟨e', he', heq⟩ := List.mem_map.mp hmem
  exact hf e' he' heq

theorem map_record {f : Entry → Text}
    (hf : ∀ e : Entry, f { e with repoFullName := some x } = f e) :
    (es.map (Entry.record c x)).map f = es.map f := by
  rw [List.map_map]
  apply List.map_congr_left
  intro e _
  rw [Function.comp_apply, Entry.record]
  split
  · exact hf e
  · rfl

/-- The rows and the links are all that soundness is about. -/
theorem Shared.Sound.congr (h : d.Sound org) (he : d'.entries = d.entries)
    (hl : ∀ c x, d'.Linked c x → Owns org d.entries c x) : d'.Sound org := by
  constructor
  · rw [he]
    exact h.keyed
  · rw [he]
    exact h.named
  · rw [he]
    exact h.slugged
  · rw [he]
    exact h.recorded
  · rwa [he]

/-- A new row has a key and a name of its own, and no repository. -/
theorem Shared.Sound.insert (h : d.Sound org) (hkey : ∀ e ∈ d.entries, e.contractId ≠ c)
    (hname : ∀ e ∈ d.entries, e.repoName ≠ name) (hslug : Slugged name)
    (he : d'.entries = d.entries ++ [⟨c, name, none⟩]) (hl : d'.Linked = d.Linked) :
    d'.Sound org := by
  constructor
  · rw [he]
    exact nodup_map_concat h.keyed hkey
  · rw [he]
    exact nodup_map_concat h.named hname
  · rw [he, List.forall_mem_append, List.forall_mem_singleton]
    exact ⟨h.slugged, hslug⟩
  · rw [he, List.forall_mem_append, List.forall_mem_singleton]
    exact ⟨h.recorded, nofun⟩
  · rw [hl, he]
    exact fun c x hx => (h.linked c x hx).mono grows_concat

/-- A repository is recorded under the name of its row, up to case. -/
theorem Shared.Sound.record (h : d.Sound org) (hn : Named d.entries c name)
    (hx : toLowerCase x = toLowerCase (fullName org name))
    (he : d'.entries = d.entries.map (Entry.record c x)) (hl : d'.Linked = d.Linked) :
    d'.Sound org := by
  obtain ⟨e₀, he₀, rfl, rfl⟩ := hn
  constructor
  · rw [he, map_record fun _ => rfl]
    exact h.keyed
  · rw [he, map_record fun _ => rfl]
    exact h.named
  · rw [he, List.forall_mem_map]
    intro e hmem
    rw [Entry.record]
    split <;> exact h.slugged e hmem
  · rw [he, List.forall_mem_map]
    intro e hmem y hy
    rw [Entry.record] at hy ⊢
    split at hy
    · next hc =>
      cases hy
      rw [if_pos hc, hx, h.eq_of_contractId hmem he₀ hc]
    · next hc =>
      rw [if_neg hc]
      exact h.recorded e hmem y hy
  · rw [hl, he]
    exact fun c y hy => (h.linked c y hy).mono grows_record

/-- A task that takes effect keeps the keys, the names and the references sound. -/
theorem sound_effect (h : d.Sound org) (hτ : τ.Fits org d.entries call.contractId)
    (he : Effect d call τ d') : d'.Sound org := by
  cases he with
  | keep hentries hcontracts =>
    exact h.congr hentries fun c x hx => h.linked c x (by rwa [← linked_congr hcontracts])
  | insert hkey hname hentries hcontracts =>
    exact h.insert hkey hname hτ hentries (linked_congr hcontracts)
  | record hentries hcontracts =>
    exact h.record hτ.1 hτ.2 hentries (linked_congr hcontracts)
  | @link x _ hentries hcontracts =>
    apply h.congr hentries
    rintro c y ⟨k, hk, hy⟩
    rw [hcontracts] at hk
    by_cases hc : c = call.contractId
    · subst hc
      rw [Function.update_self] at hk
      obtain ⟨k', -, rfl⟩ := Option.map_eq_some_iff.mp hk
      cases hy
      exact hτ
    · rw [Function.update_of_ne hc] at hk
      exact h.linked c y ⟨k, hk, hy⟩

/-! ## Runs -/

/-- Tasks that rely on nothing. -/
def Task.First : Task → Prop
  | .selectRow | .count .. | .giveUp => True
  | _ => False

def Actor.task : Actor → Option Task
  | .running _ τ _ => some τ
  | _ => none

/-- Only a task bears on the names and repositories. -/
inductive Step (org : Text) (s : State) : Action → State → Prop
  | quiet {a : Action} {t : State} : t.shared.entries = s.shared.entries →
      (∀ c x, t.shared.Linked c x → s.shared.Linked c x) →
      (∀ i call τ rest, t.actors i = .running call τ rest →
        s.actors i = .running call τ rest ∨ τ.First) →
      (∀ i o answer, a = .advance i o answer → (s.actors i).task = none) → Step org s a t
  | attempt {i : ℕ} {o : Outcome} {answer : CollaboratorOutcome} {call : Call} {τ : Task}
      {rest : List Row} : s.actors i = .running call τ rest →
      Step org s (.advance i o answer) (State.setActor
        { s with shared := (attempt org answer s.shared call τ o).1 } i
        (call.goto rest (attempt org answer s.shared call τ o).2))

/-- Everyone relies on what is so. -/
structure Sound (org : Text) (s : State) : Prop where
  shared : s.shared.Sound org
  fits : ∀ i call τ rest, s.actors i = .running call τ rest →
    τ.Fits org s.shared.entries call.contractId

variable {rows : List Row} {b : Actor}

theorem setActor_self : (s.setActor i b).actors i = b := Function.update_self ..

theorem setActor_ne {j : ℕ} (h : j ≠ i) : (s.setActor i b).actors j = s.actors j :=
  Function.update_of_ne h ..

theorem Task.First.fits (h : τ.First) : τ.Fits org es c := by
  cases τ with
  | selectRow | count | giveUp => trivial
  | _ => cases h

theorem first_sweep (h : sweep rows = .running call τ rest) : τ.First := by
  cases rows with
  | nil => cases h
  | cons row rows =>
    rw [sweep, Actor.running.injEq] at h
    obtain ⟨-, rfl, -⟩ := h
    split <;> trivial

theorem first_begin {freelancerId title : Text}
    (h : begin d c freelancerId title = .running call τ rest) : τ.First := by
  rw [begin] at h
  split at h <;> cases h <;> trivial

theorem quiet_setActor (hb : ∀ call τ rest, b = .running call τ rest → τ.First)
    (ha : ∀ i o answer, a = .advance i o answer → (s.actors i).task = none) :
    Step org s a (s.setActor i b) := by
  refine .quiet rfl (fun _ _ => id) (fun j call τ rest hj => ?_) ha
  by_cases hji : j = i
  · subst hji
    exact .inr (hb call τ rest (setActor_self.symm.trans hj))
  · exact .inl ((setActor_ne hji).symm.trans hj)

theorem advance_cases (h : advance org s i o answer = some t) :
    Step org s (.advance i o answer) t := by
  -- Nothing is said of the names before a handler has begun.
  have hquiet : ∀ b, (s.actors i).task = none →
      (∀ call τ rest, b = .running call τ rest → τ.First) →
      Step org s (.advance i o answer) (s.setActor i b) := by
    intro b hi hb
    apply quiet_setActor hb
    intro j o' answer' heq
    cases heq
    exact hi
  rw [advance] at h
  split at h
  · next hi =>
    cases h
    refine hquiet _ (by rw [hi]; rfl) fun call τ rest hb => ?_
    split at hb <;> cases hb
  · next hi =>
    cases h
    refine hquiet _ (by rw [hi]; rfl) fun call τ rest hb => ?_
    split at hb
    · exact first_begin hb
    · cases hb
  · next hi =>
    cases h
    refine hquiet _ (by rw [hi]; rfl) fun call τ rest hb => ?_
    split at hb
    · exact first_sweep hb
    · cases hb
  · next hi =>
    cases h
    exact .attempt hi
  · cases h

theorem step_cases (h : step org s a = some t) : Step org s a t := by
  cases a with
  | contract c title =>
    rw [step] at h
    split at h <;> cases h
    refine .quiet rfl ?_ (fun _ _ _ _ => .inl) nofun
    rintro c' x ⟨k, hk, hx⟩
    change Function.update s.shared.contracts c (some { title }) c' = some k at hk
    by_cases hc : c' = c
    · subst hc
      rw [Function.update_self] at hk
      cases hk
      cases hx
    · rw [Function.update_of_ne hc] at hk
      exact ⟨k, hk, hx⟩
  | user => cases h; exact .quiet rfl (fun _ _ => id) (fun _ _ _ _ => .inl) nofun
  | createRepository =>
    rw [step] at h
    split at h <;> cases h
    exact .quiet rfl (fun _ _ => id) (fun _ _ _ _ => .inl) nofun
  | deleteRepository => cases h; exact .quiet rfl (fun _ _ => id) (fun _ _ _ _ => .inl) nofun
  | accept i c freelancerId =>
    rw [step] at h
    split at h <;> cases h
    refine quiet_setActor (fun call τ rest hb => ?_) nofun
    split at hb <;> cases hb
  | attemptProvisioning i call =>
    rw [step] at h
    split at h <;> cases h
    refine quiet_setActor (fun call τ rest hb => ?_) nofun
    cases hb
    trivial
  | reconcile i =>
    rw [step] at h
    split at h <;> cases h
    exact quiet_setActor nofun nofun
  | crash i =>
    rw [step] at h
    split at h <;> cases h
    exact quiet_setActor nofun nofun
  | advance i o answer => exact advance_cases h

theorem fits_goto (h : next.Fits org es call.contractId) {call' : Call}
    (hb : call.goto rest next = .running call' τ rows) : τ.Fits org es call'.contractId := by
  cases next with
  | task τ => cases hb; exact h
  | leave => exact (first_sweep hb).fits

theorem sound_step (hs : Sound org s) (h : step org s a = some t) : Sound org t := by
  cases step_cases h with
  | quiet he hl hactors _ =>
    refine ⟨hs.shared.congr he fun c x hx => hs.shared.linked c x (hl c x hx),
      fun i call τ rest hi => ?_⟩
    rw [he]
    rcases hactors i call τ rest hi with hi | hfirst
    · exact hs.fits i call τ rest hi
    · exact hfirst.fits
  | @attempt i o answer call τ rest hi =>
    have hτ := hs.fits i call τ rest hi
    have hkept : (attempt org answer s.shared call τ o).1.Sound org ∧
        Grows s.shared.entries (attempt org answer s.shared call τ o).1.entries := by
      rcases attempt_effect org o with ⟨-, heq⟩ | ⟨-, heffect⟩
      · rw [heq]
        exact ⟨hs.shared, .refl _⟩
      · exact ⟨sound_effect hs.shared hτ heffect, heffect.grows⟩
    have hnext : (attempt org answer s.shared call τ o).2.Fits org
        (attempt org answer s.shared call τ o).1.entries call.contractId := by
      cases o with
      | ok => exact fits_perform hs.shared hτ
      | failed | lost => exact fits_raised
    refine ⟨hkept.1, fun j call' τ' rest' hj => ?_⟩
    by_cases hji : j = i
    · subst hji
      exact fits_goto hnext (setActor_self.symm.trans hj)
    · exact (hs.fits j call' τ' rest' ((setActor_ne hji).symm.trans hj)).mono hkept.2

theorem sound_initial (h : Initial s) : Sound org s := by
  obtain ⟨hrows, hcontracts, hidle⟩ := h
  have hentries : s.shared.entries = [] := by rw [Shared.entries, hrows]; rfl
  refine ⟨⟨?_, ?_, ?_, ?_, ?_⟩, fun i call τ rest hi => ?_⟩
  · simp [hentries]
  · simp [hentries]
  · simp [hentries]
  · simp [hentries]
  · rintro c x ⟨k, hk, hx⟩
    rw [hcontracts c k hk] at hx
    cases hx
  · rw [hidle i] at hi
    cases hi

end AssureCode.Provisioning
