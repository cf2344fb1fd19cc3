import AssureCode.Provisioning.Isolation
import AssureCode.Provisioning.Recovery
import AssureCode.Transition.Actors

/-! # Somewhere to resume from

The sweep finds what a handler has left behind by its row alone, and by the status of that row. So
all is lost with the handler at two places: before the row is there, and between the row being set
`COMPLETE` and the contract `ACTIVE`. Where nothing goes wrong at these two, every accepted
assignment can be resumed.
-/

namespace AssureCode.Provisioning

open Js Machine
open Settlement (Outcome)

/-- The contract is active, or was given up, or will be taken up again and be active then. -/
def State.Provisioned (org : Text) (s : State) (c : Text) : Prop :=
  s.shared.Active c ∨ (∃ row, s.shared.row? c = some row ∧ row.status = .failed) ∨
    ∃ row, s.shared.row? c = some row ∧ row ∈ s.shared.stuck ∧ s.Recovers org c

/-- Tasks up to the `INSERT`. -/
def Task.Early : Task → Prop
  | .selectRow | .selectTitle | .selectDisplayName _ | .count .. | .insert .. => True
  | _ => False

/-- The handler is on the way to making the row of the contract. -/
def State.Starting (s : State) (i : ℕ) (c : Text) : Prop :=
  match s.actors i with
  | .accepted contractId freelancerId _ =>
    contractId = c ∧ (s.shared.users freelancerId).isSome
  | .running call τ _ =>
    call.contractId = c ∧ (s.shared.users call.freelancerId).isSome ∧ τ.Early
  | _ => False

/-- The handler has set the row `COMPLETE`, and is to make the contract `ACTIVE`. -/
def State.Finishing (s : State) (i : ℕ) (c : Text) : Prop :=
  match s.actors i with
  | .running call (.updateContract _) _ => call.contractId = c
  | _ => False

/-- At these two places the contract has no one but this handler. -/
def State.Hinges (s : State) (i : ℕ) (c : Text) : Prop :=
  ((s.shared.contracts c).isSome ∧ s.shared.row? c = none ∧ s.Starting i c ∧
      ∀ j ≠ i, ¬ s.Starting j c) ∨
    (¬ s.shared.Active c ∧ s.Finishing i c ∧ ∀ j ≠ i, ¬ s.Finishing j c)

/-- The statement takes effect, and the handler goes on if it has to. -/
def State.Succeeds (s : State) (i : ℕ) (o : Outcome) : Prop :=
  match s.actors i with
  | .running _ (.insert _ n name) _ =>
    if s.shared.rows.any (·.repoName = name) then o = .ok ∧ n < maxNameAttempts else o ≠ .failed
  | .running _ (.updateContract _) _ => o ≠ .failed
  | _ => o = .ok

/--
No handler that a contract hinges on dies or meets with a failure; nor is the row set `COMPLETE` by
a statement that reports a failure, when no other handler makes the contract `ACTIVE`.
-/
def Unbroken (s : State) : Action → Prop
  | .crash i => ∀ c, ¬ s.Hinges i c
  | .advance i o _ => (∀ c, s.Hinges i c → s.Succeeds i o) ∧
      ∀ call x rest, s.actors i = .running call (.recordWebhook x) rest →
        ¬ s.shared.Active call.contractId → (∀ j, ¬ s.Finishing j call.contractId) → o ≠ .lost
  | _ => True

variable {org : Text} {answer : CollaboratorOutcome} {s t : State} {a : Action}
  {as bs : List Action} {d : Shared} {call : Call} {τ : Task} {rest : List Row} {i j : ℕ}
  {o : Outcome} {row r : Row} {c f u x : Text} {next : Next}

/-! ## What stays -/

theorem users_perform : (perform org answer d call τ).1.users = d.users := by
  cases τ with
  | insert args n name =>
    rw [perform]
    rcases insertRow_cases d call args n name with heq | ⟨-, -, heq⟩ <;> rw [heq]
  | selectRow => rw [perform]; split <;> rfl
  | createOrgRepo row => rw [perform]; split <;> rfl
  | recordCollaborator row x outcome => cases outcome <;> rfl
  | _ => rfl

theorem contracts_perform (org : Text) (answer : CollaboratorOutcome) (d : Shared) (call : Call)
    (h : ∀ x, τ ≠ .updateContract x) :
    (perform org answer d call τ).1.contracts = d.contracts := by
  cases τ with
  | updateContract x => exact absurd rfl (h x)
  | insert args n name =>
    rw [perform]
    rcases insertRow_cases d call args n name with heq | ⟨-, -, heq⟩ <;> rw [heq]
  | selectRow => rw [perform]; split <;> rfl
  | createOrgRepo row => rw [perform]; split <;> rfl
  | recordCollaborator row x outcome => cases outcome <;> rfl
  | _ => rfl

theorem active_updateContract (org : Text) (answer : CollaboratorOutcome) (x : Text)
    (h : (d.contracts call.contractId).isSome) :
    (perform org answer d call (.updateContract x)).1.Active call.contractId := by
  obtain ⟨k, hk⟩ := Option.isSome_iff_exists.mp h
  refine ⟨{ k with githubRepoFullName := some x, active := true }, ?_, rfl, Option.some_ne_none x⟩
  exact (Function.update_self ..).trans (by rw [hk]; rfl)

/-- Contracts stay, and stay active. -/
theorem contracts_kept (o : Outcome) :
    ((d.contracts c).isSome → ((attempt org answer d call τ o).1.contracts c).isSome) ∧
      (d.Active c → (attempt org answer d call τ o).1.Active c) := by
  have hperform : ((d.contracts c).isSome →
        ((perform org answer d call τ).1.contracts c).isSome) ∧
      (d.Active c → (perform org answer d call τ).1.Active c) := by
    by_cases hτ : ∃ x, τ = .updateContract x
    · obtain ⟨x, rfl⟩ := hτ
      by_cases hc : c = call.contractId
      · subst hc
        have hactive : (d.contracts call.contractId).isSome → _ :=
          active_updateContract org answer x
        constructor
        · intro h
          obtain ⟨k, hk, -⟩ := hactive h
          rw [hk]
          rfl
        · rintro ⟨k, hk, -⟩
          exact hactive (by rw [hk]; rfl)
      · have hother : (perform org answer d call (.updateContract x)).1.contracts c =
            d.contracts c := Function.update_of_ne hc ..
        rw [Shared.Active, Shared.Active, hother]
        exact ⟨id, id⟩
    · have hsame := contracts_perform org answer d call fun x hx => hτ ⟨x, hx⟩
      rw [Shared.Active, Shared.Active, hsame]
      exact ⟨id, id⟩
  cases o with
  | failed => exact ⟨id, id⟩
  | ok | lost => exact hperform

/-- What a step leaves of the tables. -/
structure Kept (s t : State) : Prop where
  present : ∀ c, (s.shared.contracts c).isSome → (t.shared.contracts c).isSome
  active : ∀ c, s.shared.Active c → t.shared.Active c
  users : ∀ u, (s.shared.users u).isSome → (t.shared.users u).isSome

theorem Kept.of_shared (h : t.shared = s.shared) : Kept s t := by
  constructor <;> rw [h] <;> exact fun _ => id

theorem step_kept (h : step org s a = some t) : Kept s t := by
  cases step_move h with
  | environment _ _ hcontracts husers =>
    constructor
    · intro c hc
      obtain ⟨k, hk⟩ := Option.isSome_iff_exists.mp hc
      exact Option.isSome_iff_exists.mpr ⟨k, hcontracts c k hk⟩
    · rintro c ⟨k, hk, hactive⟩
      exact ⟨k, hcontracts c k hk, hactive⟩
    · exact husers
  | start | crash | accepted | sweeping => exact .of_shared rfl
  | @attempt i o answer call τ rest hi =>
    constructor
    · exact fun c => (contracts_kept o).1
    · exact fun c => (contracts_kept o).2
    · intro u hu
      cases o with
      | failed => exact hu
      | ok | lost =>
        change ((perform org answer s.shared call τ).1.users u).isSome
        rwa [users_perform]

/-- A handler that stays where it is goes on being on the way. -/
theorem Kept.starting (h : Kept s t) (hactor : t.actors i = s.actors i) (hs : s.Starting i c) :
    t.Starting i c := by
  rw [State.Starting] at hs ⊢
  rw [hactor]
  split at hs
  · exact ⟨hs.1, h.users _ hs.2⟩
  · exact ⟨hs.1, h.users _ hs.2.1, hs.2.2⟩
  · exact hs

/-! ## Up to the row -/

/-- The contract has a row, or a handler is on the way to making it. -/
def State.Begun (s : State) (c : Text) : Prop :=
  (s.shared.contracts c).isSome ∧ ((s.shared.row? c).isSome ∨ ∃ i, s.Starting i c)

theorem starting_begin {title : Text} (hf : (s.shared.users f).isSome) :
    (s.setActor i (begin s.shared c f title)).Starting i c := by
  obtain ⟨login, τ, hb, hτ⟩ : ∃ login τ,
      begin s.shared c f title = .running ⟨c, f, login⟩ τ [] ∧ τ.Early := by
    rw [begin]
    split <;> exact ⟨_, _, rfl, trivial⟩
  rw [State.Starting, setActor_self, hb]
  exact ⟨rfl, hf, hτ⟩

/-- A task before the `INSERT` is followed by another, and the `INSERT` makes the row. -/
theorem starting_attempt (org : Text) (answer : CollaboratorOutcome)
    (hi : s.actors i = .running call τ rest) (hτ : τ.Early)
    (hcontract : (s.shared.contracts call.contractId).isSome)
    (huser : (s.shared.users call.freelancerId).isSome)
    (hrow : s.shared.row? call.contractId = none) (hs : s.Succeeds i o) :
    ((attempt org answer s.shared call τ o).1.row? call.contractId).isSome ∨
      ∃ σ, (attempt org answer s.shared call τ o).2 = .task σ ∧ σ.Early := by
  rw [State.Succeeds, hi] at hs
  cases τ with
  | selectRow =>
    cases hs
    right
    refine ⟨.selectTitle, ?_, trivial⟩
    rw [attempt, perform, hrow]
  | selectTitle => cases hs; exact .inr ⟨_, rfl, trivial⟩
  | selectDisplayName => cases hs; exact .inr ⟨_, rfl, trivial⟩
  | count => cases hs; exact .inr ⟨_, rfl, trivial⟩
  | insert args n name =>
    dsimp only at hs
    have hkey : ¬ (s.shared.row? call.contractId).isSome = true := by
      rw [hrow]
      exact Bool.false_ne_true
    have hperform : (perform org answer s.shared call (.insert args n name)) =
        insertRow s.shared call args n name := rfl
    split at hs
    · next htaken =>
      obtain ⟨rfl, hn⟩ := hs
      refine .inr ⟨.count args (n + 1), ?_, trivial⟩
      rw [attempt, hperform, insertRow, if_neg hkey, if_pos htaken, if_pos hn]
    · next hfree =>
      have hrefs : ¬ ((s.shared.contracts call.contractId).isNone = true ∨
          (s.shared.users call.freelancerId).isNone = true) := by
        simp [Option.isSome_iff_ne_none.mp hcontract, Option.isSome_iff_ne_none.mp huser]
      have hmade : ((perform org answer s.shared call (.insert args n name)).1.row?
          call.contractId).isSome := by
        rw [hperform, insertRow, if_neg hkey, if_neg hfree, if_neg hrefs, row?_append rfl,
          if_pos rfl, hrow]
        rfl
      cases o with
      | failed => exact absurd rfl hs
      | ok | lost => exact .inl hmade
  | _ => cases hτ

theorem begun_step (hs : s.Begun c) (hk : Unbroken s a) (h : step org s a = some t) :
    t.Begun c := by
  have hkept := step_kept h
  refine ⟨hkept.present c hs.1, ?_⟩
  obtain ⟨hcontract, hrow | ⟨i, hi⟩⟩ := hs
  · exact .inl (isSome_row?_step h hrow)
  cases hnone : s.shared.row? c with
  | some row => exact .inl (isSome_row?_step h (by rw [hnone]; rfl))
  | none =>
  -- Another handler that is on the way stays there; else all hinges on the one that moves.
  have hmoves : ∀ j, (∀ k ≠ j, t.actors k = s.actors k) →
      ((s.Hinges j c ∧ s.Starting j c) → (t.shared.row? c).isSome ∨ ∃ i, t.Starting i c) →
      (t.shared.row? c).isSome ∨ ∃ i, t.Starting i c := by
    intro j hothers hown
    rcases Actors.exists_or_alone j ⟨i, hi⟩
      (fun k hkj => hkept.starting (hothers k hkj)) with hkeeps | ⟨hj, halone⟩
    · exact .inr hkeeps
    · exact hown ⟨.inl ⟨hcontract, hnone, hj, halone⟩, hj⟩
  cases step_move h with
  | environment => exact .inr ⟨i, hkept.starting rfl hi⟩
  | @start _ j b _ hidle =>
    apply hmoves j (fun k hkj => setActor_ne hkj)
    intro hown
    have hstart := hown.2
    rw [State.Starting, hidle] at hstart
    cases hstart
  | @crash j => exact hmoves j (fun k hkj => setActor_ne hkj) fun hown => absurd hown.1 (hk c)
  | @accepted j o answer c' f title b hj hb =>
    apply hmoves j (fun k hkj => setActor_ne hkj)
    intro hown
    have hsucceeds := hk.1 c hown.1
    have hstart := hown.2
    rw [State.Succeeds, hj] at hsucceeds
    rw [State.Starting, hj] at hstart
    obtain ⟨rfl, huser⟩ := hstart
    right
    refine ⟨j, ?_⟩
    rcases hb hsucceeds with ⟨title, rfl⟩ | ⟨title, rfl⟩
    · rw [State.Starting, setActor_self]
      exact ⟨rfl, huser⟩
    · exact starting_begin huser
  | @sweeping j o answer b hj =>
    apply hmoves j (fun k hkj => setActor_ne hkj)
    intro hown
    have hstart := hown.2
    rw [State.Starting, hj] at hstart
    cases hstart
  | @attempt j o answer call τ rest hj =>
    apply hmoves j (fun k hkj => setActor_ne hkj)
    intro hown
    have hsucceeds := hk.1 c hown.1
    have hstart := hown.2
    rw [State.Starting, hj] at hstart
    obtain ⟨rfl, huser, hτ⟩ := hstart
    rcases starting_attempt org answer hj hτ hcontract huser hnone hsucceeds
      with hmade | ⟨σ, hσ, hearly⟩
    · exact .inl hmade
    · right
      refine ⟨j, ?_⟩
      rw [State.Starting, setActor_self, hσ]
      exact ⟨rfl, hkept.users _ huser, hearly⟩

/-! ## From the row on -/

/-- What the rows say is so, or about to be. -/
structure Sure (s : State) : Prop where
  present : ∀ c r, s.shared.row? c = some r → (s.shared.contracts c).isSome
  attached : ∀ c r, s.shared.row? c = some r → r.status = .complete → r.webhookStatus = .attached
  active : ∀ c r, s.shared.row? c = some r → r.webhookStatus = .attached →
    s.shared.Active c ∨ ∃ j, s.Finishing j c
  idle : {i | s.actors i ≠ .idle}.Finite

theorem attached_write (h : r.status = .complete → r.webhookStatus = .attached)
    (hr : (τ.write r).status = .complete) : (τ.write r).webhookStatus = .attached := by
  cases τ with
  | recordWebhook => rfl
  | recordCollaborator row x outcome =>
    cases outcome with
    | unknownLogin => exact h hr
    | invited | alreadyCollaborator => cases hr
  | recordRepo | giveUp => cases hr
  | _ => exact h hr

theorem attached_of_write (h : (τ.write r).webhookStatus = .attached) :
    r.webhookStatus = .attached ∨ ∃ x, τ = .recordWebhook x := by
  cases τ with
  | recordWebhook x => exact .inr ⟨x, rfl⟩
  | recordCollaborator row x outcome => cases outcome <;> exact .inl h
  | _ => exact .inl h

theorem finishing_ne (hij : j ≠ i) {b : Actor} (h : s.Finishing j c) :
    (State.setActor { s with shared := d } i b).Finishing j c := by
  rw [State.Finishing] at h ⊢
  rwa [setActor_ne hij]

/-- Another handler that finishes stays there; else all hinges on the one that moves. -/
theorem finishing_step (hkept : Kept s t) (hs : s.shared.Active c ∨ ∃ j, s.Finishing j c)
    (hothers : ∀ j ≠ i, s.Finishing j c → t.Finishing j c)
    (hown : s.Finishing i c → s.Hinges i c → t.shared.Active c) :
    t.shared.Active c ∨ ∃ j, t.Finishing j c := by
  by_cases hactive : s.shared.Active c
  · exact .inl (hkept.active c hactive)
  rcases Actors.exists_or_alone i (hs.resolve_left hactive) hothers with hkeeps | ⟨hi, halone⟩
  · exact .inr hkeeps
  · exact .inl (hown hi (.inr ⟨hactive, hi, halone⟩))

theorem active_attempt (hs : Sure s) (hk : Unbroken s (.advance i o answer))
    (hi : s.actors i = .running call τ rest)
    (h : step org s (.advance i o answer) = some (State.setActor
      { s with shared := (attempt org answer s.shared call τ o).1 } i
      (call.goto rest (attempt org answer s.shared call τ o).2)))
    (hr : (attempt org answer s.shared call τ o).1.row? c = some r)
    (hw : r.webhookStatus = .attached) :
    (attempt org answer s.shared call τ o).1.Active c ∨ ∃ j, (State.setActor
      { s with shared := (attempt org answer s.shared call τ o).1 } i
      (call.goto rest (attempt org answer s.shared call τ o).2)).Finishing j c := by
  have hkept := step_kept h
  have hothers := fun j (hji : j ≠ i) (hj : s.Finishing j c) =>
    finishing_ne (d := (attempt org answer s.shared call τ o).1)
      (b := call.goto rest (attempt org answer s.shared call τ o).2) hji hj
  by_cases hc : c = call.contractId
  swap
  · rw [row?_attempt_of_ne hc] at hr
    apply finishing_step hkept (hs.active c r hr hw) hothers
    intro hown
    rw [State.Finishing, hi] at hown
    cases τ with
    | updateContract => exact absurd hown.symm hc
    | _ => cases hown
  subst hc
  cases hr₀ : s.shared.row? call.contractId with
  | none =>
    cases o with
    | failed => cases hr₀.symm.trans hr
    | ok | lost =>
      have hpending := (row?_perform_of_none hr₀ hr).2.1
      cases hpending.symm.trans hw
  | some r₀ =>
    rw [row?_attempt_of_some _ _ _ _ hr₀, Option.some.injEq] at hr
    by_cases hw₀ : r₀.webhookStatus = .attached
    · apply finishing_step hkept (hs.active _ r₀ hr₀ hw₀) hothers
      intro hown hhinges
      have hsucceeds := hk.1 _ hhinges
      rw [State.Finishing, hi] at hown
      rw [State.Succeeds, hi] at hsucceeds
      cases τ with
      | updateContract x =>
        cases o with
        | failed => exact absurd rfl hsucceeds
        | ok | lost => exact active_updateContract org answer _ (hs.present _ r₀ hr₀)
      | _ => cases hown
    -- It is this task that records the webhook.
    · by_cases ho : o = .failed
      · rw [if_pos ho] at hr
        exact absurd (by rw [hr, hw]) hw₀
      rw [if_neg ho] at hr
      obtain ⟨x, rfl⟩ := (attached_of_write (by rw [hr, hw])).resolve_left hw₀
      cases o with
      | failed => exact absurd rfl ho
      | ok =>
        right
        refine ⟨i, ?_⟩
        rw [State.Finishing, setActor_self]
        rfl
      | lost =>
        by_contra hnone
        obtain ⟨hinactive, halone⟩ := not_or.mp hnone
        refine hk.2 call x rest hi (fun hactive => hinactive (hkept.active _ hactive))
          (fun j hj => ?_) rfl
        by_cases hji : j = i
        · rw [State.Finishing, hji, hi] at hj
          exact hj
        · exact halone ⟨j, hothers j hji hj⟩

/-- Where the webhook is recorded, the handler that has recorded it makes the contract active. -/
theorem active_step (hs : Sure s) (hk : Unbroken s a) (h : step org s a = some t)
    (hr : t.shared.row? c = some r) (hw : r.webhookStatus = .attached) :
    t.shared.Active c ∨ ∃ j, t.Finishing j c := by
  have hkept := step_kept h
  cases step_move h with
  | environment _ hrows =>
    rw [Shared.row?] at hr
    rw [hrows] at hr
    exact (hs.active c r hr hw).imp_left (hkept.active c)
  | @start _ i b _ hidle =>
    apply finishing_step hkept (hs.active c r hr hw) (fun j hji => finishing_ne hji)
    intro hown
    rw [State.Finishing, hidle] at hown
    cases hown
  | @crash i =>
    exact finishing_step hkept (hs.active c r hr hw) (fun j hji => finishing_ne hji)
      fun _ hhinges => absurd hhinges (hk c)
  | @accepted i o answer c' f title b hi =>
    apply finishing_step hkept (hs.active c r hr hw) (fun j hji => finishing_ne hji)
    intro hown
    rw [State.Finishing, hi] at hown
    cases hown
  | @sweeping i o answer b hi =>
    apply finishing_step hkept (hs.active c r hr hw) (fun j hji => finishing_ne hji)
    intro hown
    rw [State.Finishing, hi] at hown
    cases hown
  | attempt hi => exact active_attempt hs hk hi h hr hw

theorem row?_step (h : step org s a = some t) (c : Text) :
    t.shared.row? c = s.shared.row? c ∨ ∃ call τ answer, call.contractId = c ∧
      t.shared = (perform org answer s.shared call τ).1 := by
  cases step_move h with
  | environment _ hrows => exact .inl (by rw [Shared.row?, hrows]; rfl)
  | start | crash | accepted | sweeping => exact .inl rfl
  | @attempt i o answer call τ rest hi =>
    by_cases hc : c = call.contractId
    · cases o with
      | failed => exact .inl rfl
      | ok | lost => exact .inr ⟨call, τ, answer, hc.symm, rfl⟩
    · exact .inl (row?_attempt_of_ne hc)

theorem sure_step (hs : Sure s) (hk : Unbroken s a) (h : step org s a = some t) : Sure t := by
  have hkept := step_kept h
  constructor
  · intro c r hr
    rcases row?_step h c with heq | ⟨call, τ, answer, rfl, hshared⟩
    · exact hkept.present c (hs.present c r (heq.symm.trans hr))
    · cases hr₀ : s.shared.row? call.contractId with
      | some r₀ => exact hkept.present _ (hs.present _ r₀ hr₀)
      | none =>
        rw [hshared] at hr
        exact hkept.present _ (row?_perform_of_none hr₀ hr).1
  · intro c r hr hcomplete
    rcases row?_step h c with heq | ⟨call, τ, answer, rfl, hshared⟩
    · exact hs.attached c r (heq.symm.trans hr) hcomplete
    · rw [hshared] at hr
      cases hr₀ : s.shared.row? call.contractId with
      | some r₀ =>
        rw [row?_perform_of_some hr₀] at hr
        cases hr
        exact attached_write (hs.attached _ r₀ hr₀) hcomplete
      | none => exact absurd hcomplete (row?_perform_of_none hr₀ hr).2.2
  · exact fun c r => active_step hs hk h
  · cases step_move h with
    | environment => exact hs.idle
    | start | crash | accepted | sweeping | attempt =>
      exact Actors.finite_update (p := fun b => b ≠ Actor.idle) hs.idle

/-! ## Runs -/

theorem sure_initial (h : Initial s) : Sure s := by
  obtain ⟨hrows, -, hidle⟩ := h
  have hnone : ∀ c, s.shared.row? c = none := by
    intro c
    rw [Shared.row?, hrows]
    rfl
  constructor
  · intro c r hr
    cases (hnone c).symm.trans hr
  · intro c r hr
    cases (hnone c).symm.trans hr
  · intro c r hr
    cases (hnone c).symm.trans hr
  · have hempty : {i | s.actors i ≠ .idle} = ∅ :=
      Set.eq_empty_of_forall_notMem fun i hi => hi (hidle i)
    rw [hempty]
    exact Set.finite_empty

theorem begun_accept (h : step org s (.accept i c f) = some t) (hc : c ≠ []) (hf : f ≠ [])
    (hcontract : (s.shared.contracts c).isSome) (huser : (s.shared.users f).isSome) :
    t.Begun c := by
  rw [step] at h
  split at h <;> cases h
  refine ⟨hcontract, .inr ⟨i, ?_⟩⟩
  rw [State.Starting, setActor_self, if_neg (not_or.mpr ⟨hc, hf⟩)]
  exact ⟨rfl, huser⟩

theorem provisioned_of_begun (hs : Sure s) (hb : s.Begun c) :
    s.Provisioned org c ∨ ∃ j, s.Starting j c ∨ s.Finishing j c := by
  obtain ⟨hcontract, hrow | ⟨j, hj⟩⟩ := hb
  swap
  · exact .inr ⟨j, .inl hj⟩
  obtain ⟨r, hr⟩ := Option.isSome_iff_exists.mp hrow
  by_cases hw : r.webhookStatus = .attached
  · rcases hs.active c r hr hw with hactive | ⟨j, hj⟩
    · exact .inl (.inl hactive)
    · exact .inr ⟨j, .inr hj⟩
  by_cases hfailed : r.status = .failed
  · exact .inl (.inr (.inl ⟨r, hr, hfailed⟩))
  have hstuck : r ∈ s.shared.stuck := by
    refine List.mem_filter.mpr ⟨List.mem_of_find?_eq_some hr, ?_⟩
    exact decide_eq_true ⟨fun hcomplete => hw (hs.attached c r hr hcomplete), hfailed⟩
  obtain ⟨j, hj⟩ := hs.idle.exists_notMem
  exact .inl (.inr (.inr ⟨r, hr, hstuck,
    recovers_of_pending (not_not.mp hj) hr hstuck hw hcontract⟩))

/-- Before the last name there is to try. -/
def Actor.named : Actor → Bool
  | .running _ (.insert _ n _) _ => n < maxNameAttempts
  | _ => true

/-- No handler dies or meets with a failure. -/
def smooth (s : State) : Action → Bool
  | .crash _ => false
  | .advance i o _ => o = .ok ∧ (s.actors i).named
  | _ => true

theorem unbroken_of_smooth (h : smooth s a = true) : Unbroken s a := by
  cases a with
  | crash => cases h
  | advance i o answer =>
    obtain ⟨rfl, hn⟩ := of_decide_eq_true h
    refine ⟨fun c _ => ?_, fun _ _ _ _ _ _ => nofun⟩
    rw [State.Succeeds]
    split
    · next hi =>
      rw [hi] at hn
      split
      · exact ⟨rfl, of_decide_eq_true hn⟩
      · exact nofun
    · exact nofun
    · rfl
  | _ => trivial

theorem run_of_smooth (h : (system org).exec s as = some t)
    (hall : ∀ x ∈ (system org).steps s as, smooth x.1 x.2.1 = true) :
    (system org).Run Unbroken s as t :=
  run_of_exec_steps h fun x hx => unbroken_of_smooth (hall x hx)

/-- A freelancer and a contract, and what happens once it is accepted. -/
def registered : List Action :=
  [.user (units "f") ⟨units "Ann Lee", some (units "ann")⟩,
    .contract (units "AC-1") (units "Dashboard")]

def registry : State where
  shared := {
    users := Function.update (fun _ => none) (units "f")
      (some ⟨units "Ann Lee", some (units "ann")⟩)
    contracts := Function.update (fun _ => none) (units "AC-1")
      (some { title := units "Dashboard" }) }

/-- The handler has come to its `SELECT` of the row, and has returned. -/
def forgotten : State :=
  let accepted title := Actor.accepted (units "AC-1") (units "f") title
  (((registry.setActor 0 (accepted none)).setActor 0 (accepted (some (units "Dashboard")))).setActor
    0 (.running ⟨units "AC-1", units "f", units "ann"⟩ .selectRow [])).setActor 0 .ended

end AssureCode.Provisioning
