import AssureCode.Provisioning.Rows

/-! # Recovery of a provisioning

An attempt that nothing makes fail takes a contract whose row the sweep selects, and whose webhook
is not yet recorded, to where it is active with a repository.
-/

namespace AssureCode.Provisioning

open Js Machine
open Settlement (Outcome)

/-- The contract is `ACTIVE` and has its repository recorded. -/
def Shared.Active (d : Shared) (contractId : Text) : Prop :=
  ∃ k, d.contracts contractId = some k ∧ k.active = true ∧ k.githubRepoFullName ≠ none

/-- The rows that the sweep selects. -/
def Shared.stuck (d : Shared) : List Row :=
  d.rows.filter fun r => r.status ≠ .complete ∧ r.status ≠ .failed

/-- A handler that meets with no failure goes on until the contract is active. -/
def Finishes (org : Text) (answer : CollaboratorOutcome) (j : ℕ) (c : Text) (s : State) : Prop :=
  ∃ n u, (system org).exec s (List.replicate n (.advance j .ok answer)) = some u ∧
    u.shared.Active c

/-- A new attempt that meets with no failure makes the contract active. -/
def State.Recovers (org : Text) (s : State) (c : Text) : Prop :=
  ∃ j, s.actors j = .idle ∧ ∀ call : Call, call.contractId = c →
    ∀ answer : CollaboratorOutcome, answer ≠ .unknownLogin →
      ∃ n u, (system org).exec s
        (.attemptProvisioning j call :: List.replicate n (.advance j .ok answer)) = some u ∧
        u.shared.Active c

variable {org : Text} {answer : CollaboratorOutcome} {s t : State} {a : Action} {d d' : Shared}
  {call : Call} {τ σ : Task} {rest : List Row} {i j : ℕ} {o : Outcome} {row r : Row} {c x : Text}

theorem finishes_of_active (h : s.shared.Active c) : Finishes org answer j c s :=
  ⟨0, s, rfl, h⟩

theorem finishes_of_advance (h : advance org s j .ok answer = some t)
    (ht : Finishes org answer j c t) : Finishes org answer j c s := by
  obtain ⟨n, u, hexec, hu⟩ := ht
  refine ⟨n + 1, u, ?_, hu⟩
  rw [List.replicate_succ]
  exact (congrArg (Option.bind · _) h).trans hexec

/-- From a task on, whatever the shared state, as long as the contract is there. -/
def Leads (org : Text) (answer : CollaboratorOutcome) (call : Call) (τ : Task) : Prop :=
  ∀ (s : State) (j : ℕ) (rest : List Row), s.actors j = .running call τ rest →
    (s.shared.contracts call.contractId).isSome → Finishes org answer j call.contractId s

theorem finishes_of_task (hi : s.actors j = .running call τ rest)
    (hnext : (perform org answer s.shared call τ).2 = .task σ)
    (hcontract : ((perform org answer s.shared call τ).1.contracts call.contractId).isSome)
    (hσ : Leads org answer call σ) : Finishes org answer j call.contractId s := by
  have hadvance : advance org s j .ok answer = some (State.setActor
      { s with shared := (perform org answer s.shared call τ).1 } j (.running call σ rest)) := by
    rw [advance, hi]
    change some (State.setActor _ j (call.goto rest (perform org answer s.shared call τ).2)) = _
    rw [hnext]
    rfl
  exact finishes_of_advance hadvance (hσ _ j rest setActor_self hcontract)

theorem leads_of_task (hnext : ∀ d, (perform org answer d call τ).2 = .task σ)
    (hsame : ∀ d, (perform org answer d call τ).1.contracts = d.contracts)
    (hσ : Leads org answer call σ) : Leads org answer call τ := by
  intro s j rest hi hcontract
  exact finishes_of_task hi (hnext s.shared) (by rwa [hsame]) hσ

theorem leads_updateContract : Leads org answer call (.updateContract x) := by
  intro s j rest hi hcontract
  obtain ⟨k, hk⟩ := Option.isSome_iff_exists.mp hcontract
  have hadvance : advance org s j .ok answer = some (State.setActor
      { s with shared := (perform org answer s.shared call (.updateContract x)).1 } j
      (sweep rest)) := by
    rw [advance, hi]
    rfl
  refine finishes_of_advance hadvance (finishes_of_active ?_)
  refine ⟨{ k with githubRepoFullName := some x, active := true }, ?_, rfl, Option.some_ne_none x⟩
  exact (Function.update_self ..).trans (by rw [hk]; rfl)

theorem leads_recordWebhook : Leads org answer call (.recordWebhook x) :=
  leads_of_task (fun _ => rfl) (fun _ => rfl) leads_updateContract

/-- The webhook is not recorded in the row that the attempt has read. -/
theorem leads_attach (org : Text) (answer : CollaboratorOutcome) (call : Call) (x : Text)
    (hw : row.webhookStatus ≠ .attached) :
    ∃ σ, attach row x = .task σ ∧ Leads org answer call σ :=
  ⟨.attachWebhook x, if_pos hw,
    leads_of_task (fun _ => rfl) (fun _ => rfl) leads_recordWebhook⟩

theorem leads_recordCollaborator {outcome : CollaboratorOutcome}
    (hw : row.webhookStatus ≠ .attached) (ho : outcome ≠ .unknownLogin) :
    Leads org answer call (.recordCollaborator row x outcome) := by
  obtain ⟨σ, hnext, hσ⟩ := leads_attach org answer call x hw
  cases outcome with
  | unknownLogin => exact absurd rfl ho
  | invited | alreadyCollaborator => exact leads_of_task (fun _ => hnext) (fun _ => rfl) hσ

theorem leads_collaborate (org : Text) (call : Call) (x : Text)
    (hw : row.webhookStatus ≠ .attached) (ha : answer ≠ .unknownLogin) :
    ∃ σ, collaborate row x = .task σ ∧ Leads org answer call σ := by
  rw [collaborate]
  split
  · exact ⟨_, rfl, leads_of_task (fun _ => rfl) (fun _ => rfl) (leads_recordCollaborator hw ha)⟩
  · exact leads_attach org answer call x hw

theorem leads_recordRepo (hw : row.webhookStatus ≠ .attached) (ha : answer ≠ .unknownLogin) :
    Leads org answer call (.recordRepo row x) := by
  obtain ⟨σ, hnext, hσ⟩ := leads_collaborate org call x hw ha
  exact leads_of_task (fun _ => hnext) (fun _ => rfl) hσ

/-- The repository is made, or found because its name is taken. -/
theorem leads_createOrgRepo (hw : row.webhookStatus ≠ .attached) (ha : answer ≠ .unknownLogin) :
    Leads org answer call (.createOrgRepo row) := by
  intro s j rest hi hcontract
  cases hfind : s.shared.repository? row.repoName with
  | none =>
    have hperform : perform org answer s.shared call (.createOrgRepo row) =
        ({ s.shared with repositories := s.shared.repositories ++ [row.repoName] },
          .task (.recordRepo row (fullName org row.repoName))) := by rw [perform, hfind]
    refine finishes_of_task hi (congrArg Prod.snd hperform) ?_ (leads_recordRepo hw ha)
    rwa [hperform]
  | some existing =>
    have hadvance : advance org s j .ok answer =
        some (s.setActor j (.running call (.readOrgRepo row) rest)) := by
      rw [advance, hi]
      dsimp only
      rw [attempt, perform, hfind]
      rfl
    have hread : (perform org answer s.shared call (.readOrgRepo row)).2 =
        .task (.recordRepo row (fullName org existing)) := by
      rw [perform, hfind]
      rfl
    exact finishes_of_advance hadvance
      (finishes_of_task setActor_self hread hcontract (leads_recordRepo hw ha))

theorem leads_countAttempt (hw : row.webhookStatus ≠ .attached) (ha : answer ≠ .unknownLogin) :
    Leads org answer call (.countAttempt row) := by
  obtain ⟨σ, hnext, hσ⟩ : ∃ σ, create row = .task σ ∧ Leads org answer call σ := by
    rw [create]
    split
    · exact ⟨_, rfl, leads_createOrgRepo hw ha⟩
    · exact leads_collaborate _ _ _ hw ha
  exact leads_of_task (fun _ => hnext) (fun _ => rfl) hσ

theorem recovers_of_pending (hj : s.actors j = .idle) (hr : s.shared.row? c = some row)
    (hstuck : row ∈ s.shared.stuck) (hw : row.webhookStatus ≠ .attached)
    (hcontract : (s.shared.contracts c).isSome) : s.Recovers org c := by
  refine ⟨j, hj, ?_⟩
  rintro call rfl answer ha
  have hopen : ¬ (row.status = .complete ∨ row.status = .failed) := by
    simpa using (List.mem_filter.mp hstuck).2
  have hstart : step org s (.attemptProvisioning j call) =
      some (s.setActor j (.running call .selectRow [])) := if_pos hj
  obtain ⟨n, u, hexec, hu⟩ : Finishes org answer j call.contractId
      (s.setActor j (.running call .selectRow [])) := by
    have hselect : perform org answer s.shared call .selectRow =
        (s.shared, .task (.countAttempt row)) := by
      rw [perform, hr]
      exact congrArg _ (if_neg hopen)
    refine finishes_of_task setActor_self (congrArg Prod.snd hselect) ?_
      (leads_countAttempt hw ha)
    change ((perform org answer s.shared call .selectRow).1.contracts _).isSome
    rwa [hselect]
  exact ⟨n, u, (congrArg (Option.bind · _) hstart).trans hexec, hu⟩

end AssureCode.Provisioning
