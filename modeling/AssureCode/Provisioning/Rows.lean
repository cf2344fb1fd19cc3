import AssureCode.Provisioning.Steps

/-! # Rows in a run

What a step does to the row of a contract, to its link and to those at work, said once: tasks
write to the row of their own contract, a row comes from an `INSERT` alone, and none ever goes.
-/

namespace AssureCode.Provisioning

open Js
open Settlement (Outcome)

/-- What a task writes to the row of its contract. -/
def Task.write : Task → Row → Row
  | .countAttempt _, r => { r with attempts := r.attempts + 1 }
  | .recordRepo _ x, r => { r with repoFullName := some x, status := .repoCreated }
  | .recordCollaborator _ _ .unknownLogin, r => { r with collaboratorStatus := .failed }
  | .recordCollaborator _ _ .invited, r =>
    { r with collaboratorStatus := .invited, status := .collaboratorAdded }
  | .recordCollaborator _ _ .alreadyCollaborator, r =>
    { r with collaboratorStatus := .accepted, status := .collaboratorAdded }
  | .recordWebhook _, r => { r with webhookStatus := .attached, status := .complete }
  | .giveUp, r => { r with status := .failed }
  | _, r => r

/-- Everything a step can do. -/
inductive Move (org : Text) (s : State) : Action → State → Prop
  | environment {a : Action} {d : Shared} : (∀ i o answer, a ≠ .advance i o answer) →
      d.rows = s.shared.rows →
      (∀ c k, s.shared.contracts c = some k → d.contracts c = some k) →
      (∀ u, (s.shared.users u).isSome → (d.users u).isSome) →
      Move org s a { s with shared := d }
  | start {a : Action} {i : ℕ} {b : Actor} : (∀ i o answer, a ≠ .advance i o answer) →
      s.actors i = .idle → Move org s a (s.setActor i b)
  | crash {i : ℕ} : Move org s (.crash i) (s.setActor i .ended)
  | accepted {i : ℕ} {o : Outcome} {answer : CollaboratorOutcome} {c f : Text}
      {title : Option Text} {b : Actor} : s.actors i = .accepted c f title →
      (o = .ok → (∃ title, b = .accepted c f (some title)) ∨
        ∃ title, b = begin s.shared c f title) →
      Move org s (.advance i o answer) (s.setActor i b)
  | sweeping {i : ℕ} {o : Outcome} {answer : CollaboratorOutcome} {b : Actor} :
      s.actors i = .sweeping → Move org s (.advance i o answer) (s.setActor i b)
  | attempt {i : ℕ} {o : Outcome} {answer : CollaboratorOutcome} {call : Call} {τ : Task}
      {rest : List Row} : s.actors i = .running call τ rest →
      Move org s (.advance i o answer) (State.setActor
        { s with shared := (attempt org answer s.shared call τ o).1 } i
        (call.goto rest (attempt org answer s.shared call τ o).2))

variable {org : Text} {answer : CollaboratorOutcome} {s t : State} {a : Action} {d d' : Shared}
  {call : Call} {τ : Task} {i : ℕ} {o : Outcome} {row r : Row} {c c' name : Text} {args : Args}
  {n : ℕ}

/-! ## Tables -/

theorem contractId_of_row? (h : d.row? c = some r) : r.contractId = c := (mem_of_row? h).2

theorem row?_update {f : Row → Row} (hf : ∀ r, (f r).contractId = r.contractId) :
    (d.update c f).row? c' = if c' = c then (d.row? c').map f else d.row? c' := by
  have hkey : ((fun r : Row => decide (r.contractId = c')) ∘ fun r : Row =>
      if r.contractId = c then f r else r) = fun r => decide (r.contractId = c') := by
    funext r
    rw [Function.comp_apply]
    split
    · rw [hf]
    · rfl
  rw [Shared.row?, Shared.update, List.find?_map, hkey]
  change (d.row? c').map _ = _
  cases hr : d.row? c' with
  | none => simp
  | some r =>
    rw [Option.map_some, contractId_of_row? hr]
    split <;> rfl

theorem contractId_write : (τ.write r).contractId = r.contractId := by
  unfold Task.write
  split <;> rfl

theorem update_id : (d.update c fun r => r).rows = d.rows := by
  rw [Shared.update]
  simp

theorem rows_perform (h : ¬ ∃ args n name, τ = .insert args n name) :
    (perform org answer d call τ).1.rows = (d.update call.contractId τ.write).rows := by
  cases τ with
  | insert args n name => exact absurd ⟨args, n, name, rfl⟩ h
  | selectRow => rw [perform]; split <;> exact update_id.symm
  | createOrgRepo row => rw [perform]; split <;> exact update_id.symm
  | recordCollaborator row x outcome => cases outcome <;> rfl
  | countAttempt | recordRepo | recordWebhook | giveUp => rfl
  | _ => exact update_id.symm

theorem row?_perform (h : ¬ ∃ args n name, τ = .insert args n name) :
    (perform org answer d call τ).1.row? c =
      if c = call.contractId then (d.row? c).map τ.write else d.row? c := by
  rw [Shared.row?, rows_perform h]
  exact row?_update fun _ => contractId_write

/-- The `INSERT` changes nothing, or appends a row for a contract that has none. -/
theorem insertRow_cases (d : Shared) (call : Call) (args : Args) (n : ℕ) (name : Text) :
    (insertRow d call args n name).1 = d ∨
      (d.row? call.contractId = none ∧ (d.contracts call.contractId).isSome ∧
        (insertRow d call args n name).1 = { d with
          rows := d.rows ++ [{
            contractId := call.contractId
            repoName := name
            freelancerUserId := call.freelancerId
            freelancerGithubLogin := call.githubLogin
            status := if args.terminal then .failed else .pending }] }) := by
  rw [insertRow]
  split
  · exact .inl rfl
  next hkey =>
  split
  · exact .inl rfl
  split
  · exact .inl rfl
  next hrefs =>
  obtain ⟨hcontract, -⟩ := not_or.mp hrefs
  exact .inr ⟨by simpa using hkey, by simpa [Option.isSome_iff_ne_none] using hcontract, rfl⟩

theorem row?_append (h : r.contractId = c) :
    Shared.row? { d with rows := d.rows ++ [r] } c' =
      (d.row? c').or (if c' = c then some r else none) := by
  rw [Shared.row?, List.find?_append, Shared.row?, List.find?_singleton, h]
  simp [eq_comm]

/-- A task leaves the rows of the other contracts alone. -/
theorem row?_perform_of_ne (h : c ≠ call.contractId) :
    (perform org answer d call τ).1.row? c = d.row? c := by
  by_cases hτ : ∃ args n name, τ = .insert args n name
  · obtain ⟨args, n, name, rfl⟩ := hτ
    rw [perform]
    rcases insertRow_cases d call args n name with heq | ⟨-, -, heq⟩
    · rw [heq]
    · rw [heq, row?_append rfl, if_neg h, Option.or_none]
  · rw [row?_perform hτ, if_neg h]

/-- A row that is there has written to it what the task writes. -/
theorem row?_perform_of_some (h : d.row? call.contractId = some r) :
    (perform org answer d call τ).1.row? call.contractId = some (τ.write r) := by
  by_cases hτ : ∃ args n name, τ = .insert args n name
  · obtain ⟨args, n, name, rfl⟩ := hτ
    rw [perform]
    rcases insertRow_cases d call args n name with heq | ⟨hnone, -⟩
    · rw [heq, h]
      rfl
    · rw [h] at hnone
      cases hnone
  · rw [row?_perform hτ, if_pos rfl, h]
    rfl

/-- A row is only ever made for a contract, and begins without anything recorded. -/
theorem row?_perform_of_none (h : d.row? call.contractId = none)
    (hr : (perform org answer d call τ).1.row? call.contractId = some r) :
    (d.contracts call.contractId).isSome ∧ r.webhookStatus = .pending ∧
      r.status ≠ .complete := by
  by_cases hτ : ∃ args n name, τ = .insert args n name
  · obtain ⟨args, n, name, rfl⟩ := hτ
    rw [perform] at hr
    rcases insertRow_cases d call args n name with heq | ⟨-, hcontract, heq⟩
    · rw [heq, h] at hr
      cases hr
    · rw [heq, row?_append rfl, h, Option.none_or, if_pos rfl] at hr
      cases hr
      refine ⟨hcontract, rfl, ?_⟩
      dsimp only
      split <;> rintro ⟨⟩
  · rw [row?_perform hτ, if_pos rfl, h] at hr
    cases hr

theorem row?_attempt_of_ne (h : c ≠ call.contractId) :
    (attempt org answer d call τ o).1.row? c = d.row? c := by
  cases o with
  | failed => rfl
  | ok | lost => exact row?_perform_of_ne h

theorem row?_attempt_of_some (org : Text) (answer : CollaboratorOutcome) (τ : Task) (o : Outcome)
    (h : d.row? call.contractId = some r) :
    (attempt org answer d call τ o).1.row? call.contractId =
      some (if o = .failed then r else τ.write r) := by
  cases o with
  | failed => exact h
  | ok | lost => exact row?_perform_of_some h

/-! ## Steps -/

theorem advance_move (h : advance org s i o answer = some t) :
    Move org s (.advance i o answer) t := by
  rw [advance] at h
  split at h
  · next hi =>
    cases h
    exact .accepted hi fun ho => .inl ⟨_, if_pos ho⟩
  · next hi =>
    cases h
    exact .accepted hi fun ho => .inr ⟨_, if_pos ho⟩
  · next hi =>
    cases h
    exact .sweeping hi
  · next hi =>
    cases h
    exact .attempt hi
  · cases h

theorem step_move (h : step org s a = some t) : Move org s a t := by
  cases a with
  | contract c title =>
    rw [step] at h
    split at h <;> cases h
    next hnew =>
    refine .environment (by rintro _ _ _ ⟨⟩) rfl (fun c' k hk => ?_) fun _ => id
    by_cases hc : c' = c
    · subst hc
      rw [hk] at hnew
      exact absurd rfl hnew
    · exact (Function.update_of_ne hc ..).trans hk
  | user userId user =>
    cases h
    refine .environment (by rintro _ _ _ ⟨⟩) rfl (fun _ _ => id) fun u hu => ?_
    change (Function.update s.shared.users userId (some user) u).isSome
    by_cases hne : u = userId
    · subst hne
      rw [Function.update_self]
      rfl
    · rwa [Function.update_of_ne hne]
  | createRepository =>
    rw [step] at h
    split at h <;> cases h
    exact .environment (by rintro _ _ _ ⟨⟩) rfl (fun _ _ => id) fun _ => id
  | deleteRepository =>
    cases h
    exact .environment (by rintro _ _ _ ⟨⟩) rfl (fun _ _ => id) fun _ => id
  | accept i c f =>
    rw [step] at h
    split at h <;> cases h
    next hidle => exact .start (by rintro _ _ _ ⟨⟩) hidle
  | attemptProvisioning i call =>
    rw [step] at h
    split at h <;> cases h
    next hidle => exact .start (by rintro _ _ _ ⟨⟩) hidle
  | reconcile i =>
    rw [step] at h
    split at h <;> cases h
    next hidle => exact .start (by rintro _ _ _ ⟨⟩) hidle
  | crash i =>
    rw [step] at h
    split at h <;> cases h
    exact .crash
  | advance i o answer => exact advance_move h

/-- A row stays a row. -/
theorem isSome_row?_step (h : step org s a = some t) (hr : (s.shared.row? c).isSome) :
    (t.shared.row? c).isSome := by
  cases step_move h with
  | environment _ hrows =>
    rw [Shared.row?] at hr ⊢
    rwa [hrows]
  | start | crash | accepted | sweeping => exact hr
  | @attempt i o answer call τ rest hi =>
    change ((attempt org answer s.shared call τ o).1.row? c).isSome
    by_cases hc : c = call.contractId
    · subst hc
      obtain ⟨r, hr⟩ := Option.isSome_iff_exists.mp hr
      rw [row?_attempt_of_some _ _ _ _ hr]
      rfl
    · rwa [row?_attempt_of_ne hc]

end AssureCode.Provisioning
