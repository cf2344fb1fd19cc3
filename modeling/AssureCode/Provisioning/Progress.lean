import AssureCode.Provisioning.Isolation
import AssureCode.Provisioning.Rows
import AssureCode.Transition.Schedule

/-! # Progress of a provisioning

An attempt decides what to do from the row as it was when it began, and the sweep from its own
`SELECT`; both write the status without looking at it again. The status goes back exactly where
such a write comes after another run has taken the row further.
-/

namespace AssureCode.Provisioning

open Js Machine
open Settlement (Outcome)

/-- The place of a status on the way from `PENDING` to `COMPLETE`. -/
def Status.place : Status → Option ℕ
  | .pending => some 0
  | .repoCreated => some 1
  | .collaboratorAdded => some 2
  | .complete => some 3
  | .failed => none

/-- `COMPLETE` is never left, and nothing comes before what has been reached. -/
def Status.Forward (st st' : Status) : Prop :=
  (st = .complete → st' = .complete) ∧ ∀ n ∈ st.place, ∀ m ∈ st'.place, n ≤ m

instance (st st' : Status) : Decidable (st.Forward st') := inferInstanceAs (Decidable (_ ∧ _))

/-- The row of the contract stays, and its status does not go back. -/
def State.Forward (c : Text) (s t : State) : Prop :=
  ∀ row ∈ s.shared.row? c, ∃ row' ∈ t.shared.row? c, row.status.Forward row'.status

instance (c : Text) (s t : State) : Decidable (s.Forward c t) :=
  inferInstanceAs (Decidable (∀ row ∈ s.shared.row? c, ∃ row' ∈ t.shared.row? c, _))

/-- The task writes a status that comes before this one. -/
def Task.Overtaken : Task → Status → Prop
  | .recordRepo .., st => st = .collaboratorAdded ∨ st = .complete
  | .recordCollaborator _ _ outcome, st => outcome ≠ .unknownLogin ∧ st = .complete
  | .giveUp, st => st = .complete
  | _, _ => False

/-- A task is done for the contract whose row had been further before. -/
def Overtaken (c : Text) (s t : State) : Action → Prop
  | .advance i o _ => ∃ call τ rest row, t.actors i = .running call τ rest ∧
      call.contractId = c ∧ o ≠ .failed ∧ s.shared.row? c = some row ∧ τ.Overtaken row.status
  | _ => False

variable {org : Text} {answer : CollaboratorOutcome} {r s t u : State} {a : Action}
  {as : List Action} {τ : Task} {row : Row} {st : Status} {c : Text}

theorem Status.Forward.refl (st : Status) : st.Forward st := by
  cases st <;> decide

theorem State.Forward.refl (s : State) : s.Forward c s := fun row h => ⟨row, h, .refl _⟩

theorem State.Forward.congr (h : r.Forward c s) (heq : t.shared.row? c = s.shared.row? c) :
    r.Forward c t := by
  rwa [State.Forward, heq]

/-- Where a row has not gone back so far, a task takes it back exactly when it was overtaken. -/
theorem not_overtaken_iff (h : st.Forward row.status) :
    ¬ τ.Overtaken st ↔ st.Forward (τ.write row).status := by
  cases τ with
  | recordRepo => cases st <;> simp [Task.Overtaken, Task.write, Status.Forward, Status.place]
  | recordCollaborator row x outcome =>
    cases outcome with
    | unknownLogin => exact iff_of_true (fun hlate => hlate.1 rfl) h
    | invited | alreadyCollaborator =>
      cases st <;> simp [Task.Overtaken, Task.write, Status.Forward, Status.place]
  | recordWebhook =>
    cases st <;> simp [Task.Overtaken, Task.write, Status.Forward, Status.place]
  | giveUp => cases st <;> simp [Task.Overtaken, Task.write, Status.Forward, Status.place]
  | _ => exact iff_of_true id h

/-- Where no task is done for the contract, its row stays as it is. -/
theorem not_overtaken_of_quiet (hr : r.Forward c s)
    (hquiet : ∀ i o answer, a = .advance i o answer → ∀ call τ rest,
      s.actors i = .running call τ rest → call.contractId = c → o = .failed)
    (heq : t.shared.row? c = s.shared.row? c) : ¬ Overtaken c r s a ↔ r.Forward c t := by
  refine iff_of_true ?_ (hr.congr heq)
  cases a with
  | advance i o answer =>
    rintro ⟨call, τ, rest, row, hi, hc, ho, -⟩
    exact ho (hquiet i o answer rfl call τ rest hi hc)
  | _ => exact id

theorem not_overtaken_attempt_iff (hi : s.actors i = .running call τ rest) (ho : o ≠ .failed)
    (hr : r.Forward call.contractId s)
    (hshared : t.shared = (attempt org answer s.shared call τ o).1) :
    ¬ Overtaken call.contractId r s (.advance i o answer) ↔ r.Forward call.contractId t := by
  have hlate : ∀ row, r.shared.row? call.contractId = some row →
      (Overtaken call.contractId r s (.advance i o answer) ↔ τ.Overtaken row.status) := by
    intro row hrow
    constructor
    · rintro ⟨call', τ', rest', row', hrun, -, -, hrow', hlate⟩
      cases hi.symm.trans hrun
      cases hrow.symm.trans hrow'
      exact hlate
    · exact fun hlate => ⟨call, τ, rest, row, hi, rfl, ho, hrow, hlate⟩
  cases hrow : r.shared.row? call.contractId with
  | none =>
    refine iff_of_true ?_ fun row h => ?_
    · rintro ⟨_, _, _, row, -, -, -, hrow', -⟩
      cases hrow.symm.trans hrow'
    · cases hrow.symm.trans h
  | some row =>
    obtain ⟨row', hrow', hforward⟩ := hr row hrow
    rw [hlate row hrow, not_overtaken_iff hforward]
    have hwrite := row?_attempt_of_some org answer τ o hrow'
    rw [if_neg ho, ← hshared] at hwrite
    constructor
    · intro hkeeps row₀ hrow₀
      cases hrow.symm.trans hrow₀
      exact ⟨_, hwrite, hkeeps⟩
    · intro hall
      obtain ⟨row₀, hrow₀, hkeeps⟩ := hall row hrow
      cases hwrite.symm.trans hrow₀
      exact hkeeps

theorem not_overtaken_step_iff (h : step org s a = some t) (hr : r.Forward c s) :
    ¬ Overtaken c r s a ↔ r.Forward c t := by
  cases step_move h with
  | environment hne hrows =>
    apply not_overtaken_of_quiet hr (fun i o answer heq => absurd heq (hne i o answer))
    rw [Shared.row?, hrows]
    rfl
  | start hne =>
    exact not_overtaken_of_quiet hr (fun i o answer heq => absurd heq (hne i o answer)) rfl
  | crash => exact not_overtaken_of_quiet hr (by rintro _ _ _ ⟨⟩) rfl
  | accepted hi | sweeping hi =>
    refine not_overtaken_of_quiet hr (fun i o answer heq call τ rest hrun => ?_) rfl
    cases heq
    cases hi.symm.trans hrun
  | @attempt i o answer call τ rest hi =>
    by_cases hc : call.contractId = c
    · subst hc
      by_cases ho : o = .failed
      · subst ho
        refine not_overtaken_of_quiet hr (fun i o answer heq call τ rest hrun hc' => ?_) rfl
        cases heq
        rfl
      · exact not_overtaken_attempt_iff hi ho hr rfl
    · refine not_overtaken_of_quiet hr (fun i o answer heq call τ rest hrun hc' => ?_)
        (row?_attempt_of_ne (Ne.symm hc))
      cases heq
      cases hi.symm.trans hrun
      exact absurd hc' hc

/--
Along a run the status of a contract never goes back, and is left for no other when `COMPLETE`,
exactly when no task writes to a row that had been further in a state before.
-/
theorem status_forward_iff (c : Text) (h : (system org).Run Any s as t) :
    ((system org).visited s as).Pairwise (State.Forward c) ↔
      ∀ pre a post u, as = pre ++ a :: post → (system org).Run Any s pre u →
        ∀ r ∈ (system org).visited s pre, ¬ Overtaken c r u a :=
  h.pairwise_iff_splits State.Forward.refl fun _ _ _ _ => not_overtaken_step_iff

/-- One handler is kept waiting by GitHub while another one provisions the same contract. -/
def overlapping : List Action :=
  let provision i n := List.replicate n (Action.advance i .ok .invited)
  [.user (units "f") ⟨units "Ann Lee", some (units "ann")⟩,
    .contract (units "AC-1") (units "Dashboard"), .accept 0 (units "AC-1") (units "f")] ++
    provision 0 10 ++ .accept 1 (units "AC-1") (units "f") :: provision 1 12

theorem status_forward_iff_once : ∃ t, (system (units "acme")).exec {} overlapping = some t ∧
    ∀ pre a post u, overlapping = pre ++ a :: post → (system (units "acme")).Run Any {} pre u →
      ∀ r ∈ (system (units "acme")).visited {} pre, ¬ Overtaken (units "AC-1") r u a := by
  have h : ((system (units "acme")).exec {} overlapping).isSome := by decide +kernel
  obtain ⟨t, ht⟩ := Option.isSome_iff_exists.mp h
  have hforward : ((system (units "acme")).visited {} overlapping).Pairwise
      (State.Forward (units "AC-1")) := by decide +kernel
  exact ⟨t, ht, (status_forward_iff (units "AC-1") (run_of_exec ht)).mp hforward⟩

/-- When GitHub answers, a finished provisioning goes back to `REPO_CREATED`. -/
theorem status_goes_back : ¬ ∀ (org c : Text) s as t, Initial s → (system org).Run Any s as t →
    ((system org).visited s as).Pairwise (State.Forward c) := by
  intro hall
  have h : ((system (units "acme")).exec {} (overlapping ++
      [.advance 0 .ok .invited])).isSome := by decide +kernel
  obtain ⟨t, ht⟩ := Option.isSome_iff_exists.mp h
  have hforward := hall _ (units "AC-1") _ _ t initial_default (run_of_exec ht)
  exact absurd hforward (by decide +kernel)

end AssureCode.Provisioning
