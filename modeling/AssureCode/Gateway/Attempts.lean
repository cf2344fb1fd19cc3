import AssureCode.Gateway.Middleware

/-! # How often a call runs its handler

A handler that throws while its call holds the reservation throws into the `try` around the
reservation, and the call runs it a second time. On every other path it runs at most once.
-/

namespace AssureCode.Gateway

open Js

variable {ε β : Type} {requests : CallId → Request} {handlerFailed r : Response β}
  {key : Text} {v : View ε β} {event : Event ε β} {effect : Effect ε β}
  {s s₀ t : State ε β} {c : CallId} {act : Action ε β} {acts : List (Action ε β)}
  {phase : Phase ε β} {runs : List (Attempt × Except ε (Response β))}

/-- The call came to an end of its own. -/
def Phase.Returned : Phase ε β → Prop
  | .answered _ | .rejected _ => True
  | _ => False

/-- At most one run of the handler, and an error of it is that of the call. -/
def SingleRun (phase : Phase ε β) (runs : List (Attempt × Except ε (Response β))) : Prop :=
  runs.length ≤ 1 ∧ ∀ attempt e, (attempt, .error e) ∈ runs →
    runs = [(attempt, .error e)] ∧ phase = .rejected e

/-- The call won the reservation, and its handler threw. -/
def ThrewReserved (runs : List (Attempt × Except ε (Response β))) : Prop :=
  ∃ e rest, runs = (.reserved, .error e) :: rest

/-- The runs that a call has behind it in each phase. -/
def Behind : Phase ε β → List (Attempt × Except ε (Response β)) → Prop
  | .idle, runs | .awaiting _ _, runs | .inserting, runs | .inserted _, runs
  | .selecting _, runs | .selected _ _, runs | .pausing _ _, runs => runs = []
  | .running .unavailable, runs => runs = [] ∨ ∃ e, runs = [(.reserved, .error e)]
  | .running _, runs => runs = []
  | .updating r, runs | .updated r, runs => runs = [(.reserved, .ok r)]
  | .deleting e, runs | .deleted e, runs => runs = [(.reserved, .error e)]
  | .answered r, runs => runs = [] ∨ (∃ attempt, runs = [(attempt, .ok r)]) ∨
      ∃ e, runs = [(.reserved, .error e), (.unavailable, .ok r)]
  | .rejected e, runs => (∃ attempt ≠ .reserved, runs = [(attempt, .error e)]) ∨
      ∃ e', runs = [(.reserved, .error e'), (.unavailable, .error e)]
  | .crashed, _ => True

theorem behind_finish {attempt : Attempt} (h : Behind (.running attempt) runs)
    (result : Except ε (Response β)) :
    Behind (finish handlerFailed attempt result).phase (runs ++ [(attempt, result)]) := by
  cases attempt with
  | unavailable =>
    rcases h with rfl | ⟨e, rfl⟩ <;> cases result <;> simp [finish, Behind]
  | _ =>
    obtain rfl : runs = [] := h
    cases result <;> simp [finish, Behind]

theorem behind_insertKey (outcome : QueryOutcome) :
    Behind (insertKey key v outcome).phase ([] ++ (insertKey key v outcome).run.toList) := by
  unfold insertKey
  split
  · rfl
  · split <;> rfl

/-- One reaction. -/
theorem behind_reacts (h : Reacts handlerFailed key v event effect) (hb : Behind v.phase runs) :
    Behind effect.phase (runs ++ effect.run.toList) := by
  cases h with
  | insert outcome hphase =>
    rw [hphase] at hb
    obtain rfl : runs = [] := hb
    exact behind_insertKey outcome
  | finish result hphase =>
    rw [hphase] at hb
    rw [finish_run, Option.toList_some]
    exact behind_finish hb result
  | replay hphase => rw [hphase] at hb; simp [Behind, show runs = [] from hb]
  | found hphase => rw [hphase] at hb; simp [Behind, show runs = [] from hb]
  | persisted hphase => rw [hphase] at hb; simp [Behind, show runs = [(_, _)] from hb]
  | unavailable hphase => rw [hphase] at hb; simp [Behind, show runs = [] from hb]
  | rethrow hphase => rw [hphase] at hb; simp [Behind, show runs = [(_, _)] from hb]
  | _ => simp_all [Behind, claim]

theorem behind_step (hb : ∀ c, Behind (s.phase c) (s.runs c))
    (h : step requests handlerFailed s act = some t) (c : CallId) :
    Behind (t.phase c) (t.runs c) := by
  cases act with
  | call d event =>
    obtain ⟨effect, he, rfl⟩ := of_step_call h
    by_cases hc : c = d
    · subst hc
      rw [apply_phase_self, apply_runs_self]
      exact behind_reacts (v := s.view requests c) he (hb c)
    · rw [apply_phase_ne hc, apply_runs_ne hc]
      exact hb c
  | tick p n => cases h; exact hb c
  | tickDb n => cases h; exact hb c
  | crash p =>
    cases h
    have hc := hb c
    dsimp only
    split
    · next hidle => rwa [hidle] at hc
    · split
      · trivial
      · exact hc

theorem behind_run (h : (gateway requests handlerFailed).Run Machine.Any s₀ acts s)
    (h₀ : (gateway requests handlerFailed).init s₀) (c : CallId) :
    Behind (s.phase c) (s.runs c) := by
  refine h.invariant (I := fun s => ∀ c, Behind (s.phase c) (s.runs c))
    (fun s a t hs _ hst c => behind_step hs hst c) ?_ c
  obtain ⟨clock, dbClock, rfl⟩ := h₀
  exact fun c => rfl

theorem singleRun_iff (hb : Behind phase runs) (hphase : phase.Returned) :
    SingleRun phase runs ↔ ¬ ThrewReserved runs := by
  cases phase with
  | answered r =>
    rcases hb with rfl | ⟨attempt, rfl⟩ | ⟨e, rfl⟩ <;> simp [SingleRun, ThrewReserved]
  | rejected e =>
    rcases hb with ⟨attempt, hne, rfl⟩ | ⟨e', rfl⟩
    · simp [SingleRun, ThrewReserved, hne]
    · simp [SingleRun, ThrewReserved]
  | _ => exact hphase.elim

/--
A call that returned ran its handler at most once, and rejected with the error of the handler,
exactly if it is not the case that it won the reservation and the handler then threw.
-/
theorem singleRun_iff_not_threwReserved
    (h : (gateway requests handlerFailed).Run Machine.Any s₀ acts s)
    (h₀ : (gateway requests handlerFailed).init s₀) (hc : (s.phase c).Returned) :
    SingleRun (s.phase c) (s.runs c) ↔ ¬ ThrewReserved (s.runs c) :=
  singleRun_iff (behind_run h h₀ c) hc

/-- Every call comes to a process of its own, all with one key. -/
def ownProcess : CallId → Request :=
  fun c => { process := c, idempotencyKey := .text (units "k-1") }

/-- `{ error: 'Handler failed' }` -/
def handlerFailed500 : Response Text := ⟨500, units "Handler failed", by decide⟩

def created : Response Text := ⟨201, units "created", by decide⟩

def accepted : Response Text := ⟨202, units "accepted", by decide⟩

/-- The start at time 0. -/
def atZero : State Text Text := { clock := fun _ => 0, dbClock := 0 }

/-- The handler throws and is run again, with success. -/
def rerun : List (Action Text Text) :=
  [.call 0 .arrive, .call 0 (.execute .ok), .call 0 .resume,
    .call 0 (.finish (.error (units "bad request"))), .call 0 (.execute .ok), .call 0 .resume,
    .call 0 (.finish (.ok created))]

theorem rerun_twice : ∃ s, (gateway ownProcess handlerFailed500).init atZero ∧
    (gateway ownProcess handlerFailed500).Run Machine.Any atZero rerun s ∧ (s.phase 0).Returned ∧
    ¬ SingleRun (s.phase 0) (s.runs 0) := by
  obtain ⟨s, hs⟩ : ∃ s, (gateway ownProcess handlerFailed500).exec atZero rerun = some s := ⟨_, rfl⟩
  have hend : ((gateway ownProcess handlerFailed500).exec atZero rerun).map
      (fun s => (s.phase 0, (s.runs 0).length)) = some (.answered created, 2) := rfl
  rw [hs, Option.map_some, Option.some.injEq, Prod.mk.injEq] at hend
  refine ⟨s, ⟨_, _, rfl⟩, Machine.run_of_exec hs, ?_, fun h => ?_⟩
  · rw [hend.1]
    trivial
  · have hone := h.1
    omega

theorem singleRun_iff_not_threwReserved_rerun :
    ∃ s, (gateway ownProcess handlerFailed500).Run Machine.Any atZero rerun s ∧
      (SingleRun (s.phase 0) (s.runs 0) ↔ ¬ ThrewReserved (s.runs 0)) := by
  obtain ⟨s, hs⟩ : ∃ s, (gateway ownProcess handlerFailed500).exec atZero rerun = some s := ⟨_, rfl⟩
  have hend : ((gateway ownProcess handlerFailed500).exec atZero rerun).map (·.phase 0) =
      some (.answered created) := rfl
  rw [hs, Option.map_some, Option.some.injEq] at hend
  refine ⟨s, Machine.run_of_exec hs, singleRun_iff_not_threwReserved (Machine.run_of_exec hs)
    ⟨_, _, rfl⟩ ?_⟩
  rw [hend]
  trivial

end AssureCode.Gateway
