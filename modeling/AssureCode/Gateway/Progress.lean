import AssureCode.Gateway.Middleware

/-! # Every call comes to an end

A call waits for a promise for five seconds, and polls for five seconds at most. Whatever the
others do, it takes a bounded number of steps, and until it has ended it can always take the next.
-/

namespace AssureCode.Gateway

open Js

variable {ε β : Type} {requests : CallId → Request} {handlerFailed : Response β} {key : Text}
  {v : View ε β} {event : Event ε β} {effect : Effect ε β} {s t : State ε β} {c : CallId}
  {act : Action ε β} {acts : List (Action ε β)}

/-- An upper bound on the reactions that a call still has before it. -/
def Phase.rank (now : ℕ) : Phase ε β → ℕ
  | .idle => 15008
  | .awaiting _ _ => 15007
  | .inserting => 15006
  | .inserted _ => 15005
  | .pausing deadline wake => 3 * (deadline - wake) + 5
  | .selecting deadline => 3 * (deadline - now) + 4
  | .selected deadline _ => 3 * (deadline - now) + 3
  | .running .reserved => 4
  | .deleting _ => 3
  | .deleted _ | .updating _ => 2
  | .running _ | .updated _ => 1
  | .answered _ | .rejected _ | .crashed => 0

theorem rank_anti {now now' : ℕ} (h : now ≤ now') (phase : Phase ε β) :
    phase.rank now' ≤ phase.rank now := by
  cases phase with
  | running attempt => cases attempt <;> exact le_refl _
  | selecting deadline | selected deadline reply =>
    simp only [Phase.rank]
    omega
  | _ => exact le_refl _

theorem rank_reacts (h : Reacts handlerFailed key v event effect) :
    effect.phase.rank v.now < v.phase.rank v.now := by
  cases h with
  | insert outcome hphase =>
    rw [hphase, insertKey]
    split_ifs <;> simp [Phase.rank]
  | @finish attempt result hphase =>
    rw [hphase]
    cases attempt <;> cases result <;> simp [finish, Phase.rank]
  | select outcome hphase | exhausted hphase | pause hphase | wake hphase =>
    rw [hphase]
    simp only [Phase.rank]
    omega
  | _ => simp_all [Phase.rank, claim]

/-- An action of the call itself. -/
def Action.isOf (c : CallId) : Action ε β → Bool
  | .call d _ => d = c
  | _ => false

theorem rank_step (h : step requests handlerFailed s act = some t) :
    (if act.isOf c then 1 else 0) + (t.phase c).rank (t.clock (requests c).process) ≤
      (s.phase c).rank (s.clock (requests c).process) := by
  cases act with
  | call d event =>
    obtain ⟨effect, he, rfl⟩ := of_step_call h
    by_cases hcd : c = d
    · subst hcd
      have hrank := rank_reacts he
      rw [apply_phase_self, apply_clock, if_pos (by simp [Action.isOf])]
      exact (Nat.add_comm ..).trans_le hrank
    · have hnot : ¬ Action.isOf c (.call d event : Action ε β) := by
        simp [Action.isOf, Ne.symm hcd]
      rw [apply_phase_ne hcd, apply_clock, if_neg hnot, Nat.zero_add]
  | tick p n =>
    cases h
    rw [if_neg (by simp [Action.isOf]), Nat.zero_add]
    apply rank_anti
    by_cases hp : (requests c).process = p
    · simp [hp]
    · simp [hp]
  | tickDb n =>
    cases h
    rw [if_neg (by simp [Action.isOf]), Nat.zero_add]
  | crash p =>
    cases h
    rw [if_neg (by simp [Action.isOf]), Nat.zero_add]
    dsimp only
    split
    · next hidle => rw [hidle]
    · split
      · exact Nat.zero_le _
      · exact le_refl _

/-- A call takes no more than a fixed number of steps, however long the run. -/
theorem rank_run {K : State ε β → Action ε β → Prop}
    (h : (gateway requests handlerFailed).Run K s acts t) :
    acts.countP (·.isOf c) + (t.phase c).rank (t.clock (requests c).process) ≤
      (s.phase c).rank (s.clock (requests c).process) := by
  induction h with
  | nil s => simp
  | cons _ hst _ ih =>
    have hstep := rank_step (c := c) hst
    rw [List.countP_cons]
    omega

/-- Once time has passed, a call that has not ended can go on. -/
theorem exists_react (handlerFailed : Response β) (key : Text) (hv : ¬ v.phase.Ended) :
    ∃ n event, (react handlerFailed key { v with now := v.now + n } event).isSome := by
  cases hphase : v.phase with
  | idle =>
    refine ⟨0, .arrive, ?_⟩
    simp only [react]
    split
    · rfl
    · split <;> rfl
  | awaiting now promise =>
    cases hawaited : v.awaited with
    | none => exact ⟨now + 5000, .timeout, by simp [react]⟩
    | some r => exact ⟨0, .resume, by simp [react]⟩
  | inserting => exact ⟨0, .execute .ok, by simp [react]⟩
  | inserted reply => exact ⟨0, .resume, by rcases reply with _ | _ | _ <;> simp [react]⟩
  | running attempt => exact ⟨0, .finish (.ok handlerFailed), by simp [react]⟩
  | updating r => exact ⟨0, .execute .ok, by simp [react]⟩
  | updated r => exact ⟨0, .resume, by simp [react]⟩
  | deleting e => exact ⟨0, .execute .ok, by simp [react]⟩
  | deleted e => exact ⟨0, .resume, by simp [react]⟩
  | selecting deadline => exact ⟨0, .execute .ok, by simp [react]⟩
  | selected deadline reply =>
    refine ⟨0, .resume, ?_⟩
    rcases reply with _ | _ | r
    · simp [react]
    · simp only [react]
      split <;> rfl
    · simp [react]
  | pausing deadline wake => exact ⟨wake, .resume, by simp [react]⟩
  | answered r | rejected e | crashed => exact absurd (by rw [hphase]; trivial) hv

/-- The call can take its next step, if need be after its process has waited. -/
def State.Proceeds (requests : CallId → Request) (handlerFailed : Response β) (s : State ε β)
    (c : CallId) : Prop :=
  ∃ n event, ((gateway requests handlerFailed).exec s
    [.tick (requests c).process n, .call c event]).isSome

theorem proceeds (requests : CallId → Request) (handlerFailed : Response β)
    (hc : ¬ (s.phase c).Ended) : s.Proceeds requests handlerFailed c := by
  obtain ⟨n, event, h⟩ := exists_react (v := s.view requests c) handlerFailed (requests c).key hc
  refine ⟨n, event, ?_⟩
  have hview : State.view requests { s with clock :=
      (Function.update s.clock (requests c).process (s.clock (requests c).process + n)) } c =
      { s.view requests c with now := (s.view requests c).now + n } := by
    simp only [State.view, Function.update_self]
    rfl
  obtain ⟨effect, heffect⟩ := Option.isSome_iff_exists.mp h
  rw [← hview] at heffect
  simp [Machine.exec, gateway, step, heffect]

end AssureCode.Gateway
