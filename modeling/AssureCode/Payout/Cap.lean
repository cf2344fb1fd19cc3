import AssureCode.Payout.Steps
import AssureCode.Transition.Actors

/-! # The cap on payout attempts

`payout_attempts` counts an attempt before the provider is called. It is the number of attempts
that have ended, in whatever way, and of those in flight; the sweep takes it for the number of
those that failed.
-/

namespace AssureCode.Payout

open Machine
open AssureCode.Settlement (Outcome)

variable {π γ : Type} {P : Provider π γ} {s s' t : State π} {a : Action γ} {as : List (Action γ)}
  {i : ℕ} {o : Outcome} {τ τ' : Task} {rest : List PendingPayout} {c : ContractId} {b : Actor}

/-- The attempts that were counted and have ended. -/
def State.tally (s : State π) (c : ContractId) : ℕ :=
  s.endings c .accepted + s.endings c .failed + s.endings c .crashed

/-- The workers whose attempt was counted and has not ended. -/
def State.inFlight (s : State π) (c : ContractId) : Set ℕ := {i | (s.actors i).counted = some c}

structure Counts (s : State π) : Prop where
  finite : ∀ c, (s.inFlight c).Finite
  attempts : ∀ c, (s.settlements c).payoutAttempts = s.tally c + (s.inFlight c).ncard

/-! ## What a statement counts -/

/-- The attempt that a statement counts. -/
def Task.marks : Task → Option ContractId
  | .markProcessing c _ _ _ => some c
  | _ => none

theorem took_attempts : ((s.took o τ).settlements c).payoutAttempts =
    (s.settlements c).payoutAttempts + if o ≠ .failed ∧ τ.marks = some c then 1 else 0 := by
  by_cases ho : o = .failed
  · simp [ho, took_failed]
  · rw [took_of_ne ho]
    cases τ with
    | markProcessing c' =>
      by_cases hc : c = c'
      · simp [perform, Task.marks, ho, hc]
      · simp [perform, Task.marks, hc, Ne.symm hc]
    | markTerminal c' =>
      by_cases hc : c = c'
      · simp only [perform, Task.marks, setRow_settlements, hc, Function.update_self]
        split <;> simp
      · simp [perform, Task.marks, hc]
    | markFailed c' | record c' => by_cases hc : c = c' <;> simp [perform, Task.marks, hc]
    | _ => simp [perform, Task.marks]

theorem end?_tally {e : Option (ContractId × Ending)} :
    (s.end? e).tally c = s.tally c + if e.map (·.1) = some c then 1 else 0 := by
  rcases e with _ | ⟨c', e⟩
  · rfl
  · by_cases hc : c = c'
    · cases e <;> simp [State.end?, State.ended, State.tally, hc] <;> omega
    · simp [State.end?, State.ended, State.tally, hc, Ne.symm hc]

theorem sweepRows_counted (rows : List PendingPayout) : (sweepRows rows).counted = none := by
  rcases sweepRows_cases rows with h | ⟨c, rest, h⟩ | ⟨c, freelancerId, rest, h⟩ <;> rw [h] <;> rfl

theorem start_counted (d : Delivery) : d.start.counted = none := by
  unfold Delivery.start
  split <;> rfl

theorem attemptPayout_counted (c : ContractId) (freelancerId : String) :
    ((attemptPayout c freelancerId).elim Actor.idle (.working · [])).counted = none := by
  unfold attemptPayout
  split <;> rfl

/-- Until the mark, an attempt is not counted. -/
theorem perform_counted (h : (perform s τ).2 = some τ') :
    τ.counted = none ∧ τ'.counted = τ.marks := by
  cases τ with
  | markProcessing c accountId amountMinor currency => cases h; exact ⟨rfl, rfl⟩
  | selectAccount c freelancerId =>
    obtain ⟨accountId, -, rfl⟩ := Option.map_eq_some_iff.mp h
    exact ⟨rfl, rfl⟩
  | selectTransfer c accountId =>
    obtain ⟨paymentId, -, rfl⟩ := Option.map_eq_some_iff.mp h
    exact ⟨rfl, rfl⟩
  | selectAmount c accountId paymentId =>
    obtain ⟨x, -, rfl⟩ := Option.map_eq_some_iff.mp h
    exact ⟨rfl, rfl⟩
  | _ => cases h

/-- An attempt that a statement counts, or that was in flight, has ended or is in flight. -/
theorem exit_balance (hinit : ∀ c x n y, τ ≠ .initiate c x n y) :
    (if o ≠ .failed ∧ τ.marks = some c then 1 else 0) + (if τ.counted = some c then 1 else 0) =
      (if (τ.exit s rest o).1.map (·.1) = some c then 1 else 0) +
        if (τ.exit s rest o).2.counted = some c then 1 else 0 := by
  cases o with
  | ok =>
    cases hnext : (perform s τ).2 with
    | some τ' =>
      obtain ⟨hcounted, hcounted'⟩ := perform_counted hnext
      simp [Task.exit, hnext, hcounted, Actor.counted, hcounted']
    | none =>
      cases τ with
      | initiate c x n y => exact absurd rfl (hinit c x n y)
      | markProcessing => cases hnext
      | _ => simp [Task.exit, hnext, Task.ending, Task.counted, Task.marks, sweepRows_counted]
  | failed =>
    cases τ with
    | initiate c x n y => exact absurd rfl (hinit c x n y)
    | _ => simp [Task.exit, Task.ending, Task.counted, sweepRows_counted]
  | lost =>
    cases τ with
    | initiate c x n y => exact absurd rfl (hinit c x n y)
    | _ => simp [Task.exit, Task.ending, Task.counted, Task.marks, sweepRows_counted]

theorem gate_counted {d : Delivery} {p : PayoutId} {inserted : Bool} :
    (d.gate p inserted).counted = none := by
  unfold Delivery.gate
  split
  · rfl
  · split <;> rfl

theorem receive_counted {d : Delivery} {r : Receipt} : (receive s d r).2.counted = none := by
  cases r with
  | select p => simp only [receive]; split <;> rfl
  | dedupe p c => exact gate_counted
  | update p status => rfl

theorem receive_attempts {d : Delivery} {r : Receipt} :
    ((receive s d r).1.settlements c).payoutAttempts = (s.settlements c).payoutAttempts := by
  by_cases hr : ∃ p status, r = .update p status
  · obtain ⟨p, status, rfl⟩ := hr
    simp only [receive, State.report]
    split <;> rfl
  · rw [(receive_rows fun p status he => hr ⟨p, status, he⟩).1]

theorem raised_counted {d : Delivery} {r : Receipt} : (raised d r).counted = none := by
  cases r <;> [rfl; exact gate_counted; rfl]

/-! ## The invariant -/

theorem Counts.setActor (h : Counts s) (hactors : s'.actors = s.actors)
    (hbalance : ∀ c, (s'.settlements c).payoutAttempts + s.tally c +
        (if (s.actors i).counted = some c then 1 else 0) =
      (s.settlements c).payoutAttempts + s'.tally c + if b.counted = some c then 1 else 0) :
    Counts (s'.setActor i b) := by
  constructor
  · intro c
    rw [State.inFlight, setActor_actors, hactors]
    exact Actors.finite_update (f := s.actors) (p := fun b => b.counted = some c) (h.finite c)
  · intro c
    have hcard : ((s'.setActor i b).inFlight c).ncard +
        (if (s.actors i).counted = some c then 1 else 0) =
          (s.inFlight c).ncard + if b.counted = some c then 1 else 0 := by
      rw [State.inFlight, setActor_actors, hactors]
      exact Actors.ncard_update (f := s.actors) (p := fun b => b.counted = some c) (h.finite c)
    have htally : (s'.setActor i b).tally c = s'.tally c := rfl
    rw [setActor_settlements, htally]
    have hattempts := h.attempts c
    have hb := hbalance c
    omega

theorem counts_initial (h : Initial P s) : Counts s := by
  obtain ⟨hrows, -, -, hendings, -, -, hidle⟩ := h
  have hempty : ∀ c, s.inFlight c = ∅ := fun c =>
    Set.eq_empty_of_forall_notMem fun i hi => by
      rw [State.inFlight, Set.mem_ofPred_eq, hidle i] at hi
      cases hi
  constructor
  · intro c
    rw [hempty]
    exact Set.finite_empty
  · intro c
    rw [hempty, Set.ncard_empty, (hrows c).2.2, State.tally]
    simp only [hendings]

/-- An actor outside an attempt goes on outside one, and the counters stay. -/
theorem Counts.idling (h : Counts s) (hactors : s'.actors = s.actors)
    (hattempts : ∀ c, (s'.settlements c).payoutAttempts = (s.settlements c).payoutAttempts)
    (hendings : s'.endings = s.endings) (hi : (s.actors i).counted = none) (hb : b.counted = none) :
    Counts (s'.setActor i b) := by
  apply h.setActor hactors
  intro c
  rw [hattempts c, hi, hb, State.tally, State.tally, hendings]

theorem counts_step (h : Counts s) (hst : step P s a = some t) : Counts t := by
  cases step_cases hst with
  | @deliver i d hi => exact h.idling rfl (fun _ => rfl) rfl (by rw [hi]; rfl) (start_counted d)
  | attempt hi _ =>
    exact h.idling rfl (fun _ => rfl) rfl (by rw [hi]; rfl) (attemptPayout_counted _ _)
  | sweep hi => exact h.idling rfl (fun _ => rfl) rfl (by rw [hi]; rfl) rfl
  | select hi =>
    apply h.idling rfl (fun _ => rfl) rfl (by rw [hi]; rfl)
    split <;> [exact sweepRows_counted _; rfl]
  | @work i o τ rest hi _ hinit =>
    apply h.setActor (by simp)
    intro c
    have hbalance : (if o ≠ .failed ∧ τ.marks = some c then 1 else 0) +
        (if τ.counted = some c then 1 else 0) =
          (if (τ.exit s rest o).1.map (·.1) = some c then 1 else 0) +
            if (τ.exit s rest o).2.counted = some c then 1 else 0 := exit_balance hinit
    have htally : (s.took o τ).tally c = s.tally c := by simp [State.tally]
    have hcounted : (Actor.working τ rest).counted = τ.counted := rfl
    rw [end?_settlements, took_attempts, end?_tally, htally, hi, hcounted]
    omega
  | @receive i o r d hi =>
    refine h.idling (by split <;> simp) (fun c => ?_) (by split <;> simp) (by rw [hi]; rfl) ?_
    · split <;> [rfl; exact receive_attempts]
    · split <;> [exact receive_counted; exact raised_counted]
  | acknowledge hi => exact h.idling rfl (fun _ => rfl) rfl (by rw [hi]; rfl) rfl
  | call hi hτ =>
    refine h.setActor rfl fun c => ?_
    rw [hi]
    rcases hτ with ⟨message, rfl⟩ | ⟨result, rfl⟩ <;> rfl
  | @crash i =>
    apply h.setActor (by simp)
    intro c
    rw [end?_settlements, end?_tally]
    cases hc : (s.actors i).counted <;> simp [Actor.counted, Nat.add_assoc]
  | @commit c' p =>
    refine ⟨h.finite, fun c => ?_⟩
    have hattempts := h.attempts c
    by_cases hc : c = c'
    · subst hc
      rwa [setRow_settlements, Function.update_self]
    · rwa [setRow_settlements, Function.update_of_ne hc]
  | setPayoutAccount => exact ⟨h.finite, h.attempts⟩
  | evolve => exact ⟨h.finite, h.attempts⟩

/-! ## The cap -/

/-- A row becomes `FAILED_TERMINAL` after so many failures only, and with no payout in progress. -/
def CapsFailure (P : Provider π γ) (s t : State π) : Prop :=
  ∀ c, (s.settlements c).payoutStatus ≠ .failedTerminal →
    (t.settlements c).payoutStatus = .failedTerminal →
    maxAttempts ≤ s.endings c .failed ∧ P.processing s.provider (idempotencyKey c) = false

/--
When the sweep gives a row up, the attempts that were accepted, crashed or are in flight leave
enough of the counted ones, and no payout is in progress.
-/
def CountsFailures (P : Provider π γ) (s : State π) (a : Action γ) : Prop :=
  ∀ c, Works s a (.markTerminal c) → (s.settlements c).payoutStatus ≠ .failedTerminal →
    maxAttempts + s.endings c .accepted + s.endings c .crashed + (s.inFlight c).ncard ≤
        (s.settlements c).payoutAttempts ∧
      P.processing s.provider (idempotencyKey c) = false

theorem capsFailure_iff (hc : Counts s) (hf : Fits s) (hst : step P s a = some t) :
    CountsFailures P s a ↔ CapsFailure P s t := by
  have hfailed : ∀ c, maxAttempts + s.endings c .accepted + s.endings c .crashed +
      (s.inFlight c).ncard ≤ (s.settlements c).payoutAttempts ↔
        maxAttempts ≤ s.endings c .failed := by
    intro c
    have hattempts := hc.attempts c
    rw [State.tally] at hattempts
    omega
  constructor
  · intro h c hs ht
    rcases step_status hst c with ⟨hkept, -⟩ | ⟨τ, status, hw, hset, hstatus, -⟩ |
      ⟨d, status, hreport, hstatus, -⟩
    · exact absurd (hkept.symm.trans ht) hs
    · cases hstatus.symm.trans ht
      cases sets_failedTerminal hset
      exact (h c hw hs).imp_left (hfailed c).mp
    · cases hstatus.symm.trans ht
      have hevent := hreport.event hf
      unfold EventType.finalPayoutStatus at hevent
      split at hevent <;> cases hevent
  · intro h c hw hs
    exact (h c hs (hw.status hst rfl)).imp_left (hfailed c).mpr

/-- One sweep that finds the row, asks the provider and stores the answer. -/
def sweepOnce : List (Action Unit) :=
  .sweep 0 :: advances 0 5 ++ [.call 0 [()] none] ++ advances 0 1

/-- Five sweeps store `PROCESSING`, and the sixth gives up. -/
def sweptSixTimes : List (Action Unit) :=
  .commit 0 7 :: (List.replicate 5 sweepOnce).flatten ++ .sweep 0 :: advances 0 2

end AssureCode.Payout
