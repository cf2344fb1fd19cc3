import AssureCode.Payout.Model
import AssureCode.Transition.Run

/-! # What one step of the payout leg can do

The transition relation in one place: for every action the state it leads to, in terms of the
actor that takes it. The later modules split on it and never open the step function.
-/

namespace AssureCode.Payout

open AssureCode.Settlement (PaymentId Outcome)

variable {π γ : Type} {P : Provider π γ} {s t : State π} {a : Action γ} {i j : ℕ} {o : Outcome}
  {τ τ' : Task} {rest : List PendingPayout} {c c' : ContractId} {b : Actor}

/-- The state after a worker's statement, which may have raised. -/
def State.took (s : State π) (o : Outcome) (τ : Task) : State π :=
  if o = .failed then s else (perform s τ).1

/-! ## Fields that an update leaves alone -/

section Frame

variable {e : Option (ContractId × Ending)} {d : Delivery} {r : Receipt}

@[simp] theorem setActor_settlements : (s.setActor i b).settlements = s.settlements := rfl

@[simp] theorem setActor_provider : (s.setActor i b).provider = s.provider := rfl

@[simp] theorem setActor_reports : (s.setActor i b).reports = s.reports := rfl

@[simp] theorem setActor_acknowledged : (s.setActor i b).acknowledged = s.acknowledged := rfl

@[simp] theorem setActor_actors : (s.setActor i b).actors = Function.update s.actors i b := rfl

theorem setActor_self : (s.setActor i b).actors i = b := Function.update_self ..

@[simp] theorem setRow_settlements {f : Settlement → Settlement} :
    (s.setRow c f).settlements = Function.update s.settlements c (f (s.settlements c)) := rfl

@[simp] theorem setRow_provider {f : Settlement → Settlement} :
    (s.setRow c f).provider = s.provider := rfl

@[simp] theorem setRow_acknowledged {f : Settlement → Settlement} :
    (s.setRow c f).acknowledged = s.acknowledged := rfl

theorem end?_eq (s : State π) (e : Option (ContractId × Ending)) :
    s.end? e = { s with endings := (s.end? e).endings } := by
  cases e <;> rfl

@[simp] theorem end?_settlements : (s.end? e).settlements = s.settlements := by rw [end?_eq]

@[simp] theorem end?_provider : (s.end? e).provider = s.provider := by rw [end?_eq]

@[simp] theorem end?_reports : (s.end? e).reports = s.reports := by rw [end?_eq]

@[simp] theorem end?_acknowledged : (s.end? e).acknowledged = s.acknowledged := by rw [end?_eq]

@[simp] theorem end?_actors : (s.end? e).actors = s.actors := by rw [end?_eq]

theorem took_eq (s : State π) (o : Outcome) (τ : Task) :
    s.took o τ = { s with settlements := (s.took o τ).settlements } := by
  unfold State.took
  split <;> [rfl; cases τ <;> rfl]

@[simp] theorem took_provider : (s.took o τ).provider = s.provider := by rw [took_eq]

@[simp] theorem took_endings : (s.took o τ).endings = s.endings := by rw [took_eq]

@[simp] theorem took_reports : (s.took o τ).reports = s.reports := by rw [took_eq]

@[simp] theorem took_acknowledged : (s.took o τ).acknowledged = s.acknowledged := by rw [took_eq]

@[simp] theorem took_actors : (s.took o τ).actors = s.actors := by rw [took_eq]

theorem recordPaymentEvent_eq (s : State π) (e : Escrow.PaymentEvent) :
    (recordPaymentEvent s e).1 =
      { s with paymentEvents := (recordPaymentEvent s e).1.paymentEvents } := by
  unfold recordPaymentEvent
  split <;> rfl

theorem receive_eq (s : State π) (d : Delivery) (r : Receipt) :
    (receive s d r).1 = { s with
      settlements := (receive s d r).1.settlements
      reports := (receive s d r).1.reports
      paymentEvents := (receive s d r).1.paymentEvents } := by
  cases r with
  | select p => simp only [receive]; split <;> rfl
  | dedupe p c => simp only [receive]; rw [recordPaymentEvent_eq]
  | update p status => rfl

theorem receive_rows (h : ∀ p status, r ≠ .update p status) :
    (receive s d r).1.settlements = s.settlements ∧ (receive s d r).1.reports = s.reports := by
  cases r with
  | select p => simp only [receive]; split <;> exact ⟨rfl, rfl⟩
  | dedupe p c => simp only [receive]; rw [recordPaymentEvent_eq]; exact ⟨rfl, rfl⟩
  | update p status => exact absurd rfl (h p status)

@[simp] theorem receive_provider : (receive s d r).1.provider = s.provider := by rw [receive_eq]

@[simp] theorem receive_endings : (receive s d r).1.endings = s.endings := by rw [receive_eq]

@[simp] theorem receive_acknowledged : (receive s d r).1.acknowledged = s.acknowledged := by
  rw [receive_eq]

@[simp] theorem receive_actors : (receive s d r).1.actors = s.actors := by rw [receive_eq]

end Frame

/-! ## Steps -/

/-- What a worker's statement ends, and what the worker does next. -/
def Task.exit (s : State π) (τ : Task) (rest : List PendingPayout) :
    Outcome → Option (ContractId × Ending) × Actor
  | .ok =>
    match (perform s τ).2 with
    | some τ' => (none, .working τ' rest)
    | none => (τ.ending false, sweepRows rest)
  | .failed => (τ.ending true, sweepRows rest)
  | .lost =>
    match τ with
    | .markProcessing c _ _ _ => (some (c, .failed), sweepRows rest)
    | τ => (τ.ending true, sweepRows rest)

/-- The transition relation. -/
inductive Step (P : Provider π γ) (s : State π) : Action γ → State π → Prop
  | deliver {i : ℕ} {d : Delivery} : s.actors i = .idle →
      Step P s (.deliver i d) (s.setActor i d.start)
  | attempt {i : ℕ} {c : ContractId} {freelancerId : String} : s.actors i = .idle →
      (s.settlements c).status = .completed →
      Step P s (.attempt i c freelancerId)
        (s.setActor i ((attemptPayout c freelancerId).elim .idle (.working · [])))
  | sweep {i : ℕ} : s.actors i = .idle → Step P s (.sweep i) (s.setActor i (.working .sweep []))
  | select {i : ℕ} {o : Outcome} {rest : List PendingPayout} : s.actors i = .working .sweep rest →
      Step P s (.advance i o)
        (s.setActor i (if o = .ok then sweepRows (pendingPayouts s) else .idle))
  | work {i : ℕ} {o : Outcome} {τ : Task} {rest : List PendingPayout} :
      s.actors i = .working τ rest → τ ≠ .sweep → (∀ c x n y, τ ≠ .initiate c x n y) →
      Step P s (.advance i o)
        (((s.took o τ).end? (τ.exit s rest o).1).setActor i (τ.exit s rest o).2)
  | receive {i : ℕ} {o : Outcome} {r : Receipt} {d : Delivery} : s.actors i = .receiving r d →
      Step P s (.advance i o)
        ((if o = .failed then s else (receive s d r).1).setActor i <|
          if o = .ok then (receive s d r).2 else raised d r)
  | acknowledge {i : ℕ} {o : Outcome} {d : Delivery} : s.actors i = .acknowledging d →
      Step P s (.advance i o)
        (State.setActor { s with
          acknowledged := if o = .ok then d :: s.acknowledged else s.acknowledged } i .idle)
  | call {i : ℕ} {c : ContractId} {accountId currency : String} {amountMinor : ℕ}
      {rest : List PendingPayout} {causes : List γ} {error : Option String} {τ : Task} :
      s.actors i = .working (.initiate c accountId amountMinor currency) rest →
      (∃ message, τ = .markFailed c message) ∨ (∃ result, τ = .record c result) →
      Step P s (.call i causes error)
        (State.setActor { s with
          provider := (P.receive s.provider (request c accountId amountMinor currency) causes).1 }
          i (.working τ rest))
  | crash {i : ℕ} :
      Step P s (.crash i)
        ((s.end? ((s.actors i).counted.map (·, Ending.crashed))).setActor i .idle)
  | commit {c : ContractId} {p : PaymentId} :
      Step P s (.commit c p)
        (s.setRow c fun row => { row with status := .completed, transferId := some p })
  | setPayoutAccount {freelancerId : String} {accountId : Option String} :
      Step P s (.setPayoutAccount freelancerId accountId)
        { s with payoutAccounts := Function.update s.payoutAccounts freelancerId accountId }
  | evolve {cause : γ} : Step P s (.evolve cause) { s with provider := P.evolve s.provider cause }

theorem advance_cases (h : advance s i o = some t) : Step P s (.advance i o) t := by
  unfold advance at h
  split at h
  · cases h
  · cases h
  · next hi => cases h; exact .select hi
  · next o _ _ _ hi ho =>
    cases h
    have hstep := Step.select (P := P) (o := o) hi
    rwa [if_neg ho] at hstep
  · next τ _ hinit hsweep hi =>
    have hstep := Step.work (P := P) (o := .ok) hi hsweep hinit
    cases h
    rcases hp : perform s τ with ⟨s', _ | τ'⟩ <;>
      simpa [hp, State.took, Task.exit, State.end?] using hstep
  · next hinit hsweep hi => cases h; exact .work hi hsweep hinit
  · next τ _ hinit hsweep hi =>
    have hstep := Step.work (P := P) (o := .lost) hi hsweep hinit
    cases h
    cases τ <;> exact hstep
  · next hi => cases h; exact .receive hi
  · next hi => cases h; exact .receive hi
  · next hi => cases h; exact .receive hi
  · next hi => cases h; exact .acknowledge hi
  · next o _ _ _ hi ho =>
    cases h
    have hstep := Step.acknowledge (P := P) (o := o) hi
    rwa [if_neg ho] at hstep

theorem call_cases {causes : List γ} {error : Option String}
    (h : call P s i causes error = some t) : Step P s (.call i causes error) t := by
  unfold call at h
  split at h
  · next c accountId amountMinor currency rest hi =>
    dsimp only at h
    split at h
    · cases h; exact .call hi (.inl ⟨_, rfl⟩)
    · cases h; exact .call hi (.inl ⟨_, rfl⟩)
    · cases h; exact .call hi (.inr ⟨_, rfl⟩)
    · cases h
  · cases h

/-- What a step is; every later result about steps splits on this. -/
theorem step_cases (h : step P s a = some t) : Step P s a t := by
  cases a with
  | deliver i d =>
    simp only [step, Option.ite_none_right_eq_some, Option.some.injEq] at h
    obtain ⟨hi, rfl⟩ := h
    exact .deliver hi
  | attempt i c freelancerId =>
    simp only [step, Option.ite_none_right_eq_some, Option.some.injEq] at h
    obtain ⟨⟨hi, hc⟩, rfl⟩ := h
    exact .attempt hi hc
  | sweep i =>
    simp only [step, Option.ite_none_right_eq_some, Option.some.injEq] at h
    obtain ⟨hi, rfl⟩ := h
    exact .sweep hi
  | advance i o => exact advance_cases h
  | call i causes error => exact call_cases h
  | crash i =>
    cases h
    have hstep := Step.crash (P := P) (s := s) (i := i)
    cases hc : (s.actors i).counted <;> simpa [hc, State.end?] using hstep
  | commit c p =>
    simp only [step, Option.ite_none_left_eq_some, Option.some.injEq] at h
    obtain ⟨-, rfl⟩ := h
    exact .commit
  | setPayoutAccount freelancerId accountId => cases h; exact .setPayoutAccount
  | evolve cause => cases h; exact .evolve

/-! ## The actor of an action -/

def Action.actor : Action γ → Option ℕ
  | .deliver i _ | .attempt i _ _ | .sweep i | .advance i _ | .call i _ _ | .crash i => some i
  | .commit .. | .setPayoutAccount .. | .evolve _ => none

theorem step_actors_of_ne (hst : step P s a = some t) (hj : a.actor ≠ some j) :
    t.actors j = s.actors j := by
  have hne : ∀ {i}, some i ≠ some j → j ≠ i := fun h he => h (congrArg some he.symm)
  cases step_cases hst with
  | receive _ => split <;> simp [hne hj]
  | commit | setPayoutAccount | evolve => rfl
  | _ => simp [hne hj]

/-! ## Writes of the payout status -/

/-- The status that a worker's statement gives to the row of a contract. -/
def Task.sets : Task → Option (ContractId × PayoutState)
  | .markProcessing c _ _ _ => some (c, .processing)
  | .markFailed c _ => some (c, .failed)
  | .record c result => some (c, result.finalStatus)
  | .markTerminal c => some (c, .failedTerminal)
  | _ => none

theorem took_failed : s.took .failed τ = s := if_pos rfl

theorem took_of_ne (ho : o ≠ .failed) : s.took o τ = (perform s τ).1 := if_neg ho

theorem took_status_of_sets {status : PayoutState} (ho : o ≠ .failed)
    (hset : τ.sets = some (c, status)) :
    ((s.took o τ).settlements c).payoutStatus = status := by
  rw [took_of_ne ho]
  cases τ <;> cases hset
  case markTerminal =>
    simp only [perform, setRow_settlements, Function.update_self]
    split <;> [assumption; rfl]
  all_goals simp [perform]

theorem took_status_of_not_sets (hset : ∀ status, τ.sets ≠ some (c, status)) :
    ((s.took o τ).settlements c).payoutStatus = (s.settlements c).payoutStatus := by
  unfold State.took
  split
  · rfl
  · cases τ with
    | markProcessing c' | markFailed c' | record c' | markTerminal c' =>
      have hne : c ≠ c' := by rintro rfl; exact hset _ rfl
      simp [perform, hne]
    | _ => rfl

/-- The webhook reports the status to the row, in a statement that takes effect. -/
def Reports (s : State π) (a : Action γ) (c : ContractId) (d : Delivery) (status : PayoutState) :
    Prop :=
  ∃ i o p, a = .advance i o ∧ o ≠ .failed ∧ s.actors i = .receiving (.update p status) d ∧
    (s.settlements c).payoutId = some p

/-- A statement of a worker takes effect. -/
def Works (s : State π) (a : Action γ) (τ : Task) : Prop :=
  ∃ i o rest, a = .advance i o ∧ o ≠ .failed ∧ s.actors i = .working τ rest

theorem Works.actor (h : Works s a τ) (ha : a.actor = some i) :
    ∃ rest, s.actors i = .working τ rest := by
  obtain ⟨j, o, rest, rfl, -, hj⟩ := h
  cases ha
  exact ⟨rest, hj⟩

theorem Reports.actor {d : Delivery} {status : PayoutState} (h : Reports s a c d status)
    (ha : a.actor = some i) : ∃ p, s.actors i = .receiving (.update p status) d := by
  obtain ⟨j, o, p, rfl, -, hj, -⟩ := h
  cases ha
  exact ⟨p, hj⟩

/-- A payout status is kept, set by a worker, or reported by the webhook. -/
theorem step_status (hst : step P s a = some t) (c : ContractId) :
    (t.settlements c).payoutStatus = (s.settlements c).payoutStatus ∧ t.reports c = s.reports c ∨
      (∃ τ status, Works s a τ ∧ τ.sets = some (c, status) ∧
        (t.settlements c).payoutStatus = status ∧ t.reports c = s.reports c) ∨
      ∃ d status, Reports s a c d status ∧ (t.settlements c).payoutStatus = status ∧
        t.reports c = some status := by
  cases step_cases hst with
  | @work i o τ rest hi hsweep hinit =>
    by_cases h : o ≠ .failed ∧ ∃ status, τ.sets = some (c, status)
    · obtain ⟨ho, status, hset⟩ := h
      exact .inr <| .inl ⟨τ, status, ⟨i, o, rest, rfl, ho, hi⟩, hset,
        by simpa using took_status_of_sets ho hset, by simp⟩
    · refine .inl ⟨?_, by simp⟩
      rw [not_and_or, not_not, not_exists] at h
      rcases h with rfl | hset
      · simp [took_failed]
      · simpa using took_status_of_not_sets hset
  | @receive i o r d hi =>
    by_cases h : o ≠ .failed ∧ ∃ p status, r = .update p status ∧
        (s.settlements c).payoutId = some p
    · obtain ⟨ho, p, status, rfl, hp⟩ := h
      refine .inr <| .inr ⟨d, status, ⟨i, o, p, rfl, ho, hi, hp⟩, ?_, ?_⟩ <;>
        simp [receive, State.report, ho, hp]
    · refine .inl ?_
      by_cases ho : o = .failed
      · simp [ho]
      · by_cases hr : ∃ p status, r = .update p status
        · obtain ⟨p, status, rfl⟩ := hr
          have hp : (s.settlements c).payoutId ≠ some p := fun hp => h ⟨ho, p, status, rfl, hp⟩
          simp [receive, State.report, hp, ho]
        · obtain ⟨hrows, hreports⟩ := receive_rows (s := s) (d := d) (r := r)
            fun p status he => hr ⟨p, status, he⟩
          simp [ho, hrows, hreports]
  | @commit c' p =>
    refine .inl ⟨?_, rfl⟩
    by_cases hc : c = c' <;> simp [hc]
  | _ => exact .inl ⟨by simp, by simp⟩

theorem Works.status {status : PayoutState} (hw : Works s a τ) (hst : step P s a = some t)
    (hset : τ.sets = some (c, status)) : (t.settlements c).payoutStatus = status := by
  obtain ⟨i, o, rest, rfl, ho, hi⟩ := hw
  cases step_cases hst with
  | select hi' => cases hi.symm.trans hi'; cases hset
  | work hi' _ _ => cases hi.symm.trans hi'; simpa using took_status_of_sets ho hset
  | receive hi' => cases hi.symm.trans hi'
  | acknowledge hi' => cases hi.symm.trans hi'

theorem sets_failedTerminal (hset : τ.sets = some (c, .failedTerminal)) : τ = .markTerminal c := by
  cases τ with
  | record c' result =>
    rw [Task.sets, Option.some.injEq, Prod.mk.injEq] at hset
    have hfinal := hset.2
    unfold PayoutResult.finalStatus at hfinal
    split at hfinal <;> cases hfinal
  | markTerminal c' => cases hset; rfl
  | _ => cases hset

/-! ## The update that an event calls for -/

def Actor.Fits : Actor → Prop
  | .receiving (.update _ status) d => d.event.finalPayoutStatus = some status
  | _ => True

theorem sweepRows_cases (rows : List PendingPayout) :
    sweepRows rows = .idle ∨ (∃ c rest, sweepRows rows = .working (.markTerminal c) rest) ∨
      ∃ c freelancerId rest, sweepRows rows = .working (.selectAccount c freelancerId) rest := by
  induction rows with
  | nil => exact .inl rfl
  | cons row rest ih =>
    unfold sweepRows attemptPayout
    split
    · exact .inr (.inl ⟨_, _, rfl⟩)
    · split
      · next h =>
        rw [Option.ite_none_left_eq_some, Option.some.injEq] at h
        obtain ⟨-, rfl⟩ := h
        exact .inr (.inr ⟨_, _, _, rfl⟩)
      · exact ih

theorem sweepRows_fits (rows : List PendingPayout) : (sweepRows rows).Fits := by
  rcases sweepRows_cases rows with h | ⟨c, rest, h⟩ | ⟨c, freelancerId, rest, h⟩ <;>
    rw [h] <;> trivial

theorem exit_fits : (τ.exit s rest o).2.Fits := by
  cases o with
  | ok => simp only [Task.exit]; split <;> [trivial; exact sweepRows_fits rest]
  | failed => exact sweepRows_fits rest
  | lost => simp only [Task.exit]; split <;> exact sweepRows_fits rest

theorem gate_fits {d : Delivery} {p : PayoutId} {inserted : Bool} : (d.gate p inserted).Fits := by
  unfold Delivery.gate
  split
  · trivial
  · split <;> [assumption; trivial]

theorem receive_fits {d : Delivery} {r : Receipt} : (receive s d r).2.Fits := by
  cases r with
  | select p => simp only [receive]; split <;> trivial
  | dedupe p c => exact gate_fits
  | update p status => trivial

theorem raised_fits {d : Delivery} {r : Receipt} : (raised d r).Fits := by
  cases r <;> [trivial; exact gate_fits; trivial]

def Fits (s : State π) : Prop := ∀ i, (s.actors i).Fits

theorem Fits.setActor (h : Fits s) (hb : b.Fits) : Fits (s.setActor i b) := by
  intro j
  by_cases hj : j = i
  · simpa [hj] using hb
  · simpa [hj] using h j

theorem fits_initial (h : Initial P s) : Fits s := by
  intro i
  rw [h.2.2.2.2.2.2 i]
  trivial

theorem fits_step (h : Fits s) (hst : step P s a = some t) : Fits t := by
  have hof : ∀ {s' : State π}, s'.actors = s.actors → Fits s' := fun he i => he ▸ h i
  cases step_cases hst with
  | deliver _ => refine h.setActor ?_; unfold Delivery.start; split <;> trivial
  | attempt _ _ => refine h.setActor ?_; unfold attemptPayout; split <;> trivial
  | sweep _ => exact h.setActor trivial
  | select _ => refine h.setActor ?_; split <;> [exact sweepRows_fits _; trivial]
  | work _ _ _ => exact (hof (by simp)).setActor exit_fits
  | receive _ =>
    apply (hof (by split <;> simp)).setActor
    split <;> [exact receive_fits; exact raised_fits]
  | acknowledge _ => exact Fits.setActor (hof rfl) trivial
  | call _ _ => exact Fits.setActor (hof rfl) trivial
  | crash => exact (hof (by simp)).setActor trivial
  | _ => exact hof rfl

theorem Reports.event {d : Delivery} {status : PayoutState} (h : Reports s a c d status)
    (hf : Fits s) : d.event.finalPayoutStatus = some status := by
  obtain ⟨i, -, p, -, -, hi, -⟩ := h
  have hfit := hf i
  rwa [hi] at hfit

/-! ## A contract to pay -/

/-- One contract, whose freelancer has a payout account and whose payment holds an amount. -/
def payable (P : Provider π γ) : State π where
  contracts := [0]
  freelancers _ := "user"
  payoutAccounts _ := some "fa_1"
  escrow _ := some (50000, "INR")
  provider := P.init

theorem initial_payable (P : Provider π γ) : Initial P (payable P) :=
  ⟨fun _ => ⟨rfl, rfl, rfl⟩, rfl, rfl, fun _ _ => rfl, fun _ => rfl, rfl, fun _ => rfl⟩

/-- The handler with this number performs its next statements, which succeed. -/
def advances (i n : ℕ) : List (Action γ) := List.replicate n (.advance i .ok)

end AssureCode.Payout
