import AssureCode.Payout.Steps

/-! # The outcome of a payout

The webhook looks for the payout id that `attemptPayout` stores last, and drops an event whose
payout it does not find. No write of the worker asks what the row says by then, so that an outcome
may be lost, and one that has arrived overwritten.
-/

namespace AssureCode.Payout

open Machine
open AssureCode.Settlement (Outcome)

variable {π γ : Type} {P : Provider π γ} {s t : State π} {a : Action γ} {as : List (Action γ)}
  {i j : ℕ} {o : Outcome} {τ : Task} {rest : List PendingPayout} {c : ContractId}

/-- The contract that a call of `attemptPayout` is about. -/
def Task.contract : Task → Option ContractId
  | .selectAccount c _ | .selectTransfer c _ | .selectAmount c _ _ | .markProcessing c _ _ _
  | .initiate c _ _ _ | .markFailed c _ | .record c _ => some c
  | .sweep | .markTerminal _ => none

def Actor.contract : Actor → Option ContractId
  | .working τ _ => τ.contract
  | _ => none

/-- A call of `attemptPayout` for the contract has not returned. -/
def Running (s : State π) (c : ContractId) : Prop := ∃ i, (s.actors i).contract = some c

/-- A webhook that reports the payout of the contract as processed has been acknowledged. -/
def Reported (s : State π) (c : ContractId) : Prop :=
  ∃ d ∈ s.acknowledged, d.event = .processed ∧ d.contractId = c

/-- The row says `COMPLETED`, or a failure is the last that the webhook has written to it. -/
def Settled (s : State π) (c : ContractId) : Prop :=
  (s.settlements c).payoutStatus = .completed ∨ s.reports c = some .failed

/-- No outcome is lost. -/
def Honoured (s : State π) : Prop := ∀ c, Reported s c → ¬ Running s c → Settled s c

/-- No outcome regresses, unless the webhook reports a failure. -/
def Stands (s : State π) (a : Action γ) (t : State π) : Prop :=
  ∀ c, (s.settlements c).payoutStatus = .completed →
    (t.settlements c).payoutStatus = .completed ∨
      ∃ d, Reports s a c d .failed ∧
        (d.event = .failed ∨ d.event = .reversed ∨ d.event = .rejected)

/-! ## The condition -/

/-- The step ends the actor's call of `attemptPayout` for the contract. -/
def Leaves (s : State π) (a : Action γ) (i : ℕ) (c : ContractId) : Prop :=
  (s.actors i).contract = some c ∧
    (a = .crash i ∨ ∃ o τ rest, a = .advance i o ∧ s.actors i = .working τ rest ∧
      (τ.exit s rest o).2.contract ≠ some c)

structure KeepsOutcome (s : State π) (a : Action γ) : Prop where
  /-- No statement of a worker gives another status to a row that says `COMPLETED`. -/
  guards : ∀ τ c status, Works s a τ → τ.sets = some (c, status) → status ≠ .completed →
    (s.settlements c).payoutStatus ≠ .completed
  /-- A processed payout is acknowledged when the row says so or an attempt is running. -/
  acknowledges : ∀ i d, a = .advance i .ok → s.actors i = .acknowledging d →
    d.event = .processed → Running s d.contractId ∨ Settled s d.contractId
  /-- After such an acknowledgement the last attempt stores a processed payout. -/
  records : ∀ i c, Leaves s a i c → Reported s c → Settled s c ∨
    (∃ j, j ≠ i ∧ (s.actors j).contract = some c) ∨
      ∃ result, Works s a (.record c result) ∧ result.status = .processed

/-! ## One step -/

theorem finalStatus_completed {result : PayoutResult} :
    result.finalStatus = .completed ↔ result.status = .processed := by
  unfold PayoutResult.finalStatus
  cases result.status <;> simp

/-- A worker completes the row with an answer that says so. -/
theorem sets_completed (hset : τ.sets = some (c, .completed)) :
    ∃ result, τ = .record c result ∧ result.status = .processed := by
  cases τ with
  | record c' result =>
    rw [Task.sets, Option.some.injEq, Prod.mk.injEq] at hset
    obtain ⟨rfl, hfinal⟩ := hset
    exact ⟨result, rfl, finalStatus_completed.mp hfinal⟩
  | _ => cases hset

theorem finalPayoutStatus_failed {event : EventType} (h : event.finalPayoutStatus = some .failed) :
    event = .failed ∨ event = .reversed ∨ event = .rejected := by
  cases event <;> simp_all [EventType.finalPayoutStatus]

theorem Works.not_reports {d : Delivery} {status : PayoutState} (hw : Works s a τ) :
    ¬ Reports s a c d status := by
  rintro ⟨i, o, p, rfl, -, hi, -⟩
  obtain ⟨rest, hi'⟩ := hw.actor rfl
  cases hi.symm.trans hi'

/-- A webhook's update either completes the row or reports a failure. -/
theorem Reports.cases {d : Delivery} {status : PayoutState} (h : Reports s a c d status)
    (hf : Fits s) : status = .completed ∨ status = .failed := by
  have hevent := h.event hf
  unfold EventType.finalPayoutStatus at hevent
  split at hevent
  · cases hevent; exact .inl rfl
  · cases hevent; exact .inr rfl
  · cases hevent; exact .inr rfl
  · cases hevent; exact .inr rfl
  · cases hevent

theorem stands_of_guards (hf : Fits s) (hst : step P s a = some t)
    (hk : ∀ τ c status, Works s a τ → τ.sets = some (c, status) → status ≠ .completed →
      (s.settlements c).payoutStatus ≠ .completed) : Stands s a t := by
  intro c hc
  rcases step_status hst c with ⟨hkept, -⟩ | ⟨τ, status, hw, hset, hstatus, -⟩ |
    ⟨d, status, hreport, hstatus, -⟩
  · exact .inl (hkept.trans hc)
  · by_cases hcompleted : status = .completed
    · exact .inl (hstatus.trans hcompleted)
    · exact absurd hc (hk τ c status hw hset hcompleted)
  · rcases hreport.cases hf with rfl | rfl
    · exact .inl hstatus
    · exact .inr ⟨d, hreport, finalPayoutStatus_failed (hreport.event hf)⟩

theorem settled_step (h : Settled s c) (hf : Fits s) (hst : step P s a = some t)
    (hstands : Stands s a t) : Settled t c := by
  rcases step_status hst c with ⟨hkept, hreports⟩ | ⟨τ, status, hw, hset, hstatus, hreports⟩ |
    ⟨d, status, hreport, hstatus, hreports⟩
  · exact h.imp hkept.trans hreports.trans
  · rcases h with h | h
    · rcases hstands c h with ht | ⟨d, hreport, -⟩
      · exact .inl ht
      · exact absurd hreport hw.not_reports
    · exact .inr (hreports.trans h)
  · rcases hreport.cases hf with rfl | rfl
    · exact .inl hstatus
    · exact .inr hreports

/-- A row that is settled after a step was so before, or an attempt or a webhook completes it. -/
theorem settled_of_step (h : Settled t c) (hst : step P s a = some t) :
    Settled s c ∨ (∃ result, Works s a (.record c result) ∧ result.status = .processed) ∨
      ∃ d status, Reports s a c d status := by
  rcases step_status hst c with ⟨hkept, hreports⟩ | ⟨τ, status, hw, hset, hstatus, hreports⟩ |
    ⟨d, status, hreport, -, -⟩
  · exact .inl (h.imp hkept.symm.trans hreports.symm.trans)
  · rcases h with h | h
    · cases hstatus.symm.trans h
      obtain ⟨result, rfl, hresult⟩ := sets_completed hset
      exact .inr (.inl ⟨result, hw, hresult⟩)
    · exact .inl (.inr (hreports.symm.trans h))
  · exact .inr (.inr ⟨d, status, hreport⟩)

/-- An attempt that runs goes on, or the step ends it. -/
theorem running_or_leaves (hi : (s.actors i).contract = some c) (hst : step P s a = some t) :
    (t.actors i).contract = some c ∨ Leaves s a i c := by
  by_cases ha : a.actor = some i
  · cases step_cases hst with
    | deliver hi' | attempt hi' _ | sweep hi' | select hi' | receive hi' | acknowledge hi' =>
      cases ha
      rw [hi'] at hi
      cases hi
    | work hi' _ _ =>
      cases ha
      rw [or_iff_not_imp_left]
      intro hexit
      rw [setActor_self] at hexit
      exact ⟨hi, .inr ⟨_, _, _, rfl, hi', hexit⟩⟩
    | call hi' hτ =>
      cases ha
      rw [hi'] at hi
      rw [setActor_self]
      rcases hτ with ⟨message, rfl⟩ | ⟨result, rfl⟩ <;> exact .inl hi
    | crash => cases ha; exact .inr ⟨hi, .inl rfl⟩
    | commit | setPayoutAccount | evolve => cases ha
  · rw [step_actors_of_ne hst ha]
    exact .inl hi

theorem Leaves.actor (h : Leaves s a i c) : a.actor = some i := by
  obtain ⟨-, rfl | ⟨o, τ, rest, rfl, -, -⟩⟩ := h <;> rfl

theorem Leaves.not_reports {d : Delivery} {status : PayoutState} (h : Leaves s a i c) :
    ¬ Reports s a c d status := by
  intro hreport
  obtain ⟨p, hi⟩ := hreport.actor h.actor
  have hcontract := h.1
  rw [hi] at hcontract
  cases hcontract

theorem Leaves.contract_ne (h : Leaves s a i c) (hst : step P s a = some t) :
    (t.actors i).contract ≠ some c := by
  obtain ⟨hi, rfl | ⟨o, τ, rest, rfl, hτ, hexit⟩⟩ := h
  · cases step_cases hst with
    | crash => rw [setActor_self]; rintro ⟨⟩
  · cases step_cases hst with
    | select hi' => rw [hi'] at hi; cases hi
    | work hi' _ _ =>
      cases hτ.symm.trans hi'
      rwa [setActor_self]
    | receive hi' => cases hτ.symm.trans hi'
    | acknowledge hi' => cases hτ.symm.trans hi'

theorem acknowledged_step (hst : step P s a = some t) :
    t.acknowledged = s.acknowledged ∨ ∃ i d, a = .advance i .ok ∧ s.actors i = .acknowledging d ∧
      t.acknowledged = d :: s.acknowledged := by
  cases step_cases hst with
  | @acknowledge i o d hi =>
    by_cases ho : o = .ok
    · subst ho
      exact .inr ⟨i, d, rfl, hi, by simp⟩
    · exact .inl (by simp [ho])
  | receive _ => left; split <;> simp
  | _ => left; simp

theorem reported_mono (h : Reported s c) (hst : step P s a = some t) : Reported t c := by
  obtain ⟨d, hd, hevent⟩ := h
  rcases acknowledged_step hst with heq | ⟨_, _, _, _, heq⟩
  · exact ⟨d, heq ▸ hd, hevent⟩
  · exact ⟨d, heq ▸ List.mem_cons_of_mem _ hd, hevent⟩

/-- An attempt of an actor that does not move runs on. -/
theorem running_of_ne (hi : (s.actors i).contract = some c) (hst : step P s a = some t)
    (ha : a.actor ≠ some i) : Running t c :=
  ⟨i, by rwa [step_actors_of_ne hst ha]⟩

theorem honoured_step (hf : Fits s) (hs : Honoured s) (hst : step P s a = some t)
    (hk : KeepsOutcome s a) (hstands : Stands s a t) : Honoured t := by
  intro c hreported hrunning
  have hkeep : Settled s c → Settled t c := fun h => settled_step h hf hst hstands
  have hold : Reported s c → Settled t c := by
    intro hreported
    by_cases hrun : Running s c
    · obtain ⟨i, hi⟩ := hrun
      rcases running_or_leaves hi hst with hi' | hleaves
      · exact absurd ⟨i, hi'⟩ hrunning
      · rcases hk.records i c hleaves hreported with hsettled | ⟨j, hne, hj⟩ | ⟨result, hw, hresult⟩
        · exact hkeep hsettled
        · refine absurd (running_of_ne hj hst fun ha => ?_) hrunning
          exact hne (Option.some.inj (ha.symm.trans hleaves.actor))
        · exact .inl (hw.status hst (by rw [Task.sets, finalStatus_completed.mpr hresult]))
    · exact hkeep (hs c hreported hrun)
  rcases acknowledged_step hst with heq | ⟨i, d, rfl, hi, heq⟩
  · exact hold (by rwa [Reported, heq] at hreported)
  · obtain ⟨d', hd', hevent, rfl⟩ := hreported
    rw [heq] at hd'
    rcases List.mem_cons.mp hd' with rfl | hd'
    · rcases hk.acknowledges i d' rfl hi hevent with ⟨j, hj⟩ | hsettled
      · refine absurd (running_of_ne hj hst fun ha => ?_) hrunning
        cases ha
        rw [hi] at hj
        cases hj
      · exact hkeep hsettled
    · exact hold ⟨d', hd', hevent, rfl⟩

theorem keepsOutcome_of_step (hst : step P s a = some t) (ht : Honoured t)
    (hstands : Stands s a t) : KeepsOutcome s a := by
  have hback : ∀ {i c}, a.actor = some i → (t.actors i).contract ≠ some c → Running t c →
      ∃ j, j ≠ i ∧ (s.actors j).contract = some c := by
    rintro i c ha hi ⟨j, hj⟩
    have hne : j ≠ i := by rintro rfl; exact hi hj
    refine ⟨j, hne, ?_⟩
    rwa [step_actors_of_ne hst fun h => hne (Option.some.inj (h.symm.trans ha))] at hj
  constructor
  case guards =>
    intro τ c status hw hset hstatus hc
    rcases hstands c hc with hc' | ⟨d, hreport, -⟩
    · exact hstatus ((hw.status hst hset).symm.trans hc')
    · exact hw.not_reports hreport
  case acknowledges =>
    rintro i d rfl hi hevent
    have hidle : t.actors i = .idle ∧ t.acknowledged = d :: s.acknowledged := by
      cases step_cases hst with
      | select hi' => cases hi.symm.trans hi'
      | work hi' => cases hi.symm.trans hi'
      | receive hi' => cases hi.symm.trans hi'
      | acknowledge hi' => cases hi.symm.trans hi'; simp
    by_cases hrun : Running t d.contractId
    · obtain ⟨j, -, hj⟩ := hback rfl (by rw [hidle.1]; rintro ⟨⟩) hrun
      exact .inl ⟨j, hj⟩
    · have hreported : Reported t d.contractId := ⟨d, by simp [hidle.2], hevent, rfl⟩
      rcases settled_of_step (ht _ hreported hrun) hst with h | ⟨result, hw, -⟩ | ⟨d', status, h⟩
      · exact .inr h
      · obtain ⟨rest, hi'⟩ := hw.actor rfl
        cases hi.symm.trans hi'
      · obtain ⟨p, hi'⟩ := h.actor rfl
        cases hi.symm.trans hi'
  case records =>
    intro i c hleaves hreported
    have hmoved : Running t c → ∃ j, j ≠ i ∧ (s.actors j).contract = some c :=
      hback hleaves.actor (hleaves.contract_ne hst)
    by_cases hrun : Running t c
    · exact .inr (.inl (hmoved hrun))
    · have hsettled : Settled t c := ht c (reported_mono hreported hst) hrun
      rcases settled_of_step hsettled hst with h | h | ⟨d, status, h⟩
      · exact .inl h
      · exact .inr (.inr h)
      · exact absurd h hleaves.not_reports

/-! ## Runs -/

theorem outcome_iff (h0 : Initial P s) (h : (system P).Run Any s as t) :
    ((∀ u ∈ (system P).visited s as, Honoured u) ∧
        ∀ x ∈ (system P).steps s as, Stands x.1 x.2.1 x.2.2) ↔
      (system P).Run KeepsOutcome s as t := by
  have hhonoured : Honoured s := by
    rintro c ⟨d, hd, -⟩
    rw [h0.2.2.2.2.2.1] at hd
    cases hd
  refine h.forall_iff (I := Fits) (fun _ _ _ hf hst => fits_step hf hst) ?_ (fits_initial h0)
    hhonoured
  intro s a t hf hs hst
  constructor
  · intro hk
    have hstands : Stands s a t := stands_of_guards hf hst hk.guards
    exact ⟨honoured_step hf hs hst hk hstands, hstands⟩
  · rintro ⟨ht, hstands⟩
    exact keepsOutcome_of_step hst ht hstands

/-- The payout is processed while the worker still holds the answer that it is in progress. -/
def processedBeforeRecord : List (Action Unit) :=
  .commit 0 7 :: .attempt 0 0 "user" :: advances 0 4 ++
    [.call 0 [()] none, .deliver 1 ⟨some 3, .processed, some 1, 0, 50000, none⟩] ++
    advances 1 2 ++ advances 0 1

theorem outcome_processedBeforeRecord :
    ∃ t, (system slowProvider).exec (payable slowProvider) processedBeforeRecord = some t ∧
      (((∀ u ∈ (system slowProvider).visited (payable slowProvider) processedBeforeRecord,
            Honoured u) ∧
          ∀ x ∈ (system slowProvider).steps (payable slowProvider) processedBeforeRecord,
            Stands x.1 x.2.1 x.2.2) ↔
        (system slowProvider).Run KeepsOutcome (payable slowProvider) processedBeforeRecord t) := by
  have h : ((system slowProvider).exec (payable slowProvider) processedBeforeRecord).isSome := by
    decide +kernel
  obtain ⟨t, ht⟩ := Option.isSome_iff_exists.mp h
  exact ⟨t, ht, outcome_iff (initial_payable _) (run_of_exec ht)⟩

/-- The webhook is acknowledged, the attempt is over, and the row says `PROCESSING`. -/
theorem outcome_lost :
    ¬ ∀ (P : Provider Unit Unit) s₀ as t, Initial P s₀ → (system P).Run Any s₀ as t →
      (∀ u ∈ (system P).visited s₀ as, Honoured u) ∧
        ∀ x ∈ (system P).steps s₀ as, Stands x.1 x.2.1 x.2.2 := by
  intro hall
  obtain ⟨t, ht, hidle⟩ :
      ∃ t, (system slowProvider).exec (payable slowProvider) processedBeforeRecord = some t ∧
        ∀ i, t.actors i = .idle := ⟨_, rfl, fun i => by rcases i with _ | _ | i <;> rfl⟩
  have hlost : ((system slowProvider).exec (payable slowProvider) processedBeforeRecord).any
      fun t => (∃ d ∈ t.acknowledged, d.event = .processed ∧ d.contractId = 0) ∧
        (t.settlements 0).payoutStatus ≠ .completed ∧ t.reports 0 ≠ some .failed := by
    decide +kernel
  rw [ht, Option.any_some, decide_eq_true_eq] at hlost
  obtain ⟨hreported, hrow, hfailed⟩ := hlost
  have hhonoured := (hall slowProvider _ _ t (initial_payable _) (run_of_exec ht)).1 t
    (run_of_exec ht).mem_visited
  have hrunning : ¬ Running t 0 := by
    rintro ⟨i, hi⟩
    rw [hidle i] at hi
    cases hi
  rcases hhonoured 0 hreported hrunning with h | h
  · exact hrow h
  · exact hfailed h

end AssureCode.Payout
