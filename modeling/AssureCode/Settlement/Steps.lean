import AssureCode.Settlement.Model

/-! # What one step of the settlement can do

Inversion of the step function. An action of the environment leaves the
settlement, the ledger, the provider and the bus alone; an operation of a
handler touches the shared state in the way its own lemma says, and moves no
handler but its own.
-/

namespace AssureCode.Settlement

open Oracle

variable {s s' t : State} {i j : ℕ} {a a' : Actor} {o : Outcome}

section SetActor

@[simp] theorem setActor_self : (s.setActor i a).actors i = a := by
  simp [State.setActor]

theorem setActor_ne (h : j ≠ i) : (s.setActor i a).actors j = s.actors j := by
  simp [State.setActor, h]

@[simp] theorem setActor_settlement : (s.setActor i a).settlement = s.settlement := rfl
@[simp] theorem setActor_escrow : (s.setActor i a).escrow = s.escrow := rfl
@[simp] theorem setActor_captured : (s.setActor i a).captured = s.captured := rfl
@[simp] theorem setActor_oracleState : (s.setActor i a).oracleState = s.oracleState := rfl
@[simp] theorem setActor_scopeChecks : (s.setActor i a).scopeChecks = s.scopeChecks := rfl

end SetActor

/-- The branches of `perform`, one rule each. -/
inductive Performs (s : State) : Actor → State → Actor → Prop
  | approve_live {event : SettlementRequested} :
      (evaluate s.oracleState s.scopeChecks).approved = true →
      Performs s (.evaluating (some event)) s
        (.claiming event (evaluate s.oracleState s.scopeChecks).signals)
  | approve_recovery : (evaluate s.oracleState s.scopeChecks).approved = true →
      Performs s (.evaluating none) s (.reading (evaluate s.oracleState s.scopeChecks).signals)
  | reject {event : SettlementRequested} :
      (evaluate s.oracleState s.scopeChecks).approved = false →
      Performs s (.evaluating (some event)) s .rejecting
  | abandon : (evaluate s.oracleState s.scopeChecks).approved = false →
      Performs s (.evaluating none) s .idle
  | claim {event : SettlementRequested} {signals : OracleSignals} {row : SettlementRow} :
      claimSettlement s.settlement = some row →
      Performs s (.claiming event signals) { s with settlement := some row }
        (.selecting (.live event) signals)
  | claimed {event : SettlementRequested} {signals : OracleSignals} :
      claimSettlement s.settlement = none → Performs s (.claiming event signals) s .idle
  | read {signals : OracleSignals} :
      Performs s (.reading signals) s (.selecting (.recovery (s.freelancerId.getD "")) signals)
  | select {r : Origin} {signals : OracleSignals} {held : EscrowPayment} :
      findEscrowPayment s.escrow = some held →
      Performs s (.selecting r signals) s (.capturing r signals held)
  | nothing_live {event : SettlementRequested} {signals : OracleSignals} :
      findEscrowPayment s.escrow = none → Performs s (.selecting (.live event) signals) s .failing
  | nothing_recovery {freelancerId : String} {signals : OracleSignals} :
      findEscrowPayment s.escrow = none →
      Performs s (.selecting (.recovery freelancerId) signals) s .idle
  | capture {r : Origin} {signals : OracleSignals} {held : EscrowPayment} :
      Performs s (.capturing r signals held) { s with captured := held :: s.captured }
        (.committing r signals held)
  | refetch {freelancerId : String} {signals : OracleSignals} {held : EscrowPayment} :
      held.paymentId ∈ s.captured.map (·.paymentId) →
      Performs s (.refetching freelancerId signals held) s
        (.committing (.recovery freelancerId) signals held)
  | rethrow {freelancerId : String} {signals : OracleSignals} {held : EscrowPayment} :
      held.paymentId ∉ s.captured.map (·.paymentId) →
      Performs s (.refetching freelancerId signals held) s .idle
  | commit {r : Origin} {signals : OracleSignals} {held : EscrowPayment} :
      Performs s (.committing r signals held)
        (commitSettlement s (settlementPayload r signals held))
        (.publishing r (settlementPayload r signals held))
  | rollback_live {event : SettlementRequested} :
      Performs s (.rollingBack (.live event)) (markSettlementFailed s) .failing
  | rollback_recovery {freelancerId : String} :
      Performs s (.rollingBack (.recovery freelancerId)) (markSettlementFailed s) .idle
  | publish {r : Origin} {payload : SettlementPayload} :
      Performs s (.publishing r payload) { s with completed := payload :: s.completed }
        (.sealing payload.freelancerId)
  | seal_root {freelancerId : String} : Performs s (.sealing freelancerId) s (.paying freelancerId)
  | pay {freelancerId : String} :
      Performs s (.paying freelancerId)
        { s with payouts := (payoutRequest s freelancerId).toList ++ s.payouts } .idle
  | fail : Performs s .failing (markSettlementFailed s) .rejecting
  | reply : Performs s .rejecting s .idle

theorem perform_rule (h : perform s a = some (s', a')) : Performs s a s' a' := by
  cases a with
  | idle => cases h
  | evaluating event =>
    simp only [perform] at h
    split at h
    · cases event with
      | none => cases h; exact .approve_recovery ‹_›
      | some e => cases h; exact .approve_live ‹_›
    · have hn := Bool.eq_false_iff.mpr ‹¬ _›
      cases event with
      | none => cases h; exact .abandon hn
      | some e => cases h; exact .reject hn
  | claiming event signals =>
    simp only [perform] at h
    split at h
    · cases h; exact .claim ‹_›
    · cases h; exact .claimed ‹_›
  | reading signals => cases h; exact .read
  | selecting r signals =>
    simp only [perform] at h
    split at h
    · cases h; exact .select ‹_›
    · cases h; exact .nothing_live ‹_›
    · cases h; exact .nothing_recovery ‹_›
  | capturing r signals held => cases h; exact .capture
  | refetching freelancerId signals held =>
    by_cases hc : held.paymentId ∈ s.captured.map (·.paymentId)
    · simp only [perform, if_pos hc] at h
      cases h; exact .refetch hc
    · simp only [perform, if_neg hc] at h
      cases h; exact .rethrow hc
  | committing r signals held => cases h; exact .commit
  | rollingBack r =>
    cases r with
    | live event => cases h; exact .rollback_live
    | recovery freelancerId => cases h; exact .rollback_recovery
  | publishing r payload => cases h; exact .publish
  | sealing freelancerId => cases h; exact .seal_root
  | paying freelancerId => cases h; exact .pay
  | failing => cases h; exact .fail
  | rejecting => cases h; exact .reply

/-- Where an exception can take a handler; only three of the ways remember what it held. -/
inductive Raises : Actor → Actor → Prop
  | stop (b : Actor) : Raises b .idle
  | reject (b : Actor) : Raises b .rejecting
  | fail (b : Actor) : Raises b .failing
  | refetch {freelancerId : String} {signals : OracleSignals} {held : EscrowPayment} :
      Raises (.capturing (.recovery freelancerId) signals held)
        (.refetching freelancerId signals held)
  | rollback {r : Origin} {signals : OracleSignals} {held : EscrowPayment} :
      Raises (.committing r signals held) (.rollingBack r)
  | pay {freelancerId : String} : Raises (.sealing freelancerId) (.paying freelancerId)

theorem raises_raise (a : Actor) : Raises a (raise a) := by
  cases a with
  | evaluating event => cases event <;> first | exact .stop _ | exact .reject _
  | selecting r _ | rollingBack r | publishing r _ =>
    cases r <;> first | exact .stop _ | exact .fail _
  | capturing r _ _ => cases r <;> first | exact .fail _ | exact .refetch
  | committing => exact .rollback
  | sealing => exact .pay
  | failing => exact .reject _
  | _ => exact .stop _

/-- An operation works on the shared state only; the handlers stay where they are. -/
theorem Performs.actors (h : Performs s a s' a') : s'.actors = s.actors := by
  cases h <;> rfl

/-- A step of a handler is its operation or its exception, and where the `catch` takes it. -/
theorem advance_cases (h : advance s i o = some t) :
    (o = .failed ∧ s.actors i ≠ .idle ∧ t = s.setActor i (raise (s.actors i))) ∨
      ∃ s' a', Performs s (s.actors i) s' a' ∧
        ((o = .ok ∧ t = s'.setActor i a') ∨
          (o = .lost ∧ t = s'.setActor i (raise (s.actors i)))) := by
  cases o with
  | failed =>
    simp only [advance] at h
    split at h
    · cases h
    · exact .inl ⟨rfl, ‹_›, by simpa using h.symm⟩
  | ok =>
    obtain ⟨⟨s', a'⟩, hp, rfl⟩ := Option.map_eq_some_iff.mp h
    exact .inr ⟨s', a', perform_rule hp, .inl ⟨rfl, rfl⟩⟩
  | lost =>
    obtain ⟨⟨s', a'⟩, hp, rfl⟩ := Option.map_eq_some_iff.mp h
    exact .inr ⟨s', a', perform_rule hp, .inr ⟨rfl, rfl⟩⟩

/-- The frame of a step: a handler that the action does not name stays where it is. -/
theorem advance_actors_ne (h : advance s i o = some t) (hj : j ≠ i) : t.actors j = s.actors j := by
  rcases advance_cases h with ⟨-, -, rfl⟩ | ⟨s', a', hp, ⟨-, rfl⟩ | ⟨-, rfl⟩⟩
  · exact setActor_ne hj
  · rw [setActor_ne hj, hp.actors]
  · rw [setActor_ne hj, hp.actors]

/-- The operations whose statement is `markSettlementFailed`. -/
def Actor.marksFailed : Actor → Bool
  | .rollingBack _ | .failing => true
  | _ => false

def Actor.commits : Actor → Option SettlementPayload
  | .committing r signals held => some (settlementPayload r signals held)
  | _ => none

/-- `deliveries` of a freelancer; an absent profile has delivered nothing. -/
def State.deliveries (s : State) (freelancerId : String) : ℕ :=
  (s.profiles freelancerId).elim 0 (·.deliveries)

/-- The settlement, its ledger entry, its event and its credit are as they were. -/
structure SameRecords (s t : State) : Prop where
  settlement : t.settlement = s.settlement
  ledger : t.ledger = s.ledger
  completed : t.completed = s.completed
  deliveries : t.deliveries = s.deliveries

theorem SameRecords.trans {r : State} (h : SameRecords r s) (h' : SameRecords s t) :
    SameRecords r t where
  settlement := h'.settlement.trans h.settlement
  ledger := h'.ledger.trans h.ledger
  completed := h'.completed.trans h.completed
  deliveries := h'.deliveries.trans h.deliveries

/-- What every action of the environment leaves alone. -/
structure Undisturbed (s t : State) : Prop extends SameRecords s t where
  captured : t.captured = s.captured
  actors : t.actors = s.actors
  requested : s.requested ⊆ t.requested
  routed : ∀ e ∈ t.requested, e ∈ s.requested ∨
    ∃ body settled, (settleRoute body settled).2 = some e

/-- What an operation does to the records of the settlement. -/
theorem Performs.records (h : Performs s a s' a') :
    SameRecords s s' ∨
      (a.marksFailed = true ∧ s' = markSettlementFailed s) ∨
      (∃ p, a.commits = some p ∧ s' = commitSettlement s p) ∨
      (∃ r p, a = .publishing r p ∧ s' = { s with completed := p :: s.completed }) ∨
      ∃ event signals row, a = .claiming event signals ∧
        claimSettlement s.settlement = some row ∧ s' = { s with settlement := some row } := by
  cases h with
  | claim hc => exact .inr <| .inr <| .inr <| .inr ⟨_, _, _, rfl, hc, rfl⟩
  | commit => exact .inr <| .inr <| .inl ⟨_, rfl, rfl⟩
  | publish => exact .inr <| .inr <| .inr <| .inl ⟨_, _, rfl, rfl⟩
  | rollback_live | rollback_recovery | fail => exact .inr <| .inl ⟨rfl, rfl⟩
  | _ => exact .inl ⟨rfl, rfl, rfl, rfl⟩

theorem deliveries_update (profiles : String → Option Profile) {f : String} {p : Option Profile}
    (h : p.elim 0 (·.deliveries) = (profiles f).elim 0 (·.deliveries)) :
    (fun g => (Function.update profiles f p g).elim 0 (·.deliveries)) =
      fun g => (profiles g).elim 0 (·.deliveries) := by
  funext g
  rcases eq_or_ne g f with rfl | hne
  · simpa using h
  · simp [hne]

theorem deliveries_creditProfile (profiles : String → Option Profile) (f g : String)
    (trustScore : Option TrustScore) :
    (creditProfile profiles f trustScore g).elim 0 (·.deliveries) ≤
      (profiles g).elim 0 (·.deliveries) + if g = f then 1 else 0 := by
  cases trustScore with
  | none => exact Nat.le_add_right _ _
  | some t =>
    by_cases hf : f = ""
    · simp [creditProfile, hf]
    · rcases eq_or_ne g f with rfl | hne
      · cases hp : profiles g <;> simp [creditProfile, hf, hp]
      · simp [creditProfile, hf, hne]

theorem deliveries_commitSettlement (p : SettlementPayload) (g : String) :
    (commitSettlement s p).deliveries g ≤ s.deliveries g + if g = p.freelancerId then 1 else 0 :=
  deliveries_creditProfile s.profiles p.freelancerId g p.trustScore

/-- A step is an operation, the start of a handler, a crash, or an action of the environment. -/
theorem step_cases {act : Action} (h : step s act = some t) :
    (∃ i o, act = .advance i o ∧ advance s i o = some t) ∨
      (∃ i event, act = .deliver i event ∧ s.actors i = .idle ∧ event ∈ s.requested ∧
        t = s.setActor i (.evaluating (some event))) ∨
      (∃ i, act = .sweep i ∧ s.actors i = .idle ∧ s.status = some .processing ∧
        t = s.setActor i (.evaluating none)) ∨
      (∃ i, act = .crash i ∧ t = s.setActor i .idle) ∨
      (Undisturbed s t ∧ ∀ i, act ≠ .sweep i ∧ ∀ o, act ≠ .advance i o) := by
  cases act with
  | advance i o => exact .inl ⟨i, o, rfl, h⟩
  | deliver i event =>
    simp only [step, Option.ite_none_right_eq_some, Option.some.injEq] at h
    exact .inr <| .inl ⟨i, event, rfl, h.1.1, h.1.2, h.2.symm⟩
  | sweep i =>
    simp only [step, Option.ite_none_right_eq_some, Option.some.injEq] at h
    exact .inr <| .inr <| .inl ⟨i, rfl, h.1.1, h.1.2, h.2.symm⟩
  | crash i =>
    cases h
    exact .inr <| .inr <| .inr <| .inl ⟨i, rfl, rfl⟩
  | settle body =>
    obtain ⟨event, he, rfl⟩ := Option.map_eq_some_iff.mp h
    have hroute : ∀ e ∈ event :: s.requested, e ∈ s.requested ∨
        ∃ body settled, (settleRoute body settled).2 = some e := by
      rintro e (_ | ⟨_, hmem⟩)
      · exact .inr ⟨_, _, he⟩
      · exact .inl hmem
    exact .inr <| .inr <| .inr <| .inr
      ⟨⟨⟨rfl, rfl, rfl, rfl⟩, rfl, rfl, List.subset_cons_self _ _, hroute⟩, by simp⟩
  | createOrder orderId amountCents currency =>
    simp only [step, Option.ite_none_left_eq_some, Option.some.injEq] at h
    obtain ⟨-, rfl⟩ := h
    exact .inr <| .inr <| .inr <| .inr
      ⟨⟨⟨rfl, rfl, rfl, rfl⟩, rfl, rfl, List.Subset.refl _, fun _ => .inl⟩, by simp⟩
  | authorize orderId paymentId =>
    simp only [step, Option.ite_none_left_eq_some, Option.some.injEq] at h
    obtain ⟨-, rfl⟩ := h
    exact .inr <| .inr <| .inr <| .inr
      ⟨⟨⟨rfl, rfl, rfl, rfl⟩, rfl, rfl, List.Subset.refl _, fun _ => .inl⟩, by simp⟩
  | createProfile freelancerId trustScore =>
    simp only [step, Option.ite_none_left_eq_some, Option.some.injEq] at h
    obtain ⟨hn, rfl⟩ := h
    have hd := deliveries_update s.profiles (f := freelancerId)
      (p := some ⟨trustScore, 0⟩) (by simp [Option.not_isSome_iff_eq_none.mp hn])
    exact .inr <| .inr <| .inr <| .inr
      ⟨⟨⟨rfl, rfl, rfl, hd⟩, rfl, rfl, List.Subset.refl _, fun _ => .inl⟩, by simp⟩
  | rescore freelancerId trustScore =>
    cases h
    have hd := deliveries_update s.profiles (f := freelancerId)
      (p := (s.profiles freelancerId).map fun p => { p with trustScore })
      (by cases s.profiles freelancerId <;> rfl)
    exact .inr <| .inr <| .inr <| .inr
      ⟨⟨⟨rfl, rfl, rfl, hd⟩, rfl, rfl, List.Subset.refl _, fun _ => .inl⟩, by simp⟩
  | _ =>
    cases h
    exact .inr <| .inr <| .inr <| .inr
      ⟨⟨⟨rfl, rfl, rfl, rfl⟩, rfl, rfl, List.Subset.refl _, fun _ => .inl⟩, by simp⟩

/-- What a step does to the handler `j`, which it need not be about. -/
inductive Moves (s : State) (act : Action) (j : ℕ) : Actor → Prop
  | stay : (∀ o, act ≠ .advance j o) → act ≠ .sweep j → Moves s act j (s.actors j)
  | perform {s' : State} {a' : Actor} :
      act = .advance j .ok → Performs s (s.actors j) s' a' → Moves s act j a'
  | raise {o : Outcome} {a' : Actor} :
      act = .advance j o → Raises (s.actors j) a' → Moves s act j a'
  | deliver {event : SettlementRequested} :
      event ∈ s.requested → Moves s act j (.evaluating (some event))
  | sweep : act = .sweep j → Moves s act j (.evaluating none)
  | crash : Moves s act j .idle

theorem moves_step {act : Action} (h : step s act = some t) (j : ℕ) :
    Moves s act j (t.actors j) := by
  rcases step_cases h with ⟨i, o, rfl, ha⟩ | ⟨i, event, rfl, -, he, rfl⟩ | ⟨i, rfl, -, -, rfl⟩ |
    ⟨i, rfl, rfl⟩ | ⟨hu, hno⟩
  · rcases eq_or_ne j i with rfl | hne
    · rcases advance_cases ha with ⟨-, -, rfl⟩ | ⟨s', a', hp, ⟨rfl, rfl⟩ | ⟨-, rfl⟩⟩ <;>
        rw [setActor_self]
      · exact .raise rfl (raises_raise _)
      · exact .perform rfl hp
      · exact .raise rfl (raises_raise _)
    · rw [advance_actors_ne ha hne]
      exact .stay (by simpa using fun h => absurd h.symm hne) (by simp)
  · rcases eq_or_ne j i with rfl | hne
    · rw [setActor_self]
      exact .deliver he
    · rw [setActor_ne hne]
      exact .stay (by simp) (by simp)
  · rcases eq_or_ne j i with rfl | hne
    · rw [setActor_self]
      exact .sweep rfl
    · rw [setActor_ne hne]
      exact .stay (by simp) (by simpa using fun h => absurd h.symm hne)
  · rcases eq_or_ne j i with rfl | hne
    · rw [setActor_self]
      exact .crash
    · rw [setActor_ne hne]
      exact .stay (by simp) (by simp)
  · rw [hu.actors]
    exact .stay (hno j).2 (hno j).1

/-- A capture that takes effect is that of a handler about to capture. -/
theorem captured_step {act : Action} (h : step s act = some t) :
    t.captured = s.captured ∨ ∃ i o r signals held, act = .advance i o ∧
      s.actors i = .capturing r signals held ∧ t.captured = held :: s.captured := by
  rcases step_cases h with ⟨i, o, rfl, ha⟩ | ⟨i, event, rfl, -, -, rfl⟩ | ⟨i, rfl, -, -, rfl⟩ |
    ⟨i, rfl, rfl⟩ | ⟨hu, -⟩
  · rcases advance_cases ha with ⟨-, -, rfl⟩ | ⟨s', a', hp, hend⟩
    · exact .inl rfl
    · have ht : t.captured = s'.captured := by rcases hend with ⟨-, rfl⟩ | ⟨-, rfl⟩ <;> rfl
      rw [ht]
      generalize hi : s.actors i = b at hp
      cases hp with
      | capture => exact .inr ⟨i, o, _, _, _, rfl, hi, rfl⟩
      | _ => exact .inl rfl
  · exact .inl rfl
  · exact .inl rfl
  · exact .inl rfl
  · exact .inl hu.captured

theorem Performs.requested (h : Performs s a s' a') : s'.requested = s.requested := by
  cases h <;> rfl

/-- Events stay on the bus, and the settle route is what puts them there. -/
theorem requested_step {act : Action} (h : step s act = some t) :
    s.requested ⊆ t.requested ∧ ∀ e ∈ t.requested, e ∈ s.requested ∨
      ∃ body settled, (settleRoute body settled).2 = some e := by
  have hsame : ∀ u : State, u.requested = s.requested → s.requested ⊆ u.requested ∧
      ∀ e ∈ u.requested, e ∈ s.requested ∨
        ∃ body settled, (settleRoute body settled).2 = some e :=
    fun u hu => hu ▸ ⟨List.Subset.refl _, fun _ => .inl⟩
  rcases step_cases h with ⟨i, o, rfl, ha⟩ | ⟨i, event, rfl, -, -, rfl⟩ | ⟨i, rfl, -, -, rfl⟩ |
    ⟨i, rfl, rfl⟩ | ⟨hu, -⟩
  · rcases advance_cases ha with ⟨-, -, rfl⟩ | ⟨s', a', hp, ⟨-, rfl⟩ | ⟨-, rfl⟩⟩
    · exact hsame _ rfl
    · exact hsame _ hp.requested
    · exact hsame _ hp.requested
  · exact hsame _ rfl
  · exact hsame _ rfl
  · exact hsame _ rfl
  · exact ⟨hu.requested, hu.routed⟩

theorem commit_records {p : SettlementPayload} {o : Outcome} (h : step s (.advance i o) = some t)
    (ho : o ≠ .failed) (hp : (s.actors i).commits = some p) :
    SameRecords (commitSettlement s p) t := by
  rcases advance_cases h with ⟨rfl, -, -⟩ | ⟨s', a', hperf, hend⟩
  · exact absurd rfl ho
  · have hs' : s' = commitSettlement s p := by
      generalize s.actors i = b at hperf hp
      cases hperf <;> cases hp
      rfl
    subst hs'
    rcases hend with ⟨-, rfl⟩ | ⟨-, rfl⟩ <;> exact ⟨rfl, rfl, rfl, rfl⟩

theorem fails_records {o : Outcome} (h : step s (.advance i o) = some t) (ho : o ≠ .failed)
    (hm : (s.actors i).marksFailed = true) : SameRecords (markSettlementFailed s) t := by
  rcases advance_cases h with ⟨rfl, -, -⟩ | ⟨s', a', hperf, hend⟩
  · exact absurd rfl ho
  · have hs' : s' = markSettlementFailed s := by
      generalize s.actors i = b at hperf hm
      cases hperf <;> first | rfl | cases hm
    subst hs'
    rcases hend with ⟨-, rfl⟩ | ⟨-, rfl⟩ <;> exact ⟨rfl, rfl, rfl, rfl⟩

/-- The five ways in which a step can change the records. -/
theorem records_step {act : Action} (h : step s act = some t) :
    SameRecords s t ∨
      (∃ i o, act = .advance i o ∧ o ≠ .failed ∧ (s.actors i).marksFailed = true ∧
        SameRecords (markSettlementFailed s) t) ∨
      (∃ i o p, act = .advance i o ∧ o ≠ .failed ∧ (s.actors i).commits = some p ∧
        SameRecords (commitSettlement s p) t) ∨
      (∃ i o r p, act = .advance i o ∧ s.actors i = .publishing r p ∧
        SameRecords { s with completed := p :: s.completed } t) ∨
      ∃ row, claimSettlement s.settlement = some row ∧
        SameRecords { s with settlement := some row } t := by
  rcases step_cases h with ⟨i, o, rfl, ha⟩ | ⟨i, event, rfl, -, -, rfl⟩ | ⟨i, rfl, -, -, rfl⟩ |
    ⟨i, rfl, rfl⟩ | ⟨hu, -⟩
  · rcases advance_cases ha with ⟨-, -, rfl⟩ | ⟨s', a', hp, hend⟩
    · exact .inl ⟨rfl, rfl, rfl, rfl⟩
    · have ho : o ≠ .failed := by rcases hend with ⟨rfl, -⟩ | ⟨rfl, -⟩ <;> decide
      have ht : SameRecords s' t := by
        rcases hend with ⟨-, rfl⟩ | ⟨-, rfl⟩ <;> exact ⟨rfl, rfl, rfl, rfl⟩
      rcases hp.records with hs | ⟨hm, rfl⟩ | ⟨p, hc, rfl⟩ | ⟨r, p, hpub, rfl⟩ |
        ⟨event, signals, row, -, hc, rfl⟩
      · exact .inl (hs.trans ht)
      · exact .inr <| .inl ⟨i, o, rfl, ho, hm, ht⟩
      · exact .inr <| .inr <| .inl ⟨i, o, p, rfl, ho, hc, ht⟩
      · exact .inr <| .inr <| .inr <| .inl ⟨i, o, r, p, rfl, hpub, ht⟩
      · exact .inr <| .inr <| .inr <| .inr ⟨row, hc, ht⟩
  · exact .inl ⟨rfl, rfl, rfl, rfl⟩
  · exact .inl ⟨rfl, rfl, rfl, rfl⟩
  · exact .inl ⟨rfl, rfl, rfl, rfl⟩
  · exact .inl hu.toSameRecords

theorem status_markSettlementFailed (h : s.status = some .completed) :
    (markSettlementFailed s).status = some .failed := by
  cases hs : s.settlement with
  | none => simp [State.status, hs] at h
  | some r => simp [State.status, markSettlementFailed, hs]

theorem status_commitSettlement (p : SettlementPayload) :
    (commitSettlement s p).status = s.settlement.map fun _ => .completed := by
  simp [State.status, commitSettlement, Function.comp_def]

/-! ## A funded contract that the oracle approves -/

def approvingRow : OracleState where
  astPassed := true
  testsPassed := true
  securityPassed := true
  trustScore := some ⟨9500, by decide⟩
  criticalVulns := some 0

theorem initial_default : Initial {} := by simp [Initial]

def sampleBody : SettleBody := ⟨some "FL-1", some 250000⟩

def sampleEvent : SettlementRequested := ⟨"FL-1", some 250000⟩

/-- Payment 7 funds order 1, the oracle approves, and a settlement is requested. -/
def fundAndRequest : List Action :=
  [.assign (some "FL-1"), .setOracle (some approvingRow) [], .createOrder 1 250000 "INR",
    .authorize 1 (some 7), .settle sampleBody]

end AssureCode.Settlement
