import AssureCode.Settlement.Escrow

/-! # Whom a settlement credits, and with how much

A live handler takes the freelancer and the amount from the event it handles,
and the event has them from the body of the settle request. Recovery takes them
from the contract and the escrow row. The two agree exactly for the events that
name the contract's freelancer and the amount held.
-/

namespace AssureCode.Settlement

open Machine Oracle

variable {s s' t s₀ : State} {act : Action} {as : List Action} {a a' : Actor} {i : ℕ} {o : Outcome}
  {e : SettlementRequested} {r : Origin} {signals : OracleSignals}

/-- Whom the handler is to pay, once it has committed. -/
def Actor.payee : Actor → Option String
  | .publishing _ payload => some payload.freelancerId
  | .sealing freelancerId | .paying freelancerId => some freelancerId
  | _ => none

/-- The freelancer of the contract, `''` when it has none. -/
def State.freelancer (s : State) : String := s.freelancerId.getD ""

/--
The commit of handler `i` enters the contract's freelancer and an amount that was captured,
credits no other profile, and leaves the handler with nobody else to pay.
-/
structure Attributed (s t : State) (i : ℕ) : Prop where
  entry : ∃ p, t.ledger = p :: s.ledger ∧ p.freelancerId = s.freelancer ∧
    ∃ c ∈ s.captured, c.paymentId = p.paymentId ∧ c.amountMinor = p.amountCents
  profiles : ∀ f, f ≠ s.freelancer → t.profiles f = s.profiles f
  payee : ∀ f ∈ (t.actors i).payee, f = s.freelancer

/-- What the handler goes by is what the contract and the escrow row say. -/
def Faithful (s : State) (held : EscrowPayment) : Origin → Prop
  | .live event => s.freelancerId = some event.freelancerId ∧
      event.amountCents = some held.amountMinor
  | .recovery freelancerId => freelancerId = s.freelancer

/-! ## Events come from the route -/

/-- What the route has checked of an event it publishes. -/
structure Routed (event : SettlementRequested) : Prop where
  named : Js.isBlank event.freelancerId = false
  amount : ∃ n, event.amountCents = some n ∧ 0 < n

theorem routed_settleRoute {body : SettleBody} {settled : Bool}
    (h : (settleRoute body settled).2 = some e) : Routed e := by
  unfold settleRoute at h
  split at h
  · cases h
  · rename_i f hf
    split at h
    · cases h
    · rename_i q hq
      split at h
      · cases h
      · cases h
        obtain ⟨-, hblank⟩ := Option.filter_eq_some_iff.mp hf
        obtain ⟨-, hq⟩ := Option.filter_eq_some_iff.mp hq
        have hpos : 0 < q.num := Rat.num_pos.mpr (of_decide_eq_true hq).2
        exact ⟨by simpa using hblank, q.num.toNat, rfl, by omega⟩

def Origin.event : Origin → Option SettlementRequested
  | .live event => some event
  | .recovery _ => none

def Actor.event : Actor → Option SettlementRequested
  | .evaluating event => event
  | .claiming event _ => some event
  | .selecting r _ | .capturing r _ _ | .committing r _ _ | .rollingBack r | .publishing r _ =>
    r.event
  | _ => none

theorem Performs.event (h : Performs s a s' a') (he : e ∈ a'.event) : e ∈ a.event := by
  cases h with
  | approve_live | claim | select | capture | commit => exact he
  | _ => cases he

theorem Raises.event (h : Raises a a') (he : e ∈ a'.event) : e ∈ a.event := by
  cases h with
  | rollback => exact he
  | _ => cases he

theorem event_step (h : step s act = some t) (he : e ∈ (t.actors i).event) :
    e ∈ (s.actors i).event ∨ e ∈ s.requested := by
  have hm := moves_step h i
  generalize t.actors i = b at hm he
  cases hm with
  | stay => exact .inl he
  | perform _ hp => exact .inl (hp.event he)
  | raise _ hr => exact .inl (hr.event he)
  | deliver hmem =>
    cases he
    exact .inr hmem
  | sweep | crash => cases he

theorem routed_step (h : step s act = some t) (hs : ∀ e ∈ s.requested, Routed e) :
    ∀ e ∈ t.requested, Routed e := by
  intro e he
  rcases (requested_step h).2 e he with he | ⟨body, settled, he⟩
  · exact hs e he
  · exact routed_settleRoute he

/-- Every event about was published by the route. -/
structure State.Routes (s : State) : Prop where
  requested : ∀ e ∈ s.requested, Routed e
  handled : ∀ i, ∀ e ∈ (s.actors i).event, Routed e

theorem routes_step (hs : s.Routes) (h : step s act = some t) : t.Routes := by
  refine ⟨routed_step h hs.requested, fun i e he => ?_⟩
  rcases event_step h he with he | he
  · exact hs.handled i e he
  · exact hs.requested e he

theorem routes_run {K : State → Action → Prop} (h₀ : Initial s₀) (h : system.Run K s₀ as s) :
    s.Routes := by
  obtain ⟨-, -, -, -, hreq, -, -, hi⟩ := h₀
  exact h.invariant (fun _ _ _ hs _ hst => routes_step hs hst)
    ⟨by simp [hreq], by simp [hi, Actor.event]⟩

/-! ## The payee -/

/-- Whoever a handler is to pay is named by an entry of the ledger. -/
def State.PaysRecorded (s : State) : Prop :=
  ∀ i, ∀ f ∈ (s.actors i).payee, ∃ p ∈ s.ledger, p.freelancerId = f

theorem Performs.payee {f : String} (h : Performs s a s' a') (hf : f ∈ a'.payee) :
    f ∈ a.payee ∨ ∃ p, a.commits = some p ∧ s' = commitSettlement s p ∧ p.freelancerId = f := by
  cases h with
  | commit =>
    cases hf
    exact .inr ⟨_, rfl, rfl, rfl⟩
  | publish | seal_root => exact .inl hf
  | _ => cases hf

theorem Raises.payee {f : String} (h : Raises a a') (hf : f ∈ a'.payee) : f ∈ a.payee := by
  cases h with
  | pay => exact hf
  | _ => cases hf

theorem ledger_step (h : step s act = some t) : s.ledger ⊆ t.ledger := by
  rcases records_step h with hr | ⟨_, _, -, -, -, hr⟩ | ⟨_, _, p, -, -, -, hr⟩ |
    ⟨_, _, _, p, -, -, hr⟩ | ⟨row, -, hr⟩ <;>
    rw [hr.ledger] <;> simp [markSettlementFailed, commitSettlement]

theorem paysRecorded_step (hs : s.PaysRecorded) (h : step s act = some t) : t.PaysRecorded := by
  intro i f hf
  have hkeep : f ∈ (s.actors i).payee → ∃ p ∈ t.ledger, p.freelancerId = f := by
    intro hf
    obtain ⟨p, hp, he⟩ := hs i f hf
    exact ⟨p, ledger_step h hp, he⟩
  have hm := moves_step h i
  generalize hb : t.actors i = b at hm hf
  cases hm with
  | stay => exact hkeep hf
  | perform hact hp =>
    rcases hp.payee hf with hf | ⟨p, hc, rfl, rfl⟩
    · exact hkeep hf
    · subst hact
      have hr := commit_records h (by decide) hc
      exact ⟨p, by simp [hr.ledger, commitSettlement], rfl⟩
  | raise _ hr => exact hkeep (hr.payee hf)
  | deliver | sweep | crash => cases hf

theorem paysRecorded_run {K : State → Action → Prop} (h₀ : Initial s₀)
    (h : system.Run K s₀ as s) : s.PaysRecorded := by
  obtain ⟨-, -, -, -, -, -, -, hi⟩ := h₀
  exact h.invariant (fun _ _ _ hs _ hst => paysRecorded_step hs hst)
    (fun i f hf => by simp [hi i, Actor.payee] at hf)

/-! ## Attribution of a commit -/

theorem creditProfile_of_ne {profiles : String → Option Profile} {f g : String}
    {trustScore : Option TrustScore} (h : g ≠ f) :
    creditProfile profiles f trustScore g = profiles g := by
  cases trustScore with
  | none => rfl
  | some q => by_cases hf : f = "" <;> simp [creditProfile, hf, h]

/-- The entry of a commit is right exactly when what the handler goes by is. -/
theorem faithful_iff {held : EscrowPayment} (signals : OracleSignals)
    (he : ∀ e ∈ r.event, Routed e) :
    Faithful s held r ↔ (settlementPayload r signals held).freelancerId = s.freelancer ∧
      (settlementPayload r signals held).amountCents = held.amountMinor := by
  cases r with
  | recovery f => simp [Faithful, settlementPayload]
  | live e =>
    obtain ⟨hblank, n, hn, -⟩ := he e rfl
    have hne : e.freelancerId ≠ "" := by
      rintro heq
      simp [heq, Js.isBlank] at hblank
    simp only [Faithful, settlementPayload, State.freelancer, hn, Option.getD_some,
      Option.some.injEq]
    apply and_congr_left
    intro _
    cases s.freelancerId with
    | none => simpa using hne
    | some f => simp [eq_comm]

theorem commit_step {held : EscrowPayment} {o : Outcome}
    (hi : s.actors i = .committing r signals held) (ho : o ≠ .failed)
    (h : step s (.advance i o) = some t) :
    ∃ a, t = (commitSettlement s (settlementPayload r signals held)).setActor i a ∧
      ∀ f ∈ a.payee, f = (settlementPayload r signals held).freelancerId := by
  rcases advance_cases h with ⟨rfl, -, -⟩ | ⟨s', a', hp, hend⟩
  · exact absurd rfl ho
  · rw [hi] at hp hend
    cases hp
    rcases hend with ⟨-, rfl⟩ | ⟨-, rfl⟩
    · exact ⟨_, rfl, fun f hf => by cases hf; rfl⟩
    · exact ⟨_, rfl, fun f hf => by cases hf⟩

/-- A commit is attributed exactly when its handler goes by the contract and the escrow row. -/
theorem attributed_commit {held : EscrowPayment} {o : Outcome} (hs : s.Backed) (hr : s.Routes)
    (hi : s.actors i = .committing r signals held) (ho : o ≠ .failed)
    (h : step s (.advance i o) = some t) : Attributed s t i ↔ Faithful s held r := by
  obtain ⟨a, rfl, hpay⟩ := commit_step hi ho h
  have hevent : ∀ e ∈ r.event, Routed e := fun e he => hr.handled i e (by rwa [hi])
  have hmem : held ∈ s.captured := hs.captured_held hi
  rw [faithful_iff signals hevent]
  constructor
  · rintro ⟨⟨p, hp, hf, c, hc, hid, hamount⟩, -, -⟩
    cases hp
    have hch : c = held :=
      hs.rows.payment_unique (hs.captured c hc) (hs.captured held hmem) hid
    exact ⟨hf, by rw [← hamount, hch]⟩
  · rintro ⟨hf, hamount⟩
    refine ⟨⟨_, rfl, hf, held, hmem, rfl, hamount.symm⟩, fun f hne => ?_, fun f hfp => ?_⟩
    · exact creditProfile_of_ne (by rwa [hf])
    · rw [setActor_self] at hfp
      rw [hpay f hfp, hf]

/-! ## The two paths on one database -/

/-- Three operations from the selection to the commit. -/
def selectToCommit (i : ℕ) : List Action := [.advance i .ok, .advance i .ok, .advance i .ok]

/-- The same for a recovery, which evaluates and reads the contract first. -/
def recoverToCommit (i : ℕ) : List Action := .advance i .ok :: .advance i .ok :: selectToCommit i

theorem exec_selectToCommit {held : EscrowPayment} (hi : s.actors i = .selecting r signals)
    (hf : findEscrowPayment s.escrow = some held) :
    ∃ u, system.exec s (selectToCommit i) = some u ∧
      u.ledger = settlementPayload r signals held :: s.ledger := by
  simp [selectToCommit, exec, system, step, advance, hi, perform, hf, State.setActor,
    commitSettlement]

theorem exec_recoverToCommit {held : EscrowPayment} (hi : s.actors i = .evaluating none)
    (ho : (evaluate s.oracleState s.scopeChecks).approved = true)
    (hf : findEscrowPayment s.escrow = some held) :
    ∃ u, system.exec s (recoverToCommit i) = some u ∧ u.ledger = settlementPayload
      (.recovery s.freelancer) (evaluate s.oracleState s.scopeChecks).signals held :: s.ledger := by
  simp [recoverToCommit, selectToCommit, exec, system, step, advance, hi, ho, perform, hf,
    State.setActor, commitSettlement, State.freelancer]

/--
A commit credits, and is paid out to, the contract's freelancer with the amount captured exactly
when its handler goes by the contract and the escrow row. On one database the two paths enter the
same freelancer and amount exactly when the event names those.
-/
theorem attribution_iff (h₀ : Initial s₀) (h : system.Run Any s₀ as s) :
    (∀ i o r signals held t, s.actors i = .committing r signals held → o ≠ .failed →
        step s (.advance i o) = some t → (Attributed s t i ↔ Faithful s held r)) ∧
      (∀ i, ∀ f ∈ (s.actors i).payee, ∃ p ∈ s.ledger, p.freelancerId = f) ∧
      ∀ i signals held, ∀ e ∈ s.requested,
        (evaluate s.oracleState s.scopeChecks).approved = true →
        findEscrowPayment s.escrow = some held →
        ∃ u v p q,
          system.exec (s.setActor i (.selecting (.live e) signals)) (selectToCommit i) = some u ∧
          system.exec (s.setActor i (.evaluating none)) (recoverToCommit i) = some v ∧
          u.ledger = p :: s.ledger ∧ v.ledger = q :: s.ledger ∧
          (p.freelancerId = q.freelancerId ∧ p.amountCents = q.amountCents ↔
            Faithful s held (.live e)) := by
  have hroutes := routes_run h₀ h
  refine ⟨fun i o r signals held t hi ho hst => ?_, paysRecorded_run h₀ h, ?_⟩
  · exact attributed_commit (backed_run h₀ h) hroutes hi ho hst
  · intro i signals held e he ho hf
    obtain ⟨u, hu, hul⟩ := exec_selectToCommit (s := s.setActor i (.selecting (.live e) signals))
      setActor_self hf
    obtain ⟨v, hv, hvl⟩ := exec_recoverToCommit (s := s.setActor i (.evaluating none))
      setActor_self ho hf
    refine ⟨u, v, _, _, hu, hv, hul, hvl, ?_⟩
    have hevent : ∀ d ∈ (Origin.live e).event, Routed d := by
      rintro d ⟨⟩
      exact hroutes.requested e he
    exact (faithful_iff signals hevent).symm

/-- The handler of an event, up to the commit. -/
def handleToCommit (event : SettlementRequested) : List Action :=
  [.deliver 0 event, .advance 0 .ok, .advance 0 .ok, .advance 0 .ok, .advance 0 .ok]

theorem attribution_sample : ∃ s, system.exec {} (fundAndRequest ++ handleToCommit sampleEvent) =
    some s ∧ ∀ t, step s (.advance 0 .ok) = some t → Attributed s t 0 := by
  have h : (system.exec {} (fundAndRequest ++ handleToCommit sampleEvent)).map
      (fun s => (s.actors 0, s.freelancerId)) = some (.committing (.live sampleEvent)
        (evaluate (some approvingRow) []).signals ⟨7, 250000, "INR"⟩, some "FL-1") := by decide
  obtain ⟨s, hs, heq⟩ := Option.map_eq_some_iff.mp h
  obtain ⟨hi, hf⟩ := Prod.mk.inj heq
  refine ⟨s, hs, fun t ht => ?_⟩
  exact ((attribution_iff initial_default (run_of_exec hs)).1 0 .ok _ _ _ t hi (by decide) ht).mpr
    ⟨hf, rfl⟩

/-- The settle request names another freelancer and another amount. -/
def misnamed : List Action :=
  fundAndRequest ++ .settle ⟨some "FL-2", some 1⟩ :: handleToCommit ⟨"FL-2", some 1⟩

theorem commit_misattributed : ¬ ∀ s₀ as s i o r signals held t, Initial s₀ →
    system.Run Any s₀ as s → s.actors i = .committing r signals held → o ≠ .failed →
    step s (.advance i o) = some t → Attributed s t i := by
  intro hall
  have h : ((system.exec {} misnamed).bind fun s => (step s (.advance 0 .ok)).map fun t =>
      (s.actors 0, s.freelancerId, t.ledger.map (·.freelancerId))) = some (.committing
        (.live ⟨"FL-2", some 1⟩) (evaluate (some approvingRow) []).signals ⟨7, 250000, "INR"⟩,
        some "FL-1", ["FL-2"]) := by decide
  obtain ⟨s, hs, ht⟩ := Option.bind_eq_some_iff.mp h
  obtain ⟨t, ht, heq⟩ := Option.map_eq_some_iff.mp ht
  simp only [Prod.mk.injEq] at heq
  obtain ⟨hi, hf, hl⟩ := heq
  obtain ⟨p, hp, hpf, -⟩ :=
    (hall {} misnamed s 0 .ok _ _ _ t initial_default (run_of_exec hs) hi (by decide) ht).entry
  rw [hp, List.map_cons, hpf, State.freelancer, hf] at hl
  exact absurd (List.cons.inj hl).1 (by decide)

end AssureCode.Settlement
