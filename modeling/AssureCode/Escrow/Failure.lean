import AssureCode.Escrow.Delivery
import AssureCode.Escrow.Turn

/-! # A failed payment and one that succeeds

An order may be paid in several attempts. The webhook of a failed attempt marks the order by its
id, whichever payment holds it, while the subscriber looks for the payment that failed. So the
webhook takes the order out of play for the payment that succeeds, and nothing brings it back.
-/

namespace AssureCode.Escrow

open Gateway Settlement Machine

/-- Two payments of one order, of which the first fails, and the event of each. -/
structure TwoPayments where
  order : OrderId
  contract : ContractId
  failed : PaymentId
  paid : PaymentId
  ne : failed ≠ paid
  failure : Delivery
  authorization : Delivery
  failure_type : failure.event.event = .paymentFailed
  failure_order : failure.event.orderId = some order
  failure_payment : failure.event.paymentId = some failed
  authorization_type : authorization.event.event = .paymentAuthorized
  authorization_order : authorization.event.orderId = some order
  authorization_payment : authorization.event.paymentId = some paid
  /-- The provider gives its events different ids. -/
  events : failure.providerEventId.isSome →
    failure.providerEventId ≠ authorization.providerEventId

variable {s t s₀ : State} {a : Action} {as : List Action} {T : Table} {i j : ℕ} {f f' : Frame}
  {n : Next} {τ τ' : Task} {r : Row} {w : Write} {m : Message} {x : TwoPayments}

namespace TwoPayments

/-- The request of the checkout that authorized the second payment. -/
def verify (x : TwoPayments) : Call :=
  .verify x.contract ⟨some x.order, some x.paid, some (some (x.order, x.paid))⟩

/-- The two events come in by all their ways, as often as they like, and nothing fails. -/
def Step (x : TwoPayments) (_ : State) : Action → Prop
  | .deliver _ d => d = x.failure ∨ d = x.authorization
  | .request _ q => q.call = x.verify
  | .settle .. | .crash _ => False
  | .advance _ o => o = .ok
  | .pay p status => p = x.paid → status = .authorized ∨ status = .captured
  | .consume .. | .timeout _ | .evict .. | .expire _ => True

/-- The order waits for its payments; no other order has one of them. -/
structure Ready (x : TwoPayments) (s : State) : Prop where
  row : ∃ r ∈ s.escrow.rows, r.orderId = x.order ∧ r.contractId = x.contract ∧
    r.status = .pending ∧ r.paymentId = none
  unheld : ∀ r ∈ s.escrow.rows, r.paymentId ≠ some x.failed ∧ r.paymentId ≠ some x.paid
  paid : s.payments x.paid = .authorized ∨ s.payments x.paid = .captured
  events : ∀ e ∈ s.paymentEvents, e.providerEventId.isSome →
    e.providerEventId ≠ x.failure.providerEventId ∧
      e.providerEventId ≠ x.authorization.providerEventId
  published : s.published = []
  store : s.store = {}
  idle : ∀ i, s.actors i = .idle

/-- The second payment has been reported, by its event or by the checkout. -/
def Reports (x : TwoPayments) (a : Action) : Prop :=
  (∃ i, a = .deliver i x.authorization) ∨ ∃ i q, a = .request i q

/-- The order is authorized with the payment that succeeded. -/
def Funded (x : TwoPayments) (T : Table) : Prop :=
  ∃ r ∈ T.rows, r.orderId = x.order ∧ r.status = .authorized ∧ r.paymentId = some x.paid

/-! ## The table -/

/-- The rows that the two events can leave. -/
structure Fits (x : TwoPayments) (T : Table) : Prop where
  row : ∃ r ∈ T.rows, r.orderId = x.order ∧ r.contractId = x.contract ∧
    (r.status = .pending ∨ r.status = .authorized ∧ r.paymentId = some x.paid ∨ r.status = .failed)
  unheld : ∀ r ∈ T.rows, r.paymentId ≠ some x.failed
  held : ∀ r ∈ T.rows, r.paymentId = some x.paid → r.orderId = x.order

def Writes (x : TwoPayments) (w : Write) : Prop :=
  w = .authorize x.order (some x.paid) ∨ w = .failOrder x.order ∨ w = .failPayment x.failed

/-- The order is out of play. -/
def Lost (x : TwoPayments) (T : Table) : Prop :=
  ∃ r ∈ T.rows, r.orderId = x.order ∧ r.status = .failed

theorem Writes.turns (h : x.Fits T) (hw : x.Writes w) {r r' : Row} (hr : r ∈ T.rows)
    (ht : w.Turns T r r') : r.orderId = x.order ∧
      (r'.paymentId = r.paymentId ∨ r'.paymentId = some x.paid) ∧
        (r'.status = .authorized ∧ r'.paymentId = some x.paid ∨ r'.status = .failed) := by
  rcases hw with rfl | rfl | rfl
  · cases ht with
    | authorize _ hsel => exact ⟨(of_decide_eq_true hsel).1, .inr rfl, .inl ⟨rfl, rfl⟩⟩
  · cases ht with
    | failOrder hsel => exact ⟨(of_decide_eq_true hsel).1, .inl rfl, .inr rfl⟩
  · cases ht with
    | failPayment hsel => exact absurd (of_decide_eq_true hsel).1 (h.unheld r hr)

theorem Writes.not_insert {o : OrderId} {c : ContractId} {n : ℕ} {currency : String} :
    ¬ x.Writes (.insert o c n currency) := by
  rintro (h | h | h) <;> cases h

theorem Fits.run (h : x.Fits T) (hw : x.Writes w) : x.Fits (w.run T) := by
  constructor
  · obtain ⟨r, hr, ho, hc, hs⟩ := h.row
    obtain ⟨r', hr', rfl | ht⟩ := w.run_rows hr
    · exact ⟨r', hr', ho, hc, hs⟩
    · exact ⟨r', hr', ht.frame.1.trans ho, ht.frame.2.1.trans hc, .inr (hw.turns h hr ht).2.2⟩
  · intro r' hr'
    rcases Write.mem_run hr' with ⟨r, hr, rfl | ht⟩ | ⟨o, c, n, currency, rfl, -, -⟩
    · exact h.unheld r' hr
    · rcases (hw.turns h hr ht).2.1 with hp | hp <;> rw [hp]
      · exact h.unheld r hr
      · exact fun he => x.ne (Option.some.inj he).symm
    · exact absurd hw Writes.not_insert
  · intro r' hr' hp
    rcases Write.mem_run hr' with ⟨r, hr, rfl | ht⟩ | ⟨o, c, n, currency, rfl, -, -⟩
    · exact h.held r' hr hp
    · exact ht.frame.1.trans (hw.turns h hr ht).1
    · exact absurd hw Writes.not_insert

theorem Lost.run (hw : x.Writes w) (hl : x.Lost T) : x.Lost (w.run T) := by
  obtain ⟨r, hr, ho, hs⟩ := hl
  obtain ⟨r', hr', rfl | ht⟩ := w.run_rows hr
  · exact ⟨r', hr', ho, hs⟩
  · refine ⟨r', hr', ht.frame.1.trans ho, ?_⟩
    cases ht with
    | authorize _ hsel => exact absurd ((of_decide_eq_true hsel).2.symm.trans hs) (by simp)
    | release => rcases hw with hw | hw | hw <;> cases hw
    | _ => rfl

/-- No other order has the payment, so the unique index does not get in the way. -/
theorem Fits.authorize (h : x.Fits T) : ∃ T', T.authorize x.order (some x.paid) = some T' := by
  have hnodup : ((T.rows.map (Table.authorized x.order (some x.paid))).filterMap
      (·.paymentId)).Nodup := by
    have hkey : T.rows.Pairwise fun r r' => r.orderId ≠ r'.orderId :=
      List.pairwise_map.mp T.orderKey
    have hpay : T.rows.Pairwise fun r r' => ∀ p ∈ r.paymentId, ∀ p' ∈ r'.paymentId, p ≠ p' :=
      List.pairwise_filterMap.mp T.paymentKey
    rw [List.filterMap_map]
    refine List.pairwise_filterMap.mpr ((hkey.and hpay).imp_of_mem ?_)
    have hold : ∀ {r : Row} {p}, (Table.authorized x.order (some x.paid) r).paymentId = some p →
        r.paymentId = some p ∨ p = x.paid ∧ r.orderId = x.order := by
      intro r p hp
      by_cases hsel : Table.pendingOrder x.order r
      · simp only [Table.authorized, hsel, if_true, Option.some.injEq] at hp
        exact .inr ⟨hp.symm, (of_decide_eq_true hsel).1⟩
      · exact .inl (by simpa [Table.authorized, hsel] using hp)
    rintro r r' hr hr' ⟨ho, hne⟩ p hp p' hp' rfl
    rcases hold hp with hp | ⟨rfl, hro⟩
    · rcases hold hp' with hp' | ⟨rfl, hro'⟩
      · exact hne p hp p hp' rfl
      · exact ho ((h.held r hr hp).trans hro'.symm)
    · rcases hold hp' with hp' | ⟨-, hro'⟩
      · exact ho (hro.trans (h.held r' hr' hp').symm)
      · exact ho (hro.trans hro'.symm)
  exact ⟨_, dif_pos hnodup⟩

/-! ## The handlers -/

/-- The messages of the two events. -/
def Sends (x : TwoPayments) (m : Message) : Prop :=
  m.orderId = x.order ∧ (m.type = .paymentAuthorized ∧ m.paymentId = some x.paid ∨
    m.type = .paymentFailed ∧ m.paymentId = some x.failed)

/-- What a handler may be about to do. -/
def Allows (x : TwoPayments) : Task → Prop
  | .lookup d => d = x.failure ∨ d = x.authorization
  | .dedupe d row => (d = x.failure ∨ d = x.authorization) ∧ row.orderId = x.order
  | .markAuthorized d row | .appendAuthorized d row | .publishAuthorized d row =>
    d = x.authorization ∧ row.orderId = x.order
  | .markFailed d row | .appendFailed d row | .publishFailed d row =>
    d = x.failure ∧ row.orderId = x.order
  | .find c o p | .fetch c o p _ | .confirm c o p _ | .appendConfirmed c o p _
  | .recordConfirmed c o p _ | .publishConfirmed c o p _ =>
    c = x.contract ∧ o = x.order ∧ p = x.paid
  | .apply m => x.Sends m
  | .reuse .. | .createOrder .. | .appendCreated .. | .insertOrder .. | .recordCreated ..
  | .selectHeld _ | .release _ => False

/-- The webhook finds the order, whichever event it has. -/
theorem Fits.matches (h : x.Fits T) {d : Delivery} (hd : d = x.failure ∨ d = x.authorization)
    (hr : r ∈ T.rows) : d.matches r ↔ r.orderId = x.order := by
  rw [Delivery.matches, decide_eq_true_iff]
  rcases hd with rfl | rfl
  · rw [x.failure_order, x.failure_payment]
    constructor
    · rintro (ho | ⟨-, hp⟩)
      · exact (Option.some.inj ho).symm
      · exact absurd hp.symm (h.unheld r hr)
    · rintro ho
      exact .inl (congrArg some ho.symm)
  · rw [x.authorization_order, x.authorization_payment]
    constructor
    · rintro (ho | ⟨-, hp⟩)
      · exact (Option.some.inj ho).symm
      · exact h.held r hr hp.symm
    · rintro ho
      exact .inl (congrArg some ho.symm)

theorem Fits.lookup (h : x.Fits T) {d : Delivery} (hd : d = x.failure ∨ d = x.authorization) :
    ∃ row, T.select d.matches = some row ∧ row.orderId = x.order := by
  obtain ⟨r, hr, ho, -⟩ := h.row
  have hsome : (T.select d.matches).isSome :=
    List.find?_isSome.mpr ⟨r, hr, (h.matches hd hr).mpr ho⟩
  obtain ⟨row, hrow⟩ := Option.isSome_iff_exists.mp hsome
  exact ⟨row, hrow, (h.matches hd (List.mem_of_find?_eq_some hrow)).mp (List.find?_some hrow)⟩

theorem allows_next (h : x.Fits s.escrow) (hl : Leads s τ τ') (hτ : x.Allows τ) : x.Allows τ' := by
  cases hl with
  | @lookup d row hsel =>
    obtain ⟨row', hrow', ho⟩ := h.lookup hτ
    cases hsel.symm.trans hrow'
    exact ⟨hτ, ho⟩
  | gateAuthorized he =>
    obtain ⟨rfl | rfl, ho⟩ := hτ
    · simp [x.failure_type] at he
    · exact ⟨rfl, ho⟩
  | gateFailed he =>
    obtain ⟨rfl | rfl, ho⟩ := hτ
    · exact ⟨rfl, ho⟩
    · simp [x.authorization_type] at he
  | reuse | createOrder | appendCreated | insertOrder | selectHeld => exact hτ.elim
  | _ => exact hτ

theorem allows_write (hτ : x.Allows τ) (hw : τ.write = some w) : x.Writes w := by
  cases τ with
  | markAuthorized d row =>
    obtain ⟨rfl, ho⟩ := hτ
    cases hw
    exact .inl (by rw [ho, x.authorization_payment])
  | markFailed d row =>
    obtain ⟨rfl, ho⟩ := hτ
    cases hw
    exact .inr (.inl (by rw [ho]))
  | confirm c o p row =>
    obtain ⟨-, rfl, rfl⟩ := hτ
    cases hw
    exact .inl rfl
  | apply m =>
    obtain ⟨ho, ⟨ht, hp⟩ | ⟨ht, hp⟩⟩ := hτ
    · simp only [Task.write, ht, hp, Option.some.injEq] at hw
      exact .inl (by rw [← hw, ho])
    · simp only [Task.write, ht, hp, Option.some.injEq] at hw
      exact .inr (.inr hw.symm)
  | insertOrder | release => exact hτ.elim
  | _ => cases hw

theorem allows_message (hτ : x.Allows τ) (hm : τ.message = some m) : x.Sends m := by
  cases τ with
  | publishAuthorized d row =>
    obtain ⟨rfl, ho⟩ := hτ
    cases hm
    exact ⟨ho, .inl ⟨rfl, x.authorization_payment⟩⟩
  | publishFailed d row =>
    obtain ⟨rfl, ho⟩ := hτ
    cases hm
    exact ⟨ho, .inr ⟨rfl, x.failure_payment⟩⟩
  | publishConfirmed c o p row =>
    obtain ⟨-, rfl, rfl⟩ := hτ
    cases hm
    exact ⟨rfl, .inl ⟨rfl, rfl⟩⟩
  | _ => cases hm

/-! ## The invariant -/

structure Inv (x : TwoPayments) (s : State) : Prop where
  fits : x.Fits s.escrow
  tasks : ∀ i τ f, s.actors i = .running τ f → x.Allows τ
  requests : ∀ i q, (s.actors i).request = some q → q.call = x.verify
  messages : ∀ m ∈ s.published, x.Sends m
  paid : s.payments x.paid = .authorized ∨ s.payments x.paid = .captured

theorem faultless (h : x.Step s a) : Faultless s a := by
  cases a with
  | advance i o => exact h
  | crash i => exact h
  | _ => trivial

theorem begins_allows (hs : x.Inv s) (hk : x.Step s a) (h : Begins s a i f n) (hn : n = .task τ) :
    x.Allows τ := by
  have hcall : ∀ {q : Request}, q.call = x.verify → q.call.start = .task τ → x.Allows τ := by
    intro q hq hτ
    rw [hq] at hτ
    simp only [verify, Call.start, if_true] at hτ
    cases hτ
    exact ⟨rfl, rfl, rfl⟩
  cases h with
  | @deliver d ha _ =>
    subst ha
    unfold Delivery.start at hn
    split at hn <;> cases hn
    exact hk
  | consume ha _ hm =>
    cases hn
    exact hs.messages _ hm
  | settle ha _ =>
    subst ha
    exact hk.elim
  | request ha _ =>
    subst ha
    exact hcall hk hn
  | keyed hq _ => exact hcall (hs.requests i _ hq) hn

theorem Inv.escrow (hs : x.Inv s) (h : step s a = some t) : t.escrow = s.escrow ∨
    ∃ τ w, Executes s a τ ∧ τ.write = some w ∧ x.Writes w ∧ t.escrow = w.run s.escrow := by
  rcases step_escrow h with ⟨τ, w, hτ, hw, ht⟩ | ⟨-, ht⟩
  · obtain ⟨i, o, f, -, -, hi⟩ := id hτ
    exact .inr ⟨τ, w, hτ, hw, allows_write (hs.tasks i τ f hi) hw, ht⟩
  · exact .inl ht

theorem inv_requests (hs : x.Inv s) (hk : x.Step s a) (h : Turn s a t) {q : Request}
    (hq : (t.actors j).request = some q) : q.call = x.verify := by
  have hrequest : ∀ {i q}, a = .request i q → q.call = x.verify := by
    rintro i q rfl
    exact hk
  cases h with
  | @run i τ f _ hi =>
    rcases eq_or_ne j i with rfl | hj
    · exact hs.requests j q (by rw [hi]; exact goto_request hq)
    · rw [goto_ne hj, perform_actors] at hq
      exact hs.requests j q hq
  | @start i f n S hb _ _ =>
    rcases eq_or_ne j i with rfl | hj
    · have hf := goto_request hq
      cases hb with
      | request ha _ => cases hf; exact hrequest ha
      | keyed hq' _ => cases hf; exact hs.requests j _ hq'
      | _ => cases hf
    · rw [goto_ne hj] at hq
      exact hs.requests j q hq
  | @rest i b S acknowledged _ _ hhas =>
    rcases eq_or_ne j i with rfl | hj
    · rw [setActor_self] at hq
      rcases hhas q hq with ha | hq'
      · exact hrequest ha
      · exact hs.requests j q hq'
    · rw [setActor_ne hj] at hq
      exact hs.requests j q hq
  | aside _ hactors =>
    rw [hactors] at hq
    exact hs.requests j q hq

theorem inv_tasks (hs : x.Inv s) (hk : x.Step s a) (h : Turn s a t)
    (hj : t.actors j = .running τ f) : x.Allows τ := by
  rcases turn_running h hj with hj | ⟨τ₀, hj, hl⟩ | ⟨n, hb, hn⟩
  · exact hs.tasks j τ f hj
  · exact allows_next hs.fits hl (hs.tasks j τ₀ f hj)
  · exact begins_allows hs hk hb hn

theorem inv_step (hs : x.Inv s) (hk : x.Step s a) (h : step s a = some t) : x.Inv t := by
  have hturn : Turn s a t := step_turn h (faultless hk)
  refine ⟨?_, fun j τ f => inv_tasks hs hk hturn, fun j q => inv_requests hs hk hturn, ?_, ?_⟩
  · rcases hs.escrow h with ht | ⟨τ, w, -, -, hw, ht⟩ <;> rw [ht]
    · exact hs.fits
    · exact hs.fits.run hw
  · intro m hm
    rcases step_tables h with ⟨τ, ⟨i, o, f, -, -, hi⟩, ht⟩ | ⟨-, ht⟩
    · have hp : t.published = τ.message.toList ++ s.published :=
        congrArg (fun x => x.2.2.2.1) ht
      rw [hp, List.mem_append, Option.mem_toList] at hm
      exact hm.elim (allows_message (hs.tasks i τ f hi)) (hs.messages m)
    · have hp : t.published = s.published := congrArg (fun x => x.2.2.2.1) ht
      exact hs.messages m (hp ▸ hm)
  · cases hturn with
    | run =>
      rw [goto_payments, perform_payments]
      exact hs.paid
    | start =>
      rw [goto_payments]
      exact hs.paid
    | rest => exact hs.paid
    | aside _ _ hpay =>
      rcases hpay x.paid with hp | hp
      · rw [hp]
        exact hs.paid
      · rw [hp] at hk
        exact hk rfl

/-! ## What becomes of an event -/

/-- Past the dedupe gate, the event's statement brings the table to where it then stays. -/
structure Settles (x : TwoPayments) (d : Delivery) (mark : Row → Task) (D : Table → Prop) :
    Prop where
  known : d = x.failure ∨ d = x.authorization
  act : ∀ row, d.act row = .task (mark row)
  orderId : ∀ row, x.Allows (mark row) → row.orderId = x.order
  run : ∀ T w, x.Fits T → x.Writes w → D T → D (w.run T)
  effect : ∀ s row, x.Fits s.escrow → row.orderId = x.order → D ((mark row).effect s).escrow

variable {d : Delivery} {mark : Row → Task} {D : Table → Prop}

/-- The event is recorded. -/
def Saw (d : Delivery) (s : State) : Prop :=
  d.providerEventId.isSome ∧ d.providerEventId ∈ s.paymentEvents.map (·.providerEventId)

/-- The table is there, or a handler is about to bring it there. -/
def Marking (mark : Row → Task) (D : Table → Prop) (s : State) : Prop :=
  D s.escrow ∨ ∃ i row f, s.actors i = .running (mark row) f

/-- The same, or a delivery of the event has not reached its gate yet. -/
def Coming (d : Delivery) (mark : Row → Task) (D : Table → Prop) (s : State) : Prop :=
  Marking mark D s ∨ ∃ i f, s.actors i = .running (.lookup d) f ∨
    ∃ row, s.actors i = .running (.dedupe d row) f

theorem escrow_keeps (hD : ∀ T w, x.Fits T → x.Writes w → D T → D (w.run T)) (hs : x.Inv s)
    (h : step s a = some t) (hd : D s.escrow) : D t.escrow := by
  rcases hs.escrow h with ht | ⟨τ, w, -, -, hw, ht⟩ <;> rw [ht]
  · exact hd
  · exact hD _ _ hs.fits hw hd

theorem marking_step (hx : x.Settles d mark D) (hs : x.Inv s) (hk : x.Step s a)
    (h : step s a = some t) (hm : Marking mark D s) : Marking mark D t := by
  rcases hm with hd | ⟨i, row, f, hi⟩
  · exact .inl (escrow_keeps hx.run hs h hd)
  · by_cases ha : a = .advance i .ok
    · have ht : t.escrow = ((mark row).effect s).escrow :=
        congrArg Prod.fst (executes_tables h ⟨i, .ok, f, ha, by simp, hi⟩)
      refine .inl (ht ▸ hx.effect s row hs.fits (hx.orderId row (hs.tasks i _ f hi)))
    · exact .inr ⟨i, row, f, running_kept h (faultless hk) ha hi⟩

theorem mem_recordPaymentEvent {e : PaymentEvent} {k : Option EventId}
    (h : k ∈ (recordPaymentEvent s e).1.paymentEvents.map (·.providerEventId)) :
    k ∈ s.paymentEvents.map (·.providerEventId) ∨ k = e.providerEventId := by
  unfold recordPaymentEvent at h
  split at h
  · exact .inl h
  · exact (List.mem_cons.mp h).symm

theorem eq_of_event {d' : Delivery} (hd : d = x.failure ∨ d = x.authorization)
    (hd' : d' = x.failure ∨ d' = x.authorization) (hk : d.providerEventId.isSome)
    (he : d.providerEventId = d'.providerEventId) : d = d' := by
  rcases hd with rfl | rfl
  · rcases hd' with rfl | rfl
    · rfl
    · exact absurd he (x.events hk)
  · rcases hd' with rfl | rfl
    · exact absurd he.symm (x.events (he ▸ hk))
    · rfl

/-- Each event has its own id, so its record comes from its own delivery. -/
theorem saw_dedupe (hx : x.Settles d mark D) (hs : x.Inv s) (h : step s a = some t)
    (hold : ¬ Saw d s) (hnew : Saw d t) : ∃ row, Executes s a (.dedupe d row) := by
  rcases step_tables h with ⟨τ, hτ, ht⟩ | ⟨-, ht⟩
  · have he : t.paymentEvents = (τ.effect s).paymentEvents := congrArg (fun x => x.2.1) ht
    obtain ⟨i, o, f, ha, ho, hi⟩ := id hτ
    have hallow : x.Allows τ := hs.tasks i τ f hi
    have hmem : d.providerEventId ∈ (τ.effect s).paymentEvents.map (·.providerEventId) :=
      he ▸ hnew.2
    have hsome : d.providerEventId ≠ none := Option.isSome_iff_ne_none.mp hnew.1
    cases τ with
    | dedupe d' row =>
      rcases mem_recordPaymentEvent hmem with hmem | hid
      · exact absurd ⟨hnew.1, hmem⟩ hold
      · rw [eq_of_event hx.known hallow.1 hnew.1 hid]
        exact ⟨row, hτ⟩
    | recordConfirmed c o p row =>
      rcases mem_recordPaymentEvent hmem with hmem | hid
      · exact absurd ⟨hnew.1, hmem⟩ hold
      · exact absurd hid hsome
    | recordCreated => exact hallow.elim
    | _ => exact absurd ⟨hnew.1, hmem⟩ hold
  · have he : t.paymentEvents = s.paymentEvents := congrArg (fun x => x.2.1) ht
    exact absurd ⟨hnew.1, he ▸ hnew.2⟩ hold

theorem gate_step (hx : x.Settles d mark D) (hk : x.Step s a)
    (h : step s a = some t) (hold : ¬ Saw d s) {row : Row} (hτ : Executes s a (.dedupe d row)) :
    Marking mark D t := by
  have hp : perform s (.dedupe d row) = (d.record row s, .task (mark row)) :=
    hx.act row ▸ perform_dedupe hold
  obtain ⟨i, f, hi⟩ := running_next h (faultless hk) hτ (congrArg Prod.snd hp)
  exact .inr ⟨i, row, f, hi⟩

theorem saw_step (hx : x.Settles d mark D) (hs : x.Inv s) (hk : x.Step s a)
    (h : step s a = some t) (hm : Saw d s → Marking mark D s) (hnew : Saw d t) :
    Marking mark D t := by
  by_cases hold : Saw d s
  · exact marking_step hx hs hk h (hm hold)
  · obtain ⟨row, hτ⟩ := saw_dedupe hx hs h hold hnew
    exact gate_step hx hk h hold hτ

theorem coming_step (hx : x.Settles d mark D) (hs : x.Inv s) (hk : x.Step s a)
    (h : step s a = some t) (hm : Saw d s → Marking mark D s) (hc : Coming d mark D s) :
    Coming d mark D t := by
  rcases hc with hc | ⟨i, f, hi | ⟨row, hi⟩⟩
  · exact .inl (marking_step hx hs hk h hc)
  · by_cases ha : a = .advance i .ok
    · obtain ⟨row, hrow, -⟩ := hs.fits.lookup hx.known
      have hp : (perform s (.lookup d)).2 = .task (.dedupe d row) := by simp [perform, hrow]
      obtain ⟨j, f', hj⟩ := running_next h (faultless hk) ⟨i, .ok, f, ha, by simp, hi⟩ hp
      exact .inr ⟨j, f', .inr ⟨row, hj⟩⟩
    · exact .inr ⟨i, f, .inl (running_kept h (faultless hk) ha hi)⟩
  · by_cases ha : a = .advance i .ok
    · by_cases hold : Saw d s
      · exact .inl (marking_step hx hs hk h (hm hold))
      · exact .inl (gate_step hx hk h hold ⟨i, .ok, f, ha, by simp, hi⟩)
    · exact .inr ⟨i, f, .inr ⟨row, running_kept h (faultless hk) ha hi⟩⟩

theorem coming_deliver (hx : x.Settles d mark D) (h : step s (.deliver i d) = some t) :
    Coming d mark D t := by
  have hstart : d.start = .task (.lookup d) := by
    apply if_neg
    intro hnone
    rcases hx.known with rfl | rfl
    · simp [x.failure_order] at hnone
    · simp [x.authorization_order] at hnone
  simp only [step] at h
  split at h
  · cases h
    exact .inr ⟨i, .webhook d, .inl (goto_running.mpr ⟨hstart, rfl⟩)⟩
  · cases h

theorem settles_failure (x : TwoPayments) :
    x.Settles x.failure (.markFailed x.failure) x.Lost where
  known := .inl rfl
  act row := by simp [Delivery.act, x.failure_type]
  orderId _ h := h.2
  run _ _ _ hw hl := hl.run hw
  effect s row h ho := by
    obtain ⟨r, hr, hro, -, hs⟩ := h.row
    by_cases hsel : Table.liveOrder row.orderId r
    · exact ⟨{ r with status := .failed }, Table.mem_setStatus.mpr ⟨r, hr, by simp [hsel]⟩, hro,
        rfl⟩
    · refine ⟨r, Table.mem_setStatus.mpr ⟨r, hr, by simp [hsel]⟩, hro, ?_⟩
      have hlive : r.status ≠ .pending ∧ r.status ≠ .authorized := by
        simpa [Table.liveOrder, hro, ho] using hsel
      rcases hs with hs | ⟨hs, -⟩ | hs
      · exact absurd hs hlive.1
      · exact absurd hs hlive.2
      · exact hs

theorem settles_authorization (x : TwoPayments) :
    x.Settles x.authorization (.markAuthorized x.authorization) (·.Left x.order) where
  known := .inr rfl
  act row := by simp [Delivery.act, x.authorization_type]
  orderId _ h := h.2
  run _ w _ _ hl := hl.run w
  effect s row h ho := by
    obtain ⟨r, hr, hro, -⟩ := h.row
    by_cases hp : r.status = .pending
    · obtain ⟨T', hT⟩ := h.authorize
      have hrun : ((Task.markAuthorized x.authorization row).effect s).escrow = T' := by
        simp [Task.effect, Task.write, Write.run, x.authorization_payment, ho, hT]
      exact hrun ▸ Table.left_authorize hr (decide_eq_true ⟨hro, hp⟩) hT
    · exact Table.Left.run ⟨r, hr, hro, hp⟩ (.authorize row.orderId x.authorization.event.paymentId)

/-! ## The checkout's requests -/

/-- The statements and calls of the checkout's request. -/
def Confirms : Task → Prop
  | .find .. | .fetch .. | .confirm .. | .appendConfirmed .. | .recordConfirmed ..
  | .publishConfirmed .. => True
  | _ => False

/-- Those after its update. -/
def Past : Task → Prop
  | .appendConfirmed .. | .recordConfirmed .. | .publishConfirmed .. => True
  | _ => False

/-- A request that has its response has moved the order. -/
structure Answered (x : TwoPayments) (s : State) : Prop where
  frames : ∀ i τ f, s.actors i = .running τ f → f.asked.isSome → Confirms τ
  past : ∀ i τ f, s.actors i = .running τ f → Past τ → s.escrow.Left x.order
  responses : ∀ r, s.Holds r → s.escrow.Left x.order

theorem confirms_next (hl : Leads s τ τ') (hc : Confirms τ) : Confirms τ' := by
  cases hl with
  | find | fetch | confirm | appendConfirmed | recordConfirmed => trivial
  | _ => exact hc.elim

theorem past_next (hl : Leads s τ τ') (hτ : x.Allows τ) (hp : Past τ') :
    Past τ ∨ (τ.effect s).escrow.Left x.order := by
  cases hl with
  | @confirm c o p row T hT hc =>
    obtain ⟨-, rfl, rfl⟩ := hτ
    obtain ⟨r, hr, hsel⟩ := Table.count_pendingOrder.mp hc
    refine .inr ?_
    simpa [Task.effect, Task.write, Write.run, hT] using Table.left_authorize hr hsel hT
  | appendConfirmed | recordConfirmed => exact .inl trivial
  | _ => exact hp.elim

/-- The request of a valid payment goes on, or ends with the order moved. -/
theorem confirms_perform (hs : x.Inv s) (hτ : x.Allows τ) (hc : Confirms τ)
    (hpast : Past τ → s.escrow.Left x.order) :
    (∃ τ', (perform s τ).2 = .task τ') ∨
      (∃ r, (perform s τ).2 = .done r) ∧ (τ.effect s).escrow.Left x.order := by
  cases τ with
  | find c o p =>
    obtain ⟨rfl, rfl, rfl⟩ := hτ
    obtain ⟨r, hr, ho, hcontract, -⟩ := hs.fits.row
    have hsome : (s.escrow.select (·.orderId = x.order)).isSome :=
      List.find?_isSome.mpr ⟨r, hr, decide_eq_true ho⟩
    obtain ⟨row, hrow⟩ := Option.isSome_iff_exists.mp hsome
    have hro : row.orderId = x.order := by simpa using List.find?_some hrow
    obtain rfl := Table.eq_of_orderId hr (List.mem_of_find?_eq_some hrow) (ho.trans hro.symm)
    exact .inl ⟨.fetch x.contract x.order x.paid r, by simp [perform, hrow, hcontract]⟩
  | fetch c o p row =>
    obtain ⟨rfl, rfl, rfl⟩ := hτ
    exact .inl ⟨.confirm x.contract x.order x.paid row, by simp [perform, hs.paid]⟩
  | confirm c o p row =>
    obtain ⟨rfl, rfl, rfl⟩ := hτ
    obtain ⟨T', hT⟩ := hs.fits.authorize
    by_cases hcount : s.escrow.count (Table.pendingOrder x.order) = 1
    · exact .inl ⟨.appendConfirmed x.contract x.order x.paid row, by simp [perform, hT, hcount]⟩
    · refine .inr ⟨⟨.authorized x.contract x.order x.paid row.amountCents,
        by simp [perform, hT, hcount]⟩, ?_⟩
      obtain ⟨r, hr, ho, -⟩ := hs.fits.row
      have hleft : s.escrow.Left x.order := by
        refine ⟨r, hr, ho, fun hp => hcount (Table.count_pendingOrder.mpr ⟨r, hr, ?_⟩)⟩
        exact decide_eq_true ⟨ho, hp⟩
      exact hleft.run (.authorize x.order (some x.paid))
  | appendConfirmed | recordConfirmed => exact .inl ⟨_, rfl⟩
  | publishConfirmed => exact .inr ⟨⟨_, rfl⟩, hpast trivial⟩
  | _ => exact hc.elim

/-- The handler of a request begins by looking for the order. -/
theorem begins_asked (hs : x.Inv s) (hk : x.Step s a) (h : Begins s a i f n)
    (hf : f.asked.isSome) : n = .task (.find x.contract x.order x.paid) := by
  have hcall : ∀ {q : Request}, q.call = x.verify →
      q.call.start = .task (.find x.contract x.order x.paid) := by
    intro q hq
    rw [hq]
    simp [verify, Call.start]
  cases h with
  | request ha _ =>
    subst ha
    exact hcall hk
  | keyed hq _ => exact hcall (hs.requests i _ hq)
  | _ => cases hf

theorem starts_past (h : τ.Starts s) : ¬ Past τ := by
  cases τ with
  | appendConfirmed | recordConfirmed | publishConfirmed => exact h.elim
  | _ => exact id

theorem answered_frames (hs : x.Inv s) (hq : x.Answered s) (hk : x.Step s a) (h : Turn s a t)
    (hj : t.actors j = .running τ f) (hf : f.asked.isSome) : Confirms τ := by
  rcases turn_running h hj with hj | ⟨τ₀, hj, hl⟩ | ⟨n, hb, hn⟩
  · exact hq.frames j τ f hj hf
  · exact confirms_next hl (hq.frames j τ₀ f hj hf)
  · cases hn.symm.trans (begins_asked hs hk hb hf)
    trivial

theorem answered_past (hs : x.Inv s) (hq : x.Answered s) (h : step s a = some t)
    (hj : t.actors j = .running τ f) (hp : Past τ) : t.escrow.Left x.order := by
  revert hp
  refine running_step h (R := fun τ => x.Allows τ ∧ (Past τ → s.escrow.Left x.order))
    (Q := fun τ => Past τ → t.escrow.Left x.order) ?_ ?_ ?_ ?_ ?_ j τ f hj
  · exact fun j τ f hj => ⟨hs.tasks j τ f hj, hq.past j τ f hj⟩
  · exact fun τ hτ hp => absurd hp (starts_past hτ)
  · exact fun τ hτ hp => left_step (hτ.2 hp) h
  · rintro τ₀ τ ⟨-, hτ⟩ hr hp
    rcases raised_leads (s := s) hr with ⟨hl, ⟨d, row, rfl⟩ | ⟨c, o, p, row, rfl⟩⟩
    · cases hl <;> exact hp.elim
    · exact left_step (hτ trivial) h
  · rintro τ₀ τ he ⟨hallow, hτ⟩ hn hp
    rcases past_next (perform_leads hn) hallow hp with hp | hleft
    · exact left_step (hτ hp) h
    · have ht : t.escrow = (τ₀.effect s).escrow := congrArg Prod.fst (executes_tables h he)
      exact ht ▸ hleft

theorem answered_responses (hs : x.Inv s) (hq : x.Answered s) (hk : x.Step s a)
    (h : step s a = some t) {r : Response} (hr : t.Holds r) : t.escrow.Left x.order := by
  have hold : ∀ {r}, s.Holds r → t.escrow.Left x.order := fun hr =>
    left_step (hq.responses _ hr) h
  have hstep := h
  cases step_turn h (faultless hk) with
  | @run i τ f ha hi =>
    rcases holds_goto hr with hr | ⟨hf, hn⟩
    · exact hold (holds_effect.mp (perform_effect s τ ▸ hr))
    · rcases confirms_perform hs (hs.tasks i τ f hi) (hq.frames i τ f hi hf)
        (hq.past i τ f hi) with ⟨τ', hτ'⟩ | ⟨-, hleft⟩
      · rw [hτ'] at hn
        rcases hn with hn | ⟨hn, -⟩ <;> cases hn
      · have ht : ((perform s τ).1.goto i f (perform s τ).2).escrow = (τ.effect s).escrow :=
          congrArg Prod.fst (executes_tables hstep ⟨i, .ok, f, ha, by simp, hi⟩)
        exact ht ▸ hleft
  | @start i f n S hb _ hS =>
    rcases holds_goto hr with hr | ⟨hf, hn⟩
    · exact hold (holds_store hr (hS r))
    · rw [begins_asked hs hk hb hf] at hn
      rcases hn with hn | ⟨hn, -⟩ <;> cases hn
  | @rest i b S acknowledged _ _ _ _ _ _ hS hb =>
    rcases holds_setActor hr with (hr | hr) | hr
    · exact hold (hS r hr)
    · exact hold (.inr hr)
    · exact hold (hb r hr)
  | aside _ hactors _ _ _ hS =>
    rcases hr with hr | ⟨i, hi⟩
    · exact hold (hS r hr)
    · exact hold (.inr ⟨i, hactors ▸ hi⟩)

theorem answered_step (hs : x.Inv s) (hq : x.Answered s) (hk : x.Step s a)
    (h : step s a = some t) : x.Answered t where
  frames _ _ _ := answered_frames hs hq hk (step_turn h (faultless hk))
  past _ _ _ := answered_past hs hq h
  responses _ := answered_responses hs hq hk h

/-- The second payment has moved the order, or a delivery or a request still has to. -/
def Reported (x : TwoPayments) (s : State) : Prop :=
  Coming x.authorization (.markAuthorized x.authorization) (·.Left x.order) s ∨
    (∃ i τ f, s.actors i = .running τ f ∧ Confirms τ) ∨ ∃ i, (s.actors i).Waits

theorem reported_left (h : t.escrow.Left x.order) : x.Reported t := .inl (.inl (.inl h))

theorem reported_waits (h : (t.actors i).Waits) : x.Reported t := .inr (.inr ⟨i, h⟩)

theorem reported_request (hs : x.Inv s) (hq : x.Answered s) (hk : x.Step s a)
    (h : step s a = some t) (hw : (s.actors i).Waits ∨ ∃ q, a = .request i q) : x.Reported t := by
  have hstep := h
  cases step_turn h (faultless hk) with
  | @run j τ f ha hj =>
    rcases hw with hw | ⟨q, hq'⟩
    · have hne : i ≠ j := by
        rintro rfl
        rw [hj] at hw
        exact hw
      exact reported_waits (by rwa [goto_ne hne, perform_actors])
    · rw [ha] at hq'
      cases hq'
  | @start j f n S hb hj _ =>
    by_cases hf : f.asked.isSome
    · rw [begins_asked hs hk hb hf]
      exact .inr (.inl ⟨j, _, f, goto_running.mpr ⟨rfl, rfl⟩, trivial⟩)
    · have hidle : s.actors j = .idle ∧ ∀ i q, a ≠ .request i q := by
        cases hb with
        | deliver ha hj => exact ⟨hj, by simp [ha]⟩
        | consume ha hj _ => exact ⟨hj, by simp [ha]⟩
        | settle ha hj => exact ⟨hj, by simp [ha]⟩
        | request | keyed => exact absurd rfl hf
      rcases hw with hw | ⟨q, hq'⟩
      · have hne : i ≠ j := by
          rintro rfl
          rw [hidle.1] at hw
          exact hw
        exact reported_waits (by rwa [goto_ne hne])
      · exact absurd hq' (hidle.2 i q)
  | @rest j b S acknowledged _ _ _ hwait _ hrequest _ _ =>
    have hrest : (s.actors j).Waits ∨ (∃ q, a = .request j q) →
        x.Reported (State.setActor { s with store := S, acknowledged } j b) := by
      intro hj
      rcases hwait hj with hb | ⟨r, hr⟩
      · exact reported_waits (by rwa [setActor_self])
      · exact reported_left (left_step (hq.responses r hr) hstep)
    rcases hw with hw | ⟨q, hq'⟩
    · rcases eq_or_ne i j with rfl | hne
      · exact hrest (.inl hw)
      · exact reported_waits (by rwa [setActor_ne hne])
    · exact hrest (.inr ⟨q, hrequest i q hq' ▸ hq'⟩)
  | aside _ hactors _ _ hne _ =>
    rcases hw with hw | ⟨q, hq'⟩
    · exact reported_waits (hactors ▸ hw)
    · exact absurd hq' (hne i q)

theorem reported_step (hs : x.Inv s) (hq : x.Answered s) (hk : x.Step s a)
    (h : step s a = some t)
    (hm : Saw x.authorization s →
      Marking (.markAuthorized x.authorization) (·.Left x.order) s)
    (hr : x.Reported s) : x.Reported t := by
  rcases hr with hc | ⟨i, τ, f, hi, hτ⟩ | ⟨i, hw⟩
  · exact .inl (coming_step x.settles_authorization hs hk h hm hc)
  · by_cases ha : a = .advance i .ok
    · have he : Executes s a τ := ⟨i, .ok, f, ha, by simp, hi⟩
      rcases confirms_perform hs (hs.tasks i τ f hi) hτ (hq.past i τ f hi) with
        ⟨τ', hτ'⟩ | ⟨-, hleft⟩
      · obtain ⟨j, f', hj⟩ := running_next h (faultless hk) he hτ'
        exact .inr (.inl ⟨j, τ', f', hj, confirms_next (perform_leads hτ') hτ⟩)
      · have ht : t.escrow = (τ.effect s).escrow := congrArg Prod.fst (executes_tables h he)
        exact reported_left (ht ▸ hleft)
    · exact .inr (.inl ⟨i, τ, f, running_kept h (faultless hk) ha hi, hτ⟩)
  · exact reported_request hs hq hk h (.inl hw)

/-! ## Without the failure -/

/-- A delivery of the failure on its way to its update. -/
def Fails (x : TwoPayments) : Task → Prop
  | .lookup d | .dedupe d _ | .markFailed d _ => d = x.failure
  | _ => False

/-- The failed payment has not been reported. -/
structure Unreported (x : TwoPayments) (s : State) : Prop where
  table : ¬ x.Lost s.escrow
  tasks : ∀ i τ f, s.actors i = .running τ f → ¬ x.Fails τ

/-- An escrow fails only while the failed payment holds it. -/
def HeldFailure (x : TwoPayments) (T T' : Table) : Prop :=
  ∀ r ∈ T.rows, ∀ r' ∈ T'.rows, r'.orderId = r.orderId → r'.status = .failed →
    r.status ≠ .failed → r.paymentId = some x.failed

theorem fails_next (hl : Leads s τ τ') (h : x.Fails τ') : x.Fails τ := by
  cases hl with
  | lookup | gateFailed => exact h
  | _ => exact h.elim

theorem begins_fails (hs : x.Inv s) (hk : x.Step s a) (h : Begins s a i f n)
    (hn : n = .task τ) (hτ : x.Fails τ) : a = .deliver i x.failure := by
  by_cases hf : f.asked.isSome
  · cases hn.symm.trans (begins_asked hs hk h hf)
    exact hτ.elim
  · cases h with
    | @deliver d ha _ =>
      unfold Delivery.start at hn
      split at hn <;> cases hn
      rw [ha, show d = x.failure from hτ]
    | consume | settle =>
      cases hn
      exact hτ.elim
    | request | keyed => exact absurd rfl hf

/-- Only the webhook's failure update makes a row `FAILED`. -/
theorem turns_failed {r r' : Row} (h : x.Fits T) (hw : x.Writes w) (hne : w ≠ .failOrder x.order)
    (hr : r ∈ T.rows) (ht : w.Turns T r r') : r'.status ≠ .failed := by
  cases ht with
  | authorize => simp
  | failOrder =>
    rcases hw with hw | hw | hw <;> cases hw
    exact absurd rfl hne
  | failPayment hsel =>
    rcases hw with hw | hw | hw <;> cases hw
    exact absurd (of_decide_eq_true hsel).1 (h.unheld r hr)
  | release => rcases hw with hw | hw | hw <;> cases hw

theorem write_failOrder {o : OrderId} (h : τ.write = some (.failOrder o)) :
    ∃ d row, τ = .markFailed d row := by
  cases τ with
  | markFailed d row => exact ⟨d, row, rfl⟩
  | apply m =>
    obtain ⟨c, o', q, type⟩ := m
    cases q <;> cases type <;> cases h
  | _ => cases h

/-- Before the failure is reported no step makes a row `FAILED`. -/
theorem Unreported.row (hu : x.Unreported s) (hs : x.Inv s) (h : step s a = some t) {r' : Row}
    (hr' : r' ∈ t.escrow.rows) (hf : r'.status = .failed) : r' ∈ s.escrow.rows := by
  rcases hs.escrow h with ht | ⟨τ, w, ⟨i, o, f, -, -, hi⟩, hτ, hw, ht⟩
  · exact ht ▸ hr'
  · have hne : w ≠ .failOrder x.order := by
      rintro rfl
      obtain ⟨d, row, rfl⟩ := write_failOrder hτ
      exact hu.tasks i _ f hi (hs.tasks i _ f hi).1
    rw [ht] at hr'
    rcases Write.mem_run hr' with ⟨r, hr, rfl | hturn⟩ | ⟨o, c, n, currency, rfl, -, -⟩
    · exact hr
    · exact absurd hf (turns_failed hs.fits hw hne hr hturn)
    · exact absurd hw Writes.not_insert

theorem Unreported.held (hu : x.Unreported s) (hs : x.Inv s) (h : step s a = some t) :
    x.HeldFailure s.escrow t.escrow := by
  intro r hr r' hr' ho hf hne
  have heq : r' = r := Table.eq_of_orderId (hu.row hs h hr' hf) hr ho
  exact absurd (heq ▸ hf) hne

theorem unreported_step (hu : x.Unreported s) (hs : x.Inv s) (hk : x.Step s a)
    (ha : ∀ i, a ≠ .deliver i x.failure) (h : step s a = some t) : x.Unreported t := by
  constructor
  · rintro ⟨r, hr, ho, hf⟩
    exact hu.table ⟨r, hu.row hs h hr hf, ho, hf⟩
  · intro j τ f hj hτ
    rcases turn_running (step_turn h (faultless hk)) hj with hj | ⟨τ₀, hj, hl⟩ | ⟨n, hb, hn⟩
    · exact hu.tasks j τ f hj hτ
    · exact hu.tasks j τ₀ f hj (fails_next hl hτ)
    · exact ha j (begins_fails hs hk hb hn hτ)

/-! ## Runs -/

/-- What holds of every state of such a run. -/
structure Sound (x : TwoPayments) (s : State) : Prop where
  inv : x.Inv s
  answered : x.Answered s
  failure : Saw x.failure s → Marking (.markFailed x.failure) x.Lost s
  authorization : Saw x.authorization s →
    Marking (.markAuthorized x.authorization) (·.Left x.order) s

theorem sound_ready (h : x.Ready s) : x.Sound s := by
  have hrun : ∀ i τ f, s.actors i ≠ .running τ f := by simp [h.idle]
  have hsaw : ∀ d : Delivery, d = x.failure ∨ d = x.authorization → ¬ Saw d s := by
    rintro d hd ⟨hk, hmem⟩
    obtain ⟨e, he, hid⟩ := List.mem_map.mp hmem
    obtain ⟨hf, ha⟩ := h.events e he (hid ▸ hk)
    rcases hd with rfl | rfl
    · exact hf hid
    · exact ha hid
  obtain ⟨r, hr, ho, hc, hp, -⟩ := h.row
  refine ⟨⟨⟨⟨r, hr, ho, hc, .inl hp⟩, fun r hr => (h.unheld r hr).1,
    fun r hr hpay => absurd hpay (h.unheld r hr).2⟩, ?_, ?_, ?_, h.paid⟩, ⟨?_, ?_, ?_⟩, ?_, ?_⟩
  · exact fun i τ f hi => absurd hi (hrun i τ f)
  · intro i q hi
    rw [h.idle i] at hi
    cases hi
  · simp [h.published]
  · exact fun i τ f hi => absurd hi (hrun i τ f)
  · exact fun i τ f hi => absurd hi (hrun i τ f)
  · rintro r ((⟨ticket, hp⟩ | ⟨key, row, hk, -⟩) | ⟨i, hi⟩)
    · rw [h.store] at hp
      cases hp
    · rw [h.store] at hk
      cases hk
    · rw [h.idle i] at hi
      cases hi
  · exact fun hd => absurd hd (hsaw _ (.inl rfl))
  · exact fun hd => absurd hd (hsaw _ (.inr rfl))

theorem sound_step (hs : x.Sound s) (hk : x.Step s a) (h : step s a = some t) : x.Sound t where
  inv := inv_step hs.inv hk h
  answered := answered_step hs.inv hs.answered hk h
  failure := saw_step x.settles_failure hs.inv hk h hs.failure
  authorization := saw_step x.settles_authorization hs.inv hk h hs.authorization

/-- A delivery of the failure ends with the order out of play. -/
theorem lost_of_deliver (hs : x.Sound s) (h : system.Run x.Step s as t)
    (hidle : ∀ i, t.actors i = .idle) (hd : ∃ a ∈ as, ∃ i, a = .deliver i x.failure) :
    x.Lost t.escrow := by
  have hcoming : Coming x.failure (.markFailed x.failure) x.Lost t := by
    refine h.reaches (I := x.Sound) (fun s a t => sound_step) ?_ hs (.inr hd)
    rintro s a t hs hk hst (hc | ⟨i, rfl⟩)
    · exact coming_step x.settles_failure hs.inv hk hst hs.failure hc
    · exact coming_deliver x.settles_failure hst
  rcases hcoming with (hl | ⟨i, row, f, hi⟩) | ⟨i, f, hi | ⟨row, hi⟩⟩
  · exact hl
  all_goals
    rw [hidle i] at hi
    cases hi

/-- A report of the second payment ends with the order moved. -/
theorem left_of_reports (hs : x.Sound s) (h : system.Run x.Step s as t)
    (hidle : ∀ i, t.actors i = .idle) (hd : ∃ a ∈ as, x.Reports a) : t.escrow.Left x.order := by
  have hreported : x.Reported t := by
    refine h.reaches (I := x.Sound) (fun s a t => sound_step) ?_ hs (.inr hd)
    rintro s a t hs hk hst (hr | ⟨i, rfl⟩ | ⟨i, q, rfl⟩)
    · exact reported_step hs.inv hs.answered hk hst hs.authorization hr
    · exact .inl (coming_deliver x.settles_authorization hst)
    · exact reported_request (i := i) hs.inv hs.answered hk hst (.inr ⟨q, rfl⟩)
  rcases hreported with ((hl | ⟨i, row, f, hi⟩) | ⟨i, f, hi | ⟨row, hi⟩⟩) | ⟨i, τ, f, hi, -⟩ |
    ⟨i, hi⟩
  · exact hl
  all_goals
    rw [hidle i] at hi
    cases hi

/--
After a failed payment and an authorized one, reported in any order, by any way and any number of
times, the order is authorized with the second payment, and no escrow has failed that the first
one did not hold, if and only if the webhook of the failure was never delivered.
-/
theorem funded_iff (hr : x.Ready s₀) (h : system.Run x.Step s₀ as t)
    (hidle : ∀ i, t.actors i = .idle) (hp : ∃ a ∈ as, x.Reports a) :
    (x.Funded t.escrow ∧ ∀ y ∈ system.steps s₀ as, x.HeldFailure y.1.escrow y.2.2.escrow) ↔
      ∀ i, .deliver i x.failure ∉ as := by
  have hs : x.Sound s₀ := sound_ready hr
  constructor
  · rintro ⟨⟨r, hr, ho, ha, -⟩, -⟩ i hi
    obtain ⟨r', hr', ho', hf⟩ := lost_of_deliver hs h hidle ⟨_, hi, i, rfl⟩
    obtain rfl := Table.eq_of_orderId hr hr' (ho.trans ho'.symm)
    rw [ha] at hf
    cases hf
  · intro hd
    have hrun := h.avoiding (E := fun a => ∃ i, a = .deliver i x.failure)
      (by rintro _ ha ⟨i, rfl⟩; exact hd i ha)
    have hu : x.Unreported s₀ := by
      refine ⟨?_, fun i τ f hi => by simp [hr.idle] at hi⟩
      rintro ⟨r, hr', ho, hf⟩
      obtain ⟨r', hrow, ho', -, hpending, -⟩ := hr.row
      obtain rfl := Table.eq_of_orderId hr' hrow (ho.trans ho'.symm)
      rw [hpending] at hf
      cases hf
    have hkeep : ∀ s a t, x.Sound s ∧ x.Unreported s →
        x.Step s a ∧ ¬ (∃ i, a = .deliver i x.failure) →
        step s a = some t → x.Sound t ∧ x.Unreported t := by
      rintro s a t ⟨hs, hu⟩ ⟨hk, ha⟩ hst
      exact ⟨sound_step hs hk hst, unreported_step hu hs.inv hk (fun i hi => ha ⟨i, hi⟩) hst⟩
    obtain ⟨hst, hut⟩ := hrun.invariant hkeep ⟨hs, hu⟩
    refine ⟨?_, hrun.forall_steps hkeep (fun s a t hs _ hst => hs.2.held hs.1.inv hst) ⟨hs, hu⟩⟩
    obtain ⟨r, hr, ho, -, hstatus⟩ := hst.inv.fits.row
    obtain ⟨r', hr', ho', hleft⟩ := left_of_reports hs h hidle hp
    obtain rfl := Table.eq_of_orderId hr hr' (ho.trans ho'.symm)
    rcases hstatus with hp | ha | hf
    · exact absurd hp hleft
    · exact ⟨r, hr, ho, ha⟩
    · exact absurd ⟨r, hr, ho, hf⟩ hut.table

/-- Order 0 of contract 7; payment 3 fails, and payment 4 succeeds. -/
def sample : TwoPayments where
  order := 0
  contract := 7
  failed := 3
  paid := 4
  ne := by decide
  failure :=
    ⟨some 1, { event := .paymentFailed, payment := some { id := some 3, orderId := some 0 } }⟩
  authorization :=
    ⟨some 2, { event := .paymentAuthorized, payment := some { id := some 4, orderId := some 0 } }⟩
  failure_type := rfl
  failure_order := rfl
  failure_payment := rfl
  authorization_type := rfl
  authorization_order := rfl
  authorization_payment := rfl
  events := by decide

def waiting : State where
  escrow := Table.empty.insert 0 7 50000 "INR"
  payments := fun _ => .authorized

theorem ready_waiting : sample.Ready waiting where
  row := ⟨{ orderId := 0, contractId := 7, amountCents := 50000, currency := "INR" },
    Table.mem_insert.mpr (.inr ⟨by decide, rfl⟩), rfl, rfl, rfl, rfl⟩
  unheld := by decide
  paid := .inl rfl
  events := by simp [waiting]
  published := rfl
  store := rfl
  idle := fun _ => rfl

/-- The first attempt fails, and its event comes before the one of the second. -/
def failedFirst : List Action :=
  .deliver 0 sample.failure :: proceed 0 6 ++ .deliver 0 sample.authorization :: proceed 0 4

/-- The run ends with every handler idle. -/
theorem run_failedFirst : ∃ t, system.exec waiting failedFirst = some t ∧
    system.Run sample.Step waiting failedFirst t ∧ ∀ i, t.actors i = .idle := by
  have h : (system.exec waiting failedFirst).isSome := by decide +kernel
  have hget := (Option.some_get h).symm
  have hstep : ∀ a ∈ failedFirst, ∀ s, sample.Step s a := by
    simp [failedFirst, proceed, Step]
  refine ⟨_, hget, run_of_exec_forall hget hstep, fun i => ?_⟩
  rcases i with _ | i <;> rfl

theorem reports_failedFirst : ∃ a ∈ failedFirst, sample.Reports a :=
  ⟨.deliver 0 sample.authorization, by decide, .inl ⟨0, rfl⟩⟩

theorem funded_failedFirst : ∃ t, system.exec waiting failedFirst = some t ∧
    ((sample.Funded t.escrow ∧ ∀ y ∈ system.steps waiting failedFirst,
        sample.HeldFailure y.1.escrow y.2.2.escrow) ↔
      ∀ i, .deliver i sample.failure ∉ failedFirst) := by
  obtain ⟨t, ht, hrun, hidle⟩ := run_failedFirst
  exact ⟨t, ht, funded_iff ready_waiting hrun hidle reports_failedFirst⟩

instance : Decidable (x.Funded T) :=
  inferInstanceAs (Decidable (∃ r ∈ T.rows, r.orderId = x.order ∧ r.status = .authorized ∧
    r.paymentId = some x.paid))

/-- The order stays `FAILED`, though its second payment is authorized. -/
theorem not_funded : ¬ ∀ (x : TwoPayments) (s₀ t : State) (as : List Action), x.Ready s₀ →
    system.Run x.Step s₀ as t → (∀ i, t.actors i = .idle) → (∃ a ∈ as, x.Reports a) →
      x.Funded t.escrow ∧ ∀ y ∈ system.steps s₀ as, x.HeldFailure y.1.escrow y.2.2.escrow := by
  intro hall
  obtain ⟨t, ht, hrun, hidle⟩ := run_failedFirst
  have hfunded := (hall sample waiting t failedFirst ready_waiting hrun hidle reports_failedFirst).1
  have hnot : ∀ u ∈ system.exec waiting failedFirst, ¬ sample.Funded u.escrow := by decide +kernel
  exact hnot t ht hfunded

end TwoPayments

end AssureCode.Escrow
