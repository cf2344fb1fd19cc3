import AssureCode.Escrow.Model

/-! # What one step of the gateway can do

A step either makes the statement of one handler take effect or leaves the tables, the ledger
and the bus alone. What a statement does to each of them is read off its handler's task.
-/

namespace AssureCode.Escrow

open Gateway Settlement Machine

variable {s t : State} {a : Action} {i j : ℕ} {f f' : Frame} {n : Next} {τ τ' : Task} {o : OrderId}
  {T : Table} {w : Write} {r r' : Row}

/-! ## Statements on the table -/

inductive Write
  | authorize (o : OrderId) (p : Option PaymentId)
  | failOrder (o : OrderId)
  | failPayment (p : PaymentId)
  | release (p : PaymentId)
  | insert (o : OrderId) (c : ContractId) (amountCents : ℕ) (currency : String)
  deriving DecidableEq, Repr

/-- The table after a statement; one that raises changes nothing. -/
def Write.run (T : Table) : Write → Table
  | .authorize o p => (T.authorize o p).getD T
  | .failOrder o => T.setStatus (Table.liveOrder o) .failed
  | .failPayment p => T.setStatus (Table.livePayment p) .failed
  | .release p => T.setStatus (Table.holds p) .released
  | .insert o c amountCents currency => T.insert o c amountCents currency

/-- What a statement makes of a row it selects. -/
inductive Write.Turns (T : Table) : Write → Row → Row → Prop
  | authorize {o : OrderId} {p : Option PaymentId} {r : Row} {T' : Table} :
      T.authorize o p = some T' → Table.pendingOrder o r →
      Turns T (.authorize o p) r { r with status := .authorized, paymentId := p }
  | failOrder {o : OrderId} {r : Row} : Table.liveOrder o r →
      Turns T (.failOrder o) r { r with status := .failed }
  | failPayment {p : PaymentId} {r : Row} : Table.livePayment p r →
      Turns T (.failPayment p) r { r with status := .failed }
  | release {p : PaymentId} {r : Row} : Table.holds p r →
      Turns T (.release p) r { r with status := .released }

theorem Write.Turns.frame (h : w.Turns T r r') : r'.orderId = r.orderId ∧
    r'.contractId = r.contractId ∧ r'.amountCents = r.amountCents ∧ r'.currency = r.currency := by
  cases h <;> exact ⟨rfl, rfl, rfl, rfl⟩

theorem Write.Turns.ne_pending (h : w.Turns T r r') : r'.status ≠ .pending := by
  cases h <;> simp

/-- Every row stays, as it was or as the statement makes it. -/
theorem Write.run_rows (w : Write) (hr : r ∈ T.rows) :
    ∃ r' ∈ (w.run T).rows, r' = r ∨ w.Turns T r r' := by
  have hset : ∀ (sel : Row → Bool) (status : EscrowStatus),
      ∃ r' ∈ (T.setStatus sel status).rows,
        r' = r ∨ sel r ∧ r' = { r with status := status } := by
    intro sel status
    refine ⟨_, Table.mem_setStatus.mpr ⟨r, hr, rfl⟩, ?_⟩
    by_cases hsel : sel r <;> simp [hsel]
  cases w with
  | authorize o p =>
    cases hT : T.authorize o p with
    | none => exact ⟨r, by simpa [Write.run, hT] using hr, .inl rfl⟩
    | some T' =>
      refine ⟨Table.authorized o p r, ?_, ?_⟩
      · simpa [Write.run, hT, Table.rows_authorize hT] using List.mem_map_of_mem hr
      · by_cases hsel : Table.pendingOrder o r
        · exact .inr (by simpa [Table.authorized, hsel] using .authorize hT hsel)
        · exact .inl (by simp [Table.authorized, hsel])
  | failOrder o =>
    obtain ⟨r', hr', h⟩ := hset (Table.liveOrder o) .failed
    exact ⟨r', hr', h.imp_right fun ⟨hsel, he⟩ => he ▸ .failOrder hsel⟩
  | failPayment p =>
    obtain ⟨r', hr', h⟩ := hset (Table.livePayment p) .failed
    exact ⟨r', hr', h.imp_right fun ⟨hsel, he⟩ => he ▸ .failPayment hsel⟩
  | release p =>
    obtain ⟨r', hr', h⟩ := hset (Table.holds p) .released
    exact ⟨r', hr', h.imp_right fun ⟨hsel, he⟩ => he ▸ .release hsel⟩
  | insert o c n currency => exact ⟨r, Table.mem_insert.mpr (.inl hr), .inl rfl⟩

/-- A row was there before, or the statement has turned or inserted it. -/
theorem Write.mem_run (hr : r ∈ (w.run T).rows) :
    (∃ r₀ ∈ T.rows, r = r₀ ∨ w.Turns T r₀ r) ∨ ∃ o c n currency, w = .insert o c n currency ∧
      o ∉ T.rows.map (·.orderId) ∧
        r = { orderId := o, contractId := c, amountCents := n, currency := currency } := by
  have hset : ∀ {sel : Row → Bool} {status : EscrowStatus}, r ∈ (T.setStatus sel status).rows →
      ∃ r₀ ∈ T.rows, r = r₀ ∨ sel r₀ ∧ r = { r₀ with status := status } := by
    intro sel status hr
    obtain ⟨r₀, hr₀, rfl⟩ := Table.mem_setStatus.mp hr
    refine ⟨r₀, hr₀, ?_⟩
    by_cases hsel : sel r₀ <;> simp [hsel]
  cases w with
  | authorize o p =>
    refine .inl ?_
    cases hT : T.authorize o p with
    | none => exact ⟨r, by simpa [Write.run, hT] using hr, .inl rfl⟩
    | some T' =>
      simp only [Write.run, hT, Option.getD_some, Table.rows_authorize hT, List.mem_map] at hr
      obtain ⟨r₀, hr₀, rfl⟩ := hr
      refine ⟨r₀, hr₀, ?_⟩
      by_cases hsel : Table.pendingOrder o r₀
      · exact .inr (by simpa [Table.authorized, hsel] using .authorize hT hsel)
      · exact .inl (by simp [Table.authorized, hsel])
  | failOrder o =>
    obtain ⟨r₀, hr₀, h⟩ := hset hr
    exact .inl ⟨r₀, hr₀, h.imp_right fun ⟨hsel, he⟩ => he ▸ .failOrder hsel⟩
  | failPayment p =>
    obtain ⟨r₀, hr₀, h⟩ := hset hr
    exact .inl ⟨r₀, hr₀, h.imp_right fun ⟨hsel, he⟩ => he ▸ .failPayment hsel⟩
  | release p =>
    obtain ⟨r₀, hr₀, h⟩ := hset hr
    exact .inl ⟨r₀, hr₀, h.imp_right fun ⟨hsel, he⟩ => he ▸ .release hsel⟩
  | insert o c n currency =>
    rcases Table.mem_insert.mp hr with hr | ⟨ho, rfl⟩
    · exact .inl ⟨r, hr, .inl rfl⟩
    · exact .inr ⟨o, c, n, currency, rfl, ho, rfl⟩

def Task.write : Task → Option Write
  | .markAuthorized d row => some (.authorize row.orderId d.event.paymentId)
  | .markFailed _ row => some (.failOrder row.orderId)
  | .confirm _ o p _ => some (.authorize o (some p))
  | .apply m =>
    match m.paymentId, m.type with
    | some p, .paymentFailed => some (.failPayment p)
    | some p, .paymentAuthorized | some p, .orderPaid => some (.authorize m.orderId (some p))
    | _, _ => none
  | .insertOrder c amountMinor currency o => some (.insert o c amountMinor currency)
  | .release held => some (.release held.paymentId)
  | _ => none

def Task.entry : Task → Option Entry
  | .appendAuthorized d row =>
    some (.authorized row.contractId row.orderId d.event.paymentId row.amountCents row.currency)
  | .appendFailed d row => some <| .event row.contractId row.orderId d.event.paymentId
      d.event.event d.event.errorDescription
  | .appendConfirmed c o p row => some (.authorized c o (some p) row.amountCents row.currency)
  | .appendCreated c amountMinor currency o => some (.created c o amountMinor currency)
  | _ => none

def Task.message : Task → Option Message
  | .publishAuthorized d row =>
    some ⟨row.contractId, row.orderId, d.event.paymentId, .paymentAuthorized⟩
  | .publishFailed d row => some ⟨row.contractId, row.orderId, d.event.paymentId, .paymentFailed⟩
  | .publishConfirmed c o p _ => some ⟨c, o, some p, .paymentAuthorized⟩
  | _ => none

def Task.paymentEvent : Task → Option PaymentEvent
  | .dedupe d row => some (d.paymentEvent row)
  | .recordConfirmed c o p row =>
    some ⟨c, "escrow.authorized", row.amountCents, some o, some p, none⟩
  | .recordCreated c amountMinor _ o =>
    some ⟨c, "escrow.created", amountMinor, some o, none, none⟩
  | _ => none

def Task.newOrders : Task → ℕ
  | .createOrder .. => 1
  | _ => 0

/-- The state after the statement or call of a task. -/
def Task.effect (τ : Task) (s : State) : State :=
  { s with
    escrow := τ.write.elim s.escrow (Write.run s.escrow)
    paymentEvents := τ.paymentEvent.elim s.paymentEvents fun e =>
      (recordPaymentEvent s e).1.paymentEvents
    ledger := τ.entry.toList ++ s.ledger
    published := τ.message.toList ++ s.published
    orders := s.orders + τ.newOrders }

theorem recordPaymentEvent_eq (s : State) (e : PaymentEvent) :
    (recordPaymentEvent s e).1 =
      { s with paymentEvents := (recordPaymentEvent s e).1.paymentEvents } := by
  unfold recordPaymentEvent
  split <;> rfl

theorem perform_effect (s : State) (τ : Task) : (perform s τ).1 = τ.effect s := by
  cases τ with
  | lookup d => simp only [perform]; split <;> rfl
  | dedupe d row => exact recordPaymentEvent_eq s _
  | markAuthorized d row =>
    simp only [perform, Task.effect, Task.write, Option.elim_some, Write.run]
    split
    · simp [*, Task.paymentEvent, Task.entry, Task.message, Task.newOrders]
    · split <;> simp [*, Task.paymentEvent, Task.entry, Task.message, Task.newOrders]
  | markFailed d row => simp only [perform]; split <;> rfl
  | find c o p => simp only [perform]; split <;> [rfl; split <;> rfl]
  | fetch c o p row => simp only [perform]; split <;> rfl
  | confirm c o p row =>
    simp only [perform, Task.effect, Task.write, Option.elim_some, Write.run]
    split
    · simp [*, Task.paymentEvent, Task.entry, Task.message, Task.newOrders]
    · split <;> simp [*, Task.paymentEvent, Task.entry, Task.message, Task.newOrders]
  | recordConfirmed c o p row => exact recordPaymentEvent_eq s _
  | apply m =>
    obtain ⟨c, o, p, type⟩ := m
    cases p <;> cases type <;> rfl
  | reuse c amountMinor currency => simp only [perform]; split <;> rfl
  | recordCreated c amountMinor currency o => exact recordPaymentEvent_eq s _
  | selectHeld c => simp only [perform]; split <;> rfl
  | _ => rfl

/-! ## From task to task -/

/-- The way from a task to the next, once its statement has succeeded. -/
inductive Leads (s : State) : Task → Task → Prop
  | lookup {d : Delivery} {row : Row} : s.escrow.select d.matches = some row →
      Leads s (.lookup d) (.dedupe d row)
  | gateAuthorized {d : Delivery} {row : Row} :
      d.event.event = .paymentAuthorized ∨ d.event.event = .orderPaid →
      Leads s (.dedupe d row) (.markAuthorized d row)
  | gateFailed {d : Delivery} {row : Row} : d.event.event = .paymentFailed →
      Leads s (.dedupe d row) (.markFailed d row)
  | markAuthorized {d : Delivery} {row : Row} {T : Table} :
      s.escrow.authorize row.orderId d.event.paymentId = some T →
      s.escrow.count (Table.pendingOrder row.orderId) = 1 →
      Leads s (.markAuthorized d row) (.appendAuthorized d row)
  | appendAuthorized {d : Delivery} {row : Row} :
      Leads s (.appendAuthorized d row) (.publishAuthorized d row)
  | markFailed {d : Delivery} {row : Row} :
      s.escrow.count (Table.liveOrder row.orderId) = 1 →
      Leads s (.markFailed d row) (.appendFailed d row)
  | appendFailed {d : Delivery} {row : Row} : Leads s (.appendFailed d row) (.publishFailed d row)
  | find {c : ContractId} {o : OrderId} {p : PaymentId} {row : Row} :
      s.escrow.select (·.orderId = o) = some row → row.contractId = c →
      Leads s (.find c o p) (.fetch c o p row)
  | fetch {c : ContractId} {o : OrderId} {p : PaymentId} {row : Row} :
      s.payments p = .authorized ∨ s.payments p = .captured →
      Leads s (.fetch c o p row) (.confirm c o p row)
  | confirm {c : ContractId} {o : OrderId} {p : PaymentId} {row : Row} {T : Table} :
      s.escrow.authorize o (some p) = some T → s.escrow.count (Table.pendingOrder o) = 1 →
      Leads s (.confirm c o p row) (.appendConfirmed c o p row)
  | appendConfirmed {c : ContractId} {o : OrderId} {p : PaymentId} {row : Row} :
      Leads s (.appendConfirmed c o p row) (.recordConfirmed c o p row)
  | recordConfirmed {c : ContractId} {o : OrderId} {p : PaymentId} {row : Row} :
      Leads s (.recordConfirmed c o p row) (.publishConfirmed c o p row)
  | reuse {c : ContractId} {n : ℕ} {currency : String} :
      s.escrow.select (reusable c n currency) = none →
      Leads s (.reuse c n currency) (.createOrder c n currency)
  | createOrder {c : ContractId} {n : ℕ} {currency : String} :
      Leads s (.createOrder c n currency) (.appendCreated c n currency s.orders)
  | appendCreated {c : ContractId} {n : ℕ} {currency : String} {o : OrderId} :
      Leads s (.appendCreated c n currency o) (.insertOrder c n currency o)
  | insertOrder {c : ContractId} {n : ℕ} {currency : String} {o : OrderId} :
      Leads s (.insertOrder c n currency o) (.recordCreated c n currency o)
  | selectHeld {c : ContractId} {held : EscrowPayment} :
      s.escrow.findEscrowPayment c = some held → Leads s (.selectHeld c) (.release held)

theorem gate_leads {d : Delivery} {row : Row} {inserted : Bool}
    (h : d.gate row inserted = .task τ) : Leads s (.dedupe d row) τ := by
  simp only [Delivery.gate, Delivery.act] at h
  split at h
  · cases h
  · split at h <;> cases h
    · exact .gateAuthorized (.inl ‹_›)
    · exact .gateAuthorized (.inr ‹_›)
    · exact .gateFailed ‹_›

theorem perform_leads (h : (perform s τ).2 = .task τ') : Leads s τ τ' := by
  cases τ with
  | lookup d => simp only [perform] at h; split at h <;> cases h; exact .lookup ‹_›
  | dedupe d row => exact gate_leads h
  | markAuthorized d row =>
    simp only [perform] at h
    split at h
    · cases h
    · split at h <;> cases h; exact .markAuthorized ‹_› ‹_›
  | appendAuthorized d row => cases h; exact .appendAuthorized
  | markFailed d row => simp only [perform] at h; split at h <;> cases h; exact .markFailed ‹_›
  | appendFailed d row => cases h; exact .appendFailed
  | find c o p =>
    simp only [perform] at h
    split at h
    · cases h
    · split at h <;> cases h; exact .find ‹_› ‹_›
  | fetch c o p row => simp only [perform] at h; split at h <;> cases h; exact .fetch ‹_›
  | confirm c o p row =>
    simp only [perform] at h
    split at h
    · cases h
    · split at h <;> cases h; exact .confirm ‹_› ‹_›
  | appendConfirmed c o p row => cases h; exact .appendConfirmed
  | recordConfirmed c o p row => cases h; exact .recordConfirmed
  | apply m =>
    obtain ⟨c, o, q, type⟩ := m
    cases q <;> cases type <;> cases h
  | reuse c n currency => simp only [perform] at h; split at h <;> cases h; exact .reuse ‹_›
  | createOrder c n currency => cases h; exact .createOrder
  | appendCreated c n currency o => cases h; exact .appendCreated
  | insertOrder c n currency o => cases h; exact .insertOrder
  | selectHeld c => simp only [perform] at h; split at h <;> cases h; exact .selectHeld ‹_›
  | _ => cases h

/-- An exception that is caught leads where success would. -/
theorem raised_leads (h : raised τ = .task τ') :
    Leads s τ τ' ∧
      ((∃ d row, τ = .dedupe d row) ∨ ∃ c o p row, τ = .recordConfirmed c o p row) := by
  cases τ with
  | dedupe d row => exact ⟨gate_leads h, .inl ⟨d, row, rfl⟩⟩
  | recordConfirmed c o p row =>
    cases h
    exact ⟨.recordConfirmed, .inr ⟨c, o, p, row, rfl⟩⟩
  | _ => cases h

theorem reusable_iff {c : ContractId} {amountMinor : ℕ} {currency : String} :
    reusable c amountMinor currency r ↔ r.contractId = c ∧ r.status = .pending ∧
      r.amountCents = amountMinor ∧ r.currency = currency :=
  decide_eq_true_iff

/-! ## Steps -/

/-- The action makes the statement or call of a running task take effect. -/
def Executes (s : State) (a : Action) (τ : Task) : Prop :=
  ∃ i o f, a = .advance i o ∧ o ≠ .failed ∧ s.actors i = .running τ f

theorem Executes.unique (h : Executes s a τ) (h' : Executes s a τ') : τ = τ' := by
  obtain ⟨i, o, f, rfl, -, hi⟩ := h
  obtain ⟨j, o', f', ha, -, hj⟩ := h'
  cases ha
  cases hi.symm.trans hj
  rfl

/-- What the handlers share: all of the state but the middleware's part of it. -/
def State.tables (s : State) : Table × List PaymentEvent × List Entry × List Message × ℕ :=
  (s.escrow, s.paymentEvents, s.ledger, s.published, s.orders)

@[simp] theorem setActor_tables {b : Actor} : (s.setActor i b).tables = s.tables := rfl

@[simp] theorem setActor_self {b : Actor} : (s.setActor i b).actors i = b := by
  simp [State.setActor]

theorem setActor_ne {b : Actor} (h : j ≠ i) : (s.setActor i b).actors j = s.actors j := by
  simp [State.setActor, h]

@[simp] theorem goto_tables : (s.goto i f n).tables = s.tables := by
  cases n with
  | task τ => rfl
  | done r =>
    cases f with
    | keyed q key ticket claim => cases claim <;> rfl
    | _ => rfl
  | throw => cases f <;> rfl

theorem goto_ne (h : j ≠ i) : (s.goto i f n).actors j = s.actors j := by
  cases n with
  | task τ => exact setActor_ne h
  | done r =>
    cases f with
    | keyed q key ticket claim => cases claim <;> exact setActor_ne h
    | _ => exact setActor_ne h
  | throw => cases f <;> exact setActor_ne h

theorem goto_running :
    (s.goto i f n).actors i = .running τ f' ↔ n = .task τ ∧ f = f' := by
  cases n with
  | task τ => simp [State.goto]
  | done r =>
    cases f with
    | keyed q key ticket claim => cases claim <;> simp [State.goto]
    | _ => simp [State.goto]
  | throw =>
    cases f with
    | keyed q key ticket claim => cases claim <;> simp [State.goto]
    | _ => simp [State.goto]

/-- How a handler of the middleware or of the system begins. -/
def Task.Starts (s : State) : Task → Prop
  | .lookup _ | .find .. | .reuse .. | .selectHeld _ => True
  | .apply m => m ∈ s.published
  | _ => False

theorem deliveryStart_task {d : Delivery} (h : d.start = .task τ) : τ.Starts s := by
  unfold Delivery.start at h
  split at h
  · cases h
  · cases h; trivial

theorem callStart_task {c : Call} (h : c.start = .task τ) : τ.Starts s := by
  cases c with
  | fund c b =>
    simp only [Call.start] at h
    split at h
    · cases h; trivial
    · cases h
  | verify c b =>
    simp only [Call.start] at h
    split at h
    · split at h
      · cases h; trivial
      · cases h
    · cases h

/-- No statement fails, and no process dies. -/
def Faultless (_ : State) : Action → Prop
  | .advance _ o => o = .ok
  | .crash _ => False
  | _ => True

/-- A step that executes no statement. -/
structure Quiet (s : State) (a : Action) (t : State) : Prop where
  tables : t.tables = s.tables
  running : ∀ j τ f, t.actors j = .running τ f → s.actors j = .running τ f ∨ τ.Starts s ∨
    ∃ τ₀, s.actors j = .running τ₀ f ∧ raised τ₀ = .task τ
  /-- Only a fault stops a running handler. -/
  kept : Faultless s a → ∀ j τ f, s.actors j = .running τ f → t.actors j = .running τ f

theorem Quiet.refl (ht : t.tables = s.tables) (ha : t.actors = s.actors) : Quiet s a t :=
  ⟨ht, fun _ _ _ hr => .inl (ha ▸ hr), fun _ _ _ _ hr => ha ▸ hr⟩

theorem Quiet.setActor {b : Actor} (hb : ∀ τ f, b ≠ .running τ f) (ht : t.tables = s.tables)
    (ha : t.actors = s.actors) (hi : Faultless s a → ∀ τ f, s.actors i ≠ .running τ f) :
    Quiet s a (t.setActor i b) := by
  refine ⟨by rw [setActor_tables, ht], fun j τ f hr => ?_, fun hf j τ f hr => ?_⟩
  · rcases eq_or_ne j i with rfl | hj
    · exact absurd (setActor_self.symm.trans hr) (hb τ f)
    · rw [setActor_ne hj, ha] at hr
      exact .inl hr
  · rcases eq_or_ne j i with rfl | hj
    · exact absurd hr (hi hf τ f)
    · rwa [setActor_ne hj, ha]

theorem Quiet.goto (ht : t.tables = s.tables) (ha : t.actors = s.actors)
    (hn : ∀ τ, n = .task τ → τ.Starts s ∨ ∃ τ₀, s.actors i = .running τ₀ f ∧ raised τ₀ = .task τ)
    (hi : Faultless s a → ∀ τ f, s.actors i ≠ .running τ f) :
    Quiet s a (t.goto i f n) := by
  refine ⟨by rw [goto_tables, ht], fun j τ f' hr => ?_, fun hf j τ f' hr => ?_⟩
  · rcases eq_or_ne j i with rfl | hj
    · obtain ⟨hτ, rfl⟩ := goto_running.mp hr
      exact .inr (hn τ hτ)
    · rw [goto_ne hj, ha] at hr
      exact .inl hr
  · rcases eq_or_ne j i with rfl | hj
    · exact absurd hr (hi hf τ f')
    · rwa [goto_ne hj, ha]

theorem Quiet.runHandler {q : Request} {key : Key} {ticket : Ticket} {claim : Claim}
    (ht : t.tables = s.tables) (ha : t.actors = s.actors)
    (hi : Faultless s a → ∀ τ f, s.actors i ≠ .running τ f) :
    Quiet s a (t.runHandler i q key ticket claim) :=
  .goto ht ha (fun _ hτ => .inl (callStart_task hτ)) hi

/-- Where a task leads when its statement has taken effect. -/
def Task.next (s : State) (τ : Task) : Outcome → Next
  | .ok => (perform s τ).2
  | _ => raised τ

/-- A step executes the statement of a handler, or it is quiet. -/
inductive Steps (s : State) (a : Action) : State → Prop
  | execute {i : ℕ} {τ : Task} {f : Frame} {o : Outcome} :
      a = .advance i o → o ≠ .failed → s.actors i = .running τ f →
      Steps s a ((τ.effect s).goto i f (τ.next s o))
  | quiet {t : State} : (∀ τ, ¬ Executes s a τ) → Quiet s a t → Steps s a t

theorem start_quiet (h : start s i a = some t) (hi : s.actors i = .idle) : Quiet s a t := by
  have hi : ∀ τ f, s.actors i ≠ .running τ f := by simp [hi]
  cases a with
  | deliver _ d =>
    cases h
    exact .goto rfl rfl (fun _ hτ => .inl (deliveryStart_task hτ)) fun _ => hi
  | request _ q =>
    simp only [start] at h
    split at h
    · cases h
      exact .goto rfl rfl (fun _ hτ => .inl (callStart_task hτ)) fun _ => hi
    · split at h
      · cases h
        exact .setActor (by simp) rfl rfl fun _ => hi
      · cases h
        exact .setActor (by simp) rfl rfl fun _ => hi
  | consume _ m =>
    simp only [start] at h
    split at h
    · next hm =>
      cases h
      exact .goto rfl rfl (fun _ hτ => .inl (by cases hτ; exact hm)) fun _ => hi
    · cases h
  | settle _ c =>
    cases h
    exact .goto rfl rfl (fun _ hτ => .inl (by cases hτ; trivial)) fun _ => hi
  | _ => cases h

theorem advance_steps {o : Outcome} (h : advance s i o = some t) : Steps s (.advance i o) t := by
  have hquiet : (∀ τ f, s.actors i ≠ .running τ f) → ∀ τ, ¬ Executes s (.advance i o) τ := by
    rintro hr τ ⟨j, o', f, ha, -, hj⟩
    cases ha
    exact hr τ f hj
  unfold advance at h
  cases hi : s.actors i with
  | idle => simp [hi] at h
  | running τ f =>
    cases o with
    | ok =>
      simp only [hi, Option.some.injEq] at h
      rw [← h, perform_effect]
      exact .execute (o := .ok) rfl (by simp) hi
    | failed =>
      simp only [hi, Option.some.injEq] at h
      subst h
      refine .quiet ?_ (.goto rfl rfl (fun τ' hτ => .inr ⟨τ, hi, hτ⟩) fun hf => by cases hf)
      rintro τ' ⟨j, o', f', ha, ho, -⟩
      cases ha
      exact ho rfl
    | lost =>
      simp only [hi, Option.some.injEq] at h
      rw [← h, perform_effect]
      exact .execute (o := .lost) rfl (by simp) hi
  | awaiting q key ticket =>
    have hr : ∀ τ f, s.actors i ≠ .running τ f := by simp [hi]
    cases o with
    | ok =>
      simp only [hi] at h
      obtain ⟨r, -, rfl⟩ := Option.map_eq_some_iff.mp h
      exact .quiet (hquiet hr) (.setActor (by simp) rfl rfl fun _ => hr)
    | _ => simp [hi] at h
  | reserving q key ticket =>
    have hr : ∀ τ f, s.actors i ≠ .running τ f := by simp [hi]
    refine .quiet (hquiet hr) ?_
    cases o with
    | ok =>
      simp only [hi, Option.some.injEq] at h
      subst h
      split
      · exact .runHandler rfl rfl fun _ => hr
      · exact .setActor (by simp) rfl rfl fun _ => hr
    | _ => simp only [hi, Option.some.injEq] at h; subst h; exact .runHandler rfl rfl fun _ => hr
  | polling q key ticket =>
    have hr : ∀ τ f, s.actors i ≠ .running τ f := by simp [hi]
    refine .quiet (hquiet hr) ?_
    cases o with
    | ok =>
      simp only [hi, Option.some.injEq] at h
      subst h
      split
      · exact .setActor (by simp) rfl rfl fun _ => hr
      · exact .refl rfl rfl
    | _ => simp only [hi, Option.some.injEq] at h; subst h; exact .runHandler rfl rfl fun _ => hr
  | persisting q key r =>
    have hr : ∀ τ f, s.actors i ≠ .running τ f := by simp [hi]
    refine .quiet (hquiet hr) ?_
    cases o <;> simp only [hi, Option.some.injEq] at h <;> subst h <;>
      exact .setActor (by simp) rfl rfl fun _ => hr
  | releasing q key ticket =>
    have hr : ∀ τ f, s.actors i ≠ .running τ f := by simp [hi]
    refine .quiet (hquiet hr) ?_
    cases o <;> simp only [hi, Option.some.injEq] at h <;> subst h <;>
      exact .runHandler rfl rfl fun _ => hr
  | acknowledging d r =>
    have hr : ∀ τ f, s.actors i ≠ .running τ f := by simp [hi]
    refine .quiet (hquiet hr) ?_
    cases o <;> simp only [hi, Option.some.injEq] at h <;> subst h <;>
      exact .setActor (by simp) rfl rfl fun _ => hr
  | replying q r =>
    have hr : ∀ τ f, s.actors i ≠ .running τ f := by simp [hi]
    simp only [hi, Option.some.injEq] at h
    subst h
    exact .quiet (hquiet hr) (.setActor (by simp) rfl rfl fun _ => hr)

theorem step_steps (h : step s a = some t) : Steps s a t := by
  have hquiet : (∀ i o, a ≠ .advance i o) → ∀ τ, ¬ Executes s a τ := by
    rintro ha τ ⟨i, o, f, rfl, -⟩
    exact ha i o rfl
  cases a with
  | advance i o => exact advance_steps h
  | timeout i =>
    refine .quiet (hquiet (by simp)) ?_
    simp only [step] at h
    split at h
    · next hi => cases h; exact .setActor (by simp) rfl rfl fun _ => by simp [hi]
    · next hi => cases h; exact .runHandler rfl rfl fun _ => by simp [hi]
    · cases h
  | crash i =>
    cases h
    exact .quiet (hquiet (by simp)) (.setActor (by simp) rfl rfl fun hf => hf.elim)
  | evict process key => cases h; exact .quiet (hquiet (by simp)) (.refl rfl rfl)
  | expire key => cases h; exact .quiet (hquiet (by simp)) (.refl rfl rfl)
  | pay p status => cases h; exact .quiet (hquiet (by simp)) (.refl rfl rfl)
  | _ =>
    simp only [step] at h
    split at h
    · next hi => exact .quiet (hquiet (by simp)) (start_quiet h hi)
    · cases h

/-- The tables change as a statement says, and only when one is executed. -/
theorem step_tables (h : step s a = some t) :
    (∃ τ, Executes s a τ ∧ t.tables = (τ.effect s).tables) ∨
      (∀ τ, ¬ Executes s a τ) ∧ t.tables = s.tables := by
  cases step_steps h with
  | execute ha ho hi => exact .inl ⟨_, ⟨_, _, _, ha, ho, hi⟩, goto_tables⟩
  | quiet hn hq => exact .inr ⟨hn, hq.tables⟩

theorem executes_tables (h : step s a = some t) (hτ : Executes s a τ) :
    t.tables = (τ.effect s).tables := by
  rcases step_tables h with ⟨τ', hτ', ht⟩ | ⟨hn, -⟩
  · rw [ht, hτ.unique hτ']
  · exact absurd hτ (hn τ)

/-- The table changes as a write says, and only when one is executed. -/
theorem step_escrow (h : step s a = some t) :
    (∃ τ w, Executes s a τ ∧ τ.write = some w ∧ t.escrow = w.run s.escrow) ∨
      (∀ τ w, Executes s a τ → τ.write ≠ some w) ∧ t.escrow = s.escrow := by
  rcases step_tables h with ⟨τ, hτ, ht⟩ | ⟨hn, ht⟩
  · have he : t.escrow = τ.write.elim s.escrow (Write.run s.escrow) := congrArg Prod.fst ht
    cases hw : τ.write with
    | none =>
      refine .inr ⟨fun τ' w hτ' => ?_, by rw [he, hw]; rfl⟩
      rw [hτ'.unique hτ, hw]
      simp
    | some w => exact .inl ⟨τ, w, hτ, hw, by rw [he, hw]; rfl⟩
  · exact .inr ⟨fun τ w hτ => absurd hτ (hn τ), congrArg Prod.fst ht⟩

/-- What every statement keeps of the table, every step keeps. -/
theorem escrow_step {P : Table → Prop} (hP : ∀ T w, P T → P (Write.run T w))
    (h : step s a = some t) (hs : P s.escrow) : P t.escrow := by
  rcases step_escrow h with ⟨τ, w, -, -, ht⟩ | ⟨-, ht⟩ <;> rw [ht]
  · exact hP _ w hs
  · exact hs

/-- Where a running task comes from. -/
theorem step_running (h : step s a = some t) (hr : t.actors j = .running τ f) :
    s.actors j = .running τ f ∨ τ.Starts s ∨ ∃ τ₀, s.actors j = .running τ₀ f ∧
      (raised τ₀ = .task τ ∨ Executes s a τ₀ ∧ (perform s τ₀).2 = .task τ) := by
  cases step_steps h with
  | @execute i τ₀ f₀ o ha ho hi =>
    rcases eq_or_ne j i with rfl | hj
    · obtain ⟨hn, rfl⟩ := goto_running.mp hr
      refine .inr (.inr ⟨τ₀, hi, ?_⟩)
      cases o with
      | ok => exact .inr ⟨⟨_, _, _, ha, ho, hi⟩, hn⟩
      | failed => exact absurd rfl ho
      | lost => exact .inl hn
    · rw [goto_ne hj] at hr
      exact .inl hr
  | quiet _ hq =>
    rcases hq.running j τ f hr with h | h | ⟨τ₀, hi, hn⟩
    · exact .inl h
    · exact .inr (.inl h)
    · exact .inr (.inr ⟨τ₀, hi, .inl hn⟩)

/-- A task that neither a start nor an exception leads to was there and has not been executed, or
the statement before it has. -/
theorem step_running_next (h : step s a = some t) (hr : t.actors j = .running τ f)
    (hstart : ¬ τ.Starts s) (hraise : ∀ τ₀, raised τ₀ ≠ .task τ) :
    s.actors j = .running τ f ∧ (∀ c, c ≠ .failed → a ≠ .advance j c) ∨
      a = .advance j .ok ∧ ∃ τ₀, s.actors j = .running τ₀ f ∧ Leads s τ₀ τ := by
  cases step_steps h with
  | @execute i τ₀ f₀ c hac hc hi =>
    rcases eq_or_ne j i with rfl | hj
    · obtain ⟨hn, rfl⟩ := goto_running.mp hr
      cases c with
      | ok => exact .inr ⟨hac, τ₀, hi, perform_leads hn⟩
      | failed => exact absurd rfl hc
      | lost => exact absurd hn (hraise τ₀)
    · rw [goto_ne hj] at hr
      refine .inl ⟨hr, ?_⟩
      rintro c' - rfl
      cases hac
      exact hj rfl
  | quiet hn hq =>
    rcases hq.running j τ f hr with hs | hs | ⟨τ₀, -, hn'⟩
    · refine .inl ⟨hs, ?_⟩
      rintro c hc rfl
      exact hn τ ⟨j, c, f, rfl, hc, hs⟩
    · exact absurd hs hstart
    · exact absurd hn' (hraise τ₀)

/-- What holds of every running task holds after a step if the handlers keep it. -/
theorem running_step {R Q : Task → Prop} (h : step s a = some t)
    (hs : ∀ j τ f, s.actors j = .running τ f → R τ) (hstart : ∀ τ, τ.Starts s → Q τ)
    (hkeep : ∀ τ, R τ → Q τ) (hraise : ∀ τ₀ τ, R τ₀ → raised τ₀ = .task τ → Q τ)
    (hnext : ∀ τ₀ τ, Executes s a τ₀ → R τ₀ → (perform s τ₀).2 = .task τ → Q τ) :
    ∀ j τ f, t.actors j = .running τ f → Q τ := by
  intro j τ f hr
  rcases step_running h hr with hi | hτ | ⟨τ₀, hi, hτ | ⟨he, hτ⟩⟩
  · exact hkeep τ (hs j τ f hi)
  · exact hstart τ hτ
  · exact hraise τ₀ τ (hs j τ₀ f hi) hτ
  · exact hnext τ₀ τ he (hs j τ₀ f hi) hτ

/-- Without faults only its own statement moves a running handler. -/
theorem running_kept (h : step s a = some t) (hf : Faultless s a)
    (hn : a ≠ .advance j .ok) (hr : s.actors j = .running τ f) : t.actors j = .running τ f := by
  cases step_steps h with
  | @execute i _ _ o ha _ _ =>
    subst ha
    have ho : o = .ok := hf
    have hj : j ≠ i := fun hj => hn (by rw [ho, hj])
    rwa [goto_ne hj]
  | quiet _ hq => exact hq.kept hf j τ f hr

/-- Without faults a handler whose statement is executed goes on to its next task. -/
theorem running_next (h : step s a = some t) (hf : Faultless s a) (hτ : Executes s a τ)
    (hn : (perform s τ).2 = .task τ') : ∃ i f, t.actors i = .running τ' f := by
  obtain ⟨i, o, f, rfl, ho, hi⟩ := hτ
  cases hf
  have ht : (perform s τ).1.goto i f (perform s τ).2 = t := by
    simpa [step, advance, hi] using h
  refine ⟨i, f, ?_⟩
  rw [← ht, hn]
  exact goto_running.mpr ⟨rfl, rfl⟩

/-! ## A sample contract -/

theorem initial_default : Initial {} := ⟨rfl, rfl, rfl, rfl, rfl, rfl, fun _ => rfl⟩

/-- Handler `i` performs its next `n` statements and calls. -/
def proceed (i n : ℕ) : List Action := List.replicate n (.advance i .ok)

/-- Order 0 is created for contract 7. -/
def fundOrder : List Action :=
  .request 0 ⟨0, none, .fund 7 { amountMinor := some 50000 }⟩ :: proceed 0 6

/-- Payment 3 is authorized and confirmed for order 0. -/
def confirmOrder : List Action :=
  [.pay 3 .authorized,
    .request 0 ⟨0, none, .verify 7 ⟨some 0, some 3, some (some (0, 3))⟩⟩] ++ proceed 0 7

/-- `payment.failed` for payment 3 of order 0. -/
def failedDelivery : Delivery where
  providerEventId := some 1
  event := { event := .paymentFailed, payment := some { id := some 3, orderId := some 0 } }

end AssureCode.Escrow
