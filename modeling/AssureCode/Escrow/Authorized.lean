import AssureCode.Escrow.Steps

/-! # One ledger entry for an authorized escrow

Three writers race to move an order from `PENDING`. Two of them append `ESCROW_AUTHORIZED`
once their update has moved the row, so what has been appended for an order, what is about to
be and what was published about it all presuppose that the row has left `PENDING`.
-/

namespace AssureCode.Escrow

open Gateway Settlement Machine

variable {s t s₀ : State} {a : Action} {as : List Action} {T T' : Table} {o : OrderId}
  {i j : ℕ} {f f' : Frame} {τ τ' : Task} {r : Row}

def Entry.isAuthorized (o : OrderId) : Entry → Bool
  | .authorized _ o' _ _ _ => o' = o
  | _ => false

/-- The `ESCROW_AUTHORIZED` entries of an order. -/
def State.authorizedEntries (s : State) (o : OrderId) : ℕ := s.ledger.countP (Entry.isAuthorized o)

/-- The order whose `ESCROW_AUTHORIZED` the task appends next. -/
def Task.appends : Task → Option OrderId
  | .appendAuthorized _ row => some row.orderId
  | .appendConfirmed _ o _ _ => some o
  | _ => none

/-- The order that had to leave `PENDING` for the task to be there. -/
def Task.passed : Task → Option OrderId
  | .appendAuthorized _ row | .publishAuthorized _ row => some row.orderId
  | .appendConfirmed _ o _ _ | .recordConfirmed _ o _ _ | .publishConfirmed _ o _ _ => some o
  | .apply m => if m.type = .paymentFailed then none else some m.orderId
  | _ => none

/-- The order a task works on. -/
def Task.order : Task → Option OrderId
  | .lookup d => d.event.orderId
  | .dedupe _ row | .markAuthorized _ row | .appendAuthorized _ row | .publishAuthorized _ row
  | .markFailed _ row | .appendFailed _ row | .publishFailed _ row => some row.orderId
  | .find _ o _ | .fetch _ o _ _ | .confirm _ o _ _ | .appendConfirmed _ o _ _
  | .recordConfirmed _ o _ _ | .publishConfirmed _ o _ _ => some o
  | .apply m => some m.orderId
  | .appendCreated _ _ _ o | .insertOrder _ _ _ o | .recordCreated _ _ _ o => some o
  | .reuse .. | .createOrder .. | .selectHeld _ | .release _ => none

def State.InProgress (s : State) (o : OrderId) : Prop :=
  ∃ i τ f, s.actors i = .running τ f ∧ τ.order = some o

def Table.Left (T : Table) (o : OrderId) : Prop :=
  ∃ r ∈ T.rows, r.orderId = o ∧ r.status ≠ .pending

/-! ## Orders that have left `PENDING` -/

theorem Table.Left.not_pending (h : T.Left o) (hr : r ∈ T.rows) :
    Table.pendingOrder o r = false := by
  obtain ⟨r', hr', ho, hs⟩ := h
  apply decide_eq_false
  rintro ⟨ho', hp⟩
  rw [Table.eq_of_orderId hr' hr (ho.trans ho'.symm)] at hs
  exact hs hp

theorem Table.Left.run (h : T.Left o) (w : Write) : (w.run T).Left o := by
  obtain ⟨r, hr, ho, hs⟩ := h
  obtain ⟨r', hr', rfl | hturn⟩ := w.run_rows hr
  · exact ⟨r', hr', ho, hs⟩
  · exact ⟨r', hr', hturn.frame.1.trans ho, hturn.ne_pending⟩

theorem left_step (hl : s.escrow.Left o) (h : step s a = some t) : t.escrow.Left o :=
  escrow_step (P := (·.Left o)) (fun _ w hl => hl.run w) h hl

/-- The update that moves an order leaves it moved. -/
theorem Table.left_authorize {p : Option PaymentId} (hr : r ∈ T.rows)
    (hp : Table.pendingOrder o r) (hT : T.authorize o p = some T') : T'.Left o := by
  refine ⟨Table.authorized o p r, ?_, ?_, ?_⟩
  · rw [Table.rows_authorize hT]
    exact List.mem_map_of_mem hr
  · simpa [Table.authorized, hp] using (of_decide_eq_true hp).1
  · simp [Table.authorized, hp]

/-! ## How a task gets there -/

theorem Task.passed_of_appends (h : τ.appends = some o) : τ.passed = some o := by
  cases τ <;> cases h <;> rfl

theorem Task.order_of_appends (h : τ.appends = some o) : τ.order = some o := by
  cases τ <;> cases h <;> rfl

theorem raised_passed (h : raised τ = .task τ') (hp : τ'.passed = some o) : τ.passed = some o := by
  rcases raised_leads (s := {}) h with ⟨hl, ⟨d, row, rfl⟩ | ⟨c, o', p, row, rfl⟩⟩
  · cases hl <;> cases hp
  · cases hl
    exact hp

theorem raised_appends (h : raised τ = .task τ') : τ'.appends = none := by
  rcases raised_leads (s := {}) h with ⟨hl, ⟨d, row, rfl⟩ | ⟨c, o, p, row, rfl⟩⟩
  · cases hl <;> rfl
  · cases hl
    rfl

theorem starts_appends (h : τ.Starts s) : τ.appends = none := by
  cases τ with
  | appendAuthorized | appendConfirmed => exact h.elim
  | _ => rfl

theorem starts_passed (h : τ.Starts s) (hp : τ.passed = some o) :
    ∃ m ∈ s.published, m.type ≠ .paymentFailed ∧ m.orderId = o := by
  cases τ with
  | apply m =>
    by_cases hm : m.type = .paymentFailed
    · simp [Task.passed, hm] at hp
    · exact ⟨m, h, hm, by simpa [Task.passed, hm] using hp⟩
  | appendAuthorized | publishAuthorized | appendConfirmed | recordConfirmed | publishConfirmed =>
    exact h.elim
  | _ => cases hp

/-- The update has moved the order, and its entry is to be appended. -/
structure Moved (s : State) (τ τ' : Task) (o : OrderId) : Prop where
  appends : τ'.appends = some o
  pending : ∃ r ∈ s.escrow.rows, Table.pendingOrder o r
  left : (τ.effect s).escrow.Left o
  entry : τ.entry = none

theorem moved_of_authorize {p : Option PaymentId} (hw : τ.write = some (.authorize o p))
    (ha : s.escrow.authorize o p = some T) (hc : s.escrow.count (Table.pendingOrder o) = 1)
    (happ : τ'.appends = some o) (he : τ.entry = none) : Moved s τ τ' o := by
  obtain ⟨r, hr, hp⟩ := Table.count_pendingOrder.mp hc
  refine ⟨happ, ⟨r, hr, hp⟩, ?_, he⟩
  simpa [Task.effect, hw, Write.run, ha] using Table.left_authorize hr hp ha

theorem Leads.passed (h : Leads s τ τ') (hp : τ'.passed = some o) :
    τ.passed = some o ∨ Moved s τ τ' o := by
  cases h with
  | markAuthorized ha hc => cases hp; exact .inr (moved_of_authorize rfl ha hc rfl rfl)
  | confirm ha hc => cases hp; exact .inr (moved_of_authorize rfl ha hc rfl rfl)
  | appendAuthorized | appendConfirmed | recordConfirmed => exact .inl hp
  | _ => cases hp

theorem Leads.appends (h : Leads s τ τ') (ha : τ'.appends = some o) : Moved s τ τ' o := by
  rcases h.passed (Task.passed_of_appends ha) with hp | hm
  · cases h <;> cases ha <;> cases hp
  · exact hm

/-! ## What a step appends and publishes -/

theorem entry_appends : (τ.entry.toList.countP (Entry.isAuthorized o)) =
    if τ.appends = some o then 1 else 0 := by
  cases τ with
  | appendAuthorized d row => simp [Task.entry, Task.appends, Entry.isAuthorized, List.countP_cons]
  | appendConfirmed c o' p row =>
    simp [Task.entry, Task.appends, Entry.isAuthorized, List.countP_cons]
  | _ => rfl

theorem entries_step (h : step s a = some t) (o : OrderId) :
    (∃ τ, Executes s a τ ∧ τ.appends = some o ∧
      t.authorizedEntries o = s.authorizedEntries o + 1) ∨
    (∀ τ, Executes s a τ → τ.appends ≠ some o) ∧ t.authorizedEntries o = s.authorizedEntries o := by
  rcases step_tables h with ⟨τ, hτ, ht⟩ | ⟨hn, ht⟩
  · have hl : t.ledger = τ.entry.toList ++ s.ledger := congrArg (fun x => x.2.2.1) ht
    have hc : t.authorizedEntries o =
        (if τ.appends = some o then 1 else 0) + s.authorizedEntries o := by
      rw [State.authorizedEntries, hl, List.countP_append, entry_appends]
      rfl
    by_cases ha : τ.appends = some o
    · exact .inl ⟨τ, hτ, ha, by rw [hc, if_pos ha, Nat.add_comm]⟩
    · exact .inr ⟨fun τ' hτ' => hτ.unique hτ' ▸ ha, by rw [hc, if_neg ha, Nat.zero_add]⟩
  · have hl : t.ledger = s.ledger := congrArg (fun x => x.2.2.1) ht
    exact .inr ⟨fun τ hτ => absurd hτ (hn τ), by rw [State.authorizedEntries, hl]; rfl⟩

theorem message_passed {m : Message} (h : τ.message = some m) (hm : m.type ≠ .paymentFailed) :
    τ.passed = some m.orderId := by
  cases τ <;> cases h
  · rfl
  · exact absurd rfl hm
  · rfl

/-- Where a task that is about to append comes from. -/
theorem appends_step (h : step s a = some t) (hr : t.actors j = .running τ f)
    (ha : τ.appends = some o) :
    s.actors j = .running τ f ∧ (∀ c, c ≠ .failed → a ≠ .advance j c) ∨
      a = .advance j .ok ∧ ∃ τ₀, s.actors j = .running τ₀ f ∧ Moved s τ₀ τ o := by
  have hstart : ¬ τ.Starts s := fun hs => by
    rw [starts_appends hs] at ha
    cases ha
  have hraise : ∀ τ₀, raised τ₀ ≠ .task τ := fun τ₀ hn => by
    rw [raised_appends hn] at ha
    cases ha
  rcases step_running_next h hr hstart hraise with hs | ⟨hac, τ₀, hi, hl⟩
  · exact .inl hs
  · exact .inr ⟨hac, τ₀, hi, hl.appends ha⟩

/-! ## The invariant -/

structure Once (s : State) : Prop where
  entries : ∀ o, s.authorizedEntries o ≤ 1
  /-- One handler at a time is about to append for an order, and nothing has been. -/
  unique : ∀ i j τ τ' f f' o, s.actors i = .running τ f → τ.appends = some o →
    s.actors j = .running τ' f' → τ'.appends = some o → i = j
  first : ∀ i τ f o, s.actors i = .running τ f → τ.appends = some o → s.authorizedEntries o = 0
  entryLeft : ∀ o, s.authorizedEntries o ≠ 0 → s.escrow.Left o
  taskLeft : ∀ i τ f, s.actors i = .running τ f → ∀ o, τ.passed = some o → s.escrow.Left o
  messageLeft : ∀ m ∈ s.published, m.type ≠ .paymentFailed → s.escrow.Left m.orderId

theorem once_initial (h : Initial s) : Once s := by
  obtain ⟨-, -, hl, hp, -, -, ha⟩ := h
  constructor
  · intro o
    simp [State.authorizedEntries, hl]
  · intro i j τ τ' f f' o hi
    rw [ha i] at hi
    cases hi
  · intro i τ f o hi
    rw [ha i] at hi
    cases hi
  · intro o ho
    simp [State.authorizedEntries, hl] at ho
  · intro i τ f hi
    rw [ha i] at hi
    cases hi
  · simp [hp]

theorem Once.not_moved (hs : Once s) (hm : Moved s τ τ' o) :
    s.authorizedEntries o = 0 ∧ ∀ i τ f, s.actors i = .running τ f → τ.appends ≠ some o := by
  obtain ⟨r, hr, hp⟩ := hm.pending
  have hleft : ¬ s.escrow.Left o := fun hl => by simp [hl.not_pending hr] at hp
  refine ⟨not_not.mp fun h => hleft (hs.entryLeft o h), fun i τ f hi ha => ?_⟩
  exact hleft (hs.taskLeft i τ f hi o (Task.passed_of_appends ha))

theorem once_step (hs : Once s) (h : step s a = some t) : Once t := by
  constructor
  · intro o
    rcases entries_step h o with ⟨τ, ⟨i, c, f, -, -, hi⟩, ha, ht⟩ | ⟨-, ht⟩
    · rw [ht, hs.first i τ f o hi ha]
    · rw [ht]
      exact hs.entries o
  · intro i j τ τ' f f' o hi ha hj ha'
    rcases appends_step h hi ha with ⟨hi, -⟩ | ⟨hai, τ₀, -, hm⟩
    · rcases appends_step h hj ha' with ⟨hj, -⟩ | ⟨-, τ₁, -, hm'⟩
      · exact hs.unique i j τ τ' f f' o hi ha hj ha'
      · exact absurd ha ((hs.not_moved hm').2 i τ f hi)
    · rcases appends_step h hj ha' with ⟨hj, -⟩ | ⟨haj, -⟩
      · exact absurd ha' ((hs.not_moved hm).2 j τ' f' hj)
      · rw [hai] at haj
        cases haj
        rfl
  · intro j τ f o hj ha
    rcases appends_step h hj ha with ⟨hj, hne⟩ | ⟨haj, τ₀, hj, hm⟩
    · rcases entries_step h o with ⟨τ', ⟨i, c, f', hac, hc, hi⟩, ha', -⟩ | ⟨-, ht⟩
      · cases hs.unique i j τ' τ f' f o hi ha' hj ha
        exact absurd hac (hne c hc)
      · rw [ht]
        exact hs.first j τ f o hj ha
    · rcases entries_step h o with ⟨τ', hτ', ha', -⟩ | ⟨-, ht⟩
      · cases hτ'.unique ⟨j, .ok, f, haj, by simp, hj⟩
        exact absurd ha' ((hs.not_moved hm).2 j τ₀ f hj)
      · rw [ht]
        exact (hs.not_moved hm).1
  · intro o ho
    rcases entries_step h o with ⟨τ, ⟨i, c, f, -, -, hi⟩, ha, -⟩ | ⟨-, ht⟩
    · exact left_step (hs.taskLeft i τ f hi o (Task.passed_of_appends ha)) h
    · exact left_step (hs.entryLeft o (ht ▸ ho)) h
  · refine running_step h hs.taskLeft (fun τ hτ o hp => ?_) (fun τ hτ o hp => left_step (hτ o hp) h)
      (fun τ₀ τ hτ hr o hp => left_step (hτ o (raised_passed hr hp)) h) fun τ₀ τ he hτ hn o hp => ?_
    · obtain ⟨m, hm, hty, rfl⟩ := starts_passed hτ hp
      exact left_step (hs.messageLeft m hm hty) h
    · rcases (perform_leads hn).passed hp with hp | hm
      · exact left_step (hτ o hp) h
      · have ht : t.escrow = (τ₀.effect s).escrow := congrArg Prod.fst (executes_tables h he)
        exact ht ▸ hm.left
  · intro m hm hty
    rcases step_tables h with ⟨τ, ⟨i, c, f, -, -, hi⟩, ht⟩ | ⟨-, ht⟩
    · have hp : t.published = τ.message.toList ++ s.published :=
        congrArg (fun x => x.2.2.2.1) ht
      rw [hp, List.mem_append, Option.mem_toList] at hm
      rcases hm with hm | hm
      · exact left_step (hs.taskLeft i τ f hi _ (message_passed hm hty)) h
      · exact left_step (hs.messageLeft m hm hty) h
    · have hp : t.published = s.published := congrArg (fun x => x.2.2.2.1) ht
      exact left_step (hs.messageLeft m (hp ▸ hm) hty) h

/-! ## Without faults -/

/-- The row is authorized, or was: it has a payment. -/
def Row.Funded (r : Row) : Prop := r.status = .authorized ∨ r.paymentId.isSome

/-- An entry has been appended for every funded row, or is about to be. -/
structure Accounted (s : State) : Prop where
  funded : ∀ r ∈ s.escrow.rows, r.Funded → s.authorizedEntries r.orderId = 1 ∨
    ∃ i τ f, s.actors i = .running τ f ∧ τ.appends = some r.orderId
  released : ∀ r ∈ s.escrow.rows, r.status = .released → r.paymentId.isSome

theorem accounted_initial (h : Initial s) : Accounted s := by
  constructor <;> simp [h.1, Table.empty]

/-- A funded row was funded before the statement, or the statement has authorized it. -/
theorem funded_run {w : Write} (hr : r ∈ (w.run T).rows) (hf : r.Funded) :
    (∃ r' ∈ T.rows, r'.orderId = r.orderId ∧ r'.Funded) ∨
      ∃ p T', w = .authorize r.orderId p ∧ T.authorize r.orderId p = some T' ∧
        ∃ r' ∈ T.rows, Table.pendingOrder r.orderId r' := by
  rcases Write.mem_run hr with ⟨r₀, hr₀, rfl | hturn⟩ | ⟨o, c, n, currency, -, -, rfl⟩
  · exact .inl ⟨r, hr₀, rfl, hf⟩
  · cases hturn with
    | @authorize o p _ T' hT hsel =>
      obtain ⟨rfl, -⟩ := of_decide_eq_true hsel
      exact .inr ⟨p, T', rfl, hT, r₀, hr₀, hsel⟩
    | failOrder => exact .inl ⟨r₀, hr₀, rfl, .inr (hf.resolve_left (by simp))⟩
    | failPayment => exact .inl ⟨r₀, hr₀, rfl, .inr (hf.resolve_left (by simp))⟩
    | release => exact .inl ⟨r₀, hr₀, rfl, .inr (hf.resolve_left (by simp))⟩
  · rcases hf with hf | hf <;> cases hf

theorem released_run {w : Write} (h : ∀ r ∈ T.rows, r.status = .released → r.paymentId.isSome)
    (hr : r ∈ (w.run T).rows) (hs : r.status = .released) : r.paymentId.isSome := by
  rcases Write.mem_run hr with ⟨r₀, hr₀, rfl | hturn⟩ | ⟨o, c, n, currency, -, -, rfl⟩
  · exact h r hr₀ hs
  · cases hturn with
    | release hsel => simp [of_decide_eq_true hsel]
    | _ => cases hs
  · cases hs

/-- A statement that moves an order is followed by its entry, unless the order was known to
have moved before. -/
theorem next_of_authorize {p : Option PaymentId} (hw : τ.write = some (.authorize o p))
    (hT : s.escrow.authorize o p = some T) (hc : s.escrow.count (Table.pendingOrder o) = 1) :
    τ.passed = some o ∨ ∃ τ', (perform s τ).2 = .task τ' ∧ τ'.appends = some o := by
  cases τ with
  | markAuthorized d row =>
    cases hw
    exact .inr ⟨.appendAuthorized d row, by simp [perform, hT, hc], rfl⟩
  | confirm c o' q row =>
    cases hw
    exact .inr ⟨.appendConfirmed c o q row, by simp [perform, hT, hc], rfl⟩
  | apply m =>
    obtain ⟨c, o', q, type⟩ := m
    cases q <;> cases type <;> cases hw <;> exact .inl rfl
  | _ => cases hw

theorem accounted_step (ho : Once s) (hs : Accounted s) (hf : Faultless s a)
    (h : step s a = some t) : Accounted t := by
  have hkept : ∀ o, (s.authorizedEntries o = 1 ∨
      ∃ i τ f, s.actors i = .running τ f ∧ τ.appends = some o) →
      t.authorizedEntries o = 1 ∨ ∃ i τ f, t.actors i = .running τ f ∧ τ.appends = some o := by
    rintro o (he | ⟨i, τ, f, hi, ha⟩)
    · have hle := (once_step ho h).entries o
      rcases entries_step h o with ⟨-, -, -, ht⟩ | ⟨-, ht⟩ <;> omega
    · by_cases hai : a = .advance i .ok
      · rcases entries_step h o with ⟨-, -, -, ht⟩ | ⟨hn, -⟩
        · exact .inl (by rw [ht, ho.first i τ f o hi ha])
        · exact absurd ha (hn τ ⟨i, .ok, f, hai, by simp, hi⟩)
      · exact .inr ⟨i, τ, f, running_kept h hf hai hi, ha⟩
  rcases step_escrow h with ⟨τ, w, hτ, hw, ht⟩ | ⟨-, ht⟩
  · refine ⟨fun r hr hfund => ?_, fun r hr hrel => released_run hs.released (ht ▸ hr) hrel⟩
    rcases funded_run (ht ▸ hr) hfund with ⟨r', hr', hro, hfund'⟩ | ⟨p, T', rfl, hT, r', hr', hp⟩
    · exact hro ▸ hkept r'.orderId (hs.funded r' hr' hfund')
    · rcases next_of_authorize hw hT (Table.count_pendingOrder.mpr ⟨r', hr', hp⟩) with
        hpass | ⟨τ', hn, happ⟩
      · obtain ⟨i, c, f, -, -, hi⟩ := hτ
        simp [(ho.taskLeft i τ f hi _ hpass).not_pending hr'] at hp
      · obtain ⟨i, f, hi⟩ := running_next h hf hτ hn
        exact .inr ⟨i, τ', f, hi, happ⟩
  · constructor
    · intro r hr hfund
      exact hkept r.orderId (hs.funded r (ht ▸ hr) hfund)
    · intro r hr hrel
      exact hs.released r (ht ▸ hr) hrel

/--
In every run at most one `ESCROW_AUTHORIZED` is appended for an order; without faults exactly one
has been for an authorized or released order that no handler is working on.
-/
theorem authorized_entry (h₀ : Initial s₀) (h : system.Run Any s₀ as s) :
    (∀ o, s.authorizedEntries o ≤ 1) ∧
      (system.Run Faultless s₀ as s → ∀ r ∈ s.escrow.rows,
        r.status = .authorized ∨ r.status = .released → ¬ s.InProgress r.orderId →
          s.authorizedEntries r.orderId = 1) := by
  constructor
  · have honce : Once s :=
      h.invariant (fun _ _ _ hs _ hst => once_step hs hst) (once_initial h₀)
    exact honce.entries
  · intro hf r hr hst hidle
    have hacc : Once s ∧ Accounted s :=
      hf.invariant (I := fun s => Once s ∧ Accounted s)
        (fun _ _ _ hs hk hst => ⟨once_step hs.1 hst, accounted_step hs.1 hs.2 hk hst⟩)
        ⟨once_initial h₀, accounted_initial h₀⟩
    have hfund : r.Funded := hst.imp id (hacc.2.released r hr)
    rcases hacc.2.funded r hr hfund with he | ⟨i, τ, f, hi, ha⟩
    · exact he
    · exact absurd ⟨i, τ, f, hi, Task.order_of_appends ha⟩ hidle

theorem authorized_entry_confirmed :
    ∃ s, system.exec {} (fundOrder ++ confirmOrder) = some s ∧
      (∀ o, s.authorizedEntries o ≤ 1) ∧
      (system.Run Faultless {} (fundOrder ++ confirmOrder) s → ∀ r ∈ s.escrow.rows,
        r.status = .authorized ∨ r.status = .released → ¬ s.InProgress r.orderId →
          s.authorizedEntries r.orderId = 1) := by
  have h : (system.exec {} (fundOrder ++ confirmOrder)).isSome := by decide +kernel
  obtain ⟨s, hs⟩ := Option.isSome_iff_exists.mp h
  exact ⟨s, hs, authorized_entry initial_default (run_of_exec hs)⟩

end AssureCode.Escrow
