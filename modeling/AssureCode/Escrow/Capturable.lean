import AssureCode.Escrow.Steps

/-! # Authorized escrows have a payment to capture

The oracle looks for an `AUTHORIZED` row with a payment. The checkout callback and the
subscriber always name one; the webhook takes the payment from the event, and `order.paid`
may come with the order alone.
-/

namespace AssureCode.Escrow

open Gateway Settlement Machine

variable {s t s₀ : State} {a : Action} {as : List Action} {T T' : Table} {r : Row}

def Table.Capturable (T : Table) : Prop :=
  ∀ r ∈ T.rows, r.status = .authorized → r.paymentId ≠ none

instance : Decidable T.Capturable :=
  inferInstanceAs (Decidable (∀ r ∈ T.rows, r.status = .authorized → r.paymentId ≠ none))

/-- The oracle finds the newest authorized row of every contract. -/
def Table.FindsFunded (T : Table) : Prop :=
  ∀ c r, T.select (fun r => r.contractId = c ∧ r.status = .authorized) = some r →
    ∃ held, T.findEscrowPayment c = some held ∧ r.paymentId = some held.paymentId ∧
      held.amountMinor = r.amountCents ∧ held.currency = r.currency

/-- No webhook marks an unpaid order authorized without a payment id in its event. -/
def NamesPayment (s : State) (a : Action) : Prop :=
  ∀ d row, Executes s a (.markAuthorized d row) → d.event.paymentId = none →
    ∀ r ∈ s.escrow.rows, r.orderId = row.orderId → r.status ≠ .pending

/-! ## The table -/

theorem findSome?_authorized {rows : List EscrowRow}
    (h : ∀ r ∈ rows, r.status = .authorized → r.paymentId ≠ none) :
    findEscrowPayment rows = (rows.find? (·.status = .authorized)).bind fun r =>
      r.paymentId.map (⟨·, r.amountCents, r.currency⟩) := by
  induction rows with
  | nil => rfl
  | cons r rows ih =>
    have hr := h r List.mem_cons_self
    have ih := ih fun r' hr' => h r' (List.mem_cons_of_mem r hr')
    unfold findEscrowPayment at ih ⊢
    by_cases hs : r.status = .authorized
    · obtain ⟨p, hp⟩ := Option.ne_none_iff_exists'.mp (hr hs)
      simp [hs, hp]
    · simp [hs, ih]

theorem Table.Capturable.findsFunded (h : T.Capturable) : T.FindsFunded := by
  intro c r hr
  have hmem : r ∈ T.rows := List.mem_of_find?_eq_some hr
  have hsel : r.contractId = c ∧ r.status = .authorized := by
    simpa using List.find?_some hr
  obtain ⟨p, hp⟩ := Option.ne_none_iff_exists'.mp (h r hmem hsel.2)
  refine ⟨⟨p, r.amountCents, r.currency⟩, ?_, hp, rfl, rfl⟩
  have hrows : ∀ e ∈ (T.rows.filter (·.contractId = c)).map Row.toEscrowRow,
      e.status = .authorized → e.paymentId ≠ none := by
    intro e he
    obtain ⟨r', hr', rfl⟩ := List.mem_map.mp he
    exact h r' (List.mem_of_mem_filter hr')
  have hfind : ((T.rows.filter (·.contractId = c)).map Row.toEscrowRow).find?
      (·.status = .authorized) = some r.toEscrowRow := by
    rw [List.find?_map, List.find?_filter]
    have hr' : T.rows.find?
        (fun a => decide (a.contractId = c) && decide (a.status = .authorized)) =
        some r := by simpa [Table.select] using hr
    simp [hr']
  rw [Table.findEscrowPayment, findSome?_authorized hrows, hfind]
  simp [hp]

theorem Table.Capturable.map {g : Row → Row} (h : T.Capturable) (hT' : T'.rows = T.rows.map g)
    (hg : ∀ r ∈ T.rows, g r = r ∨ ((g r).status = .authorized → (g r).paymentId ≠ none)) :
    T'.Capturable := by
  intro r' hr' hs
  rw [hT', List.mem_map] at hr'
  obtain ⟨r, hr, rfl⟩ := hr'
  rcases hg r hr with he | hn
  · rw [he] at hs ⊢
    exact h r hr hs
  · exact hn hs

theorem Table.Capturable.setStatus {sel : Row → Bool} {status : EscrowStatus} (h : T.Capturable)
    (hs : status ≠ .authorized) : (T.setStatus sel status).Capturable := by
  apply h.map rfl
  intro r _
  by_cases hr : sel r
  · exact .inr (by simp [hr, hs])
  · exact .inl (by simp [hr])

theorem Table.Capturable.authorize {o : OrderId} {p : PaymentId} (h : T.Capturable)
    (hT : T.authorize o (some p) = some T') : T'.Capturable := by
  apply h.map (Table.rows_authorize hT)
  intro r _
  by_cases hr : Table.pendingOrder o r
  · exact .inr (by simp [Table.authorized, hr])
  · exact .inl (by simp [Table.authorized, hr])

theorem filterMap_sublist {α β : Type*} {f g : α → Option β} {l : List α}
    (h : ∀ x ∈ l, f x = none ∨ f x = g x) : (l.filterMap f).Sublist (l.filterMap g) := by
  induction l with
  | nil => exact .slnil
  | cons x l ih =>
    have ih := ih fun y hy => h y (List.mem_cons_of_mem x hy)
    rcases h x List.mem_cons_self with hx | hx
    · rw [List.filterMap_cons_none hx]
      apply ih.trans
      rw [← List.singleton_append, List.filterMap_append]
      exact List.sublist_append_right _ _
    · simp only [List.filterMap_cons, hx]
      cases g x with
      | none => exact ih
      | some y => exact ih.cons_cons y

/-- `NULL` payments never collide. -/
theorem Table.authorize_none_isSome {o : OrderId} : ∃ T', T.authorize o none = some T' := by
  have h : ((T.rows.map (authorized o none)).filterMap (·.paymentId)).Nodup := by
    rw [List.filterMap_map]
    refine T.paymentKey.sublist (filterMap_sublist fun r _ => ?_)
    by_cases hr : pendingOrder o r <;> simp [authorized, hr]
  exact ⟨_, dif_pos h⟩

/-- Authorizing without a payment is harmless exactly when no unpaid order is there. -/
theorem Table.Capturable.authorize_none {o : OrderId} (h : T.Capturable)
    (hT : T.authorize o none = some T') :
    T'.Capturable ↔ ∀ r ∈ T.rows, r.orderId = o → r.status ≠ .pending := by
  constructor
  · intro h' r hr ho hp
    have hsel : Table.pendingOrder o r = true := decide_eq_true ⟨ho, hp⟩
    have hmem : Table.authorized o none r ∈ T'.rows := by
      rw [Table.rows_authorize hT]
      exact List.mem_map_of_mem hr
    exact h' _ hmem (by simp [Table.authorized, hsel]) (by simp [Table.authorized, hsel])
  · intro hn
    refine h.map (Table.rows_authorize hT) fun r hr => .inl ?_
    have hsel : Table.pendingOrder o r = false := decide_eq_false fun hp => hn r hr hp.1 hp.2
    simp [Table.authorized, hsel]

/-! ## Runs -/

/-- Only the webhook leaves the payment of an authorized order open. -/
theorem write_authorize_none {τ : Task} {o : OrderId} (h : τ.write = some (.authorize o none)) :
    ∃ d row, τ = .markAuthorized d row ∧ d.event.paymentId = none ∧ row.orderId = o := by
  cases τ with
  | markAuthorized d row =>
    simp only [Task.write, Option.some.injEq, Write.authorize.injEq] at h
    exact ⟨d, row, rfl, h.2, h.1⟩
  | apply m =>
    obtain ⟨c, o', q, type⟩ := m
    cases q <;> cases type <;> cases h
  | _ => cases h

theorem capturable_run {w : Write} (h : T.Capturable) (hw : ∀ o, w ≠ .authorize o none) :
    (w.run T).Capturable := by
  intro r hr hs
  rcases Write.mem_run hr with ⟨r₀, hr₀, rfl | hturn⟩ | ⟨o, c, n, currency, -, -, rfl⟩
  · exact h r hr₀ hs
  · cases hturn with
    | @authorize o p _ _ _ _ =>
      rintro rfl
      exact hw o rfl
    | _ => cases hs
  · cases hs

theorem capturable_step (hs : s.escrow.Capturable) (h : step s a = some t) :
    NamesPayment s a ↔ t.escrow.Capturable := by
  rcases step_escrow h with ⟨τ, w, hτ, hw, ht⟩ | ⟨hn, ht⟩
  · rw [ht]
    by_cases ho : ∃ o, w = .authorize o none
    · obtain ⟨o, rfl⟩ := ho
      obtain ⟨d, row, rfl, hd, rfl⟩ := write_authorize_none hw
      obtain ⟨T', hT⟩ := Table.authorize_none_isSome (T := s.escrow) (o := row.orderId)
      have hrun : (Write.authorize row.orderId none).run s.escrow = T' := by
        simp [Write.run, hT]
      rw [hrun, hs.authorize_none hT]
      constructor
      · intro hk
        exact hk d row hτ hd
      · rintro hn d' row' hτ' -
        cases hτ.unique hτ'
        exact hn
    · refine ⟨fun _ => capturable_run hs fun o hw => ho ⟨o, hw⟩, fun _ d row hd hp => ?_⟩
      cases hτ.unique hd
      exact absurd ⟨row.orderId, by simpa [Task.write, hp, eq_comm] using hw⟩ ho
  · rw [ht]
    exact ⟨fun _ => hs, fun _ d row hd _ => absurd rfl (hn _ _ hd)⟩

/--
In every state of every run each authorized row has a payment, and the oracle finds the newest
one, if and only if no webhook authorizes an unpaid order without naming the payment.
-/
theorem capturable_iff (h₀ : Initial s₀) (h : system.Run Any s₀ as t) :
    (∀ u ∈ system.visited s₀ as, u.escrow.Capturable ∧ u.escrow.FindsFunded) ↔
      system.Run NamesPayment s₀ as t := by
  have hinit : s₀.escrow.Capturable := by
    rw [h₀.1]
    simp [Table.Capturable, Table.empty]
  rw [← h.forall_visited_iff (I := fun _ => True) (P := fun s => s.escrow.Capturable)
    (fun _ _ _ _ _ => trivial) (fun _ _ _ _ hs hst => capturable_step hs hst) trivial hinit]
  constructor
  · intro hall u hu
    exact (hall u hu).1
  · intro hall u hu
    exact ⟨hall u hu, (hall u hu).findsFunded⟩

/-- `order.paid` for order 0, without a payment entity. -/
def paidDelivery : Delivery where
  providerEventId := some 2
  event := { event := .orderPaid, order := some { id := some 0 } }

def paidWithoutPayment : List Action :=
  fundOrder ++ (.deliver 0 paidDelivery :: proceed 0 6)

theorem capturable_paidWithoutPayment :
    ∃ t, system.exec {} paidWithoutPayment = some t ∧
      ((∀ u ∈ system.visited {} paidWithoutPayment,
          u.escrow.Capturable ∧ u.escrow.FindsFunded) ↔
        system.Run NamesPayment {} paidWithoutPayment t) := by
  have h : (system.exec {} paidWithoutPayment).isSome := by decide +kernel
  obtain ⟨t, ht⟩ := Option.isSome_iff_exists.mp h
  exact ⟨t, ht, capturable_iff initial_default (run_of_exec ht)⟩

/-- The order is authorized, and there is nothing the oracle could capture. -/
theorem authorized_without_payment :
    ¬ ∀ s₀ as t, Initial s₀ → system.Run Any s₀ as t →
      ∀ u ∈ system.visited s₀ as, u.escrow.Capturable ∧ u.escrow.FindsFunded := by
  intro hall
  have h : (system.exec {} paidWithoutPayment).isSome := by decide +kernel
  obtain ⟨t, ht⟩ := Option.isSome_iff_exists.mp h
  have hcap : ∀ u ∈ system.visited {} paidWithoutPayment, u.escrow.Capturable := fun u hu =>
    (hall {} paidWithoutPayment t initial_default (run_of_exec ht) u hu).1
  exact absurd hcap (by decide +kernel)

end AssureCode.Escrow
