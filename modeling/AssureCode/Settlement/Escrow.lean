import Mathlib.Data.List.Nodup
import AssureCode.Settlement.Steps

/-! # The escrow rows and the payments they hold

Order ids and payment ids are unique, and an order takes its payment once, when
it leaves `PENDING`. So a payment id determines the amount and the currency it
was authorised for, and what a handler holds, or the provider has captured, is
what some row still says.
-/

namespace AssureCode.Settlement

open Machine

variable {s s' t s₀ : State} {act : Action} {as : List Action} {a a' : Actor} {i : ℕ}
  {escrow : List EscrowRow} {orderId : OrderId}

def EscrowRow.payment (r : EscrowRow) : Option EscrowPayment :=
  r.paymentId.map (⟨·, r.amountCents, r.currency⟩)

/-- The payments of all rows, whatever their status. -/
def payments (escrow : List EscrowRow) : List EscrowPayment := escrow.filterMap (·.payment)

/-- What the unique indexes keep, and what `status = 'PENDING'` says of a row. -/
structure WellFormed (escrow : List EscrowRow) : Prop where
  orders : (escrow.map (·.orderId)).Nodup
  paid : ((payments escrow).map (·.paymentId)).Nodup
  pending : ∀ r ∈ escrow, r.status = .pending → r.paymentId = none

theorem payments_map_paymentId :
    (payments escrow).map (·.paymentId) = escrow.filterMap (·.paymentId) := by
  simp only [payments, EscrowRow.payment, List.map_filterMap, Option.map_map, Function.comp_def,
    Option.map_id']

/-- A payment id determines the payment. -/
theorem WellFormed.payment_unique {c d : EscrowPayment} (h : WellFormed escrow)
    (hc : c ∈ payments escrow) (hd : d ∈ payments escrow) (he : c.paymentId = d.paymentId) :
    c = d :=
  List.inj_on_of_nodup_map h.paid hc hd he

theorem findEscrowPayment_mem {c : EscrowPayment} (h : findEscrowPayment escrow = some c) :
    c ∈ payments escrow := by
  obtain ⟨r, hr, hf⟩ := List.exists_of_findSome?_eq_some h
  refine List.mem_filterMap.mpr ⟨r, hr, ?_⟩
  split at hf
  · exact hf
  · cases hf

/-- A rewriting of the status column changes no payment. -/
theorem payments_map_status {f : EscrowRow → EscrowRow} (h : ∀ r, (f r).payment = r.payment) :
    payments (escrow.map f) = payments escrow := by
  simp [payments, List.filterMap_map, h]

theorem WellFormed.map_status (h : WellFormed escrow) {f : EscrowRow → EscrowRow}
    (ho : ∀ r, (f r).orderId = r.orderId) (hp : ∀ r, (f r).paymentId = r.paymentId)
    (hpay : ∀ r, (f r).payment = r.payment)
    (hs : ∀ r, (f r).status = .pending → r.status = .pending) : WellFormed (escrow.map f) where
  orders := by simpa [Function.comp_def, ho] using h.orders
  paid := by rw [payments_map_status hpay]; exact h.paid
  pending := by
    simp only [List.mem_map]
    rintro r ⟨q, hq, rfl⟩ hpend
    rw [hp]
    exact h.pending q hq (hs q hpend)

theorem wellFormed_nil : WellFormed [] := ⟨List.nodup_nil, List.nodup_nil, by simp⟩

theorem WellFormed.cons {amountCents : ℕ} {currency : String} (h : WellFormed escrow)
    (ho : orderId ∉ escrow.map (·.orderId)) :
    WellFormed ({ orderId, amountCents, currency } :: escrow) where
  orders := List.nodup_cons.mpr ⟨ho, h.orders⟩
  paid := h.paid
  pending := List.forall_mem_cons.mpr ⟨fun _ => rfl, h.pending⟩

/-- There is nothing to authorise under an order id that does not occur. -/
theorem authorizeOrder_of_notMem {p : Option PaymentId} (h : orderId ∉ escrow.map (·.orderId)) :
    authorizeOrder escrow orderId p = escrow := by
  have hid : ∀ r ∈ escrow, (if r.orderId = orderId ∧ r.status = .pending
      then { r with status := .authorized, paymentId := p } else r) = r := by
    intro r hr
    rw [if_neg]
    rintro ⟨rfl, -⟩
    exact h (List.mem_map_of_mem hr)
  rw [authorizeOrder, List.map_congr_left hid, List.map_id']

theorem map_orderId_authorizeOrder {p : Option PaymentId} :
    (authorizeOrder escrow orderId p).map (·.orderId) = escrow.map (·.orderId) := by
  rw [authorizeOrder, List.map_map]
  apply List.map_congr_left
  intro r _
  simp only [Function.comp_apply]
  split <;> rfl

theorem payments_cons (r : EscrowRow) :
    payments (r :: escrow) = r.payment.toList ++ payments escrow := by
  cases h : r.payment <;> simp [payments, h]

theorem WellFormed.tail {r : EscrowRow} (h : WellFormed (r :: escrow)) : WellFormed escrow where
  orders := (List.nodup_cons.mp h.orders).2
  paid := by
    have hp := h.paid
    rw [payments_cons, List.map_append] at hp
    exact hp.of_append_right
  pending := (List.forall_mem_cons.mp h.pending).2

/-- Authorising an order adds its payment, if the order was pending and there is a payment. -/
theorem payments_authorizeOrder (orderId : OrderId) (p : Option PaymentId)
    (h : WellFormed escrow) :
    payments (authorizeOrder escrow orderId p) = payments escrow ∨
      ∃ q amount currency, p = some q ∧
        (payments (authorizeOrder escrow orderId p)).Perm
          (⟨q, amount, currency⟩ :: payments escrow) := by
  induction escrow with
  | nil => exact .inl rfl
  | cons r escrow ih =>
    by_cases hr : r.orderId = orderId ∧ r.status = .pending
    · -- no later row carries this order id
      have hnot : orderId ∉ escrow.map (·.orderId) := by
        rw [← hr.1]
        exact (List.nodup_cons.mp h.orders).1
      have hnone : r.payment = none := by
        simp [EscrowRow.payment, h.pending r List.mem_cons_self hr.2]
      have hauth : authorizeOrder (r :: escrow) orderId p =
          { r with status := .authorized, paymentId := p } :: escrow := by
        conv_rhs => rw [← authorizeOrder_of_notMem (p := p) hnot]
        simp [authorizeOrder, hr]
      rw [hauth, payments_cons, payments_cons, hnone]
      cases p with
      | none => exact .inl rfl
      | some q => exact .inr ⟨q, r.amountCents, r.currency, rfl, List.Perm.refl _⟩
    · have hauth : authorizeOrder (r :: escrow) orderId p =
          r :: authorizeOrder escrow orderId p := by
        simp [authorizeOrder, hr]
      rw [hauth, payments_cons, payments_cons]
      rcases ih h.tail with heq | ⟨q, amount, currency, hq, hperm⟩
      · exact .inl (by rw [heq])
      · exact .inr ⟨q, amount, currency, hq, (hperm.append_left _).trans List.perm_middle⟩

theorem WellFormed.authorizeOrder {p : Option PaymentId} (h : WellFormed escrow)
    (hp : p.isSome → p ∉ escrow.map (·.paymentId)) :
    WellFormed (authorizeOrder escrow orderId p) where
  orders := by rw [map_orderId_authorizeOrder]; exact h.orders
  paid := by
    rcases payments_authorizeOrder orderId p h with heq |
        ⟨q, amount, currency, rfl, hperm⟩
    · rw [heq]
      exact h.paid
    · rw [(hperm.map _).nodup_iff, List.map_cons, List.nodup_cons, payments_map_paymentId]
      refine ⟨?_, payments_map_paymentId ▸ h.paid⟩
      simpa using hp rfl
  pending := by
    simp only [Settlement.authorizeOrder, List.mem_map]
    rintro r ⟨q, hq, rfl⟩ hpend
    split at hpend
    · cases hpend
    · rw [if_neg ‹_›]
      exact h.pending q hq hpend

/-! ## What handlers hold -/

def Actor.held : Actor → Option EscrowPayment
  | .capturing _ _ held | .refetching _ _ held | .committing _ _ held => some held
  | _ => none

/-- What handlers hold and the provider has captured are payments of escrow rows. -/
structure State.Backed (s : State) : Prop where
  rows : WellFormed s.escrow
  captured : ∀ c ∈ s.captured, c ∈ payments s.escrow
  held : ∀ i, ∀ c ∈ (s.actors i).held, c ∈ payments s.escrow
  taken : ∀ i r signals held, s.actors i = .committing r signals held →
    held.paymentId ∈ s.captured.map (·.paymentId)

/-- A handler commits the payment that was captured, with the amount that was captured. -/
theorem State.Backed.captured_held {r : Origin} {signals : Oracle.OracleSignals}
    {held : EscrowPayment} (h : s.Backed) (hi : s.actors i = .committing r signals held) :
    held ∈ s.captured := by
  obtain ⟨c, hc, he⟩ := List.mem_map.mp (h.taken i r signals held hi)
  have hheld : held ∈ payments s.escrow := h.held i held (by simp [hi, Actor.held])
  rwa [h.rows.payment_unique hheld (h.captured c hc) he.symm]

theorem payments_subset_authorizeOrder {p : Option PaymentId} (h : WellFormed escrow) :
    payments escrow ⊆ payments (authorizeOrder escrow orderId p) := by
  rcases payments_authorizeOrder orderId p h with heq | ⟨q, _, _, -, hperm⟩
  · rw [heq]
    exact List.Subset.refl _
  · exact fun c hc => hperm.mem_iff.mpr (List.mem_cons_of_mem _ hc)

theorem wellFormed_commitSettlement (p : SettlementPayload) (h : WellFormed s.escrow) :
    WellFormed (commitSettlement s p).escrow ∧
      payments (commitSettlement s p).escrow = payments s.escrow := by
  have hpay : ∀ r : EscrowRow, EscrowRow.payment
      (if r.paymentId = some p.paymentId then { r with status := .released } else r) =
        r.payment := by
    intro r
    split <;> rfl
  refine ⟨h.map_status ?_ ?_ hpay ?_, payments_map_status hpay⟩ <;> intro r <;> split <;> simp

theorem wellFormed_failEscrow (h : WellFormed escrow) :
    WellFormed (failEscrow escrow orderId) ∧
      payments (failEscrow escrow orderId) = payments escrow := by
  have hpay : ∀ r : EscrowRow, EscrowRow.payment (if r.orderId = orderId ∧
      (r.status = .pending ∨ r.status = .authorized) then { r with status := .failed } else r) =
        r.payment := by
    intro r
    split <;> rfl
  refine ⟨h.map_status ?_ ?_ hpay ?_, payments_map_status hpay⟩ <;> intro r <;> split <;> simp

theorem Performs.wellFormed (h : Performs s a s' a') (hs : WellFormed s.escrow) :
    WellFormed s'.escrow ∧ payments s'.escrow = payments s.escrow := by
  cases h with
  | commit => exact wellFormed_commitSettlement _ hs
  | _ => exact ⟨hs, rfl⟩

theorem escrow_step (h : step s act = some t) (hs : WellFormed s.escrow) :
    WellFormed t.escrow ∧ payments s.escrow ⊆ payments t.escrow := by
  cases act with
  | advance i o =>
    rcases advance_cases h with ⟨-, -, rfl⟩ | ⟨s', a', hp, ⟨-, rfl⟩ | ⟨-, rfl⟩⟩
    · exact ⟨hs, List.Subset.refl _⟩
    · exact ⟨(hp.wellFormed hs).1, (hp.wellFormed hs).2 ▸ List.Subset.refl _⟩
    · exact ⟨(hp.wellFormed hs).1, (hp.wellFormed hs).2 ▸ List.Subset.refl _⟩
  | createOrder orderId amountCents currency =>
    simp only [step, Option.ite_none_left_eq_some, Option.some.injEq, not_or] at h
    obtain ⟨⟨-, ho⟩, rfl⟩ := h
    exact ⟨hs.cons ho, List.Subset.refl _⟩
  | authorize orderId paymentId =>
    simp only [step, Option.ite_none_left_eq_some, Option.some.injEq, not_and] at h
    obtain ⟨hp, rfl⟩ := h
    exact ⟨hs.authorizeOrder hp, payments_subset_authorizeOrder hs⟩
  | failOrder orderId =>
    cases h
    exact ⟨(wellFormed_failEscrow hs).1, (wellFormed_failEscrow hs).2 ▸ List.Subset.refl _⟩
  | settle body =>
    obtain ⟨event, -, rfl⟩ := Option.map_eq_some_iff.mp h
    exact ⟨hs, List.Subset.refl _⟩
  | deliver i event | sweep i =>
    simp only [step, Option.ite_none_right_eq_some, Option.some.injEq] at h
    obtain ⟨-, rfl⟩ := h
    exact ⟨hs, List.Subset.refl _⟩
  | createProfile freelancerId trustScore =>
    simp only [step, Option.ite_none_left_eq_some, Option.some.injEq] at h
    obtain ⟨-, rfl⟩ := h
    exact ⟨hs, List.Subset.refl _⟩
  | _ =>
    cases h
    exact ⟨hs, List.Subset.refl _⟩

theorem Raises.held {c : EscrowPayment} (h : Raises a a') (hc : c ∈ a'.held) : c ∈ a.held := by
  cases h with
  | refetch => exact hc
  | _ => cases hc

theorem Performs.held {c : EscrowPayment} (h : Performs s a s' a') (hc : c ∈ a'.held) :
    c ∈ a.held ∨ findEscrowPayment s.escrow = some c := by
  cases h with
  | select hf =>
    cases hc
    exact .inr hf
  | capture | refetch => exact .inl hc
  | _ => cases hc

theorem held_step {c : EscrowPayment} (h : step s act = some t) (hc : c ∈ (t.actors i).held) :
    c ∈ (s.actors i).held ∨ findEscrowPayment s.escrow = some c := by
  have hm := moves_step h i
  generalize t.actors i = b at hm hc
  cases hm with
  | stay => exact .inl hc
  | perform _ hp => exact hp.held hc
  | raise _ hr => exact .inl (hr.held hc)
  | sweep | deliver | crash => cases hc

/-- A handler comes to commit by capturing, or by finding the payment captured. -/
theorem committing_step {r : Origin} {signals : Oracle.OracleSignals} {held : EscrowPayment}
    (h : step s act = some t) (hi : t.actors i = .committing r signals held) :
    s.actors i = .committing r signals held ∨
      (act = .advance i .ok ∧ s.actors i = .capturing r signals held) ∨
      held.paymentId ∈ s.captured.map (·.paymentId) := by
  have hm := moves_step h i
  rw [hi] at hm
  generalize hb : Actor.committing r signals held = b at hm
  cases hm with
  | stay => exact .inl rfl
  | perform hact hp =>
    generalize ha : s.actors i = a at hp
    cases hp with
    | capture =>
      cases hb
      exact .inr (.inl ⟨hact, rfl⟩)
    | refetch hc =>
      cases hb
      exact .inr (.inr hc)
    | _ => cases hb
  | raise _ hr =>
    subst hb
    generalize s.actors i = a at hr
    cases hr
  | sweep | deliver | crash => cases hb

theorem backed_step (hs : s.Backed) (h : step s act = some t) : t.Backed := by
  obtain ⟨hrows, hsub⟩ := escrow_step h hs.rows
  refine ⟨hrows, fun c hc => ?_, fun i c hc => ?_, fun i r signals held hi => ?_⟩
  · rcases captured_step h with heq | ⟨i, o, r, signals, held, -, hi, heq⟩ <;> rw [heq] at hc
    · exact hsub (hs.captured c hc)
    · rcases List.mem_cons.mp hc with rfl | hc
      · exact hsub (hs.held i c (by simp [hi, Actor.held]))
      · exact hsub (hs.captured c hc)
  · rcases held_step h hc with hc | hc
    · exact hsub (hs.held i c hc)
    · exact hsub (findEscrowPayment_mem hc)
  · have hmono : s.captured.map (·.paymentId) ⊆ t.captured.map (·.paymentId) := by
      rcases captured_step h with heq | ⟨_, _, _, _, _, -, -, heq⟩ <;> simp [heq]
    rcases committing_step h hi with hi | ⟨rfl, hi⟩ | hc
    · exact hmono (hs.taken i r signals held hi)
    · have ht : t.captured = held :: s.captured := by
        rw [step, advance, hi] at h
        cases h
        rfl
      simp [ht]
    · exact hmono hc

theorem backed_initial (h : Initial s) : s.Backed := by
  obtain ⟨-, he, -, hc, -, -, -, hi⟩ := h
  exact ⟨he ▸ wellFormed_nil, by simp [hc], by simp [hi, Actor.held], by simp [hi]⟩

theorem backed_run {K : State → Action → Prop} (h₀ : Initial s₀) (h : system.Run K s₀ as s) :
    s.Backed :=
  h.invariant (fun _ _ _ hs _ hst => backed_step hs hst) (backed_initial h₀)

end AssureCode.Settlement
