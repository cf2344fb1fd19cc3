import AssureCode.Settlement.Steps

/-! # Which payment a settlement captures

The claim on the row and the choice of the payment are separate statements:
every attempt selects the newest `AUTHORIZED` escrow row again. One payment is
captured as long as each selection agrees with the payment that has been
captured or is about to be; a selection that does not agree is one provider
call away from a second capture.
-/

namespace AssureCode.Settlement

open Machine

variable {s s' t s₀ : State} {act : Action} {as : List Action} {a a' : Actor} {p : PaymentId}

/-- The payment has been captured, or a handler that selected it is about to capture it. -/
def State.Engaged (s : State) (p : PaymentId) : Prop :=
  (∃ c ∈ s.captured, c.paymentId = p) ∨
    ∃ i r signals held, s.actors i = .capturing r signals held ∧ held.paymentId = p

/--
Every capture so far was of one payment, and a handler that calls `capturePayment` next asks
for no other.
-/
def State.OnePayment (s : State) : Prop :=
  (∀ c ∈ s.captured, ∀ d ∈ s.captured, c.paymentId = d.paymentId) ∧
    ∀ i r signals held, s.actors i = .capturing r signals held →
      ∀ c ∈ s.captured, c.paymentId = held.paymentId

/-- `findEscrowPayment` returns the payment the contract is already engaged to, if there is one. -/
def AgreesOnPayment (s : State) (act : Action) : Prop :=
  ∀ i r signals held, act = .advance i .ok → s.actors i = .selecting r signals →
    findEscrowPayment s.escrow = some held → ∀ p, s.Engaged p → p = held.paymentId

/-- A selection is the only step that engages a payment. -/
theorem engaged_step (h : step s act = some t) (hp : t.Engaged p) :
    s.Engaged p ∨ ∃ i r signals held, act = .advance i .ok ∧ s.actors i = .selecting r signals ∧
      findEscrowPayment s.escrow = some held ∧ p = held.paymentId := by
  rcases hp with ⟨c, hc, rfl⟩ | ⟨j, r, signals, held, hj, rfl⟩
  · rcases captured_step h with heq | ⟨i, o, r, signals, held, -, hi, heq⟩ <;> rw [heq] at hc
    · exact .inl (.inl ⟨c, hc, rfl⟩)
    · -- the payment moves from the handler to the provider
      rcases List.mem_cons.mp hc with rfl | hc
      · exact .inl (.inr ⟨i, r, signals, c, hi, rfl⟩)
      · exact .inl (.inl ⟨c, hc, rfl⟩)
  · have hm := moves_step h j
    rw [hj] at hm
    generalize hb : Actor.capturing r signals held = b at hm
    cases hm with
    | stay => exact .inl (.inr ⟨j, r, signals, held, hb.symm, rfl⟩)
    | perform hact hperf =>
      generalize ha : s.actors j = a at hperf
      cases hperf with
      | select hfind =>
        cases hb
        exact .inr ⟨j, r, signals, held, hact, ha, hfind, rfl⟩
      | _ => cases hb
    | raise _ hr =>
      subst hb
      generalize s.actors j = a at hr
      cases hr
    | sweep | deliver | crash => cases hb

/-- Under the condition a contract is engaged to one payment at most. -/
theorem engaged_unique_step (hs : ∀ p q, s.Engaged p → s.Engaged q → p = q)
    (hk : AgreesOnPayment s act) (h : step s act = some t) :
    ∀ p q, t.Engaged p → t.Engaged q → p = q := by
  intro p q hp hq
  rcases engaged_step h hp with hp | ⟨i, r, signals, held, rfl, hi, hf, rfl⟩ <;>
    rcases engaged_step h hq with hq | ⟨j, r', signals', held', hact, hj, hf', rfl⟩
  · exact hs p q hp hq
  · exact hk j r' signals' held' hact hj hf' p hp
  · exact (hk i r signals held rfl hi hf q hq).symm
  · rw [hf] at hf'
    cases hf'
    rfl

theorem onePayment_of_engaged (h : ∀ p q, s.Engaged p → s.Engaged q → p = q) : s.OnePayment :=
  ⟨fun c hc d hd => h _ _ (.inl ⟨c, hc, rfl⟩) (.inl ⟨d, hd, rfl⟩),
    fun i r signals held hi c hc => h _ _ (.inl ⟨c, hc, rfl⟩) (.inr ⟨i, r, signals, held, hi, rfl⟩)⟩

theorem engaged_initial (h : Initial s) : ¬ s.Engaged p := by
  obtain ⟨-, -, -, hc, -, -, -, hi⟩ := h
  rintro (⟨c, hmem, -⟩ | ⟨i, r, signals, held, ha, -⟩)
  · simp [hc] at hmem
  · simp [hi i] at ha

/-- A selection against the condition leaves two captures of different payments within reach. -/
theorem two_payments_of_disagreement (h : step s act = some t) (hk : ¬ AgreesOnPayment s act) :
    ∃ bs u, system.Run Any t bs u ∧ ¬ u.OnePayment := by
  simp only [AgreesOnPayment, not_forall] at hk
  obtain ⟨i, r, signals, held, rfl, hi, hf, p, hp, hne⟩ := hk
  have ht : t = s.setActor i (.capturing r signals held) := by
    simpa [step, advance, hi, perform, hf] using h.symm
  subst ht
  rcases hp with ⟨c, hc, rfl⟩ | ⟨j, r', signals', held', hj, rfl⟩
  · exact ⟨[], _, .nil _, fun hone => hne (hone.2 i r signals held setActor_self c hc)⟩
  · have hji : j ≠ i := by
      rintro rfl
      simp [hi] at hj
    -- the other handler captures its own payment first
    have hstep : step (s.setActor i (.capturing r signals held)) (.advance j .ok) =
        some (State.setActor { s.setActor i (.capturing r signals held) with
          captured := held' :: s.captured } j (.committing r' signals' held')) := by
      simp [step, advance, setActor_ne hji, hj, perform]
    refine ⟨[.advance j .ok], _, .single trivial hstep, fun hone => hne ?_⟩
    refine hone.2 i r signals held ?_ held' List.mem_cons_self
    rw [setActor_ne hji.symm]
    exact setActor_self

/--
A run whose selections all agree captures one payment; and from any state a run reaches, a
selection that does not agree can be continued to a capture of a second payment.
-/
theorem captures_one_payment (h₀ : Initial s₀) :
    (∀ as s, system.Run AgreesOnPayment s₀ as s → s.OnePayment) ∧
      ∀ as s act t, system.Run Any s₀ as s → step s act = some t → ¬ AgreesOnPayment s act →
        ∃ bs u, system.Run Any t bs u ∧ ¬ u.OnePayment := by
  constructor
  · intro as s h
    refine onePayment_of_engaged (h.invariant (fun _ _ _ hs hk hst =>
      engaged_unique_step hs hk hst) fun p q hp _ => absurd hp (engaged_initial h₀))
  · exact fun _ _ _ _ _ h hk => two_payments_of_disagreement h hk

theorem captures_one_payment_fresh :
    Initial {} ∧ (∀ as s, system.Run AgreesOnPayment {} as s → s.OnePayment) :=
  ⟨initial_default, (captures_one_payment initial_default).1⟩

/--
Payment 7 is captured but the response is lost; order 2 is funded by payment 8 and the retry
captures that one.
-/
def recaptures : List Action :=
  fundAndRequest ++ [.deliver 0 sampleEvent, .advance 0 .ok, .advance 0 .ok, .advance 0 .ok,
    .advance 0 .lost, .advance 0 .ok, .advance 0 .ok, .createOrder 2 250000 "INR",
    .authorize 2 (some 8), .deliver 0 sampleEvent, .advance 0 .ok, .advance 0 .ok,
    .advance 0 .ok, .advance 0 .ok]

theorem captures_two_payments :
    ¬ ∀ s₀ as s, Initial s₀ → system.Run Any s₀ as s → s.OnePayment := by
  intro hall
  have h : (system.exec {} recaptures).map (fun s => s.captured.map (·.paymentId)) =
      some [8, 7] := by decide
  obtain ⟨s, hs, hc⟩ := Option.map_eq_some_iff.mp h
  have hone := (hall {} recaptures s initial_default (run_of_exec hs)).1
  obtain ⟨c, d, hcd⟩ := List.length_eq_two.mp (by simpa using congrArg List.length hc)
  simp only [hcd, List.map_cons, List.map_nil, List.cons.injEq, and_true] at hc
  have heq := hone c (by simp [hcd]) d (by simp [hcd])
  rw [hc.1, hc.2] at heq
  exact absurd heq (by decide)

end AssureCode.Settlement
