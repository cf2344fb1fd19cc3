import AssureCode.Escrow.Responses

/-! # Unpaid orders

`POST /escrow` looks for an unpaid order of the contract over the same amount before it asks the
provider for a new one. Another request may insert its own order in between.
-/

namespace AssureCode.Escrow

open Gateway Settlement Machine

variable {s t s₀ : State} {a : Action} {as : List Action} {T T' : Table} {o : OrderId}
  {i j : ℕ} {f f' : Frame} {τ τ' : Task} {r r' : Row} {c : ContractId} {n : ℕ} {currency : String}
  {answer : Response}

/-- One unpaid order at most for a contract, an amount and a currency. -/
def Table.UniquePending (T : Table) : Prop :=
  ∀ r ∈ T.rows, ∀ r' ∈ T.rows, r.status = .pending →
    reusable r.contractId r.amountCents r.currency r' → r' = r

/-- The request asks for an escrow of the contract over this amount. -/
def Request.Asks (q : Request) (c : ContractId) (n : ℕ) (currency : String) : Prop :=
  ∃ b, q.call = .fund c b ∧ b.minor = some n ∧ b.currency.getD "INR" = currency

/-- The step answers a request for such an escrow with success. -/
def Answers (s : State) (a : Action) (c : ContractId) (n : ℕ) (currency : String) (r : Response) :
    Prop :=
  ∃ i q, a = .advance i .ok ∧ s.actors i = .replying q r ∧ q.Asks c n currency ∧
    r.statusCode = 200

/-- While an order is unpaid, a request for it is answered with its id. -/
def NamesPending (s : State) (a : Action) : Prop :=
  ∀ c n currency answer, Answers s a c n currency answer →
    ∀ r ∈ s.escrow.rows, reusable c n currency r → answer.orderId = some r.orderId

/-- No order is inserted while an unpaid one is there for the same contract and amount. -/
def InsertsFirst (s : State) (a : Action) : Prop :=
  ∀ c n currency o, Executes s a (.insertOrder c n currency o) →
    ∀ r ∈ s.escrow.rows, ¬ reusable c n currency r

/-- While an unpaid order is there, a request for it is not answered with a response that its key
keeps for another escrow, nor with an order that has left `PENDING` since. -/
def AnswersKept (s : State) (a : Action) : Prop :=
  ∀ c n currency answer, Answers s a c n currency answer →
    (∃ r ∈ s.escrow.rows, reusable c n currency r) →
      (∃ o, answer = .order c o n currency) ∧
        ∀ r ∈ s.escrow.rows, answer.orderId = some r.orderId → r.status = .pending

/-! ## Runs -/

theorem uniquePending_run {w : Write} (h : T.UniquePending)
    (hw : ∀ o c n currency, w ≠ .insert o c n currency) : (w.run T).UniquePending := by
  have hold : ∀ {r}, r ∈ (w.run T).rows → r.status = .pending → r ∈ T.rows := by
    intro r hr hp
    rcases Write.mem_run hr with ⟨r₀, hr₀, rfl | hturn⟩ | ⟨o, c, n, currency, he, -, -⟩
    · exact hr₀
    · exact absurd hp hturn.ne_pending
    · exact absurd he (hw o c n currency)
  intro r hr r' hr' hp hreuse
  exact h r (hold hr hp) r' (hold hr' (reusable_iff.mp hreuse).2.1) hp hreuse

/-- A new unpaid order is the only one exactly when there was none before. -/
theorem uniquePending_insert (h : T.UniquePending) (ho : o ∉ T.rows.map (·.orderId)) :
    (T.insert o c n currency).UniquePending ↔ ∀ r ∈ T.rows, ¬ reusable c n currency r := by
  have hmem : ∀ r, r ∈ (T.insert o c n currency).rows ↔ r ∈ T.rows ∨
      r = { orderId := o, contractId := c, amountCents := n, currency := currency } := by
    intro r
    rw [Table.mem_insert, and_iff_right ho]
  constructor
  · intro h' r hr hreuse
    have heq := h' _ ((hmem _).mpr (.inr rfl)) r ((hmem r).mpr (.inl hr)) rfl hreuse
    exact ho (List.mem_map.mpr ⟨r, hr, congrArg (·.orderId) heq⟩)
  · intro hnone r hr r' hr' hp hreuse
    rcases (hmem r).mp hr with hr | rfl
    · rcases (hmem r').mp hr' with hr' | rfl
      · exact h r hr r' hr' hp hreuse
      · obtain ⟨hc, -, hn, hcur⟩ := reusable_iff.mp hreuse
        exact absurd (reusable_iff.mpr ⟨hc.symm, hp, hn.symm, hcur.symm⟩) (hnone r hr)
    · rcases (hmem r').mp hr' with hr' | rfl
      · exact absurd hreuse (hnone r' hr')
      · rfl

theorem uniquePending_step (hn : Numbered s) (hs : s.escrow.UniquePending)
    (h : step s a = some t) : InsertsFirst s a ↔ t.escrow.UniquePending := by
  rcases step_escrow h with ⟨τ, w, hτ, hw, ht⟩ | ⟨hnone, ht⟩
  · rw [ht]
    by_cases hins : ∃ o c n currency, w = .insert o c n currency
    · obtain ⟨o, c, n, currency, rfl⟩ := hins
      obtain rfl := write_insert hw
      have hnew : o ∉ s.escrow.rows.map (·.orderId) := by
        obtain ⟨i, ch, f, -, -, hi⟩ := hτ
        exact (hn.inserts i _ f hi o rfl).2
      refine Iff.trans ?_ (uniquePending_insert hs hnew).symm
      constructor
      · intro hk
        exact hk c n currency o hτ
      · intro hk c' n' currency' o' hτ'
        cases hτ.unique hτ'
        exact hk
    · refine ⟨fun _ => uniquePending_run hs fun o c n currency he => hins ⟨_, _, _, _, he⟩, ?_⟩
      rintro - c n currency o hτ'
      cases hτ.unique hτ'
      exact absurd ⟨_, _, _, _, (Option.some.inj hw).symm⟩ hins
  · rw [ht]
    exact ⟨fun _ => hs, fun _ c n currency o hτ => absurd rfl (hnone _ _ hτ)⟩

theorem answers_holds (h : Answers s a c n currency answer) : s.Holds answer := by
  obtain ⟨i, q, -, hi, -, -⟩ := h
  exact .inr ⟨i, by rw [hi]; rfl⟩

theorem namesPending_iff (hb : Backed s) (hs : s.escrow.UniquePending) :
    AnswersKept s a ↔ NamesPending s a := by
  constructor
  · intro hk c n currency answer ha r hr hreuse
    obtain ⟨⟨o, rfl⟩, hpending⟩ := hk c n currency answer ha ⟨r, hr, hreuse⟩
    obtain ⟨r', hr', rfl, rfl, rfl, rfl⟩ := hb.responses _ (answers_holds ha)
    rw [hs r' hr' r hr (hpending r' hr' rfl) hreuse]
    rfl
  · rintro hn c n currency answer ha ⟨r, hr, hreuse⟩
    have hid : answer.orderId = some r.orderId := hn c n currency answer ha r hr hreuse
    obtain ⟨hc, hp, hamount, hcurrency⟩ := reusable_iff.mp hreuse
    refine ⟨?_, fun r' hr' hid' => ?_⟩
    · have hbacked := hb.responses answer (answers_holds ha)
      cases answer with
      | order c' o n' currency' =>
        cases hid
        obtain ⟨r', hr', ho, rfl, rfl, rfl⟩ := hbacked
        obtain rfl := Table.eq_of_orderId hr' hr ho
        exact ⟨r'.orderId, by rw [hc, hamount, hcurrency]⟩
      | authorized c' o p n' =>
        cases hid
        obtain ⟨r', hr', ho, hleft⟩ := hbacked
        obtain rfl := Table.eq_of_orderId hr' hr ho
        exact absurd hp hleft
      | _ => cases hid
    · obtain rfl := Table.eq_of_orderId hr' hr (Option.some.inj (hid'.symm.trans hid))
      exact hp

/--
In every state of every run a contract has at most one unpaid order over an amount, and every
request answered while there is one is given its id, if and only if no order is inserted over an
unpaid one and no answer is kept past its order.
-/
theorem unique_pending_iff (h₀ : Initial s₀) (h : system.Run Any s₀ as t) :
    ((∀ u ∈ system.visited s₀ as, u.escrow.UniquePending) ∧
        ∀ x ∈ system.steps s₀ as, NamesPending x.1 x.2.1) ↔
      system.Run (fun s a => InsertsFirst s a ∧ AnswersKept s a) s₀ as t := by
  refine h.forall_iff (I := fun s => Once s ∧ Numbered s ∧ Backed s)
    (Q := fun s a _ => NamesPending s a) ?_ ?_ ?_ ?_
  · rintro s a t ⟨ho, hn, hb⟩ hst
    exact ⟨once_step ho hst, numbered_step hn hst, backed_step ho hn hb hst⟩
  · rintro s a t ⟨ho, hn, hb⟩ hs hst
    exact and_congr (uniquePending_step hn hs hst) (namesPending_iff hb hs)
  · exact ⟨once_initial h₀, numbered_initial h₀, backed_initial h₀⟩
  · rw [h₀.1]
    simp [Table.UniquePending, Table.empty]

/-- Two requests look for an unpaid order before either has inserted its own. -/
def fundTwice : List Action :=
  [.request 0 ⟨0, none, .fund 7 { amountMinor := some 50000 }⟩,
    .request 1 ⟨0, none, .fund 7 { amountMinor := some 50000 }⟩] ++
  proceed 0 1 ++ proceed 1 1 ++ proceed 0 5 ++ proceed 1 5

instance : Decidable T.UniquePending :=
  inferInstanceAs (Decidable (∀ r ∈ T.rows, ∀ r' ∈ T.rows, r.status = .pending →
    reusable r.contractId r.amountCents r.currency r' → r' = r))

theorem unique_pending_fundTwice :
    ∃ t, system.exec {} fundTwice = some t ∧
      (((∀ u ∈ system.visited {} fundTwice, u.escrow.UniquePending) ∧
          ∀ x ∈ system.steps {} fundTwice, NamesPending x.1 x.2.1) ↔
        system.Run (fun s a => InsertsFirst s a ∧ AnswersKept s a) {} fundTwice t) := by
  have h : (system.exec {} fundTwice).isSome := by decide +kernel
  obtain ⟨t, ht⟩ := Option.isSome_iff_exists.mp h
  exact ⟨t, ht, unique_pending_iff initial_default (run_of_exec ht)⟩

/-- Both orders are unpaid, and each request has been given its own. -/
theorem two_unpaid_orders :
    ¬ ∀ s₀ as t, Initial s₀ → system.Run Any s₀ as t →
      (∀ u ∈ system.visited s₀ as, u.escrow.UniquePending) ∧
        ∀ x ∈ system.steps s₀ as, NamesPending x.1 x.2.1 := by
  intro hall
  have h : (system.exec {} fundTwice).isSome := by decide +kernel
  obtain ⟨t, ht⟩ := Option.isSome_iff_exists.mp h
  have hunique := (hall {} fundTwice t initial_default (run_of_exec ht)).1
  exact absurd hunique (by decide +kernel)

end AssureCode.Escrow
