import AssureCode.Escrow.Authorized
import AssureCode.Escrow.Numbered

/-! # What the gateway answers

A response is made when a handler ends, and the middleware may keep it and give it to other
requests with the same key. The order a response names has a row in the table from then on.
-/

namespace AssureCode.Escrow

open Gateway Settlement Machine

variable {s t s₀ : State} {a : Action} {as : List Action} {T : Table} {o : OrderId}
  {i : ℕ} {f : Frame} {n : Next} {τ τ' : Task} {r r' : Response} {S : Store Key Response}

/-- The response a handler is about to give. -/
def Actor.response : Actor → Option Response
  | .persisting _ _ r | .replying _ r => some r
  | _ => none

/-- The response is kept under a key, or a handler is about to give it. -/
def State.Holds (s : State) (r : Response) : Prop :=
  s.store.Holds r ∨ ∃ i, (s.actors i).response = some r

theorem holds_setActor {b : Actor} (h : (s.setActor i b).Holds r) :
    s.Holds r ∨ b.response = some r := by
  rcases h with h | ⟨j, hj⟩
  · exact .inl (.inl h)
  · rcases eq_or_ne j i with rfl | hne
    · exact .inr (by simpa using hj)
    · rw [setActor_ne hne] at hj
      exact .inl (.inr ⟨j, hj⟩)

theorem holds_store (h : State.Holds { s with store := S } r) (hS : S.Holds r → s.Holds r) :
    s.Holds r :=
  h.elim hS .inr

/-- The request that a handler was started for. -/
def Frame.asked : Frame → Option Request
  | .request q | .keyed q _ _ _ => some q
  | _ => none

/-- The handler of a request adds its response when it ends, or the one that says it failed. -/
theorem holds_goto (h : (s.goto i f n).Holds r) :
    s.Holds r ∨ f.asked.isSome ∧ (n = .done r ∨ n = .throw ∧ r = handlerFailed) := by
  have hresolve : ∀ {ticket r'}, State.Holds { s with store := s.store.resolve ticket r' } r →
      s.Holds r ∨ r' = r := by
    rintro ticket r' (h | h)
    · exact (Store.holds_resolve h).imp_left .inl
    · exact .inl (.inr h)
  cases n with
  | task τ =>
    rcases holds_setActor h with h | h
    · exact .inl h
    · cases h
  | done r' =>
    have hr : s.Holds r ∨ f.asked.isSome ∧ r' = r := by
      cases f with
      | request q => exact (holds_setActor h).imp_right fun h => ⟨rfl, Option.some.inj h⟩
      | keyed q key ticket claim =>
        cases claim <;> rcases holds_setActor h with h | h
        · exact (hresolve h).imp_right fun h => ⟨rfl, h⟩
        · exact .inr ⟨rfl, Option.some.inj h⟩
        · exact (hresolve h).imp_right fun h => ⟨rfl, h⟩
        · exact .inr ⟨rfl, Option.some.inj h⟩
      | _ =>
        rcases holds_setActor h with h | h
        · exact .inl h
        · cases h
    exact hr.imp_right fun ⟨hf, he⟩ => ⟨hf, .inl (congrArg Next.done he)⟩
  | throw =>
    have hr : s.Holds r ∨ f.asked.isSome ∧ r = handlerFailed := by
      cases f with
      | keyed q key ticket claim =>
        rcases holds_setActor h with (h | h) | h
        · exact (Store.holds_resolve h).imp .inl fun h => ⟨rfl, h.symm⟩
        · exact .inl (.inr h)
        · cases claim <;> cases h
      | _ =>
        rcases holds_setActor h with h | h
        · exact .inl h
        · cases h
    exact hr.imp_right fun ⟨hf, he⟩ => ⟨hf, .inr ⟨rfl, he⟩⟩

/-- A handler that ends with an error or an acknowledgement adds no order. -/
theorem holds_goto_none (hn : ∀ r, n = .done r → r.orderId = none) (h : (s.goto i f n).Holds r) :
    s.Holds r ∨ r.orderId = none := by
  rcases holds_goto h with h | ⟨-, h | ⟨-, rfl⟩⟩
  · exact .inl h
  · exact .inr (hn r h)
  · exact .inr rfl

theorem callStart_none {c : Call} (h : c.start = .done r) : r.orderId = none := by
  cases c with
  | fund c b =>
    simp only [Call.start] at h
    split at h <;> cases h
    rfl
  | verify c b =>
    simp only [Call.start] at h
    split at h
    · split at h <;> cases h
      rfl
    · cases h
      rfl

theorem holds_runHandler {q : Request} {key : Key} {ticket : Ticket} {claim : Claim}
    (hS : S.Holds r → s.Holds r)
    (h : (State.runHandler { s with store := S } i q key ticket claim).Holds r) :
    s.Holds r ∨ r.orderId = none :=
  (holds_goto_none (fun _ => callStart_none) h).imp_left fun h => holds_store h hS

theorem deliveryStart_none {d : Delivery} (h : d.start = .done r) : r.orderId = none := by
  unfold Delivery.start at h
  split at h <;> cases h
  rfl

theorem holds_start (h : start s i a = some t) (hr : t.Holds r) : s.Holds r ∨ r.orderId = none := by
  cases a with
  | deliver _ d =>
    cases h
    exact holds_goto_none (fun _ => deliveryStart_none) hr
  | request _ q =>
    simp only [start] at h
    split at h
    · cases h
      exact holds_goto_none (fun _ => callStart_none) hr
    · split at h <;> cases h
      · exact .inl ((holds_setActor hr).resolve_right (by simp [Actor.response]))
      · exact .inl ((holds_setActor hr).resolve_right (by simp [Actor.response]))
  | consume _ m =>
    simp only [start] at h
    split at h <;> cases h
    exact holds_goto_none (by simp) hr
  | settle _ c =>
    cases h
    exact holds_goto_none (by simp) hr
  | _ => cases h

/-- The response is new: a handler ends with it. -/
def Made (s : State) (a : Action) (r : Response) : Prop :=
  ∃ i τ f, s.actors i = .running τ f ∧
    (raised τ = .done r ∨ Executes s a τ ∧ (perform s τ).2 = .done r)

theorem holds_effect : (τ.effect s).Holds r ↔ s.Holds r := Iff.rfl

section Advance

variable {c : Outcome} {q : Request} {key : Key} {ticket : Ticket}

theorem holds_advance_running (hi : s.actors i = .running τ f) (h : advance s i c = some t)
    (hr : t.Holds r) : s.Holds r ∨ r.orderId = none ∨ Made s (.advance i c) r := by
  cases c with
  | ok =>
    simp only [advance, hi, Option.some.injEq] at h
    subst h
    rcases holds_goto hr with hr | ⟨-, hr | ⟨-, rfl⟩⟩
    · exact .inl (holds_effect.mp (perform_effect s τ ▸ hr))
    · exact .inr (.inr ⟨i, τ, f, hi, .inr ⟨⟨i, .ok, f, rfl, by simp, hi⟩, hr⟩⟩)
    · exact .inr (.inl rfl)
  | failed =>
    simp only [advance, hi, Option.some.injEq] at h
    subst h
    rcases holds_goto hr with hr | ⟨-, hr | ⟨-, rfl⟩⟩
    · exact .inl hr
    · exact .inr (.inr ⟨i, τ, f, hi, .inl hr⟩)
    · exact .inr (.inl rfl)
  | lost =>
    simp only [advance, hi, Option.some.injEq] at h
    subst h
    rcases holds_goto hr with hr | ⟨-, hr | ⟨-, rfl⟩⟩
    · exact .inl (holds_effect.mp (perform_effect s τ ▸ hr))
    · exact .inr (.inr ⟨i, τ, f, hi, .inl hr⟩)
    · exact .inr (.inl rfl)

theorem holds_advance_awaiting (hi : s.actors i = .awaiting q key ticket)
    (h : advance s i c = some t) (hr : t.Holds r) : s.Holds r := by
  cases c with
  | ok =>
    simp only [advance, hi] at h
    obtain ⟨r', hp, rfl⟩ := Option.map_eq_some_iff.mp h
    rcases holds_setActor hr with hr | hr
    · exact hr
    · cases hr
      exact .inl (.inl ⟨ticket, hp⟩)
  | _ => simp [advance, hi] at h

theorem holds_advance_reserving (hi : s.actors i = .reserving q key ticket)
    (h : advance s i c = some t) (hr : t.Holds r) : s.Holds r ∨ r.orderId = none := by
  cases c with
  | ok =>
    simp only [advance, hi, Option.some.injEq] at h
    split at h <;> subst h
    · next S hS => exact holds_runHandler (fun h => .inl (Store.holds_reserve hS h)) hr
    · exact .inl ((holds_setActor hr).resolve_right (by simp [Actor.response]))
  | failed =>
    simp only [advance, hi, Option.some.injEq] at h
    subst h
    exact holds_runHandler .inl hr
  | lost =>
    simp only [advance, hi, Option.some.injEq] at h
    subst h
    refine holds_runHandler (fun h => .inl ?_) hr
    cases hS : s.store.reserve key with
    | none => simpa [hS] using h
    | some S => exact Store.holds_reserve hS (by simpa [hS] using h)

/-- The response that another process has stored is kept already. -/
theorem holds_advance_polling (hi : s.actors i = .polling q key ticket)
    (h : advance s i c = some t) (hr : t.Holds r) : s.Holds r ∨ r.orderId = none := by
  cases c with
  | ok =>
    simp only [advance, hi, Option.some.injEq] at h
    split at h <;> subst h
    · next r' hr' =>
      have hold : s.Holds r' := .inl (Store.holds_stored hr')
      rcases holds_setActor hr with (hr | hr) | hr
      · rcases Store.holds_replay hr with hr | rfl
        · exact .inl (.inl hr)
        · exact .inl hold
      · exact .inl (.inr hr)
      · cases hr
        exact .inl hold
    · exact .inl hr
  | _ =>
    simp only [advance, hi, Option.some.injEq] at h
    subst h
    exact holds_runHandler .inl hr

theorem holds_advance_persisting (hi : s.actors i = .persisting q key r')
    (h : advance s i c = some t) (hr : t.Holds r) : s.Holds r := by
  have hold : s.Holds r' := .inr ⟨i, by rw [hi]; rfl⟩
  have hreply : ∀ {S}, (S.Holds r → s.Holds r) →
      (State.setActor { s with store := S } i (.replying q r')).Holds r → s.Holds r := by
    intro S hS hr
    rcases holds_setActor hr with hr | hr
    · exact holds_store hr hS
    · cases hr
      exact hold
  have hpersist : (s.store.persist key r').Holds r → s.Holds r := by
    intro h
    rcases Store.holds_persist h with h | rfl
    · exact .inl h
    · exact hold
  cases c with
  | failed =>
    simp only [advance, hi, Option.some.injEq] at h
    subst h
    exact hreply .inl hr
  | _ =>
    simp only [advance, hi, Option.some.injEq] at h
    subst h
    exact hreply hpersist hr

theorem holds_advance_releasing (hi : s.actors i = .releasing q key ticket)
    (h : advance s i c = some t) (hr : t.Holds r) : s.Holds r ∨ r.orderId = none := by
  cases c with
  | failed =>
    simp only [advance, hi, Option.some.injEq] at h
    subst h
    exact holds_runHandler .inl hr
  | _ =>
    simp only [advance, hi, Option.some.injEq] at h
    subst h
    exact holds_runHandler (fun h => .inl (Store.holds_release h)) hr

theorem holds_advance (h : advance s i c = some t) (hr : t.Holds r) :
    s.Holds r ∨ r.orderId = none ∨ Made s (.advance i c) r := by
  cases hi : s.actors i with
  | idle => simp [advance, hi] at h
  | running τ f => exact holds_advance_running hi h hr
  | awaiting q key ticket => exact .inl (holds_advance_awaiting hi h hr)
  | reserving q key ticket => exact (holds_advance_reserving hi h hr).imp_right .inl
  | polling q key ticket => exact (holds_advance_polling hi h hr).imp_right .inl
  | persisting q key r' => exact .inl (holds_advance_persisting hi h hr)
  | releasing q key ticket => exact (holds_advance_releasing hi h hr).imp_right .inl
  | acknowledging d r' =>
    cases c with
    | ok =>
      simp only [advance, hi, Option.some.injEq] at h
      subst h
      exact .inl ((holds_setActor hr).resolve_right (by simp [Actor.response]))
    | _ =>
      simp only [advance, hi, Option.some.injEq] at h
      subst h
      exact .inl ((holds_setActor hr).resolve_right (by simp [Actor.response]))
  | replying q r' =>
    simp only [advance, hi, Option.some.injEq] at h
    subst h
    exact .inl ((holds_setActor hr).resolve_right (by simp [Actor.response]))

end Advance

/-- A response that names an order is old, or a handler ends with it. -/
theorem holds_step (h : step s a = some t) (hr : t.Holds r) (ho : r.orderId = some o) :
    s.Holds r ∨ Made s a r := by
  have hnone : ¬ r.orderId = none := by simp [ho]
  cases a with
  | deliver i d =>
    simp only [step] at h
    split at h
    · exact .inl ((holds_start h hr).resolve_right hnone)
    · cases h
  | request i q =>
    simp only [step] at h
    split at h
    · exact .inl ((holds_start h hr).resolve_right hnone)
    · cases h
  | consume i m =>
    simp only [step] at h
    split at h
    · exact .inl ((holds_start h hr).resolve_right hnone)
    · cases h
  | settle i c =>
    simp only [step] at h
    split at h
    · exact .inl ((holds_start h hr).resolve_right hnone)
    · cases h
  | advance i c => exact (holds_advance h hr).imp_right fun h => h.resolve_left hnone
  | timeout i =>
    simp only [step] at h
    split at h <;> cases h
    · exact .inl ((holds_setActor hr).resolve_right (by simp [Actor.response]))
    · exact .inl ((holds_runHandler .inl hr).resolve_right hnone)
  | crash i =>
    cases h
    exact .inl ((holds_setActor hr).resolve_right (by simp [Actor.response]))
  | evict process key =>
    cases h
    exact .inl hr
  | expire key =>
    cases h
    exact .inl (holds_store hr fun h => .inl (Store.holds_expire h))
  | pay p status =>
    cases h
    exact .inl hr

/-! ## Orders and their rows -/

/-- The response that a handler ends with, when it names an order. -/
inductive Ends (s : State) : Task → Response → Prop
  | confirm {c : ContractId} {o : OrderId} {p : PaymentId} {row : Row} :
      s.escrow.count (Table.pendingOrder o) ≠ 1 →
      Ends s (.confirm c o p row) (.authorized c o p row.amountCents)
  | publishConfirmed {c : ContractId} {o : OrderId} {p : PaymentId} {row : Row} :
      Ends s (.publishConfirmed c o p row) (.authorized c o p row.amountCents)
  | reuse {c : ContractId} {n : ℕ} {currency : String} {row : Row} :
      s.escrow.select (reusable c n currency) = some row →
      Ends s (.reuse c n currency) (.order c row.orderId row.amountCents row.currency)
  | recordCreated {c : ContractId} {n : ℕ} {currency : String} {o : OrderId} :
      Ends s (.recordCreated c n currency o) (.order c o n currency)

theorem gate_none {d : Delivery} {row : Row} {inserted : Bool}
    (h : d.gate row inserted = .done r) : r.orderId = none := by
  simp only [Delivery.gate, Delivery.act] at h
  split at h
  · cases h
    rfl
  · split at h <;> cases h
    rfl

theorem perform_ends (h : (perform s τ).2 = .done r) (ho : r.orderId = some o) : Ends s τ r := by
  have hnone : ¬ r.orderId = none := by simp [ho]
  cases τ with
  | lookup d => simp only [perform] at h; split at h <;> cases h; cases ho
  | dedupe d row => exact absurd (gate_none h) hnone
  | markAuthorized d row =>
    simp only [perform] at h
    split at h
    · cases h
    · split at h <;> cases h; cases ho
  | markFailed d row => simp only [perform] at h; split at h <;> cases h; cases ho
  | find c o p =>
    simp only [perform] at h
    split at h
    · cases h; cases ho
    · split at h <;> cases h; cases ho
  | fetch c o p row => simp only [perform] at h; split at h <;> cases h; cases ho
  | confirm c o p row =>
    simp only [perform] at h
    split at h
    · cases h
    · split at h <;> cases h; exact .confirm ‹_›
  | publishConfirmed c o p row => cases h; exact .publishConfirmed
  | apply m =>
    obtain ⟨c, o, q, type⟩ := m
    cases q <;> cases type <;> cases h <;> cases ho
  | reuse c n currency => simp only [perform] at h; split at h <;> cases h; exact .reuse ‹_›
  | recordCreated c n currency o => cases h; exact .recordCreated
  | selectHeld c => simp only [perform] at h; split at h <;> cases h; cases ho
  | _ => cases h <;> cases ho

theorem raised_ends (h : raised τ = .done r) (ho : r.orderId = some o) : Ends s τ r := by
  cases τ with
  | dedupe d row =>
    rw [gate_none h] at ho
    cases ho
  | recordCreated c n currency o => cases h; exact .recordCreated
  | apply m => cases h; cases ho
  | _ => cases h

theorem made_ends (h : Made s a r) (ho : r.orderId = some o) :
    ∃ i τ f, s.actors i = .running τ f ∧ Ends s τ r := by
  obtain ⟨i, τ, f, hi, hr | ⟨-, hr⟩⟩ := h
  · exact ⟨i, τ, f, hi, raised_ends hr ho⟩
  · exact ⟨i, τ, f, hi, perform_ends hr ho⟩

/-- The order has a row, for this contract, amount and currency. -/
def Table.Has (T : Table) (o : OrderId) (c : ContractId) (n : ℕ) (currency : String) : Prop :=
  ∃ r ∈ T.rows, r.orderId = o ∧ r.contractId = c ∧ r.amountCents = n ∧ r.currency = currency

/-- What a response says of an order is so in the table. -/
def Response.Backed (T : Table) : Response → Prop
  | .order c o n currency => T.Has o c n currency
  | .authorized _ o _ _ => T.Left o
  | _ => True

/-- What a task has seen in the table, or written to it. -/
def Task.Backed (T : Table) : Task → Prop
  | .fetch _ o _ _ | .confirm _ o _ _ => o ∈ T.rows.map (·.orderId)
  | .recordCreated c n currency o => T.Has o c n currency
  | _ => True

structure Backed (s : State) : Prop where
  tasks : ∀ i τ f, s.actors i = .running τ f → τ.Backed s.escrow
  responses : ∀ r, s.Holds r → r.Backed s.escrow

theorem Table.Has.run {c : ContractId} {n : ℕ} {currency : String} (h : T.Has o c n currency)
    (w : Write) : (w.run T).Has o c n currency := by
  obtain ⟨r, hr, rfl, rfl, rfl, rfl⟩ := h
  obtain ⟨r', hr', rfl | hturn⟩ := w.run_rows hr
  · exact ⟨r', hr', rfl, rfl, rfl, rfl⟩
  · exact ⟨r', hr', hturn.frame⟩

theorem Response.Backed.run (h : r.Backed T) (w : Write) : r.Backed (w.run T) := by
  cases r with
  | order c o n currency => exact Table.Has.run h w
  | authorized c o p n => exact Table.Left.run h w
  | _ => trivial

theorem Task.Backed.run (h : τ.Backed T) (w : Write) : τ.Backed (w.run T) := by
  have hmem : ∀ {o}, o ∈ T.rows.map (·.orderId) → o ∈ (w.run T).rows.map (·.orderId) := by
    intro o ho
    obtain ⟨r, hr, rfl⟩ := List.mem_map.mp ho
    obtain ⟨r', hr', rfl | hturn⟩ := w.run_rows hr
    · exact List.mem_map_of_mem hr'
    · exact hturn.frame.1 ▸ List.mem_map_of_mem hr'
  cases τ with
  | fetch | confirm => exact hmem h
  | recordCreated c n currency o => exact Table.Has.run h w
  | _ => trivial

theorem backed_initial (h : Initial s) : Backed s := by
  obtain ⟨-, -, -, -, hstore, -, ha⟩ := h
  constructor
  · intro i τ f hi
    rw [ha i] at hi
    cases hi
  · rintro r ((⟨ticket, hp⟩ | ⟨key, row, hk, -⟩) | ⟨i, hi⟩)
    · rw [hstore] at hp
      cases hp
    · rw [hstore] at hk
      cases hk
    · rw [ha i] at hi
      cases hi

theorem Ends.backed (ho : Once s) (hs : Backed s) {i : ℕ} {f : Frame}
    (hi : s.actors i = .running τ f) (h : Ends s τ r) : r.Backed s.escrow := by
  cases h with
  | @confirm c o p row hc =>
    obtain ⟨r, hr, rfl⟩ := List.mem_map.mp (hs.tasks i _ f hi)
    refine ⟨r, hr, rfl, fun hp => hc (Table.count_pendingOrder.mpr ⟨r, hr, ?_⟩)⟩
    exact decide_eq_true ⟨rfl, hp⟩
  | @publishConfirmed c o p row => exact ho.taskLeft i _ f hi o rfl
  | @reuse c n currency row hsel =>
    have hfor := reusable_iff.mp (List.find?_some hsel)
    exact ⟨row, List.mem_of_find?_eq_some hsel, rfl, hfor.1, rfl, rfl⟩
  | recordCreated => exact hs.tasks i _ f hi

theorem backed_step (ho : Once s) (hn : Numbered s) (hs : Backed s) (h : step s a = some t) :
    Backed t := by
  have htask : ∀ τ : Task, τ.Backed s.escrow → τ.Backed t.escrow := fun τ =>
    escrow_step (P := τ.Backed) (fun _ w hτ => Task.Backed.run hτ w) h
  have hresponse : ∀ r : Response, r.Backed s.escrow → r.Backed t.escrow := fun r =>
    escrow_step (P := r.Backed) (fun _ w hr => Response.Backed.run hr w) h
  constructor
  · refine running_step h hs.tasks (fun τ hτ => ?_) htask (fun τ₀ τ _ hr => ?_)
      fun τ₀ τ he hτ hnext => ?_
    · cases τ with
      | fetch | confirm | recordCreated => exact hτ.elim
      | _ => trivial
    · rcases raised_leads (s := s) hr with ⟨hl, ⟨d, row, rfl⟩ | ⟨c, o, p, row, rfl⟩⟩
      · cases hl <;> trivial
      · cases hl
        trivial
    · cases perform_leads hnext with
      | @find c o p row hsel _ =>
        have horder : row.orderId = o := by simpa using List.find?_some hsel
        exact htask (.fetch c o p row)
          (List.mem_map.mpr ⟨row, List.mem_of_find?_eq_some hsel, horder⟩)
      | fetch => exact htask _ hτ
      | @insertOrder c n currency o =>
        have ht : t.escrow = s.escrow.insert o c n currency :=
          congrArg Prod.fst (executes_tables h he)
        obtain ⟨i, ch, f, -, -, hi⟩ := he
        have hnew := (hn.inserts i _ f hi o rfl).2
        exact ⟨_, ht ▸ Table.mem_insert.mpr (.inr ⟨hnew, rfl⟩), rfl, rfl, rfl, rfl⟩
      | _ => trivial
  · intro r hr
    cases hro : r.orderId with
    | none =>
      cases r with
      | order | authorized => cases hro
      | _ => trivial
    | some o =>
      rcases holds_step h hr hro with hr | hm
      · exact hresponse r (hs.responses r hr)
      · obtain ⟨i, τ, f, hi, he⟩ := made_ends hm hro
        exact hresponse r (he.backed ho hs hi)

end AssureCode.Escrow
