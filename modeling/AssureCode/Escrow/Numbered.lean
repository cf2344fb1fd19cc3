import AssureCode.Escrow.Steps

/-! # The numbers of orders

The provider names each order it creates, and one handler inserts it. So the row an insert
writes is new.
-/

namespace AssureCode.Escrow

open Gateway Settlement Machine

variable {s t : State} {a : Action} {T : Table} {o : OrderId} {i j : ℕ} {f f' : Frame}
  {τ τ' : Task} {r : Row} {c : ContractId} {n : ℕ} {currency : String}


/-- The order that the task is about to insert. -/
def Task.inserts : Task → Option OrderId
  | .appendCreated _ _ _ o | .insertOrder _ _ _ o => some o
  | _ => none

/-- Orders are numbered by the provider, and each one is inserted by one handler. -/
structure Numbered (s : State) : Prop where
  rows : ∀ r ∈ s.escrow.rows, r.orderId < s.orders
  inserts : ∀ i τ f, s.actors i = .running τ f → ∀ o, τ.inserts = some o →
    o < s.orders ∧ o ∉ s.escrow.rows.map (·.orderId)
  unique : ∀ i j τ τ' f f' o, s.actors i = .running τ f → τ.inserts = some o →
    s.actors j = .running τ' f' → τ'.inserts = some o → i = j

theorem numbered_initial (h : Initial s) : Numbered s := by
  obtain ⟨he, -, -, -, -, -, ha⟩ := h
  constructor
  · simp [he, Table.empty]
  · intro i τ f hi
    rw [ha i] at hi
    cases hi
  · intro i j τ τ' f f' o hi
    rw [ha i] at hi
    cases hi

theorem orderId_run {w : Write} (hr : r ∈ (w.run T).rows) :
    r.orderId ∈ T.rows.map (·.orderId) ∨ ∃ c n currency, w = .insert r.orderId c n currency := by
  rcases Write.mem_run hr with ⟨r₀, hr₀, rfl | hturn⟩ | ⟨o, c, n, currency, rfl, -, rfl⟩
  · exact .inl (List.mem_map_of_mem hr₀)
  · exact .inl (hturn.frame.1 ▸ List.mem_map_of_mem hr₀)
  · exact .inr ⟨c, n, currency, rfl⟩

theorem write_insert (h : τ.write = some (.insert o c n currency)) :
    τ = .insertOrder c n currency o := by
  cases τ with
  | insertOrder => cases h; rfl
  | apply m =>
    obtain ⟨c', o', q, type⟩ := m
    cases q <;> cases type <;> cases h
  | _ => cases h

/-- An order comes into the table when its handler inserts it. -/
theorem orderId_step (h : step s a = some t) (hr : r ∈ t.escrow.rows) :
    r.orderId ∈ s.escrow.rows.map (·.orderId) ∨
      ∃ c n currency, Executes s a (.insertOrder c n currency r.orderId) := by
  rcases step_escrow h with ⟨τ, w, hτ, hw, ht⟩ | ⟨-, ht⟩
  · rcases orderId_run (ht ▸ hr) with hr | ⟨c, n, currency, rfl⟩
    · exact .inl hr
    · exact .inr ⟨c, n, currency, write_insert hw ▸ hτ⟩
  · exact .inl (List.mem_map_of_mem (ht ▸ hr))

theorem orders_step (h : step s a = some t) : s.orders ≤ t.orders := by
  rcases step_tables h with ⟨τ, -, ht⟩ | ⟨-, ht⟩
  · have ho : t.orders = s.orders + τ.newOrders := congrArg (fun x => x.2.2.2.2) ht
    omega
  · have ho : t.orders = s.orders := congrArg (fun x => x.2.2.2.2) ht
    exact ho.ge

theorem starts_inserts (h : τ.Starts s) : τ.inserts = none := by
  cases τ with
  | appendCreated | insertOrder => exact h.elim
  | _ => rfl

theorem raised_inserts (h : raised τ = .task τ') : τ'.inserts = none := by
  rcases raised_leads (s := {}) h with ⟨hl, ⟨d, row, rfl⟩ | ⟨c, o, p, row, rfl⟩⟩
  · cases hl <;> rfl
  · cases hl
    rfl

theorem Leads.inserts (h : Leads s τ τ') (ho : τ'.inserts = some o) :
    (∃ c n currency, τ = .createOrder c n currency ∧ o = s.orders) ∨
      ∃ c n currency, τ = .appendCreated c n currency o := by
  cases h with
  | createOrder => cases ho; exact .inl ⟨_, _, _, rfl, rfl⟩
  | appendCreated => cases ho; exact .inr ⟨_, _, _, rfl⟩
  | _ => cases ho

/-- A handler that holds an order for insertion has held it before, and is not inserting it, or
the provider has just created it. -/
theorem inserts_step (h : step s a = some t) (hr : t.actors j = .running τ f)
    (ho : τ.inserts = some o) :
    (∃ τ₀, s.actors j = .running τ₀ f ∧ τ₀.inserts = some o ∧
      ∀ c, c ≠ .failed → a = .advance j c → ∀ c n currency, τ₀ ≠ .insertOrder c n currency o) ∨
    o = s.orders ∧ a = .advance j .ok ∧
      ∃ c n currency, Executes s a (.createOrder c n currency) := by
  have hstart : ¬ τ.Starts s := fun hs => by
    rw [starts_inserts hs] at ho
    cases ho
  have hraise : ∀ τ₀, raised τ₀ ≠ .task τ := fun τ₀ hn => by
    rw [raised_inserts hn] at ho
    cases ho
  rcases step_running_next h hr hstart hraise with ⟨hj, hne⟩ | ⟨hac, τ₀, hj, hl⟩
  · exact .inl ⟨τ, hj, ho, fun c hc hac => absurd hac (hne c hc)⟩
  · rcases hl.inserts ho with ⟨c, n, currency, rfl, rfl⟩ | ⟨c, n, currency, rfl⟩
    · exact .inr ⟨rfl, hac, c, n, currency, j, .ok, f, hac, by simp, hj⟩
    · exact .inl ⟨_, hj, rfl, by simp⟩

theorem numbered_step (hs : Numbered s) (h : step s a = some t) : Numbered t := by
  have hle : s.orders ≤ t.orders := orders_step h
  constructor
  · intro r hr
    rcases orderId_step h hr with hr | ⟨c, n, currency, i, ch, f, -, -, hi⟩
    · obtain ⟨r', hr', ho⟩ := List.mem_map.mp hr
      exact ho ▸ (hs.rows r' hr').trans_le hle
    · exact (hs.inserts i _ f hi _ rfl).1.trans_le hle
  · intro j τ f hj o ho
    rcases inserts_step h hj ho with ⟨τ₀, hj, ho, hne⟩ | ⟨rfl, -, c, n, currency, he⟩
    · obtain ⟨hlt, hnew⟩ := hs.inserts j τ₀ f hj o ho
      refine ⟨hlt.trans_le hle, fun hmem => ?_⟩
      obtain ⟨r, hr, rfl⟩ := List.mem_map.mp hmem
      rcases orderId_step h hr with hr | ⟨c, n, currency, i, ch, f', hac, hch, hi⟩
      · exact hnew hr
      · cases hs.unique i j _ τ₀ f' f _ hi rfl hj ho
        cases hi.symm.trans hj
        exact hne ch hch hac c n currency rfl
    · have hlt : t.orders = s.orders + 1 :=
        congrArg (fun x => x.2.2.2.2) (executes_tables h he)
      refine ⟨hlt ▸ Nat.lt_succ_self _, fun hmem => ?_⟩
      obtain ⟨r, hr, ho⟩ := List.mem_map.mp hmem
      rcases orderId_step h hr with hr | ⟨c', n', currency', he'⟩
      · obtain ⟨r', hr', ho'⟩ := List.mem_map.mp hr
        exact absurd (hs.rows r' hr') (ho' ▸ ho ▸ lt_irrefl _)
      · cases he.unique he'
  · intro i j τ τ' f f' o hi ho hj ho'
    rcases inserts_step h hi ho with ⟨τ₀, hi, ho, -⟩ | ⟨rfl, hai, -⟩
    · rcases inserts_step h hj ho' with ⟨τ₁, hj, ho', -⟩ | ⟨rfl, -, -⟩
      · exact hs.unique i j τ₀ τ₁ f f' o hi ho hj ho'
      · exact absurd (hs.inserts i τ₀ f hi _ ho).1 (lt_irrefl _)
    · rcases inserts_step h hj ho' with ⟨τ₁, hj, ho', -⟩ | ⟨-, haj, -⟩
      · exact absurd (hs.inserts j τ₁ f' hj _ ho').1 (lt_irrefl _)
      · rw [hai] at haj
        cases haj
        rfl

end AssureCode.Escrow
