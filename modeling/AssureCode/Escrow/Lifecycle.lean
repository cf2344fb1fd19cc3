import AssureCode.Escrow.Steps

/-! # The lifecycle of an escrow row

A row starts unpaid, and every statement but one asks for the status it leaves. The release
inside `commitSettlement` asks for the payment only: a payment that fails after the settlement
has selected it is released all the same.
-/

namespace AssureCode.Escrow

open Gateway Settlement Machine

variable {s t s₀ : State} {a : Action} {as : List Action} {T T' : Table} {w : Write} {r : Row}

/-- The transitions of the lifecycle. -/
def Moves : EscrowStatus → EscrowStatus → Bool
  | .pending, .authorized | .authorized, .released | .pending, .failed
  | .authorized, .failed => true
  | _, _ => false

/-- Every row of the first table is in the second, where it was or one transition on. -/
def Table.Follows (T T' : Table) : Prop :=
  ∀ r ∈ T.rows, ∃ r' ∈ T'.rows, r'.orderId = r.orderId ∧
    (r'.status = r.status ∨ Moves r.status r'.status)

instance : Decidable (T.Follows T') :=
  inferInstanceAs (Decidable (∀ r ∈ T.rows, ∃ r' ∈ T'.rows, r'.orderId = r.orderId ∧
    (r'.status = r.status ∨ Moves r.status r'.status)))

/-- The rows the gateway can have written: an unpaid one has no payment. -/
structure Table.Sound (T : Table) : Prop where
  unpaid : ∀ r ∈ T.rows, r.status = .pending → r.paymentId = none
  known : ∀ r ∈ T.rows, r.status ≠ .captured ∧ r.status ≠ .refunded

/-- No release is executed over a payment whose escrow has failed. -/
def ReleasesHeld (s : State) (a : Action) : Prop :=
  ∀ held, Executes s a (.release held) →
    ∀ r ∈ s.escrow.rows, r.paymentId = some held.paymentId → r.status ≠ .failed

/-! ## One statement -/

theorem Table.Sound.run (h : T.Sound) (w : Write) : (w.run T).Sound := by
  constructor
  · intro r hr hp
    rcases Write.mem_run hr with ⟨r₀, hr₀, rfl | hturn⟩ | ⟨o, c, n, currency, -, -, rfl⟩
    · exact h.unpaid r hr₀ hp
    · exact absurd hp hturn.ne_pending
    · rfl
  · intro r hr
    rcases Write.mem_run hr with ⟨r₀, hr₀, rfl | hturn⟩ | ⟨o, c, n, currency, -, -, rfl⟩
    · exact h.known r hr₀
    · cases hturn <;> simp
    · simp

theorem Table.Follows.refl : T.Follows T := fun r hr => ⟨r, hr, rfl, .inl rfl⟩

theorem Table.follows_map {g : Row → Row} (hT' : T'.rows = T.rows.map g)
    (hg : ∀ r, (g r).orderId = r.orderId) :
    T.Follows T' ↔ ∀ r ∈ T.rows, (g r).status = r.status ∨ Moves r.status (g r).status := by
  have hmem : ∀ r ∈ T.rows, g r ∈ T'.rows := fun r hr => hT' ▸ List.mem_map_of_mem hr
  constructor
  · intro h r hr
    obtain ⟨r', hr', ho, hm⟩ := h r hr
    rwa [Table.eq_of_orderId hr' (hmem r hr) (ho.trans (hg r).symm)] at hm
  · intro h r hr
    exact ⟨g r, hmem r hr, hg r, h r hr⟩

theorem Table.follows_setStatus {sel : Row → Bool} {status : EscrowStatus} :
    T.Follows (T.setStatus sel status) ↔
      ∀ r ∈ T.rows, sel r → status = r.status ∨ Moves r.status status := by
  rw [Table.follows_map rfl (fun r => by by_cases hr : sel r <;> simp [hr])]
  apply forall₂_congr
  intro r _
  by_cases hr : sel r <;> simp [hr]

/-- Every statement but a release follows the lifecycle. -/
theorem Write.follows (hw : ∀ p, w ≠ .release p) : T.Follows (w.run T) := by
  cases w with
  | authorize o p =>
    cases hT : T.authorize o p with
    | none => simpa [Write.run, hT] using Table.Follows.refl
    | some T' =>
      simp only [Write.run, hT, Option.getD_some]
      rw [Table.follows_map (Table.rows_authorize hT)
        (fun r => by by_cases hr : Table.pendingOrder o r <;> simp [Table.authorized, hr])]
      intro r _
      by_cases hr : Table.pendingOrder o r
      · have hp : r.status = .pending := (of_decide_eq_true hr).2
        exact .inr (by simp [Table.authorized, hr, hp, Moves])
      · exact .inl (by simp [Table.authorized, hr])
  | failOrder o =>
    refine Table.follows_setStatus.mpr fun r _ hr => .inr ?_
    rcases (of_decide_eq_true hr).2 with hp | hp <;> rw [hp] <;> rfl
  | failPayment p =>
    refine Table.follows_setStatus.mpr fun r _ hr => .inr ?_
    rcases (of_decide_eq_true hr).2 with hp | hp <;> rw [hp] <;> rfl
  | release p => exact absurd rfl (hw p)
  | insert o c n currency =>
    exact fun r hr => ⟨r, Table.mem_insert.mpr (.inl hr), rfl, .inl rfl⟩

/-- A release follows the lifecycle exactly when the payment's escrow has not failed. -/
theorem Table.Sound.follows_release (h : T.Sound) {p : PaymentId} :
    T.Follows ((Write.release p).run T) ↔
      ∀ r ∈ T.rows, r.paymentId = some p → r.status ≠ .failed := by
  refine Table.follows_setStatus.trans (forall₂_congr fun r hr => ?_)
  have hknown := h.known r hr
  have hunpaid := h.unpaid r hr
  simp only [Table.holds, decide_eq_true_eq]
  apply forall_congr'
  intro hp
  cases hs : r.status with
  | pending => simp [hunpaid hs] at hp
  | authorized => simp [Moves]
  | captured => exact absurd hs hknown.1
  | released => simp
  | refunded => exact absurd hs hknown.2
  | failed => simp [Moves]

/-! ## Runs -/

theorem sound_initial (h : Initial s) : s.escrow.Sound := by
  rw [h.1]
  exact ⟨by simp [Table.empty], by simp [Table.empty]⟩

theorem sound_step (hs : s.escrow.Sound) (h : step s a = some t) : t.escrow.Sound :=
  escrow_step (P := Table.Sound) (fun _ w hs => hs.run w) h hs

theorem write_release {τ : Task} {p : PaymentId} (h : τ.write = some (.release p)) :
    ∃ held, τ = .release held ∧ held.paymentId = p := by
  cases τ with
  | release held => cases h; exact ⟨held, rfl, rfl⟩
  | apply m =>
    obtain ⟨c, o, q, type⟩ := m
    cases q <;> cases type <;> cases h
  | _ => cases h

theorem follows_step (hs : s.escrow.Sound) (h : step s a = some t) :
    ReleasesHeld s a ↔ s.escrow.Follows t.escrow := by
  rcases step_escrow h with ⟨τ, w, hτ, hw, ht⟩ | ⟨hn, ht⟩
  · rw [ht]
    by_cases hr : ∃ p, w = .release p
    · obtain ⟨p, rfl⟩ := hr
      obtain ⟨held, rfl, rfl⟩ := write_release hw
      rw [hs.follows_release]
      constructor
      · intro hk
        exact hk held hτ
      · intro hf held' hτ'
        cases hτ.unique hτ'
        exact hf
    · refine ⟨fun _ => Write.follows fun p hp => hr ⟨p, hp⟩, fun _ held hheld => ?_⟩
      cases hτ.unique hheld
      exact absurd ⟨_, (Option.some.inj hw).symm⟩ hr
  · rw [ht]
    exact ⟨fun _ => .refl, fun _ held hheld => absurd rfl (hn _ _ hheld)⟩

/--
The rows of every run from the empty table move along the lifecycle only, if and only if no step
releases an escrow that has failed.
-/
theorem follows_lifecycle_iff (h₀ : Initial s₀) (h : system.Run Any s₀ as t) :
    (∀ x ∈ system.steps s₀ as, x.1.escrow.Follows x.2.2.escrow) ↔
      system.Run ReleasesHeld s₀ as t :=
  h.forall_steps_iff (I := fun s => s.escrow.Sound) (Q := fun s _ t => s.escrow.Follows t.escrow)
    (fun _ _ _ hs hst => sound_step hs hst) (fun _ _ _ hs hst => follows_step hs hst)
    (sound_initial h₀)

/-- The payment fails between a settlement's selection and its commit. -/
def failsWhileSettling : List Action :=
  fundOrder ++ confirmOrder ++ [.settle 1 7, .advance 1 .ok] ++
    (.deliver 0 failedDelivery :: proceed 0 6) ++ [.advance 1 .ok]

theorem follows_lifecycle_failsWhileSettling :
    ∃ t, system.exec {} failsWhileSettling = some t ∧
      ((∀ x ∈ system.steps {} failsWhileSettling, x.1.escrow.Follows x.2.2.escrow) ↔
        system.Run ReleasesHeld {} failsWhileSettling t) := by
  have h : (system.exec {} failsWhileSettling).isSome := by decide +kernel
  obtain ⟨t, ht⟩ := Option.isSome_iff_exists.mp h
  exact ⟨t, ht, follows_lifecycle_iff initial_default (run_of_exec ht)⟩

/-- The failed escrow is released. -/
theorem lifecycle_not_followed :
    ¬ ∀ s₀ as t, Initial s₀ → system.Run Any s₀ as t →
      ∀ x ∈ system.steps s₀ as, x.1.escrow.Follows x.2.2.escrow := by
  intro hall
  have h : (system.exec {} failsWhileSettling).isSome := by decide +kernel
  obtain ⟨t, ht⟩ := Option.isSome_iff_exists.mp h
  exact absurd (hall {} failsWhileSettling t initial_default (run_of_exec ht)) (by decide +kernel)

end AssureCode.Escrow
