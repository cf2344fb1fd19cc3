import AssureCode.Escrow.Steps

/-! # A webhook and its redeliveries

The provider delivers an event until it is answered. The insert that tells a repeat from a first
delivery comes before the escrow update, the ledger entry and the published message, and it
reports its own failure as a repeat.
-/

namespace AssureCode.Escrow

open Settlement Machine

variable {s t : State} {i : ℕ} {d : Delivery} {os : List Outcome} {oss : List (List Outcome)}
  {n : Next} {τ : Task} {row : Row}

/-! ## Deliveries with failures -/

/-- The handler's next statements and calls end as the list says, until it is done. -/
def drive (i : ℕ) : State → List Outcome → State
  | s, [] => s
  | s, o :: os => (advance s i o).elim s fun t => drive i t os

/-- One delivery, whose process dies where the list ends. -/
def attempt (i : ℕ) (d : Delivery) (s : State) (os : List Outcome) : State :=
  (drive i (s.goto i (.webhook d) d.start) os).setActor i .idle

/-- One delivery after another. -/
def deliveries (i : ℕ) (d : Delivery) (s : State) (oss : List (List Outcome)) : State :=
  oss.foldl (attempt i d) s

/-- A delivery without faults: five statements at most, and the answer. -/
def clean (i : ℕ) (d : Delivery) (s : State) : State := attempt i d s (.replicate 6 .ok)

/-- What the deliveries of an event are for. -/
def State.effects (s : State) : Table × List Entry × List Message :=
  (s.escrow, s.ledger, s.published)

/-- As soon as a delivery has been answered, all is as one without faults leaves it. -/
def Delivered (i : ℕ) (d : Delivery) (s : State) (oss : List (List Outcome)) : Prop :=
  ∀ pre, pre <+: oss → (deliveries i d s pre).acknowledged ≠ s.acknowledged →
    (deliveries i d s pre).effects = (clean i d s).effects

/-! ## When a failure matters -/

/-- The event moves the row: an unpaid order is authorized, or a live one fails. -/
def Delivery.Moves (d : Delivery) (s : State) (row : Row) : Prop :=
  (d.event.event = .paymentAuthorized ∨ d.event.event = .orderPaid) ∧
      row.status = .pending ∧ (s.escrow.authorize row.orderId d.event.paymentId).isSome ∨
    d.event.event = .paymentFailed ∧ (row.status = .pending ∨ row.status = .authorized)

/-- The event is new, and its statement finds a row to move. -/
def Delivery.Effective (d : Delivery) (s : State) : Prop :=
  d.providerEventId ∉ s.paymentEvents.map (·.providerEventId) ∧
    ∃ row, s.escrow.select d.matches = some row ∧ d.Moves s row

/-- How far a first delivery gets. -/
inductive Course
  /-- Nothing is written. -/
  | untouched
  /-- The insert fails and is taken for a repeat. -/
  | swallowed (answered : Bool)
  /-- The event is recorded, and something that should follow is not done. -/
  | torn (answered : Bool)
  /-- The message is published. -/
  | complete
  deriving DecidableEq, Repr

def course : List Outcome → Course
  | .ok :: .failed :: os => .swallowed (os.head? = some .ok)
  | .ok :: .lost :: os => .torn (os.head? = some .ok)
  | .ok :: .ok :: .ok :: .ok :: .ok :: _ | .ok :: .ok :: .ok :: .ok :: .lost :: _ => .complete
  | .ok :: .ok :: _ => .torn false
  | _ => .untouched

/-- A delivery of a recorded event is answered. -/
def answersRepeat : List Outcome → Bool
  | .ok :: _ :: .ok :: _ => true
  | _ => false

/-- No delivery is answered between a failed insert, or a handler that stops after the insert, and
the delivery that publishes. -/
def Intact : List (List Outcome) → Prop
  | [] => True
  | os :: oss =>
    match course os with
    | .untouched => Intact oss
    | .swallowed answered => answered = false ∧ Intact oss
    | .torn answered => answered = false ∧ ∀ os ∈ oss, answersRepeat os = false
    | .complete => True

/-! ## One delivery -/

/-- What the handler of a delivery leaves behind. -/
def handle (d : Delivery) : State → Next → List Outcome → State
  | s, _, [] | s, .throw, _ => s
  | s, .done _, .ok :: _ => { s with acknowledged := d :: s.acknowledged }
  | s, .done _, _ :: _ => s
  | s, .task τ, .ok :: os => handle d (perform s τ).1 (perform s τ).2 os
  | s, .task τ, .failed :: os => handle d s (raised τ) os
  | s, .task τ, .lost :: os => handle d (perform s τ).1 (raised τ) os

def State.acknowledge (s : State) (d : Delivery) (answered : Bool) : State :=
  if answered then { s with acknowledged := d :: s.acknowledged } else s

theorem handle_throw : handle d s .throw os = s := by
  cases os <;> rfl

theorem handle_done {r : Response} :
    handle d s (.done r) os = s.acknowledge d (os.head? = some .ok) := by
  rcases os with _ | ⟨_ | _ | _, os⟩ <;> rfl

theorem recordPaymentEvent_setActor {b : Actor} {e : PaymentEvent} :
    recordPaymentEvent (s.setActor i b) e =
      ((recordPaymentEvent s e).1.setActor i b, (recordPaymentEvent s e).2) := by
  unfold recordPaymentEvent
  by_cases h : e.providerEventId.isSome ∧
      e.providerEventId ∈ s.paymentEvents.map (·.providerEventId)
  · rw [if_pos h]
    exact if_pos h
  · rw [if_neg h]
    exact if_neg h

theorem perform_setActor {b : Actor} :
    perform (s.setActor i b) τ = ((perform s τ).1.setActor i b, (perform s τ).2) := by
  cases τ with
  | lookup d => cases h : s.escrow.select d.matches <;> simp [perform, State.setActor, h]
  | dedupe | recordConfirmed | recordCreated => simp only [perform, recordPaymentEvent_setActor]
  | markAuthorized d row =>
    cases h : s.escrow.authorize row.orderId d.event.paymentId <;>
      by_cases hc : s.escrow.count (Table.pendingOrder row.orderId) = 1 <;>
      simp [perform, State.setActor, h, hc]
  | markFailed d row =>
    by_cases hc : s.escrow.count (Table.liveOrder row.orderId) = 1 <;>
      simp [perform, State.setActor, hc]
  | find c o p =>
    cases h : s.escrow.select (·.orderId = o) with
    | none => simp [perform, State.setActor, h]
    | some row => by_cases hc : row.contractId = c <;> simp [perform, State.setActor, h, hc]
  | fetch c o p row =>
    by_cases hp : s.payments p = .authorized ∨ s.payments p = .captured <;>
      simp [perform, State.setActor, hp]
  | confirm c o p row =>
    cases h : s.escrow.authorize o (some p) <;>
      by_cases hc : s.escrow.count (Table.pendingOrder o) = 1 <;>
      simp [perform, State.setActor, h, hc]
  | apply m =>
    obtain ⟨c, o, q, type⟩ := m
    cases q <;> cases type <;> rfl
  | reuse c n currency =>
    cases h : s.escrow.select (reusable c n currency) <;> simp [perform, State.setActor, h]
  | selectHeld c => cases h : s.escrow.findEscrowPayment c <;> simp [perform, State.setActor, h]
  | _ => rfl

@[simp] theorem setActor_setActor {b b' : Actor} :
    (s.setActor i b).setActor i b' = s.setActor i b' := by
  simp [State.setActor]

theorem setActor_goto {b : Actor} :
    (s.setActor i b).goto i (.webhook d) n = s.goto i (.webhook d) n := by
  cases n <;> simp [State.goto]

@[simp] theorem goto_setActor {b : Actor} :
    (s.goto i (.webhook d) n).setActor i b = s.setActor i b := by
  cases n <;> simp [State.goto]

theorem drive_idle (h : s.actors i = .idle) : drive i s os = s := by
  cases os with
  | nil => rfl
  | cons o os => simp [drive, advance, h]

theorem drive_webhook : (drive i (s.goto i (.webhook d) n) os).setActor i .idle =
    (handle d s n os).setActor i .idle := by
  induction os generalizing s n with
  | nil => cases n <;> simp [drive, handle]
  | cons o os ih =>
    cases n with
    | throw => rw [drive_idle (by simp [State.goto])]; simp [handle]
    | done r =>
      cases o with
      | ok =>
        simp only [drive, State.goto, advance, setActor_self, Option.elim_some, handle]
        rw [drive_idle setActor_self]
        simp [State.setActor]
      | _ =>
        simp only [drive, State.goto, advance, setActor_self, Option.elim_some, handle]
        rw [drive_idle setActor_self]
        simp
    | task τ =>
      cases o with
      | ok =>
        simp only [drive, State.goto, advance, setActor_self, Option.elim_some, handle,
          perform_setActor]
        rw [← ih, ← setActor_goto]
        rfl
      | failed =>
        simp only [drive, State.goto, advance, setActor_self, Option.elim_some, handle]
        rw [← ih, ← setActor_goto]
        rfl
      | lost =>
        simp only [drive, State.goto, advance, setActor_self, Option.elim_some, handle,
          perform_setActor]
        rw [← ih, ← setActor_goto]
        rfl

theorem handle_actors : (handle d s n os).actors = s.actors := by
  induction os generalizing s n with
  | nil => cases n <;> rfl
  | cons o os ih =>
    cases n with
    | throw => rfl
    | done r => cases o <;> rfl
    | task τ =>
      have hperform : (perform s τ).1.actors = s.actors := by rw [perform_effect]; rfl
      cases o with
      | ok => exact ih.trans hperform
      | failed => exact ih
      | lost => exact ih.trans hperform

theorem attempt_eq (hi : s.actors i = .idle) : attempt i d s os = handle d s d.start os := by
  have hu : Function.update s.actors i .idle = s.actors := by
    rw [← hi, Function.update_eq_self]
  rw [attempt, drive_webhook, State.setActor, handle_actors, hu, ← handle_actors]

theorem attempt_idle : (attempt i d s os).actors i = .idle := setActor_self

/-- A delivery is part of a run of the system. -/
theorem attempt_run (hi : s.actors i = .idle) :
    ∃ as, system.Run Any s as (attempt i d s os) := by
  have hdrive : ∀ s, ∃ as, system.Run Any s as (drive i s os) := by
    induction os with
    | nil => exact fun s => ⟨[], .nil s⟩
    | cons o os ih =>
      intro s
      cases ht : advance s i o with
      | none => exact ⟨[], by simpa [drive, ht] using Run.nil s⟩
      | some t =>
        obtain ⟨as, has⟩ := ih t
        refine ⟨.advance i o :: as, ?_⟩
        simpa [drive, ht] using Run.cons trivial ht has
  obtain ⟨as, has⟩ := hdrive (s.goto i (.webhook d) d.start)
  refine ⟨.deliver i d :: (as ++ [.crash i]), .cons trivial ?_ (has.append (.single trivial rfl))⟩
  simp [system, step, start, hi]

/-- Deliveries of an event, one after another, are a run of the system. -/
theorem deliveries_run (hi : s.actors i = .idle) :
    ∃ as, system.Run Any s as (deliveries i d s oss) := by
  induction oss generalizing s with
  | nil => exact ⟨[], .nil s⟩
  | cons os oss ih =>
    obtain ⟨as, has⟩ : ∃ as, system.Run Any s as (attempt i d s os) := attempt_run hi
    obtain ⟨bs, hbs⟩ := ih attempt_idle
    exact ⟨as ++ bs, has.append hbs⟩

/-! ## A delivery that has nothing to do -/

/-- The effects are the same, and no recorded event is forgotten. -/
structure Keeps (s t : State) : Prop where
  effects : t.effects = s.effects
  recorded : ∀ e ∈ s.paymentEvents.map (·.providerEventId),
    e ∈ t.paymentEvents.map (·.providerEventId)

theorem Keeps.refl : Keeps s s := ⟨rfl, fun _ => id⟩

theorem handle_task {P : State → Prop} (hs : P s)
    (hok : ∀ os, P (handle d (perform s τ).1 (perform s τ).2 os))
    (hfailed : ∀ os, P (handle d s (raised τ) os))
    (hlost : ∀ os, P (handle d (perform s τ).1 (raised τ) os)) :
    P (handle d s (.task τ) os) := by
  rcases os with _ | ⟨_ | _ | _, os⟩
  · exact hs
  · exact hok os
  · exact hfailed os
  · exact hlost os

theorem keeps_done {s₀ : State} {r : Response} (h : Keeps s₀ s) :
    Keeps s₀ (handle d s (.done r) os) := by
  rw [handle_done, State.acknowledge]
  split <;> exact ⟨h.effects, h.recorded⟩

theorem keeps_throw {s₀ : State} (h : Keeps s₀ s) : Keeps s₀ (handle d s .throw os) := by
  rwa [handle_throw]

theorem Table.map_none {T : Table} {sel : Row → Bool} {g : Row → Row}
    (h : ∀ r ∈ T.rows, sel r = false) :
    (T.rows.map fun r => if sel r then g r else r) = T.rows := by
  refine (List.map_congr_left (g := id) fun r hr => ?_).trans (List.map_id _)
  simp [h r hr]

/-- The statement of an authorization that finds its order past `PENDING`, or raises. -/
theorem perform_markAuthorized (hrow : row ∈ s.escrow.rows)
    (h : ¬ (row.status = .pending ∧
      (s.escrow.authorize row.orderId d.event.paymentId).isSome)) :
    (perform s (.markAuthorized d row)).1 = s ∧
      ∀ τ, (perform s (.markAuthorized d row)).2 ≠ .task τ := by
  cases hT : s.escrow.authorize row.orderId d.event.paymentId with
  | none => simp [perform, hT]
  | some T =>
    have hne : row.status ≠ .pending := fun hp => h ⟨hp, by simp [hT]⟩
    have hsel : ∀ r ∈ s.escrow.rows, Table.pendingOrder row.orderId r = false := by
      intro r hr
      apply decide_eq_false
      rintro ⟨ho, hp⟩
      apply hne
      rwa [Table.eq_of_orderId hrow hr ho.symm]
    have hcount : s.escrow.count (Table.pendingOrder row.orderId) ≠ 1 := by
      rw [Ne, Table.count_pendingOrder]
      rintro ⟨r, hr, hp⟩
      simp [hsel r hr] at hp
    have hself : T = s.escrow :=
      Table.ext ((Table.rows_authorize hT).trans (Table.map_none hsel))
    simp [perform, hT, hcount, hself]

/-- The statement of a failure that finds its order neither unpaid nor authorized. -/
theorem perform_markFailed (hrow : row ∈ s.escrow.rows)
    (h : ¬ (row.status = .pending ∨ row.status = .authorized)) :
    perform s (.markFailed d row) = (s, .done .received) := by
  have hsel : ∀ r ∈ s.escrow.rows, Table.liveOrder row.orderId r = false := by
    intro r hr
    apply decide_eq_false
    rintro ⟨ho, hp⟩
    apply h
    rwa [Table.eq_of_orderId hrow hr ho.symm]
  have hcount : s.escrow.count (Table.liveOrder row.orderId) ≠ 1 := by
    rw [Ne, Table.count_liveOrder]
    rintro ⟨r, hr, hp⟩
    simp [hsel r hr] at hp
  have hself : s.escrow.setStatus (Table.liveOrder row.orderId) .failed = s.escrow :=
    Table.ext (Table.map_none hsel)
  simp [perform, hcount, hself]

theorem keeps_ends {s₀ : State} (h : Keeps s₀ s) (hn : ∀ τ, n ≠ .task τ) :
    Keeps s₀ (handle d s n os) := by
  cases n with
  | task τ => exact absurd rfl (hn τ)
  | done r => exact keeps_done h
  | throw => exact keeps_throw h

theorem gate_false (hk : d.providerEventId.isSome) : d.gate row false = .done .received := by
  simp [Delivery.gate, hk]

/-- The state once the event is recorded. -/
def Delivery.record (d : Delivery) (row : Row) (s : State) : State :=
  { s with paymentEvents := d.paymentEvent row :: s.paymentEvents }

theorem keeps_record : Keeps s (d.record row s) :=
  ⟨rfl, fun _ => List.mem_cons_of_mem _⟩

theorem perform_dedupe (hnew : ¬ (d.providerEventId.isSome ∧
      d.providerEventId ∈ s.paymentEvents.map (·.providerEventId))) :
    perform s (.dedupe d row) = (d.record row s, d.act row) := by
  have hnot : ¬ ((d.paymentEvent row).providerEventId.isSome ∧
      (d.paymentEvent row).providerEventId ∈ s.paymentEvents.map (·.providerEventId)) := hnew
  simp only [perform, recordPaymentEvent, if_neg hnot]
  simp [Delivery.gate, Delivery.record]

theorem perform_dedupe_repeat (hk : d.providerEventId.isSome)
    (hold : d.providerEventId ∈ s.paymentEvents.map (·.providerEventId)) :
    perform s (.dedupe d row) = (s, .done .received) := by
  have hrep : (d.paymentEvent row).providerEventId.isSome ∧
      (d.paymentEvent row).providerEventId ∈ s.paymentEvents.map (·.providerEventId) :=
    ⟨hk, hold⟩
  simp only [perform, recordPaymentEvent, if_pos hrep, gate_false hk]

theorem keeps_act {s₀ : State} (h : Keeps s₀ s) (hrow : row ∈ s.escrow.rows)
    (hn : ¬ d.Moves s row) : Keeps s₀ (handle d s (d.act row) os) := by
  have hmark : ∀ {τ}, (perform s τ).1 = s → (∀ τ', (perform s τ).2 ≠ .task τ') →
      raised τ = .throw → Keeps s₀ (handle d s (.task τ) os) := by
    intro τ hs hnext hr
    refine handle_task h (fun os => ?_) (fun os => ?_) (fun os => ?_)
    · rw [hs]
      exact keeps_ends h hnext
    · rw [hr]
      exact keeps_throw h
    · rw [hs, hr]
      exact keeps_throw h
  have hauth : d.event.event = .paymentAuthorized ∨ d.event.event = .orderPaid →
      Keeps s₀ (handle d s (.task (.markAuthorized d row)) os) := by
    intro he
    obtain ⟨hs, hnext⟩ := perform_markAuthorized hrow fun hm => hn (.inl ⟨he, hm⟩)
    exact hmark hs hnext rfl
  unfold Delivery.act
  split
  · next he => exact hauth (.inl he)
  · next he => exact hauth (.inr he)
  · next he =>
    have hp : perform s (.markFailed d row) = (s, .done .received) :=
      perform_markFailed hrow fun hm => hn (.inr ⟨he, hm⟩)
    exact hmark (by rw [hp]) (by simp [hp]) rfl
  · exact keeps_done h

/-- A delivery that has nothing to do does nothing, whatever fails. -/
theorem handle_keeps (hk : d.providerEventId.isSome) (hn : ¬ d.Effective s) :
    Keeps s (handle d s d.start os) := by
  unfold Delivery.start
  split
  · exact keeps_done .refl
  · have hthrow : ∀ os, Keeps s (handle d s .throw os) := fun _ => keeps_throw .refl
    cases hsel : s.escrow.select d.matches with
    | none =>
      have hp : perform s (.lookup d) = (s, .done .received) := by simp [perform, hsel]
      refine handle_task .refl (fun os => ?_) hthrow (fun os => ?_)
      · rw [hp]
        exact keeps_done .refl
      · rw [hp]
        exact hthrow os
    | some row =>
      have hrow : row ∈ s.escrow.rows := List.mem_of_find?_eq_some hsel
      have hp : perform s (.lookup d) = (s, .task (.dedupe d row)) := by simp [perform, hsel]
      have hgate : ∀ {u} os, Keeps s u → Keeps s (handle d u (raised (.dedupe d row)) os) := by
        intro u os hu
        simp only [raised, gate_false hk]
        exact keeps_done hu
      have hdedupe : ∀ os, Keeps s (handle d s (.task (.dedupe d row)) os) := by
        intro os
        by_cases hold : d.providerEventId ∈ s.paymentEvents.map (·.providerEventId)
        · have hd : perform s (.dedupe d row) = (s, .done .received) :=
            perform_dedupe_repeat hk hold
          refine handle_task .refl (fun os => ?_) (fun os => hgate os .refl) (fun os => ?_)
          · rw [hd]
            exact keeps_done .refl
          · rw [hd]
            exact hgate os .refl
        · have hd : perform s (.dedupe d row) = (d.record row s, d.act row) :=
            perform_dedupe fun h => hold h.2
          refine handle_task .refl (fun os => ?_) (fun os => hgate os .refl) (fun os => ?_)
          · rw [hd]
            exact keeps_act keeps_record hrow fun hm => hn ⟨hold, row, hsel, hm⟩
          · rw [hd]
            exact hgate os keeps_record
      refine handle_task .refl (fun os => ?_) hthrow (fun os => ?_)
      · rw [hp]
        exact hdedupe os
      · rw [hp]
        exact hthrow os

/-! ## A delivery that has something to do -/

/-- The statements and calls of a delivery that moves its order. -/
structure Stages (d : Delivery) (s : State) where
  row : Row
  table : Table
  mark : Task
  append : Task
  publish : Task
  entry : Entry
  message : Message
  start : d.start = .task (.lookup d)
  lookup : perform s (.lookup d) = (s, .task (.dedupe d row))
  dedupe : perform s (.dedupe d row) = (d.record row s, .task mark)
  gate : d.gate row false = .done .received
  marks : perform (d.record row s) mark = ({ d.record row s with escrow := table }, .task append)
  appends : ∀ u, perform u append = (u.append entry, .task publish)
  publishes : ∀ u, perform u publish = (u.publish message, .done .received)
  raises : raised mark = .throw ∧ raised append = .throw ∧ raised publish = .throw
  found : (s.escrow.select d.matches).isSome ∧ (table.select d.matches).isSome

/-- The effects of a delivery that gets to its end. -/
def Stages.effects (S : Stages d s) : Table × List Entry × List Message :=
  (S.table, S.entry :: s.ledger, S.message :: s.published)

/-- The event is recorded, and its row is there. -/
structure Recorded (d : Delivery) (s : State) : Prop where
  event : d.providerEventId ∈ s.paymentEvents.map (·.providerEventId)
  row : (s.escrow.select d.matches).isSome

theorem acknowledge_effects {answered : Bool} : (s.acknowledge d answered).effects = s.effects := by
  cases answered <;> rfl

theorem Recorded.acknowledge {answered : Bool} (h : Recorded d s) :
    Recorded d (s.acknowledge d answered) := by
  cases answered <;> exact ⟨h.event, h.row⟩

/-- What a first delivery leaves behind. -/
def Stages.Leaves (S : Stages d s) (t : State) : Course → Prop
  | .untouched => t = s
  | .swallowed answered => t = s.acknowledge d answered
  | .torn answered => Recorded d t ∧ t.published = s.published ∧
      t.acknowledged = (s.acknowledge d answered).acknowledged
  | .complete => Recorded d t ∧ t.effects = S.effects

theorem Stages.leaves (S : Stages d s) : S.Leaves (handle d s d.start os) (course os) := by
  have hevent : d.providerEventId ∈ (d.record S.row s).paymentEvents.map (·.providerEventId) :=
    List.mem_cons_self
  have hrecord : Recorded d (d.record S.row s) := ⟨hevent, S.found.1⟩
  obtain ⟨hr₁, hr₂, hr₃⟩ := S.raises
  rw [S.start]
  -- Each level is one more statement that has succeeded.
  rcases os with _ | ⟨_ | _ | _, os⟩
  · rfl
  · simp only [handle, S.lookup]
    rcases os with _ | ⟨_ | _ | _, os⟩
    · rfl
    · simp only [handle, S.dedupe]
      rcases os with _ | ⟨_ | _ | _, os⟩
      · exact ⟨hrecord, rfl, rfl⟩
      · simp only [handle, S.marks]
        rcases os with _ | ⟨_ | _ | _, os⟩
        · exact ⟨⟨hevent, S.found.2⟩, rfl, rfl⟩
        · simp only [handle, S.appends]
          rcases os with _ | ⟨_ | _ | _, os⟩
          · exact ⟨⟨hevent, S.found.2⟩, rfl, rfl⟩
          · simp only [handle, S.publishes, handle_done]
            exact ⟨Recorded.acknowledge ⟨hevent, S.found.2⟩, acknowledge_effects⟩
          · simp only [handle, hr₃, handle_throw]
            exact ⟨⟨hevent, S.found.2⟩, rfl, rfl⟩
          · simp only [handle, S.publishes, hr₃, handle_throw]
            exact ⟨⟨hevent, S.found.2⟩, rfl⟩
        · simp only [handle, hr₂, handle_throw]
          exact ⟨⟨hevent, S.found.2⟩, rfl, rfl⟩
        · simp only [handle, S.appends, hr₂, handle_throw]
          exact ⟨⟨hevent, S.found.2⟩, rfl, rfl⟩
      · simp only [handle, hr₁, handle_throw]
        exact ⟨hrecord, rfl, rfl⟩
      · simp only [handle, S.marks, hr₁, handle_throw]
        exact ⟨⟨hevent, S.found.2⟩, rfl, rfl⟩
    · simp only [handle, raised, S.gate, handle_done]
      rfl
    · simp only [handle, S.dedupe, raised, S.gate, handle_done]
      refine ⟨hrecord.acknowledge, ?_, ?_⟩ <;>
        cases decide (os.head? = some Outcome.ok) <;> rfl
  · simp only [handle, raised, handle_throw]
    rfl
  · simp only [handle, S.lookup, raised, handle_throw]
    rfl

theorem start_of_found (h : (s.escrow.select d.matches).isSome) :
    d.start = .task (.lookup d) := by
  apply if_neg
  rintro ⟨ho, hp⟩
  obtain ⟨r, -, hr⟩ := List.find?_isSome.mp h
  simp [Delivery.matches, ho, hp] at hr

/-- A delivery of a recorded event only answers. -/
theorem Recorded.handle (hk : d.providerEventId.isSome) (h : Recorded d s) :
    handle d s d.start os = s.acknowledge d (answersRepeat os) := by
  obtain ⟨row, hsel⟩ := Option.isSome_iff_exists.mp h.row
  have hlookup : perform s (.lookup d) = (s, .task (.dedupe d row)) := by simp [perform, hsel]
  have hdedupe : perform s (.dedupe d row) = (s, .done .received) :=
    perform_dedupe_repeat hk h.event
  rw [start_of_found h.row]
  rcases os with _ | ⟨_ | _ | _, os⟩
  · rfl
  · simp only [Escrow.handle, hlookup]
    rcases os with _ | ⟨_ | _ | _, os⟩
    · rfl
    · simp only [Escrow.handle, hdedupe, handle_done]
      rcases os with _ | ⟨_ | _ | _, os⟩ <;> rfl
    · simp only [Escrow.handle, raised, gate_false hk, handle_done]
      rcases os with _ | ⟨_ | _ | _, os⟩ <;> rfl
    · simp only [Escrow.handle, hdedupe, raised, gate_false hk, handle_done]
      rcases os with _ | ⟨_ | _ | _, os⟩ <;> rfl
  · simp only [Escrow.handle, raised, handle_throw]
    rfl
  · simp only [Escrow.handle, hlookup, raised, handle_throw]
    rfl

/-- A row that the event has moved is still the event's row. -/
theorem found_map {T T' : Table} {g : Row → Row} (hT' : T'.rows = T.rows.map g)
    (hg : ∀ r, d.matches r → d.matches (g r)) (h : (T.select d.matches).isSome) :
    (T'.select d.matches).isSome := by
  obtain ⟨r, hr, hm⟩ := List.find?_isSome.mp h
  exact List.find?_isSome.mpr ⟨g r, hT' ▸ List.mem_map_of_mem hr, hg r hm⟩

theorem Delivery.Effective.stages (hk : d.providerEventId.isSome) (h : d.Effective s) :
    Nonempty (Stages d s) := by
  obtain ⟨hnew, row, hsel, hm⟩ := h
  have hfound : (s.escrow.select d.matches).isSome := by simp [hsel]
  have hrow : row ∈ s.escrow.rows := List.mem_of_find?_eq_some hsel
  have hlookup : perform s (.lookup d) = (s, .task (.dedupe d row)) := by simp [perform, hsel]
  have hdedupe : perform s (.dedupe d row) = (d.record row s, d.act row) :=
    perform_dedupe fun h => hnew h.2
  rcases hm with ⟨he, hp, ha⟩ | ⟨he, hlive⟩
  · obtain ⟨T, hT⟩ := Option.isSome_iff_exists.mp ha
    have hact : d.act row = .task (.markAuthorized d row) := by
      rcases he with he | he <;> simp [Delivery.act, he]
    have hcount : s.escrow.count (Table.pendingOrder row.orderId) = 1 :=
      Table.count_pendingOrder.mpr ⟨row, hrow, decide_eq_true ⟨rfl, hp⟩⟩
    have hmatch : ∀ r, d.matches r →
        d.matches (Table.authorized row.orderId d.event.paymentId r) := by
      intro r hr
      by_cases hsel : Table.pendingOrder row.orderId r
      · simp only [Table.authorized, hsel, if_true, Delivery.matches, decide_eq_true_eq] at hr ⊢
        exact hr.imp_right fun hr => ⟨hr.1, trivial⟩
      · simpa [Table.authorized, hsel] using hr
    exact ⟨{
      row, table := T
      mark := .markAuthorized d row
      append := .appendAuthorized d row
      publish := .publishAuthorized d row
      entry := .authorized row.contractId row.orderId d.event.paymentId row.amountCents row.currency
      message := ⟨row.contractId, row.orderId, d.event.paymentId, .paymentAuthorized⟩
      start := start_of_found hfound
      lookup := hlookup
      dedupe := hact ▸ hdedupe
      gate := gate_false hk
      marks := by simp [perform, Delivery.record, hT, hcount]
      appends := fun _ => rfl
      publishes := fun _ => rfl
      raises := ⟨rfl, rfl, rfl⟩
      found := ⟨hfound, found_map (Table.rows_authorize hT) hmatch hfound⟩ }⟩
  · have hact : d.act row = .task (.markFailed d row) := by simp [Delivery.act, he]
    have hcount : s.escrow.count (Table.liveOrder row.orderId) = 1 :=
      Table.count_liveOrder.mpr ⟨row, hrow, decide_eq_true ⟨rfl, hlive⟩⟩
    have hmatch : ∀ r, d.matches r →
        d.matches (if Table.liveOrder row.orderId r then { r with status := .failed } else r) := by
      intro r hr
      split <;> exact hr
    exact ⟨{
      row, table := s.escrow.setStatus (Table.liveOrder row.orderId) .failed
      mark := .markFailed d row
      append := .appendFailed d row
      publish := .publishFailed d row
      entry := .event row.contractId row.orderId d.event.paymentId d.event.event
        d.event.errorDescription
      message := ⟨row.contractId, row.orderId, d.event.paymentId, .paymentFailed⟩
      start := start_of_found hfound
      lookup := hlookup
      dedupe := hact ▸ hdedupe
      gate := gate_false hk
      marks := by simp [perform, Delivery.record, hcount]
      appends := fun _ => rfl
      publishes := fun _ => rfl
      raises := ⟨rfl, rfl, rfl⟩
      found := ⟨hfound, found_map rfl hmatch hfound⟩ }⟩

/-! ## One delivery after another -/

/-- From here on, an answered delivery finds these effects. -/
def Settles (i : ℕ) (d : Delivery) (s₀ : State) (effects : Table × List Entry × List Message)
    (s : State) (oss : List (List Outcome)) : Prop :=
  ∀ pre, pre <+: oss → (deliveries i d s pre).acknowledged ≠ s₀.acknowledged →
    (deliveries i d s pre).effects = effects

variable {s₀ : State} {E : Table × List Entry × List Message}

theorem Settles.head (h : Settles i d s₀ E s oss) (ha : s.acknowledged ≠ s₀.acknowledged) :
    s.effects = E :=
  h [] List.nil_prefix ha

theorem settles_nil :
    Settles i d s₀ E s [] ↔ (s.acknowledged ≠ s₀.acknowledged → s.effects = E) := by
  simp [Settles, deliveries]

theorem settles_cons : Settles i d s₀ E s (os :: oss) ↔
    (s.acknowledged ≠ s₀.acknowledged → s.effects = E) ∧
      Settles i d s₀ E (attempt i d s os) oss := by
  constructor
  · intro h
    refine ⟨h.head, fun pre hpre => ?_⟩
    exact h (os :: pre) (List.prefix_cons_iff.mpr (.inr ⟨pre, rfl, hpre⟩))
  · rintro ⟨hs, hrest⟩ pre hpre
    rcases List.prefix_cons_iff.mp hpre with rfl | ⟨pre, rfl, hpre'⟩
    · exact hs
    · exact hrest pre hpre'

theorem acknowledge_actors {answered : Bool} :
    (s.acknowledge d answered).actors = s.actors := by
  cases answered <;> rfl

/-- An answer before the effects is one too early. -/
theorem not_settles_acknowledge (ha : s.acknowledged = s₀.acknowledged) (hE : s.effects ≠ E) :
    ¬ Settles i d s₀ E (s.acknowledge d true) oss := by
  intro h
  have hne : (s.acknowledge d true).acknowledged ≠ s₀.acknowledged :=
    ha ▸ List.cons_ne_self d s.acknowledged
  exact hE (h.head hne)

/-- Once all is done, it stays done. -/
theorem Recorded.settles (hk : d.providerEventId.isSome) (hi : s.actors i = .idle)
    (h : Recorded d s) (hE : s.effects = E) : Settles i d s₀ E s oss := by
  induction oss generalizing s with
  | nil => exact settles_nil.mpr fun _ => hE
  | cons os oss ih =>
    refine settles_cons.mpr ⟨fun _ => hE, ?_⟩
    rw [attempt_eq hi, h.handle hk]
    exact ih (by rw [acknowledge_actors, hi]) h.acknowledge (acknowledge_effects.trans hE)

/-- Once the event is recorded without its effects, no answer may follow. -/
theorem Recorded.settles_iff (hk : d.providerEventId.isSome) (hi : s.actors i = .idle)
    (h : Recorded d s) (hE : s.effects ≠ E) (ha : s.acknowledged = s₀.acknowledged) :
    Settles i d s₀ E s oss ↔ ∀ os ∈ oss, answersRepeat os = false := by
  have hs : s.acknowledged ≠ s₀.acknowledged → s.effects = E := absurd ha
  induction oss with
  | nil => exact ⟨by simp, fun _ => settles_nil.mpr hs⟩
  | cons os oss ih =>
    rw [settles_cons, and_iff_right hs, attempt_eq hi, h.handle hk, List.forall_mem_cons]
    cases answersRepeat os with
    | true =>
      simp only [Bool.true_eq_false, false_and, iff_false]
      exact not_settles_acknowledge ha hE
    | false =>
      rw [and_iff_right rfl]
      exact ih

theorem Stages.settles_iff (hk : d.providerEventId.isSome) (hi : s.actors i = .idle)
    (S : Stages d s) : Settles i d s S.effects s oss ↔ Intact oss := by
  have hE : ∀ {t : State}, t.published = s.published → t.effects ≠ S.effects := by
    intro t hp he
    have hcons : s.published = S.message :: s.published :=
      hp.symm.trans (congrArg (fun x => x.2.2) he)
    exact List.cons_ne_self S.message s.published hcons.symm
  have hself : s.acknowledged ≠ s.acknowledged → s.effects = S.effects := absurd rfl
  induction oss with
  | nil => exact ⟨fun _ => trivial, fun _ => settles_nil.mpr hself⟩
  | cons os oss ih =>
    have hidle : (attempt i d s os).actors i = .idle := attempt_idle
    have hleaves : S.Leaves (attempt i d s os) (course os) := attempt_eq hi ▸ S.leaves
    rw [settles_cons, and_iff_right hself, Intact]
    generalize course os = c at hleaves ⊢
    cases c with
    | untouched =>
      rw [show attempt i d s os = s from hleaves]
      exact ih
    | swallowed answered =>
      rw [show attempt i d s os = s.acknowledge d answered from hleaves]
      cases answered with
      | true => simpa using not_settles_acknowledge rfl (hE rfl)
      | false => exact ih.trans (and_iff_right rfl).symm
    | torn answered =>
      obtain ⟨hrec, hp, ha⟩ := hleaves
      cases answered with
      | true =>
        have hne : (attempt i d s os).acknowledged ≠ s.acknowledged :=
          ha ▸ List.cons_ne_self d s.acknowledged
        simpa using fun h => hE hp (Settles.head h hne)
      | false =>
        have ha : (attempt i d s os).acknowledged = s.acknowledged := ha
        exact (hrec.settles_iff hk hidle (hE hp) ha).trans (and_iff_right rfl).symm
    | complete =>
      obtain ⟨hrec, he⟩ := hleaves
      exact ⟨fun _ => trivial, fun _ => hrec.settles hk hidle he⟩

theorem Keeps.effective {t : State} (h : Keeps s t) (he : d.Effective t) : d.Effective s := by
  obtain ⟨hnew, row, hsel, hm⟩ := he
  have hT : t.escrow = s.escrow := congrArg Prod.fst h.effects
  refine ⟨fun hold => hnew (h.recorded _ hold), row, hT ▸ hsel, ?_⟩
  unfold Delivery.Moves at hm ⊢
  rwa [hT] at hm

theorem Keeps.trans {u : State} (h : Keeps s t) (h' : Keeps t u) : Keeps s u :=
  ⟨h'.effects.trans h.effects, fun e he => h'.recorded e (h.recorded e he)⟩

theorem deliveries_keep (hk : d.providerEventId.isSome) (hi : s.actors i = .idle)
    (hn : ¬ d.Effective s) : Keeps s (deliveries i d s oss) := by
  induction oss generalizing s with
  | nil => exact .refl
  | cons os oss ih =>
    have h : Keeps s (attempt i d s os) := attempt_eq hi ▸ handle_keeps hk hn
    exact h.trans (ih attempt_idle fun he => hn (h.effective he))

/--
Once a delivery of an event has been answered, the escrow row, the ledger and the bus are as one
delivery without faults leaves them, for every failure of every delivery, if and only if that
delivery has nothing to do or no answer follows a failed insert, or a handler that stops after
the insert, before a delivery has published.
-/
theorem delivered_iff (hk : d.providerEventId.isSome) (hi : s.actors i = .idle) :
    Delivered i d s oss ↔ (d.Effective s → Intact oss) := by
  by_cases he : d.Effective s
  · obtain ⟨S⟩ := he.stages hk
    have hclean : (clean i d s).effects = S.effects := by
      rw [clean, attempt_eq hi]
      exact (S.leaves : S.Leaves _ (course (.replicate 6 .ok))).2
    rw [forall_prop_of_true he, ← S.settles_iff hk hi, ← hclean]
    rfl
  · have hclean : Keeps s (deliveries i d s [.replicate 6 .ok]) := deliveries_keep hk hi he
    rw [forall_prop_of_false he, iff_true]
    intro pre hpre hack
    exact (deliveries_keep hk hi he).effects.trans hclean.effects.symm

/-- The state in which order 0 of contract 7 waits for its payment. -/
def unpaid : State := (system.exec {} fundOrder).getD {}

/-- `payment.authorized` for payment 3 of order 0. -/
def authorizedDelivery : Delivery where
  providerEventId := some 1
  event := { event := .paymentAuthorized, payment := some { id := some 3, orderId := some 0 } }

/-- The insert of the only delivery fails, and the handler answers. -/
def failedInsert : List (List Outcome) := [[.ok, .failed, .ok]]

theorem delivered_failedInsert : Delivered 0 authorizedDelivery unpaid failedInsert ↔
    (authorizedDelivery.Effective unpaid → Intact failedInsert) :=
  delivered_iff rfl (by decide +kernel)

/-- The delivery is answered, and nothing is published. -/
theorem delivery_lost : ¬ ∀ i d s oss, d.providerEventId.isSome → s.actors i = .idle →
    Delivered i d s oss := by
  intro hall
  have hdone := hall 0 authorizedDelivery unpaid failedInsert rfl (by decide +kernel) failedInsert
    List.prefix_rfl (by decide +kernel)
  have hpublished := congrArg (fun x => x.2.2) hdone
  exact absurd hpublished (by decide +kernel)

end AssureCode.Escrow
