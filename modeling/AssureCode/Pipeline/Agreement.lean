import AssureCode.Pipeline.Coherence

/-! # The stored signals and the newest audit

`recordAudit` writes whatever arrives. The row keeps the signals of the newest
audit recorded, and in the end those of the newest `audit_results` row, exactly
when no event of an older audit with other signals is recorded after it.
-/

namespace AssureCode.Pipeline

open Machine Oracle

variable {s t : State} {act : Action} {as : List Action} {a b : Audit}

/-- The signals stored are those of the audit. -/
def State.Stores (s : State) (a : Audit) : Prop :=
  ∃ r ∈ s.oracleState, r.signals = a.payload.signals

/-- No run is under way, and every event published has been recorded. -/
def State.Quiet (s : State) : Prop :=
  s.running = [] ∧ s.saved = [] ∧ ∀ a ∈ s.published, ∃ x ∈ s.recorded, x.audit = a

/--
The signals stored are those of the newest audit recorded; and once all is quiet, of the newest
row, the one the score route reads.
-/
structure Agrees (s : State) : Prop where
  recorded : ∀ x ∈ s.recorded, s.Newest x.audit → s.Stores x.audit
  rows : s.Quiet → ∀ a ∈ s.rows.head?, s.Stores a

/-- An audit no newer than the newest recorded is recorded only with the same signals. -/
def KeepsNewest (s : State) : Action → Prop
  | .recordAudit a => ∀ x ∈ s.recorded, s.Newest x.audit → a.run ≤ x.audit.run →
      x.audit.payload.signals = a.payload.signals
  | _ => True

/-! ## Rows and events -/

/-- Every row is numbered, newest first, and has its event on the way or published. -/
structure Accounted (s : State) : Prop where
  numbered : ∀ a ∈ s.rows, a.run < s.nextRun
  sorted : s.rows.Pairwise fun a b => b.run < a.run
  sent : ∀ a ∈ s.rows, a ∈ s.saved ∨ a ∈ s.published
  saved : ∀ a ∈ s.saved, a ∈ s.rows
  published : ∀ a ∈ s.published, a ∈ s.rows
  recorded : ∀ x ∈ s.recorded, x.audit ∈ s.published

theorem accounted_initial : Accounted {} :=
  ⟨by simp, List.Pairwise.nil, by simp, by simp, by simp, by simp⟩

theorem accounted_step (hs : Accounted s) (h : step s act = some t) : Accounted t := by
  cases act with
  | save payload =>
    simp only [step, Option.ite_none_right_eq_some, Option.some.injEq] at h
    obtain ⟨-, rfl⟩ := h
    refine ⟨?_, List.pairwise_cons.mpr ⟨hs.numbered, hs.sorted⟩, ?_, ?_,
      fun a ha => List.mem_cons_of_mem _ (hs.published a ha), hs.recorded⟩
    · refine List.forall_mem_cons.mpr ⟨Nat.lt_succ_self _, fun a ha => ?_⟩
      exact Nat.lt_succ_of_lt (hs.numbered a ha)
    · refine List.forall_mem_cons.mpr ⟨.inl List.mem_cons_self, fun a ha => ?_⟩
      exact (hs.sent a ha).imp_left (List.mem_cons_of_mem _)
    · exact List.forall_mem_cons.mpr
        ⟨List.mem_cons_self, fun a ha => List.mem_cons_of_mem _ (hs.saved a ha)⟩
  | publish a =>
    simp only [step, Option.ite_none_right_eq_some, Option.some.injEq] at h
    obtain ⟨hmem, rfl⟩ := h
    refine ⟨hs.numbered, hs.sorted, fun b hb => ?_,
      fun b hb => hs.saved b (List.mem_of_mem_erase hb),
      List.forall_mem_cons.mpr ⟨hs.saved a hmem, hs.published⟩,
      fun x hx => List.mem_cons_of_mem _ (hs.recorded x hx)⟩
    rcases eq_or_ne b a with rfl | hne
    · exact .inr List.mem_cons_self
    · exact (hs.sent b hb).imp (List.mem_erase_of_ne hne).mpr (List.mem_cons_of_mem _)
  | recordAudit a =>
    simp only [step, Option.ite_none_right_eq_some, Option.some.injEq] at h
    obtain ⟨hmem, rfl⟩ := h
    exact ⟨hs.numbered, hs.sorted, hs.sent, hs.saved, hs.published,
      List.forall_mem_cons.mpr ⟨hmem, hs.recorded⟩⟩
  | read =>
    obtain ⟨a, -, rfl⟩ := Option.map_eq_some_iff.mp h
    exact ⟨hs.numbered, hs.sorted, hs.sent, hs.saved, hs.published, hs.recorded⟩
  | check callerCode =>
    simp only [step, Option.ite_none_left_eq_some, Option.some.injEq] at h
    obtain ⟨-, rfl⟩ := h
    exact ⟨hs.numbered, hs.sorted, hs.sent, hs.saved, hs.published, hs.recorded⟩
  | push | rescope checks =>
    cases h
    exact ⟨hs.numbered, hs.sorted, hs.sent, hs.saved, hs.published, hs.recorded⟩
  | _ =>
    simp only [step, Option.ite_none_right_eq_some, Option.some.injEq] at h
    obtain ⟨-, rfl⟩ := h
    exact ⟨hs.numbered, hs.sorted, hs.sent, hs.saved, hs.published, hs.recorded⟩

/-- Once all is quiet, the newest row is the newest audit recorded. -/
theorem Accounted.newest_of_quiet (hs : Accounted s) (hq : s.Quiet) (ha : a ∈ s.rows.head?) :
    (∃ x ∈ s.recorded, x.audit = a) ∧ s.Newest a := by
  obtain ⟨-, hsaved, hall⟩ := hq
  have hmem : a ∈ s.rows := List.mem_of_mem_head? ha
  refine ⟨?_, fun x hx => ?_⟩
  · rcases hs.sent a hmem with hmem | hmem
    · simp [hsaved] at hmem
    · exact hall a hmem
  · have hx' := hs.published _ (hs.recorded x hx)
    obtain ⟨rows, hrows⟩ : ∃ rows, s.rows = a :: rows := by
      cases hr : s.rows with
      | nil => simp [hr] at ha
      | cons b rows =>
        simp only [hr, List.head?_cons, Option.mem_some_iff] at ha
        exact ⟨rows, by rw [ha]⟩
    have hsorted := hs.sorted
    rw [hrows] at hx' hsorted
    rcases List.mem_cons.mp hx' with heq | hx'
    · rw [heq]
    · exact ((List.pairwise_cons.mp hsorted).1 _ hx').le

theorem Accounted.agrees_of_recorded (hs : Accounted s) :
    Agrees s ↔ ∀ x ∈ s.recorded, s.Newest x.audit → s.Stores x.audit := by
  refine ⟨Agrees.recorded, fun h => ⟨h, fun hq a ha => ?_⟩⟩
  obtain ⟨⟨x, hx, rfl⟩, hnew⟩ := hs.newest_of_quiet hq ha
  exact h x hx hnew

/-! ## Agreement -/

theorem agrees_step (hs : Accounted s) (hp : Agrees s) (h : step s act = some t) :
    KeepsNewest s act ↔ Agrees t := by
  rw [(accounted_step hs h).agrees_of_recorded]
  rcases oracle_step h with ⟨a, rfl, ho, hr, -⟩ | ⟨e, now, q, c, rfl, -, -, ho, hr, -⟩ |
    ⟨⟨ho, hr, -⟩, hna, -⟩
  · have hst : ∀ b, t.Stores b ↔ a.payload.signals = b.payload.signals := by
      simp [State.Stores, ho]
    simp only [KeepsNewest, State.Newest, hr, hst, List.forall_mem_cons, implies_true, true_and]
    constructor
    · exact fun hk x hx hnew => (hk x hx hnew.2 hnew.1).symm
    · exact fun hall x hx hnew hle => (hall x hx ⟨hle, hnew⟩).symm
  · apply iff_of_true trivial
    intro x hx hnew
    rw [hr] at hx
    simp only [State.Newest, hr] at hnew
    obtain ⟨r, hrow, hsig⟩ := hp.recorded x hx hnew
    exact ⟨_, ho, by rw [← hsig, show s.oracleState = some r from hrow]; rfl⟩
  · refine iff_of_true ?_ ?_
    · cases act with
      | recordAudit a => exact absurd rfl (hna a)
      | _ => trivial
    · simpa only [State.Stores, State.Newest, ho, hr] using hp.recorded

/--
In every state a run visits the stored signals are those of the newest audit, if and only if no
step of the run records an older audit with other signals.
-/
theorem agrees_iff (h : system.Run Any {} as s) :
    (∀ r ∈ system.visited {} as, Agrees r) ↔ system.Run KeepsNewest {} as s :=
  h.forall_visited_iff (I := Accounted) (fun _ _ _ hs hst => accounted_step hs hst)
    (fun _ _ _ hs hp hst => agrees_step hs hp hst) accounted_initial
    (accounted_initial.agrees_of_recorded.mpr (by simp))

/-! ## A late event -/

def failingPayload : AuditPayload := { passingPayload with vulnerabilities := some 2 }

/-- Two runs overlap, and the event of the first, passing one arrives after the other's. -/
def overtaken : List Action :=
  [.push, .start false, .push, .start false, .save passingPayload, .save failingPayload,
    .publish ⟨1, failingPayload⟩, .publish ⟨0, passingPayload⟩, .recordAudit ⟨1, failingPayload⟩,
    .recordAudit ⟨0, passingPayload⟩]

theorem exec_overtaken : ∃ s, system.exec {} overtaken = some s ∧ s.running = [] ∧ s.saved = [] ∧
    (∀ a ∈ s.published, a ∈ s.recorded.map (·.audit)) ∧
    s.rows.head? = some ⟨1, failingPayload⟩ ∧
    s.oracleState.map (·.signals) = some passingPayload.signals := by
  have h : (system.exec {} overtaken).map (fun s => decide (s.running = [] ∧ s.saved = [] ∧
      (∀ a ∈ s.published, a ∈ s.recorded.map (·.audit)) ∧
      s.rows.head? = some ⟨1, failingPayload⟩ ∧
      s.oracleState.map (·.signals) = some passingPayload.signals)) = some true := by
    decide +kernel
  obtain ⟨s, hs, heq⟩ := Option.map_eq_some_iff.mp h
  exact ⟨s, hs, of_decide_eq_true heq⟩

theorem agrees_overtaken : ∃ s, system.exec {} overtaken = some s ∧
    ((∀ r ∈ system.visited {} overtaken, Agrees r) ↔ system.Run KeepsNewest {} overtaken s) := by
  obtain ⟨s, hs, -⟩ := exec_overtaken
  exact ⟨s, hs, agrees_iff (run_of_exec hs)⟩

theorem signals_disagree : ¬ ∀ as s, system.Run Any {} as s → s.Quiet →
    ∀ a ∈ s.rows.head?, s.Stores a := by
  intro hall
  obtain ⟨s, hs, hrun, hsaved, hpub, hrow, hsig⟩ := exec_overtaken
  have hq : s.Quiet := ⟨hrun, hsaved, fun a ha => List.mem_map.mp (hpub a ha)⟩
  obtain ⟨r, hr, hsig'⟩ := hall overtaken s (run_of_exec hs) hq _ hrow
  rw [show s.oracleState = some r from hr, Option.map_some, hsig', Option.some.injEq] at hsig
  exact absurd hsig (by decide +kernel)

end AssureCode.Pipeline
