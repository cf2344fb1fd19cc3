import AssureCode.Pipeline.Coherence

/-! # Simulated pushes and real audits

The guard of `simulate-push` is evaluated once, long before the run it admits
saves its row and has its signals recorded. Real audits are kept exactly when
the guard would still hold at those two moments.
-/

namespace AssureCode.Pipeline

open Machine

variable {s t : State} {act : Action} {as : List Action}

/--
With a real audit on record the newest row is a real one, and no demo signals were recorded
since.
-/
structure RealKept (s : State) : Prop where
  newest : s.hasReal = true → ∀ a ∈ s.rows.head?, a.payload.demo = false
  recorded : ∀ x ∈ s.recorded, x.audit.payload.demo = true → x.overReal = false

/-- The guard of the route holds again when a demo run saves its row or is recorded. -/
def GuardHolds (s : State) : Action → Prop
  | .save payload => payload.demo = true → s.hasReal = false
  | .recordAudit a => a.payload.demo = true → s.hasReal = false
  | _ => True

/-- A step that is neither a save nor a recording leaves the rows and the recordings alone. -/
theorem rows_step (h : step s act = some t) (hs : ∀ payload, act ≠ .save payload)
    (hr : ∀ a, act ≠ .recordAudit a) : t.rows = s.rows ∧ t.recorded = s.recorded := by
  cases act with
  | save payload => exact absurd rfl (hs payload)
  | recordAudit a => exact absurd rfl (hr a)
  | read =>
    obtain ⟨a, -, rfl⟩ := Option.map_eq_some_iff.mp h
    exact ⟨rfl, rfl⟩
  | check callerCode =>
    simp only [step, Option.ite_none_left_eq_some, Option.some.injEq] at h
    obtain ⟨-, rfl⟩ := h
    exact ⟨rfl, rfl⟩
  | push | rescope checks =>
    cases h
    exact ⟨rfl, rfl⟩
  | _ =>
    simp only [step, Option.ite_none_right_eq_some, Option.some.injEq] at h
    obtain ⟨-, rfl⟩ := h
    exact ⟨rfl, rfl⟩

theorem realKept_step (hp : RealKept s) (h : step s act = some t) :
    GuardHolds s act ↔ RealKept t := by
  by_cases hsave : ∃ payload, act = .save payload
  · obtain ⟨payload, rfl⟩ := hsave
    simp only [step, Option.ite_none_right_eq_some, Option.some.injEq] at h
    obtain ⟨-, rfl⟩ := h
    cases hd : payload.demo with
    | false =>
      refine iff_of_true (by simp [GuardHolds, hd]) ⟨fun _ a ha => ?_, hp.recorded⟩
      cases ha
      exact hd
    | true =>
      constructor
      · intro hk
        refine ⟨fun hreal => ?_, hp.recorded⟩
        have hno : s.hasReal = false := hk hd
        simp only [State.hasReal] at hno hreal
        simp [hd, hno] at hreal
      · rintro ⟨hnew, -⟩ -
        by_contra hreal
        rw [Bool.not_eq_false] at hreal
        have hdemo := hnew (by simp only [State.hasReal] at hreal ⊢; simp [hreal]) _ rfl
        rw [hd] at hdemo
        cases hdemo
  · by_cases hrec : ∃ a, act = .recordAudit a
    · obtain ⟨a, rfl⟩ := hrec
      simp only [step, Option.ite_none_right_eq_some, Option.some.injEq] at h
      obtain ⟨-, rfl⟩ := h
      exact ⟨fun hk => ⟨hp.newest, List.forall_mem_cons.mpr ⟨hk, hp.recorded⟩⟩,
        fun hk => (List.forall_mem_cons.mp hk.recorded).1⟩
    · simp only [not_exists] at hsave hrec
      obtain ⟨hrows, hrecd⟩ := rows_step h hsave hrec
      refine iff_of_true ?_ ⟨?_, by rw [hrecd]; exact hp.recorded⟩
      · cases act with
        | save payload => exact absurd rfl (hsave payload)
        | recordAudit a => exact absurd rfl (hrec a)
        | _ => trivial
      · simpa only [State.hasReal, hrows] using hp.newest

/--
Every state a run visits keeps its real audits, if and only if the guard holds again whenever a
demo run saves its row or has its signals recorded.
-/
theorem realKept_iff (h : system.Run Any {} as s) :
    (∀ r ∈ system.visited {} as, RealKept r) ↔ system.Run GuardHolds {} as s :=
  h.forall_visited_iff (I := fun _ => True) (fun _ _ _ _ _ => trivial)
    (fun _ _ _ _ hp hst => realKept_step hp hst) trivial ⟨by simp, by simp⟩

/-! ## A demo run that was admitted too early -/

def demoPayload : AuditPayload := { passingPayload with demo := true }

/-- A simulated push passes the guard while the first real push is being audited. -/
def admittedEarly : List Action :=
  [.push, .start false, .check false, .simulate true, .save passingPayload, .start true,
    .save demoPayload, .publish ⟨1, demoPayload⟩, .recordAudit ⟨1, demoPayload⟩]

theorem exec_admittedEarly : ∃ s, system.exec {} admittedEarly = some s ∧ s.hasReal = true ∧
    s.rows.head? = some ⟨1, demoPayload⟩ := by
  have h : (system.exec {} admittedEarly).map (fun s => decide (s.hasReal = true ∧
      s.rows.head? = some ⟨1, demoPayload⟩)) = some true := by decide +kernel
  obtain ⟨s, hs, heq⟩ := Option.map_eq_some_iff.mp h
  exact ⟨s, hs, of_decide_eq_true heq⟩

theorem realKept_admittedEarly : ∃ s, system.exec {} admittedEarly = some s ∧
    ((∀ r ∈ system.visited {} admittedEarly, RealKept r) ↔
      system.Run GuardHolds {} admittedEarly s) := by
  obtain ⟨s, hs, -⟩ := exec_admittedEarly
  exact ⟨s, hs, realKept_iff (run_of_exec hs)⟩

theorem real_overwritten : ¬ ∀ as s, system.Run Any {} as s → RealKept s := by
  intro hall
  obtain ⟨s, hs, hreal, hrow⟩ := exec_admittedEarly
  have hdemo := (hall admittedEarly s (run_of_exec hs)).newest hreal _ hrow
  cases hdemo

/-! ## Real audits with no demo about -/

/-- No simulated push that runs the demo code has got past the guard. -/
structure NoDemo (s : State) : Prop where
  admitted : true ∉ s.admitted
  pushes : true ∉ s.pushes
  running : true ∉ s.running
  saved : ∀ a ∈ s.saved, a.payload.demo = false
  published : ∀ a ∈ s.published, a.payload.demo = false

/-- A real run saves its row only with no demo about. -/
def RealAlone (s : State) (act : Action) : Prop :=
  ∀ payload, act = .save payload → payload.demo = false → NoDemo s

theorem noDemo_step (hp : s.hasReal = true → NoDemo s) (hk : RealAlone s act)
    (h : step s act = some t) : t.hasReal = true → NoDemo t := by
  intro hreal
  cases act with
  | check callerCode =>
    simp only [step, Option.ite_none_left_eq_some, Option.some.injEq] at h
    obtain ⟨hno, rfl⟩ := h
    exact absurd hreal hno
  | simulate demo =>
    simp only [step, Option.ite_none_right_eq_some, Option.some.injEq] at h
    obtain ⟨hmem, rfl⟩ := h
    have hs := hp hreal
    have hd : true ≠ demo := fun hd => hs.admitted (hd ▸ hmem)
    exact ⟨fun hm => hs.admitted (List.mem_of_mem_erase hm),
      List.not_mem_cons_of_ne_of_not_mem hd hs.pushes, hs.running, hs.saved, hs.published⟩
  | push =>
    cases h
    have hs := hp hreal
    exact ⟨hs.admitted, List.not_mem_cons_of_ne_of_not_mem (by decide) hs.pushes, hs.running,
      hs.saved, hs.published⟩
  | start demo =>
    simp only [step, Option.ite_none_right_eq_some, Option.some.injEq] at h
    obtain ⟨hmem, rfl⟩ := h
    have hs := hp hreal
    have hd : true ≠ demo := fun hd => hs.pushes (hd ▸ hmem)
    exact ⟨hs.admitted, hs.pushes, List.not_mem_cons_of_ne_of_not_mem hd hs.running, hs.saved,
      hs.published⟩
  | abandon demo =>
    simp only [step, Option.ite_none_right_eq_some, Option.some.injEq] at h
    obtain ⟨-, rfl⟩ := h
    have hs := hp hreal
    exact ⟨hs.admitted, hs.pushes, fun hm => hs.running (List.mem_of_mem_erase hm), hs.saved,
      hs.published⟩
  | save payload =>
    simp only [step, Option.ite_none_right_eq_some, Option.some.injEq] at h
    obtain ⟨hmem, rfl⟩ := h
    cases hd : payload.demo with
    | false =>
      have hs := hk payload rfl hd
      exact ⟨hs.admitted, hs.pushes, fun hm => hs.running (List.mem_of_mem_erase hm),
        List.forall_mem_cons.mpr ⟨hd, hs.saved⟩, hs.published⟩
    | true =>
      have hs := hp (by simpa [State.hasReal, hd] using hreal)
      exact absurd (hd ▸ hmem) hs.running
  | publish a =>
    simp only [step, Option.ite_none_right_eq_some, Option.some.injEq] at h
    obtain ⟨hmem, rfl⟩ := h
    have hs := hp hreal
    exact ⟨hs.admitted, hs.pushes, hs.running, fun b hb => hs.saved b (List.mem_of_mem_erase hb),
      List.forall_mem_cons.mpr ⟨hs.saved a hmem, hs.published⟩⟩
  | read =>
    obtain ⟨a, -, rfl⟩ := Option.map_eq_some_iff.mp h
    have hs := hp hreal
    exact ⟨hs.admitted, hs.pushes, hs.running, hs.saved, hs.published⟩
  | rescope checks =>
    cases h
    have hs := hp hreal
    exact ⟨hs.admitted, hs.pushes, hs.running, hs.saved, hs.published⟩
  | recordAudit a | score event | recordScore event now =>
    simp only [step, Option.ite_none_right_eq_some, Option.some.injEq] at h
    obtain ⟨-, rfl⟩ := h
    have hs := hp hreal
    exact ⟨hs.admitted, hs.pushes, hs.running, hs.saved, hs.published⟩

/-- The guard holds again wherever it matters, as long as real runs save with no demo about. -/
theorem guardHolds_of_realAlone (h : system.Run RealAlone {} as s) :
    system.Run GuardHolds {} as s := by
  refine h.mono_of_invariant (I := fun s => s.hasReal = true → NoDemo s)
    (fun _ _ _ hp hk hst => noDemo_step hp hk hst) (fun s act t hp hk hst => ?_)
    (by simp [State.hasReal])
  cases act with
  | save payload =>
    simp only [system, step, Option.ite_none_right_eq_some] at hst
    intro hd
    by_contra hreal
    rw [Bool.not_eq_false] at hreal
    exact (hp hreal).running (hd ▸ hst.1)
  | recordAudit a =>
    simp only [system, step, Option.ite_none_right_eq_some] at hst
    intro hd
    by_contra hreal
    rw [Bool.not_eq_false] at hreal
    simp [(hp hreal).published a hst.1] at hd
  | _ => trivial

end AssureCode.Pipeline
