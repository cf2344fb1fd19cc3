import AssureCode.Assignment.Consistency

/-! # What a refused assign leaves behind

A request keeps its call from its first step to its answer, and the handler of an assign runs
statements of its own. Two of them write, and only one of the answers that refuse comes before
both.
-/

namespace AssureCode.Assignment

open Js Machine
open Settlement (Outcome)

/-- The statements of the handler of `/assign`. -/
def Task.ofAssign : Task → Bool
  | .selectAccepted _ | .selectGenesis _ | .updateFreelancer .. | .insertAssignment ..
  | .appendWithOutbox (.assigned ..) | .appendManually (.assigned ..) => true
  | _ => false

/-- An assign that is answered with anything but success. -/
def Actor.RefusedAssign : Actor → Prop
  | .answered q reply =>
    (∃ f, q.call = .assign f) ∧ ¬ (200 ≤ reply.statusCode ∧ reply.statusCode < 300)
  | _ => False

/-- The freelancer of the contract and the assignments are as before. -/
def Database.Unchanged (db db' : Database) : Prop :=
  db'.freelancerId = db.freelancerId ∧ db'.assignments = db.assignments

/-- What the statement of an assign must find, or come to, so that it changes nothing. -/
def Task.Harmless (db : Database) (o : Outcome) : Task → Prop
  | .updateFreelancer freelancerId _ =>
    o ≠ .failed → db.contract ≠ none → freelancerId ∈ db.users →
      db.freelancerId = some freelancerId
  | .insertAssignment freelancerId _ => o ≠ .failed → db.admits freelancerId = false
  | _ => True

/--
Where an assign overwrites the freelancer of the contract it finds its own there already, and its
row is not inserted.
-/
def Harmless (s : State) : Action → Prop
  | .advance i o => ∀ τ, (s.actors i).task = some τ → τ.Harmless s.db o
  | _ => True

variable {sha256 : Text → Text} {contractId : Text} {s t : State} {a : Action} {as : List Action}
  {i : ℕ} {b : Actor} {q : Request} {τ : Task} {again : Bool} {o : Outcome} {db : Database}
  {next : Next} {freelancerId : Text} {h0 : Option Genesis} {K : State → Action → Prop}

/-! ## The statements of an assign -/

/-- Request `i` is no assign, or its handler is at a statement of an assign. -/
def KeepsToAssign (i : ℕ) (s : State) : Prop :=
  ∀ q τ again f, s.actors i = .running q τ again → q.call = .assign f → τ.ofAssign

theorem start_ofAssign {f : Option Text} (hq : q.call = .assign f) (h : q.start = .task τ) :
    τ.ofAssign := by
  simp only [Request.start, hq] at h
  split at h <;> cases h
  rfl

theorem raised_ofAssign {σ : Task} (hτ : τ.ofAssign) (h : raised τ = .task σ) : σ.ofAssign := by
  cases τ with
  | appendWithOutbox p =>
    cases h
    cases p with
    | assigned => rfl
    | accepted | rejected | locked => cases hτ
  | selectAnchor | updateAnchor => cases hτ
  | selectAccepted | selectGenesis | updateFreelancer | insertAssignment | accept | reject |
    clearFreelancer | selectStatus | appendManually => cases h

theorem perform_ofAssign {σ : Task} (hτ : τ.ofAssign)
    (h : (perform sha256 contractId db τ).2 = .task σ) : σ.ofAssign := by
  cases τ with
  | selectAccepted =>
    simp only [perform] at h
    split at h <;> cases h
    rfl
  | selectGenesis => cases h; rfl
  | updateFreelancer =>
    simp only [perform] at h
    split at h <;> cases h
    rfl
  | insertAssignment =>
    simp only [perform, insertAssignment] at h
    split at h
    · cases h
    split at h <;> cases h
    rfl
  | appendWithOutbox p | appendManually p =>
    obtain ⟨-, rfl⟩ := next_of_posting (p := p) rfl h
    cases p with
    | assigned => rfl
    | accepted | rejected | locked => cases hτ
  | accept | selectAnchor | updateAnchor | reject | clearFreelancer | selectStatus => cases hτ

theorem goto_ofAssign {f : Option Text} (hq : q.call = .assign f)
    (h : ∀ σ, next = .task σ → σ.ofAssign) :
    ∀ σ, (q.goto again next).task = some σ → σ.ofAssign := by
  intro σ hσ
  cases next with
  | task => cases hσ; exact h _ rfl
  | done => cases hσ
  | throw =>
    simp only [Request.goto] at hσ
    split at hσ
    · cases hstart : q.start <;> rw [hstart] at hσ <;> cases hσ
      exact start_ofAssign hq hstart
    · cases hσ

theorem keepsToAssign_step (hs : KeepsToAssign i s) (h : step sha256 contractId s a = some t) :
    KeepsToAssign i t := by
  intro q τ again f hi hq
  by_cases ha : a.actor = some i
  · have htask : (t.actors i).task = some τ := by rw [hi]; rfl
    have hrequest : (t.actors i).request = some q := request_of_running hi
    cases step_cases h with
    | register | initializeContract | record | drawAssignment | drawLedger => cases ha
    | request =>
      cases ha
      simp at htask
    | replay | crash =>
      cases ha
      simp [Actor.task] at htask
    | guard =>
      cases ha
      rw [setActor_actors, Function.update_self] at htask
      split at htask
      · rw [pass_task] at htask
        cases htask
      · cases htask
    | run hs' =>
      cases ha
      rw [setActor_actors, Function.update_self] at htask hrequest
      rw [goto_request] at hrequest
      cases hrequest
      exact goto_ofAssign hq (fun σ => start_ofAssign hq) τ htask
    | take hs' =>
      cases ha
      rw [setActor_actors, Function.update_self] at htask hrequest
      rw [goto_request] at hrequest
      cases hrequest
      refine goto_ofAssign hq (fun σ hσ => ?_) τ htask
      split at hσ
      · exact perform_ofAssign (hs _ _ _ _ hs' hq) hσ
      · exact raised_ofAssign (hs _ _ _ _ hs' hq) hσ
    | fail hs' =>
      cases ha
      rw [setActor_actors, Function.update_self] at htask hrequest
      rw [goto_request] at hrequest
      cases hrequest
      exact goto_ofAssign hq (fun σ => raised_ofAssign (hs _ _ _ _ hs' hq)) τ htask
  · rw [step_actors h ha] at hi
    exact hs q τ again f hi hq

/-! ## One step -/

theorem unchanged_updateFreelancer :
    s.db.Unchanged (perform sha256 contractId s.db (.updateFreelancer freelancerId h0)).1 ↔
      (s.db.contract ≠ none → freelancerId ∈ s.db.users →
        s.db.freelancerId = some freelancerId) := by
  by_cases hc : s.db.contract = none
  · rw [perform_updateFreelancer (.inl hc)]
    refine iff_of_true ⟨?_, rfl⟩ fun hsome => absurd hc hsome
    rw [freelancerId_setFreelancer, if_pos hc, Database.freelancerId, hc]
    rfl
  by_cases hu : freelancerId ∈ s.db.users
  · have hf : (s.db.setFreelancer freelancerId).freelancerId = some freelancerId := by
      rw [freelancerId_setFreelancer, if_neg hc]
    rw [perform_updateFreelancer (.inr hu), Database.Unchanged, hf]
    exact ⟨fun h _ _ => h.1.symm, fun h => ⟨(h hc hu).symm, rfl⟩⟩
  · rw [perform_updateFreelancer_unknown hc hu]
    exact iff_of_true ⟨rfl, rfl⟩ fun _ hknown => absurd hknown hu

theorem unchanged_insertAssignment :
    s.db.Unchanged (insertAssignment s.db freelancerId h0).1 ↔
      s.db.admits freelancerId = false := by
  cases hadmits : s.db.admits freelancerId with
  | true =>
    refine iff_of_false (fun h => ?_) (by decide)
    have hh : (insertAssignment s.db freelancerId h0).1.holders = _ := holders_insert hadmits
    rw [holders_of_assignments h.2] at hh
    simp at hh
  | false =>
    exact iff_of_true ⟨freelancerId_of_contract insertAssignment_contract,
      assignments_insert hadmits⟩ rfl

theorem unchanged_other (hc : τ.writesContract = false) (ha : τ.writesAssignments = false) :
    s.db.Unchanged (perform sha256 contractId s.db τ).1 :=
  ⟨freelancerId_of_contract (perform_contract hc), perform_assignments ha⟩

theorem unchanged_perform (hτ : τ.ofAssign) (ho : o ≠ .failed) :
    τ.Harmless s.db o ↔ s.db.Unchanged (perform sha256 contractId s.db τ).1 := by
  cases τ with
  | updateFreelancer =>
    rw [unchanged_updateFreelancer]
    exact ⟨fun h => h ho, fun h _ => h⟩
  | insertAssignment =>
    rw [perform, unchanged_insertAssignment]
    exact ⟨fun h => h ho, fun h _ => h⟩
  | selectAccepted | selectGenesis | appendWithOutbox | appendManually =>
    exact iff_of_true trivial (unchanged_other rfl rfl)
  | accept | selectAnchor | updateAnchor | reject | clearFreelancer | selectStatus => cases hτ

/-- A harmless step of an assign is exactly one that leaves the two tables as they are. -/
theorem harmless_iff {f : Option Text} (hs : KeepsToAssign i s) (ha : a.actor = some i)
    (h : step sha256 contractId s a = some t) (hi : (t.actors i).request = some q)
    (hq : q.call = .assign f) : Harmless s a ↔ s.db.Unchanged t.db := by
  cases step_cases h with
  | register | initializeContract | record | drawAssignment | drawLedger => cases ha
  | request | run | replay | crash => exact iff_of_true trivial ⟨rfl, rfl⟩
  | guard hrun =>
    refine iff_of_true (fun τ hτ => ?_) ⟨rfl, rfl⟩
    rw [hrun] at hτ
    cases hτ
  | fail hrun =>
    refine iff_of_true (fun σ hσ => ?_) ⟨rfl, rfl⟩
    cases σ with
    | updateFreelancer | insertAssignment => exact fun h => absurd rfl h
    | _ => trivial
  | take hrun ho =>
    cases ha
    rw [setActor_actors, Function.update_self, goto_request] at hi
    cases hi
    rw [setActor_db, ← unchanged_perform (hs _ _ _ _ hrun hq) ho]
    exact ⟨fun h => h _ (by rw [hrun]; rfl), fun h τ hτ => by rw [hrun] at hτ; cases hτ; exact h⟩

/-! ## Runs -/

theorem keepsToAssign_of_idle (hi : s.actors i = .idle) : KeepsToAssign i s := by
  intro q τ again f hrun
  rw [hi] at hrun
  cases hrun

/-- A refused assign changes nothing exactly when each of its steps is harmless. -/
theorem refused_changes_nothing_iff (sha256 : Text → Text) (contractId : Text)
    (hi : s.actors i = .idle) (h : (system sha256 contractId).Run Any s as t)
    (ht : (t.actors i).RefusedAssign) :
    (∀ x ∈ (system sha256 contractId).steps s as, x.2.1.actor = some i →
      x.1.db.Unchanged x.2.2.db) ↔
      (system sha256 contractId).Run (fun s a => a.actor = some i → Harmless s a) s as t := by
  obtain ⟨q, hrequest, f, hq⟩ : ∃ q, (t.actors i).request = some q ∧ ∃ f, q.call = .assign f := by
    cases ht' : t.actors i with
    | answered q reply => rw [ht'] at ht; exact ⟨q, rfl, ht.1⟩
    | idle | guarded | admitted | running | died => rw [ht'] at ht; exact ht.elim
  refine h.forall_steps_iff_of_mem (Q := fun s a t => a.actor = some i → s.db.Unchanged t.db)
    fun x hx => ?_
  obtain ⟨pre, post, hpre, hstep, hpost⟩ := h.exists_of_mem_steps hx
  have hkeeps : KeepsToAssign i x.1 :=
    hpre.invariant (fun _ _ _ hs _ hst => keepsToAssign_step hs hst) (keepsToAssign_of_idle hi)
  apply forall_congr'
  intro ha
  obtain ⟨q', hq'⟩ := exists_request hstep ha
  have heq := run_request hpost hq'
  rw [hrequest] at heq
  cases heq
  exact harmless_iff hkeeps ha hstep hq' hq

/-! ## A refusal that keeps its freelancer -/

/-- The freelancer whose decision is pending is assigned once more. -/
def sameAgain : List Action :=
  .initializeContract (units "c") :: serve 0 (.assign (some (units "f"))) client 5 ++
    serve 1 (.assign (some (units "f"))) client 4

theorem refused_changes_nothing_iff_same :
    ∃ t, (system id (units "AC-1")).exec opening sameAgain = some t ∧
      ((∀ x ∈ (system id (units "AC-1")).steps opening sameAgain, x.2.1.actor = some 1 →
        x.1.db.Unchanged x.2.2.db) ↔
        (system id (units "AC-1")).Run (fun s a => a.actor = some 1 → Harmless s a) opening
          sameAgain t) := by
  have h : ((system id (units "AC-1")).exec opening sameAgain).any fun t =>
      t.actors 1 = .answered ⟨.assign (some (units "f")), client⟩ alreadyPending := by
    decide +kernel
  obtain ⟨t, ht, hrefused⟩ := (Option.any_eq_true _ _).mp h
  refine ⟨t, ht, refused_changes_nothing_iff id _ rfl (run_of_exec ht) ?_⟩
  rw [of_decide_eq_true hrefused]
  exact ⟨⟨_, rfl⟩, by decide⟩

/-- The second assign is refused, and the contract names its freelancer. -/
theorem refused_assign_overwrites : ¬ ∀ (sha256 : Text → Text) contractId s as t i,
    s.actors i = .idle → (system sha256 contractId).Run Any s as t →
      (t.actors i).RefusedAssign → ∀ x ∈ (system sha256 contractId).steps s as,
        x.2.1.actor = some i → x.1.db.Unchanged x.2.2.db := by
  intro hall
  have h : ((system id (units "AC-1")).exec opening overAssign).any fun t =>
      t.actors 1 = .answered ⟨.assign (some (units "g")), client⟩ alreadyPending := by
    decide +kernel
  obtain ⟨t, ht, hrefused⟩ := (Option.any_eq_true _ _).mp h
  have hsteps := hall id _ _ _ t 1 rfl (run_of_exec ht)
    (by rw [of_decide_eq_true hrefused]; exact ⟨⟨_, rfl⟩, by decide⟩)
  have hbad : ((system id (units "AC-1")).steps opening overAssign).any fun x =>
      x.2.1.actor = some 1 ∧ x.2.2.db.freelancerId ≠ x.1.db.freelancerId := by decide +kernel
  obtain ⟨x, hx, hbad⟩ := List.any_eq_true.mp hbad
  obtain ⟨hactor, hne⟩ := of_decide_eq_true hbad
  exact hne (hsteps x hx hactor).1

end AssureCode.Assignment
