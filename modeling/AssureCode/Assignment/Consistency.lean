import AssureCode.Assignment.Steps

/-! # One open assignment, and its freelancer

An assign writes the freelancer of the contract before the row that justifies it, and a reject
clears him after its row. Between the two the contract may name a freelancer without an open row;
this is what a step must account for.
-/

namespace AssureCode.Assignment

open Js Machine
open Settlement (Outcome)

def Row.holder (r : Row) : Option Text := if r.status = .rejected then none else some r.freelancerId

/-- The freelancers of the rows that are `PENDING` or `ACCEPTED`, row by row. -/
def Database.holders (db : Database) : List Text := db.assignments.filterMap Row.holder

def Database.freelancerId (db : Database) : Option Text := db.contract.bind (·.freelancerId)

/-- At most one row is open; the contract names its freelancer, and none without it. -/
def Database.Consistent (db : Database) : Prop := db.holders = db.freelancerId.toList

instance (db : Database) : Decidable db.Consistent := inferInstanceAs (Decidable (_ = _))

/-- Between the two writes of a request. -/
def Task.between : Task → Bool
  | .insertAssignment .. | .clearFreelancer .. => true
  | _ => false

def State.Between (s : State) (i : ℕ) : Prop := ∃ τ, (s.actors i).task = some τ ∧ τ.between

def Accounted (s : State) : Prop := s.db.Consistent ∨ s.db.holders = [] ∧ ∃ i, s.Between i

/-- The state is accounted for without this request. -/
def AccountedWithout (s : State) (i : ℕ) : Prop :=
  s.db.Consistent ∨ s.db.holders = [] ∧ ∃ j, j ≠ i ∧ s.Between j

/-- The `INSERT` of a row goes through. -/
def Database.admits (db : Database) (freelancerId : Text) : Bool :=
  ¬ db.assignments.any (·.status = .pending) ∧ db.contract ≠ none ∧ freelancerId ∈ db.users

/-- What a task of request `i` must find, or come to, so that its step is orderly. -/
def Task.Orderly (s : State) (i : ℕ) (o : Outcome) : Task → Prop
  | .updateFreelancer freelancerId _ =>
    o ≠ .failed → s.db.contract ≠ none → freelancerId ∈ s.db.users →
      s.db.holders = [freelancerId] ∨
        s.db.holders = [] ∧ (o = .ok ∨ ∃ j, j ≠ i ∧ s.Between j)
  | .insertAssignment freelancerId _ =>
    if o ≠ .failed ∧ s.db.admits freelancerId then
      s.db.holders = [] ∧ s.db.freelancerId = some freelancerId
    else AccountedWithout s i
  | .reject userId _ =>
    o = .lost → (∃ r ∈ s.db.assignments, r.pendingFor userId) → ∃ j, j ≠ i ∧ s.Between j
  | .clearFreelancer .. => if o = .failed then AccountedWithout s i else s.db.holders = []
  | _ => True

/--
An assign writes its freelancer only over his own open row or none, and inserts its row only
beside no open row and while the contract still names him; a reject clears the freelancer only
while no row is open; and a request throws or dies between its two writes only where the tables
agree, or another request is between its own.
-/
def Orderly (s : State) : Action → Prop
  | .advance i o => ∀ τ, (s.actors i).task = some τ → τ.Orderly s i o
  | .crash i => AccountedWithout s i
  | _ => True

variable {sha256 : Text → Text} {contractId : Text} {s t : State} {a : Action} {as : List Action}
  {i j : ℕ} {b : Actor} {q : Request} {τ : Task} {again : Bool} {o : Outcome} {db db' : Database}
  {next : Next} {userId freelancerId : Text} {r : Row} {h0 : Option Genesis}

/-! ## The two tables -/

theorem consistent_congr (hh : db'.holders = db.holders)
    (hf : db'.freelancerId = db.freelancerId) : db'.Consistent ↔ db.Consistent := by
  rw [Database.Consistent, Database.Consistent, hh, hf]

theorem freelancerId_setFreelancer {f : Option Text} :
    (db.setFreelancer f).freelancerId = if db.contract = none then none else f := by
  unfold Database.setFreelancer Database.freelancerId
  cases db.contract <;> simp

@[simp] theorem holders_setFreelancer {f : Option Text} :
    (db.setFreelancer f).holders = db.holders := rfl

/-- An update that closes no row and opens none. -/
theorem holders_update {p : Row → Bool} {f : Row → Row} (hf : ∀ r, p r → (f r).holder = r.holder) :
    (db.update p f).holders = db.holders := by
  unfold Database.holders Database.update
  rw [List.filterMap_map]
  apply List.filterMap_congr
  intro r _
  simp only [Function.comp_apply]
  split
  · next hp => exact hf r hp
  · rfl

theorem holders_accept : (db.update (·.pendingFor userId) Row.accept).holders = db.holders := by
  apply holders_update
  intro r hp
  obtain ⟨-, hpending⟩ := of_decide_eq_true hp
  simp [Row.holder, Row.accept, hpending]

theorem holders_setAnchor {n : ℕ} {h : Genesis} :
    (db.update (·.assignmentId = n) (Row.setAnchor h)).holders = db.holders :=
  holders_update fun _ _ => rfl

theorem holder_of_pendingFor (h : r.pendingFor userId) : r.holder = some userId := by
  obtain ⟨rfl, hpending⟩ := of_decide_eq_true h
  simp [Row.holder, hpending]

/-- A rejection closes the only open row. -/
theorem holders_reject (reason : RejectAssignment) (hone : db.holders.length ≤ 1)
    (hr : r ∈ db.assignments) (hp : r.pendingFor userId) :
    (db.update (·.pendingFor userId) (Row.reject reason)).holders = [] := by
  obtain ⟨pre, post, hsplit⟩ := List.append_of_mem hr
  have hrest : ∀ q ∈ pre ++ post, q.holder = none := by
    rw [Database.holders, hsplit, List.filterMap_append, List.filterMap_cons_some
      (holder_of_pendingFor hp), List.length_append, List.length_cons] at hone
    have hlen : ((pre ++ post).filterMap Row.holder).length = 0 := by
      rw [List.filterMap_append, List.length_append]
      omega
    exact List.filterMap_eq_nil_iff.mp (List.length_eq_zero_iff.mp hlen)
  unfold Database.holders Database.update
  rw [List.filterMap_map, List.filterMap_eq_nil_iff]
  intro q hq
  simp only [Function.comp_apply]
  split
  · rfl
  · next hq' =>
    rw [hsplit, List.mem_append, List.mem_cons] at hq
    have hne : q ≠ r := by
      rintro rfl
      exact hq' hp
    exact hrest q (List.mem_append.mpr (hq.imp_right fun h => h.resolve_left hne))

theorem consistent_length (h : db.Consistent) : db.holders.length ≤ 1 := by
  rw [h]
  cases db.freelancerId <;> simp

theorem accounted_length (h : Accounted s) : s.db.holders.length ≤ 1 := by
  rcases h with h | ⟨h, -⟩
  · exact consistent_length h
  · simp [h]

/-- Only a contract that names somebody has an open row. -/
theorem holders_of_contract_none (h : Accounted s) (hc : s.db.contract = none) :
    s.db.holders = [] := by
  rcases h with h | ⟨h, -⟩
  · rw [h, Database.freelancerId, hc]
    rfl
  · exact h

/-! ## Who is between two writes -/

theorem between_of_ne (hj : ∀ j, j ≠ i → t.actors j = s.actors j) (hne : j ≠ i) :
    t.Between j ↔ s.Between j := by
  rw [State.Between, State.Between, hj j hne]

theorem not_between_of_task (h : ∀ τ, (s.actors i).task = some τ → τ.between = false) :
    ¬ s.Between i := by
  rintro ⟨τ, hτ, hb⟩
  rw [h τ hτ] at hb
  cases hb

theorem first_between (h : τ.First) : τ.between = false := by
  cases h <;> rfl

theorem goto_between (h : ∀ τ, next = .task τ → τ.between = false) :
    ∀ τ, (q.goto again next).task = some τ → τ.between = false := fun τ hτ =>
  (task_of_goto hτ).elim (h τ) first_between

theorem raised_between : ∀ σ, raised τ = .task σ → σ.between = false := by
  intro σ h
  cases τ <;> cases h <;> rfl

/-- A request that is not between its writes after a step. -/
theorem accounted_leave (hh : t.db.holders = s.db.holders)
    (hf : t.db.freelancerId = s.db.freelancerId) (hj : ∀ j, j ≠ i → t.actors j = s.actors j)
    (hi : ¬ t.Between i) : Accounted t ↔ AccountedWithout s i := by
  unfold Accounted AccountedWithout
  rw [consistent_congr hh hf, hh]
  refine or_congr_right (and_congr_right fun _ => ⟨?_, ?_⟩)
  · rintro ⟨j, hb⟩
    have hne : j ≠ i := by
      rintro rfl
      exact hi hb
    exact ⟨j, hne, (between_of_ne hj hne).mp hb⟩
  · rintro ⟨j, hne, hb⟩
    exact ⟨j, (between_of_ne hj hne).mpr hb⟩

theorem accountedWithout_of_not_between (hs : Accounted s) (hi : ¬ s.Between i) :
    AccountedWithout s i := by
  rcases hs with hs | ⟨hh, j, hb⟩
  · exact .inl hs
  · refine .inr ⟨hh, j, ?_, hb⟩
    rintro rfl
    exact hi hb

/-- A step that leaves the two tables as they are, of a request away from its writes. -/
theorem accounted_of_same (hs : Accounted s) (hh : t.db.holders = s.db.holders)
    (hf : t.db.freelancerId = s.db.freelancerId) (hj : ∀ j, j ≠ i → t.actors j = s.actors j)
    (hi : ¬ s.Between i) (hi' : ¬ t.Between i) : Accounted t :=
  (accounted_leave hh hf hj hi').mpr (accountedWithout_of_not_between hs hi)

/-! ## One step -/

theorem holders_insert (h : db.admits freelancerId) :
    (insertAssignment db freelancerId h0).1.holders = db.holders ++ [freelancerId] := by
  obtain ⟨hpending, hc, hu⟩ := of_decide_eq_true h
  rw [insertAssignment, if_neg hpending, if_neg (not_or.mpr ⟨hc, not_not.mpr hu⟩)]
  simp [Database.holders, Row.holder]

theorem assignments_insert (h : db.admits freelancerId = false) :
    (insertAssignment db freelancerId h0).1.assignments = db.assignments := by
  unfold insertAssignment
  split
  · rfl
  · next hpending =>
    split
    · rfl
    · next hrest =>
      obtain ⟨hc, hu⟩ := not_or.mp hrest
      rw [Database.admits, decide_eq_false_iff_not] at h
      exact absurd ⟨hpending, hc, not_not.mp hu⟩ h

theorem insert_between : ∀ σ, (insertAssignment db freelancerId h0).2 = .task σ →
    σ.between = false := by
  intro σ h
  unfold insertAssignment at h
  split at h
  · cases h
  split at h <;> cases h
  rfl

/-- Only the statement before it leads between two writes. -/
theorem perform_between (hτ : ∀ f h0, τ ≠ .updateFreelancer f h0) (hr : ∀ u x, τ ≠ .reject u x) :
    ∀ σ, (perform sha256 contractId db τ).2 = .task σ → σ.between = false := by
  intro σ h
  cases τ with
  | updateFreelancer f h0 => exact absurd rfl (hτ f h0)
  | reject u x => exact absurd rfl (hr u x)
  | insertAssignment => exact insert_between σ h
  | selectAccepted =>
    simp only [perform] at h
    split at h <;> cases h
    rfl
  | selectGenesis | updateAnchor | clearFreelancer => cases h; rfl
  | selectStatus => cases h
  | accept =>
    simp only [perform] at h
    split at h <;> cases h
    · rfl
    · unfold anchor
      split <;> rfl
  | selectAnchor =>
    cases h
    cases db.genesis <;> rfl
  | appendWithOutbox p | appendManually p =>
    obtain ⟨-, rfl⟩ := next_of_posting (p := p) rfl h
    rfl

/-- The state after the statement of a task, when the handler goes on with `next`. -/
abbrev after (sha256 : Text → Text) (contractId : Text) (s : State) (i : ℕ) (τ : Task)
    (b : Actor) : State :=
  State.setActor { s with db := (perform sha256 contractId s.db τ).1 } i b

theorem after_actors (hne : j ≠ i) : (after sha256 contractId s i τ b).actors j = s.actors j :=
  Function.update_of_ne hne ..

theorem not_between_after (h : ∀ σ, b.task = some σ → σ.between = false) :
    ¬ (after sha256 contractId s i τ b).Between i := by
  refine not_between_of_task fun σ hσ => ?_
  rw [setActor_actors, Function.update_self] at hσ
  exact h σ hσ

theorem freelancerId_of_contract (h : db'.contract = db.contract) :
    db'.freelancerId = db.freelancerId := by
  rw [Database.freelancerId, Database.freelancerId, h]

theorem holders_of_assignments (h : db'.assignments = db.assignments) :
    db'.holders = db.holders := by
  rw [Database.holders, Database.holders, h]

/-- The task after a statement that succeeds or throws. -/
abbrev goes (sha256 : Text → Text) (contractId : Text) (db : Database) (τ : Task) (o : Outcome) :
    Next :=
  if o = .ok then (perform sha256 contractId db τ).2 else raised τ

theorem goes_between (hτ : ∀ f h0, τ ≠ .updateFreelancer f h0) (hr : ∀ u x, τ ≠ .reject u x) :
    ∀ σ, goes sha256 contractId db τ o = .task σ → σ.between = false := by
  intro σ h
  unfold goes at h
  split at h
  · exact perform_between hτ hr σ h
  · exact raised_between σ h

theorem between_after (h : (q.goto again next).task = some τ) (hb : τ.between) {σ : Task} :
    (after sha256 contractId s i σ (q.goto again next)).Between i :=
  ⟨τ, by rw [setActor_actors, Function.update_self, h], hb⟩

/-- Where the request is not between its writes any more, others must be. -/
theorem exists_between_after (h : ∀ σ, next = .task σ → σ.between = false) :
    (∃ j, (after sha256 contractId s i τ (q.goto again next)).Between j) ↔
      ∃ j, j ≠ i ∧ s.Between j := by
  have hi : ¬ (after sha256 contractId s i τ (q.goto again next)).Between i :=
    not_between_after (goto_between h)
  constructor
  · rintro ⟨j, hb⟩
    have hne : j ≠ i := by
      rintro rfl
      exact hi hb
    exact ⟨j, hne, (between_of_ne (fun _ => after_actors) hne).mp hb⟩
  · rintro ⟨j, hne, hb⟩
    exact ⟨j, (between_of_ne (fun _ => after_actors) hne).mpr hb⟩

theorem accounted_updateFreelancer (hs : Accounted s) (hi : ¬ s.Between i) (ho : o ≠ .failed) :
    Accounted (after sha256 contractId s i (.updateFreelancer freelancerId h0) (q.goto again
      (goes sha256 contractId s.db (.updateFreelancer freelancerId h0) o))) ↔
      (Task.updateFreelancer freelancerId h0).Orderly s i o := by
  by_cases hc : s.db.contract = none
  · -- No row of `contracts` matches.
    have hh := holders_of_contract_none hs hc
    refine iff_of_true (.inl ?_) fun _ hsome => absurd hc hsome
    simp [Database.Consistent, perform, hc, freelancerId_setFreelancer, hh]
  by_cases hu : freelancerId ∈ s.db.users
  · have hperform : perform sha256 contractId s.db (.updateFreelancer freelancerId h0) = _ :=
      perform_updateFreelancer (.inr hu)
    have hf : (s.db.setFreelancer freelancerId).freelancerId = some freelancerId := by
      rw [freelancerId_setFreelancer, if_neg hc]
    simp only [Task.Orderly, ne_eq, ho, not_false_eq_true, hc, hu, forall_const, Accounted,
      Database.Consistent, setActor_db, hperform, holders_setFreelancer, hf, Option.toList_some]
    refine or_congr_right (and_congr_right fun _ => ?_)
    rcases eq_or_ne o .ok with rfl | hlost
    · refine iff_of_true ⟨i, between_after (τ := .insertAssignment freelancerId h0) ?_ rfl⟩
        (.inl rfl)
      rw [goes, if_pos rfl, hperform]
      rfl
    · rw [exists_between_after, or_iff_right hlost]
      rw [goes, if_neg hlost]
      exact raised_between
  · have hperform : perform sha256 contractId s.db (.updateFreelancer freelancerId h0) = _ :=
      perform_updateFreelancer_unknown hc hu
    have hgoes : goes sha256 contractId s.db (.updateFreelancer freelancerId h0) o =
        .throw internalServerError := by
      rw [goes, hperform]
      exact ite_self _
    refine iff_of_true ?_ fun _ _ hknown => absurd hknown hu
    refine accounted_of_same hs ?_ ?_ (fun _ => after_actors) hi
      (not_between_after (goto_between ?_))
    · rw [setActor_db, hperform]
    · rw [setActor_db, hperform]
    · rw [hgoes]
      intro σ h
      cases h

theorem not_between_goes (hτ : ∀ f h0, τ ≠ .updateFreelancer f h0) (hr : ∀ u x, τ ≠ .reject u x) :
    ¬ (after sha256 contractId s i τ (q.goto again (goes sha256 contractId s.db τ o))).Between i :=
  not_between_after (goto_between (goes_between hτ hr))

theorem accounted_insertAssignment (ho : o ≠ .failed) :
    Accounted (after sha256 contractId s i (.insertAssignment freelancerId h0) (q.goto again
      (goes sha256 contractId s.db (.insertAssignment freelancerId h0) o))) ↔
      (Task.insertAssignment freelancerId h0).Orderly s i o := by
  have hf : (perform sha256 contractId s.db (.insertAssignment freelancerId h0)).1.freelancerId =
      s.db.freelancerId := freelancerId_of_contract (perform_contract rfl)
  cases hadmits : s.db.admits freelancerId with
  | true =>
    have hh : (perform sha256 contractId s.db (.insertAssignment freelancerId h0)).1.holders =
        s.db.holders ++ [freelancerId] := holders_insert hadmits
    simp only [Task.Orderly, if_pos (And.intro ho hadmits), Accounted, Database.Consistent,
      setActor_db, hh, hf]
    cases s.db.freelancerId with
    | none => simp
    | some f => cases s.db.holders <;> simp [@eq_comm _ f]
  | false =>
    have hh : (perform sha256 contractId s.db (.insertAssignment freelancerId h0)).1.holders =
        s.db.holders := holders_of_assignments (assignments_insert hadmits)
    rw [Task.Orderly, if_neg fun h => by rw [hadmits] at h; exact absurd h.2 (by decide)]
    exact accounted_leave hh hf (fun _ => after_actors)
      (not_between_goes (fun _ _ h => by cases h) fun _ _ h => by cases h)

theorem accounted_clearFreelancer {n : ℕ} {reason : RejectAssignment} (ho : o ≠ .failed) :
    Accounted (after sha256 contractId s i (.clearFreelancer userId n reason) (q.goto again
      (goes sha256 contractId s.db (.clearFreelancer userId n reason) o))) ↔
      (Task.clearFreelancer userId n reason).Orderly s i o := by
  have hf : (s.db.setFreelancer none).freelancerId = none := by
    rw [freelancerId_setFreelancer, ite_self]
  simp only [Task.Orderly, if_neg ho, Accounted, Database.Consistent, setActor_db, perform,
    holders_setFreelancer, hf, Option.toList_none]
  exact or_iff_left_of_imp And.left

/-- While somebody has an open row, the contract names a freelancer. -/
theorem freelancerId_ne_none (hs : Accounted s) (hr : r ∈ s.db.assignments)
    (hp : r.pendingFor userId) : s.db.freelancerId ≠ none := by
  have hmem : userId ∈ s.db.holders := List.mem_filterMap.mpr ⟨r, hr, holder_of_pendingFor hp⟩
  intro hnone
  rcases hs with hs | ⟨hs, -⟩
  · rw [hs, hnone] at hmem
    cases hmem
  · rw [hs] at hmem
    cases hmem

/-- A reject that finds no row to reject. -/
theorem accounted_reject_none {reason : RejectAssignment} (hs : Accounted s) (hi : ¬ s.Between i)
    (hfind : s.db.assignments.find? (·.pendingFor userId) = none) :
    Accounted (after sha256 contractId s i (.reject userId reason) (q.goto again
      (goes sha256 contractId s.db (.reject userId reason) o))) := by
  have hperform : perform sha256 contractId s.db (.reject userId reason) =
      (s.db, .task (.selectStatus userId)) := by
    rw [perform, hfind]
  apply accounted_of_same hs
  · rw [setActor_db, hperform]
  · rw [setActor_db, hperform]
  · exact fun _ => after_actors
  · exact hi
  · apply not_between_after
    apply goto_between
    intro σ h
    rw [goes, hperform] at h
    split at h
    · cases h; rfl
    · cases h

theorem accounted_reject {reason : RejectAssignment} (hs : Accounted s) (hi : ¬ s.Between i)
    (ho : o ≠ .failed) :
    Accounted (after sha256 contractId s i (.reject userId reason) (q.goto again
      (goes sha256 contractId s.db (.reject userId reason) o))) ↔
      (Task.reject userId reason).Orderly s i o := by
  cases hfind : s.db.assignments.find? (·.pendingFor userId) with
  | none =>
    apply iff_of_true (accounted_reject_none hs hi hfind)
    rintro - ⟨r, hr, hp⟩
    exact absurd hp (List.find?_eq_none.mp hfind r hr)
  | some r =>
    have hr := List.mem_of_find?_eq_some hfind
    have hp := List.find?_some hfind
    have hperform : perform sha256 contractId s.db (.reject userId reason) =
        (s.db.update (·.pendingFor userId) (Row.reject reason),
          .task (.clearFreelancer userId r.assignmentId reason)) := by
      rw [perform, hfind]
    have hh := holders_reject reason (accounted_length hs) hr hp
    have hsome := freelancerId_ne_none hs hr hp
    have hf : (s.db.update (·.pendingFor userId) (Row.reject reason)).freelancerId =
        s.db.freelancerId := rfl
    have hlist : ¬ [] = s.db.freelancerId.toList := by
      rw [eq_comm, Option.toList_eq_nil_iff]
      exact hsome
    simp only [Accounted, Database.Consistent, setActor_db, hperform, hh, hf, hlist, false_or,
      true_and, Task.Orderly]
    rcases eq_or_ne o .ok with rfl | hlost
    · refine iff_of_true ⟨i, between_after
        (τ := .clearFreelancer userId r.assignmentId reason) ?_ rfl⟩ (by simp)
      rw [goes, if_pos rfl, hperform]
      rfl
    · obtain rfl : o = .lost := by
        cases o with
        | ok => exact absurd rfl hlost
        | failed => exact absurd rfl ho
        | lost => rfl
      rw [exists_between_after]
      · exact ⟨fun h _ _ => h, fun h => h rfl ⟨r, hr, hp⟩⟩
      · rw [goes, if_neg hlost]
        exact raised_between

theorem perform_holders (h : τ.writesAssignments = false ∨ (∃ u, τ = .accept u) ∨
    ∃ u n x h0, τ = .updateAnchor u n x h0) :
    (perform sha256 contractId db τ).1.holders = db.holders := by
  rcases h with h | ⟨u, rfl⟩ | ⟨u, n, x, h0, rfl⟩
  · exact holders_of_assignments (perform_assignments h)
  · rw [perform]
    split
    · rfl
    · exact holders_accept
  · exact holders_setAnchor

/-- Statements that bear on neither table. -/
theorem accounted_other (hs : Accounted s) (hi : ¬ s.Between i) (hc : τ.writesContract = false)
    (ha : τ.writesAssignments = false ∨ (∃ u, τ = .accept u) ∨
      ∃ u n x h0, τ = .updateAnchor u n x h0) :
    Accounted (after sha256 contractId s i τ (q.goto again (goes sha256 contractId s.db τ o))) := by
  refine accounted_of_same hs (perform_holders ha) (freelancerId_of_contract (perform_contract hc))
    (fun _ => after_actors) hi (not_between_goes ?_ ?_)
  · rintro f h0 rfl
    cases hc
  · rintro u x rfl
    rcases ha with ha | ⟨_, ha⟩ | ⟨_, _, _, _, ha⟩ <;> cases ha

theorem not_between_of_running (h : s.actors i = .running q τ again) (hb : τ.between = false) :
    ¬ s.Between i :=
  not_between_of_task fun σ hσ => by rw [h] at hσ; cases hσ; exact hb

theorem accounted_take (hs : Accounted s) (hi : s.actors i = .running q τ again)
    (ho : o ≠ .failed) :
    Accounted (after sha256 contractId s i τ (q.goto again (goes sha256 contractId s.db τ o))) ↔
      τ.Orderly s i o := by
  cases τ with
  | updateFreelancer => exact accounted_updateFreelancer hs (not_between_of_running hi rfl) ho
  | insertAssignment => exact accounted_insertAssignment ho
  | reject => exact accounted_reject hs (not_between_of_running hi rfl) ho
  | clearFreelancer => exact accounted_clearFreelancer ho
  | accept =>
    exact iff_of_true (accounted_other hs (not_between_of_running hi rfl) rfl
      (.inr (.inl ⟨_, rfl⟩))) trivial
  | updateAnchor =>
    exact iff_of_true (accounted_other hs (not_between_of_running hi rfl) rfl
      (.inr (.inr ⟨_, _, _, _, rfl⟩))) trivial
  | selectAccepted | selectGenesis | selectAnchor | selectStatus | appendWithOutbox |
    appendManually =>
    exact iff_of_true (accounted_other hs (not_between_of_running hi rfl) rfl (.inl rfl)) trivial

theorem accounted_fail (hs : Accounted s) (hi : s.actors i = .running q τ again) :
    Accounted (s.setActor i (q.goto again (raised τ))) ↔ τ.Orderly s i .failed := by
  have hleave : Accounted (s.setActor i (q.goto again (raised τ))) ↔ AccountedWithout s i := by
    refine accounted_leave rfl rfl (fun _ hne => Function.update_of_ne hne ..)
      (not_between_of_task fun σ hσ => ?_)
    rw [setActor_actors, Function.update_self] at hσ
    exact goto_between raised_between σ hσ
  rw [hleave]
  cases τ with
  | insertAssignment => rw [Task.Orderly, if_neg fun h => h.1 rfl]
  | clearFreelancer => rw [Task.Orderly, if_pos rfl]
  | updateFreelancer =>
    exact iff_of_true (accountedWithout_of_not_between hs (not_between_of_running hi rfl))
      fun h => absurd rfl h
  | reject =>
    exact iff_of_true (accountedWithout_of_not_between hs (not_between_of_running hi rfl))
      fun h => by cases h
  | accept | updateAnchor | selectAccepted | selectGenesis | selectAnchor | selectStatus |
    appendWithOutbox | appendManually =>
    exact iff_of_true (accountedWithout_of_not_between hs (not_between_of_running hi rfl)) trivial

/-- A step that changes neither of the two columns nor where a request stands. -/
theorem accounted_beside (hs : Accounted s) (hh : t.db.holders = s.db.holders)
    (hf : t.db.freelancerId = s.db.freelancerId) (ha : t.actors = s.actors) : Accounted t := by
  unfold Accounted State.Between at hs ⊢
  rwa [consistent_congr hh hf, hh, ha]

/-- A request comes or goes without having touched the tables. -/
theorem accounted_setActor (hs : Accounted s) (hi : (s.actors i).task = none)
    (hb : ∀ σ, b.task = some σ → σ.between = false) : Accounted (s.setActor i b) := by
  refine accounted_of_same hs rfl rfl (fun _ hne => Function.update_of_ne hne ..)
    (not_between_of_task fun σ hσ => ?_) (not_between_of_task fun σ hσ => ?_)
  · rw [hi] at hσ
    cases hσ
  · rw [setActor_actors, Function.update_self] at hσ
    exact hb σ hσ

theorem freelancerId_initializeContract {clientId : Text} :
    ({ db with contract := db.contract.or (some { clientId }) } : Database).freelancerId =
      db.freelancerId := by
  unfold Database.freelancerId
  cases db.contract <;> rfl

/-- An orderly step is exactly one that keeps the state accounted for. -/
theorem accounted_iff (hs : Accounted s) (h : step sha256 contractId s a = some t) :
    Orderly s a ↔ Accounted t := by
  cases step_cases h with
  | register | drawAssignment | drawLedger =>
    exact iff_of_true trivial (accounted_beside hs rfl rfl rfl)
  | initializeContract =>
    exact iff_of_true trivial (accounted_beside hs rfl freelancerId_initializeContract rfl)
  | record happend =>
    obtain ⟨hc, ha, -⟩ := append_spec happend
    exact iff_of_true trivial (accounted_beside hs (holders_of_assignments ha)
      (freelancerId_of_contract hc) rfl)
  | request hi =>
    refine iff_of_true trivial (accounted_setActor hs (by rw [hi]; rfl) ?_)
    simp
  | run hi =>
    refine iff_of_true trivial (accounted_setActor hs (by rw [hi]; rfl) (goto_between ?_))
    exact fun σ hσ => first_between (first_of_start hσ)
  | replay hi =>
    exact iff_of_true trivial (accounted_setActor hs (by rw [hi]; rfl) fun _ hσ => by cases hσ)
  | guard hi =>
    refine iff_of_true (fun τ hτ => by rw [hi] at hτ; cases hτ)
      (accounted_setActor hs (by rw [hi]; rfl) fun σ hσ => ?_)
    split at hσ
    · rw [pass_task] at hσ
      cases hσ
    · cases hσ
  | take hi ho =>
    rw [accounted_take hs hi ho]
    exact ⟨fun h => h _ (by rw [hi]; rfl), fun h τ hτ => by rw [hi] at hτ; cases hτ; exact h⟩
  | fail hi =>
    rw [accounted_fail hs hi]
    exact ⟨fun h => h _ (by rw [hi]; rfl), fun h τ hτ => by rw [hi] at hτ; cases hτ; exact h⟩
  | @crash i q _ _ =>
    refine (accounted_leave (s := s) (t := s.setActor i (.died q)) rfl rfl
      (fun _ hne => Function.update_of_ne hne ..) (not_between_of_task fun σ hσ => ?_)).symm
    rw [setActor_actors, Function.update_self] at hσ
    cases hσ

/-! ## Runs -/

theorem accounted_initial (h : Initial s) : Accounted s := by
  obtain ⟨hc, ha, -⟩ := h
  refine .inl ?_
  rw [Database.Consistent, Database.holders, Database.freelancerId, ha, hc]
  rfl

theorem consistent_of_quiescent (hs : Accounted s) (hq : Quiescent s) : s.db.Consistent := by
  apply hs.resolve_right
  rintro ⟨-, i, τ, hτ, -⟩
  have hbusy := hq i
  cases hi : s.actors i with
  | running => rw [hi] at hbusy; cases hbusy
  | idle | guarded | admitted | answered | died => rw [hi] at hτ; cases hτ

/-- A step that is not orderly leaves the two tables in disagreement. -/
theorem not_consistent_of_not_orderly (hs : Accounted s) (h : step sha256 contractId s a = some t)
    (ha : ¬ Orderly s a) : ¬ t.db.Consistent := fun ht =>
  ha ((accounted_iff hs h).mpr (.inl ht))

theorem accounted_visited_iff (h0 : Initial s) (h : (system sha256 contractId).Run Any s as t) :
    (∀ r ∈ (system sha256 contractId).visited s as, Accounted r) ↔
      (system sha256 contractId).Run Orderly s as t :=
  h.forall_visited_iff (I := fun _ => True) (fun _ _ _ _ _ => trivial)
    (fun _ _ _ _ hs hst => accounted_iff hs hst) trivial (accounted_initial h0)

/-- In a run of orderly steps the tables agree whenever no request is in progress. -/
theorem assignment_consistent (sha256 : Text → Text) (contractId : Text) (h0 : Initial s)
    (h : (system sha256 contractId).Run Orderly s as t) :
    ∀ r ∈ (system sha256 contractId).visited s as, Quiescent r → r.db.Consistent := fun r hr =>
  consistent_of_quiescent (h.forall_visited
    (fun _ _ _ hs hk hst => (accounted_iff hs hst).mp hk) (accounted_initial h0) r hr)

/-! ## A second assign -/

def client : Caller := .user (units "c") .client

def freelancer (userId : Text) : Caller := .user userId .freelancer

/-- A client and two freelancers, and nothing about the contract. -/
def opening : State := { db.users := [units "c", units "f", units "g"] }

/-- A request that is let in, with this many statements of its handler. -/
def serve (i : ℕ) (call : Call) (caller : Caller) (statements : ℕ) : List Action :=
  [.request i ⟨call, caller⟩, .advance i .ok, .run i false] ++
    List.replicate statements (.advance i .ok)

theorem initial_opening : Initial opening := ⟨rfl, rfl, rfl, rfl, fun _ => rfl⟩

/-- One freelancer declines, the other one accepts. -/
def secondChoice : List Action :=
  .initializeContract (units "c") :: serve 0 (.assign (some (units "f"))) client 5 ++
    serve 1 (.reject (.object none none)) (freelancer (units "f")) 3 ++
    serve 2 (.assign (some (units "g"))) client 5 ++
    serve 3 .accept (freelancer (units "g")) 2

theorem assignment_consistent_second :
    ∃ t, (system id (units "AC-1")).exec opening secondChoice = some t ∧
      ∀ r ∈ (system id (units "AC-1")).visited opening secondChoice,
        Quiescent r → r.db.Consistent := by
  have h : ((system id (units "AC-1")).exec opening secondChoice).isSome := by decide +kernel
  obtain ⟨t, ht⟩ := Option.isSome_iff_exists.mp h
  have hall : ((system id (units "AC-1")).visited opening secondChoice).all fun r =>
      r.db.Consistent ∨ r.db.holders = [] ∧
        (List.range 4).any fun i => (r.actors i).task.any Task.between := by decide +kernel
  refine ⟨t, ht, assignment_consistent id _ initial_opening
    ((accounted_visited_iff initial_opening (run_of_exec ht)).mp fun r hr => ?_)⟩
  refine (of_decide_eq_true (List.all_eq_true.mp hall r hr)).imp_right (And.imp_right fun hb => ?_)
  obtain ⟨i, -, hb⟩ := List.any_eq_true.mp hb
  obtain ⟨τ, hτ, hb⟩ := (Option.any_eq_true _ _).mp hb
  exact ⟨i, τ, hτ, hb⟩

/-- A second freelancer is assigned while the first one is still to decide. -/
def overAssign : List Action :=
  .initializeContract (units "c") :: serve 0 (.assign (some (units "f"))) client 5 ++
    serve 1 (.assign (some (units "g"))) client 4

/-- The refused assign leaves its freelancer in the contract, beside the open row of the other. -/
theorem assignment_inconsistent : ¬ ∀ (sha256 : Text → Text) contractId s as t, Initial s →
    (system sha256 contractId).Run Any s as t →
      ∀ r ∈ (system sha256 contractId).visited s as, Quiescent r → r.db.Consistent := by
  intro hall
  have h : ((system id (units "AC-1")).exec opening overAssign).any fun t =>
      ((List.range 2).all fun i => !(t.actors i).busy) ∧ ¬ t.db.Consistent := by decide +kernel
  obtain ⟨t, ht, hbad⟩ := (Option.any_eq_true _ _).mp h
  obtain ⟨hb, hbad⟩ := of_decide_eq_true hbad
  have hrun := run_of_exec ht
  exact hbad (hall id _ _ _ _ initial_opening hrun t hrun.mem_visited
    (quiescent_of_run 2 initial_opening hrun (by decide +kernel) hb))

end AssureCode.Assignment
