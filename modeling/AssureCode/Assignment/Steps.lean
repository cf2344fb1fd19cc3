import AssureCode.Assignment.Model

/-! # What a step of a request can do

The transition relation beside the step function, which statement writes what, and where a
handler stands after a step.
-/

namespace AssureCode.Assignment

open Js Ledger Machine
open Settlement (Outcome)

variable {sha256 : Text → Text} {contractId : Text} {s t : State} {a : Action} {as : List Action}
  {i j : ℕ} {b : Actor} {q q' : Request} {τ σ : Task} {again again' : Bool} {o : Outcome}
  {db db' : Database} {e : Entry} {p : Posting} {record : Record} {next : Next} {reply : Reply}
  {userId freelancerId : Text} {r : Row}

@[simp] theorem setActor_db : (s.setActor i b).db = s.db := rfl

@[simp] theorem setActor_actors : (s.setActor i b).actors = Function.update s.actors i b := rfl

/-- The request of an actor that is no longer idle. -/
def Actor.request : Actor → Option Request
  | .idle => none
  | .guarded q | .admitted q | .running q _ _ | .answered q _ | .died q => some q

/-- The transition relation. -/
inductive Step (sha256 : Text → Text) (contractId : Text) (s : State) : Action → State → Prop
  | register {userId : Text} : Step sha256 contractId s (.register userId)
      { s with db.users := userId :: s.db.users }
  | initializeContract {clientId : Text} : clientId ∈ s.db.users →
      Step sha256 contractId s (.initializeContract clientId)
        { s with db.contract := s.db.contract.or (some { clientId }) }
  | record {kind : Kind} {payload : Data} {db : Database} {e : Entry} :
      append sha256 contractId s.db (.other kind payload) = some (db, e) →
      Step sha256 contractId s (.record kind payload) { s with db }
  | drawAssignment : Step sha256 contractId s .drawAssignment
      { s with db.nextAssignmentId := s.db.nextAssignmentId + 1 }
  | drawLedger : Step sha256 contractId s .drawLedger
      { s with db.nextLedgerId := s.db.nextLedgerId + 1 }
  | request {i : ℕ} {q : Request} : s.actors i = .idle →
      Step sha256 contractId s (.request i q) (s.setActor i q.enter)
  | run {i : ℕ} {q : Request} {again : Bool} : s.actors i = .admitted q →
      Step sha256 contractId s (.run i again) (s.setActor i (q.goto again q.start))
  | replay {i : ℕ} {q : Request} {reply : Reply} : s.actors i = .admitted q →
      Step sha256 contractId s (.replay i reply) (s.setActor i (.answered q reply))
  | guard {i : ℕ} {q : Request} {o : Outcome} : s.actors i = .guarded q →
      Step sha256 contractId s (.advance i o) (s.setActor i
        (if o = .ok then q.pass s.db.contract else .answered q accessCheckUnavailable))
  | take {i : ℕ} {q : Request} {τ : Task} {again : Bool} {o : Outcome} :
      s.actors i = .running q τ again → o ≠ .failed →
      Step sha256 contractId s (.advance i o) (State.setActor
        { s with db := (perform sha256 contractId s.db τ).1 } i
        (q.goto again (if o = .ok then (perform sha256 contractId s.db τ).2 else raised τ)))
  | fail {i : ℕ} {q : Request} {τ : Task} {again : Bool} : s.actors i = .running q τ again →
      Step sha256 contractId s (.advance i .failed) (s.setActor i (q.goto again (raised τ)))
  | crash {i : ℕ} {q : Request} : (s.actors i).busy → (s.actors i).request = some q →
      Step sha256 contractId s (.crash i) (s.setActor i (.died q))

theorem step_cases (h : step sha256 contractId s a = some t) : Step sha256 contractId s a t := by
  cases a with
  | register userId => cases h; exact .register
  | initializeContract clientId =>
    obtain ⟨hc, ht⟩ := Option.ite_none_right_eq_some.mp h
    cases ht
    exact .initializeContract hc
  | record kind payload =>
    obtain ⟨⟨db, e⟩, happend, ht⟩ := Option.map_eq_some_iff.mp h
    cases ht
    exact .record happend
  | drawAssignment => cases h; exact .drawAssignment
  | drawLedger => cases h; exact .drawLedger
  | request i q =>
    obtain ⟨hi, ht⟩ := Option.ite_none_right_eq_some.mp h
    cases ht
    exact .request hi
  | run i again =>
    simp only [step] at h
    split at h
    · next hi => cases h; exact .run hi
    · cases h
  | replay i reply =>
    simp only [step] at h
    split at h
    · next hi => cases h; exact .replay hi
    · cases h
  | advance i o =>
    simp only [step, advance] at h
    cases hi : s.actors i with
    | guarded q =>
      rw [hi] at h
      cases o <;> cases h <;> exact .guard hi
    | running q τ again =>
      rw [hi] at h
      cases o <;> cases h
      · exact .take hi (by decide)
      · exact .fail hi
      · exact .take hi (by decide)
    | idle | admitted | answered | died => simp [hi] at h
  | crash i =>
    simp only [step] at h
    split at h <;> cases h
    all_goals exact .crash (by rw [‹s.actors i = _›]; rfl) (by rw [‹s.actors i = _›]; rfl)

/-! ## Who takes a step -/

def Action.actor : Action → Option ℕ
  | .request i _ | .run i _ | .replay i _ | .advance i _ | .crash i => some i
  | _ => none

theorem step_actors (h : step sha256 contractId s a = some t) (hi : a.actor ≠ some i) :
    t.actors i = s.actors i := by
  have hne : ∀ j, a.actor = some j → i ≠ j := by
    rintro j hj rfl
    exact hi hj
  cases step_cases h with
  | register | initializeContract | record | drawAssignment | drawLedger => rfl
  | request | run | replay | guard | take | fail | crash =>
    exact Function.update_of_ne (hne _ rfl) ..

/-- A run leaves the requests alone that take no step in it. -/
theorem run_actors {K : State → Action → Prop} (h : (system sha256 contractId).Run K s as t)
    (hi : ∀ a ∈ as, a.actor ≠ some i) : t.actors i = s.actors i := by
  induction h with
  | nil s => rfl
  | cons _ hst _ ih =>
    obtain ⟨ha, hrest⟩ := List.forall_mem_cons.mp hi
    rw [ih hrest, step_actors hst ha]

/-- Only the first `n` requests take a step, and in the end none of them is in progress. -/
theorem quiescent_of_run {K : State → Action → Prop} (n : ℕ) (hs : Initial s)
    (h : (system sha256 contractId).Run K s as t)
    (hn : as.all fun a => a.actor.all (· < n))
    (hb : (List.range n).all fun i => !(t.actors i).busy) :
    Quiescent t := by
  intro i
  by_cases hi : i < n
  · have hbusy := List.all_eq_true.mp hb i (List.mem_range.mpr hi)
    rwa [Bool.not_eq_true'] at hbusy
  · have hothers : ∀ a ∈ as, a.actor ≠ some i := by
      intro a ha hai
      have hlt := List.all_eq_true.mp hn a ha
      rw [hai, Option.all_some, decide_eq_true_eq] at hlt
      exact hi hlt
    rw [run_actors h hothers, hs.2.2.2.2 i]
    rfl

/-! ## Where a handler stands -/

def Actor.task : Actor → Option Task
  | .running _ τ _ => some τ
  | _ => none

/-- What a handler may begin with. -/
inductive Task.First : Task → Prop
  | selectAccepted {freelancerId : Text} : First (.selectAccepted freelancerId)
  | accept {userId : Text} : First (.accept userId)
  | reject {userId : Text} {reason : RejectAssignment} : First (.reject userId reason)
  | lock {terms : Terms} : First (.appendWithOutbox (.locked terms))

theorem first_of_start (h : q.start = .task τ) : τ.First := by
  unfold Request.start at h
  split at h
  · split at h
    · cases h
    · cases h; exact .selectAccepted
  · cases h; exact .accept
  · split at h <;> cases h
    exact .reject
  · next body _ =>
    cases body with
    | none => cases h
    | some terms => cases h; exact .lock
  · cases h

@[simp] theorem enter_task : q.enter.task = none := by
  unfold Request.enter
  split <;> rfl

@[simp] theorem pass_task {row : Option Contract} : (q.pass row).task = none := by
  unfold Request.pass
  split
  · cases requireContractParty q.call.party _ row <;> rfl
  · rfl

theorem task_of_goto (h : (q.goto again next).task = some τ) : next = .task τ ∨ τ.First := by
  cases next with
  | task σ => cases h; exact .inl rfl
  | done reply => cases h
  | throw reply =>
    simp only [Request.goto] at h
    split at h
    · cases hstart : q.start <;> rw [hstart] at h <;> cases h
      exact .inr (first_of_start hstart)
    · cases h

/-! ## The call of a request -/

@[simp] theorem goto_request : (q.goto again next).request = some q := by
  cases next with
  | task | done => rfl
  | throw =>
    simp only [Request.goto]
    split
    · cases q.start <;> rfl
    · rfl

@[simp] theorem enter_request : q.enter.request = some q := by
  unfold Request.enter
  split <;> rfl

@[simp] theorem pass_request {row : Option Contract} : (q.pass row).request = some q := by
  unfold Request.pass
  split
  · cases requireContractParty q.call.party _ row <;> rfl
  · rfl

theorem request_of_running (h : s.actors i = .running q τ again) :
    (s.actors i).request = some q := by
  rw [h]
  rfl

/-- A request keeps its call and its caller to its end. -/
theorem step_request (h : step sha256 contractId s a = some t)
    (hi : (s.actors i).request = some q) : (t.actors i).request = some q := by
  by_cases ha : a.actor = some i
  · cases step_cases h with
    | register | initializeContract | record | drawAssignment | drawLedger => cases ha
    | request hs =>
      cases ha
      rw [hs] at hi
      cases hi
    | guard hs =>
      cases ha
      rw [hs] at hi
      cases hi
      rw [setActor_actors, Function.update_self]
      split
      · exact pass_request
      · rfl
    | run hs | take hs | fail hs =>
      cases ha
      rw [hs] at hi
      cases hi
      simp
    | replay hs =>
      cases ha
      rw [hs] at hi
      cases hi
      simp [Actor.request]
    | crash _ hq =>
      cases ha
      rw [hi] at hq
      cases hq
      simp [Actor.request]
  · rwa [step_actors h ha]

theorem exists_request (h : step sha256 contractId s a = some t) (ha : a.actor = some i) :
    ∃ q, (t.actors i).request = some q := by
  rw [← Option.isSome_iff_exists]
  cases step_cases h with
  | register | initializeContract | record | drawAssignment | drawLedger => cases ha
  | request | run | take | fail =>
    cases ha
    simp
  | replay | crash =>
    cases ha
    simp [Actor.request]
  | guard =>
    cases ha
    rw [setActor_actors, Function.update_self]
    split
    · simp
    · rfl

theorem run_request {K : State → Action → Prop} (h : (system sha256 contractId).Run K s as t)
    (hi : (s.actors i).request = some q) : (t.actors i).request = some q :=
  h.invariant (fun _ _ _ hs _ hst => step_request hst hs) hi

/-! ## Appending -/

theorem append_spec (h : append sha256 contractId db record = some (db', e)) :
    db'.contract = db.contract ∧ db'.assignments = db.assignments ∧ db'.users = db.users ∧
      db'.nextAssignmentId = db.nextAssignmentId ∧ db'.outbox = db.outbox ∧
      db'.ledger = db.ledger ++ [e] ∧ e.record = record := by
  unfold append at h
  split at h
  · cases h; exact ⟨rfl, rfl, rfl, rfl, rfl, rfl, rfl⟩
  · cases h

theorem post_spec (h : post sha256 contractId db p = some (db', e)) :
    db'.contract = db.contract ∧ db'.assignments = db.assignments ∧ db'.users = db.users ∧
      db'.nextAssignmentId = db.nextAssignmentId ∧
      db'.outbox = db.outbox ++ [⟨p.topic, p.event contractId⟩] ∧
      db'.ledger = db.ledger ++ [e] ∧ e.record = .posting p := by
  obtain ⟨⟨db₁, e₁⟩, happend, hpost⟩ := Option.map_eq_some_iff.mp h
  cases hpost
  obtain ⟨hc, ha, hu, hn, ho, hl, hr⟩ := append_spec happend
  exact ⟨hc, ha, hu, hn, congrArg (· ++ _) ho, hl, hr⟩

/-- The two ways to append a posting. -/
def Task.posting : Task → Option Posting
  | .appendWithOutbox p | .appendManually p => some p
  | _ => none

/-- An append happens as a whole, or not at all. -/
theorem perform_posting (sha256 : Text → Text) (contractId : Text) (db : Database)
    (h : τ.posting = some p) : (perform sha256 contractId db τ).1 = db ∨
      ∃ e, post sha256 contractId db p = some ((perform sha256 contractId db τ).1, e) := by
  cases τ <;> cases h <;> simp only [perform] <;> cases post sha256 contractId db p with
  | none => exact .inl rfl
  | some x => exact .inr ⟨x.2, rfl⟩

/-- A handler goes on after an append only where the stored procedure has failed. -/
theorem next_of_posting (hp : τ.posting = some p)
    (h : (perform sha256 contractId db τ).2 = .task σ) :
    post sha256 contractId db p = none ∧ σ = .appendManually p := by
  cases τ <;> cases hp <;> simp only [perform] at h <;>
    cases hpost : post sha256 contractId db p <;> rw [hpost] at h <;> cases h
  exact ⟨rfl, rfl⟩

/-! ## What a statement writes -/

theorem perform_updateFreelancer {h0 : Option Genesis}
    (h : db.contract = none ∨ freelancerId ∈ db.users) :
    perform sha256 contractId db (.updateFreelancer freelancerId h0) =
      (db.setFreelancer freelancerId, .task (.insertAssignment freelancerId h0)) := by
  rw [perform, if_neg]
  rintro ⟨hc, hu⟩
  rw [h.resolve_right hu] at hc
  cases hc

/-- The foreign key refuses a freelancer who is no user. -/
theorem perform_updateFreelancer_unknown {h0 : Option Genesis} (hc : db.contract ≠ none)
    (hu : freelancerId ∉ db.users) :
    perform sha256 contractId db (.updateFreelancer freelancerId h0) =
      (db, .throw internalServerError) := by
  rw [perform, if_pos ⟨Option.isSome_iff_ne_none.mpr hc, hu⟩]

def Task.writesContract : Task → Bool
  | .updateFreelancer .. | .clearFreelancer .. => true
  | _ => false

def Task.writesAssignments : Task → Bool
  | .insertAssignment .. | .accept _ | .updateAnchor .. | .reject .. => true
  | _ => false

theorem insertAssignment_contract {h0 : Option Genesis} :
    (insertAssignment db freelancerId h0).1.contract = db.contract := by
  unfold insertAssignment
  split
  · rfl
  split <;> rfl

theorem perform_contract (h : τ.writesContract = false) :
    (perform sha256 contractId db τ).1.contract = db.contract := by
  cases hp : τ.posting with
  | some p =>
    obtain heq | ⟨e, hpost⟩ := perform_posting sha256 contractId db hp
    · rw [heq]
    · exact (post_spec hpost).1
  | none =>
    cases τ with
    | updateFreelancer | clearFreelancer => cases h
    | appendWithOutbox | appendManually => cases hp
    | selectAccepted | selectGenesis | selectAnchor | updateAnchor | selectStatus => rfl
    | insertAssignment => exact insertAssignment_contract
    | accept | reject => simp only [perform]; split <;> rfl

theorem perform_assignments (h : τ.writesAssignments = false) :
    (perform sha256 contractId db τ).1.assignments = db.assignments := by
  cases hp : τ.posting with
  | some p =>
    obtain heq | ⟨e, hpost⟩ := perform_posting sha256 contractId db hp
    · rw [heq]
    · exact (post_spec hpost).2.1
  | none =>
    cases τ with
    | insertAssignment | accept | updateAnchor | reject => cases h
    | appendWithOutbox | appendManually => cases hp
    | selectAccepted | selectGenesis | selectAnchor | clearFreelancer | selectStatus => rfl
    | updateFreelancer => simp only [perform]; split <;> rfl

/-- Only an append adds to the ledger and to the outbox. -/
theorem perform_ledger (h : τ.posting = none) :
    (perform sha256 contractId db τ).1.ledger = db.ledger ∧
      (perform sha256 contractId db τ).1.outbox = db.outbox := by
  cases τ with
  | appendWithOutbox | appendManually => cases h
  | selectAccepted | selectGenesis | selectAnchor | clearFreelancer | selectStatus |
    updateAnchor => exact ⟨rfl, rfl⟩
  | updateFreelancer => simp only [perform]; split <;> exact ⟨rfl, rfl⟩
  | insertAssignment =>
    simp only [perform, insertAssignment]
    split
    · exact ⟨rfl, rfl⟩
    split <;> exact ⟨rfl, rfl⟩
  | accept | reject => simp only [perform]; split <;> exact ⟨rfl, rfl⟩

end AssureCode.Assignment
