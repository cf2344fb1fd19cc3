import AssureCode.Assignment.Consistency
import AssureCode.Ledger.Normal

/-! # Decisions and their entries

An accept or a reject decides on a row in one statement and appends its entry in a later one. A
decision is safe while its entry is in the ledger or its request still on the way there; the guard
of the `UPDATE` keeps every other request away from it.
-/

namespace AssureCode.Assignment

open Js Ledger Machine
open Settlement (Outcome)

/-- What was decided on an assignment. -/
inductive Decision
  | accepted (freelancerId : Text) (assignmentId : ℕ)
  | rejected (freelancerId : Text) (assignmentId : ℕ) (reason : RejectAssignment)
  deriving DecidableEq

def Row.decision (r : Row) : Option Decision :=
  match r.status with
  | .pending => none
  | .accepted => some (.accepted r.freelancerId r.assignmentId)
  | .rejected => some (.rejected r.freelancerId r.assignmentId r.rejectionReason)

def Posting.decision : Posting → Option Decision
  | .accepted freelancerId assignmentId _ => some (.accepted freelancerId assignmentId)
  | .rejected freelancerId assignmentId reason => some (.rejected freelancerId assignmentId reason)
  | _ => none

/-- The decision whose entry a handler has still to append. -/
def Task.decision : Task → Option Decision
  | .selectAnchor userId assignmentId _ | .updateAnchor userId assignmentId _ _ =>
    some (.accepted userId assignmentId)
  | .clearFreelancer userId assignmentId reason => some (.rejected userId assignmentId reason)
  | .appendWithOutbox p | .appendManually p => p.decision
  | _ => none

def State.Holds (s : State) (i : ℕ) (d : Decision) : Prop :=
  ∃ τ, (s.actors i).task = some τ ∧ τ.decision = some d

/-- A row says so. -/
def Database.Made (db : Database) (d : Decision) : Prop :=
  ∃ r ∈ db.assignments, r.decision = some d

/-- The entry of the decision, and its row in the outbox. -/
def Recorded (contractId : Text) (db : Database) (d : Decision) : Prop :=
  ∃ p : Posting, p.decision = some d ∧ (∃ e ∈ db.ledger, e.record = .posting p) ∧
    ⟨p.topic, p.event contractId⟩ ∈ db.outbox

/-- The request that is made again; a rejection may come with any body. -/
inductive Repeats : Decision → Request → Prop
  | accept {userId : Text} {n : ℕ} {role : Role} :
      Repeats (.accepted userId n) ⟨.accept, .user userId role⟩
  | reject {userId : Text} {n : ℕ} {reason : RejectAssignment} {body : RejectBody} {role : Role} :
      Repeats (.rejected userId n reason) ⟨.reject body, .user userId role⟩

/-- The steps of one request without faults. -/
inductive FaultFree (i : ℕ) (q : Request) : State → Action → Prop
  | request {s : State} : FaultFree i q s (.request i q)
  | run {s : State} {again : Bool} : FaultFree i q s (.run i again)
  | replay {s : State} {reply : Reply} : FaultFree i q s (.replay i reply)
  | advance {s : State} : FaultFree i q s (.advance i .ok)

/-- The same request, made again without faults, records the decision. -/
def Recoverable (sha256 : Text → Text) (contractId : Text) (s : State) (d : Decision) : Prop :=
  ∃ i q as t, s.actors i = .idle ∧ Repeats d q ∧
    (system sha256 contractId).Run (FaultFree i q) s as t ∧ Recorded contractId t.db d

/-- What a task must find, or come to, so that its decision is not let go of. -/
def Task.Keeps (contractId : Text) (db : Database) (o : Outcome) : Task → Prop
  | .accept userId | .reject userId _ =>
    o = .lost → ∀ r ∈ db.assignments, r.pendingFor userId = false
  | .clearFreelancer userId assignmentId reason =>
    o ≠ .ok → Recorded contractId db (.rejected userId assignmentId reason)
  | .appendManually p => o = .failed → ∀ d, p.decision = some d → Recorded contractId db d
  | _ => True

/--
No handler throws and no request dies with a decision whose entry is not in the ledger, and no
`UPDATE` that decides throws after it has taken effect.
-/
def Keeps (contractId : Text) (s : State) : Action → Prop
  | .advance i o => ∀ τ, (s.actors i).task = some τ → τ.Keeps contractId s.db o
  | .crash i => ∀ d, s.Holds i d → Recorded contractId s.db d
  | _ => True

variable {sha256 : Text → Text} {contractId : Text} {s t : State} {a : Action} {as : List Action}
  {i j : ℕ} {b : Actor} {q : Request} {τ σ : Task} {again : Bool} {o : Outcome} {db db' : Database}
  {next : Next} {userId freelancerId : Text} {r : Row} {h0 : Option Genesis} {d : Decision}
  {p : Posting} {e : Entry} {reason : RejectAssignment} {record : Record}

/-! ## The rows -/

/-- What the keys, the index and the sequence make sure of. -/
structure Database.Keyed (db : Database) : Prop where
  nodup : (db.assignments.map (·.assignmentId)).Nodup
  lt : ∀ r ∈ db.assignments, r.assignmentId < db.nextAssignmentId
  one : ∀ r ∈ db.assignments, ∀ r' ∈ db.assignments, r.status = .pending → r'.status = .pending →
    r = r'
  contract : db.assignments ≠ [] → db.contract ≠ none

theorem decision_eq_none : r.decision = none ↔ r.status = .pending := by
  unfold Row.decision
  cases r.status <;> simp

theorem pendingFor_iff : r.pendingFor userId ↔ r.freelancerId = userId ∧ r.status = .pending := by
  simp [Row.pendingFor]

theorem decision_setAnchor {h : Genesis} : (r.setAnchor h).decision = r.decision := rfl

/-- The decision that the `UPDATE` of a task takes. -/
def Task.takes (db : Database) : Task → Option Decision
  | .accept userId =>
    (db.assignments.find? (·.pendingFor userId)).map fun r => .accepted userId r.assignmentId
  | .reject userId reason =>
    (db.assignments.find? (·.pendingFor userId)).map fun r => .rejected userId r.assignmentId reason
  | _ => none

theorem keyed_congr (hk : db.Keyed) (ha : db'.assignments = db.assignments)
    (hn : db.nextAssignmentId ≤ db'.nextAssignmentId)
    (hc : db.contract ≠ none → db'.contract ≠ none) : db'.Keyed where
  nodup := by rw [ha]; exact hk.nodup
  lt r hr := (hk.lt r (ha ▸ hr)).trans_le hn
  one := by rw [ha]; exact hk.one
  contract h := hc (hk.contract (ha ▸ h))

theorem keyed_update {f : Row → Row} {w : Row → Bool} (hk : db.Keyed)
    (hid : ∀ r, (f r).assignmentId = r.assignmentId)
    (hs : ∀ r, (f r).status = .pending → r.status = .pending) : (db.update w f).Keyed := by
  have hmem : ∀ r' ∈ (db.update w f).assignments, ∃ r ∈ db.assignments,
      (if w r then f r else r) = r' := fun _ hr => List.mem_map.mp hr
  have hsame : ∀ r, (if w r then f r else r).assignmentId = r.assignmentId := by
    intro r
    split
    · exact hid r
    · rfl
  have hpending : ∀ r, (if w r then f r else r).status = .pending → r.status = .pending := by
    intro r
    split
    · exact hs r
    · exact id
  constructor
  · have hids : (db.update w f).assignments.map (·.assignmentId) =
        db.assignments.map (·.assignmentId) := by
      simp [Database.update, hsame]
    rw [hids]
    exact hk.nodup
  · intro r' hr'
    obtain ⟨r, hr, rfl⟩ := hmem r' hr'
    rw [hsame]
    exact hk.lt r hr
  · intro r' hr' r'' hr'' h' h''
    obtain ⟨r, hr, rfl⟩ := hmem r' hr'
    obtain ⟨q, hq, rfl⟩ := hmem r'' hr''
    rw [hk.one r hr q hq (hpending r h') (hpending q h'')]
  · intro h
    refine hk.contract fun hnil => h ?_
    simp [Database.update, hnil]

theorem keyed_insertAssignment (hk : db.Keyed) :
    (insertAssignment db freelancerId h0).1.Keyed := by
  unfold insertAssignment
  split
  · exact keyed_congr hk rfl (Nat.le_succ _) id
  split
  · exact keyed_congr hk rfl (Nat.le_succ _) id
  next hpending hrefused =>
  simp only [List.any_eq_true, decide_eq_true_eq, not_exists, not_and] at hpending
  constructor
  · rw [List.map_append, List.map_singleton, List.nodup_append']
    refine ⟨hk.nodup, List.nodup_singleton _, ?_⟩
    rw [List.disjoint_singleton]
    intro hmem
    obtain ⟨r, hr, heq⟩ := List.mem_map.mp hmem
    exact (hk.lt r hr).ne heq
  · intro r hr
    rcases List.mem_append.mp hr with hr | hr
    · exact (hk.lt r hr).trans (Nat.lt_succ_self _)
    · rw [List.mem_singleton.mp hr]
      exact Nat.lt_succ_self _
  · intro r hr r' hr' h h'
    rcases List.mem_append.mp hr with hr | hr
    · exact absurd h (hpending r hr)
    rcases List.mem_append.mp hr' with hr' | hr'
    · exact absurd h' (hpending r' hr')
    · rw [List.mem_singleton.mp hr, List.mem_singleton.mp hr']
  · exact fun _ hc => hrefused (.inl hc)

theorem keyed_perform (hk : db.Keyed) : (perform sha256 contractId db τ).1.Keyed := by
  cases hp : τ.posting with
  | some p =>
    obtain heq | ⟨e, hpost⟩ := perform_posting sha256 contractId db hp
    · rwa [heq]
    · obtain ⟨hc, ha, -, hn, -⟩ := post_spec hpost
      exact keyed_congr hk ha hn.ge fun h => by rwa [hc]
  | none =>
    cases τ with
    | appendWithOutbox | appendManually => cases hp
    | selectAccepted | selectGenesis | selectAnchor | selectStatus => exact hk
    | updateFreelancer =>
      rw [perform]
      split
      · exact hk
      · exact keyed_congr hk rfl le_rfl fun h => by simpa [Database.setFreelancer] using h
    | clearFreelancer =>
      exact keyed_congr hk rfl le_rfl fun h => by simpa [perform, Database.setFreelancer] using h
    | insertAssignment => exact keyed_insertAssignment hk
    | accept =>
      rw [perform]
      split
      · exact hk
      · exact keyed_update hk (fun _ => rfl) fun _ h => by cases h
    | updateAnchor => exact keyed_update hk (fun _ => rfl) fun _ h => h
    | reject =>
      rw [perform]
      split
      · exact hk
      · exact keyed_update hk (fun _ => rfl) fun _ h => by cases h

/-- The `UPDATE` that decides adds the one decision that it takes. -/
theorem made_update {f : Row → Row} (hk : db.Keyed) (hr : r ∈ db.assignments)
    (hp : r.pendingFor userId) :
    (db.update (·.pendingFor userId) f).Made d ↔ db.Made d ∨ (f r).decision = some d := by
  constructor
  · rintro ⟨r', hr', hd⟩
    obtain ⟨x, hx, rfl⟩ := List.mem_map.mp hr'
    split at hd
    · next hxp =>
      rw [hk.one x hx r hr (pendingFor_iff.mp hxp).2 (pendingFor_iff.mp hp).2] at hd
      exact .inr hd
    · exact .inl ⟨x, hx, hd⟩
  · rintro (⟨x, hx, hd⟩ | hd)
    · refine ⟨x, List.mem_map.mpr ⟨x, hx, if_neg fun hxp => ?_⟩, hd⟩
      rw [decision_eq_none.mpr (pendingFor_iff.mp hxp).2] at hd
      cases hd
    · exact ⟨f r, List.mem_map.mpr ⟨r, hr, if_pos hp⟩, hd⟩

theorem made_congr (h : db'.assignments = db.assignments) : db'.Made d ↔ db.Made d := by
  rw [Database.Made, Database.Made, h]

theorem made_insertAssignment :
    (insertAssignment db freelancerId h0).1.Made d ↔ db.Made d := by
  unfold insertAssignment
  split
  · rfl
  split
  · rfl
  · simp [Database.Made, Row.decision]

theorem made_setAnchor {n : ℕ} {h : Genesis} :
    (db.update (·.assignmentId = n) (Row.setAnchor h)).Made d ↔ db.Made d := by
  simp only [Database.Made, Database.update, List.mem_map, exists_exists_and_eq_and]
  refine exists_congr fun r => and_congr_right fun _ => ?_
  split
  · rw [decision_setAnchor]
  · rfl

theorem made_perform (hk : db.Keyed) : (perform sha256 contractId db τ).1.Made d ↔
    db.Made d ∨ τ.takes db = some d := by
  have hother : τ.writesAssignments = false → τ.takes db = none →
      ((perform sha256 contractId db τ).1.Made d ↔ db.Made d ∨ τ.takes db = some d) := by
    intro hw ht
    rw [made_congr (perform_assignments hw), ht]
    simp
  cases τ with
  | insertAssignment =>
    rw [perform, made_insertAssignment]
    simp [Task.takes]
  | updateAnchor =>
    rw [perform, made_setAnchor]
    simp [Task.takes]
  | accept u =>
    cases hfind : db.assignments.find? (·.pendingFor u) with
    | none => simp [perform, Task.takes, hfind]
    | some r =>
      have hp := List.find?_some hfind
      simp only [perform, Task.takes, hfind, Option.map_some,
        made_update hk (List.mem_of_find?_eq_some hfind) hp]
      simp [Row.accept, Row.decision, (pendingFor_iff.mp hp).1]
  | reject u x =>
    cases hfind : db.assignments.find? (·.pendingFor u) with
    | none => simp [perform, Task.takes, hfind]
    | some r =>
      have hp := List.find?_some hfind
      simp only [perform, Task.takes, hfind, Option.map_some,
        made_update hk (List.mem_of_find?_eq_some hfind) hp]
      simp [Row.reject, Row.decision, (pendingFor_iff.mp hp).1]
  | selectAccepted | selectGenesis | updateFreelancer | selectAnchor | clearFreelancer |
    selectStatus | appendWithOutbox | appendManually => exact hother rfl rfl

/-! ## The entries -/

/-- The ledger has the entry of the decision. -/
def Database.Entered (db : Database) (d : Decision) : Prop :=
  ∃ p : Posting, p.decision = some d ∧ ∃ e ∈ db.ledger, e.record = .posting p

theorem entered_of_recorded (h : Recorded contractId db d) : db.Entered d :=
  h.imp fun _ h => ⟨h.1, h.2.1⟩

theorem recorded_mono (hl : db.ledger ⊆ db'.ledger) (ho : db.outbox ⊆ db'.outbox)
    (h : Recorded contractId db d) : Recorded contractId db' d := by
  obtain ⟨p, hd, ⟨e, he, hr⟩, hm⟩ := h
  exact ⟨p, hd, ⟨e, hl he, hr⟩, ho hm⟩

theorem entered_append (hl : db'.ledger = db.ledger ++ [e]) (h : db'.Entered d) :
    db.Entered d ∨ ∃ p : Posting, p.decision = some d ∧ e.record = .posting p := by
  obtain ⟨p, hd, x, hx, hr⟩ := h
  rw [hl, List.mem_append, List.mem_singleton] at hx
  rcases hx with hx | rfl
  · exact .inl ⟨p, hd, x, hx, hr⟩
  · exact .inr ⟨p, hd, hr⟩

theorem recorded_perform (h : Recorded contractId db d) :
    Recorded contractId (perform sha256 contractId db τ).1 d := by
  cases hp : τ.posting with
  | none =>
    have hsame : (perform sha256 contractId db τ).1.ledger = _ ∧ _ := perform_ledger hp
    exact recorded_mono (by simp [hsame.1]) (by simp [hsame.2]) h
  | some p =>
    obtain heq | ⟨e, hpost⟩ := perform_posting sha256 contractId db hp
    · rwa [heq]
    · obtain ⟨-, -, -, -, ho, hl, -⟩ := post_spec hpost
      exact recorded_mono (by simp [hl]) (by simp [ho]) h

/-- Nothing in the payload of a decision is refused. -/
theorem canonicalize_decision (contractId : Text) (h : p.decision = some d) :
    ∃ text, canonicalize (p.payload contractId) = .ok text := by
  have hkeys : units "contractId" ≠ units "freelancerId" ∧
      units "contractId" ≠ units "assignmentId" ∧
      units "freelancerId" ≠ units "assignmentId" := by decide
  cases p with
  | assigned | locked => cases h
  | accepted f n hash =>
    have hnew : units "contractId" ≠ units "lockedLedgerHash" ∧
        units "freelancerId" ≠ units "lockedLedgerHash" ∧
        units "assignmentId" ≠ units "lockedLedgerHash" := by decide
    cases hash <;> refine ⟨_, canonicalize_value rfl ?_⟩ <;>
      simp [Json.Plain, Json.PlainMembers, hkeys, hnew]
  | rejected f n reason =>
    have hnew : units "contractId" ≠ units "reasonCode" ∧
        units "freelancerId" ≠ units "reasonCode" ∧
        units "assignmentId" ≠ units "reasonCode" := by decide
    obtain ⟨code, text⟩ := reason
    cases code <;> refine ⟨_, canonicalize_value rfl ?_⟩ <;>
      simp [Json.Plain, Json.PlainMembers, hkeys, hnew]

variable (sha256 contractId) in
theorem exists_post (hc : db.contract ≠ none) (h : p.decision = some d) :
    ∃ x, post sha256 contractId db p = some x := by
  obtain ⟨text, htext⟩ := canonicalize_decision contractId h
  obtain ⟨c, hc⟩ := Option.ne_none_iff_exists'.mp hc
  rw [post, append, hc, Record.payload, htext]
  exact ⟨_, rfl⟩

theorem recorded_post (h : post sha256 contractId db p = some (db', e))
    (hd : p.decision = some d) : Recorded contractId db' d := by
  obtain ⟨-, -, -, -, ho, hl, hr⟩ := post_spec h
  exact ⟨p, hd, ⟨e, by simp [hl], hr⟩, by simp [ho]⟩

theorem posting_decision (h : τ.posting = some p) : τ.decision = p.decision := by
  cases τ <;> cases h <;> rfl

/-- An append records the decision of its task. -/
theorem recorded_posting (hp : τ.posting = some p) (hd : τ.decision = some d)
    (hc : db.contract ≠ none) : Recorded contractId (perform sha256 contractId db τ).1 d := by
  rw [posting_decision hp] at hd
  obtain ⟨x, hx⟩ := exists_post sha256 contractId hc hd
  have hperform : (perform sha256 contractId db τ).1 = x.1 := by
    cases τ <;> cases hp <;> rw [perform, hx] <;> rfl
  rw [hperform]
  exact recorded_post hx hd

theorem entered_perform (h : (perform sha256 contractId db τ).1.Entered d) :
    db.Entered d ∨ τ.decision = some d := by
  cases hp : τ.posting with
  | none =>
    rw [Database.Entered, (perform_ledger hp).1] at h
    exact .inl h
  | some p =>
    obtain heq | ⟨e, hpost⟩ := perform_posting sha256 contractId db hp
    · rw [heq] at h
      exact .inl h
    · obtain ⟨-, -, -, -, -, hl, hr⟩ := post_spec hpost
      apply (entered_append hl h).imp_right
      rintro ⟨p', hd, hr'⟩
      cases hr.symm.trans hr'
      rw [posting_decision hp, hd]

/-! ## What a handler has in hand -/

theorem first_decision (h : τ.First) : τ.decision = none := by
  cases h <;> rfl

theorem anchor_decision {n : ℕ} {hash : Option Text} :
    (anchor userId n hash).decision = some (.accepted userId n) := by
  unfold anchor
  split <;> rfl

theorem raised_decision (h : raised τ = .task σ) : σ.decision = τ.decision := by
  cases τ <;> cases h <;> rfl

theorem takes_of_decision (h : τ.decision = some d) : τ.takes db = none := by
  cases τ <;> first | rfl | cases h

/-- After a statement a handler has in hand what it had, or has just decided. -/
theorem next_decision (h : (perform sha256 contractId db τ).2 = .task σ) :
    σ.decision = (τ.takes db).or τ.decision := by
  cases τ with
  | selectAccepted =>
    simp only [perform] at h
    split at h <;> cases h
    rfl
  | selectGenesis | updateAnchor | clearFreelancer => cases h; rfl
  | updateFreelancer =>
    simp only [perform] at h
    split at h <;> cases h
    rfl
  | insertAssignment =>
    simp only [perform, insertAssignment] at h
    split at h
    · cases h
    split at h <;> cases h
    rfl
  | accept u =>
    cases hfind : db.assignments.find? (·.pendingFor u) <;> simp only [perform, hfind] at h <;>
      cases h
    · simp [Task.takes, hfind, Task.decision]
    · simp [Task.takes, hfind, anchor_decision]
  | reject u x =>
    cases hfind : db.assignments.find? (·.pendingFor u) <;> simp only [perform, hfind] at h <;>
      cases h
    · simp [Task.takes, hfind, Task.decision]
    · simp [Task.takes, hfind, Task.decision]
  | selectAnchor =>
    cases h
    cases db.genesis <;> rfl
  | selectStatus => cases h
  | appendWithOutbox p | appendManually p =>
    obtain ⟨-, rfl⟩ := next_of_posting (p := p) rfl h
    rfl

/-- A decision that was just taken is new. -/
theorem not_made_of_takes (hk : db.Keyed) (h : τ.takes db = some d) : ¬ db.Made d := by
  obtain ⟨u, r, hfind, hd⟩ : ∃ u r, db.assignments.find? (·.pendingFor u) = some r ∧
      ∀ x : Row, x.decision = some d → x.assignmentId = r.assignmentId := by
    cases τ with
    | accept u =>
      obtain ⟨r, hfind, rfl⟩ := Option.map_eq_some_iff.mp h
      refine ⟨u, r, hfind, fun x hx => ?_⟩
      unfold Row.decision at hx
      cases hs : x.status <;> simp [hs] at hx
      exact hx.2
    | reject u y =>
      obtain ⟨r, hfind, rfl⟩ := Option.map_eq_some_iff.mp h
      refine ⟨u, r, hfind, fun x hx => ?_⟩
      unfold Row.decision at hx
      cases hs : x.status <;> simp [hs] at hx
      exact hx.2.1
    | _ => cases h
  rintro ⟨x, hx, hxd⟩
  have hp := List.find?_some hfind
  rw [List.inj_on_of_nodup_map hk.nodup hx (List.mem_of_find?_eq_some hfind) (hd x hxd),
    decision_eq_none.mpr (pendingFor_iff.mp hp).2] at hxd
  cases hxd

variable (sha256) in
/-- A handler with a decision in hand keeps it until it is recorded. -/
theorem keeps_or_records (hd : τ.decision = some d) (hc : db.contract ≠ none) :
    (∃ σ, (perform sha256 contractId db τ).2 = .task σ ∧ σ.decision = some d) ∨
      Recorded contractId (perform sha256 contractId db τ).1 d := by
  cases hp : τ.posting with
  | some p => exact .inr (recorded_posting hp hd hc)
  | none =>
    obtain ⟨σ, hσ⟩ : ∃ σ, (perform sha256 contractId db τ).2 = .task σ := by
      cases τ with
      | selectAnchor | updateAnchor | clearFreelancer => exact ⟨_, rfl⟩
      | _ => first | cases hd | cases hp
    refine .inl ⟨σ, hσ, ?_⟩
    rw [next_decision hσ, takes_of_decision hd, hd]
    rfl

variable (sha256 contractId) in
theorem exists_next_of_takes (h : τ.takes db = some d) :
    ∃ σ, (perform sha256 contractId db τ).2 = .task σ ∧ σ.decision = some d := by
  obtain ⟨σ, hσ⟩ : ∃ σ, (perform sha256 contractId db τ).2 = .task σ := by
    cases τ with
    | accept u =>
      obtain ⟨r, hfind, -⟩ := Option.map_eq_some_iff.mp h
      simp only [perform, hfind]
      exact ⟨_, rfl⟩
    | reject u x =>
      obtain ⟨r, hfind, -⟩ := Option.map_eq_some_iff.mp h
      simp only [perform, hfind]
      exact ⟨_, rfl⟩
    | _ => cases h
  refine ⟨σ, hσ, ?_⟩
  rw [next_decision hσ, h]
  rfl

/-! ## The invariant -/

/-- Every decision that is in hand or entered was made, and is in one hand at most. -/
structure Sound (contractId : Text) (s : State) : Prop where
  keyed : s.db.Keyed
  held : ∀ i d, s.Holds i d → s.db.Made d
  entered : ∀ d, s.db.Entered d → s.db.Made d
  recorded : ∀ d, s.db.Entered d → Recorded contractId s.db d
  exclusive : ∀ i j d, s.Holds i d → s.Holds j d → i = j

theorem holds_of_running (h : s.actors i = .running q τ again) :
    s.Holds i d ↔ τ.decision = some d := by
  rw [State.Holds, h]
  exact ⟨fun ⟨σ, hσ, hd⟩ => by cases hσ; exact hd, fun hd => ⟨τ, rfl, hd⟩⟩

theorem not_holds_of_task (h : (s.actors i).task = none) : ¬ s.Holds i d := by
  rintro ⟨τ, hτ, -⟩
  rw [h] at hτ
  cases hτ

theorem holds_of_ne (ha : ∀ j, j ≠ i → t.actors j = s.actors j) (hne : j ≠ i) :
    t.Holds j d ↔ s.Holds j d := by
  rw [State.Holds, State.Holds, ha j hne]

/-- What request `i` has in hand when its handler goes on. -/
theorem holds_goto (hi : t.actors i = q.goto again next) (h : t.Holds i d) :
    ∃ σ, next = .task σ ∧ σ.decision = some d := by
  obtain ⟨σ, hσ, hd⟩ := h
  rw [hi] at hσ
  rcases task_of_goto hσ with rfl | hfirst
  · exact ⟨σ, rfl, hd⟩
  · rw [first_decision hfirst] at hd
    cases hd

theorem holds_goto_task (hi : t.actors i = q.goto again (.task σ)) (hd : σ.decision = some d) :
    t.Holds i d :=
  ⟨σ, by rw [hi]; rfl, hd⟩

/-- A step of one request that leaves the database alone and takes nothing in hand. -/
theorem sound_setActor (hs : Sound contractId s)
    (hb : ∀ d, (s.setActor i b).Holds i d → s.Holds i d) : Sound contractId (s.setActor i b) := by
  have hold : ∀ j d, (s.setActor i b).Holds j d → s.Holds j d := by
    intro j d h
    by_cases hj : j = i
    · subst hj
      exact hb d h
    · exact (holds_of_ne (fun _ hne => Function.update_of_ne hne ..) hj).mp h
  exact ⟨hs.keyed, fun j d h => hs.held j d (hold j d h), hs.entered, hs.recorded,
    fun j k d hj hk => hs.exclusive j k d (hold j d hj) (hold k d hk)⟩

theorem not_holds_setActor (hb : b.task = none) : ¬ (s.setActor i b).Holds i d :=
  not_holds_of_task (by rw [setActor_actors, Function.update_self, hb])

theorem after_goto : (after sha256 contractId s i τ (q.goto again next)).actors i =
    q.goto again next := Function.update_self ..

/-- After a statement somebody has in hand what he had, or what it has just decided. -/
theorem holds_after (hi : s.actors i = .running q τ again)
    (h : (after sha256 contractId s i τ
      (q.goto again (goes sha256 contractId s.db τ o))).Holds j d) :
    s.Holds j d ∨ j = i ∧ τ.takes s.db = some d := by
  by_cases hj : j = i
  · subst hj
    obtain ⟨σ, hσ, hd⟩ := holds_goto after_goto h
    rw [holds_of_running hi]
    unfold goes at hσ
    split at hσ
    · rw [next_decision hσ, Option.or_eq_some_iff] at hd
      exact hd.symm.imp And.right fun h => ⟨rfl, h⟩
    · rw [raised_decision hσ] at hd
      exact .inl hd
  · exact .inl ((holds_of_ne (fun _ => after_actors) hj).mp h)

theorem sound_take (hs : Sound contractId s) (hi : s.actors i = .running q τ again) :
    Sound contractId (after sha256 contractId s i τ
      (q.goto again (goes sha256 contractId s.db τ o))) := by
  have hmade : ∀ d, s.db.Made d → (perform sha256 contractId s.db τ).1.Made d := fun d h =>
    (made_perform hs.keyed).mpr (.inl h)
  have hfresh : ∀ j d, s.Holds j d → τ.takes s.db ≠ some d := fun j d h ht =>
    not_made_of_takes hs.keyed ht (hs.held j d h)
  refine ⟨keyed_perform hs.keyed, ?_, ?_, ?_, ?_⟩
  · intro j d h
    rcases holds_after hi h with h | ⟨-, ht⟩
    · exact hmade d (hs.held j d h)
    · exact (made_perform hs.keyed).mpr (.inr ht)
  · intro d h
    rcases entered_perform h with h | hd
    · exact hmade d (hs.entered d h)
    · exact hmade d (hs.held i d ((holds_of_running hi).mpr hd))
  · intro d h
    rcases entered_perform h with h | hd
    · exact recorded_perform (hs.recorded d h)
    · cases hp : τ.posting with
      | none =>
        have hsame : s.db.Entered d := by
          rwa [setActor_db, Database.Entered, (perform_ledger hp).1] at h
        exact recorded_perform (hs.recorded d hsame)
      | some p =>
        obtain ⟨r, hr, -⟩ := hs.held i d ((holds_of_running hi).mpr hd)
        exact recorded_posting hp hd (hs.keyed.contract (List.ne_nil_of_mem hr))
  · intro j k d hj hk
    rcases holds_after hi hj with hj' | ⟨hji, hj'⟩ <;>
      rcases holds_after hi hk with hk' | ⟨hki, hk'⟩
    · exact hs.exclusive j k d hj' hk'
    · exact absurd hk' (hfresh j d hj')
    · exact absurd hj' (hfresh k d hk')
    · rw [hji, hki]

theorem keyed_initializeContract {clientId : Text} (hk : db.Keyed) :
    ({ db with contract := db.contract.or (some { clientId }) } : Database).Keyed :=
  keyed_congr hk rfl le_rfl fun _ => by cases db.contract <;> simp

theorem entered_other {kind : Kind} {payload : Data}
    (h : append sha256 contractId db (.other kind payload) = some (db', e)) (hd : db'.Entered d) :
    db.Entered d := by
  obtain ⟨-, -, -, -, -, hl, hr⟩ := append_spec h
  apply (entered_append hl hd).resolve_right
  rintro ⟨p, -, hp⟩
  cases hr.symm.trans hp

theorem recorded_other (h : append sha256 contractId db record = some (db', e))
    (hd : Recorded contractId db d) : Recorded contractId db' d := by
  obtain ⟨-, -, -, -, ho, hl, -⟩ := append_spec h
  exact recorded_mono (by simp [hl]) (by simp [ho]) hd

/-- A change beside the requests that loses no row and adds no entry of a decision. -/
structure Beside (contractId : Text) (db db' : Database) : Prop where
  keyed : db.Keyed → db'.Keyed
  made : ∀ d, db'.Made d ↔ db.Made d
  entered : ∀ d, db'.Entered d → db.Entered d
  recorded : ∀ d, Recorded contractId db d → Recorded contractId db' d

theorem sound_beside (hs : Sound contractId s) (hb : Beside contractId s.db t.db)
    (ha : t.actors = s.actors) : Sound contractId t where
  keyed := hb.keyed hs.keyed
  held i d h := (hb.made d).mpr (hs.held i d (by rwa [State.Holds, ha] at h))
  entered d h := (hb.made d).mpr (hs.entered d (hb.entered d h))
  recorded d h := hb.recorded d (hs.recorded d (hb.entered d h))
  exclusive i j d hi hj := by
    rw [State.Holds, ha] at hi hj
    exact hs.exclusive i j d hi hj

/-- A step changes the database beside the requests, moves one request, or is a statement. -/
theorem step_effect (h : step sha256 contractId s a = some t) :
    Beside contractId s.db t.db ∧ t.actors = s.actors ∨
      (∃ i b, t = s.setActor i b ∧ ∀ d, (s.setActor i b).Holds i d → s.Holds i d) ∨
      ∃ i q τ again o, s.actors i = .running q τ again ∧
        t = after sha256 contractId s i τ (q.goto again (goes sha256 contractId s.db τ o)) := by
  have hmove : ∀ {i b}, b.task = none → ∃ i' b', s.setActor i b = s.setActor i' b' ∧
      ∀ d, (s.setActor i' b').Holds i' d → s.Holds i' d := fun {i b} hb =>
    ⟨i, b, rfl, fun _ h => absurd h (not_holds_setActor hb)⟩
  cases step_cases h with
  | register | drawLedger =>
    exact .inl ⟨⟨fun hk => keyed_congr hk rfl le_rfl id, fun _ => Iff.rfl, fun _ => id,
      fun _ => id⟩, rfl⟩
  | drawAssignment =>
    exact .inl ⟨⟨fun hk => keyed_congr hk rfl (Nat.le_succ _) id, fun _ => Iff.rfl, fun _ => id,
      fun _ => id⟩, rfl⟩
  | initializeContract =>
    exact .inl ⟨⟨keyed_initializeContract, fun _ => Iff.rfl, fun _ => id, fun _ => id⟩, rfl⟩
  | record happend =>
    obtain ⟨hc, ha, -, hn, -⟩ := append_spec happend
    exact .inl ⟨⟨fun hk => keyed_congr hk ha hn.ge fun h => by rwa [hc], fun _ => made_congr ha,
      fun _ => entered_other happend, fun _ => recorded_other happend⟩, rfl⟩
  | request => exact .inr (.inl (hmove enter_task))
  | replay | crash => exact .inr (.inl (hmove rfl))
  | guard =>
    refine .inr (.inl (hmove ?_))
    split
    · exact pass_task
    · rfl
  | run =>
    refine .inr (.inl ⟨_, _, rfl, fun d h => ?_⟩)
    obtain ⟨σ, hσ, hd⟩ := holds_goto (Function.update_self ..) h
    rw [first_decision (first_of_start hσ)] at hd
    cases hd
  | fail hi =>
    refine .inr (.inl ⟨_, _, rfl, fun d h => ?_⟩)
    obtain ⟨σ, hσ, hd⟩ := holds_goto (Function.update_self ..) h
    rwa [holds_of_running hi, ← raised_decision hσ]
  | take hi => exact .inr (.inr ⟨_, _, _, _, _, hi, rfl⟩)

theorem sound_step (hs : Sound contractId s) (h : step sha256 contractId s a = some t) :
    Sound contractId t := by
  rcases step_effect h with ⟨hb, ha⟩ | ⟨i, b, rfl, hb⟩ | ⟨i, q, τ, again, o, hi, rfl⟩
  · exact sound_beside hs hb ha
  · exact sound_setActor hs hb
  · exact sound_take hs hi

theorem sound_initial (h : Initial s) : Sound contractId s := by
  obtain ⟨-, ha, hl, -, hi⟩ := h
  have hholds : ∀ i d, ¬ s.Holds i d := fun i d => not_holds_of_task (by rw [hi i]; rfl)
  have hentered : ∀ d, ¬ s.db.Entered d := by
    rintro d ⟨p, -, e, he, -⟩
    rw [hl] at he
    cases he
  refine ⟨⟨?_, ?_, ?_, fun h => absurd ha h⟩, fun i d h => absurd h (hholds i d),
    fun d h => absurd h (hentered d), fun d h => absurd h (hentered d),
    fun i _ d h => absurd h (hholds i d)⟩
  all_goals simp [ha]

/-! ## Which steps let go of a decision -/

/-- Every decision is recorded, or on its way. -/
def Complete (contractId : Text) (s : State) : Prop :=
  ∀ d, s.db.Made d → Recorded contractId s.db d ∨ ∃ i, s.Holds i d

/-- A step in which nobody lets go of a decision, except to record it. -/
theorem complete_of_kept (hc : Complete contractId s)
    (hm : ∀ d, t.db.Made d → s.db.Made d ∨ ∃ j, t.Holds j d)
    (hr : ∀ d, Recorded contractId s.db d → Recorded contractId t.db d)
    (hk : ∀ j d, s.Holds j d → t.Holds j d ∨ Recorded contractId t.db d) :
    Complete contractId t := by
  intro d hd
  rcases hm d hd with hd | hheld
  · rcases hc d hd with hrec | ⟨j, hj⟩
    · exact .inl (hr d hrec)
    · exact (hk j d hj).symm.imp_right fun h => ⟨j, h⟩
  · exact .inr hheld

/-- A step in which a request ends its handler. -/
theorem complete_leave (hs : Sound contractId s) (hc : Complete contractId s)
    (hm : ∀ d, t.db.Made d ↔ s.db.Made d)
    (hr : ∀ d, Recorded contractId t.db d ↔ Recorded contractId s.db d)
    (ha : ∀ j, j ≠ i → t.actors j = s.actors j) (hi : ∀ d, ¬ t.Holds i d) :
    (∀ d, s.Holds i d → Recorded contractId s.db d) ↔ Complete contractId t := by
  constructor
  · intro hrec
    refine complete_of_kept hc (fun d h => .inl ((hm d).mp h)) (fun d => (hr d).mpr)
      fun j d hj => ?_
    by_cases hji : j = i
    · subst hji
      exact .inr ((hr d).mpr (hrec d hj))
    · exact .inl ((holds_of_ne ha hji).mpr hj)
  · intro ht d hd
    rcases ht d ((hm d).mpr (hs.held i d hd)) with hrec | ⟨j, hj⟩
    · exact (hr d).mp hrec
    · -- The decision would be in two hands.
      have hji : j ≠ i := by
        rintro rfl
        exact hi d hj
      exact absurd (hs.exclusive j i d ((holds_of_ne ha hji).mp hj) hd) hji

/-- A step of a request that has nothing in hand. -/
theorem complete_setActor (hc : Complete contractId s) (hi : (s.actors i).task = none) :
    Complete contractId (s.setActor i b) := by
  refine complete_of_kept hc (fun _ => .inl) (fun _ => id) fun j d hj => ?_
  by_cases hji : j = i
  · subst hji
    exact absurd hj (not_holds_of_task hi)
  · exact .inl ((holds_of_ne (fun _ hne => Function.update_of_ne hne ..) hji).mpr hj)

theorem complete_beside (hc : Complete contractId s) (hm : ∀ d, t.db.Made d → s.db.Made d)
    (hr : ∀ d, Recorded contractId s.db d → Recorded contractId t.db d)
    (ha : t.actors = s.actors) : Complete contractId t :=
  complete_of_kept hc (fun d h => .inl (hm d h)) hr fun j d hj =>
    .inl (by rwa [State.Holds, ha])

/-- A statement that succeeds. -/
theorem complete_ok (hs : Sound contractId s) (hc : Complete contractId s)
    (hi : s.actors i = .running q τ again) : Complete contractId (after sha256 contractId s i τ
      (q.goto again (perform sha256 contractId s.db τ).2)) := by
  refine complete_of_kept hc ?_ (fun _ => recorded_perform) fun j d hj => ?_
  · intro d hd
    apply ((made_perform hs.keyed).mp hd).imp_right
    intro ht
    obtain ⟨σ, hσ, hdσ⟩ := exists_next_of_takes sha256 contractId ht
    rw [hσ]
    exact ⟨i, holds_goto_task after_goto hdσ⟩
  · by_cases hji : j = i
    · subst hji
      obtain ⟨r, hr, -⟩ := hs.held j d hj
      rcases keeps_or_records sha256
        ((holds_of_running hi).mp hj) (hs.keyed.contract (List.ne_nil_of_mem hr)) with
        ⟨σ, hσ, hdσ⟩ | hrec
      · rw [hσ]
        exact .inl (holds_goto_task after_goto hdσ)
      · exact .inr hrec
    · exact .inl ((holds_of_ne (fun _ => after_actors) hji).mpr hj)

/-- A statement that throws, and whose handler goes on with its decision or has recorded it. -/
theorem complete_raised (db' : Database) (hc : Complete contractId s)
    (hi : s.actors i = .running q τ again)
    (hm : ∀ d, db'.Made d → s.db.Made d)
    (hr : ∀ d, Recorded contractId s.db d → Recorded contractId db' d)
    (hk : ∀ d, τ.decision = some d → (∃ σ, raised τ = .task σ) ∨ Recorded contractId db' d) :
    Complete contractId (State.setActor { s with db := db' } i (q.goto again (raised τ))) := by
  apply complete_of_kept hc (fun d h => .inl (hm d h)) hr
  intro j d hj
  by_cases hji : j = i
  · subst hji
    have hd := (holds_of_running hi).mp hj
    apply (hk d hd).imp_left
    rintro ⟨σ, hσ⟩
    rw [hσ]
    exact holds_goto_task (Function.update_self ..) (by rw [raised_decision hσ, hd])
  · exact .inl ((holds_of_ne (fun _ hne => Function.update_of_ne hne ..) hji).mpr hj)

/-- A statement that throws and ends the handler. -/
theorem complete_thrown (db' : Database) (hs : Sound contractId s)
    (hc : Complete contractId s) (hi : s.actors i = .running q τ again)
    (hm : ∀ d, db'.Made d ↔ s.db.Made d)
    (hr : ∀ d, Recorded contractId db' d ↔ Recorded contractId s.db d)
    (hthrow : ∀ σ, raised τ ≠ .task σ) :
    (∀ d, τ.decision = some d → Recorded contractId s.db d) ↔
      Complete contractId (State.setActor { s with db := db' } i (q.goto again (raised τ))) := by
  rw [← complete_leave hs hc hm hr (fun _ hne => Function.update_of_ne hne ..) fun d h => ?_]
  · exact forall_congr' fun d => imp_congr_left (holds_of_running hi).symm
  · obtain ⟨σ, hσ, -⟩ := holds_goto (Function.update_self ..) h
    exact hthrow σ hσ

theorem not_made_perform (hk : db.Keyed) (h : τ.takes db = none) :
    (perform sha256 contractId db τ).1.Made d ↔ db.Made d := by
  rw [made_perform hk, h]
  simp

/-- An `UPDATE` that decides and throws: what it decided is in nobody's hand. -/
theorem complete_lost_decision (hs : Sound contractId s) (hc : Complete contractId s)
    (hi : s.actors i = .running q τ again) (hd : τ.decision = none) (hp : τ.posting = none)
    (hraised : ∀ σ, raised τ ≠ .task σ) : τ.takes s.db = none ↔
      Complete contractId (after sha256 contractId s i τ (q.goto again (raised τ))) := by
  cases ht : τ.takes s.db with
  | none =>
    refine iff_of_true rfl (complete_raised _ hc hi (fun _ => (not_made_perform hs.keyed ht).mp)
      (fun _ => recorded_perform) fun d h => ?_)
    rw [hd] at h
    cases h
  | some d =>
    apply iff_of_false (by simp)
    intro hcomplete
    rcases hcomplete d ((made_perform hs.keyed).mpr (.inr ht)) with hrec | ⟨j, hj⟩
    · apply not_made_of_takes hs.keyed ht
      have hentered := entered_of_recorded hrec
      rw [setActor_db, Database.Entered, (perform_ledger hp).1] at hentered
      exact hs.entered d hentered
    · by_cases hji : j = i
      · subst hji
        obtain ⟨σ, hσ, -⟩ := holds_goto after_goto hj
        exact hraised σ hσ
      · exact not_made_of_takes hs.keyed ht
          (hs.held j d ((holds_of_ne (fun _ => after_actors) hji).mp hj))

theorem takes_decide_eq_none {f : Row → Decision} :
    (db.assignments.find? (·.pendingFor userId)).map f = none ↔
      ∀ r ∈ db.assignments, r.pendingFor userId = false := by
  rw [Option.map_eq_none_iff, List.find?_eq_none]
  exact forall₂_congr fun _ _ => by rw [Bool.not_eq_true]

theorem complete_lost (hs : Sound contractId s) (hc : Complete contractId s)
    (hi : s.actors i = .running q τ again) : τ.Keeps contractId s.db .lost ↔
      Complete contractId (after sha256 contractId s i τ (q.goto again (raised τ))) := by
  have hsame : τ.takes s.db = none → (∀ d, τ.decision = some d → (∃ σ, raised τ = .task σ) ∨
      Recorded contractId (perform sha256 contractId s.db τ).1 d) →
      Complete contractId (after sha256 contractId s i τ (q.goto again (raised τ))) := fun ht =>
    complete_raised _ hc hi (fun _ => (not_made_perform hs.keyed ht).mp) fun _ => recorded_perform
  cases τ with
  | accept u =>
    rw [← complete_lost_decision hs hc hi rfl rfl fun _ h => by cases h]
    exact (forall_prop_of_true rfl).trans takes_decide_eq_none.symm
  | reject u x =>
    rw [← complete_lost_decision hs hc hi rfl rfl fun _ h => by cases h]
    exact (forall_prop_of_true rfl).trans takes_decide_eq_none.symm
  | clearFreelancer =>
    refine Iff.trans ?_ (complete_thrown (s.db.setFreelancer none) hs hc hi
      (fun _ => Iff.rfl) (fun _ => Iff.rfl) fun _ h => by cases h)
    simp [Task.Keeps, Task.decision]
  | appendManually p =>
    refine iff_of_true (fun h => by cases h) (hsame rfl fun d hd => .inr ?_)
    obtain ⟨r, hr, -⟩ := hs.held i d ((holds_of_running hi).mpr hd)
    exact recorded_posting rfl hd (hs.keyed.contract (List.ne_nil_of_mem hr))
  | selectAnchor | updateAnchor | appendWithOutbox =>
    exact iff_of_true trivial (hsame rfl fun _ _ => .inl ⟨_, rfl⟩)
  | selectAccepted | selectGenesis | updateFreelancer | insertAssignment | selectStatus =>
    exact iff_of_true trivial (hsame rfl fun _ h => by cases h)

theorem complete_failed (hs : Sound contractId s) (hc : Complete contractId s)
    (hi : s.actors i = .running q τ again) : τ.Keeps contractId s.db .failed ↔
      Complete contractId (s.setActor i (q.goto again (raised τ))) := by
  have hthrown := fun h => complete_thrown s.db hs hc hi (fun _ => Iff.rfl)
    (fun _ => Iff.rfl) h
  cases τ with
  | clearFreelancer =>
    refine Iff.trans ?_ (hthrown fun _ h => by cases h)
    simp [Task.Keeps, Task.decision]
  | appendManually p =>
    refine Iff.trans ?_ (hthrown fun _ h => by cases h)
    simp [Task.Keeps, Task.decision]
  | selectAnchor | updateAnchor | appendWithOutbox =>
    exact iff_of_true trivial (complete_raised s.db hc hi (fun _ => id) (fun _ => id)
      fun _ _ => .inl ⟨_, rfl⟩)
  | accept | reject =>
    exact iff_of_true (fun h => by cases h) ((hthrown fun _ h => by cases h).mp
      fun _ h => by cases h)
  | selectAccepted | selectGenesis | updateFreelancer | insertAssignment | selectStatus =>
    exact iff_of_true trivial ((hthrown fun _ h => by cases h).mp fun _ h => by cases h)

/-- A step keeps hold of decisions exactly when every decision stays recorded or on its way. -/
theorem complete_iff (hs : Sound contractId s) (hc : Complete contractId s)
    (h : step sha256 contractId s a = some t) : Keeps contractId s a ↔ Complete contractId t := by
  cases step_cases h with
  | register | drawAssignment | drawLedger | initializeContract =>
    exact iff_of_true trivial (complete_beside hc (fun _ => id) (fun _ => id) rfl)
  | record happend =>
    exact iff_of_true trivial (complete_beside hc
      (fun _ => (made_congr (append_spec happend).2.1).mp) (fun _ => recorded_other happend) rfl)
  | request hi | run hi | replay hi =>
    exact iff_of_true trivial (complete_setActor hc (by rw [hi]; rfl))
  | guard hi =>
    exact iff_of_true (fun τ hτ => by rw [hi] at hτ; cases hτ)
      (complete_setActor hc (by rw [hi]; rfl))
  | @take i q τ again o hi ho =>
    have htask : (s.actors i).task = some τ := by rw [hi]; rfl
    have hkeeps : Keeps contractId s (.advance i o) ↔ τ.Keeps contractId s.db o :=
      ⟨fun h => h τ htask, fun h σ hσ => by rw [htask] at hσ; cases hσ; exact h⟩
    rw [hkeeps]
    cases o with
    | ok =>
      refine iff_of_true ?_ (complete_ok hs hc hi)
      cases τ with
      | accept | reject | appendManually => exact fun h => by cases h
      | clearFreelancer => exact fun h => absurd rfl h
      | _ => trivial
    | failed => exact absurd rfl ho
    | lost => exact complete_lost hs hc hi
  | @fail i q τ again hi =>
    rw [← complete_failed hs hc hi]
    have htask : (s.actors i).task = some τ := by rw [hi]; rfl
    exact ⟨fun h => h τ htask, fun h σ hσ => by rw [htask] at hσ; cases hσ; exact h⟩
  | crash =>
    exact complete_leave hs hc (fun _ => Iff.rfl) (fun _ => Iff.rfl)
      (fun _ hne => Function.update_of_ne hne ..) fun _ h => absurd h (not_holds_setActor rfl)

/-! ## A decision in nobody's hand -/

/-- A decision that has no entry, and that no request is going to append. -/
structure Orphan (s : State) (d : Decision) : Prop where
  made : s.db.Made d
  not_entered : ¬ s.db.Entered d
  not_held : ∀ i, ¬ s.Holds i d

/-- No step brings it back: the guard of the `UPDATE` lets no request near its row. -/
theorem orphan_step (hs : Sound contractId s) (ho : Orphan s d)
    (h : step sha256 contractId s a = some t) : Orphan t d := by
  rcases step_effect h with ⟨hb, ha⟩ | ⟨i, b, rfl, hb⟩ | ⟨i, q, τ, again, o, hi, rfl⟩
  · refine ⟨(hb.made d).mpr ho.made, fun he => ho.not_entered (hb.entered d he), fun j hj => ?_⟩
    rw [State.Holds, ha] at hj
    exact ho.not_held j hj
  · refine ⟨ho.made, ho.not_entered, fun j hj => ?_⟩
    by_cases hji : j = i
    · subst hji
      exact ho.not_held j (hb d hj)
    · exact ho.not_held j ((holds_of_ne (fun _ hne => Function.update_of_ne hne ..) hji).mp hj)
  · refine ⟨(made_perform hs.keyed).mpr (.inl ho.made), fun he => ?_, fun j hj => ?_⟩
    · rcases entered_perform he with he | hd
      · exact ho.not_entered he
      · exact ho.not_held i ((holds_of_running hi).mpr hd)
    · rcases holds_after hi hj with hj | ⟨-, ht⟩
      · exact ho.not_held j hj
      · exact not_made_of_takes hs.keyed ht ho.made

theorem orphan_run {K : State → Action → Prop} (hs : Sound contractId s) (ho : Orphan s d)
    (h : (system sha256 contractId).Run K s as t) : Orphan t d :=
  (h.invariant (I := fun s => Sound contractId s ∧ Orphan s d)
    (fun _ _ _ hs _ hst => ⟨sound_step hs.1 hst, orphan_step hs.1 hs.2 hst⟩) ⟨hs, ho⟩).2

theorem not_recorded_of_orphan (ho : Orphan s d) : ¬ Recorded contractId s.db d := fun h =>
  ho.not_entered (entered_of_recorded h)

theorem not_recoverable_of_orphan (hs : Sound contractId s) (ho : Orphan s d) :
    ¬ Recoverable sha256 contractId s d := by
  rintro ⟨i, q, as, t, -, -, hrun, hrec⟩
  exact not_recorded_of_orphan (orphan_run hs ho hrun) hrec

theorem orphan_of_not_complete (hs : Sound contractId s) (hc : ¬ Complete contractId s) :
    ∃ d, Orphan s d := by
  simp only [Complete, not_forall, not_or, not_exists] at hc
  obtain ⟨d, hd, hrec, hheld⟩ := hc
  exact ⟨d, hd, fun he => hrec (hs.recorded d he), hheld⟩

theorem not_holds_of_quiescent (hq : Quiescent s) : ¬ s.Holds i d := by
  apply not_holds_of_task
  have hbusy := hq i
  cases hi : s.actors i with
  | running => rw [hi] at hbusy; cases hbusy
  | idle | guarded | admitted | answered | died => rfl

/-! ## Runs -/

theorem sound_run {K : State → Action → Prop} (h0 : Initial s)
    (h : (system sha256 contractId).Run K s as t) : Sound contractId t :=
  h.invariant (fun _ _ _ hs _ hst => sound_step hs hst) (sound_initial h0)

theorem complete_initial (h : Initial s) : Complete contractId s := by
  rintro d ⟨r, hr, -⟩
  rw [h.2.1] at hr
  cases hr

/-- Decisions are recorded or can be exactly when no step has let go of one. -/
theorem decisions_kept_iff (sha256 : Text → Text) (contractId : Text) (h0 : Initial s)
    (h : (system sha256 contractId).Run Any s as t) (hq : Quiescent t) :
    (∀ r ∈ t.db.assignments, ∀ d, r.decision = some d →
      Recorded contractId t.db d ∨ Recoverable sha256 contractId t d) ↔
      (system sha256 contractId).Run (Keeps contractId) s as t := by
  have hiff : (∀ r ∈ (system sha256 contractId).visited s as, Complete contractId r) ↔
      (system sha256 contractId).Run (Keeps contractId) s as t :=
    h.forall_visited_iff (fun _ _ _ hs hst => sound_step hs hst)
      (fun _ _ _ hs hc hst => complete_iff hs hc hst) (sound_initial h0) (complete_initial h0)
  rw [← hiff]
  constructor
  · intro hall r hr
    by_contra hc
    obtain ⟨pre, post, hpre, hpost⟩ := h.exists_of_mem_visited hr
    obtain ⟨d, horphan⟩ := orphan_of_not_complete (sound_run h0 hpre) hc
    have ht := orphan_run (sound_run h0 hpre) horphan hpost
    obtain ⟨row, hrow, hd⟩ := ht.made
    rcases hall row hrow d hd with hrec | hrec
    · exact not_recorded_of_orphan ht hrec
    · exact not_recoverable_of_orphan (sound_run h0 h) ht hrec
  · intro hall r hr d hd
    refine .inl ((hall t h.mem_visited d ⟨r, hr, hd⟩).resolve_right ?_)
    rintro ⟨i, hi⟩
    exact not_holds_of_quiescent hq hi

theorem decisions_kept_iff_second :
    ∃ t, (system id (units "AC-1")).exec opening secondChoice = some t ∧
      ((∀ r ∈ t.db.assignments, ∀ d, r.decision = some d →
        Recorded (units "AC-1") t.db d ∨ Recoverable id (units "AC-1") t d) ↔
        (system id (units "AC-1")).Run (Keeps (units "AC-1")) opening secondChoice t) := by
  have h : ((system id (units "AC-1")).exec opening secondChoice).any fun t =>
      (List.range 4).all fun i => !(t.actors i).busy := by decide +kernel
  obtain ⟨t, ht, hb⟩ := (Option.any_eq_true _ _).mp h
  have hrun := run_of_exec ht
  exact ⟨t, ht, decisions_kept_iff id _ initial_opening hrun
    (quiescent_of_run 4 initial_opening hrun (by decide +kernel) hb)⟩

/-! ## A process that dies between the two -/

/-- The process dies after the row was accepted. -/
def crashedAccept : List Action :=
  .initializeContract (units "c") :: serve 0 (.assign (some (units "f"))) client 5 ++
    serve 1 .accept (freelancer (units "f")) 1 ++ [.crash 1]

/-- The row is accepted, and no repeated accept appends its entry. -/
theorem decision_lost : ¬ ∀ (sha256 : Text → Text) contractId s as t, Initial s →
    (system sha256 contractId).Run Any s as t → Quiescent t →
      ∀ r ∈ t.db.assignments, ∀ d, r.decision = some d →
        Recorded contractId t.db d ∨ Recoverable sha256 contractId t d := by
  intro hall
  have h : ((system id (units "AC-1")).exec opening crashedAccept).any fun t =>
      ((List.range 2).all fun i => !(t.actors i).busy) ∧
        (t.db.assignments.any fun r => r.decision = some (.accepted (units "f") 1)) ∧
        t.db.ledger.all fun e => e.record.actionType ≠ units "ASSIGNMENT_ACCEPTED" := by
    decide +kernel
  obtain ⟨t, ht, h⟩ := (Option.any_eq_true _ _).mp h
  obtain ⟨hb, hrow, hledger⟩ := of_decide_eq_true h
  obtain ⟨r, hr, hd⟩ := List.any_eq_true.mp hrow
  have hrun := run_of_exec ht
  have hq := quiescent_of_run 2 initial_opening hrun (by decide +kernel) hb
  have horphan : Orphan t (.accepted (units "f") 1) := by
    refine ⟨⟨r, hr, of_decide_eq_true hd⟩, ?_, fun _ => not_holds_of_quiescent hq⟩
    rintro ⟨p, hp, e, he, hrecord⟩
    have hne := List.all_eq_true.mp hledger e he
    rw [hrecord] at hne
    cases p with
    | accepted => exact of_decide_eq_true hne rfl
    | _ => cases hp
  rcases hall id _ _ _ t initial_opening hrun hq r hr _ (of_decide_eq_true hd) with hrec | hrec
  · exact not_recorded_of_orphan horphan hrec
  · exact not_recoverable_of_orphan (sound_run initial_opening hrun) horphan hrec

end AssureCode.Assignment
