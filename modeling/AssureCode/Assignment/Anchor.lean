import AssureCode.Assignment.Consistency

/-! # What an acceptance is anchored to

Whoever takes an anchor takes the first entry of the ledger, at the assign or at the accept, and
that entry stays the first one. Whether it is the entry of the locked contract depends on which
operation has appended first.
-/

namespace AssureCode.Assignment

open Js Ledger Machine
open Settlement (Outcome)

section Locks

variable (sha256 : Text → Text) (contractId : Text)

/-- The hash of the entry is that of its own payload, after the hash before it. -/
def Entry.Hashed (e : Entry) : Prop :=
  ∃ text, canonicalize (e.record.payload contractId) = .ok text ∧
    e.currentHash = chainHash sha256 text e.previousHash

/-- A `CONTRACT_LOCKED` entry, which commits to the terms. -/
def Entry.Locks (e : Entry) : Prop :=
  (∃ terms, e.record = .posting (.locked terms)) ∧ e.Hashed sha256 contractId

/-- An accepted row with an anchor names an entry of the contract that commits to the terms. -/
def Database.Anchored (db : Database) : Prop :=
  ∀ r ∈ db.assignments, r.status = .accepted → ∀ hash, r.lockedLedgerHash = some hash →
    ∃ e ∈ db.ledger, r.lockedLedgerId = some e.ledgerId ∧ e.currentHash = hash ∧
      e.Locks sha256 contractId

/-- The first entry of the contract is the one that locks it. -/
def Database.LockedFirst (db : Database) : Prop :=
  ∃ e, db.ledger.head? = some e ∧ e.Locks sha256 contractId

/-- The statement accepts a row that has an anchor, or gives an accepted row its anchor. -/
def Task.Anchors (db : Database) : Task → Prop
  | .accept userId => ∃ r ∈ db.assignments, r.pendingFor userId ∧ r.lockedLedgerHash ≠ none
  | .updateAnchor _ assignmentId _ _ =>
    ∃ r ∈ db.assignments, r.assignmentId = assignmentId ∧ r.status = .accepted
  | _ => False

/--
When a row with an anchor is accepted, or an accepted row gets its anchor, the first entry of the
contract is the one that locks it.
-/
def AnchorsToTerms (s : State) : Action → Prop
  | .advance i o => o ≠ .failed → ∀ τ, (s.actors i).task = some τ → τ.Anchors s.db →
    s.db.LockedFirst sha256 contractId
  | _ => True

end Locks

/-- The genesis row that a handler has in hand. -/
def Task.genesis : Task → Option Genesis
  | .updateFreelancer _ h0 | .insertAssignment _ h0 => h0
  | .updateAnchor _ _ _ h0 => some h0
  | _ => none

/-- An anchor of the row is the first entry of the ledger. -/
def Row.NamesGenesis (db : Database) (r : Row) : Prop :=
  r.lockedLedgerHash ≠ none → ∃ h0, db.genesis = some h0 ∧ r.lockedLedgerId = some h0.1 ∧
    r.lockedLedgerHash = some h0.2

structure Database.Rooted (sha256 : Text → Text) (contractId : Text) (db : Database) : Prop where
  nodup : (db.ledger.map (·.ledgerId)).Nodup
  lt : ∀ e ∈ db.ledger, e.ledgerId < db.nextLedgerId
  hashed : ∀ e ∈ db.ledger, e.Hashed sha256 contractId
  rows : ∀ r ∈ db.assignments, r.NamesGenesis db

/-- Every anchor, stored or in hand, is the first entry of the ledger. -/
structure Rooted (sha256 : Text → Text) (contractId : Text) (s : State) : Prop where
  db : s.db.Rooted sha256 contractId
  inHand : ∀ i τ h0, (s.actors i).task = some τ → τ.genesis = some h0 → s.db.genesis = some h0

/-- Some acceptance has an anchor. -/
def Database.HasAnchor (db : Database) : Prop :=
  ∃ r ∈ db.assignments, r.status = .accepted ∧ r.lockedLedgerHash ≠ none

variable {sha256 : Text → Text} {contractId : Text} {s t : State} {a : Action} {as : List Action}
  {i j : ℕ} {b : Actor} {q : Request} {τ σ : Task} {again : Bool} {o : Outcome} {db db' : Database}
  {next : Next} {userId freelancerId : Text} {r : Row} {h : Genesis} {h0 : Option Genesis}
  {p : Posting} {e : Entry} {record : Record} {reason : RejectAssignment}

/-! ## The ledger -/

theorem append_entry (happend : append sha256 contractId db record = some (db', e)) :
    e.ledgerId = db.nextLedgerId ∧ db'.nextLedgerId = db.nextLedgerId + 1 ∧
      e.Hashed sha256 contractId := by
  unfold append at happend
  split at happend
  · next htext => cases happend; exact ⟨rfl, rfl, _, htext, rfl⟩
  · cases happend

theorem post_entry (hpost : post sha256 contractId db p = some (db', e)) :
    e.ledgerId = db.nextLedgerId ∧ db'.nextLedgerId = db.nextLedgerId + 1 ∧
      e.Hashed sha256 contractId := by
  obtain ⟨⟨db₁, e₁⟩, happend, heq⟩ := Option.map_eq_some_iff.mp hpost
  cases heq
  obtain ⟨hid, hn, hhash⟩ := append_entry happend
  exact ⟨hid, hn, hhash⟩

/-- The first entry stays the first one. -/
theorem genesis_append (hl : db'.ledger = db.ledger ++ [e]) (hg : db.genesis = some h) :
    db'.genesis = some h := by
  rw [Database.genesis, hl, List.head?_append]
  obtain ⟨e₀, he₀, rfl⟩ := Option.map_eq_some_iff.mp hg
  rw [he₀]
  rfl

theorem namesGenesis_mono (hg : ∀ h, db.genesis = some h → db'.genesis = some h)
    (hr : r.NamesGenesis db) : r.NamesGenesis db' := fun hne => by
  obtain ⟨h0, hgen, hid, hhash⟩ := hr hne
  exact ⟨h0, hg h0 hgen, hid, hhash⟩

theorem rooted_ledger (hr : db.Rooted sha256 contractId) (hl : db'.ledger = db.ledger ++ [e])
    (hid : e.ledgerId = db.nextLedgerId) (hn : db'.nextLedgerId = db.nextLedgerId + 1)
    (he : e.Hashed sha256 contractId) (ha : db'.assignments = db.assignments) :
    db'.Rooted sha256 contractId := by
  constructor
  · rw [hl, List.map_append, List.map_singleton, List.nodup_append', List.disjoint_singleton]
    refine ⟨hr.nodup, List.nodup_singleton _, fun hmem => ?_⟩
    obtain ⟨x, hx, heq⟩ := List.mem_map.mp hmem
    exact (hr.lt x hx).ne (heq.trans hid)
  · intro x hx
    rw [hl, List.mem_append, List.mem_singleton] at hx
    rw [hn]
    rcases hx with hx | rfl
    · exact (hr.lt x hx).trans (Nat.lt_succ_self _)
    · rw [hid]
      exact Nat.lt_succ_self _
  · intro x hx
    rw [hl, List.mem_append, List.mem_singleton] at hx
    rcases hx with hx | rfl
    · exact hr.hashed x hx
    · exact he
  · rw [ha]
    exact fun r hrow => namesGenesis_mono (fun _ => genesis_append hl) (hr.rows r hrow)

/-- A change that leaves the ledger as it is. -/
theorem rooted_rows (hr : db.Rooted sha256 contractId) (hl : db'.ledger = db.ledger)
    (hn : db.nextLedgerId ≤ db'.nextLedgerId) (ha : ∀ r ∈ db'.assignments, r.NamesGenesis db) :
    db'.Rooted sha256 contractId := by
  have hg : db'.genesis = db.genesis := by rw [Database.genesis, hl, Database.genesis]
  refine ⟨by rw [hl]; exact hr.nodup, ?_, by rw [hl]; exact hr.hashed, fun r hrow => ?_⟩
  · rw [hl]
    exact fun e he => (hr.lt e he).trans_le hn
  · exact namesGenesis_mono (fun h hgen => by rwa [hg]) (ha r hrow)

/-! ## The rows -/

theorem namesGenesis_update {w : Row → Bool} {f : Row → Row}
    (hr : ∀ r ∈ db.assignments, r.NamesGenesis db)
    (hf : ∀ r, r.NamesGenesis db → (f r).NamesGenesis db) :
    ∀ r ∈ (db.update w f).assignments, r.NamesGenesis db := by
  intro r' hr'
  obtain ⟨r, hrow, rfl⟩ := List.mem_map.mp hr'
  split
  · exact hf r (hr r hrow)
  · exact hr r hrow

theorem namesGenesis_insert (hr : ∀ r ∈ db.assignments, r.NamesGenesis db)
    (hg : ∀ h, h0 = some h → db.genesis = some h) :
    ∀ r ∈ (insertAssignment db freelancerId h0).1.assignments, r.NamesGenesis db := by
  unfold insertAssignment
  split
  · exact hr
  split
  · exact hr
  intro r hrow
  rcases List.mem_append.mp hrow with hrow | hrow
  · exact hr r hrow
  · rw [List.mem_singleton.mp hrow]
    intro hne
    cases h0 with
    | none => exact absurd rfl hne
    | some h => exact ⟨h, hg h rfl, rfl, rfl⟩

/-! ## Anchors in hand -/

theorem first_genesis (h : τ.First) : τ.genesis = none := by
  cases h <;> rfl

theorem raised_genesis (h : raised τ = .task σ) : σ.genesis = none := by
  cases τ <;> cases h <;> rfl

/-- A handler goes on with the anchor it has read, or with the one it had. -/
theorem next_genesis (hτ : ∀ h, τ.genesis = some h → db.genesis = some h)
    (hnext : (perform sha256 contractId db τ).2 = .task σ) :
    ∀ h, σ.genesis = some h → db.genesis = some h := by
  cases τ with
  | selectAccepted =>
    simp only [perform] at hnext
    split at hnext <;> cases hnext
    simp [Task.genesis]
  | selectGenesis =>
    cases hnext
    exact fun _ => id
  | updateFreelancer =>
    simp only [perform] at hnext
    split at hnext <;> cases hnext
    exact hτ
  | insertAssignment =>
    simp only [perform, insertAssignment] at hnext
    split at hnext
    · cases hnext
    split at hnext <;> cases hnext
    simp [Task.genesis]
  | accept u =>
    simp only [perform] at hnext
    split at hnext <;> cases hnext
    · simp [Task.genesis]
    · unfold anchor
      split <;> simp [Task.genesis]
  | selectAnchor =>
    cases hnext
    cases hg : db.genesis with
    | none => simp [Task.genesis]
    | some h => exact fun _ => id
  | updateAnchor | clearFreelancer =>
    cases hnext
    simp [Task.genesis]
  | reject u x =>
    simp only [perform] at hnext
    split at hnext <;> cases hnext <;> simp [Task.genesis]
  | selectStatus => cases hnext
  | appendWithOutbox p | appendManually p =>
    obtain ⟨-, rfl⟩ := next_of_posting (p := p) rfl hnext
    simp [Task.genesis]

theorem genesis_perform (hg : db.genesis = some h) :
    (perform sha256 contractId db τ).1.genesis = some h := by
  cases hp : τ.posting with
  | none => rwa [Database.genesis, (perform_ledger hp).1]
  | some p =>
    obtain heq | ⟨e, hpost⟩ := perform_posting sha256 contractId db hp
    · rwa [heq]
    · exact genesis_append (post_spec hpost).2.2.2.2.2.1 hg

theorem perform_nextLedgerId (hp : τ.posting = none) :
    (perform sha256 contractId db τ).1.nextLedgerId = db.nextLedgerId := by
  cases τ with
  | appendWithOutbox | appendManually => cases hp
  | selectAccepted | selectGenesis | selectAnchor | clearFreelancer | selectStatus |
    updateAnchor => rfl
  | updateFreelancer => simp only [perform]; split <;> rfl
  | insertAssignment =>
    simp only [perform, insertAssignment]
    split
    · rfl
    split <;> rfl
  | accept | reject => simp only [perform]; split <;> rfl

theorem rooted_perform (hr : db.Rooted sha256 contractId)
    (hτ : ∀ h, τ.genesis = some h → db.genesis = some h) :
    (perform sha256 contractId db τ).1.Rooted sha256 contractId := by
  cases hp : τ.posting with
  | some p =>
    obtain heq | ⟨e, hpost⟩ := perform_posting sha256 contractId db hp
    · rwa [heq]
    · obtain ⟨-, ha, -, -, -, hl, -⟩ := post_spec hpost
      obtain ⟨hid, hn, he⟩ := post_entry hpost
      exact rooted_ledger hr hl hid hn he ha
  | none =>
    apply rooted_rows hr (perform_ledger hp).1 (perform_nextLedgerId hp).ge
    cases τ with
    | appendWithOutbox | appendManually => cases hp
    | selectAccepted | selectGenesis | selectAnchor | clearFreelancer | selectStatus =>
      exact hr.rows
    | updateFreelancer =>
      rw [perform_assignments rfl]
      exact hr.rows
    | insertAssignment => exact namesGenesis_insert hr.rows hτ
    | accept | reject =>
      rw [perform]
      split
      · exact hr.rows
      · exact namesGenesis_update hr.rows fun _ => id
    | updateAnchor _ _ _ h =>
      exact namesGenesis_update hr.rows fun _ _ _ => ⟨h, hτ h rfl, rfl, rfl⟩

theorem genesis_goto (h : (q.goto again next).task = some τ)
    (hnext : ∀ σ, next = .task σ → ∀ h, σ.genesis = some h → db.genesis = some h) :
    ∀ h, τ.genesis = some h → db.genesis = some h := by
  rcases task_of_goto h with hτ | hτ
  · exact hnext τ hτ
  · rw [first_genesis hτ]
    simp

/-- A step of one request leaves the anchors of the others in their hands. -/
theorem rooted_setActor (db : Database) (hs : Rooted sha256 contractId s)
    (hdb : db.Rooted sha256 contractId)
    (hg : ∀ h, s.db.genesis = some h → db.genesis = some h)
    (hb : ∀ τ, b.task = some τ → ∀ h, τ.genesis = some h → db.genesis = some h) :
    Rooted sha256 contractId (State.setActor { s with db } i b) := by
  refine ⟨hdb, fun j τ h hτ hgen => ?_⟩
  by_cases hj : j = i
  · subst hj
    rw [setActor_actors, Function.update_self] at hτ
    exact hb τ hτ h hgen
  · rw [setActor_actors, Function.update_of_ne hj] at hτ
    exact hg h (hs.inHand j τ h hτ hgen)

theorem rooted_beside (hs : Rooted sha256 contractId s) (hdb : t.db.Rooted sha256 contractId)
    (hg : ∀ h, s.db.genesis = some h → t.db.genesis = some h) (ha : t.actors = s.actors) :
    Rooted sha256 contractId t :=
  ⟨hdb, fun i τ h hτ hgen => hg h (hs.inHand i τ h (by rwa [ha] at hτ) hgen)⟩

theorem rooted_step (hs : Rooted sha256 contractId s)
    (hst : step sha256 contractId s a = some t) : Rooted sha256 contractId t := by
  have hmove : ∀ {i b}, b.task = none → Rooted sha256 contractId (s.setActor i b) := fun hb =>
    rooted_setActor s.db hs hs.db (fun _ => id) fun τ hτ => by rw [hb] at hτ; cases hτ
  cases step_cases hst with
  | register | initializeContract | drawAssignment =>
    exact rooted_beside hs (rooted_rows hs.db rfl le_rfl hs.db.rows) (fun _ => id) rfl
  | drawLedger =>
    exact rooted_beside hs (rooted_rows hs.db rfl (Nat.le_succ _) hs.db.rows) (fun _ => id) rfl
  | record happend =>
    obtain ⟨-, ha, -, -, -, hl, -⟩ := append_spec happend
    obtain ⟨hid, hn, he⟩ := append_entry happend
    exact rooted_beside hs (rooted_ledger hs.db hl hid hn he ha) (fun _ => genesis_append hl) rfl
  | request => exact hmove enter_task
  | replay | crash => exact hmove rfl
  | guard =>
    apply hmove
    split
    · exact pass_task
    · rfl
  | run =>
    refine rooted_setActor s.db hs hs.db (fun _ => id) fun τ hτ => genesis_goto hτ ?_
    intro σ hσ
    rw [first_genesis (first_of_start hσ)]
    simp
  | fail =>
    refine rooted_setActor s.db hs hs.db (fun _ => id) fun τ hτ => genesis_goto hτ ?_
    intro σ hσ
    rw [raised_genesis hσ]
    simp
  | @take i q τ again o hi ho =>
    have hτ : ∀ h, τ.genesis = some h → s.db.genesis = some h := fun h =>
      hs.inHand i τ h (by rw [hi]; rfl)
    refine rooted_setActor _ hs (rooted_perform hs.db hτ) (fun _ => genesis_perform)
      fun σ hσ => genesis_goto hσ ?_
    intro σ hσ h hgen
    split at hσ
    · exact genesis_perform (next_genesis hτ hσ h hgen)
    · rw [raised_genesis hσ] at hgen
      cases hgen

/-! ## Which steps anchor an acceptance -/

theorem anchored_iff (hr : db.Rooted sha256 contractId) : db.Anchored sha256 contractId ↔
    (db.HasAnchor → db.LockedFirst sha256 contractId) := by
  constructor
  · rintro hanchored ⟨r, hrow, hstatus, hne⟩
    obtain ⟨h0, hg, hid, hhash⟩ := hr.rows r hrow hne
    obtain ⟨e, he, heid, -, hlocks⟩ := hanchored r hrow hstatus _ hhash
    obtain ⟨e₀, he₀, rfl⟩ := Option.map_eq_some_iff.mp hg
    rw [hid, Option.some.injEq] at heid
    have heq : e₀ = e := List.inj_on_of_nodup_map hr.nodup (List.mem_of_head? he₀) he heid
    exact ⟨e₀, he₀, heq ▸ hlocks⟩
  · intro hfirst r hrow hstatus hash hhash
    have hne : r.lockedLedgerHash ≠ none := by simp [hhash]
    obtain ⟨h0, hg, hid, hhash'⟩ := hr.rows r hrow hne
    obtain ⟨e, he, hlocks⟩ := hfirst ⟨r, hrow, hstatus, hne⟩
    obtain ⟨e₀, he₀, rfl⟩ := Option.map_eq_some_iff.mp hg
    cases he.symm.trans he₀
    refine ⟨e, List.mem_of_head? he, hid, ?_, hlocks⟩
    rw [hhash, Option.some.injEq] at hhash'
    exact hhash'.symm

theorem lockedFirst_iff (hg : db.genesis = some h) (hl : db'.ledger = db.ledger ∨
    ∃ e, db'.ledger = db.ledger ++ [e]) :
    db'.LockedFirst sha256 contractId ↔ db.LockedFirst sha256 contractId := by
  have hhead : db'.ledger.head? = db.ledger.head? := by
    rcases hl with hl | ⟨e, hl⟩
    · rw [hl]
    · obtain ⟨e₀, he₀, -⟩ := Option.map_eq_some_iff.mp hg
      rw [hl, List.head?_append, he₀]
      rfl
  rw [Database.LockedFirst, Database.LockedFirst, hhead]

theorem hasAnchor_congr (ha : db'.assignments = db.assignments) :
    db'.HasAnchor ↔ db.HasAnchor := by
  rw [Database.HasAnchor, Database.HasAnchor, ha]

theorem hasAnchor_insert : (insertAssignment db freelancerId h0).1.HasAnchor ↔ db.HasAnchor := by
  unfold insertAssignment
  split
  · rfl
  split
  · rfl
  · simp [Database.HasAnchor]

/-- What an update of rows makes an anchor of. -/
theorem hasAnchor_update {q : Row → Bool} {f : Row → Row} {P : Row → Prop}
    (hf : ∀ r, q r → ((f r).status = .accepted ∧ (f r).lockedLedgerHash ≠ none ↔
      (r.status = .accepted ∧ r.lockedLedgerHash ≠ none) ∨ P r)) :
    (db.update q f).HasAnchor ↔ db.HasAnchor ∨ ∃ r ∈ db.assignments, q r ∧ P r := by
  simp only [Database.HasAnchor, Database.update, List.mem_map, exists_exists_and_eq_and]
  rw [← exists_or]
  apply exists_congr
  intro r
  rw [← and_or_left]
  apply and_congr_right
  intro _
  by_cases hq : q r
  · simpa [hq] using hf r hq
  · simp [hq]

theorem hasAnchor_accept : (db.update (·.pendingFor userId) Row.accept).HasAnchor ↔
    db.HasAnchor ∨ ∃ r ∈ db.assignments, r.pendingFor userId ∧ r.lockedLedgerHash ≠ none := by
  apply hasAnchor_update
  intro r hp
  simp [Row.accept]

theorem hasAnchor_reject :
    (db.update (·.pendingFor userId) (Row.reject reason)).HasAnchor ↔ db.HasAnchor := by
  refine (hasAnchor_update (P := fun _ => False) fun r hp => ?_).trans (by simp)
  obtain ⟨-, hpending⟩ := of_decide_eq_true hp
  simp [Row.reject, hpending]

theorem hasAnchor_setAnchor {n : ℕ} : (db.update (·.assignmentId = n) (Row.setAnchor h)).HasAnchor ↔
    db.HasAnchor ∨ ∃ r ∈ db.assignments, r.assignmentId = n ∧ r.status = .accepted := by
  have hupdate : (db.update (·.assignmentId = n) (Row.setAnchor h)).HasAnchor ↔ db.HasAnchor ∨
      ∃ r ∈ db.assignments, decide (r.assignmentId = n) ∧ r.status = .accepted := by
    apply hasAnchor_update
    intro r hn
    simp [Row.setAnchor]
    tauto
  simpa only [decide_eq_true_eq] using hupdate

theorem hasAnchor_perform :
    (perform sha256 contractId db τ).1.HasAnchor ↔ db.HasAnchor ∨ τ.Anchors db := by
  cases hw : τ.writesAssignments with
  | false =>
    rw [hasAnchor_congr (perform_assignments hw)]
    cases τ with
    | accept | updateAnchor => cases hw
    | _ => simp [Task.Anchors]
  | true =>
    cases τ with
    | accept u =>
      cases hfind : db.assignments.find? (·.pendingFor u) with
      | none =>
        have hnone := List.find?_eq_none.mp hfind
        simp only [perform, hfind, Task.Anchors]
        refine (or_iff_left ?_).symm
        rintro ⟨r, hr, hp, -⟩
        exact hnone r hr hp
      | some r =>
        simp only [perform, hfind]
        exact hasAnchor_accept
    | updateAnchor => exact hasAnchor_setAnchor
    | reject u x =>
      refine Iff.trans ?_ (or_iff_left fun h => h).symm
      rw [perform]
      split
      · rfl
      · exact hasAnchor_reject
    | insertAssignment => exact hasAnchor_insert.trans (or_iff_left fun h => h).symm
    | _ => cases hw

theorem exists_genesis_of_hasAnchor (hr : db.Rooted sha256 contractId) (ha : db.HasAnchor) :
    ∃ h, db.genesis = some h := by
  obtain ⟨r, hrow, -, hne⟩ := ha
  obtain ⟨h0, hg, -⟩ := hr.rows r hrow hne
  exact ⟨h0, hg⟩

theorem exists_genesis_of_anchors (hr : db.Rooted sha256 contractId)
    (hτ : ∀ h, τ.genesis = some h → db.genesis = some h) (ha : τ.Anchors db) :
    ∃ h, db.genesis = some h := by
  cases τ with
  | accept u =>
    obtain ⟨r, hrow, -, hne⟩ := ha
    obtain ⟨h0, hg, -⟩ := hr.rows r hrow hne
    exact ⟨h0, hg⟩
  | updateAnchor _ _ _ h => exact ⟨h, hτ h rfl⟩
  | _ => exact ha.elim

theorem perform_ledger_grows : (perform sha256 contractId db τ).1.ledger = db.ledger ∨
    ∃ e, (perform sha256 contractId db τ).1.ledger = db.ledger ++ [e] := by
  cases hp : τ.posting with
  | none => exact .inl (perform_ledger hp).1
  | some p =>
    obtain heq | ⟨e, hpost⟩ := perform_posting sha256 contractId db hp
    · exact .inl (by rw [heq])
    · exact .inr ⟨e, (post_spec hpost).2.2.2.2.2.1⟩

/-- A step that anchors no acceptance. -/
theorem anchored_keep (hr : db.Rooted sha256 contractId) (hr' : db'.Rooted sha256 contractId)
    (hs : db.Anchored sha256 contractId) (ha : db'.HasAnchor → db.HasAnchor)
    (hl : db'.ledger = db.ledger ∨ ∃ e, db'.ledger = db.ledger ++ [e]) :
    db'.Anchored sha256 contractId := by
  rw [anchored_iff hr] at hs
  rw [anchored_iff hr']
  intro hanchor
  obtain ⟨h, hg⟩ := exists_genesis_of_hasAnchor hr (ha hanchor)
  exact (lockedFirst_iff hg hl).mpr (hs (ha hanchor))

theorem anchored_perform (hr : db.Rooted sha256 contractId)
    (hτ : ∀ h, τ.genesis = some h → db.genesis = some h) (hs : db.Anchored sha256 contractId) :
    (τ.Anchors db → db.LockedFirst sha256 contractId) ↔
      (perform sha256 contractId db τ).1.Anchored sha256 contractId := by
  rw [anchored_iff hr] at hs
  rw [anchored_iff (rooted_perform hr hτ), hasAnchor_perform]
  constructor
  · rintro hfirst (ha | ha)
    · obtain ⟨h, hg⟩ := exists_genesis_of_hasAnchor hr ha
      exact (lockedFirst_iff hg perform_ledger_grows).mpr (hs ha)
    · obtain ⟨h, hg⟩ := exists_genesis_of_anchors hr hτ ha
      exact (lockedFirst_iff hg perform_ledger_grows).mpr (hfirst ha)
  · intro hfirst ha
    obtain ⟨h, hg⟩ := exists_genesis_of_anchors hr hτ ha
    exact (lockedFirst_iff hg perform_ledger_grows).mp (hfirst (.inr ha))

/-- A step that anchors to the terms is exactly one that keeps every acceptance so anchored. -/
theorem anchorsToTerms_iff (hs : Rooted sha256 contractId s)
    (ha : s.db.Anchored sha256 contractId) (hst : step sha256 contractId s a = some t) :
    AnchorsToTerms sha256 contractId s a ↔ t.db.Anchored sha256 contractId := by
  have ht := rooted_step hs hst
  cases step_cases hst with
  | register | initializeContract | drawAssignment | drawLedger =>
    exact iff_of_true trivial (anchored_keep hs.db ht.db ha id (.inl rfl))
  | record happend =>
    obtain ⟨-, hrows, -, -, -, hl, -⟩ := append_spec happend
    exact iff_of_true trivial (anchored_keep hs.db ht.db ha (hasAnchor_congr hrows).mp
      (.inr ⟨_, hl⟩))
  | request | run | replay | crash => exact iff_of_true trivial ha
  | guard hi => exact iff_of_true (fun _ τ hτ => by rw [hi] at hτ; cases hτ) ha
  | fail => exact iff_of_true (fun h => absurd rfl h) ha
  | @take i q τ again o hi ho =>
    have htask : (s.actors i).task = some τ := by rw [hi]; rfl
    rw [setActor_db, ← anchored_perform hs.db (fun h => hs.inHand i τ h htask) ha]
    exact ⟨fun h => h ho τ htask, fun h _ σ hσ => by rw [htask] at hσ; cases hσ; exact h⟩

/-! ## Runs -/

theorem rooted_initial (h0 : Initial s) : Rooted sha256 contractId s := by
  obtain ⟨-, ha, hl, -, hi⟩ := h0
  refine ⟨⟨?_, ?_, ?_, ?_⟩, fun i τ h hτ => by rw [hi i] at hτ; cases hτ⟩
  all_goals simp [ha, hl]

/-- Every acceptance is anchored to the terms exactly when every step anchors to them. -/
theorem anchored_to_terms_iff (sha256 : Text → Text) (contractId : Text) (h0 : Initial s)
    (h : (system sha256 contractId).Run Any s as t) :
    (∀ r ∈ (system sha256 contractId).visited s as, r.db.Anchored sha256 contractId) ↔
      (system sha256 contractId).Run (AnchorsToTerms sha256 contractId) s as t :=
  h.forall_visited_iff (fun _ _ _ hs hst => rooted_step hs hst)
    (fun _ _ _ hs ha hst => anchorsToTerms_iff hs ha hst) (rooted_initial h0)
    (fun r hr => by rw [h0.2.1] at hr; cases hr)

theorem anchored_to_terms_iff_second :
    ∃ t, (system id (units "AC-1")).exec opening secondChoice = some t ∧
      ((∀ r ∈ (system id (units "AC-1")).visited opening secondChoice,
        r.db.Anchored id (units "AC-1")) ↔
        (system id (units "AC-1")).Run (AnchorsToTerms id (units "AC-1")) opening secondChoice
          t) := by
  have h : ((system id (units "AC-1")).exec opening secondChoice).isSome := by decide +kernel
  obtain ⟨t, ht⟩ := Option.isSome_iff_exists.mp h
  exact ⟨t, ht, anchored_to_terms_iff id _ initial_opening (run_of_exec ht)⟩

/-! ## Assigned before it was locked -/

def terms : Terms where
  title := units "Dashboard"
  requirements := units "A page with three charts"
  budgetCents := .ofRat 50000
  deadline := units "2026-12-31"

/-- The client assigns, then locks; the freelancer accepts. -/
def assignThenLock : List Action :=
  .initializeContract (units "c") :: serve 0 (.assign (some (units "f"))) client 5 ++
    serve 1 (.lock (some terms)) client 1 ++ serve 2 .accept (freelancer (units "f")) 4

/-- The acceptance is anchored to the entry of the assignment. -/
theorem anchored_to_assignment : ¬ ∀ (sha256 : Text → Text) contractId s as t, Initial s →
    (system sha256 contractId).Run Any s as t →
      ∀ r ∈ (system sha256 contractId).visited s as, r.db.Anchored sha256 contractId := by
  intro hall
  have h : ((system id (units "AC-1")).exec opening assignThenLock).any fun t =>
      (t.db.assignments.any fun r => r.status = .accepted ∧ r.lockedLedgerHash.isSome ∧
        r.lockedLedgerId = some 1) ∧
        t.db.ledger.all fun e =>
          e.record.actionType = units "CONTRACT_LOCKED" → e.ledgerId ≠ 1 := by
    decide +kernel
  obtain ⟨t, ht, h⟩ := (Option.any_eq_true _ _).mp h
  obtain ⟨hrow, hledger⟩ := of_decide_eq_true h
  obtain ⟨r, hr, hrow⟩ := List.any_eq_true.mp hrow
  obtain ⟨hstatus, hsome, hid⟩ := of_decide_eq_true hrow
  obtain ⟨hash, hhash⟩ := Option.isSome_iff_exists.mp hsome
  have hrun := run_of_exec ht
  obtain ⟨e, he, heid, -, ⟨terms, hlocked⟩, -⟩ :=
    hall id _ _ _ t initial_opening hrun t hrun.mem_visited r hr hstatus hash hhash
  have hne := List.all_eq_true.mp hledger e he
  rw [hlocked] at hne
  rw [hid, Option.some.injEq] at heid
  exact of_decide_eq_true hne rfl heid.symm

end AssureCode.Assignment
