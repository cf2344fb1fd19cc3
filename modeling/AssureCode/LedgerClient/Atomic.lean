import AssureCode.LedgerClient.Model

/-! # Both rows or none

A call that returns has added one row to the ledger and one to the outbox, by the stored procedure
or by the transaction of the fallback; a call that throws has added none.
-/

namespace AssureCode.LedgerClient

open Js Ledger

/-- The tables have the rows they had. -/
structure SameRows (s s' : Store) : Prop where
  ledger : s'.ledger.rows = s.ledger.rows
  outbox : s'.outbox = s.outbox

variable {pg : Postgres} {x x' : Session} {s s' s'' : Store} {locks locks' : Locks} {c : Connection}
  {call : AppendWithOutbox} {o : Faults} {row : LedgerRow} {e : ClientError} {n : ℕ}
  {fault : Option Fault}

theorem SameRows.refl : SameRows s s := ⟨rfl, rfl⟩

theorem SameRows.trans (h : SameRows s s') (h' : SameRows s' s'') : SameRows s s'' :=
  ⟨h'.ledger.trans h.ledger, h'.outbox.trans h.outbox⟩

theorem sameRows_skip : SameRows s (s.skip n) := ⟨rfl, rfl⟩

/-! ## What a call adds -/

variable (pg) in
/-- The row of the outbox for a call, as the columns hold it. -/
structure Staged (call : AppendWithOutbox) (r : OutboxRow) : Prop where
  topic : pg.varchar call.eventTopic = some r.topic
  payload : ∃ text, call.event = .text text ∧ pg.jsonb text = some r.payload
  correlation : call.correlation.elim (some none) (fun c => (pg.varchar c).map some) =
    some r.correlationId

variable (pg) in
/-- The row that the ledger gets for a call is the next of its contract. -/
structure Anchored (call : Append) (s : Store) (row : LedgerRow) : Prop where
  exists_newRow : ∃ canonical payload, canonicalize call.payload = .ok canonical ∧
    canonical ≠ [] ∧ pg.jsonb canonical = some payload ∧
    s.ledger.contracts.contains call.contractId = true ∧
    row = s.ledger.newRow pg.sha256 call.contractId call.actionType canonical payload

variable (pg) in
/-- Exactly one row is added to each table. -/
structure Adds (call : AppendWithOutbox) (s : Store) (row : LedgerRow) (s' : Store) : Prop where
  anchored : ∃ n, Anchored pg call.toAppend (s.skip n) row
  ledger : s'.ledger.rows = s.ledger.rows ++ [row]
  outbox : ∃ r, Staged pg call r ∧ s'.outbox = s.outbox ++ [r]

theorem appendLedger_eq_ok_iff {db db' : Database} {contractId actionType canonical : Text} :
    appendLedger pg.sha256 pg.jsonb db contractId actionType canonical = .ok (row, db') ↔
      canonical ≠ [] ∧ db.contracts.contains contractId = true ∧ ∃ payload,
        pg.jsonb canonical = some payload ∧
        row = db.newRow pg.sha256 contractId actionType canonical payload ∧
        ∃ hrow : row.ledgerId = db.nextId, db' = db.insert row hrow := by
  unfold appendLedger
  split
  · simp [*]
  · split
    · simp [*]
    · rename_i payload hpayload
      split
      · rename_i hc
        constructor
        · intro h
          cases h
          exact ⟨‹_›, hc, payload, hpayload, rfl, rfl, rfl⟩
        · rintro ⟨-, -, payload', hpayload', rfl, hrow, rfl⟩
          cases hpayload.symm.trans hpayload'
          rfl
      · rename_i hc
        constructor
        · rintro ⟨⟩
        · rintro ⟨-, hc', -⟩
          exact absurd hc' hc

theorem appendLedgerLocked_eq_ok {db db' : Database} {contractId actionType canonical : Text}
    (h : appendLedgerLocked pg db locks contractId actionType canonical fault =
      (.ok (row, db'), locks')) :
    fault = none ∧
      appendLedger pg.sha256 pg.jsonb db contractId actionType canonical = .ok (row, db') := by
  unfold appendLedgerLocked at h
  split at h
  · cases h
  · rename_i hbefore
    split at h
    · rename_i hempty
      simp [appendLedger, hempty, Except.mapError] at h
    · dsimp only at h
      split at h
      · cases h
      · rename_i hlocked
        split at h
        · cases h
        · rename_i hledger
          split at h
          · cases h
          · rename_i hafter
            cases h
            refine ⟨?_, hledger⟩
            cases fault with
            | none => rfl
            | some point => cases point <;> contradiction

theorem insertOutbox_eq_some_iff {payload : Option Payload} :
    insertOutbox pg s call.eventTopic payload call.correlation = some s' ↔
      ∃ r, pg.varchar call.eventTopic = some r.topic ∧ payload = some r.payload ∧
        call.correlation.elim (some none) (fun c => (pg.varchar c).map some) =
          some r.correlationId ∧ s' = { s with outbox := s.outbox ++ [r] } := by
  simp only [insertOutbox, Option.bind_eq_bind, Option.bind_eq_some_iff, Option.pure_def,
    Option.some.injEq]
  constructor
  · rintro ⟨topic, htopic, payload, rfl, correlation, hcorrelation, rfl⟩
    exact ⟨⟨topic, payload, correlation⟩, htopic, rfl, hcorrelation, rfl⟩
  · rintro ⟨r, htopic, rfl, hcorrelation, rfl⟩
    exact ⟨r.topic, htopic, r.payload, rfl, r.correlationId, hcorrelation, rfl⟩

variable (pg) in
/-- Both inserts are done, on tables that no statement fails for a reason of its own. -/
def Completes (call : AppendWithOutbox) (s : Store) (row : LedgerRow) (s' : Store) : Prop :=
  ∃ canonical event payload db, canonicalize call.payload = .ok canonical ∧
    call.event.parameter = .ok event ∧ castEvent pg event = some payload ∧
    appendLedger pg.sha256 pg.jsonb s.ledger call.contractId call.actionType canonical =
      .ok (row, db) ∧
    insertOutbox pg ⟨db, s.outbox⟩ call.eventTopic payload call.correlation = some s'

theorem Completes.adds (h : Completes pg call (s.skip n) row s') : Adds pg call s row s' := by
  obtain ⟨canonical, event, payload, db, hcanonical, hevent, hcast, hledger, houtbox⟩ := h
  obtain ⟨hne, hcontract, ledgerPayload, hjsonb, hrow, hid, rfl⟩ :=
    appendLedger_eq_ok_iff.mp hledger
  obtain ⟨r, htopic, rfl, hcorrelation, rfl⟩ := insertOutbox_eq_some_iff.mp houtbox
  have htext : ∃ text, call.event = .text text ∧ pg.jsonb text = some r.payload := by
    cases hstringified : call.event with
    | throws =>
      rw [hstringified] at hevent
      cases hevent
    | undefined =>
      rw [hstringified] at hevent
      cases hevent
      cases hcast
    | text value =>
      rw [hstringified] at hevent
      cases hevent
      obtain ⟨p, hp, hpr⟩ := Option.map_eq_some_iff.mp hcast
      cases hpr
      exact ⟨value, rfl, hp⟩
  constructor
  · exact ⟨n, ⟨canonical, ledgerPayload, hcanonical, hne, hjsonb, hcontract, hrow⟩⟩
  · rfl
  · exact ⟨r, ⟨htopic, htext, hcorrelation⟩, rfl⟩

/-! ## Statements -/

theorem query_ok {α : Type} {a : α} {f : Store → Locks → Except ClientError (α × Store) × Locks}
    (h : x.query n f = (.ok a, x')) :
    ∃ s locks, f x.store x.locks = (.ok (a, s), locks) ∧
      x' = Session.put { x with locks := locks } s := by
  unfold Session.query at h
  split at h
  · cases h
  · rename_i a s locks hf
    cases h
    exact ⟨s, locks, hf, rfl⟩

theorem query_error {α : Type} {f : Store → Locks → Except ClientError (α × Store) × Locks}
    (h : x.query n f = (.error e, x')) :
    ∃ locks, f x.store x.locks = (.error e, locks) ∧
      x' = Session.skip { x with locks := locks } n := by
  unfold Session.query at h
  split at h
  · rename_i locks hf
    cases h
    exact ⟨locks, hf, rfl⟩
  · cases h

/-! ## The first path -/

theorem viaProcedure_ok (h : viaProcedure pg c.session call o = (.ok row, x)) :
    o.procedure = none ∧ Completes pg call c.store row x.committed := by
  unfold viaProcedure at h
  split at h
  · cases h
  · cases h
  · rename_i canonical event hcanonical hevent
    obtain ⟨s, locks, hf, rfl⟩ := query_ok h
    unfold appendLedgerAndOutbox at hf
    split at hf
    · cases hf
    · rename_i payload hcast
      split at hf
      · cases hf
      · rename_i row' db locks' hledger
        split at hf
        · cases hf
        · rename_i s' houtbox
          cases hf
          obtain ⟨hfault, hledger⟩ := appendLedgerLocked_eq_ok hledger
          exact ⟨hfault, canonical, event, payload, db, hcanonical, hevent, hcast, hledger, houtbox⟩

theorem viaProcedure_error (h : viaProcedure pg c.session call o = (.error e, x)) :
    x.transaction = none ∧ ∃ n ≤ o.procedureDrawn, x.committed = c.store.skip n := by
  have hnone : ∃ n ≤ o.procedureDrawn, c.store = c.store.skip n := ⟨0, Nat.zero_le _, rfl⟩
  unfold viaProcedure at h
  split at h
  · cases h
    exact ⟨rfl, hnone⟩
  · cases h
    exact ⟨rfl, hnone⟩
  · obtain ⟨locks, -, rfl⟩ := query_error h
    exact ⟨rfl, o.procedureDrawn, le_rfl, rfl⟩

/-! ## The fallback -/

/-- An append in a transaction adds its row there. -/
theorem append_ok {call : Append} (htransaction : x.transaction = some s)
    (h : append pg x call fault n = (.ok row, x')) :
    x'.committed = x.committed ∧ ∃ canonical db, canonicalize call.payload = .ok canonical ∧
      appendLedger pg.sha256 pg.jsonb s.ledger call.contractId call.actionType canonical =
        .ok (row, db) ∧
      x'.transaction = some { s with ledger := db } := by
  unfold append at h
  split at h
  · cases h
  · rename_i canonical hcanonical
    obtain ⟨s', locks, hf, rfl⟩ := query_ok h
    have hstore : x.store = s := by rw [Session.store, htransaction, Option.getD_some]
    rw [hstore] at hf
    simp only [Prod.mk.injEq] at hf
    obtain ⟨hr, rfl⟩ := hf
    cases hledger : (appendLedgerLocked pg s.ledger x.locks call.contractId call.actionType
        canonical fault).1 with
    | error e =>
      rw [hledger] at hr
      cases hr
    | ok p =>
      rw [hledger] at hr
      cases hr
      refine ⟨by simp [Session.put, htransaction], canonical, p.2, hcanonical, ?_, ?_⟩
      · exact (appendLedgerLocked_eq_ok (Prod.ext hledger rfl)).2
      · simp [Session.put, htransaction]

/-- An append in a transaction leaves what is committed. -/
theorem append_committed {call : Append} {r : Except ClientError LedgerRow}
    (htransaction : x.transaction = some s) (h : append pg x call fault n = (r, x')) :
    SameRows x.committed x'.committed := by
  unfold append at h
  split at h
  · cases h
    exact .refl
  · cases r with
    | error e =>
      obtain ⟨locks, -, rfl⟩ := query_error h
      exact sameRows_skip
    | ok row =>
      obtain ⟨s', locks, -, rfl⟩ := query_ok h
      simp only [Session.put, htransaction]
      exact .refl

theorem inTransaction_ok (htransaction : x.transaction = some s)
    (h : inTransaction pg x call o = (.ok row, x')) : Completes pg call s row x'.committed := by
  unfold inTransaction at h
  split at h
  · cases h
  · rename_i row' x₁ happend
    obtain ⟨-, canonical, db, hcanonical, hledger, hx₁⟩ := append_ok htransaction happend
    split at h
    · cases h
    · rename_i event hevent
      split at h
      · cases h
      · split at h
        · cases h
        · rename_i payload hcast
          split at h
          · cases h
          · rename_i s' houtbox
            dsimp only at h
            split at h
            · cases h
            · cases h
              have hstore : x₁.store = ⟨db, s.outbox⟩ := by
                rw [Session.store, hx₁, Option.getD_some]
              rw [hstore] at houtbox
              have hcommitted : (x₁.put s').commit.committed = s' := by
                simp [Session.commit, Session.store, Session.put, hx₁]
              rw [hcommitted]
              exact ⟨canonical, event, payload, db, hcanonical, hevent, hcast, hledger, houtbox⟩

theorem inTransaction_error (htransaction : x.transaction = some s)
    (h : inTransaction pg x call o = (.error e, x')) : SameRows x.committed x'.committed := by
  unfold inTransaction at h
  split at h
  · rename_i happend
    cases h
    exact append_committed htransaction happend
  · rename_i row' x₁ happend
    have hsame := append_committed htransaction happend
    obtain ⟨-, canonical, db, -, -, hx₁⟩ := append_ok htransaction happend
    split at h
    · cases h
      exact hsame
    · split at h
      · cases h
        exact hsame
      · split at h
        · cases h
          exact hsame
        · split at h
          · cases h
            exact hsame
          · dsimp only at h
            split at h
            · cases h
              simpa only [Session.put, hx₁] using hsame
            · cases h

/-! ## Without faults -/

theorem appendLedgerLocked_none {db db' : Database} {contractId actionType canonical : Text}
    (locks : Locks)
    (h : appendLedger pg.sha256 pg.jsonb db contractId actionType canonical = .ok (row, db')) :
    ∃ locks', appendLedgerLocked pg db locks contractId actionType canonical none =
      (.ok (row, db'), locks') := by
  have hne := (appendLedger_eq_ok_iff.mp h).1
  simp [appendLedgerLocked, hne, h]

/-- The stored procedure completes what can be completed. -/
theorem viaProcedure_completes (ho : o.procedure = none) (h : Completes pg call c.store row s) :
    ∃ x, viaProcedure pg c.session call o = (.ok row, x) ∧ x.committed = s := by
  obtain ⟨canonical, event, payload, db, hcanonical, hevent, hcast, hledger, houtbox⟩ := h
  obtain ⟨locks, hlocked⟩ := appendLedgerLocked_none c.locks hledger
  have hfunction : appendLedgerAndOutbox pg c.store c.locks call.contractId call.actionType
      canonical call.eventTopic event call.correlation none = (.ok (row, s), locks) := by
    simp only [appendLedgerAndOutbox, hcast, hlocked, houtbox]
  refine ⟨⟨s, none, locks⟩, ?_, rfl⟩
  simp only [viaProcedure, hcanonical, hevent, ho, Session.query]
  rw [show c.session.store = c.store from rfl, show c.session.locks = c.locks from rfl, hfunction]
  rfl

/-- So does the transaction of the fallback. -/
theorem inTransaction_completes (htransaction : x.transaction = some s) (happend : o.append = none)
    (hinsert : o.insert = false) (hcommit : o.commit = false)
    (h : Completes pg call s row s') :
    ∃ x', inTransaction pg x call o = (.ok row, x') ∧ x'.committed = s' := by
  obtain ⟨canonical, event, payload, db, hcanonical, hevent, hcast, hledger, houtbox⟩ := h
  obtain ⟨locks, hlocked⟩ := appendLedgerLocked_none x.locks hledger
  have hstore : x.store = s := by rw [Session.store, htransaction, Option.getD_some]
  have hx : append pg x call.toAppend o.append o.appendDrawn =
      (.ok row, { x with transaction := some ⟨db, s.outbox⟩, locks := locks }) := by
    simp only [append, hcanonical, happend, Session.query, hstore, hlocked, Except.map, Session.put,
      htransaction]
  refine ⟨⟨s', none, locks⟩, ?_, rfl⟩
  simp only [inTransaction, hx, hevent, hinsert, hcast, hcommit, Session.store, Option.getD_some,
    houtbox, Session.put, Session.commit]
  rfl

/-! ## A call -/

/-- The fallback begins where the first path has left nothing. -/
theorem begin_of_error (h : viaProcedure pg c.session call o = (.error e, x)) :
    SameRows c.store x.committed ∧
      ∃ n ≤ o.procedureDrawn, x.begin.transaction = some (c.store.skip n) := by
  obtain ⟨hidle, n, hn, hx⟩ := viaProcedure_error h
  constructor
  · rw [hx]
    exact sameRows_skip
  · exact ⟨n, hn, by rw [Session.begin, Session.store, hidle, Option.getD_none, hx]⟩

theorem appendWithOutbox_ok (h : appendWithOutbox pg c call o = (.ok row, x)) :
    ∃ n ≤ o.procedureDrawn, Completes pg call (c.store.skip n) row x.committed := by
  unfold appendWithOutbox at h
  split at h
  · cases h
  · split at h
    · rename_i hprocedure
      cases h
      exact ⟨0, Nat.zero_le _, (viaProcedure_ok hprocedure).2⟩
    · rename_i hprocedure
      obtain ⟨-, n, hn, hbegin⟩ := begin_of_error hprocedure
      split at h
      · cases h
      · split at h
        · rename_i hfallback
          cases h
          exact ⟨n, hn, inTransaction_ok hbegin hfallback⟩
        · split at h
          · cases h
          · cases h

theorem appendWithOutbox_error (h : appendWithOutbox pg c call o = (.error e, x)) :
    SameRows c.store x.committed := by
  unfold appendWithOutbox at h
  split at h
  · cases h
    exact .refl
  · split at h
    · cases h
    · rename_i hprocedure
      obtain ⟨hsame, n, -, hbegin⟩ := begin_of_error hprocedure
      split at h
      · cases h
        exact hsame
      · split at h
        · cases h
        · rename_i hfallback
          have hfailed := inTransaction_error hbegin hfallback
          split at h
          · cases h
            exact hsame.trans hfailed
          · cases h
            exact (hsame.trans hfailed).trans sameRows_skip

/-- Nothing fails. -/
def noFault : Faults where
  connect := false
  procedure := none
  procedureDrawn := 0
  begin := false
  append := none
  appendDrawn := 0
  insert := false
  commit := false
  rollback := false

/-- The stored procedure is not there. -/
def procedureMissing : Faults := { noFault with procedure := some .before }

/-- Either implementation returns what can be completed, and commits the same tables. -/
theorem returns_iff_completes (ho : o = noFault ∨ o = procedureMissing) :
    (appendWithOutbox pg c call o).1 = .ok row ∧ (appendWithOutbox pg c call o).2.committed = s ↔
      Completes pg call c.store row s := by
  constructor
  · rintro ⟨hr, rfl⟩
    obtain ⟨n, hn, h⟩ := appendWithOutbox_ok (Prod.ext hr rfl)
    have hdrawn : o.procedureDrawn = 0 := by
      rcases ho with rfl | rfl <;> rfl
    obtain rfl : n = 0 := Nat.le_zero.mp (hdrawn ▸ hn)
    exact h
  · intro h
    suffices hx : ∃ x, appendWithOutbox pg c call o = (.ok row, x) ∧ x.committed = s by
      obtain ⟨x, hx, rfl⟩ := hx
      rw [hx]
      exact ⟨rfl, rfl⟩
    rcases ho with rfl | rfl
    · obtain ⟨x, hx, hs⟩ := viaProcedure_completes (o := noFault) rfl h
      refine ⟨x, ?_, hs⟩
      simp only [appendWithOutbox, hx]
      rfl
    · cases hprocedure : viaProcedure pg c.session call procedureMissing with
      | mk r x =>
        cases r with
        | ok row' => exact absurd (viaProcedure_ok hprocedure).1 (by simp [procedureMissing])
        | error e =>
          obtain ⟨-, n, hn, hbegin⟩ := begin_of_error hprocedure
          obtain rfl : n = 0 := Nat.le_zero.mp hn
          obtain ⟨x', hx', hs⟩ :=
            inTransaction_completes (o := procedureMissing) hbegin rfl rfl rfl h
          refine ⟨x', ?_, hs⟩
          simp only [appendWithOutbox, hprocedure, hx']
          rfl

end AssureCode.LedgerClient
