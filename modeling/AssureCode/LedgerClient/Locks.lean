import AssureCode.LedgerClient.Atomic

/-! # The lock of a contract

`append_ledger` gives its lock back in its last statement. An error before it leaves the lock with
the session, which a rollback does not change and the pool does not end.
-/

namespace AssureCode.LedgerClient

open Js Ledger

variable {pg : Postgres} {x : Session} {c : Connection} {o : Faults} {fault : Option Fault} {n : ℕ}

/-! ## Executions that raise -/

section Raises

variable (pg)

/-- `append_ledger` takes the lock and raises before it gives the lock back. -/
def raisesLocked (db : Database) (contractId canonical : Text) (fault : Option Fault) : Bool :=
  fault ≠ some .before && canonical ≠ [] &&
    (fault = some .locked || (pg.jsonb canonical).isNone || !db.contracts.contains contractId)

/-- The same of a call of `append`, whose payload has a canonical text. -/
def appendRaisesLocked (s : Store) (call : Append) (fault : Option Fault) : Bool :=
  match canonicalize call.payload with
  | .error _ => false
  | .ok canonical => raisesLocked pg s.ledger call.contractId canonical fault

/-- The same of the stored procedure, whose arguments are sent and cast. -/
def procedureRaisesLocked (s : Store) (call : AppendWithOutbox) (fault : Option Fault) : Bool :=
  match canonicalize call.payload, call.event.parameter with
  | .ok canonical, .ok event =>
    (castEvent pg event).isSome && raisesLocked pg s.ledger call.contractId canonical fault
  | _, _ => false

/-- The stored procedure has nothing to refuse, and nothing else fails it. -/
def procedureReturns (s : Store) (call : AppendWithOutbox) (o : Faults) : Bool :=
  match canonicalize call.payload, call.event.parameter with
  | .ok canonical, .ok event =>
    o.procedure.isNone && canonical ≠ [] && (pg.jsonb canonical).isSome &&
      s.ledger.contracts.contains call.contractId &&
      (event.bind pg.jsonb).isSome && (pg.varchar call.eventTopic).isSome &&
      call.correlation.all fun id => (pg.varchar id).isSome
  | _, _ => false

/-- The fallback gets as far as its own execution of `append_ledger`, and that one raises. -/
def fallbackRaisesLocked (s : Store) (call : AppendWithOutbox) (o : Faults) : Bool :=
  !procedureReturns pg s call o && !o.begin && appendRaisesLocked pg s call.toAppend o.append

end Raises

/-! ## Locks that are kept -/

theorem release_acquire (locks : Locks) (key : ℤ) : (locks.acquire key).release key = locks := by
  simp [Locks.acquire, Locks.release]

/-- An execution that raises under its lock takes it once more than it gives it back. -/
theorem appendLedgerLocked_locks {db : Database} {locks : Locks}
    {contractId actionType canonical : Text} :
    (appendLedgerLocked pg db locks contractId actionType canonical fault).2 =
      if raisesLocked pg db contractId canonical fault then locks.acquire (pg.hashtext contractId)
      else locks := by
  unfold appendLedgerLocked
  split
  · simp [raisesLocked, *]
  · split
    · simp [raisesLocked, *]
    · dsimp only
      split
      · simp [raisesLocked, *]
      · rename_i hbefore hcanonical hlocked
        cases hjsonb : pg.jsonb canonical with
        | none => simp [appendLedger, raisesLocked, hjsonb, hcanonical, hbefore]
        | some payload =>
          by_cases hcontract : contractId ∈ db.contracts
          · have hraises : raisesLocked pg db contractId canonical fault = false := by
              simp [raisesLocked, hjsonb, hcontract, hlocked]
            rw [hraises]
            simp only [appendLedger, hcanonical, if_false, hjsonb, List.contains_iff_mem, hcontract,
              if_true, Bool.false_eq_true]
            split
            · exact release_acquire locks _
            · exact release_acquire locks _
          · simp [appendLedger, raisesLocked, hjsonb, hcanonical, hcontract, hbefore]

theorem put_locks {s : Store} : (x.put s).locks = x.locks := by
  unfold Session.put
  split <;> rfl

/-- A query keeps the locks that the function leaves. -/
theorem query_locks {α : Type} {f : Store → Locks → Except ClientError (α × Store) × Locks} :
    (x.query n f).2.locks = (f x.store x.locks).2 := by
  unfold Session.query
  split
  · rename_i hf
    rw [hf]
    rfl
  · rename_i hf
    rw [hf]
    exact put_locks

theorem append_locks {call : Append} :
    (append pg x call fault n).2.locks =
      if appendRaisesLocked pg x.store call fault then
        x.locks.acquire (pg.hashtext call.contractId)
      else x.locks := by
  cases hcanonical : canonicalize call.payload with
  | error e => simp [append, appendRaisesLocked, hcanonical]
  | ok canonical =>
    simp only [append, appendRaisesLocked, hcanonical, query_locks]
    exact appendLedgerLocked_locks

theorem appendLedgerAndOutbox_locks {s : Store} {locks : Locks}
    {contractId actionType canonical topic : Text} {event correlationId : Option Text} :
    (appendLedgerAndOutbox pg s locks contractId actionType canonical topic event correlationId
        fault).2 =
      if (castEvent pg event).isSome && raisesLocked pg s.ledger contractId canonical fault then
        locks.acquire (pg.hashtext contractId)
      else locks := by
  have hlocks : (appendLedgerLocked pg s.ledger locks contractId actionType canonical fault).2 =
      if raisesLocked pg s.ledger contractId canonical fault then
        locks.acquire (pg.hashtext contractId)
      else locks := appendLedgerLocked_locks
  unfold appendLedgerAndOutbox
  split
  · rename_i hcast
    simp [hcast]
  · rename_i hcast
    simp only [hcast, Option.isSome_some, Bool.true_and]
    rw [← hlocks]
    split
    · rename_i hledger
      rw [hledger]
    · rename_i hledger
      rw [hledger]
      split <;> rfl

variable {call : AppendWithOutbox}

theorem viaProcedure_locks :
    (viaProcedure pg c.session call o).2.locks =
      if procedureRaisesLocked pg c.store call o.procedure then
        c.locks.acquire (pg.hashtext call.contractId)
      else c.locks := by
  cases hcanonical : canonicalize call.payload with
  | error e => simp [viaProcedure, procedureRaisesLocked, hcanonical, Connection.session]
  | ok canonical =>
    cases hevent : call.event.parameter with
    | error e => simp [viaProcedure, procedureRaisesLocked, hcanonical, hevent, Connection.session]
    | ok event =>
      simp only [viaProcedure, procedureRaisesLocked, hcanonical, hevent, query_locks]
      exact appendLedgerAndOutbox_locks

theorem inTransaction_locks :
    (inTransaction pg x call o).2.locks =
      (append pg x call.toAppend o.append o.appendDrawn).2.locks := by
  unfold inTransaction
  split
  · rename_i happend
    rw [happend]
  · rename_i happend
    rw [happend]
    split
    · rfl
    · split
      · rfl
      · split
        · rfl
        · split
          · rfl
          · dsimp only
            split
            · exact put_locks
            · exact put_locks

/-- The outbox takes a row whose columns are admitted. -/
theorem exists_insertOutbox_iff {s : Store} {payload : Option Payload} :
    (∃ s', insertOutbox pg s call.eventTopic payload call.correlation = some s') ↔
      payload.isSome = true ∧ (pg.varchar call.eventTopic).isSome = true ∧
        (call.correlation.all fun id => (pg.varchar id).isSome) = true := by
  simp only [insertOutbox_eq_some_iff]
  constructor
  · rintro ⟨s', r, htopic, rfl, hcorrelation, rfl⟩
    refine ⟨rfl, by rw [htopic]; rfl, ?_⟩
    cases hid : call.correlation with
    | none => rfl
    | some id =>
      rw [hid, Option.elim_some, Option.map_eq_some_iff] at hcorrelation
      obtain ⟨kept, hkept, -⟩ := hcorrelation
      simp [hkept]
  · rintro ⟨hpayload, htopic, hcorrelation⟩
    obtain ⟨p, rfl⟩ := Option.isSome_iff_exists.mp hpayload
    obtain ⟨topic, htopic⟩ := Option.isSome_iff_exists.mp htopic
    cases hid : call.correlation with
    | none => exact ⟨_, ⟨topic, p, none⟩, htopic, rfl, rfl, rfl⟩
    | some id =>
      rw [hid] at hcorrelation
      obtain ⟨kept, hkept⟩ := Option.isSome_iff_exists.mp (by simpa using hcorrelation)
      exact ⟨_, ⟨topic, p, some kept⟩, htopic, rfl, by simp [hkept], rfl⟩

/-- The stored procedure has nothing to refuse when the call can be completed. -/
theorem procedureReturns_iff {s : Store} :
    procedureReturns pg s call o = true ↔
      o.procedure = none ∧ ∃ row s', Completes pg call s row s' := by
  unfold procedureReturns Completes
  cases hcanonical : canonicalize call.payload with
  | error e => simp
  | ok canonical =>
    cases hevent : call.event.parameter with
    | error e => simp
    | ok event =>
      constructor
      · intro h
        simp only [Bool.and_eq_true, decide_eq_true_eq, ne_eq, Option.isNone_iff_eq_none] at h
        obtain ⟨⟨⟨⟨⟨⟨hfault, hne⟩, hjsonb⟩, hcontract⟩, hevent⟩, htopic⟩, hcorrelation⟩ := h
        obtain ⟨ledgerPayload, hjsonb⟩ := Option.isSome_iff_exists.mp hjsonb
        obtain ⟨payload, hpayload⟩ := Option.isSome_iff_exists.mp hevent
        obtain ⟨text, rfl, htext⟩ := Option.bind_eq_some_iff.mp hpayload
        have hrow :=
          newRow_ledgerId pg.sha256 s.ledger call.contractId call.actionType canonical ledgerPayload
        have hledger := appendLedger_eq_ok_iff.mpr
          ⟨hne, hcontract, ledgerPayload, hjsonb, rfl, hrow, rfl⟩
        obtain ⟨s', hs'⟩ : ∃ s', insertOutbox pg ⟨s.ledger.insert _ hrow, s.outbox⟩ call.eventTopic
            (some payload) call.correlation = some s' :=
          exists_insertOutbox_iff.mpr ⟨rfl, htopic, hcorrelation⟩
        exact ⟨hfault, _, s', canonical, some text, some payload, _, rfl, rfl,
          by simp [castEvent, htext], hledger, hs'⟩
      · rintro ⟨hfault, row, s', canonical', event', payload, db, hok, hok', hcast, hledger, hs'⟩
        cases hok
        cases hok'
        obtain ⟨hne, hcontract, ledgerPayload, hjsonb, -⟩ := appendLedger_eq_ok_iff.mp hledger
        obtain ⟨hpayload, htopic, hcorrelation⟩ := exists_insertOutbox_iff.mp ⟨s', hs'⟩
        have hbind : (event.bind pg.jsonb).isSome = true := by
          cases event with
          | none =>
            cases hcast
            cases hpayload
          | some text =>
            obtain ⟨p, hp, -⟩ := Option.map_eq_some_iff.mp hcast
            simp [hp]
        simp only [hfault, Option.isNone_none, hne, ne_eq, not_false_eq_true, decide_true, hjsonb,
          Option.isSome_some, hcontract, hbind, htopic, hcorrelation, Bool.and_self]

theorem viaProcedure_ok_iff :
    (∃ row x, viaProcedure pg c.session call o = (.ok row, x)) ↔
      procedureReturns pg c.store call o = true := by
  rw [procedureReturns_iff]
  constructor
  · rintro ⟨row, x, h⟩
    obtain ⟨hfault, hcompletes⟩ := viaProcedure_ok h
    exact ⟨hfault, row, x.committed, hcompletes⟩
  · rintro ⟨hfault, row, s, h⟩
    obtain ⟨x, hx, -⟩ := viaProcedure_completes hfault h
    exact ⟨row, x, hx⟩

theorem appendRaisesLocked_skip {s : Store} {call : Append} :
    appendRaisesLocked pg (s.skip n) call fault = appendRaisesLocked pg s call fault := rfl

theorem locks_acquire_if {locks : Locks} {key : ℤ} {b : Bool} :
    (if b then locks.acquire key else locks) key = locks key + b.toNat := by
  cases b
  · rfl
  · simp [Locks.acquire]

/-- Each of the executions of a call may keep the lock once more. -/
theorem appendWithOutbox_locks (ho : o.connect = false) :
    (appendWithOutbox pg c call o).2.locks (pg.hashtext call.contractId) =
      c.locks (pg.hashtext call.contractId) +
        (procedureRaisesLocked pg c.store call o.procedure).toNat +
        (fallbackRaisesLocked pg c.store call o).toNat := by
  have hfirst : ∀ {r x}, viaProcedure pg c.session call o = (r, x) →
      x.locks (pg.hashtext call.contractId) = c.locks (pg.hashtext call.contractId) +
        (procedureRaisesLocked pg c.store call o.procedure).toNat := by
    intro r x h
    have hlocks : (viaProcedure pg c.session call o).2.locks = _ := viaProcedure_locks
    rw [h] at hlocks
    exact (congrFun hlocks _).trans locks_acquire_if
  unfold appendWithOutbox
  rw [if_neg (by simp [ho])]
  split
  · rename_i row x hprocedure
    have hreturns := viaProcedure_ok_iff.mp ⟨row, x, hprocedure⟩
    rw [hfirst hprocedure, fallbackRaisesLocked, hreturns]
    rfl
  · rename_i e x hprocedure
    have hreturns : procedureReturns pg c.store call o = false := by
      rw [Bool.eq_false_iff]
      intro h
      obtain ⟨row, x', hok⟩ := viaProcedure_ok_iff.mpr h
      rw [hprocedure] at hok
      cases hok
    split
    · rename_i hb
      rw [hfirst hprocedure, fallbackRaisesLocked, hreturns, hb]
      rfl
    · rename_i hb
      obtain ⟨-, n, -, hbegin⟩ := begin_of_error hprocedure
      have hsecond : (inTransaction pg x.begin call o).2.locks (pg.hashtext call.contractId) =
          x.locks (pg.hashtext call.contractId) +
            (appendRaisesLocked pg c.store call.toAppend o.append).toNat := by
        rw [inTransaction_locks, append_locks, Session.store, hbegin, Option.getD_some,
          appendRaisesLocked_skip]
        exact locks_acquire_if
      rw [fallbackRaisesLocked, hreturns, Bool.eq_false_iff.mpr hb, ← hfirst hprocedure]
      refine Eq.trans ?_ hsecond
      split
      · rename_i hfallback
        rw [hfallback]
      · rename_i hfallback
        rw [hfallback]
        split <;> rfl

/-! ## The lock after a call -/

variable (pg) in
/-- The session does not hold the lock of the contract, nor does it after a rollback. -/
def Session.Free (x : Session) (contractId : Text) : Prop :=
  x.locks (pg.hashtext contractId) = 0 ∧ x.rollback.locks (pg.hashtext contractId) = 0

variable (pg) in
/-- No execution of `append_ledger` in a call raises under its lock. -/
def NoneRaises (s : Store) (call : AppendWithOutbox) (o : Faults) : Prop :=
  o.connect = false → procedureRaisesLocked pg s call o.procedure = false ∧
    fallbackRaisesLocked pg s call o = false

theorem free_iff {contractId : Text} :
    x.Free pg contractId ↔ x.locks (pg.hashtext contractId) = 0 :=
  and_iff_left_of_imp id

/--
After a call the session holds no lock of the contract exactly when it held none before and no
execution of `append_ledger` raises between taking the lock and giving it back.
-/
theorem free_after_call_iff (pg : Postgres) :
    (∀ (x : Session) (call : Append) (fault : Option Fault) (drawn : ℕ),
      (append pg x call fault drawn).2.Free pg call.contractId ↔
        x.Free pg call.contractId ∧ appendRaisesLocked pg x.store call fault = false) ∧
    ∀ (c : Connection) (call : AppendWithOutbox) (o : Faults),
      (appendWithOutbox pg c call o).2.Free pg call.contractId ↔
        c.session.Free pg call.contractId ∧ NoneRaises pg c.store call o := by
  constructor
  · intro x call fault drawn
    rw [free_iff, free_iff, append_locks, locks_acquire_if]
    cases appendRaisesLocked pg x.store call fault <;> simp
  · intro c call o
    rw [free_iff, free_iff, NoneRaises]
    cases ho : o.connect with
    | true => simp [appendWithOutbox, ho]
    | false =>
      rw [appendWithOutbox_locks ho]
      cases procedureRaisesLocked pg c.store call o.procedure <;>
        cases fallbackRaisesLocked pg c.store call o <;> simp [Connection.session]

/-! ## A contract that does not exist -/

def database : Postgres where
  sha256 := digest
  jsonb := columns
  varchar := some
  hashtext _ := 1

def pooled : Connection := ⟨⟨started, []⟩, fun _ => 0⟩

def unknownContract : AppendWithOutbox where
  contractId := units "c-2"
  actionType := units "AUDIT_FAILED"
  payload := .object []
  eventTopic := units "audit.completed"
  event := .text (units "\x7b\x7d")
  correlationId := none

/-- The session keeps the lock of a contract that does not exist, the fallback once more. -/
theorem lock_kept_unknownContract :
    pooled.session.Free database unknownContract.contractId ∧
    ¬ (append database pooled.session unknownContract.toAppend none 1).2.Free database
      unknownContract.contractId ∧
    (appendWithOutbox database pooled unknownContract noFault).2.locks
      (database.hashtext unknownContract.contractId) = 2 := by
  refine ⟨⟨rfl, rfl⟩, ?_, by decide +kernel⟩
  rw [free_iff]
  decide +kernel

end AssureCode.LedgerClient
