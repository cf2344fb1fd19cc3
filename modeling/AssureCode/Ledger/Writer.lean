import Mathlib.Data.List.Sort
import AssureCode.Ledger.Tampering

/-! # Writing the hash chain

`LedgerClient.append` sends the canonical text of a payload to `append_ledger`, which hashes it
and stores it beside the value it denotes. Calls come one after another here; what several
sessions do at once is a matter of the advisory lock.
-/

namespace AssureCode.Ledger

open Js Json

inductive AppendError
  | notCanonicalizable (error : NotCanonicalizableError)
  /-- `RAISE EXCEPTION` -/
  | raised (message : Text)
  /-- The text is no input of `jsonb`. -/
  | invalidJson
  /-- There is no such contract. -/
  | foreignKey

/-- The rows of `merkle_ledger` in the order of the sequence that numbers them. -/
structure Database where
  nextId : ℕ
  contracts : List Text
  rows : List LedgerRow
  ordered : rows.Pairwise fun r q => r.ledgerId < q.ledgerId
  below : ∀ row ∈ rows, row.ledgerId < nextId

/-- The rows of the contract, `ORDER BY ledger_id ASC`. -/
def Database.getChain (db : Database) (contractId : Text) : List LedgerRow :=
  (db.rows.filter (·.contractId = contractId)).insertionSort fun r q => r.ledgerId ≤ q.ledgerId

/-- The arguments of a call of `append`, with the JSON value that the payload is. -/
structure AppendCall where
  contractId : Text
  actionType : Text
  payload : Data
  value : Json
  isValue : payload.value = some value
  plain : value.Plain

section Functions

-- The digest as the database computes it, and the cast of a text to `jsonb` that is read again.
variable (sqlSha256 : Text → Text) (jsonb : Text → Option Payload)

/-- The row that `append_ledger` inserts. -/
def Database.newRow (db : Database) (contractId actionType payloadCanonical : Text)
    (payload : Payload) : LedgerRow :=
  let previousHash := ((db.getChain contractId).getLast?.map (·.currentHash)).getD genesis
  { ledgerId := db.nextId
    contractId, actionType, payload, previousHash
    payloadCanonical := some payloadCanonical
    currentHash := sqlSha256 (payloadCanonical ++ newline :: previousHash)
    hashVersion := 2 }

theorem newRow_ledgerId (db : Database) (contractId actionType payloadCanonical : Text)
    (payload : Payload) :
    (db.newRow sqlSha256 contractId actionType payloadCanonical payload).ledgerId = db.nextId :=
  rfl

/-- `INSERT` of a row with the next number. -/
def Database.insert (db : Database) (row : LedgerRow) (h : row.ledgerId = db.nextId) :
    Database where
  nextId := db.nextId + 1
  contracts := db.contracts
  rows := db.rows ++ [row]
  ordered := by
    refine List.pairwise_append.mpr ⟨db.ordered, List.pairwise_singleton _ _, fun r hr q hq => ?_⟩
    rw [List.mem_singleton.mp hq, h]
    exact db.below r hr
  below := by
    intro r hr
    rcases List.mem_append.mp hr with hr | hr
    · exact (db.below r hr).trans (Nat.lt_succ_self _)
    · rw [List.mem_singleton.mp hr, h]
      exact Nat.lt_succ_self _

/-- `append_ledger` -/
def appendLedger (db : Database) (contractId actionType payloadCanonical : Text) :
    Except AppendError (LedgerRow × Database) :=
  if payloadCanonical = [] then
    .error (.raised (units "append_ledger requires canonical payload bytes, got NULL or empty"))
  else
    match jsonb payloadCanonical with
    | none => .error .invalidJson
    | some payload =>
      if db.contracts.contains contractId then
        let row := db.newRow sqlSha256 contractId actionType payloadCanonical payload
        .ok (row, db.insert row (newRow_ledgerId sqlSha256 db _ _ _ _))
      else .error .foreignKey

/-- `LedgerClient.append` -/
def append (db : Database) (call : AppendCall) : Except AppendError (LedgerRow × Database) := do
  let canonical ← (canonicalize call.payload).mapError .notCanonicalizable
  appendLedger sqlSha256 jsonb db call.contractId call.actionType canonical

/-- Calls one after another, each of which has to succeed. -/
def appendAll (db : Database) (calls : List AppendCall) : Except AppendError Database :=
  calls.foldlM (fun db call => return (← append sqlSha256 jsonb db call).2) db

end Functions

/-- What is read from the column is what `JSON.parse` makes of the text that was stored. -/
def ReadsBack (jsonb : Text → Option Payload) : Prop :=
  ∀ t payload v, jsonb t = some payload → Json.parse t = some v → payload.value.Same v

variable {sha256 sqlSha256 : Text → Text} {jsonb : Text → Option Payload} {db db' : Database}
  {row : LedgerRow} {call : AppendCall} {calls : List AppendCall} {contractId : Text}

/-! ## The rows of a contract -/

theorem getChain_eq (db : Database) (contractId : Text) :
    db.getChain contractId = db.rows.filter (·.contractId = contractId) :=
  List.Pairwise.insertionSort_eq ((db.ordered.imp Nat.le_of_lt).filter _)

theorem getChain_insert (h : row.ledgerId = db.nextId) :
    (db.insert row h).getChain contractId =
      db.getChain contractId ++ if row.contractId = contractId then [row] else [] := by
  rw [getChain_eq, getChain_eq, Database.insert, List.filter_append]
  by_cases hc : row.contractId = contractId <;> simp [hc]

/-! ## One call -/

/-- What a successful call leaves behind. -/
theorem append_ok (contractId : Text)
    (h : append sqlSha256 jsonb db call = .ok (row, db')) :
    ∃ payload, jsonb call.value.sorted.stringify = some payload ∧
      row = db.newRow sqlSha256 call.contractId call.actionType call.value.sorted.stringify
        payload ∧
      db'.getChain contractId =
        db.getChain contractId ++ if call.contractId = contractId then [row] else [] := by
  rw [append, canonicalize_value call.isValue call.plain] at h
  change appendLedger sqlSha256 jsonb db _ _ call.value.sorted.stringify = _ at h
  unfold appendLedger at h
  split at h
  · cases h
  · split at h
    · cases h
    · next payload hpayload =>
      split at h
      · cases h
        exact ⟨payload, hpayload, rfl, getChain_insert _⟩
      · cases h

/-- The row of a successful call extends the chain of its contract and is sound. -/
theorem append_sound (hsha : ∀ t, sqlSha256 t = sha256 t) (hjsonb : ReadsBack jsonb)
    (h : append sqlSha256 jsonb db call = .ok (row, db')) :
    row.previousHash = tailHash (db.getChain call.contractId) ∧ row.Sound sha256 := by
  obtain ⟨payload, hpayload, rfl, -⟩ := append_ok call.contractId h
  have hsorted := plain_sorted call.plain
  have hsame : payload.value.Same call.value.sorted :=
    hjsonb _ _ _ hpayload (parse_stringify hsorted)
  have hplain := Plain.of_same hsame payload.distinct hsorted
  have htext : payload.value.sorted.stringify = call.value.sorted.stringify := by
    rw [(same_iff_text hplain hsorted).mpr hsame, sorted_sorted]
  exact ⟨rfl, sound_iff.mpr ⟨_, le_refl currentHashVersion, rfl, (hsha _).symm, hplain, htext⟩⟩

/-! ## All calls -/

/-- The chain of a contract grows by one sound row for each call, at its end. -/
theorem appendAll_sound (hsha : ∀ t, sqlSha256 t = sha256 t) (hjsonb : ReadsBack jsonb)
    (hrun : appendAll sqlSha256 jsonb db calls = .ok db')
    (ha : Accepted sha256 (db.getChain contractId)) :
    Accepted sha256 (db'.getChain contractId) ∧ (db'.getChain contractId).length =
      (db.getChain contractId).length + calls.countP (·.contractId = contractId) := by
  induction calls generalizing db with
  | nil =>
    cases hrun
    exact ⟨ha, rfl⟩
  | cons call calls ih =>
    rw [appendAll, List.foldlM_cons] at hrun
    obtain ⟨db₁, hcall, hrun⟩ := bind_eq_ok.mp hrun
    obtain ⟨⟨row, db₂⟩, happend, hdb⟩ := bind_eq_ok.mp hcall
    cases hdb
    obtain ⟨-, -, -, hchain⟩ := append_ok contractId happend
    obtain ⟨hprevious, hsound⟩ := append_sound hsha hjsonb happend
    have ha' : Accepted sha256 (db₂.getChain contractId) := by
      rw [hchain]
      split
      · next hc =>
        subst hc
        obtain ⟨hchained, hrows⟩ := accepted_iff.mp ha
        refine accepted_iff.mpr ⟨chained_append.mpr ⟨hchained, hprevious, trivial⟩, fun r hr => ?_⟩
        rcases List.mem_append.mp hr with hr | hr
        · exact hrows r hr
        · rwa [List.mem_singleton.mp hr]
      · rwa [List.append_nil]
    obtain ⟨haccepted, hlength⟩ := ih hrun ha'
    refine ⟨haccepted, ?_⟩
    rw [hlength, hchain, List.length_append, List.countP_cons]
    by_cases hc : call.contractId = contractId <;> simp [hc]
    omega

/-- The verifier accepts what was written, with one verified row for each call. -/
theorem verifyChainDetailed_appendAll (hsha : ∀ t, sqlSha256 t = sha256 t)
    (hjsonb : ReadsBack jsonb) (hnew : db.getChain contractId = [])
    (hrun : appendAll sqlSha256 jsonb db calls = .ok db') :
    verifyChainDetailed sha256 (db'.getChain contractId) =
      .ok ⟨true, calls.countP (·.contractId = contractId), 0, []⟩ := by
  have hempty : Accepted sha256 (db.getChain contractId) := by
    rw [hnew]
    exact ⟨⟨true, 0, 0, []⟩, rfl, rfl, rfl⟩
  obtain ⟨haccepted, hlength⟩ := appendAll_sound hsha hjsonb hrun hempty
  obtain ⟨hchained, hrows⟩ := accepted_iff.mp haccepted
  have hsome : ∀ row ∈ db'.getChain contractId, row.recomputable ≠ none := by
    intro row hrow
    obtain ⟨stored, hstored, -⟩ := hrows row hrow
    simp [hstored]
  rw [verifyChainDetailed_passes hchained fun row hrow => .inr (hrows row hrow),
    List.countP_eq_length.mpr fun row hrow => decide_eq_true (hsome row hrow),
    List.countP_eq_zero.mpr fun row hrow => by simp [hsome row hrow], hlength, hnew,
    List.length_nil, Nat.zero_add]

/-- The column, for two texts; the second comes back with its members in another order. -/
def columns (t : Text) : Option Payload :=
  if t = units "\x7b\x7d" then some opening.payload
  else if t = units "\x7b\"by\":\"qa\",\"paid\":true\x7d" then some settled.payload
  else none

theorem plain_opening : opening.payload.value.Plain := by simp [opening, Plain, PlainMembers]

theorem columns_readsBack : ReadsBack columns := by
  have hempty : units "\x7b\x7d" = opening.payload.value.stringify := by decide +kernel
  have hsettled : units "\x7b\"by\":\"qa\",\"paid\":true\x7d" =
      settledSorted.payload.value.stringify := by decide +kernel
  have hkeys : units "paid" ≠ units "by" := by decide
  intro t payload v hcolumn hparse
  unfold columns at hcolumn
  split at hcolumn
  · next ht =>
    cases hcolumn
    rw [ht, hempty, parse_stringify plain_opening] at hparse
    cases hparse
    simp [opening, Same, SameMembers]
  · split at hcolumn
    · next ht =>
      cases hcolumn
      rw [ht, hsettled, parse_stringify (by
        simp [settledSorted, settling, Plain, PlainMembers, hkeys.symm])] at hparse
      cases hparse
      exact ⟨rfl, ⟨.bool true, rfl, rfl⟩, ⟨.string (units "qa"), rfl, rfl⟩, trivial⟩
    · cases hcolumn

/-- Before the first row of the contract. -/
def started : Database where
  nextId := 1
  contracts := [units "c-1"]
  rows := []
  ordered := .nil
  below := by simp

def openingCall : AppendCall where
  contractId := units "c-1"
  actionType := units "AUDIT_FAILED"
  payload := .object []
  value := .object []
  isValue := rfl
  plain := plain_opening

def settlingCall : AppendCall where
  contractId := units "c-1"
  actionType := units "INVOICE"
  payload := .object [(units "paid", .bool true), (units "by", .string (units "qa"))]
  value := .object [(units "paid", .bool true), (units "by", .string (units "qa"))]
  isValue := rfl
  plain := by simp [Plain, PlainMembers, show units "paid" ≠ units "by" by decide]

theorem verifyChainDetailed_appendAll_started :
    ∃ db, appendAll digest columns started [openingCall, settlingCall] = .ok db ∧
      verifyChainDetailed digest (db.getChain (units "c-1")) = .ok ⟨true, 2, 0, []⟩ := by
  obtain ⟨db, hrun⟩ :
      ∃ db, appendAll digest columns started [openingCall, settlingCall] = .ok db := by
    have hok : (appendAll digest columns started [openingCall, settlingCall]).isOk = true := by
      decide +kernel
    cases h : appendAll digest columns started [openingCall, settlingCall] with
    | error e => rw [h] at hok; cases hok
    | ok db => exact ⟨db, rfl⟩
  exact ⟨db, hrun, verifyChainDetailed_appendAll (fun _ => rfl) columns_readsBack rfl hrun⟩

end AssureCode.Ledger
