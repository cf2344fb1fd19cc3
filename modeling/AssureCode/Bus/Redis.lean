import AssureCode.Bus.Envelope
import AssureCode.Transition.Program

/-! # The Redis Streams bus

A turn of the polling loop of `RedisStreamsBus`, as a program that calls Redis, the clock and the
handler. The retry backoff, the log and the spans leave no trace in it.
-/

namespace AssureCode.Bus.Redis

open Js Program

/-- Named, so that an id is looked up in a list of them in one way everywhere. -/
scoped instance lawfulBEq_text : LawfulBEq Text := inferInstance

structure Entry where
  id : Text
  fields : List Text
  deriving DecidableEq

/-- The entries of a reply; a stream has one for an id. -/
structure Batch where
  entries : List Entry
  nodup : (entries.map Entry.id).Nodup

/-- The fields of an entry that `processEntry` adds to the dead letter stream. -/
structure DeadLetter where
  envelope : Text
  error : Text
  errorStack : Text
  failedAt : Text
  attempts : Text
  originalStream : Text
  originalId : Text

/--
The calls of a subscription, whose topic, group and consumer are fixed. Those of the clock and the
handler are told apart by the entry they are made for and the attempt.
-/
inductive Call
  | xautoclaim
  | xreadgroup
  | xack (id : Text)
  | xadd (stream : Text) (record : DeadLetter)
  | now (id : Text)
  | timestamp (id : Text)
  | handler (id : Text) (attempt : ℕ) (envelope : Json)

/-- Answers; `none` where Redis throws, and where the handler does not. -/
abbrev Call.Reply : Call → Type
  | .xautoclaim => Option Batch
  | .xreadgroup => Option (Option Batch)
  | .xack _ | .xadd _ _ => Option Unit
  | .now _ => TimeValue
  | .timestamp _ => Text
  | .handler _ _ _ => Option Thrown

abbrev Code : Type → Type := Program Call Call.Reply

def xautoclaim : Code Batch := (await Call.xautoclaim : Code (Option Batch)) >>= ofOption

def xreadgroup : Code (Option Batch) :=
  (await Call.xreadgroup : Code (Option (Option Batch))) >>= ofOption

def xack (id : Text) : Code Unit := (await (Call.xack id) : Code (Option Unit)) >>= ofOption

def xadd (stream : Text) (record : DeadLetter) : Code Unit :=
  (await (Call.xadd stream record) : Code (Option Unit)) >>= ofOption

/-- `Date.now()` -/
def now (id : Text) : Code TimeValue := await (Call.now id)

/-- `new Date().toISOString()` -/
def timestamp (id : Text) : Code Text := await (Call.timestamp id)

def handler (id : Text) (attempt : ℕ) (envelope : Json) : Code (Option Thrown) :=
  await (Call.handler id attempt envelope)

def maxRetries : ℕ := 3

/-- The variables of the retry loop. -/
structure Attempts where
  attempt : ℕ := 0
  success : Bool := false
  lastError : Thrown := .null

/-- The retry loop, with so many attempts left. -/
def retry (id : Text) (envelope : Json) : ℕ → Attempts → Code Attempts
  | 0, v => pure v
  | left + 1, v => do
    let attempt := v.attempt + 1
    match ← handler id attempt envelope with
    | none => pure { v with attempt, success := true }
    | some err => retry id envelope left { v with attempt, lastError := err }

def dlqTopic (topic : Text) : Text := topic ++ units ".dlq"

/-- `if (!success) { … }` -/
def forward (topic id : Text) (envelope : Json) (v : Attempts) : Code Unit := do
  let errorMessage ← ofOption v.lastError.errorMessage
  let failedAt ← timestamp id
  xadd (dlqTopic topic) {
    envelope := Json.stringify envelope
    error := errorMessage
    errorStack := v.lastError.errorStack
    failedAt
    attempts := units (toString v.attempt)
    originalStream := topic
    originalId := id }

variable (P : Platform) (topic : Text)

def processEntry (entry : Entry) : Code Unit :=
  match entry.fields.idxOf? (units "envelope") with
  | none => xack entry.id
  | some idx => do
    let envelope ← ofOption (entry.fields[idx + 1]?.bind Json.parse)
    let now ← now entry.id
    if reaches P now envelope then
      let v ← retry entry.id envelope maxRetries {}
      if v.success then xack entry.id
      else
        forward topic entry.id envelope v
        xack entry.id
    else raised

def reclaimStale : Code Unit :=
  catching (do
    let batch ← xautoclaim
    forM batch.entries (processEntry P topic)) (pure ())

/-- What `poll` does after `reclaimStale`. -/
def readNew : Code Unit := do
  match ← xreadgroup with
  | none => pure ()
  | some batch => forM batch.entries (processEntry P topic)

/-- A turn of the loop of `poll`. -/
def poll : Code Unit :=
  catching (do
    reclaimStale P topic
    readNew P topic) (pure ())

/-- The envelope of an entry, when it has one that parses. -/
def Entry.envelope? (entry : Entry) : Option Json :=
  (entry.fields.idxOf? (units "envelope")).bind fun idx =>
    entry.fields[idx + 1]?.bind Json.parse

end AssureCode.Bus.Redis
