import AssureCode.Bus.Envelope
import AssureCode.Transition.Program

/-! # The Kafka bus

What `KafkaBus` does with a message, as a program that calls the clock, the handler and the
producer. When it raises, the offset is not committed.
-/

namespace AssureCode.Bus.Kafka

open Js Program

/-- A message of the dead letter topic: its value, key and headers. -/
structure DeadLetter where
  value : Text
  key : Option Json
  error : Text
  errorStack : Text
  failedAt : Text
  attempts : Text
  originalStream : Text
  originalId : Text

/-- The calls made for a message; those of the handler are told apart by the attempt. -/
inductive Call
  | now
  | timestamp
  | handler (attempt : ℕ) (envelope : Json)
  | send (topic : Text) (message : DeadLetter)

/-- Answers; `none` where the producer throws, and where the handler does not. -/
abbrev Call.Reply : Call → Type
  | .now => TimeValue
  | .timestamp => Text
  | .handler _ _ => Option Thrown
  | .send _ _ => Option Unit

abbrev Code : Type → Type := Program Call Call.Reply

/-- `Date.now()` -/
def now : Code TimeValue := await Call.now

/-- `new Date().toISOString()` -/
def timestamp : Code Text := await Call.timestamp

def handler (attempt : ℕ) (envelope : Json) : Code (Option Thrown) :=
  await (Call.handler attempt envelope)

def send (topic : Text) (message : DeadLetter) : Code Unit :=
  (await (Call.send topic message) : Code (Option Unit)) >>= ofOption

def maxRetries : ℕ := 3

/-- The loop of `runWithRetries`, with so many attempts left. -/
def attemptsLeft (envelope : Json) : ℕ → ℕ → Thrown → Code (Option (ℕ × Thrown))
  | 0, attempt, lastError => pure (some (attempt, lastError))
  | left + 1, attempt, _ => do
    match ← handler (attempt + 1) envelope with
    | none => pure none
    | some err => attemptsLeft envelope left (attempt + 1) err

/-- `none` on success, or the number of attempts with the last error. -/
def runWithRetries (envelope : Json) : Code (Option (ℕ × Thrown)) :=
  attemptsLeft envelope maxRetries 0 .null

def dlqTopic (topic : Text) : Text := topic ++ units ".dlq"

/-- A message that `eachMessage` is given; `position` is its partition and offset. -/
structure Message where
  value : Option (List UInt8)
  position : Text

def sendToDlq (topic : Text) (envelope : Option Json) (raw : Text) (attempts : ℕ)
    (lastError : Thrown) (position : Text) : Code Unit := do
  let errorMessage ← ofOption lastError.errorMessage
  let failedAt ← timestamp
  send (dlqTopic topic) {
    value := (envelope.filter Json.truthy).elim raw Json.stringify
    key := Json.nonNullish (envelope.bind fun e => e.get (units "correlationId"))
    error := errorMessage
    errorStack := lastError.errorStack
    failedAt
    attempts := units (toString attempts)
    originalStream := topic
    originalId := position }

/-- How the engine decodes bytes, and the error that it throws for a text that is no JSON. -/
structure Engine where
  decode : List UInt8 → Text
  syntaxError : Text → Text × Text

variable (P : Platform) (N : Engine) (topic : Text)

def eachMessage (message : Message) : Code Unit :=
  match message.value with
  | none => pure ()
  | some bytes =>
    let raw := N.decode bytes
    match Json.parse raw with
    | none =>
      let err := N.syntaxError raw
      sendToDlq topic none raw 0 (.error err.1 err.2) message.position
    | some envelope => do
      let now ← now
      if reaches P now envelope then
        match ← runWithRetries envelope with
        | none => pure ()
        | some (attempts, lastError) =>
          sendToDlq topic (some envelope) raw attempts lastError message.position
      else raised

end AssureCode.Bus.Kafka
