import AssureCode.Bus.Redis
import AssureCode.Js.Stringify
import AssureCode.Outbox.Model

/-! # Publishing to a stream

The envelope that `publish` wraps around a payload, and the entry it adds to the stream of the
topic. What a consumer reads of the entry is that envelope again.
-/

namespace AssureCode.Bus

open Js

/-- What the producer finds out for itself when it publishes. -/
structure Stamp where
  /-- `randomUUID()` -/
  id : Text
  /-- `new Date().toISOString()` -/
  timestamp : Text
  /-- `getCorrelationId() || randomUUID()` -/
  correlationId : Text
  /-- What the propagator has injected. -/
  carrier : List (Text × Text)
  nodup : (carrier.map Prod.fst).Nodup := by decide

def buildEnvelope (stamp : Stamp) (topic : Text) (payload : Json) (correlationId : Text) : Json :=
  .object [
    (units "id", .string stamp.id),
    (units "topic", .string topic),
    (units "timestamp", .string stamp.timestamp),
    (units "correlationId", .string correlationId),
    (units "payload", payload),
    (units "traceContext", .object (stamp.carrier.map fun m => (m.1, .string m.2)))]

/-- `publish`, up to the call of the broker; an empty correlation id is none. -/
def envelopeOf (stamp : Stamp) (message : Outbox.Message) : Json :=
  buildEnvelope stamp message.topic message.payload
    ((message.correlationId.filter (· ≠ [])).getD stamp.correlationId)

variable {stamp : Stamp} {topic correlationId : Text} {payload : Json} {message : Outbox.Message}

theorem plainMembers_map_string (carrier : List (Text × Text)) :
    Json.PlainMembers (carrier.map fun m => (m.1, .string m.2)) := by
  induction carrier with
  | nil => trivial
  | cons m carrier ih => exact ⟨trivial, ih⟩

/-- An envelope can be written and read again when its payload can. -/
theorem plain_buildEnvelope (h : payload.Plain) :
    (buildEnvelope stamp topic payload correlationId).Plain := by
  refine ⟨?_, trivial, trivial, trivial, trivial, h, ⟨?_, plainMembers_map_string _⟩, trivial⟩
  · change [units "id", units "topic", units "timestamp", units "correlationId", units "payload",
      units "traceContext"].Nodup
    decide
  · rw [List.map_map]
    exact stamp.nodup

namespace Redis

/-- The fields of `XADD` for an envelope. -/
def envelopeFields (text : Text) : List Text := [units "envelope", text]

theorem envelope?_envelopeFields {id text : Text} :
    Entry.envelope? ⟨id, envelopeFields text⟩ = Json.parse text := rfl

/-- The entry for an event has its envelope. -/
theorem envelope?_publish {id : Text} (h : message.payload.Plain) :
    Entry.envelope? ⟨id, envelopeFields (Json.stringify (envelopeOf stamp message))⟩ =
      some (envelopeOf stamp message) := by
  rw [envelope?_envelopeFields]
  exact Json.parse_stringify (plain_buildEnvelope h)

end Redis

end AssureCode.Bus
