import AssureCode.Bus.Replay
import AssureCode.Outbox.NoLoss
import AssureCode.Transition.Concurrent

/-! # From the outbox to the handlers

The outbox with its relays, a stream for every topic with its consumers and its dead letters, and
any number of replays of dead letters. What a relay publishes is added to the stream of its topic;
others may add to the streams as well. `MAXLEN ~` trims a stream only as long as it keeps its
length.
-/

namespace AssureCode.Delivery

open Js Bus Replay
open Settlement (Outcome)

structure Store where
  outbox : Outbox.State := {}
  streams : Text → Redis.State := fun _ => {}
  /-- How many of the dead letters of a topic are trimmed. -/
  trimmed : Text → ℕ := fun _ => 0
  /-- The dead letters of a topic that are deleted. -/
  removed : Text → List ℕ := fun _ => []

/-- What happens besides replays; the id and the stamp are those of an event that is published. -/
inductive Move
  | outbox (a : Outbox.Action) (id : Text) (stamp : Stamp)
  | stream (topic : Text) (a : Redis.Action)
  | trimLetters (topic : Text) (n : ℕ)

/-- Whether a replay's call takes effect and is answered, and the id of what it adds. -/
structure Choice where
  outcome : Outcome
  id : Text := []

/-- The message that reaches the bus with a step of the outbox. -/
def published (s : Outbox.State) : Outbox.Action → Option Outbox.Message
  | .advance i o =>
    match s.relays i with
    | .running (.publish row _) _ => if o = .failed then none else some row.message
    | _ => none
  | _ => none

/-- A stream keeps its length when it is trimmed. -/
def keepsLength (streamMaxLen : ℕ) (s : Redis.State) : Redis.Action → Bool
  | .trim n => n + streamMaxLen ≤ s.entries.length
  | _ => true

section

variable (P : Platform) (batchSize streamMaxLen : ℕ)

def moveStream (s : Store) (topic : Text) (a : Redis.Action) : Option Store :=
  if keepsLength streamMaxLen (s.streams topic) a then
    (Redis.step P topic (s.streams topic) a).map fun stream =>
      { s with streams := Function.update s.streams topic stream }
  else none

/-- `XADD` of an envelope; an id is never used twice. -/
def addEnvelope (s : Store) (topic id envelope : Text) : Option Store :=
  moveStream P streamMaxLen s topic (.publish ⟨id, Redis.envelopeFields envelope⟩)

def pass (s : Store) : Move → Option Store
  | .outbox a id stamp =>
    (Outbox.step batchSize s.outbox a).bind fun outbox =>
      match published s.outbox a with
      | none => some { s with outbox }
      | some message =>
        addEnvelope P streamMaxLen { s with outbox } message.topic id
          (Json.stringify (envelopeOf stamp message))
  | .stream topic a => moveStream P streamMaxLen s topic a
  | .trimLetters topic n =>
    if n + streamMaxLen ≤ (s.streams topic).added.length then
      some { s with trimmed := Function.update s.trimmed topic (max (s.trimmed topic) n) }
    else none

/-- The letter in this place, unless it is deleted or trimmed. -/
def Store.letter (s : Store) (dlqStream : Text) (id : ℕ) : Option (List Text) :=
  if s.trimmed (withoutDlq dlqStream) ≤ id ∧ id ∉ s.removed (withoutDlq dlqStream) then
    (s.streams (withoutDlq dlqStream)).added[id]?.bind fun letter =>
      if letter.1 = dlqStream then some (fields letter.2) else none
  else none

def remove (s : Store) (dlqStream : Text) (id : ℕ) : Store :=
  let topic := withoutDlq dlqStream
  { s with removed := Function.update s.removed topic (id :: s.removed topic) }

def serve (s : Store) (_ : Trail) (c : Call) (x : Choice) : Option (c.Reply × Store) :=
  match c with
  | .xrange stream id => some (if x.outcome = .ok then some (s.letter stream id) else none, s)
  | .xadd stream envelope =>
    if x.outcome = .failed then some (none, s)
    else (addEnvelope P streamMaxLen s stream x.id envelope).map fun t =>
      (if x.outcome = .ok then some x.id else none, t)
  | .xdel stream id =>
    if x.outcome = .failed then some (none, s)
    else some (if x.outcome = .ok then some () else none, remove s stream id)

/-- A replay of a letter of the topic. -/
def service : Service Call Call.Reply (Text × Text) Store (Text × ℕ) Choice Move where
  start _ request := some ⟨[], replayEvent (Redis.dlqTopic request.1) request.2⟩
  serve := serve P streamMaxLen
  pass := pass P batchSize streamMaxLen

/-- The outbox and the streams are empty, and nothing is under way. -/
def Initial (s : Store) : Prop :=
  Outbox.Initial s.outbox ∧
    (∀ topic, Redis.Initial (s.streams topic) ∧ (s.streams topic).added = []) ∧
    (∀ topic, s.trimmed topic = 0) ∧ ∀ topic, s.removed topic = []

abbrev System : Type := Concurrent.State Call Call.Reply (Text × Text) Store

abbrev Action : Type := Concurrent.Action (Text × ℕ) Choice Move

def system : Machine System Action :=
  Concurrent.system (service P batchSize streamMaxLen) Initial

end

/-- The payload of a row is a `jsonb` value: its numbers are finite and its keys distinct. -/
def Storable (_ : System) (a : Action) : Prop :=
  ∀ row id stamp, a = .pass (.outbox (.append row) id stamp) → row.payload.Plain

end AssureCode.Delivery
