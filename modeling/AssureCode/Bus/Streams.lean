import AssureCode.Bus.Redis
import AssureCode.Settlement.Model
import AssureCode.Transition.Run

/-! # A stream and its consumers

A stream with the pending entries of a consumer group, its dead letter stream, and any number of
consumers that poll it. A call to Redis may succeed, fail, or take effect without being answered,
and a consumer may die between any two calls. Which pending entries have been idle for long enough
is not determined by the state.
-/

namespace AssureCode.Bus.Redis

open Js
open Settlement (Outcome)

/-- A consumer has made these calls in its present turn, and goes on with the program. -/
inductive Consumer
  | running (history : List (Program.Event Call.Reply)) (program : Code Unit)
  | dead

/--
The stream since the group was created: all that was ever added to it, how many of its entries are
trimmed, and how many the group has been given.
-/
structure State where
  entries : List Entry := []
  nodup : (entries.map Entry.id).Nodup := by decide
  trimmed : ℕ := 0
  delivered : ℕ := 0
  /-- The ids of pending entries with their consumers. -/
  pending : List (Text × ℕ) := []
  acknowledged : List Text := []
  /-- All that was ever added to other streams. -/
  added : List (Text × DeadLetter) := []
  /-- The calls of the handler that returned. -/
  handled : List (Text × Json) := []
  consumers : ℕ → Consumer := fun _ => .running [] (.done ())

def State.setConsumer (s : State) (i : ℕ) (b : Consumer) : State :=
  { s with consumers := Function.update s.consumers i b }

/-- What is up to the environment: the idle entries, the clock, and what the handler throws. -/
structure Choice where
  idle : List Text := []
  now : TimeValue := ⟨0, by decide⟩
  timestamp : Text := []
  thrown : Option Thrown := none

theorem nodup_of_sublist {es es' : List Entry} (h : es.Sublist es')
    (hnodup : (es'.map Entry.id).Nodup) : (es.map Entry.id).Nodup :=
  hnodup.sublist (h.map _)

def State.IsPending (s : State) (id : Text) : Prop := ∃ p ∈ s.pending, p.1 = id

instance (s : State) (id : Text) : Decidable (s.IsPending id) :=
  inferInstanceAs (Decidable (∃ p ∈ s.pending, p.1 = id))

/-- The pending entries that have been idle, as far as they are still there. -/
def State.claimed (s : State) (idle : List Text) : Batch where
  entries := ((s.entries.drop s.trimmed).filter fun e => e.id ∈ idle ∧ s.IsPending e.id).take 10
  nodup := nodup_of_sublist ((List.take_sublist _ _).trans
    (List.filter_sublist.trans (List.drop_sublist _ _))) s.nodup

/-- The entries that the group has not been given. -/
def State.unread (s : State) : Batch where
  entries := (s.entries.drop (max s.trimmed s.delivered)).take 10
  nodup := nodup_of_sublist ((List.take_sublist _ _).trans (List.drop_sublist _ _)) s.nodup

/-- What is answered to a call, when it is. -/
def State.answer (s : State) (o : Outcome) (x : Choice) : (c : Call) → c.Reply
  | .xautoclaim => if o = .ok then some (s.claimed x.idle) else none
  | .xreadgroup =>
    if o = .ok then some (if s.unread.entries = [] then none else some s.unread) else none
  | .xack _ | .xadd _ _ => if o = .ok then some () else none
  | .now _ => x.now
  | .timestamp _ => x.timestamp
  | .handler _ _ _ => x.thrown

/-- Claimed entries change hands, and those that are trimmed are forgotten. -/
def claim (s : State) (i : ℕ) (idle : List Text) : List (Text × ℕ) :=
  s.pending.filterMap fun p =>
    if p.1 ∈ (s.claimed idle).entries.map Entry.id then some (p.1, i)
    else if p.1 ∈ idle ∧ p.1 ∈ (s.entries.take s.trimmed).map Entry.id then none
    else some p

/-- Calls to Redis, the only ones that may fail of themselves. -/
def Call.remote : Call → Bool
  | .xautoclaim | .xreadgroup | .xack _ | .xadd _ _ => true
  | .now _ | .timestamp _ | .handler _ _ _ => false

/-- A call takes effect. -/
def State.perform (s : State) (i : ℕ) (x : Choice) : Call → State
  | .xautoclaim => { s with pending := claim s i x.idle }
  | .xreadgroup => { s with
      delivered := max s.trimmed s.delivered + s.unread.entries.length
      pending := s.pending ++ s.unread.entries.map fun e => (e.id, i) }
  | .xack id => { s with
      pending := s.pending.filter (·.1 ≠ id)
      acknowledged := s.acknowledged ++ [id] }
  | .xadd stream record => { s with added := s.added ++ [(stream, record)] }
  | .handler id _ envelope =>
    match x.thrown with
    | none => { s with handled := s.handled ++ [(id, envelope)] }
    | some _ => s
  | .now _ | .timestamp _ => s

inductive Action
  | publish (entry : Entry)
  | trim (n : ℕ)
  | poll (i : ℕ)
  | advance (i : ℕ) (o : Outcome) (x : Choice)
  | crash (i : ℕ)

/-- A turn of the loop is over. -/
def finished : Code Unit → Bool
  | .done _ | .raised => true
  | .call _ _ => false

def step (P : Platform) (topic : Text) (s : State) : Action → Option State
  | .publish entry =>
    if h : entry.id ∉ s.entries.map Entry.id then
      some { s with
        entries := s.entries ++ [entry]
        nodup := by
          rw [List.map_append, List.map_singleton, ← List.concat_eq_append]
          exact s.nodup.concat h }
    else none
  | .trim n => some { s with trimmed := max s.trimmed (min n s.entries.length) }
  | .poll i =>
    match s.consumers i with
    | .running _ program =>
      if finished program then some (s.setConsumer i (.running [] (poll P topic))) else none
    | .dead => none
  | .advance i o x =>
    match s.consumers i with
    | .running history (.call c next) =>
      let reply := s.answer o x c
      some ((if o = .failed ∧ c.remote then s else s.perform i x c).setConsumer i
        (.running (history ++ [⟨c, reply⟩]) (next reply)))
    | _ => none
  | .crash i => some (s.setConsumer i .dead)

/-- The group is created, and nothing has been added to the stream since. -/
def Initial (s : State) : Prop :=
  s.entries = [] ∧ s.trimmed = 0 ∧ s.delivered = 0 ∧ s.pending = [] ∧ s.acknowledged = [] ∧
    ∀ i, ∃ program, s.consumers i = .running [] program ∧ finished program

def system (P : Platform) (topic : Text) : Machine State Action where
  init := Initial
  step := step P topic

end AssureCode.Bus.Redis
