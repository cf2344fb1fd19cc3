import AssureCode.Bus.Kafka
import AssureCode.Settlement.Model
import AssureCode.Transition.Run

/-! # A partition and its consumers

A partition of a topic since its consumer group was formed, the offset that the group has
committed, and any number of members. A member starts from the committed offset, passes the
messages to `eachMessage` one after another, tries again where it raises, and commits how far it
has come; after a rebalance the partition may be with another member while this one goes on. A
message may be sent without the producer learning of it, and a member may die at any time.
-/

namespace AssureCode.Bus.Kafka

open Js Machine Program
open Settlement (Outcome)

/-- What a member has done and been told for a message. -/
abbrev History : Type := List (Program.Event Call.Reply)

/-- A member that has not got the partition, or is at an offset of it. -/
inductive Member
  | away
  | waiting (offset : ℕ)
  | running (offset : ℕ) (history : History) (program : Code Unit)

def Member.offset : Member → ℕ
  | .away => 0
  | .waiting offset | .running offset _ _ => offset

structure State where
  log : List Message := []
  committed : ℕ := 0
  /-- All that was ever sent to other topics. -/
  sent : List (Text × DeadLetter) := []
  /-- The calls of the handler that returned, with the offsets of their messages. -/
  handled : List (ℕ × Json) := []
  members : ℕ → Member := fun _ => .away

def State.setMember (s : State) (i : ℕ) (b : Member) : State :=
  { s with members := Function.update s.members i b }

/-- What is up to the environment: the clock, and what the handler throws. -/
structure Choice where
  now : TimeValue
  timestamp : Text := []
  thrown : Option Thrown := none

/-- What is answered to a call. -/
def answer (o : Outcome) (x : Choice) : (c : Call) → c.Reply
  | .now => x.now
  | .timestamp => x.timestamp
  | .handler _ _ => x.thrown
  | .send _ _ => if o = .ok then some () else none

/-- A call for the message at an offset takes effect. -/
def State.perform (s : State) (offset : ℕ) (o : Outcome) (x : Choice) : Call → State
  | .handler _ envelope =>
    match x.thrown with
    | none => { s with handled := s.handled ++ [(offset, envelope)] }
    | some _ => s
  | .send topic message =>
    if o = .failed then s else { s with sent := s.sent ++ [(topic, message)] }
  | .now | .timestamp => s

inductive Action
  | append (message : Message)
  | assign (i : ℕ)
  | fetch (i : ℕ)
  | advance (i : ℕ) (o : Outcome) (x : Choice)
  | resolve (i : ℕ)
  | retry (i : ℕ)
  | commit (i : ℕ)
  | crash (i : ℕ)

variable (P : Platform) (N : Engine) (topic : Text)

def step (s : State) : Action → Option State
  | .append message => some { s with log := s.log ++ [message] }
  | .assign i => some (s.setMember i (.waiting s.committed))
  | .fetch i =>
    match s.members i with
    | .waiting offset => s.log[offset]?.map fun message =>
        s.setMember i (.running offset [] (eachMessage P N topic message))
    | _ => none
  | .advance i o x =>
    match s.members i with
    | .running offset history (.call c next) =>
      some ((s.perform offset o x c).setMember i
        (.running offset (history ++ [⟨c, answer o x c⟩]) (next (answer o x c))))
    | _ => none
  | .resolve i =>
    match s.members i with
    | .running offset _ (.done _) => some (s.setMember i (.waiting (offset + 1)))
    | _ => none
  | .retry i =>
    match s.members i with
    | .running offset _ .raised => some (s.setMember i (.waiting offset))
    | _ => none
  | .commit i =>
    match s.members i with
    | .away => none
    | b => some { s with committed := b.offset }
  | .crash i => some (s.setMember i .away)

/-- Nothing has been committed, and no member has the partition. -/
def Initial (s : State) : Prop := s.committed = 0 ∧ ∀ i, s.members i = .away

def system : Machine State Action where
  init := Initial
  step := step P N topic

end AssureCode.Bus.Kafka
