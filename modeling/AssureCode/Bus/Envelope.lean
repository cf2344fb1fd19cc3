import AssureCode.Js.Time

/-! # Envelopes

What both durable buses do with the envelope of a message before its handler sees it: they record
its lag and take up the trace context of its producer.
-/

namespace AssureCode.Bus

open Js

/-- The metrics and the propagator, which may throw, and the dates that the engine reads. -/
structure Platform where
  parseDate : Text → Option TimeValue
  /-- `metrics.eventBusLagSeconds.observe` returns. -/
  observe : Number → Bool
  /-- `metrics.eventLagGauge.set` returns. -/
  set : Number → Bool
  /-- `propagation.extract` returns. -/
  extract : Json → Bool

/-- A histogram throws a TypeError for anything but a finite number, a gauge for no number. -/
structure Platform.Documented (P : Platform) : Prop where
  observe : ∀ n, P.observe n = n.isFinite
  set : ∀ n, P.set n = true

variable (P : Platform) (now : TimeValue) (envelope : Json)

/-- The lag at this time, with `none` for a TypeError. -/
def consumerLagSeconds : Option Number :=
  if envelope.isNull then none
  else (getTime P.parseDate (envelope.get (units "timestamp"))).map fun time =>
    time.elim .nan (secondsBetween now)

/-- `parentContextOf` returns. -/
def parentContextOf : Bool :=
  P.extract ((Json.nonNullish (envelope.get (units "traceContext"))).getD (.object []))

/-- The envelope comes as far as its handler. -/
def reaches : Bool :=
  (consumerLagSeconds P now envelope).any fun lagSeconds =>
    P.observe lagSeconds && P.set lagSeconds && parentContextOf P envelope

/-- The timestamp is a date, and the trace context can be taken up. -/
def Legible : Prop :=
  (∃ t, getTime P.parseDate (envelope.get (units "timestamp")) = some (some t)) ∧
    parentContextOf P envelope

variable {P now envelope}

theorem reaches_iff (hP : P.Documented) : reaches P now envelope ↔ Legible P envelope := by
  rw [reaches, consumerLagSeconds, Legible]
  cases hnull : envelope.isNull with
  | true =>
    cases envelope with
    | null => simp [Json.get, getTime]
    | _ => cases hnull
  | false =>
    rw [if_neg Bool.false_ne_true]
    cases htime : getTime P.parseDate (envelope.get (units "timestamp")) with
    | none => simp
    | some time =>
      cases time with
      | none => simp [hP.observe, Number.isFinite]
      | some t => simp [hP.observe, hP.set, isFinite_secondsBetween]

/-- What is no object has no timestamp. -/
theorem Legible.exists_object (h : Legible P envelope) :
    ∃ members, envelope = .object members := by
  obtain ⟨⟨t, ht⟩, -⟩ := h
  cases envelope with
  | object members => exact ⟨members, rfl⟩
  | _ => cases ht

/-! ## Errors -/

/-- A thrown value: an `Error`, or another with what `String` makes of it unless that throws. -/
inductive Thrown
  | error (message stack : Text)
  | other (text : Option Text)

/-- `null` -/
def Thrown.null : Thrown := .other (some (units "null"))

/-- `lastError instanceof Error ? lastError.message : String(lastError)` -/
def Thrown.errorMessage : Thrown → Option Text
  | .error message _ => some message
  | .other text => text

/-- `lastError instanceof Error ? lastError.stack ?? '' : ''` -/
def Thrown.errorStack : Thrown → Text
  | .error _ stack => stack
  | .other _ => []

end AssureCode.Bus
