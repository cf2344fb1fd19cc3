import AssureCode.Bus.Batch
import AssureCode.Bus.Kafka

/-! # The two durable buses

For a message with the same body, the same handler and no failures of the transports, the buses
call the handler equally often and come to the same disposition, but for a body that is no JSON:
one leaves it pending where the other adds it to the dead letters.
-/

namespace AssureCode.Bus

open Js Program

/-- What both buses meet with: the clock, and the attempts of the handler. -/
structure Conditions where
  now : TimeValue
  timestamp : Text
  handler : ℕ → Option Thrown

def Conditions.redis (x : Conditions) : Redis.Environment where
  claimed := none
  read := none
  now _ := x.now
  timestamp _ := x.timestamp
  handler _ := x.handler
  acknowledge _ := .ok
  forward _ := .ok

def Conditions.kafka (x : Conditions) : (c : Kafka.Call) → c.Reply
  | .now => x.now
  | .timestamp => x.timestamp
  | .handler attempt _ => x.handler attempt
  | .send _ _ => some ()

inductive Disposition
  | handled
  | deadLettered (event : Text)
  | dropped
  /-- It is neither acknowledged nor committed. -/
  | unsettled
  deriving DecidableEq

/-- What comes of a message. -/
structure Delivery where
  calls : ℕ
  disposition : Disposition
  deriving DecidableEq

def Delivery.of (calls : ℕ) (parked : Option Text) (settled : Bool) : Delivery where
  calls
  disposition :=
    if settled then
      match parked with
      | some event => .deadLettered event
      | none => if 0 < calls then .handled else .dropped
    else .unsettled

namespace Redis

def Call.isHandler : Call → Bool
  | .handler _ _ _ => true
  | _ => false

def Call.isXack : Call → Bool
  | .xack _ => true
  | _ => false

def Call.parked? : Call → Option Text
  | .xadd _ record => some record.envelope
  | _ => none

def delivery (x : Conditions) (P : Platform) (topic : Text) (entry : Entry) : Delivery :=
  let cs := calls x.redis.answer (processEntry P topic entry)
  .of (cs.countP Call.isHandler) (cs.findSome? Call.parked?) (cs.any Call.isXack)

end Redis

namespace Kafka

def Call.isHandler : Call → Bool
  | .handler _ _ => true
  | _ => false

def Call.parked? : Call → Option Text
  | .send _ message => some message.value
  | _ => none

def delivery (x : Conditions) (P : Platform) (N : Engine) (topic : Text) (message : Message) :
    Delivery :=
  let cs := calls x.kafka (eachMessage P N topic message)
  .of (cs.countP Call.isHandler) (cs.findSome? Call.parked?)
    (result x.kafka (eachMessage P N topic message)).isSome

end Kafka

/-- The entry has this body in its envelope field, as its text, or no such field for none. -/
def Carries (N : Kafka.Engine) (entry : Redis.Entry) : Option (List UInt8) → Prop
  | none => units "envelope" ∉ entry.fields
  | some bytes => ∃ idx, entry.fields.idxOf? (units "envelope") = some idx ∧
      entry.fields[idx + 1]? = some (N.decode bytes)

variable {P : Platform} {N : Kafka.Engine} {topic position id last : Text} {x : Conditions}
  {entry : Redis.Entry} {message : Kafka.Message} {envelope : Json} {left : ℕ}
  {v : Redis.Attempts}

/-! ## The two loops -/

/-- What a loop over the attempts does on either bus. -/
structure Loops (x : Conditions) (id : Text) (envelope : Json) (left : ℕ) (v w : Redis.Attempts) :
    Prop where
  redis : result x.redis.answer (Redis.retry id envelope left v) = some w
  kafka : result x.kafka (Kafka.attemptsLeft envelope left v.attempt v.lastError) =
    some (if w.success then none else some (w.attempt, w.lastError))
  redisCalls : ∀ c ∈ calls x.redis.answer (Redis.retry id envelope left v),
    ∃ attempt, c = .handler id attempt envelope
  kafkaCalls : ∀ c ∈ calls x.kafka (Kafka.attemptsLeft envelope left v.attempt v.lastError),
    ∃ attempt, c = .handler attempt envelope
  length : (calls x.redis.answer (Redis.retry id envelope left v)).length =
    (calls x.kafka (Kafka.attemptsLeft envelope left v.attempt v.lastError)).length

@[simp] theorem Kafka.calls_handler (attempt : ℕ) :
    calls x.kafka (Kafka.handler attempt envelope) = [.handler attempt envelope] := rfl

@[simp] theorem Kafka.result_handler (attempt : ℕ) :
    result x.kafka (Kafka.handler attempt envelope) = some (x.handler attempt) := rfl

/-- The loops keep step: after equal attempts they have made as many calls and go on alike. -/
theorem exists_loops (x : Conditions) (id : Text) (envelope : Json) (left : ℕ)
    (hv : v.success = false) : ∃ w, Loops x id envelope left v w := by
  induction left generalizing v with
  | zero =>
    refine ⟨v, rfl, ?_, nofun, nofun, rfl⟩
    rw [hv]
    rfl
  | succ left ih =>
    have hredis : x.redis.handler id (v.attempt + 1) = x.handler (v.attempt + 1) := rfl
    cases hfirst : x.handler (v.attempt + 1) with
    | none =>
      refine ⟨{ v with attempt := v.attempt + 1, success := true }, ?_⟩
      constructor <;>
        simp [Redis.retry, Kafka.attemptsLeft, hredis, hfirst]
    | some err =>
      obtain ⟨w, hw⟩ := ih (v := { v with attempt := v.attempt + 1, lastError := err }) hv
      have hr := hw.redisCalls
      have hk := hw.kafkaCalls
      have hl := hw.length
      refine ⟨w, ?_⟩
      constructor
      · simpa [Redis.retry, hredis, hfirst] using hw.redis
      · simpa [Kafka.attemptsLeft, hfirst] using hw.kafka
      · simpa [Redis.retry, hredis, hfirst] using hr
      · simpa [Kafka.attemptsLeft, hfirst] using hk
      · simpa [Redis.retry, Kafka.attemptsLeft, hredis, hfirst] using hl

/-! ## What comes of a message -/

namespace Redis

/-- Calls of the handler neither park a message nor acknowledge it. -/
theorem of_handlers {cs : List Call} (h : ∀ c ∈ cs, ∃ attempt, c = .handler id attempt envelope) :
    cs.countP Call.isHandler = cs.length ∧ cs.findSome? Call.parked? = none ∧
      cs.any Call.isXack = false := by
  refine ⟨List.countP_eq_length.mpr fun c hc => ?_, List.findSome?_eq_none_iff.mpr fun c hc => ?_,
    List.any_eq_false.mpr fun c hc => ?_⟩
  all_goals
    obtain ⟨attempt, rfl⟩ := h c hc
    simp [Call.isHandler, Call.parked?, Call.isXack]

theorem delivery_of_notMem (h : units "envelope" ∉ entry.fields) :
    delivery x P topic entry = ⟨0, .dropped⟩ := by
  rw [delivery, processEntry, List.idxOf?_eq_none_iff.mpr h]
  simp [Call.isHandler, Call.parked?, Call.isXack, Delivery.of]

theorem delivery_of_unreadable {idx : ℕ} {raw : Text}
    (hidx : entry.fields.idxOf? (units "envelope") = some idx)
    (hraw : entry.fields[idx + 1]? = some raw) (hparse : Json.parse raw = none) :
    delivery x P topic entry = ⟨0, .unsettled⟩ := by
  rw [delivery, processEntry, hidx]
  simp [hraw, hparse, Delivery.of]

end Redis

namespace Kafka

theorem of_handlers {cs : List Call} (h : ∀ c ∈ cs, ∃ attempt, c = .handler attempt envelope) :
    cs.countP Call.isHandler = cs.length ∧ cs.findSome? Call.parked? = none := by
  refine ⟨List.countP_eq_length.mpr fun c hc => ?_, List.findSome?_eq_none_iff.mpr fun c hc => ?_⟩
  all_goals
    obtain ⟨attempt, rfl⟩ := h c hc
    simp [Call.isHandler, Call.parked?]

@[simp] theorem calls_timestamp : calls x.kafka timestamp = [.timestamp] := rfl

@[simp] theorem result_timestamp : result x.kafka timestamp = some x.timestamp := rfl

@[simp] theorem calls_send (topic : Text) (message : DeadLetter) :
    calls x.kafka (send topic message) = [.send topic message] := rfl

@[simp] theorem result_send (topic : Text) (message : DeadLetter) :
    result x.kafka (send topic message) = some () := rfl

@[simp] theorem calls_now : calls x.kafka now = [.now] := rfl

@[simp] theorem result_now : result x.kafka now = some x.now := rfl

theorem delivery_of_none (h : message.value = none) :
    delivery x P N topic message = ⟨0, .dropped⟩ := by
  rw [delivery, eachMessage, h]
  rfl

theorem delivery_of_unreadable {bytes : List UInt8} (h : message.value = some bytes)
    (hparse : Json.parse (N.decode bytes) = none) :
    delivery x P N topic message = ⟨0, .deadLettered (N.decode bytes)⟩ := by
  simp only [delivery, eachMessage, h, hparse]
  rfl

end Kafka

/-- What is left to do once all attempts have failed is done alike. -/
theorem forwards_agree (hl : Legible P envelope) (x : Conditions) (topic id position raw : Text)
    (v : Redis.Attempts) :
    let redis := Redis.forward topic id envelope v
    let kafka := Kafka.sendToDlq topic (some envelope) raw v.attempt v.lastError position
    (result x.redis.answer redis).isSome = (result x.kafka kafka).isSome ∧
      (calls x.redis.answer redis).countP Redis.Call.isHandler = 0 ∧
      (calls x.kafka kafka).countP Kafka.Call.isHandler = 0 ∧
      (calls x.redis.answer redis).any Redis.Call.isXack = false ∧
      (calls x.redis.answer redis).findSome? Redis.Call.parked? =
        (calls x.kafka kafka).findSome? Kafka.Call.parked? := by
  obtain ⟨members, rfl⟩ := hl.exists_object
  intro redis kafka
  cases hmessage : v.lastError.errorMessage with
  | none => simp [redis, kafka, Redis.forward, Kafka.sendToDlq, hmessage]
  | some message =>
    have hforward : x.redis.forward id = .ok := rfl
    simp [redis, kafka, Redis.forward, Kafka.sendToDlq, hmessage, hforward, Redis.Call.isHandler,
      Kafka.Call.isHandler, Redis.Call.isXack]
    rfl

/-- A body that is JSON is treated alike. -/
theorem delivery_of_readable (hP : P.Documented) {idx : ℕ} {bytes : List UInt8}
    (hidx : entry.fields.idxOf? (units "envelope") = some idx)
    (hraw : entry.fields[idx + 1]? = some (N.decode bytes)) (hvalue : message.value = some bytes)
    (hparse : Json.parse (N.decode bytes) = some envelope) :
    Redis.delivery x P topic entry = Kafka.delivery x P N topic message := by
  obtain ⟨w, hw⟩ := exists_loops x entry.id envelope 3 (v := {}) rfl
  obtain ⟨hrc, hrp, hrx⟩ := Redis.of_handlers hw.redisCalls
  obtain ⟨hkc, hkp⟩ := Kafka.of_handlers hw.kafkaCalls
  have hlength := hw.length
  have hredis := hw.redis
  have hkafka := hw.kafka
  have hnow : x.redis.now entry.id = x.now := rfl
  dsimp only at hkc hkp hlength hkafka
  rw [Redis.delivery, Kafka.delivery, Redis.processEntry, Kafka.eachMessage, hidx, hvalue]
  by_cases hreaches : reaches P x.now envelope = true
  · have hl : Legible P envelope := (reaches_iff hP).mp hreaches
    simp only [hraw, hparse, Option.bind_some, calls_bind, result_bind, calls_ofOption,
      result_ofOption, Option.elim_some, Redis.calls_now, Redis.result_now, hnow, hreaches, if_true,
      Kafka.calls_now, Kafka.result_now, Kafka.runWithRetries, Kafka.maxRetries, Redis.maxRetries,
      hredis, hkafka, List.nil_append, List.countP_append, List.findSome?_append,
      List.any_append, hrc, hrp, hrx, hkc, hkp, hlength, Option.none_or, Bool.false_or]
    cases hsuccess : w.success with
    | true =>
      rw [if_pos rfl, if_pos rfl, Redis.calls_xack]
      rfl
    | false =>
      obtain ⟨hreturned, hrn, hkn, hx, hparked⟩ :=
        forwards_agree hl x topic entry.id message.position (N.decode bytes) w
      simp only [if_neg Bool.false_ne_true, calls_bind, List.countP_append, List.findSome?_append,
        List.any_append, hrn, hkn, hx, hparked]
      cases hresult : result x.redis.answer (Redis.forward topic entry.id envelope w) with
      | none =>
        rw [hresult] at hreturned
        rw [← hreturned]
        rfl
      | some =>
        rw [hresult] at hreturned
        rw [← hreturned, Option.elim_some, Redis.calls_xack]
        simp [Redis.Call.isHandler, Kafka.Call.isHandler, Redis.Call.isXack, Redis.Call.parked?,
          Kafka.Call.parked?, Delivery.of]
  · simp [hraw, hparse, hnow, hreaches, Redis.Call.isHandler, Kafka.Call.isHandler,
      Redis.Call.isXack, Delivery.of]

/-- The buses treat a message alike if and only if its body, if it has one, is JSON. -/
theorem deliveries_agree_iff (hP : P.Documented) (N : Kafka.Engine) (topic : Text) (x : Conditions)
    {body : Option (List UInt8)} (hentry : Carries N entry body) (position : Text) :
    Redis.delivery x P topic entry = Kafka.delivery x P N topic ⟨body, position⟩ ↔
      ∀ bytes ∈ body, (Json.parse (N.decode bytes)).isSome := by
  cases body with
  | none =>
    rw [Redis.delivery_of_notMem hentry, Kafka.delivery_of_none rfl]
    exact iff_of_true rfl nofun
  | some bytes =>
    obtain ⟨idx, hidx, hraw⟩ := hentry
    have hvalue : (⟨some bytes, position⟩ : Kafka.Message).value = some bytes := rfl
    cases hparse : Json.parse (N.decode bytes) with
    | none =>
      rw [Redis.delivery_of_unreadable hidx hraw hparse,
        Kafka.delivery_of_unreadable hvalue hparse]
      simp [hparse]
    | some envelope =>
      apply iff_of_true (delivery_of_readable hP hidx hraw hvalue hparse)
      rintro _ ⟨⟩
      rw [hparse]
      rfl

/-- How ASCII is decoded, and what the engine says of the text below. -/
def engine : Kafka.Engine where
  decode bytes := bytes.map UInt8.toNat
  syntaxError _ := (units "Expected property name or '\x7d' in JSON at position 1", [])

/-- The handler fails twice. -/
def flaky : Conditions where
  now := Redis.newYear
  timestamp := units "2024-01-01T00:00:00.000Z"
  handler attempt := if attempt < 3 then some (.error (units "down") []) else none

def carrying (body : List UInt8) : Redis.Entry where
  id := units "1-0"
  fields := [units "envelope", engine.decode body]

theorem carries_carrying (body : List UInt8) : Carries engine (carrying body) (some body) :=
  ⟨0, rfl, rfl⟩

/-- `{"timestamp":"2024-01-01T00:00:00.000Z"}` -/
def datedBody : List UInt8 :=
  (units "\x7b\"timestamp\":\"2024-01-01T00:00:00.000Z\"\x7d").map UInt8.ofNat

theorem deliveries_agree_iff_flaky :
    Redis.delivery flaky Redis.platform (units "audit") (carrying datedBody) = ⟨3, .handled⟩ ∧
      Redis.delivery flaky Redis.platform (units "audit") (carrying datedBody) =
        Kafka.delivery flaky Redis.platform engine (units "audit") ⟨some datedBody, []⟩ := by
  have hparse : ∀ bytes ∈ some datedBody, (Json.parse (engine.decode bytes)).isSome := by
    rintro _ ⟨⟩
    decide +kernel
  exact ⟨by decide +kernel, (deliveries_agree_iff Redis.documented_platform engine (units "audit")
    flaky (carries_carrying datedBody) []).mpr hparse⟩

/-- One bus leaves a body pending that the other adds to the dead letters. -/
theorem deliveries_differ : ¬ ∀ P N topic x entry body position, Platform.Documented P →
    Carries N entry body →
    Redis.delivery x P topic entry = Kafka.delivery x P N topic ⟨body, position⟩ := by
  intro hall
  have hsame := hall Redis.platform engine (units "audit") flaky _ _ [] Redis.documented_platform
    (carries_carrying ((units "\x7bnot json").map UInt8.ofNat))
  exact absurd hsame (by decide +kernel)

end AssureCode.Bus
