import AssureCode.Bus.DeadLetters

/-! # Replaying a dead letter

`replayEvent` of the command line tool: a letter is read from the dead letter stream, its envelope
is added to the stream that it came from, and only then is the letter deleted. A letter is known
by its place among all that were ever added.
-/

namespace AssureCode.Bus.Replay

open Js Program

inductive Call
  | xrange (stream : Text) (id : ℕ)
  | xadd (stream envelope : Text)
  | xdel (stream : Text) (id : ℕ)

/-- Answers; `none` where Redis throws. -/
abbrev Call.Reply : Call → Type
  | .xrange _ _ => Option (Option (List Text))
  | .xadd _ _ => Option Text
  | .xdel _ _ => Option Unit

abbrev Code : Type → Type := Program Call Call.Reply

def xrange (stream : Text) (id : ℕ) : Code (Option (List Text)) :=
  (await (Call.xrange stream id) : Code (Option (Option (List Text)))) >>= ofOption

def xadd (stream envelope : Text) : Code Text :=
  (await (Call.xadd stream envelope) : Code (Option Text)) >>= ofOption

def xdel (stream : Text) (id : ℕ) : Code Unit :=
  (await (Call.xdel stream id) : Code (Option Unit)) >>= ofOption

/-- `dlqStream.replace(/\.dlq$/, '')` -/
def withoutDlq (dlqStream : Text) : Text :=
  if (units ".dlq").isSuffixOf dlqStream then dlqStream.take (dlqStream.length - 4) else dlqStream

/-- The stream named after the first field that reads `originalStream`. -/
def targetTopic (dlqStream : Text) (fields : List Text) : Text :=
  match fields.idxOf? (units "originalStream") with
  | some origStreamIdx => (fields[origStreamIdx + 1]?).getD []
  | none => withoutDlq dlqStream

/-- The target topic and the new id, unless it throws; a missing argument is sent as empty. -/
def replayEvent (dlqStream : Text) (messageId : ℕ) : Code (Text × Text) := do
  match ← xrange dlqStream messageId with
  | none => raised
  | some fields =>
    match fields.idxOf? (units "envelope") with
    | none => raised
    | some envIdx => do
      let newId ← xadd (targetTopic dlqStream fields) ((fields[envIdx + 1]?).getD [])
      xdel dlqStream messageId
      pure (targetTopic dlqStream fields, newId)

/-- The fields that a dead letter is stored under, as `processEntry` adds them. -/
def fields (record : Redis.DeadLetter) : List Text :=
  [units "envelope", record.envelope, units "error", record.error, units "errorStack",
    record.errorStack, units "failedAt", record.failedAt, units "attempts", record.attempts,
    units "originalStream", record.originalStream, units "originalId", record.originalId]

/-- No value before the name of the stream reads as the name of that field. -/
def Addressed (record : Redis.DeadLetter) : Prop :=
  units "originalStream" ∉
    [record.envelope, record.error, record.errorStack, record.failedAt, record.attempts]

abbrev Trail : Type := List (Program.Event Call.Reply)

/-- A letter is deleted once what it carries has been added to its target. -/
def Ordered (h : Trail) : Call → Prop
  | .xrange _ _ => h = []
  | .xadd stream envelope => ∃ dlqStream id fields envIdx,
      h = [⟨.xrange dlqStream id, some (some fields)⟩] ∧
      fields.idxOf? (units "envelope") = some envIdx ∧
      stream = targetTopic dlqStream fields ∧ envelope = (fields[envIdx + 1]?).getD []
  | .xdel dlqStream id => ∃ fields envIdx newId,
      h = [⟨.xrange dlqStream id, some (some fields)⟩,
        ⟨.xadd (targetTopic dlqStream fields) ((fields[envIdx + 1]?).getD []), some newId⟩] ∧
      fields.idxOf? (units "envelope") = some envIdx

variable {topic dlqStream : Text} {record : Redis.DeadLetter} {messageId : ℕ}

theorem withoutDlq_dlqTopic (topic : Text) : withoutDlq (Redis.dlqTopic topic) = topic := by
  have hsuffix : (units ".dlq").isSuffixOf (topic ++ units ".dlq") = true := by
    rw [List.isSuffixOf_iff_suffix]
    exact List.suffix_append ..
  have hlength : (topic ++ units ".dlq").length - 4 = topic.length := by
    rw [List.length_append]
    exact Nat.add_sub_cancel ..
  rw [Redis.dlqTopic, withoutDlq, if_pos hsuffix, hlength, List.take_left']
  rfl

/-- A letter goes back to the stream that its record names. -/
theorem targetTopic_fields (h : Addressed record) :
    targetTopic dlqStream (fields record) = record.originalStream := by
  have hidx : (fields record).idxOf? (units "originalStream") = some 10 := by
    simp only [Addressed, List.mem_cons, List.not_mem_nil, or_false, not_or] at h
    obtain ⟨henvelope, herror, herrorStack, hfailedAt, hattempts⟩ := h
    have hne : units "envelope" ≠ units "originalStream" ∧ units "error" ≠ units "originalStream" ∧
        units "errorStack" ≠ units "originalStream" ∧ units "failedAt" ≠ units "originalStream" ∧
        units "attempts" ≠ units "originalStream" := by decide
    simp [fields, List.idxOf?_cons, hne, Ne.symm henvelope, Ne.symm herror, Ne.symm herrorStack,
      Ne.symm hfailedAt, Ne.symm hattempts]
  rw [targetTopic, hidx]
  rfl

theorem idxOf?_fields : (fields record).idxOf? (units "envelope") = some 0 := by
  simp [fields, List.idxOf?_cons]

theorem fields_injective {record' : Redis.DeadLetter} (h : fields record = fields record') :
    record = record' := by
  cases record
  cases record'
  simpa [fields] using h

theorem ordered_replayEvent :
    (replayEvent dlqStream messageId).Meets Ordered (fun _ _ => True) (fun _ => True) [] := by
  refine ⟨rfl, fun r => ?_⟩
  rcases r with _ | _ | fields
  · trivial
  · trivial
  · change Program.Meets _ _ _ _ (match fields.idxOf? (units "envelope") with
      | none => raised
      | some envIdx => _)
    cases henvIdx : fields.idxOf? (units "envelope") with
    | none => trivial
    | some envIdx =>
      refine ⟨⟨_, _, _, envIdx, rfl, henvIdx, rfl, rfl⟩, fun r => ?_⟩
      cases r with
      | none => trivial
      | some newId =>
        refine ⟨⟨_, envIdx, newId, rfl, henvIdx⟩, fun r => ?_⟩
        cases r with
        | none => trivial
        | some _ => trivial

/-! ## Letters of a run -/

section Letters

variable {answer : (c : Call) → c.Reply} {newId : Text}

/-- A replay that is answered moves the envelope to the stream that the record names. -/
theorem replayEvent_answered (haddressed : Addressed record)
    (hread : answer (.xrange dlqStream messageId) = some (some (fields record)))
    (hadd : answer (.xadd record.originalStream record.envelope) = some newId)
    (hdelete : answer (.xdel dlqStream messageId) = some ()) :
    (replayEvent dlqStream messageId).result answer = some (record.originalStream, newId) ∧
      (replayEvent dlqStream messageId).calls answer = [.xrange dlqStream messageId,
        .xadd record.originalStream record.envelope, .xdel dlqStream messageId] := by
  have htarget : targetTopic dlqStream (fields record) = record.originalStream :=
    targetTopic_fields haddressed
  rw [← htarget] at hadd ⊢
  have hadd : answer (.xadd (targetTopic dlqStream (fields record))
    (((fields record)[1]?).getD [])) = some newId := hadd
  simp [replayEvent, xrange, xadd, xdel, hread, idxOf?_fields, hadd, hdelete]
  rfl

end Letters

variable {P : Bus.Platform} {s t : Redis.State} {as : List Redis.Action}

end AssureCode.Bus.Replay
