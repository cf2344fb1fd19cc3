import AssureCode.Delivery.Model

/-! # Streams that only grow

A stream and its dead letters keep what they have, in order. So what is published stays in the
stream of its topic, and a dead letter that is deleted stays accounted for.
-/

namespace AssureCode.Delivery

open Js Bus Replay Machine
open Settlement (Outcome)

/-- The letter's envelope is in the stream again, after the entry that it came from. -/
def Replayed (stream : Redis.State) (record : Redis.DeadLetter) : Prop :=
  ∃ pre e post, stream.entries = pre ++ e :: post ∧ e.id = record.originalId ∧
    ∃ e' ∈ post, e'.envelope? = Json.parse record.envelope

/-- Nothing has been trimmed, or enough has been left. -/
def Outgrown (streamMaxLen trimmed length : ℕ) : Prop :=
  trimmed = 0 ∨ trimmed + streamMaxLen ≤ length

/-- An entry of the stream has the envelope of the message. -/
def Carried (stream : Redis.State) (message : Outbox.Message) : Prop :=
  ∃ stamp, ∃ e ∈ stream.entries, e.envelope? = some (envelopeOf stamp message)

structure SoundStreams (streamMaxLen : ℕ) (s : Store) : Prop where
  sound : ∀ topic, Redis.Sound topic (s.streams topic)
  lettered : ∀ topic, Redis.Lettered topic (s.streams topic)
  outgrown : ∀ topic,
    Outgrown streamMaxLen (s.streams topic).trimmed (s.streams topic).entries.length
  letters : ∀ topic, Outgrown streamMaxLen (s.trimmed topic) (s.streams topic).added.length
  removed : ∀ topic, ∀ id ∈ s.removed topic, ∃ letter, (s.streams topic).added[id]? = some letter ∧
    (Addressed letter.2 → Replayed (s.streams topic) letter.2)

structure Sound (streamMaxLen : ℕ) (s : Store) : Prop where
  outbox : Outbox.Sound s.outbox
  payloads : ∀ row ∈ s.outbox.rows, row.payload.Plain
  streams : SoundStreams streamMaxLen s
  carried : ∀ message ∈ s.outbox.bus, Carried (s.streams message.topic) message

variable {P : Platform} {batchSize streamMaxLen n m i id : ℕ} {s t : Store} {topic : Text}
  {stream stream' : Redis.State} {a : Redis.Action} {record : Redis.DeadLetter} {h : Trail}
  {e e' : Redis.Entry} {message : Outbox.Message} {stamp : Stamp} {x : Choice}

/-! ## Streams -/

/-- The last entry of a kind. -/
theorem exists_last {α : Type*} {p : α → Prop} {l : List α} (h : ∃ a ∈ l, p a) :
    ∃ pre a post, l = pre ++ a :: post ∧ p a ∧ ∀ b ∈ post, ¬ p b := by
  induction l using List.reverseRecOn with
  | nil =>
    obtain ⟨a, ha, -⟩ := h
    cases ha
  | append_singleton l b ih =>
    by_cases hb : p b
    · exact ⟨l, b, [], rfl, hb, nofun⟩
    · obtain ⟨a, ha, hpa⟩ := h
      rcases List.mem_append.mp ha with ha | ha
      · obtain ⟨pre, c, post, rfl, hc, hpost⟩ := ih ⟨a, ha, hpa⟩
        refine ⟨pre, c, post ++ [b], by simp, hc, ?_⟩
        rw [List.forall_mem_append, List.forall_mem_singleton]
        exact ⟨hpost, hb⟩
      · cases List.mem_singleton.mp ha
        exact absurd hpa hb

/-- Streams and dead letter streams only grow. -/
structure Appends (stream stream' : Redis.State) : Prop where
  entries : stream.entries <+: stream'.entries
  added : stream.added <+: stream'.added

theorem appends_step (h : Redis.step P topic stream a = some stream') :
    Appends stream stream' := by
  cases a with
  | publish entry =>
    rw [Redis.step] at h
    split at h <;> cases h
    exact ⟨List.prefix_append .., List.prefix_rfl⟩
  | trim n =>
    cases h
    exact ⟨List.prefix_rfl, List.prefix_rfl⟩
  | poll i =>
    rw [Redis.step] at h
    split at h
    · split at h <;> cases h
      exact ⟨List.prefix_rfl, List.prefix_rfl⟩
    · cases h
  | advance i o x =>
    rw [Redis.step] at h
    split at h
    · next c next hi =>
      cases h
      constructor
      · change stream.entries <+: (ite _ stream (stream.perform i x c)).entries
        split
        · exact List.prefix_rfl
        · rw [Redis.perform_entries]
      change stream.added <+: (ite _ stream (stream.perform i x c)).added
      split
      · exact List.prefix_rfl
      · cases c with
        | xadd => exact List.prefix_append ..
        | handler =>
          rw [Redis.State.perform]
          split <;> exact List.prefix_rfl
        | _ => exact List.prefix_rfl
    · cases h
  | crash i =>
    cases h
    exact ⟨List.prefix_rfl, List.prefix_rfl⟩

theorem Appends.carried (ha : Appends stream stream') (hc : Carried stream message) :
    Carried stream' message := by
  obtain ⟨stamp, e, he, henvelope⟩ := hc
  exact ⟨stamp, e, ha.entries.subset he, henvelope⟩

theorem Appends.replayed (ha : Appends stream stream') (hr : Replayed stream record) :
    Replayed stream' record := by
  obtain ⟨pre, e, post, hentries, hid, e', he', henvelope⟩ := hr
  obtain ⟨rest, hrest⟩ := ha.entries
  refine ⟨pre, e, post ++ rest, ?_, hid, e', List.mem_append_left _ he', henvelope⟩
  rw [← hrest, hentries, List.append_assoc, List.cons_append]

theorem Appends.getElem? {letter : Text × Redis.DeadLetter} (ha : Appends stream stream')
    (h : stream.added[id]? = some letter) : stream'.added[id]? = some letter := by
  obtain ⟨rest, hrest⟩ := ha.added
  obtain ⟨hlt, -⟩ := List.getElem?_eq_some_iff.mp h
  rw [← hrest, List.getElem?_append_left hlt, h]

theorem outgrown_mono {trimmed length length' : ℕ} (h : Outgrown n trimmed length)
    (hle : length ≤ length') : Outgrown n trimmed length' :=
  h.imp_right fun h => h.trans hle

theorem outgrown_step (h : Redis.step P topic stream a = some stream')
    (hkeeps : keepsLength n stream a) (hs : Outgrown n stream.trimmed stream.entries.length) :
    Outgrown n stream'.trimmed stream'.entries.length := by
  have hlength := (appends_step h).entries.length_le
  have hsame : stream'.trimmed = stream.trimmed →
      Outgrown n stream'.trimmed stream'.entries.length := by
    intro heq
    rw [heq]
    exact outgrown_mono hs hlength
  cases a with
  | publish entry =>
    rw [Redis.step] at h
    split at h <;> cases h
    exact hsame rfl
  | trim k =>
    cases h
    have hk : k + n ≤ stream.entries.length := of_decide_eq_true hkeeps
    change max stream.trimmed (min k stream.entries.length) = 0 ∨
      max stream.trimmed (min k stream.entries.length) + n ≤ stream.entries.length
    rcases hs with hs | hs <;> omega
  | poll i =>
    rw [Redis.step] at h
    split at h
    · split at h <;> cases h
      exact hsame rfl
    · cases h
  | advance i o x =>
    rw [Redis.step] at h
    split at h
    · next c next hi =>
      cases h
      apply hsame
      change (ite _ stream (stream.perform i x c)).trimmed = stream.trimmed
      split
      · rfl
      · exact Redis.perform_trimmed
    · cases h
  | crash i =>
    cases h
    exact hsame rfl

/-- What a step of one stream does to all of them. -/
theorem moveStream_spec (h : moveStream P n s topic a = some t) :
    ∃ stream', Redis.step P topic (s.streams topic) a = some stream' ∧
      keepsLength n (s.streams topic) a ∧
      t = { s with streams := Function.update s.streams topic stream' } := by
  rw [moveStream] at h
  split at h
  · next hkeeps =>
    obtain ⟨stream', hstep, rfl⟩ := Option.map_eq_some_iff.mp h
    exact ⟨stream', hstep, hkeeps, rfl⟩
  · cases h

theorem appends_moveStream (h : moveStream P n s topic a = some t) (topic' : Text) :
    Appends (s.streams topic') (t.streams topic') := by
  obtain ⟨stream', hstep, -, rfl⟩ := moveStream_spec h
  rcases eq_or_ne topic' topic with rfl | hne
  · change Appends _ (Function.update s.streams topic' stream' topic')
    rw [Function.update_self]
    exact appends_step hstep
  · change Appends _ (Function.update s.streams topic stream' topic')
    rw [Function.update_of_ne hne]
    exact ⟨List.prefix_rfl, List.prefix_rfl⟩

/-- Letters that were deleted are accounted for in streams that have grown. -/
theorem removed_of_appends (hs : SoundStreams n s)
    (ha : ∀ topic, Appends (s.streams topic) (t.streams topic)) :
    ∀ topic, ∀ id ∈ s.removed topic, ∃ letter, (t.streams topic).added[id]? = some letter ∧
      (Addressed letter.2 → Replayed (t.streams topic) letter.2) := by
  intro topic id hid
  obtain ⟨letter, hletter, hreplayed⟩ := hs.removed topic id hid
  exact ⟨letter, (ha topic).getElem? hletter,
    fun haddressed => (ha topic).replayed (hreplayed haddressed)⟩

theorem soundStreams_moveStream (hs : SoundStreams n s) (h : moveStream P n s topic a = some t) :
    SoundStreams n t := by
  have hremoved := removed_of_appends hs (appends_moveStream h)
  have happends := appends_moveStream h
  obtain ⟨stream', hstep, hkeeps, rfl⟩ := moveStream_spec h
  have hstreams : ∀ {I : Text → Redis.State → Prop}, I topic stream' →
      (∀ topic, I topic (s.streams topic)) →
      ∀ topic', I topic' (Function.update s.streams topic stream' topic') := by
    intro I hnew hold topic'
    rcases eq_or_ne topic' topic with rfl | hne
    · rwa [Function.update_self]
    · rw [Function.update_of_ne hne]
      exact hold topic'
  constructor
  · exact hstreams (Redis.sound_step (hs.sound topic) hstep) hs.sound
  · exact hstreams (Redis.lettered_step (hs.sound topic) (hs.lettered topic) hstep) hs.lettered
  · exact hstreams (I := fun _ stream => Outgrown n stream.trimmed stream.entries.length)
      (outgrown_step hstep hkeeps (hs.outgrown topic)) hs.outgrown
  · exact fun topic' => outgrown_mono (hs.letters topic') (happends topic').added.length_le
  · exact hremoved

theorem carried_moveStream (h : moveStream P n s topic a = some t)
    (hc : ∀ message ∈ s.outbox.bus, Carried (s.streams message.topic) message) :
    ∀ message ∈ s.outbox.bus, Carried (t.streams message.topic) message :=
  fun message hmessage => (appends_moveStream h message.topic).carried (hc message hmessage)

theorem sound_moveStream (hs : Sound n s) (h : moveStream P n s topic a = some t) : Sound n t := by
  have hcarried := carried_moveStream h hs.carried
  have hstreams := soundStreams_moveStream hs.streams h
  obtain ⟨stream', -, -, rfl⟩ := moveStream_spec h
  exact ⟨hs.outbox, hs.payloads, hstreams, hcarried⟩

/-- An envelope that is added stands at the end of its stream. -/
theorem entries_addEnvelope {newId envelope : Text}
    (h : addEnvelope P n s topic newId envelope = some t) :
    (t.streams topic).entries =
      (s.streams topic).entries ++ [⟨newId, Redis.envelopeFields envelope⟩] := by
  obtain ⟨stream', hstep, -, rfl⟩ := moveStream_spec h
  rw [Redis.step] at hstep
  split at hstep <;> cases hstep
  change (Function.update s.streams topic _ topic).entries = _
  rw [Function.update_self]

/-! ## The outbox -/

section Outbox

variable {o o' : Outbox.State} {b : Outbox.Action}

theorem bus_step (h : Outbox.step m o b = some o') :
    o'.bus = o.bus ++ (published o b).toList := by
  cases Outbox.step_move h with
  | append | pump | crash | reap => exact (List.append_nil _).symm
  | @advance i outcome τ pass hi =>
    rw [published, hi]
    cases outcome with
    | failed =>
      cases τ with
      | _ => exact (List.append_nil _).symm
    | ok | lost =>
      cases τ with
      | publish => rfl
      | _ => exact (List.append_nil _).symm

theorem rows_step (h : Outbox.step m o b = some o') : ∀ row' ∈ o'.rows,
    (∃ row ∈ o.rows, row.Same row') ∨ ∃ row, b = .append row ∧ row'.payload = row.payload := by
  intro row' hrow'
  cases Outbox.step_move h with
  | @append row hnew =>
    rcases List.mem_append.mp hrow' with hrow' | hrow'
    · exact .inl ⟨row', hrow', .refl row'⟩
    · cases List.mem_singleton.mp hrow'
      exact .inr ⟨row, rfl, rfl⟩
  | pump | crash => exact .inl ⟨row', hrow', .refl row'⟩
  | @advance i outcome τ pass hi =>
    obtain ⟨f, hrows, hf⟩ := Outbox.advance_rows m o i outcome τ pass
    rw [hrows] at hrow'
    obtain ⟨row, hrow, rfl⟩ := List.mem_map.mp hrow'
    exact .inl ⟨row, hrow, hf.same row⟩
  | reap =>
    obtain ⟨row, hrow, rfl⟩ := List.mem_map.mp hrow'
    exact .inl ⟨row, hrow, Outbox.same_unlock row⟩

/-- What is published is a row's message. -/
theorem exists_row_of_published (ho : Outbox.Sound o) (h : published o b = some message) :
    ∃ row ∈ o.rows, row.message = message := by
  unfold published at h
  split at h
  · split at h
    · next i outcome row rest pass hi =>
      split at h <;> cases h
      obtain ⟨row', hrow', hsame⟩ := (ho.passes _ _ _ hi).rows row List.mem_cons_self
      exact ⟨row', hrow', hsame.2⟩
    · cases h
  · cases h

end Outbox

theorem sound_outbox {b : Outbox.Action} (hs : Sound n s)
    (hb : ∀ row, b = .append row → row.payload.Plain)
    (h : pass P m n s (.outbox b topic stamp) = some t) : Sound n t := by
  obtain ⟨o', hstep, hpublish⟩ := Option.bind_eq_some_iff.mp h
  have hbus := bus_step hstep
  have houtbox := Outbox.sound_step hs.outbox hstep
  have hpayloads : ∀ row ∈ o'.rows, row.payload.Plain := by
    intro row' hrow'
    rcases rows_step hstep row' hrow' with ⟨row, hrow, hsame⟩ | ⟨row, rfl, heq⟩
    · have hpayload : row'.payload = row.payload := congrArg Outbox.Message.payload hsame.2
      rw [hpayload]
      exact hs.payloads row hrow
    · rw [heq]
      exact hb row rfl
  cases hmessage : published s.outbox b with
  | none =>
    rw [hmessage] at hpublish hbus
    cases hpublish
    refine ⟨houtbox, hpayloads, ⟨hs.streams.sound, hs.streams.lettered, hs.streams.outgrown,
      hs.streams.letters, hs.streams.removed⟩, ?_⟩
    rw [hbus, Option.toList_none, List.append_nil]
    exact hs.carried
  | some message =>
    rw [hmessage] at hpublish hbus
    -- The event reaches the bus and its stream in one step.
    have hbefore : SoundStreams n { s with outbox := o' } := ⟨hs.streams.sound,
      hs.streams.lettered, hs.streams.outgrown, hs.streams.letters, hs.streams.removed⟩
    have hentries := entries_addEnvelope hpublish
    have happends := appends_moveStream hpublish
    have hstreams := soundStreams_moveStream hbefore hpublish
    obtain ⟨stream', -, -, rfl⟩ := moveStream_spec hpublish
    refine ⟨houtbox, hpayloads, hstreams, ?_⟩
    rw [hbus, Option.toList_some, List.forall_mem_append, List.forall_mem_singleton]
    constructor
    · exact fun message' h' => (happends message'.topic).carried (hs.carried message' h')
    · obtain ⟨row, hrow, rfl⟩ := exists_row_of_published hs.outbox hmessage
      refine ⟨stamp, _, ?_, @Redis.envelope?_publish stamp _ topic (hs.payloads row hrow)⟩
      rw [hentries]
      exact List.mem_concat_self

end AssureCode.Delivery
