import AssureCode.Delivery.Replays

/-! # No event is lost on its way

An event of the outbox waits in its row until it has been published. From then on there is always
an entry with its envelope that is still to be read, pending or handled, or that its stream has
outgrown, or whose dead letter is still there; for a letter is deleted only when its envelope is in
the stream again.
-/

namespace AssureCode.Delivery

open Js Bus Replay Machine
open Settlement (Outcome)

variable {P : Platform} {m n i : ℕ} {s t : Store} {topic : Text} {stream : Redis.State}
  {record : Redis.DeadLetter} {e e' : Redis.Entry}

theorem sound_pass {d : Move} (hs : Sound n s) (hd : ∀ row id stamp,
      d = .outbox (.append row) id stamp → row.payload.Plain) (h : pass P m n s d = some t) :
    Sound n t ∧ ∀ topic, Appends (s.streams topic) (t.streams topic) := by
  cases d with
  | outbox b id stamp =>
    refine ⟨sound_outbox hs (fun row heq => hd row id stamp (by rw [heq])) h, ?_⟩
    obtain ⟨o', -, hpublish⟩ := Option.bind_eq_some_iff.mp h
    split at hpublish
    · cases hpublish
      exact fun _ => ⟨List.prefix_rfl, List.prefix_rfl⟩
    · exact fun topic => appends_moveStream hpublish topic
  | stream topic a => exact ⟨sound_moveStream hs h, appends_moveStream h⟩
  | trimLetters topic k =>
    rw [pass] at h
    split at h
    · next hk =>
      cases h
      refine ⟨⟨hs.outbox, hs.payloads, ⟨hs.streams.sound, hs.streams.lettered,
        hs.streams.outgrown, ?_, hs.streams.removed⟩, hs.carried⟩,
        fun _ => ⟨List.prefix_rfl, List.prefix_rfl⟩⟩
      intro topic'
      change Outgrown n (Function.update s.trimmed topic _ topic') _
      have hletters := hs.streams.letters topic'
      rcases eq_or_ne topic' topic with rfl | hne
      · rw [Function.update_self]
        rcases hletters with hletters | hletters
        · exact .inr (by rw [hletters, Nat.zero_max]; exact hk)
        · rcases max_choice (s.trimmed topic') k with heq | heq
          · exact .inr (by rwa [heq])
          · exact .inr (by rwa [heq])
      · rwa [Function.update_of_ne hne]
    · cases h

/-- All is sound, and all that replays have been told is so. -/
def Invariant (n : ℕ) (s : System) : Prop :=
  Sound n s.store ∧ ∀ i f, s.flows i = some f → Attested s.store f.trail

theorem Invariant.set {s : System} {store : Store} {f : Flow Call Call.Reply (Text × Text)}
    (hs : Invariant n s) (hstore : Sound n store)
    (ha : ∀ topic, Appends (s.store.streams topic) (store.streams topic))
    (hf : Attested store f.trail) : Invariant n (Concurrent.State.set { s with store } i f) := by
  refine ⟨hstore, fun j g hg => ?_⟩
  rcases Concurrent.set_cases hg with ⟨rfl, rfl⟩ | ⟨-, hg⟩
  · exact hf
  · exact (hs.2 j g hg).mono ha

theorem invariant_moves {s t : System} {a : Action} (hs : Invariant n s)
    (hgood : Concurrent.AllGood Ordered (fun _ _ => True) s) (hK : Storable s a)
    (h : Concurrent.Moves (service P m n) s a t) : Invariant n t := by
  have hsame : ∀ topic, Appends (s.store.streams topic) (s.store.streams topic) :=
    fun _ => ⟨List.prefix_rfl, List.prefix_rfl⟩
  cases h with
  | start hnone hf =>
    cases hf
    exact hs.set hs.1 hsame attested_nil
  | call hflow hr =>
    obtain ⟨hsound, ha, hattested⟩ :=
      sound_serve hs.1 (hs.2 _ _ hflow) (hgood.admitted hflow) hr
    exact hs.set hsound ha hattested
  | fail hflow =>
    have hattested := hs.2 _ _ hflow
    exact hs.set hs.1 hsame hattested
  | @pass d store hstore =>
    obtain ⟨hsound, ha⟩ :=
      sound_pass hs.1 (fun row id stamp heq => hK row id stamp (by rw [heq])) hstore
    exact ⟨hsound, fun i f hf => (hs.2 i f hf).mono ha⟩

theorem invariant_initial {s : System} (hs : (system P m n).init s) : Invariant n s := by
  obtain ⟨⟨houtbox, hstreams, htrimmed, hremoved⟩, hflows⟩ := hs
  refine ⟨⟨Outbox.sound_initial houtbox, ?_, ⟨?_, ?_, ?_, ?_, ?_⟩, ?_⟩, ?_⟩
  · rw [houtbox.1]
    exact nofun
  · exact fun topic => Redis.sound_initial (hstreams topic).1
  · exact fun topic => Redis.lettered_initial (hstreams topic).1 (hstreams topic).2
  · exact fun topic => .inl (hstreams topic).1.2.1
  · exact fun topic => .inl (htrimmed topic)
  · intro topic
    rw [hremoved topic]
    exact nofun
  · rw [houtbox.2.1]
    exact nofun
  · intro i f hf
    rw [hflows i] at hf
    cases hf

/-- Where the event of an entry is. -/
inductive Whereabouts (streamMaxLen : ℕ) (s : Store) (topic : Text) (e : Redis.Entry) : Prop
  | unread (h : e ∈ (s.streams topic).entries.drop
      (max (s.streams topic).trimmed (s.streams topic).delivered))
  | pending (h : (s.streams topic).IsPending e.id)
  | handled (envelope : Json) (h : e.envelope? = some envelope)
      (hhandled : (e.id, envelope) ∈ (s.streams topic).handled)
  | outgrown (older newer : List Redis.Entry) (h : (s.streams topic).entries = older ++ newer)
      (he : e ∈ older) (hnewer : streamMaxLen ≤ newer.length)
  /-- Its dead letter is there, or as many have been added since as the stream keeps. -/
  | parked (id : ℕ) (record : Redis.DeadLetter)
      (h : (s.streams topic).added[id]? = some (Redis.dlqTopic topic, record))
      (hrecord : record.Of topic e) (hid : id ∉ s.removed topic)
      (hthere : s.trimmed topic ≤ id ∨ id + streamMaxLen < (s.streams topic).added.length)
  /-- What was thrown reads as the name of a field. -/
  | misaddressed (record : Redis.DeadLetter)
      (h : (Redis.dlqTopic topic, record) ∈ (s.streams topic).added)
      (hrecord : record.Of topic e) (haddressed : ¬ Addressed record)

/-- An entry is in one place of its stream. -/
theorem post_eq_of_id {pre post pre' post' : List Redis.Entry}
    (hnodup : (stream.entries.map Redis.Entry.id).Nodup) (h : stream.entries = pre ++ e :: post)
    (h' : stream.entries = pre' ++ e' :: post') (hid : e'.id = e.id) : post' = post := by
  have hmem : e ∈ stream.entries := by
    rw [h]
    exact List.mem_append_right _ List.mem_cons_self
  have hmem' : e' ∈ stream.entries := by
    rw [h']
    exact List.mem_append_right _ List.mem_cons_self
  cases List.inj_on_of_nodup_map hnodup hmem' hmem hid
  have hentries := List.Nodup.of_map _ hnodup
  rw [h, List.nodup_append, List.nodup_cons] at hentries
  have hpre : e ∉ pre := fun he => hentries.2.2 e he e List.mem_cons_self rfl
  exact ((List.append_cons_inj_of_notMem hpre hentries.2.1.1).mp (h.symm.trans h')).2.2.symm

/-- A letter carries the envelope of its entry, letter for letter. -/
theorem parse_of_of {envelope : Json} (hrecord : record.Of topic e)
    (henvelope : e.envelope? = some envelope) (hplain : envelope.Plain) :
    Json.parse record.envelope = some envelope := by
  obtain ⟨envelope', henvelope', hstringify, -⟩ := hrecord
  cases henvelope.symm.trans henvelope'
  rw [hstringify]
  exact Json.parse_stringify hplain

/-- The letter of an entry that comes last with its envelope is there. -/
theorem whereabouts_letter {pre post : List Redis.Entry} {envelope : Json} (hs : SoundStreams n s)
    (hentries : (s.streams topic).entries = pre ++ e :: post)
    (henvelope : e.envelope? = some envelope) (hplain : envelope.Plain)
    (hlast : ∀ e' ∈ post, e'.envelope? ≠ some envelope) (hrecord : record.Of topic e)
    (hmem : (Redis.dlqTopic topic, record) ∈ (s.streams topic).added) :
    Whereabouts n s topic e := by
  obtain ⟨id, hid⟩ := List.mem_iff_getElem?.mp hmem
  by_cases hremoved : id ∈ s.removed topic
  · by_cases haddressed : Addressed record
    · obtain ⟨letter, hletter, hreplayed⟩ := hs.removed topic id hremoved
      cases hid.symm.trans hletter
      obtain ⟨pre', e', post', hentries', hid', e'', he'', henvelope''⟩ := hreplayed haddressed
      have hsame : e'.id = e.id := by
        obtain ⟨-, -, -, -, horiginalId⟩ := hrecord
        rw [hid', horiginalId]
      cases post_eq_of_id (s.streams topic).nodup hentries hentries' hsame
      rw [parse_of_of hrecord henvelope hplain] at henvelope''
      exact absurd henvelope'' (hlast e'' he'')
    · exact .misaddressed record hmem hrecord haddressed
  · apply Whereabouts.parked id record hid hrecord hremoved
    obtain ⟨hlt, -⟩ := List.getElem?_eq_some_iff.mp hid
    rcases hs.letters topic with hletters | hletters <;> omega

/-- The last entry with an envelope is somewhere. -/
theorem whereabouts_of_last {pre post : List Redis.Entry} {envelope : Json}
    (hs : SoundStreams n s) (hentries : (s.streams topic).entries = pre ++ e :: post)
    (henvelope : e.envelope? = some envelope) (hplain : envelope.Plain)
    (hlast : ∀ e' ∈ post, e'.envelope? ≠ some envelope) : Whereabouts n s topic e := by
  have he : e ∈ (s.streams topic).entries := by
    rw [hentries]
    exact List.mem_append_right _ List.mem_cons_self
  have hsound := hs.sound topic
  have htrimmed : e ∈ (s.streams topic).entries.take (s.streams topic).trimmed →
      Whereabouts n s topic e := by
    intro he
    refine .outgrown _ _ (List.take_append_drop _ _).symm he ?_
    rw [List.length_drop]
    rcases hs.outgrown topic with hzero | hle
    · rw [hzero, List.take_zero] at he
      cases he
    · omega
  rw [← List.take_append_drop (max (s.streams topic).trimmed (s.streams topic).delivered)
    (s.streams topic).entries, List.mem_append] at he
  rcases he with he | he
  · rcases max_choice (s.streams topic).trimmed (s.streams topic).delivered with hmax | hmax
    · rw [hmax] at he
      exact htrimmed he
    · rw [hmax] at he
      rcases hsound.kept e he with hack | hpending | hgone
      · obtain ⟨e', he', hid, hsettled⟩ := hsound.acknowledged _ hack
        cases List.inj_on_of_nodup_map (s.streams topic).nodup he' (List.mem_of_mem_take he) hid
        rcases hsettled with hnone | ⟨envelope', h, hhandled⟩ | ⟨record, hrecord, hmem⟩
        · rw [Redis.Entry.envelope?, List.idxOf?_eq_none_iff.mpr hnone] at henvelope
          cases henvelope
        · exact .handled envelope' h hhandled
        · exact whereabouts_letter hs hentries henvelope hplain hlast hrecord hmem
      · exact .pending hpending
      · exact htrimmed hgone
  · exact .unread he

/--
In every state of every run a row that has not been published is unsent and there for the next
pass, and for one that has there is an entry of its topic with its payload in an envelope, as long
as that entry or its dead letter is to be found, or a handler has returned for it.
-/
theorem delivery_no_loss {s t : System} {as : List Action} (hs : (system P m n).init s)
    (h : (system P m n).Run Storable s as t) :
    ∀ u ∈ (system P m n).visited s as, ∀ row ∈ u.store.outbox.rows,
      (row.outboxId ∉ u.store.outbox.published → u.store.outbox.Eligible row) ∧
      (row.outboxId ∈ u.store.outbox.published → ∃ stamp, ∃ e ∈ (u.store.streams row.topic).entries,
        e.envelope? = some (envelopeOf stamp row.message) ∧
          Whereabouts n u.store row.topic e) := by
  have hstep : ∀ s a t, Invariant n s ∧ Concurrent.AllGood Ordered (fun _ _ => True) s →
      Storable s a → (system P m n).step s a = some t →
      Invariant n t ∧ Concurrent.AllGood Ordered (fun _ _ => True) t := by
    apply Concurrent.invariant_step
    · rintro s i request f - - hf
      cases hf
      exact ordered_replayEvent
    · exact fun s a t hs hgood hK hmoves => invariant_moves hs hgood hK hmoves
  have hinitial : Concurrent.AllGood Ordered (fun _ _ => True) s := by
    intro i f hf
    rw [hs.2 i] at hf
    cases hf
  have hinvariant := h.forall_visited hstep ⟨invariant_initial hs, hinitial⟩
  intro u hu row hrow
  have hsound := (hinvariant u hu).1.1
  constructor
  · intro hunpublished
    refine ⟨?_, hsound.outbox.held row hrow⟩
    by_contra hsent
    exact hunpublished (hsound.outbox.sent row hrow (by simpa using hsent))
  · intro hpublished
    obtain ⟨stamp, hcarried⟩ := hsound.carried _ (hsound.outbox.delivered row hrow hpublished)
    obtain ⟨pre, e, post, hentries, henvelope, hlast⟩ := exists_last hcarried
    have hmem : e ∈ (u.store.streams row.topic).entries := by
      rw [show (u.store.streams row.topic).entries = pre ++ e :: post from hentries]
      exact List.mem_append_right _ List.mem_cons_self
    exact ⟨stamp, e, hmem, henvelope, whereabouts_of_last hsound.streams hentries henvelope
      (plain_buildEnvelope (hsound.payloads row hrow)) hlast⟩

theorem initial_default (P : Platform) (m n : ℕ) : (system P m n).init ⟨{}, fun _ => none⟩ :=
  ⟨⟨⟨rfl, rfl, rfl, fun _ => rfl⟩,
    fun _ => ⟨⟨rfl, rfl, rfl, rfl, rfl, fun _ => ⟨_, rfl, rfl⟩⟩, rfl⟩,
    fun _ => rfl, fun _ => rfl⟩, fun _ => rfl⟩

def audit : Text := units "audit"

def newYear : Stamp where
  id := units "e1"
  timestamp := units "2024-01-01T00:00:00.000Z"
  correlationId := units "c1"
  carrier := []

def auditRow : Outbox.Row where
  outboxId := 0
  topic := audit
  payload := .null
  correlationId := none
  createdAt := 0

def relayed (a : Outbox.Action) : Action := .pass (.outbox a (units "1-0") newYear)

/-- The handler returns. -/
def returning : Redis.Choice := { Redis.failing with thrown := none }

def consumed (x : Redis.Choice) : Action := .pass (.stream audit (.advance 0 .ok x))

/--
The event of a row is published, a handler fails three times for it, and its dead letter is
replayed while the letter's deletion goes unanswered. In the next turn the handler returns.
-/
def replayedOnce : List Action :=
  [relayed (.append auditRow), relayed (.pump 0)] ++ List.replicate 4 (relayed (.advance 0 .ok)) ++
  [.pass (.stream audit (.poll 0)), consumed returning, consumed returning, consumed returning,
    consumed Redis.failing, consumed Redis.failing, consumed Redis.failing, consumed returning,
    consumed returning, consumed returning, .start 0 (audit, 0), .call 0 ⟨.ok, []⟩,
    .call 0 ⟨.ok, units "2-0"⟩, .call 0 ⟨.lost, []⟩, .pass (.stream audit (.poll 0)),
    consumed returning, consumed returning, consumed returning, consumed returning,
    consumed returning]

theorem storable_replayedOnce : ∀ a ∈ replayedOnce, ∀ s, Storable s a := by
  have happend : ∀ s, Storable s (relayed (.append auditRow)) := by
    rintro s row id stamp ⟨⟩
    trivial
  simp only [replayedOnce, relayed, consumed, List.replicate, List.forall_mem_append,
    List.forall_mem_cons]
  refine ⟨⟨⟨happend, ?_⟩, ?_⟩, ?_⟩ <;> simp [Storable]

theorem delivery_no_loss_replayed : ∃ t,
    (system Redis.platform 50 10000).exec ⟨{}, fun _ => none⟩ replayedOnce = some t ∧
    t.store.outbox.published = [0] ∧ t.store.removed audit = [0] ∧
    (t.store.streams audit).handled.length = 1 ∧
    ∀ row ∈ t.store.outbox.rows,
      (row.outboxId ∉ t.store.outbox.published → t.store.outbox.Eligible row) ∧
      (row.outboxId ∈ t.store.outbox.published → ∃ stamp, ∃ e ∈ (t.store.streams row.topic).entries,
        e.envelope? = some (envelopeOf stamp row.message) ∧
          Whereabouts 10000 t.store row.topic e) := by
  have h : ((system Redis.platform 50 10000).exec ⟨{}, fun _ => none⟩ replayedOnce).any fun t =>
      t.store.outbox.published = [0] ∧ t.store.removed audit = [0] ∧
        (t.store.streams audit).handled.length = 1 := by decide +kernel
  obtain ⟨t, ht, h⟩ := (Option.any_eq_true _ _).mp h
  obtain ⟨hpublished, hremoved, hhandled⟩ := of_decide_eq_true h
  have hrun := run_of_exec_forall ht storable_replayedOnce
  exact ⟨t, ht, hpublished, hremoved, hhandled,
    delivery_no_loss (initial_default _ _ _) hrun t hrun.mem_visited⟩

end AssureCode.Delivery
