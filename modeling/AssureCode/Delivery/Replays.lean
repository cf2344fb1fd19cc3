import AssureCode.Delivery.Streams

/-! # Replays of dead letters

A replay deletes a letter only after its envelope has been added to the stream it came from, so the
letters that are deleted have been replayed, whatever fails on the way.
-/

namespace AssureCode.Delivery

open Js Bus Replay Machine
open Settlement (Outcome)

/-- What a replay has been told of a letter is so, and what it has added is there. -/
structure Attested (s : Store) (h : Trail) : Prop where
  read : ∀ dlqStream id fs rest, h = ⟨.xrange dlqStream id, some (some fs)⟩ :: rest →
    ∃ record, (s.streams (withoutDlq dlqStream)).added[id]? = some (dlqStream, record) ∧
      fs = fields record
  added : ∀ dlqStream id record stream envelope newId,
    h = [⟨.xrange dlqStream id, some (some (fields record))⟩, ⟨.xadd stream envelope, some newId⟩] →
    envelope = record.envelope → Addressed record → Replayed (s.streams stream) record

variable {P : Platform} {n id : ℕ} {s t : Store} {record : Redis.DeadLetter} {h : Trail}
  {x : Choice} {dlqStream envelope : Text} {c : Call} {r : c.Reply}

theorem Attested.mono (h' : Attested s h)
    (ha : ∀ topic, Appends (s.streams topic) (t.streams topic)) : Attested t h where
  read dlqStream id fs rest heq := by
    obtain ⟨record, hletter, hfs⟩ := h'.read dlqStream id fs rest heq
    exact ⟨record, (ha _).getElem? hletter, hfs⟩
  added dlqStream id record stream envelope newId heq henvelope haddressed :=
    (ha stream).replayed
      (h'.added dlqStream id record stream envelope newId heq henvelope haddressed)

theorem attested_nil : Attested s [] := ⟨nofun, nofun⟩

/-- A letter that is read is there. -/
theorem exists_record_of_letter {fs : List Text} (h : s.letter dlqStream id = some fs) :
    ∃ record, (s.streams (withoutDlq dlqStream)).added[id]? = some (dlqStream, record) ∧
      fs = fields record := by
  rw [Store.letter] at h
  split at h
  · obtain ⟨⟨stream, record⟩, hletter, h⟩ := Option.bind_eq_some_iff.mp h
    split at h
    · next hstream => exact ⟨record, by rw [hletter, ← hstream], (Option.some.inj h).symm⟩
    · cases h
  · cases h

/-- A letter stands for an entry of its topic, and goes back there. -/
theorem exists_entry_of_letter (hs : SoundStreams n s)
    (h : (s.streams (withoutDlq dlqStream)).added[id]? = some (dlqStream, record)) :
    record.originalStream = withoutDlq dlqStream ∧
      ∃ e ∈ (s.streams (withoutDlq dlqStream)).entries, e.id = record.originalId := by
  obtain ⟨e, he, -, ⟨_, -, -, horiginalStream, horiginalId⟩, -⟩ :=
    (hs.lettered (withoutDlq dlqStream)).letters _ (List.mem_of_getElem? h)
  exact ⟨horiginalStream, e, he, horiginalId.symm⟩

theorem replayed_addEnvelope {newId : Text} (hs : SoundStreams n s)
    (h : (s.streams (withoutDlq dlqStream)).added[id]? = some (dlqStream, record))
    (haddressed : Addressed record)
    (ht : addEnvelope P n s (targetTopic dlqStream (fields record)) newId record.envelope =
      some t) :
    Replayed (t.streams (targetTopic dlqStream (fields record))) record := by
  have hentries := entries_addEnvelope ht
  obtain ⟨hstream, e, he, hid⟩ := exists_entry_of_letter hs h
  rw [targetTopic_fields haddressed, hstream] at hentries ⊢
  obtain ⟨pre, post, hsplit⟩ := List.append_of_mem he
  refine ⟨pre, e, post ++ [⟨newId, Redis.envelopeFields record.envelope⟩], ?_, hid, _,
    List.mem_concat_self, Redis.envelope?_envelopeFields⟩
  rw [hentries, hsplit, List.append_assoc, List.cons_append]

theorem sound_remove {newId : Text} (hs : Sound n s)
    (h' : Attested s [⟨.xrange dlqStream id, some (some (fields record))⟩,
      ⟨.xadd (targetTopic dlqStream (fields record)) record.envelope, some newId⟩])
    (hletter : (s.streams (withoutDlq dlqStream)).added[id]? = some (dlqStream, record)) :
    Sound n (remove s dlqStream id) := by
  refine ⟨hs.outbox, hs.payloads, ⟨hs.streams.sound, hs.streams.lettered, hs.streams.outgrown,
    hs.streams.letters, ?_⟩, hs.carried⟩
  intro topic id' hid'
  change id' ∈ Function.update s.removed (withoutDlq dlqStream) _ topic at hid'
  rcases eq_or_ne topic (withoutDlq dlqStream) with rfl | hne
  · rw [Function.update_self] at hid'
    rcases List.mem_cons.mp hid' with rfl | hid'
    · refine ⟨_, hletter, fun haddressed => ?_⟩
      have hreplayed := h'.added _ _ _ _ _ _ rfl rfl haddressed
      rwa [targetTopic_fields haddressed, (exists_entry_of_letter hs.streams hletter).1]
        at hreplayed
    · exact hs.streams.removed _ id' hid'
  · rw [Function.update_of_ne hne] at hid'
    exact hs.streams.removed topic id' hid'

/-- The envelope among the fields of a letter. -/
theorem envelope_of_idxOf? {envIdx : ℕ}
    (h : (fields record).idxOf? (units "envelope") = some envIdx) :
    ((fields record)[envIdx + 1]?).getD [] = record.envelope := by
  cases idxOf?_fields.symm.trans h
  rfl

/-- What is told of a letter does not change with the calls that follow. -/
theorem read_cons {ev : Program.Event Call.Reply} {rest rest' : Trail} {fs : List Text}
    (h' : Attested s (ev :: rest))
    (heq : ev :: rest' = ⟨.xrange dlqStream id, some (some fs)⟩ :: h) :
    ∃ record, (s.streams (withoutDlq dlqStream)).added[id]? = some (dlqStream, record) ∧
      fs = fields record := by
  obtain ⟨rfl, -⟩ := List.cons.inj heq
  exact h'.read dlqStream id fs rest rfl

theorem attested_xadd {reply : Option Text} {target : Text}
    (h' : Attested s [⟨.xrange dlqStream id, some (some (fields record))⟩])
    (hreply : reply ≠ none → Addressed record → Replayed (s.streams target) record) :
    Attested s [⟨.xrange dlqStream id, some (some (fields record))⟩,
      ⟨.xadd target envelope, reply⟩] := by
  refine ⟨fun _ _ _ _ => read_cons h', ?_⟩
  intro dlqStream' id' record' target' envelope' newId heq _ haddressed
  obtain ⟨hread, hrest⟩ := List.cons.inj heq
  obtain ⟨hcall, hfields⟩ := Sigma.mk.inj hread
  cases hcall
  cases fields_injective (Option.some.inj (Option.some.inj (eq_of_heq hfields)))
  obtain ⟨hcall, hreply'⟩ := Sigma.mk.inj (List.cons.inj hrest).1
  cases hcall
  have hreply' : reply = some newId := eq_of_heq hreply'
  apply hreply _ haddressed
  rw [hreply']
  exact Option.some_ne_none newId

/-- A call that is served leaves what has been told of letters true. -/
theorem sound_serve (hs : Sound n s) (h' : Attested s h) (hc : Ordered h c)
    (hserve : serve P n s h c x = some (r, t)) :
    Sound n t ∧ (∀ topic, Appends (s.streams topic) (t.streams topic)) ∧
      Attested t (h ++ [⟨c, r⟩]) := by
  have hsame : ∀ topic, Appends (s.streams topic) (s.streams topic) :=
    fun _ => ⟨List.prefix_rfl, List.prefix_rfl⟩
  cases c with
  | xrange dlqStream id =>
    cases hc
    cases hserve
    refine ⟨hs, hsame, ?_, ?_⟩
    · intro dlqStream' id' fs rest heq
      obtain ⟨hcall, hreply⟩ := Sigma.mk.inj (List.cons.inj heq).1
      cases hcall
      have hreply : (if x.outcome = .ok then some (s.letter dlqStream id) else none) =
          some (some fs) := eq_of_heq hreply
      split at hreply
      · exact exists_record_of_letter (Option.some.inj hreply)
      · cases hreply
    · intro _ _ _ _ _ _ heq
      cases (List.cons.inj heq).2
  | xadd stream envelope =>
    obtain ⟨dlqStream, id, fs, envIdx, rfl, henvIdx, rfl, rfl⟩ := hc
    obtain ⟨record, hletter, rfl⟩ := h'.read dlqStream id fs [] rfl
    rw [envelope_of_idxOf? henvIdx] at hserve ⊢
    rw [serve] at hserve
    split at hserve
    · cases hserve
      exact ⟨hs, hsame, attested_xadd h' fun hne => absurd rfl hne⟩
    · obtain ⟨t', hadd, heq⟩ := Option.map_eq_some_iff.mp hserve
      cases heq
      have happends := appends_moveStream hadd
      refine ⟨sound_moveStream hs hadd, happends, attested_xadd (h'.mono happends) fun _ => ?_⟩
      exact fun haddressed => replayed_addEnvelope hs.streams hletter haddressed hadd
  | xdel dlqStream id =>
    obtain ⟨fs, envIdx, newId, rfl, henvIdx⟩ := hc
    obtain ⟨record, hletter, rfl⟩ := h'.read dlqStream id fs _ rfl
    rw [envelope_of_idxOf? henvIdx] at h' ⊢
    have hattested : ∀ r : (Call.xdel dlqStream id).Reply,
        Attested s ([⟨.xrange dlqStream id, some (some (fields record))⟩,
          ⟨.xadd (targetTopic dlqStream (fields record)) record.envelope, some newId⟩] ++
          [⟨.xdel dlqStream id, r⟩]) := by
      refine fun r => ⟨fun _ _ _ _ => read_cons h', ?_⟩
      intro _ _ _ _ _ _ heq
      cases (List.cons.inj (List.cons.inj heq).2).2
    rw [serve] at hserve
    split at hserve
    · cases hserve
      exact ⟨hs, hsame, hattested none⟩
    · cases hserve
      exact ⟨sound_remove hs h' hletter, hsame, ⟨(hattested _).read, (hattested _).added⟩⟩

end AssureCode.Delivery
