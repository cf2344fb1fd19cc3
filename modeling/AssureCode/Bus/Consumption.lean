import AssureCode.Bus.Streams

/-! # Nothing is lost in a stream

A consumer acknowledges an entry only when it is done with it, so that whatever fails, and wherever
consumers die, an entry that has not been handled, forwarded or passed over stays pending.
-/

namespace AssureCode.Bus.Redis

open Js Machine Program
open Settlement (Outcome)

/-- What a consumer has done and been told in its present turn. -/
abbrev History : Type := List (Program.Event Call.Reply)

/-- A reply has given the entry to the consumer. -/
def Given (h : History) (e : Entry) : Prop :=
  ∃ b : Batch, e ∈ b.entries ∧
    ((⟨.xautoclaim, some b⟩ : Program.Event Call.Reply) ∈ h ∨
      (⟨.xreadgroup, some (some b)⟩ : Program.Event Call.Reply) ∈ h)

/-- A call of the handler with the event of the entry has returned. -/
def HandledBy (h : History) (e : Entry) : Prop :=
  ∃ attempt envelope, e.envelope? = some envelope ∧
    (⟨.handler e.id attempt envelope, none⟩ : Program.Event Call.Reply) ∈ h

/-- The record carries the event of the entry. -/
def DeadLetter.Of (topic : Text) (e : Entry) (record : DeadLetter) : Prop :=
  ∃ envelope, e.envelope? = some envelope ∧ record.envelope = Json.stringify envelope ∧
    record.originalStream = topic ∧ record.originalId = e.id

def ForwardedBy (topic : Text) (h : History) (e : Entry) : Prop :=
  ∃ record : DeadLetter, record.Of topic e ∧
    (⟨.xadd (dlqTopic topic) record, some ()⟩ : Program.Event Call.Reply) ∈ h

/-- The calls of the handler for an entry since it was last given to the consumer. -/
def tally (id : Text) (n : ℕ) : Program.Event Call.Reply → ℕ
  | ⟨.xautoclaim, some b⟩ | ⟨.xreadgroup, some (some b)⟩ =>
    if id ∈ b.entries.map Entry.id then 0 else n
  | ⟨.handler id' _ _, _⟩ => if id' = id then n + 1 else n
  | _ => n

def tries (id : Text) (h : History) : ℕ := h.foldl (tally id) 0

/-- The call is in order after what has come before it. -/
def Admitted (topic : Text) (h : History) : Call → Prop
  | .xack id => ∃ e, Given h e ∧ e.id = id ∧
      (units "envelope" ∉ e.fields ∨ HandledBy h e ∨ ForwardedBy topic h e)
  | .handler id _ _ => tries id h < maxRetries
  | _ => True

/-- The entry that a call is made for. -/
def Call.subject : Call → Option Text
  | .xautoclaim | .xreadgroup => none
  | .xack id | .now id | .timestamp id | .handler id _ _ => some id
  | .xadd _ record => some record.originalId

/-- Since then, all calls have been for one entry. -/
def Extends (id : Text) (h h' : History) : Prop :=
  ∃ k : History, h' = h ++ k ∧ ∀ ev ∈ k, ev.1.subject = some id

variable {P : Platform} {topic id id' : Text} {h h' h'' : History} {e e' : Entry} {envelope : Json}
  {Q : History → Unit → Prop} {E : History → Prop} {v w : Attempts} {left : ℕ}
  {ev : Program.Event Call.Reply}

theorem Extends.refl (id : Text) (h : History) : Extends id h h := ⟨[], by simp, by simp⟩

theorem Extends.trans (hh : Extends id h h') (hh' : Extends id h' h'') : Extends id h h'' := by
  obtain ⟨k, rfl, hk⟩ := hh
  obtain ⟨k', rfl, hk'⟩ := hh'
  refine ⟨k ++ k', by rw [List.append_assoc], ?_⟩
  rw [List.forall_mem_append]
  exact ⟨hk, hk'⟩

theorem Extends.call (hh : Extends id h h') (hev : ev.1.subject = some id) :
    Extends id h (h' ++ [ev]) :=
  hh.trans ⟨[ev], rfl, by rwa [List.forall_mem_singleton]⟩

theorem Extends.mem (hh : Extends id h h') (hev : ev ∈ h) : ev ∈ h' := by
  obtain ⟨k, rfl, -⟩ := hh
  exact List.mem_append_left k hev

theorem Extends.given (hh : Extends id h h') (he : Given h e) : Given h' e := by
  obtain ⟨b, hb, hev⟩ := he
  exact ⟨b, hb, hev.imp hh.mem hh.mem⟩

theorem tries_concat (id : Text) (h : History) (ev : Program.Event Call.Reply) :
    tries id (h ++ [ev]) = tally id (tries id h) ev := by
  rw [tries, List.foldl_append]
  rfl

/-- Calls for other entries do not count. -/
theorem tally_of_ne {n : ℕ} (hne : id' ≠ id) (hev : ev.1.subject = some id) :
    tally id' n ev = n := by
  obtain ⟨c, r⟩ := ev
  cases c with
  | handler i attempt envelope =>
    cases hev
    exact if_neg (Ne.symm hne)
  | xautoclaim | xreadgroup => cases hev
  | _ => rfl

theorem Extends.tries_of_ne (hh : Extends id h h') (hne : id' ≠ id) :
    tries id' h' = tries id' h := by
  obtain ⟨k, rfl, hk⟩ := hh
  induction k using List.reverseRecOn with
  | nil => rw [List.append_nil]
  | append_singleton k ev ih =>
    rw [List.forall_mem_append, List.forall_mem_singleton] at hk
    rw [← List.append_assoc, tries_concat, tally_of_ne hne hk.2, ih hk.1]

/-! ## What a turn does -/

/-- The handler is called as often as attempts are left, until it returns. -/
theorem meets_retry (hh : Extends id h h') (hn : tries id h' + left ≤ maxRetries)
    (hv : v.success = false) :
    (retry id envelope left v).Meets (Admitted topic)
      (fun h' w => Extends id h h' ∧ (w.success = true → ∃ attempt,
        (⟨.handler id attempt envelope, none⟩ : Program.Event Call.Reply) ∈ h')) E h' := by
  induction left generalizing h' v with
  | zero =>
    refine ⟨hh, fun hsuccess => ?_⟩
    rw [hv] at hsuccess
    cases hsuccess
  | succ left ih =>
    constructor
    · show tries id h' < maxRetries
      omega
    · intro r
      cases r with
      | none => exact ⟨hh.call rfl, fun _ => ⟨v.attempt + 1, List.mem_concat_self⟩⟩
      | some err =>
        refine ih (hh.call rfl) ?_ hv
        have htally : tries id (h' ++ [⟨.handler id (v.attempt + 1) envelope, some err⟩]) =
            tries id h' + 1 := (tries_concat ..).trans (if_pos rfl)
        rw [htally]
        omega

theorem meets_forward (hh : Extends e.id h h') (henvelope : e.envelope? = some envelope) :
    (forward topic e.id envelope v).Meets (Admitted topic)
      (fun h' _ => Extends e.id h h' ∧ ForwardedBy topic h' e) (Extends e.id h) h' := by
  rw [forward, meets_bind, meets_ofOption]
  cases v.lastError.errorMessage with
  | none => exact hh
  | some errorMessage =>
    refine ⟨trivial, fun failedAt => ⟨trivial, fun r => ?_⟩⟩
    cases r with
    | none => exact (hh.call rfl).call rfl
    | some _ =>
      exact ⟨(hh.call rfl).call rfl, _, ⟨envelope, henvelope, rfl, rfl, rfl⟩,
        List.mem_concat_self⟩

theorem meets_xack (hh : Extends id h h') (hK : Admitted topic h' (.xack id)) :
    (xack id).Meets (Admitted topic) (fun h' _ => Extends id h h') (Extends id h) h' := by
  refine ⟨hK, fun r => ?_⟩
  cases r with
  | none => exact hh.call rfl
  | some _ => exact hh.call rfl

/-- An entry is acknowledged when its handler has returned, or it has been forwarded. -/
theorem meets_processEntry (hgiven : Given h e) (htries : tries e.id h = 0) :
    (processEntry P topic e).Meets (Admitted topic) (fun h' _ => Extends e.id h h')
      (Extends e.id h) h := by
  rw [processEntry]
  split
  · next hidx =>
    exact meets_xack (.refl _ h) ⟨e, hgiven, rfl, .inl (List.idxOf?_eq_none_iff.mp hidx)⟩
  · next idx hidx =>
    have hparse : e.envelope? = e.fields[idx + 1]?.bind Json.parse := by
      rw [Entry.envelope?, hidx, Option.bind_some]
    rw [meets_bind, meets_ofOption, ← hparse]
    cases henvelope : e.envelope? with
    | none => exact .refl _ h
    | some envelope =>
      refine ⟨trivial, fun now => ?_⟩
      have hnow : Extends e.id h (h ++ [⟨.now e.id, now⟩]) := (Extends.refl _ h).call rfl
      change Program.Meets _ _ _ _ (ite _ _ _)
      split
      · rw [meets_bind]
        have htries' : tries e.id (h ++ [⟨.now e.id, now⟩]) = 0 := (tries_concat ..).trans htries
        refine (meets_retry hnow (by rw [htries', Nat.zero_add]) rfl).mono ?_ fun _ => id
        rintro h' w ⟨hh', hsuccess⟩
        split
        · next hw =>
          obtain ⟨attempt, hmem⟩ := hsuccess hw
          exact meets_xack hh' ⟨e, hh'.given hgiven, rfl,
            .inr (.inl ⟨attempt, envelope, henvelope, hmem⟩)⟩
        · rw [meets_bind]
          refine (meets_forward hh' henvelope).mono ?_ fun _ => id
          rintro h'' _ ⟨hh'', hforwarded⟩
          exact meets_xack hh'' ⟨e, hh''.given hgiven, rfl, .inr (.inr hforwarded)⟩
      · exact hnow

/-- The entries left of a batch have been given to the consumer and not been tried since. -/
def Left (es : List Entry) (h : History) : Prop :=
  (∀ e ∈ es, Given h e ∧ tries e.id h = 0) ∧ (es.map Entry.id).Nodup

theorem meets_batch {b : Batch} {c : Call} {r : c.Reply}
    (hgiven : ∀ e ∈ b.entries, Given (h ++ [⟨c, r⟩]) e)
    (htries : ∀ e ∈ b.entries, tries e.id (h ++ [⟨c, r⟩]) = 0) :
    (forM b.entries (processEntry P topic)).Meets (Admitted topic) (fun _ _ => True)
      (fun _ => True) (h ++ [⟨c, r⟩]) := by
  have hleft : Left b.entries (h ++ [⟨c, r⟩]) :=
    ⟨fun e he => ⟨hgiven e he, htries e he⟩, b.nodup⟩
  refine (meets_forM ?_ hleft).mono (fun _ _ _ => trivial) fun _ => id
  rintro e es h ⟨hes, hnodup⟩
  obtain ⟨⟨hgiven, htries⟩, hes⟩ := List.forall_mem_cons.mp hes
  obtain ⟨hnotMem, hnodup⟩ := List.nodup_cons.mp hnodup
  refine (meets_processEntry hgiven htries).mono (fun h' _ hh' => ?_) fun _ _ => trivial
  refine ⟨fun e' he' => ?_, hnodup⟩
  obtain ⟨hgiven', htries'⟩ := hes e' he'
  have hne : e'.id ≠ e.id := by
    intro heq
    exact hnotMem (heq ▸ List.mem_map_of_mem he')
  exact ⟨hh'.given hgiven', (hh'.tries_of_ne hne).trans htries'⟩

/-- Every call of a turn is in order, whatever is answered. -/
theorem meets_poll : (poll P topic).Meets (Admitted topic) (fun _ _ => True) (fun _ => True) h := by
  have hread : ∀ h, (readNew P topic).Meets (Admitted topic) (fun _ _ => True)
      (fun _ => True) h := by
    intro h
    refine ⟨trivial, fun r => ?_⟩
    rcases r with _ | _ | b
    · trivial
    · trivial
    · apply meets_batch (fun e he => ⟨b, he, .inr List.mem_concat_self⟩)
      intro e he
      rw [tries_concat]
      exact if_pos (List.mem_map_of_mem he)
  rw [poll, meets_catching, meets_bind, reclaimStale, meets_catching]
  refine ⟨trivial, fun r => ?_⟩
  cases r with
  | none => exact (hread _).mono (fun _ _ => id) fun _ => id
  | some b =>
    have hbatch : (forM b.entries (processEntry P topic)).Meets (Admitted topic)
        (fun _ _ => True) (fun _ => True) (h ++ [⟨.xautoclaim, some b⟩]) := by
      apply meets_batch (fun e he => ⟨b, he, .inl List.mem_concat_self⟩)
      intro e he
      rw [tries_concat]
      exact if_pos (List.mem_map_of_mem he)
    exact hbatch.mono (fun h _ _ => hread h) fun h _ => hread h

/-! ## What a run does -/

/-- The history is true: what it says has happened in the stream. -/
structure Attested (s : State) (h : History) : Prop where
  given : ∀ e, Given h e → e ∈ s.entries
  handled : ∀ id attempt envelope,
    (⟨.handler id attempt envelope, none⟩ : Program.Event Call.Reply) ∈ h →
      (id, envelope) ∈ s.handled
  added : ∀ stream record,
    (⟨.xadd stream record, some ()⟩ : Program.Event Call.Reply) ∈ h → (stream, record) ∈ s.added

/-- The entry is none of the bus, or a handler has returned for it, or it is a dead letter. -/
def State.Settled (s : State) (topic : Text) (e : Entry) : Prop :=
  units "envelope" ∉ e.fields ∨
    (∃ envelope, e.envelope? = some envelope ∧ (e.id, envelope) ∈ s.handled) ∨
    ∃ record : DeadLetter, record.Of topic e ∧ (dlqTopic topic, record) ∈ s.added

structure Sound (topic : Text) (s : State) : Prop where
  turns : ∀ i h p, s.consumers i = .running h p →
    p.Meets (Admitted topic) (fun _ _ => True) (fun _ => True) h ∧
      (∀ id, tries id h ≤ maxRetries) ∧ Attested s h
  acknowledged : ∀ id ∈ s.acknowledged, ∃ e ∈ s.entries, e.id = id ∧ s.Settled topic e
  kept : ∀ e ∈ s.entries.take s.delivered,
    e.id ∈ s.acknowledged ∨ s.IsPending e.id ∨ e ∈ s.entries.take s.trimmed
  bounds : s.trimmed ≤ s.entries.length ∧ s.delivered ≤ s.entries.length

variable {s t : State} {a : Action} {as : List Action} {i j : ℕ} {o : Outcome} {x : Choice}
  {c : Call} {p : Code Unit} {b : Consumer}

/-- Nothing that has happened is undone. -/
structure Grows (s t : State) : Prop where
  entries : s.entries ⊆ t.entries
  handled : s.handled ⊆ t.handled
  added : s.added ⊆ t.added

theorem Grows.refl (s : State) : Grows s s :=
  ⟨List.Subset.refl _, List.Subset.refl _, List.Subset.refl _⟩

theorem Grows.attested (hg : Grows s t) (h' : Attested s h) : Attested t h where
  given e he := hg.entries (h'.given e he)
  handled id attempt envelope hmem := hg.handled (h'.handled id attempt envelope hmem)
  added stream record hmem := hg.added (h'.added stream record hmem)

theorem Grows.settled (hg : Grows s t) (he : s.Settled topic e) : t.Settled topic e := by
  rcases he with hnone | ⟨envelope, henvelope, hmem⟩ | ⟨record, hrecord, hmem⟩
  · exact .inl hnone
  · exact .inr (.inl ⟨envelope, henvelope, hg.handled hmem⟩)
  · exact .inr (.inr ⟨record, hrecord, hg.added hmem⟩)

theorem grows_perform (s : State) (i : ℕ) (x : Choice) (c : Call) : Grows s (s.perform i x c) := by
  cases c with
  | xadd stream record =>
    exact ⟨List.Subset.refl _, List.Subset.refl _, List.subset_append_left ..⟩
  | handler id attempt envelope =>
    rw [State.perform]
    split
    · exact ⟨List.Subset.refl _, List.subset_append_left .., List.Subset.refl _⟩
    · exact .refl s
  | _ => exact ⟨List.Subset.refl _, List.Subset.refl _, List.Subset.refl _⟩

theorem perform_entries : (s.perform i x c).entries = s.entries := by
  cases c with
  | handler => rw [State.perform]; split <;> rfl
  | _ => rfl

theorem perform_trimmed : (s.perform i x c).trimmed = s.trimmed := by
  cases c with
  | handler => rw [State.perform]; split <;> rfl
  | _ => rfl

theorem perform_consumers : (s.perform i x c).consumers = s.consumers := by
  cases c with
  | handler => rw [State.perform]; split <;> rfl
  | _ => rfl

/-- What a consumer acknowledges it has dealt with, by its own account. -/
theorem settled_of_admitted (h' : Attested s h) (hc : Admitted topic h (.xack id)) :
    ∃ e ∈ s.entries, e.id = id ∧ s.Settled topic e := by
  obtain ⟨e, hgiven, hid, hsettled⟩ := hc
  refine ⟨e, h'.given e hgiven, hid, ?_⟩
  rcases hsettled with hnone | ⟨attempt, envelope, henvelope, hmem⟩ | ⟨record, hrecord, hmem⟩
  · exact .inl hnone
  · exact .inr (.inl ⟨envelope, henvelope, h'.handled _ _ _ hmem⟩)
  · exact .inr (.inr ⟨record, hrecord, h'.added _ _ hmem⟩)

theorem acknowledged_perform (hid : id ∈ (s.perform i x c).acknowledged) :
    id ∈ s.acknowledged ∨ c = .xack id := by
  cases c with
  | xack id' =>
    rcases List.mem_append.mp hid with hid | hid
    · exact .inl hid
    · exact .inr (by rw [List.mem_singleton.mp hid])
  | handler =>
    rw [State.perform] at hid
    split at hid <;> exact .inl hid
  | _ => exact .inl hid

/-- A pending entry is taken over by another consumer unless it is gone from the stream. -/
theorem isPending_claim {idle : List Text} (he : e ∈ s.entries)
    (hp : s.IsPending e.id) :
    (∃ p ∈ claim s i idle, p.1 = e.id) ∨ e ∈ s.entries.take s.trimmed := by
  obtain ⟨⟨id, k⟩, hmem, rfl⟩ := hp
  by_cases hclaimed : e.id ∈ (s.claimed idle).entries.map Entry.id
  · exact .inl ⟨(e.id, i), List.mem_filterMap.mpr ⟨_, hmem, if_pos hclaimed⟩, rfl⟩
  · by_cases hgone : e.id ∈ idle ∧ e.id ∈ (s.entries.take s.trimmed).map Entry.id
    · obtain ⟨e', he', heq⟩ := List.mem_map.mp hgone.2
      have hsame : e' = e := List.inj_on_of_nodup_map s.nodup (List.mem_of_mem_take he') he heq
      exact .inr (hsame ▸ he')
    · refine .inl ⟨(e.id, k), List.mem_filterMap.mpr ⟨_, hmem, ?_⟩, rfl⟩
      rw [if_neg hclaimed, if_neg hgone]

theorem kept_perform (hs : Sound topic s) (he : e ∈ s.entries.take (s.perform i x c).delivered) :
    e.id ∈ (s.perform i x c).acknowledged ∨ (s.perform i x c).IsPending e.id ∨
      e ∈ s.entries.take s.trimmed := by
  cases c with
  | xautoclaim =>
    rcases hs.kept e he with hack | hpending | hgone
    · exact .inl hack
    · exact .inr (isPending_claim (List.mem_of_mem_take he) hpending)
    · exact .inr (.inr hgone)
  | xreadgroup =>
    have hread : s.unread.entries =
        (s.entries.drop (max s.trimmed s.delivered)).take s.unread.entries.length := by
      rw [State.unread, List.length_take]
      exact List.take_eq_take_min
    change e ∈ s.entries.take (max s.trimmed s.delivered + s.unread.entries.length) at he
    rw [List.take_add, ← hread] at he
    rcases List.mem_append.mp he with he | he
    · rcases le_total s.trimmed s.delivered with hle | hle
      · rw [max_eq_right hle] at he
        rcases hs.kept e he with hack | ⟨q, hq, hid⟩ | hgone
        · exact .inl hack
        · exact .inr (.inl ⟨q, List.mem_append_left _ hq, hid⟩)
        · exact .inr (.inr hgone)
      · rw [max_eq_left hle] at he
        exact .inr (.inr he)
    · exact .inr (.inl ⟨(e.id, i), List.mem_append_right _ (List.mem_map_of_mem he), rfl⟩)
  | xack id =>
    rcases hs.kept e he with hack | ⟨q, hq, hid⟩ | hgone
    · exact .inl (List.mem_append_left _ hack)
    · by_cases hsame : e.id = id
      · exact .inl (List.mem_append_right _ (List.mem_singleton.mpr hsame))
      · exact .inr (.inl ⟨q, List.mem_filter.mpr ⟨hq, by simpa [hid] using hsame⟩, hid⟩)
    · exact .inr (.inr hgone)
  | handler =>
    rw [State.perform] at he ⊢
    split at he <;> exact hs.kept e he
  | _ => exact hs.kept e he

theorem delivered_perform (hs : Sound topic s) :
    (s.perform i x c).delivered ≤ s.entries.length := by
  cases c with
  | xreadgroup =>
    change max s.trimmed s.delivered + s.unread.entries.length ≤ _
    rw [State.unread, List.length_take, List.length_drop]
    have hbounds := hs.bounds
    omega
  | handler =>
    rw [State.perform]
    split <;> exact hs.bounds.2
  | _ => exact hs.bounds.2

/-- A call and its answer are added to a history that is true. -/
theorem Attested.call (h' : Attested s h) (hg : Grows s t)
    (hgiven : ∀ e, Given (h ++ [ev]) e → Given h e ∨ e ∈ t.entries)
    (hhandled : ∀ id attempt envelope, ev = ⟨.handler id attempt envelope, none⟩ →
      (id, envelope) ∈ t.handled)
    (hadded : ∀ stream record, ev = ⟨.xadd stream record, some ()⟩ →
      (stream, record) ∈ t.added) : Attested t (h ++ [ev]) where
  given e he := by
    rcases hgiven e he with he | he
    · exact hg.entries (h'.given e he)
    · exact he
  handled id attempt envelope hmem := by
    rcases List.mem_append.mp hmem with hmem | hmem
    · exact hg.handled (h'.handled _ _ _ hmem)
    · exact hhandled id attempt envelope (List.mem_singleton.mp hmem).symm
  added stream record hmem := by
    rcases List.mem_append.mp hmem with hmem | hmem
    · exact hg.added (h'.added _ _ hmem)
    · exact hadded stream record (List.mem_singleton.mp hmem).symm

/-- The answer to a call tells of what the call has done. -/
theorem attested_advance (h' : Attested s h) (hp : t = if o = .failed ∧ c.remote then s else
      s.perform i x c) : Attested t (h ++ [⟨c, s.answer o x c⟩]) := by
  have hg : Grows s t := by
    rw [hp]
    split
    · exact .refl s
    · exact grows_perform s i x c
  have hdone : o = .ok ∨ c.remote = false → t = s.perform i x c := by
    intro hcase
    rw [hp, if_neg]
    rintro ⟨hfailed, hremote⟩
    rcases hcase with hok | hlocal
    · rw [hok] at hfailed
      cases hfailed
    · rw [hlocal] at hremote
      cases hremote
  refine h'.call hg ?_ ?_ ?_
  · rintro e ⟨b, he, hmem⟩
    rw [List.mem_append, List.mem_append, List.mem_singleton, List.mem_singleton] at hmem
    rcases hmem with (hmem | heq) | (hmem | heq)
    · exact .inl ⟨b, he, .inl hmem⟩
    · obtain ⟨rfl, hanswer⟩ := Sigma.mk.inj heq
      have hanswer : some b = if o = .ok then some (s.claimed x.idle) else none :=
        eq_of_heq hanswer
      split at hanswer
      · cases hanswer
        have hmem := List.mem_of_mem_take he
        exact .inr (hg.entries (List.mem_of_mem_drop (List.mem_filter.mp hmem).1))
      · cases hanswer
    · exact .inl ⟨b, he, .inr hmem⟩
    · obtain ⟨rfl, hanswer⟩ := Sigma.mk.inj heq
      have hanswer : some (some b) = if o = .ok then
          some (if s.unread.entries = [] then none else some s.unread) else none :=
        eq_of_heq hanswer
      split at hanswer
      · split at hanswer
        · cases hanswer
        · cases hanswer
          exact .inr (hg.entries (List.mem_of_mem_drop (List.mem_of_mem_take he)))
      · cases hanswer
  · intro id attempt envelope heq
    obtain ⟨rfl, hanswer⟩ := Sigma.mk.inj heq
    have hthrown : x.thrown = none := eq_of_heq hanswer
    rw [hdone (.inr rfl), State.perform, hthrown]
    exact List.mem_concat_self
  · intro stream record heq
    obtain ⟨rfl, hanswer⟩ := Sigma.mk.inj heq
    have hanswer : (if o = .ok then some () else none) = some () := eq_of_heq hanswer
    split at hanswer
    · next hok =>
      rw [hdone (.inl hok)]
      exact List.mem_concat_self
    · cases hanswer

/-- An entry is not tried more often than it may be. -/
theorem tries_call (hn : ∀ id, tries id h ≤ maxRetries) {r : c.Reply} (hc : Admitted topic h c)
    (id : Text) : tries id (h ++ [⟨c, r⟩]) ≤ maxRetries := by
  rw [tries_concat]
  have hid := hn id
  cases c with
  | handler id' attempt envelope =>
    change (if id' = id then tries id h + 1 else tries id h) ≤ maxRetries
    split
    · next heq =>
      subst heq
      exact hc
    · exact hid
  | xautoclaim =>
    cases r with
    | none => exact hid
    | some b =>
      change (if id ∈ b.entries.map Entry.id then 0 else tries id h) ≤ maxRetries
      split
      · exact Nat.zero_le _
      · exact hid
  | xreadgroup =>
    rcases r with _ | _ | b
    · exact hid
    · exact hid
    · change (if id ∈ b.entries.map Entry.id then 0 else tries id h) ≤ maxRetries
      split
      · exact Nat.zero_le _
      · exact hid
  | _ => exact hid

theorem sound_setConsumer (hs : Sound topic s) (hown : ∀ h p, b = .running h p →
      p.Meets (Admitted topic) (fun _ _ => True) (fun _ => True) h ∧
        (∀ id, tries id h ≤ maxRetries) ∧ Attested s h) : Sound topic (s.setConsumer i b) where
  turns j h p hj := by
    have hg : Grows s (s.setConsumer i b) :=
      ⟨List.Subset.refl _, List.Subset.refl _, List.Subset.refl _⟩
    by_cases hji : j = i
    · subst hji
      obtain ⟨hmeets, hn, h'⟩ := hown h p ((Function.update_self ..).symm.trans hj)
      exact ⟨hmeets, hn, hg.attested h'⟩
    · obtain ⟨hmeets, hn, h'⟩ := hs.turns j h p ((Function.update_of_ne hji ..).symm.trans hj)
      exact ⟨hmeets, hn, hg.attested h'⟩
  acknowledged := hs.acknowledged
  kept := hs.kept
  bounds := hs.bounds

theorem sound_perform (hs : Sound topic s) (h' : Attested s h) (hc : Admitted topic h c) :
    Sound topic (s.perform i x c) := by
  have hg := grows_perform s i x c
  constructor
  · intro j h p hj
    rw [perform_consumers] at hj
    obtain ⟨hmeets, hn, h'⟩ := hs.turns j h p hj
    exact ⟨hmeets, hn, hg.attested h'⟩
  · intro id hid
    have hsettled : ∃ e ∈ s.entries, e.id = id ∧ s.Settled topic e := by
      rcases acknowledged_perform hid with hid | rfl
      · exact hs.acknowledged id hid
      · exact settled_of_admitted h' hc
    obtain ⟨e, he, heq, hsettled⟩ := hsettled
    exact ⟨e, hg.entries he, heq, hg.settled hsettled⟩
  · intro e he
    rw [perform_entries] at he ⊢
    rw [perform_trimmed]
    exact kept_perform hs he
  · rw [perform_entries, perform_trimmed]
    exact ⟨hs.bounds.1, delivered_perform hs⟩

theorem sound_advance {next : c.Reply → Code Unit} (hs : Sound topic s)
    (hi : s.consumers i = .running h (.call c next)) :
    Sound topic ((if o = .failed ∧ c.remote then s else s.perform i x c).setConsumer i
      (.running (h ++ [⟨c, s.answer o x c⟩]) (next (s.answer o x c)))) := by
  obtain ⟨⟨hadmitted, hmeets⟩, hn, h'⟩ := hs.turns i h _ hi
  refine sound_setConsumer ?_ ?_
  · split
    · exact hs
    · exact sound_perform hs h' hadmitted
  · rintro _ _ ⟨⟩
    exact ⟨hmeets _, tries_call hn hadmitted, attested_advance h' rfl⟩

theorem sound_publish {entry : Entry} (hs : Sound topic s)
    (hnodup : ((s.entries ++ [entry]).map Entry.id).Nodup) :
    Sound topic { s with entries := s.entries ++ [entry], nodup := hnodup } := by
  have hg : Grows s { s with entries := s.entries ++ [entry], nodup := hnodup } :=
    ⟨List.subset_append_left .., List.Subset.refl _, List.Subset.refl _⟩
  constructor
  · intro i h p hi
    obtain ⟨hmeets, hn, h'⟩ := hs.turns i h p hi
    exact ⟨hmeets, hn, hg.attested h'⟩
  · intro id hid
    obtain ⟨e, he, heq, hsettled⟩ := hs.acknowledged id hid
    exact ⟨e, hg.entries he, heq, hg.settled hsettled⟩
  · intro e he
    change e ∈ (s.entries ++ [entry]).take s.delivered at he
    rw [List.take_append_of_le_length hs.bounds.2] at he
    change _ ∨ _ ∨ e ∈ (s.entries ++ [entry]).take s.trimmed
    rw [List.take_append_of_le_length hs.bounds.1]
    exact hs.kept e he
  · change s.trimmed ≤ (s.entries ++ [entry]).length ∧ s.delivered ≤ (s.entries ++ [entry]).length
    have hbounds := hs.bounds
    rw [List.length_append]
    omega

theorem sound_trim (hs : Sound topic s) (n : ℕ) :
    Sound topic { s with trimmed := max s.trimmed (min n s.entries.length) } := by
  have hg : Grows s { s with trimmed := max s.trimmed (min n s.entries.length) } :=
    ⟨List.Subset.refl _, List.Subset.refl _, List.Subset.refl _⟩
  constructor
  · intro i h p hi
    obtain ⟨hmeets, hn, h'⟩ := hs.turns i h p hi
    exact ⟨hmeets, hn, hg.attested h'⟩
  · exact hs.acknowledged
  · intro e he
    rcases hs.kept e he with hack | hpending | hgone
    · exact .inl hack
    · exact .inr (.inl hpending)
    · exact .inr (.inr (List.take_subset_take_left _ (le_max_left ..) hgone))
  · have hbounds := hs.bounds
    exact ⟨by change max s.trimmed (min n s.entries.length) ≤ s.entries.length; omega, hbounds.2⟩

theorem sound_step (hs : Sound topic s) (ht : step P topic s a = some t) : Sound topic t := by
  cases a with
  | publish entry =>
    rw [step] at ht
    split at ht <;> cases ht
    exact sound_publish hs _
  | trim n =>
    cases ht
    exact sound_trim hs n
  | poll i =>
    rw [step] at ht
    split at ht
    · split at ht <;> cases ht
      apply sound_setConsumer hs
      rintro h p ⟨⟩
      exact ⟨meets_poll, fun id => Nat.zero_le _, ⟨nofun, nofun, nofun⟩⟩
    · cases ht
  | advance i o x =>
    rw [step] at ht
    split at ht
    · next hi =>
      cases ht
      exact sound_advance hs hi
    · cases ht
  | crash i =>
    cases ht
    apply sound_setConsumer hs
    rintro h p ⟨⟩

theorem sound_initial (hs : Initial s) : Sound topic s := by
  obtain ⟨hentries, htrimmed, hdelivered, -, hacknowledged, hconsumers⟩ := hs
  constructor
  · intro i h p hi
    obtain ⟨program, hi', hfinished⟩ := hconsumers i
    cases hi.symm.trans hi'
    refine ⟨?_, fun id => Nat.zero_le _, ⟨nofun, nofun, nofun⟩⟩
    cases p with
    | done | raised => trivial
    | call => cases hfinished
  · rw [hacknowledged]
    exact nofun
  · rw [hentries, List.take_nil]
    exact nofun
  · rw [htrimmed, hdelivered]
    exact ⟨Nat.zero_le _, Nat.zero_le _⟩

/--
In every state of every run an entry that is acknowledged is none of the bus, or a handler has
returned for it, or it is a dead letter; what has been given to a consumer is acknowledged or still
pending, unless it is trimmed; and no consumer has called the handler more than three times for an
entry since it was given it.
-/
theorem consumption_no_loss (hs : Initial s) (hrun : (system P topic).Run Any s as t) :
    ∀ u ∈ (system P topic).visited s as,
      (∀ e ∈ u.entries, e.id ∈ u.acknowledged → u.Settled topic e) ∧
      (∀ e ∈ u.entries.take u.delivered,
        e.id ∈ u.acknowledged ∨ u.IsPending e.id ∨ e ∈ u.entries.take u.trimmed) ∧
      ∀ i h p id, u.consumers i = .running h p → tries id h ≤ 3 := by
  intro u hu
  have hsound : Sound topic u :=
    hrun.forall_visited (fun s a t hs _ hst => sound_step hs hst) (sound_initial hs) u hu
  refine ⟨fun e he hid => ?_, hsound.kept, fun i h p id hi => (hsound.turns i h p hi).2.1 id⟩
  obtain ⟨e', he', heq, hsettled⟩ := hsound.acknowledged _ hid
  have hsame : e' = e := List.inj_on_of_nodup_map u.nodup he' he heq
  rwa [hsame] at hsettled

def newYear : TimeValue := ⟨1704067200000, by decide⟩

/-- The metrics and the propagator as they are, with one date. -/
def platform : Platform where
  parseDate t := if t = units "2024-01-01T00:00:00.000Z" then some newYear else none
  observe := Number.isFinite
  set _ := true
  extract _ := true

def dated : Entry where
  id := units "1-0"
  fields := [units "envelope", units "\x7b\"timestamp\":\"2024-01-01T00:00:00.000Z\"\x7d"]

def failing : Choice where
  thrown := some (.error (units "down") [])

/--
The first consumer dies after a failed attempt. The second claims the entry and fails as often as
it may; adding the dead letter is not answered. In its next turn the handler returns.
-/
def redelivered : List Action :=
  [.publish dated, .poll 0, .advance 0 .ok {}, .advance 0 .ok {}, .advance 0 .ok {},
    .advance 0 .ok failing, .crash 0, .poll 1, .advance 1 .ok { idle := [units "1-0"] },
    .advance 1 .ok {}, .advance 1 .ok failing, .advance 1 .ok failing, .advance 1 .ok failing,
    .advance 1 .ok {}, .advance 1 .lost {}, .advance 1 .ok {}, .poll 1,
    .advance 1 .ok { idle := [units "1-0"] }, .advance 1 .ok {}, .advance 1 .ok {},
    .advance 1 .ok {}]

theorem initial_default : Initial {} := ⟨rfl, rfl, rfl, rfl, rfl, fun _ => ⟨_, rfl, rfl⟩⟩

theorem consumption_no_loss_redelivered : ∃ t,
    (system platform (units "audit")).exec {} redelivered = some t ∧ t.added.length = 1 ∧
    t.acknowledged = [units "1-0"] ∧
    (∀ e ∈ t.entries, e.id ∈ t.acknowledged → t.Settled (units "audit") e) ∧
    (∀ e ∈ t.entries.take t.delivered,
      e.id ∈ t.acknowledged ∨ t.IsPending e.id ∨ e ∈ t.entries.take t.trimmed) ∧
    ∀ i h p id, t.consumers i = .running h p → tries id h ≤ 3 := by
  have h : ((system platform (units "audit")).exec {} redelivered).any fun t =>
      t.added.length = 1 ∧ t.acknowledged = [units "1-0"] := by decide +kernel
  obtain ⟨t, ht, h⟩ := (Option.any_eq_true _ _).mp h
  obtain ⟨hadded, hacknowledged⟩ := of_decide_eq_true h
  have hrun := run_of_exec ht
  exact ⟨t, ht, hadded, hacknowledged,
    consumption_no_loss initial_default hrun t hrun.mem_visited⟩

end AssureCode.Bus.Redis
