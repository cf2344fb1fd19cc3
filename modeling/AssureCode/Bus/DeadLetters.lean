import AssureCode.Bus.Consumption
import AssureCode.Bus.Publish

/-! # The dead letters of a stream

What consumers add to other streams is added to the dead letter stream of the topic alone, each
letter for an entry of the stream that a handler has failed as often as it may.
-/

namespace AssureCode.Bus.Redis

open Js Machine Program
open Settlement (Outcome)

/-- The letter is in its place, and carries the event of an entry that was tried three times. -/
def Forwarded (topic : Text) (e : Entry) (letter : Text × DeadLetter) : Prop :=
  letter.1 = dlqTopic topic ∧ letter.2.Of topic e ∧ letter.2.attempts = units "3"

/-- A letter is added for an entry that has been given to the consumer. -/
def Forwarding (topic : Text) (h : History) (c : Call) : Prop :=
  ∀ stream record, c = .xadd stream record → ∃ e, Given h e ∧ Forwarded topic e (stream, record)

variable {P : Platform} {topic id : Text} {h h' : History} {e : Entry} {envelope : Json}
  {E : History → Prop} {v : Attempts} {left : ℕ}

/-! ## What a turn does -/

theorem forwarding_of_ne {c : Call} (hc : ∀ stream record, c ≠ .xadd stream record) :
    Forwarding topic h c := fun stream record heq => absurd heq (hc stream record)

/-- Without success all attempts are used up. -/
theorem forwarding_retry (hh : Extends id h h') (hn : v.attempt + left = maxRetries) :
    (retry id envelope left v).Meets (Forwarding topic)
      (fun h' w => Extends id h h' ∧ (w.success = false → w.attempt = maxRetries)) E h' := by
  induction left generalizing h' v with
  | zero => exact ⟨hh, fun _ => hn⟩
  | succ left ih =>
    refine ⟨forwarding_of_ne (by simp), fun r => ?_⟩
    cases r with
    | none => exact ⟨hh.call rfl, nofun⟩
    | some err =>
      apply ih (hh.call rfl)
      rw [← hn, Nat.add_right_comm, Nat.add_assoc]

theorem forwarding_xack (hh : Extends id h h') :
    (xack id).Meets (Forwarding topic) (fun h' _ => Extends id h h') (fun _ => True) h' := by
  refine ⟨forwarding_of_ne (by simp), fun r => ?_⟩
  cases r with
  | none => trivial
  | some _ => exact hh.call rfl

theorem forwarding_forward (hgiven : Given h e) (hh : Extends e.id h h')
    (henvelope : e.envelope? = some envelope) (hv : v.attempt = maxRetries) :
    (forward topic e.id envelope v).Meets (Forwarding topic) (fun h' _ => Extends e.id h h')
      (fun _ => True) h' := by
  rw [forward, meets_bind, meets_ofOption]
  cases v.lastError.errorMessage with
  | none => trivial
  | some errorMessage =>
    refine ⟨forwarding_of_ne (by simp), fun failedAt => ⟨?_, fun r => ?_⟩⟩
    · rintro stream record ⟨⟩
      have hgiven' : Given (h' ++ [⟨.timestamp e.id, failedAt⟩]) e := (hh.call rfl).given hgiven
      have hattempts : units (toString v.attempt) = units "3" := by
        rw [hv]
        decide
      exact ⟨e, hgiven', rfl, ⟨envelope, henvelope, rfl, rfl, rfl⟩, hattempts⟩
    · cases r with
      | none => trivial
      | some _ => exact (hh.call rfl).call rfl

theorem forwarding_processEntry (hgiven : Given h e) :
    (processEntry P topic e).Meets (Forwarding topic) (fun h' _ => Extends e.id h h')
      (fun _ => True) h := by
  rw [processEntry]
  split
  · exact forwarding_xack (.refl _ h)
  · next idx hidx =>
    have hparse : e.envelope? = e.fields[idx + 1]?.bind Json.parse := by
      rw [Entry.envelope?, hidx, Option.bind_some]
    rw [meets_bind, meets_ofOption, ← hparse]
    cases henvelope : e.envelope? with
    | none => trivial
    | some envelope =>
      refine ⟨forwarding_of_ne (by simp), fun now => ?_⟩
      have hnow : Extends e.id h (h ++ [⟨.now e.id, now⟩]) := (Extends.refl _ h).call rfl
      change Program.Meets _ _ _ _ (ite _ _ _)
      split
      · rw [meets_bind]
        refine (forwarding_retry hnow rfl).mono ?_ fun _ => id
        rintro h' w ⟨hh', hfailed⟩
        split
        · exact forwarding_xack hh'
        · next hw =>
          rw [meets_bind]
          refine (forwarding_forward hgiven hh' henvelope (hfailed (by simpa using hw))).mono ?_
            fun _ => id
          exact fun h'' _ hh'' => forwarding_xack hh''
      · trivial

theorem forwarding_batch {b : Batch} (hgiven : ∀ e ∈ b.entries, Given h e) :
    (forM b.entries (processEntry P topic)).Meets (Forwarding topic) (fun _ _ => True)
      (fun _ => True) h := by
  refine (meets_forM (I := fun es h => ∀ e ∈ es, Given h e) ?_ hgiven).mono
    (fun _ _ _ => trivial) fun _ => id
  intro e es h hes
  obtain ⟨hgiven, hes⟩ := List.forall_mem_cons.mp hes
  exact (forwarding_processEntry hgiven).mono
    (fun h' _ hh' e' he' => hh'.given (hes e' he')) fun _ => id

theorem forwarding_poll :
    (poll P topic).Meets (Forwarding topic) (fun _ _ => True) (fun _ => True) h := by
  have hread : ∀ h, (readNew P topic).Meets (Forwarding topic) (fun _ _ => True)
      (fun _ => True) h := by
    refine fun h => ⟨forwarding_of_ne (by simp), fun r => ?_⟩
    rcases r with _ | _ | b
    · trivial
    · trivial
    · exact forwarding_batch fun e he => ⟨b, he, .inr List.mem_concat_self⟩
  rw [poll, meets_catching, meets_bind, reclaimStale, meets_catching]
  refine ⟨forwarding_of_ne (by simp), fun r => ?_⟩
  cases r with
  | none => exact (hread _).mono (fun _ _ => id) fun _ => id
  | some b =>
    have hgiven : ∀ e ∈ b.entries, Given (h ++ [⟨.xautoclaim, some b⟩]) e :=
      fun e he => ⟨b, he, .inl List.mem_concat_self⟩
    exact (forwarding_batch hgiven).mono (fun h _ _ => hread h) fun h _ => hread h

/-! ## What a run does -/

structure Lettered (topic : Text) (s : State) : Prop where
  turns : ∀ i h p, s.consumers i = .running h p →
    p.Meets (Forwarding topic) (fun _ _ => True) (fun _ => True) h
  letters : ∀ letter ∈ s.added, ∃ e ∈ s.entries, Forwarded topic e letter

variable {s t : State} {a : Action} {i j : ℕ} {o : Outcome} {x : Choice} {c : Call} {b : Consumer}
  {stream : Text} {record : DeadLetter}

theorem added_perform {letter : Text × DeadLetter} (h : letter ∈ (s.perform i x c).added) :
    letter ∈ s.added ∨ c = .xadd letter.1 letter.2 := by
  cases c with
  | xadd stream record =>
    rcases List.mem_append.mp h with h | h
    · exact .inl h
    · cases List.mem_singleton.mp h
      exact .inr rfl
  | handler =>
    rw [State.perform] at h
    split at h <;> exact .inl h
  | _ => exact .inl h

theorem lettered_setConsumer (hl : Lettered topic s) (hown : ∀ h p, b = .running h p →
    p.Meets (Forwarding topic) (fun _ _ => True) (fun _ => True) h) :
    Lettered topic (s.setConsumer i b) where
  turns j h p hj := by
    by_cases hji : j = i
    · subst hji
      exact hown h p ((Function.update_self ..).symm.trans hj)
    · exact hl.turns j h p ((Function.update_of_ne hji ..).symm.trans hj)
  letters := hl.letters

theorem lettered_perform (hl : Lettered topic s) (h' : Attested s h) (hc : Forwarding topic h c) :
    Lettered topic (s.perform i x c) where
  turns j h p hj := by
    rw [perform_consumers] at hj
    exact hl.turns j h p hj
  letters letter hletter := by
    rw [perform_entries]
    rcases added_perform hletter with hletter | rfl
    · exact hl.letters letter hletter
    · obtain ⟨e, hgiven, hforwarded⟩ := hc _ _ rfl
      exact ⟨e, h'.given e hgiven, hforwarded⟩

theorem lettered_step (hs : Sound topic s) (hl : Lettered topic s)
    (ht : step P topic s a = some t) : Lettered topic t := by
  cases a with
  | publish entry =>
    rw [step] at ht
    split at ht <;> cases ht
    refine ⟨hl.turns, fun letter hletter => ?_⟩
    obtain ⟨e, he, hforwarded⟩ := hl.letters letter hletter
    exact ⟨e, List.mem_append_left _ he, hforwarded⟩
  | trim n =>
    cases ht
    exact ⟨hl.turns, hl.letters⟩
  | poll i =>
    rw [step] at ht
    split at ht
    · split at ht <;> cases ht
      apply lettered_setConsumer hl
      rintro h p ⟨⟩
      exact forwarding_poll
    · cases ht
  | advance i o x =>
    rw [step] at ht
    split at ht
    · next hi =>
      cases ht
      obtain ⟨hforwarding, hmeets⟩ := hl.turns i _ _ hi
      apply lettered_setConsumer
      · split
        · exact hl
        · exact lettered_perform hl (hs.turns i _ _ hi).2.2 hforwarding
      · rintro h p ⟨⟩
        exact hmeets _
    · cases ht
  | crash i =>
    cases ht
    apply lettered_setConsumer hl
    rintro h p ⟨⟩

theorem lettered_initial (hs : Initial s) (hadded : s.added = []) : Lettered topic s := by
  obtain ⟨-, -, -, -, -, hconsumers⟩ := hs
  constructor
  · intro i h p hi
    obtain ⟨program, hi', hfinished⟩ := hconsumers i
    cases hi.symm.trans hi'
    cases p with
    | done | raised => trivial
    | call => cases hfinished
  · rw [hadded]
    exact nofun

end AssureCode.Bus.Redis
