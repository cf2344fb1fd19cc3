import AssureCode.Outbox.NoLoss

/-! # Rows that cannot be published

A pass takes the oldest rows that are unsent and unlocked, as many as its batch holds, and a row
whose `publish` fails keeps its place among them. So a pass gets something done exactly when
a row that can be published has fewer than a batch of them before it.
-/

namespace AssureCode.Outbox

open Machine
open Settlement (Outcome)

/-- What the `publish` of each row comes to. -/
abbrev Publishing := ℕ → Outcome

/-- What the next statement or call of a pass comes to, when only publishing can fail. -/
def Relay.outcome (publishing : Publishing) : Relay → Outcome
  | .running (.publish row _) _ => publishing row.outboxId
  | _ => .ok

/-- Nothing fails in the pass but what cannot be published; the others may do what they like. -/
def Undisturbed (publishing : Publishing) (i : ℕ) (s : State) : Action → Prop
  | .advance j o => j = i → o = (s.relays i).outcome publishing
  | .crash j => j ≠ i
  | _ => True

instance (publishing : Publishing) (i : ℕ) (s : State) (a : Action) :
    Decidable (Undisturbed publishing i s a) :=
  match a with
  | .advance j o => inferInstanceAs (Decidable (j = i → o = (s.relays i).outcome publishing))
  | .crash j => inferInstanceAs (Decidable (j ≠ i))
  | .append _ | .pump _ | .reap _ => isTrue trivial

/-- The rows of a batch that can be published. -/
def publishable (publishing : Publishing) (batch : List Row) : List ℕ :=
  (batch.map (·.outboxId)).filter fun id => publishing id = .ok

/-- Where a pass over a batch has got to. -/
inductive Reached (publishing : Publishing) (i : ℕ) (batch : List Row) (s : State) : Prop
  | loop (before rest : List Row) (pass : Pass) : batch = before ++ rest →
      s.relays i = .running (loop rest) pass →
      pass.updated = publishable publishing before → pass.processed = pass.updated.length →
      Reached publishing i batch s
  | markSent (before rest : List Row) (row : Row) (pass : Pass) : batch = before ++ row :: rest →
      s.relays i = .running (.markSent row rest) pass → publishing row.outboxId = .ok →
      pass.updated = publishable publishing before → pass.processed = pass.updated.length →
      Reached publishing i batch s
  | returned : s.relays i = .returned (publishable publishing batch).length →
      (∀ id ∈ publishable publishing batch, ∃ r ∈ s.rows, r.outboxId = id ∧ r.sent = true) →
      Reached publishing i batch s

variable {batchSize i j n : ℕ} {s t u : State} {a : Action} {as : List Action} {o : Outcome}
  {publishing : Publishing} {batch before rest : List Row} {row r : Row} {pass : Pass} {τ : Task}

theorem publishable_append (before rest : List Row) : publishable publishing (before ++ rest) =
    publishable publishing before ++ publishable publishing rest := by
  rw [publishable, List.map_append, List.filter_append]
  rfl

theorem publishable_singleton : publishable publishing [row] =
    if publishing row.outboxId = .ok then [row.outboxId] else [] := by
  rw [publishable, List.map_singleton, List.filter_singleton]
  split <;> simp_all

/-- The others leave a pass where it is, and nothing that is sent becomes unsent. -/
theorem relays_step (h : step batchSize s a = some t) (hi : ∀ o, a ≠ .advance i o)
    (hcrash : a ≠ .crash i) (hrun : s.relays i ≠ .idle) (hcut : s.relays i ≠ .cut) :
    t.relays i = s.relays i := by
  cases step_move h with
  | append => rfl
  | @pump j hj =>
    apply setRelay_ne
    rintro rfl
    exact hrun hj
  | @advance j o τ pass hj =>
    apply advance_relays
    rintro rfl
    exact hi o rfl
  | @crash j τ pass hj =>
    apply setRelay_ne
    rintro rfl
    exact hcrash rfl
  | @reap j hj =>
    apply setRelay_ne
    rintro rfl
    exact hcut hj

theorem reached_advance (hu : Undisturbed publishing i s (.advance i o))
    (hmem : ∀ r ∈ batch, ∃ r' ∈ s.rows, r'.outboxId = r.outboxId)
    (h : step batchSize s (.advance i o) = some t) (hr : Reached publishing i batch s) :
    Reached publishing i batch t := by
  cases step_move h with
  | @advance _ _ τ pass hi =>
  have ho := hu rfl
  rw [hi] at ho
  cases hr with
  | returned hret => cases hi.symm.trans hret
  | markSent before rest row pass' hbatch hi' hrow hupdated hprocessed =>
    cases hi.symm.trans hi'
    obtain rfl : o = .ok := ho
    refine .loop (before ++ [row]) rest { pass with
      updated := pass.updated ++ [row.outboxId]
      processed := pass.processed + 1 } (by simpa using hbatch) ?_ ?_ ?_
    · rw [advance, setRelay_self]
      rfl
    · rw [publishable_append, publishable_singleton, if_pos hrow, ← hupdated]
    · simp [hprocessed]
  | loop before rest pass' hbatch hi' hupdated hprocessed =>
    cases hi.symm.trans hi'
    cases rest with
    | cons row rest =>
      change o = publishing row.outboxId at ho
      subst ho
      have hbatch' : batch = (before ++ [row]) ++ rest := by simpa using hbatch
      by_cases hrow : publishing row.outboxId = .ok
      · refine .markSent before rest row
          { pass with published := pass.published ++ [row.outboxId] } hbatch ?_ hrow hupdated
          hprocessed
        rw [hrow, advance, setRelay_self]
        rfl
      · refine .loop (before ++ [row]) rest pass hbatch' ?_ ?_ hprocessed
        · cases hfault : publishing row.outboxId with
          | ok => exact absurd hfault hrow
          | failed | lost =>
            rw [advance, setRelay_self]
            rfl
        · rw [publishable_append, publishable_singleton, if_neg hrow, List.append_nil, hupdated]
    | nil =>
      obtain rfl : o = .ok := ho
      rw [List.append_nil] at hbatch
      subst hbatch
      refine .returned ?_ fun id hid => ?_
      · rw [advance, setRelay_self, ← hupdated, ← hprocessed]
        rfl
      · have hmap := (List.mem_filter.mp hid).1
        obtain ⟨r, hr, rfl⟩ := List.mem_map.mp hmap
        obtain ⟨r', hr', heq⟩ := hmem r hr
        have hsame := (writes_commit i pass).same r'
        refine ⟨_, List.mem_map_of_mem hr', hsame.1.trans heq, ?_⟩
        rw [sent_unlock, apply, if_pos (by rw [hupdated, heq]; exact hid)]

theorem reached_step (hu : Undisturbed publishing i s a)
    (hmem : ∀ r ∈ batch, ∃ r' ∈ s.rows, r'.outboxId = r.outboxId)
    (h : step batchSize s a = some t) (hr : Reached publishing i batch s) :
    Reached publishing i batch t := by
  by_cases hown : ∃ o, a = .advance i o
  · obtain ⟨o, rfl⟩ := hown
    exact reached_advance hu hmem h hr
  have hactive : s.relays i ≠ .idle ∧ s.relays i ≠ .cut := by
    cases hr with
    | loop _ _ _ _ hi => rw [hi]; exact ⟨nofun, nofun⟩
    | markSent _ _ _ _ _ hi => rw [hi]; exact ⟨nofun, nofun⟩
    | returned hi => rw [hi]; exact ⟨nofun, nofun⟩
  have hcrash : a ≠ .crash i := by
    rintro rfl
    exact hu rfl
  have hsame := relays_step h (fun o heq => hown ⟨o, heq⟩) hcrash hactive.1 hactive.2
  cases hr with
  | loop before rest pass hbatch hi hupdated hprocessed =>
    exact .loop before rest pass hbatch (hsame.trans hi) hupdated hprocessed
  | markSent before rest row pass hbatch hi hrow hupdated hprocessed =>
    exact .markSent before rest row pass hbatch (hsame.trans hi) hrow hupdated hprocessed
  | returned hi hsent =>
    exact .returned (hsame.trans hi) fun id hid => sent_step h (hsent id hid)

/-- The row can be published, and fewer than a batch of claimable rows come before it. -/
def State.Reachable (s : State) (publishing : Publishing) (batchSize : ℕ) : Prop :=
  ∃ k < batchSize, ∃ r, s.claimable[k]? = some r ∧ publishing r.outboxId = .ok

theorem publishable_pos_iff : 0 < (publishable publishing (s.batch batchSize)).length ↔
    s.Reachable publishing batchSize := by
  rw [List.length_pos_iff_exists_mem]
  constructor
  · rintro ⟨id, hid⟩
    obtain ⟨hmap, hok⟩ := List.mem_filter.mp hid
    obtain ⟨r, hr, rfl⟩ := List.mem_map.mp hmap
    obtain ⟨k, hk⟩ := List.mem_iff_getElem?.mp hr
    rw [State.batch, List.getElem?_take] at hk
    split at hk
    · next hlt => exact ⟨k, hlt, r, hk, of_decide_eq_true hok⟩
    · cases hk
  · rintro ⟨k, hlt, r, hk, hok⟩
    refine ⟨r.outboxId, List.mem_filter.mpr ⟨List.mem_map_of_mem ?_, decide_eq_true hok⟩⟩
    rw [List.mem_iff_getElem?]
    exact ⟨k, by rw [State.batch, List.getElem?_take, if_pos hlt, hk]⟩

/-- What a pass that nothing disturbs has done when it returns. -/
theorem processed_eq (h : (system batchSize).Run (Undisturbed publishing i) s
      (.advance i .ok :: as) t) (hs : s.relays i = .running .select {})
    (ht : t.relays i = .returned n) :
    n = (publishable publishing (s.batch batchSize)).length ∧
      ∀ id ∈ publishable publishing (s.batch batchSize),
        ∃ r ∈ t.rows, r.outboxId = id ∧ r.sent = true := by
  cases h with
  | @cons _ s' _ _ _ _ hstep hrest =>
    have hmove : step batchSize s (.advance i .ok) = some s' := hstep
    have hstart : Reached publishing i (s.batch batchSize) s' := by
      cases step_move hmove with
      | advance hi =>
        cases hs.symm.trans hi
        refine .loop [] (s.batch batchSize) {} rfl ?_ rfl rfl
        rw [advance, setRelay_self]
        rfl
    have hkeeps : s.Keeps s' := keeps_step hmove
    have hend := hrest.invariant
      (I := fun u => s.Keeps u ∧ Reached publishing i (s.batch batchSize) u)
      (fun u a v hu hk hst => ⟨hu.1.trans (keeps_step hst), reached_step hk (fun r hr => by
        obtain ⟨r', hr', hsame⟩ := hu.1 r (mem_batch hr)
        exact ⟨r', hr', hsame.1⟩) hst hu.2⟩) ⟨hkeeps, hstart⟩
    cases hend.2 with
    | loop _ _ _ _ hi => cases ht.symm.trans hi
    | markSent _ _ _ _ _ hi => cases ht.symm.trans hi
    | returned hi hsent =>
      cases ht.symm.trans hi
      exact ⟨rfl, hsent⟩

/-- What a pass that nothing disturbs should come to: it marks a row that can be published. -/
def Progresses (publishing : Publishing) (batchSize : ℕ) (s t : State) (processed : ℕ) : Prop :=
  0 < processed ∧ ∃ r ∈ s.batch batchSize, publishing r.outboxId = .ok ∧
    ∃ r' ∈ t.rows, r'.outboxId = r.outboxId ∧ r'.sent = true

/--
A pass that nothing disturbs but rows that cannot be published marks one that can be exactly when
at its `SELECT` fewer than a batch of unsent and unlocked rows come before such a row.
-/
theorem pump_progresses_iff (h : (system batchSize).Run (Undisturbed publishing i) s
      (.advance i .ok :: as) t) (hs : s.relays i = .running .select {})
    (ht : t.relays i = .returned n) :
    Progresses publishing batchSize s t n ↔ s.Reachable publishing batchSize := by
  obtain ⟨rfl, hsent⟩ := processed_eq h hs ht
  rw [← publishable_pos_iff]
  constructor
  · exact fun hp => hp.1
  · intro hpos
    refine ⟨hpos, ?_⟩
    obtain ⟨id, hid⟩ := List.length_pos_iff_exists_mem.mp hpos
    obtain ⟨hmap, hok⟩ := List.mem_filter.mp hid
    obtain ⟨r, hr, rfl⟩ := List.mem_map.mp hmap
    exact ⟨r, hr, of_decide_eq_true hok, hsent _ hid⟩

/-- So many rows, one after the other, and a pass that has come to its `SELECT`. -/
def filled (n : ℕ) : List Action :=
  (List.range n).map (fun k => .append (numberedRow k)) ++
    [.pump 0, .advance 0 .ok, .advance 0 .ok]

/-- The first rows cannot be published. -/
def poisoned (n : ℕ) : Publishing := fun id => if id < n then .failed else .ok

/-- The rest of a pass over so many rows that cannot be published, and one that can. -/
def drain (failing : ℕ) (last : Bool) : List Action :=
  .advance 0 .ok :: List.replicate failing (.advance 0 .failed) ++
    List.replicate (if last then 3 else 1) (.advance 0 .ok)

/-- The state of the first pass, where all that matters of it is a number. -/
def Relay.summary : Relay → Option ℕ
  | .running .select ⟨[], [], 0⟩ => some 0
  | .returned n => some (n + 1)
  | _ => none

theorem selecting_of_summary {b : Relay} (h : b.summary = some 0) : b = .running .select {} := by
  unfold Relay.summary at h
  split at h
  · rfl
  · cases h
  · cases h

theorem returned_of_summary {b : Relay} (h : b.summary = some (n + 1)) : b = .returned n := by
  unfold Relay.summary at h
  split at h <;> cases h
  rfl

/-- What such a pass over such rows does. -/
theorem exists_drain (rows failing n : ℕ) (last : Bool)
    (h : ((system 50).exec {} (filled rows)).any fun s =>
      (s.relays 0).summary = some 0 ∧
      (s.rows.any fun r => !r.sent ∧ poisoned failing r.outboxId = .ok) ∧
      ((system 50).exec s (drain failing last)).any fun t =>
        (t.relays 0).summary = some (n + 1) ∧ ∀ x ∈ (system 50).steps s (drain failing last),
          Undisturbed (poisoned failing) 0 x.1 x.2.1) :
    ∃ s t, (system 50).exec {} (filled rows) = some s ∧ s.relays 0 = .running .select {} ∧
      (∃ r ∈ s.rows, r.sent = false ∧ poisoned failing r.outboxId = .ok) ∧
      (system 50).Run (Undisturbed (poisoned failing) 0) s (drain failing last) t ∧
      t.relays 0 = .returned n := by
  obtain ⟨s, hs, h⟩ := (Option.any_eq_true _ _).mp h
  obtain ⟨hselect, hunsent, h⟩ := of_decide_eq_true h
  obtain ⟨r, hr, hboth⟩ := List.any_eq_true.mp hunsent
  obtain ⟨t, ht, h⟩ := (Option.any_eq_true _ _).mp h
  obtain ⟨hreturned, hall⟩ := of_decide_eq_true h
  exact ⟨s, t, hs, selecting_of_summary hselect, ⟨r, hr, by simpa using hboth⟩,
    run_of_exec_steps ht hall, returned_of_summary hreturned⟩

theorem pump_progresses_iff_last : ∃ s t, (system 50).exec {} (filled 50) = some s ∧
    (Progresses (poisoned 49) 50 s t 1 ↔ s.Reachable (poisoned 49) 50) := by
  obtain ⟨s, t, hs, hselect, -, hrun, hreturned⟩ :=
    exists_drain 50 49 1 true (by decide +kernel)
  exact ⟨s, t, hs, pump_progresses_iff hrun hselect hreturned⟩

/-- A batch of rows that cannot be published comes before one that can. -/
theorem pump_starved : ¬ ∀ (publishing : Publishing) s₀ pre s as t i n, Initial s₀ →
    (system 50).Run Any s₀ pre s → s.relays i = .running .select {} →
    (system 50).Run (Undisturbed publishing i) s (.advance i .ok :: as) t →
    t.relays i = .returned n →
    (∃ r ∈ s.rows, r.sent = false ∧ publishing r.outboxId = .ok) →
    Progresses publishing 50 s t n := by
  intro hall
  obtain ⟨s, t, hs, hselect, hunsent, hrun, hreturned⟩ :=
    exists_drain 51 50 0 false (by decide +kernel)
  exact absurd (hall (poisoned 50) {} _ s _ t 0 0 initial_default (run_of_exec hs) hselect hrun
    hreturned hunsent).1 (lt_irrefl 0)

end AssureCode.Outbox
