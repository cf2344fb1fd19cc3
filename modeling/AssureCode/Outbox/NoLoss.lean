import AssureCode.Outbox.Model
import AssureCode.Transition.Schedule

/-! # Nothing is lost in the outbox

A row is marked in the transaction that has it locked and only once its `publish` has returned, so
no interleaving and no failure loses an event: what is sent has been published, and what has not
been published waits where the next pass finds it.
-/

namespace AssureCode.Outbox

open Machine
open Settlement (Outcome)

/-- The transaction of the pass may be open, so that it may have rows locked. -/
def Relay.Open : Relay → Prop
  | .running .connect _ => False
  | .running _ _ | .cut => True
  | _ => False

/-- The row is unsent, and only a pass that goes on can keep others from it. -/
def State.Eligible (s : State) (row : Row) : Prop :=
  row.sent = false ∧ ∀ i, row.lockedBy = some i → (s.relays i).Open

/-- The rows that a pass has still to come to. -/
def Task.rows : Task → List Row
  | .publish row rest | .markSent row rest => row :: rest
  | _ => []

/-- The updates that a transaction has still to make for what it has had published. -/
def Task.pending : Task → List ℕ
  | .markSent row _ => [row.outboxId]
  | _ => []

/-- The row is still there, with the same event. -/
def Row.Same (r r' : Row) : Prop := r'.outboxId = r.outboxId ∧ r'.message = r.message

/-- Every row is still there, with the same event. -/
def State.Keeps (s t : State) : Prop := ∀ r ∈ s.rows, ∃ r' ∈ t.rows, r.Same r'

/-- A pass has had published what it updates, and updates all of it before it commits. -/
structure Pass.Sound (s : State) (τ : Task) (pass : Pass) : Prop where
  rows : ∀ r ∈ τ.rows, ∃ r' ∈ s.rows, r.Same r'
  published : ∀ id ∈ pass.published, id ∈ s.published
  updated : ∀ id ∈ pass.updated, id ∈ pass.published
  pending : τ.pending ⊆ pass.published
  complete : τ ≠ .rollback → ∀ id ∈ pass.published, id ∈ pass.updated ++ τ.pending

structure Sound (s : State) : Prop where
  keyed : (s.rows.map (·.outboxId)).Nodup
  known : ∀ id ∈ s.published, ∃ r ∈ s.rows, r.outboxId = id
  delivered : ∀ r ∈ s.rows, r.outboxId ∈ s.published → r.message ∈ s.bus
  sent : ∀ r ∈ s.rows, r.sent = true → r.outboxId ∈ s.published
  held : ∀ r ∈ s.rows, ∀ i, r.lockedBy = some i → (s.relays i).Open
  passes : ∀ i τ pass, s.relays i = .running τ pass → pass.Sound s τ

variable {batchSize i j : ℕ} {s t u : State} {a : Action} {as : List Action} {o : Outcome}
  {τ σ : Task} {pass pass' : Pass} {row r : Row} {rest batch : List Row} {b : Relay}

theorem setRelay_self : (s.setRelay i b).relays i = b := Function.update_self ..

theorem setRelay_ne (h : j ≠ i) : (s.setRelay i b).relays j = s.relays j :=
  Function.update_of_ne h ..

theorem Row.Same.refl (r : Row) : r.Same r := ⟨rfl, rfl⟩

theorem Row.Same.trans {r r' r'' : Row} (h : r.Same r') (h' : r'.Same r'') : r.Same r'' :=
  ⟨h'.1.trans h.1, h'.2.trans h.2⟩

theorem State.Keeps.refl (s : State) : s.Keeps s := fun r hr => ⟨r, hr, .refl r⟩

theorem State.Keeps.trans (h : s.Keeps t) (h' : t.Keeps u) : s.Keeps u := by
  intro r hr
  obtain ⟨r', hr', hsame⟩ := h r hr
  obtain ⟨r'', hr'', hsame'⟩ := h' r' hr'
  exact ⟨r'', hr'', hsame.trans hsame'⟩

theorem Sound.eq_of_outboxId (h : Sound s) {r r' : Row} (hr : r ∈ s.rows) (hr' : r' ∈ s.rows)
    (heq : r.outboxId = r'.outboxId) : r = r' := List.inj_on_of_nodup_map h.keyed hr hr' heq

/-! ## Rows -/

/-- What a task does to a row. -/
structure Writes (i : ℕ) (τ : Task) (pass : Pass) (f : Row → Row) : Prop where
  same : ∀ r : Row, r.Same (f r)
  kept : ∀ r, r.sent = true → (f r).sent = true
  sent : ∀ r, (f r).sent = true → r.sent = true ∨ r.outboxId ∈ pass.updated
  locked : ∀ r j, (f r).lockedBy = some j → r.lockedBy = some j ∨ j = i ∧ τ = .select

theorem writes_id : Writes i τ pass id where
  same := .refl
  kept _ := id
  sent _ := .inl
  locked _ _ := .inl

theorem writes_lock : Writes i .select pass (lock i batch) := by
  constructor
  · intro r
    rw [lock]
    split <;> exact .refl _
  · intro r hr
    rw [lock]
    split <;> exact hr
  · intro r hr
    rw [lock] at hr
    split at hr <;> exact .inl hr
  · intro r j hj
    rw [lock] at hj
    split at hj
    · cases hj
      exact .inr ⟨rfl, rfl⟩
    · exact .inl hj

theorem same_unlock (r : Row) : r.Same (unlock i r) := by
  rw [unlock]
  split <;> exact .refl _

theorem lockedBy_unlock (r : Row) : (unlock i r).lockedBy ≠ some i ∧
    ∀ j, (unlock i r).lockedBy = some j → r.lockedBy = some j := by
  rw [unlock]
  split
  · exact ⟨nofun, nofun⟩
  · next hne => exact ⟨hne, fun _ => id⟩

theorem sent_unlock (r : Row) : (unlock i r).sent = r.sent := by
  rw [unlock]
  split <;> rfl

theorem writes_unlock : Writes i .rollback pass (unlock i) where
  same := same_unlock
  kept r hr := by rwa [sent_unlock]
  sent r hr := .inl (by rwa [sent_unlock] at hr)
  locked r j hj := .inl ((lockedBy_unlock r).2 j hj)

theorem writes_commit (i : ℕ) (pass : Pass) :
    Writes i .commit pass fun r => unlock i (apply pass.updated r) := by
  have hlock : ∀ r, (apply pass.updated r).lockedBy = r.lockedBy := by
    intro r
    rw [apply]
    split <;> rfl
  constructor
  · intro r
    have hsame : r.Same (apply pass.updated r) := by
      rw [apply]
      split <;> exact .refl _
    exact hsame.trans (same_unlock _)
  · intro r hr
    rw [sent_unlock, apply]
    split
    · rfl
    · exact hr
  · intro r hr
    rw [sent_unlock, apply] at hr
    split at hr
    · next hmem => exact .inr hmem
    · exact .inl hr
  · exact fun r j hj => .inl ((hlock r).symm.trans ((lockedBy_unlock _).2 j hj))

theorem perform_rows (batchSize : ℕ) (s : State) (i : ℕ) (pass : Pass) (τ : Task) :
    ∃ f, (perform batchSize s i pass τ).rows = s.rows.map f ∧ Writes i τ pass f := by
  cases τ with
  | select => exact ⟨_, rfl, writes_lock⟩
  | commit => exact ⟨_, rfl, writes_commit i pass⟩
  | rollback => exact ⟨_, rfl, writes_unlock⟩
  | _ => exact ⟨id, (List.map_id _).symm, writes_id⟩

/-- The end of a transaction leaves nothing locked by it. -/
theorem perform_released (hτ : τ = .commit ∨ τ = .rollback) :
    ∀ r ∈ (perform batchSize s i pass τ).rows, r.lockedBy ≠ some i := by
  rcases hτ with rfl | rfl
  · exact List.forall_mem_map.mpr fun r _ => (lockedBy_unlock _).1
  · exact List.forall_mem_map.mpr fun r _ => (lockedBy_unlock r).1

theorem perform_bus : s.bus ⊆ (perform batchSize s i pass τ).bus := by
  cases τ with
  | publish => exact List.subset_append_left ..
  | _ => exact List.Subset.refl _

theorem perform_relays : (perform batchSize s i pass τ).relays = s.relays := by
  cases τ <;> rfl

theorem perform_published : (perform batchSize s i pass τ).published = s.published := by
  cases τ <;> rfl

theorem advance_rows (batchSize : ℕ) (s : State) (i : ℕ) (o : Outcome) (τ : Task) (pass : Pass) :
    ∃ f, (advance batchSize s i o τ pass).rows = s.rows.map f ∧ Writes i τ pass f := by
  cases o with
  | failed => exact ⟨id, (List.map_id _).symm, writes_id⟩
  | ok | lost => exact perform_rows batchSize s i pass τ

theorem advance_relays (h : j ≠ i) :
    (advance batchSize s i o τ pass).relays j = s.relays j := by
  cases o with
  | failed => exact setRelay_ne h
  | ok | lost => exact (setRelay_ne h).trans (congrFun perform_relays j)

theorem advance_published : (advance batchSize s i o τ pass).published =
    s.published ++ if o = .ok then τ.publishes else [] := by
  cases o with
  | ok => rfl
  | failed => exact (List.append_nil _).symm
  | lost => exact perform_published.trans (List.append_nil _).symm

theorem advance_bus : s.bus ⊆ (advance batchSize s i o τ pass).bus := by
  cases o with
  | failed => exact List.Subset.refl _
  | ok | lost => exact perform_bus

theorem keeps_map {f : Row → Row} (hf : ∀ r : Row, r.Same (f r)) (h : t.rows = s.rows.map f) :
    s.Keeps t := fun r hr => ⟨f r, by rw [h]; exact List.mem_map_of_mem hr, hf r⟩

/-! ## Passes -/

theorem Pass.Sound.mono (h : pass.Sound s τ) (hkeeps : s.Keeps t)
    (hpublished : s.published ⊆ t.published) : pass.Sound t τ where
  rows r hr := by
    obtain ⟨r', hr', hsame⟩ := h.rows r hr
    obtain ⟨r'', hr'', hsame'⟩ := hkeeps r' hr'
    exact ⟨r'', hr'', hsame.trans hsame'⟩
  published id hid := hpublished (h.published id hid)
  updated := h.updated
  pending := h.pending
  complete := h.complete

theorem rows_loop : (loop rest).rows = rest := by cases rest <;> rfl

theorem pending_loop : (loop rest).pending = [] := by cases rest <;> rfl

theorem mem_batch (h : r ∈ s.batch batchSize) : r ∈ s.rows := by
  have hclaimable := (List.mem_insertionSort _).mp (List.mem_of_mem_take h)
  exact (List.mem_filter.mp hclaimable).1

/-- What a pass relies on when its statement or call has returned. -/
theorem sound_next (hp : pass.Sound s τ) (h : next batchSize s pass τ = .running σ pass')
    (hkeeps : s.Keeps t) (hpublished : t.published = s.published ++ τ.publishes) :
    pass'.Sound t σ := by
  have hsub : s.published ⊆ t.published := by
    rw [hpublished]
    exact List.subset_append_left ..
  have ht := hp.mono hkeeps hsub
  cases τ with
  | connect | beginTransaction =>
    cases h
    exact ⟨nofun, ht.published, ht.updated, nofun, fun _ => ht.complete nofun⟩
  | select =>
    cases h
    constructor
    · rw [rows_loop]
      exact fun r hr => hkeeps r (mem_batch hr)
    · exact ht.published
    · exact ht.updated
    · rw [pending_loop]
      exact nofun
    · rw [pending_loop]
      exact fun _ => ht.complete nofun
  | publish row rest =>
    cases h
    constructor
    · exact ht.rows
    · rw [List.forall_mem_append, List.forall_mem_singleton, hpublished]
      exact ⟨fun id hid => List.mem_append_left _ (hp.published id hid), by simp [Task.publishes]⟩
    · exact fun id hid => List.mem_append_left _ (hp.updated id hid)
    · exact List.subset_append_right ..
    · intro _
      rw [List.forall_mem_append, List.forall_mem_singleton]
      refine ⟨fun id hid => List.mem_append_left _ ?_, by simp [Task.pending]⟩
      simpa [Task.pending] using hp.complete nofun id hid
  | markSent row rest =>
    cases h
    constructor
    · rw [rows_loop]
      exact fun r hr => ht.rows r (List.mem_cons_of_mem _ hr)
    · exact ht.published
    · rw [List.forall_mem_append, List.forall_mem_singleton]
      exact ⟨hp.updated, hp.pending (by simp [Task.pending])⟩
    · rw [pending_loop]
      exact nofun
    · rw [pending_loop, List.append_nil]
      exact fun _ => hp.complete nofun
  | commit | rollback => cases h

/-- What a pass relies on when its statement or call has thrown. -/
theorem sound_raised (hp : pass.Sound s τ) (h : raised pass τ = .running σ pass')
    (hkeeps : s.Keeps t) (hpublished : t.published = s.published) : pass'.Sound t σ := by
  have ht := hp.mono hkeeps (by rw [hpublished]; exact List.Subset.refl _)
  cases τ with
  | connect | rollback => cases h
  | publish row rest =>
    cases h
    constructor
    · rw [rows_loop]
      exact fun r hr => ht.rows r (List.mem_cons_of_mem _ hr)
    · exact ht.published
    · exact ht.updated
    · rw [pending_loop]
      exact nofun
    · rw [pending_loop]
      exact fun _ => hp.complete nofun
  | beginTransaction | select | markSent | commit =>
    cases h
    exact ⟨nofun, ht.published, ht.updated, nofun, fun hne => absurd rfl hne⟩

/-! ## One step -/

/-- A row that a step has published is in the table, and its event on the bus. -/
theorem exists_of_publishes (hp : pass.Sound s τ) {id : ℕ}
    (hid : id ∈ if o = .ok then τ.publishes else []) :
    ∃ r ∈ s.rows, r.outboxId = id ∧ r.message ∈ (advance batchSize s i o τ pass).bus := by
  cases o with
  | failed | lost => cases hid
  | ok =>
    cases τ with
    | publish row rest =>
      obtain ⟨r, hr, hsame⟩ := hp.rows row List.mem_cons_self
      rw [if_pos rfl, Task.publishes, List.mem_singleton] at hid
      refine ⟨r, hr, by rw [hsame.1, hid], ?_⟩
      rw [hsame.2]
      exact List.mem_append_right _ (List.mem_singleton_self _)
    | _ => cases hid

theorem open_loop : (Relay.running (loop rest) pass).Open := by cases rest <;> trivial

/-- The transaction is open until it is over. -/
theorem open_advance (hτ : τ ≠ .connect) (hend : o = .ok → τ ≠ .commit ∧ τ ≠ .rollback) :
    ((advance batchSize s i o τ pass).relays i).Open := by
  have hraised : (raised pass τ).Open := by
    cases τ with
    | connect => exact absurd rfl hτ
    | publish => exact open_loop
    | _ => trivial
  cases o with
  | failed => rwa [advance, setRelay_self]
  | lost => rwa [advance, setRelay_self]
  | ok =>
    rw [advance, setRelay_self]
    cases τ with
    | connect => exact absurd rfl hτ
    | select | markSent => exact open_loop
    | commit => exact absurd rfl (hend rfl).1
    | rollback => exact absurd rfl (hend rfl).2
    | _ => trivial

theorem held_advance (hs : Sound s) (hi : s.relays i = .running τ pass) :
    ∀ r ∈ (advance batchSize s i o τ pass).rows, ∀ j, r.lockedBy = some j →
      ((advance batchSize s i o τ pass).relays j).Open := by
  intro r hr j hj
  obtain ⟨f, hrows, hf⟩ := advance_rows batchSize s i o τ pass
  have hmem := hr
  rw [hrows] at hmem
  obtain ⟨r₀, hr₀, rfl⟩ := List.mem_map.mp hmem
  by_cases hji : j = i
  · subst hji
    have hτ : τ ≠ .connect := by
      rintro rfl
      rcases hf.locked r₀ j hj with hlocked | ⟨-, hselect⟩
      · have hopen := hs.held r₀ hr₀ j hlocked
        rw [hi] at hopen
        exact hopen
      · cases hselect
    apply open_advance hτ
    intro ho
    subst ho
    exact ⟨fun hcommit => perform_released (.inl hcommit) _ hr hj,
      fun hrollback => perform_released (.inr hrollback) _ hr hj⟩
  · rw [advance_relays hji]
    rcases hf.locked r₀ j hj with hlocked | ⟨heq, -⟩
    · exact hs.held r₀ hr₀ j hlocked
    · exact absurd heq hji

/-- Rows that change in place stay sound when what they gain is sound. -/
theorem sound_map {f : Row → Row} {ids : List ℕ} (hs : Sound s) (hsame : ∀ r : Row, r.Same (f r))
    (hrows : t.rows = s.rows.map f) (hpublished : t.published = s.published ++ ids)
    (hbus : s.bus ⊆ t.bus)
    (hnew : ∀ id ∈ ids, ∃ r ∈ s.rows, r.outboxId = id ∧ r.message ∈ t.bus)
    (hsent : ∀ r ∈ s.rows, (f r).sent = true → r.outboxId ∈ s.published)
    (hheld : ∀ r ∈ t.rows, ∀ i, r.lockedBy = some i → (t.relays i).Open)
    (hpasses : ∀ i τ pass, t.relays i = .running τ pass → pass.Sound t τ) : Sound t := by
  constructor
  · rw [hrows, List.map_map]
    have hids : (fun r : Row => r.outboxId) ∘ f = fun r => r.outboxId :=
      funext fun r => (hsame r).1
    rw [hids]
    exact hs.keyed
  · rw [hpublished, List.forall_mem_append]
    have hfound : ∀ id, (∃ r ∈ s.rows, r.outboxId = id) → ∃ r ∈ t.rows, r.outboxId = id := by
      rintro id ⟨r, hr, rfl⟩
      obtain ⟨r', hr', hsame'⟩ := keeps_map hsame hrows r hr
      exact ⟨r', hr', hsame'.1⟩
    refine ⟨fun id hid => hfound id (hs.known id hid), fun id hid => hfound id ?_⟩
    obtain ⟨r, hr, heq, -⟩ := hnew id hid
    exact ⟨r, hr, heq⟩
  · rw [hrows, hpublished, List.forall_mem_map]
    intro r hr hid
    rw [(hsame r).1] at hid
    rw [(hsame r).2]
    rcases List.mem_append.mp hid with hid | hid
    · exact hbus (hs.delivered r hr hid)
    · obtain ⟨r', hr', heq, hmessage⟩ := hnew _ hid
      rwa [hs.eq_of_outboxId hr hr' heq.symm]
  · rw [hrows, hpublished, List.forall_mem_map]
    intro r hr hsent'
    rw [(hsame r).1]
    exact List.mem_append_left _ (hsent r hr hsent')
  · exact hheld
  · exact hpasses

theorem sound_advance (hs : Sound s) (hi : s.relays i = .running τ pass) :
    Sound (advance batchSize s i o τ pass) := by
  obtain ⟨f, hrows, hf⟩ := advance_rows batchSize s i o τ pass
  have hp := hs.passes i τ pass hi
  have hkeeps := keeps_map hf.same hrows
  have hpublished : (advance batchSize s i o τ pass).published = _ := advance_published
  refine sound_map hs hf.same hrows hpublished advance_bus
    (fun id hid => exists_of_publishes hp hid) ?_ (held_advance hs hi) ?_
  · intro r hr hsent
    rcases hf.sent r hsent with hsent | hupdated
    · exact hs.sent r hr hsent
    · exact hp.published _ (hp.updated _ hupdated)
  · intro j σ pass' hj
    by_cases hji : j = i
    · subst hji
      cases o with
      | ok =>
        rw [advance, setRelay_self] at hj
        exact sound_next hp hj hkeeps hpublished
      | failed | lost =>
        rw [advance, setRelay_self] at hj
        exact sound_raised hp hj hkeeps (hpublished.trans (List.append_nil _))
    · rw [advance_relays hji] at hj
      apply (hs.passes j σ pass' hj).mono hkeeps
      rw [hpublished]
      exact List.subset_append_left ..

/-- Everything a step can do. -/
inductive Move (batchSize : ℕ) (s : State) : Action → State → Prop
  | append {row : Row} : (∀ r ∈ s.rows, r.outboxId ≠ row.outboxId) →
      Move batchSize s (.append row)
        { s with rows := s.rows ++ [{ row with sent := false, lockedBy := none }] }
  | pump {i : ℕ} : s.relays i = .idle →
      Move batchSize s (.pump i) (s.setRelay i (.running .connect {}))
  | advance {i : ℕ} {o : Outcome} {τ : Task} {pass : Pass} : s.relays i = .running τ pass →
      Move batchSize s (.advance i o) (advance batchSize s i o τ pass)
  | crash {i : ℕ} {τ : Task} {pass : Pass} : s.relays i = .running τ pass →
      Move batchSize s (.crash i) (s.setRelay i .cut)
  | reap {i : ℕ} : s.relays i = .cut → Move batchSize s (.reap i)
      (State.setRelay { s with rows := s.rows.map (unlock i) } i (.returned 0))

theorem step_move (h : step batchSize s a = some t) : Move batchSize s a t := by
  cases a with
  | append row =>
    rw [step] at h
    split at h <;> cases h
    next hnew =>
    exact .append fun r hr heq => hnew (List.any_eq_true.mpr ⟨r, hr, decide_eq_true heq⟩)
  | pump i =>
    rw [step] at h
    split at h <;> cases h
    next hi => exact .pump hi
  | advance i o =>
    rw [step] at h
    split at h <;> cases h
    next hi => exact .advance hi
  | crash i =>
    rw [step] at h
    split at h <;> cases h
    next hi => exact .crash hi
  | reap i =>
    rw [step] at h
    split at h <;> cases h
    next hi => exact .reap hi

/-- A pass that begins or loses its connection has the same rows locked. -/
theorem sound_setRelay (hs : Sound s) (hopen : (s.relays i).Open → b.Open)
    (hpass : ∀ τ pass, b = .running τ pass → pass.Sound s τ) : Sound (s.setRelay i b) where
  keyed := hs.keyed
  known := hs.known
  delivered := hs.delivered
  sent := hs.sent
  held r hr j hj := by
    by_cases hji : j = i
    · subst hji
      rw [setRelay_self]
      exact hopen (hs.held r hr j hj)
    · rw [setRelay_ne hji]
      exact hs.held r hr j hj
  passes j τ pass hj := by
    have hkeeps : s.Keeps (s.setRelay i b) := .refl s
    by_cases hji : j = i
    · subst hji
      rw [setRelay_self] at hj
      exact (hpass τ pass hj).mono hkeeps (List.Subset.refl _)
    · rw [setRelay_ne hji] at hj
      exact (hs.passes j τ pass hj).mono hkeeps (List.Subset.refl _)

theorem sound_append (hs : Sound s) (hnew : ∀ r ∈ s.rows, r.outboxId ≠ row.outboxId)
    (hsent : row.sent = false) (hlocked : row.lockedBy = none) :
    Sound { s with rows := s.rows ++ [row] } := by
  have hkeeps : s.Keeps { s with rows := s.rows ++ [row] } :=
    fun r hr => ⟨r, List.mem_append_left _ hr, .refl r⟩
  constructor
  · rw [List.map_append, List.map_singleton, ← List.concat_eq_append]
    apply hs.keyed.concat
    intro hmem
    obtain ⟨r, hr, heq⟩ := List.mem_map.mp hmem
    exact hnew r hr heq
  · intro id hid
    obtain ⟨r, hr, heq⟩ := hs.known id hid
    exact ⟨r, List.mem_append_left _ hr, heq⟩
  · rw [List.forall_mem_append, List.forall_mem_singleton]
    refine ⟨hs.delivered, fun hid => ?_⟩
    obtain ⟨r, hr, heq⟩ := hs.known _ hid
    exact absurd heq (hnew r hr)
  · rw [List.forall_mem_append, List.forall_mem_singleton, hsent]
    exact ⟨hs.sent, nofun⟩
  · rw [List.forall_mem_append, List.forall_mem_singleton, hlocked]
    exact ⟨hs.held, nofun⟩
  · exact fun i τ pass hi => (hs.passes i τ pass hi).mono hkeeps (List.Subset.refl _)

theorem keeps_unlock : s.Keeps { s with rows := s.rows.map (unlock i) } :=
  keeps_map same_unlock rfl

/-- The server takes the locks from a connection that is gone. -/
theorem sound_reap (hs : Sound s) : Sound (State.setRelay
    { s with rows := s.rows.map (unlock i) } i (.returned 0)) := by
  refine sound_map hs same_unlock rfl (List.append_nil _).symm (List.Subset.refl _)
    (List.forall_mem_nil _) ?_ ?_ ?_
  · intro r hr hsent
    exact hs.sent r hr (by rwa [sent_unlock] at hsent)
  · refine List.forall_mem_map.mpr fun r hr j hj => ?_
    by_cases hji : j = i
    · subst hji
      exact absurd hj (lockedBy_unlock r).1
    · rw [setRelay_ne hji]
      exact hs.held r hr j ((lockedBy_unlock r).2 j hj)
  · intro j τ pass hj
    by_cases hji : j = i
    · subst hji
      rw [setRelay_self] at hj
      cases hj
    · rw [setRelay_ne hji] at hj
      exact (hs.passes j τ pass hj).mono keeps_unlock (List.Subset.refl _)

theorem sound_step (hs : Sound s) (h : step batchSize s a = some t) : Sound t := by
  cases step_move h with
  | append hnew => exact sound_append hs hnew rfl rfl
  | pump hi =>
    refine sound_setRelay hs (fun hopen => ?_) ?_
    · rw [hi] at hopen
      exact hopen.elim
    · rintro τ pass ⟨⟩
      exact ⟨nofun, nofun, nofun, nofun, fun _ => nofun⟩
  | advance hi => exact sound_advance hs hi
  | crash hi => exact sound_setRelay hs (fun _ => trivial) nofun
  | reap => exact sound_reap hs

theorem keeps_step (h : step batchSize s a = some t) : s.Keeps t := by
  cases step_move h with
  | append => exact fun r hr => ⟨r, List.mem_append_left _ hr, .refl r⟩
  | pump | crash => exact .refl s
  | @advance i o τ pass hi =>
    obtain ⟨f, hrows, hf⟩ := advance_rows batchSize s i o τ pass
    exact keeps_map hf.same hrows
  | reap => exact keeps_unlock

theorem sent_step (h : step batchSize s a = some t) {id : ℕ}
    (hid : ∃ r ∈ s.rows, r.outboxId = id ∧ r.sent = true) :
    ∃ r ∈ t.rows, r.outboxId = id ∧ r.sent = true := by
  obtain ⟨r, hr, rfl, hsent⟩ := hid
  cases step_move h with
  | append => exact ⟨r, List.mem_append_left _ hr, rfl, hsent⟩
  | pump | crash => exact ⟨r, hr, rfl, hsent⟩
  | @advance i o τ pass hi =>
    obtain ⟨f, hrows, hf⟩ := advance_rows batchSize s i o τ pass
    exact ⟨f r, by rw [hrows]; exact List.mem_map_of_mem hr, (hf.same r).1, hf.kept r hsent⟩
  | reap =>
    exact ⟨unlock _ r, List.mem_map_of_mem hr, (same_unlock r).1, by rwa [sent_unlock]⟩

/-- A row that a step leaves sent had been published before. -/
theorem published_before (hs : Sound s) (h : step batchSize s a = some t) (hr : r ∈ t.rows)
    (hsent : r.sent = true) : r.outboxId ∈ s.published := by
  cases step_move h with
  | append =>
    rcases List.mem_append.mp hr with hr | hr
    · exact hs.sent r hr hsent
    · rw [List.mem_singleton.mp hr] at hsent
      cases hsent
  | pump | crash => exact hs.sent r hr hsent
  | @advance i o τ pass hi =>
    obtain ⟨f, hrows, hf⟩ := advance_rows batchSize s i o τ pass
    rw [hrows] at hr
    obtain ⟨r₀, hr₀, rfl⟩ := List.mem_map.mp hr
    rw [(hf.same r₀).1]
    rcases hf.sent r₀ hsent with hsent | hupdated
    · exact hs.sent r₀ hr₀ hsent
    · have hp := hs.passes i τ pass hi
      exact hp.published _ (hp.updated _ hupdated)
  | reap =>
    obtain ⟨r₀, hr₀, rfl⟩ := List.mem_map.mp hr
    rw [(same_unlock r₀).1]
    exact hs.sent r₀ hr₀ (by rwa [sent_unlock] at hsent)

/-- The pass commits, whether or not it learns of it. -/
def Commits (s : State) (a : Action) (pass : Pass) : Prop :=
  ∃ i o, a = .advance i o ∧ s.relays i = .running .commit pass ∧ o ≠ .failed

/-- A transaction that commits leaves nothing unsent that its pass has had published. -/
theorem sent_of_commits (hs : Sound s) (h : step batchSize s a = some t) (hc : Commits s a pass)
    (hr : r ∈ t.rows) (hid : r.outboxId ∈ pass.published) : r.sent = true := by
  obtain ⟨i, o, rfl, hi, ho⟩ := hc
  cases step_move h with
  | advance hi' =>
    cases hi.symm.trans hi'
    have hupdated : r.outboxId ∈ pass.updated := by
      simpa [Task.pending] using (hs.passes i _ pass hi).complete nofun _ hid
    have hmem : r ∈ (s.rows.map fun r => unlock i (apply pass.updated r)) := by
      cases o with
      | failed => exact absurd rfl ho
      | ok | lost => exact hr
    obtain ⟨r₀, hr₀, rfl⟩ := List.mem_map.mp hmem
    have hsame : (unlock i (apply pass.updated r₀)).outboxId = r₀.outboxId :=
      ((writes_commit i pass).same r₀).1
    rw [hsame] at hupdated
    rw [sent_unlock, apply, if_pos hupdated]

theorem sound_initial (h : Initial s) : Sound s := by
  obtain ⟨hrows, hbus, hpublished, hidle⟩ := h
  constructor
  · rw [hrows]
    exact List.nodup_nil
  · rw [hpublished]
    exact nofun
  · rw [hrows]
    exact nofun
  · rw [hrows]
    exact nofun
  · rw [hrows]
    exact nofun
  · intro i τ pass hi
    rw [hidle i] at hi
    cases hi

/--
In every run no row goes, a row is sent only when it has been published before, a row that has not
been published is unsent and there for the next pass, and a transaction that commits leaves nothing
unsent that its pass has had published.
-/
theorem outbox_no_loss (hs : Initial s) (h : (system batchSize).Run Any s as t) :
    ((system batchSize).visited s as).Pairwise State.Keeps ∧
    (∀ u ∈ (system batchSize).visited s as, ∀ row ∈ u.rows,
      (row.sent = true → row.outboxId ∈ u.published ∧ row.message ∈ u.bus) ∧
      (row.outboxId ∉ u.published → u.Eligible row)) ∧
    ∀ x ∈ (system batchSize).steps s as, ∀ row ∈ x.2.2.rows,
      (row.sent = true → row.outboxId ∈ x.1.published) ∧
      ∀ pass, Commits x.1 x.2.1 pass → row.outboxId ∈ pass.published → row.sent = true := by
  have hsound := sound_initial hs
  have hstep : ∀ s a t, Sound s → Any s a → (system batchSize).step s a = some t → Sound t :=
    fun s a t hs _ hst => sound_step hs hst
  refine ⟨?_, ?_, ?_⟩
  · rw [h.pairwise_iff_steps State.Keeps.refl fun _ _ _ => State.Keeps.trans]
    exact h.forall_steps hstep (fun _ _ _ _ _ => keeps_step) hsound
  · intro u hu row hrow
    have hu : Sound u := h.forall_visited hstep hsound u hu
    constructor
    · intro hsent
      have hid := hu.sent row hrow hsent
      exact ⟨hid, hu.delivered row hrow hid⟩
    · intro hid
      refine ⟨?_, hu.held row hrow⟩
      by_contra hsent
      exact hid (hu.sent row hrow (by simpa using hsent))
  · refine h.forall_steps (Q := fun s a t => ∀ row ∈ t.rows,
      (row.sent = true → row.outboxId ∈ s.published) ∧
      ∀ pass, Commits s a pass → row.outboxId ∈ pass.published → row.sent = true) hstep ?_ hsound
    intro s a t hs _ hst row hrow
    exact ⟨published_before hs hst hrow, fun pass hc hid => sent_of_commits hs hst hc hrow hid⟩

theorem initial_default : Initial {} := ⟨rfl, rfl, rfl, fun _ => rfl⟩

def numberedRow (n : ℕ) : Row where
  outboxId := n
  topic := []
  payload := .null
  correlationId := none
  createdAt := n

/-- Of two rows one cannot be published; the commit goes unanswered, and the pass rolls back. -/
def unanswered : List Action :=
  [.append (numberedRow 0), .append (numberedRow 1), .pump 0, .advance 0 .ok, .advance 0 .ok,
    .advance 0 .ok, .advance 0 .ok, .advance 0 .ok, .advance 0 .failed, .advance 0 .lost,
    .advance 0 .ok]

theorem outbox_no_loss_unanswered : ∃ t, (system 50).exec {} unanswered = some t ∧
    (t.rows.any fun row => row.sent) ∧ (t.rows.any fun row => !row.sent) ∧
    ∀ row ∈ t.rows, (row.sent = true → row.outboxId ∈ t.published ∧ row.message ∈ t.bus) ∧
      (row.outboxId ∉ t.published → t.Eligible row) := by
  have h : ((system 50).exec {} unanswered).any fun t =>
      (t.rows.any fun row => row.sent) ∧ (t.rows.any fun row => !row.sent) := by decide +kernel
  obtain ⟨t, ht, h⟩ := (Option.any_eq_true _ _).mp h
  obtain ⟨hsent, hunsent⟩ := of_decide_eq_true h
  have hrun := run_of_exec ht
  exact ⟨t, ht, hsent, hunsent, (outbox_no_loss initial_default hrun).2.1 t hrun.mem_visited⟩

end AssureCode.Outbox
