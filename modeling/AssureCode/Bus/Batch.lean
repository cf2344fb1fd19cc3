import AssureCode.Bus.Consumption

/-! # Passes over a batch

The entries of a batch are processed one after the other, and an exception that leaves
`processEntry` ends the pass. So an entry whose envelope cannot be read keeps those that come after
it in the batch from being processed, as do a dead letter and an acknowledgement that throw.
-/

namespace AssureCode.Bus.Redis

open Js Program
open Settlement (Outcome)

/-- What a turn meets with: the replies of Redis, the clock and the attempts of the handler. -/
structure Environment where
  claimed : Option Batch
  read : Option (Option Batch)
  now : Text → TimeValue
  timestamp : Text → Text
  handler : Text → ℕ → Option Thrown
  /-- What comes of the `XACK` of an entry. -/
  acknowledge : Text → Outcome
  /-- What comes of the `XADD` of its dead letter. -/
  forward : Text → Outcome

def Environment.answer (env : Environment) : (c : Call) → c.Reply
  | .xautoclaim => env.claimed
  | .xreadgroup => env.read
  | .xack id => if env.acknowledge id = .ok then some () else none
  | .xadd _ record => if env.forward record.originalId = .ok then some () else none
  | .now id => env.now id
  | .timestamp id => env.timestamp id
  | .handler id attempt _ => env.handler id attempt

inductive Pass | reclaim | read

def Pass.program (P : Platform) (topic : Text) : Pass → Code Unit
  | .reclaim => reclaimStale P topic
  | .read => readNew P topic

/-- The entries that a pass is given. -/
def Environment.batch (env : Environment) : Pass → List Entry
  | .reclaim => env.claimed.elim [] Batch.entries
  | .read => env.read.join.elim [] Batch.entries

section Disposal

variable (env : Environment) (cs : List Call) (e : Entry)

def Acknowledged : Prop := .xack e.id ∈ cs ∧ env.acknowledge e.id ≠ .failed

def Tried : Prop := ∃ attempt envelope, .handler e.id attempt envelope ∈ cs

def Handled : Prop :=
  ∃ attempt envelope, .handler e.id attempt envelope ∈ cs ∧ env.handler e.id attempt = none

/-- Its dead letter was added, by such an outcome. -/
def DeadLettered (ok : Outcome → Prop) : Prop :=
  ∃ stream record, .xadd stream record ∈ cs ∧ record.originalId = e.id ∧ ok (env.forward e.id)

/--
The calls leave the entry acknowledged, for having been handled or added to the dead letters or
being none of the bus; or pending, for its handler or the writing of its dead letter has failed.
-/
def Disposed : Prop :=
  Acknowledged env cs e ∧
    (Handled env cs e ∨ DeadLettered env cs e (· ≠ .failed) ∨ units "envelope" ∉ e.fields) ∨
  ¬ Acknowledged env cs e ∧ Tried cs e ∧ ¬ Handled env cs e ∧ ¬ DeadLettered env cs e (· = .ok)

end Disposal

/-- The envelope can be read, if there is one. -/
def Entry.Legible (P : Platform) (e : Entry) : Prop :=
  units "envelope" ∈ e.fields → ∃ envelope, e.envelope? = some envelope ∧ Bus.Legible P envelope

/-- All attempts fail. -/
def Environment.Fails (env : Environment) (e : Entry) : Prop :=
  ∀ k < maxRetries, env.handler e.id (k + 1) ≠ none

/-- All attempts fail, and so does the writing of the dead letter. -/
def Environment.Stuck (env : Environment) (e : Entry) : Prop :=
  units "envelope" ∈ e.fields ∧ env.Fails e ∧
    ((∀ err ∈ env.handler e.id maxRetries, err.errorMessage = none) ∨ env.forward e.id ≠ .ok)

/--
Every entry can be read and is acknowledged, if it is not stuck, and none before the last is stuck
or has its acknowledgement throw.
-/
def Undisturbed (P : Platform) (env : Environment) (es : List Entry) : Prop :=
  (∀ e ∈ es, e.Legible P ∧ (env.Stuck e ∨ env.acknowledge e.id ≠ .failed)) ∧
    ∀ e ∈ es.dropLast, ¬ env.Stuck e ∧ env.acknowledge e.id = .ok

variable {P : Platform} {topic : Text} {env : Environment} {e e' : Entry} {es : List Entry}
  {cs cs' : List Call} {c : Call} {envelope : Json} {v : Attempts}

/-! ## One entry -/

section Answers

variable (env : Environment) (id : Text) (attempt : ℕ) (envelope : Json) (stream : Text)
  (record : DeadLetter)

@[simp] theorem calls_handler :
    calls env.answer (handler id attempt envelope) = [.handler id attempt envelope] := rfl

@[simp] theorem result_handler :
    result env.answer (handler id attempt envelope) = some (env.handler id attempt) := rfl

@[simp] theorem calls_now : calls env.answer (now id) = [.now id] := rfl

@[simp] theorem result_now : result env.answer (now id) = some (env.now id) := rfl

@[simp] theorem calls_timestamp : calls env.answer (timestamp id) = [.timestamp id] := rfl

@[simp] theorem result_timestamp : result env.answer (timestamp id) = some (env.timestamp id) := rfl

@[simp] theorem calls_xack : calls env.answer (xack id) = [.xack id] := by
  simp [xack]

@[simp] theorem result_xack :
    result env.answer (xack id) = if env.acknowledge id = .ok then some () else none := by
  rw [xack, result_bind, result_await, Option.bind_some, result_ofOption]
  rfl

@[simp] theorem calls_xadd : calls env.answer (xadd stream record) = [.xadd stream record] := by
  simp [xadd]

@[simp] theorem result_xadd : result env.answer (xadd stream record) =
    if env.forward record.originalId = .ok then some () else none := by
  rw [xadd, result_bind, result_await, Option.bind_some, result_ofOption]
  rfl

end Answers

/-- The calls of the handler from one attempt on. -/
def attemptsFrom (id : Text) (envelope : Json) (first n : ℕ) : List Call :=
  (List.range' first n).map fun attempt => .handler id attempt envelope

/-- The attempts are made one after the other, until one succeeds. -/
theorem retry_runs (env : Environment) (id : Text) (envelope : Json) (left : ℕ)
    (hv : v.success = false) : ∃ n w,
    calls env.answer (retry id envelope left v) =
      attemptsFrom id envelope (v.attempt + 1) n ∧
    result env.answer (retry id envelope left v) = some w ∧
    ((w.success = true ∧ n ≤ left ∧
        ∃ k ∈ List.range' (v.attempt + 1) n, env.handler id k = none) ∨
      w.success = false ∧ n = left ∧
        (∀ k ∈ List.range' (v.attempt + 1) left, env.handler id k ≠ none) ∧
        (if left = 0 then some v.lastError else env.handler id (v.attempt + left)) =
          some w.lastError) := by
  induction left generalizing v with
  | zero => exact ⟨0, v, rfl, rfl, .inr ⟨hv, rfl, by simp, rfl⟩⟩
  | succ left ih =>
    cases hfirst : env.handler id (v.attempt + 1) with
    | none =>
      refine ⟨1, { v with attempt := v.attempt + 1, success := true }, ?_, ?_,
        .inl ⟨rfl, by omega, _, List.mem_cons_self, hfirst⟩⟩
      · simp [retry, hfirst, attemptsFrom]
      · simp [retry, hfirst]
    | some err =>
      obtain ⟨n, w, hcalls, hresult, hcase⟩ :=
        ih (v := { v with attempt := v.attempt + 1, lastError := err }) hv
      refine ⟨n + 1, w, ?_, ?_, ?_⟩
      · rw [retry, calls_bind, calls_handler, result_handler, Option.elim_some, hfirst]
        exact congrArg (_ :: ·) hcalls
      · rw [retry, result_bind, result_handler, Option.bind_some, hfirst]
        exact hresult
      · rcases hcase with ⟨hsuccess, hn, k, hk, hnone⟩ | ⟨hfails, rfl, hall, hlast⟩
        · exact .inl ⟨hsuccess, by omega, k, List.mem_cons_of_mem _ hk, hnone⟩
        · refine .inr ⟨hfails, rfl, ?_, ?_⟩
          · rw [List.range'_succ, List.forall_mem_cons, hfirst]
            exact ⟨Option.some_ne_none err, hall⟩
          · rw [if_neg n.succ_ne_zero]
            split at hlast
            · next hn => rw [hn, ← hlast, hfirst]
            · rwa [Nat.add_right_comm, Nat.add_assoc] at hlast

/-- What comes of an entry: the calls that are made for it, and whether the pass goes on. -/
inductive Course (P : Platform) (env : Environment) (e : Entry) : List Call → Bool → Prop
  | foreign : units "envelope" ∉ e.fields → Course P env e [.xack e.id] (env.acknowledge e.id = .ok)
  | illegible (cs : List Call) : ¬ e.Legible P → cs ⊆ [.now e.id] → Course P env e cs false
  | handled (envelope : Json) (n : ℕ) : units "envelope" ∈ e.fields → e.Legible P →
      (∃ k ∈ List.range' 1 n, env.handler e.id k = none) → ¬ env.Fails e →
      Course P env e (.now e.id :: attemptsFrom e.id envelope 1 n ++ [.xack e.id])
        (env.acknowledge e.id = .ok)
  | stuck (envelope : Json) (rest : List Call) : e.Legible P → env.Stuck e →
      (∀ c ∈ rest, c = .timestamp e.id ∨
        ∃ stream record, c = .xadd stream record ∧ record.originalId = e.id ∧
          env.forward e.id ≠ .ok) →
      Course P env e (.now e.id :: attemptsFrom e.id envelope 1 maxRetries ++ rest) false
  | forwarded (envelope : Json) (stream : Text) (record : DeadLetter) : e.Legible P →
      env.Fails e → ¬ env.Stuck e → record.originalId = e.id → env.forward e.id = .ok →
      Course P env e (.now e.id :: attemptsFrom e.id envelope 1 maxRetries ++
        [.timestamp e.id, .xadd stream record, .xack e.id]) (env.acknowledge e.id = .ok)

theorem isSome_result_xack : (result env.answer (xack e.id)).isSome =
    decide (env.acknowledge e.id = .ok) := by
  rw [result_xack]
  split <;> simp [*]

theorem fails_iff : env.Fails e ↔ ∀ k ∈ List.range' 1 maxRetries, env.handler e.id k ≠ none := by
  constructor
  · intro h k hk
    obtain ⟨hpos, hlt⟩ := List.mem_range'_1.mp hk
    have hk := h (k - 1) (by omega)
    rwa [Nat.sub_add_cancel hpos] at hk
  · intro h k hk
    exact h (k + 1) (List.mem_range'_1.mpr (by omega))

/-- An entry all of whose attempts have failed is forwarded, or it is stuck. -/
theorem course_forward (hl : e.Legible P) (hfield : units "envelope" ∈ e.fields)
    (hfails : env.Fails e) (hlast : env.handler e.id maxRetries = some v.lastError) :
    Course P env e
      ([.now e.id] ++ (attemptsFrom e.id envelope 1 maxRetries ++
        calls env.answer (do forward topic e.id envelope v; xack e.id)))
      (result env.answer (do forward topic e.id envelope v; xack e.id)).isSome := by
  rw [forward]
  cases hmessage : v.lastError.errorMessage with
  | none =>
    have hstuck : env.Stuck e := by
      refine ⟨hfield, hfails, .inl fun err herr => ?_⟩
      rw [hlast] at herr
      cases herr
      exact hmessage
    exact .stuck envelope [] hl hstuck (List.forall_mem_nil _)
  | some message =>
    by_cases hforward : env.forward e.id = .ok
    · have hstuck : ¬ env.Stuck e := by
        rintro ⟨-, -, hnone | hne⟩
        · rw [hnone _ hlast] at hmessage
          cases hmessage
        · exact hne hforward
      simp only [calls_bind, result_bind, calls_ofOption, result_ofOption, calls_timestamp,
        result_timestamp, calls_xadd, result_xadd, Option.elim_some, Option.bind_some,
        if_pos hforward, calls_xack, isSome_result_xack]
      exact .forwarded envelope _ _ hl hfails hstuck rfl hforward
    · simp only [calls_bind, result_bind, calls_ofOption, result_ofOption, calls_timestamp,
        result_timestamp, calls_xadd, result_xadd, Option.elim_some, Option.bind_some,
        if_neg hforward]
      refine .stuck envelope [_, _] hl ⟨hfield, hfails, .inr hforward⟩ ?_
      rw [List.forall_mem_cons, List.forall_mem_singleton]
      exact ⟨.inl rfl, .inr ⟨_, _, rfl, rfl, hforward⟩⟩

theorem course_processEntry (hP : P.Documented) (topic : Text) (env : Environment) (e : Entry) :
    Course P env e (calls env.answer (processEntry P topic e))
      (result env.answer (processEntry P topic e)).isSome := by
  rw [processEntry]
  split
  · next hidx =>
    rw [calls_xack, isSome_result_xack]
    exact .foreign (List.idxOf?_eq_none_iff.mp hidx)
  · next idx hidx =>
    have hfield : units "envelope" ∈ e.fields := by
      by_contra hnone
      rw [List.idxOf?_eq_none_iff.mpr hnone] at hidx
      cases hidx
    have hparse : e.envelope? = e.fields[idx + 1]?.bind Json.parse := by
      rw [Entry.envelope?, hidx, Option.bind_some]
    rw [← hparse]
    cases henvelope : e.envelope? with
    | none =>
      refine .illegible _ (fun hl => ?_) (List.nil_subset _)
      obtain ⟨envelope, hsome, -⟩ := hl hfield
      rw [henvelope] at hsome
      cases hsome
    | some envelope =>
      simp only [calls_bind, result_bind, calls_ofOption, result_ofOption, Option.elim_some,
        Option.bind_some, calls_now, result_now, List.nil_append]
      split
      · next hreaches =>
        have hl : e.Legible P := fun _ => ⟨envelope, henvelope, (reaches_iff hP).mp hreaches⟩
        obtain ⟨n, w, hcalls, hresult, hcase⟩ :=
          retry_runs env e.id envelope maxRetries (v := {}) rfl
        simp only [calls_bind, result_bind, hcalls, hresult, Option.elim_some, Option.bind_some]
        rcases hcase with ⟨hsuccess, hn, k, hk, hnone⟩ | ⟨hfailure, rfl, hall, hlast⟩
        · rw [if_pos hsuccess, calls_xack, isSome_result_xack]
          have hfails : ¬ env.Fails e := by
            intro hfails
            have hk' : k ∈ List.range' 1 maxRetries := by
              rw [List.mem_range'_1] at hk ⊢
              change 1 ≤ k ∧ k < 1 + n at hk
              omega
            exact fails_iff.mp hfails k hk' hnone
          exact .handled envelope n hfield hl ⟨k, hk, hnone⟩ hfails
        · have hfails : env.Fails e := fails_iff.mpr hall
          have hlast : env.handler e.id maxRetries = some w.lastError := hlast
          rw [hfailure, if_neg Bool.false_ne_true]
          exact course_forward hl hfield hfails hlast
      · next hreaches =>
        refine .illegible _ (fun hl => hreaches ?_) (by simp)
        obtain ⟨envelope', hsome, hlegible⟩ := hl hfield
        cases henvelope.symm.trans hsome
        exact (reaches_iff hP).mpr hlegible

theorem Course.subject {b : Bool} (h : Course P env e cs b) :
    ∀ c ∈ cs, c.subject = some e.id := by
  have hattempts : ∀ envelope n, ∀ c ∈ attemptsFrom e.id envelope 1 n, c.subject = some e.id :=
    fun envelope n => List.forall_mem_map.mpr fun _ _ => rfl
  cases h with
  | foreign => simp [Call.subject]
  | illegible _ _ hcs =>
    intro c hc
    rw [List.mem_singleton.mp (hcs hc)]
    rfl
  | handled envelope n =>
    rw [List.forall_mem_append, List.forall_mem_cons, List.forall_mem_singleton]
    exact ⟨⟨rfl, hattempts envelope n⟩, rfl⟩
  | stuck envelope rest _ _ hrest =>
    rw [List.forall_mem_append, List.forall_mem_cons]
    refine ⟨⟨rfl, hattempts envelope _⟩, fun c hc => ?_⟩
    rcases hrest c hc with rfl | ⟨stream, record, rfl, hid, -⟩
    · rfl
    · exact congrArg some hid
  | forwarded envelope stream record _ _ _ hid =>
    rw [List.forall_mem_append, List.forall_mem_cons, List.forall_mem_cons, List.forall_mem_cons,
      List.forall_mem_singleton]
    exact ⟨⟨rfl, hattempts envelope _⟩, rfl, congrArg some hid, rfl⟩

/-- The pass goes on after an entry that can be read, is not stuck, and is acknowledged. -/
theorem Course.continues_iff {b : Bool} (h : Course P env e cs b) :
    b = true ↔ e.Legible P ∧ ¬ env.Stuck e ∧ env.acknowledge e.id = .ok := by
  cases h with
  | foreign hnone =>
    have hl : e.Legible P := fun hfield => absurd hfield hnone
    have hstuck : ¬ env.Stuck e := fun hstuck => hnone hstuck.1
    simp [hl, hstuck]
  | illegible _ hl => simp [hl]
  | handled _ _ _ hl _ hfails =>
    have hstuck : ¬ env.Stuck e := fun hstuck => hfails hstuck.2.1
    simp [hl, hstuck]
  | stuck _ _ _ hstuck => simp [hstuck]
  | forwarded _ _ _ hl _ hstuck => simp [hl, hstuck]

/-- An entry that has been tried and is not settled by it is the only one to be left pending. -/
theorem disposed_iff_acknowledged
    (hdone : Handled env cs e ∨ DeadLettered env cs e (· ≠ .failed) ∨ units "envelope" ∉ e.fields)
    (hsettled : Tried cs e → Handled env cs e ∨ DeadLettered env cs e (· = .ok)) :
    Disposed env cs e ↔ Acknowledged env cs e := by
  constructor
  · rintro (⟨hack, -⟩ | ⟨-, htried, hhandled, hparked⟩)
    · exact hack
    · rcases hsettled htried with hdone | hdone
      · exact absurd hdone hhandled
      · exact absurd hdone hparked
  · exact fun hack => .inl ⟨hack, hdone⟩

theorem acknowledged_iff (h : .xack e.id ∈ cs) :
    Acknowledged env cs e ↔ env.acknowledge e.id ≠ .failed := and_iff_right h

theorem mem_attemptsFrom {id : Text} {first n : ℕ} : c ∈ attemptsFrom id envelope first n ↔
    ∃ k ∈ List.range' first n, Call.handler id k envelope = c := List.mem_map

/-- The calls that are made for a stuck entry leave it pending. -/
theorem disposed_of_stuck {rest : List Call} (h : env.Stuck e) (hrest : ∀ c ∈ rest,
      c = .timestamp e.id ∨ ∃ stream record, c = .xadd stream record ∧
        record.originalId = e.id ∧ env.forward e.id ≠ .ok) :
    Disposed env (.now e.id :: attemptsFrom e.id envelope 1 maxRetries ++ rest) e := by
  have hmem : ∀ c, c ∈ .now e.id :: attemptsFrom e.id envelope 1 maxRetries ++ rest →
      c = .now e.id ∨ (∃ k ∈ List.range' 1 maxRetries, Call.handler e.id k envelope = c) ∨
        c ∈ rest := by
    intro c hc
    rcases List.mem_append.mp hc with hc | hc
    · rcases List.mem_cons.mp hc with hc | hc
      · exact .inl hc
      · exact .inr (.inl (mem_attemptsFrom.mp hc))
    · exact .inr (.inr hc)
  refine .inr ⟨?_, ?_, ?_, ?_⟩
  · rintro ⟨hack, -⟩
    rcases hmem _ hack with hc | ⟨k, -, hc⟩ | hc
    · cases hc
    · cases hc
    · rcases hrest _ hc with hc | ⟨_, _, hc, -⟩ <;> cases hc
  · refine ⟨1, envelope, List.mem_append_left _ (List.mem_cons_of_mem _ ?_)⟩
    exact mem_attemptsFrom.mpr ⟨1, by decide, rfl⟩
  · rintro ⟨attempt, envelope', htried, hnone⟩
    rcases hmem _ htried with hc | ⟨k, hk, hc⟩ | hc
    · cases hc
    · cases hc
      exact fails_iff.mp h.2.1 _ hk hnone
    · rcases hrest _ hc with hc | ⟨_, _, hc, -⟩ <;> cases hc
  · rintro ⟨stream, record, hadd, -, hok⟩
    rcases hmem _ hadd with hc | ⟨k, -, hc⟩ | hc
    · cases hc
    · cases hc
    · rcases hrest _ hc with hc | ⟨_, _, -, -, hne⟩
      · cases hc
      · exact hne hok

/-- An entry is disposed of when it can be read, and its acknowledgement comes to pass if due. -/
theorem Course.disposed_iff {b : Bool} (h : Course P env e cs b) :
    Disposed env cs e ↔ e.Legible P ∧ (env.Stuck e ∨ env.acknowledge e.id ≠ .failed) := by
  cases h with
  | foreign hnone =>
    have hl : e.Legible P := fun hfield => absurd hfield hnone
    have hstuck : ¬ env.Stuck e := fun hstuck => hnone hstuck.1
    rw [disposed_iff_acknowledged (.inr (.inr hnone)) (by simp [Tried]),
      acknowledged_iff List.mem_cons_self, and_iff_right hl, or_iff_right hstuck]
  | illegible _ hl hcs =>
    refine iff_of_false ?_ fun h => hl h.1
    rintro (⟨⟨hack, -⟩, -⟩ | ⟨-, ⟨attempt, envelope, htried⟩, -⟩)
    · cases List.mem_singleton.mp (hcs hack)
    · cases List.mem_singleton.mp (hcs htried)
  | handled envelope n _ hl hnone hfails =>
    obtain ⟨k, hk, hnone⟩ := hnone
    have hstuck : ¬ env.Stuck e := fun hstuck => hfails hstuck.2.1
    have hhandled : Handled env
        (.now e.id :: attemptsFrom e.id envelope 1 n ++ [.xack e.id]) e :=
      ⟨k, envelope, List.mem_append_left _ (List.mem_cons_of_mem _
        (mem_attemptsFrom.mpr ⟨k, hk, rfl⟩)), hnone⟩
    rw [disposed_iff_acknowledged (.inl hhandled) fun _ => .inl hhandled,
      acknowledged_iff List.mem_concat_self, and_iff_right hl, or_iff_right hstuck]
  | stuck envelope rest hl hstuck hrest =>
    exact iff_of_true (disposed_of_stuck hstuck hrest) ⟨hl, .inl hstuck⟩
  | forwarded envelope stream record hl _ hstuck hid hforward =>
    have hparked : ∀ ok : Outcome → Prop, ok .ok → DeadLettered env
        (.now e.id :: attemptsFrom e.id envelope 1 maxRetries ++
          [.timestamp e.id, .xadd stream record, .xack e.id]) e ok := by
      intro ok hok
      exact ⟨stream, record, List.mem_append_right _ (by simp), hid, hforward ▸ hok⟩
    rw [disposed_iff_acknowledged (.inr (.inl (hparked _ nofun))) fun _ => .inr (hparked _ rfl),
      acknowledged_iff (List.mem_append_right _ (by simp)), and_iff_right hl, or_iff_right hstuck]

/-! ## A batch -/

/-- Only the calls that are made for an entry decide on it. -/
theorem disposed_congr (h : ∀ c, c.subject = some e.id → (c ∈ cs ↔ c ∈ cs')) :
    Disposed env cs e ↔ Disposed env cs' e := by
  have hack : Acknowledged env cs e ↔ Acknowledged env cs' e :=
    and_congr_left fun _ => h _ rfl
  have htried : Tried cs e ↔ Tried cs' e :=
    exists_congr fun attempt => exists_congr fun envelope => h _ rfl
  have hhandled : Handled env cs e ↔ Handled env cs' e :=
    exists_congr fun attempt => exists_congr fun envelope => and_congr_left fun _ => h _ rfl
  have hparked : ∀ ok, DeadLettered env cs e ok ↔ DeadLettered env cs' e ok :=
    fun ok => exists_congr fun stream => exists_congr fun record =>
      and_congr_left fun hid => h _ (congrArg some hid.1)
  rw [Disposed, Disposed, hack, htried, hhandled, hparked, hparked]

theorem not_disposed_nil : ¬ Disposed env [] e := by
  simp [Disposed, Acknowledged, Tried]

theorem disposed_append_left (h : ∀ c ∈ cs', c.subject ≠ some e.id) :
    Disposed env (cs ++ cs') e ↔ Disposed env cs e := by
  apply disposed_congr
  intro c hc
  rw [List.mem_append, or_iff_left fun hmem => h c hmem hc]

theorem disposed_append_right (h : ∀ c ∈ cs, c.subject ≠ some e.id) :
    Disposed env (cs ++ cs') e ↔ Disposed env cs' e := by
  apply disposed_congr
  intro c hc
  rw [List.mem_append, or_iff_right fun hmem => h c hmem hc]

theorem undisturbed_cons : Undisturbed P env (e :: es) ↔
    (e.Legible P ∧ (env.Stuck e ∨ env.acknowledge e.id ≠ .failed)) ∧
      (es ≠ [] → ¬ env.Stuck e ∧ env.acknowledge e.id = .ok) ∧ Undisturbed P env es := by
  cases es with
  | nil => simp [Undisturbed]
  | cons e' es =>
    constructor
    · rintro ⟨hall, hlast⟩
      rw [List.forall_mem_cons] at hall
      rw [List.dropLast_cons_cons, List.forall_mem_cons] at hlast
      exact ⟨hall.1, fun _ => hlast.1, hall.2, hlast.2⟩
    · rintro ⟨he, hgoes, hall, hlast⟩
      constructor
      · exact List.forall_mem_cons.mpr ⟨he, hall⟩
      · rw [List.dropLast_cons_cons, List.forall_mem_cons]
        exact ⟨hgoes (List.cons_ne_nil e' es), hlast⟩

/-- The calls of a loop are made for the entries of its batch. -/
theorem subject_forM (hP : P.Documented) (topic : Text) (env : Environment) (es : List Entry) :
    ∀ c ∈ calls env.answer (forM es (processEntry P topic)), ∃ e ∈ es, c.subject = some e.id := by
  induction es with
  | nil => exact nofun
  | cons x xs ih =>
    rw [List.forM_cons, calls_bind, List.forall_mem_append]
    constructor
    · intro c hc
      exact ⟨x, List.mem_cons_self, (course_processEntry hP topic env x).subject c hc⟩
    · intro c hc
      cases hresult : result env.answer (processEntry P topic x) with
      | none =>
        rw [hresult] at hc
        cases hc
      | some =>
        rw [hresult] at hc
        obtain ⟨e, he, hsubject⟩ := ih c hc
        exact ⟨e, List.mem_cons_of_mem x he, hsubject⟩

theorem forM_disposed_iff (hP : P.Documented) (topic : Text) (env : Environment)
    (hnodup : (es.map Entry.id).Nodup) :
    (∀ e ∈ es, Disposed env (calls env.answer (forM es (processEntry P topic))) e) ↔
      Undisturbed P env es := by
  induction es with
  | nil => simp [Undisturbed]
  | cons x xs ih =>
    obtain ⟨hx, hnodup⟩ := List.nodup_cons.mp hnodup
    have hcourse := course_processEntry hP topic env x
    have hother : ∀ e ∈ xs, e.id ≠ x.id := by
      intro e he heq
      exact hx (heq ▸ List.mem_map_of_mem he)
    have hown : ∀ e ∈ xs, ∀ c ∈ calls env.answer (processEntry P topic x),
        c.subject ≠ some e.id := by
      intro e he c hc hsubject
      have hsame := hsubject.symm.trans (hcourse.subject c hc)
      exact hother e he (Option.some.inj hsame)
    have hcontinues := hcourse.continues_iff
    rw [List.forall_mem_cons, undisturbed_cons, List.forM_cons, calls_bind]
    cases hresult : result env.answer (processEntry P topic x) with
    | none =>
      -- The pass ends here, so that nothing is done for the entries that are left.
      rw [hresult] at hcontinues
      rw [Option.elim_none, List.append_nil, hcourse.disposed_iff]
      apply and_congr_right
      intro hd
      cases xs with
      | nil => simp [Undisturbed]
      | cons y ys =>
        refine iff_of_false (fun hall => ?_) fun h => ?_
        · have hy : Disposed env [] y := by
            rw [← disposed_append_right (hown y List.mem_cons_self), List.append_nil]
            exact hall y List.mem_cons_self
          exact not_disposed_nil hy
        · have hpasses := h.1 (List.cons_ne_nil y ys)
          cases hcontinues.mpr ⟨hd.1, hpasses⟩
    | some =>
      rw [hresult] at hcontinues
      have hpasses := hcontinues.mp rfl
      have hrest : ∀ c ∈ calls env.answer (forM xs (processEntry P topic)),
          c.subject ≠ some x.id := by
        intro c hc hsubject
        obtain ⟨e, he, hsubject'⟩ := subject_forM hP topic env xs c hc
        exact hother e he (Option.some.inj (hsubject'.symm.trans hsubject))
      rw [Option.elim_some, disposed_append_left hrest, hcourse.disposed_iff, ← ih hnodup]
      apply and_congr_right
      intro _
      rw [and_iff_right fun _ => hpasses.2]
      exact forall₂_congr fun e he => disposed_append_right (hown e he)

/--
A pass disposes of every entry of its batch if and only if the envelopes of all can be read, none
before the last is stuck with its dead letter or has its acknowledgement throw, and that of the
last does not fail.
-/
theorem batch_disposed_iff (hP : P.Documented) (topic : Text) (env : Environment) (pass : Pass) :
    (∀ e ∈ env.batch pass, Disposed env (calls env.answer (pass.program P topic)) e) ↔
      Undisturbed P env (env.batch pass) := by
  cases pass with
  | reclaim =>
    cases hclaimed : env.claimed with
    | none => simp [Environment.batch, hclaimed, Undisturbed]
    | some b =>
      have hbatch : env.batch .reclaim = b.entries := by rw [Environment.batch, hclaimed]; rfl
      have hcalls : calls env.answer (reclaimStale P topic) =
          [.xautoclaim] ++ calls env.answer (forM b.entries (processEntry P topic)) := by
        have hanswer : env.answer .xautoclaim = some b := hclaimed
        rw [reclaimStale, xautoclaim]
        simp [hanswer]
      rw [hbatch, Pass.program, hcalls, ← forM_disposed_iff hP topic env b.nodup]
      exact forall₂_congr fun e _ => disposed_append_right (by simp [Call.subject])
  | read =>
    rcases hread : env.read with _ | _ | b
    · simp [Environment.batch, hread, Undisturbed]
    · simp [Environment.batch, hread, Undisturbed]
    · have hbatch : env.batch .read = b.entries := by rw [Environment.batch, hread]; rfl
      have hcalls : calls env.answer (readNew P topic) =
          [.xreadgroup] ++ calls env.answer (forM b.entries (processEntry P topic)) := by
        have hanswer : env.answer .xreadgroup = some (some b) := hread
        rw [readNew, xreadgroup]
        simp [hanswer]
      rw [hbatch, Pass.program, hcalls, ← forM_disposed_iff hP topic env b.nodup]
      exact forall₂_congr fun e _ => disposed_append_right (by simp [Call.subject])

theorem documented_platform : platform.Documented := ⟨fun _ => rfl, fun _ => rfl⟩

/-- An entry whose envelope is no JSON. -/
def unreadable : Entry where
  id := units "0-1"
  fields := [units "envelope", units "\x7bnot json"]

def foreign : Entry where
  id := units "0-2"
  fields := [units "key", units "value"]

/-- The turn reads these entries, and the handler never throws. -/
def reading (es : List Entry) (h : (es.map Entry.id).Nodup) : Environment where
  claimed := none
  read := some (some ⟨es, h⟩)
  now _ := newYear
  timestamp _ := units "2024-01-01T00:00:00.000Z"
  handler _ _ := none
  acknowledge _ := .ok
  forward _ := .ok

theorem batch_disposed_iff_read :
    Disposed (reading [foreign, dated] (by decide)) (calls (reading [foreign, dated]
        (by decide)).answer (Pass.program platform (units "audit") .read)) foreign ∧
      Disposed (reading [foreign, dated] (by decide)) (calls (reading [foreign, dated]
        (by decide)).answer (Pass.program platform (units "audit") .read)) dated := by
  have henvelope : (dated.envelope?.any fun envelope =>
      reaches platform newYear envelope) = true := by decide +kernel
  obtain ⟨envelope, hsome, hreaches⟩ := (Option.any_eq_true _ _).mp henvelope
  have hdated : dated.Legible platform :=
    fun _ => ⟨envelope, hsome, (reaches_iff documented_platform).mp hreaches⟩
  have hforeign : foreign.Legible platform := fun h => absurd h (by decide)
  have hundisturbed : Undisturbed platform (reading [foreign, dated] (by decide))
      [foreign, dated] := by
    constructor
    · rw [List.forall_mem_cons, List.forall_mem_singleton]
      exact ⟨⟨hforeign, .inr (by decide)⟩, hdated, .inr (by decide)⟩
    · change ∀ e ∈ [foreign], _
      rw [List.forall_mem_singleton]
      exact ⟨fun hstuck => absurd hstuck.1 (by decide), rfl⟩
  have hall := (batch_disposed_iff documented_platform (units "audit")
    (reading [foreign, dated] (by decide)) .read).mpr hundisturbed
  exact ⟨hall foreign List.mem_cons_self, hall dated (List.mem_cons_of_mem _ List.mem_cons_self)⟩

/-- An entry that cannot be read keeps the next one from being processed. -/
theorem unreadable_blocks : ¬ ∀ P topic env pass, Platform.Documented P →
    ∀ e ∈ Environment.batch env pass, Disposed env (calls env.answer (pass.program P topic)) e := by
  intro hall
  have hdated := hall platform (units "audit") (reading [unreadable, dated] (by decide)) .read
    documented_platform dated (List.mem_cons_of_mem _ List.mem_cons_self)
  have hcalls : calls (reading [unreadable, dated] (by decide)).answer
      (Pass.program platform (units "audit") .read) = [.xreadgroup] := rfl
  rw [hcalls] at hdated
  simp [Disposed, Acknowledged, Tried] at hdated

end AssureCode.Bus.Redis
