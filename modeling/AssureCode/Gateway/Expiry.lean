import AssureCode.Gateway.Attempts

/-! # Keys that have expired

The reserving `INSERT` conflicts with a row whether or not it has expired, and the `SELECT` only
finds rows that have not. Nothing removes an expired row but the release of the call that
reserved it, so its key is not used again.
-/

namespace AssureCode.Gateway

open Js

variable {ε β : Type} {requests : CallId → Request} {handlerFailed r : Response β} {key : Text}
  {v : View ε β} {event : Event ε β} {effect : Effect ε β} {s s₀ t : State ε β} {c d : CallId}
  {act : Action ε β} {acts hist : List (Action ε β)} {row : IdempotencyRow β} {p : Process}

/-- The call has, or had, the reservation of its key. -/
def State.Reserved (s : State ε β) (c : CallId) : Prop :=
  s.phase c = .inserted (some true) ∨ s.phase c = .running .reserved ∨
    ∃ result, (.reserved, result) ∈ s.runs c

/-- A row of the key is stored, and has expired. -/
def State.Expired (s : State ε β) (key : Text) : Prop :=
  ∃ row, s.rows key = some row ∧ row.expiresAt ≤ s.dbClock

/-- No call releases the row of the key. -/
def KeepsRow (requests : CallId → Request) (key : Text) (s : State ε β) (act : Action ε β) : Prop :=
  ∀ c outcome e, act = .call c (.execute outcome) → (requests c).key = key →
    s.phase c ≠ .deleting e

/-! ## What a reaction does to the row -/

/-- Except by a release, a row that is there stays, with its expiry. -/
theorem row_reacts (h : Reacts handlerFailed key v event effect) (hrow : v.row = some row)
    (hkeep : ∀ outcome e, event = .execute outcome → v.phase ≠ .deleting e) :
    ∃ row', effect.row.getD v.row = some row' ∧ row'.expiresAt = row.expiresAt := by
  cases h with
  | insert outcome hphase =>
    unfold insertKey
    split
    · exact ⟨row, hrow, rfl⟩
    · rw [hrow, if_neg (by simp)]
      exact ⟨row, rfl, rfl⟩
  | @update r outcome hphase =>
    rw [hrow]
    by_cases hf : outcome = .failed
    · exact ⟨row, by simp [hf], rfl⟩
    · exact ⟨{ row with response := some r }, by simp [hf], rfl⟩
  | delete outcome hphase => exact absurd hphase (hkeep outcome _ rfl)
  | finish result hphase => exact ⟨row, by rw [finish_row]; exact hrow, rfl⟩
  | _ => exact ⟨row, hrow, rfl⟩

/-- A call whose key has a row does not come to the reservation. -/
theorem reserved_reacts (h : Reacts handlerFailed key v event effect) (hrow : v.row = some row)
    (h₁ : v.phase ≠ .inserted (some true)) (h₂ : v.phase ≠ .running .reserved) :
    effect.phase ≠ .inserted (some true) ∧ effect.phase ≠ .running .reserved ∧
      ∀ result, effect.run ≠ some (.reserved, result) := by
  cases h with
  | insert outcome hphase =>
    unfold insertKey
    split
    · simp
    · rw [hrow, if_neg (by simp)]
      cases outcome <;> simp [QueryOutcome.report]
  | reserve hphase => exact absurd hphase h₁
  | @finish attempt result hphase =>
    cases attempt with
    | reserved => exact absurd hphase h₂
    | _ => cases result <;> simp [finish]
  | _ => simp [claim]

/-! ## Steps and runs -/

theorem expired_step (hs : s.Expired key) (hk : KeepsRow requests key s act)
    (h : step requests handlerFailed s act = some t) : t.Expired key := by
  obtain ⟨row, hrow, hexpired⟩ := hs
  cases act with
  | call c event =>
    obtain ⟨effect, he, rfl⟩ := of_step_call h
    by_cases hkey : key = (requests c).key
    · subst hkey
      obtain ⟨row', hrow', hexpiry⟩ := row_reacts he hrow fun outcome e hevent =>
        hk c outcome e (by rw [hevent]) rfl
      exact ⟨row', by rw [apply_rows_self]; exact hrow', by rwa [hexpiry]⟩
    · exact ⟨row, by rwa [apply_rows_ne hkey], hexpired⟩
  | tick p n => cases h; exact ⟨row, hrow, hexpired⟩
  | tickDb n => cases h; exact ⟨row, hrow, hexpired.trans (Nat.le_add_right _ _)⟩
  | crash p => cases h; exact ⟨row, hrow, hexpired⟩

theorem reserved_step (hs : s.Expired (requests c).key) (hc : ¬ s.Reserved c)
    (h : step requests handlerFailed s act = some t) : ¬ t.Reserved c := by
  obtain ⟨row, hrow, -⟩ := hs
  obtain ⟨h₁, h₂, h₃⟩ : s.phase c ≠ .inserted (some true) ∧ s.phase c ≠ .running .reserved ∧
      ¬ ∃ result, (.reserved, result) ∈ s.runs c := by
    simpa only [State.Reserved, not_or] using hc
  cases act with
  | call d event =>
    obtain ⟨effect, he, rfl⟩ := of_step_call h
    by_cases hd : c = d
    · subst hd
      obtain ⟨h₁', h₂', h₃'⟩ := reserved_reacts he hrow h₁ h₂
      rw [State.Reserved, apply_phase_self, apply_runs_self]
      rintro (h | h | ⟨result, h⟩)
      · exact h₁' h
      · exact h₂' h
      · rcases List.mem_append.mp h with h | h
        · exact h₃ ⟨result, h⟩
        · exact h₃' result (Option.mem_toList.mp h)
    · rwa [State.Reserved, apply_phase_ne hd, apply_runs_ne hd]
  | tick p n => cases h; exact hc
  | tickDb n => cases h; exact hc
  | crash p =>
    cases h
    rintro (h | h | h)
    · dsimp only at h
      split at h
      · cases h
      · split at h
        · cases h
        · exact h₁ h
    · dsimp only at h
      split at h
      · cases h
      · split at h
        · cases h
        · exact h₂ h
    · exact h₃ h

/-- While the row is kept, the call does not reserve its key, and nothing is found under it. -/
theorem expired_run (h : (gateway requests handlerFailed).Run (KeepsRow requests (requests c).key)
    s acts t) (hs : s.Expired (requests c).key) (hc : ¬ s.Reserved c) :
    ¬ t.Reserved c ∧
      ∀ d, (requests d).key = (requests c).key → stored (t.view requests d) = none := by
  obtain ⟨hexpired, hreserved⟩ := h.invariant
    (I := fun s => s.Expired (requests c).key ∧ ¬ s.Reserved c)
    (fun s a t hs hk hst => ⟨expired_step hs.1 hk hst, reserved_step hs.1 hs.2 hst⟩) ⟨hs, hc⟩
  refine ⟨hreserved, fun d hd => ?_⟩
  obtain ⟨row, hrow, hexpiry⟩ := hexpired
  have hview : (t.view requests d).row = some row := by rw [State.view, hd, hrow]
  rw [stored, hview, Option.filter_some, if_neg]
  · rfl
  · exact Bool.eq_false_iff.mp (decide_eq_false (not_lt.mpr hexpiry))

/-! ## A request for itself -/

/-- The column takes no longer key. -/
def FitsColumn (s : State ε β) : Prop := ∀ key row, s.rows key = some row → key.length ≤ 255

/-- A row that a reaction leaves under its key was there before, or the column took the key. -/
theorem length_reacts (h : Reacts handlerFailed key v event effect)
    (hv : ∀ row, v.row = some row → key.length ≤ 255)
    (hrow : effect.row.getD v.row = some row) : key.length ≤ 255 := by
  cases h with
  | insert outcome _ =>
    unfold insertKey at hrow
    split at hrow
    · exact hv row hrow
    · next hlong => exact not_lt.mp fun hlt => hlong (.inr hlt)
  | update outcome _ =>
    rw [Option.getD_some] at hrow
    split at hrow
    · exact hv row hrow
    · obtain ⟨row', hrow', -⟩ := Option.map_eq_some_iff.mp hrow
      exact hv row' hrow'
  | delete outcome _ =>
    rw [Option.getD_some] at hrow
    split at hrow
    · exact hv row hrow
    · exact hv row (Option.filter_eq_some_iff.mp hrow).1
  | finish result _ =>
    rw [finish_row] at hrow
    exact hv row hrow
  | _ => exact hv row hrow

theorem fitsColumn_step (hs : FitsColumn s) (h : step requests handlerFailed s act = some t) :
    FitsColumn t := by
  cases act with
  | call c event =>
    obtain ⟨effect, he, rfl⟩ := of_step_call h
    intro key row hrow
    by_cases hkey : key = (requests c).key
    · subst hkey
      rw [apply_rows_self] at hrow
      exact length_reacts he (fun row hrow => hs _ row hrow) hrow
    · rw [apply_rows_ne hkey] at hrow
      exact hs key row hrow
  | tick p n => cases h; exact hs
  | tickDb n => cases h; exact hs
  | crash p => cases h; exact hs

/-- The call has taken a step that does not write the row. -/
structure Continues (requests : CallId → Request) (handlerFailed : Response β) (s : State ε β)
    (c : CallId) (event : Event ε β) (effect : Effect ε β) (t : State ε β) : Prop where
  step : (gateway requests handlerFailed).step s (.call c event) = some t
  keeps : KeepsRow requests (requests c).key s (.call c event)
  phase : t.phase c = effect.phase
  rows : t.rows = s.rows
  runs : t.runs c = s.runs c ++ effect.run.toList
  clock : t.clock = s.clock
  dbClock : t.dbClock = s.dbClock

theorem exists_continues
    (h : react handlerFailed (requests c).key (s.view requests c) event = some effect)
    (hrow : effect.row = none) (hkeep : ∀ e, s.phase c ≠ .deleting e) :
    ∃ t, Continues requests handlerFailed s c event effect t := by
  refine ⟨s.apply requests c effect, ?_, ?_, apply_phase_self, apply_rows hrow, apply_runs_self,
    rfl, rfl⟩
  · change Option.map _ _ = _
    rw [h, Option.map_some]
  · intro d outcome e hact _
    obtain ⟨rfl, -⟩ := Action.call.inj hact
    exact hkeep e

/-- The call runs while nothing else does, with the database available, and its handler returns. -/
def alone (requests : CallId → Request) (c : CallId) (r : Response β) : List (Action ε β) :=
  [.call c .arrive, .call c (.execute .ok), .call c .resume, .call c (.execute .ok),
    .tick (requests c).process 5000, .call c .resume, .call c (.finish (.ok r))]

/-- A first request under an expired key runs its handler as a last resort. -/
theorem run_alone (hs : s.Expired (requests c).key) (hfits : FitsColumn s)
    (hkey : (requests c).key ≠ []) (hphase : s.phase c = .idle) (hruns : s.runs c = [])
    (hcache : (s.cache (requests c).process).get (requests c).key = none) (r : Response β) :
    ∃ t, (gateway requests handlerFailed).Run (KeepsRow requests (requests c).key) s
      (alone requests c r) t ∧ t.phase c = .answered r ∧ t.runs c = [(.lastResort, .ok r)] := by
  obtain ⟨row, hrow, hexpired⟩ := hs
  obtain ⟨s₁, k₁⟩ : ∃ t, Continues requests handlerFailed s c .arrive
      (claim (s.clock (requests c).process)) t :=
    exists_continues (by simp [react, State.view, hphase, hkey, hcache]) rfl (by simp [hphase])
  -- The `INSERT` conflicts with the expired row,
  have hrow₁ : s₁.rows (requests c).key = some row := by rw [k₁.rows, hrow]
  obtain ⟨s₂, k₂⟩ : ∃ t, Continues requests handlerFailed s₁ c (.execute .ok)
      { phase := .inserted (some false) } t :=
    exists_continues (by simp [react, State.view, k₁.phase, claim, insertKey, hrow₁,
      QueryOutcome.report, hfits _ _ hrow]) rfl (by simp [k₁.phase, claim])
  obtain ⟨s₃, k₃⟩ : ∃ t, Continues requests handlerFailed s₂ c .resume
      { phase := .selecting (s₂.clock (requests c).process + 5000) } t :=
    exists_continues (by simp [react, State.view, k₂.phase]) rfl (by simp [k₂.phase])
  -- and the `SELECT` does not find it.
  have hrow₃ : s₃.rows (requests c).key = some row := by rw [k₃.rows, k₂.rows, hrow₁]
  have hold : ¬ s₃.dbClock < row.expiresAt := by
    rw [k₃.dbClock, k₂.dbClock, k₁.dbClock]
    exact not_lt.mpr hexpired
  obtain ⟨s₄, k₄⟩ : ∃ t, Continues requests handlerFailed s₃ c (.execute .ok)
      { phase := .selected (s₂.clock (requests c).process + 5000) (some none) } t :=
    exists_continues (by simp [react, State.view, k₃.phase, stored, hrow₃, Option.filter_some,
      hold]) rfl (by simp [k₃.phase])
  -- Five seconds later the poll gives up.
  let later := Function.update s₄.clock (requests c).process
    (s₄.clock (requests c).process + 5000)
  let s₅ : State ε β := { s₄ with clock := later }
  obtain ⟨s₆, k₆⟩ : ∃ t, Continues requests handlerFailed s₅ c .resume
      { phase := .running .lastResort } t :=
    exists_continues (by simp [react, State.view, s₅, later, k₄.phase, k₄.clock, k₃.clock]) rfl
      (by simp [s₅, k₄.phase])
  obtain ⟨t, k₇⟩ : ∃ t, Continues requests handlerFailed s₆ c (.finish (.ok r))
      (finish handlerFailed .lastResort (.ok r)) t :=
    exists_continues (by simp [react, State.view, k₆.phase]) rfl (by simp [k₆.phase])
  have hnone : s₅.runs c = [] := by
    change s₄.runs c = []
    simp [k₄.runs, k₃.runs, k₂.runs, k₁.runs, hruns, claim]
  refine ⟨t, ?_, k₇.phase, ?_⟩
  · have htick : KeepsRow requests (requests c).key s₄ (.tick (requests c).process 5000) := by
      intro d outcome e hact
      cases hact
    exact .cons k₁.keeps k₁.step (.cons k₂.keeps k₂.step (.cons k₃.keeps k₃.step
      (.cons k₄.keeps k₄.step (.cons htick rfl (.cons k₆.keeps k₆.step
        (.cons k₇.keeps k₇.step (.nil t)))))))
  · rw [k₇.runs, k₆.runs, hnone]
    rfl

/--
Whatever the history, a request under a key whose row has expired does not reserve the key as
long as the row is there, and nothing stored is found under the key; for itself, with every query
answered, it runs its handler as a last resort.
-/
theorem expired_never_afresh (h : (gateway requests handlerFailed).Run Machine.Any s₀ hist s)
    (h₀ : (gateway requests handlerFailed).init s₀) (hs : s.Expired (requests c).key)
    (hkey : (requests c).key ≠ []) (hphase : s.phase c = .idle)
    (hcache : (s.cache (requests c).process).get (requests c).key = none) :
    (∀ acts t, (gateway requests handlerFailed).Run (KeepsRow requests (requests c).key) s acts t →
      ¬ t.Reserved c ∧
        ∀ d, (requests d).key = (requests c).key → stored (t.view requests d) = none) ∧
    ∀ r : Response β, ∃ t, (gateway requests handlerFailed).Run
      (KeepsRow requests (requests c).key) s (alone requests c r) t ∧
        t.phase c = .answered r ∧ t.runs c = [(.lastResort, .ok r)] := by
  have hruns : s.runs c = [] := by
    have hbehind := behind_run h h₀ c
    rwa [hphase] at hbehind
  have hfits : FitsColumn s := by
    apply h.invariant (fun s a t hs _ hst => fitsColumn_step hs hst)
    obtain ⟨clock, dbClock, rfl⟩ := h₀
    intro key row hrow
    cases hrow
  have hc : ¬ s.Reserved c := by
    rw [State.Reserved, hphase, hruns]
    simp
  exact ⟨fun acts t hrun => expired_run hrun hs hc,
    run_alone hs hfits hkey hphase hruns hcache⟩

/-- A call stores its response; a day later its process is started again. -/
def storedAndExpired : List (Action Text Text) :=
  [.call 0 .arrive, .call 0 (.execute .ok), .call 0 .resume, .call 0 (.finish (.ok created)),
    .call 0 (.execute .ok), .call 0 .resume, .tickDb keyTtl, .crash 0]

def dayLater : State Text Text :=
  ((gateway ownProcess handlerFailed500).exec atZero storedAndExpired).get rfl

theorem run_dayLater :
    (gateway ownProcess handlerFailed500).Run Machine.Any atZero storedAndExpired dayLater :=
  Machine.run_of_exec (Option.some_get _).symm

theorem expired_dayLater : dayLater.Expired (units "k-1") :=
  ⟨⟨some created, keyTtl⟩, rfl, le_refl _⟩

theorem cache_dayLater (p : Process) : (dayLater.cache p).get (units "k-1") = none := by
  by_cases hp : p = 0
  · subst hp
    rfl
  · have hrun := Machine.run_of_exec_forall
      (K := fun _ act => ∀ c event, act = .call c event → c = 0)
      (Option.some_get (rfl : ((gateway ownProcess handlerFailed500).exec atZero
        storedAndExpired).isSome = true)).symm (by simp [storedAndExpired])
    have hempty : dayLater.cache p = .empty := by
      refine hrun.invariant (I := fun s => s.cache p = .empty) (fun s a t hs hk hst => ?_) rfl
      cases a with
      | call c event =>
        obtain rfl := hk c event rfl
        obtain ⟨effect, -, rfl⟩ := of_step_call hst
        rwa [apply_cache_ne hp]
      | tick q n => cases hst; exact hs
      | tickDb n => cases hst; exact hs
      | crash q =>
        cases hst
        by_cases hq : p = q
        · subst hq
          exact Function.update_self ..
        · exact (Function.update_of_ne hq ..).trans hs
    rw [hempty, Map.get_empty]

/-- Two requests a day later run the handler each, and the row is as it was. -/
theorem expired_runs_again :
    (gateway ownProcess handlerFailed500).Run Machine.Any atZero storedAndExpired dayLater ∧
    dayLater.Expired (units "k-1") ∧ (∀ p, (dayLater.cache p).get (units "k-1") = none) ∧
    dayLater.phase 1 = .idle ∧ ∃ t, (gateway ownProcess handlerFailed500).Run Machine.Any dayLater
      (alone ownProcess 1 created ++ alone ownProcess 2 created) t ∧ ¬ t.Reserved 1 ∧
      t.runs 1 = [(.lastResort, .ok created)] ∧ t.runs 2 = [(.lastResort, .ok created)] ∧
      t.rows (units "k-1") = dayLater.rows (units "k-1") := by
  obtain ⟨t, ht⟩ : ∃ t, (gateway ownProcess handlerFailed500).exec dayLater
      (alone ownProcess 1 created ++ alone ownProcess 2 created) = some t := ⟨_, rfl⟩
  have hend : ((gateway ownProcess handlerFailed500).exec dayLater
      (alone ownProcess 1 created ++ alone ownProcess 2 created)).map
      (fun t => (t.phase 1, t.runs 1, t.runs 2, t.rows (units "k-1"))) =
      some (.answered created, [(.lastResort, .ok created)], [(.lastResort, .ok created)],
        dayLater.rows (units "k-1")) := rfl
  rw [ht, Option.map_some, Option.some.injEq, Prod.mk.injEq, Prod.mk.injEq, Prod.mk.injEq] at hend
  obtain ⟨hphase, hruns, hruns', hrow⟩ := hend
  refine ⟨run_dayLater, expired_dayLater, cache_dayLater, rfl, t, Machine.run_of_exec ht, ?_, hruns,
    hruns', hrow⟩
  rw [State.Reserved, hphase, hruns]
  simp

theorem expired_never_afresh_dayLater : ∃ t, (gateway ownProcess handlerFailed500).Run
    (KeepsRow ownProcess (units "k-1")) dayLater (alone ownProcess 1 created) t ∧
      t.phase 1 = .answered created ∧ t.runs 1 = [(.lastResort, .ok created)] :=
  (expired_never_afresh (c := 1) run_dayLater ⟨_, _, rfl⟩ expired_dayLater (by decide) rfl
    (cache_dayLater 1)).2 created

end AssureCode.Gateway
