import AssureCode.Gateway.Attempts
import AssureCode.Gateway.Progress

/-! # One execution under a key

Concurrent requests with one key, in any number of processes: the first `INSERT` reserves the key
for one call, and the others answer with its response, from its promise or from the database. This
holds as long as no request gives up its wait for that response.
-/

namespace AssureCode.Gateway

open Js

variable {ε β : Type} {requests : CallId → Request} {handlerFailed r : Response β} {key : Text}
  {v : View ε β} {event : Event ε β} {effect : Effect ε β} {s t : State ε β} {c d w : CallId}
  {act : Action ε β} {acts : List (Action ε β)} {p : Process} {phase : Phase ε β}
  {result : Option (Response β)}

/-- No process dies; the queries of the calls under the key succeed, and their handlers return. -/
structure Orderly (requests : CallId → Request) (key : Text) (act : Action ε β) : Prop where
  alive : ∀ p, act ≠ .crash p
  available : ∀ c outcome, act = .call c (.execute outcome) → (requests c).key = key →
    outcome = .ok
  returns : ∀ c result, act = .call c (.finish result) → (requests c).key = key →
    ∃ r, result = .ok r

/-- And no wait of theirs for the stored response runs out. -/
structure Favourable (requests : CallId → Request) (key : Text) (s : State ε β)
    (act : Action ε β) : Prop extends Orderly requests key act where
  inTime : ∀ c deadline, act = .call c .resume → (requests c).key = key →
    s.phase c = .selected deadline (some none) → s.clock (requests c).process < deadline

/-- Nothing is known of the key, and none of its calls has begun. -/
structure Fresh (requests : CallId → Request) (key : Text) (s : State ε β) : Prop where
  row : s.rows key = none
  cache : ∀ p, (s.cache p).get key = none
  calls : ∀ c, (requests c).key = key → s.phase c = .idle ∧ s.promises c = none ∧ s.runs c = []

/-- How often the call has invoked its handler. -/
def State.invocations (s : State ε β) (c : CallId) : ℕ :=
  (s.runs c).length + match s.phase c with
    | .running _ => 1
    | _ => 0

/-! ## The invariant -/

/-- A promise of a call under the key, or of the result. -/
def Pledge.Serves (requests : CallId → Request) (key : Text) (result : Option (Response β)) :
    Pledge β → Prop
  | .call d => (requests d).key = key
  | .resolved r => result = some r

/-- Where a call may be that does not hold the reservation. -/
def Phase.Follows (requests : CallId → Request) (key : Text) (result : Option (Response β)) :
    Phase ε β → Prop
  | .idle | .inserting | .inserted (some false) | .selecting _ | .selected _ (some none)
  | .pausing _ _ => True
  | .awaiting _ promise => promise.Serves requests key result
  | .selected _ (some (some r)) | .answered r => result = some r
  | _ => False

/-- Where a call may be before the key is reserved. -/
def Phase.Early (requests : CallId → Request) (key : Text) : Phase ε β → Prop
  | .idle | .inserting => True
  | .awaiting _ promise => promise.Serves requests key none
  | _ => False

structure Unreserved (requests : CallId → Request) (key : Text) (s : State ε β) : Prop where
  row : s.rows key = none
  cache : ∀ p entry, (s.cache p).get key = some entry → entry.promise.Serves requests key none
  calls : ∀ c, (requests c).key = key →
    (s.phase c).Early requests key ∧ s.promises c = none ∧ s.runs c = []

/-- The call `w` holds the reservation; its promise has the result. -/
structure Held (requests : CallId → Request) (key : Text) (w : CallId) (s : State ε β) : Prop where
  owner : (requests w).key = key
  row : ∃ row, s.rows key = some row ∧ (row.response = none ∨ row.response = s.promises w)
  cache : ∀ p entry, (s.cache p).get key = some entry →
    entry.promise.Serves requests key (s.promises w)
  winner : (s.promises w = none ∧ s.runs w = [] ∧
      (s.phase w = .inserted (some true) ∨ s.phase w = .running .reserved)) ∨
    ∃ r, s.promises w = some r ∧ s.runs w = [(.reserved, .ok r)] ∧
      (s.phase w = .updating r ∨ s.phase w = .updated r ∨ s.phase w = .answered r)
  others : ∀ c, (requests c).key = key → c ≠ w →
    (s.phase c).Follows requests key (s.promises w) ∧
      (s.promises c = none ∨ s.promises c = s.promises w) ∧ s.runs c = []

theorem Pledge.Serves.mono {promise : Pledge β} (h : promise.Serves requests key none) :
    promise.Serves requests key result := by
  cases promise with
  | call d => exact h
  | resolved r => cases h

theorem Phase.Follows.mono (h : phase.Follows requests key none) :
    phase.Follows requests key result := by
  cases phase with
  | awaiting now promise => exact Pledge.Serves.mono h
  | inserted reply => rcases reply with _ | _ | _ <;> trivial
  | selected deadline reply => rcases reply with _ | _ | r <;> trivial
  | answered r => cases h
  | _ => trivial

theorem Phase.Early.follows (h : phase.Early requests key) : phase.Follows requests key none := by
  cases phase with
  | idle | inserting => trivial
  | awaiting now promise => exact h
  | _ => exact h.elim

/-! ## Reactions under the key -/

section Reactions

variable (hkey : key ≠ []) (hlength : key.length ≤ 255)
  (hok : ∀ outcome, event = .execute outcome → outcome = .ok)
  (hentry : ∀ entry, v.entry = some entry → entry.promise.Serves requests key result)

include hkey hlength hok hentry

/-- Before the key is reserved, a call stays early or makes the reservation. -/
theorem early_reacts (h : Reacts handlerFailed key v event effect)
    (hv : v.phase.Early requests key) (hawaited : v.awaited = none) (hrow : v.row = none)
    (hresult : result = none) (hc : (requests c).key = key) :
    (effect.phase.Early requests key ∧ effect.settle = none ∧ effect.run = none ∧
      effect.row = none ∧ ∀ promise, effect.cache.Writes c promise →
        promise.Serves requests key none) ∨
    ∃ expiresAt,
      effect = { phase := .inserted (some true), row := some (some ⟨none, expiresAt⟩) } := by
  subst hresult
  cases h with
  | run _ hempty => exact absurd hempty hkey
  | await _ _ hsome => exact .inl ⟨hentry _ hsome, rfl, rfl, rfl, fun _ h => h.elim⟩
  | claim _ _ =>
    refine .inl ⟨trivial, rfl, rfl, rfl, fun promise h => ?_⟩
    obtain rfl : promise = .call c := h
    exact hc
  | timeout _ _ _ =>
    refine .inl ⟨trivial, rfl, rfl, rfl, fun promise h => ?_⟩
    obtain rfl : promise = .call c := h
    exact hc
  | replay _ hsome => rw [hawaited] at hsome; cases hsome
  | insert outcome _ =>
    obtain rfl := hok outcome rfl
    refine .inr ⟨v.dbNow + keyTtl, ?_⟩
    rw [insertKey, if_neg (by simp; omega), hrow]
    rfl
  | reserve hphase | conflict hphase | unavailable hphase | finish _ hphase | update _ hphase
  | persisted hphase | delete _ hphase | rethrow hphase | select _ hphase | found hphase
  | exhausted hphase | pause hphase | unread hphase | wake hphase =>
    rw [hphase] at hv
    exact hv.elim

/-- While another call holds the reservation, a call keeps following it. -/
theorem follows_reacts {row : IdempotencyRow β} (h : Reacts handlerFailed key v event effect)
    (hv : v.phase.Follows requests key result)
    (hawaited : ∀ r, v.awaited = some r → result = some r) (hrow : v.row = some row)
    (hresponse : row.response = none ∨ row.response = result)
    (hin : ∀ deadline, event = .resume → v.phase = .selected deadline (some none) →
      v.now < deadline) (hc : (requests c).key = key) :
    effect.phase.Follows requests key result ∧
      (effect.settle = none ∨ effect.settle = result) ∧ effect.run = none ∧ effect.row = none ∧
      ∀ promise, effect.cache.Writes c promise → promise.Serves requests key result := by
  cases h with
  | run _ hempty => exact absurd hempty hkey
  | await _ _ hsome => exact ⟨hentry _ hsome, .inl rfl, rfl, rfl, fun _ h => h.elim⟩
  | claim _ _ =>
    refine ⟨trivial, .inl rfl, rfl, rfl, fun promise h => ?_⟩
    obtain rfl : promise = .call c := h
    exact hc
  | timeout _ _ _ =>
    refine ⟨trivial, .inl rfl, rfl, rfl, fun promise h => ?_⟩
    obtain rfl : promise = .call c := h
    exact hc
  | replay _ hsome => exact ⟨hawaited _ hsome, .inl rfl, rfl, rfl, fun _ h => h.elim⟩
  | insert outcome _ =>
    obtain rfl := hok outcome rfl
    have heffect : insertKey key v .ok = { phase := .inserted (some false) } := by
      rw [insertKey, if_neg (by simp; omega), hrow]
      rfl
    rw [heffect]
    exact ⟨trivial, .inl rfl, rfl, rfl, fun _ h => h.elim⟩
  | conflict _ | wake _ _ | pause _ _ =>
    exact ⟨trivial, .inl rfl, rfl, rfl, fun _ h => h.elim⟩
  | @select deadline outcome _ =>
    obtain rfl := hok outcome rfl
    refine ⟨?_, .inl rfl, rfl, rfl, fun _ h => h.elim⟩
    rw [if_pos rfl]
    cases hstored : stored v with
    | none => trivial
    | some r =>
      obtain ⟨row', hrow', hr⟩ := Option.bind_eq_some_iff.mp hstored
      have heq : row = row' := by
        rw [hrow] at hrow'
        exact Option.some.inj (Option.filter_eq_some_iff.mp hrow').1
      subst heq
      rw [hr] at hresponse
      exact hresponse.elim (fun h => by cases h) Eq.symm
  | found hphase =>
    rw [hphase] at hv
    refine ⟨hv, .inr hv.symm, rfl, rfl, fun promise h => ?_⟩
    obtain rfl : promise = .resolved _ := h
    exact hv
  | exhausted hphase hdue => exact absurd hdue (not_le.mpr (hin _ rfl hphase))
  | reserve hphase | unavailable hphase | finish _ hphase | update _ hphase | persisted hphase
  | delete _ hphase | rethrow hphase | unread hphase =>
    rw [hphase] at hv
    exact hv.elim

end Reactions

/-- What the call that holds the reservation does, step by step. -/
theorem winner_reacts (h : Reacts handlerFailed key v event effect)
    (hok : ∀ outcome, event = .execute outcome → outcome = .ok)
    (hreturns : ∀ result, event = .finish result → ∃ r, result = .ok r)
    (hv : v.phase = .inserted (some true) ∨ v.phase = .running .reserved ∨
      ∃ r, v.phase = .updating r ∨ v.phase = .updated r ∨ v.phase = .answered r) :
    (v.phase = .inserted (some true) ∧ effect = { phase := .running .reserved }) ∨
    (v.phase = .running .reserved ∧ ∃ r, effect =
      { phase := .updating r, settle := some r, run := some (.reserved, .ok r) }) ∨
    (∃ r, v.phase = .updating r ∧ effect =
      { phase := .updated r, row := some (v.row.map ({ · with response := some r })) }) ∨
    ∃ r, v.phase = .updated r ∧ effect = { phase := .answered r } := by
  cases h with
  | reserve hphase => exact .inl ⟨hphase, rfl⟩
  | finish result hphase =>
    obtain ⟨r, rfl⟩ := hreturns result rfl
    rw [hphase] at hv
    simp only [reduceCtorEq, Phase.running.injEq, or_self, exists_false, or_false, false_or] at hv
    subst hv
    exact .inr (.inl ⟨hphase, r, rfl⟩)
  | @update r outcome hphase =>
    obtain rfl := hok outcome rfl
    exact .inr (.inr (.inl ⟨r, hphase, by rw [if_neg (by simp)]⟩))
  | @persisted r hphase => exact .inr (.inr (.inr ⟨r, hphase, rfl⟩))
  | run hphase | await hphase | claim hphase | replay hphase | timeout hphase | insert _ hphase
  | conflict hphase | unavailable hphase | delete _ hphase | rethrow hphase | select _ hphase
  | found hphase | exhausted hphase | pause hphase | unread hphase | wake hphase =>
    rw [hphase] at hv
    simp at hv

/-! ## Steps -/

/-- A call under another key. -/
theorem held_foreign (hs : Held requests key w s) (hc : (requests c).key ≠ key) :
    Held requests key w (s.apply requests c effect) := by
  have hne : ∀ d, (requests d).key = key → d ≠ c := fun d hd h => hc (h ▸ hd)
  have hw := hne w hs.owner
  refine ⟨hs.owner, ?_, fun p entry hentry => ?_, ?_, fun d hd hdw => ?_⟩
  · rw [apply_rows_ne hc.symm, apply_promises_ne hw]
    exact hs.row
  · rw [apply_promises_ne hw]
    exact hs.cache p entry ((get_apply hentry).resolve_right fun h => hc h.1)
  · rw [apply_promises_ne hw, apply_runs_ne hw, apply_phase_ne hw]
    exact hs.winner
  · rw [apply_promises_ne hw, apply_runs_ne (hne d hd), apply_phase_ne (hne d hd),
      apply_promises_ne (hne d hd)]
    exact hs.others d hd hdw

/-- The call that holds the reservation: what it adds to its promise and its runs. -/
theorem held_winner (hs : Held requests key w s) (hcache : effect.cache = .keep)
    (hsettle : effect.settle = none ∨ s.promises w = none)
    (hrow : ∃ row, effect.row.getD (s.rows key) = some row ∧
      (row.response = none ∨ row.response = (s.promises w).or effect.settle))
    (hwinner : ((s.promises w).or effect.settle = none ∧ s.runs w ++ effect.run.toList = [] ∧
        (effect.phase = .inserted (some true) ∨ effect.phase = .running .reserved)) ∨
      ∃ r, (s.promises w).or effect.settle = some r ∧
        s.runs w ++ effect.run.toList = [(.reserved, .ok r)] ∧
        (effect.phase = .updating r ∨ effect.phase = .updated r ∨ effect.phase = .answered r)) :
    Held requests key w (s.apply requests w effect) := by
  have hgrow : ∀ {promise : Pledge β}, promise.Serves requests key (s.promises w) →
      promise.Serves requests key ((s.promises w).or effect.settle) := by
    intro promise h
    rcases hsettle with hnone | hnone
    · rwa [hnone, Option.or_none]
    · rw [hnone] at h
      exact h.mono
  refine ⟨hs.owner, ?_, fun p entry hentry => ?_, ?_, fun d hd hdw => ?_⟩
  · have hrows : (s.apply requests w effect).rows (requests w).key = _ := apply_rows_self
    rw [hs.owner] at hrows
    rw [hrows, apply_promises_self]
    exact hrow
  · rw [apply_promises_self]
    rcases get_apply hentry with h | ⟨-, h⟩
    · exact hgrow (hs.cache p entry h)
    · rw [hcache] at h
      exact h.elim
  · rw [apply_promises_self, apply_runs_self, apply_phase_self]
    exact hwinner
  · obtain ⟨hphase, hpromise, hruns⟩ := hs.others d hd hdw
    rw [apply_promises_self, apply_runs_ne hdw, apply_phase_ne hdw, apply_promises_ne hdw]
    rcases hsettle with hnone | hnone
    · rw [hnone, Option.or_none]
      exact ⟨hphase, hpromise, hruns⟩
    · rw [hnone] at hphase hpromise
      exact ⟨hphase.mono, .inl (hpromise.elim id id), hruns⟩

/-- Another call under the key. -/
theorem held_follower (hs : Held requests key w s) (hc : (requests c).key = key) (hcw : c ≠ w)
    (hphase : effect.phase.Follows requests key (s.promises w))
    (hsettle : effect.settle = none ∨ effect.settle = s.promises w) (hrun : effect.run = none)
    (hrow : effect.row = none) (hcache : ∀ promise, effect.cache.Writes c promise →
      promise.Serves requests key (s.promises w)) :
    Held requests key w (s.apply requests c effect) := by
  have hwc := hcw.symm
  refine ⟨hs.owner, ?_, fun p entry hentry => ?_, ?_, fun d hd hdw => ?_⟩
  · rw [apply_rows hrow, apply_promises_ne hwc]
    exact hs.row
  · rw [apply_promises_ne hwc]
    rcases get_apply hentry with h | ⟨-, h⟩
    · exact hs.cache p entry h
    · exact hcache _ h
  · rw [apply_promises_ne hwc, apply_runs_ne hwc, apply_phase_ne hwc]
    exact hs.winner
  · rw [apply_promises_ne hwc]
    by_cases hdc : d = c
    · subst hdc
      obtain ⟨-, hpromise, hruns⟩ := hs.others d hd hdw
      rw [apply_phase_self, apply_promises_self, apply_runs_self, hrun, hruns]
      refine ⟨hphase, ?_, rfl⟩
      rcases hpromise with hnone | hsome
      · rwa [hnone, Option.none_or]
      · rw [hsome]
        cases hw : s.promises w with
        | none => rw [hw] at hsettle; exact .inl (hsettle.elim id id)
        | some r => exact .inr rfl
    · rw [apply_phase_ne hdc, apply_promises_ne hdc, apply_runs_ne hdc]
      exact hs.others d hd hdw

theorem Held.settled (hs : Held requests key w s) {promise : Pledge β}
    (h : promise.Serves requests key (s.promises w)) (hr : s.settled promise = some r) :
    s.promises w = some r := by
  cases promise with
  | call d =>
    by_cases hdw : d = w
    · exact hdw ▸ hr
    · rcases (hs.others d h hdw).2.1 with hnone | hsome
      · exact absurd (hnone.symm.trans hr) (by simp)
      · exact hsome.symm.trans hr
  | resolved r' => exact (show s.promises w = some r' from h).trans hr

theorem Held.running (hs : Held requests key w s)
    (h : s.phase w = .inserted (some true) ∨ s.phase w = .running .reserved) :
    s.promises w = none ∧ s.runs w = [] := by
  rcases hs.winner with ⟨hpromise, hruns, -⟩ | ⟨r, -, -, hdone⟩
  · exact ⟨hpromise, hruns⟩
  · rcases h with h | h <;> simp [h] at hdone

theorem Held.done (hs : Held requests key w s)
    (h : s.phase w = .updating r ∨ s.phase w = .updated r) :
    s.promises w = some r ∧ s.runs w = [(.reserved, .ok r)] := by
  rcases hs.winner with ⟨-, -, hrunning⟩ | ⟨r', hpromise, hruns, hdone⟩
  · rcases h with h | h <;> simp [h] at hrunning
  · have hr : r = r' := by rcases h with h | h <;> simpa [h] using hdone
    exact hr ▸ ⟨hpromise, hruns⟩

theorem held_winner_step (hs : Held requests key w s)
    (he : Reacts handlerFailed (requests w).key (s.view requests w) event effect)
    (hok : ∀ outcome, event = .execute outcome → outcome = .ok)
    (hreturns : ∀ result, event = .finish result → ∃ r, result = .ok r) :
    Held requests key w (s.apply requests w effect) := by
  obtain ⟨row, hrow, hresponse⟩ := hs.row
  have hv : s.phase w = .inserted (some true) ∨ s.phase w = .running .reserved ∨
      ∃ r, s.phase w = .updating r ∨ s.phase w = .updated r ∨ s.phase w = .answered r := by
    rcases hs.winner with ⟨-, -, h | h⟩ | ⟨r, -, -, h⟩
    · exact .inl h
    · exact .inr (.inl h)
    · exact .inr (.inr ⟨r, h⟩)
  rcases winner_reacts he hok hreturns hv with
    ⟨hphase, rfl⟩ | ⟨hphase, r, rfl⟩ | ⟨r, hphase, rfl⟩ | ⟨r, hphase, rfl⟩
  · obtain ⟨hpromise, hruns⟩ := hs.running (.inl hphase)
    exact held_winner hs rfl (.inl rfl) ⟨row, hrow, by rwa [Option.or_none]⟩
      (.inl ⟨by rw [hpromise]; rfl, by rw [hruns]; rfl, .inr rfl⟩)
  · obtain ⟨hpromise, hruns⟩ := hs.running (.inr hphase)
    have hnone : row.response = none := by
      rw [hpromise] at hresponse
      exact hresponse.elim id id
    exact held_winner hs rfl (.inr hpromise) ⟨row, hrow, .inl hnone⟩
      (.inr ⟨r, by rw [hpromise]; rfl, by rw [hruns]; rfl, .inl rfl⟩)
  · obtain ⟨hpromise, hruns⟩ := hs.done (.inl hphase)
    have hview : (s.view requests w).row = some row := by rw [State.view, hs.owner, hrow]
    refine held_winner hs rfl (.inl rfl) ⟨{ row with response := some r }, ?_, .inr ?_⟩
      (.inr ⟨r, ?_, by rw [hruns]; rfl, .inr (.inl rfl)⟩)
    · rw [hview]
      rfl
    · rw [Option.or_none, hpromise]
    · rw [Option.or_none, hpromise]
  · obtain ⟨hpromise, hruns⟩ := hs.done (.inr hphase)
    exact held_winner hs rfl (.inl rfl) ⟨row, hrow, by rwa [Option.or_none]⟩
      (.inr ⟨r, by rw [Option.or_none, hpromise], by rw [hruns]; rfl, .inr (.inr rfl)⟩)

theorem held_step (hkey : key ≠ []) (hlength : key.length ≤ 255) (hs : Held requests key w s)
    (hk : Favourable requests key s act) (h : step requests handlerFailed s act = some t) :
    Held requests key w t := by
  cases act with
  | call c event =>
    obtain ⟨effect, he, rfl⟩ := of_step_call h
    by_cases hc : (requests c).key = key
    swap
    · exact held_foreign hs hc
    have hok : ∀ outcome, event = .execute outcome → outcome = .ok := fun outcome hevent =>
      hk.available c outcome (by rw [hevent]) hc
    by_cases hcw : c = w
    · subst hcw
      exact held_winner_step hs he hok fun result hevent =>
        hk.returns c result (by rw [hevent]) hc
    · obtain ⟨row, hrow, hresponse⟩ := hs.row
      obtain ⟨hphase, hpromise, hruns⟩ := hs.others c hc hcw
      rw [hc] at he
      have hawaited : ∀ r, (s.view requests c).awaited = some r → s.promises w = some r := by
        intro r hr
        dsimp only [State.view] at hr
        split at hr
        · next now promise hawaiting =>
          rw [hawaiting] at hphase
          exact hs.settled hphase hr
        · cases hr
      obtain ⟨hfollows, hsettle, hrun, hrow', hcache⟩ := follows_reacts hkey hlength hok
        (fun entry hentry => hs.cache _ entry (by rw [← hc]; exact hentry)) he hphase hawaited
        (by rw [State.view, hc]; exact hrow) hresponse
        (fun deadline hevent hselected => hk.inTime c deadline (by rw [hevent]) hc hselected) hc
      exact held_follower hs hc hcw hfollows hsettle hrun hrow' hcache
  | tick p n => cases h; exact ⟨hs.owner, hs.row, hs.cache, hs.winner, hs.others⟩
  | tickDb n => cases h; exact ⟨hs.owner, hs.row, hs.cache, hs.winner, hs.others⟩
  | crash p => exact absurd rfl (hk.alive p)

/-! ## Before the reservation -/

theorem unreserved_foreign (hs : Unreserved requests key s) (hc : (requests c).key ≠ key) :
    Unreserved requests key (s.apply requests c effect) := by
  have hne : ∀ d, (requests d).key = key → d ≠ c := fun d hd h => hc (h ▸ hd)
  constructor
  case row =>
    rw [apply_rows_ne hc.symm]
    exact hs.row
  case cache =>
    intro p entry hentry
    exact hs.cache p entry ((get_apply hentry).resolve_right fun h => hc h.1)
  case calls =>
    intro d hd
    rw [apply_phase_ne (hne d hd), apply_promises_ne (hne d hd), apply_runs_ne (hne d hd)]
    exact hs.calls d hd

/-- A call under the key that does not make the reservation. -/
theorem unreserved_early (hs : Unreserved requests key s) (hc : (requests c).key = key)
    (hearly : effect.phase.Early requests key) (hsettle : effect.settle = none)
    (hrun : effect.run = none) (hrow : effect.row = none)
    (hcache : ∀ promise, effect.cache.Writes c promise → promise.Serves requests key none) :
    Unreserved requests key (s.apply requests c effect) := by
  constructor
  case row =>
    rw [apply_rows hrow]
    exact hs.row
  case cache =>
    intro p entry hentry
    rcases get_apply hentry with h | ⟨-, h⟩
    · exact hs.cache p entry h
    · exact hcache _ h
  case calls =>
    intro d hd
    by_cases hdc : d = c
    · subst hdc
      obtain ⟨-, hpromise, hruns⟩ := hs.calls d hc
      rw [apply_phase_self, apply_promises_self, apply_runs_self, hsettle, hrun, hpromise, hruns]
      exact ⟨hearly, rfl, rfl⟩
    · rw [apply_phase_ne hdc, apply_promises_ne hdc, apply_runs_ne hdc]
      exact hs.calls d hd

/-- The `INSERT` that makes the reservation. -/
theorem held_reserve (hs : Unreserved requests key s) (hc : (requests c).key = key)
    (expiresAt : ℕ) : Held requests key c (s.apply requests c
      { phase := .inserted (some true), row := some (some ⟨none, expiresAt⟩) }) := by
  obtain ⟨-, hpromise, hruns⟩ := hs.calls c hc
  constructor
  case owner => exact hc
  case row =>
    refine ⟨⟨none, expiresAt⟩, ?_, .inl rfl⟩
    rw [← hc, apply_rows_self]
    rfl
  case cache =>
    intro p entry hentry
    exact ((get_apply hentry).elim (hs.cache p entry) fun h => h.2.elim).mono
  case winner =>
    rw [apply_promises_self, apply_runs_self, hpromise, hruns]
    exact .inl ⟨rfl, rfl, .inl apply_phase_self⟩
  case others =>
    intro d hd hdc
    obtain ⟨hphase, hpromise', hruns'⟩ := hs.calls d hd
    rw [apply_phase_ne hdc, apply_promises_ne hdc, apply_runs_ne hdc]
    exact ⟨hphase.follows.mono, .inl hpromise', hruns'⟩

theorem Unreserved.awaited (hs : Unreserved requests key s) (hc : (requests c).key = key) :
    (s.view requests c).awaited = none := by
  obtain ⟨hphase, -, -⟩ := hs.calls c hc
  dsimp only [State.view]
  split
  · next now promise hawaiting =>
    rw [hawaiting] at hphase
    cases promise with
    | call d => exact (hs.calls d hphase).2.1
    | resolved r => cases hphase
  · rfl

/-- The first step that is not taken before the reservation is the reservation. -/
theorem unreserved_step (hkey : key ≠ []) (hlength : key.length ≤ 255)
    (hs : Unreserved requests key s) (hk : Favourable requests key s act)
    (h : step requests handlerFailed s act = some t) :
    Unreserved requests key t ∨ ∃ w, Held requests key w t := by
  cases act with
  | call c event =>
    obtain ⟨effect, he, rfl⟩ := of_step_call h
    by_cases hc : (requests c).key = key
    · have hok : ∀ outcome, event = .execute outcome → outcome = .ok := fun outcome hevent =>
        hk.available c outcome (by rw [hevent]) hc
      have hentry : ∀ entry, (s.view requests c).entry = some entry →
          entry.promise.Serves requests key none :=
        fun entry hentry => hs.cache _ entry (by rw [← hc]; exact hentry)
      have hrow : (s.view requests c).row = none := by rw [State.view, hc]; exact hs.row
      rw [hc] at he
      rcases early_reacts hkey hlength hok hentry he (hs.calls c hc).1 (hs.awaited hc) hrow rfl hc
        with ⟨hearly, hsettle, hrun, hrow, hcache⟩ | ⟨expiresAt, rfl⟩
      · exact .inl (unreserved_early hs hc hearly hsettle hrun hrow hcache)
      · exact .inr ⟨c, held_reserve hs hc expiresAt⟩
    · exact .inl (unreserved_foreign hs hc)
  | tick p n => cases h; exact .inl ⟨hs.row, hs.cache, hs.calls⟩
  | tickDb n => cases h; exact .inl ⟨hs.row, hs.cache, hs.calls⟩
  | crash p => exact absurd rfl (hk.alive p)

theorem unreserved_of_fresh (hs : Fresh requests key s) : Unreserved requests key s := by
  refine ⟨hs.row, fun p entry hentry => ?_, fun c hc => ?_⟩
  · rw [hs.cache p] at hentry
    cases hentry
  · obtain ⟨hphase, hpromise, hruns⟩ := hs.calls c hc
    rw [hphase]
    exact ⟨trivial, hpromise, hruns⟩

/-! ## Exactly one execution -/

theorem Phase.Follows.invocations (h : (s.phase c).Follows requests key result)
    (hruns : s.runs c = []) : s.invocations c = 0 := by
  rw [State.invocations, hruns]
  cases hphase : s.phase c with
  | running attempt =>
    rw [hphase] at h
    exact h.elim
  | _ => rfl

theorem Held.invocations_winner (hs : Held requests key w s) : s.invocations w ≤ 1 := by
  rw [State.invocations]
  rcases hs.winner with ⟨-, hruns, -⟩ | ⟨r, -, hruns, hphase | hphase | hphase⟩
  · rw [hruns]
    cases s.phase w <;> simp
  all_goals simp [hruns, hphase]

/-- A call that has ended was answered with the response of the one execution. -/
theorem Held.answered (hs : Held requests key w s) (hc : (requests c).key = key)
    (hended : (s.phase c).Ended) :
    ∃ r, s.runs w = [(.reserved, .ok r)] ∧ s.phase c = .answered r := by
  by_cases hcw : c = w
  · subst hcw
    rcases hs.winner with ⟨-, -, hphase | hphase⟩ | ⟨r, -, hruns, hphase | hphase | hphase⟩
    case inr.inr.inr => exact ⟨r, hruns, hphase⟩
    all_goals
      rw [hphase] at hended
      exact hended.elim
  · have hfollows := (hs.others c hc hcw).1
    cases hphase : s.phase c with
    | answered r =>
      rw [hphase] at hfollows
      have hpromise : s.promises w = some r := hfollows
      rcases hs.winner with ⟨hnone, -⟩ | ⟨r', hsome, hruns, -⟩
      · cases hnone.symm.trans hpromise
      · cases hsome.symm.trans hpromise
        exact ⟨r, hruns, rfl⟩
    | rejected e | crashed =>
      rw [hphase] at hfollows
      exact hfollows.elim
    | _ =>
      rw [hphase] at hended
      exact hended.elim

/--
However the requests with a key interleave, and however long the handler runs: as long as no
request gives up its wait, at most one of them has invoked its handler, once, and each that has
ended was answered with the response of that execution. A request that has not ended can go on,
and takes a bounded number of steps in all.
-/
theorem executed_once (hkey : key ≠ []) (hlength : key.length ≤ 255)
    (hs : Fresh requests key s)
    (h : (gateway requests handlerFailed).Run (Favourable requests key) s acts t) :
    (∀ c, (requests c).key = key → t.invocations c ≤ 1) ∧
    (∀ c d, (requests c).key = key → (requests d).key = key →
      t.invocations c ≠ 0 → t.invocations d ≠ 0 → c = d) ∧
    (∀ c, (requests c).key = key → (t.phase c).Ended → ∃ w r, (requests w).key = key ∧
      t.runs w = [(.reserved, .ok r)] ∧ t.phase c = .answered r) ∧
    ∀ c, (requests c).key = key → ¬ (t.phase c).Ended →
      t.Proceeds requests handlerFailed c ∧ acts.countP (·.isOf c) ≤ 15008 := by
  have hinv : Unreserved requests key t ∨ ∃ w, Held requests key w t := by
    refine h.invariant (I := fun s => Unreserved requests key s ∨ ∃ w, Held requests key w s)
      (fun s a t hs hk hst => ?_) (.inl (unreserved_of_fresh hs))
    rcases hs with hs | ⟨w, hs⟩
    · exact unreserved_step hkey hlength hs hk hst
    · exact .inr ⟨w, held_step hkey hlength hs hk hst⟩
  have hproceeds : ∀ c, (requests c).key = key → ¬ (t.phase c).Ended →
      t.Proceeds requests handlerFailed c ∧ acts.countP (·.isOf c) ≤ 15008 := by
    intro c hc hended
    have hrank := rank_run (c := c) h
    rw [(hs.calls c hc).1, Phase.rank] at hrank
    exact ⟨proceeds requests handlerFailed hended, by omega⟩
  rcases hinv with hnone | ⟨w, hheld⟩
  · have hzero : ∀ c, (requests c).key = key → t.invocations c = 0 := fun c hc =>
      (hnone.calls c hc).1.follows.invocations (hnone.calls c hc).2.2
    refine ⟨fun c hc => by rw [hzero c hc]; exact Nat.zero_le _,
      fun c d hc _ h => absurd (hzero c hc) h, fun c hc hended => ?_, hproceeds⟩
    have hearly := (hnone.calls c hc).1
    cases hphase : t.phase c <;> rw [hphase] at hearly hended <;>
      first | exact hearly.elim | exact hended.elim
  · have hzero : ∀ c, (requests c).key = key → c ≠ w → t.invocations c = 0 := fun c hc hcw =>
      (hheld.others c hc hcw).1.invocations (hheld.others c hc hcw).2.2
    refine ⟨fun c hc => ?_, fun c d hc hd hne hne' => ?_, fun c hc hended => ?_, hproceeds⟩
    · by_cases hcw : c = w
      · exact hcw ▸ hheld.invocations_winner
      · rw [hzero c hc hcw]
        exact Nat.zero_le _
    · have hcw : c = w := not_not.mp fun hcw => hne (hzero c hc hcw)
      have hdw : d = w := not_not.mp fun hdw => hne' (hzero d hd hdw)
      rw [hcw, hdw]
    · obtain ⟨r, hruns, hphase⟩ := hheld.answered hc hended
      exact ⟨w, r, hheld.owner, hruns, hphase⟩

theorem favourable_call
    (hok : ∀ outcome, event = .execute outcome → outcome = .ok)
    (hreturns : ∀ result, event = .finish result → ∃ r, result = .ok r)
    (hin : event = .resume → ∀ deadline, s.phase c = .selected deadline (some none) →
      s.clock (requests c).process < deadline) :
    Favourable requests key s (.call c event) where
  alive := by simp
  available := fun d outcome hact _ => hok outcome (Action.call.inj hact).2
  returns := fun d result hact _ => hreturns result (Action.call.inj hact).2
  inTime := by
    intro d deadline hact _ hphase
    obtain ⟨rfl, hevent⟩ := Action.call.inj hact
    exact hin hevent deadline hphase

theorem favourable_tick {n : ℕ} : Favourable requests key s (.tick p n) where
  alive := by simp
  available := by simp
  returns := by simp
  inTime := by simp

theorem fresh_atZero : Fresh ownProcess (units "k-1") atZero :=
  ⟨rfl, fun _ => rfl, fun _ _ => ⟨rfl, rfl, rfl⟩⟩

/-- The second request finds no response at first, and the one that is stored after a pause. -/
def polled : List (Action Text Text) :=
  [.call 0 .arrive, .call 0 (.execute .ok), .call 0 .resume,
    .call 1 .arrive, .call 1 (.execute .ok), .call 1 .resume, .call 1 (.execute .ok),
    .call 1 .resume, .call 0 (.finish (.ok created)), .call 0 (.execute .ok), .call 0 .resume,
    .tick 1 100, .call 1 .resume, .call 1 (.execute .ok), .call 1 .resume]

def polledEnd : State Text Text :=
  ((gateway ownProcess handlerFailed500).exec atZero polled).get rfl

theorem run_polled : (gateway ownProcess handlerFailed500).Run
    (Favourable ownProcess (units "k-1")) atZero polled polledEnd := by
  refine .cons (favourable_call (by simp) (by simp) (by simp)) rfl ?_
  refine .cons (favourable_call (by simp) (by simp) (by simp)) rfl ?_
  refine .cons (favourable_call (by simp) (by simp) fun _ _ h => nomatch h) rfl ?_
  refine .cons (favourable_call (by simp) (by simp) (by simp)) rfl ?_
  refine .cons (favourable_call (by simp) (by simp) (by simp)) rfl ?_
  refine .cons (favourable_call (by simp) (by simp) fun _ _ h => nomatch h) rfl ?_
  refine .cons (favourable_call (by simp) (by simp) (by simp)) rfl ?_
  refine .cons (favourable_call (by simp) (by simp) fun _ deadline h => ?_) rfl ?_
  · cases h
    decide
  refine .cons (favourable_call (by simp) (by simp) (by simp)) rfl ?_
  refine .cons (favourable_call (by simp) (by simp) (by simp)) rfl ?_
  refine .cons (favourable_call (by simp) (by simp) fun _ _ h => nomatch h) rfl ?_
  refine .cons favourable_tick rfl ?_
  refine .cons (favourable_call (by simp) (by simp) fun _ _ h => nomatch h) rfl ?_
  refine .cons (favourable_call (by simp) (by simp) (by simp)) rfl ?_
  refine .cons (favourable_call (by simp) (by simp) fun _ _ h => nomatch h) rfl ?_
  exact .nil _

theorem executed_once_polled : polledEnd.phase 1 = .answered created ∧
    ∃ w r, (ownProcess w).key = units "k-1" ∧ polledEnd.runs w = [(.reserved, .ok r)] ∧
      polledEnd.phase 1 = .answered r :=
  ⟨rfl, (executed_once (by decide) (by decide) fresh_atZero run_polled).2.2.1
    1 rfl trivial⟩

/-- The handler of the first request takes longer than the second request waits. -/
def slow : List (Action Text Text) :=
  [.call 0 .arrive, .call 0 (.execute .ok), .call 0 .resume,
    .call 1 .arrive, .call 1 (.execute .ok), .call 1 .resume, .tick 1 5000,
    .call 1 (.execute .ok), .call 1 .resume, .call 1 (.finish (.ok accepted)),
    .call 0 (.finish (.ok created)), .call 0 (.execute .ok), .call 0 .resume]

/-- Both run the handler, and each is answered with a response of its own. -/
theorem slow_executed_twice : Fresh ownProcess (units "k-1") atZero ∧
    ∃ t, (gateway ownProcess handlerFailed500).Run (fun _ => Orderly ownProcess (units "k-1"))
      atZero slow t ∧
      t.dbClock < keyTtl ∧ t.runs 0 = [(.reserved, .ok created)] ∧
      t.runs 1 = [(.lastResort, .ok accepted)] ∧ t.phase 0 = .answered created ∧
      t.phase 1 = .answered accepted := by
  obtain ⟨t, ht⟩ : ∃ t, (gateway ownProcess handlerFailed500).exec atZero slow = some t := ⟨_, rfl⟩
  have hend : ((gateway ownProcess handlerFailed500).exec atZero slow).map
      (fun t => (t.dbClock, t.runs 0, t.runs 1, t.phase 0, t.phase 1)) =
      some (0, [(.reserved, .ok created)], [(.lastResort, .ok accepted)], .answered created,
        .answered accepted) := rfl
  rw [ht, Option.map_some, Option.some.injEq] at hend
  simp only [Prod.mk.injEq] at hend
  obtain ⟨hclock, hends⟩ := hend
  refine ⟨fresh_atZero, t, Machine.run_of_exec_forall ht fun act hact s => ⟨?_, ?_, ?_⟩,
    by rw [hclock]; decide, hends⟩
  · intro p hp
    simp [slow, hp] at hact
  · rintro c outcome rfl -
    simp [slow] at hact
    tauto
  · rintro c result rfl -
    simp [slow] at hact
    rcases hact with ⟨-, rfl⟩ | ⟨-, rfl⟩
    · exact ⟨_, rfl⟩
    · exact ⟨_, rfl⟩

end AssureCode.Gateway
