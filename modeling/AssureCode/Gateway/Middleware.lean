import AssureCode.Gateway.Idempotency
import AssureCode.Js.Map
import AssureCode.Transition.Run

/-! # Calls of `withIdempotency`

Each call runs from one `await` to the next: it waits for a promise, for a query, for a timer or
for its handler, and what it does in between is one reaction to what it then sees. Queries take
effect in the database before the call goes on, so that other calls come between the two. The
clocks of the processes and of the database are independent.
-/

namespace AssureCode.Gateway

open Js

abbrev CallId := ℕ

def maxCacheEntries : ℕ := 10000

/-- 25 hours, in milliseconds. -/
def cacheTtl : ℕ := 25 * 60 * 60 * 1000

/-- `INTERVAL '24 hours'` -/
def keyTtl : ℕ := 24 * 60 * 60 * 1000

/-- A header as the framework hands it over. -/
inductive Header
  | undefined
  | text (value : Text)
  | texts (values : List Text)
  deriving DecidableEq

/-- What is known of a request; the middleware looks at its headers and at nothing else. -/
structure Request where
  process : Process
  idempotencyKey : Header := .undefined
  xIdempotencyKey : Header := .undefined
  caller : Text := []
  route : Text := []
  contractId : Text := []

/-- The key, empty when there is none. -/
def Request.key (request : Request) : Text :=
  let raw := match request.idempotencyKey with
    | .undefined => request.xIdempotencyKey
    | .text [] => request.xIdempotencyKey
    | header => header
  match raw with
  | .text value => trim value
  | _ => []

/-- A reservation has the status 0, so no response may have it; the body is a JSON value. -/
structure Response (β : Type) where
  statusCode : ℕ
  body : β
  positive : 0 < statusCode
  deriving DecidableEq

/-- A promise of a response: that of a call, or one that is resolved from the start. -/
inductive Pledge (β : Type)
  | call (c : CallId)
  | resolved (response : Response β)
  deriving DecidableEq

structure CacheEntry (β : Type) where
  promise : Pledge β
  expiry : ℕ

abbrev Cache (β : Type) := Map (CacheEntry β)

/-- A row of `idempotency_keys`; `none` for the status 0 of a reservation. -/
structure IdempotencyRow (β : Type) where
  response : Option (Response β) := none
  expiresAt : ℕ

/-- Why a call runs its handler. -/
inductive Attempt
  | unkeyed
  | reserved
  /-- The reservation could not be made. -/
  | unavailable
  | lastResort
  deriving DecidableEq

/-- What a call waits for; `inserted` and the like are queries whose answer is on its way. -/
inductive Phase (ε β : Type)
  | idle
  /-- `Promise.race`, with the time at which the request came. -/
  | awaiting (now : ℕ) (promise : Pledge β)
  | inserting
  /-- `rowCount === 1`, or a failure. -/
  | inserted (reply : Option Bool)
  | running (attempt : Attempt)
  | updating (response : Response β)
  | updated (response : Response β)
  | deleting (error : ε)
  | deleted (error : ε)
  | selecting (deadline : ℕ)
  /-- The row found, if any, or a failure. -/
  | selected (deadline : ℕ) (reply : Option (Option (Response β)))
  | pausing (deadline wake : ℕ)
  | answered (response : Response β)
  | rejected (error : ε)
  | crashed
  deriving DecidableEq

/-- What becomes of a query. -/
inductive QueryOutcome
  | ok
  /-- It did not take effect. -/
  | failed
  /-- It took effect, and the answer did not arrive. -/
  | lost
  deriving DecidableEq

/-- What a call goes on with. -/
inductive Event (ε β : Type)
  | arrive
  /-- Its query takes effect in the database. -/
  | execute (outcome : QueryOutcome)
  /-- What it waits for is there. -/
  | resume
  /-- The timer of `Promise.race` comes first. -/
  | timeout
  | finish (result : Except ε (Response β))

/-- What a call sees. -/
structure View (ε β : Type) where
  phase : Phase ε β
  /-- `Date.now()` -/
  now : ℕ
  /-- `inMemoryCache.get(key)` -/
  entry : Option (CacheEntry β)
  /-- The promise it waits for, if that is settled. -/
  awaited : Option (Response β)
  /-- `NOW()` -/
  dbNow : ℕ
  row : Option (IdempotencyRow β)

inductive CacheWrite (β : Type)
  | keep
  /-- The promise of the call itself goes in, and stale entries go out. -/
  | claim (expiry : ℕ)
  | store (response : Response β) (expiry : ℕ)
  | delete

/-- What a call does; `settle` resolves its own promise. -/
structure Effect (ε β : Type) where
  phase : Phase ε β
  settle : Option (Response β) := none
  cache : CacheWrite β := .keep
  /-- The row of its key from then on. -/
  row : Option (Option (IdempotencyRow β)) := none
  /-- The end of a run of the handler. -/
  run : Option (Attempt × Except ε (Response β)) := none

variable {ε β : Type}

/-- An answer that arrives. -/
def QueryOutcome.report {α : Type} (outcome : QueryOutcome) (reply : α) : Option α :=
  if outcome = .ok then some reply else none

/-- Claim the key in memory and ask for the reservation. -/
def claim (now : ℕ) : Effect ε β := { phase := .inserting, cache := .claim (now + cacheTtl) }

/-- `INSERT … ON CONFLICT (key) DO NOTHING`; the column takes 255 characters. -/
def insertKey (key : Text) (v : View ε β) (outcome : QueryOutcome) : Effect ε β :=
  if outcome = .failed ∨ 255 < key.length then { phase := .inserted none }
  else if v.row.isNone then
    { phase := .inserted (outcome.report true), row := some (some ⟨none, v.dbNow + keyTtl⟩) }
  else { phase := .inserted (outcome.report false) }

/-- The response that `SELECT … AND expires_at > NOW() AND status_code > 0` finds. -/
def stored (v : View ε β) : Option (Response β) :=
  (v.row.filter (v.dbNow < ·.expiresAt)).bind (·.response)

/-- The end of the handler, with the body `{ error: 'Handler failed' }` for the promise. -/
def finish (handlerFailed : Response β) (attempt : Attempt) (result : Except ε (Response β)) :
    Effect ε β :=
  match attempt, result with
  | .unkeyed, .ok r => { phase := .answered r, run := some (attempt, result) }
  | .unkeyed, .error e => { phase := .rejected e, run := some (attempt, result) }
  | .reserved, .ok r => { phase := .updating r, settle := some r, run := some (attempt, result) }
  | .reserved, .error e =>
    { phase := .deleting e, settle := some handlerFailed, cache := .delete,
      run := some (attempt, result) }
  | _, .ok r => { phase := .answered r, settle := some r, run := some (attempt, result) }
  | _, .error e =>
    { phase := .rejected e, settle := some handlerFailed, cache := .delete,
      run := some (attempt, result) }

@[simp] theorem finish_row (handlerFailed : Response β) (attempt : Attempt)
    (result : Except ε (Response β)) : (finish handlerFailed attempt result).row = none := by
  cases attempt <;> cases result <;> rfl

@[simp] theorem finish_run (handlerFailed : Response β) (attempt : Attempt)
    (result : Except ε (Response β)) :
    (finish handlerFailed attempt result).run = some (attempt, result) := by
  cases attempt <;> cases result <;> rfl

/-- What a call under a key (empty for none) does next. -/
def react (handlerFailed : Response β) (key : Text) (v : View ε β) :
    Event ε β → Option (Effect ε β)
  | .arrive =>
    match v.phase with
    | .idle =>
      if key = [] then some { phase := .running .unkeyed }
      else match v.entry.filter (v.now < ·.expiry) with
        | some entry => some { phase := .awaiting v.now entry.promise }
        | none => some (claim v.now)
    | _ => none
  | .timeout =>
    match v.phase with
    | .awaiting now _ =>
      if v.awaited.isNone ∧ now + 5000 ≤ v.now then some (claim now) else none
    | _ => none
  | .execute outcome =>
    match v.phase with
    | .inserting => some (insertKey key v outcome)
    | .updating r =>
      let row := if outcome = .failed then v.row else v.row.map ({ · with response := some r })
      some { phase := .updated r, row := some row }
    | .deleting e =>
      let row := if outcome = .failed then v.row else v.row.filter (·.response.isSome)
      some { phase := .deleted e, row := some row }
    | .selecting deadline =>
      some { phase := .selected deadline (if outcome = .ok then some (stored v) else none) }
    | _ => none
  | .finish result =>
    match v.phase with
    | .running attempt => some (finish handlerFailed attempt result)
    | _ => none
  | .resume =>
    match v.phase with
    | .awaiting _ _ => v.awaited.map fun r => { phase := .answered r }
    | .inserted (some true) => some { phase := .running .reserved }
    | .inserted (some false) => some { phase := .selecting (v.now + 5000) }
    | .inserted none => some { phase := .running .unavailable }
    | .updated r => some { phase := .answered r }
    -- The error of the handler is thrown inside the outer `try`.
    | .deleted _ => some { phase := .running .unavailable }
    | .selected _ (some (some r)) => some
        { phase := .answered r, settle := some r, cache := .store r (v.now + cacheTtl) }
    | .selected deadline (some none) =>
      if deadline ≤ v.now then some { phase := .running .lastResort }
      else some { phase := .pausing deadline (v.now + 100) }
    | .selected _ none => some { phase := .running .lastResort }
    | .pausing deadline wake =>
      if wake ≤ v.now then some { phase := .selecting deadline } else none
    | _ => none

/-- Remove expired entries, then enforce the maximum size. -/
def evictStale (now : ℕ) (cache : Cache β) : Cache β :=
  let cache := cache.filter fun _ entry => now ≤ entry.expiry
  cache.drop (cache.size - maxCacheEntries)

def CacheWrite.apply (write : CacheWrite β) (c : CallId) (key : Text) (now : ℕ)
    (cache : Cache β) : Cache β :=
  match write with
  | .keep => cache
  | .claim expiry => evictStale now (cache.set key ⟨.call c, expiry⟩)
  | .store r expiry => cache.set key ⟨.resolved r, expiry⟩
  | .delete => cache.delete key

/-- The gateway: what its processes and the database hold, and how far each call is. -/
structure State (ε β : Type) where
  clock : Process → ℕ
  dbClock : ℕ
  cache : Process → Cache β := fun _ => .empty
  rows : Text → Option (IdempotencyRow β) := fun _ => none
  phase : CallId → Phase ε β := fun _ => .idle
  /-- The promise of each call, if it is settled. -/
  promises : CallId → Option (Response β) := fun _ => none
  /-- The runs of the handler of each call that have ended. -/
  runs : CallId → List (Attempt × Except ε (Response β)) := fun _ => []

inductive Action (ε β : Type)
  | call (c : CallId) (event : Event ε β)
  | tick (p : Process) (n : ℕ)
  | tickDb (n : ℕ)
  /-- A process dies with its cache and its calls. -/
  | crash (p : Process)

/-- The value of a promise that is settled. -/
def State.settled (s : State ε β) : Pledge β → Option (Response β)
  | .call c => s.promises c
  | .resolved r => some r

def Phase.Ended : Phase ε β → Prop
  | .answered _ | .rejected _ | .crashed => True
  | _ => False

instance (phase : Phase ε β) : Decidable phase.Ended := by
  cases phase <;> unfold Phase.Ended <;> infer_instance

section Step

variable (requests : CallId → Request) (handlerFailed : Response β)

def State.view (s : State ε β) (c : CallId) : View ε β where
  phase := s.phase c
  now := s.clock (requests c).process
  entry := (s.cache (requests c).process).get (requests c).key
  awaited := match s.phase c with
    | .awaiting _ promise => s.settled promise
    | _ => none
  dbNow := s.dbClock
  row := s.rows (requests c).key

def State.apply (s : State ε β) (c : CallId) (e : Effect ε β) : State ε β :=
  let p := (requests c).process
  let key := (requests c).key
  { s with
    phase := Function.update s.phase c e.phase
    promises := Function.update s.promises c ((s.promises c).or e.settle)
    cache := Function.update s.cache p (e.cache.apply c key (s.clock p) (s.cache p))
    rows := Function.update s.rows key (e.row.getD (s.rows key))
    runs := Function.update s.runs c (s.runs c ++ e.run.toList) }

def step (s : State ε β) : Action ε β → Option (State ε β)
  | .call c event =>
    (react handlerFailed (requests c).key (s.view requests c) event).map (s.apply requests c)
  | .tick p n => some { s with clock := Function.update s.clock p (s.clock p + n) }
  | .tickDb n => some { s with dbClock := s.dbClock + n }
  | .crash p => some { s with
      cache := Function.update s.cache p .empty
      phase := fun c => match s.phase c with
        | .idle => .idle
        | phase => if (requests c).process = p ∧ ¬ phase.Ended then .crashed else phase }

/-- The gateway after a start with an empty table. -/
def gateway : Machine (State ε β) (Action ε β) where
  init s := ∃ clock dbClock, s = { clock, dbClock }
  step := step requests handlerFailed

/-! ## What a step does -/

/-- The reactions of a call, one by one. -/
inductive Reacts (key : Text) (v : View ε β) : Event ε β → Effect ε β → Prop
  | run : v.phase = .idle → key = [] → Reacts key v .arrive { phase := .running .unkeyed }
  | await {entry : CacheEntry β} : v.phase = .idle → key ≠ [] → v.entry = some entry →
      Reacts key v .arrive { phase := .awaiting v.now entry.promise }
  | claim : v.phase = .idle → key ≠ [] → Reacts key v .arrive (claim v.now)
  | replay {now : ℕ} {promise : Pledge β} {r : Response β} : v.phase = .awaiting now promise →
      v.awaited = some r → Reacts key v .resume { phase := .answered r }
  | timeout {now : ℕ} {promise : Pledge β} : v.phase = .awaiting now promise →
      v.awaited = none → now + 5000 ≤ v.now → Reacts key v .timeout (Gateway.claim now)
  | insert (outcome : QueryOutcome) : v.phase = .inserting →
      Reacts key v (.execute outcome) (insertKey key v outcome)
  | reserve : v.phase = .inserted (some true) →
      Reacts key v .resume { phase := .running .reserved }
  | conflict : v.phase = .inserted (some false) →
      Reacts key v .resume { phase := .selecting (v.now + 5000) }
  | unavailable : v.phase = .inserted none →
      Reacts key v .resume { phase := .running .unavailable }
  | finish {attempt : Attempt} (result : Except ε (Response β)) : v.phase = .running attempt →
      Reacts key v (.finish result) (finish handlerFailed attempt result)
  | update {r : Response β} (outcome : QueryOutcome) : v.phase = .updating r →
      Reacts key v (.execute outcome) { phase := .updated r, row := some <|
        if outcome = .failed then v.row else v.row.map ({ · with response := some r }) }
  | persisted {r : Response β} : v.phase = .updated r →
      Reacts key v .resume { phase := .answered r }
  | delete {e : ε} (outcome : QueryOutcome) : v.phase = .deleting e →
      Reacts key v (.execute outcome) { phase := .deleted e, row := some <|
        if outcome = .failed then v.row else v.row.filter (·.response.isSome) }
  | rethrow {e : ε} : v.phase = .deleted e →
      Reacts key v .resume { phase := .running .unavailable }
  | select {deadline : ℕ} (outcome : QueryOutcome) : v.phase = .selecting deadline →
      Reacts key v (.execute outcome)
        { phase := .selected deadline (if outcome = .ok then some (stored v) else none) }
  | found {deadline : ℕ} {r : Response β} : v.phase = .selected deadline (some (some r)) →
      Reacts key v .resume
        { phase := .answered r, settle := some r, cache := .store r (v.now + cacheTtl) }
  | exhausted {deadline : ℕ} : v.phase = .selected deadline (some none) → deadline ≤ v.now →
      Reacts key v .resume { phase := .running .lastResort }
  | pause {deadline : ℕ} : v.phase = .selected deadline (some none) → v.now < deadline →
      Reacts key v .resume { phase := .pausing deadline (v.now + 100) }
  | unread {deadline : ℕ} : v.phase = .selected deadline none →
      Reacts key v .resume { phase := .running .lastResort }
  | wake {deadline wake : ℕ} : v.phase = .pausing deadline wake → wake ≤ v.now →
      Reacts key v .resume { phase := .selecting deadline }

variable {requests handlerFailed}

theorem reacts_of_react {key : Text} {v : View ε β} {event : Event ε β} {e : Effect ε β}
    (h : react handlerFailed key v event = some e) : Reacts handlerFailed key v event e := by
  unfold react at h
  split at h
  · split at h
    · next hphase =>
      split at h
      · next hkey =>
        cases h
        exact .run hphase hkey
      · next hkey =>
        split at h
        · next entry hentry =>
          cases h
          exact .await hphase hkey (Option.filter_eq_some_iff.mp hentry).1
        · cases h
          exact .claim hphase hkey
    · cases h
  · split at h
    · next hphase =>
      split at h
      · next hdue =>
        cases h
        exact .timeout hphase (by simpa using hdue.1) hdue.2
      · cases h
    · cases h
  · next outcome =>
    split at h
    · next hphase => cases h; exact .insert outcome hphase
    · next hphase => cases h; exact .update outcome hphase
    · next hphase => cases h; exact .delete outcome hphase
    · next hphase => cases h; exact .select outcome hphase
    · cases h
  · next result =>
    split at h
    · next hphase => cases h; exact .finish result hphase
    · cases h
  · split at h
    · next hphase =>
      obtain ⟨r, hr, rfl⟩ := Option.map_eq_some_iff.mp h
      exact .replay hphase hr
    · next hphase => cases h; exact .reserve hphase
    · next hphase => cases h; exact .conflict hphase
    · next hphase => cases h; exact .unavailable hphase
    · next hphase => cases h; exact .persisted hphase
    · next hphase => cases h; exact .rethrow hphase
    · next hphase => cases h; exact .found hphase
    · next hphase =>
      split at h
      · next hdue => cases h; exact .exhausted hphase hdue
      · next hdue => cases h; exact .pause hphase (not_le.mp hdue)
    · next hphase => cases h; exact .unread hphase
    · next hphase =>
      split at h
      · next hdue => cases h; exact .wake hphase hdue
      · cases h
    · cases h

/-- A step of a call is one of its reactions. -/
theorem of_step_call {s t : State ε β} {c : CallId} {event : Event ε β}
    (h : step requests handlerFailed s (.call c event) = some t) : ∃ e,
    Reacts handlerFailed (requests c).key (s.view requests c) event e ∧
      t = s.apply requests c e := by
  obtain ⟨e, he, rfl⟩ := Option.map_eq_some_iff.mp h
  exact ⟨e, reacts_of_react he, rfl⟩

end Step

/-! ## What a reaction leaves alone -/

section Apply

variable {requests : CallId → Request} {s : State ε β} {c d : CallId} {e : Effect ε β}

@[simp] theorem apply_clock : (s.apply requests c e).clock = s.clock := rfl
@[simp] theorem apply_dbClock : (s.apply requests c e).dbClock = s.dbClock := rfl

@[simp] theorem apply_phase_self : (s.apply requests c e).phase c = e.phase := by
  simp [State.apply]

theorem apply_phase_ne (h : d ≠ c) : (s.apply requests c e).phase d = s.phase d := by
  simp [State.apply, h]

@[simp] theorem apply_promises_self :
    (s.apply requests c e).promises c = (s.promises c).or e.settle := by
  simp [State.apply]

theorem apply_promises_ne (h : d ≠ c) : (s.apply requests c e).promises d = s.promises d := by
  simp [State.apply, h]

@[simp] theorem apply_runs_self : (s.apply requests c e).runs c = s.runs c ++ e.run.toList := by
  simp [State.apply]

theorem apply_runs_ne (h : d ≠ c) : (s.apply requests c e).runs d = s.runs d := by
  simp [State.apply, h]

@[simp] theorem apply_cache_self : (s.apply requests c e).cache (requests c).process =
    e.cache.apply c (requests c).key (s.clock (requests c).process)
      (s.cache (requests c).process) := by
  simp [State.apply]

theorem apply_cache_ne {p : Process} (h : p ≠ (requests c).process) :
    (s.apply requests c e).cache p = s.cache p := by
  simp [State.apply, h]

/-- A reaction that does not write the row. -/
theorem apply_rows (h : e.row = none) : (s.apply requests c e).rows = s.rows := by
  simp [State.apply, h]

@[simp] theorem apply_rows_self : (s.apply requests c e).rows (requests c).key =
    e.row.getD (s.rows (requests c).key) := by
  simp [State.apply]

theorem apply_rows_ne {k : Text} (h : k ≠ (requests c).key) :
    (s.apply requests c e).rows k = s.rows k := by
  simp [State.apply, h]

end Apply

/-! ## The cache after a reaction -/

section Entries

variable {requests : CallId → Request} {s : State ε β} {c : CallId} {p : Process} {key : Text}
  {effect : Effect ε β} {entry : CacheEntry β} {cache : Cache β} {now : ℕ}

theorem get_evictStale (h : (evictStale now cache).get key = some entry) :
    cache.get key = some entry := by
  have hfilter := Map.get_of_get_drop h
  rw [Map.get_filter] at hfilter
  exact (Option.filter_eq_some_iff.mp hfilter).1

theorem get_write_ne {key' : Text} {write : CacheWrite β} (hkey : key ≠ key')
    (h : (write.apply c key' now cache).get key = some entry) : cache.get key = some entry := by
  cases write with
  | keep => exact h
  | claim expiry =>
    have hset := get_evictStale h
    rwa [Map.get_set_ne hkey] at hset
  | store r expiry => rwa [CacheWrite.apply, Map.get_set_ne hkey] at h
  | delete => rwa [CacheWrite.apply, Map.get_delete_ne hkey] at h

/-- What a call may have put under its key. -/
def CacheWrite.Writes (c : CallId) (promise : Pledge β) : CacheWrite β → Prop
  | .keep | .delete => False
  | .claim _ => promise = .call c
  | .store r _ => promise = .resolved r

theorem get_write_self {write : CacheWrite β}
    (h : (write.apply c key now cache).get key = some entry) :
    cache.get key = some entry ∨ write.Writes c entry.promise := by
  cases write with
  | keep => exact .inl h
  | claim expiry =>
    have hset := get_evictStale h
    rw [Map.get_set_self] at hset
    cases hset
    exact .inr rfl
  | store r expiry =>
    rw [CacheWrite.apply, Map.get_set_self] at h
    cases h
    exact .inr rfl
  | delete =>
    rw [CacheWrite.apply, Map.get_delete_self] at h
    cases h

/-- An entry after a reaction was there before, or is what the call has put under its own key. -/
theorem get_apply (h : ((s.apply requests c effect).cache p).get key = some entry) :
    (s.cache p).get key = some entry ∨
      ((requests c).key = key ∧ effect.cache.Writes c entry.promise) := by
  by_cases hp : p = (requests c).process
  · subst hp
    rw [apply_cache_self] at h
    by_cases hkey : key = (requests c).key
    · subst hkey
      rcases get_write_self h with h | h
      · exact .inl h
      · exact .inr ⟨rfl, h⟩
    · exact .inl (get_write_ne hkey h)
  · rw [apply_cache_ne hp] at h
    exact .inl h

end Entries

end AssureCode.Gateway
