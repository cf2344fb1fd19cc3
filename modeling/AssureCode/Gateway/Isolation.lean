import AssureCode.Gateway.Attempts

/-! # What a request depends on

The cache, the promises and the rows are looked up by the key alone. So requests with one key meet
whoever sends them to whatever route, and requests without a common key do not, as long as no
entry is evicted to keep the cache within its bound.
-/

namespace AssureCode.Gateway

open Js

variable {ε β : Type} {requests : CallId → Request} {handlerFailed r : Response β} {key : Text}
  {v w : View ε β} {event : Event ε β} {effect : Effect ε β} {s s₀ s' t t' u : State ε β}
  {c d : CallId} {act : Action ε β} {as bs : List (Action ε β)} {p : Process}
  {phase : Phase ε β}

/-- The call itself and those with the same key. -/
def Shares (requests : CallId → Request) (c d : CallId) : Prop :=
  d = c ∨ ((requests d).key = (requests c).key ∧ (requests c).key ≠ [])

instance : Decidable (Shares requests c d) := inferInstanceAs (Decidable (_ ∨ _))

/-- The actions of these calls, and what happens to the processes and the clocks. -/
def concerns (requests : CallId → Request) (c : CallId) : Action ε β → Bool
  | .call d _ => Shares requests c d
  | _ => true

/-- The write evicts no entry for the sake of the bound. -/
def CacheWrite.HasRoom (write : CacheWrite β) (c : CallId) (key : Text) (now : ℕ)
    (cache : Cache β) : Prop :=
  ∀ expiry, write = .claim expiry →
    ((cache.set key ⟨.call c, expiry⟩).filter fun _ entry => now ≤ entry.expiry).size ≤
      maxCacheEntries

def WithinBound (requests : CallId → Request) (handlerFailed : Response β) (s : State ε β)
    (act : Action ε β) : Prop :=
  ∀ c event effect, act = .call c event →
    react handlerFailed (requests c).key (s.view requests c) event = some effect →
    effect.cache.HasRoom c (requests c).key (s.clock (requests c).process)
      (s.cache (requests c).process)

/-- The entry of the key that has not expired. -/
def State.live (s : State ε β) (p : Process) (key : Text) : Option (CacheEntry β) :=
  ((s.cache p).get key).filter (s.clock p < ·.expiry)

/-- Two states that the call cannot tell apart. -/
structure Agree (requests : CallId → Request) (c : CallId) (s t : State ε β) : Prop where
  clock : s.clock = t.clock
  dbClock : s.dbClock = t.dbClock
  row : (requests c).key ≠ [] → s.rows (requests c).key = t.rows (requests c).key
  live : (requests c).key ≠ [] → ∀ p, s.live p (requests c).key = t.live p (requests c).key
  calls : ∀ d, Shares requests c d →
    s.phase d = t.phase d ∧ s.promises d = t.promises d ∧ s.runs d = t.runs d

theorem Agree.refl (s : State ε β) : Agree requests c s s :=
  ⟨rfl, rfl, fun _ => rfl, fun _ _ => rfl, fun _ _ => ⟨rfl, rfl, rfl⟩⟩

theorem Agree.symm (h : Agree requests c s t) : Agree requests c t s :=
  ⟨h.clock.symm, h.dbClock.symm, fun hk => (h.row hk).symm, fun hk p => (h.live hk p).symm,
    fun d hd => ⟨(h.calls d hd).1.symm, (h.calls d hd).2.1.symm, (h.calls d hd).2.2.symm⟩⟩

theorem Agree.trans (h : Agree requests c s t) (h' : Agree requests c t u) :
    Agree requests c s u :=
  ⟨h.clock.trans h'.clock, h.dbClock.trans h'.dbClock, fun hk => (h.row hk).trans (h'.row hk),
    fun hk p => (h.live hk p).trans (h'.live hk p),
    fun d hd => ⟨(h.calls d hd).1.trans (h'.calls d hd).1,
      (h.calls d hd).2.1.trans (h'.calls d hd).2.1, (h.calls d hd).2.2.trans (h'.calls d hd).2.2⟩⟩

/-! ## Promises stay under their key -/

/-- The promise of a call with this key, or a resolved one. -/
def Pledge.Of (requests : CallId → Request) (key : Text) : Pledge β → Prop
  | .call d => (requests d).key = key
  | .resolved _ => True

/-- A call without a key only runs its handler; one with a key waits for promises of its key. -/
def Phase.Proper (requests : CallId → Request) (key : Text) : Phase ε β → Prop
  | .idle | .answered _ | .rejected _ | .crashed => True
  | .running .unkeyed => key = []
  | .awaiting _ promise => key ≠ [] ∧ promise.Of requests key
  | _ => key ≠ []

structure Proper (requests : CallId → Request) (s : State ε β) : Prop where
  calls : ∀ c, (s.phase c).Proper requests (requests c).key
  entries : ∀ p key entry, (s.cache p).get key = some entry → entry.promise.Of requests key

theorem proper_reacts (h : Reacts handlerFailed key v event effect)
    (hv : v.phase.Proper requests key)
    (hentry : ∀ entry, v.entry = some entry → entry.promise.Of requests key)
    (hc : (requests c).key = key) :
    effect.phase.Proper requests key ∧
      ∀ promise, effect.cache.Writes c promise → promise.Of requests key := by
  cases h with
  | run _ hempty => exact ⟨hempty, fun _ h => h.elim⟩
  | await _ hkey hsome => exact ⟨⟨hkey, hentry _ hsome⟩, fun _ h => h.elim⟩
  | claim _ hkey =>
    refine ⟨hkey, fun promise h => ?_⟩
    obtain rfl : promise = .call c := h
    exact hc
  | timeout hphase =>
    rw [hphase] at hv
    refine ⟨hv.1, fun promise h => ?_⟩
    obtain rfl : promise = .call c := h
    exact hc
  | replay _ _ | persisted _ => exact ⟨trivial, fun _ h => h.elim⟩
  | found _ =>
    refine ⟨trivial, fun promise h => ?_⟩
    obtain rfl : promise = .resolved _ := h
    trivial
  | insert outcome hphase =>
    rw [hphase] at hv
    unfold insertKey
    split
    · exact ⟨hv, fun _ h => h.elim⟩
    · split
      · exact ⟨hv, fun _ h => h.elim⟩
      · exact ⟨hv, fun _ h => h.elim⟩
  | @finish attempt result hphase =>
    rw [hphase] at hv
    cases attempt <;> cases result <;> exact ⟨by trivial, fun _ h => h.elim⟩
  | reserve hphase | conflict hphase | unavailable hphase | update _ hphase | delete _ hphase
  | rethrow hphase | select _ hphase | exhausted hphase | pause hphase | unread hphase
  | wake hphase =>
    rw [hphase] at hv
    exact ⟨hv, fun _ h => h.elim⟩

theorem proper_step (hs : Proper requests s) (h : step requests handlerFailed s act = some t) :
    Proper requests t := by
  cases act with
  | call c event =>
    obtain ⟨effect, he, rfl⟩ := of_step_call h
    obtain ⟨hphase, hwrites⟩ := proper_reacts (v := s.view requests c) (c := c) he (hs.calls c)
      (fun entry hentry => hs.entries _ _ entry hentry) rfl
    refine ⟨fun d => ?_, fun p key entry hentry => ?_⟩
    · by_cases hd : d = c
      · subst hd
        rwa [apply_phase_self]
      · rw [apply_phase_ne hd]
        exact hs.calls d
    · rcases get_apply hentry with h | ⟨rfl, h⟩
      · exact hs.entries p key entry h
      · exact hwrites _ h
  | tick p n => cases h; exact ⟨hs.calls, hs.entries⟩
  | tickDb n => cases h; exact ⟨hs.calls, hs.entries⟩
  | crash p =>
    cases h
    refine ⟨fun c => ?_, fun q key entry hentry => ?_⟩
    · dsimp only
      split
      · trivial
      · split
        · trivial
        · exact hs.calls c
    · by_cases hq : q = p
      · subst hq
        dsimp only at hentry
        rw [Function.update_self] at hentry
        cases hentry
      · dsimp only at hentry
        rw [Function.update_of_ne hq] at hentry
        exact hs.entries q key entry hentry

/-! ## What a reaction depends on -/

theorem react_congr (hphase : v.phase = w.phase) (hnow : v.now = w.now)
    (hawaited : v.awaited = w.awaited) (hdb : v.dbNow = w.dbNow)
    (hrow : key ≠ [] → v.row = w.row)
    (hlive : key ≠ [] →
      v.entry.filter (v.now < ·.expiry) = w.entry.filter (w.now < ·.expiry))
    (hproper : v.phase.Proper requests key) :
    react handlerFailed key v event = react handlerFailed key w event := by
  obtain ⟨phase, now, entry, awaited, dbNow, row⟩ := v
  obtain ⟨phase', now', entry', awaited', dbNow', row'⟩ := w
  obtain rfl : phase = phase' := hphase
  obtain rfl : now = now' := hnow
  obtain rfl : awaited = awaited' := hawaited
  obtain rfl : dbNow = dbNow' := hdb
  by_cases hkey : key = []
  · -- Without a key nothing is looked up.
    cases phase with
    | idle => cases event <;> simp [react, hkey]
    | running attempt => cases event <;> rfl
    | answered r | rejected e | crashed => cases event <;> rfl
    | awaiting now promise => exact absurd hkey hproper.1
    | _ => exact absurd hkey hproper
  · obtain rfl : row = row' := hrow hkey
    have hlive' := hlive hkey
    dsimp only at hlive'
    cases event with
    | arrive => simp only [react, hlive']
    | _ => rfl

section Live

variable {cache cache' : Cache β} {now : ℕ} {key' : Text} {write : CacheWrite β}

theorem evictStale_of_size
    (h : (cache.filter fun _ entry => now ≤ entry.expiry).size ≤ maxCacheEntries) :
    evictStale now cache = cache.filter fun _ entry => now ≤ entry.expiry := by
  rw [evictStale, Nat.sub_eq_zero_of_le h]
  rfl

theorem filter_filter_of_imp {α : Type} {p q : α → Bool} (h : ∀ a, q a = true → p a = true)
    (o : Option α) : (o.filter p).filter q = o.filter q := by
  rw [Option.filter_filter]
  congr 1
  funext a
  cases hq : q a with
  | false => exact Bool.and_false _
  | true => rw [h a hq, Bool.and_self]

theorem filter_live (entry : Option (CacheEntry β)) :
    (entry.filter (now ≤ ·.expiry)).filter (now < ·.expiry) = entry.filter (now < ·.expiry) :=
  filter_filter_of_imp (fun _ h => decide_eq_true (of_decide_eq_true h).le) entry

/-- A write under another key. -/
theorem live_write_ne (hkey : key ≠ key') (hroom : write.HasRoom c key' now cache) :
    ((write.apply c key' now cache).get key).filter (now < ·.expiry) =
      (cache.get key).filter (now < ·.expiry) := by
  cases write with
  | keep => rfl
  | claim expiry =>
    rw [CacheWrite.apply, evictStale_of_size (hroom expiry rfl), Map.get_filter,
      Map.get_set_ne hkey, filter_live]
  | store r expiry => rw [CacheWrite.apply, Map.get_set_ne hkey]
  | delete => rw [CacheWrite.apply, Map.get_delete_ne hkey]

/-- The same write to two caches. -/
theorem live_write_self (hroom : write.HasRoom c key now cache)
    (hroom' : write.HasRoom c key now cache')
    (h : (cache.get key).filter (now < ·.expiry) = (cache'.get key).filter (now < ·.expiry)) :
    ((write.apply c key now cache).get key).filter (now < ·.expiry) =
      ((write.apply c key now cache').get key).filter (now < ·.expiry) := by
  cases write with
  | keep => exact h
  | claim expiry =>
    rw [CacheWrite.apply, CacheWrite.apply, evictStale_of_size (hroom expiry rfl),
      evictStale_of_size (hroom' expiry rfl), Map.get_filter, Map.get_filter, Map.get_set_self,
      Map.get_set_self]
  | store r expiry => rw [CacheWrite.apply, CacheWrite.apply, Map.get_set_self, Map.get_set_self]
  | delete =>
    rw [CacheWrite.apply, CacheWrite.apply, Map.get_delete_self, Map.get_delete_self]

/-- What is live later was live before. -/
theorem filter_later {entry entry' : Option (CacheEntry β)} {later : ℕ} (hle : now ≤ later)
    (h : entry.filter (now < ·.expiry) = entry'.filter (now < ·.expiry)) :
    entry.filter (later < ·.expiry) = entry'.filter (later < ·.expiry) := by
  have hlater : ∀ entry : CacheEntry β, decide (later < entry.expiry) = true →
      decide (now < entry.expiry) = true :=
    fun entry h => decide_eq_true (hle.trans_lt (of_decide_eq_true h))
  rw [← filter_filter_of_imp hlater entry, ← filter_filter_of_imp hlater entry', h]

end Live

/-! ## Steps -/

theorem key_of_shares (h : Shares requests c d) : (requests d).key = (requests c).key := by
  rcases h with rfl | h
  · rfl
  · exact h.1

/-- What a call reads is the same in two states that agree. -/
theorem react_agree (h : Agree requests c s t) (hs : Proper requests s)
    (hd : Shares requests c d) :
    react handlerFailed (requests d).key (s.view requests d) event =
      react handlerFailed (requests d).key (t.view requests d) event := by
  obtain ⟨hphase, -, -⟩ := h.calls d hd
  have hawaited : (s.view requests d).awaited = (t.view requests d).awaited := by
    have hproper := hs.calls d
    simp only [State.view, ← hphase]
    split
    · next now promise hawaiting =>
      rw [hawaiting] at hproper
      obtain ⟨hkey, hof⟩ := hproper
      cases promise with
      | call d' =>
        have hkey' : (requests d').key = (requests d).key := hof
        rw [key_of_shares hd] at hkey hkey'
        exact (h.calls d' (.inr ⟨hkey', hkey⟩)).2.1
      | resolved r => rfl
    · rfl
  refine react_congr hphase (congrFun h.clock _) hawaited h.dbClock ?_ ?_ (hs.calls d)
  · intro hkey
    rw [key_of_shares hd] at hkey
    simp only [State.view, key_of_shares hd]
    exact h.row hkey
  · intro hkey
    rw [key_of_shares hd] at hkey
    simp only [State.view, key_of_shares hd]
    exact h.live hkey _

/-- A reaction of a call that the other one has nothing to do with. -/
theorem agree_foreign (hd : ¬ Shares requests c d)
    (hroom : effect.cache.HasRoom d (requests d).key (s.clock (requests d).process)
      (s.cache (requests d).process)) :
    Agree requests c s (s.apply requests d effect) := by
  have hkey : (requests c).key ≠ [] → (requests c).key ≠ (requests d).key :=
    fun hne heq => hd (.inr ⟨heq.symm, hne⟩)
  refine ⟨rfl, rfl, fun hne => (apply_rows_ne (hkey hne)).symm, fun hne p => ?_, fun e he => ?_⟩
  · rw [State.live, State.live, apply_clock]
    by_cases hp : p = (requests d).process
    · subst hp
      rw [apply_cache_self]
      exact (live_write_ne (hkey hne) hroom).symm
    · rw [apply_cache_ne hp]
  · have hne : e ≠ d := fun heq => hd (heq ▸ he)
    rw [apply_phase_ne hne, apply_promises_ne hne, apply_runs_ne hne]
    exact ⟨rfl, rfl, rfl⟩

/-- The same reaction in two states that agree. -/
theorem agree_apply (h : Agree requests c s t) (hd : Shares requests c d)
    (hroom : effect.cache.HasRoom d (requests d).key (s.clock (requests d).process)
      (s.cache (requests d).process))
    (hroom' : effect.cache.HasRoom d (requests d).key (t.clock (requests d).process)
      (t.cache (requests d).process)) :
    Agree requests c (s.apply requests d effect) (t.apply requests d effect) := by
  refine ⟨h.clock, h.dbClock, fun hne => ?_, fun hne p => ?_, fun e he => ?_⟩
  · rw [← key_of_shares hd, apply_rows_self, apply_rows_self, key_of_shares hd, h.row hne]
  · have hlive := h.live hne p
    simp only [State.live, apply_clock, ← h.clock] at hlive hroom' ⊢
    by_cases hp : p = (requests d).process
    · subst hp
      rw [apply_cache_self, apply_cache_self, ← h.clock, ← key_of_shares hd]
      rw [← key_of_shares hd] at hlive
      exact live_write_self hroom hroom' hlive
    · rwa [apply_cache_ne hp, apply_cache_ne hp]
  · obtain ⟨hphase, hpromise, hruns⟩ := h.calls e he
    by_cases hed : e = d
    · subst hed
      rw [apply_phase_self, apply_phase_self, apply_promises_self, apply_promises_self,
        apply_runs_self, apply_runs_self, hpromise, hruns]
      exact ⟨rfl, rfl, rfl⟩
    · rw [apply_phase_ne hed, apply_phase_ne hed, apply_promises_ne hed, apply_promises_ne hed,
        apply_runs_ne hed, apply_runs_ne hed]
      exact ⟨hphase, hpromise, hruns⟩

/-- A step that does not concern the call. -/
theorem agree_of_not_concerns (hk : WithinBound requests handlerFailed s act)
    (hact : concerns requests c act = false) (h : step requests handlerFailed s act = some s') :
    Agree requests c s s' := by
  cases act with
  | call d event =>
    obtain ⟨effect, he, rfl⟩ := Option.map_eq_some_iff.mp h
    exact agree_foreign (of_decide_eq_false hact) (hk d event effect rfl he)
  | tick p n | tickDb n | crash p => cases hact

/-- A step that concerns the call, in two states that agree. -/
theorem agree_of_concerns (h : Agree requests c s t) (hs : Proper requests s)
    (hk : WithinBound requests handlerFailed s act) (hk' : WithinBound requests handlerFailed t act)
    (hact : concerns requests c act = true) (hst : step requests handlerFailed s act = some s')
    (hst' : step requests handlerFailed t act = some t') : Agree requests c s' t' := by
  cases act with
  | call d event =>
    have hd : Shares requests c d := of_decide_eq_true hact
    obtain ⟨effect, he, rfl⟩ := Option.map_eq_some_iff.mp hst
    obtain ⟨effect', he', rfl⟩ := Option.map_eq_some_iff.mp hst'
    obtain rfl : effect = effect' := by
      rw [react_agree h hs hd, he'] at he
      exact (Option.some.inj he).symm
    exact agree_apply h hd (hk d event effect rfl he) (hk' d event effect rfl he')
  | tick p n =>
    cases hst
    cases hst'
    refine ⟨by rw [h.clock], h.dbClock, h.row, fun hne q => ?_, h.calls⟩
    have hlive := h.live hne q
    have hle : s.clock q ≤ Function.update s.clock p (s.clock p + n) q := by
      by_cases hq : q = p
      · subst hq
        simp
      · rw [Function.update_of_ne hq]
    simp only [State.live, ← h.clock] at hlive ⊢
    exact filter_later hle hlive
  | tickDb n =>
    cases hst
    cases hst'
    exact ⟨h.clock, congrArg (· + n) h.dbClock, h.row, h.live, h.calls⟩
  | crash p =>
    cases hst
    cases hst'
    refine ⟨h.clock, h.dbClock, h.row, fun hne q => ?_, fun e he => ?_⟩
    · have hlive := h.live hne q
      simp only [State.live, ← h.clock] at hlive ⊢
      by_cases hq : q = p
      · subst hq
        rw [Function.update_self, Function.update_self]
      · rwa [Function.update_of_ne hq, Function.update_of_ne hq]
    · obtain ⟨hphase, hpromise, hruns⟩ := h.calls e he
      exact ⟨by simp only [hphase], hpromise, hruns⟩

/-! ## Runs -/

theorem agree_of_filter_nil (h : (gateway requests handlerFailed).Run
    (WithinBound requests handlerFailed) s as s') (hnil : as.filter (concerns requests c) = []) :
    Agree requests c s s' := by
  induction h with
  | nil s => exact .refl s
  | cons hk hst _ ih =>
    rw [List.filter_eq_nil_iff, List.forall_mem_cons] at hnil
    obtain ⟨hact, hrest⟩ := hnil
    exact (agree_of_not_concerns hk (Bool.eq_false_iff.mpr hact) hst).trans
      (ih (List.filter_eq_nil_iff.mpr hrest))

/-- The first step of a run that concerns the call. -/
theorem exists_first (h : (gateway requests handlerFailed).Run
    (WithinBound requests handlerFailed) s as s') (hs : Proper requests s)
    (hfilter : as.filter (concerns requests c) = act :: bs) :
    ∃ t t' rest, Agree requests c s t ∧ Proper requests t ∧
      WithinBound requests handlerFailed t act ∧ step requests handlerFailed t act = some t' ∧
      (gateway requests handlerFailed).Run (WithinBound requests handlerFailed) t' rest s' ∧
      rest.filter (concerns requests c) = bs := by
  induction h with
  | nil s => cases hfilter
  | @cons s t u a as hk hst hrun ih =>
    cases hact : concerns requests c a with
    | true =>
      rw [List.filter_cons_of_pos hact] at hfilter
      obtain ⟨rfl, hrest⟩ := List.cons.inj hfilter
      exact ⟨s, t, as, .refl s, hs, hk, hst, hrun, hrest⟩
    | false =>
      rw [List.filter_cons_of_neg (by simp [hact])] at hfilter
      obtain ⟨t₁, t₂, rest, hagree, hfirst⟩ := ih (proper_step hs hst) hfilter
      exact ⟨t₁, t₂, rest, (agree_of_not_concerns hk hact hst).trans hagree, hfirst⟩

/-- Two runs with the same steps that concern a call. -/
theorem agree_runs (h : (gateway requests handlerFailed).Run
      (WithinBound requests handlerFailed) s as s')
    (h' : (gateway requests handlerFailed).Run (WithinBound requests handlerFailed) t bs t')
    (hfilter : as.filter (concerns requests c) = bs.filter (concerns requests c))
    (hagree : Agree requests c s t) (hs : Proper requests s) (ht : Proper requests t) :
    Agree requests c s' t' := by
  induction h generalizing t bs with
  | nil s => exact hagree.trans (agree_of_filter_nil h' hfilter.symm)
  | @cons s s₁ s' a as hk hst hrun ih =>
    cases hact : concerns requests c a with
    | true =>
      rw [List.filter_cons_of_pos hact] at hfilter
      obtain ⟨t₁, t₂, rest, hagree', ht₁, hk', hst', hrun', hrest⟩ :=
        exists_first h' ht hfilter.symm
      have hstep := agree_of_concerns (hagree.trans hagree') hs hk hk' hact hst hst'
      exact ih hrun' hrest.symm hstep (proper_step hs hst) (proper_step ht₁ hst')
    | false =>
      rw [List.filter_cons_of_neg (by simp [hact])] at hfilter
      have hstep := (agree_of_not_concerns hk hact hst).symm.trans hagree
      exact ih h' hfilter hstep (proper_step hs hst) ht

/--
What a request is answered, how often it runs its handler and what is stored under its key does
not depend on requests with another key: two runs that differ in these only end alike for it.
-/
theorem isolated_of_key
    (h : (gateway requests handlerFailed).Run (WithinBound requests handlerFailed) s₀ as s)
    (h' : (gateway requests handlerFailed).Run (WithinBound requests handlerFailed) s₀ bs t)
    (h₀ : (gateway requests handlerFailed).init s₀)
    (hfilter : as.filter (concerns requests c) = bs.filter (concerns requests c)) :
    s.phase c = t.phase c ∧ s.runs c = t.runs c ∧
      ((requests c).key ≠ [] → s.rows (requests c).key = t.rows (requests c).key) := by
  have hproper : Proper requests s₀ := by
    obtain ⟨clock, dbClock, rfl⟩ := h₀
    exact ⟨fun _ => trivial, fun p key entry hentry => by cases hentry⟩
  have hagree := agree_runs h h' hfilter (.refl s₀) hproper hproper
  obtain ⟨hphase, -, hruns⟩ := hagree.calls c (.inl rfl)
  exact ⟨hphase, hruns, hagree.row⟩

/-! ## Short runs stay within the bound -/

theorem size_write_le {cache : Cache β} {now : ℕ} (write : CacheWrite β) :
    (write.apply c key now cache).size ≤ cache.size + 1 := by
  cases write with
  | keep => exact Nat.le_succ _
  | claim expiry =>
    exact (Map.size_drop_le _).trans ((Map.size_filter_le _).trans Map.size_set_le)
  | store r expiry => exact Map.size_set_le
  | delete => exact (Map.size_filter_le _).trans (Nat.le_succ _)

theorem size_step (h : step requests handlerFailed s act = some t) (p : Process) :
    (t.cache p).size ≤ (s.cache p).size + 1 := by
  cases act with
  | call c event =>
    obtain ⟨effect, -, rfl⟩ := of_step_call h
    by_cases hp : p = (requests c).process
    · subst hp
      rw [apply_cache_self]
      exact size_write_le effect.cache
    · rw [apply_cache_ne hp]
      exact Nat.le_succ _
  | tick q n => cases h; exact Nat.le_succ _
  | tickDb n => cases h; exact Nat.le_succ _
  | crash q =>
    cases h
    by_cases hq : p = q
    · subst hq
      have hcache : Function.update s.cache p Map.empty p = Map.empty := Function.update_self ..
      exact (congrArg Map.size hcache).trans_le (Nat.zero_le _)
    · have hcache : Function.update s.cache q Map.empty p = s.cache p := Function.update_of_ne hq ..
      exact (congrArg Map.size hcache).trans_le (Nat.le_succ _)

theorem withinBound_of_exec (h : (gateway requests handlerFailed).exec s as = some t)
    (hsize : ∀ p, (s.cache p).size + as.length ≤ maxCacheEntries) :
    (gateway requests handlerFailed).Run (WithinBound requests handlerFailed) s as t := by
  induction as generalizing s with
  | nil => cases h; exact .nil _
  | cons a as ih =>
    obtain ⟨u, hu, hrest⟩ := Option.bind_eq_some_iff.mp h
    rw [List.length_cons] at hsize
    refine .cons (fun c event effect _ _ expiry _ => ?_) hu (ih hrest fun p => ?_)
    · have hset := (Map.size_filter_le fun _ (entry : CacheEntry β) =>
        decide (s.clock (requests c).process ≤ entry.expiry)).trans
          (Map.size_set_le (m := s.cache (requests c).process) (k := (requests c).key)
            (v := ⟨.call c, expiry⟩))
      have := hsize (requests c).process
      omega
    · have hstep := size_step hu p
      have := hsize p
      omega

/-- A request that reserves its key and is answered. -/
def served (c : CallId) (r : Response Text) : List (Action Text Text) :=
  [.call c .arrive, .call c (.execute .ok), .call c .resume, .call c (.finish (.ok r)),
    .call c (.execute .ok), .call c .resume]

/-- Two clients with a key each, whose requests come to one process. -/
def twoKeys : CallId → Request := fun c =>
  { process := 0, idempotencyKey := .text (if c = 0 then units "k-1" else units "k-2") }

theorem isolated_of_key_twoKeys : ∃ s t : State Text Text,
    (gateway twoKeys handlerFailed500).Run (WithinBound twoKeys handlerFailed500) atZero
      (served 0 created ++ served 1 created) s ∧
    (gateway twoKeys handlerFailed500).Run (WithinBound twoKeys handlerFailed500) atZero
      (served 1 created) t ∧
    s.phase 1 = t.phase 1 ∧ s.runs 1 = t.runs 1 ∧
      ((twoKeys 1).key ≠ [] → s.rows (twoKeys 1).key = t.rows (twoKeys 1).key) := by
  obtain ⟨s, hs⟩ : ∃ s, (gateway twoKeys handlerFailed500).exec atZero
      (served 0 created ++ served 1 created) = some s := ⟨_, rfl⟩
  obtain ⟨t, ht⟩ : ∃ t, (gateway twoKeys handlerFailed500).exec atZero (served 1 created) =
      some t := ⟨_, rfl⟩
  have hs' := withinBound_of_exec hs fun _ => Nat.le_of_ble_eq_true rfl
  have ht' := withinBound_of_exec ht fun _ => Nat.le_of_ble_eq_true rfl
  exact ⟨s, t, hs', ht', isolated_of_key hs' ht' ⟨_, _, rfl⟩ rfl⟩

/-! ## A crowded cache -/

theorem entries_evictStale {cache : Cache β} {now : ℕ}
    (h : ∀ e ∈ cache.entries, now ≤ e.2.expiry) :
    (evictStale now cache).entries = cache.entries.drop (cache.size - maxCacheEntries) := by
  have hfilter : cache.filter (fun _ entry => now ≤ entry.expiry) = cache :=
    Map.filter_eq_self fun e he => decide_eq_true (h e he)
  simp only [evictStale, hfilter, Map.drop]

/-- `k00000k`, `k00001k` and so on. -/
def numbered (n : ℕ) : Text :=
  0x6B :: ([n / 10000, n / 1000 % 10, n / 100 % 10, n / 10 % 10, n % 10].map (0x30 + ·) ++ [0x6B])

theorem numbered_inj {m n : ℕ} (h : numbered m = numbered n) : m = n := by
  simp only [numbered, List.map_cons, List.map_nil, List.cons_append, List.nil_append,
    List.cons.injEq, true_and, and_true] at h
  omega

theorem trim_numbered (n : ℕ) : trim (numbered n) = numbered n := by
  have hstart : trimStart (numbered n) = numbered n := List.dropWhile_cons_of_neg (by decide)
  rw [trim, hstart]
  exact trimEnd_concat (t := 0x6B :: _) (by decide)

/-- So many clients with a key each, and one more request with the key of the first. -/
def crowded (c : CallId) : Request where
  process := 0
  idempotencyKey := .text (numbered (if c = 10001 then 0 else c))

theorem key_crowded (c : CallId) : (crowded c).key = numbered (if c = 10001 then 0 else c) :=
  trim_numbered _

def arrivals (n : ℕ) : List (Action Text Text) := (List.range n).map fun c => .call c .arrive

/-- The cache when the first clients have come. -/
def claims (n : ℕ) : List (Text × CacheEntry Text) :=
  (List.range n).map fun c => (numbered c, ⟨.call c, cacheTtl⟩)

/-- What the arrivals lead to, when the last of them may have evicted the first. -/
structure Crowd (n : ℕ) (s : State Text Text) : Prop where
  clock : s.clock = fun _ => 0
  cache : (s.cache 0).entries = (claims n).drop (n - maxCacheEntries)
  idle : ∀ d, n ≤ d → s.phase d = .idle

theorem length_claims (n : ℕ) : (claims n).length = n := by
  rw [claims, List.length_map, List.length_range]

theorem get_numbered {cache : Cache Text} {m n : ℕ} (h : cache.entries = (claims n).drop m) :
    cache.get (numbered n) = none := by
  rw [Option.eq_none_iff_forall_ne_some]
  intro entry hentry
  have hmem := List.mem_of_mem_drop (h ▸ Map.get_eq_some_iff.mp hentry)
  obtain ⟨c, hc, heq⟩ := List.mem_map.mp hmem
  have hcn : c = n := numbered_inj (Prod.mk.inj heq).1
  exact (List.mem_range.mp hc).ne hcn

/-- The next client claims its key, and the first is evicted when there is no room for both. -/
theorem entries_claim {cache : Cache Text} {n : ℕ}
    (h : cache.entries = (claims n).drop (n - maxCacheEntries)) (hn : n ≤ maxCacheEntries) :
    (evictStale 0 (cache.set (numbered n) ⟨.call n, cacheTtl⟩)).entries =
      (claims (n + 1)).drop (n + 1 - maxCacheEntries) := by
  have hclaims : claims (n + 1) = claims n ++ [(numbered n, ⟨.call n, cacheTtl⟩)] := by
    rw [claims, List.range_succ, List.map_append]
    rfl
  have hcache : cache.entries = claims n := by
    rw [h, Nat.sub_eq_zero_of_le hn, List.drop_zero]
  have hentries : (cache.set (numbered n) ⟨.call n, cacheTtl⟩).entries = claims (n + 1) := by
    rw [Map.entries_set_of_none (get_numbered h), hcache, hclaims]
  have hsize : (cache.set (numbered n) ⟨.call n, cacheTtl⟩).size = n + 1 := by
    rw [Map.size, hentries, length_claims]
  rw [entries_evictStale fun _ _ => Nat.zero_le _, hsize, hentries]

/-- The first of the clients is the one whose entry is evicted. -/
theorem get_evicted {cache : Cache Text} {n : ℕ} (h : cache.entries = (claims (n + 1)).drop 1) :
    cache.get (numbered 0) = none := by
  rw [Option.eq_none_iff_forall_ne_some]
  intro entry hentry
  have hmem := Map.get_eq_some_iff.mp hentry
  rw [h, claims, List.range_succ_eq_map, List.map_cons, List.map_map, List.drop_one,
    List.tail_cons] at hmem
  obtain ⟨c, -, heq⟩ := List.mem_map.mp hmem
  exact absurd (numbered_inj (Prod.mk.inj heq).1) (Nat.succ_ne_zero c)

/-- A request under a key that is not in the cache claims it. -/
theorem step_arrive (hphase : s.phase c = .idle) (hkey : (requests c).key ≠ [])
    (hget : (s.cache (requests c).process).get (requests c).key = none) :
    step requests handlerFailed s (.call c .arrive) =
      some (s.apply requests c (claim (s.clock (requests c).process))) := by
  simp [step, react, State.view, hphase, hkey, hget]

theorem apply_cache_claim (requests : CallId → Request) (s : State ε β) (c : CallId) (now : ℕ) :
    (s.apply requests c (claim now)).cache (requests c).process =
      evictStale (s.clock (requests c).process)
        ((s.cache (requests c).process).set (requests c).key ⟨.call c, now + cacheTtl⟩) :=
  apply_cache_self

theorem crowd_step {s : State Text Text} {n : ℕ} (h : Crowd n s) (hn : n ≤ 10000) :
    ∃ t, step crowded handlerFailed500 s (.call n .arrive) = some t ∧ Crowd (n + 1) t := by
  have hkey : (crowded n).key = numbered n := by
    rw [key_crowded, if_neg (Nat.ne_of_lt (Nat.lt_succ_of_le hn))]
  have hprocess : (crowded n).process = 0 := rfl
  have hget : (s.cache (crowded n).process).get (crowded n).key = none :=
    hkey ▸ get_numbered h.cache
  refine ⟨_, step_arrive (h.idle n le_rfl) (by rw [hkey]; rintro ⟨⟩) hget, h.clock, ?_, ?_⟩
  · have hcache := apply_cache_claim crowded s n (s.clock (crowded n).process)
    simp only [hprocess, hkey, h.clock, Nat.zero_add] at hcache ⊢
    rw [hcache]
    exact entries_claim h.cache hn
  · intro d hd
    rw [apply_phase_ne (Nat.ne_of_gt hd)]
    exact h.idle d (Nat.le_of_succ_le hd)

theorem crowd_arrivals (n : ℕ) (hn : n ≤ 10001) : ∃ s : State Text Text,
    (gateway crowded handlerFailed500).Run Machine.Any atZero (arrivals n) s ∧ Crowd n s := by
  induction n with
  | zero => exact ⟨atZero, .nil _, rfl, rfl, fun _ _ => rfl⟩
  | succ n ih =>
    obtain ⟨s, hrun, hs⟩ := ih (Nat.le_of_succ_le hn)
    obtain ⟨t, ht, hcrowd⟩ := crowd_step hs (Nat.le_of_succ_le_succ hn)
    refine ⟨t, ?_, hcrowd⟩
    rw [arrivals, List.range_succ, List.map_append]
    exact hrun.append (.single trivial ht)

theorem filter_arrivals (n : ℕ) (hn : n ≤ 10000) :
    (arrivals (n + 1)).filter (concerns crowded 10001) = [.call 0 .arrive] := by
  have hforeign : ∀ c < n, concerns crowded 10001 (.call (c + 1) .arrive : Action Text Text) =
      false := by
    intro c hc
    have hne : c + 1 ≠ (10001 : ℕ) := by omega
    rw [concerns, decide_eq_false_iff_not, Shares, key_crowded, key_crowded]
    rintro (h | ⟨h, -⟩)
    · exact hne h
    · rw [if_pos rfl, if_neg hne] at h
      exact absurd (numbered_inj h) (Nat.succ_ne_zero c)
  rw [arrivals, List.range_succ_eq_map, List.map_cons, List.filter_cons_of_pos (by decide)]
  rw [List.filter_eq_nil_iff.mpr]
  simp only [List.map_map, List.mem_map, List.mem_range]
  rintro _ ⟨c, hc, rfl⟩
  simp [hforeign c hc]

/--
With ten thousand requests under other keys after the first, a second one under its key asks the
database; without them, it waits for the first.
-/
theorem crowded_inserting : ∃ (as bs : List (Action Text Text)) (s t : State Text Text),
    as.filter (concerns crowded 10001) = bs.filter (concerns crowded 10001) ∧
    (gateway crowded handlerFailed500).Run Machine.Any atZero as s ∧
    (gateway crowded handlerFailed500).Run Machine.Any atZero bs t ∧
    s.phase 10001 = .inserting ∧ t.phase 10001 = .awaiting 0 (.call 0) := by
  obtain ⟨s, hs, hcrowd⟩ := crowd_arrivals 10001 le_rfl
  have hkey : (crowded 10001).key = numbered 0 := key_crowded 10001
  have hget : (s.cache 0).get (crowded 10001).key = none := hkey ▸ get_evicted hcrowd.cache
  have hidle : s.phase 10001 = .idle := hcrowd.idle _ le_rfl
  have hst : (gateway crowded handlerFailed500).step s (.call 10001 .arrive) =
      some (s.apply crowded 10001 (claim (s.clock 0))) :=
    step_arrive hidle (by rw [hkey]; rintro ⟨⟩) hget
  obtain ⟨t, ht⟩ : ∃ t, (gateway crowded handlerFailed500).exec atZero
      (arrivals 1 ++ [.call 10001 .arrive]) = some t := ⟨_, rfl⟩
  have hend : ((gateway crowded handlerFailed500).exec atZero
      (arrivals 1 ++ [.call 10001 .arrive])).map (·.phase 10001) =
      some (.awaiting 0 (.call 0)) := rfl
  rw [ht, Option.map_some, Option.some.injEq] at hend
  refine ⟨_, _, _, t, ?_, hs.append (.single trivial hst), Machine.run_of_exec ht,
    apply_phase_self, hend⟩
  rw [List.filter_append, List.filter_append, filter_arrivals 10000 le_rfl,
    filter_arrivals 0 (Nat.zero_le _)]

/-! ## Requests with one key -/

/-- Requests of different callers to different routes and contracts, with one key. -/
def crossed (c : CallId) : Request where
  process := 0
  idempotencyKey := .text (units "k-1")
  caller := if c = 0 then units "alice" else units "bob"
  route := if c = 0 then units "POST /api/contracts/:id/escrow"
    else units "POST /api/contracts/:id/settle"
  contractId := if c = 0 then units "AC-1" else units "AC-2"

/--
With the first request before it the second is answered with the response of the first, and does
not run its handler; without it, it runs its handler. Where entries are evicted to keep the
cache within its bound, requests under other keys matter too.
-/
theorem crossed_answered : ((crossed 0).caller ≠ (crossed 1).caller ∧
    (crossed 0).route ≠ (crossed 1).route ∧ (crossed 0).contractId ≠ (crossed 1).contractId ∧
    (∃ s, (gateway crossed handlerFailed500).Run (WithinBound crossed handlerFailed500) atZero
      (served 0 created ++ [.call 1 .arrive, .call 1 .resume]) s ∧
      s.phase 1 = .answered created ∧ s.runs 1 = []) ∧
    ∃ t, (gateway crossed handlerFailed500).Run (WithinBound crossed handlerFailed500) atZero
      (served 1 accepted) t ∧ t.phase 1 = .answered accepted ∧
      t.runs 1 = [(.reserved, .ok accepted)]) ∧
    ∃ (as bs : List (Action Text Text)) (s t : State Text Text),
      as.filter (concerns crowded 10001) = bs.filter (concerns crowded 10001) ∧
      (gateway crowded handlerFailed500).Run Machine.Any atZero as s ∧
      (gateway crowded handlerFailed500).Run Machine.Any atZero bs t ∧
      s.phase 10001 = .inserting ∧ t.phase 10001 = .awaiting 0 (.call 0) := by
  refine ⟨⟨by decide +kernel, by decide +kernel, by decide +kernel, ?_, ?_⟩, crowded_inserting⟩
  · obtain ⟨s, hs⟩ : ∃ s, (gateway crossed handlerFailed500).exec atZero
        (served 0 created ++ [.call 1 .arrive, .call 1 .resume]) = some s := ⟨_, rfl⟩
    have hend : ((gateway crossed handlerFailed500).exec atZero
        (served 0 created ++ [.call 1 .arrive, .call 1 .resume])).map
        (fun s => (s.phase 1, s.runs 1)) = some (.answered created, []) := rfl
    rw [hs, Option.map_some, Option.some.injEq, Prod.mk.injEq] at hend
    exact ⟨s, withinBound_of_exec hs fun _ => Nat.le_of_ble_eq_true rfl, hend⟩
  · obtain ⟨t, ht⟩ : ∃ t, (gateway crossed handlerFailed500).exec atZero (served 1 accepted) =
        some t := ⟨_, rfl⟩
    have hend : ((gateway crossed handlerFailed500).exec atZero (served 1 accepted)).map
        (fun t => (t.phase 1, t.runs 1)) =
        some (.answered accepted, [(.reserved, .ok accepted)]) := rfl
    rw [ht, Option.map_some, Option.some.injEq, Prod.mk.injEq] at hend
    exact ⟨t, withinBound_of_exec ht fun _ => Nat.le_of_ble_eq_true rfl, hend⟩

end AssureCode.Gateway
