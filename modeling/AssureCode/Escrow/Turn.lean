import AssureCode.Escrow.Responses

/-! # One step without faults

The handler whose turn it is performs its statement, begins, or waits inside the middleware for
the response of another request. The rest of the state is as it was.
-/

namespace AssureCode.Escrow

open Gateway Settlement Machine

variable {s t : State} {a : Action} {i j : ℕ} {f f' : Frame} {n : Next} {τ : Task} {b : Actor}
  {q : Request} {r : Response} {S : Store Key Response}

/-- The request that a handler runs for. -/
def Actor.request : Actor → Option Request
  | .running _ f => f.asked
  | .awaiting q _ _ | .reserving q _ _ | .polling q _ _ | .persisting q _ _ | .releasing q _ _
  | .replying q _ => some q
  | _ => none

/-- The request has no response yet, and its handler is not running. -/
def Actor.Waits : Actor → Prop
  | .awaiting .. | .reserving .. | .polling .. | .releasing .. => True
  | _ => False

/-- A handler begins with this task or response. -/
inductive Begins (s : State) (a : Action) (i : ℕ) : Frame → Next → Prop
  | deliver {d : Delivery} : a = .deliver i d → s.actors i = .idle →
      Begins s a i (.webhook d) d.start
  | consume {m : Message} : a = .consume i m → s.actors i = .idle → m ∈ s.published →
      Begins s a i .background (.task (.apply m))
  | settle {c : ContractId} : a = .settle i c → s.actors i = .idle →
      Begins s a i .background (.task (.selectHeld c))
  | request {q : Request} : a = .request i q → s.actors i = .idle →
      Begins s a i (.request q) q.call.start
  | keyed {q : Request} {key : Key} {ticket : Ticket} {claim : Claim} :
      (s.actors i).request = some q → (s.actors i).Waits →
      Begins s a i (.keyed q key ticket claim) q.call.start

/-- The request comes from the action or was there before. -/
def Has (s : State) (a : Action) (i : ℕ) (q : Request) : Prop :=
  a = .request i q ∨ (s.actors i).request = some q

/-- What one handler does when nothing fails. -/
inductive Turn (s : State) (a : Action) : State → Prop
  | run {i : ℕ} {τ : Task} {f : Frame} : a = .advance i .ok → s.actors i = .running τ f →
      Turn s a ((perform s τ).1.goto i f (perform s τ).2)
  | start {i : ℕ} {f : Frame} {n : Next} {S : Store Key Response} : Begins s a i f n →
      (∀ τ f, s.actors i ≠ .running τ f) → (∀ r, S.Holds r → s.Holds r) →
      Turn s a (State.goto { s with store := S } i f n)
  /-- A handler that is not running waits, or has a response. -/
  | rest {i : ℕ} {b : Actor} {S : Store Key Response} {acknowledged : List Delivery} :
      (∀ τ f, s.actors i ≠ .running τ f) → (∀ τ f, b ≠ .running τ f) →
      (∀ q, b.request = some q → Has s a i q) →
      ((s.actors i).Waits ∨ (∃ q, a = .request i q) → b.Waits ∨ ∃ r, s.Holds r) →
      (∀ i d, a ≠ .deliver i d) → (∀ j q, a = .request j q → j = i) →
      (∀ r, S.Holds r → s.Holds r) → (∀ r, b.response = some r → s.Holds r) →
      Turn s a (State.setActor { s with store := S, acknowledged } i b)
  | aside {t : State} : t.tables = s.tables → t.actors = s.actors →
      (∀ p, t.payments p = s.payments p ∨ a = .pay p (t.payments p)) →
      (∀ i d, a ≠ .deliver i d) → (∀ i q, a ≠ .request i q) →
      (∀ r, t.store.Holds r → s.Holds r) → Turn s a t

theorem goto_request (h : ((s.goto i f n).actors i).request = some q) : f.asked = some q := by
  cases n with
  | task τ => simpa [State.goto, Actor.request] using h
  | done r =>
    cases f with
    | keyed q key ticket claim =>
      cases claim <;> simpa [State.goto, Actor.request, Frame.asked] using h
    | request q => simpa [State.goto, Actor.request, Frame.asked] using h
    | _ => simp [State.goto, Actor.request] at h
  | throw =>
    cases f with
    | keyed q key ticket claim =>
      cases claim with
      | reserved => simpa [State.goto, Actor.request, Frame.asked] using h
      | unreserved => simp [State.goto, Actor.request] at h
    | _ => simp [State.goto, Actor.request] at h

theorem goto_payments : (s.goto i f n).payments = s.payments := by
  cases n with
  | task τ => rfl
  | done r =>
    cases f with
    | keyed q key ticket claim => cases claim <;> rfl
    | _ => rfl
  | throw => cases f <;> rfl

theorem perform_actors : (perform s τ).1.actors = s.actors := by
  rw [perform_effect]
  rfl

theorem perform_payments : (perform s τ).1.payments = s.payments := by
  rw [perform_effect]
  rfl

theorem turn_runHandler {key : Key} {ticket : Ticket} {claim : Claim}
    (hi : (s.actors i).request = some q) (hw : (s.actors i).Waits)
    (hS : ∀ r, S.Holds r → s.Holds r) :
    Turn s a (State.runHandler { s with store := S } i q key ticket claim) := by
  refine .start (.keyed hi hw) (fun τ f hr => ?_) hS
  rw [hr] at hw
  exact hw

theorem advance_turn (h : advance s i .ok = some t) : Turn s (.advance i .ok) t := by
  have hdeliver : ∀ j d, Action.advance i .ok ≠ .deliver j d := by simp
  have hrequest : ∀ j q, Action.advance i .ok = .request j q → j = i := by simp
  have hold : ∀ r, s.store.Holds r → s.Holds r := fun r => .inl
  unfold advance at h
  cases hi : s.actors i with
  | idle => simp [hi] at h
  | running τ f =>
    simp only [hi, Option.some.injEq] at h
    subst h
    exact .run rfl hi
  | awaiting q key ticket =>
    simp only [hi] at h
    obtain ⟨r, hr, rfl⟩ := Option.map_eq_some_iff.mp h
    have hheld : s.Holds r := .inl (.inl ⟨ticket, hr⟩)
    refine .rest (by simp [hi]) (by simp) ?_ (fun _ => .inr ⟨r, hheld⟩) hdeliver hrequest hold ?_
    · rintro q' ⟨⟩
      exact .inr (by rw [hi]; rfl)
    · rintro r' ⟨⟩
      exact hheld
  | reserving q key ticket =>
    simp only [hi, Option.some.injEq] at h
    split at h <;> subst h
    · next S hS =>
      exact turn_runHandler (by rw [hi]; rfl) (by rw [hi]; trivial)
        fun r hr => .inl (Store.holds_reserve hS hr)
    · refine .rest (by simp [hi]) (by simp) ?_ (fun _ => .inl trivial) hdeliver hrequest hold
        (by simp [Actor.response])
      rintro q' ⟨⟩
      exact .inr (by rw [hi]; rfl)
  | polling q key ticket =>
    simp only [hi, Option.some.injEq] at h
    split at h <;> subst h
    · next r hr =>
      have hheld : s.Holds r := .inl (Store.holds_stored hr)
      refine .rest (by simp [hi]) (by simp) ?_ (fun _ => .inr ⟨r, hheld⟩) hdeliver hrequest
        (fun r' hr' => ?_) ?_
      · rintro q' ⟨⟩
        exact .inr (by rw [hi]; rfl)
      · rcases Store.holds_replay hr' with hr' | rfl
        · exact .inl hr'
        · exact hheld
      · rintro r' ⟨⟩
        exact hheld
    · exact .aside rfl rfl (fun _ => .inl rfl) hdeliver (by simp) hold
  | persisting q key r =>
    simp only [hi, Option.some.injEq] at h
    subst h
    have hheld : s.Holds r := .inr ⟨i, by rw [hi]; rfl⟩
    refine .rest (by simp [hi]) (by simp) ?_ (fun _ => .inr ⟨r, hheld⟩) hdeliver hrequest
      (fun r' hr' => ?_) ?_
    · rintro q' ⟨⟩
      exact .inr (by rw [hi]; rfl)
    · rcases Store.holds_persist hr' with hr' | rfl
      · exact .inl hr'
      · exact hheld
    · rintro r' ⟨⟩
      exact hheld
  | releasing q key ticket =>
    simp only [hi, Option.some.injEq] at h
    subst h
    exact turn_runHandler (by rw [hi]; rfl) (by rw [hi]; trivial)
      fun r hr => .inl (Store.holds_release hr)
  | acknowledging d r =>
    simp only [hi, Option.some.injEq] at h
    subst h
    exact .rest (by simp [hi]) (by simp) (by simp [Actor.request]) (by simp [hi, Actor.Waits])
      hdeliver hrequest hold (by simp [Actor.response])
  | replying q r =>
    simp only [hi, Option.some.injEq] at h
    subst h
    exact .rest (by simp [hi]) (by simp) (by simp [Actor.request]) (by simp [hi, Actor.Waits])
      hdeliver hrequest hold (by simp [Actor.response])

theorem start_turn (h : start s i a = some t) (hi : s.actors i = .idle)
    (ha : ∀ j d, a = .deliver j d → j = i) (hq : ∀ j q, a = .request j q → j = i)
    (hm : ∀ j m, a = .consume j m → j = i) (hc : ∀ j c, a = .settle j c → j = i) : Turn s a t := by
  have hrun : ∀ τ f, s.actors i ≠ .running τ f := by simp [hi]
  cases a with
  | deliver j d =>
    obtain rfl := ha j d rfl
    cases h
    exact .start (.deliver rfl hi) hrun fun _ => .inl
  | request j q =>
    obtain rfl := hq j q rfl
    simp only [start] at h
    split at h
    · cases h
      exact .start (.request rfl hi) hrun fun _ => .inl
    · split at h <;> cases h
      · refine .rest hrun (by simp) ?_ (fun _ => .inl trivial) (by simp) hq (fun _ => .inl)
          (by simp [Actor.response])
        rintro q' ⟨⟩
        exact .inl rfl
      · refine .rest hrun (by simp) ?_ (fun _ => .inl trivial) (by simp) hq (fun _ => .inl)
          (by simp [Actor.response])
        rintro q' ⟨⟩
        exact .inl rfl
  | consume j m =>
    obtain rfl := hm j m rfl
    simp only [start] at h
    split at h
    · next hmem =>
      cases h
      exact .start (.consume rfl hi hmem) hrun fun _ => .inl
    · cases h
  | settle j c =>
    obtain rfl := hc j c rfl
    cases h
    exact .start (.settle rfl hi) hrun fun _ => .inl
  | _ => cases h

/-- What a step does when nothing fails. -/
theorem step_turn (h : step s a = some t) (hf : Faultless s a) : Turn s a t := by
  cases a with
  | deliver i d =>
    simp only [step] at h
    split at h
    · next hi => exact start_turn h hi (by simp) (by simp) (by simp) (by simp)
    · cases h
  | request i q =>
    simp only [step] at h
    split at h
    · next hi => exact start_turn h hi (by simp) (by simp) (by simp) (by simp)
    · cases h
  | consume i m =>
    simp only [step] at h
    split at h
    · next hi => exact start_turn h hi (by simp) (by simp) (by simp) (by simp)
    · cases h
  | settle i c =>
    simp only [step] at h
    split at h
    · next hi => exact start_turn h hi (by simp) (by simp) (by simp) (by simp)
    · cases h
  | advance i o =>
    cases hf
    exact advance_turn h
  | timeout i =>
    simp only [step] at h
    split at h
    · next q key ticket hi =>
      cases h
      refine .rest (by simp [hi]) (by simp) ?_ (fun _ => .inl trivial) (by simp) (by simp)
        (fun _ => .inl) (by simp [Actor.response])
      rintro q' ⟨⟩
      exact .inr (by rw [hi]; rfl)
    · next q key ticket hi =>
      cases h
      exact turn_runHandler (by rw [hi]; rfl) (by rw [hi]; trivial) fun _ => .inl
    · cases h
  | crash i => exact hf.elim
  | evict process key =>
    cases h
    exact .aside rfl rfl (fun _ => .inl rfl) (by simp) (by simp) fun _ => .inl
  | expire key =>
    cases h
    exact .aside rfl rfl (fun _ => .inl rfl) (by simp) (by simp) fun _ h =>
      .inl (Store.holds_expire h)
  | pay p status =>
    cases h
    refine .aside rfl rfl (fun p' => ?_) (by simp) (by simp) fun _ => .inl
    by_cases hp : p' = p
    · subst hp
      exact .inr (by simp)
    · exact .inl (by simp [hp])

/-- Where a running task comes from when nothing fails. -/
theorem turn_running (h : Turn s a t) (hj : t.actors j = .running τ f) :
    s.actors j = .running τ f ∨ (∃ τ₀, s.actors j = .running τ₀ f ∧ Leads s τ₀ τ) ∨
      ∃ n, Begins s a j f n ∧ n = .task τ := by
  cases h with
  | @run i τ₀ f₀ _ hi =>
    rcases eq_or_ne j i with rfl | hne
    · obtain ⟨hn, rfl⟩ := goto_running.mp hj
      exact .inr (.inl ⟨τ₀, hi, perform_leads hn⟩)
    · rw [goto_ne hne, perform_actors] at hj
      exact .inl hj
  | @start i f₀ n S hb _ _ =>
    rcases eq_or_ne j i with rfl | hne
    · obtain ⟨hn, rfl⟩ := goto_running.mp hj
      exact .inr (.inr ⟨n, hb, hn⟩)
    · rw [goto_ne hne] at hj
      exact .inl hj
  | @rest i b S acknowledged _ hb =>
    rcases eq_or_ne j i with rfl | hne
    · rw [setActor_self] at hj
      exact absurd hj (hb τ f)
    · rw [setActor_ne hne] at hj
      exact .inl hj
  | aside _ hactors =>
    rw [hactors] at hj
    exact .inl hj

end AssureCode.Escrow
