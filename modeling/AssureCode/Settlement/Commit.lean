import Mathlib.Data.Fintype.EquivFin
import AssureCode.Settlement.Completed

/-! # How often a settlement commits

`commitSettlement` does not compare the row it completes, so a second handler
past the claim commits a second time. The startup sweep takes every
`PROCESSING` row for an abandoned one and is the way such a handler appears;
a committed row marked failed is claimed again and is another.
-/

namespace AssureCode.Settlement

open Machine Oracle

variable {s s' t s₀ : State} {act : Action} {as : List Action} {a a' : Actor} {i j : ℕ}

/-- The handler may still commit: it has claimed the row, or found it abandoned. -/
def Actor.active : Actor → Bool
  | .evaluating none | .reading _ | .selecting _ _ | .capturing _ _ _ | .refetching _ _ _
  | .committing _ _ _ => true
  | _ => false

def Actor.publishes : Actor → Bool
  | .publishing _ _ => true
  | _ => false

/-- The action executes a `commitSettlement`. -/
def Commits (s : State) : Action → Prop
  | .advance i o => o ≠ .failed ∧ (s.actors i).commits.isSome
  | _ => False

/-- A committed row is neither committed again nor marked failed. -/
def LeavesCompleted (s : State) (act : Action) : Prop :=
  ¬ (s.Completed ∧ (MarksFailed s act ∨ Commits s act))

/-- The action lets handler `i` past the claim, or starts it as a recovery. -/
def Enters (s : State) (act : Action) (i : ℕ) : Prop :=
  act = .sweep i ∨ act = .advance i .ok ∧ ∃ event signals,
    s.actors i = .claiming event signals ∧ (claimSettlement s.settlement).isSome

/-- One ledger entry, one event and one credited delivery at most. -/
def State.SettledOnce (s₀ s : State) : Prop :=
  s.ledger.length ≤ 1 ∧ s.completed.length ≤ 1 ∧
    ∃ f, ∀ g, s.deliveries g ≤ s₀.deliveries g + if g = f then 1 else 0

/-! ## Handlers that may commit and handlers that publish -/

theorem Raises.active (h : Raises a a') (ha : a'.active = true) : a.active = true := by
  cases h <;> first | rfl | cases ha

theorem Raises.publishes (h : Raises a a') : a'.publishes = false := by
  cases h <;> rfl

/-- An operation makes a handler active only by claiming the row. -/
theorem Performs.active (h : Performs s a s' a') (ha : a'.active = true) :
    a.active = true ∨ ∃ event signals, a = .claiming event signals ∧
      (claimSettlement s.settlement).isSome := by
  cases h with
  | claim hc => exact .inr ⟨_, _, rfl, by simp [hc]⟩
  | _ => first | exact .inl rfl | cases ha

theorem Performs.publishes (h : Performs s a s' a') (ha : a'.publishes = true) :
    a.commits.isSome := by
  cases h <;> first | rfl | cases ha

theorem active_of_commits (h : a.commits.isSome) : a.active = true := by
  cases a <;> first | rfl | cases h

/-- A handler that becomes active in a step enters in it. -/
theorem active_step (h : step s act = some t) (hj : (t.actors j).active = true) :
    (s.actors j).active = true ∨ Enters s act j := by
  have hm := moves_step h j
  generalize t.actors j = b at hm hj
  cases hm with
  | stay => exact .inl hj
  | perform hact hp =>
    rcases hp.active hj with ha | hclaim
    · exact .inl ha
    · exact .inr (.inr ⟨hact, hclaim⟩)
  | raise _ hr => exact .inl (hr.active hj)
  | sweep hact => exact .inr (.inl hact)
  | deliver | crash => cases hj

/-- A handler that comes to publish has committed in this step. -/
theorem publishes_step (h : step s act = some t) (hj : (t.actors j).publishes = true) :
    (s.actors j).publishes = true ∧ (∀ o, act ≠ .advance j o) ∨
      act = .advance j .ok ∧ (s.actors j).commits.isSome := by
  have hm := moves_step h j
  generalize t.actors j = b at hm hj
  cases hm with
  | stay hno => exact .inl ⟨hj, hno⟩
  | perform hact hp => exact .inr ⟨hact, hp.publishes hj⟩
  | raise _ hr => simp [hr.publishes] at hj
  | sweep | deliver | crash => cases hj

/-! ## Claimed rows -/

/-- A handler that may commit has a row to complete. -/
def State.Claimed (s : State) : Prop := ∀ i, (s.actors i).active = true → s.settlement.isSome

theorem settlement_isSome_step (h : step s act = some t) (hs : s.settlement.isSome) :
    t.settlement.isSome := by
  rcases records_step h with hr | ⟨i, o, -, -, -, hr⟩ | ⟨i, o, p, -, -, -, hr⟩ |
    ⟨i, o, r, p, -, -, hr⟩ | ⟨row, -, hr⟩ <;>
    rw [hr.settlement] <;> simp [markSettlementFailed, commitSettlement, hs]

theorem settlement_of_enters (h : step s act = some t) (hj : Enters s act j) :
    t.settlement.isSome := by
  rcases hj with rfl | ⟨rfl, event, signals, hj, hc⟩
  · simp only [step, Option.ite_none_right_eq_some, Option.some.injEq] at h
    obtain ⟨⟨-, hs⟩, rfl⟩ := h
    obtain ⟨r, hr, -⟩ := Option.map_eq_some_iff.mp hs
    simp [hr]
  · obtain ⟨row, hrow⟩ := Option.isSome_iff_exists.mp hc
    have ht : t = State.setActor { s with settlement := some row } j
        (.selecting (.live event) signals) := by
      simpa [step, advance, hj, perform, hrow] using h.symm
    simp [ht]

theorem claimed_step (hs : s.Claimed) (h : step s act = some t) : t.Claimed := by
  intro j hj
  rcases active_step h hj with hj | hj
  · exact settlement_isSome_step h (hs j hj)
  · exact settlement_of_enters h hj

/-! ## Before and after the commit -/

/-- Before the commit nothing is recorded and nobody publishes. -/
structure Unsettled (s₀ s : State) : Prop where
  status : ¬ s.Completed
  ledger : s.ledger = []
  completed : s.completed = []
  deliveries : s.deliveries = s₀.deliveries
  silent : ∀ i, (s.actors i).publishes = false

/-- After it there is one entry, and one handler at most that has its event to publish. -/
structure Settled (s₀ s : State) : Prop where
  status : s.Completed
  ledger : s.ledger.length = 1
  completed : s.completed.length ≤ 1
  deliveries : ∃ f, ∀ g, s.deliveries g ≤ s₀.deliveries g + if g = f then 1 else 0
  publisher : ∀ i j, (s.actors i).publishes = true → (s.actors j).publishes = true → i = j
  unpublished : ∀ i, (s.actors i).publishes = true → s.completed = []

theorem Unsettled.settledOnce (h : Unsettled s₀ s) : s₀.SettledOnce s :=
  ⟨by simp [h.ledger], by simp [h.completed], "", fun g => by simp [h.deliveries]⟩

theorem Settled.settledOnce (h : Settled s₀ s) : s₀.SettledOnce s :=
  ⟨h.ledger.le, h.completed, h.deliveries⟩

theorem unsettled_initial (h : Initial s) : Unsettled s s := by
  obtain ⟨hs, -, hl, -, -, hc, -, hi⟩ := h
  exact ⟨by simp [State.Completed, State.status, hs], hl, hc, rfl, fun i => by rw [hi i]; rfl⟩

theorem claimed_initial (h : Initial s) : s.Claimed := by
  obtain ⟨-, -, -, -, -, -, -, hi⟩ := h
  intro i hact
  simp [hi i, Actor.active] at hact

/-- Nobody publishes after a step that commits nothing, unless somebody did before. -/
theorem silent_step (h : step s act = some t) (hc : ¬ Commits s act)
    (hs : ∀ i, (s.actors i).publishes = false) (i : ℕ) : (t.actors i).publishes = false := by
  by_contra hi
  rw [Bool.not_eq_false] at hi
  rcases publishes_step h hi with ⟨hi, -⟩ | ⟨rfl, hi⟩
  · simp [hs i] at hi
  · exact hc ⟨by decide, hi⟩

theorem completed_commitSettlement {p : SettlementPayload} (h : s.settlement.isSome) :
    (commitSettlement s p).Completed := by
  obtain ⟨r, hr⟩ := Option.isSome_iff_exists.mp h
  simp [State.Completed, status_commitSettlement, hr]

theorem not_completed_of_claim {row : SettlementRow}
    (h : claimSettlement s.settlement = some row) :
    ¬ State.Completed { s with settlement := some row } := by
  cases hs : s.settlement with
  | none =>
    rw [hs] at h
    cases h
    simp [State.Completed, State.status]
  | some r =>
    simp only [claimSettlement, hs, Option.ite_none_right_eq_some, Option.some.injEq] at h
    obtain ⟨-, rfl⟩ := h
    simp [State.Completed, State.status]

theorem not_completed_markSettlementFailed : ¬ (markSettlementFailed s).Completed := by
  cases hs : s.settlement <;> simp [State.Completed, State.status, markSettlementFailed, hs]

theorem unsettled_step (hs : Unsettled s₀ s) (hcl : s.Claimed) (h : step s act = some t) :
    Unsettled s₀ t ∨ Settled s₀ t := by
  by_cases hc : Commits s act
  · cases act with
    | advance i o =>
      obtain ⟨ho, hsome⟩ := hc
      obtain ⟨p, hp⟩ := Option.isSome_iff_exists.mp hsome
      have hr := commit_records h ho hp
      have honly : ∀ j, (t.actors j).publishes = true → j = i := by
        intro j hj
        rcases publishes_step h hj with ⟨hj, -⟩ | ⟨hact, -⟩
        · simp [hs.silent j] at hj
        · cases hact
          rfl
      exact .inr
        { status := (completed_congr hr.settlement).mpr
            (completed_commitSettlement (hcl i (active_of_commits hsome)))
          ledger := by simp [hr.ledger, commitSettlement, hs.ledger]
          completed := by simp [hr.completed, commitSettlement, hs.completed]
          deliveries := ⟨p.freelancerId, fun g => by
            rw [hr.deliveries, ← hs.deliveries]
            exact deliveries_commitSettlement p g⟩
          publisher := fun j k hj hk => (honly j hj).trans (honly k hk).symm
          unpublished := fun _ _ => by simp [hr.completed, commitSettlement, hs.completed] }
    | _ => cases hc
  · have hsilent := silent_step h hc hs.silent
    rcases records_step h with hr | ⟨i, o, -, -, -, hr⟩ | ⟨i, o, p, rfl, ho, hp, -⟩ |
      ⟨i, o, r, p, -, hi, -⟩ | ⟨row, hrow, hr⟩
    · exact .inl ⟨(completed_congr hr.settlement).not.mpr hs.status, hr.ledger.trans hs.ledger,
        hr.completed.trans hs.completed, hr.deliveries.trans hs.deliveries, hsilent⟩
    · exact .inl ⟨(completed_congr hr.settlement).not.mpr not_completed_markSettlementFailed,
        hr.ledger.trans hs.ledger, hr.completed.trans hs.completed,
        hr.deliveries.trans hs.deliveries, hsilent⟩
    · exact absurd ⟨ho, by simp [hp]⟩ hc
    · simpa [hi, Actor.publishes] using hs.silent i
    · exact .inl ⟨(completed_congr hr.settlement).not.mpr (not_completed_of_claim hrow),
        hr.ledger.trans hs.ledger, hr.completed.trans hs.completed,
        hr.deliveries.trans hs.deliveries, hsilent⟩

theorem settled_step (hs : Settled s₀ s) (hk : LeavesCompleted s act) (h : step s act = some t) :
    Settled s₀ t := by
  have hc : ¬ Commits s act := fun hc => hk ⟨hs.status, .inr hc⟩
  have hpub : ∀ j, (t.actors j).publishes = true →
      (s.actors j).publishes = true ∧ ∀ o, act ≠ .advance j o := by
    intro j hj
    rcases publishes_step h hj with hj | ⟨rfl, hj⟩
    · exact hj
    · exact absurd ⟨by decide, hj⟩ hc
  have hpublisher : ∀ j k, (t.actors j).publishes = true → (t.actors k).publishes = true → j = k :=
    fun j k hj hk => hs.publisher j k (hpub j hj).1 (hpub k hk).1
  rcases records_step h with hr | ⟨i, o, rfl, ho, hm, -⟩ | ⟨i, o, p, rfl, ho, hp, -⟩ |
    ⟨i, o, r, p, rfl, hi, hr⟩ | ⟨row, hrow, -⟩
  · exact ⟨(completed_congr hr.settlement).mpr hs.status, by rw [hr.ledger, hs.ledger],
      by rw [hr.completed]; exact hs.completed, by rw [hr.deliveries]; exact hs.deliveries,
      hpublisher, fun j hj => hr.completed.trans (hs.unpublished j (hpub j hj).1)⟩
  · exact absurd ⟨hs.status, .inl ⟨ho, hm⟩⟩ hk
  · exact absurd ⟨ho, by simp [hp]⟩ hc
  · -- the one publisher has published and is gone
    have hi' : (s.actors i).publishes = true := by simp [hi, Actor.publishes]
    have hnone : ∀ j, (t.actors j).publishes = false := by
      intro j
      by_contra hj
      obtain ⟨hj, hne⟩ := hpub j (Bool.not_eq_false _ ▸ hj)
      exact hne o (by rw [hs.publisher i j hi' hj])
    exact ⟨(completed_congr hr.settlement).mpr hs.status, by rw [hr.ledger]; exact hs.ledger,
      by simp [hr.completed, hs.unpublished i hi'], by rw [hr.deliveries]; exact hs.deliveries,
      hpublisher, fun j hj => by simp [hnone j] at hj⟩
  · rw [claimSettlement_completed hs.status] at hrow
    cases hrow

/-- A run that leaves committed rows alone commits once at most. -/
theorem run_settledOnce (h₀ : Initial s₀) (h : system.Run LeavesCompleted s₀ as s) :
    s₀.SettledOnce s := by
  have hinv : s.Claimed ∧ (Unsettled s₀ s ∨ Settled s₀ s) := by
    refine h.invariant (I := fun s => s.Claimed ∧ (Unsettled s₀ s ∨ Settled s₀ s)) ?_
      ⟨claimed_initial h₀, .inl (unsettled_initial h₀)⟩
    rintro s act t ⟨hcl, hs⟩ hk hst
    refine ⟨claimed_step hcl hst, ?_⟩
    rcases hs with hs | hs
    · exact unsettled_step hs hcl hst
    · exact .inr (settled_step hs hk hst)
  rcases hinv.2 with hs | hs
  · exact hs.settledOnce
  · exact hs.settledOnce

/-! ## A violation leaves a second commit within reach -/

/-- A committed row has its entry, and whatever runs was requested. -/
structure State.Traced (s : State) : Prop where
  recorded : s.Completed → s.ledger ≠ []
  asked : s.requested = [] → s.settlement = none ∧ ∀ i, s.actors i = .idle

theorem traced_initial (h : Initial s) : s.Traced := by
  obtain ⟨hs, -, -, -, -, -, -, hi⟩ := h
  exact ⟨fun hc => by simp [State.Completed, State.status, hs] at hc, fun _ => ⟨hs, hi⟩⟩

theorem recorded_step (hs : s.Completed → s.ledger ≠ []) (h : step s act = some t) :
    t.Completed → t.ledger ≠ [] := by
  intro ht
  rcases records_step h with hr | ⟨i, o, -, -, -, hr⟩ | ⟨i, o, p, -, -, -, hr⟩ |
    ⟨i, o, r, p, -, -, hr⟩ | ⟨row, hrow, hr⟩
  · rw [hr.ledger]
    exact hs ((completed_congr hr.settlement).mp ht)
  · exact absurd ((completed_congr hr.settlement).mp ht) not_completed_markSettlementFailed
  · simp [hr.ledger, commitSettlement]
  · rw [hr.ledger]
    exact hs ((completed_congr hr.settlement).mp ht)
  · exact absurd ((completed_congr hr.settlement).mp ht) (not_completed_of_claim hrow)

theorem asked_step (hs : s.requested = [] → s.settlement = none ∧ ∀ i, s.actors i = .idle)
    (h : step s act = some t) :
    t.requested = [] → t.settlement = none ∧ ∀ i, t.actors i = .idle := by
  intro ht
  have hnil : s.requested = [] := List.subset_nil.mp (ht ▸ (requested_step h).1)
  obtain ⟨hset, hidle⟩ := hs hnil
  rcases step_cases h with ⟨i, o, rfl, ha⟩ | ⟨i, event, rfl, -, he, rfl⟩ | ⟨i, rfl, -, hp, rfl⟩ |
    ⟨i, rfl, rfl⟩ | ⟨hu, -⟩
  · rcases advance_cases ha with ⟨-, hne, -⟩ | ⟨s', a', hp, -⟩
    · exact absurd (hidle i) hne
    · rw [hidle i] at hp
      cases hp
  · simp [hnil] at he
  · simp [State.status, hset] at hp
  · refine ⟨hset, fun j => ?_⟩
    rcases eq_or_ne j i with rfl | hne
    · exact setActor_self
    · rw [setActor_ne hne]
      exact hidle j
  · exact ⟨hu.settlement.trans hset, fun j => by rw [hu.actors]; exact hidle j⟩

theorem traced_run {K : State → Action → Prop} (h₀ : Initial s₀) (h : system.Run K s₀ as s) :
    s.Traced :=
  h.invariant (fun _ _ _ hs _ hst => ⟨recorded_step hs.recorded hst, asked_step hs.asked hst⟩)
    (traced_initial h₀)

theorem approved_approvingRow : (evaluate (some approvingRow) []).approved = true := by decide

/-- Handler `i` takes the event from delivery to commit without a fault. -/
def settling (i : ℕ) (event : SettlementRequested) : List Action :=
  [.deliver i event, .advance i .ok, .advance i .ok, .advance i .ok, .advance i .ok, .advance i .ok]

theorem commits_of_claimable {event : SettlementRequested} {held : EscrowPayment}
    {row : SettlementRow} (hi : s.actors i = .idle) (he : event ∈ s.requested)
    (ho : (evaluate s.oracleState s.scopeChecks).approved = true)
    (hc : claimSettlement s.settlement = some row) (hf : findEscrowPayment s.escrow = some held) :
    ∃ u, system.Run Any s (settling i event) u ∧ u.ledger.length = s.ledger.length + 1 := by
  have h : (system.exec s (settling i event)).map (·.ledger.length) =
      some (s.ledger.length + 1) := by
    simp [settling, exec, system, step, advance, perform, State.setActor, hi, he, ho, hc, hf,
      commitSettlement]
  obtain ⟨u, hu, hl⟩ := Option.map_eq_some_iff.mp h
  exact ⟨u, run_of_exec hu, hl⟩

/-- Order `n` is opened and funded by payment `p`, with the oracle approving. -/
def fundFresh (n : OrderId) (p : PaymentId) : List Action :=
  [.crash 0, .setOracle (some approvingRow) [], .createOrder n 1 "INR", .authorize n (some p)]

/-- A failed row that was requested can be settled by way of a new order. -/
theorem commits_of_failed {event : SettlementRequested} (hf : s.status = some .failed)
    (he : event ∈ s.requested) :
    ∃ bs u, system.Run Any s bs u ∧ u.ledger.length = s.ledger.length + 1 := by
  obtain ⟨n, hn⟩ := Infinite.exists_notMem_finset (s.escrow.map (·.orderId)).toFinset
  obtain ⟨p, hp⟩ := Infinite.exists_notMem_finset (s.escrow.filterMap (·.paymentId)).toFinset
  have hp' : ¬ ∃ r ∈ s.escrow, r.paymentId = some p := by simpa using hp
  have hn' : ¬ ∃ r ∈ s.escrow, r.orderId = n := by simpa using hn
  have h : ∃ t, system.exec s (fundFresh n p) = some t ∧ t.actors 0 = .idle ∧
      t.requested = s.requested ∧ t.oracleState = some approvingRow ∧ t.scopeChecks = [] ∧
      t.settlement = s.settlement ∧ t.ledger = s.ledger ∧
      findEscrowPayment t.escrow = some ⟨p, 1, "INR"⟩ := by
    simp [fundFresh, exec, system, step, State.setActor, hn', hp', authorizeOrder,
      findEscrowPayment]
  obtain ⟨t, ht, hi, hreq, ho, hs, hset, hl, hfind⟩ := h
  obtain ⟨r, hr, hfailed⟩ := Option.map_eq_some_iff.mp hf
  have hclaim : claimSettlement t.settlement = some { r with status := .processing } := by
    rw [hset, hr, claimSettlement, if_pos hfailed]
  obtain ⟨u, hu, hlen⟩ := commits_of_claimable hi (hreq ▸ he)
    (by rw [ho, hs]; exact approved_approvingRow) hclaim hfind
  exact ⟨_, u, (run_of_exec ht).append hu, by rw [hlen, hl]⟩

/-- Either violation leaves a second commit within reach, or is one. -/
theorem two_commits_of_violation (hs : s.Traced) (h : step s act = some t)
    (hk : ¬ LeavesCompleted s act) :
    ∃ bs u, system.Run Any t bs u ∧ 2 ≤ u.ledger.length := by
  simp only [LeavesCompleted, not_not] at hk
  obtain ⟨hc, hk⟩ := hk
  have hlen : 1 ≤ s.ledger.length := List.length_pos_iff.mpr (hs.recorded hc)
  cases act with
  | advance i o =>
    rcases hk with ⟨ho, hm⟩ | ⟨ho, hcom⟩
    · have hr := fails_records h ho hm
      have hreq : t.requested ≠ [] := by
        intro hnil
        have hrow := (asked_step hs.asked h hnil).1
        obtain ⟨r, hr', -⟩ := Option.map_eq_some_iff.mp hc
        simp [hr.settlement, markSettlementFailed, hr'] at hrow
      obtain ⟨event, he⟩ := List.exists_mem_of_ne_nil _ hreq
      have hf : t.status = some .failed := by
        rw [← status_markSettlementFailed hc, State.status, State.status, hr.settlement]
      obtain ⟨bs, u, hu, hl⟩ := commits_of_failed hf he
      refine ⟨bs, u, hu, ?_⟩
      rw [hl, hr.ledger]
      exact Nat.succ_le_succ hlen
    · obtain ⟨p, hp⟩ := Option.isSome_iff_exists.mp hcom
      have hr := commit_records h ho hp
      refine ⟨[], t, .nil t, ?_⟩
      rw [hr.ledger]
      exact Nat.succ_le_succ hlen
  | _ => rcases hk with hk | hk <;> cases hk

/--
A run that leaves committed rows alone settles the contract once; from any state a run reaches, a
step that does not is a second commit or can be continued to one.
-/
theorem commits_once (h₀ : Initial s₀) :
    (∀ as s, system.Run LeavesCompleted s₀ as s → s₀.SettledOnce s) ∧
      ∀ as s act t, system.Run Any s₀ as s → step s act = some t → ¬ LeavesCompleted s act →
        ∃ bs u, system.Run Any t bs u ∧ ¬ s₀.SettledOnce u := by
  constructor
  · exact fun _ _ h => run_settledOnce h₀ h
  · intro as s act t h hst hk
    obtain ⟨bs, u, hu, hl⟩ := two_commits_of_violation (traced_run h₀ h) hst hk
    exact ⟨bs, u, hu, fun hone => absurd hone.1 (Nat.not_le.mpr hl)⟩

theorem commits_once_fresh :
    Initial {} ∧ ∀ as s, system.Run LeavesCompleted {} as s → State.SettledOnce {} s :=
  ⟨initial_default, (commits_once initial_default).1⟩

/-- A worker that starts up takes the row of a live handler for abandoned, and both commit. -/
def recoversLive : List Action :=
  fundAndRequest ++ [.deliver 0 sampleEvent, .advance 0 .ok, .advance 0 .ok, .advance 0 .ok,
    .advance 0 .ok, .sweep 1, .advance 1 .ok, .advance 1 .ok, .advance 1 .ok, .advance 1 .failed,
    .advance 1 .ok, .advance 1 .ok, .advance 0 .ok]

theorem commits_twice : ¬ ∀ s₀ as s, Initial s₀ → system.Run Any s₀ as s → s₀.SettledOnce s := by
  intro hall
  have h : (system.exec {} recoversLive).map (·.ledger.length) = some 2 := by decide
  obtain ⟨s, hs, hl⟩ := Option.map_eq_some_iff.mp h
  have hone := (hall {} recoversLive s initial_default (run_of_exec hs)).1
  rw [hl] at hone
  exact absurd hone (by decide)

/-! ## One handler at a time -/

/--
A handler gets past the claim, or a sweep starts recovering, only while no other handler may
still commit; and no `markSettlementFailed` reaches a committed row.
-/
def Exclusive (s : State) (act : Action) : Prop :=
  KeepsCompleted s act ∧ ∀ i, Enters s act i → ∀ j, (s.actors j).active = false

/-- At most one handler may commit, and none once the row is committed. -/
structure State.Alone (s : State) : Prop where
  unique : ∀ i j, (s.actors i).active = true → (s.actors j).active = true → i = j
  finished : s.Completed → ∀ i, (s.actors i).active = false

theorem not_enters_of_completed (hs : s.Completed) (h : step s act = some t) :
    ¬ Enters s act j := by
  rintro (rfl | ⟨-, event, signals, -, hc⟩)
  · simp only [step, Option.ite_none_right_eq_some] at h
    rw [State.Completed, h.1.2] at hs
    cases hs
  · simp [claimSettlement_completed hs] at hc

theorem inactive_of_commits {o : Outcome} (h : step s (.advance i o) = some t) (ho : o ≠ .failed)
    (hc : (s.actors i).commits.isSome) : (t.actors i).active = false := by
  rcases advance_cases h with ⟨rfl, -, -⟩ | ⟨s', a', hperf, hend⟩
  · exact absurd rfl ho
  · generalize hi : s.actors i = b at hperf hc
    rcases hend with ⟨-, rfl⟩ | ⟨-, rfl⟩ <;> rw [setActor_self] <;> cases hperf <;>
      first | rfl | (rw [hi]; rfl) | cases hc

theorem alone_step (hs : s.Alone) (hk : Exclusive s act) (h : step s act = some t) : t.Alone := by
  constructor
  · intro i j hi hj
    rcases active_step h hi with hi | hi <;> rcases active_step h hj with hj | hj
    · exact hs.unique i j hi hj
    · simp [hk.2 j hj i] at hi
    · simp [hk.2 i hi j] at hj
    · rcases hi with rfl | ⟨rfl, -⟩ <;> rcases hj with hj | ⟨hj, -⟩ <;> cases hj <;> rfl
  · intro ht j
    by_contra hj
    rw [Bool.not_eq_false] at hj
    by_cases hc : s.Completed
    · rcases active_step h hj with hj | hj
      · simp [hs.finished hc j] at hj
      · exact not_enters_of_completed hc h hj
    · -- the row was committed in this step, by the one handler that could
      rcases records_step h with hr | ⟨i, o, -, -, -, hr⟩ | ⟨i, o, p, rfl, ho, hp, -⟩ |
        ⟨i, o, r, p, -, -, hr⟩ | ⟨row, hrow, hr⟩
      · exact hc ((completed_congr hr.settlement).mp ht)
      · exact not_completed_markSettlementFailed ((completed_congr hr.settlement).mp ht)
      · have hsome : (s.actors i).commits.isSome := by simp [hp]
        have hi := inactive_of_commits h ho hsome
        rcases active_step h hj with hjs | hjs | ⟨hact, event, signals, hclaim, -⟩
        · rw [hs.unique j i hjs (active_of_commits hsome), hi] at hj
          cases hj
        · cases hjs
        · cases hact
          simp [hclaim, Actor.commits] at hsome
      · exact hc ((completed_congr hr.settlement).mp ht)
      · exact not_completed_of_claim hrow ((completed_congr hr.settlement).mp ht)

theorem alone_initial (h : Initial s) : s.Alone := by
  obtain ⟨-, -, -, -, -, -, -, hi⟩ := h
  exact ⟨fun i j hact => by simp [hi i, Actor.active] at hact, fun _ i => by rw [hi i]; rfl⟩

/-- Handlers that keep out of each other's way leave committed rows alone. -/
theorem leavesCompleted_of_exclusive (h₀ : Initial s₀) (h : system.Run Exclusive s₀ as s) :
    system.Run LeavesCompleted s₀ as s := by
  refine h.mono_of_invariant (fun _ _ _ hs hk hst => alone_step hs hk hst) ?_ (alone_initial h₀)
  rintro s act t hs ⟨hkeep, -⟩ - ⟨hc, hm | hcom⟩
  · exact hkeep ⟨hc, hm⟩
  · cases act with
    | advance i o => simpa [hs.finished hc i] using active_of_commits hcom.2
    | _ => cases hcom

end AssureCode.Settlement
