import AssureCode.Razorpay.Request
import AssureCode.Settlement.Escrow

/-! # Settling again after a capture

A settlement that fails after its capture leaves a `FAILED` row over a captured
payment. The provider refuses to capture it again; recovery looks the payment
up when that happens, the live handler does not and fails once more.
-/

namespace AssureCode.Settlement

open Machine Oracle Razorpay

variable {s t u v : State} {i n m : ℕ} {e : SettlementRequested} {held : EscrowPayment}
  {net : ℕ → Transit} {signals : OracleSignals}

/-- What a handler sees of `capturePayment`. -/
def captureOutcome (net : ℕ → Transit) (captured : Bool) : Outcome :=
  match capturePayment net captured with
  | (.ok _, _) => .ok
  | (.error _, after) => if after && !captured then .lost else .failed

/-- A payment is captured once, whatever the network does. -/
theorem captureOutcome_captured : captureOutcome net true = .failed := by
  obtain ⟨status, h⟩ := requestWithRetry_captured net maxAttempts
  simp [captureOutcome, capturePayment, h]

theorem captureOutcome_answered : captureOutcome (fun _ => .answered) false = .ok := by
  simp [captureOutcome, capturePayment_answered]

/-- The provider has captured the payment. -/
def State.HasCaptured (s : State) (p : PaymentId) : Prop := p ∈ s.captured.map (·.paymentId)

instance (s : State) (p : PaymentId) : Decidable (s.HasCaptured p) :=
  inferInstanceAs (Decidable (p ∈ s.captured.map (·.paymentId)))

/-- Every statement and call succeeds, but for what the provider says to a capture. -/
def response (net : ℕ → Transit) (s : State) (i : ℕ) : Outcome :=
  match s.actors i with
  | .capturing _ _ held => captureOutcome net (decide (s.HasCaptured held.paymentId))
  | _ => .ok

/-- The next operation of handler `i`, if it has one. -/
def turn (net : ℕ → Transit) (i : ℕ) (s : State) : State :=
  (step s (.advance i (response net s i))).getD s

/-- Delivered the event, handler `i` works undisturbed until it is done, in the state `u`. -/
def Handles (net : ℕ → Transit) (s : State) (i : ℕ) (e : SettlementRequested) (u : State) : Prop :=
  ∃ t n, step s (.deliver i e) = some t ∧ (turn net i)^[n] t = u ∧ u.actors i = .idle

/-- The payment is settled: a committed row, a released escrow row and a new entry. -/
structure Resolved (s u : State) (held : EscrowPayment) : Prop where
  status : u.status = some .completed
  released : ∃ r ∈ u.escrow, r.paymentId = some held.paymentId ∧ r.status = .released
  entry : ∃ p, u.ledger = p :: s.ledger ∧ p.paymentId = held.paymentId

/-! ## Working undisturbed -/

theorem turn_idle (h : s.actors i = .idle) : turn net i s = s := by
  simp [turn, response, h, step, advance, perform]

theorem iterate_turn_idle (h : s.actors i = .idle) : (turn net i)^[n] s = s :=
  Function.iterate_fixed (turn_idle h) n

/-- A handler that is done stays done. -/
theorem iterate_turn_unique (hn : ((turn net i)^[n] s).actors i = .idle)
    (hm : ((turn net i)^[m] s).actors i = .idle) : (turn net i)^[n] s = (turn net i)^[m] s := by
  rcases Nat.le_total n m with hle | hle
  · obtain ⟨k, rfl⟩ := Nat.exists_eq_add_of_le' hle
    rw [Function.iterate_add_apply, iterate_turn_idle hn]
  · obtain ⟨k, rfl⟩ := Nat.exists_eq_add_of_le' hle
    rw [Function.iterate_add_apply, iterate_turn_idle hm]

theorem Handles.unique (hu : Handles net s i e u) (hv : Handles net s i e v) : u = v := by
  obtain ⟨t, n, ht, rfl, hn⟩ := hu
  obtain ⟨t', m, ht', rfl, hm⟩ := hv
  cases ht.symm.trans ht'
  exact iterate_turn_unique hn hm

/-- The state in which a handler may settle: approved, claimable, and with a payment to take. -/
structure Claimable (s : State) (held : EscrowPayment) : Prop where
  approved : (evaluate s.oracleState s.scopeChecks).approved = true
  status : s.status = none ∨ s.status = some .failed
  newest : findEscrowPayment s.escrow = some held

theorem Claimable.claim (h : Claimable s held) :
    ∃ row, claimSettlement s.settlement = some row := by
  have hst := h.status
  cases hs : s.settlement with
  | none => exact ⟨_, rfl⟩
  | some r =>
    have hf : r.status = .failed := by simpa [State.status, hs] using hst
    exact ⟨_, if_pos hf⟩

@[simp] theorem setActor_setActor {a b : Actor} :
    (s.setActor i a).setActor i b = s.setActor i b := by
  simp [State.setActor]

/-- An operation neither reads nor moves the handlers. -/
theorem perform_setActor {a b : Actor} :
    perform (s.setActor i b) a = (perform s a).map fun r => (r.1.setActor i b, r.2) := by
  cases a with
  | evaluating event =>
    by_cases h : (evaluate s.oracleState s.scopeChecks).approved = true <;>
      cases event <;> simp [perform, h]
  | claiming => simp only [perform, setActor_settlement]; split <;> rfl
  | selecting => simp only [perform, setActor_escrow]; split <;> rfl
  | rollingBack r => cases r <;> rfl
  | _ => rfl

theorem turn_perform {a b : Actor} (hr : response net (s.setActor i a) i = .ok)
    (hp : perform s a = some (t, b)) : turn net i (s.setActor i a) = t.setActor i b := by
  simp [turn, step, advance, hr, perform_setActor, hp]

theorem turn_raise {a : Actor} (ha : a ≠ .idle) (hr : response net (s.setActor i a) i = .failed) :
    turn net i (s.setActor i a) = s.setActor i (raise a) := by
  simp [turn, step, advance, hr, ha]

/-- With the payment captured, the handler claims the row, is refused and marks the row failed. -/
theorem handles_captured (net : ℕ → Transit) (hc : Claimable s held)
    (hcap : s.HasCaptured held.paymentId)
    (hi : s.actors i = .idle) (he : e ∈ s.requested) :
    ∃ u, Handles net s i e u ∧ u.status = some .failed ∧ u.ledger = s.ledger ∧
      u.escrow = s.escrow ∧ u.captured = s.captured := by
  obtain ⟨row, hrow⟩ := hc.claim
  let signals := (evaluate s.oracleState s.scopeChecks).signals
  let s₁ : State := { s with settlement := some row }
  have hev : turn net i (s.setActor i (.evaluating (some e))) =
      s.setActor i (.claiming e signals) :=
    turn_perform (by simp [response]) (by simp [perform, hc.approved, signals])
  have hcl : turn net i (s.setActor i (.claiming e signals)) =
      s₁.setActor i (.selecting (.live e) signals) :=
    turn_perform (by simp [response]) (by simp [perform, hrow, s₁])
  have hsel : turn net i (s₁.setActor i (.selecting (.live e) signals)) =
      s₁.setActor i (.capturing (.live e) signals held) :=
    turn_perform (by simp [response]) (by simp [perform, hc.newest, s₁])
  have hcapt : turn net i (s₁.setActor i (.capturing (.live e) signals held)) =
      s₁.setActor i .failing := by
    apply turn_raise (by simp)
    have h₁ : (s₁.setActor i (.capturing (.live e) signals held)).HasCaptured held.paymentId := hcap
    simp [response, h₁, captureOutcome_captured]
  have hfail : turn net i (s₁.setActor i .failing) =
      (markSettlementFailed s₁).setActor i .rejecting :=
    turn_perform (by simp [response]) rfl
  have hrej : turn net i ((markSettlementFailed s₁).setActor i .rejecting) =
      (markSettlementFailed s₁).setActor i .idle :=
    turn_perform (by simp [response]) rfl
  refine ⟨(markSettlementFailed s₁).setActor i .idle,
    ⟨s.setActor i (.evaluating (some e)), 6, by simp [step, hi, he], ?_, by simp⟩,
    rfl, rfl, rfl, rfl⟩
  rw [Function.iterate_succ_apply, hev, Function.iterate_succ_apply, hcl,
    Function.iterate_succ_apply, hsel, Function.iterate_succ_apply, hcapt,
    Function.iterate_succ_apply, hfail, Function.iterate_succ_apply, hrej]
  rfl

/-- The last operations of a handler that has committed. -/
theorem iterate_turn_publishing (net : ℕ → Transit) (i : ℕ) (r : Origin) (s : State)
    (p : SettlementPayload) :
    ∃ u, (turn net i)^[3] (s.setActor i (.publishing r p)) = u ∧ u.actors i = .idle ∧
      u.settlement = s.settlement ∧ u.ledger = s.ledger ∧ u.escrow = s.escrow := by
  let s₁ : State := { s with completed := p :: s.completed }
  have hpub : turn net i (s.setActor i (.publishing r p)) =
      s₁.setActor i (.sealing p.freelancerId) :=
    turn_perform (by simp [response]) rfl
  have hseal : turn net i (s₁.setActor i (.sealing p.freelancerId)) =
      s₁.setActor i (.paying p.freelancerId) :=
    turn_perform (by simp [response]) rfl
  have hpay : turn net i (s₁.setActor i (.paying p.freelancerId)) = State.setActor { s₁ with
      payouts := (payoutRequest s₁ p.freelancerId).toList ++ s₁.payouts } i .idle :=
    turn_perform (by simp [response]) rfl
  refine ⟨_, rfl, ?_⟩
  rw [Function.iterate_succ_apply, hpub, Function.iterate_succ_apply, hseal,
    Function.iterate_succ_apply, hpay]
  exact ⟨setActor_self, rfl, rfl, rfl⟩

/-- A handler that reaches the commit undisturbed resolves the payment it holds. -/
theorem iterate_turn_committing (net : ℕ → Transit) (i : ℕ) (r : Origin) (signals : OracleSignals)
    (hs : s.settlement.isSome)
    (hmem : held ∈ payments s.escrow) :
    ∃ u, (turn net i)^[4] (s.setActor i (.committing r signals held)) = u ∧ u.actors i = .idle ∧
      Resolved s u held := by
  have hcom : turn net i (s.setActor i (.committing r signals held)) =
      (commitSettlement s (settlementPayload r signals held)).setActor i
        (.publishing r (settlementPayload r signals held)) :=
    turn_perform (by simp [response]) rfl
  obtain ⟨u, hu, hidle, hset, hled, hesc⟩ := iterate_turn_publishing net i r
    (commitSettlement s (settlementPayload r signals held)) (settlementPayload r signals held)
  refine ⟨u, by rw [Function.iterate_succ_apply, hcom, hu], hidle, ?_, ?_, ?_⟩
  · obtain ⟨row, hrow⟩ := Option.isSome_iff_exists.mp hs
    rw [State.status, hset]
    simp [commitSettlement, hrow, settlementPayload]
  · obtain ⟨r, hr, hpay⟩ := List.mem_filterMap.mp hmem
    obtain ⟨q, hq, rfl⟩ := Option.map_eq_some_iff.mp hpay
    rw [hesc]
    refine ⟨{ r with status := .released }, List.mem_map.mpr ⟨r, hr, ?_⟩, hq, rfl⟩
    simp [settlementPayload, hq]
  · exact ⟨settlementPayload r signals held, hled, rfl⟩

/-- With the payment not yet captured, handling the event settles it. -/
theorem handles_uncaptured (hc : Claimable s held) (hcap : ¬ s.HasCaptured held.paymentId)
    (hi : s.actors i = .idle) (he : e ∈ s.requested) :
    ∃ u, Handles (fun _ => .answered) s i e u ∧ Resolved s u held := by
  obtain ⟨row, hrow⟩ := hc.claim
  let signals := (evaluate s.oracleState s.scopeChecks).signals
  let s₁ : State := { s with settlement := some row }
  let s₂ : State := { s₁ with captured := held :: s₁.captured }
  have hev : turn (fun _ => .answered) i (s.setActor i (.evaluating (some e))) =
      s.setActor i (.claiming e signals) :=
    turn_perform (by simp [response]) (by simp [perform, hc.approved, signals])
  have hcl : turn (fun _ => .answered) i (s.setActor i (.claiming e signals)) =
      s₁.setActor i (.selecting (.live e) signals) :=
    turn_perform (by simp [response]) (by simp [perform, hrow, s₁])
  have hsel : turn (fun _ => .answered) i (s₁.setActor i (.selecting (.live e) signals)) =
      s₁.setActor i (.capturing (.live e) signals held) :=
    turn_perform (by simp [response]) (by simp [perform, hc.newest, s₁])
  have hcapt : turn (fun _ => .answered) i (s₁.setActor i (.capturing (.live e) signals held)) =
      s₂.setActor i (.committing (.live e) signals held) := by
    refine turn_perform ?_ rfl
    have h₁ : ¬ (s₁.setActor i (.capturing (.live e) signals held)).HasCaptured held.paymentId :=
      hcap
    simp [response, h₁, captureOutcome_answered]
  obtain ⟨u, hu, hidle, hres⟩ := iterate_turn_committing (s := s₂) (fun _ => .answered) i
    (.live e) signals rfl (findEscrowPayment_mem hc.newest)
  refine ⟨u, ⟨s.setActor i (.evaluating (some e)), 8, by simp [step, hi, he], ?_, hidle⟩,
    hres.status, hres.released, hres.entry⟩
  rw [Function.iterate_succ_apply, hev, Function.iterate_succ_apply, hcl,
    Function.iterate_succ_apply, hsel, Function.iterate_succ_apply, hcapt, hu]

/-- Recovery settles a captured payment: refused by the provider, it looks the payment up. -/
theorem recovery_captured (ho : (evaluate s.oracleState s.scopeChecks).approved = true)
    (hs : s.settlement.isSome) (hf : findEscrowPayment s.escrow = some held)
    (hcap : s.HasCaptured held.paymentId) :
    ∃ n u, (turn net i)^[n] (s.setActor i (.evaluating none)) = u ∧ u.actors i = .idle ∧
      Resolved s u held := by
  let signals := (evaluate s.oracleState s.scopeChecks).signals
  let r := Origin.recovery (s.freelancerId.getD "")
  have hev : turn net i (s.setActor i (.evaluating none)) = s.setActor i (.reading signals) :=
    turn_perform (by simp [response]) (by simp [perform, ho, signals])
  have hread : turn net i (s.setActor i (.reading signals)) = s.setActor i (.selecting r signals) :=
    turn_perform (by simp [response]) rfl
  have hsel : turn net i (s.setActor i (.selecting r signals)) =
      s.setActor i (.capturing r signals held) :=
    turn_perform (by simp [response]) (by simp [perform, hf])
  have hcapt : turn net i (s.setActor i (.capturing r signals held)) =
      s.setActor i (.refetching (s.freelancerId.getD "") signals held) := by
    apply turn_raise (by simp)
    have h₁ : (s.setActor i (.capturing r signals held)).HasCaptured held.paymentId := hcap
    simp [response, h₁, captureOutcome_captured]
  have hmem : held.paymentId ∈ s.captured.map (·.paymentId) := hcap
  have href : turn net i (s.setActor i (.refetching (s.freelancerId.getD "") signals held)) =
      s.setActor i (.committing r signals held) :=
    turn_perform (by simp [response]) (by simp only [perform, r, if_pos hmem])
  obtain ⟨u, hu, hidle, hres⟩ := iterate_turn_committing net i r signals hs
    (findEscrowPayment_mem hf)
  refine ⟨9, u, ?_, hidle, hres⟩
  rw [Function.iterate_succ_apply, hev, Function.iterate_succ_apply, hread,
    Function.iterate_succ_apply, hsel, Function.iterate_succ_apply, hcapt,
    Function.iterate_succ_apply, href, hu]

/--
Handling a further event over a captured payment always ends, and always with a failed row and
nothing released or entered.
-/
theorem retry_strands (hc : Claimable s held) (hcap : s.HasCaptured held.paymentId)
    (hi : s.actors i = .idle) (he : e ∈ s.requested) :
    (∃ u, Handles net s i e u) ∧ ∀ u, Handles net s i e u →
      u.status = some .failed ∧ u.ledger = s.ledger ∧ u.escrow = s.escrow ∧
        ¬ Resolved s u held := by
  obtain ⟨u, hu, hst, hled, hesc, -⟩ := handles_captured net hc hcap hi he
  refine ⟨⟨u, hu⟩, fun v hv => ?_⟩
  obtain rfl := hu.unique hv
  refine ⟨hst, hled, hesc, fun hres => ?_⟩
  rw [hres.status] at hst
  cases hst

/-- Payment 7 is captured and the response is lost. -/
def capturesUnheard : List Action :=
  fundAndRequest ++ [.deliver 0 sampleEvent, .advance 0 .ok, .advance 0 .ok, .advance 0 .ok,
    .advance 0 .lost, .advance 0 .ok, .advance 0 .ok]

/-- The state after `capturesUnheard` is one to settle again. -/
theorem exec_capturesUnheard : ∃ s, system.exec {} capturesUnheard = some s ∧
    Claimable s ⟨7, 250000, "INR"⟩ ∧ s.HasCaptured 7 ∧ s.actors 0 = .idle ∧
    sampleEvent ∈ s.requested := by
  have h : (system.exec {} capturesUnheard).map (fun s => decide (s.status = some .failed ∧
      (evaluate s.oracleState s.scopeChecks).approved = true ∧
      findEscrowPayment s.escrow = some ⟨7, 250000, "INR"⟩ ∧ s.HasCaptured 7 ∧
      s.actors 0 = .idle ∧ sampleEvent ∈ s.requested)) = some true := by decide
  obtain ⟨s, hs, heq⟩ := Option.map_eq_some_iff.mp h
  obtain ⟨hst, ho, hf, hcap, hi, hreq⟩ := of_decide_eq_true heq
  exact ⟨s, hs, ⟨ho, .inr hst, hf⟩, hcap, hi, hreq⟩

theorem retry_strands_unheard : ∃ s, system.exec {} capturesUnheard = some s ∧
    ∀ u, Handles (fun _ => .answered) s 0 sampleEvent u → u.status = some .failed := by
  obtain ⟨s, hs, hc, hcap, hi, he⟩ := exec_capturesUnheard
  exact ⟨s, hs, fun u hu => ((retry_strands hc hcap hi he).2 u hu).1⟩

theorem retry_does_not_resolve :
    ¬ ∀ s₀ as s i e held, Initial s₀ → system.Run Any s₀ as s → Claimable s held →
      s.HasCaptured held.paymentId → s.actors i = .idle → e ∈ s.requested →
      ∃ u, Handles (fun _ => .answered) s i e u ∧ Resolved s u held := by
  intro hall
  obtain ⟨s, hs, hc, hcap, hi, he⟩ := exec_capturesUnheard
  obtain ⟨u, hu, hres⟩ := hall {} _ s 0 sampleEvent _ initial_default (run_of_exec hs) hc hcap hi he
  obtain ⟨v, hv, hst, -⟩ := handles_captured (fun _ => .answered) hc hcap hi he
  obtain rfl := hu.unique hv
  rw [hres.status] at hst
  cases hst

end AssureCode.Settlement
