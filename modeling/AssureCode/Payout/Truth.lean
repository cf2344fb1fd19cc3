import AssureCode.Payout.Cap
import AssureCode.Payout.Outcome
import AssureCode.Payout.Transfer

/-! # The payout status after a failure

Every attempt at a contract goes under one key, so that the provider answers a retry with its
record of the first attempt. When the transfer has failed or has been reversed since, that record
pays nothing, and it may still say `processed`.
-/

namespace AssureCode.Payout

open Machine
open AssureCode.Settlement (Outcome)

variable {π γ : Type} {P : Provider π γ} {record : π → String → Option PayoutResult}
  {s t u v w : State π} {a : Action γ} {as bs : List (Action γ)} {i : ℕ} {o : Outcome} {τ τ' : Task}
  {rest : List PendingPayout} {c : ContractId} {accountId currency : String} {amountMinor : ℕ}
  {result : PayoutResult}

/--
The provider has failed, reversed or rejected the transfer of the contract: it says so in the
answer to a request, or in an event about the payout that its record names.
-/
inductive Fails (record : π → String → Option PayoutResult) (s : State π) (c : ContractId) :
    Action γ → State π → Prop
  | answered {t : State π} {i : ℕ} {causes : List γ} {error : Option String}
      {result : PayoutResult} {rest : List PendingPayout} :
      t.actors i = .working (.record c result) rest → result.status = .failed →
      Fails record s c (.call i causes error) t
  | reported {t : State π} {i : ℕ} {d : Delivery} {result : PayoutResult} :
      d.event = .failed ∨ d.event = .reversed ∨ d.event = .rejected →
      record s.provider (idempotencyKey c) = some result → d.payoutId = some result.payoutId →
      Fails record s c (.deliver i d) t

/-- A sweep is about to attempt the contract, and the attempt will find all that it asks for. -/
structure Due (s : State π) (i : ℕ) (c : ContractId) (accountId : String) (amountMinor : ℕ)
    (currency : String) : Prop where
  row : ∃ freelancerId rest, s.actors i = .working (.selectAccount c freelancerId) rest ∧
    s.payoutAccounts freelancerId = some accountId
  escrow : ∃ paymentId, (s.settlements c).transferId = some paymentId ∧
    s.escrow paymentId = some (amountMinor, currency)
  accountId_ne : accountId ≠ ""
  amountMinor_ne : amountMinor ≠ 0
  currency_ne : currency ≠ ""

/-- The attempt, when none of its statements fails and the provider's answer arrives. -/
def attempted (i : ℕ) (cause : γ) : List (Action γ) :=
  advances i 4 ++ .call i [cause] none :: advances i 1

/-- Where the provider would accept a new transfer, the attempt of the sweep executes it. -/
def Pays (P : Provider π γ) (s : State π) (c : ContractId) : Prop :=
  ∀ i accountId amountMinor currency cause, Due s i c accountId amountMinor currency →
    P.Accepts s.provider (request c accountId amountMinor currency) cause →
    ∃ t, (system P).exec s (attempted i cause) = some t ∧
      P.transfers s.provider c < P.transfers t.provider c

/-- What the status is to say from a state on in which the transfer has failed. -/
structure TellsTruth (P : Provider π γ) (u : State π) (as : List (Action γ)) (c : ContractId) :
    Prop where
  completes : ∀ x ∈ (system P).steps u as, (x.1.settlements c).payoutStatus ≠ .completed →
    (x.2.2.settlements c).payoutStatus = .completed →
    P.transfers u.provider c < P.transfers x.2.2.provider c
  pays : ∀ w ∈ (system P).visited u as, Pays P w c

/-! ## The condition -/

/-- The row says `COMPLETED`, or a transfer that had not been executed by the failure now is. -/
def Covered (P : Provider π γ) (u s : State π) (c : ContractId) : Prop :=
  (s.settlements c).payoutStatus = .completed ∨
    P.transfers u.provider c = 0 ∧ P.transfers s.provider c = 1

structure KeepsTruth (P : Provider π γ) (record : π → String → Option PayoutResult) (u : State π)
    (c : ContractId) (s : State π) (a : Action γ) : Prop where
  /-- No attempt ends on a record that says `processed`. -/
  replays : ∀ answer result, Works s a (.record c answer) →
    record s.provider (idempotencyKey c) = some result → result.status = .processed →
    Covered P u s c
  /-- No update of the webhook says so. -/
  reports : ∀ d, Reports s a c d .completed → Covered P u s c

/-- The provider would not accept what the sweep is about to ask for. -/
def Refuses (P : Provider π γ) (s : State π) (c : ContractId) : Prop :=
  ∀ i accountId amountMinor currency cause, Due s i c accountId amountMinor currency →
    ¬ P.Accepts s.provider (request c accountId amountMinor currency) cause

/-! ## The provider's record -/

/-- An answer comes from the provider. -/
theorem call_answer {causes : List γ} {error : Option String}
    (hst : step P s (.call i causes error) = some t)
    (hi : t.actors i = .working (.record c result) rest) :
    ∃ accountId amountMinor currency,
      (P.receive s.provider (request c accountId amountMinor currency) causes).2 =
          some (.ok result) ∧
        t.provider =
          (P.receive s.provider (request c accountId amountMinor currency) causes).1 := by
  simp only [step, call] at hst
  split at hst
  · next c' accountId amountMinor currency rest' _ =>
    split at hst
    · cases hst; simp at hi
    · cases hst; simp at hi
    · next hanswer =>
      cases hst
      rw [setActor_self] at hi
      cases hi
      exact ⟨accountId, amountMinor, currency, hanswer, rfl⟩
    · cases hst
  · cases hst

theorem ne_record_of_counted {b : Actor} (hb : b.counted = none) :
    b ≠ .working (.record c result) rest := by
  rintro rfl
  cases hb

theorem perform_ne_record (h : (perform s τ).2 = some τ') : τ' ≠ .record c result := by
  rintro rfl
  have hmarks := (perform_counted h).2
  cases τ with
  | markProcessing => cases h
  | _ => cases hmarks

theorem exit_ne_record {rest' : List PendingPayout} :
    (τ.exit s rest' o).2 ≠ .working (.record c result) rest := by
  have hsweep : sweepRows rest' ≠ .working (.record c result) rest :=
    ne_record_of_counted (sweepRows_counted rest')
  cases o with
  | ok =>
    simp only [Task.exit]
    split
    · next hnext =>
      intro he
      cases he
      exact perform_ne_record hnext rfl
    · exact hsweep
  | failed => exact hsweep
  | lost => simp only [Task.exit]; split <;> exact hsweep

/-- An answer in hand was in hand before, or the provider has just given it. -/
theorem record_of_step (hst : step P s a = some t)
    (hi : t.actors i = .working (.record c result) rest) :
    s.actors i = .working (.record c result) rest ∨ ∃ causes error, a = .call i causes error := by
  by_cases ha : a.actor = some i
  · -- No other action leaves its actor with an answer.
    have hne : ∀ {s' : State π} {b : Actor}, t = s'.setActor i b → b.counted ≠ none := by
      rintro s' b rfl
      rw [← setActor_self (s := s') (i := i) (b := b), hi]
      rintro ⟨⟩
    cases step_cases hst with
    | call _ _ => cases ha; exact .inr ⟨_, _, rfl⟩
    | commit | setPayoutAccount | evolve => cases ha
    | work _ _ _ => cases ha; exact absurd (setActor_self.symm.trans hi) exit_ne_record
    | deliver _ => cases ha; exact absurd (start_counted _) (hne rfl)
    | attempt _ _ => cases ha; exact absurd (attemptPayout_counted _ _) (hne rfl)
    | select _ =>
      cases ha
      refine absurd ?_ (hne rfl)
      split <;> [exact sweepRows_counted _; rfl]
    | receive _ =>
      cases ha
      refine absurd ?_ (hne rfl)
      split <;> [exact receive_counted; exact raised_counted]
    | sweep _ | acknowledge _ | crash => cases ha; exact absurd rfl (hne rfl)
  · rw [step_actors_of_ne hst ha] at hi
    exact .inl hi

/-- Everything asked for is keyed, an answer in hand is the record, an update fits its event. -/
structure Held (P : Provider π γ) (record : π → String → Option PayoutResult) (s : State π) :
    Prop where
  keyed : Keyed P s.provider
  answers : ∀ i c result rest, s.actors i = .working (.record c result) rest →
    record s.provider (idempotencyKey c) = some result
  fits : Fits s

theorem held_initial (h : Initial P s) : Held P record s where
  keyed := h.2.2.1 ▸ keyed_init
  answers i c result rest hi := by
    rw [h.2.2.2.2.2.2 i] at hi
    cases hi
  fits := fits_initial h

theorem step_record (hR : P.Replays record) (hk : Keyed P s.provider) (hst : step P s a = some t)
    {key : String} (hs : record s.provider key = some result) :
    record t.provider key = some result := by
  obtain ⟨qs, hqs, -⟩ := hk
  cases step_cases hst with
  | call _ _ => exact hR.receive_keeps hqs hs
  | evolve => exact hR.evolves qs _ hqs _ _ _ hs
  | receive _ => split <;> simpa using hs
  | _ => simpa using hs

theorem held_step (hR : P.Replays record) (h : Held P record s) (hst : step P s a = some t) :
    Held P record t where
  keyed := keyed_step h.keyed hst
  answers i c result rest hi := by
    rcases record_of_step hst hi with hi' | ⟨causes, error, rfl⟩
    · exact step_record hR h.keyed hst (h.answers i c result rest hi')
    · obtain ⟨qs, hqs, -⟩ := h.keyed
      obtain ⟨accountId, amountMinor, currency, hanswer, hprovider⟩ := call_answer hst hi
      rw [hprovider]
      exact hR.receive_records hqs hanswer
  fits := fits_step h.fits hst

theorem Fails.recorded (hR : P.Replays record) (h : Held P record s) (hst : step P s a = some t)
    (hf : Fails record s c a t) : ∃ result, record t.provider (idempotencyKey c) = some result := by
  cases hf with
  | answered hi _ => exact ⟨_, (held_step hR h hst).answers _ _ _ _ hi⟩
  | reported _ hs _ => exact ⟨_, step_record hR h.keyed hst hs⟩

/-! ## The status -/

theorem advance_provider (hst : step P s (.advance i o) = some t) : t.provider = s.provider := by
  cases step_cases hst with
  | receive _ => split <;> simp
  | _ => simp

theorem Reports.status {d : Delivery} {status : PayoutState} (hr : Reports s a c d status)
    (hst : step P s a = some t) : (t.settlements c).payoutStatus = status := by
  obtain ⟨i, o, p, rfl, ho, hi, hp⟩ := hr
  cases step_cases hst with
  | select hi' => cases hi.symm.trans hi'
  | work hi' _ _ => cases hi.symm.trans hi'
  | receive hi' => cases hi.symm.trans hi'; simp [receive, State.report, ho, hp]
  | acknowledge hi' => cases hi.symm.trans hi'

theorem covered_iff (hle : P.transfers s.provider c ≤ 1) (hprovider : t.provider = s.provider) :
    Covered P u s c ↔ ((s.settlements c).payoutStatus ≠ .completed →
      P.transfers u.provider c < P.transfers t.provider c) := by
  rw [Covered, or_iff_not_imp_left, hprovider]
  exact imp_congr_right fun _ => by omega

/-- The row becomes `COMPLETED` only when it is covered. -/
theorem completes_iff (hP : P.Idempotent) (hs : Held P record s) (hst : step P s a = some t) :
    KeepsTruth P record u c s a ↔
      ((s.settlements c).payoutStatus ≠ .completed → (t.settlements c).payoutStatus = .completed →
        P.transfers u.provider c < P.transfers t.provider c) := by
  have hle : P.transfers s.provider c ≤ 1 := hs.keyed.transfers hP c
  have hcovered : ∀ {i o}, a = .advance i o → (Covered P u s c ↔
      ((s.settlements c).payoutStatus ≠ .completed →
        P.transfers u.provider c < P.transfers t.provider c)) := by
    rintro i o rfl
    exact covered_iff hle (advance_provider hst)
  constructor
  · intro hk hrow hcompleted
    rcases step_status hst c with ⟨hkept, -⟩ | ⟨τ, status, hw, hset, hstatus, -⟩ |
      ⟨d, status, hreport, hstatus, -⟩
    · exact absurd (hkept.symm.trans hcompleted) hrow
    · cases hstatus.symm.trans hcompleted
      obtain ⟨answer, rfl, hprocessed⟩ := sets_completed hset
      obtain ⟨i, o, rest, ha, -, hi⟩ := id hw
      have hrecord := hs.answers i c answer rest hi
      exact (hcovered ha).mp (hk.replays answer answer hw hrecord hprocessed) hrow
    · cases hstatus.symm.trans hcompleted
      obtain ⟨i, o, p, ha, -⟩ := id hreport
      exact (hcovered ha).mp (hk.reports d hreport) hrow
  · intro h
    constructor
    case replays =>
      intro answer result hw hrecord hprocessed
      obtain ⟨i, o, rest, ha, -, hi⟩ := id hw
      cases (hs.answers i c answer rest hi).symm.trans hrecord
      have hset : (Task.record c answer).sets = some (c, .completed) := by
        rw [Task.sets, finalStatus_completed.mpr hprocessed]
      exact (hcovered ha).mpr fun hrow => h hrow (hw.status hst hset)
    case reports =>
      intro d hreport
      obtain ⟨i, o, p, ha, -⟩ := id hreport
      exact (hcovered ha).mpr fun hrow => h hrow (hreport.status hst)

/-! ## The attempt of the sweep -/

theorem advance_next (hi : s.actors i = .working τ rest) (hnext : perform s τ = (t, some τ')) :
    step P s (.advance i .ok) = some (t.setActor i (.working τ' rest)) := by
  have hsweep : τ ≠ .sweep := by rintro rfl; cases hnext
  have hinit : ∀ c x n y, τ ≠ .initiate c x n y := by rintro _ _ _ _ rfl; cases hnext
  simp only [step, advance, hi]
  split <;> simp_all

theorem call_next {cause : γ}
    (hi : s.actors i = .working (.initiate c accountId amountMinor currency) rest)
    (ha : (P.initiatePayout s.provider (request c accountId amountMinor currency) cause).2 =
      .ok result) :
    step P s (.call i [cause] none) = some (State.setActor { s with
      provider :=
        (P.initiatePayout s.provider (request c accountId amountMinor currency) cause).1 }
      i (.working (.record c result) rest)) := by
  simp [step, call, hi, Provider.receive, ha]

theorem record_next (hi : s.actors i = .working (.record c result) rest) :
    ∃ t, step P s (.advance i .ok) = some t ∧ t.provider = s.provider := by
  have hst : (step P s (.advance i .ok)).isSome := by simp [step, advance, hi, perform]
  obtain ⟨t, ht⟩ := Option.isSome_iff_exists.mp hst
  exact ⟨t, ht, advance_provider ht⟩

/-- The attempt asks the provider and leaves it as the request does. -/
theorem exec_attempted (hd : Due s i c accountId amountMinor currency) {cause : γ}
    (ha : (P.initiatePayout s.provider (request c accountId amountMinor currency) cause).2 =
      .ok result) :
    ∃ t, (system P).exec s (attempted i cause) = some t ∧ t.provider =
      (P.initiatePayout s.provider (request c accountId amountMinor currency) cause).1 := by
  obtain ⟨freelancerId, rest, hi, haccount⟩ := hd.row
  obtain ⟨paymentId, htransfer, hescrow⟩ := hd.escrow
  let s₁ := s.setActor i (.working (.selectTransfer c accountId) rest)
  have h₁ : step P s (.advance i .ok) = some s₁ :=
    advance_next hi (by simp [perform, haccount, hd.accountId_ne])
  let s₂ := s₁.setActor i (.working (.selectAmount c accountId paymentId) rest)
  have h₂ : step P s₁ (.advance i .ok) = some s₂ :=
    advance_next (Function.update_self ..) (by simp [perform, s₁, htransfer])
  let s₃ := s₂.setActor i (.working (.markProcessing c accountId amountMinor currency) rest)
  have hescrow₂ : s₂.escrow paymentId = some (amountMinor, currency) := hescrow
  have h₃ : step P s₂ (.advance i .ok) = some s₃ :=
    advance_next (Function.update_self ..)
      (by simp [perform, hescrow₂, hd.amountMinor_ne, hd.currency_ne])
  let s₄ := (s₃.setRow c fun row =>
    { row with payoutStatus := .processing, payoutAttempts := row.payoutAttempts + 1 }).setActor i
      (.working (.initiate c accountId amountMinor currency) rest)
  have h₄ : step P s₃ (.advance i .ok) = some s₄ := advance_next (Function.update_self ..) rfl
  let s₅ := State.setActor { s₄ with
    provider := (P.initiatePayout s.provider (request c accountId amountMinor currency) cause).1 }
    i (.working (.record c result) rest)
  have h₅ : step P s₄ (.call i [cause] none) = some s₅ := call_next (Function.update_self ..) ha
  obtain ⟨t, h₆, hprovider⟩ := record_next (P := P) (s := s₅) (Function.update_self ..)
  refine ⟨t, ?_, hprovider⟩
  simp only [attempted, advances, List.replicate, List.cons_append, List.nil_append, Machine.exec,
    system, h₁, h₂, h₃, h₄, h₅, h₆, Option.bind_some]

/-- Under the key of the record the provider executes nothing, whatever it would accept. -/
theorem pays_iff (hR : P.Replays record) (hs : Held P record s)
    (hrecord : record s.provider (idempotencyKey c) = some result) :
    Refuses P s c ↔ Pays P s c := by
  obtain ⟨qs, hqs, -⟩ := hs.keyed
  constructor
  · intro h i accountId amountMinor currency cause hd haccepts
    exact absurd haccepts (h i accountId amountMinor currency cause hd)
  · intro h i accountId amountMinor currency cause hd haccepts
    obtain ⟨t, ht, hlt⟩ := h i accountId amountMinor currency cause hd haccepts
    obtain ⟨ha, hexecuted⟩ := hR.answers qs s.provider hqs
      (request c accountId amountMinor currency) cause result hrecord
    obtain ⟨t', ht', hprovider⟩ := exec_attempted hd ha
    cases ht.symm.trans ht'
    rw [hprovider, Provider.transfers, Provider.transfers, hexecuted] at hlt
    exact lt_irrefl _ hlt

/-! ## Runs -/

theorem held_run (hR : P.Replays record) (h0 : Initial P s) (h : (system P).Run Any s as t) :
    Held P record t :=
  h.invariant (fun _ _ _ hs _ hst => held_step hR hs hst) (held_initial h0)

/--
From a failure of the transfer on, the status tells the truth exactly if no attempt repeats an old
`processed`, no event reports one, and the provider would accept nothing that the sweep asks for.
-/
theorem tellsTruth_iff (hP : P.Idempotent) (hR : P.Replays record) (h0 : Initial P s)
    (h : (system P).Run Any s as t) (hst : (system P).step t a = some u)
    (hf : Fails record t c a u) (hbs : (system P).Run Any u bs v) :
    TellsTruth P u bs c ↔
      (system P).Run (KeepsTruth P record u c) u bs v ∧
        ∀ w ∈ (system P).visited u bs, Refuses P w c := by
  have ht : Held P record t := held_run hR h0 h
  have hu : Held P record u := held_step hR ht hst
  obtain ⟨result, hrecord⟩ := hf.recorded hR ht hst
  have hcompletes := hbs.forall_steps_iff (K := KeepsTruth P record u c)
    (fun _ _ _ hs hst => held_step hR hs hst)
    (fun _ _ _ hs hst => completes_iff hP hs hst) hu
  have hpays : ∀ w ∈ (system P).visited u bs, (Refuses P w c ↔ Pays P w c) := by
    have hvisited := hbs.forall_visited
      (I := fun w => Held P record w ∧ record w.provider (idempotencyKey c) = some result)
      (fun _ _ _ hI _ hst => ⟨held_step hR hI.1 hst, step_record hR hI.1.keyed hst hI.2⟩)
      ⟨hu, hrecord⟩
    exact fun w hw => pays_iff hR (hvisited w hw).1 (hvisited w hw).2
  constructor
  · intro h
    exact ⟨hcompletes.mp h.completes, fun w hw => (hpays w hw).mpr (h.pays w hw)⟩
  · rintro ⟨hkeeps, hrefuses⟩
    exact ⟨hcompletes.mpr hkeeps, fun w hw => (hpays w hw).mp (hrefuses w hw)⟩

/-! ## A transfer that is reversed -/

/-- The first attempt is processed at once. -/
def paid : List (Action Unit) :=
  .commit 0 7 :: .attempt 0 0 "user" :: advances 0 4 ++ .call 0 [()] none :: advances 0 1

/-- The bank of the freelancer has sent the money back. -/
def reversal : Action Unit := .deliver 1 ⟨some 3, .reversed, some 1, 0, 50000, none⟩

/-- The webhook stores the failure, and the sweep retries the payout. -/
def retried : List (Action Unit) :=
  advances 1 4 ++ .sweep 0 :: advances 0 1 ++ attempted 0 ()

theorem exists_retried :
    ∃ t u v, (system FakePayoutAdapter.provider).exec (payable FakePayoutAdapter.provider) paid =
        some t ∧
      (system FakePayoutAdapter.provider).step t reversal = some u ∧
      Fails FakePayoutAdapter.record t 0 reversal u ∧
      (system FakePayoutAdapter.provider).exec u retried = some v ∧
      ((system FakePayoutAdapter.provider).steps u retried).any fun x =>
        (x.1.settlements 0).payoutStatus ≠ .completed ∧
          (x.2.2.settlements 0).payoutStatus = .completed ∧
          FakePayoutAdapter.provider.transfers u.provider 0 =
            FakePayoutAdapter.provider.transfers x.2.2.provider 0 := by
  have h : ((system FakePayoutAdapter.provider).exec (payable FakePayoutAdapter.provider) paid).any
      fun t => t.provider.record (idempotencyKey 0) =
          some ⟨1, .processed, 50000, "INR", 0, none⟩ ∧
        ((system FakePayoutAdapter.provider).step t reversal).any fun u =>
          ((system FakePayoutAdapter.provider).exec u retried).isSome ∧
          ((system FakePayoutAdapter.provider).steps u retried).any fun x =>
            (x.1.settlements 0).payoutStatus ≠ .completed ∧
              (x.2.2.settlements 0).payoutStatus = .completed ∧
              FakePayoutAdapter.provider.transfers u.provider 0 =
                FakePayoutAdapter.provider.transfers x.2.2.provider 0 := by
    decide +kernel
  obtain ⟨t, ht, h⟩ := (Option.any_eq_true _ _).mp h
  obtain ⟨hrecord, h⟩ := of_decide_eq_true h
  obtain ⟨u, hu, h⟩ := (Option.any_eq_true _ _).mp h
  obtain ⟨hv, hbad⟩ := of_decide_eq_true h
  obtain ⟨v, hv⟩ := Option.isSome_iff_exists.mp hv
  exact ⟨t, u, v, ht, hu, .reported (.inr (.inl rfl)) hrecord rfl, hv, hbad⟩

theorem tellsTruth_iff_reversal :
    ∃ t u v, (system FakePayoutAdapter.provider).exec (payable FakePayoutAdapter.provider) paid =
        some t ∧
      (system FakePayoutAdapter.provider).step t reversal = some u ∧
      (system FakePayoutAdapter.provider).exec u retried = some v ∧
      (TellsTruth FakePayoutAdapter.provider u retried 0 ↔
        (system FakePayoutAdapter.provider).Run
            (KeepsTruth FakePayoutAdapter.provider FakePayoutAdapter.record u 0) u retried v ∧
          ∀ w ∈ (system FakePayoutAdapter.provider).visited u retried,
            Refuses FakePayoutAdapter.provider w 0) := by
  obtain ⟨t, u, v, ht, hu, hf, hv, -⟩ := exists_retried
  exact ⟨t, u, v, ht, hu, hv, tellsTruth_iff FakePayoutAdapter.idempotent FakePayoutAdapter.replays
    (initial_payable _) (run_of_exec ht) hu hf (run_of_exec hv)⟩

/-- The sweep gets the old record and stores `COMPLETED`, and the money is not sent again. -/
theorem completed_without_transfer :
    ¬ ∀ (P : Provider FakePayoutAdapter Unit) record s as t a u bs v c, P.Idempotent →
      P.Replays record → Initial P s → (system P).Run Any s as t → (system P).step t a = some u →
      Fails record t c a u → (system P).Run Any u bs v → TellsTruth P u bs c := by
  intro hall
  obtain ⟨t, u, v, ht, hu, hf, hv, hbad⟩ := exists_retried
  have htruth := hall FakePayoutAdapter.provider FakePayoutAdapter.record _ paid t reversal u
    retried v 0 FakePayoutAdapter.idempotent FakePayoutAdapter.replays (initial_payable _)
    (run_of_exec ht) hu hf (run_of_exec hv)
  obtain ⟨x, hx, hbad⟩ := List.any_eq_true.mp hbad
  obtain ⟨hrow, hcompleted, htransfers⟩ := of_decide_eq_true hbad
  have hlt := htruth.completes x hx hrow hcompleted
  rw [htransfers] at hlt
  exact lt_irrefl _ hlt

end AssureCode.Payout
