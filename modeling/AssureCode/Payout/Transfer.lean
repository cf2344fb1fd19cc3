import AssureCode.Payout.Steps

/-! # One transfer for a contract

The rows of the database exclude nothing: live handlers, the recovery and any number of sweeps
may pay one contract at the same time, and again after a crash. That the provider executes one
transfer at most rests on the key alone, which every path makes from the contract.
-/

namespace AssureCode.Payout

open Machine

variable {π γ : Type} {P : Provider π γ} {s t : State π} {a : Action γ} {as : List (Action γ)}

/-- Everything the provider was asked for came under the key of its contract. -/
def Keyed (P : Provider π γ) (p : π) : Prop :=
  ∃ qs, P.Reaches qs p ∧ ∀ q ∈ qs, q.idempotencyKey = idempotencyKey q.contractId

theorem keyed_init : Keyed P P.init :=
  ⟨[], .init, fun _ h => absurd h List.not_mem_nil⟩

theorem Keyed.evolve {p : π} (h : Keyed P p) (cause : γ) : Keyed P (P.evolve p cause) := by
  obtain ⟨qs, hqs, hkey⟩ := h
  exact ⟨qs, .evolve cause hqs, hkey⟩

theorem Keyed.receive {p : π} (h : Keyed P p) (c : ContractId) (accountId : String)
    (amountMinor : ℕ) (currency : String) (causes : List γ) :
    Keyed P (P.receive p (request c accountId amountMinor currency) causes).1 := by
  obtain ⟨qs, hqs, hkey⟩ := h
  obtain ⟨qs', hqs', hmem⟩ := P.reaches_receive causes hqs
  refine ⟨qs', hqs', fun q hq => ?_⟩
  rcases hmem q hq with rfl | hq
  · rfl
  · exact hkey q hq

theorem keyed_step (h : Keyed P s.provider) (hst : step P s a = some t) :
    Keyed P t.provider := by
  cases step_cases hst with
  | call _ _ => exact h.receive ..
  | evolve => exact h.evolve _
  | receive _ => split <;> simpa using h
  | _ => simpa using h

theorem Keyed.transfers (h : Keyed P s.provider) (hP : P.Idempotent) (c : ContractId) :
    ((P.executed s.provider).filter (·.contractId = c)).length ≤ 1 := by
  obtain ⟨qs, hqs, hkey⟩ := h
  have hle : (P.executed s.provider).countP (·.contractId = c) ≤
      (P.executed s.provider).countP (·.idempotencyKey = idempotencyKey c) := by
    apply List.countP_mono_left
    intro q hq hc
    have hmem : q ∈ qs := hP.asked qs _ hqs q hq
    rw [decide_eq_true_eq] at hc ⊢
    rw [hkey q hmem, hc]
  rw [List.countP_eq_length_filter, List.countP_eq_length_filter] at hle
  exact hle.trans (hP.once qs _ hqs _)

/--
Whatever the workers do, crash and retry, whatever the network loses: no contract is paid twice.
-/
theorem transfers_le_one (hP : P.Idempotent) (h0 : Initial P s) (h : (system P).Run Any s as t) :
    ∀ u ∈ (system P).visited s as, ∀ c,
      ((P.executed u.provider).filter (·.contractId = c)).length ≤ 1 := by
  have hkeyed : ∀ u ∈ (system P).visited s as, Keyed P u.provider :=
    h.forall_visited (fun _ _ _ hI _ hst => keyed_step hI hst) (h0.2.2.1 ▸ keyed_init)
  intro u hu c
  exact (hkeyed u hu).transfers hP c

/-- A handler and a sweep pay the contract together; the handler's response is lost, it dies. -/
def payTogether : List (Action Unit) :=
  .commit 0 7 :: .attempt 0 0 "user" :: advances 0 3 ++ .sweep 1 :: advances 1 4 ++
    advances 0 1 ++ advances 1 1 ++
    [.call 0 [(), ()] (some "timeout"), .crash 0, .call 1 [()] none] ++ advances 1 1

theorem transfers_le_one_payTogether :
    ∃ t, (system FakePayoutAdapter.provider).exec (payable FakePayoutAdapter.provider) payTogether =
        some t ∧
      ∀ u ∈ (system FakePayoutAdapter.provider).visited (payable FakePayoutAdapter.provider)
          payTogether, ∀ c,
        ((FakePayoutAdapter.provider.executed u.provider).filter
          (·.contractId = c)).length ≤ 1 := by
  have h : ((system FakePayoutAdapter.provider).exec (payable FakePayoutAdapter.provider)
      payTogether).isSome := by decide +kernel
  obtain ⟨t, ht⟩ := Option.isSome_iff_exists.mp h
  exact ⟨t, ht, transfers_le_one FakePayoutAdapter.idempotent (initial_payable _) (run_of_exec ht)⟩

end AssureCode.Payout
