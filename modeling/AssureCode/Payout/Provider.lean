import Mathlib.Data.List.Nodup
import Mathlib.Data.Nat.Notation
import Mathlib.Tactic.Common

/-! # The payout provider

What the worker asks of a payout provider, and the promise it relies on: one transfer at most for
each idempotency key. The fake adapter of the tests keeps it.
-/

namespace AssureCode.Payout

abbrev ContractId := ℕ
abbrev PayoutId := ℕ

inductive PayoutStatus
  | pending | rejected | queued | initiated | processing | processed | reversed | failed
  deriving DecidableEq, Repr

structure PayoutResult where
  payoutId : PayoutId
  status : PayoutStatus
  amountMinor : ℕ
  currency : String
  contractId : ContractId
  failureReason : Option String := none
  deriving DecidableEq, Repr

/-- The parameters of `initiatePayout`. -/
structure Request where
  contractId : ContractId
  accountId : String
  amountMinor : ℕ
  currency : String
  idempotencyKey : String
  deriving DecidableEq, Repr

/--
A provider with states `π`. What it makes of a request, and what becomes of its payouts
afterwards, depends on causes `γ` outside the worker.
-/
structure Provider (π γ : Type) where
  init : π
  initiatePayout : π → Request → γ → π × Except String PayoutResult
  evolve : π → γ → π
  /-- The transfers executed so far, each with the request that asked for it. -/
  executed : π → List Request
  /-- A payout is accepted under the key, and its outcome is open. -/
  processing : π → String → Bool

namespace Provider

variable {π γ : Type} (P : Provider π γ) {p : π} {q : Request} {qs : List Request}

/-- The provider has received these requests, the last one first. -/
inductive Reaches : List Request → π → Prop
  | init : Reaches [] P.init
  | initiatePayout {qs : List Request} {p : π} (q : Request) (cause : γ) :
      Reaches qs p → Reaches (q :: qs) (P.initiatePayout p q cause).1
  | evolve {qs : List Request} {p : π} (cause : γ) : Reaches qs p → Reaches qs (P.evolve p cause)

/-- One transfer at most for a key, and none that was not asked for. -/
structure Idempotent : Prop where
  once : ∀ qs p, P.Reaches qs p → ∀ key,
    ((P.executed p).filter (·.idempotencyKey = key)).length ≤ 1
  asked : ∀ qs p, P.Reaches qs p → ∀ q ∈ P.executed p, q ∈ qs

/--
Once a key has its record, a request under it is answered with the record and executes nothing.
-/
structure Replays (record : π → String → Option PayoutResult) : Prop where
  records : ∀ qs p, P.Reaches qs p → ∀ q cause result,
    (P.initiatePayout p q cause).2 = .ok result →
      record (P.initiatePayout p q cause).1 q.idempotencyKey = some result
  answers : ∀ qs p, P.Reaches qs p → ∀ q cause result, record p q.idempotencyKey = some result →
    (P.initiatePayout p q cause).2 = .ok result ∧
      P.executed (P.initiatePayout p q cause).1 = P.executed p
  keeps : ∀ qs p, P.Reaches qs p → ∀ q cause key result, record p key = some result →
    record (P.initiatePayout p q cause).1 key = some result
  evolves : ∀ qs p, P.Reaches qs p → ∀ cause key result, record p key = some result →
    record (P.evolve p cause) key = some result

/-- The number of transfers executed for a contract. -/
def transfers (p : π) (c : ContractId) : ℕ := ((P.executed p).filter (·.contractId = c)).length

/-- The provider would execute the transfer that is asked for, under some key. -/
def Accepts (p : π) (q : Request) (cause : γ) : Prop :=
  ∃ key, P.transfers p q.contractId <
    P.transfers (P.initiatePayout p { q with idempotencyKey := key } cause).1 q.contractId

/-- A request that the adapter sends once or, after failures, several times. -/
def receive (p : π) (q : Request) : List γ → π × Option (Except String PayoutResult)
  | [] => (p, none)
  | [cause] => ((P.initiatePayout p q cause).1, some (P.initiatePayout p q cause).2)
  | cause :: causes => receive (P.initiatePayout p q cause).1 q causes

theorem reaches_receive (causes : List γ) (h : P.Reaches qs p) :
    ∃ qs', P.Reaches qs' (P.receive p q causes).1 ∧ ∀ q' ∈ qs', q' = q ∨ q' ∈ qs := by
  induction causes generalizing p qs with
  | nil => exact ⟨qs, h, fun _ => .inr⟩
  | cons cause causes ih =>
    have h' : P.Reaches (q :: qs) (P.initiatePayout p q cause).1 := .initiatePayout q cause h
    cases causes with
    | nil => exact ⟨q :: qs, h', fun q' hq' => List.mem_cons.mp hq'⟩
    | cons cause' causes =>
      obtain ⟨qs', hqs', hmem⟩ := ih h'
      refine ⟨qs', hqs', fun q' hq' => ?_⟩
      rcases hmem q' hq' with rfl | hq'
      · exact .inl rfl
      · exact List.mem_cons.mp hq'

section Replays

variable {P} {record : π → String → Option PayoutResult} {key : String} {result : PayoutResult}
  {causes : List γ}

theorem Replays.receive_keeps (hR : P.Replays record) (h : P.Reaches qs p)
    (hp : record p key = some result) : record (P.receive p q causes).1 key = some result := by
  induction causes generalizing p qs with
  | nil => exact hp
  | cons cause causes ih =>
    have hkept := hR.keeps qs p h q cause key result hp
    cases causes with
    | nil => exact hkept
    | cons cause' causes => exact ih (.initiatePayout q cause h) hkept

/-- The answer to the last of the requests that were sent is the record of the key. -/
theorem Replays.receive_records (hR : P.Replays record) (h : P.Reaches qs p)
    (ha : (P.receive p q causes).2 = some (.ok result)) :
    record (P.receive p q causes).1 q.idempotencyKey = some result := by
  induction causes generalizing p qs with
  | nil => cases ha
  | cons cause causes ih =>
    cases causes with
    | nil => exact hR.records qs p h q cause result (Option.some.inj ha)
    | cons cause' causes => exact ih (.initiatePayout q cause h) ha

end Replays

end Provider

/-! ## The fake adapter -/

/-- The records of `FakePayoutAdapter`, the newest first. -/
structure FakePayoutAdapter where
  payouts : List (Request × PayoutResult) := []
  seq : ℕ := 0
  deriving DecidableEq, Repr

namespace FakePayoutAdapter

/-- A repeated key gets the original record. -/
def initiatePayout (p : FakePayoutAdapter) (q : Request) :
    FakePayoutAdapter × Except String PayoutResult :=
  match p.payouts.find? (·.1.idempotencyKey = q.idempotencyKey) with
  | some (_, result) => (p, .ok result)
  | none =>
    let result : PayoutResult :=
      ⟨p.seq + 1, .processed, q.amountMinor, q.currency, q.contractId, none⟩
    (⟨(q, result) :: p.payouts, p.seq + 1⟩, .ok result)

def provider : Provider FakePayoutAdapter Unit where
  init := {}
  initiatePayout p q _ := initiatePayout p q
  evolve p _ := p
  executed p := p.payouts.map (·.1)
  processing _ _ := false

theorem idempotent : provider.Idempotent := by
  have hnodup : ∀ qs p, provider.Reaches qs p → (p.payouts.map (·.1.idempotencyKey)).Nodup := by
    intro qs p h
    induction h with
    | init => exact List.nodup_nil
    | @initiatePayout qs p q cause _ ih =>
      simp only [provider, initiatePayout]
      split
      · exact ih
      · next hnone =>
        refine List.nodup_cons.mpr ⟨fun hmem => ?_, ih⟩
        obtain ⟨x, hx, hk⟩ := List.mem_map.mp hmem
        exact List.find?_eq_none.mp hnone x hx (decide_eq_true hk)
    | evolve _ _ ih => exact ih
  constructor
  · intro qs p h key
    have hcount : (p.payouts.map (·.1.idempotencyKey)).count key ≤ 1 :=
      List.nodup_iff_count_le_one.mp (hnodup qs p h) key
    have hlen : ((p.payouts.map (·.1)).filter (·.idempotencyKey = key)).length =
        (p.payouts.map (·.1.idempotencyKey)).count key := by
      rw [← List.countP_eq_length_filter, List.count, List.countP_map, List.countP_map]
      exact List.countP_congr fun _ _ => by simp
    exact hlen ▸ hcount
  · intro qs p h
    induction h with
    | init => simp [provider]
    | @initiatePayout qs p q cause _ ih =>
      intro q' hq'
      simp only [provider, initiatePayout] at hq'
      split at hq'
      · exact List.mem_cons_of_mem _ (ih q' hq')
      · rcases List.mem_cons.mp hq' with rfl | hq'
        · exact List.mem_cons_self
        · exact List.mem_cons_of_mem _ (ih q' hq')
    | evolve _ _ ih => exact ih

/-- The record under a key. -/
def record (p : FakePayoutAdapter) (key : String) : Option PayoutResult :=
  (p.payouts.find? (·.1.idempotencyKey = key)).map (·.2)

theorem initiatePayout_of_record {p : FakePayoutAdapter} {q : Request} {result : PayoutResult}
    (h : p.record q.idempotencyKey = some result) : initiatePayout p q = (p, .ok result) := by
  obtain ⟨x, hx, rfl⟩ := Option.map_eq_some_iff.mp h
  rw [initiatePayout, hx]

theorem initiatePayout_of_fresh {p : FakePayoutAdapter} {q : Request}
    (h : p.record q.idempotencyKey = none) :
    initiatePayout p q =
      let result := ⟨p.seq + 1, .processed, q.amountMinor, q.currency, q.contractId, none⟩
      (⟨(q, result) :: p.payouts, p.seq + 1⟩, .ok result) := by
  rw [initiatePayout, Option.map_eq_none_iff.mp h]

theorem replays : provider.Replays record := by
  constructor
  case records =>
    intro _ p _ q _ result ha
    cases hrecord : p.record q.idempotencyKey with
    | some result' =>
      simp only [provider, initiatePayout_of_record hrecord] at ha ⊢
      cases ha
      exact hrecord
    | none =>
      simp only [provider, initiatePayout_of_fresh hrecord] at ha ⊢
      cases ha
      simp [record]
  case answers =>
    intro _ p _ q _ result hp
    simp [provider, initiatePayout_of_record hp]
  case keeps =>
    intro _ p _ q _ key result hp
    cases hrecord : p.record q.idempotencyKey with
    | some result' => simpa only [provider, initiatePayout_of_record hrecord] using hp
    | none =>
      -- A key with a record is not the key of the new one.
      have hne : q.idempotencyKey ≠ key := by
        rintro rfl
        cases hrecord.symm.trans hp
      simpa [provider, initiatePayout_of_fresh hrecord, record, hne] using hp
  case evolves => exact fun _ _ _ _ _ _ hp => hp

end FakePayoutAdapter

/-! ## A transfer that takes its time -/

/-- A provider that answers every request with the same payout, still in progress. -/
def slowProvider : Provider Unit Unit where
  init := ()
  initiatePayout _ q _ :=
    ((), .ok ⟨1, .processing, q.amountMinor, q.currency, q.contractId, none⟩)
  evolve _ _ := ()
  executed _ := []
  processing _ _ := true

end AssureCode.Payout
