import AssureCode.Escrow.Model
import AssureCode.Payout.Provider

/-! # The payout leg

`attemptPayout` of the settlement worker, called by live handlers, by the recovery and by the
sweep `reconcilePendingPayouts`, and the payout branch of the webhook. Every handler is a program
of statements and calls, one a step; each may throw with or without having taken effect, and a
process may die between any two of them.
-/

namespace AssureCode.Payout

open Escrow (EventId PaymentEvent)
open Settlement (PaymentId SettlementStatus Outcome)

/-- The values of `settlements.payout_status`. -/
inductive PayoutState | pending | processing | completed | failed | failedTerminal
  deriving DecidableEq, Repr

/-- The row of `settlements`, as far as the payout leg uses it. -/
structure Settlement where
  status : SettlementStatus := .processing
  transferId : Option PaymentId := none
  payoutStatus : PayoutState := .pending
  payoutId : Option PayoutId := none
  payoutFailureReason : Option String := none
  payoutAttempts : ℕ := 0
  deriving DecidableEq, Repr

/-- `event.event`, as far as the payout branch tells events apart. -/
inductive EventType
  | processed
  | failed
  | reversed
  | rejected
  | other (name : String)
  deriving DecidableEq, Repr

def EventType.name : EventType → String
  | .processed => "payout.processed"
  | .failed => "payout.failed"
  | .reversed => "payout.reversed"
  | .rejected => "payout.rejected"
  | .other name => name

/-- `finalPayoutStatus` -/
def EventType.finalPayoutStatus : EventType → Option PayoutState
  | .processed => some .completed
  | .failed | .reversed | .rejected => some .failed
  | .other _ => none

/-- An authenticated payout webhook; its id is the `x-razorpay-event-id` header. -/
structure Delivery where
  providerEventId : Option EventId
  event : EventType
  payoutId : Option PayoutId
  /-- From the notes of the payout; no handler reads it. -/
  contractId : ContractId
  amount : ℕ := 0
  failureReason : Option String := none
  deriving DecidableEq, Repr

/-- A row of the sweep's `SELECT`. -/
structure PendingPayout where
  contractId : ContractId
  freelancerId : String
  payoutAttempts : ℕ
  deriving DecidableEq, Repr

/-- Each constructor names the statement or call a worker performs next. -/
inductive Task
  | selectAccount (c : ContractId) (freelancerId : String)
  | selectTransfer (c : ContractId) (accountId : String)
  | selectAmount (c : ContractId) (accountId : String) (paymentId : PaymentId)
  | markProcessing (c : ContractId) (accountId : String) (amountMinor : ℕ) (currency : String)
  | initiate (c : ContractId) (accountId : String) (amountMinor : ℕ) (currency : String)
  | markFailed (c : ContractId) (message : String)
  | record (c : ContractId) (result : PayoutResult)
  | sweep
  | markTerminal (c : ContractId)
  deriving DecidableEq, Repr

/-- The statements of the webhook. -/
inductive Receipt
  | select (p : PayoutId)
  | dedupe (p : PayoutId) (c : ContractId)
  | update (p : PayoutId) (status : PayoutState)
  deriving DecidableEq, Repr

/-- A sweep has the rest of its rows in hand; a handler or the recovery has none. -/
inductive Actor
  | idle
  | working (t : Task) (rest : List PendingPayout)
  | receiving (r : Receipt) (d : Delivery)
  | acknowledging (d : Delivery)
  deriving DecidableEq, Repr

/-- How an attempt that was counted ended. -/
inductive Ending | accepted | failed | crashed
  deriving DecidableEq, Repr

/-- `endings`, `reports` and `acknowledged` are history; no handler reads them. -/
structure State (π : Type) where
  settlements : ContractId → Settlement := fun _ => {}
  contracts : List ContractId := []
  freelancers : ContractId → String := fun _ => ""
  payoutAccounts : String → Option String := fun _ => none
  /-- The amount and the currency of the escrow row that a payment holds. -/
  escrow : PaymentId → Option (ℕ × String) := fun _ => none
  paymentEvents : List PaymentEvent := []
  provider : π
  endings : ContractId → Ending → ℕ := fun _ _ => 0
  /-- The status that the newest webhook update gave to the row. -/
  reports : ContractId → Option PayoutState := fun _ => none
  acknowledged : List Delivery := []
  actors : ℕ → Actor := fun _ => .idle

variable {π γ : Type}

namespace State

def setActor (s : State π) (i : ℕ) (a : Actor) : State π :=
  { s with actors := Function.update s.actors i a }

/-- `UPDATE settlements SET … WHERE contract_id = …` -/
def setRow (s : State π) (c : ContractId) (f : Settlement → Settlement) : State π :=
  { s with settlements := Function.update s.settlements c (f (s.settlements c)) }

def ended (s : State π) (c : ContractId) (e : Ending) : State π :=
  { s with endings := Function.update s.endings c <|
      Function.update (s.endings c) e (s.endings c e + 1) }

end State

/-! ## The worker -/

/-- `PAYOUT_MAX_ATTEMPTS` -/
def maxAttempts : ℕ := 5

/-- One key for a contract, on every path. -/
def idempotencyKey (c : ContractId) : String := "payout_" ++ toString c

def request (c : ContractId) (accountId : String) (amountMinor : ℕ) (currency : String) : Request :=
  ⟨c, accountId, amountMinor, currency, idempotencyKey c⟩

/-- `finalStatus` -/
def PayoutResult.finalStatus (r : PayoutResult) : PayoutState :=
  match r.status with
  | .processed => .completed
  | .failed => .failed
  | _ => .processing

/-- `attemptPayout` up to its first statement. -/
def attemptPayout (c : ContractId) (freelancerId : String) : Option Task :=
  if freelancerId = "" then none else some (.selectAccount c freelancerId)

/-- The `SELECT` of `reconcilePendingPayouts`. -/
def pendingPayouts (s : State π) : List PendingPayout :=
  (s.contracts.filter fun c =>
    let row := s.settlements c
    row.status = .completed ∧
      (row.payoutStatus = .pending ∨ row.payoutStatus = .failed ∨ row.payoutStatus = .processing) ∧
      (s.payoutAccounts (s.freelancers c)).isSome).map fun c =>
    ⟨c, s.freelancers c, (s.settlements c).payoutAttempts⟩

/-- The loop of `reconcilePendingPayouts` from the next row on. -/
def sweepRows : List PendingPayout → Actor
  | [] => .idle
  | row :: rest =>
    if maxAttempts ≤ row.payoutAttempts then .working (.markTerminal row.contractId) rest
    else
      match attemptPayout row.contractId row.freelancerId with
      | some t => .working t rest
      | none => sweepRows rest

/-- The next statement or call of a worker, when it succeeds; `none` where the function returns. -/
def perform (s : State π) : Task → State π × Option Task
  | .selectAccount c freelancerId =>
    (s, ((s.payoutAccounts freelancerId).filter (· ≠ "")).map (.selectTransfer c))
  | .selectTransfer c accountId => (s, (s.settlements c).transferId.map (.selectAmount c accountId))
  | .selectAmount c accountId paymentId =>
    (s, ((s.escrow paymentId).filter fun x => x.1 ≠ 0 ∧ x.2 ≠ "").map fun x =>
      .markProcessing c accountId x.1 x.2)
  | .markProcessing c accountId amountMinor currency =>
    (s.setRow c fun row =>
      { row with payoutStatus := .processing, payoutAttempts := row.payoutAttempts + 1 },
      some (.initiate c accountId amountMinor currency))
  | .markFailed c message =>
    (s.setRow c fun row =>
      { row with payoutStatus := .failed, payoutFailureReason := some message }, none)
  | .record c result =>
    (s.setRow c fun row =>
      { row with
        payoutStatus := result.finalStatus
        payoutId := some result.payoutId
        payoutFailureReason := result.failureReason }, none)
  | .markTerminal c =>
    (s.setRow c fun row =>
      if row.payoutStatus = .failedTerminal then row
      else { row with payoutStatus := .failedTerminal }, none)
  -- The call and the `SELECT` of the sweep have steps of their own.
  | .initiate .. | .sweep => (s, none)

/-- How a counted attempt has ended when this task is its last, and with an exception or not. -/
def Task.ending (t : Task) (raised : Bool) : Option (ContractId × Ending) :=
  match t, raised with
  | .markFailed c _, _ => some (c, .failed)
  | .record c result, false =>
    some (c, if result.status = .failed then .failed else .accepted)
  | .record c _, true => some (c, .failed)
  | _, _ => none

/-- An attempt has been counted and has not ended. -/
def Task.counted : Task → Option ContractId
  | .initiate c _ _ _ | .markFailed c _ | .record c _ => some c
  | _ => none

def Actor.counted : Actor → Option ContractId
  | .working t _ => t.counted
  | _ => none

def State.end? (s : State π) (e : Option (ContractId × Ending)) : State π :=
  e.elim s fun x => s.ended x.1 x.2

/-! ## The webhook -/

def recordPaymentEvent (s : State π) (e : PaymentEvent) : State π × Bool :=
  if e.providerEventId.isSome ∧ s.paymentEvents.any (·.providerEventId = e.providerEventId) then
    (s, false)
  else ({ s with paymentEvents := e :: s.paymentEvents }, true)

/-- The payout branch of the webhook up to its first statement. -/
def Delivery.start (d : Delivery) : Actor :=
  match d.payoutId with
  | some p => .receiving (.select p) d
  | none => .acknowledging d

def Delivery.paymentEvent (d : Delivery) (p : PayoutId) (c : ContractId) : PaymentEvent where
  contractId := c
  eventType := d.event.name
  amountMinor := d.amount
  paymentId := some p
  providerEventId := d.providerEventId

/-- The dedupe gate, and the choice of the update. -/
def Delivery.gate (d : Delivery) (p : PayoutId) (inserted : Bool) : Actor :=
  if d.providerEventId.isSome ∧ inserted = false then .acknowledging d
  else
    match d.event.finalPayoutStatus with
    | some status => .receiving (.update p status) d
    | none => .acknowledging d

/-- `UPDATE settlements SET … WHERE payout_id = …` -/
def State.report (s : State π) (p : PayoutId) (status : PayoutState) (reason : Option String) :
    State π :=
  { s with
    settlements := fun c =>
      if (s.settlements c).payoutId = some p then
        { s.settlements c with payoutStatus := status, payoutFailureReason := reason }
      else s.settlements c
    reports := fun c => if (s.settlements c).payoutId = some p then some status else s.reports c }

/-- The next statement of the webhook, when it succeeds. -/
def receive (s : State π) (d : Delivery) : Receipt → State π × Actor
  | .select p =>
    match s.contracts.find? fun c => (s.settlements c).payoutId = some p with
    | some c => (s, .receiving (.dedupe p c) d)
    | none => (s, .acknowledging d)
  | .dedupe p c =>
    let (s, inserted) := recordPaymentEvent s (d.paymentEvent p c)
    (s, d.gate p inserted)
  | .update p status => (s.report p status d.failureReason, .acknowledging d)

/-- Where an exception of the webhook's statement leads. -/
def raised (d : Delivery) : Receipt → Actor
  | .dedupe p _ => d.gate p false
  | _ => .idle

/-! ## The system -/

def advance (s : State π) (i : ℕ) (o : Outcome) : Option (State π) :=
  match s.actors i, o with
  | .idle, _ | .working (.initiate ..) _, _ => none
  | .working .sweep _, .ok => some (s.setActor i (sweepRows (pendingPayouts s)))
  | .working .sweep _, _ => some (s.setActor i .idle)
  | .working t rest, .ok =>
    some <| match perform s t with
      | (s, some t') => s.setActor i (.working t' rest)
      | (s, none) => (s.end? (t.ending false)).setActor i (sweepRows rest)
  | .working t rest, .failed => some ((s.end? (t.ending true)).setActor i (sweepRows rest))
  | .working t rest, .lost =>
    -- A mark whose acknowledgement is lost has counted the attempt that it ends.
    let lost := match t with
      | .markProcessing c _ _ _ => some (c, Ending.failed)
      | t => t.ending true
    some (((perform s t).1.end? lost).setActor i (sweepRows rest))
  | .receiving r d, .ok => some ((receive s d r).1.setActor i (receive s d r).2)
  | .receiving r d, .failed => some (s.setActor i (raised d r))
  | .receiving r d, .lost => some ((receive s d r).1.setActor i (raised d r))
  | .acknowledging d, .ok =>
    some (State.setActor { s with acknowledged := d :: s.acknowledged } i .idle)
  | .acknowledging _, _ => some (s.setActor i .idle)

inductive Action (γ : Type)
  /-- Razorpay delivers a payout event, as often as it likes. -/
  | deliver (i : ℕ) (d : Delivery)
  /-- A handler or the recovery has settled the contract. -/
  | attempt (i : ℕ) (c : ContractId) (freelancerId : String)
  | sweep (i : ℕ)
  | advance (i : ℕ) (o : Outcome)
  /-- The provider receives the request, more than once when the adapter repeats it; a network
  failure that is not overcome reaches the worker as an error. -/
  | call (i : ℕ) (causes : List γ) (error : Option String)
  | crash (i : ℕ)
  /-- `commitSettlement` -/
  | commit (c : ContractId) (p : PaymentId)
  | setPayoutAccount (freelancerId : String) (accountId : Option String)
  /-- Payouts at the provider go on. -/
  | evolve (cause : γ)
  deriving DecidableEq, Repr

/-- The call of `initiatePayout` and the `catch` around it. -/
def call (P : Provider π γ) (s : State π) (i : ℕ) (causes : List γ) (error : Option String) :
    Option (State π) :=
  match s.actors i with
  | .working (.initiate c accountId amountMinor currency) rest =>
    let (p, answer) := P.receive s.provider (request c accountId amountMinor currency) causes
    let s := { s with provider := p }
    match error, answer with
    | some message, _ | none, some (.error message) =>
      some (s.setActor i (.working (.markFailed c message) rest))
    | none, some (.ok result) => some (s.setActor i (.working (.record c result) rest))
    | none, none => none
  | _ => none

def step (P : Provider π γ) (s : State π) : Action γ → Option (State π)
  | .deliver i d => if s.actors i = .idle then some (s.setActor i d.start) else none
  | .attempt i c freelancerId =>
    if s.actors i = .idle ∧ (s.settlements c).status = .completed then
      some (s.setActor i ((attemptPayout c freelancerId).elim .idle (.working · [])))
    else none
  | .sweep i => if s.actors i = .idle then some (s.setActor i (.working .sweep [])) else none
  | .advance i o => Payout.advance s i o
  | .call i causes error => Payout.call P s i causes error
  | .crash i =>
    some (((s.actors i).counted.elim s fun c => s.ended c .crashed).setActor i .idle)
  | .commit c p =>
    if (s.settlements c).status = .completed then none
    else some (s.setRow c fun row => { row with status := .completed, transferId := some p })
  | .setPayoutAccount freelancerId accountId =>
    some { s with payoutAccounts := Function.update s.payoutAccounts freelancerId accountId }
  | .evolve cause => some { s with provider := P.evolve s.provider cause }

/-- No settlement has been paid out yet, and no handler is running. -/
def Initial (P : Provider π γ) (s : State π) : Prop :=
  (∀ c, (s.settlements c).payoutStatus = .pending ∧ (s.settlements c).payoutId = none ∧
      (s.settlements c).payoutAttempts = 0) ∧
    s.paymentEvents = [] ∧ s.provider = P.init ∧ (∀ c e, s.endings c e = 0) ∧
    (∀ c, s.reports c = none) ∧ s.acknowledged = [] ∧ ∀ i, s.actors i = .idle

def system (P : Provider π γ) : Machine (State π) (Action γ) where
  init := Initial P
  step := step P

end AssureCode.Payout
