import Mathlib.Logic.Function.Basic
import AssureCode.Js.WhiteSpace
import AssureCode.Oracle.Store
import AssureCode.Transition.Run

/-! # The settlement of one contract

The rows the settlement worker reads and writes, the payment provider, the
events on the bus, and the handlers as programs over them. A handler performs
one statement or one external call per step. Each may succeed, throw without
having taken effect, or throw after taking effect; a process may die between
any two steps.
-/

namespace AssureCode.Settlement

open Oracle

/-- Razorpay identifiers are only ever compared. -/
abbrev OrderId := ℕ
abbrev PaymentId := ℕ

/-- The values of `settlements.status`. -/
inductive SettlementStatus | processing | completed | failed
  deriving DecidableEq, Repr

/-- The row of `settlements`; its payout columns belong to the payout leg. -/
structure SettlementRow where
  status : SettlementStatus
  transferId : Option PaymentId := none
  deriving DecidableEq, Repr

/-- The values `escrow_status_check` admits. -/
inductive EscrowStatus | pending | authorized | captured | released | refunded | failed
  deriving DecidableEq, Repr

structure EscrowRow where
  orderId : OrderId
  paymentId : Option PaymentId := none
  amountCents : ℕ
  currency : String
  status : EscrowStatus := .pending
  deriving DecidableEq, Repr

/-- What `findEscrowPayment` returns, and what `capturePayment` is asked to take. -/
structure EscrowPayment where
  paymentId : PaymentId
  amountMinor : ℕ
  currency : String
  deriving DecidableEq, Repr

structure Profile where
  trustScore : ℚ
  deliveries : ℕ
  deriving DecidableEq, Repr

/-- The payload of `SETTLEMENT_REQUESTED`. -/
structure SettlementRequested where
  freelancerId : String
  amountCents : Option ℕ
  deriving DecidableEq, Repr

/-- The ledger payload of a settlement, also published; its `settledAt` stamp is never read. -/
structure SettlementPayload where
  freelancerId : String
  amountCents : ℕ
  paymentId : PaymentId
  currency : String
  trustScore : Option TrustScore
  criticalVulns : Option ℕ
  oracleSignals : OracleSignals
  recoveredFromCrash : Bool
  deriving DecidableEq, Repr

/-- The request body of `initiatePayout`, up to the constants it adds. -/
structure PayoutRequest where
  accountId : String
  amountMinor : ℕ
  currency : String
  deriving DecidableEq, Repr

/-- Who runs a settlement: the handler of an event, or the recovery of an abandoned row. -/
inductive Origin
  | live (event : SettlementRequested)
  | recovery (freelancerId : String)
  deriving DecidableEq, Repr

/-- Where a handler stands: each constructor names the operation it performs next. -/
inductive Actor
  | idle
  | evaluating (event : Option SettlementRequested)
  | claiming (event : SettlementRequested) (signals : OracleSignals)
  | reading (signals : OracleSignals)
  | selecting (o : Origin) (signals : OracleSignals)
  | capturing (o : Origin) (signals : OracleSignals) (held : EscrowPayment)
  | refetching (freelancerId : String) (signals : OracleSignals) (held : EscrowPayment)
  | committing (o : Origin) (signals : OracleSignals) (held : EscrowPayment)
  | rollingBack (o : Origin)
  | publishing (o : Origin) (payload : SettlementPayload)
  | sealing (freelancerId : String)
  | paying (freelancerId : String)
  | failing
  | rejecting
  deriving DecidableEq, Repr

/--
The database rows of the contract, the captures the provider holds, the events published and
the handlers. `escrow` lists the newest row first, as `ORDER BY created_at DESC` does.
-/
structure State where
  settlement : Option SettlementRow := none
  escrow : List EscrowRow := []
  ledger : List SettlementPayload := []
  freelancerId : Option String := none
  profiles : String → Option Profile := fun _ => none
  payoutAccounts : String → Option String := fun _ => none
  oracleState : Option OracleState := none
  scopeChecks : List ScopeCheck := []
  captured : List EscrowPayment := []
  requested : List SettlementRequested := []
  completed : List SettlementPayload := []
  payouts : List PayoutRequest := []
  actors : ℕ → Actor := fun _ => .idle

/-- The outcome of a statement or call; `lost` is an effect whose acknowledgement never came. -/
inductive Outcome | ok | failed | lost
  deriving DecidableEq, Repr

/-! ## The settle route -/

/-- The fields of the request body; `none` stands for an absent value or one of another type. -/
structure SettleBody where
  freelancerId : Option String
  amountCents : Option ℚ
  deriving DecidableEq, Repr

structure Reply where
  statusCode : ℕ
  error : Option String := none
  deriving DecidableEq, Repr

/-- `POST /settle`: the reply, and the event it publishes when it accepts. -/
def settleRoute (body : SettleBody) (isSettled : Bool) : Reply × Option SettlementRequested :=
  match body.freelancerId.filter (!Js.isBlank ·) with
  | none => (⟨400, some "freelancerId is required and must be a non-empty string"⟩, none)
  | some freelancerId =>
    match body.amountCents.filter fun q => decide (q.den = 1 ∧ 0 < q) with
    | none => (⟨400, some "amountCents is required and must be a positive integer"⟩, none)
    | some amount =>
      if isSettled then (⟨409, some "Contract already settled"⟩, none)
      else (⟨202, none⟩, some ⟨freelancerId, some amount.num.toNat⟩)

/-! ## Statements -/

/-- The newest `AUTHORIZED` row with a payment. -/
def findEscrowPayment (escrow : List EscrowRow) : Option EscrowPayment :=
  escrow.findSome? fun r =>
    if r.status = .authorized then r.paymentId.map (⟨·, r.amountCents, r.currency⟩) else none

/-- `claimSettlement`: the row after the upsert, when this statement is what claims it. -/
def claimSettlement : Option SettlementRow → Option SettlementRow
  | none => some { status := .processing }
  | some r => if r.status = .failed then some { r with status := .processing } else none

def markSettlementFailed (s : State) : State :=
  { s with settlement := s.settlement.map ({ · with status := .failed }) }

/-- The payload a settlement records; recovery re-reads what the handler takes from the event. -/
def settlementPayload (o : Origin) (signals : OracleSignals) (held : EscrowPayment) :
    SettlementPayload where
  freelancerId := match o with
    | .live event => event.freelancerId
    | .recovery freelancerId => freelancerId
  amountCents := match o with
    | .live event => event.amountCents.getD held.amountMinor
    | .recovery _ => held.amountMinor
  paymentId := held.paymentId
  currency := held.currency
  trustScore := signals.trustScore
  criticalVulns := signals.criticalVulns
  oracleSignals := signals
  recoveredFromCrash := match o with
    | .live _ => false
    | .recovery _ => true

/-- `UPDATE freelancer_profiles SET trust_score = …, deliveries = deliveries + 1`. -/
def creditProfile (profiles : String → Option Profile) (freelancerId : String)
    (trustScore : Option TrustScore) : String → Option Profile :=
  match trustScore with
  | some t =>
    if freelancerId = "" then profiles
    else Function.update profiles freelancerId
      ((profiles freelancerId).map fun p => ⟨t.toNumber / 100, p.deliveries + 1⟩)
  | none => profiles

/-- The transaction of `commitSettlement`. -/
def commitSettlement (s : State) (p : SettlementPayload) : State :=
  { s with
    ledger := p :: s.ledger
    escrow := s.escrow.map fun r =>
      if r.paymentId = some p.paymentId then { r with status := .released } else r
    settlement := s.settlement.map fun _ => ⟨.completed, some p.paymentId⟩
    profiles := creditProfile s.profiles p.freelancerId p.trustScore }

/-- The request `attemptPayout` sends, when it gets as far as sending one. -/
def payoutRequest (s : State) (freelancerId : String) : Option PayoutRequest := do
  guard (freelancerId ≠ "")
  let accountId ← (s.payoutAccounts freelancerId).filter (· ≠ "")
  let paymentId ← s.settlement.bind (·.transferId)
  let row ← s.escrow.find? fun r => r.paymentId = some paymentId
  guard (row.amountCents ≠ 0 ∧ row.currency ≠ "")
  return ⟨accountId, row.amountCents, row.currency⟩

/-! ## The handlers -/

def State.setActor (s : State) (i : ℕ) (a : Actor) : State :=
  { s with actors := Function.update s.actors i a }

/--
The operation an actor performs next, and where it stands afterwards. `oracle.evaluate` reads
rows that the worker never writes and that may change at any time, so its two reads are taken
at one instant.
-/
def perform (s : State) : Actor → Option (State × Actor)
  | .idle => none
  | .evaluating event =>
    let verdict := evaluate s.oracleState s.scopeChecks
    if verdict.approved then
      match event with
      | some e => some (s, .claiming e verdict.signals)
      | none => some (s, .reading verdict.signals)
    else some (s, if event.isSome then .rejecting else .idle)
  | .claiming event signals =>
    match claimSettlement s.settlement with
    | some row => some ({ s with settlement := some row }, .selecting (.live event) signals)
    | none => some (s, .idle)
  | .reading signals => some (s, .selecting (.recovery (s.freelancerId.getD "")) signals)
  | .selecting o signals =>
    match findEscrowPayment s.escrow, o with
    | some held, o => some (s, .capturing o signals held)
    | none, .live _ => some (s, .failing)
    | none, .recovery _ => some (s, .idle)
  | .capturing o signals held =>
    some ({ s with captured := held :: s.captured }, .committing o signals held)
  | .refetching freelancerId signals held =>
    some (s, if held.paymentId ∈ s.captured.map (·.paymentId)
      then .committing (.recovery freelancerId) signals held else .idle)
  | .committing o signals held =>
    let payload := settlementPayload o signals held
    some (commitSettlement s payload, .publishing o payload)
  | .rollingBack (.live _) => some (markSettlementFailed s, .failing)
  | .rollingBack (.recovery _) => some (markSettlementFailed s, .idle)
  | .publishing _ payload =>
    some ({ s with completed := payload :: s.completed }, .sealing payload.freelancerId)
  | .sealing freelancerId => some (s, .paying freelancerId)
  | .paying freelancerId =>
    some ({ s with payouts := (payoutRequest s freelancerId).toList ++ s.payouts }, .idle)
  | .failing => some (markSettlementFailed s, .rejecting)
  | .rejecting => some (s, .idle)

/-- The `catch` an exception of the current operation reaches. -/
def raise : Actor → Actor
  | .evaluating (some _) => .rejecting
  | .selecting (.live _) _ => .failing
  | .capturing (.live _) _ _ => .failing
  | .capturing (.recovery freelancerId) signals held => .refetching freelancerId signals held
  -- A failed `connect()` skips this `catch`; that is the same as the statement below failing too.
  | .committing o _ _ => .rollingBack o
  | .rollingBack (.live _) => .failing
  | .publishing (.live _) _ => .failing
  | .sealing freelancerId => .paying freelancerId
  | .failing => .rejecting
  | _ => .idle

def advance (s : State) (i : ℕ) : Outcome → Option State
  | .ok => (perform s (s.actors i)).map fun r => r.1.setActor i r.2
  | .failed => if s.actors i = .idle then none else some (s.setActor i (raise (s.actors i)))
  | .lost => (perform s (s.actors i)).map fun r => r.1.setActor i (raise (s.actors i))

/-! ## The system -/

/-- What the gateway, the customer and the other services may do meanwhile. -/
inductive Action
  /-- The settle route publishes an event. -/
  | settle (body : SettleBody)
  /-- The bus delivers a published event, as often as it likes. -/
  | deliver (i : ℕ) (event : SettlementRequested)
  /-- `reconcileAbandonedSettlements` of a starting worker finds the row. -/
  | sweep (i : ℕ)
  | advance (i : ℕ) (o : Outcome)
  | crash (i : ℕ)
  | createOrder (orderId : OrderId) (amountCents : ℕ) (currency : String)
  | authorize (orderId : OrderId) (paymentId : Option PaymentId)
  | failOrder (orderId : OrderId)
  | assign (freelancerId : Option String)
  | setOracle (row : Option OracleState) (checks : List ScopeCheck)
  | setPayoutAccount (freelancerId : String) (accountId : Option String)
  | createProfile (freelancerId : String) (trustScore : ℚ)
  | rescore (freelancerId : String) (trustScore : ℚ)
  deriving DecidableEq

def State.status (s : State) : Option SettlementStatus := s.settlement.map (·.status)

/-- `UPDATE escrow SET status = 'AUTHORIZED' … WHERE order_id = $2 AND status = 'PENDING'`. -/
def authorizeOrder (escrow : List EscrowRow) (orderId : OrderId) (paymentId : Option PaymentId) :
    List EscrowRow :=
  escrow.map fun r => if r.orderId = orderId ∧ r.status = .pending
    then { r with status := .authorized, paymentId := paymentId } else r

/-- `UPDATE escrow SET status = 'FAILED' … AND status IN ('PENDING', 'AUTHORIZED')`. -/
def failEscrow (escrow : List EscrowRow) (orderId : OrderId) : List EscrowRow :=
  escrow.map fun r => if r.orderId = orderId ∧ (r.status = .pending ∨ r.status = .authorized)
    then { r with status := .failed } else r

def step (s : State) : Action → Option State
  | .settle body => (settleRoute body !s.ledger.isEmpty).2.map fun event =>
      { s with requested := event :: s.requested }
  | .deliver i event =>
    if s.actors i = .idle ∧ event ∈ s.requested then some (s.setActor i (.evaluating (some event)))
    else none
  | .sweep i =>
    if s.actors i = .idle ∧ s.status = some .processing then some (s.setActor i (.evaluating none))
    else none
  | .advance i o => Settlement.advance s i o
  | .crash i => some (s.setActor i .idle)
  | .createOrder orderId amountCents currency =>
    if amountCents = 0 ∨ orderId ∈ s.escrow.map (·.orderId) then none
    else some { s with escrow := { orderId, amountCents, currency } :: s.escrow }
  | .authorize orderId paymentId =>
    -- The unique index on `payment_id` refuses a payment that another row holds.
    if paymentId.isSome ∧ paymentId ∈ s.escrow.map (·.paymentId) then none
    else some { s with escrow := authorizeOrder s.escrow orderId paymentId }
  | .failOrder orderId => some { s with escrow := failEscrow s.escrow orderId }
  | .assign freelancerId => some { s with freelancerId }
  | .setOracle row checks => some { s with oracleState := row, scopeChecks := checks }
  | .setPayoutAccount freelancerId accountId =>
    some { s with payoutAccounts := Function.update s.payoutAccounts freelancerId accountId }
  | .createProfile freelancerId trustScore =>
    if (s.profiles freelancerId).isSome then none
    else some { s with profiles := Function.update s.profiles freelancerId (some ⟨trustScore, 0⟩) }
  | .rescore freelancerId trustScore =>
    some { s with profiles := Function.update s.profiles freelancerId <|
      ((s.profiles freelancerId).map fun p => { p with trustScore }) }

/-- No settlement, order, capture or event of the contract yet, and no handler running. -/
def Initial (s : State) : Prop :=
  s.settlement = none ∧ s.escrow = [] ∧ s.ledger = [] ∧ s.captured = [] ∧ s.requested = [] ∧
    s.completed = [] ∧ s.payouts = [] ∧ ∀ i, s.actors i = .idle

def system : Machine State Action where
  init := Initial
  step := step

end AssureCode.Settlement
