import AssureCode.Escrow.Table
import AssureCode.Gateway.Idempotency

/-! # Funding an escrow

The routes of the gateway that create, confirm and fail an escrow, the subscriber of the
settlement worker, and the two statements of a settlement on the table. Every handler is a
program of statements and calls, one a step. Each may succeed, throw without having taken
effect, or throw after taking effect; a process may die between any two steps. A request of
a client runs inside the idempotency middleware.
-/

namespace AssureCode.Escrow

open Gateway Settlement

abbrev EventId := ℕ
abbrev Key := ℕ

/-! ## What goes over the wire -/

/-- `event.event`, as far as the route tells events apart. -/
inductive EventType
  | paymentAuthorized
  | orderPaid
  | paymentFailed
  | paymentCaptured
  | other (name : String)
  deriving DecidableEq, Repr

def EventType.name : EventType → String
  | .paymentAuthorized => "payment.authorized"
  | .orderPaid => "order.paid"
  | .paymentFailed => "payment.failed"
  | .paymentCaptured => "payment.captured"
  | .other name => name

/-- A field is `none` when the body lacks it or holds a falsy value there. -/
structure PaymentEntity where
  id : Option PaymentId := none
  orderId : Option OrderId := none
  errorDescription : Option String := none
  deriving DecidableEq, Repr

structure OrderEntity where
  id : Option OrderId := none
  deriving DecidableEq, Repr

structure WebhookEvent where
  event : EventType
  payment : Option PaymentEntity := none
  order : Option OrderEntity := none
  deriving DecidableEq, Repr

def WebhookEvent.paymentId (e : WebhookEvent) : Option PaymentId := e.payment.bind (·.id)

def WebhookEvent.orderId (e : WebhookEvent) : Option OrderId :=
  (e.payment.bind (·.orderId)).or (e.order.bind (·.id))

def WebhookEvent.errorDescription (e : WebhookEvent) : Option String :=
  e.payment.bind (·.errorDescription)

/-- An authenticated payment webhook; its id is the `x-razorpay-event-id` header. -/
structure Delivery where
  providerEventId : Option EventId
  event : WebhookEvent
  deriving DecidableEq, Repr

/-- The payload of `ESCROW_LOCKED`. -/
structure Message where
  contractId : ContractId
  orderId : OrderId
  paymentId : Option PaymentId
  type : EventType
  deriving DecidableEq, Repr

/-- The ledger entries of the gateway. -/
inductive Entry
  | created (contractId : ContractId) (orderId : OrderId) (amountMinor : ℕ) (currency : String)
  | authorized (contractId : ContractId) (orderId : OrderId) (paymentId : Option PaymentId)
      (amountMinor : ℕ) (currency : String)
  | event (contractId : ContractId) (orderId : OrderId) (paymentId : Option PaymentId)
      (type : EventType) (errorDescription : Option String)
  deriving DecidableEq, Repr

/-- A row of `payment_events`. -/
structure PaymentEvent where
  contractId : ContractId
  eventType : String
  amountMinor : ℕ
  orderId : Option OrderId := none
  paymentId : Option PaymentId := none
  providerEventId : Option EventId := none
  deriving DecidableEq, Repr

inductive PaymentStatus | created | authorized | captured | refunded | failed
  deriving DecidableEq, Repr

def PaymentStatus.name : PaymentStatus → String
  | .created => "created"
  | .authorized => "authorized"
  | .captured => "captured"
  | .refunded => "refunded"
  | .failed => "failed"

/-- The body of `POST /escrow`; `none` stands for an absent field. -/
structure FundBody where
  amountMinor : Option ℚ := none
  amountCents : Option ℚ := none
  currency : Option String := none
  deriving DecidableEq, Repr

/-- What a checkout signature was made over, when its maker held the key. -/
abbrev Signature := Option (OrderId × PaymentId)

structure VerifyBody where
  razorpayOrderId : Option OrderId
  razorpayPaymentId : Option PaymentId
  razorpaySignature : Option Signature
  deriving DecidableEq, Repr

inductive Call
  | fund (contractId : ContractId) (body : FundBody)
  | verify (contractId : ContractId) (body : VerifyBody)
  deriving DecidableEq, Repr

/-- A request of a client to one gateway process. -/
structure Request where
  process : Process
  key : Option Key
  call : Call
  deriving DecidableEq, Repr

inductive Response
  | received
  | order (contractId : ContractId) (orderId : OrderId) (amountMinor : ℕ) (currency : String)
  | authorized (contractId : ContractId) (orderId : OrderId) (paymentId : PaymentId)
      (amountMinor : ℕ)
  | error (statusCode : ℕ) (error : String) (message : Option String)
  deriving DecidableEq, Repr

def Response.statusCode : Response → ℕ
  | .error statusCode _ _ => statusCode
  | _ => 200

def Response.orderId : Response → Option OrderId
  | .order _ orderId _ _ | .authorized _ orderId _ _ => some orderId
  | _ => none

/-! ## Where a handler stands -/

/-- Each constructor names the statement or call it performs next. -/
inductive Task
  | lookup (d : Delivery)
  | dedupe (d : Delivery) (row : Row)
  | markAuthorized (d : Delivery) (row : Row)
  | appendAuthorized (d : Delivery) (row : Row)
  | publishAuthorized (d : Delivery) (row : Row)
  | markFailed (d : Delivery) (row : Row)
  | appendFailed (d : Delivery) (row : Row)
  | publishFailed (d : Delivery) (row : Row)
  | find (c : ContractId) (o : OrderId) (p : PaymentId)
  | fetch (c : ContractId) (o : OrderId) (p : PaymentId) (row : Row)
  | confirm (c : ContractId) (o : OrderId) (p : PaymentId) (row : Row)
  | appendConfirmed (c : ContractId) (o : OrderId) (p : PaymentId) (row : Row)
  | recordConfirmed (c : ContractId) (o : OrderId) (p : PaymentId) (row : Row)
  | publishConfirmed (c : ContractId) (o : OrderId) (p : PaymentId) (row : Row)
  | apply (m : Message)
  | reuse (c : ContractId) (amountMinor : ℕ) (currency : String)
  | createOrder (c : ContractId) (amountMinor : ℕ) (currency : String)
  | appendCreated (c : ContractId) (amountMinor : ℕ) (currency : String) (o : OrderId)
  | insertOrder (c : ContractId) (amountMinor : ℕ) (currency : String) (o : OrderId)
  | recordCreated (c : ContractId) (amountMinor : ℕ) (currency : String) (o : OrderId)
  | selectHeld (c : ContractId)
  | release (held : EscrowPayment)
  deriving DecidableEq, Repr

/-- How a step of a handler ends. -/
inductive Next
  | task (t : Task)
  | done (r : Response)
  | throw
  deriving DecidableEq, Repr

/-- Who a handler runs for; a request with a key also has its claim on it. -/
inductive Frame
  | webhook (d : Delivery)
  | request (q : Request)
  | keyed (q : Request) (key : Key) (ticket : Ticket) (claim : Claim)
  | background
  deriving DecidableEq, Repr

inductive Actor
  | idle
  | running (t : Task) (f : Frame)
  | awaiting (q : Request) (key : Key) (ticket : Ticket)
  | reserving (q : Request) (key : Key) (ticket : Ticket)
  | polling (q : Request) (key : Key) (ticket : Ticket)
  | persisting (q : Request) (key : Key) (r : Response)
  | releasing (q : Request) (key : Key) (ticket : Ticket)
  | acknowledging (d : Delivery) (r : Response)
  | replying (q : Request) (r : Response)
  deriving DecidableEq, Repr

structure State where
  escrow : Table := .empty
  paymentEvents : List PaymentEvent := []
  ledger : List Entry := []
  published : List Message := []
  /-- The number of orders the provider has created; it names the next one. -/
  orders : ℕ := 0
  payments : PaymentId → PaymentStatus := fun _ => .created
  store : Store Key Response := {}
  acknowledged : List Delivery := []
  actors : ℕ → Actor := fun _ => .idle

/-! ## The handlers -/

/-- `recordPaymentEvent` when its insert does not throw, and whether it inserted. -/
def recordPaymentEvent (s : State) (e : PaymentEvent) : State × Bool :=
  if e.providerEventId.isSome ∧ e.providerEventId ∈ s.paymentEvents.map (·.providerEventId) then
    (s, false)
  else ({ s with paymentEvents := e :: s.paymentEvents }, true)

def State.append (s : State) (e : Entry) : State := { s with ledger := e :: s.ledger }

def State.publish (s : State) (m : Message) : State := { s with published := m :: s.published }

/-- `WHERE order_id = $1 OR payment_id = $2`; a `NULL` parameter matches no row. -/
def Delivery.matches (d : Delivery) (r : Row) : Bool :=
  decide (d.event.orderId = some r.orderId ∨
    d.event.paymentId.isSome ∧ d.event.paymentId = r.paymentId)

/-- The webhook route, past the payout branch. -/
def Delivery.start (d : Delivery) : Next :=
  if d.event.orderId = none ∧ d.event.paymentId = none then .done .received else .task (.lookup d)

/-- What the webhook route does after its dedupe gate. -/
def Delivery.act (d : Delivery) (row : Row) : Next :=
  match d.event.event with
  | .paymentAuthorized | .orderPaid => .task (.markAuthorized d row)
  | .paymentFailed => .task (.markFailed d row)
  | _ => .done .received

/-- The dedupe gate. -/
def Delivery.gate (d : Delivery) (row : Row) (inserted : Bool) : Next :=
  if d.providerEventId.isSome ∧ inserted = false then .done .received else d.act row

def Delivery.paymentEvent (d : Delivery) (row : Row) : PaymentEvent where
  contractId := row.contractId
  eventType := d.event.event.name
  amountMinor := row.amountCents
  orderId := some row.orderId
  paymentId := d.event.paymentId
  providerEventId := d.providerEventId

/-- `amountMinor`, when it is a positive integer. -/
def FundBody.minor (b : FundBody) : Option ℕ :=
  let amountMinor := (b.amountMinor.or b.amountCents).getD 0
  if amountMinor.den = 1 ∧ 0 < amountMinor then some amountMinor.num.toNat else none

/-- The checks of a route on its body. -/
def Call.start : Call → Next
  | .fund c b =>
    match b.minor with
    | some amountMinor => .task (.reuse c amountMinor (b.currency.getD "INR"))
    | none => .done <| .error 400
      "amountMinor must be a positive integer in the minor unit (paise)" none
  | .verify c b =>
    match b.razorpayOrderId, b.razorpayPaymentId, b.razorpaySignature with
    | some o, some p, some signature =>
      if signature = some (o, p) then .task (.find c o p)
      else .done (.error 401 "Invalid signature" none)
    | _, _, _ => .done <| .error 400
      "razorpayOrderId, razorpayPaymentId and razorpaySignature are required" none

/-- An unpaid order of the contract over this amount. -/
def reusable (c : ContractId) (amountMinor : ℕ) (currency : String) (r : Row) : Bool :=
  decide (r.contractId = c ∧ r.status = .pending ∧ r.amountCents = amountMinor ∧
    r.currency = currency)

/-- The next statement or call of a handler, when it succeeds. -/
def perform (s : State) : Task → State × Next
  | .lookup d =>
    match s.escrow.select d.matches with
    | none => (s, .done .received)
    | some row => (s, .task (.dedupe d row))
  | .dedupe d row =>
    let (s, inserted) := recordPaymentEvent s (d.paymentEvent row)
    (s, d.gate row inserted)
  | .markAuthorized d row =>
    match s.escrow.authorize row.orderId d.event.paymentId with
    | none => (s, .throw)
    | some escrow =>
      if s.escrow.count (Table.pendingOrder row.orderId) = 1 then
        ({ s with escrow }, .task (.appendAuthorized d row))
      else ({ s with escrow }, .done .received)
  | .appendAuthorized d row =>
    (s.append (.authorized row.contractId row.orderId d.event.paymentId row.amountCents
      row.currency), .task (.publishAuthorized d row))
  | .publishAuthorized d row =>
    (s.publish ⟨row.contractId, row.orderId, d.event.paymentId, .paymentAuthorized⟩,
      .done .received)
  | .markFailed d row =>
    let escrow := s.escrow.setStatus (Table.liveOrder row.orderId) .failed
    if s.escrow.count (Table.liveOrder row.orderId) = 1 then
      ({ s with escrow }, .task (.appendFailed d row))
    else ({ s with escrow }, .done .received)
  | .appendFailed d row =>
    (s.append (.event row.contractId row.orderId d.event.paymentId d.event.event
      d.event.errorDescription), .task (.publishFailed d row))
  | .publishFailed d row =>
    (s.publish ⟨row.contractId, row.orderId, d.event.paymentId, .paymentFailed⟩, .done .received)
  | .find c o p =>
    match s.escrow.select (·.orderId = o) with
    | none => (s, .done (.error 404 "Escrow order not found" none))
    | some row =>
      if row.contractId = c then (s, .task (.fetch c o p row))
      else (s, .done (.error 403 "Order does not belong to this contract" none))
  | .fetch c o p row =>
    if s.payments p = .authorized ∨ s.payments p = .captured then (s, .task (.confirm c o p row))
    else (s, .done <| .error 409 "Payment is not authorized"
      (some ("Razorpay reports status '" ++ (s.payments p).name ++ "'")))
  | .confirm c o p row =>
    match s.escrow.authorize o (some p) with
    | none => (s, .throw)
    | some escrow =>
      if s.escrow.count (Table.pendingOrder o) = 1 then
        ({ s with escrow }, .task (.appendConfirmed c o p row))
      else ({ s with escrow }, .done (.authorized c o p row.amountCents))
  | .appendConfirmed c o p row =>
    (s.append (.authorized c o (some p) row.amountCents row.currency),
      .task (.recordConfirmed c o p row))
  | .recordConfirmed c o p row =>
    ((recordPaymentEvent s ⟨c, "escrow.authorized", row.amountCents, some o, some p, none⟩).1,
      .task (.publishConfirmed c o p row))
  | .publishConfirmed c o p row =>
    (s.publish ⟨c, o, some p, .paymentAuthorized⟩, .done (.authorized c o p row.amountCents))
  | .apply m =>
    match m.paymentId, m.type with
    | some p, .paymentFailed =>
      ({ s with escrow := s.escrow.setStatus (Table.livePayment p) .failed }, .done .received)
    | some p, .paymentAuthorized | some p, .orderPaid =>
      ({ s with escrow := (s.escrow.authorize m.orderId (some p)).getD s.escrow }, .done .received)
    | _, _ => (s, .done .received)
  | .reuse c amountMinor currency =>
    match s.escrow.select (reusable c amountMinor currency) with
    | some row => (s, .done (.order c row.orderId row.amountCents row.currency))
    | none => (s, .task (.createOrder c amountMinor currency))
  | .createOrder c amountMinor currency =>
    ({ s with orders := s.orders + 1 }, .task (.appendCreated c amountMinor currency s.orders))
  | .appendCreated c amountMinor currency o =>
    (s.append (.created c o amountMinor currency), .task (.insertOrder c amountMinor currency o))
  | .insertOrder c amountMinor currency o =>
    ({ s with escrow := s.escrow.insert o c amountMinor currency },
      .task (.recordCreated c amountMinor currency o))
  | .recordCreated c amountMinor currency o =>
    ((recordPaymentEvent s ⟨c, "escrow.created", amountMinor, some o, none, none⟩).1,
      .done (.order c o amountMinor currency))
  | .selectHeld c =>
    match s.escrow.findEscrowPayment c with
    | some held => (s, .task (.release held))
    | none => (s, .done .received)
  -- The other writes of `commitSettlement` touch other tables.
  | .release held =>
    ({ s with escrow := s.escrow.setStatus (Table.holds held.paymentId) .released },
      .done .received)

/-- Where an exception of the current statement or call leads. -/
def raised : Task → Next
  | .dedupe d row => d.gate row false
  | .recordConfirmed c o p row => .task (.publishConfirmed c o p row)
  | .recordCreated c amountMinor currency o => .done (.order c o amountMinor currency)
  | .apply _ => .done .received
  | _ => .throw

/-! ## The middleware -/

def State.setActor (s : State) (i : ℕ) (a : Actor) : State :=
  { s with actors := Function.update s.actors i a }

def handlerFailed : Response := .error 500 "Handler failed" none

/-- What surrounds a handler takes over when it returns or throws. -/
def State.goto (s : State) (i : ℕ) (f : Frame) : Next → State
  | .task t => s.setActor i (.running t f)
  | .done r =>
    match f with
    | .webhook d => s.setActor i (.acknowledging d r)
    | .request q => s.setActor i (.replying q r)
    | .keyed q key ticket .reserved =>
      { s with store := s.store.resolve ticket r }.setActor i (.persisting q key r)
    | .keyed q _ ticket .unreserved =>
      { s with store := s.store.resolve ticket r }.setActor i (.replying q r)
    | .background => s.setActor i .idle
  | .throw =>
    match f with
    | .keyed q key ticket claim =>
      { s with
          store := (s.store.setCache q.process key none).resolve ticket handlerFailed }.setActor
        i (match claim with
          | .reserved => .releasing q key ticket
          | .unreserved => .idle)
    | _ => s.setActor i .idle

/-- The part of `withIdempotency` that claims the key in memory. -/
def State.claimKey (s : State) (i : ℕ) (q : Request) (key : Key) : State :=
  let (store, ticket) := s.store.claim q.process key
  { s with store }.setActor i (.reserving q key ticket)

def State.runHandler (s : State) (i : ℕ) (q : Request) (key : Key) (ticket : Ticket)
    (claim : Claim) : State :=
  s.goto i (.keyed q key ticket claim) q.call.start

def advance (s : State) (i : ℕ) (o : Outcome) : Option State :=
  match s.actors i, o with
  | .idle, _ => none
  | .running t f, .ok => some ((perform s t).1.goto i f (perform s t).2)
  | .running t f, .failed => some (s.goto i f (raised t))
  | .running t f, .lost => some ((perform s t).1.goto i f (raised t))
  | .awaiting q _ ticket, .ok =>
    (s.store.promises ticket).map fun r => s.setActor i (.replying q r)
  | .awaiting .., _ => none
  | .reserving q key ticket, .ok =>
    some <| match s.store.reserve key with
      | some store => { s with store }.runHandler i q key ticket .reserved
      | none => s.setActor i (.polling q key ticket)
  | .reserving q key ticket, .failed => some (s.runHandler i q key ticket .unreserved)
  | .reserving q key ticket, .lost =>
    some ({ s with store := (s.store.reserve key).getD s.store }.runHandler i q key ticket
      .unreserved)
  | .polling q key ticket, .ok =>
    some <| match s.store.stored key with
      | some r =>
        { s with store := s.store.replay q.process key ticket r }.setActor i (.replying q r)
      | none => s
  | .polling q key ticket, _ => some (s.runHandler i q key ticket .unreserved)
  | .persisting q _ r, .failed => some (s.setActor i (.replying q r))
  | .persisting q key r, _ =>
    some ({ s with store := s.store.persist key r }.setActor i (.replying q r))
  -- The exception is rethrown into the `catch` around the reservation, which runs the handler.
  | .releasing q key ticket, .failed => some (s.runHandler i q key ticket .unreserved)
  | .releasing q key ticket, _ =>
    some ({ s with store := s.store.release key }.runHandler i q key ticket .unreserved)
  | .acknowledging d _, .ok =>
    some ({ s with acknowledged := d :: s.acknowledged }.setActor i .idle)
  | .acknowledging .., _ => some (s.setActor i .idle)
  | .replying .., _ => some (s.setActor i .idle)

/-! ## The system -/

inductive Action
  /-- Razorpay delivers an event, as often as it likes. -/
  | deliver (i : ℕ) (d : Delivery)
  | request (i : ℕ) (q : Request)
  /-- The bus delivers a published `ESCROW_LOCKED`, as often as it likes. -/
  | consume (i : ℕ) (m : Message)
  /-- A settlement of the contract, live or recovered, gets to `findEscrowPayment`. -/
  | settle (i : ℕ) (c : ContractId)
  | advance (i : ℕ) (o : Outcome)
  /-- The five seconds a request waits for another one are over. -/
  | timeout (i : ℕ)
  | crash (i : ℕ)
  /-- An entry leaves a cache: it expires, is evicted, or its process has died. -/
  | evict (process : Process) (key : Key)
  | expire (key : Key)
  /-- A payment changes at the provider. -/
  | pay (p : PaymentId) (status : PaymentStatus)
  deriving DecidableEq, Repr

def start (s : State) (i : ℕ) : Action → Option State
  | .deliver _ d => some (s.goto i (.webhook d) d.start)
  | .request _ q =>
    match q.key with
    | none => some (s.goto i (.request q) q.call.start)
    | some key =>
      match s.store.cache q.process key with
      | some ticket => some (s.setActor i (.awaiting q key ticket))
      | none => some (s.claimKey i q key)
  | .consume _ m => if m ∈ s.published then some (s.goto i .background (.task (.apply m))) else none
  | .settle _ c => some (s.goto i .background (.task (.selectHeld c)))
  | _ => none

def step (s : State) : Action → Option State
  | .deliver i d => if s.actors i = .idle then start s i (.deliver i d) else none
  | .request i q => if s.actors i = .idle then start s i (.request i q) else none
  | .consume i m => if s.actors i = .idle then start s i (.consume i m) else none
  | .settle i c => if s.actors i = .idle then start s i (.settle i c) else none
  | .advance i o => Escrow.advance s i o
  | .timeout i =>
    match s.actors i with
    | .awaiting q key _ => some (s.claimKey i q key)
    | .polling q key ticket => some (s.runHandler i q key ticket .unreserved)
    | _ => none
  | .crash i => some (s.setActor i .idle)
  | .evict process key => some { s with store := s.store.setCache process key none }
  | .expire key => some { s with store := s.store.expire key }
  | .pay p status => some { s with payments := Function.update s.payments p status }

/-- No order, entry, event or key yet, and no handler running. -/
def Initial (s : State) : Prop :=
  s.escrow = .empty ∧ s.paymentEvents = [] ∧ s.ledger = [] ∧ s.published = [] ∧
    s.store = {} ∧ s.acknowledged = [] ∧ ∀ i, s.actors i = .idle

def system : Machine State Action where
  init := Initial
  step := step

end AssureCode.Escrow
