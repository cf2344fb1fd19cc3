import Mathlib.Data.List.Nodup
import Mathlib.Data.List.Perm.Subperm
import AssureCode.Settlement.Model

/-! # The escrow table

The rows of every contract under the two keys of the schema: an order has one row, and a
payment is held by one row. Each statement that the gateway and the settlement worker send
is one operation; the one that would break the unique index on payments raises instead.
-/

namespace AssureCode.Escrow

open Settlement

abbrev ContractId := ℕ

structure Row extends EscrowRow where
  contractId : ContractId
  deriving DecidableEq, Repr

/-- The rows, the newest first, under `PRIMARY KEY (order_id)` and `idx_escrow_payment_id`. -/
@[ext] structure Table where
  rows : List Row
  orderKey : (rows.map (·.orderId)).Nodup
  paymentKey : (rows.filterMap (·.paymentId)).Nodup

namespace Table

variable {T T' : Table} {r r' : Row} {o : OrderId} {p : PaymentId} {sel : Row → Bool}

def empty : Table := ⟨[], .nil, .nil⟩

/-- `INSERT … 'PENDING' … ON CONFLICT (order_id) DO NOTHING` -/
def insert (T : Table) (o : OrderId) (c : ContractId) (amountCents : ℕ) (currency : String) :
    Table :=
  if h : o ∈ T.rows.map (·.orderId) then T
  else ⟨{ orderId := o, contractId := c, amountCents, currency } :: T.rows,
    List.nodup_cons.mpr ⟨h, T.orderKey⟩, T.paymentKey⟩

/-- `UPDATE escrow SET status = … WHERE …` -/
def setStatus (T : Table) (sel : Row → Bool) (status : EscrowStatus) : Table where
  rows := T.rows.map fun r => if sel r then { r with status := status } else r
  orderKey := by
    rw [List.map_map, List.map_congr_left (g := (·.orderId))]
    · exact T.orderKey
    · intro r _
      by_cases h : sel r <;> simp [h]
  paymentKey := by
    rw [List.filterMap_map, List.filterMap_congr (g := (·.paymentId))]
    · exact T.paymentKey
    · intro r _
      by_cases h : sel r <;> simp [h]

/-- The row of the order, still unpaid. -/
def pendingOrder (o : OrderId) (r : Row) : Bool := decide (r.orderId = o ∧ r.status = .pending)

def liveOrder (o : OrderId) (r : Row) : Bool :=
  decide (r.orderId = o ∧ (r.status = .pending ∨ r.status = .authorized))

def livePayment (p : PaymentId) (r : Row) : Bool :=
  decide (r.paymentId = some p ∧ (r.status = .pending ∨ r.status = .authorized))

def holds (p : PaymentId) (r : Row) : Bool := decide (r.paymentId = some p)

def authorized (o : OrderId) (p : Option PaymentId) (r : Row) : Row :=
  if pendingOrder o r then { r with status := .authorized, paymentId := p } else r

/--
`UPDATE escrow SET status = 'AUTHORIZED', payment_id = … WHERE order_id = … AND status =
'PENDING'`, which raises when another row holds the payment.
-/
def authorize (T : Table) (o : OrderId) (p : Option PaymentId) : Option Table :=
  let rows := T.rows.map (authorized o p)
  if h : (rows.filterMap (·.paymentId)).Nodup then
    some ⟨rows, by
      rw [List.map_map, List.map_congr_left (g := (·.orderId))]
      · exact T.orderKey
      · intro r _
        by_cases hr : pendingOrder o r <;> simp [authorized, hr], h⟩
  else none

/-- The `rowCount` of a statement that selects these rows. -/
def count (T : Table) (sel : Row → Bool) : ℕ := T.rows.countP sel

/-- The row `SELECT … LIMIT 1` returns. -/
def select (T : Table) (sel : Row → Bool) : Option Row := T.rows.find? sel

/-- `OracleStore.findEscrowPayment` -/
def findEscrowPayment (T : Table) (c : ContractId) : Option EscrowPayment :=
  Settlement.findEscrowPayment ((T.rows.filter (·.contractId = c)).map Row.toEscrowRow)

/-! ## The rows after a statement -/

theorem eq_of_orderId (hr : r ∈ T.rows) (hr' : r' ∈ T.rows) (h : r.orderId = r'.orderId) :
    r = r' :=
  List.inj_on_of_nodup_map T.orderKey hr hr' h

theorem mem_setStatus {status : EscrowStatus} :
    r' ∈ (T.setStatus sel status).rows ↔
      ∃ r ∈ T.rows, (if sel r then { r with status := status } else r) = r' :=
  List.mem_map

theorem rows_authorize {q : Option PaymentId} (h : T.authorize o q = some T') :
    T'.rows = T.rows.map (authorized o q) := by
  simp only [authorize] at h
  split at h
  · cases h; rfl
  · cases h

theorem mem_insert {c : ContractId} {n : ℕ} {currency : String} :
    r ∈ (T.insert o c n currency).rows ↔ r ∈ T.rows ∨
      o ∉ T.rows.map (·.orderId) ∧
        r = { orderId := o, contractId := c, amountCents := n, currency := currency } := by
  unfold insert
  split
  · simp_all
  · next h =>
    rw [List.mem_cons]
    constructor
    · rintro (rfl | hr)
      · exact .inr ⟨h, rfl⟩
      · exact .inl hr
    · rintro (hr | ⟨-, rfl⟩)
      · exact .inr hr
      · exact .inl rfl

/-- At most one row is selected when the selection names the order. -/
theorem count_eq_one (hsel : ∀ r, sel r → r.orderId = o) :
    T.count sel = 1 ↔ ∃ r ∈ T.rows, sel r := by
  have hle : T.count sel ≤ 1 := by
    have hc : T.count sel ≤ T.rows.countP fun r => decide (r.orderId = o) :=
      List.countP_mono_left fun r _ h => by simpa using hsel r h
    have hn : T.rows.countP (fun r => decide (r.orderId = o)) =
        (T.rows.map (·.orderId)).count o := by
      rw [List.count, List.countP_map]
      exact List.countP_congr fun r _ => by simp
    exact hc.trans (hn ▸ List.nodup_iff_count_le_one.mp T.orderKey o)
  rw [← List.countP_pos_iff]
  unfold count at hle ⊢
  omega

theorem count_pendingOrder : T.count (pendingOrder o) = 1 ↔ ∃ r ∈ T.rows, pendingOrder o r :=
  count_eq_one fun _ h => (of_decide_eq_true h).1

theorem count_liveOrder : T.count (liveOrder o) = 1 ↔ ∃ r ∈ T.rows, liveOrder o r :=
  count_eq_one fun _ h => (of_decide_eq_true h).1

end Table

end AssureCode.Escrow
