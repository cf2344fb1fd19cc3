import Mathlib.Data.Nat.Notation
import Mathlib.Logic.Function.Basic

/-! # The idempotency middleware

What `withIdempotency` keeps between its statements: a cache of promises in each gateway
process, and the rows of `idempotency_keys`. A promise outlives its cache entry, so it is
named by a ticket of its own. An entry may leave the cache at any time: it expires, the bound
on the cache evicts it, or its process dies.
-/

namespace AssureCode.Gateway

abbrev Ticket := ℕ
abbrev Process := ℕ

/-- A row of `idempotency_keys`; a reservation has no response, as `status_code = 0` says. -/
structure KeyRow (ρ : Type) where
  response : Option ρ := none
  expired : Bool := false
  deriving DecidableEq, Repr

structure Store (κ ρ : Type) where
  cache : Process → κ → Option Ticket := fun _ _ => none
  promises : Ticket → Option ρ := fun _ => none
  issued : ℕ := 0
  keys : κ → Option (KeyRow ρ) := fun _ => none

/-- How a handler came to run under a key. -/
inductive Claim
  /-- It holds the reservation in the database. -/
  | reserved
  /-- The reservation failed, or the winner did not answer in time. -/
  | unreserved
  deriving DecidableEq, Repr

namespace Store

variable {κ ρ : Type} [DecidableEq κ] (S : Store κ ρ) (process : Process) (key : κ)
  (ticket : Ticket)

def setCache (entry : Option Ticket) : Store κ ρ :=
  { S with cache := Function.update S.cache process (Function.update (S.cache process) key entry) }

/-- Claim the key in memory with a promise of one's own. -/
def claim : Store κ ρ × Ticket :=
  ({ S.setCache process key (some S.issued) with issued := S.issued + 1 }, S.issued)

/-- A promise settles once. -/
def resolve (response : ρ) : Store κ ρ :=
  { S with promises := Function.update S.promises ticket ((S.promises ticket).or (some response)) }

/-- `INSERT INTO idempotency_keys … ON CONFLICT (key) DO NOTHING`, when it inserts. -/
def reserve : Option (Store κ ρ) :=
  if S.keys key = none then some { S with keys := Function.update S.keys key (some {}) } else none

/-- `UPDATE idempotency_keys SET response_json = …, status_code = … WHERE key = …` -/
def persist (response : ρ) : Store κ ρ :=
  { S with keys := Function.update S.keys key <|
      (S.keys key).map fun row => { row with response := some response } }

/-- `SELECT … WHERE key = … AND expires_at > NOW() AND status_code > 0` -/
def stored : Option ρ :=
  ((S.keys key).filter (!·.expired)).bind (·.response)

/-- `DELETE FROM idempotency_keys WHERE key = … AND status_code = 0` -/
def release : Store κ ρ :=
  { S with keys := Function.update S.keys key ((S.keys key).filter (·.response.isSome)) }

/-- The winner's response, found in the database, goes into the cache as a settled promise. -/
def replay (response : ρ) : Store κ ρ :=
  let (S', own) := (S.resolve ticket response).claim process key
  S'.resolve own response

/-- The row passes its `expires_at`. -/
def expire : Store κ ρ :=
  { S with keys := Function.update S.keys key <|
      (S.keys key).map fun row => { row with expired := true } }

/-! ## The responses in a store -/

variable {S process key ticket} {S' : Store κ ρ} {r r' : ρ}

/-- A promise or a row has this response. -/
def Holds (S : Store κ ρ) (r : ρ) : Prop :=
  (∃ ticket, S.promises ticket = some r) ∨
    ∃ key row, S.keys key = some row ∧ row.response = some r

omit [DecidableEq κ] in
theorem holds_resolve (h : (S.resolve ticket r').Holds r) : S.Holds r ∨ r' = r := by
  rcases h with ⟨ticket', h⟩ | h
  · by_cases ht : ticket' = ticket
    · subst ht
      cases hp : S.promises ticket' with
      | none => exact .inr (by simpa [resolve, hp] using h)
      | some r'' => exact .inl (.inl ⟨ticket', by simpa [resolve, hp] using h⟩)
    · exact .inl (.inl ⟨ticket', by simpa [resolve, ht] using h⟩)
  · exact .inl (.inr h)

/-- A store that only differs in the row of one key. -/
theorem Holds.of_keys {row' : Option (KeyRow ρ)}
    (h : Holds { S with keys := Function.update S.keys key row' } r) :
    S.Holds r ∨ ∃ row, row' = some row ∧ row.response = some r := by
  rcases h with h | ⟨key', row, hk, hr⟩
  · exact .inl (.inl h)
  · by_cases he : key' = key
    · subst he
      exact .inr ⟨row, by simpa using hk, hr⟩
    · exact .inl (.inr ⟨key', row, by simpa [he] using hk, hr⟩)

theorem holds_reserve (hS : S.reserve key = some S') (h : S'.Holds r) : S.Holds r := by
  unfold reserve at hS
  split at hS
  · cases hS
    rcases h.of_keys with h | ⟨row, hrow, hr⟩
    · exact h
    · cases hrow
      cases hr
  · cases hS

theorem holds_persist (h : (S.persist key r').Holds r) : S.Holds r ∨ r' = r := by
  rcases h.of_keys with h | ⟨row, hrow, hr⟩
  · exact .inl h
  · obtain ⟨row', -, rfl⟩ := Option.map_eq_some_iff.mp hrow
    exact .inr (Option.some.inj hr)

omit [DecidableEq κ] in
theorem holds_stored (h : S.stored key = some r) : S.Holds r := by
  obtain ⟨row, hrow, hr⟩ := Option.bind_eq_some_iff.mp h
  exact .inr ⟨key, row, (Option.filter_eq_some_iff.mp hrow).1, hr⟩

theorem holds_release (h : (S.release key).Holds r) : S.Holds r := by
  rcases h.of_keys with h | ⟨row, hrow, hr⟩
  · exact h
  · exact .inr ⟨key, row, (Option.filter_eq_some_iff.mp hrow).1, hr⟩

theorem holds_expire (h : (S.expire key).Holds r) : S.Holds r := by
  rcases h.of_keys with h | ⟨row, hrow, hr⟩
  · exact h
  · obtain ⟨row', hrow', rfl⟩ := Option.map_eq_some_iff.mp hrow
    exact .inr ⟨key, row', hrow', hr⟩

theorem holds_replay (h : (S.replay process key ticket r').Holds r) : S.Holds r ∨ r' = r := by
  rcases holds_resolve h with h | h
  · exact holds_resolve h
  · exact .inr h

end Store

end AssureCode.Gateway
