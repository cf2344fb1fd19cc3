import AssureCode.Ledger.Normal

/-! # Verifying the hash chain

`verifyChainDetailed` walks over the rows of a contract and hashes again what each of them holds.
A row that nothing can recompute is counted apart and fails no check but the link to the row
before it.
-/

namespace AssureCode.Ledger

open Js Json

/-- What the driver reads from a `jsonb` column; a number may be too large for a double. -/
structure Payload where
  value : Json
  distinct : value.Distinct

structure LedgerRow where
  ledgerId : ℕ
  contractId : Text
  actionType : Text
  payload : Payload
  payloadCanonical : Option Text
  previousHash : Text
  currentHash : Text
  hashVersion : ℤ

structure ChainVerification where
  valid : Bool
  verified : ℕ
  unverifiable : ℕ
  failures : List Text
  deriving DecidableEq

/-- `CURRENT_HASH_VERSION` -/
def currentHashVersion : ℤ := 2

def genesis : Text := units "GENESIS"

/-- The text of a row that is hashed. -/
def chained (payloadCanonical previousHash : Text) : Text :=
  payloadCanonical ++ newline :: previousHash

/-- The canonical text to hash again; `none` for a row that nothing can recompute. -/
def LedgerRow.recomputable (row : LedgerRow) : Option Text :=
  if row.hashVersion < currentHashVersion then none else row.payloadCanonical

/-- The variables of the loop. -/
structure Progress where
  failures : List Text := []
  verified : ℕ := 0
  unverifiable : ℕ := 0
  previous : Text := genesis

def Progress.fail (p : Progress) (row : LedgerRow) (what : Text) : Progress :=
  { p with
    failures := p.failures ++ [units "ledger_id " ++ digitsOf row.ledgerId ++ units ": " ++ what] }

/-- The check that a row names the hash of the row before it. -/
def Progress.link (p : Progress) (row : LedgerRow) : Progress :=
  if row.previousHash ≠ p.previous then
    p.fail row (units "previous_hash " ++ row.previousHash.take 16 ++
      units "… does not link to the preceding entry (" ++ p.previous.take 16 ++ units "…)")
  else p

section Sha256

-- The hexadecimal digest of the UTF-8 bytes of a text.
variable (sha256 : Text → Text)

def chainHash (payloadCanonical previousHash : Text) : Text :=
  sha256 (chained payloadCanonical previousHash)

/-- The check of what a row holds. -/
def Progress.recompute (p : Progress) (row : LedgerRow) :
    Except NotCanonicalizableError Progress :=
  match row.recomputable with
  | none => .ok { p with unverifiable := p.unverifiable + 1 }
  | some stored =>
    if chainHash sha256 stored row.previousHash ≠ row.currentHash then
      .ok (p.fail row (units "current_hash does not match SHA256(canonical || LF || prev)"))
    else do
      let canonical ← canonicalize (data row.payload.value)
      if canonical ≠ stored then
        return p.fail row
          (units "stored canonical bytes are not the canonical form of the payload")
      else return { p with verified := p.verified + 1 }

/-- One pass of the loop. -/
def Progress.check (p : Progress) (row : LedgerRow) : Except NotCanonicalizableError Progress := do
  return { ← (p.link row).recompute sha256 row with previous := row.currentHash }

/-- `verifyChainDetailed` on the rows that `getChain` returned. -/
def verifyChainDetailed (rows : List LedgerRow) :
    Except NotCanonicalizableError ChainVerification := do
  let p ← rows.foldlM (Progress.check sha256) {}
  return ⟨p.failures.isEmpty, p.verified, p.unverifiable, p.failures⟩

/-! ## What the verifier accepts -/

def ReportsValid (rows : List LedgerRow) : Prop :=
  ∃ v, verifyChainDetailed sha256 rows = .ok v ∧ v.valid = true

def Accepted (rows : List LedgerRow) : Prop :=
  ∃ v, verifyChainDetailed sha256 rows = .ok v ∧ v.valid = true ∧ v.unverifiable = 0

/-- A row whose hash is that of its canonical text, and whose text is that of its payload. -/
def LedgerRow.Sound (row : LedgerRow) : Prop :=
  ∃ stored, row.recomputable = some stored ∧
    chainHash sha256 stored row.previousHash = row.currentHash ∧
    canonicalize (data row.payload.value) = .ok stored

end Sha256

/-- Every row names the hash of the row before it, the first one `previous`. -/
def Chained (previous : Text) : List LedgerRow → Prop
  | [] => True
  | row :: rows => row.previousHash = previous ∧ Chained row.currentHash rows

variable {sha256 : Text → Text} {p q : Progress} {row : LedgerRow} {rows : List LedgerRow}

@[simp] theorem fail_failures (p : Progress) (row : LedgerRow) (what : Text) :
    (p.fail row what).failures ≠ [] := by
  simp [Progress.fail]

theorem link_eq (h : row.previousHash = p.previous) : p.link row = p := by
  rw [Progress.link, if_neg (not_not.mpr h)]

theorem link_failures : (p.link row).failures = [] ↔
    p.failures = [] ∧ row.previousHash = p.previous := by
  unfold Progress.link
  split
  · next hne => simp [hne]
  · next heq => simp [not_not.mp heq]

/-! ## One row -/

theorem recompute_unverifiable (h : row.recomputable = none) :
    p.recompute sha256 row = .ok { p with unverifiable := p.unverifiable + 1 } := by
  rw [Progress.recompute, h]

theorem recompute_sound (h : row.Sound sha256) :
    p.recompute sha256 row = .ok { p with verified := p.verified + 1 } := by
  obtain ⟨stored, hstored, hhash, hpayload⟩ := h
  rw [Progress.recompute, hstored]
  simp [hhash, hpayload, bind, Except.bind, pure, Except.pure]

/-- A check that leaves no failure has found the row sound, or could not look. -/
theorem of_recompute (h : p.recompute sha256 row = .ok q) (hq : q.failures = []) :
    p.failures = [] ∧ (row.recomputable = none ∨ row.Sound sha256) := by
  unfold Progress.recompute at h
  split at h
  · next hnone =>
    cases h
    exact ⟨hq, .inl hnone⟩
  · next stored hstored =>
    split at h
    · cases h
      exact absurd hq (fail_failures _ _ _)
    · next hhash =>
      obtain ⟨canonical, hpayload, h⟩ := bind_eq_ok.mp h
      split at h
      · cases h
        exact absurd hq (fail_failures _ _ _)
      · next heq =>
        cases h
        obtain rfl := not_not.mp heq
        exact ⟨hq, .inr ⟨canonical, hstored, not_not.mp hhash, hpayload⟩⟩

theorem check_eq (h : p.check sha256 row = .ok q) : ∃ r,
    (p.link row).recompute sha256 row = .ok r ∧ q = { r with previous := row.currentHash } := by
  obtain ⟨r, hr, hq⟩ := bind_eq_ok.mp h
  exact ⟨r, hr, (Except.ok.inj hq).symm⟩

theorem of_check (h : p.check sha256 row = .ok q) (hq : q.failures = []) :
    p.failures = [] ∧ row.previousHash = p.previous ∧
      (row.recomputable = none ∨ row.Sound sha256) ∧ q.previous = row.currentHash := by
  obtain ⟨r, hr, rfl⟩ := check_eq h
  obtain ⟨hlink, hrow⟩ := of_recompute hr hq
  obtain ⟨hp, hprev⟩ := link_failures.mp hlink
  exact ⟨hp, hprev, hrow, rfl⟩

/-- What a row that passes adds to the counts. -/
theorem check_passes (hprev : row.previousHash = p.previous)
    (hrow : row.recomputable = none ∨ row.Sound sha256) :
    p.check sha256 row = .ok { p with
      verified := p.verified + if row.recomputable = none then 0 else 1
      unverifiable := p.unverifiable + if row.recomputable = none then 1 else 0
      previous := row.currentHash } := by
  rw [Progress.check, link_eq hprev]
  rcases hrow with hnone | hsound
  · rw [recompute_unverifiable hnone, hnone]
    rfl
  · have hsome : row.recomputable ≠ none := by
      obtain ⟨stored, hstored, -⟩ := hsound
      simp [hstored]
    rw [recompute_sound hsound, if_neg hsome, if_neg hsome]
    rfl

/-! ## All rows -/

theorem of_foldlM (h : rows.foldlM (Progress.check sha256) p = .ok q) (hq : q.failures = []) :
    p.failures = [] ∧ Chained p.previous rows ∧
      ∀ row ∈ rows, row.recomputable = none ∨ row.Sound sha256 := by
  induction rows generalizing p with
  | nil =>
    cases h
    exact ⟨hq, trivial, by simp⟩
  | cons row rows ih =>
    rw [List.foldlM_cons] at h
    obtain ⟨r, hr, h⟩ := bind_eq_ok.mp h
    obtain ⟨hr', hchained, hrows⟩ := ih h
    obtain ⟨hp, hprev, hrow, hcur⟩ := of_check hr hr'
    exact ⟨hp, ⟨hprev, hcur ▸ hchained⟩, List.forall_mem_cons.mpr ⟨hrow, hrows⟩⟩

theorem foldlM_passes (hchained : Chained p.previous rows)
    (hrows : ∀ row ∈ rows, row.recomputable = none ∨ row.Sound sha256) :
    ∃ q, rows.foldlM (Progress.check sha256) p = .ok q ∧ q.failures = p.failures ∧
      q.verified = p.verified + rows.countP (·.recomputable ≠ none) ∧
      q.unverifiable = p.unverifiable + rows.countP (·.recomputable = none) := by
  induction rows generalizing p with
  | nil => exact ⟨p, rfl, rfl, rfl, rfl⟩
  | cons row rows ih =>
    obtain ⟨hprev, hchained⟩ := hchained
    obtain ⟨hrow, hrows⟩ := List.forall_mem_cons.mp hrows
    rw [List.foldlM_cons, check_passes hprev hrow]
    obtain ⟨q, hq, hfailures, hverified, hunverifiable⟩ := ih (p := { p with
      verified := p.verified + if row.recomputable = none then 0 else 1
      unverifiable := p.unverifiable + if row.recomputable = none then 1 else 0
      previous := row.currentHash }) hchained hrows
    refine ⟨q, hq, hfailures, ?_, ?_⟩
    · rw [hverified, List.countP_cons, Nat.add_assoc, Nat.add_comm (ite _ _ _)]
      by_cases hnone : row.recomputable = none <;> simp [hnone]
    · rw [hunverifiable, List.countP_cons, Nat.add_assoc, Nat.add_comm (ite _ _ _)]
      by_cases hnone : row.recomputable = none <;> simp [hnone]

/-- What the verifier answers for rows that are linked and pass their checks. -/
theorem verifyChainDetailed_passes (hchained : Chained genesis rows)
    (hrows : ∀ row ∈ rows, row.recomputable = none ∨ row.Sound sha256) :
    verifyChainDetailed sha256 rows = .ok ⟨true, rows.countP (·.recomputable ≠ none),
      rows.countP (·.recomputable = none), []⟩ := by
  obtain ⟨q, hq, hfailures, hverified, hunverifiable⟩ := foldlM_passes (p := {}) hchained hrows
  rw [verifyChainDetailed, hq]
  simp only [Nat.zero_add] at hverified hunverifiable
  simp [bind, Except.bind, pure, Except.pure, hfailures, hverified, hunverifiable]

theorem reportsValid_iff : ReportsValid sha256 rows ↔
    Chained genesis rows ∧ ∀ row ∈ rows, row.recomputable = none ∨ row.Sound sha256 := by
  constructor
  · rintro ⟨v, hv, hvalid⟩
    obtain ⟨q, hq, hv⟩ := bind_eq_ok.mp hv
    cases hv
    exact (of_foldlM hq (List.isEmpty_iff.mp hvalid)).2
  · rintro ⟨hchained, hrows⟩
    exact ⟨_, verifyChainDetailed_passes hchained hrows, rfl⟩

theorem accepted_iff : Accepted sha256 rows ↔
    Chained genesis rows ∧ ∀ row ∈ rows, row.Sound sha256 := by
  constructor
  · rintro ⟨v, hv, hvalid, hnone⟩
    obtain ⟨hchained, hrows⟩ := reportsValid_iff.mp ⟨v, hv, hvalid⟩
    refine ⟨hchained, fun row hrow => (hrows row hrow).resolve_left fun h => ?_⟩
    rw [verifyChainDetailed_passes hchained hrows] at hv
    cases hv
    exact List.countP_eq_zero.mp hnone row hrow (by simpa using h)
  · rintro ⟨hchained, hrows⟩
    refine ⟨_, verifyChainDetailed_passes hchained fun row hrow => .inr (hrows row hrow), rfl, ?_⟩
    apply List.countP_eq_zero.mpr
    intro row hrow
    obtain ⟨stored, hstored, -⟩ := hrows row hrow
    simp [hstored]

end AssureCode.Ledger
