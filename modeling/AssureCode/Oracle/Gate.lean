import AssureCode.Js.Coercion
import AssureCode.Oracle.Store

/-! # The release gate

The evaluation as it runs on what the driver makes of the two queries: a `NUMERIC` and a count come
as text and are read back as doubles. The threshold lies so far from the next score below it that
nothing is lost.
-/

namespace AssureCode.Oracle

open Js

/-! ## What the queries return -/

/-- The tables as far as the evaluation reads them. -/
structure Tables where
  oracleState : Text → Option OracleState := fun _ => none
  scopeChecks : List (Text × ScopeCheck) := []

/-- A `NUMERIC(5,2)` as text. -/
def TrustScore.text (t : TrustScore) : Text :=
  digitsOf (t.hundredths / 100) ++
    0x2E :: [0x30 + t.hundredths / 10 % 10, 0x30 + t.hundredths % 10]

/-- A row of the first query. -/
structure StateRow where
  astPassed : Bool
  testsPassed : Bool
  securityPassed : Bool
  trustScore : Option Text
  criticalVulns : Option Number

def OracleState.fetched (row : OracleState) : StateRow where
  astPassed := row.astPassed
  testsPassed := row.testsPassed
  securityPassed := row.securityPassed
  trustScore := row.trustScore.map (·.text)
  criticalVulns := row.criticalVulns.map fun n : ℕ => .ofRat n

def Tables.checksOf (db : Tables) (contractId : Text) : List ScopeCheck :=
  (db.scopeChecks.filter (·.1 = contractId)).map (·.2)

/-- The `rejected` of the second query. -/
def Tables.rejected (db : Tables) (contractId : Text) : Text :=
  digitsOf (Oracle.rejected (db.checksOf contractId))

/-! ## The evaluation -/

namespace Gate

structure Signals where
  astPassed : Bool
  testsPassed : Bool
  securityPassed : Bool
  scopePassed : Bool
  trustScore : Option Number
  criticalVulns : Option Number

structure Verdict where
  approved : Bool
  signals : Signals
  blockers : List Text

/-- A pushed blocker. -/
def push (c : Bool) (text : Text) : List Text := if c then [text] else []

def trustBlockers : Option Number → List Text
  | none => [units "no trust score recorded (XAI_SCORED never received)"]
  | some n => push (n.lt (.ofRat TrustScore.threshold))
      (units "trust score " ++ n.text ++ units s!" is below the {TrustScore.threshold} threshold")

def criticalBlockers : Option Number → List Text
  | none => [units "critical vulnerability count unknown"]
  | some n => push ((Number.ofRat 0).lt n)
      (n.text ++ units " critical vulnerability(ies) present")

/-- `OracleStore.evaluate`, from the row of the first query and the count of the second. -/
def evaluate (row : Option StateRow) (rejected : Text) : Verdict :=
  let rejected := stringToNumber rejected
  let signals : Signals := {
    astPassed := row.any (·.astPassed)
    testsPassed := row.any (·.testsPassed)
    securityPassed := row.any (·.securityPassed)
    scopePassed := rejected = .ofRat 0
    trustScore := (row.bind (·.trustScore)).map stringToNumber
    criticalVulns := row.bind (·.criticalVulns) }
  let blockers :=
    push row.isNone (units "no audit or score has been recorded for this contract") ++
    push (!signals.astPassed) (units "AST maintainability signal not satisfied") ++
    push (!signals.testsPassed) (units "hidden test suite did not fully pass") ++
    push (!signals.securityPassed) (units "security scan reported findings") ++
    push (!signals.scopePassed) (rejected.text ++ units " scope check(s) were rejected") ++
    trustBlockers signals.trustScore ++
    criticalBlockers signals.criticalVulns
  { approved := blockers.length = 0, signals, blockers }

end Gate

def Tables.evaluate (db : Tables) (contractId : Text) : Gate.Verdict :=
  Gate.evaluate ((db.oracleState contractId).map (·.fetched)) (db.rejected contractId)

variable {t : TrustScore} {n : ℕ} {row : OracleState} {checks : List ScopeCheck}

/-! ## Numbers -/

theorem isDigit_add {d : ℕ} (h : d < 10) : isDigit (0x30 + d) = true := by
  simp only [isDigit, Bool.and_eq_true, decide_eq_true_eq]
  omega

theorem stringToNumber_text (t : TrustScore) : stringToNumber t.text = .ofRat t.toNumber := by
  have hd : Numeral.Digits ⟨digitsOf (t.hundredths / 100),
      some [0x30 + t.hundredths / 10 % 10, 0x30 + t.hundredths % 10], none⟩ := by
    constructor
    · exact fun _ => isDigit_of_mem_digitsOf
    · rintro f ⟨⟩ u hu
      rcases List.mem_pair.mp hu with rfl | rfl <;> exact isDigit_add (Nat.mod_lt _ (by norm_num))
    · simp
  have h := stringToNumber_numeral hd rfl (digitsOf_ne_nil _)
  have hvalue : 10 ^ 2 * (t.hundredths / 100) +
      (10 * (t.hundredths / 10 % 10) + t.hundredths % 10) = t.hundredths := by omega
  have htext : t.text = Numeral.text ⟨digitsOf (t.hundredths / 100),
      some [0x30 + t.hundredths / 10 % 10, 0x30 + t.hundredths % 10], none⟩ := by
    simp [TrustScore.text, Numeral.text]
  rw [htext, h, Numeral.value, Numeral.fractionDigits, Option.getD_some, digitsValue_append,
    digitsValue_digitsOf]
  simp only [digitsValue, List.foldl_cons, List.foldl_nil, List.length_cons, List.length_nil,
    Nat.add_sub_cancel_left, mul_zero, zero_add, Nat.reduceAdd, hvalue]
  rw [TrustScore.toNumber, Numeral.exponentValue, div_eq_mul_one_div]
  norm_num

/-- A count is positive as a number exactly when it is. -/
theorem ofRat_pos_iff : (Number.ofRat 0).lt (.ofRat n) = true ↔ 0 < n := by
  have hzero : Number.ofRat 0 = .finite 0 (isDouble_natCast (n := 0) (by norm_num)) :=
    Number.ofRat_natCast (n := 0) (by norm_num)
  rcases Nat.eq_zero_or_pos n with rfl | hn
  · rw [Nat.cast_zero, hzero]
    simp [Number.lt]
  · refine iff_of_true ?_ hn
    have hone : IsDouble ((1 : ℕ) : ℚ) := isDouble_natCast (by norm_num)
    have hround : 1 ≤ rounded n :=
      le_rounded (by exact_mod_cast hone) one_pos (by exact_mod_cast hn)
    rw [hzero, Number.ofRat]
    split
    · exact decide_eq_true (lt_of_lt_of_le one_pos hround)
    · simp [Number.lt]

theorem toNumber_nonneg (t : TrustScore) : 0 ≤ t.toNumber := by
  rw [TrustScore.toNumber]
  positivity

/-- A score below a bound is rounded to no more than a double above it. -/
theorem rounded_toNumber_le {b : ℚ} {n : ℕ} (hb : IsDouble b) (h : t.hundredths ≤ n)
    (hn : (n : ℚ) / 100 ≤ b) : rounded t.toNumber ≤ b := by
  have hle : t.toNumber ≤ n / 100 := by
    rw [TrustScore.toNumber]
    gcongr
  exact rounded_le hb (toNumber_nonneg t) (hle.trans hn)

theorem ofRat_toNumber (t : TrustScore) :
    ∃ h, Number.ofRat t.toNumber = .finite (rounded t.toNumber) h := by
  have hbound : |rounded t.toNumber| < 2 ^ 1024 := by
    have hdouble : IsDouble ((100 : ℕ) : ℚ) := isDouble_natCast (by norm_num)
    rw [abs_of_nonneg (rounded_nonneg (toNumber_nonneg t))]
    calc rounded t.toNumber ≤ (100 : ℕ) := rounded_toNumber_le hdouble t.le_max (by norm_num)
      _ ≤ |((100 : ℕ) : ℚ)| := le_abs_self _
      _ < 2 ^ 1024 := hdouble.abs_lt
  exact ⟨_, dif_pos hbound⟩

/-- No score is rounded across the threshold. -/
theorem ofRat_lt_threshold_iff :
    (Number.ofRat t.toNumber).lt (.ofRat TrustScore.threshold) = true ↔ t.below := by
  have hthreshold : Number.ofRat TrustScore.threshold =
      .finite TrustScore.threshold (isDouble_natCast (by decide)) :=
    Number.ofRat_natCast (by decide)
  obtain ⟨h, hfinite⟩ := ofRat_toNumber t
  rw [hfinite, hthreshold, Number.lt, decide_eq_true_iff, TrustScore.below]
  constructor
  · intro hlt
    by_contra hge
    have hle : (TrustScore.threshold : ℚ) ≤ t.toNumber := by
      rw [TrustScore.toNumber, le_div_iff₀ (by norm_num)]
      exact_mod_cast not_lt.mp hge
    exact absurd (le_rounded (isDouble_natCast (by decide)) (by norm_num [TrustScore.threshold])
      hle) (not_le.mpr hlt)
  · intro hlt
    -- The double 84.9921875 lies between these scores and the threshold.
    have hdouble : IsDouble (10879 * 2 ^ (-7 : ℤ)) := ⟨10879, -7, by norm_num, by norm_num,
      by norm_num, by norm_num⟩
    have hmax : t.hundredths ≤ 8499 := Nat.le_of_lt_succ hlt
    have hround := rounded_toNumber_le hdouble hmax (by norm_num)
    exact hround.trans_lt (by norm_num [TrustScore.threshold])

/-! ## The gate -/

@[simp] theorem push_eq_nil {c : Bool} {text : Text} : Gate.push c text = [] ↔ c = false := by
  cases c <;> simp [Gate.push]

theorem Gate.trustBlockers_eq_nil {s : Option TrustScore} :
    Gate.trustBlockers ((s.map (·.text)).map stringToNumber) = [] ↔ ∃ t ∈ s, ¬ t.below := by
  cases s with
  | none => simp [Gate.trustBlockers]
  | some t =>
    rw [Option.map_some, Option.map_some, stringToNumber_text, Gate.trustBlockers, push_eq_nil,
      Bool.eq_false_iff, Ne, ofRat_lt_threshold_iff]
    simp

theorem Gate.criticalBlockers_eq_nil {c : Option ℕ} :
    Gate.criticalBlockers (c.map fun n : ℕ => .ofRat n) = [] ↔ c = some 0 := by
  cases c with
  | none => simp [Gate.criticalBlockers]
  | some n =>
    rw [Option.map_some, Gate.criticalBlockers, push_eq_nil, Bool.eq_false_iff, Ne, ofRat_pos_iff]
    simp

theorem passed_iff {n : ℕ} : stringToNumber (digitsOf n) = .ofRat 0 ↔ n = 0 := by
  rw [stringToNumber_digitsOf]
  constructor
  · intro h
    by_contra hn
    have hpos := ofRat_pos_iff.mpr (Nat.pos_of_ne_zero hn)
    rw [h] at hpos
    exact absurd (ofRat_pos_iff (n := 0) |>.mp (by rwa [Nat.cast_zero])) (lt_irrefl 0)
  · rintro rfl
    rw [Nat.cast_zero]

/-- The numbers that the driver makes of the columns do not change what is decided. -/
theorem blockers_eq_nil_iff {row : Option OracleState} {n : ℕ} :
    (Gate.evaluate (row.map (·.fetched)) (digitsOf n)).blockers = [] ↔
      ∃ r ∈ row, r.signals.allPassed ∧ r.scorePasses ∧ n = 0 := by
  cases row with
  | none => simp [Gate.evaluate, Gate.push]
  | some r =>
    simp only [Gate.evaluate, List.append_eq_nil_iff, push_eq_nil, Option.map_some,
      Option.isNone_some, Option.any_some, Option.bind_some, OracleState.fetched,
      Gate.trustBlockers_eq_nil, Gate.criticalBlockers_eq_nil, passed_iff]
    simp only [Option.mem_def, Option.some.injEq, exists_eq_left', true_and, Bool.not_eq_false',
      decide_eq_true_eq, AuditSignals.allPassed, OracleState.signals, OracleState.scorePasses]
    tauto

/-- A contract is released by a row and by no check that stands against it. -/
def Tables.Released (db : Tables) (contractId : Text) : Prop :=
  (∃ row, db.oracleState contractId = some row ∧
    row.astPassed = true ∧ row.testsPassed = true ∧ row.securityPassed = true ∧
    (∃ t, row.trustScore = some t ∧ 85 ≤ t.toNumber) ∧ row.criticalVulns = some 0) ∧
  ∀ check, (contractId, check) ∈ db.scopeChecks → check.allowed = true ∨ check.dismissed = true

theorem rejected_eq_zero_iff {db : Tables} {contractId : Text} :
    Oracle.rejected (db.checksOf contractId) = 0 ↔ ∀ check, (contractId, check) ∈ db.scopeChecks →
      check.allowed = true ∨ check.dismissed = true := by
  rw [Oracle.rejected, List.countP_eq_zero, Tables.checksOf]
  simp only [List.forall_mem_map, List.mem_filter, decide_eq_true_eq, and_imp, Prod.forall]
  constructor
  · intro hall check hmem
    have hnot := hall contractId check hmem rfl
    cases hallowed : check.allowed with
    | true => exact .inl rfl
    | false => exact .inr (by simpa [hallowed] using hnot)
  · rintro hall c check hmem rfl
    rcases hall check hmem with h | h <;> simp [h]

theorem blockers_evaluate_iff {db : Tables} {contractId : Text} :
    (db.evaluate contractId).blockers = [] ↔ db.Released contractId := by
  have hscore : ∀ t : TrustScore, ¬ t.below ↔ 85 ≤ t.toNumber := by
    intro t
    rw [TrustScore.below_iff, not_lt]
    rfl
  rw [Tables.evaluate, Tables.rejected, blockers_eq_nil_iff, Tables.Released]
  simp only [rejected_eq_zero_iff, OracleState.scorePasses, AuditSignals.allPassed,
    OracleState.signals, hscore, Option.mem_def]
  constructor
  · rintro ⟨row, hrow, ⟨hast, htests, hsecurity⟩, ⟨hscore, hcritical⟩, hchecks⟩
    exact ⟨⟨row, hrow, hast, htests, hsecurity, hscore, hcritical⟩, hchecks⟩
  · rintro ⟨⟨row, hrow, hast, htests, hsecurity, hscore, hcritical⟩, hchecks⟩
    exact ⟨row, hrow, ⟨hast, htests, hsecurity⟩, ⟨hscore, hcritical⟩, hchecks⟩

/-- What the driver returns decides as the columns themselves do. -/
theorem approved_evaluate_iff {db : Tables} {contractId : Text} :
    (db.evaluate contractId).blockers = [] ↔
      (Oracle.evaluate (db.oracleState contractId) (db.checksOf contractId)).approved = true := by
  rw [Tables.evaluate, Tables.rejected, blockers_eq_nil_iff, evaluate_approved]

/-- The gate lets exactly the released contracts through, and names a blocker for all others. -/
theorem release_gate_exact (db : Tables) (contractId : Text) :
    ((db.evaluate contractId).approved = true ↔ db.Released contractId) ∧
      ((db.evaluate contractId).blockers = [] ↔ db.Released contractId) := by
  have happroved : (db.evaluate contractId).approved = true ↔
      (db.evaluate contractId).blockers = [] :=
    decide_eq_true_iff.trans List.length_eq_zero_iff
  rw [happroved, blockers_evaluate_iff]
  exact ⟨Iff.rfl, Iff.rfl⟩

end AssureCode.Oracle
