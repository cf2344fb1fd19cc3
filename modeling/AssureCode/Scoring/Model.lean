import AssureCode.Python.Format
import AssureCode.Python.Text
import AssureCode.Settlement.Model

/-! # The trust score

The score route of the AI service: the telemetry it admits, the terms of the linear model with
their texts, the score, and what it does with it. Arithmetic is exact; the rounding is that of
the source's `round` calls.
-/

namespace AssureCode.Scoring

open Python Settlement

abbrev wTest : ℚ := 40 / 100
abbrev wMaint : ℚ := 25 / 100
abbrev wSec : ℚ := 20 / 100
abbrev wScope : ℚ := 15 / 100

/-- Measured CI output, with the bounds its fields are declared with. -/
structure TelemetryData where
  maintainability : ℚ
  cyclomaticComplexity : ℕ
  passedTests : ℕ
  totalTests : ℕ
  totalVulnerabilities : ℕ
  criticalVulnerabilities : ℕ
  highVulnerabilities : ℕ
  maintainability_nonneg : 0 ≤ maintainability
  maintainability_le : maintainability ≤ 100
  cyclomaticComplexity_pos : 1 ≤ cyclomaticComplexity

structure XaiScoreRequest where
  contractId : String
  freelancerId : String
  telemetry : TelemetryData
  contractId_ne : contractId ≠ ""
  freelancerId_ne : freelancerId ≠ ""

structure TermBreakdown where
  name : String
  value : ℚ
  weight : ℚ
  contribution : ℚ
  justification : String

structure XaiScoreResponse where
  contractId : String
  freelancerId : String
  trustScore : ℚ
  criticalVulnerabilities : ℕ
  scopeMeasured : Bool
  trustScorePersisted : Bool
  terms : List TermBreakdown
  justifications : List String
  scoredAt : String
  narrative : Option Js.Text

/-- Allowed against recorded scope checks of a contract. -/
structure ScopeAdherence where
  allowed : ℕ
  total : ℕ

def ScopeAdherence.measured (a : ScopeAdherence) : Bool := 0 < a.total

def ScopeAdherence.ratio (a : ScopeAdherence) : Option ℚ :=
  if a.total = 0 then none else some (a.allowed / a.total)

def securityScore (total critical high : ℕ) : ℚ :=
  max 0 (100 - 40 * critical - 20 * high - 5 * total)

def term (name : String) (value weight : ℚ) (justification : String) : TermBreakdown where
  name := name
  value := round value 2
  weight := round weight 4
  contribution := round (weight * value) 2
  justification := justification

def refusal (statusCode : ℕ) (detail : String) : HttpException String where
  statusCode := statusCode
  detail := detail

def validateTelemetry (req : XaiScoreRequest) : Except (HttpException String) Unit :=
  let tel := req.telemetry
  if tel.criticalVulnerabilities + tel.highVulnerabilities > tel.totalVulnerabilities then
    .error (refusal 422 <| "critical + high vulnerabilities exceed the total. The counts come from one " ++
      "scan and cannot disagree; refusing to score inconsistent telemetry.")
  else if tel.totalTests = 0 then
    .error (refusal 409 <| s!"No tests were executed for {req.contractId}. A trust score derived from an " ++
      "empty test run would assert a verification that never happened.")
  else .ok ()

/-- The three terms every contract has, under the weights that apply. -/
def measuredTerms (tel : TelemetryData) (wTest wMaint wSec : ℚ) : List TermBreakdown :=
  let sTest : ℚ := 100 * tel.passedTests / tel.totalTests
  let sMaint := tel.maintainability
  let sSec := securityScore tel.totalVulnerabilities tel.criticalVulnerabilities
    tel.highVulnerabilities
  [ term "tests" sTest wTest
      (s!"CI pass rate: {tel.passedTests}/{tel.totalTests} hidden tests passed " ++
        s!"({fixed 0 sTest}%)."),
    term "maintainability" sMaint wMaint
      (s!"Code quality: SEI maintainability index {fixed 1 sMaint}/100 at cyclomatic " ++
        s!"complexity {tel.cyclomaticComplexity}."),
    term "security" sSec wSec
      (s!"Security audit: {tel.criticalVulnerabilities} critical, " ++
        s!"{tel.highVulnerabilities} high, {tel.totalVulnerabilities} total findings " ++
        s!"-> S_sec {fixed 0 sSec}/100.") ]

/-- The linear model's terms, in report order; adherence has a ratio when it was measured. -/
def buildTerms (tel : TelemetryData) (adherence : ScopeAdherence) : List TermBreakdown :=
  let norm := wTest + wMaint + wSec
  match adherence.ratio with
  | none => measuredTerms tel (wTest / norm) (wMaint / norm) (wSec / norm)
  | some ratio =>
    let sScope := 100 * ratio
    measuredTerms tel wTest wMaint wSec ++
      [ term "scope_adherence" sScope wScope
          (s!"Scope adherence: {adherence.allowed}/{adherence.total} messages matched the " ++
            s!"anchored contract ({fixed 0 sScope}%).") ]

def trustScore (terms : List TermBreakdown) : ℚ := round (terms.map (·.contribution)).sum 2

def termLine (t : TermBreakdown) : String :=
  s!"- {t.name}: {fixed 1 t.value}/100, weighted {percent t.weight}, " ++
    s!"contributes {fixed 1 t.contribution} points"

/-- The explanation of a finished score; a client that raises is one that has none. -/
def generateNarrative (generate : String → ℕ → Option Js.Text) (trustScore : ℚ)
    (terms : List TermBreakdown) : Option Js.Text :=
  let prompt :=
    s!"A software contract's trust score is {fixed 1 trustScore}/100, computed as a fixed " ++
    s!"weighted sum (not by you) from these measured terms:\n" ++
    "\n".intercalate (terms.map termLine) ++ "\n\n" ++
    "In 2-3 plain-language sentences, explain what this score reflects and which term(s) " ++
    "drove it up or down. Do not state a different score or recommend approval/rejection — " ++
    "you are explaining a number that has already been decided by fixed arithmetic, not " ++
    "judging the contract."
  match generate prompt 220 with
  | none => none
  | some text => if strip text = [] then none else some (strip text)

/-- What the route depends on, as it answers this request. -/
structure Deps where
  /-- `scope_log.adherence`, which may be unavailable for a reason. -/
  adherence : String → Except String ScopeAdherence
  generate : String → ℕ → Option Js.Text
  /-- The freelancers of the in-process repository that a failed write falls back to. -/
  mirrored : String → Bool
  now : String

abbrev Profiles : Type := String → Option Profile

/-- `UPDATE freelancer_profiles SET trust_score = %s WHERE freelancer_id = %s` -/
def rescoreProfile (profiles : Profiles) (freelancerId : String) (trustScore : ℚ) : Profiles :=
  Function.update profiles freelancerId
    ((profiles freelancerId).map fun p => { p with trustScore := trustScore })

/-- `PostgresGraphRepo.update_trust_score`, with how its statement ends. -/
def updateTrustScore (d : Deps) (o : Outcome) (profiles : Profiles) (freelancerId : String)
    (trustScore : ℚ) : Bool × Profiles :=
  match o with
  | .ok => (true, rescoreProfile profiles freelancerId trustScore)
  | .failed => (d.mirrored freelancerId, profiles)
  | .lost => (d.mirrored freelancerId, rescoreProfile profiles freelancerId trustScore)

def unmeasuredText : String :=
  "Scope adherence: not measured — no scope checks are recorded for this contract. " ++
  "The term is excluded and the remaining weights renormalised, so this score neither " ++
  "rewards nor penalises the missing evidence."

/-- `POST /xai/score` -/
def calculateXaiScore (d : Deps) (o : Outcome) (profiles : Profiles) (req : XaiScoreRequest) :
    Except (HttpException String) XaiScoreResponse × Profiles :=
  match validateTelemetry req with
  | .error e => (.error e, profiles)
  | .ok () =>
    match d.adherence req.contractId with
    | .error err =>
      (.error (refusal 503
        s!"Scope decision log unavailable, cannot compute the adherence term: {err}"), profiles)
    | .ok adherence =>
      let terms := buildTerms req.telemetry adherence
      let score := trustScore terms
      let (persisted, stored) := updateTrustScore d o profiles req.freelancerId score
      (.ok {
        contractId := req.contractId
        freelancerId := req.freelancerId
        trustScore := score
        criticalVulnerabilities := req.telemetry.criticalVulnerabilities
        scopeMeasured := adherence.measured
        trustScorePersisted := persisted
        terms := terms
        justifications := terms.map (·.justification) ++
          if adherence.measured then [] else [unmeasuredText]
        scoredAt := d.now
        narrative := generateNarrative d.generate score terms }, stored)

end AssureCode.Scoring
