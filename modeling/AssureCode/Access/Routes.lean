import AssureCode.Access.Model

/-! # Routes behind the hook

The routes that end a session, verify an identity or open a payout account, the tables they work
on, and any number of requests at once. Sessions begin and are revoked, and accounts and contracts
come about, by other routes as well.
-/

namespace AssureCode.Access

open Js Program

/-! ## `encodeURIComponent` -/

def isUnreserved (u : ℕ) : Bool :=
  (0x41 ≤ u && u ≤ 0x5A) || (0x61 ≤ u && u ≤ 0x7A) || (0x30 ≤ u && u ≤ 0x39) ||
    u ∈ units "-_.!~*'()"

def percentEncode (bytes : List UInt8) : Text :=
  bytes.flatMap fun b => 0x25 ::
    [b.toNat / 16, b.toNat % 16].map fun d => if d < 10 then 0x30 + d else 0x41 + (d - 10)

/-- `none` for the URIError of a surrogate alone. -/
def encodeURIComponent : Text → Option Text
  | [] => some []
  | [u] =>
    if isLeadSurrogate u || isTrailSurrogate u then none
    else some (if isUnreserved u then [u] else percentEncode (utf8 [u]))
  | u :: v :: t =>
    if isLeadSurrogate u && isTrailSurrogate v then
      (encodeURIComponent t).map (percentEncode (utf8 [u, v]) ++ ·)
    else if isLeadSurrogate u || isTrailSurrogate u then none
    else (encodeURIComponent (v :: t)).map
      ((if isUnreserved u then [u] else percentEncode (utf8 [u])) ++ ·)

/-! ## Routes -/

section Handlers

variable (g : Gateway) (request : Request) (caller : Caller)

def denyIfNotSelfOrAdmin (targetUserId : Text) (auditAction message : String) :
    Code (Option Refusal) :=
  match caller with
  | .service | .nobody => pure none
  | .user user =>
    if user.role = units "admin" ∨ user.userId = targetUserId then pure none
    else do
      logSecurityAudit (some user.userId) auditAction (units "kyc:" ++ targetUserId) request.ip
        "DENIED"
      pure (some (refusal 403 "Forbidden" message))

def badRequest (error : String) : Refusal := { status := 400, error := units error }

def userNotFound : Refusal := { status := 404, error := units "User not found" }

/-- `createVerificationSession` of the fake adapter. -/
def verificationSession (userId : Text) : Code (Text × Text) := do
  let sessionId := units "vs_fake_" ++ userId
  let encoded ← ofOption (encodeURIComponent sessionId)
  pure (sessionId, g.webAppUrl ++ units "/kyc-callback?session_id=" ++ encoded ++
    units "&status=verified")

/-- `createPayoutOnboardingLink` of the fake adapter. -/
def onboardingLink (accountId : Text) : Code Text := do
  let encoded ← ofOption (encodeURIComponent accountId)
  pure (g.webAppUrl ++ units "/connect/return?account_id=" ++ encoded ++
    units "&status=completed")

def kycVerify (userId idType : Option Text) : Code Reply :=
  match userId.filter (· ≠ []), idType.filter (· ≠ []) with
  | some userId, some idType => do
    match ← denyIfNotSelfOrAdmin request caller userId "KYC_VERIFY_DENIED"
      "You can only run identity verification for your own account." with
    | some refusal => pure (.refused refusal)
    | none =>
      if ← act caller (.userExists userId) then
        let session ← verificationSession g userId
        let uuid ← randomUUID
        act caller (.insertVerification ⟨userId, idType, units "hash_" ++ uuid.take 8⟩)
        act caller (.setVerified userId)
        logSecurityAudit (some userId) "KYC_VERIFIED" (units "kyc:" ++ session.1) request.ip
          "SUCCESS"
        pure (.verified session.1 session.2)
      else pure (.refused userNotFound)
  | _, _ => pure (.refused (badRequest "userId and idType are required"))

def kycStatusOf (userId : Text) : Code Reply := do
  match ← denyIfNotSelfOrAdmin request caller userId "KYC_STATUS_READ_DENIED"
    "You can only read the verification status of your own account." with
  | some refusal => pure (.refused refusal)
  | none => do
    match ← act caller (.readUser userId) with
    | none => pure (.refused userNotFound)
    | some user => do
      let verification ← act caller (.readVerification userId)
      pure (.status user verification)

/-- The email goes to the adapter alone, which makes nothing of it. -/
def connectOnboarding (userId : Option Text) : Code Reply :=
  match userId.filter (· ≠ []) with
  | some userId => do
    match ← denyIfNotSelfOrAdmin request caller userId "CONNECT_ONBOARDING_DENIED"
      "You can only start payout onboarding for your own account." with
    | some refusal => pure (.refused refusal)
    | none =>
      if ← act caller (.userExists userId) then
        let accountId := units "acct_fake_" ++ userId
        act caller (.setPayoutAccount userId accountId)
        let url ← onboardingLink g accountId
        pure (.onboarding accountId url)
      else pure (.refused userNotFound)
  | none => pure (.refused (badRequest "userId is required"))

def logout : Code Reply :=
  match caller with
  | .user user => do
    act caller (.revokeSession user.sessionId)
    logSecurityAudit (some user.userId) "LOGOUT" (units "auth") request.ip "SUCCESS"
    pure .success
  | _ => pure .success

def handler : Route → Code Reply
  | .guarded guards => do
    match ← preHandler request caller guards with
    | some refusal => pure (.refused refusal)
    | none =>
      act caller .handle
      pure .handled
  | .logout => logout request caller
  | .kycVerify userId idType => kycVerify g request caller userId idType
  | .kycStatus userId => kycStatusOf request caller userId
  | .connectOnboarding userId _ => connectOnboarding g request caller userId

end Handlers

/-- The path that a route is reached by; guarded routes have many. -/
def Route.serves (path : Text) : Route → Bool
  | .guarded _ => true
  | .logout => path = units "/auth/logout"
  | .kycVerify _ _ => path = units "/api/kyc/verify"
  | .kycStatus _ => (units "/api/kyc/status/").isPrefixOf path
  | .connectOnboarding _ _ => path = units "/api/kyc/connect-onboarding"

/-- A request that arrives at this time: the hook, and then its route. -/
def respond (g : Gateway) (now : ℕ) (request : Request) (route : Route) : Code Reply := do
  match ← onRequest g now request with
  | .error refusal => pure (.refused refusal)
  | .ok caller => handler g request caller route

/-! ## Tables -/

structure Session where
  sessionId : Text
  userId : Text
  expiresAt : ℕ
  revokedAt : Option ℕ := none

/-- Ids are unique, and so are those of sessions. -/
structure Store where
  now : ℕ := 0
  sessions : List Session := []
  users : List User := []
  /-- The ids of contracts with their clients and freelancers. -/
  contracts : List (Text × Text × Option Text) := []
  verifications : List Verification := []
  auditLogs : List SecurityAudit := []

/-- `revoked_at IS NULL AND expires_at > now()` -/
def Session.Active (now : ℕ) (row : Session) : Prop := row.revokedAt = none ∧ now < row.expiresAt

instance (now : ℕ) (row : Session) : Decidable (row.Active now) :=
  inferInstanceAs (Decidable (_ ∧ _))

namespace Store

variable (s : Store)

def isSessionActive (sessionId : Text) : Bool :=
  s.sessions.any fun row => row.sessionId = sessionId ∧ row.Active s.now

def revoke (row : Session) : Session :=
  if row.revokedAt = none then { row with revokedAt := some s.now } else row

def revokeSession (sessionId : Text) : Store :=
  { s with sessions := s.sessions.map fun row =>
      if row.sessionId = sessionId then s.revoke row else row }

/-- `session_id IS DISTINCT FROM $2` -/
def revokeAllSessions (userId : Text) (exceptSessionId : Option Text) : Store :=
  { s with sessions := s.sessions.map fun row =>
      if row.userId = userId ∧ exceptSessionId ≠ some row.sessionId then s.revoke row else row }

def createSession (sessionId userId : Text) (ttl : ℕ) : Option Store :=
  if ∀ row ∈ s.sessions, row.sessionId ≠ sessionId then
    some { s with sessions := s.sessions ++ [⟨sessionId, userId, s.now + ttl, none⟩] }
  else none

def user (userId : Text) : Option User := s.users.find? (·.userId = userId)

def updateUser (userId : Text) (f : User → User) : Store :=
  { s with users := s.users.map fun u => if u.userId = userId then f u else u }

end Store

def User.verify (u : User) : User := { u with kycStatus := units "VERIFIED" }

def User.pay (accountId : Text) (u : User) : User := { u with payoutAccountId := some accountId }

/-- The constraint of the column `id_type`. -/
def idTypes : List Text := [units "PASSPORT", units "DRIVERS_LICENSE", units "NATIONAL_ID"]

/-- Whether the database answers a check, whether a log is written, and a random value. -/
structure Choice where
  answered : Bool := true
  uuid : Text := []

def perform (s : Store) : (statement : Statement) → Option (statement.Answer × Store)
  | .handle => some ((), s)
  | .revokeSession sessionId => some ((), s.revokeSession sessionId)
  | .userExists userId => some ((s.user userId).isSome, s)
  | .insertVerification row =>
    if idTypes.contains row.idType && (s.user row.userId).isSome then
      some ((), { s with verifications := s.verifications ++ [row] })
    else none
  | .setVerified userId => some ((), s.updateUser userId User.verify)
  | .readUser userId => some (s.user userId, s)
  | .readVerification userId =>
    some (s.verifications.reverse.find? (·.userId = userId), s)
  | .setPayoutAccount userId accountId => some ((), s.updateUser userId (.pay accountId))

def serve (s : Store) (_ : Trail) (c : Query) (x : Choice) : Option (c.Answer × Store) :=
  match c with
  | .received .. => some ((), s)
  | .isSessionActive sessionId =>
    some (if x.answered then some (s.isSessionActive sessionId) else none, s)
  | .kycStatus userId =>
    some (if x.answered then some ((s.user userId).map (·.kycStatus)) else none, s)
  | .contractParties contractId =>
    some (if x.answered then some (s.contracts.lookup contractId) else none, s)
  | .logSecurityAudit row =>
    some ((), if x.answered then { s with auditLogs := s.auditLogs ++ [row] } else s)
  | .randomUUID => some (x.uuid, s)
  | .act _ statement => perform s statement

/-- What happens by other routes, and that time passes. -/
inductive Move
  | tick (now : ℕ)
  | createSession (sessionId userId : Text) (ttl : ℕ)
  | revokeAllSessions (userId : Text) (exceptSessionId : Option Text)
  | addUser (userId role displayName : Text)
  | addContract (contractId clientId : Text)
  | assign (contractId freelancerId : Text)

def pass (s : Store) : Move → Option Store
  | .tick now => if s.now ≤ now then some { s with now } else none
  | .createSession sessionId userId ttl => s.createSession sessionId userId ttl
  | .revokeAllSessions userId exceptSessionId =>
    some (s.revokeAllSessions userId exceptSessionId)
  | .addUser userId role displayName =>
    if (s.user userId).isSome then none
    else some { s with
      users := s.users ++ [⟨userId, role, displayName, units "UNVERIFIED", false, none⟩] }
  | .addContract contractId clientId =>
    if (s.contracts.lookup contractId).isSome then none
    else some { s with contracts := s.contracts ++ [(contractId, clientId, none)] }
  | .assign contractId freelancerId =>
    some { s with contracts := s.contracts.map fun row =>
      if row.1 = contractId then (row.1, row.2.1, some freelancerId) else row }

/-- The flow of a request begins with its arrival. -/
def start (g : Gateway) (s : Store) (request : Request) (route : Route) :
    Option (Flow Query Query.Answer Reply) :=
  if route.serves (pathOf request.url) then
    some ⟨[⟨.received request route s.now, ()⟩], respond g s.now request route⟩
  else none

def service (g : Gateway) :
    Service Query Query.Answer Reply Store (Request × Route) Choice Move where
  start s x := start g s x.1 x.2
  serve := serve
  pass := pass

abbrev System : Type := Concurrent.State Query Query.Answer Reply Store

abbrev Action : Type := Concurrent.Action (Request × Route) Choice Move

/-- The tables are empty at first. -/
def Initial (s : Store) : Prop := s.sessions = [] ∧ s.users = [] ∧ s.verifications = []

def system (g : Gateway) : Machine System Action := Concurrent.system (service g) Initial

end AssureCode.Access
