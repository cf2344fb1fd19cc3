import AssureCode.Js.Bytes
import AssureCode.Transition.Concurrent

/-! # Who may do what

The hook that every request of the gateway passes, the guards in front of its routes, and the
routes that end a session or verify an identity, each as a program of what it waits for. What a
route does it does for a caller, so that its statements are told apart by theirs.
-/

namespace AssureCode.Access

open Js Program

structure JwtPayload where
  sub : Text
  email : Text
  role : Text
  kycStatus : Text
  mfaEnabled : Bool
  sid : Text

structure AuthUser where
  userId : Text
  email : Text
  role : Text
  kycStatus : Text
  mfaEnabled : Bool
  sessionId : Text
  deriving DecidableEq

/-- `request.user` and `request.isServiceCaller`; on a public path neither is set. -/
inductive Caller
  | nobody
  | service
  | user (user : AuthUser)
  deriving DecidableEq

/-- `queryToken`: the query parameter `token` when it is a string. -/
structure Request where
  url : Text
  serviceHeader : Option Text := none
  authorization : Option Text := none
  queryToken : Option Text := none
  contractId : Option Text := none
  ip : Text := []
  deriving DecidableEq

/-- A guard in front of a route, with what it is made for. -/
inductive Guard
  | requireRole (allowedRoles : List Text)
  | requireKycVerified
  | requireContractParty (allowedParties : List Text)
  deriving DecidableEq

inductive Route
  /-- Any handler, and the guards in front of it. -/
  | guarded (guards : List Guard)
  | logout
  | kycVerify (userId idType : Option Text)
  | kycStatus (userId : Text)
  | connectOnboarding (userId email : Option Text)
  deriving DecidableEq

/-- A row of `security_audit_logs`. -/
structure SecurityAudit where
  userId : Option Text
  action : Text
  resource : Text
  ipAddress : Option Text
  status : Text
  deriving DecidableEq

/-- The columns of a user that the routes read. -/
structure User where
  userId : Text
  role : Text
  displayName : Text
  kycStatus : Text
  mfaEnabled : Bool
  payoutAccountId : Option Text := none

/-- A row of `kyc_verifications`, whose other columns are the same for all. -/
structure Verification where
  userId : Text
  idType : Text
  documentHash : Text
  deriving DecidableEq

/-- What a route does. -/
inductive Statement
  | handle
  | revokeSession (sessionId : Text)
  | userExists (userId : Text)
  | insertVerification (row : Verification)
  | setVerified (userId : Text)
  | readUser (userId : Text)
  | readVerification (userId : Text)
  | setPayoutAccount (userId accountId : Text)
  deriving DecidableEq

abbrev Statement.Answer : Statement → Type
  | .userExists _ => Bool
  | .readUser _ => Option User
  | .readVerification _ => Option Verification
  | _ => Unit

/-- What a request waits for; it begins with its own arrival. -/
inductive Query
  | received (request : Request) (route : Route) (now : ℕ)
  | isSessionActive (sessionId : Text)
  | kycStatus (userId : Text)
  | contractParties (contractId : Text)
  | logSecurityAudit (row : SecurityAudit)
  | randomUUID
  | act (caller : Caller) (statement : Statement)
  deriving DecidableEq

/-- Answers; the checks answer `none` where the database throws. -/
abbrev Query.Answer : Query → Type
  | .isSessionActive _ => Option Bool
  | .kycStatus _ => Option (Option Text)
  | .contractParties _ => Option (Option (Text × Option Text))
  | .randomUUID => Text
  | .act _ statement => statement.Answer
  | _ => Unit

abbrev Event : Type := Program.Event Query.Answer

abbrev Trail : Type := List Event

abbrev Code : Type → Type := Program Query Query.Answer

def isSessionActive (sessionId : Text) : Code (Option Bool) :=
  await (Query.isSessionActive sessionId)

def kycStatus (userId : Text) : Code (Option (Option Text)) := await (Query.kycStatus userId)

def contractParties (contractId : Text) : Code (Option (Option (Text × Option Text))) :=
  await (Query.contractParties contractId)

def randomUUID : Code Text := await Query.randomUUID

def act (caller : Caller) (statement : Statement) : Code statement.Answer :=
  await (Query.act caller statement)

/-- Whether the row is written or not, nothing is thrown. -/
def logSecurityAudit (userId : Option Text) (action : String) (resource : Text) (ipAddress : Text)
    (status : String) : Code Unit :=
  await (Query.logSecurityAudit {
    userId := userId.filter (· ≠ [])
    action := units action
    resource
    ipAddress := (some ipAddress).filter (· ≠ [])
    status := units status })

/-- An answer that ends a request without what it asked for. -/
structure Refusal where
  status : ℕ
  error : Text
  message : Option Text := none
  kycStatus : Option Text := none
  deriving DecidableEq

inductive Reply
  | refused (refusal : Refusal)
  | handled
  | success
  | verified (sessionId verificationUrl : Text)
  | status (user : User) (verification : Option Verification)
  | onboarding (accountId onboardingUrl : Text)

def refusal (status : ℕ) (error message : String) : Refusal where
  status := status
  error := units error
  message := some (units message)

/-! ## The hook -/

/-- What is given with the deployment: secrets, and how tokens are verified at a time. -/
structure Gateway where
  serviceToken : Text
  /-- `server.jwt.verify` -/
  verify : ℕ → Text → Option JwtPayload
  /-- `request.jwtVerify`, of the authorization header -/
  jwtVerify : ℕ → Option Text → Option JwtPayload
  webAppUrl : Text

/-- `url.split('?')[0]` -/
def pathOf (url : Text) : Text := url.takeWhile (· ≠ 0x3F)

def publicPaths : List String :=
  ["/healthz", "/readyz", "/metrics", "/auth/login", "/auth/register", "/auth/mfa/challenge",
    "/auth/forgot-password", "/auth/reset-password", "/auth/verify-email", "/auth/github",
    "/auth/github/callback", "/auth/github/exchange"]

def publicPrefixes : List String := ["/webhooks/"]

def isPublicPath (url : Text) : Bool :=
  publicPaths.any (fun path => units path = pathOf url) ||
    publicPrefixes.any fun start => (units start).isPrefixOf (pathOf url)

def isStreamPath (url : Text) : Bool := (units "/stream").isSuffixOf (pathOf url)

/-- The token of a stream: the bearer's, else that of the query. -/
def streamToken (request : Request) : Option Text :=
  let bearer := request.authorization.bind fun header =>
    if (units "Bearer ").isPrefixOf header then some (header.drop 7) else none
  ((bearer <|> request.queryToken)).filter (· ≠ [])

variable (g : Gateway)

/-- The payload of the request's token; `none` when it is refused. -/
def Gateway.payload (now : ℕ) (request : Request) : Option JwtPayload :=
  if isStreamPath request.url then (streamToken request).bind (g.verify now)
  else g.jwtVerify now request.authorization

def JwtPayload.user (payload : JwtPayload) : AuthUser where
  userId := payload.sub
  email := payload.email
  role := payload.role
  kycStatus := payload.kycStatus
  mfaEnabled := payload.mfaEnabled
  sessionId := payload.sid

def isServiceCall (request : Request) : Bool :=
  request.serviceHeader.any fun header => header ≠ [] ∧ header = g.serviceToken

def unauthorized : Refusal :=
  refusal 401 "Unauthorized"
    "A valid Authorization bearer token or x-service-token header is required."

def revoked : Refusal :=
  refusal 401 "Unauthorized" "This session has been revoked or has expired."

/-- The hook that `registerAuth` adds. -/
def onRequest (now : ℕ) (request : Request) : Code (Except Refusal Caller) :=
  if isPublicPath request.url then pure (.ok .nobody)
  else if isServiceCall g request then pure (.ok .service)
  else match g.payload now request with
    | none => pure (.error unauthorized)
    | some payload => do
      match ← isSessionActive payload.sid with
      | none => pure (.error unauthorized)
      | some false => pure (.error revoked)
      | some true => pure (.ok (.user payload.user))

/-! ## Guards -/

section Guards

variable (request : Request) (caller : Caller)

def requireRole (allowedRoles : List Text) : Code (Option Refusal) :=
  match caller with
  | .service => pure none
  | .nobody =>
    pure (some (refusal 401 "Unauthorized" "Authentication token required for this resource"))
  | .user user =>
    if allowedRoles.contains user.role then pure none
    else pure (some {
      status := 403
      error := units "Forbidden"
      message := some (units "Role '" ++ user.role ++
        units "' is not authorized. Allowed roles: " ++ join (units ", ") allowedRoles) })

def requireKycVerified : Code (Option Refusal) :=
  match caller with
  | .service => pure none
  | .nobody => pure (some (refusal 401 "Unauthorized" "Authentication required"))
  | .user user => do
    match ← kycStatus user.userId with
    | none => pure (some (refusal 503 "KYC_CHECK_UNAVAILABLE"
        "Could not confirm identity verification status; refusing to proceed."))
    | some none => pure (some (refusal 401 "Unauthorized"
        "The account this token was issued for no longer exists."))
    | some (some status) =>
      if status = units "VERIFIED" then pure none
      else pure (some { refusal 403 "KYC_REQUIRED"
        "Identity verification (KYC) required before performing this operation." with
          kycStatus := some status })

/-- The user is the client, or the freelancer, as far as these may pass. -/
def isParty (allowedParties : List Text) (userId : Text) (row : Text × Option Text) : Bool :=
  (allowedParties.contains (units "client") && userId = row.1) ||
    (allowedParties.contains (units "freelancer") && some userId = row.2)

def requireContractParty (allowedParties : List Text) : Code (Option Refusal) :=
  match caller with
  | .service => pure none
  | .nobody => pure (some (refusal 401 "Unauthorized" "Authentication required"))
  | .user user =>
    if user.role = units "admin" then pure none
    else match request.contractId.filter (· ≠ []) with
      | none => raised
      | some contractId => do
        match ← contractParties contractId with
        | none => pure (some (refusal 503 "CONTRACT_ACCESS_CHECK_UNAVAILABLE"
            "Could not confirm contract ownership; refusing to proceed."))
        | some none => pure none
        | some (some row) =>
          if isParty allowedParties user.userId row then pure none
          else
            logSecurityAudit (some user.userId) "CONTRACT_ACCESS_DENIED"
              (units "contract:" ++ contractId) request.ip "DENIED"
            pure (some (refusal 403 "Forbidden" "You are not a party to this contract."))

def Guard.run : Guard → Code (Option Refusal)
  | .requireRole allowedRoles => Access.requireRole caller allowedRoles
  | .requireKycVerified => Access.requireKycVerified caller
  | .requireContractParty allowedParties =>
    Access.requireContractParty request caller allowedParties

/-- The guards of a route, in order, up to the first that refuses. -/
def preHandler : List Guard → Code (Option Refusal)
  | [] => pure none
  | guard :: guards => do
    match ← guard.run request caller with
    | some refusal => pure (some refusal)
    | none => preHandler guards

end Guards

def clientOnly : List Guard :=
  [.requireRole [units "client"], .requireContractParty [units "client"]]

def clientVerified : List Guard :=
  [.requireRole [units "client"], .requireKycVerified, .requireContractParty [units "client"]]

def settlementGuards : List Guard :=
  [.requireRole [units "client", units "admin"], .requireKycVerified,
    .requireContractParty [units "client"]]

def freelancerOnly : List Guard := [.requireRole [units "freelancer"]]

def contractPartyOnly : List Guard :=
  [.requireContractParty [units "client", units "freelancer"]]

def freelancerContractParty : List Guard :=
  [.requireRole [units "freelancer"], .requireContractParty [units "freelancer"]]

end AssureCode.Access
