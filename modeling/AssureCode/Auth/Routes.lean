import AssureCode.Auth.Store

/-! # The routes

The handlers that end in a session, in a token or in the use of one, each as a program of what it
waits for. A token is checked when its request arrives; a flow that goes on from a token goes on
from the calls that led to it.
-/

namespace AssureCode.Auth

open Js Program

/-- What is sent back; a redirect names its URL. -/
inductive Reply
  | error (status : ℕ) (message : String)
  | session (status : ℕ) (token : Claims) (displayName : Text)
  | mfaRequired (challenge : Text)
  | message (text : String)
  | success
  | authorize (state : Text)
  | redirect (url : Text)
  deriving DecidableEq

/-- What GitHub answers in the callback. -/
inductive GithubOutcome
  | failed
  | noEmail
  | identity (identity : GithubIdentity)

/-- A request; the fields of its body or its query may be missing. -/
inductive Request
  | login (email password : Option Text)
  | register (email password role : Option Text)
  | mfaChallenge (challenge code : Option Text)
  | github
  | githubLinkUrl (user : Option Id)
  | githubCallback (code state error : Option Text) (outcome : GithubOutcome)
  | githubExchange (code : Option Text)
  | forgotPassword (email : Option Text)
  | resetPassword (token newPassword confirmPassword : Option Text)
  | verifyEmail (token : Option Text)

abbrev Code : Type → Type := Program Query Query.Answer

/-! ## Calls -/

def userByEmail (email : Text) : Code (Option User) := await (Query.userByEmail email)

def userIdByEmail (email : Text) : Code (Option Id) := await (Query.userIdByEmail email)

def userById (userId : Text) : Code (Option User) := await (Query.userById userId)

def insertUser (userId : Id) (email passwordHash role displayName : Text) : Code User :=
  await (Query.insertUser userId email passwordHash role displayName)

def setPassword (userId : Id) (passwordHash : Text) : Code ℕ :=
  await (Query.setPassword userId passwordHash)

def setEmailVerified (userId : Id) : Code Unit := await (Query.setEmailVerified userId)

def activeSecret (userId : Text) : Code (Option Text) := await (Query.activeSecret userId)

def insertSession (sessionId userId : Id) (token : Claims) : Code Unit :=
  await (Query.insertSession sessionId userId token)

def revokeAllSessions (userId : Id) : Code Unit := await (Query.revokeAllSessions userId)

def liveToken (tokenHash : Text) (type : TokenType) : Code (Option Id) :=
  await (Query.liveToken tokenHash type)

def deleteUnusedResets (userId : Id) : Code Unit := await (Query.deleteUnusedResets userId)

def insertToken (tokenHash : Text) (userId : Id) (type : TokenType) : Code Unit :=
  await (Query.insertToken tokenHash userId type)

def useToken (tokenHash : Text) : Code Unit := await (Query.useToken tokenHash)

def signIn (newId : Id) (identity : GithubIdentity) : Code Id := await (Query.signIn newId identity)

def link (linkToUserId : Text) (identity : GithubIdentity) : Code Bool :=
  await (Query.link linkToUserId identity)

def verifyPassword (password hash : Text) : Code Bool := await (Query.verifyPassword password hash)

def hashPassword (password : Text) : Code Text := await (Query.hashPassword password)

def verifyTotp (secret code : Text) : Code Bool := await (Query.verifyTotp secret code)

def randomUUID : Code Id := await Query.randomUUID

def newRawToken : Code Text := await Query.newRawToken

def sign (signing : DotFree) : Code Text := await (Query.sign signing)

/-! ## Handlers -/

/-- A field that is there and not empty. -/
def given (field : Option Text) : Option Text := field.filter (· ≠ [])

theorem given_eq_some {field : Option Text} {t : Text} :
    given field = some t ↔ field = some t ∧ t ≠ [] := by
  rw [given, Option.filter_eq_some_iff, decide_eq_true_eq]

section Handlers

variable (g : Gateway) (now : Clock)

def issueSession (status : ℕ) (row : User) : Code Reply := do
  let sessionId ← randomUUID
  let token : Claims :=
    ⟨row.userId, row.email, row.role, row.kycStatus, row.mfaEnabled, sessionId⟩
  insertSession sessionId row.userId token
  pure (.session status token row.displayName)

def login (email password : Option Text) : Code Reply :=
  match given email, given password with
  | some email, some password => do
    match ← userByEmail (canonicalizeEmail g.tables email) with
    | none => pure (.error 401 "Invalid email or password")
    | some row =>
      if ← verifyPassword password row.passwordHash then
        if row.mfaEnabled then
          return .mfaRequired (← sign ⟨.mfaChallenge row.userId.1, row.userId.2⟩)
        else issueSession 200 row
      else pure (.error 401 "Invalid email or password")
  | _, _ => pure (.error 400 "email and password are required")

/-- What a registration is refused for before the database is asked. -/
def registerError (email password : Text) (role : Option Text) : Option String :=
  if !g.isEmail (canonicalizeEmail g.tables email) then some "Please enter a valid email address."
  else if role ≠ some (units "client") ∧ role ≠ some (units "freelancer") then
    some "role must be 'client' or 'freelancer'"
  else validateNewPassword g.tables password

def register (email password role : Option Text) : Code Reply :=
  match given email, given password with
  | none, _ => pure (.error 400 "Email address is required.")
  | some _, none => pure (.error 400 "Password is required.")
  | some email, some password =>
    match registerError g email password role with
    | some message => pure (.error 400 message)
    | none => do
      let email := canonicalizeEmail g.tables email
      match ← userIdByEmail email with
      | some _ => pure (.error 409 "An account with this email already exists")
      | none =>
        let userId ← randomUUID
        let passwordHash ← hashPassword password
        let row ← insertUser userId email passwordHash (role.getD []) email
        let rawToken ← newRawToken
        insertToken (g.sha256 rawToken) userId .emailVerification
        issueSession 201 row

def mfaChallenge (challenge code : Option Text) : Code Reply :=
  match given challenge, given code with
  | some challenge, some code =>
    match given (verifyMfaChallenge g.hmac now challenge) with
    | none => pure (.error 401 "Invalid or expired challenge")
    | some userId => do
      match ← activeSecret userId with
      | none => pure (.error 401 "MFA is no longer enabled for this account")
      | some secret =>
        if ← verifyTotp secret code then
          match ← userById userId with
          | none => pure (.error 401 "Invalid or expired challenge")
          | some row => issueSession 200 row
        else pure (.error 401 "Invalid code")
  | _, _ => pure (.error 400 "challenge and code are required")

def github : Code Reply := do return .authorize (← sign ⟨.state none, List.not_mem_nil⟩)

def githubLinkUrl (user : Option Id) : Code Reply :=
  match user with
  | none => pure (.error 401 "Unauthorized")
  | some userId => do return .authorize (← sign ⟨.state (some userId.1), userId.2⟩)

def redirectError (error : String) : Reply := .redirect (g.webAppUrl ++ units s!"/?error={error}")

def githubAccount (linkToUserId : Option Text) (identity : GithubIdentity) : Code Reply :=
  match linkToUserId with
  | some linkToUserId => do
    if ← link linkToUserId identity then return .redirect (g.webAppUrl ++ units "/")
    else return redirectError g "github_already_linked"
  | none => do
    let newId ← randomUUID
    let userId ← signIn newId identity
    let code ← sign ⟨.exchangeCode userId.1, userId.2⟩
    return .redirect (g.webAppUrl ++ units "/auth/github/callback?code=" ++ code)

def githubCallback (code state error : Option Text) (outcome : GithubOutcome) : Code Reply :=
  let stateResult := (given state).elim ⟨false, none⟩ (verifyState g.hmac now)
  if (given error).isSome || (given code).isNone || !stateResult.valid then
    pure (redirectError g "github_oauth_failed")
  else
    match outcome with
    | .failed => pure (redirectError g "github_oauth_failed")
    | .noEmail => pure (redirectError g "github_no_email")
    | .identity identity =>
      (githubAccount g stateResult.linkUserId identity).catching
        (pure (redirectError g "github_oauth_failed"))

def githubExchange (code : Option Text) : Code Reply :=
  match given code with
  | none => pure (.error 400 "code is required")
  | some code =>
    match given (verifyExchangeCode g.hmac now code) with
    | none => pure (.error 401 "Invalid or expired code")
    | some userId => do
      match ← userById userId with
      | none => pure (.error 401 "Invalid or expired code")
      | some row => issueSession 200 row

/-- The answer whether or not there is such an account. -/
def generic : Reply :=
  .message "If an account exists for this email, password reset instructions have been sent."

def forgotPassword (email : Option Text) : Code Reply :=
  match given email with
  | none => pure generic
  | some email => do
    match ← userIdByEmail (canonicalizeEmail g.tables email) with
    | none => pure generic
    | some userId =>
      deleteUnusedResets userId
      let rawToken ← newRawToken
      insertToken (g.sha256 rawToken) userId .passwordReset
      pure generic

def resetPassword (token newPassword confirmPassword : Option Text) : Code Reply :=
  match given token, given newPassword, given confirmPassword with
  | some token, some newPassword, some confirmPassword =>
    if newPassword ≠ confirmPassword then pure (.error 400 "Passwords do not match.")
    else
      match validateNewPassword g.tables newPassword with
      | some message => pure (.error 400 message)
      | none => do
        let tokenHash := g.sha256 token
        match ← liveToken tokenHash .passwordReset with
        | none => pure (.error 400 "This reset link is invalid or has expired.")
        | some userId =>
          let newHash ← hashPassword newPassword
          let _ ← setPassword userId newHash
          useToken tokenHash
          revokeAllSessions userId
          pure .success
  | _, _, _ => pure (.error 400 "token, newPassword and confirmPassword are required")

def verifyEmail (token : Option Text) : Code Reply :=
  match given token with
  | none => pure (.error 400 "token is required")
  | some token => do
    let tokenHash := g.sha256 token
    match ← liveToken tokenHash .emailVerification with
    | none => pure (.error 400 "This verification link is invalid or has expired.")
    | some userId =>
      setEmailVerified userId
      useToken tokenHash
      pure .success

def handler : Request → Code Reply
  | .login email password => login g email password
  | .register email password role => register g email password role
  | .mfaChallenge challenge code => mfaChallenge g now challenge code
  | .github => github
  | .githubLinkUrl user => githubLinkUrl user
  | .githubCallback code state error outcome => githubCallback g now code state error outcome
  | .githubExchange code => githubExchange g now code
  | .forgotPassword email => forgotPassword g email
  | .resetPassword token newPassword confirmPassword =>
    resetPassword g token newPassword confirmPassword
  | .verifyEmail token => verifyEmail g token

end Handlers

/-! ## Requests -/

/-- The token that a request presents, with what it is presented for. -/
def Request.presents : Request → Option (Purpose × Text)
  | .mfaChallenge challenge _ => (given challenge).map (.mfaChallenge, ·)
  | .githubCallback _ state _ _ => (given state).map (.state, ·)
  | .githubExchange code => (given code).map (.exchangeCode, ·)
  | _ => none

/-- The text that has to have been signed for a token with the right HMAC. -/
def signedText (hmac : Hmac) (p : Purpose) (token : Text) : Option Text :=
  match token.splitOn dot with
  | [a, ts, b, sig] =>
    if sameBytes sig (hmac.digest (p.text a ts b)) then some (p.text a ts b) else none
  | _ => none

/--
The flow of a request. Nobody has the right HMAC of a text that has not been signed, so that a
request with one goes on from the calls that led to the signature.
-/
def start (g : Gateway) (s : Store) (request : Request) :
    Option (Flow Query Query.Answer Reply) :=
  match request.presents.bind fun x => signedText g.hmac x.1 x.2 with
  | none => some ⟨[], handler g s.now request⟩
  | some text => (s.signed.find? (·.text = text)).map fun x => ⟨x.trail, handler g s.now request⟩

def service (g : Gateway) : Service Query Query.Answer Reply Store Request Text Clock :=
  ⟨start g, serve g, pass⟩

abbrev System : Type := Concurrent.State Query Query.Answer Reply Store

abbrev Action : Type := Concurrent.Action Request Text Clock

/-- The routes from a database of this kind on, before any request. -/
abbrev routes (g : Gateway) (init : Store → Prop) : Machine System Action :=
  Concurrent.system (service g) init

end AssureCode.Auth
