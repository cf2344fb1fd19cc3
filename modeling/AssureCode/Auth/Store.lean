import AssureCode.Auth.Credentials
import AssureCode.Auth.Tokens
import AssureCode.Transition.Concurrent

/-! # The accounts

The tables behind the authentication routes, and what each statement does to them. For what is
said about runs the store also keeps things that are no columns: how often a password has been
set, and on which trail of calls a session was created or a token was signed.
-/

namespace AssureCode.Auth

open Js

/-- An id is a UUID or one of the seed; none has a dot in it. -/
abbrev Id : Type := {t : Text // dot ∉ t}

structure User where
  userId : Id
  email : Text
  passwordHash : Text
  role : Text
  displayName : Text
  kycStatus : Text
  mfaEnabled : Bool
  emailVerifiedAt : Option Clock := none
  /-- How often the password has been set since the account was created. -/
  passwordVersion : ℕ := 0
  deriving DecidableEq

/-- The claims of a JWT. -/
structure Claims where
  sub : Id
  email : Text
  role : Text
  kycStatus : Text
  mfaEnabled : Bool
  sid : Id
  deriving DecidableEq

inductive TokenType
  | passwordReset
  | emailVerification
  deriving DecidableEq

/-- What the transaction of a GitHub sign-in is about. -/
structure GithubIdentity where
  providerUserId : Text
  email : Text
  displayName : Text

/-- What is signed for a user id, if for any, without a dot in it. -/
abbrev DotFree : Type := {signing : Signing // dot ∉ signing.userId}

/-- What a route waits for, or gets from elsewhere than its request. -/
inductive Query
  | userByEmail (email : Text)
  | userIdByEmail (email : Text)
  | userById (userId : Text)
  | insertUser (userId : Id) (email passwordHash role displayName : Text)
  | setPassword (userId : Id) (passwordHash : Text)
  | setEmailVerified (userId : Id)
  | activeSecret (userId : Text)
  | insertSession (sessionId userId : Id) (token : Claims)
  | revokeAllSessions (userId : Id)
  | liveToken (tokenHash : Text) (type : TokenType)
  | deleteUnusedResets (userId : Id)
  | insertToken (tokenHash : Text) (userId : Id) (type : TokenType)
  | useToken (tokenHash : Text)
  /-- The transaction of the callback; the id is for a new account. -/
  | signIn (newId : Id) (identity : GithubIdentity)
  /-- The statements of the callback in link mode. -/
  | link (linkToUserId : Text) (identity : GithubIdentity)
  | verifyPassword (password hash : Text)
  | hashPassword (password : Text)
  | verifyTotp (secret code : Text)
  | randomUUID
  | newRawToken
  | sign (signing : DotFree)

/-- The one of `setPassword` is how often it has been set by then; no route looks at it. -/
abbrev Query.Answer : Query → Type
  | .userByEmail _ | .userById _ => Option User
  | .userIdByEmail _ => Option Id
  | .setPassword _ _ => ℕ
  | .insertUser .. => User
  | .activeSecret _ => Option Text
  | .liveToken _ _ => Option Id
  | .signIn _ _ | .randomUUID => Id
  | .link _ _ | .verifyPassword _ _ | .verifyTotp _ _ => Bool
  | .hashPassword _ | .newRawToken | .sign _ => Text
  | _ => Unit

abbrev Event : Type := Program.Event Query.Answer

/-- Calls with their answers. -/
abbrev Trail : Type := List Event

/-! ## Tables -/

/-- `user_id` is the primary key and `email` is unique. -/
structure Users where
  rows : List User
  distinct : rows.Pairwise fun u v => u.userId ≠ v.userId ∧ u.email ≠ v.email

namespace Users

def byEmail (users : Users) (email : Text) : Option User := users.rows.find? (·.email = email)

def byId (users : Users) (userId : Text) : Option User :=
  users.rows.find? (·.userId.1 = userId)

def insert (users : Users) (row : User) : Option Users :=
  if h : ∀ u ∈ users.rows, u.userId ≠ row.userId ∧ u.email ≠ row.email then
    some ⟨users.rows ++ [row], List.pairwise_append.mpr ⟨users.distinct,
      List.pairwise_singleton _ _, fun u hu v hv => List.mem_singleton.mp hv ▸ h u hu⟩⟩
  else none

/-- `UPDATE users … WHERE user_id = $1` of columns that are not keys. -/
def update (users : Users) (userId : Text) (f : User → User)
    (hf : ∀ u, (f u).userId = u.userId ∧ (f u).email = u.email) : Users where
  rows := users.rows.map fun u => if u.userId.1 = userId then f u else u
  distinct := by
    have hkeys : ∀ u : User, (if u.userId.1 = userId then f u else u).userId = u.userId ∧
        (if u.userId.1 = userId then f u else u).email = u.email := by
      intro u
      split
      · exact hf u
      · exact ⟨rfl, rfl⟩
    refine List.pairwise_map.mpr (users.distinct.imp fun h => ?_)
    rw [(hkeys _).1, (hkeys _).1, (hkeys _).2, (hkeys _).2]
    exact h

end Users

structure AuthToken where
  tokenHash : Text
  userId : Id
  type : TokenType
  expiresAt : ℕ
  usedAt : Option Clock := none
  deriving DecidableEq

structure Session where
  sessionId : Id
  userId : Id
  token : Claims
  expiresAt : ℕ
  revokedAt : Option Clock := none
  /-- The calls that led to it. -/
  trail : Trail

/-- A row of `mfa_credentials`, with the secret as it is decrypted. -/
structure MfaCredential where
  userId : Id
  secret : Text
  isActive : Bool

/-- A token that has been signed, with the calls that led to it. -/
structure Issued where
  signing : DotFree
  signedAt : Clock
  nonce : Id
  trail : Trail

structure Store where
  now : Clock
  users : Users
  sessions : List Session := []
  authTokens : List AuthToken := []
  /-- The GitHub accounts of `auth_providers`, by the id that GitHub has for them. -/
  authProviders : List (Text × Id) := []
  /-- The newest first. -/
  mfaCredentials : List MfaCredential := []
  signed : List Issued := []
  /-- The random values handed out. -/
  drawn : List Text := []
  /-- The hashes of the tokens that there have been. -/
  issued : List Text := []

/-- The text that was signed. -/
def Issued.text (x : Issued) : Text :=
  match x.signing.1 with
  | .state linkUserId => dotted [x.nonce.1, digitsOf x.signedAt, linkUserId.getD []]
  | .mfaChallenge userId => mfaText userId (digitsOf x.signedAt) x.nonce.1
  | .exchangeCode userId => dotted [userId, digitsOf x.signedAt, x.nonce.1]

/-- The routes' surroundings. -/
structure Gateway where
  hmac : Hmac
  tables : CaseTables
  /-- `validator.isEmail` -/
  isEmail : Text → Bool
  sha256 : Text → Text
  /-- argon2, false for what is not a hash -/
  verifyPassword : Text → Text → Bool
  /-- otplib -/
  verifyTotp : Text → Text → Clock → Bool
  jwtExpiresInSeconds : ℕ
  webAppUrl : Text

/-! ## Statements -/

/-- `now() + interval …` of a token. -/
def TokenType.lifetimeMs : TokenType → ℕ
  | .passwordReset => 60 * 60 * 1000
  | .emailVerification => 24 * 60 * 60 * 1000

/-- The column `used_at` is null and `expires_at > now()`. -/
def AuthToken.Live (now : Clock) (row : AuthToken) : Prop :=
  row.usedAt = none ∧ now < row.expiresAt

instance (now : Clock) (row : AuthToken) : Decidable (row.Live now) :=
  inferInstanceAs (Decidable (_ ∧ _))

def Session.Active (now : Clock) (row : Session) : Prop :=
  row.revokedAt = none ∧ now < row.expiresAt

def User.rename (displayName : Text) (u : User) : User := { u with displayName }

def User.withPassword (passwordHash : Text) (u : User) : User :=
  { u with passwordHash, passwordVersion := u.passwordVersion + 1 }

def User.verifiedAt (now : Clock) (u : User) : User := { u with emailVerifiedAt := some now }

namespace Store

def updateUser (s : Store) (userId : Text) (f : User → User)
    (hf : ∀ u, (f u).userId = u.userId ∧ (f u).email = u.email) : Store :=
  { s with users := s.users.update userId f hf }

/-- A random value that has not come up before. -/
def draw (s : Store) (value : Text) : Option Store :=
  if ∀ other ∈ s.drawn, other ≠ value then some { s with drawn := value :: s.drawn } else none

def drawId (s : Store) (value : Text) : Option (Id × Store) :=
  if h : dot ∉ value then (s.draw value).map fun s => (⟨value, h⟩, s) else none

def newUser (userId : Id) (email passwordHash role displayName : Text) : User where
  userId := userId
  email := email
  passwordHash := passwordHash
  role := role
  displayName := displayName
  kycStatus := units "UNVERIFIED"
  mfaEnabled := false

/-- The account of a GitHub sign-in: that of the identity, else that of the email, else new. -/
def signIn (s : Store) (newId : Id) (identity : GithubIdentity) : Option (Id × Store) :=
  match s.authProviders.lookup identity.providerUserId with
  | some userId =>
    some (userId, s.updateUser userId.1 (.rename identity.displayName) fun _ => ⟨rfl, rfl⟩)
  | none =>
    match s.users.byEmail identity.email with
    | some row =>
      let s := s.updateUser row.userId.1 (.rename identity.displayName) fun _ => ⟨rfl, rfl⟩
      some (row.userId,
        { s with authProviders := (identity.providerUserId, row.userId) :: s.authProviders })
    | none =>
      (s.users.insert (newUser newId identity.email (units "unusable-no-login")
        (units "freelancer") identity.displayName)).map fun users =>
          (newId, { s with
            users
            authProviders := (identity.providerUserId, newId) :: s.authProviders })

/-- Whether the identity is linked now; it may not belong to another account. -/
def link (s : Store) (linkToUserId : Text) (identity : GithubIdentity) : Option (Bool × Store) :=
  match s.authProviders.lookup identity.providerUserId with
  | some userId =>
    if userId.1 = linkToUserId then
      some (true, s.updateUser linkToUserId (.rename identity.displayName) fun _ => ⟨rfl, rfl⟩)
    else some (false, s)
  | none =>
    (s.users.byId linkToUserId).map fun row =>
      let s := s.updateUser linkToUserId (.rename identity.displayName) fun _ => ⟨rfl, rfl⟩
      (true, { s with
        authProviders := (identity.providerUserId, row.userId) :: s.authProviders })

def insertSession (s : Store) (lifetimeMs : ℕ) (sessionId userId : Id) (token : Claims)
    (trail : Trail) : Store :=
  { s with sessions := ⟨sessionId, userId, token, s.now + lifetimeMs, none, trail⟩ :: s.sessions }

def revokeAllSessions (s : Store) (userId : Id) : Store :=
  { s with sessions := s.sessions.map fun row =>
      if row.userId = userId ∧ row.revokedAt = none then { row with revokedAt := some s.now }
      else row }

def liveToken (s : Store) (tokenHash : Text) (type : TokenType) : Option Id :=
  (s.authTokens.find? fun row =>
    row.tokenHash = tokenHash ∧ row.type = type ∧ row.Live s.now).map (·.userId)

def deleteUnusedResets (s : Store) (userId : Id) : Store :=
  { s with authTokens := s.authTokens.filter fun row =>
      ¬(row.userId = userId ∧ row.type = .passwordReset ∧ row.usedAt = none) }

/-- `token_hash` is the primary key, and the hash of a random token has not come up before. -/
def insertToken (s : Store) (tokenHash : Text) (userId : Id) (type : TokenType) : Option Store :=
  if (∀ row ∈ s.authTokens, row.tokenHash ≠ tokenHash) ∧ ∀ other ∈ s.issued, other ≠ tokenHash then
    some { s with
      authTokens := ⟨tokenHash, userId, type, s.now + type.lifetimeMs, none⟩ :: s.authTokens
      issued := tokenHash :: s.issued }
  else none

def useToken (s : Store) (tokenHash : Text) : Store :=
  { s with authTokens := s.authTokens.map fun row =>
      if row.tokenHash = tokenHash then { row with usedAt := some s.now } else row }

def activeSecret (s : Store) (userId : Text) : Option Text :=
  (s.mfaCredentials.find? fun row => row.userId.1 = userId ∧ row.isActive = true).map (·.secret)

end Store

/-- What comes of a call; `none` when it can only raise. -/
def serve (g : Gateway) (s : Store) (trail : Trail) :
    (c : Query) → Text → Option (c.Answer × Store)
  | .userByEmail email, _ => some (s.users.byEmail email, s)
  | .userIdByEmail email, _ => some ((s.users.byEmail email).map (·.userId), s)
  | .userById userId, _ => some (s.users.byId userId, s)
  | .insertUser userId email passwordHash role displayName, _ =>
    let row := Store.newUser userId email passwordHash role displayName
    (s.users.insert row).map fun users => (row, { s with users })
  | .setPassword userId passwordHash, _ =>
    let s := s.updateUser userId.1 (.withPassword passwordHash) fun _ => ⟨rfl, rfl⟩
    some (((s.users.byId userId.1).map (·.passwordVersion)).getD 0, s)
  | .setEmailVerified userId, _ =>
    some ((), s.updateUser userId.1 (.verifiedAt s.now) fun _ => ⟨rfl, rfl⟩)
  | .activeSecret userId, _ => some (s.activeSecret userId, s)
  | .insertSession sessionId userId token, _ =>
    some ((), s.insertSession (g.jwtExpiresInSeconds * 1000) sessionId userId token trail)
  | .revokeAllSessions userId, _ => some ((), s.revokeAllSessions userId)
  | .liveToken tokenHash type, _ => some (s.liveToken tokenHash type, s)
  | .deleteUnusedResets userId, _ => some ((), s.deleteUnusedResets userId)
  | .insertToken tokenHash userId type, _ =>
    (s.insertToken tokenHash userId type).map fun s => ((), s)
  | .useToken tokenHash, _ => some ((), s.useToken tokenHash)
  | .signIn newId identity, _ => s.signIn newId identity
  | .link linkToUserId identity, _ => s.link linkToUserId identity
  | .verifyPassword password hash, _ => some (g.verifyPassword password hash, s)
  -- a salt is part of the hash
  | .hashPassword password, hash => if g.verifyPassword password hash then some (hash, s) else none
  | .verifyTotp secret code, _ => some (g.verifyTotp secret code s.now, s)
  | .randomUUID, value => s.drawId value
  | .newRawToken, value => (s.draw value).map fun s => (value, s)
  | .sign signing, value => (s.drawId value).map fun drawn =>
    (signing.1.token g.hmac s.now drawn.1.1,
      { drawn.2 with signed := ⟨signing, s.now, drawn.1, trail⟩ :: drawn.2.signed })

/-- Time passes. -/
def pass (s : Store) (now : Clock) : Option Store :=
  if s.now.1 ≤ now then some { s with now } else none

end AssureCode.Auth
