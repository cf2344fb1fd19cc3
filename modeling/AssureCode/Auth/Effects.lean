import AssureCode.Auth.Routes

/-! # What calls do

Each table with the calls that change it: accounts stay, with their keys and their second factor;
sessions come one at a time and are only revoked; what has been signed stays.
-/

namespace AssureCode.Auth

open Js Program

variable {g : Gateway} {s t : Store} {trail : Trail} {c : Query} {r : c.Answer} {choice : Text}
  {users users' users'' : Users} {row : User} {email : Text}

/-! ## Accounts -/

/-- The row of an account may be followed by this one. -/
structure User.Later (u v : User) : Prop where
  userId : v.userId = u.userId
  email : v.email = u.email
  mfaEnabled : v.mfaEnabled = u.mfaEnabled
  passwordVersion : u.passwordVersion ≤ v.passwordVersion

theorem User.Later.refl (u : User) : u.Later u := ⟨rfl, rfl, rfl, le_rfl⟩

/-- Each account stays, and one that is new is of some kind. -/
structure Users.Later (New : User → Prop) (users users' : Users) : Prop where
  stays : ∀ u ∈ users.rows, ∃ v ∈ users'.rows, User.Later u v
  origin : ∀ v ∈ users'.rows, (∃ u ∈ users.rows, User.Later u v) ∨
    (New v ∧ ∀ u ∈ users.rows, u.userId ≠ v.userId)

variable {New : User → Prop}

theorem Users.Later.refl (users : Users) : users.Later New users :=
  ⟨fun u hu => ⟨u, hu, .refl u⟩, fun v hv => .inl ⟨v, hv, .refl v⟩⟩

theorem later_update {userId : Text} {f : User → User}
    (hf : ∀ u, (f u).userId = u.userId ∧ (f u).email = u.email)
    (hlater : ∀ u : User, u.Later (f u)) : users.Later New (users.update userId f hf) := by
  have hrow : ∀ u : User, u.Later (if u.userId.1 = userId then f u else u) := by
    intro u
    split
    · exact hlater u
    · exact .refl u
  constructor
  · intro u hu
    exact ⟨_, List.mem_map_of_mem hu, hrow u⟩
  · intro v hv
    obtain ⟨u, hu, rfl⟩ := List.mem_map.mp hv
    exact .inl ⟨u, hu, hrow u⟩

theorem later_insert (h : users.insert row = some users') (hrow : New row) :
    users.Later New users' := by
  unfold Users.insert at h
  split at h
  · next hfresh =>
    cases h
    constructor
    · intro u hu
      exact ⟨u, List.mem_append_left _ hu, .refl u⟩
    · intro v hv
      rcases List.mem_append.mp hv with hv | hv
      · exact .inl ⟨v, hv, .refl v⟩
      · rw [List.mem_singleton.mp hv]
        exact .inr ⟨hrow, fun u hu => (hfresh u hu).1⟩
  · cases h

theorem Users.ne_of_mem {u v : User} (hu : u ∈ users.rows) (hv : v ∈ users.rows) (h : u ≠ v) :
    u.userId ≠ v.userId ∧ u.email ≠ v.email := by
  have hsymm : Std.Symm fun u v : User => u.userId ≠ v.userId ∧ u.email ≠ v.email :=
    ⟨fun _ _ h => ⟨h.1.symm, h.2.symm⟩⟩
  exact users.distinct.forall hu hv h

/-- No two rows are of one account. -/
theorem Users.eq_of_userId {u v : User} (hu : u ∈ users.rows) (hv : v ∈ users.rows)
    (h : u.userId = v.userId) : u = v := by
  by_contra hne
  exact (Users.ne_of_mem hu hv hne).1 h

theorem Users.mem_of_byEmail (h : users.byEmail email = some row) :
    row ∈ users.rows ∧ row.email = email :=
  ⟨List.mem_of_find?_eq_some h, by simpa using List.find?_some h⟩

theorem Users.mem_of_byId {userId : Text} (h : users.byId userId = some row) :
    row ∈ users.rows ∧ row.userId.1 = userId :=
  ⟨List.mem_of_find?_eq_some h, by simpa using List.find?_some h⟩

/-- There is no account of the identity or of its email. -/
def Store.KnowsNot (s : Store) (identity : GithubIdentity) : Prop :=
  s.authProviders.lookup identity.providerUserId = none ∧ s.users.byEmail identity.email = none

instance (identity : GithubIdentity) : Decidable (s.KnowsNot identity) :=
  inferInstanceAs (Decidable (_ ∧ _))

/-- A sign-in renames an account or creates one. -/
theorem signIn_cases {newId : Id} {identity : GithubIdentity} {userId : Id}
    (h : s.signIn newId identity = some (userId, t)) :
    (∃ id providers, t = { s.updateUser id (.rename identity.displayName) fun _ => ⟨rfl, rfl⟩ with
      authProviders := providers }) ∨
    (s.KnowsNot identity ∧ ∃ users providers, s.users.insert (Store.newUser newId identity.email
        (units "unusable-no-login") (units "freelancer") identity.displayName) = some users ∧
        t = { s with users, authProviders := providers }) := by
  unfold Store.signIn at h
  split at h
  · cases h
    exact .inl ⟨_, s.authProviders, rfl⟩
  · next hprovider =>
    split at h
    · cases h
      exact .inl ⟨_, _, rfl⟩
    · next hemail =>
      obtain ⟨users, husers, hpair⟩ := Option.map_eq_some_iff.mp h
      cases hpair
      exact .inr ⟨⟨hprovider, hemail⟩, users, _, husers, rfl⟩

theorem signIn_creates {newId : Id} {identity : GithubIdentity} {userId : Id}
    (hnot : s.KnowsNot identity) (h : s.signIn newId identity = some (userId, t)) :
    ∃ row ∈ t.users.rows, row.email = identity.email := by
  rw [Store.signIn, hnot.1] at h
  simp only at h
  rw [hnot.2] at h
  obtain ⟨users, husers, hpair⟩ := Option.map_eq_some_iff.mp h
  cases hpair
  unfold Users.insert at husers
  split at husers
  · cases husers
    exact ⟨_, List.mem_append_right _ (List.mem_singleton_self _), rfl⟩
  · cases husers

theorem link_cases {linkToUserId : Text} {identity : GithubIdentity} {linked : Bool}
    (h : s.link linkToUserId identity = some (linked, t)) :
    t = s ∨ ∃ providers, t = { s.updateUser linkToUserId (.rename identity.displayName)
      fun _ => ⟨rfl, rfl⟩ with authProviders := providers } := by
  unfold Store.link at h
  split at h
  · split at h
    · cases h
      exact .inr ⟨s.authProviders, rfl⟩
    · cases h
      exact .inl rfl
  · obtain ⟨row, -, hpair⟩ := Option.map_eq_some_iff.mp h
    cases hpair
    exact .inr ⟨_, rfl⟩

/-! ## A call that is served -/

def sessionsAfter (g : Gateway) (s : Store) (trail : Trail) : Query → List Session
  | .insertSession sessionId userId token =>
    ⟨sessionId, userId, token, s.now + g.jwtExpiresInSeconds * 1000, none, trail⟩ :: s.sessions
  | .revokeAllSessions userId => (s.revokeAllSessions userId).sessions
  | _ => s.sessions

def authTokensAfter (s : Store) : Query → List AuthToken
  | .deleteUnusedResets userId => (s.deleteUnusedResets userId).authTokens
  | .insertToken tokenHash userId type =>
    ⟨tokenHash, userId, type, s.now + type.lifetimeMs, none⟩ :: s.authTokens
  | .useToken tokenHash => (s.useToken tokenHash).authTokens
  | _ => s.authTokens

def issuedAfter (s : Store) : Query → List Text
  | .insertToken tokenHash _ _ => tokenHash :: s.issued
  | _ => s.issued

/-- An account that a call creates has no second factor. -/
def Created (s : Store) (c : Query) (v : User) : Prop :=
  v.mfaEnabled = false ∧
    match c with
    | .insertUser _ email _ _ _ => v.email = email
    | .signIn _ identity => v.email = identity.email ∧ s.KnowsNot identity
    | _ => False

/-- What the tables are after a call on some trail. -/
structure Served (g : Gateway) (s : Store) (trail : Trail) (c : Query) (t : Store) : Prop where
  now : t.now = s.now
  users : s.users.Later (Created s c) t.users
  sessions : t.sessions = sessionsAfter g s trail c
  authTokens : t.authTokens = authTokensAfter s c
  issued : t.issued = issuedAfter s c
  signed : ∀ x ∈ t.signed, x ∈ s.signed ∨ (c = .sign x.signing ∧ x.signedAt = s.now ∧
    x.trail = trail)

theorem served_updateUser {userId : Text} {f : User → User}
    {hf : ∀ u, (f u).userId = u.userId ∧ (f u).email = u.email}
    (hsessions : sessionsAfter g s trail c = s.sessions)
    (htokens : authTokensAfter s c = s.authTokens)
    (hissued : issuedAfter s c = s.issued) (hlater : ∀ u : User, u.Later (f u)) :
    Served g s trail c (s.updateUser userId f hf) :=
  ⟨rfl, later_update hf hlater, hsessions.symm, htokens.symm, hissued.symm, fun _ hx => .inl hx⟩

/-- What GitHub accounts there are is not looked at here. -/
theorem Served.setProviders (h : Served g s trail c t) (providers : List (Text × Id)) :
    Served g s trail c { t with authProviders := providers } :=
  ⟨h.now, h.users, h.sessions, h.authTokens, h.issued, h.signed⟩

theorem served_users (hsessions : sessionsAfter g s trail c = s.sessions)
    (htokens : authTokensAfter s c = s.authTokens)
    (hissued : issuedAfter s c = s.issued) (h : s.users.Later (Created s c) users)
    (drawn : List Text) (providers : List (Text × Id)) :
    Served g s trail c { s with users, drawn, authProviders := providers } :=
  ⟨rfl, h, hsessions.symm, htokens.symm, hissued.symm, fun _ hx => .inl hx⟩

theorem drawId_eq {value : Text} {drawn : Id × Store} (h : s.drawId value = some drawn) :
    drawn.2 = { s with drawn := value :: s.drawn } := by
  unfold Store.drawId Store.draw at h
  split at h
  · split at h
    · cases h
      rfl
    · cases h
  · cases h

theorem draw_eq {value : Text} (h : s.draw value = some t) :
    t = { s with drawn := value :: s.drawn } := by
  unfold Store.draw at h
  split at h
  · cases h
    rfl
  · cases h

theorem insertToken_eq {tokenHash : Text} {userId : Id} {type : TokenType}
    (h : s.insertToken tokenHash userId type = some t) :
    tokenHash ∉ s.issued ∧ t = { s with
      authTokens := ⟨tokenHash, userId, type, s.now + type.lifetimeMs, none⟩ :: s.authTokens
      issued := tokenHash :: s.issued } := by
  unfold Store.insertToken at h
  split at h
  · next hfresh =>
    cases h
    exact ⟨fun hmem => hfresh.2 _ hmem rfl, rfl⟩
  · cases h

theorem served (h : serve g s trail c choice = some (r, t)) : Served g s trail c t := by
  cases c with
  | insertUser userId email passwordHash role displayName =>
    obtain ⟨users, husers, hpair⟩ := Option.map_eq_some_iff.mp h
    cases hpair
    exact served_users rfl rfl rfl (later_insert husers ⟨rfl, rfl⟩) _ _
  | setPassword userId passwordHash =>
    cases h
    exact served_updateUser rfl rfl rfl fun u => ⟨rfl, rfl, rfl, Nat.le_succ _⟩
  | setEmailVerified userId =>
    cases h
    exact served_updateUser rfl rfl rfl fun u => ⟨rfl, rfl, rfl, le_rfl⟩
  | signIn newId identity =>
    rcases signIn_cases h with ⟨id, providers, rfl⟩ | ⟨hnot, users, providers, husers, rfl⟩
    · apply Served.setProviders
      exact served_updateUser rfl rfl rfl fun u => ⟨rfl, rfl, rfl, le_rfl⟩
    · have hcreated : Created s (.signIn newId identity) (Store.newUser newId identity.email
          (units "unusable-no-login") (units "freelancer") identity.displayName) :=
        ⟨rfl, rfl, hnot⟩
      exact served_users rfl rfl rfl (later_insert husers hcreated) _ _
  | link linkToUserId identity =>
    rcases link_cases h with rfl | ⟨providers, rfl⟩
    · exact served_users rfl rfl rfl (.refl _) _ _
    · apply Served.setProviders
      exact served_updateUser rfl rfl rfl fun u => ⟨rfl, rfl, rfl, le_rfl⟩
  | insertToken tokenHash userId type =>
    obtain ⟨store, hstore, hpair⟩ := Option.map_eq_some_iff.mp h
    cases hpair
    rw [(insertToken_eq hstore).2]
    exact ⟨rfl, .refl _, rfl, rfl, rfl, fun _ hx => .inl hx⟩
  | hashPassword password =>
    simp only [serve] at h
    split at h
    · cases h
      exact served_users rfl rfl rfl (.refl _) _ _
    · cases h
  | randomUUID =>
    have ht : t = _ := drawId_eq h
    rw [ht]
    exact served_users rfl rfl rfl (.refl _) _ _
  | newRawToken =>
    obtain ⟨store, hstore, hpair⟩ := Option.map_eq_some_iff.mp h
    cases hpair
    rw [draw_eq hstore]
    exact served_users rfl rfl rfl (.refl _) _ _
  | sign signing =>
    obtain ⟨drawn, hdrawn, hpair⟩ := Option.map_eq_some_iff.mp h
    cases hpair
    rw [drawId_eq hdrawn]
    refine ⟨rfl, .refl _, rfl, rfl, rfl, fun x hx => ?_⟩
    rcases List.mem_cons.mp hx with rfl | hx
    · exact .inr ⟨rfl, rfl, rfl⟩
    · exact .inl hx
  | _ =>
    cases h
    exact ⟨rfl, .refl _, rfl, rfl, rfl, fun _ hx => .inl hx⟩

theorem fresh_of_insertToken {tokenHash : Text} {userId : Id} {type : TokenType} {r : Unit}
    (h : serve g s trail (.insertToken tokenHash userId type) choice = some (r, t)) :
    tokenHash ∉ s.issued := by
  obtain ⟨store, hstore, -⟩ := Option.map_eq_some_iff.mp h
  exact (insertToken_eq hstore).1

/-- A session after a call was there before with its user and trail, or is created by the call. -/
theorem Served.session (h : Served g s trail c t) {x : Session} (hx : x ∈ t.sessions) :
    (∃ y ∈ s.sessions, y.userId = x.userId ∧ y.trail = x.trail ∧
      (y.revokedAt ≠ none → x.revokedAt ≠ none)) ∨
    (c = .insertSession x.sessionId x.userId x.token ∧ x.trail = trail) := by
  rw [h.sessions] at hx
  cases c with
  | insertSession sessionId userId token =>
    rcases List.mem_cons.mp hx with rfl | hx
    · exact .inr ⟨rfl, rfl⟩
    · exact .inl ⟨x, hx, rfl, rfl, id⟩
  | revokeAllSessions userId =>
    obtain ⟨y, hy, rfl⟩ := List.mem_map.mp hx
    refine .inl ⟨y, hy, ?_⟩
    split
    · exact ⟨rfl, rfl, fun _ => Option.some_ne_none _⟩
    · exact ⟨rfl, rfl, id⟩
  | _ => exact .inl ⟨x, hx, rfl, rfl, id⟩

/-! ## Passwords -/

/-- The row was looked up by its email, and the password found to be the one of its hash. -/
def Checked (trail : Trail) (row : User) : Prop :=
  ∃ email password, ([⟨.userByEmail email, some row⟩,
    ⟨.verifyPassword password row.passwordHash, true⟩] : Trail) <:+: trail

theorem not_checked_nil : ¬ Checked [] row := by
  rintro ⟨email, password, hinfix⟩
  exact absurd (List.infix_nil.mp hinfix) (List.cons_ne_nil _ _)

/-- A password is found right by a call that comes right after the lookup. -/
theorem checked_concat {e : Event} (h : Checked (trail ++ [e]) row) :
    Checked trail row ∨ ∃ before email password,
      e = ⟨.verifyPassword password row.passwordHash, true⟩ ∧
        trail = before ++ [⟨.userByEmail email, some row⟩] := by
  obtain ⟨email, password, hinfix⟩ := h
  rcases List.infix_concat_iff.mp hinfix with hsuffix | hinfix
  · right
    obtain ⟨before, hbefore⟩ := hsuffix
    rw [List.append_cons] at hbefore
    obtain ⟨htrail, he⟩ := List.append_inj' hbefore rfl
    exact ⟨before, email, password, (List.singleton_inj.mp he).symm, htrail.symm⟩
  · exact .inl ⟨email, password, hinfix⟩

theorem Checked.append (h : Checked trail row) (rest : Trail) : Checked (trail ++ rest) row := by
  obtain ⟨email, password, hinfix⟩ := h
  exact ⟨email, password, hinfix.trans (List.prefix_append trail rest).isInfix⟩

/-! ## The calls of a route -/

/-- The calls that are made for a request. -/
def Request.Makes (request : Request) (c : Query) : Prop :=
  match request with
  | .login .. =>
    match c with
    | .userByEmail _ | .verifyPassword .. | .randomUUID | .insertSession .. => True
    | .sign signing => signing.1.purpose = .mfaChallenge
    | _ => False
  | .register .. =>
    match c with
    | .userIdByEmail _ | .randomUUID | .hashPassword _ | .insertUser .. | .newRawToken => True
    | .insertToken _ _ type => type = .emailVerification
    | .insertSession .. => True
    | _ => False
  | .mfaChallenge .. =>
    match c with
    | .activeSecret _ | .verifyTotp .. | .userById _ | .randomUUID | .insertSession .. => True
    | _ => False
  | .github | .githubLinkUrl _ =>
    match c with
    | .sign signing => signing.1.purpose = .state
    | _ => False
  | .githubCallback .. =>
    match c with
    | .link .. | .randomUUID | .signIn .. => True
    | .sign signing => signing.1.purpose = .exchangeCode
    | _ => False
  | .githubExchange _ =>
    match c with
    | .userById _ | .randomUUID | .insertSession .. => True
    | _ => False
  | .forgotPassword _ =>
    match c with
    | .userIdByEmail _ | .deleteUnusedResets _ | .newRawToken => True
    | .insertToken _ _ type => type = .passwordReset
    | _ => False
  | .resetPassword .. =>
    match c with
    | .liveToken _ type => type = .passwordReset
    | .hashPassword _ | .setPassword .. | .useToken _ | .revokeAllSessions _ => True
    | _ => False
  | .verifyEmail _ =>
    match c with
    | .liveToken _ type => type = .emailVerification
    | .setEmailVerified _ | .useToken _ => True
    | _ => False

/-- Only a token from an email is answered so. -/
def Request.Redeems : Request → Prop
  | .resetPassword .. | .verifyEmail _ => True
  | _ => False

section Makes

variable {request : Request} {h : Trail} {now : Clock} {row : User} {status : ℕ}

/-- Whatever is answered, these calls are made, and this is said in the end. -/
def Follows (request : Request) (h : Trail) (p : Code Reply) : Prop :=
  p.Meets (fun _ c => request.Makes c) (fun _ reply => reply = .success → request.Redeems)
    (fun _ => True) h

theorem follows_reply {reply : Reply} (hreply : reply ≠ .success) :
    Follows request h (pure reply) :=
  fun heq => absurd heq hreply

theorem follows_issueSession (hdraw : request.Makes .randomUUID)
    (hinsert : ∀ sessionId token, request.Makes (.insertSession sessionId row.userId token)) :
    Follows request h (issueSession status row) := by
  refine ⟨hdraw, fun sessionId => ⟨hinsert sessionId _, fun _ => ?_⟩⟩
  exact follows_reply Reply.noConfusion

theorem follows_login {email password : Option Text} :
    Follows (.login email password) h (login g email password) := by
  unfold login
  split
  · refine ⟨trivial, fun found => ?_⟩
    cases found with
    | none => exact follows_reply Reply.noConfusion
    | some row =>
      refine ⟨trivial, fun valid => ?_⟩
      cases valid with
      | false => exact follows_reply Reply.noConfusion
      | true =>
        show Follows _ _ (ite (row.mfaEnabled = true) _ _)
        split
        · exact ⟨rfl, fun _ => follows_reply Reply.noConfusion⟩
        · exact follows_issueSession trivial fun _ _ => trivial
  · exact follows_reply Reply.noConfusion

theorem follows_register {email password role : Option Text} :
    Follows (.register email password role) h (register g email password role) := by
  unfold register
  split
  · exact follows_reply Reply.noConfusion
  · exact follows_reply Reply.noConfusion
  · split
    · exact follows_reply Reply.noConfusion
    · refine ⟨trivial, fun existing => ?_⟩
      cases existing with
      | some _ => exact follows_reply Reply.noConfusion
      | none =>
        refine ⟨trivial, fun userId => ⟨trivial, fun passwordHash => ⟨trivial, fun row => ?_⟩⟩⟩
        refine ⟨trivial, fun rawToken => ⟨rfl, fun _ => ?_⟩⟩
        exact follows_issueSession trivial fun _ _ => trivial

theorem follows_mfaChallenge {challenge code : Option Text} :
    Follows (.mfaChallenge challenge code) h (mfaChallenge g now challenge code) := by
  unfold mfaChallenge
  split
  · split
    · exact follows_reply Reply.noConfusion
    · refine ⟨trivial, fun found => ?_⟩
      cases found with
      | none => exact follows_reply Reply.noConfusion
      | some secret =>
        refine ⟨trivial, fun valid => ?_⟩
        cases valid with
        | false => exact follows_reply Reply.noConfusion
        | true =>
          refine ⟨trivial, fun found => ?_⟩
          cases found with
          | none => exact follows_reply Reply.noConfusion
          | some row => exact follows_issueSession trivial fun _ _ => trivial
  · exact follows_reply Reply.noConfusion

theorem follows_githubLinkUrl {user : Option Id} :
    Follows (.githubLinkUrl user) h (githubLinkUrl user) := by
  unfold githubLinkUrl
  split
  · exact follows_reply Reply.noConfusion
  · exact ⟨rfl, fun _ => follows_reply Reply.noConfusion⟩

theorem follows_githubCallback {code state error : Option Text} {outcome : GithubOutcome} :
    Follows (.githubCallback code state error outcome) h
      (githubCallback g now code state error outcome) := by
  unfold githubCallback
  simp only
  split
  · exact follows_reply Reply.noConfusion
  split
  · exact follows_reply Reply.noConfusion
  · exact follows_reply Reply.noConfusion
  · rw [Follows, meets_catching]
    unfold githubAccount
    split
    · refine ⟨trivial, fun linked => ?_⟩
      cases linked with
      | false => exact Reply.noConfusion
      | true => exact Reply.noConfusion
    · refine ⟨trivial, fun newId => ⟨trivial, fun userId => ⟨rfl, fun code => ?_⟩⟩⟩
      exact Reply.noConfusion

theorem follows_githubExchange {code : Option Text} :
    Follows (.githubExchange code) h (githubExchange g now code) := by
  unfold githubExchange
  split
  · exact follows_reply Reply.noConfusion
  · split
    · exact follows_reply Reply.noConfusion
    · refine ⟨trivial, fun found => ?_⟩
      cases found with
      | none => exact follows_reply Reply.noConfusion
      | some row => exact follows_issueSession trivial fun _ _ => trivial

theorem follows_forgotPassword {email : Option Text} :
    Follows (.forgotPassword email) h (forgotPassword g email) := by
  unfold forgotPassword
  split
  · exact follows_reply Reply.noConfusion
  · refine ⟨trivial, fun found => ?_⟩
    cases found with
    | none => exact follows_reply Reply.noConfusion
    | some userId =>
      refine ⟨trivial, fun _ => ⟨trivial, fun rawToken => ⟨rfl, fun _ => ?_⟩⟩⟩
      exact follows_reply Reply.noConfusion

theorem follows_resetPassword {token newPassword confirmPassword : Option Text} :
    Follows (.resetPassword token newPassword confirmPassword) h
      (resetPassword g token newPassword confirmPassword) := by
  unfold resetPassword
  split
  · split
    · exact follows_reply Reply.noConfusion
    · split
      · exact follows_reply Reply.noConfusion
      · refine ⟨rfl, fun found => ?_⟩
        cases found with
        | none => exact follows_reply Reply.noConfusion
        | some userId =>
          exact ⟨trivial, fun _ => ⟨trivial, fun _ => ⟨trivial, fun _ => ⟨trivial, fun _ _ =>
            trivial⟩⟩⟩⟩
  · exact follows_reply Reply.noConfusion

theorem follows_verifyEmail {token : Option Text} :
    Follows (.verifyEmail token) h (verifyEmail g token) := by
  unfold verifyEmail
  split
  · exact follows_reply Reply.noConfusion
  · refine ⟨rfl, fun found => ?_⟩
    cases found with
    | none => exact follows_reply Reply.noConfusion
    | some userId => exact ⟨trivial, fun _ => ⟨trivial, fun _ _ => trivial⟩⟩

theorem follows_handler : Follows request h (handler g now request) := by
  cases request with
  | login => exact follows_login
  | register => exact follows_register
  | mfaChallenge => exact follows_mfaChallenge
  | github => exact ⟨rfl, fun _ => follows_reply Reply.noConfusion⟩
  | githubLinkUrl => exact follows_githubLinkUrl
  | githubCallback => exact follows_githubCallback
  | githubExchange => exact follows_githubExchange
  | forgotPassword => exact follows_forgotPassword
  | resetPassword => exact follows_resetPassword
  | verifyEmail => exact follows_verifyEmail

end Makes

end AssureCode.Auth
