import AssureCode.Auth.Presented

/-! # The second factor

Who has one enabled is let in after a password and a code. The exchange that ends a sign-in with
GitHub asks for neither, so that this holds as long as no such account is signed in so.
-/

namespace AssureCode.Auth

open Js Program

variable {g : Gateway} {s t : System} {mfa : Text → Prop} {h : Trail} {now : Clock}

/-- The password of the user was found right. -/
def PasswordChecked (trail : Trail) (userId : Text) : Prop :=
  ∃ row : User, row.userId.1 = userId ∧ Checked trail row

/-- A code was found right for the active secret of the user. -/
def CodeChecked (trail : Trail) (userId : Text) : Prop :=
  ∃ secret code, ([⟨.activeSecret userId, some secret⟩,
    ⟨.verifyTotp secret code, true⟩] : Trail) <:+: trail

/-- First the password was found right, and then a code. -/
def SecondFactor (trail : Trail) (userId : Text) : Prop :=
  ∃ before after, trail = before ++ after ∧ PasswordChecked before userId ∧
    CodeChecked after userId

def MfaEnabled (s : Store) (userId : Text) : Prop :=
  ∃ row ∈ s.users.rows, row.userId.1 = userId ∧ row.mfaEnabled = true

/-- Sessions of those who have it enabled come of both factors. -/
def Protected (s : System) : Prop :=
  ∀ x ∈ s.store.sessions, MfaEnabled s.store x.userId → SecondFactor x.trail x.userId

/-- No code is exchanged that is accepted for a user with a second factor. -/
def NoExchange (g : Gateway) (s : System) : Action → Prop
  | .start _ (.githubExchange (some code)) => ∀ userId,
    verifyExchangeCode g.hmac s.store.now code = some userId → ¬ MfaEnabled s.store userId
  | _ => True

/-! ## Calls -/

/-- What answers say about the accounts, whose second factors do not change. -/
def Plausible (mfa : Text → Prop) : Event → Prop
  | ⟨.userByEmail _, some row⟩ => row.mfaEnabled = true ↔ mfa row.userId
  | ⟨.userById userId, some row⟩ => row.userId.1 = userId
  | ⟨.insertUser userId _ _ _ _, row⟩ => row.userId = userId ∧ ¬ mfa userId
  | _ => True

/-- A session needs both factors, and a challenge the first. -/
def Demands (mfa : Text → Prop) (h : Trail) : Query → Prop
  | .insertSession _ userId _ => mfa userId → SecondFactor h userId
  | .sign signing => signing.1.purpose = .mfaChallenge → PasswordChecked h signing.1.userId
  | _ => True

def Warranted (mfa : Text → Prop) (h : Trail) (c : Query) : Prop :=
  (∀ e ∈ h, Plausible mfa e) → Demands mfa h c

abbrev Safe (mfa : Text → Prop) : Flow Query Query.Answer Reply → Prop :=
  Concurrent.Good (Warranted mfa) fun _ _ => True

theorem PasswordChecked.append {userId : Text} (hp : PasswordChecked h userId) (rest : Trail) :
    PasswordChecked (h ++ rest) userId := by
  obtain ⟨row, hrow, hchecked⟩ := hp
  exact ⟨row, hrow, hchecked.append rest⟩

theorem meets_issueSession {status : ℕ} {row : User}
    (hrow : (∀ e ∈ h, Plausible mfa e) → mfa row.userId → SecondFactor h row.userId) :
    (issueSession status row).Meets (Warranted mfa) (fun _ _ => True) (fun _ => True) h := by
  refine ⟨fun _ => trivial, fun sessionId => ⟨?_, fun _ => trivial⟩⟩
  intro hplausible hmfa
  obtain ⟨before, after, rfl, hpassword, secret, code, hcode⟩ :=
    hrow (fun e he => hplausible e (List.mem_append_left _ he)) hmfa
  exact ⟨before, after ++ [⟨.randomUUID, sessionId⟩], List.append_assoc .., hpassword, secret,
    code, hcode.trans (List.prefix_append _ _).isInfix⟩

theorem meets_login {email password : Option Text} :
    (login g email password).Meets (Warranted mfa) (fun _ _ => True) (fun _ => True) h := by
  unfold login
  split
  · next email password _ _ =>
    refine ⟨fun _ => trivial, fun found => ?_⟩
    cases found with
    | none => trivial
    | some row =>
      refine ⟨fun _ => trivial, fun valid => ?_⟩
      cases valid with
      | false => trivial
      | true =>
        show Meets _ _ _ _ (ite (row.mfaEnabled = true) _ _)
        split
        · refine ⟨fun _ _ => ⟨row, rfl, ?_⟩, fun _ => trivial⟩
          exact ⟨canonicalizeEmail g.tables email, password, h, [], by simp⟩
        · next hmfa =>
          apply meets_issueSession
          intro hplausible henabled
          have hrow := hplausible ⟨.userByEmail (canonicalizeEmail g.tables email), some row⟩
            (by simp)
          exact absurd (hrow.mpr henabled) hmfa
  · trivial

theorem meets_register {email password role : Option Text} :
    (register g email password role).Meets (Warranted mfa) (fun _ _ => True) (fun _ => True) h := by
  unfold register
  split
  · trivial
  · trivial
  · split
    · trivial
    · refine ⟨fun _ => trivial, fun existing => ?_⟩
      cases existing with
      | some _ => trivial
      | none =>
        refine ⟨fun _ => trivial, fun userId => ⟨fun _ => trivial, fun passwordHash => ?_⟩⟩
        refine ⟨fun _ => trivial, fun row => ⟨fun _ => trivial, fun rawToken => ?_⟩⟩
        refine ⟨fun _ => trivial, fun _ => ?_⟩
        apply meets_issueSession
        intro hplausible henabled
        obtain ⟨hrow, hnot⟩ := hplausible ⟨.insertUser userId _ _ _ _, row⟩ (by simp)
        rw [hrow] at henabled
        exact absurd henabled hnot

/-- A challenge has to go on from the password of its user. -/
theorem meets_mfaChallenge {challenge code : Option Text}
    (hpassword : ∀ token userId, given challenge = some token →
      verifyMfaChallenge g.hmac now token = some userId → PasswordChecked h userId) :
    (mfaChallenge g now challenge code).Meets (Warranted mfa) (fun _ _ => True)
      (fun _ => True) h := by
  unfold mfaChallenge
  split
  · next token code hchallenge hcode =>
    split
    · trivial
    · next userId huser =>
      have hverify := (given_eq_some.mp huser).1
      refine ⟨fun _ => trivial, fun found => ?_⟩
      cases found with
      | none => trivial
      | some secret =>
        refine ⟨fun _ => trivial, fun valid => ?_⟩
        cases valid with
        | false => trivial
        | true =>
          refine ⟨fun _ => trivial, fun found => ?_⟩
          cases found with
          | none => trivial
          | some row =>
            apply meets_issueSession
            intro hplausible _
            have hrow : row.userId.1 = userId :=
              hplausible ⟨.userById userId, some row⟩ (by simp)
            rw [hrow]
            refine ⟨h, _, by simp, hpassword token userId hchallenge hverify, secret, code, [],
              [⟨.userById userId, some row⟩], rfl⟩
  · trivial

/-- An exchange has to be for a user without a second factor. -/
theorem meets_githubExchange {code : Option Text}
    (hnot : ∀ token userId, given code = some token →
      verifyExchangeCode g.hmac now token = some userId → ¬ mfa userId) :
    (githubExchange g now code).Meets (Warranted mfa) (fun _ _ => True) (fun _ => True) h := by
  unfold githubExchange
  split
  · trivial
  · next token hcode =>
    split
    · trivial
    · next userId huser =>
      have hverify := (given_eq_some.mp huser).1
      refine ⟨fun _ => trivial, fun found => ?_⟩
      cases found with
      | none => trivial
      | some row =>
        apply meets_issueSession
        intro hplausible henabled
        have hrow : row.userId.1 = userId := hplausible ⟨.userById userId, some row⟩ (by simp)
        rw [hrow] at henabled
        exact absurd henabled (hnot token userId hcode hverify)

/-- No other route lets anyone in. -/
theorem demands_of_makes {request : Request} {c : Query} (hc : request.Makes c)
    (hsession : ∀ sessionId userId token, ¬ request.Makes (.insertSession sessionId userId token))
    (hsign : ∀ signing : DotFree, request.Makes (.sign signing) →
      signing.1.purpose ≠ .mfaChallenge) : Demands mfa h c := by
  cases c with
  | insertSession sessionId userId token => exact absurd hc (hsession sessionId userId token)
  | sign signing => exact fun hpurpose => absurd hpurpose (hsign signing hc)
  | _ => trivial

/-! ## Runs -/

/-- What holds while the accounts with a second factor are these. -/
structure Guarded (mfa : Text → Prop) (s : System) : Prop where
  enabled : ∀ row ∈ s.store.users.rows, row.mfaEnabled = true ↔ mfa row.userId
  known : ∀ userId, mfa userId → ∃ row ∈ s.store.users.rows, row.userId.1 = userId
  trails : ∀ i f, s.flows i = some f → ∀ e ∈ f.trail, Plausible mfa e
  sessions : ∀ x ∈ s.store.sessions, mfa x.userId → SecondFactor x.trail x.userId
  signedTrails : ∀ x ∈ s.store.signed, ∀ e ∈ x.trail, Plausible mfa e
  signed : ∀ x ∈ s.store.signed, x.signing.1.purpose = .mfaChallenge →
    PasswordChecked x.trail x.signing.1.userId

theorem mfaEnabled_iff (hs : Guarded mfa s) {userId : Text} :
    MfaEnabled s.store userId ↔ mfa userId := by
  constructor
  · rintro ⟨row, hrow, rfl, henabled⟩
    exact (hs.enabled row hrow).mp henabled
  · intro hmfa
    obtain ⟨row, hrow, rfl⟩ := hs.known userId hmfa
    exact ⟨row, hrow, rfl, (hs.enabled row hrow).mpr hmfa⟩

theorem safe_of_starts {request : Request} {f : Flow Query Query.Answer Reply} {i : ℕ}
    (hs : Guarded mfa s) (hc : NoExchange g s (.start i request))
    (hf : Starts g s.store request f) : Safe mfa f := by
  rw [Safe, Concurrent.Good, hf.rest]
  have hother (hsession : ∀ sessionId userId token,
      ¬ request.Makes (.insertSession sessionId userId token))
      (hsign : ∀ signing : DotFree, request.Makes (.sign signing) →
        signing.1.purpose ≠ .mfaChallenge) :
      (handler g s.store.now request).Meets (Warranted mfa) (fun _ _ => True) (fun _ => True)
        f.trail :=
    (follows_handler.mono (fun _ _ _ => trivial) fun _ => id).mono_calls fun _ _ hcall _ =>
      demands_of_makes hcall hsession hsign
  cases request with
  | login => exact meets_login
  | register => exact meets_register
  | mfaChallenge challenge code =>
    apply meets_mfaChallenge
    intro token userId hgiven hverify
    obtain ⟨rfl, hne⟩ := given_eq_some.mp hgiven
    obtain ⟨x, hx, htrail, hsigning, -⟩ := exists_of_verifyMfaChallenge hf hne hverify
    have hchecked := hs.signed x hx (by rw [hsigning]; rfl)
    rw [hsigning] at hchecked
    rw [htrail]
    exact hchecked
  | githubExchange code =>
    apply meets_githubExchange
    intro token userId hgiven hverify
    obtain ⟨rfl, -⟩ := given_eq_some.mp hgiven
    exact fun hmfa => hc userId hverify ((mfaEnabled_iff hs).mpr hmfa)
  | _ =>
    apply hother
    · exact fun _ _ _ => id
    · rintro signing hmakes hpurpose
      first
      | exact hmakes
      | exact absurd (hmakes.symm.trans hpurpose) Purpose.noConfusion

theorem plausible_of_serve {store : Store} {c : Query} {r : c.Answer} {choice : Text}
    (hs : Guarded mfa s) (hr : serve g s.store h c choice = some (r, store)) :
    Plausible mfa ⟨c, r⟩ := by
  cases c with
  | userByEmail email =>
    cases hr
    cases hfound : s.store.users.byEmail email with
    | none => trivial
    | some row => exact hs.enabled row (Users.mem_of_byEmail hfound).1
  | userById userId =>
    cases hr
    cases hfound : s.store.users.byId userId with
    | none => trivial
    | some row => exact (Users.mem_of_byId hfound).2
  | insertUser userId email passwordHash role displayName =>
    obtain ⟨users, husers, hpair⟩ := Option.map_eq_some_iff.mp hr
    cases hpair
    refine ⟨rfl, fun hmfa => ?_⟩
    obtain ⟨row, hrow, hid⟩ := hs.known userId hmfa
    unfold Users.insert at husers
    split at husers
    · next hfresh => exact (hfresh row hrow).1 (Subtype.ext hid)
    · cases husers
  | _ => trivial

theorem guarded_serve {i : ℕ} {trail : Trail} {c : Query} {next : c.Answer → Code Reply}
    {r : c.Answer} {choice : Text} {store : Store} (hs : Guarded mfa s)
    (hsafe : Concurrent.AllGood (Warranted mfa) (fun _ _ => True) s)
    (hflow : s.flows i = some ⟨trail, .call c next⟩)
    (hr : serve g s.store trail c choice = some (r, store)) :
    Guarded mfa (Concurrent.State.set { s with store } i ⟨trail ++ [⟨c, r⟩], next r⟩) := by
  have hserved := served hr
  have htrail := hs.trails i _ hflow
  have hdemands : Demands mfa trail c := hsafe.admitted hflow htrail
  constructor
  · intro v hv
    rcases hserved.users.origin v hv with ⟨u, hu, hlater⟩ | ⟨⟨hfalse, -⟩, hfresh⟩
    · rw [hlater.mfaEnabled, hlater.userId]
      exact hs.enabled u hu
    · apply iff_of_false (by rw [hfalse]; exact Bool.false_ne_true)
      intro hmfa
      obtain ⟨row, hrow, hid⟩ := hs.known _ hmfa
      exact hfresh row hrow (Subtype.ext hid)
  · intro userId hmfa
    obtain ⟨row, hrow, hid⟩ := hs.known userId hmfa
    obtain ⟨v, hv, hlater⟩ := hserved.users.stays row hrow
    exact ⟨v, hv, by rw [hlater.userId, hid]⟩
  · intro j f hf
    rcases Concurrent.set_cases hf with ⟨rfl, rfl⟩ | ⟨-, hf⟩
    · rw [List.forall_mem_append, List.forall_mem_singleton]
      exact ⟨htrail, plausible_of_serve hs hr⟩
    · exact hs.trails j f hf
  · intro x hx hmfa
    rcases hserved.session hx with ⟨y, hy, huser, hsame, -⟩ | ⟨rfl, hsame⟩
    · rw [← huser] at hmfa ⊢
      rw [← hsame]
      exact hs.sessions y hy hmfa
    · rw [hsame]
      exact hdemands hmfa
  · intro x hx
    rcases hserved.signed x hx with hx | ⟨-, -, hx⟩
    · exact hs.signedTrails x hx
    · rw [hx]
      exact htrail
  · intro x hx hpurpose
    rcases hserved.signed x hx with hx | ⟨rfl, -, hx⟩
    · exact hs.signed x hx hpurpose
    · rw [hx]
      exact hdemands hpurpose

/-- A step that changes nothing but one flow, whose trail is plausible. -/
theorem Guarded.set {f : Flow Query Query.Answer Reply} {i : ℕ} (hs : Guarded mfa s)
    (hf : ∀ e ∈ f.trail, Plausible mfa e) : Guarded mfa (s.set i f) := by
  refine { hs with trails := ?_ }
  intro j f' hf'
  rcases Concurrent.set_cases hf' with ⟨rfl, rfl⟩ | ⟨-, hf'⟩
  · exact hf
  · exact hs.trails j f' hf'

theorem guarded_step {a : Action} (hs : Guarded mfa s)
    (hsafe : Concurrent.AllGood (Warranted mfa) (fun _ _ => True) s)
    (hst : Concurrent.Moves (service g) s a t) : Guarded mfa t := by
  cases hst with
  | start hnone hf =>
    apply hs.set
    rcases trail_of_starts (starts hf) with htrail | ⟨x, hx, htrail, -⟩
    · rw [htrail]
      exact fun _ he => absurd he List.not_mem_nil
    · rw [htrail]
      exact hs.signedTrails x hx
  | call hflow hr => exact guarded_serve hs hsafe hflow hr
  | fail hflow =>
    apply hs.set
    intro e he
    exact hs.trails _ _ hflow e he
  | @pass d store hstore =>
    simp only [service, pass] at hstore
    split at hstore
    · cases hstore
      exact ⟨hs.enabled, hs.known, hs.trails, hs.sessions, hs.signedTrails, hs.signed⟩
    · cases hstore

/-- Whoever has a second factor is let in by it, if not by an exchange. -/
theorem second_factor_protects (g : Gateway) (s t : System) (as : List Action)
    (hinit : (routes g NobodySignedIn).init s)
    (run : (routes g NobodySignedIn).Run (NoExchange g) s as t) :
    ∀ r ∈ (routes g NobodySignedIn).visited s as, Protected r := by
  obtain ⟨⟨hsessions, hsigned⟩, hflows⟩ := hinit
  have hguarded : Guarded (MfaEnabled s.store) s := by
    constructor
    · intro row hrow
      constructor
      · exact fun henabled => ⟨row, hrow, rfl, henabled⟩
      · rintro ⟨row', hrow', hid, henabled⟩
        rw [← Users.eq_of_userId hrow' hrow (Subtype.ext hid)]
        exact henabled
    · rintro userId ⟨row, hrow, hid, -⟩
      exact ⟨row, hrow, hid⟩
    · intro i f hf
      rw [hflows i] at hf
      cases hf
    all_goals
      intro x hx
      first
      | rw [hsessions] at hx
      | rw [hsigned] at hx
      cases hx
  have hholds := holds_visited run hflows hguarded (fun s i request f => safe_of_starts)
    fun s a t hs hsafe _ => guarded_step hs hsafe
  intro r hr x hx henabled
  obtain ⟨hr, -⟩ := hholds r hr
  exact hr.sessions x hx ((mfaEnabled_iff hr).mp henabled)

def aliceWithCode : Store :=
  { storeOf { aliceRow with mfaEnabled := true } with
    mfaCredentials := [⟨alice, units "246810", true⟩] }

/-- A login with both factors. -/
def loginWithCode : List Action :=
  let challenge := (Signing.mfaChallenge alice.1).token spelled startOf2024 (units "nonce")
  [.start 0 (.login (some aliceEmail) (some alicePassword)), .call 0 [], .call 0 [],
   .call 0 (units "nonce"), .start 1 (.mfaChallenge (some challenge) (some (units "246810"))),
   .call 1 [], .call 1 [], .call 1 [], .call 1 (units "session"), .call 1 []]

theorem login_protects :
    (((routes deployment NobodySignedIn).exec (idle aliceWithCode) loginWithCode).any fun t =>
      t.store.sessions.length = 1) = true ∧
    ∀ r ∈ (routes deployment NobodySignedIn).visited (idle aliceWithCode) loginWithCode,
      Protected r := by
  have hexec : (((routes deployment NobodySignedIn).exec (idle aliceWithCode) loginWithCode).any
      fun t => t.store.sessions.length = 1) = true := by decide +kernel
  refine ⟨hexec, ?_⟩
  obtain ⟨t, ht, -⟩ := (Option.any_eq_true _ _).mp hexec
  refine second_factor_protects deployment _ t _ ⟨⟨rfl, rfl⟩, fun _ => rfl⟩
    (Machine.run_of_exec_forall ht ?_)
  intro a ha s
  simp only [loginWithCode, List.mem_cons, List.not_mem_nil, or_false] at ha
  rcases ha with rfl | rfl | rfl | rfl | rfl | rfl | rfl | rfl | rfl | rfl <;> trivial

/-- A sign-in with GitHub, up to the session. -/
def loginWithGithub : List Action :=
  let code := (Signing.exchangeCode alice.1).token spelled startOf2024 (units "code")
  githubSignsIn (units "unused") aliceEmail ++ [.call 1 (units "code"),
   .start 2 (.githubExchange (some code)), .call 2 [], .call 2 (units "session"), .call 2 []]

def Query.isVerifyTotp : Query → Bool
  | .verifyTotp .. => true
  | _ => false

theorem SecondFactor.exists_verifyTotp {userId : Text} (hfactor : SecondFactor h userId) :
    h.any (fun e => e.1.isVerifyTotp) = true := by
  obtain ⟨before, after, rfl, -, secret, code, hcode⟩ := hfactor
  have hmem : (⟨.verifyTotp secret code, true⟩ : Event) ∈ after := hcode.subset (by simp)
  exact List.any_eq_true.mpr ⟨_, List.mem_append_right _ hmem, rfl⟩

/-- The session of a sign-in with GitHub comes of no code. -/
theorem exchange_bypasses : ¬ ∀ (g : Gateway) (s t : System) (as : List Action),
    (routes g NobodySignedIn).init s → (routes g NobodySignedIn).Run Machine.Any s as t →
      ∀ r ∈ (routes g NobodySignedIn).visited s as, Protected r := by
  intro hall
  have hexec : (((routes deployment NobodySignedIn).exec (idle aliceWithCode) loginWithGithub).any
      fun t => t.store.users.rows.any (fun row => row.userId = alice && row.mfaEnabled) &&
        t.store.sessions.any fun x =>
          x.userId = alice && !x.trail.any fun e => e.1.isVerifyTotp) = true := by decide +kernel
  obtain ⟨t, ht, hcheck⟩ := (Option.any_eq_true _ _).mp hexec
  have hrun := Machine.run_of_exec ht
  have hprotected := hall deployment _ t _ ⟨⟨rfl, rfl⟩, fun _ => rfl⟩ hrun t hrun.mem_visited
  rw [Bool.and_eq_true, List.any_eq_true, List.any_eq_true] at hcheck
  obtain ⟨⟨row, hrow, henabled⟩, x, hx, htrail⟩ := hcheck
  simp only [Bool.and_eq_true, decide_eq_true_eq, Bool.not_eq_true'] at henabled htrail
  have hfactor := hprotected x hx ⟨row, hrow, by rw [henabled.1, htrail.1], henabled.2⟩
  rw [hfactor.exists_verifyTotp] at htrail
  exact Bool.noConfusion htrail.2

end AssureCode.Auth
