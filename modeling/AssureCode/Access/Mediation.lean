import AssureCode.Access.Routes

/-! # Nothing is done for strangers

Whatever is done in a run is done for a caller that the hook has let in and the guards have let
through, and to another's account only for an administrator or a service.
-/

namespace AssureCode.Access

open Js Program Machine

/-- The request that a trail begins with. -/
def Arrived (h : Trail) (request : Request) (route : Route) (now : ℕ) : Prop :=
  h.head? = some ⟨.received request route now, ()⟩

/-- The hook has let the caller in. -/
def Admitted (g : Gateway) (h : Trail) (caller : Caller) : Prop :=
  ∃ request route now, Arrived h request route now ∧
    match caller with
    | .nobody => isPublicPath request.url
    | .service => isServiceCall g request
    | .user user => ∃ payload, g.payload now request = some payload ∧ user = payload.user ∧
      (⟨.isSessionActive payload.sid, some true⟩ : Event) ∈ h

/-- The contract's row has been read and has the user as a party, or there is no such contract. -/
def ReadAsParty (h : Trail) (allowedParties : List Text) (userId contractId : Text) : Prop :=
  (⟨.contractParties contractId, some none⟩ : Event) ∈ h ∨
    ∃ row, (⟨.contractParties contractId, some (some row)⟩ : Event) ∈ h ∧
      isParty allowedParties userId row

/-- The guard has let the user through. -/
def Guard.PassedBy (h : Trail) (request : Request) (user : AuthUser) : Guard → Prop
  | .requireRole allowedRoles => user.role ∈ allowedRoles
  | .requireKycVerified =>
    (⟨.kycStatus user.userId, some (some (units "VERIFIED"))⟩ : Event) ∈ h
  | .requireContractParty allowedParties => user.role = units "admin" ∨
    ∃ contractId, request.contractId = some contractId ∧
      ReadAsParty h allowedParties user.userId contractId

def Guard.Passed (h : Trail) (request : Request) (caller : Caller) (guard : Guard) : Prop :=
  caller = .service ∨ ∃ user, caller = .user user ∧ guard.PassedBy h request user

/-- The account is the caller's, or the caller may act for all. -/
def MayActFor (caller : Caller) (userId : Text) : Prop :=
  caller = .service ∨
    ∃ user, caller = .user user ∧ (user.role = units "admin" ∨ user.userId = userId)

def Permitted (h : Trail) (caller : Caller) : Statement → Prop
  | .handle => ∃ request guards now, Arrived h request (.guarded guards) now ∧
    ∀ guard ∈ guards, guard.Passed h request caller
  | .revokeSession sessionId => ∃ user, caller = .user user ∧ user.sessionId = sessionId
  | .setVerified userId => MayActFor caller userId ∧
    ∃ row : Verification, row.userId = userId ∧
      (⟨.act caller (.insertVerification row), ()⟩ : Event) ∈ h
  | .insertVerification row => MayActFor caller row.userId
  | .userExists userId | .readUser userId | .readVerification userId
  | .setPayoutAccount userId _ => MayActFor caller userId

/-- What is done is done for a caller that may do it. -/
def Mediated (g : Gateway) (h : Trail) : Query → Prop
  | .act caller statement => Admitted g h caller ∧ Permitted h caller statement
  | _ => True

variable {g : Gateway} {h h' : Trail} {request : Request} {route : Route} {now : ℕ}
  {caller : Caller} {user : AuthUser} {guard : Guard} {guards : List Guard} {userId : Text}
  {statement : Statement} {c : Query} {E : Trail → Prop}

/-! ## Trails that go on -/

theorem Arrived.mono (ha : Arrived h request route now) (hh : h <+: h') :
    Arrived h' request route now := by
  obtain ⟨k, rfl⟩ := hh
  rw [Arrived, List.head?_append, ha]
  rfl

theorem Admitted.mono (ha : Admitted g h caller) (hh : h <+: h') : Admitted g h' caller := by
  obtain ⟨request, route, now, harrived, hcaller⟩ := ha
  refine ⟨request, route, now, harrived.mono hh, ?_⟩
  cases caller with
  | nobody | service => exact hcaller
  | user user =>
    obtain ⟨payload, hpayload, huser, hactive⟩ := hcaller
    exact ⟨payload, hpayload, huser, hh.subset hactive⟩

theorem Guard.PassedBy.mono (hp : guard.PassedBy h request user) (hh : h <+: h') :
    guard.PassedBy h' request user := by
  cases guard with
  | requireRole => exact hp
  | requireKycVerified => exact hh.subset hp
  | requireContractParty allowedParties =>
    rcases hp with hadmin | ⟨contractId, hcontractId, hnone | ⟨row, hrow, hparty⟩⟩
    · exact .inl hadmin
    · exact .inr ⟨contractId, hcontractId, .inl (hh.subset hnone)⟩
    · exact .inr ⟨contractId, hcontractId, .inr ⟨row, hh.subset hrow, hparty⟩⟩

theorem Guard.Passed.mono (hp : guard.Passed h request caller) (hh : h <+: h') :
    guard.Passed h' request caller :=
  hp.imp_right fun ⟨user, huser, hpassed⟩ => ⟨user, huser, hpassed.mono hh⟩

theorem Permitted.mono (hp : Permitted h caller statement) (hh : h <+: h') :
    Permitted h' caller statement := by
  cases statement with
  | handle =>
    obtain ⟨request, guards, now, harrived, hpassed⟩ := hp
    exact ⟨request, guards, now, harrived.mono hh, fun guard hguard =>
      (hpassed guard hguard).mono hh⟩
  | setVerified =>
    obtain ⟨hmay, row, hrow, hinserted⟩ := hp
    exact ⟨hmay, row, hrow, hh.subset hinserted⟩
  | _ => exact hp

/-! ## What a request does -/

/-- Nothing is done by checks, logs and the like. -/
theorem mediated_of_check (hc : ∀ caller statement, c ≠ .act caller statement) :
    Mediated g h c := by
  cases c with
  | act caller statement => exact absurd rfl (hc caller statement)
  | _ => trivial

theorem meets_onRequest (ha : Arrived h request route now) :
    (onRequest g now request).Meets (Mediated g)
      (fun h' r => h <+: h' ∧ ∀ caller, r = .ok caller → Admitted g h' caller ∧
        (caller = .nobody → isPublicPath request.url)) E h := by
  rw [onRequest]
  split
  · next hpublic =>
    refine ⟨List.prefix_rfl, ?_⟩
    rintro _ ⟨⟩
    exact ⟨⟨request, route, now, ha, hpublic⟩, fun _ => hpublic⟩
  · split
    · next hservice =>
      refine ⟨List.prefix_rfl, ?_⟩
      rintro _ ⟨⟩
      exact ⟨⟨request, route, now, ha, hservice⟩, nofun⟩
    · split
      · exact ⟨List.prefix_rfl, nofun⟩
      · next payload hpayload =>
        refine ⟨trivial, fun r => ?_⟩
        rcases r with _ | _ | _
        · exact ⟨prefix_concat .., nofun⟩
        · exact ⟨prefix_concat .., nofun⟩
        · refine ⟨prefix_concat .., ?_⟩
          rintro _ ⟨⟩
          exact ⟨⟨request, route, now, ha.mono (prefix_concat ..), payload, hpayload, rfl,
            List.mem_concat_self⟩, nofun⟩

/-- A guard that does not refuse has let the caller through. -/
theorem meets_guard : (guard.run request caller).Meets (Mediated g)
    (fun h' r => h <+: h' ∧ (r = none → guard.Passed h' request caller)) (fun _ => True) h := by
  cases guard with
  | requireRole allowedRoles =>
    cases caller with
    | nobody => exact ⟨List.prefix_rfl, nofun⟩
    | service => exact ⟨List.prefix_rfl, fun _ => .inl rfl⟩
    | user user =>
      rw [Guard.run, requireRole]
      split
      · next hrole => exact ⟨List.prefix_rfl, fun _ => .inr ⟨user, rfl, List.contains_iff_mem.mp hrole⟩⟩
      · exact ⟨List.prefix_rfl, nofun⟩
  | requireKycVerified =>
    cases caller with
    | nobody => exact ⟨List.prefix_rfl, nofun⟩
    | service => exact ⟨List.prefix_rfl, fun _ => .inl rfl⟩
    | user user =>
      refine ⟨trivial, fun r => ?_⟩
      rcases r with _ | _ | status
      · exact ⟨prefix_concat .., nofun⟩
      · exact ⟨prefix_concat .., nofun⟩
      · change Program.Meets _ _ _ _ (ite _ _ _)
        split
        · next hverified =>
          subst hverified
          exact ⟨prefix_concat .., fun _ => .inr ⟨user, rfl, List.mem_concat_self⟩⟩
        · exact ⟨prefix_concat .., nofun⟩
  | requireContractParty allowedParties =>
    cases caller with
    | nobody => exact ⟨List.prefix_rfl, nofun⟩
    | service => exact ⟨List.prefix_rfl, fun _ => .inl rfl⟩
    | user user =>
      rw [Guard.run, requireContractParty]
      split
      · next hadmin => exact ⟨List.prefix_rfl, fun _ => .inr ⟨user, rfl, .inl hadmin⟩⟩
      · split
        · trivial
        · next contractId hcontractId =>
          have hcontractId := (Option.filter_eq_some_iff.mp hcontractId).1
          refine ⟨trivial, fun r => ?_⟩
          rcases r with _ | _ | row
          · exact ⟨prefix_concat .., nofun⟩
          · exact ⟨prefix_concat .., fun _ => .inr ⟨user, rfl, .inr ⟨contractId, hcontractId,
              .inl List.mem_concat_self⟩⟩⟩
          · change Program.Meets _ _ _ _ (ite _ _ _)
            split
            · next hparty =>
              exact ⟨prefix_concat .., fun _ => .inr ⟨user, rfl, .inr ⟨contractId, hcontractId,
                .inr ⟨row, List.mem_concat_self, hparty⟩⟩⟩⟩
            · exact ⟨trivial, fun _ => ⟨(prefix_concat ..).trans (prefix_concat ..), nofun⟩⟩

theorem meets_preHandler : (preHandler request caller guards).Meets (Mediated g)
    (fun h' r => h <+: h' ∧ (r = none → ∀ guard ∈ guards, guard.Passed h' request caller))
    (fun _ => True) h := by
  induction guards generalizing h with
  | nil => exact ⟨List.prefix_rfl, fun _ => List.forall_mem_nil _⟩
  | cons guard guards ih =>
    rw [preHandler, meets_bind]
    refine meets_guard.mono ?_ fun _ => id
    rintro h' r ⟨hh, hpassed⟩
    cases r with
    | some refusal => exact ⟨hh, nofun⟩
    | none =>
      refine ih.mono ?_ fun _ => id
      rintro h'' r ⟨hh', hrest⟩
      refine ⟨hh.trans hh', fun hnone => List.forall_mem_cons.mpr ⟨?_, hrest hnone⟩⟩
      exact (hpassed rfl).mono hh'

/-- Who is not refused may act for the account. -/
theorem meets_deny {action message : String} (hcaller : caller ≠ .nobody) :
    (denyIfNotSelfOrAdmin request caller userId action message).Meets (Mediated g)
      (fun h' r => h <+: h' ∧ (r = none → MayActFor caller userId)) E h := by
  cases caller with
  | nobody => exact absurd rfl hcaller
  | service => exact ⟨List.prefix_rfl, fun _ => .inl rfl⟩
  | user user =>
    rw [denyIfNotSelfOrAdmin]
    split
    · next hself => exact ⟨List.prefix_rfl, fun _ => .inr ⟨user, rfl, hself⟩⟩
    · exact ⟨trivial, fun _ => ⟨prefix_concat .., nofun⟩⟩

/-- A statement that is permitted is made, and its answer is on the trail. -/
theorem meets_act (ha : Admitted g h caller) (hp : Permitted h caller statement) :
    (act caller statement).Meets (Mediated g)
      (fun h' r => h <+: h' ∧ (⟨.act caller statement, r⟩ : Event) ∈ h') E h :=
  ⟨⟨ha, hp⟩, fun _ => ⟨prefix_concat .., List.mem_concat_self⟩⟩

/-- What a route ends with does not matter. -/
abbrev Ends (g : Gateway) (h : Trail) (p : Code Reply) : Prop :=
  p.Meets (Mediated g) (fun _ _ => True) (fun _ => True) h

theorem ends_ofOption {α : Type} {r : Option α} {f : α → Code Reply}
    (hf : ∀ a, Ends g h (f a)) : Ends g h (ofOption r >>= f) := by
  rw [Ends, meets_bind, meets_ofOption]
  cases r with
  | none => trivial
  | some a => exact hf a

theorem ends_deny {action message : String} {f : Option Refusal → Code Reply}
    (hcaller : caller ≠ .nobody)
    (hrefused : ∀ h refusal, Ends g h (f (some refusal)))
    (hmay : ∀ h', h <+: h' → MayActFor caller userId → Ends g h' (f none)) :
    Ends g h (denyIfNotSelfOrAdmin request caller userId action message >>= f) := by
  rw [Ends, meets_bind]
  refine (meets_deny hcaller).mono ?_ fun _ => id
  rintro h' r ⟨hh, hnone⟩
  cases r with
  | some refusal => exact hrefused h' refusal
  | none => exact hmay h' hh (hnone rfl)

theorem ends_act {f : statement.Answer → Code Reply} (ha : Admitted g h caller)
    (hp : Permitted h caller statement)
    (hf : ∀ h' r, h <+: h' → (⟨.act caller statement, r⟩ : Event) ∈ h' → Ends g h' (f r)) :
    Ends g h (act caller statement >>= f) := by
  rw [Ends, meets_bind]
  refine (meets_act ha hp).mono ?_ fun _ => id
  rintro h' r ⟨hh, hmem⟩
  exact hf h' r hh hmem

theorem ends_verificationSession {f : Text × Text → Code Reply}
    (hf : ∀ session, Ends g h (f session)) : Ends g h (verificationSession g userId >>= f) := by
  rw [Ends, meets_bind, verificationSession, meets_bind, meets_ofOption]
  cases encodeURIComponent (units "vs_fake_" ++ userId) with
  | none => trivial
  | some encoded => exact hf _

theorem ends_onboardingLink {accountId : Text} {f : Text → Code Reply}
    (hf : ∀ url, Ends g h (f url)) : Ends g h (onboardingLink g accountId >>= f) := by
  rw [Ends, meets_bind, onboardingLink, meets_bind, meets_ofOption]
  cases encodeURIComponent accountId with
  | none => trivial
  | some encoded => exact hf _

theorem ends_kycVerify {userId idType : Option Text} (ha : Admitted g h caller)
    (hcaller : caller ≠ .nobody) : Ends g h (kycVerify g request caller userId idType) := by
  rw [kycVerify]
  split
  · next userId idType _ _ =>
    apply ends_deny hcaller
    · exact fun _ _ => trivial
    · intro h₁ hh₁ hmay
      apply ends_act (ha.mono hh₁)
      · exact hmay
      · intro h₂ found hh₂ _
        have ha₂ := (ha.mono hh₁).mono hh₂
        cases found with
        | false => trivial
        | true =>
          apply ends_verificationSession
          refine fun session => ⟨trivial, fun uuid => ?_⟩
          have ha₃ := ha₂.mono (prefix_concat h₂ ⟨.randomUUID, uuid⟩)
          apply ends_act ha₃
          · exact hmay
          · intro h₄ _ hh₄ hinserted
            apply ends_act (ha₃.mono hh₄)
            · exact ⟨hmay, _, rfl, hinserted⟩
            · exact fun _ _ _ _ => ⟨trivial, fun _ => trivial⟩
  · trivial

theorem ends_kycStatusOf (ha : Admitted g h caller) (hcaller : caller ≠ .nobody) :
    Ends g h (kycStatusOf request caller userId) := by
  apply ends_deny hcaller
  · exact fun _ _ => trivial
  · intro h₁ hh₁ hmay
    apply ends_act (ha.mono hh₁)
    · exact hmay
    · intro h₂ found hh₂ _
      cases found with
      | none => trivial
      | some user =>
        apply ends_act ((ha.mono hh₁).mono hh₂)
        · exact hmay
        · exact fun _ _ _ _ => trivial

theorem ends_connectOnboarding {userId : Option Text} (ha : Admitted g h caller)
    (hcaller : caller ≠ .nobody) : Ends g h (connectOnboarding g request caller userId) := by
  rw [connectOnboarding]
  split
  · next userId _ =>
    apply ends_deny hcaller
    · exact fun _ _ => trivial
    · intro h₁ hh₁ hmay
      apply ends_act (ha.mono hh₁)
      · exact hmay
      · intro h₂ found hh₂ _
        cases found with
        | false => trivial
        | true =>
          apply ends_act ((ha.mono hh₁).mono hh₂)
          · exact hmay
          · intro h₃ _ _ _
            exact ends_onboardingLink fun _ => trivial
  · trivial

theorem ends_logout (ha : Admitted g h caller) : Ends g h (logout request caller) := by
  cases caller with
  | nobody | service => trivial
  | user user =>
    apply ends_act ha
    · exact ⟨user, rfl, rfl⟩
    · exact fun _ _ _ _ => ⟨trivial, fun _ => trivial⟩

theorem ends_guarded (harrived : Arrived h request (.guarded guards) now)
    (ha : Admitted g h caller) : Ends g h (handler g request caller (.guarded guards)) := by
  rw [handler, Ends, meets_bind]
  refine meets_preHandler.mono ?_ fun _ => id
  rintro h' r ⟨hh, hpassed⟩
  cases r with
  | some refusal => trivial
  | none =>
    apply ends_act (ha.mono hh)
    · exact ⟨request, guards, now, harrived.mono hh, hpassed rfl⟩
    · exact fun _ _ _ _ => trivial

theorem not_isPublicPath_of_prefix {url : Text} (h : units "/api/kyc/" <+: pathOf url) :
    isPublicPath url = false := by
  have hpaths : ∀ path ∈ publicPaths, ¬ units "/api/kyc/" <+: units path := by decide
  have hprefixes : ∀ start ∈ publicPrefixes,
      ¬ (units start <+: units "/api/kyc/" ∨ units "/api/kyc/" <+: units start) := by decide
  rw [isPublicPath, Bool.or_eq_false_iff, List.any_eq_false, List.any_eq_false]
  constructor
  · intro path hpath heq
    exact hpaths path hpath (of_decide_eq_true heq ▸ h)
  · intro start hstart hprefix
    apply hprefixes start hstart
    exact List.prefix_or_prefix_of_prefix (List.isPrefixOf_iff_prefix.mp hprefix) h

/-- The routes about identities are no public ones. -/
theorem not_isPublicPath (hserves : route.serves (pathOf request.url))
    (hroute : ∀ guards, route ≠ .guarded guards) (hlogout : route ≠ .logout) :
    isPublicPath request.url = false := by
  apply not_isPublicPath_of_prefix
  cases route with
  | guarded guards => exact absurd rfl (hroute guards)
  | logout => exact absurd rfl hlogout
  | kycVerify => exact of_decide_eq_true hserves ▸ by decide
  | connectOnboarding => exact of_decide_eq_true hserves ▸ by decide
  | kycStatus =>
    apply List.IsPrefix.trans ?_ (List.isPrefixOf_iff_prefix.mp hserves)
    decide

theorem ends_handler (hserves : route.serves (pathOf request.url))
    (harrived : Arrived h request route now) (ha : Admitted g h caller)
    (hnobody : caller = .nobody → isPublicPath request.url) :
    Ends g h (handler g request caller route) := by
  have hcaller : (∀ guards, route ≠ .guarded guards) → route ≠ .logout → caller ≠ .nobody := by
    intro hroute hlogout heq
    rw [not_isPublicPath hserves hroute hlogout] at hnobody
    exact absurd (hnobody heq) Bool.false_ne_true
  cases route with
  | guarded guards => exact ends_guarded harrived ha
  | logout => exact ends_logout ha
  | kycVerify => exact ends_kycVerify ha (hcaller nofun nofun)
  | kycStatus => exact ends_kycStatusOf ha (hcaller nofun nofun)
  | connectOnboarding => exact ends_connectOnboarding ha (hcaller nofun nofun)

theorem ends_respond (hserves : route.serves (pathOf request.url))
    (harrived : Arrived h request route now) : Ends g h (respond g now request route) := by
  rw [respond, Ends, meets_bind]
  refine (meets_onRequest harrived).mono ?_ fun _ => id
  rintro h' r ⟨hh, hok⟩
  cases r with
  | error refusal => trivial
  | ok caller =>
    obtain ⟨ha, hnobody⟩ := hok caller rfl
    exact ends_handler hserves (harrived.mono hh) ha hnobody

/-! ## Runs -/

section Runs

variable {s t : System} {as : List Action}

theorem good_start {f : Flow Query Query.Answer Reply} {store : Store}
    (hf : start g store request route = some f) :
    Concurrent.Good (Mediated g) (fun _ _ => True) f ∧
      Concurrent.Complied (Mediated g) f.trail := by
  rw [start] at hf
  split at hf
  · next hserves =>
    obtain rfl := Option.some.inj hf
    exact ⟨ends_respond hserves rfl, Concurrent.complied_nil.concat trivial⟩
  · cases hf

theorem complied_trails (hs : (system g).init s) (h : (system g).Run Any s as t) :
    ∀ u ∈ (system g).visited s as, ∀ i f, u.flows i = some f →
      Concurrent.Complied (Mediated g) f.trail :=
  fun u hu => (Concurrent.complied_of_run hs h (fun _ _ _ => good_start) u hu).1

/--
Whatever is done in a run, a caller that was let in before does it, and one that may: a handler
runs behind all of its guards, a user's account is touched by that user, an administrator or a
service, and nobody is verified without a document on file.
-/
theorem complete_mediation (hs : (system g).init s) (h : (system g).Run Any s as t) :
    ∀ u ∈ (system g).visited s as, ∀ i f, u.flows i = some f →
      ∀ before caller statement answer,
        before ++ [⟨.act caller statement, answer⟩] <+: f.trail →
          Admitted g before caller ∧ Permitted before caller statement := by
  intro u hu i f hf before caller statement answer hprefix
  exact complied_trails hs h u hu i f hf before _ hprefix

end Runs

/-- One token has been signed, and is good up to a time. -/
def annsGateway : Gateway where
  serviceToken := []
  verify now token := if token = units "t" ∧ now < 1000 then some anns else none
  jwtVerify now header := if header = some (units "Bearer t") ∧ now < 1000 then some anns else none
  webAppUrl := units "http://localhost:3000"
where
  anns : JwtPayload :=
    ⟨units "ann", units "ann@x.org", units "client", units "UNVERIFIED", false, units "s1"⟩

def annsRequest (url : String) (contractId : Option Text) : Request where
  url := units url
  authorization := some (units "Bearer t")
  contractId := contractId

/-- A client runs the verification of her identity, and releases a payment of her contract. -/
def annsRun : List Action :=
  [.pass (.addUser (units "ann") (units "client") (units "Ann")),
    .pass (.createSession (units "s1") (units "ann") 1000),
    .pass (.addContract (units "c1") (units "ann")),
    .start 0 (annsRequest "/api/kyc/verify" none,
      .kycVerify (some (units "ann")) (some (units "PASSPORT")))] ++
  List.replicate 6 (.call 0 {}) ++
  [.start 1 (annsRequest "/api/contracts/c1/settle" (some (units "c1")), .guarded settlementGuards)] ++
  List.replicate 4 (.call 1 {})

theorem complete_mediation_handled : ∃ t f before answer,
    (system annsGateway).exec ⟨{}, fun _ => none⟩ annsRun = some t ∧ t.flows 1 = some f ∧
    before ++ [⟨.act (.user annsGateway.anns.user) .handle, answer⟩] <+: f.trail ∧
    Admitted annsGateway before (.user annsGateway.anns.user) ∧
    Permitted before (.user annsGateway.anns.user) .handle := by
  have h : ((system annsGateway).exec ⟨{}, fun _ => none⟩ annsRun).any fun t =>
      (t.flows 1).any fun f => f.trail.getLast?.any fun ev =>
        ev.1 = .act (.user annsGateway.anns.user) .handle := by decide +kernel
  obtain ⟨t, ht, h⟩ := (Option.any_eq_true _ _).mp h
  obtain ⟨f, hf, h⟩ := (Option.any_eq_true _ _).mp h
  obtain ⟨⟨c, r⟩, hlast, h⟩ := (Option.any_eq_true _ _).mp h
  obtain rfl := of_decide_eq_true h
  obtain ⟨before, hbefore⟩ := List.getLast?_eq_some_iff.mp hlast
  have hprefix : before ++ [⟨_, r⟩] <+: f.trail := hbefore ▸ List.prefix_rfl
  have hrun := run_of_exec ht
  have hinit : (system annsGateway).init ⟨{}, fun _ => none⟩ := ⟨⟨rfl, rfl, rfl⟩, fun _ => rfl⟩
  exact ⟨t, f, before, r, ht, hf, hprefix,
    complete_mediation hinit hrun t hrun.mem_visited 1 f hf _ _ _ _ hprefix⟩

end AssureCode.Access
