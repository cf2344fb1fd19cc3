import AssureCode.Auth.Presented

/-! # Resets

A reset sets the password and then revokes the sessions that there are. A login that found the old
password right before may still create one, and so may a challenge that was issued for it; where
neither is left when the sessions are revoked, the old password is out.
-/

namespace AssureCode.Auth

open Js Program

variable {g : Gateway} {s t : System} {h : Trail} {now : Clock} {row : User}
  {f f' : Flow Query Query.Answer Reply} {u : Id} {v : ℕ}

/-- A reset has been answered that set the password of the user. -/
def ResetCompleted (f : Flow Query Query.Answer Reply) (u : Id) (v : ℕ) : Prop :=
  f.rest = .done .success ∧ ∃ hash, (⟨.setPassword u hash, v⟩ : Event) ∈ f.trail

/-- A row of the user from before its password was set for the `v`-th time. -/
def User.Before (row : User) (u : Id) (v : ℕ) : Prop := row.userId = u ∧ row.passwordVersion < v

/-- After a reset every session of the user that came of an old password is revoked. -/
def OldPasswordsOut (s : System) : Prop :=
  ∀ i f u v, s.flows i = some f → ResetCompleted f u v → ∀ row : User, row.Before u v →
    ∀ x ∈ s.store.sessions, x.userId = u → Checked x.trail row → x.revokedAt ≠ none

/-- A flow that is not over and has found the password of this row right, or is about to. -/
def Carries (g : Gateway) (f : Flow Query Query.Answer Reply) (row : User) : Prop :=
  (f.next ≠ none ∧ Checked f.trail row) ∨ ∃ before email password,
    f.trail = before ++ [⟨.userByEmail email, some row⟩] ∧
    f.next = some (.verifyPassword password row.passwordHash) ∧
    g.verifyPassword password row.passwordHash = true

/-- No flow carries the password of this row, and the challenges that were issued for it are old. -/
def Forgotten (g : Gateway) (s : System) (row : User) : Prop :=
  (∀ i f, s.flows i = some f → ¬ Carries g f row) ∧
  ∀ x ∈ s.store.signed, Checked x.trail row → x.signedAt + mfaChallengeTtlMs ≤ s.store.now.1

/-- When the sessions are revoked, the password from before the reset is forgotten. -/
def NothingPending (g : Gateway) (s : System) : Action → Prop
  | .call i _ => ∀ f u hash (v : ℕ), s.flows i = some f → f.next = some (.revokeAllSessions u) →
    (⟨.setPassword u hash, v⟩ : Event) ∈ f.trail → ∀ row : User, row.Before u v → Forgotten g s row
  | _ => True

/-! ## Calls -/

/-- Only a challenge is signed after a password. -/
def SignsFor (h : Trail) (c : Query) : Prop :=
  ∀ signing, c = .sign signing → signing.1.purpose ≠ .mfaChallenge → ∀ row, ¬ Checked h row

/-- The password of the user was set, and later the sessions were revoked. -/
def SetAndRevoked (h : Trail) (u : Id) (v : ℕ) : Prop :=
  ∃ hash, ([⟨.setPassword u hash, v⟩, ⟨.revokeAllSessions u, ()⟩] : Trail).Sublist h

/-- Success means that where a password was set the sessions were revoked. -/
def Revokes (h : Trail) (reply : Reply) : Prop :=
  reply = .success → ∀ u hash (v : ℕ), (⟨.setPassword u hash, v⟩ : Event) ∈ h → SetAndRevoked h u v

/-- A route that signs nothing but challenges and redeems no token. -/
theorem meets_of_makes {request : Request}
    (hsign : ∀ signing, request.Makes (.sign signing) → signing.1.purpose = .mfaChallenge)
    (hredeems : ¬ request.Redeems) :
    (handler g now request).Meets SignsFor Revokes (fun _ => True) h := by
  refine (follows_handler.mono (fun _ _ hreply hsuccess => ?_) fun _ => id).mono_calls ?_
  · exact absurd (hreply hsuccess) hredeems
  · rintro h c hcall signing rfl hpurpose
    exact absurd (hsign signing hcall) hpurpose

theorem signsFor_of_not_checked (hnot : ∀ row, ¬ Checked h row) (c : Query) : SignsFor h c :=
  fun _ _ _ => hnot

theorem not_checked_concat {e : Event} (hnot : ∀ row, ¬ Checked h row)
    (he : ∀ password hash, e ≠ ⟨.verifyPassword password hash, true⟩) (row : User) :
    ¬ Checked (h ++ [e]) row := by
  intro hchecked
  rcases checked_concat hchecked with hchecked | ⟨-, -, password, rfl, -⟩
  · exact hnot row hchecked
  · exact he _ _ rfl

theorem meets_githubCallback {code state error : Option Text} {outcome : GithubOutcome}
    (hnot : ∀ row, ¬ Checked h row) :
    (githubCallback g now code state error outcome).Meets SignsFor Revokes (fun _ => True) h := by
  unfold githubCallback
  simp only
  split
  · exact Reply.noConfusion
  split
  · exact Reply.noConfusion
  · exact Reply.noConfusion
  · rw [meets_catching]
    unfold githubAccount
    split
    · refine ⟨signsFor_of_not_checked hnot _, fun linked => ?_⟩
      cases linked with
      | false => exact Reply.noConfusion
      | true => exact Reply.noConfusion
    · refine ⟨signsFor_of_not_checked hnot _, fun newId => ?_⟩
      have hdrawn := not_checked_concat (e := ⟨.randomUUID, newId⟩) hnot (by simp)
      refine ⟨signsFor_of_not_checked hdrawn _, fun userId => ?_⟩
      have hsigned := not_checked_concat (e := ⟨.signIn newId _, userId⟩) hdrawn (by simp)
      exact ⟨signsFor_of_not_checked (hsigned) _, fun code => Reply.noConfusion⟩

theorem meets_resetPassword {token newPassword confirmPassword : Option Text} :
    (resetPassword g token newPassword confirmPassword).Meets SignsFor Revokes (fun _ => True)
      [] := by
  unfold resetPassword
  split
  · split
    · exact Reply.noConfusion
    · split
      · exact Reply.noConfusion
      · refine ⟨fun _ => Query.noConfusion, fun found => ?_⟩
        cases found with
        | none => exact Reply.noConfusion
        | some userId =>
          refine ⟨fun _ => Query.noConfusion, fun newHash => ⟨fun _ => Query.noConfusion, ?_⟩⟩
          intro _
          refine ⟨fun _ => Query.noConfusion, fun _ => ⟨fun _ => Query.noConfusion, ?_⟩⟩
          intro _ _ u hash v hmem
          obtain ⟨⟨rfl, rfl⟩, rfl⟩ : (u = userId ∧ hash = newHash) ∧ v = _ := by simpa using hmem
          exact ⟨hash, .cons _ (.cons _ (.cons_cons _ (.cons _ (.refl _))))⟩
  · exact Reply.noConfusion

theorem meets_verifyEmail {token : Option Text} :
    (verifyEmail g token).Meets SignsFor Revokes (fun _ => True) [] := by
  unfold verifyEmail
  split
  · exact Reply.noConfusion
  · refine ⟨fun _ => Query.noConfusion, fun found => ?_⟩
    cases found with
    | none => exact Reply.noConfusion
    | some userId =>
      refine ⟨fun _ => Query.noConfusion, fun _ => ⟨fun _ => Query.noConfusion, ?_⟩⟩
      intro _ _ u hash v hmem
      simp at hmem

/-! ## Trails -/

/-- The trails of the flows and of what has been signed. -/
def Recorded (s : System) (h : Trail) : Prop :=
  (∃ i f, s.flows i = some f ∧ f.trail = h) ∨ ∃ x ∈ s.store.signed, x.trail = h

theorem recorded_serve {i : ℕ} {c : Query} {next : c.Answer → Code Reply} {r : c.Answer}
    {store : Store} {trail : Trail} (hflow : s.flows i = some ⟨trail, .call c next⟩)
    (hserved : Served g s.store trail c store)
    (h' : Recorded (Concurrent.State.set { s with store } i ⟨trail ++ [⟨c, r⟩], next r⟩) h) :
    Recorded s h ∨ h = trail ++ [⟨c, r⟩] := by
  rcases h' with ⟨j, f, hf, rfl⟩ | ⟨x, hx, rfl⟩
  · rcases Concurrent.set_cases hf with ⟨rfl, rfl⟩ | ⟨-, hf⟩
    · exact .inr rfl
    · exact .inl (.inl ⟨j, f, hf, rfl⟩)
  · rcases hserved.signed x hx with hx | ⟨-, -, hx⟩
    · exact .inl (.inr ⟨x, hx, rfl⟩)
    · exact .inl (.inl ⟨i, _, hflow, hx.symm⟩)

theorem setAndRevoked_concat {e : Event} (hset : SetAndRevoked (h ++ [e]) u v) :
    SetAndRevoked h u v ∨
      (e = ⟨.revokeAllSessions u, ()⟩ ∧ ∃ hash, (⟨.setPassword u hash, v⟩ : Event) ∈ h) := by
  obtain ⟨hash, hsub⟩ := hset
  obtain ⟨l, l', heq, hl, hl'⟩ := List.sublist_append_iff.mp hsub
  rcases List.sublist_singleton.mp hl' with rfl | rfl
  · rw [List.append_nil] at heq
    exact .inl ⟨hash, heq ▸ hl⟩
  · have hconcat :
        [(⟨.setPassword u hash, v⟩ : Event)] ++ [⟨.revokeAllSessions u, ()⟩] = l ++ [e] :=
      heq
    obtain ⟨rfl, he⟩ := List.append_inj' hconcat rfl
    exact .inr ⟨(List.singleton_inj.mp he).symm, hash, List.singleton_sublist.mp hl⟩

/-- What a flow carries after a call it has carried before, or the call looked up the row. -/
theorem carries_of_call {store : Store} {trail : Trail} {c : Query} {next : c.Answer → Code Reply}
    {r : c.Answer} {choice : Text} (hr : serve g s.store trail c choice = some (r, store))
    (hcarries : Carries g ⟨trail ++ [⟨c, r⟩], next r⟩ row) :
    Carries g ⟨trail, .call c next⟩ row ∨ row ∈ s.store.users.rows := by
  rcases hcarries with ⟨-, hchecked⟩ | ⟨before, email, password, htrail, -⟩
  · left
    rcases checked_concat hchecked with hchecked | ⟨before, email, password, he, htrail⟩
    · exact .inl ⟨Option.some_ne_none _, hchecked⟩
    · cases he
      refine .inr ⟨before, email, password, htrail, rfl, ?_⟩
      exact congrArg Prod.fst (Option.some.inj hr)
  · right
    obtain ⟨-, he⟩ := List.append_inj' htrail rfl
    cases List.singleton_inj.mp he
    exact (Users.mem_of_byEmail (congrArg Prod.fst (Option.some.inj hr))).1

/-! ## Runs -/

/-- What is left of an old password after a reset. -/
structure Out (g : Gateway) (s : System) (u : Id) (row : User) : Prop where
  forgotten : Forgotten g s row
  revoked : ∀ x ∈ s.store.sessions, x.userId = u → Checked x.trail row → x.revokedAt ≠ none

structure Settled (g : Gateway) (s : System) : Prop where
  /-- The password of an account has been set as often as any reset of it says. -/
  version : ∀ h, Recorded s h → ∀ u hash (v : ℕ), (⟨.setPassword u hash, v⟩ : Event) ∈ h →
    v = 0 ∨ ∃ row ∈ s.store.users.rows, row.userId = u ∧ v ≤ row.passwordVersion
  out : ∀ h, Recorded s h → ∀ u v, SetAndRevoked h u v → ∀ row : User, row.Before u v →
    Out g s u row
  /-- Only a challenge goes on from a password. -/
  signed : ∀ x ∈ s.store.signed, x.signing.1.purpose ≠ .mfaChallenge → ∀ row,
    ¬ Checked x.trail row

theorem not_before_of_mem (hs : Settled g s) (hh : Recorded s h) {hash : Text}
    (hset : (⟨.setPassword u hash, v⟩ : Event) ∈ h) (hrow : row ∈ s.store.users.rows) :
    ¬ row.Before u v := by
  rintro ⟨huser, hlt⟩
  rcases hs.version h hh u hash v hset with rfl | ⟨row', hrow', huser', hle⟩
  · exact absurd hlt (Nat.not_lt_zero _)
  · rw [Users.eq_of_userId hrow hrow' (huser.trans huser'.symm)] at hlt
    omega

/-- A session or a challenge comes of what its flow carried before. -/
theorem not_checked_of_forgotten {i : ℕ} {c : Query} {next : c.Answer → Code Reply} {trail : Trail}
    (hflow : s.flows i = some ⟨trail, .call c next⟩) (hout : Forgotten g s row) :
    ¬ Checked trail row := by
  intro hchecked
  exact hout.1 i _ hflow (.inl ⟨Option.some_ne_none _, hchecked⟩)

theorem forgotten_serve {i : ℕ} {c : Query} {next : c.Answer → Code Reply} {trail : Trail}
    {r : c.Answer} {choice : Text} {store : Store}
    (hflow : s.flows i = some ⟨trail, .call c next⟩)
    (hr : serve g s.store trail c choice = some (r, store)) (hout : Forgotten g s row)
    (hrow : row ∉ s.store.users.rows) :
    Forgotten g (Concurrent.State.set { s with store } i ⟨trail ++ [⟨c, r⟩], next r⟩) row := by
  have hserved := served hr
  constructor
  · intro j f hf hcarries
    rcases Concurrent.set_cases hf with ⟨rfl, rfl⟩ | ⟨-, hf⟩
    · rcases carries_of_call hr hcarries with hcarries | hmem
      · exact hout.1 j _ hflow hcarries
      · exact hrow hmem
    · exact hout.1 j f hf hcarries
  · intro x hx hchecked
    show x.signedAt + mfaChallengeTtlMs ≤ store.now.1
    rw [hserved.now]
    rcases hserved.signed x hx with hx | ⟨-, -, hx⟩
    · exact hout.2 x hx hchecked
    · rw [hx] at hchecked
      exact absurd hchecked (not_checked_of_forgotten hflow hout)

theorem out_serve {i : ℕ} {c : Query} {next : c.Answer → Code Reply} {trail : Trail}
    {r : c.Answer} {choice : Text} {store : Store}
    (hflow : s.flows i = some ⟨trail, .call c next⟩)
    (hr : serve g s.store trail c choice = some (r, store)) (hout : Out g s u row)
    (hrow : row ∉ s.store.users.rows) :
    Out g (Concurrent.State.set { s with store } i ⟨trail ++ [⟨c, r⟩], next r⟩) u row := by
  refine ⟨forgotten_serve hflow hr hout.forgotten hrow, fun x hx huser hchecked => ?_⟩
  rcases (served hr).session hx with ⟨y, hy, hyuser, hytrail, hrevoked⟩ | ⟨-, hx⟩
  · rw [← hyuser] at huser
    rw [← hytrail] at hchecked
    exact hrevoked (hout.revoked y hy huser hchecked)
  · rw [hx] at hchecked
    exact absurd hchecked (not_checked_of_forgotten hflow hout.forgotten)

/-- The call that revokes the sessions of a user whose old password is forgotten. -/
theorem out_revoke {i : ℕ} {next : Unit → Code Reply} {trail : Trail} {choice : Text}
    {store : Store} (hflow : s.flows i = some ⟨trail, .call (.revokeAllSessions u) next⟩)
    (hr : serve g s.store trail (.revokeAllSessions u) choice = some ((), store))
    (hforgotten : Forgotten g s row) (hrow : row ∉ s.store.users.rows) :
    Out g (Concurrent.State.set { s with store } i
      ⟨trail ++ [⟨.revokeAllSessions u, ()⟩], next ()⟩) u row := by
  refine ⟨forgotten_serve hflow hr hforgotten hrow, fun x hx huser _ => ?_⟩
  change x ∈ store.sessions at hx
  rw [(served hr).sessions] at hx
  obtain ⟨y, hy, rfl⟩ := List.mem_map.mp hx
  split
  · exact Option.some_ne_none _
  · next hnot =>
    rw [if_neg hnot] at huser
    intro hrevoked
    exact hnot ⟨huser, hrevoked⟩

theorem settled_serve {i : ℕ} {c : Query} {next : c.Answer → Code Reply} {trail : Trail}
    {r : c.Answer} {choice : Text} {store : Store} (hs : Settled g s)
    (hgood : Concurrent.AllGood SignsFor Revokes s) (hc : NothingPending g s (.call i choice))
    (hflow : s.flows i = some ⟨trail, .call c next⟩)
    (hr : serve g s.store trail c choice = some (r, store)) :
    Settled g (Concurrent.State.set { s with store } i ⟨trail ++ [⟨c, r⟩], next r⟩) := by
  have hserved := served hr
  have hrecorded : Recorded s trail := .inl ⟨i, _, hflow, rfl⟩
  have hstays : ∀ u v, (v = 0 ∨ ∃ row ∈ s.store.users.rows, row.userId = u ∧
      v ≤ row.passwordVersion) → v = 0 ∨ ∃ row ∈ store.users.rows, row.userId = u ∧
      v ≤ row.passwordVersion := by
    rintro u v (hzero | ⟨row, hrow, huser, hle⟩)
    · exact .inl hzero
    · obtain ⟨row', hrow', hlater⟩ := hserved.users.stays row hrow
      exact .inr ⟨row', hrow', hlater.userId.trans huser, hle.trans hlater.passwordVersion⟩
  constructor
  · intro h hh u hash v hmem
    rcases recorded_serve hflow hserved hh with hh | rfl
    · exact hstays u v (hs.version h hh u hash v hmem)
    · rcases List.mem_append.mp hmem with hmem | hmem
      · exact hstays u v (hs.version trail hrecorded u hash v hmem)
      · cases List.mem_singleton.mp hmem
        cases hr
        cases hfound : Users.byId _ u.1 with
        | none => exact .inl rfl
        | some row =>
          obtain ⟨hrow, huser⟩ := Users.mem_of_byId hfound
          exact .inr ⟨row, hrow, Subtype.ext huser, le_rfl⟩
  · intro h hh u v hset row hrow
    have hkept : ∀ h, Recorded s h → SetAndRevoked h u v →
        Out g (Concurrent.State.set { s with store } i ⟨trail ++ [⟨c, r⟩], next r⟩) u row := by
      rintro h hh ⟨hash, hsub⟩
      apply out_serve hflow hr (hs.out h hh u v ⟨hash, hsub⟩ row hrow)
      intro hmem
      exact not_before_of_mem hs hh (hsub.subset List.mem_cons_self) hmem hrow
    rcases recorded_serve hflow hserved hh with hh | rfl
    · exact hkept h hh hset
    · rcases setAndRevoked_concat hset with hset | ⟨he, hash, hmem⟩
      · exact hkept trail hrecorded hset
      · cases he
        exact out_revoke hflow hr (hc _ u hash v hflow rfl hmem row hrow) fun hmem' =>
          not_before_of_mem hs hrecorded hmem hmem' hrow
  · intro x hx hpurpose
    rcases hserved.signed x hx with hx | ⟨rfl, -, hx⟩
    · exact hs.signed x hx hpurpose
    · rw [hx]
      exact (hgood.admitted hflow) x.signing rfl hpurpose

theorem verified_of_next {challenge code : Option Text}
    (hnext : Flow.next ⟨h, mfaChallenge g now challenge code⟩ ≠ none) :
    ∃ token userId, given challenge = some token ∧
      verifyMfaChallenge g.hmac now token = some userId := by
  unfold mfaChallenge at hnext
  split at hnext
  · next token code hchallenge _ =>
    split at hnext
    · exact absurd rfl hnext
    · next userId huser => exact ⟨token, userId, hchallenge, (given_eq_some.mp huser).1⟩
  · exact absurd rfl hnext

/-- A password is not checked before it is looked up what it has to be. -/
theorem handler_next_ne {request : Request} {password hash : Text} :
    Flow.next ⟨h, handler g now request⟩ ≠ some (.verifyPassword password hash) := by
  intro hnext
  obtain ⟨next, hcall⟩ : ∃ next, handler g now request =
      .call (.verifyPassword password hash) next := by
    unfold Flow.next at hnext
    split at hnext
    · next c next hrest =>
      cases hnext
      exact ⟨next, hrest⟩
    · cases hnext
  have hfollows : Follows request h (handler g now request) := follows_handler
  rw [hcall] at hfollows
  cases request with
  | login email password =>
    simp only [handler, login] at hcall
    split at hcall
    · cases hcall
    · cases hcall
  | _ => exact hfollows.1

/-- A flow that starts carries nothing that is forgotten. -/
theorem not_carries_of_starts {request : Request} (hs : Settled g s)
    (hout : Forgotten g s row) (hf : Starts g s.store request f) : ¬ Carries g f row := by
  obtain ⟨h, rfl⟩ : ∃ h, f = ⟨h, handler g s.store.now request⟩ := by
    cases hf with
    | anew => exact ⟨_, rfl⟩
    | goesOn => exact ⟨_, rfl⟩
  rintro (⟨hnext, hchecked⟩ | ⟨before, email, password, -, hnext, -⟩)
  · rcases trail_of_starts hf with rfl | ⟨x, hx, rfl, hpurpose⟩
    · exact not_checked_nil hchecked
    · by_cases hmfa : x.signing.1.purpose = .mfaChallenge
      · obtain ⟨token, hpresents⟩ := hpurpose.mpr hmfa
        cases request with
        | mfaChallenge challenge code =>
          obtain ⟨token, userId, hgiven, hverify⟩ := verified_of_next hnext
          obtain ⟨rfl, hne⟩ := given_eq_some.mp hgiven
          obtain ⟨x', hx', htrail, -, htime⟩ := exists_of_verifyMfaChallenge hf hne hverify
          have hold := hout.2 x' hx' (htrail ▸ hchecked)
          rw [← Bool.not_eq_true, outOfTime_digitsOf (by decide)] at htime
          exact htime (.inr hold)
        | githubCallback code state error outcome =>
          obtain ⟨t, -, hpair⟩ := Option.map_eq_some_iff.mp hpresents
          cases hpair
        | githubExchange code =>
          obtain ⟨t, -, hpair⟩ := Option.map_eq_some_iff.mp hpresents
          cases hpair
        | _ => cases hpresents
      · exact hs.signed x hx hmfa row hchecked
  · exact handler_next_ne hnext

/-- Whatever is asked for, nothing but a challenge goes on from a password. -/
theorem good_of_starts {request : Request} (hs : Settled g s) (hf : Starts g s.store request f) :
    Concurrent.Good SignsFor Revokes f := by
  have hnil : ∀ row, ¬ Checked [] row := fun row => not_checked_nil
  rw [Concurrent.Good, hf.rest]
  cases request with
  | github =>
    rw [hf.trail rfl]
    exact ⟨signsFor_of_not_checked hnil _, fun _ => Reply.noConfusion⟩
  | githubLinkUrl user =>
    rw [hf.trail rfl]
    cases user with
    | none => exact Reply.noConfusion
    | some userId => exact ⟨signsFor_of_not_checked hnil _, fun _ => Reply.noConfusion⟩
  | githubCallback code state error outcome =>
    apply meets_githubCallback
    rcases trail_of_starts hf with htrail | ⟨x, hx, htrail, hpurpose⟩
    · rw [htrail]
      exact hnil
    · rw [htrail]
      apply hs.signed x hx
      intro hmfa
      obtain ⟨token, hpresents⟩ := hpurpose.mpr hmfa
      obtain ⟨t, -, hpair⟩ := Option.map_eq_some_iff.mp hpresents
      cases hpair
  | resetPassword =>
    rw [hf.trail rfl]
    exact meets_resetPassword
  | verifyEmail =>
    rw [hf.trail rfl]
    exact meets_verifyEmail
  | login => exact meets_of_makes (fun _ => id) id
  | _ => exact meets_of_makes (fun _ => False.elim) id

/-- A flow that starts or raises, if it carries nothing that is forgotten. -/
theorem Settled.set {i : ℕ} (hs : Settled g s) (hf : Recorded s f.trail ∨ f.trail = [])
    (hcarries : ∀ row, Forgotten g s row → ¬ Carries g f row) : Settled g (s.set i f) := by
  have hrecorded : ∀ h, Recorded (s.set i f) h → Recorded s h ∨ h = [] := by
    rintro h (⟨j, f', hf', rfl⟩ | hx)
    · rcases Concurrent.set_cases hf' with ⟨rfl, rfl⟩ | ⟨-, hf'⟩
      · exact hf
      · exact .inl (.inl ⟨j, f', hf', rfl⟩)
    · exact .inl (.inr hx)
  constructor
  · intro h hh u hash v hmem
    rcases hrecorded h hh with hh | rfl
    · exact hs.version h hh u hash v hmem
    · cases hmem
  · intro h hh u v hset row hrow
    rcases hrecorded h hh with hh | rfl
    · obtain ⟨hforgotten, hrevoked⟩ := hs.out h hh u v hset row hrow
      refine ⟨⟨fun j f' hf' => ?_, hforgotten.2⟩, hrevoked⟩
      rcases Concurrent.set_cases hf' with ⟨rfl, rfl⟩ | ⟨-, hf'⟩
      · exact hcarries row hforgotten
      · exact hforgotten.1 j f' hf'
    · obtain ⟨hash, hsub⟩ := hset
      cases List.sublist_nil.mp hsub
  · exact hs.signed

theorem settled_step {a : Action} (hs : Settled g s)
    (hgood : Concurrent.AllGood SignsFor Revokes s) (hc : NothingPending g s a)
    (hst : Concurrent.Moves (service g) s a t) : Settled g t := by
  cases hst with
  | start hnone hf =>
    have hstarts := starts hf
    refine hs.set ?_ fun row hout => not_carries_of_starts hs hout hstarts
    rcases trail_of_starts hstarts with htrail | ⟨x, hx, htrail, -⟩
    · exact .inr htrail
    · exact .inl (.inr ⟨x, hx, htrail.symm⟩)
  | call hflow hr => exact settled_serve hs hgood hc hflow hr
  | fail hflow =>
    refine hs.set (.inl (.inl ⟨_, _, hflow, rfl⟩)) ?_
    intro row _ hcarries
    rcases hcarries with ⟨hnext, -⟩ | ⟨_, _, _, _, hnext, _⟩
    · exact hnext rfl
    · cases hnext
  | @pass d store hstore =>
    simp only [service, pass] at hstore
    split at hstore
    · next hle =>
      cases hstore
      refine ⟨hs.version, fun h hh u v hset row hrow => ?_, hs.signed⟩
      obtain ⟨hforgotten, hrevoked⟩ := hs.out h hh u v hset row hrow
      refine ⟨⟨hforgotten.1, fun x hx hchecked => ?_⟩, hrevoked⟩
      exact (hforgotten.2 x hx hchecked).trans hle
    · cases hstore

/-- Where nothing is pending when the sessions are revoked, a reset puts the old password out. -/
theorem reset_revokes (g : Gateway) (s t : System) (as : List Action)
    (hinit : (routes g NobodySignedIn).init s)
    (run : (routes g NobodySignedIn).Run (NothingPending g) s as t) :
    ∀ r ∈ (routes g NobodySignedIn).visited s as, OldPasswordsOut r := by
  obtain ⟨⟨-, hsigned⟩, hflows⟩ := hinit
  have hnone : ∀ h, ¬ Recorded s h := by
    rintro h (⟨i, f, hf, -⟩ | ⟨x, hx, -⟩)
    · rw [hflows i] at hf
      cases hf
    · rw [hsigned] at hx
      cases hx
  have hsettled : Settled g s := by
    refine ⟨fun h hh => absurd hh (hnone h), fun h hh => absurd hh (hnone h), fun x hx => ?_⟩
    rw [hsigned] at hx
    cases hx
  have hholds := holds_visited run hflows hsettled
    (fun s i request f hs _ hf => good_of_starts hs hf) fun s a t => settled_step
  rintro r hr i f u v hf ⟨hrest, hash, hmem⟩ row hrow
  obtain ⟨hr, hgood⟩ := hholds r hr
  have hrevokes : Revokes f.trail .success := by
    have hf' := hgood i f hf
    rw [Concurrent.Good, hrest] at hf'
    exact hf'
  exact (hr.out f.trail (.inl ⟨i, f, hf, rfl⟩) u v (hrevokes rfl u hash v hmem) row hrow).revoked

/-- A reset token for the one account. -/
def aliceWithToken : Store :=
  { storeOf aliceRow with
    authTokens := [⟨units "token", alice, .passwordReset, startOf2024 + 3600000, none⟩] }

def loginStarts : List Action :=
  [.start 0 (.login (some aliceEmail) (some alicePassword)), .call 0 [], .call 0 []]

def loginEnds : List Action := [.call 0 (units "session"), .call 0 []]

def Query.isVerifyPassword : Query → Bool
  | .verifyPassword .. => true
  | _ => false

/-- The flow is over, or no password is checked in it. -/
def quiet (f : Flow Query Query.Answer Reply) : Bool :=
  f.next.all fun c => !c.isVerifyPassword && f.trail.all fun e => !e.1.isVerifyPassword

theorem not_carries_of_quiet (hf : quiet f = true) : ¬ Carries g f row := by
  rintro (⟨hnext, email, password, hinfix⟩ | ⟨_, email, password, -, hnext, -⟩)
  · obtain ⟨c, hc⟩ := Option.ne_none_iff_exists'.mp hnext
    rw [quiet, hc, Option.all_some, Bool.and_eq_true, List.all_eq_true] at hf
    have hmem : (⟨.verifyPassword password row.passwordHash, true⟩ : Event) ∈ f.trail :=
      hinfix.subset (by simp)
    exact absurd (hf.2 _ hmem) Bool.noConfusion
  · rw [quiet, hnext] at hf
    cases hf

def Query.isRevokeAllSessions : Query → Bool
  | .revokeAllSessions _ => true
  | _ => false

/-- When sessions are revoked, nothing has been signed and the first flows are quiet. -/
def calm (n : ℕ) (s : System) : Action → Bool
  | .call i _ => (s.flows i).all fun f => f.next.all fun c => !c.isRevokeAllSessions ||
    (s.store.signed.isEmpty && (List.range n).all fun i => (s.flows i).all quiet)
  | _ => true

theorem nothingPending_of_calm {n : ℕ} {a : Action} (hs : ∀ i, n ≤ i → s.flows i = none)
    (hcalm : calm n s a = true) : NothingPending g s a := by
  cases a with
  | call i choice =>
    intro f u hash v hf hnext _ row _
    rw [calm, hf, Option.all_some, hnext] at hcalm
    simp only [Option.all_some, Query.isRevokeAllSessions, Bool.not_true, Bool.false_or,
      Bool.and_eq_true, List.isEmpty_iff, List.all_eq_true, List.mem_range] at hcalm
    constructor
    · intro j f' hf'
      have hj : j < n := by
        by_contra hle
        rw [hs j (Nat.le_of_not_lt hle)] at hf'
        cases hf'
      have hquiet := hcalm.2 j hj
      rw [hf'] at hquiet
      exact not_carries_of_quiet hquiet
    · rw [hcalm.1]
      exact fun _ hx => absurd hx List.not_mem_nil
  | _ => trivial

def loginThenReset : List Action := loginStarts ++ loginEnds ++ resetStarts 1 ++ resetEnds 1

/-- A login that is over before the reset leaves nothing pending. -/
theorem reset_revokes_login :
    (((routes deployment NobodySignedIn).exec (idle aliceWithToken) loginThenReset).any fun t =>
        t.store.sessions.any fun x => x.revokedAt.isSome) = true ∧
    ∀ r ∈ (routes deployment NobodySignedIn).visited (idle aliceWithToken) loginThenReset,
      OldPasswordsOut r := by
  -- One evaluation for both: the steps go through the states of the run.
  have hrun : (((routes deployment NobodySignedIn).exec (idle aliceWithToken) loginThenReset).any
        fun t => t.store.sessions.any fun x => x.revokedAt.isSome) = true ∧
      (((routes deployment NobodySignedIn).steps (idle aliceWithToken) loginThenReset).all
        fun x => calm 2 x.1 x.2.1) = true := by
    decide +kernel
  obtain ⟨hexec, hcalm⟩ := hrun
  refine ⟨hexec, ?_⟩
  obtain ⟨t, ht, -⟩ := (Option.any_eq_true _ _).mp hexec
  have htwo : (loginThenReset.all fun a => a.flow.all fun i => decide (i < 2)) = true := by decide
  have hbeyond := Concurrent.flows_beyond ht (fun _ _ => rfl) htwo
  refine reset_revokes deployment _ t _ ⟨⟨rfl, rfl⟩, fun _ => rfl⟩
    (Machine.run_of_exec_steps ht fun x hx => ?_)
  exact nothingPending_of_calm (hbeyond x hx) (List.all_eq_true.mp hcalm x hx)

/-- The login ends after the reset. -/
def resetBetween : List Action := loginStarts ++ resetStarts 1 ++ resetEnds 1 ++ loginEnds

/-- The trail starts with the check of a password of this version. -/
def startsWithCheck (u : Id) (v : ℕ) : Trail → Bool
  | ⟨.userByEmail _, some row⟩ :: ⟨.verifyPassword _ hash, true⟩ :: _ =>
    row.userId = u && row.passwordVersion = v && hash = row.passwordHash
  | _ => false

theorem exists_of_startsWithCheck (hstarts : startsWithCheck u v h = true) :
    ∃ row : User, row.userId = u ∧ row.passwordVersion = v ∧ Checked h row := by
  unfold startsWithCheck at hstarts
  split at hstarts
  · next email row password hash rest =>
    simp only [Bool.and_eq_true, decide_eq_true_eq] at hstarts
    obtain ⟨⟨huser, hversion⟩, rfl⟩ := hstarts
    exact ⟨row, huser, hversion, email, password, [], rest, rfl⟩
  · cases hstarts

def setsPassword (u : Id) (v : ℕ) : Event → Bool
  | ⟨.setPassword u' _, v'⟩ => u' = u && v' = v
  | _ => false

def resets (u : Id) (v : ℕ) (f : Flow Query Query.Answer Reply) : Bool :=
  match f.rest with
  | .done .success => f.trail.any (setsPassword u v)
  | _ => false

theorem resetCompleted_of_resets (hf : resets u v f = true) : ResetCompleted f u v := by
  unfold resets at hf
  split at hf
  · next hrest =>
    refine ⟨hrest, ?_⟩
    obtain ⟨⟨c, r⟩, hmem, hsets⟩ := List.any_eq_true.mp hf
    unfold setsPassword at hsets
    split at hsets
    · next u' hash v' heq =>
      rw [Bool.and_eq_true, decide_eq_true_eq, decide_eq_true_eq] at hsets
      obtain ⟨rfl, rfl⟩ := hsets
      exact ⟨hash, heq ▸ hmem⟩
    · cases hsets
  · cases hf

/-- A login that checked the old password before the reset is let in after it. -/
theorem login_outlives_reset : ¬ ∀ (g : Gateway) (s t : System) (as : List Action),
    (routes g NobodySignedIn).init s → (routes g NobodySignedIn).Run Machine.Any s as t →
      ∀ r ∈ (routes g NobodySignedIn).visited s as, OldPasswordsOut r := by
  intro hall
  have hexec : (((routes deployment NobodySignedIn).exec (idle aliceWithToken) resetBetween).any
      fun t => (t.flows 1).any (resets alice 1) && t.store.sessions.any fun x =>
        x.userId = alice && startsWithCheck alice 0 x.trail && x.revokedAt.isNone) = true := by
    decide +kernel
  obtain ⟨t, ht, hcheck⟩ := (Option.any_eq_true _ _).mp hexec
  have hrun := Machine.run_of_exec ht
  have hout := hall deployment _ t _ ⟨⟨rfl, rfl⟩, fun _ => rfl⟩ hrun t hrun.mem_visited
  rw [Bool.and_eq_true, Option.any_eq_true, List.any_eq_true] at hcheck
  obtain ⟨⟨f, hf, hresets⟩, x, hx, hsession⟩ := hcheck
  simp only [Bool.and_eq_true, decide_eq_true_eq, Option.isNone_iff_eq_none] at hsession
  obtain ⟨⟨huser, hstarts⟩, hrevoked⟩ := hsession
  obtain ⟨row, hrow, hversion, hchecked⟩ := exists_of_startsWithCheck hstarts
  have hbefore : row.Before alice 1 := ⟨hrow, by omega⟩
  exact hout 1 f alice 1 hf (resetCompleted_of_resets hresets) row hbefore x hx huser hchecked
    hrevoked

end AssureCode.Auth
