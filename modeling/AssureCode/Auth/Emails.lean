import AssureCode.Auth.Presented

/-! # Emails of accounts

A registration stores an email in canonical form, and a login looks it up so. A sign-in with GitHub
stores the email that GitHub has: whoever is in the table can be found exactly as long as each
account that is created so happens to have a canonical one.
-/

namespace AssureCode.Auth

open Js Program

variable {g : Gateway} {s t : System} {users : Users} {h : Trail} {now : Clock} {c : Query}

def Canonical (g : Gateway) (email : Text) : Prop := canonicalizeEmail g.tables email = email

instance (email : Text) : Decidable (Canonical g email) := inferInstanceAs (Decidable (_ = _))

/-- Accounts are found by every spelling of their emails, of which there is one account. -/
structure Findable (g : Gateway) (users : Users) : Prop where
  canonical : ∀ row ∈ users.rows, Canonical g row.email
  found : ∀ row ∈ users.rows, ∀ spelling,
    canonicalizeEmail g.tables spelling = canonicalizeEmail g.tables row.email →
      users.byEmail (canonicalizeEmail g.tables spelling) = some row
  one : users.rows.Pairwise fun u v =>
    canonicalizeEmail g.tables u.email ≠ canonicalizeEmail g.tables v.email

theorem Users.byEmail_of_mem {row : User} (hrow : row ∈ users.rows) :
    users.byEmail row.email = some row := by
  cases hfound : users.byEmail row.email with
  | none =>
    have hnone := List.find?_eq_none.mp hfound row hrow
    rw [decide_eq_true_eq] at hnone
    exact absurd rfl hnone
  | some row' =>
    obtain ⟨hmem, hemail⟩ := Users.mem_of_byEmail hfound
    by_contra hne
    exact (Users.ne_of_mem hmem hrow fun heq => hne (congrArg some heq)).2 hemail

/-- The rest follows from the emails being canonical. -/
theorem findable_iff : Findable g users ↔ ∀ row ∈ users.rows, Canonical g row.email := by
  constructor
  · exact Findable.canonical
  · intro hcanonical
    refine ⟨hcanonical, fun row hrow spelling hspelling => ?_, ?_⟩
    · rw [hspelling, hcanonical row hrow]
      exact Users.byEmail_of_mem hrow
    · refine users.distinct.imp_of_mem fun hu hv hne => ?_
      rw [hcanonical _ hu, hcanonical _ hv]
      exact hne.2

/-- An account that a sign-in with GitHub creates has a canonical email. -/
def CanonicalSignIn (g : Gateway) (s : System) : Action → Prop
  | .call i _ => ∀ f newId identity, s.flows i = some f → f.next = some (.signIn newId identity) →
    s.store.KnowsNot identity → Canonical g identity.email
  | _ => True

/-- A registration inserts a canonical email. -/
def Registers (g : Gateway) (_ : Trail) : Query → Prop
  | .insertUser _ email _ _ _ => Canonical g email
  | _ => True

theorem meets_register_email {email password role : Option Text} :
    (register g email password role).Meets (Registers g) (fun _ _ => True) (fun _ => True) h := by
  unfold register
  split
  · trivial
  · trivial
  · split
    · trivial
    · refine ⟨trivial, fun existing => ?_⟩
      cases existing with
      | some _ => trivial
      | none =>
        refine ⟨trivial, fun userId => ⟨trivial, fun passwordHash => ?_⟩⟩
        refine ⟨canonicalizeEmail_canonicalizeEmail _, fun row => ⟨trivial, fun rawToken => ?_⟩⟩
        exact ⟨trivial, fun _ => ⟨trivial, fun _ => ⟨trivial, fun _ => trivial⟩⟩⟩

theorem registers_of_starts {request : Request} {f : Flow Query Query.Answer Reply}
    (hf : Starts g s.store request f) : Concurrent.Good (Registers g) (fun _ _ => True) f := by
  rw [Concurrent.Good, hf.rest]
  cases request with
  | register => exact meets_register_email
  | _ =>
    apply (follows_handler.mono (fun _ _ _ => trivial) fun _ => id).mono_calls
    intro _ c hc
    cases c with
    | insertUser => exact hc.elim
    | _ => trivial

/-- The emails after a call that is served. -/
theorem canonical_serve {trail : Trail} {r : c.Answer} {choice : Text} {store : Store}
    (hs : ∀ row ∈ s.store.users.rows, Canonical g row.email) (hregisters : Registers g trail c)
    (hr : serve g s.store trail c choice = some (r, store)) :
    (∀ row ∈ store.users.rows, Canonical g row.email) ↔ ∀ newId identity,
      c = .signIn newId identity → s.store.KnowsNot identity → Canonical g identity.email := by
  constructor
  · rintro hstore newId identity rfl hnot
    rcases signIn_creates hnot hr with ⟨row, hrow, hemail⟩
    exact hemail ▸ hstore row hrow
  · intro hsignIn row hrow
    rcases (served hr).users.origin row hrow with ⟨u, hu, hlater⟩ | ⟨⟨-, hcreated⟩, -⟩
    · rw [hlater.email]
      exact hs u hu
    · cases c with
      | insertUser userId email passwordHash role displayName =>
        have hemail : row.email = email := hcreated
        rw [hemail]
        exact hregisters
      | signIn newId identity =>
        obtain ⟨hemail, hnot⟩ : row.email = identity.email ∧ s.store.KnowsNot identity := hcreated
        rw [hemail]
        exact hsignIn newId identity rfl hnot
      | _ => exact hcreated.elim

theorem canonical_step {a : Action} (hgood : Concurrent.AllGood (Registers g) (fun _ _ => True) s)
    (hs : Findable g s.store.users) (hst : Concurrent.Moves (service g) s a t) :
    CanonicalSignIn g s a ↔ Findable g t.store.users := by
  rw [findable_iff] at hs ⊢
  cases hst with
  | start hnone hf => exact iff_of_true trivial hs
  | @call i choice trail c next r store hflow hr =>
    rw [Concurrent.set_store, canonical_serve hs (hgood.admitted hflow) hr]
    constructor
    · rintro hc newId identity rfl
      exact hc _ newId identity hflow rfl
    · intro hc f newId identity hf hnext
      rw [hflow] at hf
      cases hf
      exact hc newId identity (Option.some.inj hnext)
  | fail hflow => exact iff_of_true trivial hs
  | @pass d store hstore =>
    simp only [service, pass] at hstore
    split at hstore
    · cases hstore
      exact iff_of_true trivial hs
    · cases hstore

def CanonicalEmails (g : Gateway) (store : Store) : Prop := Findable g store.users

/-- Everybody can be found exactly as long as GitHub has canonical emails for those it brings. -/
theorem emails_findable_iff (g : Gateway) (s t : System) (as : List Action)
    (hinit : (routes g (CanonicalEmails g)).init s)
    (run : (routes g (CanonicalEmails g)).Run Machine.Any s as t) :
    (∀ r ∈ (routes g (CanonicalEmails g)).visited s as, Findable g r.store.users) ↔
      (routes g (CanonicalEmails g)).Run (CanonicalSignIn g) s as t := by
  obtain ⟨hfindable, hflows⟩ := hinit
  have hgood : Concurrent.AllGood (Registers g) (fun _ _ => True) s := by
    intro i f hf
    rw [hflows i] at hf
    cases hf
  refine run.forall_visited_iff (fun s a t hgood hst => ?_) (fun s a t hgood hs hst => ?_) hgood
    hfindable
  · exact Concurrent.allGood_step hgood (fun _ _ _ _ hf => registers_of_starts (starts hf)) hst
  · exact canonical_step hgood hs (Concurrent.moves_of_step hst)

theorem canonicalEmails_alice : CanonicalEmails deployment (storeOf aliceRow) := by
  rw [CanonicalEmails, findable_iff]
  intro row hrow
  rw [List.mem_singleton.mp hrow]
  decide +kernel

theorem emails_findable_bob : ∃ t, (routes deployment (CanonicalEmails deployment)).exec
      (idle (storeOf aliceRow)) (githubSignsIn (units "bob") (units "bob@example.com")) = some t ∧
    ((∀ r ∈ (routes deployment (CanonicalEmails deployment)).visited (idle (storeOf aliceRow))
        (githubSignsIn (units "bob") (units "bob@example.com")),
          Findable deployment r.store.users) ↔
      (routes deployment (CanonicalEmails deployment)).Run (CanonicalSignIn deployment)
        (idle (storeOf aliceRow)) (githubSignsIn (units "bob") (units "bob@example.com")) t) := by
  have hexec : ((routes deployment (CanonicalEmails deployment)).exec (idle (storeOf aliceRow))
      (githubSignsIn (units "bob") (units "bob@example.com"))).isSome = true := by decide +kernel
  obtain ⟨t, ht⟩ := Option.isSome_iff_exists.mp hexec
  exact ⟨t, ht, emails_findable_iff deployment _ t _ ⟨canonicalEmails_alice, fun _ => rfl⟩
    (Machine.run_of_exec ht)⟩

/-- An email with a capital letter is stored as it comes from GitHub. -/
theorem github_email_raw : ¬ ∀ (g : Gateway) (s t : System) (as : List Action),
    (routes g (CanonicalEmails g)).init s → (routes g (CanonicalEmails g)).Run Machine.Any s as t →
      ∀ r ∈ (routes g (CanonicalEmails g)).visited s as, Findable g r.store.users := by
  intro hall
  have hexec : (((routes deployment (CanonicalEmails deployment)).exec (idle (storeOf aliceRow))
      (githubSignsIn (units "bob") (units "Bob@Example.com"))).any fun t =>
        t.store.users.rows.any fun row => !decide (Canonical deployment row.email)) = true := by
    decide +kernel
  obtain ⟨t, ht, hcheck⟩ := (Option.any_eq_true _ _).mp hexec
  have hrun := Machine.run_of_exec ht
  have hfindable := hall deployment _ t _ ⟨canonicalEmails_alice, fun _ => rfl⟩ hrun t
    hrun.mem_visited
  obtain ⟨row, hrow, hnot⟩ := List.any_eq_true.mp hcheck
  rw [Bool.not_eq_true', decide_eq_false_iff_not] at hnot
  exact hnot (hfindable.canonical row hrow)

end AssureCode.Auth
