import AssureCode.Auth.Presented

/-! # Tokens from an email

A token is looked up and marked as used by statements of their own, and so are the old tokens of a
reset deleted and the new one inserted. Between the two another request may come; where none does,
a token works once and there is one at a time.
-/

namespace AssureCode.Auth

open Js Program

variable {g : Gateway} {s t : System} {h : Trail} {now : Clock} {u : Id} {tokenHash : Text}
  {f f' : Flow Query Query.Answer Reply}

/-- The flow has answered that it did what the token is for. -/
def Redeemed (f : Flow Query Query.Answer Reply) (tokenHash : Text) : Prop :=
  f.rest = .done .success ∧ (⟨.useToken tokenHash, ()⟩ : Event) ∈ f.trail

def AuthToken.UnusedReset (u : Id) (row : AuthToken) : Prop :=
  row.userId = u ∧ row.type = .passwordReset ∧ row.usedAt = none

instance : DecidablePred (AuthToken.UnusedReset u) := fun _ => inferInstanceAs (Decidable (_ ∧ _))

/-- A token works once, and a user has one token for a reset at a time. -/
structure SingleUse (s : System) : Prop where
  once : ∀ i j f f' tokenHash, s.flows i = some f → s.flows j = some f' →
    Redeemed f tokenHash → Redeemed f' tokenHash → i = j
  one : ∀ u, s.store.authTokens.countP
    (fun row => decide (row.UnusedReset u ∧ s.store.now.1 < row.expiresAt)) ≤ 1

/-- The token was live when it was looked up. -/
def Holds (h : Trail) (tokenHash : Text) : Prop :=
  ∃ type u, (⟨.liveToken tokenHash type, some u⟩ : Event) ∈ h

/-- The old tokens are deleted, and the new one is not inserted yet. -/
def Between (f : Flow Query Query.Answer Reply) (u : Id) : Prop :=
  f.next ≠ none ∧ ∃ before, f.trail = before ++ [⟨.deleteUnusedResets u, ()⟩] ∨
    ∃ raw, f.trail = before ++ [⟨.deleteUnusedResets u, ()⟩] ++ [⟨.newRawToken, raw⟩]

/--
A live token is looked up when no other flow is about to use it, and the old tokens of a user are
deleted when no flow is about to insert one.
-/
def NoRace (s : System) : Action → Prop
  | .call i _ => ∀ j f f', j ≠ i → s.flows i = some f → s.flows j = some f' →
    (∀ tokenHash type, f.next = some (.liveToken tokenHash type) →
      s.store.liveToken tokenHash type ≠ none → f'.next ≠ none → ¬ Holds f'.trail tokenHash) ∧
    ∀ u, f.next = some (.deleteUnusedResets u) → ¬ Between f' u
  | _ => True

/-! ## Calls -/

/-- The calls that come of a token from an email, or of one that is wanted. -/
def Query.AboutTokens : Query → Prop
  | .liveToken .. | .deleteUnusedResets _ | .useToken _ => True
  | _ => False

def Clean (h : Trail) : Prop := ∀ e ∈ h, ¬ e.1.AboutTokens

/-- A token that is used was looked up, and the one that is inserted replaces those deleted. -/
def Ordered (h : Trail) : Query → Prop
  | .sign _ => Clean h
  | .useToken tokenHash => Holds h tokenHash
  | .insertToken _ u .passwordReset =>
    ∃ before raw, h = before ++ [⟨.deleteUnusedResets u, ()⟩] ++ [⟨.newRawToken, raw⟩]
  | _ => True

/-- In the end a token that was looked up is used. -/
def Uses (h : Trail) (_ : Reply) : Prop :=
  ∀ tokenHash, Holds h tokenHash → (⟨.useToken tokenHash, ()⟩ : Event) ∈ h

theorem not_holds_of_clean (hclean : Clean h) : ¬ Holds h tokenHash := by
  rintro ⟨type, u, hmem⟩
  exact hclean _ hmem trivial

/-- A flow that has found no token has none to use. -/
theorem uses_of_not_found (hnot : ∀ tokenHash type u,
    (⟨.liveToken tokenHash type, some u⟩ : Event) ∉ h) (reply : Reply) : Uses h reply := by
  rintro tokenHash ⟨type, u, hmem⟩
  exact absurd hmem (hnot tokenHash type u)

theorem meets_of_clean {request : Request} (hclean : Clean h)
    (habout : ∀ c, request.Makes c → ¬ c.AboutTokens)
    (hinsert : ∀ tokenHash u, ¬ request.Makes (.insertToken tokenHash u .passwordReset)) :
    (handler g now request).Meets Ordered Uses (fun _ => True) h := by
  have hfollows : Follows request h (handler g now request) := follows_handler
  have hall := hfollows.along (fun _ c hc => habout c hc) hclean
  refine (hall.mono (fun _ _ hend tokenHash hholds => ?_) fun _ => id).mono_calls ?_
  · exact absurd hholds (not_holds_of_clean hend.2)
  · rintro h c ⟨hc, hclean⟩
    unfold Ordered
    split
    · exact hclean
    · exact absurd trivial (habout _ hc)
    · exact absurd hc (hinsert _ _)
    · trivial

theorem meets_forgotPassword {email : Option Text} :
    (forgotPassword g email).Meets Ordered Uses (fun _ => True) [] := by
  unfold forgotPassword
  split
  · exact uses_of_not_found (by simp) _
  · refine ⟨trivial, fun found => ?_⟩
    cases found with
    | none => exact uses_of_not_found (by simp) _
    | some userId =>
      refine ⟨trivial, fun _ => ⟨trivial, fun rawToken => ⟨⟨_, rawToken, rfl⟩, fun _ => ?_⟩⟩⟩
      exact uses_of_not_found (by simp) _

theorem meets_reset {token newPassword confirmPassword : Option Text} :
    (resetPassword g token newPassword confirmPassword).Meets Ordered Uses (fun _ => True) [] := by
  have hnil : ∀ reply, Uses [] reply := uses_of_not_found (by simp)
  unfold resetPassword
  split
  · split
    · exact hnil _
    · split
      · exact hnil _
      · refine ⟨trivial, fun found => ?_⟩
        cases found with
        | none => exact uses_of_not_found (by simp) _
        | some userId =>
          refine ⟨trivial, fun newHash => ⟨trivial, fun _ => ?_⟩⟩
          refine ⟨⟨.passwordReset, userId, by simp⟩, fun _ => ⟨trivial, fun _ => ?_⟩⟩
          rintro tokenHash ⟨type, u, hmem⟩
          obtain ⟨⟨rfl, -⟩, -⟩ : (tokenHash = _ ∧ type = .passwordReset) ∧ u = userId := by
            simpa using hmem
          simp
  · exact hnil _

theorem meets_verify {token : Option Text} :
    (verifyEmail g token).Meets Ordered Uses (fun _ => True) [] := by
  unfold verifyEmail
  split
  · exact uses_of_not_found (by simp) _
  · refine ⟨trivial, fun found => ?_⟩
    cases found with
    | none => exact uses_of_not_found (by simp) _
    | some userId =>
      refine ⟨trivial, fun _ => ⟨⟨.emailVerification, userId, by simp⟩, fun _ => ?_⟩⟩
      rintro tokenHash ⟨type, u, hmem⟩
      obtain ⟨⟨rfl, -⟩, -⟩ : (tokenHash = _ ∧ type = .emailVerification) ∧ u = userId := by
        simpa using hmem
      simp

theorem clean_of_starts {request : Request} (hclean : ∀ x ∈ s.store.signed, Clean x.trail)
    (hf : Starts g s.store request f) : Clean f.trail := by
  rcases trail_of_starts hf with htrail | ⟨x, hx, htrail, -⟩
  · rw [htrail]
    exact fun _ he => absurd he List.not_mem_nil
  · rw [htrail]
    exact hclean x hx

theorem ordered_of_starts {request : Request} (hclean : ∀ x ∈ s.store.signed, Clean x.trail)
    (hf : Starts g s.store request f) : Concurrent.Good Ordered Uses f := by
  have htrail := clean_of_starts hclean hf
  rw [Concurrent.Good, hf.rest]
  cases request with
  | forgotPassword =>
    rw [hf.trail rfl]
    exact meets_forgotPassword
  | resetPassword =>
    rw [hf.trail rfl]
    exact meets_reset
  | verifyEmail =>
    rw [hf.trail rfl]
    exact meets_verify
  | _ =>
    refine meets_of_clean htrail (fun c hc habout => ?_) fun tokenHash u hc => ?_
    · cases c with
      | liveToken | deleteUnusedResets | useToken => exact hc
      | _ => exact habout
    · first
      | exact hc
      | cases hc

/-! ## Tables -/

variable {trail : Trail} {c : Query} {next : c.Answer → Code Reply} {r : c.Answer} {store : Store}
  {choice : Text} {i : ℕ}

/-- A token after a call was there before, perhaps unused then, or is inserted by the call. -/
theorem row_after {row' : AuthToken} (hrow' : row' ∈ authTokensAfter s.store c) :
    (∃ row ∈ s.store.authTokens, row'.tokenHash = row.tokenHash ∧ row'.userId = row.userId ∧
      row'.type = row.type ∧ (row.usedAt ≠ none → row'.usedAt ≠ none)) ∨
    c = .insertToken row'.tokenHash row'.userId row'.type := by
  cases c with
  | deleteUnusedResets u =>
    exact .inl ⟨row', List.mem_of_mem_filter hrow', rfl, rfl, rfl, id⟩
  | insertToken tokenHash u type =>
    rcases List.mem_cons.mp hrow' with rfl | hrow'
    · exact .inr rfl
    · exact .inl ⟨row', hrow', rfl, rfl, rfl, id⟩
  | useToken tokenHash =>
    obtain ⟨row, hrow, rfl⟩ := List.mem_map.mp hrow'
    refine .inl ⟨row, hrow, ?_⟩
    split
    · exact ⟨rfl, rfl, rfl, fun _ => Option.some_ne_none _⟩
    · exact ⟨rfl, rfl, rfl, id⟩
  | _ => exact .inl ⟨row', hrow', rfl, rfl, rfl, id⟩

theorem issued_after {tokenHash : Text} (hissued : tokenHash ∈ s.store.issued) (c : Query) :
    tokenHash ∈ issuedAfter s.store c := by
  cases c with
  | insertToken => exact List.mem_cons_of_mem _ hissued
  | _ => exact hissued

/-- Only an insertion makes the unused tokens of a user more. -/
theorem countP_after (hinsert : ∀ tokenHash, c ≠ .insertToken tokenHash u .passwordReset) :
    (authTokensAfter s.store c).countP (fun row => decide (row.UnusedReset u)) ≤
      s.store.authTokens.countP fun row => decide (row.UnusedReset u) := by
  cases c with
  | deleteUnusedResets u' => exact List.filter_sublist.countP_le
  | insertToken tokenHash u' type =>
    apply le_of_eq
    apply List.countP_cons_of_neg
    rw [decide_eq_true_eq]
    rintro ⟨rfl, rfl, -⟩
    exact hinsert tokenHash rfl
  | useToken tokenHash =>
    show List.countP _ (List.map _ _) ≤ _
    rw [List.countP_map]
    apply List.countP_mono_left
    intro row _ hunused
    rw [Function.comp_apply, decide_eq_true_eq] at hunused
    split at hunused
    · cases hunused.2.2
    · exact decide_eq_true hunused
  | _ => exact le_rfl

theorem holds_concat (hholds : Holds (trail ++ [⟨c, r⟩]) tokenHash) :
    Holds trail tokenHash ∨ ∃ type u, (⟨c, r⟩ : Event) = ⟨.liveToken tokenHash type, some u⟩ := by
  obtain ⟨type, u, hmem⟩ := hholds
  rcases List.mem_append.mp hmem with hmem | hmem
  · exact .inl ⟨type, u, hmem⟩
  · exact .inr ⟨type, u, (List.mem_singleton.mp hmem).symm⟩

theorem between_concat (hbetween : Between ⟨trail ++ [⟨c, r⟩], next r⟩ u) :
    (⟨c, r⟩ : Event) = ⟨.deleteUnusedResets u, ()⟩ ∨
      (Between ⟨trail, .call c next⟩ u ∧ c = .newRawToken) := by
  obtain ⟨-, before, htrail | ⟨raw, htrail⟩⟩ := hbetween
  · obtain ⟨-, he⟩ := List.append_inj' htrail rfl
    exact .inl (List.singleton_inj.mp he)
  · obtain ⟨hbefore, he⟩ := List.append_inj' htrail rfl
    cases List.singleton_inj.mp he
    exact .inr ⟨⟨Option.some_ne_none _, before, .inl hbefore⟩, rfl⟩

/-! ## Runs -/

structure Exclusive (s : System) : Prop where
  clean : ∀ x ∈ s.store.signed, Clean x.trail
  known : ∀ row ∈ s.store.authTokens, row.tokenHash ∈ s.store.issued
  held : ∀ i f tokenHash, s.flows i = some f → Holds f.trail tokenHash →
    tokenHash ∈ s.store.issued
  lookedUp : ∀ i f tokenHash, s.flows i = some f →
    (⟨.useToken tokenHash, ()⟩ : Event) ∈ f.trail → Holds f.trail tokenHash
  used : ∀ i f tokenHash, s.flows i = some f → (⟨.useToken tokenHash, ()⟩ : Event) ∈ f.trail →
    ∀ row ∈ s.store.authTokens, row.tokenHash = tokenHash → row.usedAt ≠ none
  /-- Of two flows that found a token live, one has raised. -/
  alone : ∀ i j f f' tokenHash, i ≠ j → s.flows i = some f → s.flows j = some f' →
    Holds f.trail tokenHash → Holds f'.trail tokenHash → f.rest = .raised ∨ f'.rest = .raised
  apart : ∀ i j f f' u, s.flows i = some f → s.flows j = some f' → Between f u → Between f' u →
    i = j
  deleted : ∀ i f u, s.flows i = some f → Between f u →
    s.store.authTokens.countP (fun row => decide (row.UnusedReset u)) = 0
  one : ∀ u, s.store.authTokens.countP (fun row => decide (row.UnusedReset u)) ≤ 1

/-- Where the tokens are in order, each works once. -/
theorem singleUse_of_exclusive (hs : Exclusive s) : SingleUse s := by
  constructor
  · rintro i j f f' tokenHash hf hf' ⟨hrest, huse⟩ ⟨hrest', huse'⟩
    by_contra hne
    rcases hs.alone i j f f' tokenHash hne hf hf' (hs.lookedUp i f tokenHash hf huse)
      (hs.lookedUp j f' tokenHash hf' huse') with hraised | hraised
    · rw [hrest] at hraised
      cases hraised
    · rw [hrest'] at hraised
      cases hraised
  · intro u
    refine le_trans (List.countP_mono_left fun row _ hrow => ?_) (hs.one u)
    rw [decide_eq_true_eq] at hrow ⊢
    exact hrow.1

/-- A live token is not one that a flow has used. -/
theorem not_live_of_used (hs : Exclusive s) {type : TokenType} (hf : s.flows i = some f)
    (huse : (⟨.useToken tokenHash, ()⟩ : Event) ∈ f.trail) :
    s.store.liveToken tokenHash type = none := by
  rw [Store.liveToken, Option.map_eq_none_iff, List.find?_eq_none]
  intro row hrow hlive
  rw [decide_eq_true_eq] at hlive
  obtain ⟨hhash, -, hunused, -⟩ := hlive
  exact hs.used i f tokenHash hf huse row hrow hhash hunused

theorem usedAt_after (hs : Exclusive s) {j : ℕ} (hf : s.flows j = some f)
    (huse : (⟨.useToken tokenHash, ()⟩ : Event) ∈ f.trail)
    (hr : serve g s.store trail c choice = some (r, store)) :
    ∀ row ∈ store.authTokens, row.tokenHash = tokenHash → row.usedAt ≠ none := by
  intro row hrow hhash
  rw [(served hr).authTokens] at hrow
  rcases row_after hrow with ⟨row', hrow', hsame, -, -, hused⟩ | rfl
  · exact hused (hs.used j f tokenHash hf huse row' hrow' (hsame ▸ hhash))
  · have hissued := hs.held j f tokenHash hf (hs.lookedUp j f tokenHash hf huse)
    exact absurd (hhash ▸ hissued) (fresh_of_insertToken hr)

/-- A token that is looked up now is held by no other flow. -/
theorem alone_of_liveToken (hs : Exclusive s) (hgood : Concurrent.AllGood Ordered Uses s)
    {type : TokenType} {next : Option Id → Code Reply}
    (hc : NoRace s (.call i choice))
    (hflow : s.flows i = some ⟨trail, .call (.liveToken tokenHash type) next⟩)
    (hlive : s.store.liveToken tokenHash type = some u) {j : ℕ} (hne : j ≠ i)
    (hf : s.flows j = some f) (hholds : Holds f.trail tokenHash) : f.rest = .raised := by
  have hsome : s.store.liveToken tokenHash type ≠ none := by
    rw [hlive]
    exact Option.some_ne_none u
  have hidle := (hc j _ f hne hflow hf).1 tokenHash type rfl hsome
  cases hrest : f.rest with
  | raised => rfl
  | call c next =>
    refine absurd hholds (hidle ?_)
    rw [Flow.next, hrest]
    exact Option.some_ne_none c
  | done reply =>
    have huses : Uses f.trail reply := by
      have hf' := hgood j f hf
      rw [Concurrent.Good, hrest] at hf'
      exact hf'
    exact absurd (not_live_of_used hs hf (huses tokenHash hholds)) hsome

/-- What a flow holds after a call, another flow does not hold unless it has raised. -/
theorem alone_of_call (hs : Exclusive s) (hgood : Concurrent.AllGood Ordered Uses s)
    (hc : NoRace s (.call i choice)) (hflow : s.flows i = some ⟨trail, .call c next⟩)
    (hr : serve g s.store trail c choice = some (r, store)) {j : ℕ} (hne : j ≠ i)
    (hf : s.flows j = some f) (hholds : Holds f.trail tokenHash)
    (hafter : Holds (trail ++ [⟨c, r⟩]) tokenHash) : f.rest = .raised := by
  rcases holds_concat hafter with hbefore | ⟨type, u, he⟩
  · rcases hs.alone j i f _ tokenHash hne hf hflow hholds hbefore with hraised | hraised
    · exact hraised
    · cases hraised
  · cases he
    have hlive : s.store.liveToken tokenHash type = some u :=
      congrArg Prod.fst (Option.some.inj hr)
    exact alone_of_liveToken hs hgood hc hflow hlive hne hf hholds

theorem not_between_of_call (hs : Exclusive s) (hc : NoRace s (.call i choice))
    (hflow : s.flows i = some ⟨trail, .call c next⟩) {j : ℕ} (hne : j ≠ i)
    (hf : s.flows j = some f) (hafter : Between ⟨trail ++ [⟨c, r⟩], next r⟩ u) :
    ¬ Between f u := by
  intro hbetween
  rcases between_concat hafter with he | ⟨hbefore, -⟩
  · cases he
    exact (hc j _ f hne hflow hf).2 u rfl hbetween
  · exact hne (hs.apart j i f _ u hf hflow hbetween hbefore)

theorem between_of_ordered {next : Unit → Code Reply}
    (h : Ordered trail (.insertToken tokenHash u .passwordReset)) :
    Between ⟨trail, .call (.insertToken tokenHash u .passwordReset) next⟩ u := by
  obtain ⟨before, raw, htrail⟩ := h
  exact ⟨Option.some_ne_none _, before, .inr ⟨raw, htrail⟩⟩

theorem held_of_call (hs : Exclusive s) (hflow : s.flows i = some ⟨trail, .call c next⟩)
    (hr : serve g s.store trail c choice = some (r, store))
    (hholds : Holds (trail ++ [⟨c, r⟩]) tokenHash) : tokenHash ∈ s.store.issued := by
  rcases holds_concat hholds with hholds | ⟨type, u, he⟩
  · exact hs.held i _ tokenHash hflow hholds
  · cases he
    have hlive : s.store.liveToken tokenHash type = some u :=
      congrArg Prod.fst (Option.some.inj hr)
    obtain ⟨row, hrow, -⟩ := Option.map_eq_some_iff.mp hlive
    have hfound := List.find?_some hrow
    rw [decide_eq_true_eq] at hfound
    exact hfound.1 ▸ hs.known row (List.mem_of_find?_eq_some hrow)

/-- A token is marked by the call that uses it, and no later call takes the mark away. -/
theorem used_of_call (hs : Exclusive s) (hflow : s.flows i = some ⟨trail, .call c next⟩)
    (hr : serve g s.store trail c choice = some (r, store))
    (huse : (⟨.useToken tokenHash, ()⟩ : Event) ∈ trail ++ [⟨c, r⟩]) :
    ∀ row ∈ store.authTokens, row.tokenHash = tokenHash → row.usedAt ≠ none := by
  rcases List.mem_append.mp huse with huse | huse
  · exact usedAt_after hs hflow huse hr
  · cases List.mem_singleton.mp huse
    intro row hrow hhash
    rw [(served hr).authTokens] at hrow
    obtain ⟨row, hrow, rfl⟩ := List.mem_map.mp hrow
    split
    · exact Option.some_ne_none _
    · next hnot =>
      rw [if_neg hnot] at hhash
      exact absurd hhash hnot

/-- A token of a reset is inserted only where its user has no unused one. -/
theorem one_of_call (hs : Exclusive s) (hflow : s.flows i = some ⟨trail, .call c next⟩)
    (hordered : Ordered trail c) (u : Id) :
    (authTokensAfter s.store c).countP (fun row => decide (row.UnusedReset u)) ≤ 1 := by
  by_cases hinsert : ∃ tokenHash, c = .insertToken tokenHash u .passwordReset
  · obtain ⟨tokenHash, rfl⟩ := hinsert
    have hzero := hs.deleted i _ u hflow (between_of_ordered hordered)
    have hcons := List.countP_cons (p := fun row : AuthToken => decide (row.UnusedReset u))
      (a := ⟨tokenHash, u, .passwordReset,
        s.store.now + TokenType.passwordReset.lifetimeMs, none⟩) (l := s.store.authTokens)
    rw [hzero] at hcons
    apply hcons.le.trans
    split <;> omega
  · exact (countP_after fun tokenHash heq => hinsert ⟨tokenHash, heq⟩).trans (hs.one u)

theorem exclusive_call (hs : Exclusive s) (hgood : Concurrent.AllGood Ordered Uses s)
    (hc : NoRace s (.call i choice)) (hflow : s.flows i = some ⟨trail, .call c next⟩)
    (hr : serve g s.store trail c choice = some (r, store)) :
    Exclusive (Concurrent.State.set { s with store } i ⟨trail ++ [⟨c, r⟩], next r⟩) := by
  have hserved := served hr
  have hordered : Ordered trail c := hgood.admitted hflow
  constructor
  case clean =>
    intro x hx
    rcases hserved.signed x hx with hx | ⟨rfl, -, hx⟩
    · exact hs.clean x hx
    · rw [hx]
      exact hordered
  case known =>
    intro row hrow
    change row ∈ store.authTokens at hrow
    show row.tokenHash ∈ store.issued
    rw [hserved.authTokens] at hrow
    rw [hserved.issued]
    rcases row_after hrow with ⟨row', hrow', hsame, -⟩ | rfl
    · exact hsame ▸ issued_after (hs.known row' hrow') c
    · exact List.mem_cons_self
  case held =>
    intro j f tokenHash hf hholds
    show tokenHash ∈ store.issued
    rw [hserved.issued]
    apply issued_after
    rcases Concurrent.set_cases hf with ⟨rfl, rfl⟩ | ⟨-, hf⟩
    · exact held_of_call hs hflow hr hholds
    · exact hs.held j f tokenHash hf hholds
  case lookedUp =>
    intro j f tokenHash hf huse
    rcases Concurrent.set_cases hf with ⟨rfl, rfl⟩ | ⟨-, hf⟩
    · have hheld : Holds trail tokenHash := by
        rcases List.mem_append.mp huse with huse | huse
        · exact hs.lookedUp j _ tokenHash hflow huse
        · cases List.mem_singleton.mp huse
          exact hordered
      obtain ⟨type, u, hmem⟩ := hheld
      exact ⟨type, u, List.mem_append_left _ hmem⟩
    · exact hs.lookedUp j f tokenHash hf huse
  case used =>
    intro j f tokenHash hf huse
    rcases Concurrent.set_cases hf with ⟨rfl, rfl⟩ | ⟨-, hf⟩
    · exact used_of_call hs hflow hr huse
    · exact usedAt_after hs hf huse hr
  case alone =>
    intro j k f f' tokenHash hne hj hk hholds hholds'
    rcases Concurrent.set_cases hj with ⟨rfl, rfl⟩ | ⟨hji, hf⟩
    · rcases Concurrent.set_cases hk with ⟨rfl, -⟩ | ⟨hki, hf'⟩
      · exact absurd rfl hne
      · exact .inr (alone_of_call hs hgood hc hflow hr hki hf' hholds' hholds)
    · rcases Concurrent.set_cases hk with ⟨rfl, rfl⟩ | ⟨-, hf'⟩
      · exact .inl (alone_of_call hs hgood hc hflow hr hji hf hholds hholds')
      · exact hs.alone j k f f' tokenHash hne hf hf' hholds hholds'
  case apart =>
    intro j k f f' u hj hk hbetween hbetween'
    rcases Concurrent.set_cases hj with ⟨rfl, rfl⟩ | ⟨hji, hf⟩
    · rcases Concurrent.set_cases hk with ⟨rfl, -⟩ | ⟨hki, hf'⟩
      · rfl
      · exact absurd hbetween' (not_between_of_call hs hc hflow hki hf' hbetween)
    · rcases Concurrent.set_cases hk with ⟨rfl, rfl⟩ | ⟨-, hf'⟩
      · exact absurd hbetween (not_between_of_call hs hc hflow hji hf hbetween')
      · exact hs.apart j k f f' u hf hf' hbetween hbetween'
  case deleted =>
    intro j f u hj hbetween
    show store.authTokens.countP _ = 0
    rw [hserved.authTokens]
    rcases Concurrent.set_cases hj with ⟨rfl, rfl⟩ | ⟨hji, hf⟩
    · rcases between_concat hbetween with he | ⟨hbefore, rfl⟩
      · cases he
        rw [List.countP_eq_zero]
        intro row hrow hunused
        have hkept := of_decide_eq_true (List.mem_filter.mp hrow).2
        exact hkept (of_decide_eq_true hunused)
      · exact hs.deleted j _ u hflow hbefore
    · have hzero := hs.deleted j f u hf hbetween
      refine Nat.le_zero.mp (hzero ▸ countP_after fun tokenHash heq => ?_)
      subst heq
      exact hji (hs.apart j i f _ u hf hflow hbetween (between_of_ordered hordered))
  case one =>
    intro u
    show store.authTokens.countP _ ≤ 1
    rw [hserved.authTokens]
    exact one_of_call hs hflow hordered u

/-- A flow that starts or raises. -/
theorem Exclusive.set (hs : Exclusive s) (hbetween : ∀ u, ¬ Between f u)
    (hholds : ∀ tokenHash, Holds f.trail tokenHash → f.rest = .raised)
    (hbefore : Clean f.trail ∨ ∃ f', s.flows i = some f' ∧ f'.trail = f.trail) :
    Exclusive (s.set i f) := by
  have hold : ∀ tokenHash, Holds f.trail tokenHash ∨
      (⟨.useToken tokenHash, ()⟩ : Event) ∈ f.trail →
        ∃ f', s.flows i = some f' ∧ f'.trail = f.trail := by
    rintro tokenHash htoken
    rcases hbefore with hclean | hbefore
    · rcases htoken with hholds | huse
      · exact absurd hholds (not_holds_of_clean hclean)
      · exact absurd trivial (hclean _ huse)
    · exact hbefore
  constructor
  case clean => exact hs.clean
  case known => exact hs.known
  case one => exact hs.one
  case held =>
    intro j f' tokenHash hj htoken
    rcases Concurrent.set_cases hj with ⟨rfl, rfl⟩ | ⟨-, hf'⟩
    · obtain ⟨f', hf', htrail⟩ := hold tokenHash (.inl htoken)
      exact hs.held j f' tokenHash hf' (htrail ▸ htoken)
    · exact hs.held j f' tokenHash hf' htoken
  case lookedUp =>
    intro j f' tokenHash hj htoken
    rcases Concurrent.set_cases hj with ⟨rfl, rfl⟩ | ⟨-, hf'⟩
    · obtain ⟨f', hf', htrail⟩ := hold tokenHash (.inr htoken)
      exact htrail ▸ hs.lookedUp j f' tokenHash hf' (htrail ▸ htoken)
    · exact hs.lookedUp j f' tokenHash hf' htoken
  case used =>
    intro j f' tokenHash hj htoken
    rcases Concurrent.set_cases hj with ⟨rfl, rfl⟩ | ⟨-, hf'⟩
    · obtain ⟨f', hf', htrail⟩ := hold tokenHash (.inr htoken)
      exact hs.used j f' tokenHash hf' (htrail ▸ htoken)
    · exact hs.used j f' tokenHash hf' htoken
  case alone =>
    intro j k f' f'' tokenHash hne hj hk htoken htoken'
    rcases Concurrent.set_cases hj with ⟨rfl, rfl⟩ | ⟨-, hf'⟩
    · exact .inl (hholds tokenHash htoken)
    · rcases Concurrent.set_cases hk with ⟨rfl, rfl⟩ | ⟨-, hf''⟩
      · exact .inr (hholds tokenHash htoken')
      · exact hs.alone j k f' f'' tokenHash hne hf' hf'' htoken htoken'
  case apart =>
    intro j k f' f'' u hj hk hj' hk'
    rcases Concurrent.set_cases hj with ⟨rfl, rfl⟩ | ⟨-, hf'⟩
    · exact absurd hj' (hbetween u)
    · rcases Concurrent.set_cases hk with ⟨rfl, rfl⟩ | ⟨-, hf''⟩
      · exact absurd hk' (hbetween u)
      · exact hs.apart j k f' f'' u hf' hf'' hj' hk'
  case deleted =>
    intro j f' u hj hj'
    rcases Concurrent.set_cases hj with ⟨rfl, rfl⟩ | ⟨-, hf'⟩
    · exact absurd hj' (hbetween u)
    · exact hs.deleted j f' u hf' hj'

theorem not_between_of_clean (hclean : Clean f.trail) : ¬ Between f u := by
  rintro ⟨-, before, htrail | ⟨raw, htrail⟩⟩
  all_goals
    rw [htrail] at hclean
    exact hclean ⟨.deleteUnusedResets u, ()⟩ (by simp) trivial

theorem exclusive_step {a : Action} (hs : Exclusive s)
    (hgood : Concurrent.AllGood Ordered Uses s) (hc : NoRace s a)
    (hst : Concurrent.Moves (service g) s a t) : Exclusive t := by
  cases hst with
  | start hnone hf =>
    have hclean := clean_of_starts hs.clean (starts hf)
    exact hs.set (fun u => not_between_of_clean hclean)
      (fun _ hholds => absurd hholds (not_holds_of_clean hclean)) (.inl hclean)
  | call hflow hr => exact exclusive_call hs hgood hc hflow hr
  | fail hflow =>
    refine hs.set ?_ (fun _ _ => rfl) (.inr ⟨_, hflow, rfl⟩)
    rintro u ⟨hnext, -⟩
    exact hnext rfl
  | @pass d store hstore =>
    simp only [service, pass] at hstore
    split at hstore
    · cases hstore
      exact ⟨hs.clean, hs.known, hs.held, hs.lookedUp, hs.used, hs.alone, hs.apart, hs.deleted,
        hs.one⟩
    · cases hstore

/-- No token has been issued or signed yet. -/
def NoTokens (store : Store) : Prop := store.authTokens = [] ∧ store.signed = []

/-- Without a race, every token works once and a user has one at a time. -/
theorem tokens_single_use (g : Gateway) (s t : System) (as : List Action)
    (hinit : (routes g NoTokens).init s) (run : (routes g NoTokens).Run NoRace s as t) :
    ∀ r ∈ (routes g NoTokens).visited s as, SingleUse r := by
  obtain ⟨⟨htokens, hsigned⟩, hflows⟩ := hinit
  have hnone : ∀ i f, s.flows i ≠ some f := by
    intro i f hf
    rw [hflows i] at hf
    cases hf
  have hexclusive : Exclusive s := by
    constructor
    case clean =>
      rw [hsigned]
      exact fun _ hx => absurd hx List.not_mem_nil
    case known =>
      rw [htokens]
      exact fun _ hrow => absurd hrow List.not_mem_nil
    case one =>
      intro u
      rw [htokens]
      exact Nat.zero_le 1
    case held | lookedUp | used => exact fun i f _ hf => absurd hf (hnone i f)
    case alone => exact fun i _ f _ _ _ hf => absurd hf (hnone i f)
    case apart => exact fun i _ f _ _ hf => absurd hf (hnone i f)
    case deleted => exact fun i f _ hf => absurd hf (hnone i f)
  have hholds := holds_visited run hflows hexclusive
    (fun s i request f hs _ hf => ordered_of_starts hs.clean hf) fun s a t => exclusive_step
  exact fun r hr => singleUse_of_exclusive (hholds r hr).1

/-- A token for a reset is asked for, by flow 0. -/
def forgot : List Action :=
  [.start 0 (.forgotPassword (some aliceEmail)), .call 0 [], .call 0 [], .call 0 (units "token"),
   .call 0 []]

/-- The other flows are over when a flow makes a call. -/
def sequential (n : ℕ) (s : System) : Action → Bool
  | .call i _ => (List.range n).all fun j => j = i || (s.flows j).all fun f => f.next.isNone
  | _ => true

theorem noRace_of_sequential {n : ℕ} {a : Action} (hs : ∀ i, n ≤ i → s.flows i = none)
    (hseq : sequential n s a = true) : NoRace s a := by
  cases a with
  | call i choice =>
    intro j f f' hne _ hf'
    have hj : j < n := by
      by_contra hle
      rw [hs j (Nat.le_of_not_lt hle)] at hf'
      cases hf'
    have hover := List.all_eq_true.mp hseq j (List.mem_range.mpr hj)
    rw [hf', Option.all_some, Bool.or_eq_true, decide_eq_true_eq,
      Option.isNone_iff_eq_none] at hover
    have hnone := hover.resolve_left hne
    exact ⟨fun _ _ _ _ hnext => absurd hnone hnext, fun _ _ hbetween => hbetween.1 hnone⟩
  | _ => trivial

def forgotThenReset : List Action := forgot ++ resetStarts 1 ++ resetEnds 1

theorem tokens_single_use_reset :
    (((routes deployment NoTokens).exec (idle (storeOf aliceRow)) forgotThenReset).any fun t =>
        t.store.authTokens.any fun row => row.usedAt.isSome) = true ∧
    ∀ r ∈ (routes deployment NoTokens).visited (idle (storeOf aliceRow)) forgotThenReset,
      SingleUse r := by
  have hrun : (((routes deployment NoTokens).exec (idle (storeOf aliceRow)) forgotThenReset).any
        fun t => t.store.authTokens.any fun row => row.usedAt.isSome) = true ∧
      (((routes deployment NoTokens).steps (idle (storeOf aliceRow)) forgotThenReset).all
        fun x => sequential 2 x.1 x.2.1) = true := by
    decide +kernel
  obtain ⟨hexec, hseq⟩ := hrun
  refine ⟨hexec, ?_⟩
  obtain ⟨t, ht, -⟩ := (Option.any_eq_true _ _).mp hexec
  have htwo : (forgotThenReset.all fun a => a.flow.all fun i => decide (i < 2)) = true := by
    decide
  have hbeyond := Concurrent.flows_beyond ht (fun _ _ => rfl) htwo
  refine tokens_single_use deployment _ t _ ⟨⟨rfl, rfl⟩, fun _ => rfl⟩
    (Machine.run_of_exec_steps ht fun x hx => ?_)
  exact noRace_of_sequential (hbeyond x hx) (List.all_eq_true.mp hseq x hx)

/-- Two resets look the token up before either uses it. -/
def resetTwice : List Action :=
  forgot ++ resetStarts 1 ++ resetStarts 2 ++ resetEnds 1 ++ resetEnds 2

def redeems (f : Flow Query Query.Answer Reply) (tokenHash : Text) : Bool :=
  match f.rest with
  | .done .success => f.trail.any fun e =>
    match e.1 with
    | .useToken tokenHash' => tokenHash' = tokenHash
    | _ => false
  | _ => false

theorem redeemed_of_redeems (hf : redeems f tokenHash = true) : Redeemed f tokenHash := by
  unfold redeems at hf
  split at hf
  · next hrest =>
    refine ⟨hrest, ?_⟩
    obtain ⟨⟨c, r⟩, hmem, huse⟩ := List.any_eq_true.mp hf
    split at huse
    · next tokenHash' heq =>
      obtain rfl : c = .useToken tokenHash' := heq
      rw [← of_decide_eq_true huse]
      exact hmem
    · cases huse
  · cases hf

/-- Both of them succeed. -/
theorem token_used_twice : ¬ ∀ (g : Gateway) (s t : System) (as : List Action),
    (routes g NoTokens).init s → (routes g NoTokens).Run Machine.Any s as t →
      ∀ r ∈ (routes g NoTokens).visited s as, SingleUse r := by
  intro hall
  have hexec : (((routes deployment NoTokens).exec (idle (storeOf aliceRow)) resetTwice).any
      fun t => (t.flows 1).any (redeems · (units "token")) &&
        (t.flows 2).any (redeems · (units "token"))) = true := by decide +kernel
  obtain ⟨t, ht, hcheck⟩ := (Option.any_eq_true _ _).mp hexec
  have hrun := Machine.run_of_exec ht
  have hsingle := hall deployment _ t _ ⟨⟨rfl, rfl⟩, fun _ => rfl⟩ hrun t hrun.mem_visited
  rw [Bool.and_eq_true, Option.any_eq_true, Option.any_eq_true] at hcheck
  obtain ⟨⟨f, hf, hredeems⟩, f', hf', hredeems'⟩ := hcheck
  have heq := hsingle.once 1 2 f f' _ hf hf' (redeemed_of_redeems hredeems)
    (redeemed_of_redeems hredeems')
  cases heq

end AssureCode.Auth
