import AssureCode.Auth.Effects
import AssureCode.Auth.Separation

/-! # Tokens that are presented

A request with a token goes on from where the token was signed. The text of a challenge has four
fields and that of the other tokens three, so that a challenge is one of its own kind and for the
user and the time it names.
-/

namespace AssureCode.Auth

open Js

variable {g : Gateway} {s : Store} {request : Request} {f : Flow Query Query.Answer Reply}
  {t token challenge a ts b u : Text} {p : Purpose} {now : Clock} {x : Issued}

theorem dot_notMem_of_mem_splitOn (h : a ∈ t.splitOn dot) : dot ∉ a := by
  induction t generalizing a with
  | nil =>
    rw [List.splitOn_nil, List.mem_singleton] at h
    rw [h]
    exact List.not_mem_nil
  | cons v t ih =>
    obtain ⟨r, rs, hr⟩ := List.exists_cons_of_ne_nil (List.splitOn_ne_nil dot t)
    rw [hr] at ih
    rw [List.splitOn_cons_eq_if_modifyHead, hr] at h
    split at h
    · rcases List.mem_cons.mp h with rfl | h
      · exact List.not_mem_nil
      · exact ih h
    · next hv =>
      rcases List.mem_cons.mp h with rfl | h
      · rw [List.mem_cons, not_or]
        exact ⟨fun heq => hv (beq_iff_eq.mpr heq.symm), ih List.mem_cons_self⟩
      · exact ih (List.mem_cons_of_mem r h)

/-- The fields of a text that is signed. -/
def Issued.fields (x : Issued) : List Text :=
  match x.signing.1 with
  | .state linkUserId => [x.nonce.1, digitsOf x.signedAt, linkUserId.getD []]
  | .mfaChallenge userId => [units "mfa", userId, digitsOf x.signedAt, x.nonce.1]
  | .exchangeCode userId => [userId, digitsOf x.signedAt, x.nonce.1]

theorem splitOn_text (x : Issued) : x.text.splitOn dot = x.fields := by
  have hts := dot_notMem_digitsOf x.signedAt
  have hnonce := x.nonce.2
  have huser := x.signing.2
  rw [Issued.text, Issued.fields]
  cases hsigning : x.signing.1 with
  | state linkUserId =>
    rw [hsigning] at huser
    exact splitOn_dotted (by simpa using ⟨hnonce, hts, huser⟩) (List.cons_ne_nil _ _)
  | mfaChallenge userId =>
    rw [hsigning] at huser
    have hmfa : dot ∉ units "mfa" := by decide
    exact splitOn_dotted (by simpa using ⟨hmfa, huser, hts, hnonce⟩) (List.cons_ne_nil _ _)
  | exchangeCode userId =>
    rw [hsigning] at huser
    exact splitOn_dotted (by simpa using ⟨huser, hts, hnonce⟩) (List.cons_ne_nil _ _)

/-- The fields of a text that a token is checked against. -/
theorem splitOn_purposeText (ha : dot ∉ a) (hts : dot ∉ ts) (hb : dot ∉ b) :
    (p.text a ts b).splitOn dot =
      if p = .mfaChallenge then [units "mfa", a, ts, b] else [a, ts, b] := by
  have hmfa : dot ∉ units "mfa" := by decide
  cases p with
  | mfaChallenge => exact splitOn_dotted (by simpa using ⟨hmfa, ha, hts, hb⟩) (List.cons_ne_nil _ _)
  | state => exact splitOn_dotted (by simpa using ⟨ha, hts, hb⟩) (List.cons_ne_nil _ _)
  | exchangeCode => exact splitOn_dotted (by simpa using ⟨ha, hts, hb⟩) (List.cons_ne_nil _ _)

theorem signedText_eq_some (h : signedText g.hmac p token = some t) :
    ∃ a ts b sig, token.splitOn dot = [a, ts, b, sig] ∧ t = p.text a ts b := by
  unfold signedText at h
  split at h
  · next a ts b sig hsplit =>
    split at h
    · cases h
      exact ⟨a, ts, b, sig, hsplit, rfl⟩
    · cases h
  · cases h

/-- What is presented as a challenge was signed as one, and nothing else was. -/
theorem purpose_of_signedText (h : signedText g.hmac p token = some x.text) :
    p = .mfaChallenge ↔ x.signing.1.purpose = .mfaChallenge := by
  obtain ⟨a, ts, b, sig, hsplit, htext⟩ := signedText_eq_some h
  have hfree : ∀ r ∈ [a, ts, b, sig], dot ∉ r := by
    intro r hr
    rw [← hsplit] at hr
    exact dot_notMem_of_mem_splitOn hr
  have hfields := congrArg (fun r : Text => (r.splitOn dot).length) htext
  simp only [splitOn_text, splitOn_purposeText (hfree a (by simp)) (hfree ts (by simp))
    (hfree b (by simp)), Issued.fields] at hfields
  cases hsigning : x.signing.1 <;> rw [hsigning] at hfields <;> cases p <;>
    simp [Signing.purpose] at hfields ⊢

theorem verifyMfaChallenge_eq_some (h : verifyMfaChallenge g.hmac now challenge = some u) :
    ∃ ts nonce, signedText g.hmac .mfaChallenge challenge = some (mfaText u ts nonce) ∧
      dot ∉ u ∧ dot ∉ ts ∧ dot ∉ nonce ∧ outOfTime now ts mfaChallengeTtlMs = false := by
  unfold verifyMfaChallenge at h
  split at h
  · next userId ts nonce sig hsplit =>
    split at h
    · next haccepted =>
      cases h
      rw [Bool.and_eq_true, Bool.not_eq_true'] at haccepted
      have hfree : ∀ r ∈ [u, ts, nonce, sig], dot ∉ r := by
        intro r hr
        rw [← hsplit] at hr
        exact dot_notMem_of_mem_splitOn hr
      refine ⟨ts, nonce, ?_, hfree u (by simp), hfree ts (by simp), hfree nonce (by simp),
        haccepted.2⟩
      rw [signedText, hsplit]
      exact if_pos haccepted.1
    · cases h
  · cases h

/-- A challenge for a user within its time was signed for that user within that time. -/
theorem signing_of_mfaText (hu : dot ∉ u) (hts : dot ∉ ts) (hb : dot ∉ b)
    (h : x.text = mfaText u ts b) :
    x.signing.1 = .mfaChallenge u ∧ digitsOf x.signedAt = ts := by
  have hfields := congrArg (fun r : Text => r.splitOn dot) h
  have hmfa : (mfaText u ts b).splitOn dot = [units "mfa", u, ts, b] :=
    splitOn_purposeText (p := .mfaChallenge) hu hts hb
  simp only [splitOn_text, hmfa, Issued.fields] at hfields
  cases hsigning : x.signing.1 with
  | state linkUserId =>
    rw [hsigning] at hfields
    simp at hfields
  | mfaChallenge userId =>
    rw [hsigning] at hfields
    simp only [List.cons.injEq, true_and, and_true] at hfields
    exact ⟨congrArg Signing.mfaChallenge hfields.1, hfields.2.1⟩
  | exchangeCode userId =>
    rw [hsigning] at hfields
    simp at hfields

/-! ## Starts -/

/-- Nobody is signed in yet. -/
def NobodySignedIn (store : Store) : Prop := store.sessions = [] ∧ store.signed = []

/-- A flow starts anew, or goes on from where its token was signed. -/
inductive Starts (g : Gateway) (s : Store) (request : Request) :
    Flow Query Query.Answer Reply → Prop
  | anew (h : request.presents.bind (fun x => signedText g.hmac x.1 x.2) = none) :
      Starts g s request ⟨[], handler g s.now request⟩
  | goesOn {x : Issued} {p : Purpose} {token : Text} (hmem : x ∈ s.signed)
      (hpresents : request.presents = some (p, token))
      (htext : signedText g.hmac p token = some x.text) :
      Starts g s request ⟨x.trail, handler g s.now request⟩

theorem starts (h : start g s request = some f) : Starts g s request f := by
  unfold start at h
  split at h
  · next hnone =>
    cases h
    exact .anew hnone
  · next text htext =>
    obtain ⟨x, hx, rfl⟩ := Option.map_eq_some_iff.mp h
    obtain ⟨⟨p, token⟩, hpresents, hsigned⟩ := Option.bind_eq_some_iff.mp htext
    have htext' : x.text = text := by simpa using List.find?_some hx
    exact .goesOn (List.mem_of_find?_eq_some hx) hpresents (hsigned.trans (by rw [htext']))

/-- The trail of a flow is that of a token or empty. -/
theorem trail_of_starts (h : Starts g s request f) :
    f.trail = [] ∨ ∃ x ∈ s.signed, f.trail = x.trail ∧
      ((∃ challenge, request.presents = some (.mfaChallenge, challenge)) ↔
        x.signing.1.purpose = .mfaChallenge) := by
  cases h with
  | anew => exact .inl rfl
  | @goesOn x p token hmem hpresents htext =>
    refine .inr ⟨x, hmem, rfl, ?_⟩
    rw [← purpose_of_signedText htext, hpresents]
    simp

theorem Starts.rest (h : Starts g s request f) : f.rest = handler g s.now request := by
  cases h with
  | anew => rfl
  | goesOn => rfl

theorem Starts.trail (h : Starts g s request f) (hpresents : request.presents = none) :
    f.trail = [] := by
  cases h with
  | anew => rfl
  | goesOn _ hp =>
    rw [hpresents] at hp
    cases hp

/-- What every step keeps along with what all flows have in common holds of every state. -/
theorem holds_visited {init : Store → Prop} {I : System → Prop} {C : System → Action → Prop}
    {K : Trail → Query → Prop} {Q : Trail → Reply → Prop} {s t : System} {as : List Action}
    (run : (routes g init).Run C s as t) (hflows : ∀ i, s.flows i = none) (hI : I s)
    (hstart : ∀ s i request f, I s → C s (.start i request) → Starts g s.store request f →
      Concurrent.Good K Q f)
    (hstep : ∀ s a t, I s → Concurrent.AllGood K Q s → C s a →
      Concurrent.Moves (service g) s a t → I t) :
    ∀ r ∈ (routes g init).visited s as, I r ∧ Concurrent.AllGood K Q r := by
  have hgood : Concurrent.AllGood K Q s := by
    intro i f hf
    rw [hflows i] at hf
    cases hf
  exact run.forall_visited (Concurrent.invariant_step (fun s i request f hs hc hf =>
    hstart s i request f hs hc (starts hf)) hstep) ⟨hI, hgood⟩

/-- A challenge that is accepted has been signed for its user and is in time. -/
theorem exists_of_verifyMfaChallenge {code : Option Text}
    (h : Starts g s (.mfaChallenge (some challenge) code) f) (hne : challenge ≠ [])
    (hverify : verifyMfaChallenge g.hmac s.now challenge = some u) :
    ∃ x ∈ s.signed, f.trail = x.trail ∧ x.signing.1 = .mfaChallenge u ∧
      outOfTime s.now (digitsOf x.signedAt) mfaChallengeTtlMs = false := by
  obtain ⟨ts, nonce, htext, hu, hts, hnonce, htime⟩ := verifyMfaChallenge_eq_some hverify
  have hgiven : given (some challenge) = some challenge := given_eq_some.mpr ⟨rfl, hne⟩
  have hpresents : (Request.mfaChallenge (some challenge) code).presents =
      some (.mfaChallenge, challenge) := by
    rw [Request.presents, hgiven]
    rfl
  cases h with
  | anew hnone =>
    rw [hpresents, Option.bind_some, htext] at hnone
    cases hnone
  | @goesOn x p token hmem hp hx =>
    rw [hpresents] at hp
    cases hp
    have heq : x.text = mfaText u ts nonce := Option.some.inj (hx.symm.trans htext)
    obtain ⟨hsigning, hat⟩ := signing_of_mfaText hu hts hnonce heq
    exact ⟨x, hmem, rfl, hsigning, hat ▸ htime⟩

/-! ## A deployment -/

/-- Hashes are what they are hashes of, and codes the secrets they are for. -/
def deployment : Gateway where
  hmac := spelled
  tables := asciiTables
  isEmail email := email.contains 0x40
  sha256 t := t
  verifyPassword password hash := decide (password = hash)
  verifyTotp secret code _ := decide (secret = code)
  jwtExpiresInSeconds := 3600
  webAppUrl := units "https://app.assurecode.dev"

def alice : Id := ⟨units "alice", by decide⟩

def aliceEmail : Text := units "alice@example.com"

def alicePassword : Text := units "correct-horse"

def aliceRow : User :=
  Store.newUser alice aliceEmail alicePassword (units "client") (units "Alice")

/-- A database with one account. -/
def storeOf (row : User) : Store where
  now := startOf2024
  users := ⟨[row], List.pairwise_singleton _ _⟩

/-- Nothing is under way. -/
def idle (store : Store) : System := ⟨store, fun _ => none⟩

def newPassword : Text := units "staple-battery"

/-- A reset by a token, until the token is looked up. -/
def resetStarts (i : ℕ) : List Action :=
  [.start i (.resetPassword (some (units "token")) (some newPassword) (some newPassword)),
   .call i []]

def resetEnds (i : ℕ) : List Action :=
  [.call i newPassword, .call i [], .call i [], .call i []]

/-- A sign-in with GitHub, up to its transaction. -/
def githubSignsIn (newId email : Text) : List Action :=
  let state := (Signing.state none).token spelled startOf2024 (units "nonce")
  [.start 0 .github, .call 0 (units "nonce"),
   .start 1 (.githubCallback (some (units "github")) (some state) none
     (.identity ⟨units "583231", email, units "The Octocat"⟩)),
   .call 1 newId, .call 1 []]

end AssureCode.Auth
