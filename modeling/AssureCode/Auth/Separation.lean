import AssureCode.Auth.Tokens

/-! # One purpose for a token

A challenge is kept apart from the other tokens by the prefix of its signed text. The state and the
code have no prefix: the fields of the one are read as the fields of the other.
-/

namespace AssureCode.Auth

open Js

variable {a b ts sig t token : Text} {hmac : Hmac} {now signedAt : Clock} {q : Purpose}
  {s : Signing} {nonce : Text}

/-! ## What a verifier accepts -/

theorem one_le_length_splitOn (t : Text) : 1 ≤ (t.splitOn dot).length :=
  List.length_pos_of_ne_nil (List.splitOn_ne_nil dot t)

theorem two_le_length_splitOn (h : dot ∈ t) : 2 ≤ (t.splitOn dot).length := by
  obtain ⟨r, s, rfl⟩ := List.append_of_mem h
  have hr := one_le_length_splitOn r
  have hs := one_le_length_splitOn s
  rw [List.splitOn_append_cons_self, List.length_append]
  omega

/-- `parts.length !== 4` -/
theorem accepts_of_length (h : (token.splitOn dot).length ≠ 4) :
    q.accepts hmac now token = false := by
  cases q with
  | mfaChallenge =>
    rw [Purpose.accepts, verifyMfaChallenge]
    split
    · next heq => exact absurd (by rw [heq]; rfl) h
    · rfl
  | state =>
    rw [Purpose.accepts, verifyState]
    split
    · next heq => exact absurd (by rw [heq]; rfl) h
    · rfl
  | exchangeCode =>
    rw [Purpose.accepts, verifyExchangeCode]
    split
    · next heq => exact absurd (by rw [heq]; rfl) h
    · rfl

theorem accepts_of_splitOn (h : token.splitOn dot = [a, ts, b, sig]) :
    q.accepts hmac now token =
      (sameBytes sig (hmac.digest (q.text a ts b)) && !outOfTime now ts q.ttlMs) := by
  cases q with
  | mfaChallenge =>
    rw [Purpose.accepts, verifyMfaChallenge, h]
    exact apply_ite Option.isSome _ _ _ |>.trans (by simp [Purpose.text, Purpose.ttlMs])
  | state =>
    rw [Purpose.accepts, verifyState, h]
    exact apply_ite StateResult.valid _ _ _ |>.trans (by simp [Purpose.text, Purpose.ttlMs])
  | exchangeCode =>
    rw [Purpose.accepts, verifyExchangeCode, h]
    exact apply_ite Option.isSome _ _ _ |>.trans (by simp [Purpose.text, Purpose.ttlMs])

/-- Of four fields whose last is an HMAC, the first three have to be those that were signed. -/
theorem accepts_dotted_iff :
    q.accepts hmac now (dotted [a, digitsOf signedAt, b, hmac.digest t]) = true ↔
      dot ∉ a ∧ dot ∉ b ∧ q.text a (digitsOf signedAt) b = t ∧
        signedAt.1 ≤ now ∧ now < signedAt.1 + q.ttlMs := by
  have hts : dot ∉ digitsOf signedAt := dot_notMem_digitsOf signedAt
  have hsig : dot ∉ hmac.digest t := dot_notMem_digest hmac t
  by_cases hfree : dot ∉ a ∧ dot ∉ b
  · have hsplit : (dotted [a, digitsOf signedAt, b, hmac.digest t]).splitOn dot =
        [a, digitsOf signedAt, b, hmac.digest t] := by
      apply splitOn_dotted
      · simp [hfree.1, hfree.2, hts, hsig]
      · exact List.cons_ne_nil _ _
    have httl : q.ttlMs < 2 ^ 53 := by cases q <;> decide
    have htime : outOfTime now (digitsOf signedAt) q.ttlMs = true ↔ _ := outOfTime_digitsOf httl
    rw [accepts_of_splitOn hsplit, Bool.and_eq_true, sameBytes_digest_iff, Bool.not_eq_true',
      ← Bool.not_eq_true, htime, eq_comm (a := t)]
    simp only [hfree.1, hfree.2, not_false_eq_true, true_and, not_or, not_lt, not_le]
  · rw [accepts_of_length]
    · simp only [Bool.false_eq_true, false_iff]
      exact fun h => hfree ⟨h.1, h.2.1⟩
    · rw [splitOn_dotted_flatMap (List.cons_ne_nil _ _)]
      simp only [List.flatMap_cons, List.flatMap_nil, List.append_nil, List.length_append,
        List.splitOn_eq_singleton hts, List.splitOn_eq_singleton hsig, List.length_singleton]
      have ha := one_le_length_splitOn a
      have hb := one_le_length_splitOn b
      rcases not_and_or.mp hfree with hdot | hdot
      · have := two_le_length_splitOn (not_not.mp hdot)
        omega
      · have := two_le_length_splitOn (not_not.mp hdot)
        omega

/-! ## Tokens of another purpose -/

/-- A state has the nonce before the user id, the other two have it after. -/
theorem token_eq (hmac : Hmac) (s : Signing) (signedAt : Clock) (nonce : Text) :
    ∃ a b, s.token hmac signedAt nonce =
      dotted [a, digitsOf signedAt, b, hmac.digest (s.purpose.text a (digitsOf signedAt) b)] ∧
    (dot ∉ a ∧ dot ∉ b ↔ dot ∉ s.userId ∧ dot ∉ nonce) := by
  cases s with
  | mfaChallenge userId => exact ⟨userId, nonce, rfl, Iff.rfl⟩
  | state linkUserId =>
    refine ⟨nonce, linkUserId.getD [], ?_, and_comm⟩
    simp [Signing.token, signState, Signing.purpose, Purpose.text, dotted,
      List.intercalate_cons_cons]
  | exchangeCode userId =>
    refine ⟨userId, nonce, ?_, Iff.rfl⟩
    simp [Signing.token, signExchangeCode, Signing.purpose, Purpose.text, dotted,
      List.intercalate_cons_cons]

/-- The token is one of the two without a prefix, for fields without dots and within the time. -/
def Confused (s : Signing) (signedAt : Clock) (nonce : Text) (q : Purpose) (now : Clock) : Prop :=
  s.purpose ≠ .mfaChallenge ∧ q ≠ .mfaChallenge ∧ dot ∉ s.userId ∧ dot ∉ nonce ∧
    signedAt.1 ≤ now ∧ now < signedAt.1 + q.ttlMs

instance : Decidable (Confused s signedAt nonce q now) := inferInstanceAs (Decidable (_ ∧ _))

/-- A token is refused by another verifier exactly when it is not confused with one of its own. -/
theorem purposes_separate (hmac : Hmac) (s : Signing) (signedAt : Clock) (nonce : Text)
    (q : Purpose) (now : Clock) (hq : q ≠ s.purpose) :
    q.accepts hmac now (s.token hmac signedAt nonce) = false ↔
      ¬ Confused s signedAt nonce q now := by
  obtain ⟨a, b, htoken, hfree⟩ := token_eq hmac s signedAt nonce
  rw [htoken, ← Bool.not_eq_true, accepts_dotted_iff, text_eq_text_iff, not_iff_not, ← and_assoc,
    hfree]
  have htext : (q = .mfaChallenge ↔ s.purpose = .mfaChallenge) ↔
      s.purpose ≠ .mfaChallenge ∧ q ≠ .mfaChallenge := by
    constructor
    · intro hiff
      have hs : s.purpose ≠ .mfaChallenge := fun hs => hq ((hiff.mpr hs).trans hs.symm)
      exact ⟨hs, fun hm => hs (hiff.mp hm)⟩
    · rintro ⟨hs, hm⟩
      exact iff_of_false hm hs
  rw [htext, Confused]
  tauto

/-! ## A state exchanged for a session -/

/-- A digest that spells its text out, one number for each code unit. -/
def spelledOut (t : Text) : Text := [0x2D].intercalate ([] :: t.map digitsOf)

theorem isBase64Url_of_isDigit {u : ℕ} (h : isDigit u = true) : isBase64Url u = true := by
  simp [isBase64Url, h]

theorem spelledOut_base64url (t : Text) : ∀ u ∈ spelledOut t, isBase64Url u = true := by
  induction t with
  | nil => decide
  | cons v t ih =>
    have hcons : spelledOut (v :: t) = 0x2D :: (digitsOf v ++ spelledOut t) := by
      cases t <;> simp [spelledOut, List.intercalate_cons_cons]
    rw [hcons, List.forall_mem_cons, List.forall_mem_append]
    exact ⟨by decide, fun u hu => isBase64Url_of_isDigit (isDigit_of_mem_digitsOf hu), ih⟩

theorem spelledOut_injective : Function.Injective spelledOut := by
  intro t t' h
  have hread : ∀ t, (spelledOut t).splitOn 0x2D = [] :: t.map digitsOf := by
    intro t
    apply List.splitOn_intercalate
    · rw [List.forall_mem_cons, List.forall_mem_map]
      refine ⟨List.not_mem_nil, fun n _ hmem => ?_⟩
      exact absurd (isDigit_of_mem_digitsOf hmem) (by decide)
    · exact List.cons_ne_nil _ _
  have hfields := congrArg (fun r : Text => r.splitOn 0x2D) h
  simp only [hread, List.cons.injEq, true_and] at hfields
  have hdigits : Function.Injective digitsOf :=
    Function.LeftInverse.injective digitsValue_digitsOf
  exact hdigits.list_map hfields

def spelled : Hmac := ⟨spelledOut, spelledOut_base64url, spelledOut_injective⟩

/-- The start of 2024. -/
def startOf2024 : Clock := ⟨1704067200000, by decide⟩

def stateNonce : Text := units "0b9f6a52-7c1d-4f0e-9a3b-5d2e8c714f60"

theorem purposes_separate_code : Purpose.state ≠ (Signing.exchangeCode (units "usr")).purpose ∧
    (Purpose.state.accepts spelled startOf2024
        ((Signing.exchangeCode (units "usr")).token spelled startOf2024 stateNonce) = false ↔
      ¬ Confused (.exchangeCode (units "usr")) startOf2024 stateNonce .state startOf2024) :=
  ⟨by decide, purposes_separate spelled _ _ _ _ _ (by decide)⟩

/-- The state of a login with GitHub passes for an exchange code. -/
theorem state_is_exchangeCode : ¬ ∀ (hmac : Hmac) (s : Signing) (signedAt : Clock) (nonce : Text)
    (q : Purpose) (now : Clock), q ≠ s.purpose →
      q.accepts hmac now (s.token hmac signedAt nonce) = false := by
  intro h
  have hrefused := h spelled (.state none) startOf2024 stateNonce .exchangeCode startOf2024
    (by decide)
  have htoken : (Signing.state none).token spelled startOf2024 stateNonce =
      dotted [stateNonce, digitsOf startOf2024, [],
        spelled.digest (dotted [stateNonce, digitsOf startOf2024, []])] := by
    simp [Signing.token, signState, dotted, List.intercalate_cons_cons]
  have haccepted : Purpose.exchangeCode.accepts spelled startOf2024
      ((Signing.state none).token spelled startOf2024 stateNonce) = true := by
    rw [htoken, accepts_dotted_iff]
    exact ⟨by decide, List.not_mem_nil, rfl, le_rfl, by decide⟩
  rw [haccepted] at hrefused
  cases hrefused

end AssureCode.Auth
