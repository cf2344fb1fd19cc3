import AssureCode.Js.Bytes
import AssureCode.Js.Coercion

/-! # Signed tokens

Three kinds of short-lived tokens are texts of fields with dots between them, signed with one
secret: the challenge of a login that waits for its second factor, the state of an OAuth round
trip, and the code that is exchanged for a session after it. Only the signed text of a challenge
names its purpose.
-/

namespace AssureCode.Auth

open Js

abbrev dot : ℕ := 0x2E

/-- Fields with dots between them. -/
def dotted (fields : List Text) : Text := [dot].intercalate fields

/-- The alphabet of base64url, which is written without padding. -/
def isBase64Url (u : ℕ) : Bool :=
  isDigit u || (0x41 ≤ u && u ≤ 0x5A) || (0x61 ≤ u && u ≤ 0x7A) || u == 0x2D || u == 0x5F

/-- The HMAC of a text under `JWT_SECRET` as base64url; no two texts are taken to share one. -/
structure Hmac where
  digest : Text → Text
  base64url : ∀ t, ∀ u ∈ digest t, isBase64Url u = true
  injective : Function.Injective digest

/-- What `Date.now()` answers. -/
abbrev Clock : Type := {now : ℕ // now ≤ 8640000000000000}

/-- `sigBuf.length === expectedBuf.length && timingSafeEqual(sigBuf, expectedBuf)` -/
def sameBytes (sig expected : Text) : Bool := utf8 sig = utf8 expected

/-- `age < 0 || age >= ttl` where `age` is `Date.now() - Number(ts)`. -/
def outOfTime (now : Clock) (ts : Text) (ttl : ℕ) : Bool :=
  let age := (Number.ofRat now).add (stringToNumber ts).neg
  age.lt (.ofRat 0) || (age ≠ .nan && !age.lt (.ofRat ttl))

/-- `MFA_CHALLENGE_TTL_MS` -/
def mfaChallengeTtlMs : ℕ := 5 * 60 * 1000

/-- `OAUTH_STATE_TTL_MS` -/
def oauthStateTtlMs : ℕ := 10 * 60 * 1000

/-- `EXCHANGE_CODE_TTL_MS` -/
def exchangeCodeTtlMs : ℕ := 60 * 1000

section Functions

variable (hmac : Hmac)

/-- The text that is signed for a challenge. -/
def mfaText (userId ts nonce : Text) : Text := dotted [units "mfa", userId, ts, nonce]

def signMfaChallenge (userId : Text) (now : Clock) (nonce : Text) : Text :=
  let ts := digitsOf now
  dotted [userId, ts, nonce, hmac.digest (mfaText userId ts nonce)]

def verifyMfaChallenge (now : Clock) (challenge : Text) : Option Text :=
  match challenge.splitOn dot with
  | [userId, ts, nonce, sig] =>
    if sameBytes sig (hmac.digest (mfaText userId ts nonce)) && !outOfTime now ts mfaChallengeTtlMs
    then some userId else none
  | _ => none

def signState (linkUserId : Option Text) (now : Clock) (nonce : Text) : Text :=
  let payload := dotted [nonce, digitsOf now, linkUserId.getD []]
  dotted [payload, hmac.digest payload]

structure StateResult where
  valid : Bool
  linkUserId : Option Text
  deriving DecidableEq

def verifyState (now : Clock) (state : Text) : StateResult :=
  match state.splitOn dot with
  | [nonce, ts, linkUserId, sig] =>
    if sameBytes sig (hmac.digest (dotted [nonce, ts, linkUserId])) &&
      !outOfTime now ts oauthStateTtlMs
    then ⟨true, if linkUserId = [] then none else some linkUserId⟩ else ⟨false, none⟩
  | _ => ⟨false, none⟩

def signExchangeCode (userId : Text) (now : Clock) (nonce : Text) : Text :=
  let payload := dotted [userId, digitsOf now, nonce]
  dotted [payload, hmac.digest payload]

def verifyExchangeCode (now : Clock) (code : Text) : Option Text :=
  match code.splitOn dot with
  | [userId, ts, nonce, sig] =>
    if sameBytes sig (hmac.digest (dotted [userId, ts, nonce])) &&
      !outOfTime now ts exchangeCodeTtlMs
    then some userId else none
  | _ => none

end Functions

/-! ## Purposes -/

inductive Purpose
  | mfaChallenge
  | state
  | exchangeCode
  deriving DecidableEq

def Purpose.ttlMs : Purpose → ℕ
  | .mfaChallenge => mfaChallengeTtlMs
  | .state => oauthStateTtlMs
  | .exchangeCode => exchangeCodeTtlMs

/-- What a signer is called for. -/
inductive Signing
  | mfaChallenge (userId : Text)
  | state (linkUserId : Option Text)
  | exchangeCode (userId : Text)

def Signing.purpose : Signing → Purpose
  | .mfaChallenge _ => .mfaChallenge
  | .state _ => .state
  | .exchangeCode _ => .exchangeCode

/-- The user it names, the empty text being none. -/
def Signing.userId : Signing → Text
  | .mfaChallenge userId | .exchangeCode userId => userId
  | .state linkUserId => linkUserId.getD []

def Signing.token (hmac : Hmac) (now : Clock) (nonce : Text) : Signing → Text
  | .mfaChallenge userId => signMfaChallenge hmac userId now nonce
  | .state linkUserId => signState hmac linkUserId now nonce
  | .exchangeCode userId => signExchangeCode hmac userId now nonce

/-- Whether the verifier of a purpose accepts a token. -/
def Purpose.accepts (hmac : Hmac) (now : Clock) (token : Text) : Purpose → Bool
  | .mfaChallenge => (verifyMfaChallenge hmac now token).isSome
  | .state => (verifyState hmac now token).valid
  | .exchangeCode => (verifyExchangeCode hmac now token).isSome

/-- The text whose HMAC the verifier of a purpose compares with the fourth of its fields. -/
def Purpose.text (a ts b : Text) : Purpose → Text
  | .mfaChallenge => mfaText a ts b
  | .state | .exchangeCode => dotted [a, ts, b]

/-! ## Fields -/

variable {a b ts t : Text} {fs : List Text} {hmac : Hmac} {now signedAt : Clock} {p q : Purpose}

theorem splitOn_dotted (h : ∀ f ∈ fs, dot ∉ f) (hne : fs ≠ []) : (dotted fs).splitOn dot = fs :=
  List.splitOn_intercalate dot h hne

/-- Fields with dots of their own fall apart. -/
theorem splitOn_dotted_flatMap (hne : fs ≠ []) :
    (dotted fs).splitOn dot = fs.flatMap fun f => f.splitOn dot := by
  induction fs with
  | nil => exact absurd rfl hne
  | cons f fs ih =>
    cases fs with
    | nil => simp [dotted]
    | cons g gs =>
      have hcons : dotted (f :: g :: gs) = f ++ dot :: dotted (g :: gs) := by
        simp [dotted, List.intercalate_cons_cons]
      rw [hcons, List.splitOn_append_cons_self, ih (List.cons_ne_nil g gs), ← List.flatMap_cons]

theorem dot_notMem_digitsOf (n : ℕ) : dot ∉ digitsOf n := by
  intro h
  exact absurd (isDigit_of_mem_digitsOf h) (by decide)

theorem dot_notMem_digest (hmac : Hmac) (t : Text) : dot ∉ hmac.digest t := by
  intro h
  exact absurd (hmac.base64url t dot h) (by decide)

/-- The text of a challenge is longer by its prefix. -/
theorem mfaText_ne_dotted : mfaText a ts b ≠ dotted [a, ts, b] := by
  intro h
  have hlength := congrArg List.length h
  simp [mfaText, dotted, List.intercalate_cons_cons, units, codeUnits] at hlength
  omega

theorem text_eq_text_iff :
    p.text a ts b = q.text a ts b ↔ (p = .mfaChallenge ↔ q = .mfaChallenge) := by
  cases p <;> cases q <;>
    simp [Purpose.text, mfaText_ne_dotted, (mfaText_ne_dotted : mfaText a ts b ≠ _).symm]

/-! ## Bytes -/

/-- Only ASCII is written with one byte for a unit. -/
theorem utf8_of_ascii (h : ∀ u ∈ t, u < 0x80) : utf8 t = t.map UInt8.ofNat := by
  have hbytes : ∀ u < 0x80, utf8Bytes (if isLeadSurrogate u || isTrailSurrogate u then 0xFFFD
      else u) = [UInt8.ofNat u] := by
    intro u hu
    have hplain : (isLeadSurrogate u || isTrailSurrogate u) = false := by
      simp only [isLeadSurrogate, isTrailSurrogate, Bool.or_eq_false_iff, Bool.and_eq_false_iff,
        decide_eq_false_iff_not]
      omega
    simp [hplain, utf8Bytes, hu]
  induction t using utf8.induct with
  | case1 => rfl
  | case2 u => exact hbytes u (h u List.mem_cons_self)
  | case3 u v t hpair ih =>
    have hu := h u List.mem_cons_self
    simp only [isLeadSurrogate, Bool.and_eq_true, decide_eq_true_eq] at hpair
    omega
  | case4 u v t hpair ih =>
    rw [utf8, if_neg hpair, hbytes u (h u List.mem_cons_self),
      ih fun w hw => h w (List.mem_cons_of_mem u hw)]
    rfl

theorem lt_of_isBase64Url {u : ℕ} (h : isBase64Url u = true) : u < 0x80 := by
  simp only [isBase64Url, isDigit, Bool.or_eq_true, Bool.and_eq_true, decide_eq_true_eq,
    beq_iff_eq] at h
  omega

theorem sameBytes_digest_iff {x y : Text} :
    sameBytes (hmac.digest x) (hmac.digest y) = true ↔ x = y := by
  have hascii : ∀ x, ∀ u ∈ hmac.digest x, u < 0x80 :=
    fun x u hu => lt_of_isBase64Url (hmac.base64url x u hu)
  have hmap : utf8 (hmac.digest x) = utf8 (hmac.digest y) → hmac.digest x = hmac.digest y := by
    rw [utf8_of_ascii (hascii x), utf8_of_ascii (hascii y)]
    intro h
    have hnat := congrArg (List.map UInt8.toNat) h
    rw [List.map_map, List.map_map] at hnat
    have hid : ∀ x, (hmac.digest x).map (UInt8.toNat ∘ UInt8.ofNat) = hmac.digest x := by
      intro x
      refine (List.map_congr_left fun u hu => ?_).trans (List.map_id _)
      have hu' := hascii x u hu
      simp only [Function.comp_apply, UInt8.toNat_ofNat', id_eq]
      omega
    rwa [hid, hid] at hnat
  rw [sameBytes, decide_eq_true_eq]
  constructor
  · intro h
    exact hmac.injective (hmap h)
  · intro h
    rw [h]

/-! ## Time -/

theorem ofRat_intCast {n : ℤ} (h : |n| < 2 ^ 53) :
    Number.ofRat n = .finite n (isDouble_intCast h) :=
  Number.ofRat_of_rounded _ (rounded_of_isDouble (isDouble_intCast h))

theorem outOfTime_digitsOf {ttl : ℕ} (httl : ttl < 2 ^ 53) :
    outOfTime now (digitsOf signedAt) ttl = true ↔ now.1 < signedAt ∨ signedAt + ttl ≤ now.1 := by
  obtain ⟨n, hn⟩ := now
  obtain ⟨t, ht⟩ := signedAt
  have hage : (Number.ofRat n).add (stringToNumber (digitsOf t)).neg =
      .ofRat ((n - t : ℤ) : ℚ) := by
    rw [stringToNumber_digitsOf, Number.ofRat_natCast (by omega), Number.ofRat_natCast (by omega)]
    simp only [Number.neg, Number.add]
    push_cast
    ring_nf
  have hbound : |(n : ℤ) - t| < 2 ^ 53 := by
    rw [abs_lt]
    omega
  have hzero : Number.ofRat 0 = .finite 0 (isDouble_natCast (n := 0) (by norm_num)) :=
    Number.ofRat_natCast (n := 0) (by norm_num)
  rw [outOfTime, hage, ofRat_intCast hbound, hzero, Number.ofRat_natCast httl]
  simp only [Number.lt, ne_eq, reduceCtorEq, not_false_eq_true, decide_true, Bool.true_and,
    Bool.or_eq_true, decide_eq_true_eq, Bool.not_eq_true', decide_eq_false_iff_not, not_lt,
    Int.cast_lt_zero]
  rw [show (ttl : ℚ) = ((ttl : ℤ) : ℚ) by norm_cast, Int.cast_le]
  omega

end AssureCode.Auth
