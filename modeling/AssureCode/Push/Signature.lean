import AssureCode.Js.Bytes
import AssureCode.SourceFetcher.Model

/-! # Signed deliveries

GitHub and Razorpay sign the bytes of what they deliver. Both checks read the signature as bytes
before they compare, so that the case of its digits does not count, and nothing does from where
its digits end.
-/

namespace AssureCode.Push

open Js
open Json (hexValue)
open SourceFetcher (lowerAscii)

/-- `crypto.timingSafeEqual`; `none` where it throws. -/
def timingSafeEqual (a b : List UInt8) : Option Bool :=
  if a.length = b.length then some (a == b) else none

/-- The comparison of the Razorpay adapter, which is that of the ingest service. -/
def hmacMatches (expectedHex providedHex : Text) : Bool :=
  (timingSafeEqual (fromHex expectedHex) (fromHex providedHex)).getD false

section Checks

variable (hmac : List UInt8 → List UInt8)

/-- The secret is that of `hmac`; a header that is missing is `none`. -/
def verifyGitHubSignature (payload : List UInt8) (signatureHeader : Option Text) : Bool :=
  match signatureHeader with
  | none => false
  | some header =>
    if (units "sha256=").isPrefixOf header then hmacMatches (toHex (hmac payload)) (header.drop 7)
    else false

/-- What `verifyWebhook` of the Razorpay adapters checks before it parses the body. -/
def verifyRazorpaySignature (payload : List UInt8) (signature : Text) : Bool :=
  if signature = [] then false else hmacMatches (toHex (hmac payload)) signature

end Checks

/-- A pair of digits is first, so that reading hexadecimal would go on. -/
def startsWithByte : Text → Bool
  | u :: v :: _ => (hexValue u).isSome && (hexValue v).isSome
  | _ => false

/-- The digits of these bytes in either case, and something that is not read. -/
def Spells (signature : Text) (bytes : List UInt8) : Prop :=
  ∃ digits rest, signature = digits ++ rest ∧ digits.map lowerAscii = toHex bytes ∧
    startsWithByte rest = false

variable {t signature : Text} {bytes payload : List UInt8} {u d e : ℕ}

theorem hexValue_lt (h : hexValue u = some d) : d < 16 := by
  unfold hexValue at h
  split at h
  · next hdigit =>
    simp only [isDigit, Bool.and_eq_true, decide_eq_true_eq] at hdigit
    cases h
    omega
  · split at h
    · cases h
      omega
    · split at h
      · cases h
        omega
      · cases h

theorem hexValue_eq_some_iff (hd : d < 16) : hexValue u = some d ↔ lowerAscii u = hexDigit d := by
  constructor
  · intro h
    unfold hexValue at h
    unfold lowerAscii hexDigit
    split at h
    · next hdigit =>
      simp only [isDigit, Bool.and_eq_true, decide_eq_true_eq] at hdigit
      cases h
      split <;> split <;> omega
    · split at h
      · cases h
        split <;> split <;> omega
      · split at h
        · cases h
          split <;> split <;> omega
        · cases h
  · intro h
    unfold lowerAscii hexDigit at h
    have hcases : (u = 0x30 + d ∧ d < 10) ∨ (u = 0x61 + (d - 10) ∧ 10 ≤ d) ∨
        (u = 0x41 + (d - 10) ∧ 10 ≤ d) := by
      split at h <;> split at h <;> omega
    have hdigits : ∀ d < 10, hexValue (0x30 + d) = some d := by decide
    have hlower : ∀ k < 6, hexValue (0x61 + k) = some (10 + k) := by decide
    have hupper : ∀ k < 6, hexValue (0x41 + k) = some (10 + k) := by decide
    rcases hcases with ⟨rfl, hlt⟩ | ⟨rfl, hle⟩ | ⟨rfl, hle⟩
    · exact hdigits d hlt
    · rw [hlower (d - 10) (by omega), Nat.add_sub_cancel' hle]
    · rw [hupper (d - 10) (by omega), Nat.add_sub_cancel' hle]

theorem toHex_cons (hd : d < 16) (he : e < 16) :
    toHex (UInt8.ofNat (16 * d + e) :: bytes) = hexDigit d :: hexDigit e :: toHex bytes := by
  have hbyte : (UInt8.ofNat (16 * d + e)).toNat = 16 * d + e := by
    rw [UInt8.toNat_ofNat']
    omega
  rw [toHex, List.flatMap_cons, hbyte, ← toHex]
  have hdiv : (16 * d + e) / 16 = d := by omega
  have hmod : (16 * d + e) % 16 = e := by omega
  rw [hdiv, hmod]
  rfl

theorem fromHex_of_not_startsWithByte (h : startsWithByte t = false) : fromHex t = [] := by
  unfold fromHex
  split
  · next u v t =>
    simp only [startsWithByte, Bool.and_eq_false_iff, Option.isSome_eq_false_iff,
      Option.isNone_iff_eq_none] at h
    rcases h with h | h
    · simp [h]
    · simp only [h]
      split
      · next heq => cases heq
      · rfl
  · rfl

theorem spells_fromHex (t : Text) : Spells t (fromHex t) := by
  induction t using fromHex.induct with
  | case1 u v t d e hv hu ih =>
    obtain ⟨digits, rest, rfl, hdigits, hrest⟩ := ih
    refine ⟨u :: v :: digits, rest, rfl, ?_, hrest⟩
    rw [fromHex, hu, hv, toHex_cons (hexValue_lt hu) (hexValue_lt hv), List.map_cons,
      List.map_cons, hdigits, (hexValue_eq_some_iff (hexValue_lt hu)).mp hu,
      (hexValue_eq_some_iff (hexValue_lt hv)).mp hv]
  | case2 u v t hnone =>
    have hstops : startsWithByte (u :: v :: t) = false := by
      rw [startsWithByte]
      cases hu : hexValue u with
      | none => rfl
      | some d =>
        cases hv : hexValue v with
        | none => rfl
        | some e => exact (hnone d e hu hv).elim
    exact ⟨[], u :: v :: t, rfl, by rw [fromHex_of_not_startsWithByte hstops]; rfl, hstops⟩
  | case3 t hshort =>
    have hstops : startsWithByte t = false := by
      unfold startsWithByte
      split
      · next u v t => exact (hshort u v t rfl).elim
      · rfl
    exact ⟨[], t, rfl, by rw [fromHex_of_not_startsWithByte hstops]; rfl, hstops⟩

/-- Bytes are read from exactly the texts that spell them. -/
theorem fromHex_eq_iff : fromHex t = bytes ↔ Spells t bytes := by
  constructor
  · rintro rfl
    exact spells_fromHex t
  · rintro ⟨digits, rest, rfl, hdigits, hrest⟩
    induction bytes generalizing digits with
    | nil =>
      obtain rfl := List.map_eq_nil_iff.mp hdigits
      exact fromHex_of_not_startsWithByte hrest
    | cons x bytes ih =>
      have hlt : x.toNat < 256 := x.toNat_lt
      obtain ⟨u, digits, rfl, hu, hdigits⟩ := List.map_eq_cons_iff.mp hdigits
      obtain ⟨v, digits, rfl, hv, hdigits⟩ := List.map_eq_cons_iff.mp hdigits
      have hu := (hexValue_eq_some_iff (by omega : x.toNat / 16 < 16)).mpr hu
      have hv := (hexValue_eq_some_iff (by omega : x.toNat % 16 < 16)).mpr hv
      rw [List.cons_append, List.cons_append, fromHex, hu, hv]
      simp only [ih digits hdigits, Nat.div_add_mod, UInt8.ofNat_toNat]

theorem hmacMatches_toHex_iff : hmacMatches (toHex bytes) signature = true ↔
    Spells signature bytes := by
  rw [hmacMatches, timingSafeEqual, fromHex_toHex, ← fromHex_eq_iff]
  split
  · rw [Option.getD_some, beq_iff_eq, eq_comm]
  · next hlength =>
    refine iff_of_false (by simp) ?_
    rintro rfl
    exact hlength rfl

variable {hmac : List UInt8 → List UInt8}

theorem verifyGitHubSignature_iff {header : Option Text} :
    verifyGitHubSignature hmac payload header = true ↔
      ∃ signature, header = some (units "sha256=" ++ signature) ∧
        Spells signature (hmac payload) := by
  cases header with
  | none => simp [verifyGitHubSignature]
  | some header =>
    rw [verifyGitHubSignature]
    split
    · next hprefix =>
      obtain ⟨signature, rfl⟩ := List.isPrefixOf_iff_prefix.mp hprefix
      have hdrop : (units "sha256=" ++ signature).drop 7 = signature := List.drop_left' rfl
      rw [hdrop, hmacMatches_toHex_iff]
      constructor
      · exact fun h => ⟨signature, rfl, h⟩
      · rintro ⟨signature', heq, h⟩
        rwa [List.append_cancel_left (Option.some.inj heq)]
    · next hprefix =>
      refine iff_of_false (by simp) ?_
      rintro ⟨signature, heq, -⟩
      exact hprefix (List.isPrefixOf_iff_prefix.mpr ⟨signature, (Option.some.inj heq).symm⟩)

end AssureCode.Push
