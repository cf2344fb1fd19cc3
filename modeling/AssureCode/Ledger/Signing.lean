import Mathlib.Data.List.Basic

/-! # Signed Merkle roots

The signed text names the contract, the root and the number of leaves on lines of their own. The
contract id may have lines itself, so the text is read from its end.
-/

namespace AssureCode.Ledger.Signing

/-- A digit of a root, in either case. -/
def isHexDigit (c : Char) : Bool := c.isDigit || c ∈ "abcdefABCDEF".toList

/-- A root of 64 hexadecimal digits. -/
abbrev RootHash : Type := {s : String // s.toList.length = 64 ∧ ∀ c ∈ s.toList, isHexDigit c}

/-- The bytes that are signed. -/
def message (contractId rootHash : String) (leafCount : ℕ) : ByteArray :=
  s!"{contractId}\n{rootHash}\n{leafCount}".toUTF8

/-- `SignRootRequest`, whose root has lower case digits. -/
structure SignRootRequest where
  contractId : String
  rootHash : RootHash
  leafCount : ℕ
  minLength : 1 ≤ contractId.length
  pattern : ∀ c ∈ rootHash.val.toList, c.isUpper = false

/-! ## Signatures -/

/-- `ML_DSA_87`; no signature is taken to fit two messages of one key and context. -/
structure MlDsa87 where
  /-- The public and the private key of a seed. -/
  keyDerive : ByteArray → ByteArray × ByteArray
  sign (privateKey message ctx : ByteArray) : ByteArray
  /-- `none` is an exception. -/
  verify (publicKey message signature ctx : ByteArray) : Option Bool
  verify_sign : ∀ seed m ctx,
    verify (keyDerive seed).1 m (sign (keyDerive seed).2 m ctx) ctx = some true
  binding : ∀ publicKey m m' signature ctx, verify publicKey m signature ctx = some true →
    verify publicKey m' signature ctx = some true → m = m'

/-- `LEDGER_CONTEXT` -/
def ledgerContext : ByteArray := "assurecode/merkle-root/v1".toUTF8

/-- `SEED_BYTES` -/
def seedBytes : ℕ := 32

structure RootSignature where
  algorithm : String
  signature : ByteArray
  publicKey : ByteArray

structure MlDsaSigner (S : MlDsa87) where
  publicKey : ByteArray
  privateKey : ByteArray
  derived : ∃ seed, S.keyDerive seed = (publicKey, privateKey)

namespace MlDsaSigner

variable {S : MlDsa87}

/-- The constructor, or the message of its `ValueError`. -/
def make (S : MlDsa87) (seed : ByteArray) : Except String (MlDsaSigner S) :=
  if seed.size ≠ seedBytes then .error s!"seed must be {seedBytes} bytes, got {seed.size}"
  else .ok ⟨(S.keyDerive seed).1, (S.keyDerive seed).2, seed, rfl⟩

def signRoot (signer : MlDsaSigner S) (contractId rootHash : String) (leafCount : ℕ) :
    RootSignature where
  algorithm := "ML-DSA-87"
  signature := S.sign signer.privateKey (message contractId rootHash leafCount) ledgerContext
  publicKey := signer.publicKey

theorem verify_signRoot (signer : MlDsaSigner S) (contractId rootHash : String) (leafCount : ℕ) :
    S.verify signer.publicKey (message contractId rootHash leafCount)
      (signer.signRoot contractId rootHash leafCount).signature ledgerContext = some true := by
  obtain ⟨seed, hseed⟩ := signer.derived
  have hverify := S.verify_sign seed (message contractId rootHash leafCount) ledgerContext
  rw [hseed] at hverify
  exact hverify

end MlDsaSigner

def verifyRoot (S : MlDsa87) (expectedPublicKey : ByteArray) (contractId rootHash : String)
    (leafCount : ℕ) (signature : ByteArray) : Bool :=
  if expectedPublicKey.isEmpty || signature.isEmpty then false
  else
    (S.verify expectedPublicKey (message contractId rootHash leafCount) signature
      ledgerContext).getD false

variable {S : MlDsa87} {publicKey signature : ByteArray} {contractId rootHash : String}
  {leafCount : ℕ}

theorem verify_of_verifyRoot
    (h : verifyRoot S publicKey contractId rootHash leafCount signature = true) :
    S.verify publicKey (message contractId rootHash leafCount) signature ledgerContext =
      some true := by
  rw [verifyRoot] at h
  split_ifs at h
  exact (Option.getD_eq_iff.mp h).resolve_right (by simp)

/-! ## Reading the text from its end -/

theorem newline_notMem_root (root : RootHash) : '\n' ∉ root.val.toList := fun h =>
  absurd (root.2.2 _ h) (by decide)

theorem newline_notMem_digits (n : ℕ) : '\n' ∉ Nat.toDigits 10 n := fun h =>
  absurd (Nat.isDigit_of_mem_toDigits (by decide) (by decide) h) (by decide)

/-- A list is split at the last of its separators in one way. -/
theorem eq_of_last_separator {α : Type*} {a a' b b' : List α} {x : α} (hb : x ∉ b) (hb' : x ∉ b')
    (h : a ++ x :: b = a' ++ x :: b') : a = a' ∧ b = b' := by
  rcases List.append_eq_append_iff.mp h with ⟨c, rfl, hc⟩ | ⟨c, rfl, hc⟩
  · cases c with
    | nil => simpa using hc
    | cons y c =>
      obtain ⟨rfl, rfl⟩ := List.cons.inj hc
      exact absurd (List.mem_append_right _ List.mem_cons_self) hb
  · cases c with
    | nil => simpa [eq_comm] using hc
    | cons y c =>
      obtain ⟨rfl, rfl⟩ := List.cons.inj hc
      exact absurd (List.mem_append_right _ List.mem_cons_self) hb'

theorem toList_text (contractId rootHash : String) (leafCount : ℕ) :
    s!"{contractId}\n{rootHash}\n{leafCount}".toList =
      (contractId.toList ++ '\n' :: rootHash.toList) ++ '\n' :: Nat.toDigits 10 leafCount := by
  simp [toString]

/-- Equal messages have the same fields. -/
theorem message_inj {contractId contractId' : String} {root root' : RootHash}
    {leafCount leafCount' : ℕ}
    (h : message contractId root leafCount = message contractId' root' leafCount') :
    contractId = contractId' ∧ root = root' ∧ leafCount = leafCount' := by
  have htext := congrArg String.toList (String.toByteArray_inj.mp h)
  rw [toList_text, toList_text] at htext
  obtain ⟨hfront, hdigits⟩ := eq_of_last_separator (newline_notMem_digits _)
    (newline_notMem_digits _) htext
  obtain ⟨hid, hroot⟩ := eq_of_last_separator (newline_notMem_root _) (newline_notMem_root _)
    hfront
  have hcount := congrArg (Nat.ofDigitChars 10 · 0) hdigits
  simp only [Nat.ofDigitChars_ten_toDigits] at hcount
  exact ⟨String.toList_injective hid, Subtype.ext (String.toList_injective hroot), hcount⟩

theorem echoed_self (m : ByteArray) : some (decide (m.data = m.data)) = some true := by simp

theorem eq_of_echoed (m m' signature : ByteArray)
    (h : some (decide (signature.data = m.data)) = some true)
    (h' : some (decide (signature.data = m'.data)) = some true) : m = m' := by
  simp only [Option.some.injEq, decide_eq_true_eq] at h h'
  exact ByteArray.ext (h.symm.trans h')

/-- The signature is the message. -/
def transparent : MlDsa87 where
  keyDerive seed := (seed, seed)
  sign _ message _ := message
  verify _ message signature _ := some (decide (signature.data = message.data))
  verify_sign _ m _ := echoed_self m
  binding _ m m' signature _ h h' := eq_of_echoed m m' signature h h'

def transparentSigner : MlDsaSigner transparent :=
  ⟨"seed".toUTF8, "seed".toUTF8, "seed".toUTF8, rfl⟩

/-- The root of an empty ledger, with three leaves claimed. -/
def threeLeaves : SignRootRequest where
  contractId := "c-1"
  rootHash := ⟨String.ofList (List.replicate 64 '0'), by simp, by simp [isHexDigit]⟩
  leafCount := 3
  minLength := by decide
  pattern := by simp

end AssureCode.Ledger.Signing
