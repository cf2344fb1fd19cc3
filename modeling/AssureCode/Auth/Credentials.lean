import AssureCode.Js.LowerCase

/-! # Emails and passwords

The form in which an email is stored and looked up, and the policy for a password that is set.
-/

namespace AssureCode.Auth

open Js

def passwordMinLength : ℕ := 8

def passwordMaxLength : ℕ := 128

def commonPasswords : List String :=
  ["password", "password1", "password123", "password1234", "12345678", "123456789", "1234567890",
   "123456", "1234567", "qwerty123", "qwertyuiop", "qwerty12345", "letmein123", "letmein1",
   "welcome123", "welcome1", "admin1234", "admin123", "iloveyou1", "iloveyou123", "sunshine1",
   "princess1", "football1", "football123", "baseball1", "basketball1", "monkey123", "dragon123",
   "master123", "shadow123", "superman1", "batman123", "trustno1", "freedom123", "whatever1",
   "starwars1", "summer2024", "summer2025", "summer2026", "winter2024", "winter2025",
   "winter2026", "spring2024", "spring2025", "spring2026", "autumn2024", "password2024",
   "password2025", "password2026", "password!", "password@", "password#", "p@ssw0rd", "p@ssword",
   "passw0rd", "passw0rd1", "passw0rd!", "abc123456", "abcd1234", "abcdefgh", "abcd12345",
   "12345678a", "a12345678", "zxcvbnm123", "asdfghjkl", "asdf1234", "1qaz2wsx", "1q2w3e4r",
   "qazwsxedc", "zaq12wsx", "q1w2e3r4", "iloveyou", "princess123", "sunshine123", "football12",
   "baseball123", "trustno1234", "letmein12345", "monkey12345", "dragon12345", "shadow12345",
   "master12345", "flower123", "hunter123", "hunter2123", "ranger123", "soccer123", "harley123",
   "jordan123", "jennifer1", "michelle1", "michael123", "daniel123", "thomas123", "jessica123",
   "charlie123", "freedom1", "ginger123", "cookie123", "buster123", "joshua123", "maggie123",
   "matthew123", "robert123", "martin123", "andrew123", "starwars123", "batman12345",
   "superman123", "liverpool1", "chelsea123", "arsenal123", "newyork123", "chicago123",
   "computer1", "internet1", "security1", "password12", "password01", "admin12345", "root123456",
   "toor123456", "guest12345", "guest1234", "test123456", "test1234", "testtest1", "default123",
   "changeme123", "changeme1", "temppass123", "newpass123", "demo1234", "demopassword",
   "welcome2024", "welcome2025", "letmein2024", "letmein2025", "qwerty!", "qwerty@123",
   "zxcvbn123", "asdfasdf1", "aaaaaaaa1", "11111111a", "00000000a", "pass1234", "pass12345",
   "passpass1", "nicole123", "amanda123", "melissa123", "stephanie1", "jasmine123", "destiny123",
   "summer1234", "winter1234", "autumn1234", "spring1234", "august1234", "december1234",
   "donald123", "trump12345", "biden12345", "obama12345", "yankees123", "cowboys123",
   "password!1", "password@1", "password#1", "p@ssw0rd123", "p@55word", "letmein!",
   "welcome!123", "admin!1234", "root!12345", "access123", "access1234", "system123",
   "server1234", "network123", "gateway123", "firewall1", "oracle1234", "database1",
   "monkey1234", "tigger123", "buttons123", "chicken123", "sparky123", "coffee123", "purple123",
   "orange123", "yellow123", "silver123", "golden123", "diamond123"]

section Functions

variable (tables : CaseTables)

/-- Trimmed and in lower case. -/
def canonicalizeEmail (email : Text) : Text := tables.toLowerCase (trim email)

def isCommonPassword (password : Text) : Bool :=
  (commonPasswords.map units).contains (tables.toLowerCase (trim password))

/-- `/^[\x21-\x7E]+$/` -/
def isPrintableAscii (u : ℕ) : Bool := 0x21 ≤ u && u ≤ 0x7E

/-- The first rule that the password breaks. -/
def validateNewPassword (password : Text) : Option String :=
  if password = [] then some "Password is required."
  else if password.length < passwordMinLength then
    some s!"Password must be at least {passwordMinLength} characters long."
  else if passwordMaxLength < password.length then
    some s!"Password must not exceed {passwordMaxLength} characters."
  else if password.any isWhiteSpace then some "Password cannot contain spaces or whitespace."
  else if !password.all isPrintableAscii then
    some ("Password contains invalid characters. Use only English letters, numbers, and special " ++
      "characters.")
  else if isCommonPassword tables password then
    some "This password is too common. Please choose a different password."
  else none

end Functions

variable {tables : CaseTables}

/-- The canonical form is its own canonical form. -/
theorem canonicalizeEmail_canonicalizeEmail (email : Text) :
    canonicalizeEmail tables (canonicalizeEmail tables email) = canonicalizeEmail tables email := by
  have htrimmed : Trimmed (tables.toLowerCase (trim email)) :=
    trimmed_toLowerCase (trimmed_trim email)
  rw [canonicalizeEmail, canonicalizeEmail, trim_of_trimmed htrimmed, toLowerCase_toLowerCase]

theorem isWhiteSpace_of_isPrintableAscii {u : ℕ} (h : isPrintableAscii u = true) :
    isWhiteSpace u = false := by
  simp only [isPrintableAscii, Bool.and_eq_true, decide_eq_true_eq] at h
  simp only [isWhiteSpace, Bool.or_eq_false_iff, Bool.and_eq_false_iff, decide_eq_false_iff_not,
    beq_eq_false_iff_ne]
  omega

theorem ite_some_eq_none {α : Type} {c : Prop} [Decidable c] {a : α} {x : Option α} :
    (if c then some a else x) = none ↔ ¬ c ∧ x = none := by
  split <;> simp [*]

/-- The rule about white space forbids nothing that the one about characters allows. -/
theorem validateNewPassword_eq_none_iff (password : Text) :
    validateNewPassword tables password = none ↔
      passwordMinLength ≤ password.length ∧ password.length ≤ passwordMaxLength ∧
        password.all isPrintableAscii = true ∧ isCommonPassword tables password = false := by
  have hspace : password.all isPrintableAscii = true → password.any isWhiteSpace = false := by
    rw [List.all_eq_true, List.any_eq_false]
    intro h u hu
    rw [isWhiteSpace_of_isPrintableAscii (h u hu)]
    exact Bool.false_ne_true
  have hempty : passwordMinLength ≤ password.length → password ≠ [] := by
    rintro h rfl
    exact absurd h (by decide)
  simp only [validateNewPassword, ite_some_eq_none, Bool.not_eq_true', Bool.not_eq_true, not_lt,
    Bool.not_eq_false, and_true]
  tauto

end AssureCode.Auth
