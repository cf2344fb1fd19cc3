import Mathlib.Data.List.MinMax
import Mathlib.Data.List.Nodup
import AssureCode.Js.Text

/-! # Enrolling a second factor

A secret is stored inactive, made active by a code, and made inactive again when the second factor
is turned off. The store cannot tell an inactive secret that waits for its code from one that has
been turned off, so the discarded one can be activated again.
-/

namespace AssureCode.Auth.Enrollment

open Js

/-- `generateURI` and `verify` of otplib. -/
structure Otplib where
  generateURI (issuer label secret : Text) : Text
  verify (secret token : Text) (now : ℕ) : Bool

/-! ## Tables -/

/-- A row of `mfa_credentials`, with the secret as it is decrypted. -/
structure Credential where
  credentialId : ℕ
  userId : Text
  secret : Text
  isActive : Bool
  createdAt : ℕ
  deriving DecidableEq

/-- `mfa_credentials`, whose key is drawn anew for each row. -/
structure Credentials where
  rows : List Credential
  nextId : ℕ
  fresh : ∀ c ∈ rows, c.credentialId < nextId
  distinct : (rows.map Credential.credentialId).Nodup

namespace Credentials

def empty : Credentials := ⟨[], 0, by simp, List.nodup_nil⟩

def insert (t : Credentials) (userId secret : Text) (now : ℕ) : Credentials where
  rows := t.rows ++ [⟨t.nextId, userId, secret, false, now⟩]
  nextId := t.nextId + 1
  fresh c hc := by
    rcases List.mem_append.mp hc with hc | hc
    · exact Nat.lt_succ_of_lt (t.fresh c hc)
    · rw [List.mem_singleton.mp hc]
      exact Nat.lt_succ_self _
  distinct := by
    rw [List.map_append, List.nodup_append']
    refine ⟨t.distinct, List.nodup_singleton _, ?_⟩
    rw [List.map_singleton, List.disjoint_singleton]
    intro hmem
    obtain ⟨c, hc, hid⟩ := List.mem_map.mp hmem
    exact (t.fresh c hc).ne hid

def delete (t : Credentials) (p : Credential → Bool) : Credentials where
  rows := t.rows.filter fun c => !p c
  nextId := t.nextId
  fresh c hc := t.fresh c (List.mem_of_mem_filter hc)
  distinct := t.distinct.sublist (List.filter_sublist.map _)

/-- `UPDATE mfa_credentials SET is_active = …` of the rows that it concerns. -/
def setActive (t : Credentials) (p : Credential → Bool) (isActive : Bool) : Credentials where
  rows := t.rows.map fun c => if p c then { c with isActive } else c
  nextId := t.nextId
  fresh c hc := by
    obtain ⟨d, hd, rfl⟩ := List.mem_map.mp hc
    have := t.fresh d hd
    split <;> exact this
  distinct := by
    rw [List.map_map]
    have hid : (Credential.credentialId ∘ fun c => if p c then { c with isActive } else c) =
        Credential.credentialId := by
      funext c
      simp only [Function.comp_apply]
      split <;> rfl
    rw [hid]
    exact t.distinct

def ofUser (t : Credentials) (userId : Text) : List Credential :=
  t.rows.filter fun c => c.userId = userId

/-- The newest of the user's rows that are active or that are not. -/
def latest (t : Credentials) (userId : Text) (isActive : Bool) : Option Credential :=
  ((t.ofUser userId).filter fun c => c.isActive = isActive).argmax (·.createdAt)

end Credentials

structure Accounts where
  /-- `mfa_enabled`, where there is the user. -/
  users : Text → Option Bool
  credentials : Credentials

def Accounts.setEnabled (s : Accounts) (userId : Text) (enabled : Bool) : Accounts :=
  { s with users := Function.update s.users userId ((s.users userId).map fun _ => enabled) }

/-! ## Calls -/

inductive Call
  /-- The secret is the one that is generated. -/
  | startEnrollment (userId email secret : Text) (now : ℕ)
  | verifyEnrollment (userId code : Text) (now : ℕ)
  | disableMfa (userId : Text)

def Call.userId : Call → Text
  | .startEnrollment userId _ _ _ | .verifyEnrollment userId _ _ | .disableMfa userId => userId

inductive Outcome
  | enrolling (secret otpauthUri : Text)
  /-- `MfaAlreadyEnabledError` -/
  | alreadyEnabled
  /-- The foreign key is violated. -/
  | noSuchUser
  | verified (valid : Bool)
  /-- `MfaNotPendingError` -/
  | notPending
  | disabled
  deriving DecidableEq

def startEnrollment (p : Otplib) (s : Accounts) (userId email secret : Text) (now : ℕ) :
    Outcome × Accounts :=
  if s.users userId = some true then (.alreadyEnabled, s)
  else
    let credentials := s.credentials.delete fun c => c.userId = userId && c.isActive = false
    if s.users userId = none then (.noSuchUser, { s with credentials })
    else
      (.enrolling secret (p.generateURI (units "AssureCode") email secret),
        { s with credentials := credentials.insert userId secret now })

def verifyEnrollment (p : Otplib) (s : Accounts) (userId code : Text) (now : ℕ) :
    Outcome × Accounts :=
  match s.credentials.latest userId false with
  | none => (.notPending, s)
  | some row =>
    if p.verify row.secret code now then
      let credentials := s.credentials.setActive (·.credentialId = row.credentialId) true
      (.verified true, { s with credentials }.setEnabled userId true)
    else (.verified false, s)

def disableMfa (s : Accounts) (userId : Text) : Outcome × Accounts :=
  let credentials := s.credentials.setActive (·.userId = userId) false
  (.disabled, { s with credentials }.setEnabled userId false)

def Accounts.call (p : Otplib) (s : Accounts) : Call → Outcome × Accounts
  | .startEnrollment userId email secret now => startEnrollment p s userId email secret now
  | .verifyEnrollment userId code now => verifyEnrollment p s userId code now
  | .disableMfa userId => disableMfa s userId

def Accounts.after (p : Otplib) (s : Accounts) (calls : List Call) : Accounts :=
  calls.foldl (fun s c => (s.call p c).2) s

/-- The user is there, and nothing of a second factor. -/
def Accounts.New (s : Accounts) (userId : Text) : Prop :=
  s.users userId = some false ∧ s.credentials.ofUser userId = []

/-! ## Histories -/

section Histories

variable (userId : Text)

def Call.Starts : Call → Prop
  | .startEnrollment user _ _ _ => user = userId
  | _ => False

def Call.Disables : Call → Prop
  | .disableMfa user => user = userId
  | _ => False

/-- The last start was with this secret, and there has been no disable since. -/
def StartedWith (before : List Call) (secret : Text) : Prop :=
  ∃ earlier email now later,
    before = earlier ++ .startEnrollment userId email secret now :: later ∧
      ∀ c ∈ later, ¬ c.Starts userId ∧ ¬ c.Disables userId

/-- There has been no start since a disable. -/
def Disabled (before : List Call) : Prop :=
  ∃ earlier later, before = earlier ++ .disableMfa userId :: later ∧
    ∀ c ∈ later, ¬ c.Starts userId

/-- There has been no start since a disable, but one before it. -/
def Discarded (before : List Call) : Prop :=
  Disabled userId before ∧ ∃ c ∈ before, c.Starts userId

/-- A verification turns the second factor on with the secret of the last start only. -/
structure Lawful (p : Otplib) (s : Accounts) (calls : List Call) : Prop where
  started : ∀ before code now rest, calls = before ++ .verifyEnrollment userId code now :: rest →
    (verifyEnrollment p (s.after p before) userId code now).1 = .verified true →
    ∃ secret, StartedWith userId before secret ∧ p.verify secret code now = true ∧
      ((s.after p (before ++ [.verifyEnrollment userId code now])).credentials.latest userId
        true).map (·.secret) = some secret
  notPending : ∀ before code now rest,
    calls = before ++ .verifyEnrollment userId code now :: rest → Disabled userId before →
    (verifyEnrollment p (s.after p before) userId code now).1 = .notPending

end Histories

/-! ## Phases -/

/-- What a user's part of the tables comes to. -/
inductive Phase
  | none
  | pending (secret : Text)
  | enabled (secret : Text)
  | left (secret : Text)

/-- The one row that a user has. -/
def Accounts.HasRow (s : Accounts) (userId secret : Text) (isActive : Bool) : Prop :=
  s.users userId = some isActive ∧ ∃ id createdAt,
    s.credentials.ofUser userId = [⟨id, userId, secret, isActive, createdAt⟩]

def Accounts.In (s : Accounts) (userId : Text) : Phase → Prop
  | .none => s.New userId
  | .pending secret | .left secret => s.HasRow userId secret false
  | .enabled secret => s.HasRow userId secret true

section Phase

variable (p : Otplib) (userId : Text)

/-- What the user's own call does. -/
def Phase.act : Phase → Call → Phase
  | .enabled old, .startEnrollment .. => .enabled old
  | _, .startEnrollment _ _ secret _ => .pending secret
  | .pending secret, .verifyEnrollment _ code now =>
    if p.verify secret code now then .enabled secret else .pending secret
  | .left secret, .verifyEnrollment _ code now =>
    if p.verify secret code now then .enabled secret else .left secret
  | φ, .verifyEnrollment .. => φ
  | .none, .disableMfa _ => .none
  | .pending secret, .disableMfa _ | .enabled secret, .disableMfa _
  | .left secret, .disableMfa _ => .left secret

/-- The answer of a verification. -/
def Phase.answer (code : Text) (now : ℕ) : Phase → Outcome
  | .none | .enabled _ => .notPending
  | .pending secret | .left secret => .verified (p.verify secret code now)

def Phase.next (φ : Phase) (c : Call) : Phase := if c.userId = userId then φ.act p c else φ

def phase (calls : List Call) : Phase := calls.foldl (Phase.next p userId) .none

end Phase

/-! ## The rows of a user -/

variable {p : Otplib} {s t : Accounts} {userId user secret code : Text} {now : ℕ} {φ : Phase}
  {c : Call} {calls : List Call}

theorem Credentials.ofUser_insert (t : Credentials) (user secret : Text) (now : ℕ) :
    (t.insert user secret now).ofUser userId = t.ofUser userId ++
      if user = userId then [⟨t.nextId, user, secret, false, now⟩] else [] := by
  rw [ofUser, insert, List.filter_append, List.filter_singleton, ofUser]
  by_cases h : user = userId <;> simp [h]

theorem Credentials.ofUser_delete (t : Credentials) (q : Credential → Bool) :
    (t.delete q).ofUser userId = (t.ofUser userId).filter fun c => !q c := by
  rw [ofUser, ofUser, delete, List.filter_filter, List.filter_filter]
  simp only [Bool.and_comm]

theorem Credentials.ofUser_setActive (t : Credentials) (q : Credential → Bool) (b : Bool) :
    (t.setActive q b).ofUser userId =
      (t.ofUser userId).map fun c => if q c then { c with isActive := b } else c := by
  rw [ofUser, ofUser, setActive, List.filter_map]
  congr 1
  apply List.filter_congr
  intro c _
  simp only [Function.comp_apply]
  split <;> rfl

theorem Credentials.ofUser_setActive_other (t : Credentials) {q : Credential → Bool} (b : Bool)
    (h : ∀ c ∈ t.ofUser userId, q c = false) :
    (t.setActive q b).ofUser userId = t.ofUser userId := by
  rw [ofUser_setActive]
  refine (List.map_congr_left fun c hc => ?_).trans (List.map_id _)
  rw [h c hc]
  rfl

theorem Accounts.in_congr (hu : t.users userId = s.users userId)
    (hc : t.credentials.ofUser userId = s.credentials.ofUser userId) (h : s.In userId φ) :
    t.In userId φ := by
  cases φ with
  | none => exact ⟨hu.trans h.1, hc.trans h.2⟩
  | pending secret | left secret | enabled secret =>
    obtain ⟨henabled, id, createdAt, hrow⟩ := h
    exact ⟨hu.trans henabled, id, createdAt, hc.trans hrow⟩

theorem setEnabled_ne (s : Accounts) (b : Bool) (h : user ≠ userId) :
    (s.setEnabled user b).users userId = s.users userId :=
  Function.update_of_ne (Ne.symm h) _ _

theorem setEnabled_self (s : Accounts) (b : Bool) :
    (s.setEnabled userId b).users userId = (s.users userId).map fun _ => b :=
  Function.update_self ..

theorem Credentials.mem_of_latest {t : Credentials} {b : Bool} {row : Credential}
    (h : t.latest user b = some row) : row ∈ t.rows ∧ row.userId = user := by
  have hmem := List.mem_of_mem_filter (List.argmax_mem (Option.mem_def.mpr h))
  exact ⟨List.mem_of_mem_filter hmem, of_decide_eq_true (List.mem_filter.mp hmem).2⟩

theorem Credentials.ne_of_ofUser {t : Credentials} {c : Credential} (hc : c ∈ t.ofUser userId)
    (h : user ≠ userId) : c.userId ≠ user := by
  rw [of_decide_eq_true (List.mem_filter.mp hc).2]
  exact Ne.symm h

/-- What is done for another user leaves a user's part alone. -/
theorem in_call_other (hne : c.userId ≠ userId) (h : s.In userId φ) :
    (s.call p c).2.In userId φ := by
  cases c with
  | startEnrollment user email secret now =>
    replace hne : user ≠ userId := hne
    have hdelete : (s.credentials.delete fun c =>
        c.userId = user && c.isActive = false).ofUser userId = s.credentials.ofUser userId := by
      rw [Credentials.ofUser_delete, List.filter_eq_self]
      intro c hc
      simp [Credentials.ne_of_ofUser hc hne]
    rw [Accounts.call, startEnrollment]
    split_ifs with henabled huser
    · exact h
    · exact Accounts.in_congr (s := s) rfl hdelete h
    · refine Accounts.in_congr (s := s) rfl ?_ h
      rw [Credentials.ofUser_insert, hdelete, if_neg hne, List.append_nil]
  | verifyEnrollment user code now =>
    replace hne : user ≠ userId := hne
    rw [Accounts.call, verifyEnrollment]
    cases hlatest : s.credentials.latest user false with
    | none => exact h
    | some row =>
      dsimp only
      split_ifs with hvalid
      · refine Accounts.in_congr (s := s) (setEnabled_ne _ _ hne) ?_ h
        refine Credentials.ofUser_setActive_other _ _ fun c hc => decide_eq_false fun hid => ?_
        obtain ⟨hrow, huser⟩ := Credentials.mem_of_latest hlatest
        -- the key is that of one row
        have hsame : c = row := List.inj_on_of_nodup_map s.credentials.distinct
          (List.mem_of_mem_filter hc) hrow hid
        exact Credentials.ne_of_ofUser hc hne (hsame ▸ huser)
      · exact h
  | disableMfa user =>
    replace hne : user ≠ userId := hne
    refine Accounts.in_congr (s := s) (setEnabled_ne _ _ hne) ?_ h
    exact Credentials.ofUser_setActive_other _ _ fun c hc =>
      decide_eq_false (Credentials.ne_of_ofUser hc hne)

theorem Accounts.HasRow.latest (h : s.HasRow userId secret false) :
    ∃ row, s.credentials.latest userId false = some row ∧ row.secret = secret ∧
      s.credentials.ofUser userId = [row] := by
  obtain ⟨-, id, createdAt, hrow⟩ := h
  refine ⟨⟨id, userId, secret, false, createdAt⟩, ?_, rfl, hrow⟩
  rw [Credentials.latest, hrow]
  rfl

theorem Accounts.HasRow.latest_none (h : s.HasRow userId secret true) :
    s.credentials.latest userId false = none := by
  obtain ⟨-, id, createdAt, hrow⟩ := h
  rw [Credentials.latest, hrow]
  rfl

theorem Accounts.New.latest_none (h : s.New userId) :
    s.credentials.latest userId false = none := by
  rw [Credentials.latest, h.2]
  rfl

/-- A start from where the second factor is off. -/
theorem in_startEnrollment (email secret : Text) (now : ℕ) (hoff : s.users userId = some false)
    (hrows : ∀ c ∈ s.credentials.ofUser userId, c.userId = userId ∧ c.isActive = false) :
    (startEnrollment p s userId email secret now).2.HasRow userId secret false := by
  rw [startEnrollment, hoff, if_neg (by simp), if_neg (by simp)]
  refine ⟨hoff, s.credentials.nextId, now, ?_⟩
  dsimp only
  rw [Credentials.ofUser_insert, Credentials.ofUser_delete, if_pos rfl,
    List.filter_eq_nil_iff.mpr, List.nil_append]
  · rfl
  · intro c hc
    simp [hrows c hc]

/-- A correct code for the one row that there is. -/
theorem in_verifyEnrollment (code : Text) (now : ℕ) (h : s.HasRow userId secret false) :
    (verifyEnrollment p s userId code now).1 = .verified (p.verify secret code now) ∧
    (verifyEnrollment p s userId code now).2.HasRow userId secret (p.verify secret code now) := by
  obtain ⟨row, hlatest, rfl, hrow⟩ := h.latest
  obtain ⟨hoff, id, createdAt, hrow'⟩ := h
  rw [verifyEnrollment, hlatest]
  dsimp only
  split_ifs with hvalid
  · have hid : row.credentialId = id := by
      rw [(List.cons.inj (hrow.symm.trans hrow')).1]
    rw [hvalid]
    refine ⟨rfl, ?_, id, createdAt, ?_⟩
    · rw [setEnabled_self]
      dsimp only
      rw [hoff]
      rfl
    · apply (Credentials.ofUser_setActive ..).trans
      rw [hrow', List.map_singleton, if_pos (decide_eq_true hid.symm)]
  · rw [Bool.not_eq_true] at hvalid
    rw [hvalid]
    exact ⟨rfl, hoff, id, createdAt, hrow'⟩

theorem in_disableMfa {b : Bool} (h : s.HasRow userId secret b) :
    (disableMfa s userId).2.HasRow userId secret false := by
  obtain ⟨hb, id, createdAt, hrow⟩ := h
  refine ⟨?_, id, createdAt, ?_⟩
  · rw [disableMfa, setEnabled_self]
    dsimp only
    rw [hb]
    rfl
  · apply (Credentials.ofUser_setActive ..).trans
    rw [hrow, List.map_singleton, if_pos (decide_eq_true rfl)]

/-- The user's own calls go from phase to phase. -/
theorem in_call_self (huser : c.userId = userId) (h : s.In userId φ) :
    (s.call p c).2.In userId (φ.act p c) := by
  cases c with
  | startEnrollment user email secret now =>
    obtain rfl : user = userId := huser
    cases φ with
    | none => exact in_startEnrollment email secret now h.1 (by rw [h.2]; simp)
    | pending old | left old =>
      apply in_startEnrollment email secret now h.1
      obtain ⟨-, id, createdAt, hrow⟩ := h
      rw [hrow]
      simp
    | enabled old =>
      rw [Accounts.call, startEnrollment, if_pos h.1]
      exact h
  | verifyEnrollment user code now =>
    obtain rfl : user = userId := huser
    cases φ with
    | none =>
      rw [Accounts.call, verifyEnrollment, Accounts.New.latest_none h]
      exact h
    | enabled old =>
      rw [Accounts.call, verifyEnrollment, Accounts.HasRow.latest_none h]
      exact h
    | pending old | left old =>
      have hrow := (in_verifyEnrollment (p := p) code now h).2
      rw [Phase.act]
      split_ifs with hvalid
      · rw [hvalid] at hrow
        exact hrow
      · rw [Bool.not_eq_true] at hvalid
        rw [hvalid] at hrow
        exact hrow
  | disableMfa user =>
    obtain rfl : user = userId := huser
    cases φ with
    | none =>
      refine ⟨?_, ?_⟩
      · rw [Accounts.call, disableMfa, setEnabled_self]
        dsimp only
        rw [h.1]
        rfl
      · apply (Credentials.ofUser_setActive ..).trans
        rw [h.2]
        rfl
    | pending old | left old | enabled old => exact in_disableMfa h

theorem in_call (h : s.In userId φ) : (s.call p c).2.In userId (φ.next p userId c) := by
  rw [Phase.next]
  split_ifs with huser
  · exact in_call_self huser h
  · exact in_call_other huser h

/-- The tables refine the phases. -/
theorem in_after (h : s.New userId) : (s.after p calls).In userId (phase p userId calls) := by
  induction calls using List.reverseRecOn with
  | nil => exact h
  | append_singleton calls c ih =>
    rw [Accounts.after, phase, List.foldl_append, List.foldl_append]
    exact in_call ih

theorem verify_outcome (h : s.In userId φ) (code : Text) (now : ℕ) :
    (verifyEnrollment p s userId code now).1 = φ.answer p code now := by
  cases φ with
  | none => rw [verifyEnrollment, Accounts.New.latest_none h]; rfl
  | enabled old => rw [verifyEnrollment, Accounts.HasRow.latest_none h]; rfl
  | pending old | left old => exact (in_verifyEnrollment code now h).1

/-! ## Phases and histories -/

theorem phase_append (c : Call) :
    phase p userId (calls ++ [c]) = (phase p userId calls).next p userId c := by
  rw [phase, List.foldl_append]
  rfl

variable {before : List Call}

theorem next_of_other (h : c.userId ≠ userId) : φ.next p userId c = φ := if_neg h

theorem userId_of_starts (h : c.Starts userId) : c.userId = userId := by
  cases c with
  | startEnrollment => exact h
  | _ => cases h

/-- There is a secret exactly when there has been a start. -/
theorem phase_ne_none_iff : phase p userId before ≠ .none ↔ ∃ c ∈ before, c.Starts userId := by
  induction before using List.reverseRecOn with
  | nil => simp [phase]
  | append_singleton before c ih =>
    rw [phase_append]
    simp only [List.mem_append, List.mem_singleton, or_and_right, exists_or, exists_eq_left, ← ih]
    by_cases huser : c.userId = userId
    · rw [Phase.next, if_pos huser]
      cases c with
      | startEnrollment user email secret now =>
        refine iff_of_true ?_ (.inr huser)
        cases phase p userId before <;> simp [Phase.act]
      | verifyEnrollment user code now =>
        cases phase p userId before with
        | pending secret | left secret =>
          rw [Phase.act]
          split_ifs <;> simp [Call.Starts]
        | none | enabled secret => simp [Phase.act, Call.Starts]
      | disableMfa user => cases phase p userId before <;> simp [Phase.act, Call.Starts]
    · rw [next_of_other huser]
      simp [mt userId_of_starts huser]

theorem StartedWith.append (h : StartedWith userId before secret) (hs : ¬ c.Starts userId)
    (hd : ¬ c.Disables userId) : StartedWith userId (before ++ [c]) secret := by
  obtain ⟨earlier, email, now, later, rfl, hlater⟩ := h
  refine ⟨earlier, email, now, later ++ [c], by simp, ?_⟩
  rw [List.forall_mem_append, List.forall_mem_singleton]
  exact ⟨hlater, hs, hd⟩

theorem disabled_append : Disabled userId (before ++ [c]) ↔
    c = .disableMfa userId ∨ ¬ c.Starts userId ∧ Disabled userId before := by
  constructor
  · rintro ⟨earlier, later, heq, hlater⟩
    rcases List.eq_nil_or_concat later with rfl | ⟨later, d, rfl⟩
    · exact .inl (List.head_eq_of_cons_eq (List.append_inj' heq rfl).2)
    · rw [List.concat_eq_append, ← List.cons_append, ← List.append_assoc] at heq
      obtain ⟨rfl, hd⟩ := List.append_inj' heq rfl
      obtain rfl : c = d := List.head_eq_of_cons_eq hd
      rw [List.concat_eq_append, List.forall_mem_append, List.forall_mem_singleton] at hlater
      exact .inr ⟨hlater.2, earlier, later, rfl, hlater.1⟩
  · rintro (rfl | ⟨hc, earlier, later, rfl, hlater⟩)
    · exact ⟨before, [], rfl, by simp⟩
    · refine ⟨earlier, later ++ [c], by simp, ?_⟩
      rw [List.forall_mem_append, List.forall_mem_singleton]
      exact ⟨hlater, hc⟩

/-- A pending secret is that of the last start. -/
theorem startedWith_of_phase (h : phase p userId before = .pending secret) :
    StartedWith userId before secret := by
  induction before using List.reverseRecOn with
  | nil => cases h
  | append_singleton before c ih =>
    rw [phase_append] at h
    by_cases huser : c.userId = userId
    · rw [Phase.next, if_pos huser] at h
      cases c with
      | startEnrollment user email new now =>
        obtain rfl : user = userId := huser
        cases hφ : phase p user before <;> rw [hφ] at h <;> cases h
        all_goals exact ⟨before, email, now, [], rfl, by simp⟩
      | verifyEnrollment user code now =>
        cases hφ : phase p userId before with
        | pending old =>
          rw [hφ, Phase.act] at h
          split_ifs at h
          exact (ih (hφ.trans h)).append id id
        | left old =>
          rw [hφ, Phase.act] at h
          split_ifs at h
        | none | enabled old => rw [hφ] at h; cases h
      | disableMfa user => cases hφ : phase p userId before <;> rw [hφ] at h <;> cases h
    · rw [next_of_other huser] at h
      refine (ih h).append (mt userId_of_starts huser) fun hd => huser ?_
      cases c with
      | disableMfa => exact hd
      | _ => cases hd

/-- What is left has been discarded. -/
theorem discarded_of_phase (h : phase p userId before = .left secret) :
    Discarded userId before := by
  refine ⟨?_, phase_ne_none_iff.mp (by rw [h]; exact Phase.noConfusion)⟩
  induction before using List.reverseRecOn with
  | nil => cases h
  | append_singleton before c ih =>
    rw [phase_append] at h
    rw [disabled_append]
    by_cases huser : c.userId = userId
    · rw [Phase.next, if_pos huser] at h
      cases c with
      | startEnrollment user email new now =>
        cases hφ : phase p userId before <;> rw [hφ] at h <;> cases h
      | verifyEnrollment user code now =>
        cases hφ : phase p userId before with
        | pending old =>
          rw [hφ, Phase.act] at h
          split_ifs at h
        | left old =>
          rw [hφ, Phase.act] at h
          split_ifs at h
          exact .inr ⟨id, ih (hφ.trans h)⟩
        | none | enabled old => rw [hφ] at h; cases h
      | disableMfa user => exact .inl (congrArg Call.disableMfa huser)
    · rw [next_of_other huser] at h
      exact .inr ⟨mt userId_of_starts huser, ih h⟩

/-- In a lawful run a discarded secret stays as it is. -/
theorem phase_of_discarded (hnew : s.New userId) (hlaw : Lawful userId p s calls)
    {rest : List Call} (hcalls : calls = before ++ rest) (h : Discarded userId before) :
    ∃ secret, phase p userId before = .left secret := by
  induction before using List.reverseRecOn generalizing rest with
  | nil => obtain ⟨-, c, hc, -⟩ := h; cases hc
  | append_singleton before c ih =>
    obtain ⟨hdisabled, hstart⟩ := h
    rw [phase_append]
    rcases disabled_append.mp hdisabled with rfl | ⟨hc, hbefore⟩
    · rw [Phase.next, if_pos (by rfl)]
      simp only [List.mem_append, List.mem_singleton, or_and_right, exists_or,
        exists_eq_left] at hstart
      have hne : phase p userId before ≠ .none :=
        phase_ne_none_iff.mpr (hstart.resolve_right id)
      cases hφ : phase p userId before with
      | none => exact absurd hφ hne
      | pending secret | enabled secret | left secret => exact ⟨secret, rfl⟩
    · simp only [List.mem_append, List.mem_singleton, or_and_right, exists_or,
        exists_eq_left] at hstart
      obtain ⟨secret, hφ⟩ := ih (by simpa using hcalls) ⟨hbefore, hstart.resolve_right hc⟩
      by_cases huser : c.userId = userId
      · rw [Phase.next, if_pos huser, hφ]
        cases c with
        | startEnrollment => exact absurd huser hc
        | verifyEnrollment user code now =>
          obtain rfl : user = userId := huser
          have hout := hlaw.notPending before code now rest (by simpa using hcalls) hbefore
          have hin : (s.after p before).In user (phase p user before) := in_after hnew
          rw [hφ] at hin
          rw [verify_outcome hin] at hout
          cases hout
        | disableMfa => exact ⟨secret, rfl⟩
      · rw [next_of_other huser]
        exact ⟨secret, hφ⟩

/--
A second factor comes from the last start and is over with a disable in exactly those histories in
which no discarded secret is verified.
-/
theorem lawful_iff (p : Otplib) (s : Accounts) (userId : Text) (calls : List Call)
    (hnew : s.New userId) :
    Lawful userId p s calls ↔ ∀ before code now rest,
      calls = before ++ .verifyEnrollment userId code now :: rest → ¬ Discarded userId before := by
  constructor
  · intro hlaw before code now rest hcalls hdiscarded
    obtain ⟨secret, hφ⟩ := phase_of_discarded hnew hlaw hcalls hdiscarded
    have hout := hlaw.notPending before code now rest hcalls hdiscarded.1
    have hin : (s.after p before).In userId (phase p userId before) := in_after hnew
    rw [hφ] at hin
    rw [verify_outcome hin] at hout
    cases hout
  · intro hkept
    constructor
    · intro before code now rest hcalls hout
      have hin : (s.after p before).In userId (phase p userId before) := in_after hnew
      rw [verify_outcome hin] at hout
      cases hφ : phase p userId before with
      | none | enabled secret => rw [hφ] at hout; cases hout
      | left secret => exact absurd (discarded_of_phase hφ) (hkept before code now rest hcalls)
      | pending secret =>
        rw [hφ] at hout
        have hvalid : p.verify secret code now = true := Outcome.verified.inj hout
        refine ⟨secret, startedWith_of_phase hφ, hvalid, ?_⟩
        have hafter : (s.after p (before ++ [.verifyEnrollment userId code now])).In userId
          (phase p userId (before ++ [.verifyEnrollment userId code now])) := in_after hnew
        rw [phase_append, hφ, Phase.next, if_pos (by rfl), Phase.act, if_pos hvalid] at hafter
        obtain ⟨-, id, createdAt, hrow⟩ := hafter
        rw [Credentials.latest, hrow]
        rfl
    · intro before code now rest hcalls hdisabled
      have hnone : phase p userId before = .none := by
        by_contra hφ
        exact hkept before code now rest hcalls ⟨hdisabled, phase_ne_none_iff.mp hφ⟩
      have hin : (s.after p before).In userId (phase p userId before) := in_after hnew
      rw [verify_outcome hin, hnone]
      rfl

/-! ## An account -/

def alice : Text := units "alice"

def aliceSecret : Text := units "JBSWY3DPEHPK3PXP"

/-- A code is right when it is the secret. -/
def otplib : Otplib where
  generateURI issuer label secret := issuer ++ label ++ secret
  verify secret token _ := token = secret

def aliceOnly : Accounts := ⟨fun userId => if userId = alice then some false else none, .empty⟩

def enrolls : List Call :=
  [.startEnrollment alice (units "alice@example.test") aliceSecret 0,
    .verifyEnrollment alice aliceSecret 1]

theorem lawful_enrolls : Lawful alice otplib aliceOnly enrolls := by
  rw [lawful_iff otplib aliceOnly alice enrolls ⟨rfl, rfl⟩]
  rintro before code now rest hcalls ⟨⟨earlier, later, rfl, -⟩, -⟩
  have hmem : Call.disableMfa alice ∈ enrolls := by
    rw [hcalls]
    simp
  simp [enrolls] at hmem

/-- The code of a discarded secret turns the second factor on again. -/
theorem discarded_secret_enables :
    (verifyEnrollment otplib (aliceOnly.after otplib (enrolls ++ [.disableMfa alice])) alice
      aliceSecret 3).1 = .verified true ∧
    ¬ Lawful alice otplib aliceOnly
      (enrolls ++ [.disableMfa alice] ++ [.verifyEnrollment alice aliceSecret 3]) := by
  have hout : (verifyEnrollment otplib (aliceOnly.after otplib (enrolls ++ [.disableMfa alice]))
      alice aliceSecret 3).1 = .verified true := by decide +kernel
  refine ⟨hout, fun hlaw => ?_⟩
  have hnot := hlaw.notPending (enrolls ++ [.disableMfa alice]) aliceSecret 3 [] rfl
    ⟨enrolls, [], rfl, by simp⟩
  rw [hout] at hnot
  cases hnot

end AssureCode.Auth.Enrollment
