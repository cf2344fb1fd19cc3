import AssureCode.Access.Mediation

/-! # A session that has ended

Tokens outlive the sessions they were issued for. A session that has expired, or that a logout or
a new password has revoked, is never active again, so that no request that arrives afterwards does
anything under it.
-/

namespace AssureCode.Access

open Js Program Machine
open Concurrent (OnTrail)

variable {g : Gateway} {s s' : Store} {sessionId : Text}

/-- The session was issued once. -/
def Store.Issued (s : Store) (sessionId : Text) : Prop :=
  ∃ row ∈ s.sessions, row.sessionId = sessionId

def Store.Ended (s : Store) (sessionId : Text) : Prop :=
  s.Issued sessionId ∧ s.isSessionActive sessionId = false

/-- No session goes away, and none that was issued becomes active. -/
def Fades (s s' : Store) : Prop :=
  ∀ sessionId, s.Issued sessionId →
    s'.Issued sessionId ∧ (s'.isSessionActive sessionId → s.isSessionActive sessionId)

theorem isSessionActive_iff : s.isSessionActive sessionId ↔
    ∃ row ∈ s.sessions, row.sessionId = sessionId ∧ row.Active s.now := by
  rw [Store.isSessionActive, List.any_eq_true]
  exact exists_congr fun row => and_congr_right' decide_eq_true_iff

theorem fades_of_sessions (hsessions : s'.sessions = s.sessions) (hnow : s.now ≤ s'.now) :
    Fades s s' := by
  intro sessionId hissued
  refine ⟨by rwa [Store.Issued, hsessions], fun hactive => ?_⟩
  obtain ⟨row, hrow, hid, hrevoked, hexpires⟩ := isSessionActive_iff.mp hactive
  exact isSessionActive_iff.mpr ⟨row, hsessions ▸ hrow, hid, hrevoked, by omega⟩

theorem fades_of_map {f : Session → Session} (hid : ∀ row, (f row).sessionId = row.sessionId)
    (hactive : ∀ row, (f row).Active s.now → row.Active s.now) :
    Fades s { s with sessions := s.sessions.map f } := by
  rintro sessionId ⟨row, hrow, rfl⟩
  refine ⟨⟨f row, List.mem_map_of_mem hrow, hid row⟩, fun hs => ?_⟩
  obtain ⟨_, hmem, heq, hact⟩ := isSessionActive_iff.mp hs
  obtain ⟨row', hrow', rfl⟩ := List.mem_map.mp hmem
  exact isSessionActive_iff.mpr ⟨row', hrow', (hid row').symm.trans heq, hactive row' hact⟩

theorem sessionId_revoke (row : Session) : (s.revoke row).sessionId = row.sessionId := by
  rw [Store.revoke]
  split <;> rfl

theorem not_active_revoke (row : Session) : ¬ (s.revoke row).Active s.now := by
  rw [Store.revoke, Session.Active]
  split
  · simp
  · next hrevoked => exact fun h => hrevoked h.1

/-- Sessions are revoked one by one. -/
theorem fades_revoke {p : Session → Prop} [DecidablePred p] :
    Fades s { s with sessions := s.sessions.map fun row => if p row then s.revoke row else row } := by
  apply fades_of_map
  · intro row
    split
    · exact sessionId_revoke row
    · rfl
  · intro row hactive
    split at hactive
    · exact absurd hactive (not_active_revoke row)
    · exact hactive

theorem fades_createSession {userId sessionId : Text} {ttl : ℕ}
    (h : s.createSession sessionId userId ttl = some s') : Fades s s' := by
  rw [Store.createSession] at h
  split at h
  · next hnew =>
    obtain rfl := Option.some.inj h
    rintro _ ⟨row, hrow, rfl⟩
    refine ⟨⟨row, List.mem_append_left _ hrow, rfl⟩, fun hactive => ?_⟩
    obtain ⟨row', hrow', hid, hact⟩ := isSessionActive_iff.mp hactive
    rcases List.mem_append.mp hrow' with hrow' | hrow'
    · exact isSessionActive_iff.mpr ⟨row', hrow', hid, hact⟩
    · cases List.mem_singleton.mp hrow'
      exact absurd hid.symm (hnew row hrow)
  · cases h

theorem fades_pass {d : Move} (h : pass s d = some s') : Fades s s' := by
  cases d with
  | tick now =>
    rw [pass] at h
    split at h
    · next hle =>
      obtain rfl := Option.some.inj h
      exact fades_of_sessions rfl hle
    · cases h
  | createSession sessionId userId ttl => exact fades_createSession h
  | revokeAllSessions userId exceptSessionId =>
    obtain rfl := Option.some.inj h
    exact fades_revoke
  | addUser | addContract =>
    rw [pass] at h
    split at h
    · cases h
    · obtain rfl := Option.some.inj h
      exact fades_of_sessions rfl le_rfl
  | assign =>
    obtain rfl := Option.some.inj h
    exact fades_of_sessions rfl le_rfl

theorem fades_perform {statement : Statement} {r : statement.Answer}
    (h : perform s statement = some (r, s')) : Fades s s' := by
  cases statement with
  | revokeSession sessionId =>
    obtain ⟨-, rfl⟩ := Prod.mk.inj (Option.some.inj h)
    exact fades_revoke
  | insertVerification row =>
    rw [perform] at h
    split at h
    · obtain ⟨-, rfl⟩ := Prod.mk.inj (Option.some.inj h)
      exact fades_of_sessions rfl le_rfl
    · cases h
  | _ =>
    obtain ⟨-, rfl⟩ := Prod.mk.inj (Option.some.inj h)
    exact fades_of_sessions rfl le_rfl

theorem fades_serve {c : Query} {trail : Trail} {x : Choice} {r : c.Answer}
    (hr : serve s trail c x = some (r, s')) : Fades s s' := by
  cases c with
  | act caller statement => exact fades_perform hr
  | logSecurityAudit row =>
    obtain ⟨-, rfl⟩ := Prod.mk.inj (Option.some.inj hr)
    split <;> exact fades_of_sessions rfl le_rfl
  | _ =>
    obtain ⟨-, rfl⟩ := Prod.mk.inj (Option.some.inj hr)
    exact fades_of_sessions rfl le_rfl

theorem Store.Ended.fades (hs : s.Ended sessionId) (h : Fades s s') : s'.Ended sessionId := by
  obtain ⟨hissued, hactive⟩ := h sessionId hs.1
  exact ⟨hissued, Bool.eq_false_of_not_eq_true fun h => Bool.false_ne_true (hs.2 ▸ hactive h)⟩

/-! ## What ends a session -/

theorem ended_revokeSession (hs : s.Issued sessionId) :
    (s.revokeSession sessionId).Ended sessionId := by
  refine ⟨(fades_revoke sessionId hs).1, Bool.eq_false_of_not_eq_true fun hactive => ?_⟩
  obtain ⟨row, hrow, hid, hact⟩ := isSessionActive_iff.mp hactive
  obtain ⟨row', -, rfl⟩ := List.mem_map.mp hrow
  split at hact
  · exact not_active_revoke row' hact
  · next hne =>
    rw [if_neg hne] at hid
    exact hne hid

theorem ended_revokeAllSessions {userId : Text} {exceptSessionId : Option Text}
    (hs : s.Issued sessionId) (huser : ∀ row ∈ s.sessions, row.sessionId = sessionId →
      row.userId = userId) (hexcept : exceptSessionId ≠ some sessionId) :
    (s.revokeAllSessions userId exceptSessionId).Ended sessionId := by
  refine ⟨(fades_revoke sessionId hs).1, Bool.eq_false_of_not_eq_true fun hactive => ?_⟩
  obtain ⟨row, hrow, hid, hact⟩ := isSessionActive_iff.mp hactive
  obtain ⟨row', hrow', rfl⟩ := List.mem_map.mp hrow
  split at hact
  · exact not_active_revoke row' hact
  · next hkept =>
    rw [if_neg hkept] at hid
    exact hkept ⟨huser row' hrow' hid, hid ▸ hexcept⟩

/-! ## Runs -/

section Runs

variable {s₀ s t u : System} {as bs : List Action} {a : Action}

theorem fades_moves (h : Concurrent.Moves (service g) s a t) : Fades s.store t.store := by
  cases h with
  | start | fail => exact fades_of_sessions rfl le_rfl
  | @call _ _ trail _ _ _ _ _ hr => exact fades_serve (show serve _ trail _ _ = _ from hr)
  | pass hstore => exact fades_pass hstore

/-- What comes onto a trail is what a request begins with, or a call with its answer. -/
theorem mem_trail_cases {ev : Event} {i : ℕ} {f : Flow Query Query.Answer Reply}
    (h : Concurrent.Moves (service g) s a t) (hf : t.flows i = some f) (hev : ev ∈ f.trail) :
    (∃ f', s.flows i = some f' ∧ ev ∈ f'.trail) ∨
      (∃ request route now, ev = ⟨.received request route now, ()⟩) ∨
      ∃ trail next choice, s.flows i = some ⟨trail, .call ev.1 next⟩ ∧
        serve s.store trail ev.1 choice = some (ev.2, t.store) := by
  rcases Concurrent.mem_trail_cases h hf hev with hold | ⟨⟨request, route⟩, hflow⟩ | hserved
  · exact .inl hold
  · change start g s.store request route = some f at hflow
    rw [start] at hflow
    split at hflow
    · obtain rfl := Option.some.inj hflow
      exact .inr (.inl ⟨_, _, _, List.mem_singleton.mp hev⟩)
    · cases hflow
  · exact .inr (.inr hserved)

/-- Sessions that were found active were issued, and those that were revoked have ended. -/
def Tracked (s : System) : Prop :=
  (∀ sessionId, OnTrail s ⟨.isSessionActive sessionId, some true⟩ → s.store.Issued sessionId) ∧
    ∀ caller sessionId, OnTrail s ⟨.act caller (.revokeSession sessionId), ()⟩ →
      s.store.Ended sessionId

theorem tracked_moves (hs : Tracked s)
    (hgood : Concurrent.AllGood (Mediated g) (fun _ _ => True) s)
    (h : Concurrent.Moves (service g) s a t) : Tracked t := by
  have hfades := fades_moves h
  constructor
  · rintro sessionId ⟨i, f, hf, hev⟩
    rcases mem_trail_cases h hf hev with ⟨f', hf', hev⟩ | ⟨_, _, _, heq⟩ | ⟨_, _, choice, _, hr⟩
    · exact (hfades sessionId (hs.1 sessionId ⟨i, f', hf', hev⟩)).1
    · cases heq
    · obtain ⟨hanswer, hstore⟩ := Prod.mk.inj (Option.some.inj hr)
      split at hanswer
      · obtain ⟨row, hrow, hid, -⟩ := isSessionActive_iff.mp (Option.some.inj hanswer)
        exact ⟨row, hstore ▸ hrow, hid⟩
      · cases hanswer
  · rintro caller sessionId ⟨i, f, hf, hev⟩
    rcases mem_trail_cases h hf hev with
      ⟨f', hf', hev⟩ | ⟨_, _, _, heq⟩ | ⟨trail, _, choice, hflow, hr⟩
    · exact (hs.2 caller sessionId ⟨i, f', hf', hev⟩).fades hfades
    · cases heq
    · obtain ⟨⟨_, _, _, -, hcaller⟩, user, rfl, rfl⟩ := hgood.admitted hflow
      obtain ⟨payload, -, rfl, hactive⟩ := hcaller
      obtain ⟨-, hstore⟩ := Prod.mk.inj (Option.some.inj hr)
      rw [← hstore]
      exact ended_revokeSession (hs.1 payload.sid ⟨i, _, hflow, hactive⟩)

theorem tracked_of_run (hs : (system g).init s₀) (h : (system g).Run Any s₀ as s) :
    Tracked s := by
  have hnone : ∀ ev, ¬ OnTrail s₀ ev := by
    rintro ev ⟨i, f, hf, -⟩
    rw [hs.2 i] at hf
    cases hf
  have hinitial : Tracked s₀ :=
    ⟨fun _ hev => (hnone _ hev).elim, fun _ _ hev => (hnone _ hev).elim⟩
  exact (Concurrent.forall_visited_of_run hs h (fun _ _ _ hf => (good_start hf).1)
    (fun s a t => tracked_moves) hinitial s h.mem_visited).1

/-- The session has ended, and no flow since has found it active. -/
def EndedSince (s : System) (sessionId : Text) (u : System) : Prop :=
  u.store.Ended sessionId ∧ ∀ i f, s.flows i = none → u.flows i = some f →
    (⟨.isSessionActive sessionId, some true⟩ : Event) ∉ f.trail

theorem endedSince_moves (hu : EndedSince s sessionId u)
    (h : Concurrent.Moves (service g) u a t) : EndedSince s sessionId t := by
  refine ⟨hu.1.fades (fades_moves h), fun i f hnone hf hev => ?_⟩
  rcases mem_trail_cases h hf hev with ⟨f', hf', hev⟩ | ⟨_, _, _, heq⟩ | ⟨_, _, choice, _, hr⟩
  · exact hu.2 i f' hnone hf' hev
  · cases heq
  · obtain ⟨hanswer, -⟩ := Prod.mk.inj (Option.some.inj hr)
    split at hanswer
    · rw [hu.1.2] at hanswer
      cases hanswer
    · cases hanswer

/--
Once a session has ended, by a logout that was answered or otherwise, it stays so, and whatever
token its user still holds, no request that arrives afterwards does anything under it.
-/
theorem revocation_final (hs : (system g).init s₀) (h₀ : (system g).Run Any s₀ as s)
    (h : (system g).Run Any s bs t)
    (hended : s.store.Ended sessionId ∨
      ∃ caller, OnTrail s ⟨.act caller (.revokeSession sessionId), ()⟩) :
    ∀ u ∈ (system g).visited s bs, u.store.Ended sessionId ∧
      ∀ i f, s.flows i = none → u.flows i = some f → ∀ user statement answer,
        user.sessionId = sessionId →
          (⟨.act (.user user) statement, answer⟩ : Event) ∉ f.trail := by
  have hended : s.store.Ended sessionId := by
    rcases hended with hended | ⟨caller, hrevoked⟩
    · exact hended
    · exact (tracked_of_run hs h₀).2 caller sessionId hrevoked
  have hsince : EndedSince s sessionId s := by
    refine ⟨hended, fun i f hnone hf => ?_⟩
    rw [hnone] at hf
    cases hf
  intro u hu
  have hu' := h.forall_visited (fun _ _ _ hs _ hst =>
    endedSince_moves hs (Concurrent.moves_of_step hst)) hsince u hu
  refine ⟨hu'.1, ?_⟩
  rintro i f hnone hf user statement answer rfl hev
  obtain ⟨pre, -, hpre, -⟩ := h.exists_of_mem_visited hu
  obtain ⟨before, hsubset, ⟨_, _, _, -, hcaller⟩, -⟩ := (complied_trails hs (h₀.append hpre) u
    (h₀.append hpre).mem_visited i f hf).exists_subset hev
  obtain ⟨payload, -, rfl, hactive⟩ := hcaller
  exact hu'.2 i f hnone hf (hsubset hactive)

end Runs

def logoutRun : List Action :=
  [.pass (.addUser (units "ann") (units "client") (units "Ann")),
    .pass (.createSession (units "s1") (units "ann") 1000),
    .start 0 (annsRequest "/auth/logout" none, .logout)] ++ List.replicate 3 (.call 0 {})

def lateRun : List Action :=
  [.start 1 (annsRequest "/api/contracts" none, .guarded []), .call 1 {}]

/-- A logout is answered, and then the same token comes again. -/
theorem revocation_final_logout : ∃ s t f,
    (system annsGateway).exec ⟨{}, fun _ => none⟩ logoutRun = some s ∧
    (system annsGateway).exec s lateRun = some t ∧ t.flows 1 = some f ∧
    t.store.Ended (units "s1") ∧ ∀ user statement answer, user.sessionId = units "s1" →
      (⟨.act (.user user) statement, answer⟩ : Event) ∉ f.trail := by
  have h : ((system annsGateway).exec ⟨{}, fun _ => none⟩ logoutRun).any fun s =>
      ((system annsGateway).exec s lateRun).any fun t => (t.flows 1).any fun _ =>
        ((s.flows 1).isNone && (s.flows 0).any fun f => f.trail.any fun ev =>
          ev.1 = .act (.user annsGateway.anns.user) (.revokeSession (units "s1"))) := by
    decide +kernel
  obtain ⟨s, hs, h⟩ := (Option.any_eq_true _ _).mp h
  obtain ⟨t, ht, h⟩ := (Option.any_eq_true _ _).mp h
  obtain ⟨f, hf, h⟩ := (Option.any_eq_true _ _).mp h
  obtain ⟨hnone, h⟩ := (Bool.and_eq_true _ _).mp h
  obtain ⟨f', hf', h⟩ := (Option.any_eq_true _ _).mp h
  obtain ⟨⟨c, r⟩, hmem, h⟩ := List.any_eq_true.mp h
  obtain rfl := of_decide_eq_true h
  have hinit : (system annsGateway).init ⟨{}, fun _ => none⟩ := ⟨⟨rfl, rfl, rfl⟩, fun _ => rfl⟩
  obtain ⟨hended, hnothing⟩ := revocation_final hinit (run_of_exec hs) (run_of_exec ht)
    (.inr ⟨_, 0, f', hf', hmem⟩) t (run_of_exec ht).mem_visited
  exact ⟨s, t, f, hs, ht, hf, hended, hnothing 1 f (Option.isNone_iff_eq_none.mp hnone) hf⟩

end AssureCode.Access
