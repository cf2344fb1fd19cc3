import AssureCode.Access.Revocation

/-! # Documents on file

A user is marked as verified after the document is on file, in two statements that others may come
between. Whoever passes the guard is verified, and there is a document that this user, an
administrator or a service has handed in.
-/

namespace AssureCode.Access

open Js Program Machine
open Concurrent (OnTrail)

variable {g : Gateway} {s s' : Store} {userId : Text}

def Store.Verified (s : Store) (userId : Text) : Prop :=
  ∃ account ∈ s.users, account.userId = userId ∧ account.kycStatus = units "VERIFIED"

/-- Users stay verified and documents on file; only these users are verified now. -/
structure Files (newly : Text → Prop) (s s' : Store) : Prop where
  kept : ∀ userId, s.Verified userId → s'.Verified userId
  only : ∀ userId, s'.Verified userId → s.Verified userId ∨ newly userId
  documents : s.verifications ⊆ s'.verifications

theorem files_of_users {newly : Text → Prop} (husers : s'.users = s.users)
    (hdocuments : s.verifications ⊆ s'.verifications) : Files newly s s' where
  kept userId h := by rwa [Store.Verified, husers]
  only userId h := .inl (by rwa [Store.Verified, husers] at h)
  documents := hdocuments

theorem files_updateUser {newly : Text → Prop} {f : User → User}
    (hid : ∀ account, (f account).userId = account.userId)
    (hkept : ∀ account, account.kycStatus = units "VERIFIED" →
      (f account).kycStatus = units "VERIFIED")
    (honly : ∀ account, (f account).kycStatus = units "VERIFIED" →
      account.kycStatus = units "VERIFIED" ∨ newly userId) :
    Files newly s (s.updateUser userId f) where
  kept := by
    rintro _ ⟨account, haccount, rfl, hverified⟩
    refine ⟨_, List.mem_map_of_mem haccount, ?_, ?_⟩
    · split
      · exact hid account
      · rfl
    · split
      · exact hkept account hverified
      · exact hverified
  only := by
    rintro _ ⟨_, hmem, rfl, hverified⟩
    obtain ⟨account, haccount, rfl⟩ := List.mem_map.mp hmem
    split at hverified
    · next heq =>
      rw [if_pos heq, hid, heq]
      exact (honly account hverified).imp_left fun h => ⟨account, haccount, heq, h⟩
    · next hne =>
      rw [if_neg hne]
      exact .inl ⟨account, haccount, rfl, hverified⟩
  documents := List.Subset.refl _

theorem files_perform {statement : Statement} {r : statement.Answer}
    (h : perform s statement = some (r, s')) :
    Files (fun userId => statement = .setVerified userId) s s' := by
  cases statement with
  | insertVerification row =>
    rw [perform] at h
    split at h
    · obtain ⟨-, rfl⟩ := Prod.mk.inj (Option.some.inj h)
      exact files_of_users rfl (List.subset_append_left ..)
    · cases h
  | setVerified userId =>
    obtain ⟨-, rfl⟩ := Prod.mk.inj (Option.some.inj h)
    exact files_updateUser (fun _ => rfl) (fun _ _ => rfl) fun _ _ => .inr rfl
  | setPayoutAccount userId accountId =>
    obtain ⟨-, rfl⟩ := Prod.mk.inj (Option.some.inj h)
    exact files_updateUser (fun _ => rfl) (fun _ => id) fun _ => .inl
  | _ =>
    obtain ⟨-, rfl⟩ := Prod.mk.inj (Option.some.inj h)
    exact files_of_users rfl (List.Subset.refl _)

theorem files_serve {c : Query} {trail : Trail} {x : Choice} {r : c.Answer}
    (hr : serve s trail c x = some (r, s')) :
    Files (fun userId => ∃ caller, c = .act caller (.setVerified userId)) s s' := by
  cases c with
  | act caller statement =>
    obtain ⟨hkept, honly, hdocuments⟩ := files_perform hr
    refine ⟨hkept, fun userId h => (honly userId h).imp_right ?_, hdocuments⟩
    rintro rfl
    exact ⟨caller, rfl⟩
  | logSecurityAudit row =>
    obtain ⟨-, rfl⟩ := Prod.mk.inj (Option.some.inj hr)
    split <;> exact files_of_users rfl (List.Subset.refl _)
  | _ =>
    obtain ⟨-, rfl⟩ := Prod.mk.inj (Option.some.inj hr)
    exact files_of_users rfl (List.Subset.refl _)

theorem files_pass {d : Move} (h : pass s d = some s') : Files (fun _ => False) s s' := by
  cases d with
  | createSession =>
    rw [pass, Store.createSession] at h
    split at h
    · obtain rfl := Option.some.inj h
      exact files_of_users rfl (List.Subset.refl _)
    · cases h
  | tick | addContract =>
    rw [pass] at h
    split at h <;> cases h
    exact files_of_users rfl (List.Subset.refl _)
  | addUser userId role displayName =>
    rw [pass] at h
    split at h
    · cases h
    · obtain rfl := Option.some.inj h
      refine ⟨?_, ?_, List.Subset.refl _⟩
      · rintro _ ⟨account, haccount, hid, hverified⟩
        exact ⟨account, List.mem_append_left _ haccount, hid, hverified⟩
      · rintro _ ⟨account, haccount, hid, hverified⟩
        rcases List.mem_append.mp haccount with haccount | haccount
        · exact .inl ⟨account, haccount, hid, hverified⟩
        · cases List.mem_singleton.mp haccount
          exact absurd hverified (show units "UNVERIFIED" ≠ units "VERIFIED" by decide)
  | revokeAllSessions | assign =>
    obtain rfl := Option.some.inj h
    exact files_of_users rfl (List.Subset.refl _)

/-! ## Runs -/

section Runs

variable {s t : System} {as : List Action} {a : Action}

/-- A document of the user is on file, handed in by one that may act for this user. -/
def Documented (s : System) (userId : Text) : Prop :=
  ∃ row ∈ s.store.verifications, row.userId = userId ∧ row.idType ∈ idTypes ∧
    ∃ caller, MayActFor caller userId ∧ OnTrail s ⟨.act caller (.insertVerification row), ()⟩

structure Filed (s : System) : Prop where
  read : ∀ userId, OnTrail s ⟨.kycStatus userId, some (some (units "VERIFIED"))⟩ →
    s.store.Verified userId
  inserted : ∀ caller row, OnTrail s ⟨.act caller (.insertVerification row), ()⟩ →
    row ∈ s.store.verifications ∧ row.idType ∈ idTypes
  documented : ∀ userId, s.store.Verified userId → Documented s userId

theorem Documented.moves (hs : Documented s userId)
    (hdocuments : s.store.verifications ⊆ t.store.verifications)
    (h : Concurrent.Moves (service g) s a t) : Documented t userId := by
  obtain ⟨row, hrow, hid, htype, caller, hmay, hinserted⟩ := hs
  exact ⟨row, hdocuments hrow, hid, htype, caller, hmay, hinserted.moves h⟩

/-- Whoever is verified by a step has it from a flow that has put a document on file. -/
theorem documented_moves (hs : Filed s)
    (hgood : Concurrent.AllGood (Mediated g) (fun _ _ => True) s)
    (h : Concurrent.Moves (service g) s a t) :
    (∀ userId, s.store.Verified userId → t.store.Verified userId) ∧
      s.store.verifications ⊆ t.store.verifications ∧
      ∀ userId, t.store.Verified userId → Documented t userId := by
  have hkeep : ∀ userId, s.store.verifications ⊆ t.store.verifications →
      s.store.Verified userId → Documented t userId :=
    fun userId hdocuments hverified => (hs.documented userId hverified).moves hdocuments h
  cases hmoves : h with
  | start | fail =>
    exact ⟨fun _ => id, List.Subset.refl _, fun userId => hkeep userId (List.Subset.refl _)⟩
  | @call i _ trail _ _ _ _ hflow hr =>
    obtain ⟨hkept, honly, hdocuments⟩ := files_serve (show serve _ trail _ _ = _ from hr)
    refine ⟨hkept, hdocuments, fun userId hverified => ?_⟩
    rcases honly userId hverified with hverified | ⟨caller, rfl⟩
    · exact hkeep userId hdocuments hverified
    · obtain ⟨-, hmay, row, hid, hinserted⟩ := hgood.admitted hflow
      obtain ⟨hrow, htype⟩ := hs.inserted caller row ⟨i, _, hflow, hinserted⟩
      exact ⟨row, hdocuments hrow, hid, htype, caller, hmay,
        OnTrail.moves ⟨i, _, hflow, hinserted⟩ h⟩
  | pass hstore =>
    obtain ⟨hkept, honly, hdocuments⟩ := files_pass hstore
    refine ⟨hkept, hdocuments, fun userId hverified => ?_⟩
    exact hkeep userId hdocuments ((honly userId hverified).resolve_right id)

theorem filed_moves (hs : Filed s)
    (hgood : Concurrent.AllGood (Mediated g) (fun _ _ => True) s)
    (h : Concurrent.Moves (service g) s a t) : Filed t := by
  obtain ⟨hkept, hdocuments, hdocumented⟩ := documented_moves hs hgood h
  refine ⟨?_, ?_, hdocumented⟩
  · rintro userId ⟨i, f, hf, hev⟩
    rcases mem_trail_cases h hf hev with ⟨f', hf', hev⟩ | ⟨_, _, _, heq⟩ | ⟨_, _, _, hflow, hr⟩
    · exact hkept userId (hs.read userId ⟨i, f', hf', hev⟩)
    · cases heq
    · obtain ⟨hanswer, hstore⟩ := Prod.mk.inj (Option.some.inj hr)
      split at hanswer
      · obtain ⟨account, haccount, hstatus⟩ := Option.map_eq_some_iff.mp (Option.some.inj hanswer)
        rw [← hstore]
        exact ⟨account, List.mem_of_find?_eq_some haccount,
          of_decide_eq_true (List.find?_some haccount :), hstatus⟩
      · cases hanswer
  · rintro caller row ⟨i, f, hf, hev⟩
    rcases mem_trail_cases h hf hev with ⟨f', hf', hev⟩ | ⟨_, _, _, heq⟩ | ⟨_, _, _, hflow, hr⟩
    · obtain ⟨hrow, htype⟩ := hs.inserted caller row ⟨i, f', hf', hev⟩
      exact ⟨hdocuments hrow, htype⟩
    · cases heq
    · change perform s.store (.insertVerification row) = _ at hr
      rw [perform] at hr
      split at hr
      · next hrow =>
        obtain ⟨-, hstore⟩ := Prod.mk.inj (Option.some.inj hr)
        rw [← hstore]
        obtain ⟨htype, -⟩ := (Bool.and_eq_true _ _).mp hrow
        exact ⟨List.mem_concat_self, List.contains_iff_mem.mp htype⟩
      · cases hr

/--
Whatever a user does behind the guard, this user is verified at that, and stays so, and there is a
document on file that one handed in who may act for this user.
-/
theorem verified_on_file (hs : (system g).init s) (h : (system g).Run Any s as t) :
    ∀ u ∈ (system g).visited s as, ∀ i f, u.flows i = some f →
      ∀ user answer request guards now, Arrived f.trail request (.guarded guards) now →
        .requireKycVerified ∈ guards →
          (⟨.act (.user user) .handle, answer⟩ : Event) ∈ f.trail →
            u.store.Verified user.userId ∧ Documented u user.userId := by
  have hnone : ∀ ev, ¬ OnTrail s ev := by
    rintro ev ⟨i, f, hf, -⟩
    rw [hs.2 i] at hf
    cases hf
  have hfiled : Filed s := by
    refine ⟨fun _ hev => (hnone _ hev).elim, fun _ _ hev => (hnone _ hev).elim, ?_⟩
    rintro userId ⟨account, haccount, -⟩
    rw [hs.1.2.1] at haccount
    cases haccount
  intro u hu i f hf user answer request guards now harrived hguard hev
  have hu' : Filed u :=
    (Concurrent.forall_visited_of_run hs h (fun _ _ _ hf => (good_start hf).1)
      (fun s a t => filed_moves) hfiled u hu).1
  obtain ⟨before, hprefix, -, request', guards', now', harrived', hpassed⟩ :=
    (complied_trails hs h u hu i f hf).exists_before hev
  cases harrived.symm.trans (harrived'.mono ((prefix_concat ..).trans hprefix))
  rcases hpassed _ hguard with hservice | ⟨_, ⟨⟩, hread⟩
  · cases hservice
  · have hverified := hu'.read user.userId
      ⟨i, f, hf, hprefix.subset (List.mem_append_left _ hread)⟩
    exact ⟨hverified, hu'.documented _ hverified⟩

end Runs

theorem verified_on_file_settled : ∃ t,
    (system annsGateway).exec ⟨{}, fun _ => none⟩ annsRun = some t ∧
    t.store.Verified (units "ann") ∧ Documented t (units "ann") := by
  have h : ((system annsGateway).exec ⟨{}, fun _ => none⟩ annsRun).any fun t =>
      (t.flows 1).any fun f => f.trail.head?.any (fun ev => ev.1 = .received
        (annsRequest "/api/contracts/c1/settle" (some (units "c1"))) (.guarded settlementGuards) 0)
          && f.trail.any fun ev => ev.1 = .act (.user annsGateway.anns.user) .handle := by
    decide +kernel
  obtain ⟨t, ht, h⟩ := (Option.any_eq_true _ _).mp h
  obtain ⟨f, hf, h⟩ := (Option.any_eq_true _ _).mp h
  obtain ⟨hhead, h⟩ := (Bool.and_eq_true _ _).mp h
  obtain ⟨⟨c, r⟩, harrived, hreceived⟩ := (Option.any_eq_true _ _).mp hhead
  obtain ⟨⟨c', r'⟩, hmem, hhandled⟩ := List.any_eq_true.mp h
  obtain rfl := of_decide_eq_true hreceived
  obtain rfl := of_decide_eq_true hhandled
  have hinit : (system annsGateway).init ⟨{}, fun _ => none⟩ := ⟨⟨rfl, rfl, rfl⟩, fun _ => rfl⟩
  have hrun := run_of_exec ht
  exact ⟨t, ht, verified_on_file hinit hrun t hrun.mem_visited 1 f hf annsGateway.anns.user r' _ _ _
    harrived (List.mem_cons_of_mem _ List.mem_cons_self) hmem⟩

end AssureCode.Access
