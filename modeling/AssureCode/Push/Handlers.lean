import AssureCode.Push.Stream

/-! # What a push vouches for

No handler goes on before it knows what it passes on: a push is published by one that has verified
its signature and found its contract, or that has looked for a real audit; a row is saved by a run
that has taken the push, found its code, and had this code tested and scanned.
-/

namespace AssureCode.Push

open Js Program

variable {g : Settings} {h h' : Trail}

/-- GitHub has signed the bytes that this payload is read from. -/
def Signed (g : Settings) (delivery : Delivery) (payload : Json) : Prop :=
  ∃ rawBody, delivery.body.read = some (payload, rawBody) ∧
    verifyGitHubSignature g.hmac rawBody delivery.signature = true

/-- What a handler knows of a push that it publishes. -/
inductive Vouched (g : Settings) (h : Trail) : CodePush → Prop
  | pushed {delivery : Delivery} {payload name : Json} {contractId timestamp : Text}
      (harrived : (⟨.received delivery, ()⟩ : Event) ∈ h) (hsigned : Signed g delivery payload)
      (hevent : delivery.eventType = some (units "push")) (hkept : branchDeleted payload = false)
      (hname : repository payload "full_name" = some name)
      (hresolved : (⟨.resolveContractId (parameter g name), some (some contractId)⟩ : Event) ∈ h) :
      Vouched g h (eventPayload contractId payload timestamp)
  | simulated {contractId eventId : Text} {body : Option Json} {caller : Option Text}
      (harrived : (⟨.asked contractId body, ()⟩ : Event) ∈ h)
      (hcaller : callerCode body = some caller)
      (hreal : (⟨.realAudit contractId, some false⟩ : Event) ∈ h) :
      Vouched g h (.simulated contractId eventId
        ((caller.filter (· ≠ [])).getD simulatedPushDemoCode) (caller.filter (· ≠ [])).isNone)

/-- The code came with the push, or was fetched for the commit that it names. -/
inductive Submitted (h : Trail) (payload : CodePush) (code : Text) : Prop
  | inline (hcode : payload.code = some code)
  | fetched {repoUrl commitHash : Text} {commit : Json}
      (href : payload.pushRef = some (.string repoUrl, commit))
      (hcommit : commit.toText = some commitHash)
      (hfetched : (⟨.fetchSource ⟨repoUrl, commitHash⟩, .ok code⟩ : Event) ∈ h)

/-- The workspace has this code, and the suite that is meant for it. -/
structure Built (h : Trail) (payload : CodePush) (code : Text) (workspace : Workspace) : Prop where
  code : workspace.code = code
  demo : payload.demo = true → workspace.bundle = demoTestBundle
  bundle : payload.demo = false → ∃ body,
    (⟨.fetchTestBundle payload.contractId, some body⟩ : Event) ∈ h ∧
      workspace.bundle = Sandbox.WorkspaceBuilder.stripCodeFences body

/-- What a run has found out when it saves this row. -/
structure Examined (g : Settings) (h : Trail) (payload : CodePush) (code : Text)
    (workspace : Option Workspace) (execution : Execution) (fetched : Security.Fetched)
    (scan : Security.SecurityScanResult) : Prop where
  submitted : Submitted h payload code
  notBlank : trim code ≠ []
  built : ∀ w ∈ workspace, Built h payload code w
  executed : (⟨.execute payload.contractId workspace, execution⟩ : Event) ∈ h
  scanned : (⟨.scan ⟨code, false⟩, fetched⟩ : Event) ∈ h
  merged : Security.performDualLayerScan g.js (fun _ => fetched) code = .ok scan

def IsSave (ev : Event) : Prop := ∃ row r, ev = ⟨.save row, r⟩

/-- What comes before each call. -/
def Follows (g : Settings) (h : Trail) : Query → Prop
  | .publish (.codePushReceived push) _ => Vouched g h push
  | .publish (.auditCompleted row) _ => (⟨.save row, some ()⟩ : Event) ∈ h
  | .save row => (∀ ev ∈ h, ¬ IsSave ev) ∧
      ∃ offset event code workspace execution fetched scan timestamp,
        (⟨.take offset, event⟩ : Event) ∈ h ∧
        Examined g h event.payload code workspace execution fetched scan ∧
        row = auditResults g event.payload.contractId code execution.result scan timestamp
          event.payload.demo
  | .take _ => h = []
  | _ => True

/-- Every workspace that was built is removed. -/
def Cleaned (h : Trail) : Prop :=
  ∀ w, (⟨.materialise w, some ()⟩ : Event) ∈ h → (⟨.cleanup w, ()⟩ : Event) ∈ h

/-- How a handler ends: a push that is processed has its row, and the row is made known. -/
def Ended (h : Trail) : Reply → Prop
  | .send _ _ => True
  | .processed => Cleaned h ∧ ∃ row correlationId eventId, (⟨.save row, some ()⟩ : Event) ∈ h ∧
      (⟨.publish (.auditCompleted row) correlationId, some eventId⟩ : Event) ∈ h
  | .failed => Cleaned h

/-! ## The producers -/

theorem Vouched.mono {push : CodePush} (hpush : Vouched g h push) (hh : h ⊆ h') :
    Vouched g h' push := by
  cases hpush with
  | pushed harrived hsigned hevent hkept hname hresolved =>
    exact .pushed (hh harrived) hsigned hevent hkept hname (hh hresolved)
  | simulated harrived hcaller hreal => exact .simulated (hh harrived) hcaller (hh hreal)

theorem meets_accept {delivery : Delivery} {contractId : Text} {payload : Json}
    (hvouched : ∀ timestamp, Vouched g h (eventPayload contractId payload timestamp)) :
    (accept delivery contractId payload).Meets (Follows g) Ended (fun _ => True) h := by
  rw [accept, meets_await]
  refine ⟨trivial, fun timestamp => ?_⟩
  have hcorrelation : (correlationOf delivery).Meets (Follows g) (fun _ _ => True) (fun _ => True)
      (h ++ [⟨.now, timestamp⟩]) := by
    rw [correlationOf]
    split
    · trivial
    · exact ⟨trivial, fun _ => trivial⟩
  refine meets_bind.mpr (hcorrelation.extends.mono ?_ fun _ _ => trivial)
  rintro h' correlationId ⟨-, hh⟩
  refine ⟨(hvouched timestamp).mono ((prefix_concat ..).trans hh).subset, fun published => ?_⟩
  cases published <;> trivial

theorem meets_resolve {delivery : Delivery} {name payload : Json}
    (harrived : (⟨.received delivery, ()⟩ : Event) ∈ h) (hsigned : Signed g delivery payload)
    (hevent : delivery.eventType = some (units "push")) (hkept : branchDeleted payload = false)
    (hname : repository payload "full_name" = some name) :
    (resolve g delivery name payload).Meets (Follows g) Ended (fun _ => True) h := by
  rw [resolve, meets_await]
  refine ⟨trivial, fun r => ?_⟩
  rcases r with _ | contractId
  · trivial
  · dsimp only
    cases hfound : contractId.filter (· ≠ []) with
    | none =>
      change Program.Meets _ _ _ _ (Program.bind _ _)
      exact meets_bind.mpr (meets_ofOption.mpr (by cases name.toText <;> trivial))
    | some found =>
      obtain ⟨rfl, -⟩ := Option.filter_eq_some_iff.mp hfound
      refine meets_accept fun timestamp => ?_
      exact .pushed (List.mem_append_left _ harrived) hsigned hevent hkept hname
        List.mem_concat_self

theorem meets_webhook {delivery : Delivery} :
    (webhook g delivery).Meets (Follows g) Ended (fun _ => True) [⟨.received delivery, ()⟩] := by
  rw [webhook]
  split
  · trivial
  · next payload rawBody hread =>
    split
    · next hverified =>
      split
      · next hevent =>
        rw [push]
        split
        · trivial
        · split
          · trivial
          · next hkept =>
            split
            · trivial
            · next name hname =>
              exact meets_resolve List.mem_cons_self ⟨rawBody, hread, hverified⟩ hevent
                (Bool.eq_false_of_not_eq_true hkept) (Option.filter_eq_some_iff.mp hname).1
      · trivial
    · trivial

theorem meets_simulatePush {contractId : Text} {body : Option Json} :
    (simulatePush contractId body).Meets (Follows g) Ended (fun _ => True)
      [⟨.asked contractId body, ()⟩] := by
  rw [simulatePush, meets_bind, meets_ofOption]
  cases hcaller : callerCode body with
  | none => trivial
  | some caller =>
    refine ⟨trivial, fun eventId => ⟨trivial, fun chain => ?_⟩⟩
    cases chain with
    | none => trivial
    | some chain =>
      change Program.Meets _ _ _ _ (ite _ _ _)
      split
      · trivial
      · refine ⟨trivial, fun realAudit => ?_⟩
        rcases realAudit with _ | _ | _
        · trivial
        · refine ⟨?_, fun published => ?_⟩
          · exact .simulated List.mem_cons_self hcaller List.mem_concat_self
          · cases published <;> trivial
        · trivial

/-! ## The worker -/

theorem Submitted.mono {payload : CodePush} {code : Text} (hs : Submitted h payload code)
    (hh : h ⊆ h') : Submitted h' payload code := by
  cases hs with
  | inline hcode => exact .inline hcode
  | fetched href hcommit hfetched => exact .fetched href hcommit (hh hfetched)

theorem Built.mono {payload : CodePush} {code : Text} {w : Workspace}
    (hw : Built h payload code w) (hh : h ⊆ h') : Built h' payload code w where
  code := hw.code
  demo := hw.demo
  bundle hdemo := by
    obtain ⟨body, hbody, hbundle⟩ := hw.bundle hdemo
    exact ⟨body, hh hbody, hbundle⟩

/-- Calls that neither build a workspace nor save a row. -/
def Quiet : Query → Prop
  | .materialise _ | .save _ => False
  | _ => True

/-- A run before it saves its row, with what its workspaces have in common. -/
structure Under (P : Workspace → Prop) (offset : ℕ) (event : Push) (h : Trail) : Prop where
  taken : (⟨.take offset, event⟩ : Event) ∈ h
  unsaved : ∀ ev ∈ h, ¬ IsSave ev
  built : ∀ w, (⟨.materialise w, some ()⟩ : Event) ∈ h → P w

section Worker

variable {P : Workspace → Prop} {offset : ℕ} {event : Push} {payload : CodePush}
  {contractId correlationId code : Text} {workspace : Option Workspace} {w : Workspace}

theorem Under.concat {c : Query} {r : c.Answer} (hh : Under P offset event h) (hc : Quiet c) :
    Under P offset event (h ++ [⟨c, r⟩]) where
  taken := List.mem_append_left _ hh.taken
  unsaved := by
    rw [List.forall_mem_append, List.forall_mem_singleton]
    refine ⟨hh.unsaved, ?_⟩
    rintro ⟨row, r, heq⟩
    cases heq
    exact hc
  built w hw := by
    rcases List.mem_append.mp hw with hw | hw
    · exact hh.built w hw
    · cases List.mem_singleton.mp hw
      exact hc.elim

theorem Under.cleaned (hh : Under (fun _ => False) offset event h) : Cleaned h :=
  fun w hw => (hh.built w hw).elim

/-- What a quiet part of the run keeps. -/
theorem Under.keep {α : Type} {p : Code α} {Q : Trail → α → Prop} {E : Trail → Prop}
    (hh : Under P offset event h) (hp : p.Meets (fun h c => Follows g h c ∧ Quiet c) Q E h) :
    p.Meets (fun h c => Follows g h c ∧ Quiet c) (fun h' a => Q h' a ∧ Under P offset event h')
      (fun h' => Under P offset event h') h :=
  (hp.keep (fun _ _ _ hc hh => hh.concat hc.2) hh).mono (fun _ _ => id) fun _ => And.right

theorem meets_submitted : (submitted g payload).Meets (fun h c => Follows g h c ∧ Quiet c)
    (fun h' found => ∀ t, found = some t → Submitted h' payload t) (fun _ => True) h := by
  rw [submitted]
  split
  · next ref href =>
    split
    · rw [meets_bind, fetchSource]
      split
      · next repoUrl commitHash hurl hcommit =>
        refine ⟨⟨trivial, trivial⟩, fun r => ?_⟩
        cases r with
        | error e => trivial
        | ok source =>
          rintro _ ⟨⟩
          obtain ⟨url, commit⟩ := ref
          obtain rfl : url = .string repoUrl := hurl
          exact .fetched href hcommit List.mem_concat_self
      · trivial
    · exact fun t ht => .inline ht
  · exact fun t ht => .inline ht

theorem meets_sampleCode : (sampleCode g payload).Meets (fun h c => Follows g h c ∧ Quiet c)
    (fun h' code => Submitted h' payload code ∧ trim code ≠ []) (fun _ => True) h := by
  rw [sampleCode, meets_bind]
  refine meets_submitted.mono ?_ fun _ => id
  intro h' found hfound
  split
  · trivial
  · next hblank =>
    rw [blank, decide_eq_true_eq] at hblank
    cases found with
    | none => exact (hblank rfl).elim
    | some code => exact ⟨hfound code rfl, hblank⟩

theorem meets_testBundle : (testBundle payload.contractId code payload.demo).Meets
    (fun h c => Follows g h c ∧ Quiet c) (fun h' w => Built h' payload code w)
    (fun _ => True) h := by
  rw [testBundle]
  split
  · next hdemo =>
    refine ⟨rfl, fun _ => ?_, fun hreal => ?_⟩
    · dsimp only
    · rw [hdemo] at hreal
      cases hreal
  · next hreal =>
    refine ⟨⟨trivial, trivial⟩, fun body => ?_⟩
    cases body with
    | none => trivial
    | some body =>
      change Program.Meets _ _ _ _ (ite _ _ _ >>= _)
      split
      · trivial
      · exact ⟨rfl, fun hdemo => (hreal hdemo).elim,
          fun _ => ⟨body, List.mem_concat_self, rfl⟩⟩

theorem meets_buildWorkspace (hh : Under (fun _ => False) offset event h) :
    (buildWorkspace payload.contractId code payload.demo).Meets (Follows g)
      (fun h' w => Built h' payload code w ∧ Under (· = w) offset event h')
      (fun h' => Under (fun _ => False) offset event h') h := by
  rw [buildWorkspace, meets_bind]
  refine ((hh.keep meets_testBundle).mono_calls fun _ _ => And.left).mono ?_ fun _ => id
  rintro h' w ⟨hw, hh'⟩
  refine ⟨trivial, fun r => ?_⟩
  have hunsaved : ∀ ev ∈ h' ++ [(⟨.materialise w, r⟩ : Event)], ¬ IsSave ev := by
    rw [List.forall_mem_append, List.forall_mem_singleton]
    exact ⟨hh'.unsaved, fun ⟨_, _, heq⟩ => by cases heq⟩
  cases r with
  | none =>
    refine ⟨List.mem_append_left _ hh'.taken, hunsaved, fun w' hw' => ?_⟩
    rcases List.mem_append.mp hw' with hw' | hw'
    · exact hh'.built w' hw'
    · cases List.mem_singleton.mp hw'
  | some =>
    refine ⟨hw.mono (prefix_concat ..).subset, List.mem_append_left _ hh'.taken, hunsaved,
      fun w' hw' => ?_⟩
    rcases List.mem_append.mp hw' with hw' | hw'
    · exact (hh'.built w' hw').elim
    · cases List.mem_singleton.mp hw'
      rfl

theorem Examined.mono {execution : Execution} {fetched : Security.Fetched}
    {scan : Security.SecurityScanResult}
    (hx : Examined g h payload code workspace execution fetched scan) (hh : h ⊆ h') :
    Examined g h' payload code workspace execution fetched scan where
  submitted := hx.submitted.mono hh
  notBlank := hx.notBlank
  built w hw := (hx.built w hw).mono hh
  executed := hh hx.executed
  scanned := hh hx.scanned
  merged := hx.merged

def Announced (h : Trail) : Prop :=
  ∃ row correlationId eventId, (⟨.save row, some ()⟩ : Event) ∈ h ∧
    (⟨.publish (.auditCompleted row) correlationId, some eventId⟩ : Event) ∈ h

theorem meets_performDualLayerScan : (performDualLayerScan g code).Meets
    (fun h c => Follows g h c ∧ Quiet c)
    (fun h' scan => ∃ fetched, (⟨.scan ⟨code, false⟩, fetched⟩ : Event) ∈ h' ∧
      Security.performDualLayerScan g.js (fun _ => fetched) code = .ok scan)
    (fun _ => True) h := by
  rw [performDualLayerScan, meets_await]
  refine ⟨⟨trivial, trivial⟩, fun fetched => ?_⟩
  split
  · trivial
  · next scan hscan => exact ⟨fetched, List.mem_concat_self, hscan⟩

theorem meets_complete {execution : Execution} {fetched : Security.Fetched}
    {scan : Security.SecurityScanResult} (hh : Under P offset event h)
    (hexamined : Examined g h event.payload code workspace execution fetched scan) :
    (complete g event.payload.contractId correlationId code event.payload.demo execution.result
        scan).Meets (fun h c => Follows g h c ∧ ∀ w, c ≠ .materialise w)
      (fun h' _ => Announced h') (fun _ => True) h := by
  refine ⟨⟨trivial, nofun⟩, fun timestamp => ⟨⟨⟨?_, ?_⟩, nofun⟩, fun saved => ?_⟩⟩
  · exact (hh.concat (c := .now) trivial).unsaved
  · exact ⟨offset, event, code, workspace, execution, fetched, scan, timestamp,
      List.mem_append_left _ hh.taken, hexamined.mono (prefix_concat ..).subset, rfl⟩
  · cases saved with
    | none => trivial
    | some =>
      refine ⟨⟨List.mem_concat_self, nofun⟩, fun published => ?_⟩
      cases published with
      | none => trivial
      | some eventId =>
        exact ⟨_, _, eventId, List.mem_append_left _ List.mem_concat_self, List.mem_concat_self⟩

/-- After a quiet part of the run all is as it was, and what it has found out is at hand. -/
theorem Under.bind {α β : Type} {p : Code α} {f : α → Code β} {Q : Trail → α → Prop}
    {R : Trail → β → Prop} {E : Trail → Prop} (hh : Under P offset event h)
    (hp : p.Meets (fun h c => Follows g h c ∧ Quiet c) Q E h)
    (hf : ∀ h' a, Q h' a → h <+: h' → Under P offset event h' →
      (f a).Meets (fun h c => Follows g h c ∧ ∀ w, c ≠ .materialise w) R (fun _ => True) h') :
    (p >>= f).Meets (fun h c => Follows g h c ∧ ∀ w, c ≠ .materialise w) R (fun _ => True) h := by
  rw [meets_bind]
  refine (((hh.keep hp.extends).mono ?_ fun _ _ => trivial).mono_calls ?_)
  · rintro h' a ⟨⟨ha, hh'⟩, hunder⟩
    exact hf h' a ha hh' hunder
  · rintro h' c ⟨hfollows, hquiet⟩
    refine ⟨hfollows, ?_⟩
    rintro w rfl
    exact hquiet

theorem meets_publish {message : Message}
    (hmessage : ∀ h, Follows g h (.publish message correlationId)) :
    (publish message correlationId).Meets (fun h c => Follows g h c ∧ Quiet c)
      (fun _ _ => True) (fun _ => True) h := by
  refine ⟨⟨hmessage h, trivial⟩, fun r => ?_⟩
  cases r <;> trivial

theorem meets_audit (hh : Under P offset event h) (hsubmitted : Submitted h event.payload code)
    (hblank : trim code ≠ []) (hbuilt : ∀ w ∈ workspace, Built h event.payload code w) :
    (audit g event.payload.contractId correlationId code event.payload.demo workspace).Meets
      (fun h c => Follows g h c ∧ ∀ w, c ≠ .materialise w) (fun h' _ => Announced h')
      (fun _ => True) h := by
  refine ⟨⟨trivial, nofun⟩, fun execution => ?_⟩
  have hunder : Under P offset event
      (h ++ [⟨.execute event.payload.contractId workspace, execution⟩]) := hh.concat trivial
  change Program.Meets _ _ _ _ (publish (.ciSandboxReady _ _ _) _ >>= _)
  refine hunder.bind (meets_publish fun _ => by trivial) fun h₁ _ _ hh₁ hunder => ?_
  refine hunder.bind (meets_publish fun _ => by trivial) fun h₂ _ _ hh₂ hunder => ?_
  refine hunder.bind (meets_publish fun _ => by trivial) fun h₃ _ _ hh₃ hunder => ?_
  refine hunder.bind meets_performDualLayerScan fun h₄ scan hscan hh₄ hunder => ?_
  refine hunder.bind (meets_publish fun _ => by trivial) fun h₅ _ _ hh₅ hunder => ?_
  obtain ⟨fetched, hfetched, hmerged⟩ := hscan
  have hsubset := (((hh₁.trans hh₂).trans hh₃).trans (hh₄.trans hh₅)).subset
  have hbefore : h ⊆ h₅ := fun _ hev => hsubset (List.mem_append_left _ hev)
  exact meets_complete hunder {
    submitted := hsubmitted.mono hbefore
    notBlank := hblank
    built := fun w hw => (hbuilt w hw).mono hbefore
    executed := hsubset List.mem_concat_self
    scanned := hh₅.subset hfetched
    merged := hmerged }

theorem Cleaned.of_cleanup
    (hh : ∀ w', (⟨.materialise w', some ()⟩ : Event) ∈ h → some w = some w') :
    Cleaned (h ++ [⟨.cleanup w, ()⟩]) := by
  intro w' hw'
  rcases List.mem_append.mp hw' with hw' | hw'
  · cases hh w' hw'
    exact List.mem_concat_self
  · cases List.mem_singleton.mp hw'

/-- However the run ends, its workspace is removed then. -/
theorem meets_finallyCleanup {p : Code Unit}
    (hp : p.Meets (fun h c => Follows g h c ∧ ∀ w, c ≠ .materialise w) (fun h' _ => Announced h')
      (fun _ => True) h)
    (hh : ∀ w, (⟨.materialise w, some ()⟩ : Event) ∈ h → workspace = some w) :
    (finallyCleanup workspace p).Meets (Follows g) (fun h' _ => Cleaned h' ∧ Announced h') Cleaned
      h := by
  have hkept := (hp.keep (I := fun h => ∀ w, (⟨.materialise w, some ()⟩ : Event) ∈ h →
    workspace = some w) ?_ hh).mono_calls fun _ _ => And.left
  · cases workspace with
    | none =>
      refine hkept.mono ?_ ?_
      · exact fun h' _ ⟨hannounced, hbuilt⟩ => ⟨fun w hw => (nomatch hbuilt w hw), hannounced⟩
      · exact fun h' ⟨_, hbuilt⟩ w hw => nomatch hbuilt w hw
    | some w =>
      refine meets_bind.mpr (meets_catching.mpr (hkept.mono ?_ ?_))
      · rintro h' - ⟨⟨row, correlationId, eventId, hsaved, hpublished⟩, hbuilt⟩
        refine ⟨trivial, fun _ => ⟨.of_cleanup hbuilt, row, correlationId, eventId, ?_, ?_⟩⟩
        · exact List.mem_append_left _ hsaved
        · exact List.mem_append_left _ hpublished
      · rintro h' ⟨-, hbuilt⟩
        exact ⟨trivial, fun _ => .of_cleanup hbuilt⟩
  · intro h' c r hc hh' w hw
    rcases List.mem_append.mp hw with hw | hw
    · exact hh' w hw
    · cases List.mem_singleton.mp hw
      exact (hc.2 w rfl).elim

theorem meets_processCodePush (hh : Under (fun _ => False) offset event h) :
    (processCodePush g correlationId event.payload).Meets (Follows g)
      (fun h' _ => Cleaned h' ∧ Announced h') Cleaned h := by
  rw [processCodePush, meets_bind]
  refine ((hh.keep meets_sampleCode).mono_calls fun _ _ => And.left).mono ?_ fun _ hh => hh.cleaned
  rintro h₁ code ⟨⟨hsubmitted, hblank⟩, hunder⟩
  rw [meets_bind, meets_catching, meets_bind]
  refine (meets_buildWorkspace hunder).extends.mono ?_ ?_
  · rintro h₂ w ⟨⟨hbuilt, hunder⟩, hh₂⟩
    refine meets_finallyCleanup (meets_audit hunder (hsubmitted.mono hh₂.subset) hblank ?_) ?_
    · rintro _ ⟨⟩
      exact hbuilt
    · intro w' hw'
      rw [hunder.built w' hw']
  · rintro h₂ ⟨hunder, hh₂⟩
    refine meets_finallyCleanup (meets_audit hunder (hsubmitted.mono hh₂.subset) hblank nofun) ?_
    exact fun w hw => (hunder.built w hw).elim

end Worker

theorem meets_handlePush {offset : ℕ} :
    (handlePush g offset).Meets (Follows g) Ended (fun _ => False) [] := by
  refine ⟨rfl, fun event => ?_⟩
  have hunder : Under (fun _ => False) offset event [⟨.take offset, event⟩] := {
    taken := List.mem_singleton_self _
    unsaved := by
      rw [List.forall_mem_singleton]
      exact fun ⟨_, _, heq⟩ => by cases heq
    built := fun w hw => by cases List.mem_singleton.mp hw }
  change Program.Meets _ _ _ _ (Program.catching _ _)
  rw [meets_catching, meets_bind]
  refine (meets_processCodePush hunder).mono ?_ fun _ => id
  exact fun h' _ hended => hended

end AssureCode.Push
