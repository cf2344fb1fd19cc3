import AssureCode.Push.Handlers
import AssureCode.SourceFetcher.Whole

/-! # No audit of code that nobody pushed

A row of `audit_results` leads back to a push: to a delivery that GitHub has signed, for a
repository that was linked to the row's contract, or to a request of the gateway; and to one run of
the worker, which has taken that push and found in its code what the row says.
-/

namespace AssureCode.Push

open Js Program Machine
open Concurrent (OnTrail)

variable {g : Settings} {s t u : System} {as : List Action} {a : Action}

/-- The state is passed through on the way. -/
def Between (g : Settings) (s u t : System) : Prop :=
  ∃ pre post, (system g).Run Any s pre u ∧ (system g).Run Any u post t

/-- Where a push comes from. -/
inductive Origin (g : Settings) (s : System) (as : List Action) (t : System) : CodePush → Prop
  | github {delivery : Delivery} {payload name : Json} {contractId timestamp : Text}
      (harrived : ∃ i, .start i (.webhook delivery) ∈ as) (hsigned : Signed g delivery payload)
      (hevent : delivery.eventType = some (units "push")) (hkept : branchDeleted payload = false)
      (hname : repository payload "full_name" = some name)
      (hlinked : ∃ u, Between g s u t ∧
        Webhook.resolveContractId u.store.contracts (parameter g name) = some contractId) :
      Origin g s as t (eventPayload contractId payload timestamp)
  | gateway {contractId eventId : Text} {body : Option Json} {caller : Option Text}
      (harrived : ∃ i, .start i (.simulatePush contractId body) ∈ as)
      (hcaller : callerCode body = some caller)
      (hreal : ∃ u, Between g s u t ∧ u.store.realAudit contractId = false) :
      Origin g s as t (.simulated contractId eventId
        ((caller.filter (· ≠ [])).getD simulatedPushDemoCode) (caller.filter (· ≠ [])).isNone)

/-- The code of a push came with it, or is what GitHub's answers for its commit are put into. -/
inductive Obtained (g : Settings) (payload : CodePush) (code : Text) : Prop
  | inline (hcode : payload.code = some code)
  | fetched {repoUrl commitHash : Text} {commit : Json} {github : SourceFetcher.GitHub}
      (href : payload.pushRef = some (.string repoUrl, commit))
      (hcommit : commit.toText = some commitHash)
      (hfetched : SourceFetcher.fetchSource g.fetcher github ⟨repoUrl, commitHash⟩ = .ok code)

/-- One run of the worker has taken the push, and the row says what it has found. -/
def AuditedBy (g : Settings) (t : System) (event : Push) (row : AuditResults) : Prop :=
  ∃ i f offset code workspace execution fetched scan timestamp, t.flows i = some f ∧
    (⟨.take offset, event⟩ : Event) ∈ f.trail ∧ Obtained g event.payload code ∧
    Examined g f.trail event.payload code workspace execution fetched scan ∧
    row = auditResults g event.payload.contractId code execution.result scan timestamp
      event.payload.demo

/-! ## What the store keeps -/

/-- Nothing is taken away, and what is new is what the call is about. -/
structure Writes (s s' : Store) (c : Query) : Prop where
  pushes : s.pushes ⊆ s'.pushes
  audits : s.audits ⊆ s'.audits
  messages : s.messages ⊆ s'.messages
  pushed : ∀ event ∈ s'.pushes, event ∈ s.pushes ∨
    ∃ correlationId, c = .publish (.codePushReceived event.payload) correlationId
  saved : ∀ row ∈ s'.audits, row ∈ s.audits ∨ c = .save row
  announced : ∀ row, .auditCompleted row ∈ s'.messages → .auditCompleted row ∈ s.messages ∨
    ∃ correlationId, c = .publish (.auditCompleted row) correlationId

theorem Writes.refl {s : Store} {c : Query} : Writes s s c :=
  ⟨List.Subset.refl _, List.Subset.refl _, List.Subset.refl _, fun _ => .inl, fun _ => .inl,
    fun _ => .inl⟩

theorem writes_publish {s : Store} {id correlationId : Text} {message : Message} :
    Writes s (s.publish id correlationId message) (.publish message correlationId) := by
  cases message with
  | codePushReceived push =>
    refine ⟨List.subset_append_left .., List.Subset.refl _, List.Subset.refl _,
      fun event hevent => ?_, fun _ => .inl, fun _ => .inl⟩
    rcases List.mem_append.mp hevent with hevent | hevent
    · exact .inl hevent
    · rw [List.mem_singleton.mp hevent]
      exact .inr ⟨_, rfl⟩
  | _ =>
    refine ⟨List.Subset.refl _, List.Subset.refl _, List.subset_append_left .., fun _ => .inl,
      fun _ => .inl, fun row hrow => ?_⟩
    rcases List.mem_append.mp hrow with hrow | hrow
    · exact .inl hrow
    · exact .inr ⟨correlationId, by rw [List.mem_singleton.mp hrow]⟩

theorem writes_save {s : Store} {row : AuditResults} : Writes s (s.save row) (.save row) := by
  refine ⟨List.Subset.refl _, List.subset_append_left .., List.Subset.refl _, fun _ => .inl,
    fun row' hrow => ?_, fun _ => .inl⟩
  rcases List.mem_append.mp hrow with hrow | hrow
  · exact .inl hrow
  · rw [List.mem_singleton.mp hrow]
    exact .inr rfl

theorem writes_attempt {α : Type} {s s' s'' : Store} {c : Query} {a : α} {r : Option α}
    {outcome : Settlement.Outcome} (hwrites : Writes s s' c)
    (h : attempt s s' a outcome = (r, s'')) : Writes s s'' c := by
  cases outcome <;> cases h
  · exact hwrites
  · exact .refl
  · exact hwrites

theorem writes_serve {s s' : Store} {trail : Trail} {c : Query} {x : Choice} {r : c.Answer}
    (h : serve g s trail c x = some (r, s')) : Writes s s' c := by
  cases c with
  | publish message correlationId => exact writes_attempt writes_publish (Option.some.inj h)
  | save row => exact writes_attempt writes_save (Option.some.inj h)
  | take offset =>
    obtain ⟨event, -, heq⟩ := Option.map_eq_some_iff.mp h
    cases heq
    exact .refl
  | execute contractId workspace =>
    rw [serve] at h
    split at h
    · cases h
    · cases h
      exact .refl
  | received | asked => cases h
  | _ =>
    cases h
    exact .refl

theorem answered_eq_some {α : Type} {a b : α} {outcome : Settlement.Outcome}
    (h : answered a outcome = some b) : a = b := by
  rw [answered] at h
  split at h
  · exact Option.some.inj h
  · cases h

/-! ## Runs -/

/-- What is in the store is on a trail. -/
structure Sound (s : System) : Prop where
  pushes : ∀ event ∈ s.store.pushes, ∃ correlationId r,
    OnTrail s ⟨.publish (.codePushReceived event.payload) correlationId, r⟩
  audits : ∀ row ∈ s.store.audits, ∃ r, OnTrail s ⟨.save row, r⟩
  announced : ∀ row, .auditCompleted row ∈ s.store.messages → ∃ correlationId r,
    OnTrail s ⟨.publish (.auditCompleted row) correlationId, r⟩

theorem Sound.moves (hs : Sound s) (h : Concurrent.Moves (service g) s a t) : Sound t := by
  have hkeep : ∀ {ev : Event}, OnTrail s ev → OnTrail t ev := fun hev => hev.moves h
  have hstore : (∃ i trail c next x r, s.flows i = some ⟨trail, .call c next⟩ ∧
      OnTrail t ⟨c, r⟩ ∧ serve g s.store trail c x = some (r, t.store)) ∨
      (t.store.pushes = s.store.pushes ∧ t.store.audits = s.store.audits ∧
        t.store.messages = s.store.messages) := by
    cases h with
    | start | fail => exact .inr ⟨rfl, rfl, rfl⟩
    | call hflow hr =>
      exact .inl ⟨_, _, _, _, _, _, hflow, ⟨_, _, Concurrent.set_self, List.mem_concat_self⟩, hr⟩
    | pass hstore =>
      cases hstore
      exact .inr ⟨rfl, rfl, rfl⟩
  rcases hstore with ⟨i, trail, c, next, x, r, -, htrail, hr⟩ | ⟨hpushes, haudits, hmessages⟩
  · have hwrites := writes_serve hr
    constructor
    · intro event hevent
      rcases hwrites.pushed event hevent with hevent | ⟨correlationId, rfl⟩
      · obtain ⟨correlationId, r, hev⟩ := hs.pushes event hevent
        exact ⟨correlationId, r, hkeep hev⟩
      · exact ⟨correlationId, r, htrail⟩
    · intro row hrow
      rcases hwrites.saved row hrow with hrow | rfl
      · obtain ⟨r, hev⟩ := hs.audits row hrow
        exact ⟨r, hkeep hev⟩
      · exact ⟨r, htrail⟩
    · intro row hrow
      rcases hwrites.announced row hrow with hrow | ⟨correlationId, rfl⟩
      · obtain ⟨correlationId, r, hev⟩ := hs.announced row hrow
        exact ⟨correlationId, r, hkeep hev⟩
      · exact ⟨correlationId, r, htrail⟩
  · constructor
    · intro event hevent
      obtain ⟨correlationId, r, hev⟩ := hs.pushes event (hpushes ▸ hevent)
      exact ⟨correlationId, r, hkeep hev⟩
    · intro row hrow
      obtain ⟨r, hev⟩ := hs.audits row (haudits ▸ hrow)
      exact ⟨r, hkeep hev⟩
    · intro row hrow
      obtain ⟨correlationId, r, hev⟩ := hs.announced row (hmessages ▸ hrow)
      exact ⟨correlationId, r, hkeep hev⟩

/-- Nothing is taken away. -/
structure Kept (s t : Store) : Prop where
  pushes : s.pushes ⊆ t.pushes
  audits : s.audits ⊆ t.audits
  messages : s.messages ⊆ t.messages

theorem Kept.refl (s : Store) : Kept s s :=
  ⟨List.Subset.refl _, List.Subset.refl _, List.Subset.refl _⟩

theorem Kept.trans {s t u : Store} (h : Kept s t) (h' : Kept t u) : Kept s u where
  pushes := List.Subset.trans h.pushes h'.pushes
  audits := List.Subset.trans h.audits h'.audits
  messages := List.Subset.trans h.messages h'.messages

theorem kept_serve {s s' : Store} {trail : Trail} {c : Query} {x : Choice} {r : c.Answer}
    (h : serve g s trail c x = some (r, s')) : Kept s s' :=
  ⟨(writes_serve h).pushes, (writes_serve h).audits, (writes_serve h).messages⟩

theorem kept_step (h : (system g).step s a = some t) : Kept s.store t.store := by
  cases Concurrent.moves_of_step h with
  | start | fail => exact .refl _
  | @call _ _ trail _ _ _ _ _ hr => exact kept_serve (show serve g _ trail _ _ = _ from hr)
  | pass hstore =>
    cases hstore
    exact ⟨List.Subset.refl _, List.Subset.refl _, List.Subset.refl _⟩

theorem kept_run (h : (system g).Run Any s as t) : Kept s.store t.store := by
  induction h with
  | nil => exact .refl _
  | cons _ hst _ ih => exact (kept_step hst).trans ih

theorem good_start {store : Store} {request : Request} {f : Flow Query Query.Answer Reply}
    (hf : (service g).start store request = some f) :
    Concurrent.Good (Follows g) Ended f ∧ Concurrent.Complied (Follows g) f.trail := by
  obtain rfl := Option.some.inj hf
  cases request with
  | webhook =>
    exact ⟨meets_webhook, Concurrent.complied_nil.concat trivial⟩
  | simulatePush =>
    exact ⟨meets_simulatePush, Concurrent.complied_nil.concat trivial⟩
  | handlePush =>
    exact ⟨meets_handlePush.mono (fun _ _ => id) fun _ => False.elim, Concurrent.complied_nil⟩

section Traces

variable (hs : (system g).init s) (h : (system g).Run Any s as t)
include hs h

/-- What a handler has been answered it was answered at a moment of the run. -/
theorem served {ev : Event} (hev : OnTrail t ev) (hreceived : ∀ delivery, ev.1 ≠ .received delivery)
    (hasked : ∀ contractId body, ev.1 ≠ .asked contractId body) :
    ∃ u v trail x, Between g s u t ∧ Between g s v t ∧
      serve g u.store trail ev.1 x = some (ev.2, v.store) := by
  rcases Concurrent.served_of_init hs h hev with ⟨i, request, store, f, -, hf, hmem⟩ |
    ⟨u, v, pre, post, a, trail, x, hpre, hstep, hpost, hserve⟩
  · obtain rfl := Option.some.inj hf
    cases request with
    | webhook delivery =>
      rw [List.mem_singleton.mp hmem] at hreceived
      exact (hreceived delivery rfl).elim
    | simulatePush contractId body =>
      rw [List.mem_singleton.mp hmem] at hasked
      exact (hasked contractId body rfl).elim
    | handlePush => cases hmem
  · exact ⟨u, v, trail, x, ⟨pre, a :: post, hpre, .cons trivial hstep hpost⟩,
      ⟨pre ++ [a], post, hpre.append (.single trivial hstep), hpost⟩, hserve⟩

theorem arrived_webhook {delivery : Delivery} (hev : OnTrail t ⟨.received delivery, ()⟩) :
    ∃ i, .start i (.webhook delivery) ∈ as := by
  rcases Concurrent.served_of_init hs h hev with ⟨i, request, store, f, ha, hf, hmem⟩ |
    ⟨u, v, pre, post, a, trail, x, hpre, hstep, hpost, hserve⟩
  · obtain rfl := Option.some.inj hf
    cases request with
    | webhook => cases List.mem_singleton.mp hmem; exact ⟨i, ha⟩
    | simulatePush => cases List.mem_singleton.mp hmem
    | handlePush => cases hmem
  · cases hserve

theorem arrived_simulatePush {contractId : Text} {body : Option Json}
    (hev : OnTrail t ⟨.asked contractId body, ()⟩) :
    ∃ i, .start i (.simulatePush contractId body) ∈ as := by
  rcases Concurrent.served_of_init hs h hev with ⟨i, request, store, f, ha, hf, hmem⟩ |
    ⟨u, v, pre, post, a, trail, x, hpre, hstep, hpost, hserve⟩
  · obtain rfl := Option.some.inj hf
    cases request with
    | webhook => cases List.mem_singleton.mp hmem
    | simulatePush => cases List.mem_singleton.mp hmem; exact ⟨i, ha⟩
    | handlePush => cases hmem
  · cases hserve

theorem origin_of_vouched {i : ℕ} {f : Flow Query Query.Answer Reply} {push : CodePush}
    (hf : t.flows i = some f) (hpush : Vouched g f.trail push) : Origin g s as t push := by
  cases hpush with
  | pushed harrived hsigned hevent hkept hname hresolved =>
    obtain ⟨u, v, trail, x, hu, -, hserve⟩ := served hs h ⟨i, f, hf, hresolved⟩ nofun nofun
    obtain ⟨hanswer, -⟩ := Prod.mk.inj (Option.some.inj hserve)
    exact .github (arrived_webhook hs h ⟨i, f, hf, harrived⟩) hsigned hevent hkept hname
      ⟨u, hu, answered_eq_some hanswer⟩
  | simulated harrived hcaller hreal =>
    obtain ⟨u, v, trail, x, hu, -, hserve⟩ := served hs h ⟨i, f, hf, hreal⟩ nofun nofun
    obtain ⟨hanswer, -⟩ := Prod.mk.inj (Option.some.inj hserve)
    exact .gateway (arrived_simulatePush hs h ⟨i, f, hf, harrived⟩) hcaller
      ⟨u, hu, answered_eq_some hanswer⟩

theorem obtained_of_submitted {i : ℕ} {f : Flow Query Query.Answer Reply} {payload : CodePush}
    {code : Text} (hf : t.flows i = some f) (hcode : Submitted f.trail payload code) :
    Obtained g payload code := by
  cases hcode with
  | inline hcode => exact .inline hcode
  | fetched href hcommit hfetched =>
    obtain ⟨u, v, trail, x, -, -, hserve⟩ := served hs h ⟨i, f, hf, hfetched⟩ nofun nofun
    exact .fetched href hcommit (Prod.mk.inj (Option.some.inj hserve)).1

theorem mem_pushes_of_taken {offset : ℕ} {event : Push} (hev : OnTrail t ⟨.take offset, event⟩) :
    event ∈ t.store.pushes := by
  obtain ⟨u, v, trail, x, ⟨pre, post, -, hpost⟩, -, hserve⟩ := served hs h hev nofun nofun
  obtain ⟨event', hevent, heq⟩ := Option.map_eq_some_iff.mp hserve
  obtain rfl : event' = event := (Prod.mk.inj heq).1
  exact (kept_run hpost).pushes (List.mem_of_getElem? hevent)

theorem sound_of_run : Sound t := by
  refine h.invariant (fun s a t hs _ hst => hs.moves (Concurrent.moves_of_step hst)) ?_
  obtain ⟨hpushes, haudits, hmessages⟩ := hs.1
  refine ⟨?_, ?_, ?_⟩
  · rw [hpushes]
    exact List.forall_mem_nil _
  · rw [haudits]
    exact List.forall_mem_nil _
  · rw [hmessages]
    exact fun _ hrow => nomatch hrow

theorem complied : (∀ i f, t.flows i = some f → Concurrent.Complied (Follows g) f.trail) ∧
    Concurrent.AllGood (Follows g) Ended t :=
  Concurrent.complied_of_run hs h (fun _ _ _ hf => good_start hf) t h.mem_visited

theorem origin_of_mem {event : Push} (hevent : event ∈ t.store.pushes) :
    Origin g s as t event.payload := by
  obtain ⟨correlationId, r, i, f, hf, hpublished⟩ := (sound_of_run hs h).pushes event hevent
  obtain ⟨before, hsubset, hvouched⟩ := ((complied hs h).1 i f hf).exists_subset hpublished
  exact origin_of_vouched hs h hf (hvouched.mono hsubset)

theorem auditedBy_of_mem {row : AuditResults} (hrow : row ∈ t.store.audits) :
    ∃ event ∈ t.store.pushes, AuditedBy g t event row := by
  obtain ⟨r, i, f, hf, hsaved⟩ := (sound_of_run hs h).audits row hrow
  obtain ⟨before, hsubset, -, offset, event, code, workspace, execution, fetched, scan, timestamp,
    htaken, hexamined, heq⟩ := ((complied hs h).1 i f hf).exists_subset hsaved
  have hexamined := hexamined.mono hsubset
  exact ⟨event, mem_pushes_of_taken hs h ⟨i, f, hf, hsubset htaken⟩, i, f, offset, code, workspace,
    execution, fetched, scan, timestamp, hf, hsubset htaken,
    obtained_of_submitted hs h hf hexamined.submitted, hexamined, heq⟩

end Traces

/-! ## A push that passes -/

/-- An engine that finds nothing in the source below. -/
def findsNothing : Security.JsRuntime where
  engine := ⟨fun _ _ _ _ => false⟩
  localeCompare _ _ := 0

def onlyComments : Ast.Babel where
  parse _ := .ok ⟨⟨.other, .other, some 1⟩, .nil⟩
  traverse := Walk.Branch.visits
  isFunction kind := kind ∈ Ast.functionTypes

/-- The MAC of the body below under one secret. -/
def macOfPush : List UInt8 :=
  [87, 74, 42, 48, 22, 142, 249, 177, 54, 75, 198, 0, 198, 74, 70, 150, 122, 158, 67, 160, 130, 33,
    148, 182, 249, 72, 175, 243, 236, 195, 186, 213]

def widgetSettings : Settings where
  hmac _ := macOfPush
  prepareValue _ := []
  sourceFetch := true
  fetcher := SourceFetcher.fetcher
  babel := onlyComments
  js := findsNothing
  maintainabilityIndex _ := .ofRat 100

def widgetPush : Delivery where
  signature := some (units ("sha256=574a2a30168ef9b1364bc600c64a46967a9e43a0822194b6" ++
    "f948aff3ecc3bad5"))
  eventType := some (units "push")
  correlationId := some (units "d-1")
  body := .json (utf8 (units ("\x7b\"after\":\"aaaaaaaaaaaaaaaaaaaaaaaaaaaaaaaaaaaaaaaa\"," ++
    "\"ref\":\"refs/heads/main\",\"repository\":\x7b\"full_name\":\"acme/widgets\"," ++
    "\"clone_url\":\"https://github.com/acme/widgets.git\"\x7d,\"pusher\":\x7b\"name\":\"ada\"" ++
    "\x7d\x7d")))

def widgetContracts : Webhook.Contracts where
  rows := [⟨units "c-1", some (units "acme/widgets"), .inProgress, 1⟩]
  distinct := List.nodup_singleton _

def widgetsLinked : System := ⟨⟨widgetContracts, [], [], []⟩, fun _ => none⟩

/-- Nothing fails; the one test of the suite passes, and the model has no findings. -/
def answers : Choice where
  text := units "e-1"
  github := {
    tree := .answered 200 (some ⟨some [SourceFetcher.blobEntry "src/a.js"], false⟩)
    blob := fun _ _ => .answered 200
      (some (SourceFetcher.blobJson "base64" "Ly8gTm90aGluZyB5ZXQu")) }
  bundle := some (units "it('loads', () => require('../index.js'));")
  execution := .ran (units "docker") (units "\x7b\"passed\":1,\"total\":1\x7d") [] 0 false
  fetched := .ok (some [])

/-- GitHub delivers, and the worker takes the push. -/
def passingPush : List Action :=
  .start 0 (.webhook widgetPush) :: List.replicate 3 (.call 0 answers) ++
    .start 1 (.handlePush 0) :: List.replicate 14 (.call 1 answers)

theorem exists_passingPush : ∃ t, (system widgetSettings).exec widgetsLinked passingPush = some t ∧
    ∃ row ∈ t.store.audits, row.passed = true := by
  have h : ((system widgetSettings).exec widgetsLinked passingPush).any fun t =>
      t.store.audits.any AuditResults.passed := by decide +kernel
  obtain ⟨t, ht, h⟩ := (Option.any_eq_true _ _).mp h
  exact ⟨t, ht, List.any_eq_true.mp h⟩

theorem init_widgetsLinked : (system widgetSettings).init widgetsLinked :=
  ⟨⟨rfl, rfl, rfl⟩, fun _ => rfl⟩

end AssureCode.Push
