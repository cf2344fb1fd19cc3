import AssureCode.Scope.Channel

/-! # No verdict off the record

An answer of the guard can be lost, and a decision be recorded that nobody hears of; but whatever
the gateway makes known of a message, that it was delivered or blocked, is a decision on record,
and no two messages share one.
-/

namespace AssureCode.Scope

open Js Program Python Machine
open Concurrent (OnTrail)

variable {settings : Settings} {h h' : Trail} {E : Trail → Prop}

/-- The decision was recorded against the contract's first hash, and is what is answered. -/
def Decided (settings : Settings) (h : Trail) (request : ScopeCheckRequest)
    (response : ScopeCheckResponse) : Prop :=
  ∃ genesisHash best checkId,
    (⟨.genesis request.contractId, .ok (some genesisHash)⟩ : Event) ∈ h ∧
    (⟨.insertCheck checkId (decisionOf settings request best genesisHash), .ok ()⟩ : Event) ∈ h ∧
    response.allowed = decide (settings.scopeThreshold ≤ best)

/-- The guard has answered for this message what the event says. -/
def Heard (h : Trail) (event : ScopeEvent) : Prop :=
  ∃ id sender response,
    (⟨.send ⟨decode event.contractId, decode event.message, sender⟩, id⟩ : Event) ∈ h ∧
    (⟨.receive id, some (.checked response)⟩ : Event) ∈ h ∧
    event.allowed = response.allowed ∧ ∀ t, event.sender = some t → sender = decode t

def IsAccept (ev : Event) : Prop := ∃ id request, ev = ⟨.accept id, request⟩

def IsPublish (ev : Event) : Prop := ∃ event correlationId r, ev = ⟨.publish event correlationId, r⟩

/-- What comes before each call. -/
def Follows (settings : Settings) (h : Trail) : Query → Prop
  | .accept _ => h = []
  | .insertCheck checkId _ => h.getLast? = some ⟨.nextCheckId, checkId⟩
  | .respond id answer => ∃ request, (⟨.accept id, request⟩ : Event) ∈ h ∧
      ∀ response, answer = .checked response → Decided settings h request response
  | .publish event _ => Heard h event ∧ ∀ ev ∈ h, ¬ IsPublish ev
  | _ => True

/-- Whoever is told that a message was delivered or blocked is told after the event. -/
def Told (h : Trail) : Reply → Prop
  | .delivered message _ => ∃ event correlationId,
      (⟨.publish event correlationId, some ()⟩ : Event) ∈ h ∧
        event.message = message ∧ event.allowed = true
  | .blocked _ _ => ∃ event correlationId,
      (⟨.publish event correlationId, some ()⟩ : Event) ∈ h ∧ event.allowed = false
  | _ => True

/-! ## What the programs do -/

theorem meets_genesis {contractId : Text} : (genesis contractId).Meets (Follows settings)
    (fun h' r => h <+: h' ∧ ∀ genesisHash, r = .ok genesisHash →
      (⟨.genesis contractId, .ok (some genesisHash)⟩ : Event) ∈ h') E h := by
  refine ⟨trivial, fun r => ?_⟩
  rcases r with err | _ | genesisHash
  · exact ⟨prefix_concat .., nofun⟩
  · exact ⟨prefix_concat .., nofun⟩
  · refine ⟨prefix_concat .., ?_⟩
    rintro _ ⟨⟩
    exact List.mem_concat_self

theorem meets_record {decision : ScopeDecisionRecord} : (record decision).Meets (Follows settings)
    (fun h' r => h <+: h' ∧
      (r = .ok () → ∃ checkId, (⟨.insertCheck checkId decision, .ok ()⟩ : Event) ∈ h')) E h := by
  refine ⟨trivial, fun checkId => ⟨List.getLast?_concat .., fun r => ?_⟩⟩
  refine ⟨(prefix_concat ..).trans (prefix_concat ..), ?_⟩
  rintro rfl
  exact ⟨checkId, List.mem_concat_self⟩

theorem meets_decideScope {request : ScopeCheckRequest} {genesisHash : Text}
    {retrieved : List RetrievedChunk}
    (hgenesis : (⟨.genesis request.contractId, .ok (some genesisHash)⟩ : Event) ∈ h) :
    (decideScope settings request genesisHash retrieved).Meets (Follows settings)
      (fun h' r => h <+: h' ∧ ∀ response, r = .ok response →
        Decided settings h' request response) E h := by
  cases retrieved with
  | nil => exact ⟨List.prefix_rfl, nofun⟩
  | cons first rest =>
    rw [decideScope, meets_bind]
    refine meets_record.mono ?_ fun _ => id
    rintro h' r ⟨hh, hok⟩
    cases r with
    | error err => exact ⟨hh, nofun⟩
    | ok =>
      obtain ⟨checkId, hinserted⟩ := hok rfl
      refine ⟨trivial, fun checkedAt => ⟨hh.trans (prefix_concat ..), ?_⟩⟩
      rintro _ ⟨⟩
      exact ⟨genesisHash, _, checkId, List.mem_append_left _ (hh.subset hgenesis),
        List.mem_append_left _ hinserted, rfl⟩

theorem meets_checkScope {request : ScopeCheckRequest} :
    (checkScope settings request).Meets (Follows settings)
      (fun h' r => h <+: h' ∧ ∀ response, r = .ok response →
        Decided settings h' request response) (fun h' => h <+: h') h := by
  rw [checkScope]
  split
  · exact ⟨List.prefix_rfl, nofun⟩
  · rw [meets_bind]
    refine meets_genesis.mono ?_ fun _ => id
    rintro h₁ r ⟨hh₁, hgenesis⟩
    cases r with
    | error err => exact ⟨hh₁, nofun⟩
    | ok genesisHash =>
      have hgenesis := hgenesis genesisHash rfl
      refine ⟨trivial, fun query => ?_⟩
      have hh₂ := hh₁.trans (prefix_concat h₁ ⟨.embed request.message, query⟩)
      cases query with
      | none => exact hh₂
      | some query =>
        refine ⟨trivial, fun r => ?_⟩
        cases r with
        | error err => exact ⟨hh₂.trans (prefix_concat ..), nofun⟩
        | ok retrieved =>
          refine (meets_decideScope ?_).mono ?_ fun _ => id
          · exact List.mem_append_left _ (List.mem_append_left _ hgenesis)
          · rintro h' r ⟨hh', hdecided⟩
            exact ⟨(hh₂.trans (prefix_concat ..)).trans hh', hdecided⟩

theorem meets_answerCheck {id : ℕ} :
    (answerCheck settings id).Meets (Follows settings) Told (fun _ => True) [] := by
  refine ⟨rfl, fun request => ?_⟩
  change Program.Meets _ _ _ _ (Program.catching _ _ >>= _)
  rw [meets_bind, meets_catching, meets_bind]
  refine meets_checkScope.mono ?_ ?_
  · rintro h r ⟨hh, hdecided⟩
    refine ⟨⟨request, hh.subset List.mem_cons_self, ?_⟩, fun _ => trivial⟩
    intro response hresponse
    cases r with
    | error e => cases hresponse
    | ok r =>
      cases hresponse
      exact hdecided response rfl
  · intro h hh
    exact ⟨⟨request, hh.subset List.mem_cons_self, nofun⟩, fun _ => trivial⟩

theorem meets_assessDrift {contractId : Text} :
    (assessDrift settings contractId).Meets (Follows settings) Told (fun _ => True) h := by
  rw [assessDrift, meets_bind]
  refine meets_genesis.mono ?_ fun _ => id
  rintro h' r -
  cases r with
  | error err => trivial
  | ok genesisHash =>
    change Program.Meets _ _ _ _ (ite _ _ _)
    split
    · trivial
    · refine ⟨trivial, fun r => ?_⟩
      rcases r with err | _ | ⟨x, xs⟩ <;> trivial

theorem meets_publish {event : ScopeEvent} {correlationId : Text} (hheard : Heard h event)
    (hfirst : ∀ ev ∈ h, ¬ IsPublish ev) : (publish event correlationId).Meets (Follows settings)
      (fun h' _ => (⟨.publish event correlationId, some ()⟩ : Event) ∈ h') (fun _ => True) h := by
  refine ⟨⟨hheard, hfirst⟩, fun r => ?_⟩
  cases r with
  | none => trivial
  | some => exact List.mem_concat_self

theorem meets_chat {contractId : Text} {message role : Option Text} :
    (chat contractId message role).Meets (Follows settings) Told (fun _ => True) [] := by
  rw [chat]
  split
  · trivial
  · next message _ =>
    refine ⟨trivial, fun sent => ⟨trivial, fun r => ?_⟩⟩
    rcases r with _ | response | ⟨statusCode, detail⟩
    · trivial
    · change Program.Meets _ _ _ _ (deliver _ _ _ _)
      rw [deliver]
      split
      · next hallowed =>
        refine ⟨trivial, fun correlationId => ?_⟩
        change Program.Meets _ _ _ _ (publish _ _ >>= _)
        rw [meets_bind]
        refine (meets_publish ?_ ?_).mono ?_ fun _ => id
        · refine ⟨sent, _, response, List.mem_cons_self, by simp, hallowed.symm, ?_⟩
          rintro _ ⟨⟩
          rfl
        · simp [IsPublish]
        · exact fun h' _ hpublished => ⟨_, _, hpublished, rfl, rfl⟩
      · next hblocked =>
        refine ⟨trivial, fun correlationId => ?_⟩
        change Program.Meets _ _ _ _ (publish _ _ >>= _)
        rw [meets_bind]
        refine (meets_publish ?_ ?_).mono ?_ fun _ => id
        · exact ⟨sent, _, response, List.mem_cons_self, by simp,
            (Bool.eq_false_of_not_eq_true hblocked).symm, nofun⟩
        · simp [IsPublish]
        · exact fun h' _ hpublished => ⟨_, _, hpublished, rfl⟩
    · trivial

/-! ## What the store keeps -/

variable {s s' : Store}

/-- A request stays as it was sent, and taken once it is. -/
def Exchange.Later (x x' : Exchange) : Prop :=
  x'.request = x.request ∧ (x.accepted = true → x'.accepted = true)

/-- Rows stay where they are, chains begin as they did, and numbers go up. -/
structure Grows (s s' : Store) : Prop where
  exchanges : ∀ (id : ℕ) (x : Exchange), s.exchanges[id]? = some x →
    ∃ x', s'.exchanges[id]? = some x' ∧ x.Later x'
  checks : s.checks ⊆ s'.checks
  heads : ∀ contractId genesisHash, s.heads.lookup contractId = some genesisHash →
    s'.heads.lookup contractId = some genesisHash
  nextCheckId : s.nextCheckId ≤ s'.nextCheckId

theorem grows_of_eq (hexchanges : s'.exchanges = s.exchanges) (hchecks : s.checks ⊆ s'.checks)
    (hheads : s'.heads = s.heads) (hnext : s.nextCheckId ≤ s'.nextCheckId) : Grows s s' :=
  ⟨fun _ x hx => ⟨x, hexchanges ▸ hx, rfl, id⟩, hchecks, fun _ _ h => hheads ▸ h, hnext⟩

theorem Grows.refl : Grows s s := grows_of_eq rfl (List.Subset.refl _) rfl le_rfl

theorem grows_modify {id : ℕ} {f : Exchange → Exchange} (hf : ∀ x : Exchange, x.Later (f x)) :
    Grows s { s with exchanges := s.exchanges.modify id f } := by
  refine ⟨fun j x hx => ?_, List.Subset.refl _, fun _ _ h => h, le_rfl⟩
  rw [List.getElem?_modify, hx]
  refine ⟨_, rfl, ?_⟩
  dsimp only
  split
  · exact hf x
  · exact ⟨rfl, fun h => h⟩

theorem getElem?_modify_eq_some {xs : List Exchange} {f : Exchange → Exchange} {i j : ℕ}
    {x : Exchange} (h : (xs.modify i f)[j]? = some x) :
    ∃ y, xs[j]? = some y ∧ x = if i = j then f y else y := by
  rw [List.getElem?_modify] at h
  obtain ⟨y, hy, rfl⟩ := Option.map_eq_some_iff.mp h
  exact ⟨y, hy, rfl⟩

theorem grows_send {request : ScopeCheckRequest} :
    Grows s { s with exchanges := s.exchanges ++ [⟨request, false, none⟩] } := by
  refine ⟨fun id x hx => ⟨x, ?_, rfl, fun h => h⟩, List.Subset.refl _, fun _ _ h => h, le_rfl⟩
  rw [List.getElem?_append_left (List.getElem?_eq_some_iff.mp hx).1, hx]

theorem grows_serve {c : Query} {trail : Trail} {x : Choice} {r : c.Answer}
    (hr : serve settings s trail c x = some (r, s')) : Grows s s' := by
  cases c with
  | send request =>
    obtain ⟨-, rfl⟩ := Prod.mk.inj (Option.some.inj hr)
    exact grows_send
  | receive id =>
    obtain ⟨answer, -, heq⟩ := Option.map_eq_some_iff.mp hr
    obtain ⟨-, rfl⟩ := Prod.mk.inj heq
    exact Grows.refl
  | publish event correlationId =>
    rw [serve] at hr
    split at hr <;>
    · obtain ⟨-, rfl⟩ := Prod.mk.inj (Option.some.inj hr)
      exact grows_of_eq rfl (List.Subset.refl _) rfl le_rfl
  | accept id =>
    rw [serve] at hr
    split at hr
    · obtain ⟨-, rfl⟩ := Prod.mk.inj (Option.some.inj hr)
      exact grows_modify fun _ => ⟨rfl, fun _ => rfl⟩
    · cases hr
  | search =>
    rw [serve] at hr
    split at hr
    · split at hr
      · obtain ⟨-, rfl⟩ := Prod.mk.inj (Option.some.inj hr)
        exact Grows.refl
      · cases hr
    · obtain ⟨-, rfl⟩ := Prod.mk.inj (Option.some.inj hr)
      exact Grows.refl
  | insertCheck checkId decision =>
    rw [serve] at hr
    split at hr <;>
    · obtain ⟨-, rfl⟩ := Prod.mk.inj (Option.some.inj hr)
      exact grows_of_eq rfl (by simp [Store.insertCheck]) rfl le_rfl
  | respond id answer =>
    obtain ⟨-, rfl⟩ := Prod.mk.inj (Option.some.inj hr)
    exact grows_modify fun _ => ⟨rfl, fun h => h⟩
  | nextCheckId =>
    obtain ⟨-, rfl⟩ := Prod.mk.inj (Option.some.inj hr)
    exact grows_of_eq rfl (List.Subset.refl _) rfl (Nat.le_succ _)
  | _ =>
    obtain ⟨-, rfl⟩ := Prod.mk.inj (Option.some.inj hr)
    exact Grows.refl

/-- An exchange has the answer it had, or the one that is given now. -/
theorem answer_serve {c : Query} {trail : Trail} {x : Choice} {r : c.Answer} {id : ℕ}
    {e : Exchange} {answer : Answer} (hr : serve settings s trail c x = some (r, s'))
    (he : s'.exchanges[id]? = some e) (hanswer : e.answer = some answer) :
    (∃ e', s.exchanges[id]? = some e' ∧ e'.answer = some answer) ∨ c = .respond id answer := by
  cases c with
  | send request =>
    obtain ⟨-, rfl⟩ := Prod.mk.inj (Option.some.inj hr)
    rw [List.getElem?_append] at he
    split at he
    · exact .inl ⟨e, he, hanswer⟩
    · rw [List.mem_singleton.mp (List.mem_of_getElem? he)] at hanswer
      cases hanswer
  | accept id' =>
    rw [serve] at hr
    split at hr
    · obtain ⟨-, rfl⟩ := Prod.mk.inj (Option.some.inj hr)
      obtain ⟨e', he', rfl⟩ := getElem?_modify_eq_some he
      refine .inl ⟨e', he', ?_⟩
      split at hanswer <;> exact hanswer
    · cases hr
  | respond id' answer' =>
    obtain ⟨-, rfl⟩ := Prod.mk.inj (Option.some.inj hr)
    obtain ⟨e', he', rfl⟩ := getElem?_modify_eq_some he
    split at hanswer
    · next heq =>
      rw [heq, Option.some.inj hanswer]
      exact .inr rfl
    · exact .inl ⟨e', he', hanswer⟩
  | receive id' =>
    obtain ⟨_, -, heq⟩ := Option.map_eq_some_iff.mp hr
    obtain ⟨-, rfl⟩ := Prod.mk.inj heq
    exact .inl ⟨e, he, hanswer⟩
  | publish | insertCheck =>
    rw [serve] at hr
    split at hr <;>
    · obtain ⟨-, rfl⟩ := Prod.mk.inj (Option.some.inj hr)
      exact .inl ⟨e, he, hanswer⟩
  | search =>
    rw [serve] at hr
    split at hr
    · split at hr
      · obtain ⟨-, rfl⟩ := Prod.mk.inj (Option.some.inj hr)
        exact .inl ⟨e, he, hanswer⟩
      · cases hr
    · obtain ⟨-, rfl⟩ := Prod.mk.inj (Option.some.inj hr)
      exact .inl ⟨e, he, hanswer⟩
  | _ =>
    obtain ⟨-, rfl⟩ := Prod.mk.inj (Option.some.inj hr)
    exact .inl ⟨e, he, hanswer⟩

theorem grows_pass {lock : Lock} (h : pass s lock = some s') : Grows s s' := by
  rw [pass] at h
  split at h
  · cases h
  · obtain rfl := Option.some.inj h
    refine ⟨fun _ x hx => ⟨x, hx, rfl, fun h => h⟩, List.Subset.refl _, ?_, le_rfl⟩
    intro contractId genesisHash hhead
    rw [List.lookup_append, hhead]
    rfl

/-! ## Runs -/

section Runs

variable {s t u : System} {as : List Action} {a : Action}

theorem grows_moves (h : Concurrent.Moves (service settings) s a t) : Grows s.store t.store := by
  cases h with
  | start | fail => exact Grows.refl
  | @call _ _ trail _ _ _ _ _ hr =>
    exact grows_serve (show serve settings _ trail _ _ = _ from hr)
  | pass hstore => exact grows_pass hstore

inductive Token
  | sent (id : ℕ)
  | accepted (id : ℕ)
  | drawn (checkId : ℕ)

def token : Event → Option Token
  | ⟨.send _, id⟩ => some (.sent id)
  | ⟨.accept id, _⟩ => some (.accepted id)
  | ⟨.nextCheckId, checkId⟩ => some (.drawn checkId)
  | _ => none

def Spent (s : Store) : Token → Prop
  | .sent id => ∃ x, s.exchanges[id]? = some x
  | .accepted id => ∃ x, s.exchanges[id]? = some x ∧ x.accepted = true
  | .drawn checkId => checkId < s.nextCheckId

theorem Grows.spent {s s' : Store} (h : Grows s s') {k : Token} (hk : Spent s k) : Spent s' k := by
  cases k with
  | sent id =>
    obtain ⟨x, hx⟩ := hk
    obtain ⟨x', hx', -⟩ := h.exchanges id x hx
    exact ⟨x', hx'⟩
  | accepted id =>
    obtain ⟨x, hx, haccepted⟩ := hk
    obtain ⟨x', hx', -, hlater⟩ := h.exchanges id x hx
    exact ⟨x', hx', hlater haccepted⟩
  | drawn checkId => exact Nat.lt_of_lt_of_le hk h.nextCheckId

theorem handsOut : Concurrent.HandsOut (service settings) token Spent where
  start := by
    rintro store request _ ⟨⟩ ev hev
    cases request <;> cases hev
  serve := by
    intro store trail c x r store' hr
    change serve settings store trail c x = _ at hr
    refine ⟨fun k => (grows_serve hr).spent, fun k hk => ?_⟩
    cases c with
    | send request =>
      obtain ⟨hid, rfl⟩ := Prod.mk.inj (Option.some.inj hr)
      cases hk
      subst hid
      simp [Spent]
    | accept id =>
      cases hk
      rw [serve] at hr
      split at hr
      · next hx =>
        obtain ⟨-, rfl⟩ := Prod.mk.inj (Option.some.inj hr)
        simp [Spent, hx, Store.accept]
      · cases hr
    | nextCheckId =>
      obtain ⟨hid, rfl⟩ := Prod.mk.inj (Option.some.inj hr)
      cases hk
      subst hid
      simp [Spent]
    | _ => cases hk
  pass := fun store lock store' h k => (grows_pass h).spent

/-- What is on the trails is in the store, and what was received was answered. -/
structure Sound (settings : Settings) (s : System) : Prop where
  sent : ∀ request id, OnTrail s ⟨.send request, id⟩ →
    ∃ x, s.store.exchanges[id]? = some x ∧ x.request = request
  accepted : ∀ id request, OnTrail s ⟨.accept id, request⟩ →
    ∃ x, s.store.exchanges[id]? = some x ∧ x.request = request
  answered : ∀ (id : ℕ) (x : Exchange) answer, s.store.exchanges[id]? = some x →
    x.answer = some answer → OnTrail s ⟨.respond id answer, ()⟩
  received : ∀ id answer, OnTrail s ⟨.receive id, some answer⟩ →
    OnTrail s ⟨.respond id answer, ()⟩
  genesis : ∀ contractId genesisHash, OnTrail s ⟨.genesis contractId, .ok (some genesisHash)⟩ →
    s.store.heads.lookup contractId = some genesisHash
  inserted : ∀ checkId decision, OnTrail s ⟨.insertCheck checkId decision, .ok ()⟩ →
    ∃ row ∈ (Store.insertCheck settings {} checkId decision).checks, row ∈ s.store.checks

/-- What comes onto a trail is a call that is served. -/
theorem mem_trail_cases {ev : Event} {i : ℕ} {f : Flow Query Query.Answer Reply}
    (h : Concurrent.Moves (service settings) s a t) (hf : t.flows i = some f) (hev : ev ∈ f.trail) :
    OnTrail s ev ∨ ∃ trail choice, serve settings s.store trail ev.1 choice =
      some (ev.2, t.store) := by
  rcases Concurrent.mem_trail_cases h hf hev with ⟨f', hf', hev⟩ | ⟨request, hflow⟩ |
    ⟨trail, next, choice, -, hr⟩
  · exact .inl ⟨i, f', hf', hev⟩
  · obtain rfl := Option.some.inj hflow
    cases request <;> cases hev
  · exact .inr ⟨trail, choice, hr⟩

theorem answered_moves (hs : Sound settings s) (h : Concurrent.Moves (service settings) s a t)
    {id : ℕ} {x : Exchange} {answer : Answer} (hx : t.store.exchanges[id]? = some x)
    (hanswer : x.answer = some answer) : OnTrail t ⟨.respond id answer, ()⟩ := by
  cases hmoves : h with
  | start | fail => exact (hs.answered id x answer hx hanswer).moves h
  | @call i choice trail c next r store hflow hr =>
    rcases answer_serve (show serve settings _ trail _ _ = _ from hr) hx hanswer with
      ⟨x', hx', hanswer'⟩ | rfl
    · exact (hs.answered id x' answer hx' hanswer').moves h
    · exact ⟨i, _, Concurrent.set_self, List.mem_concat_self⟩
  | @pass lock store hstore =>
    change pass _ lock = _ at hstore
    rw [pass] at hstore
    split at hstore
    · cases hstore
    · obtain rfl := Option.some.inj hstore
      exact (hs.answered id x answer hx hanswer).moves h

theorem sound_moves (hs : Sound settings s) (h : Concurrent.Moves (service settings) s a t) :
    Sound settings t := by
  have hgrows := grows_moves h
  have hkeep : ∀ (id : ℕ) request, (∃ x : Exchange, s.store.exchanges[id]? = some x ∧
      x.request = request) → ∃ x : Exchange, t.store.exchanges[id]? = some x ∧ x.request = request := by
    rintro id request ⟨x, hx, rfl⟩
    obtain ⟨x', hx', hrequest, -⟩ := hgrows.exchanges id x hx
    exact ⟨x', hx', hrequest⟩
  constructor
  · rintro request id ⟨i, f, hf, hev⟩
    rcases mem_trail_cases h hf hev with hold | ⟨trail, choice, hr⟩
    · exact hkeep id request (hs.sent request id hold)
    · obtain ⟨hid, hstore⟩ := Prod.mk.inj (Option.some.inj hr)
      obtain rfl : s.store.exchanges.length = id := hid
      rw [← hstore]
      exact ⟨⟨request, false, none⟩, List.getElem?_concat_length .., rfl⟩
  · rintro id request ⟨i, f, hf, hev⟩
    rcases mem_trail_cases h hf hev with hold | ⟨trail, choice, hr⟩
    · exact hkeep id request (hs.accepted id request hold)
    · rw [serve] at hr
      split at hr
      · next request' _ hx =>
        obtain ⟨hrequest, -⟩ := Prod.mk.inj (Option.some.inj hr)
        exact hkeep id request ⟨_, hx, hrequest⟩
      · cases hr
  · exact fun id x answer hx hanswer => answered_moves hs h hx hanswer
  · rintro id answer ⟨i, f, hf, hev⟩
    rcases mem_trail_cases h hf hev with hold | ⟨trail, choice, hr⟩
    · exact (hs.received id answer hold).moves h
    · obtain ⟨_, hreceived, heq⟩ := Option.map_eq_some_iff.mp hr
      obtain ⟨rfl, -⟩ := Prod.mk.inj heq
      cases hout : choice.outcome with
      | ok =>
        rw [hout] at hreceived
        obtain ⟨_, hanswer, ⟨⟩⟩ := Option.map_eq_some_iff.mp hreceived
        obtain ⟨x, hx, hanswer⟩ := Option.bind_eq_some_iff.mp hanswer
        exact (hs.answered id x answer hx hanswer).moves h
      | failed | lost =>
        rw [hout] at hreceived
        cases hreceived
  · rintro contractId genesisHash ⟨i, f, hf, hev⟩
    rcases mem_trail_cases h hf hev with hold | ⟨trail, choice, hr⟩
    · exact hgrows.heads contractId genesisHash (hs.genesis contractId genesisHash hold)
    · obtain ⟨hanswer, hstore⟩ := Prod.mk.inj (Option.some.inj hr)
      split at hanswer
      · rw [← hstore]
        exact Except.ok.inj hanswer
      · cases hanswer
  · rintro checkId decision ⟨i, f, hf, hev⟩
    rcases mem_trail_cases h hf hev with hold | ⟨trail, choice, hr⟩
    · obtain ⟨row, hrow, hmem⟩ := hs.inserted checkId decision hold
      exact ⟨row, hrow, hgrows.checks hmem⟩
    · rw [serve] at hr
      split at hr
      · obtain ⟨-, hstore⟩ := Prod.mk.inj (Option.some.inj hr)
        rw [← hstore]
        exact ⟨_, List.mem_singleton_self _, List.mem_concat_self⟩
      · obtain ⟨hanswer, -⟩ := Prod.mk.inj (Option.some.inj hr)
        cases hanswer
      · obtain ⟨hanswer, -⟩ := Prod.mk.inj (Option.some.inj hr)
        cases hanswer

/-- The event has been given out by the flow, whether the bus has acknowledged it or not. -/
def Publishes (s : System) (i : ℕ) (event : ScopeEvent) : Prop :=
  ∃ f correlationId r, s.flows i = some f ∧
    (⟨.publish event correlationId, r⟩ : Event) ∈ f.trail

/-- The row is of a decision about this message, made against the contract's first hash. -/
structure Records (settings : Settings) (s : Store) (event : ScopeEvent) (row : Check) : Prop where
  contractId : row.contractId = decode event.contractId
  message : row.message = decode event.message
  sender : ∀ t, event.sender = some t → row.sender = decode t
  allowed : row.allowed = event.allowed
  threshold : row.threshold = settings.real settings.scopeThreshold
  similarity : ∃ best, row.similarity = settings.real best ∧
    row.allowed = decide (settings.scopeThreshold ≤ best)
  genesisHash : s.heads.lookup row.contractId = some row.genesisHash

/-- The number is that of the row from which the flow has its decision. -/
def Traced (s : System) (i : ℕ) (checkId : ℕ) : Prop :=
  ∃ f j f' request request' id decision r, s.flows i = some f ∧ s.flows j = some f' ∧
    (⟨.send request, id⟩ : Event) ∈ f.trail ∧ (⟨.accept id, request'⟩ : Event) ∈ f'.trail ∧
    (⟨.insertCheck checkId decision, r⟩ : Event) ∈ f'.trail

/-- Numbers and requests are taken once, so that no two flows have one decision. -/
theorem eq_of_traced {i i' checkId : ℕ} (hexclusive : Concurrent.Exclusive token Spent s)
    (hcomplied : ∀ i f, s.flows i = some f → Concurrent.Complied (Follows settings) f.trail)
    (h : Traced s i checkId) (h' : Traced s i' checkId) : i = i' := by
  obtain ⟨f, j, g, request, request₁, id, decision, r, hf, hg, hsent, haccepted, hinserted⟩ := h
  obtain ⟨f', j', g', request', request₁', id', decision', r', hf', hg', hsent', haccepted',
    hinserted'⟩ := h'
  have hdrawn : ∀ j g decision r, s.flows j = some g →
      (⟨.insertCheck checkId decision, r⟩ : Event) ∈ g.trail →
      (⟨.nextCheckId, checkId⟩ : Event) ∈ g.trail := by
    intro j g decision r hg hev
    obtain ⟨before, hsubset, hlast⟩ := (hcomplied j g hg).exists_subset hev
    exact hsubset (List.mem_of_getLast? hlast)
  obtain rfl := hexclusive.once j g hg j' g' hg' _ (hdrawn j g decision r hg hinserted) _
    (hdrawn j' g' decision' r' hg' hinserted') (.drawn checkId) rfl rfl
  cases hg.symm.trans hg'
  have hfirst : ∀ before ev, Follows settings before ev.1 → IsAccept ev → ∀ ev' ∈ before,
      ¬ IsAccept ev' := by
    rintro before ev hbefore ⟨id, request, rfl⟩
    rw [show before = [] from hbefore]
    exact List.forall_mem_nil _
  cases (hcomplied j g hg).eq_of_first hfirst haccepted haccepted' ⟨_, _, rfl⟩ ⟨_, _, rfl⟩
  exact hexclusive.once i f hf i' f' hf' _ hsent _ hsent' (.sent id) rfl rfl

theorem exists_traced {i : ℕ} {event : ScopeEvent} (hs : Sound settings s)
    (hcomplied : ∀ i f, s.flows i = some f → Concurrent.Complied (Follows settings) f.trail)
    (h : Publishes s i event) :
    ∃ row ∈ s.store.checks, Traced s i row.checkId ∧ Records settings s.store event row := by
  obtain ⟨f, correlationId, r, hf, hpublished⟩ := h
  obtain ⟨before, hbefore, hheard, -⟩ := (hcomplied i f hf).exists_subset hpublished
  obtain ⟨id, sender, response, hsent, hreceived, hallowed, hsender⟩ := hheard
  obtain ⟨x, hx, hrequest⟩ := hs.sent _ id ⟨i, f, hf, hbefore hsent⟩
  obtain ⟨j, g, hg, hresponded⟩ := hs.received id _ ⟨i, f, hf, hbefore hreceived⟩
  obtain ⟨before', hbefore', request', haccepted, hdecided⟩ :=
    (hcomplied j g hg).exists_subset hresponded
  obtain ⟨x', hx', hrequest'⟩ := hs.accepted id request' ⟨j, g, hg, hbefore' haccepted⟩
  obtain ⟨genesisHash, best, checkId, hgenesis, hinserted, hverdict⟩ := hdecided response rfl
  cases hx.symm.trans hx'
  obtain rfl := hrequest'.symm.trans hrequest
  obtain ⟨row, hrow, hmem⟩ := hs.inserted checkId _ ⟨j, g, hg, hbefore' hinserted⟩
  obtain rfl := List.mem_singleton.mp hrow
  refine ⟨_, hmem, ⟨f, j, g, _, _, id, _, _, hf, hg, hbefore hsent,
    hbefore' haccepted, hbefore' hinserted⟩, ?_⟩
  exact {
    contractId := rfl
    message := rfl
    sender := hsender
    allowed := hverdict.symm.trans hallowed.symm
    threshold := rfl
    similarity := ⟨best, rfl, rfl⟩
    genesisHash := hs.genesis _ _ ⟨j, g, hg, hbefore' hgenesis⟩ }

theorem eq_of_publishes {i : ℕ} {event event' : ScopeEvent}
    (hcomplied : ∀ i f, s.flows i = some f → Concurrent.Complied (Follows settings) f.trail)
    (h : Publishes s i event) (h' : Publishes s i event') : event = event' := by
  obtain ⟨f, correlationId, r, hf, hev⟩ := h
  obtain ⟨f', correlationId', r', hf', hev'⟩ := h'
  cases hf.symm.trans hf'
  have hfirst : ∀ before ev, Follows settings before ev.1 → IsPublish ev → ∀ ev' ∈ before,
      ¬ IsPublish ev' := by
    rintro before ev hbefore ⟨event, correlationId, r, rfl⟩
    exact hbefore.2
  cases (hcomplied i f hf).eq_of_first hfirst hev hev' ⟨_, _, _, rfl⟩ ⟨_, _, _, rfl⟩
  rfl

theorem good_start {store : Store} {request : Request} {f : Flow Query Query.Answer Reply}
    (hf : (service settings).start store request = some f) :
    Concurrent.Good (Follows settings) Told f := by
  obtain rfl := Option.some.inj hf
  cases request with
  | chat => exact meets_chat
  | check => exact meets_answerCheck
  | drift => exact meets_assessDrift

theorem sound_initial (hs : (system settings).init s) : Sound settings s := by
  have hnone : ∀ ev, ¬ OnTrail s ev := by
    rintro ev ⟨i, f, hf, -⟩
    rw [hs.2 i] at hf
    cases hf
  refine ⟨?_, ?_, ?_, ?_, ?_, ?_⟩
  · exact fun _ _ hev => (hnone _ hev).elim
  · exact fun _ _ hev => (hnone _ hev).elim
  · intro id x answer hx
    rw [hs.1.1] at hx
    cases hx
  · exact fun _ _ hev => (hnone _ hev).elim
  · exact fun _ _ hev => (hnone _ hev).elim
  · exact fun _ _ hev => (hnone _ hev).elim

end Runs

/-- Between a quarter and a half, `REAL` has this spacing. -/
def guardSettings : Settings where
  retrievalK := 5
  scopeThreshold := 3056 / 10000
  embeddingModel := text "all-MiniLM-L6-v2"
  calibration := [1 / 4]
  real q := halfEven (q * 2 ^ 25) / 2 ^ 25

def retrievedHalf : Choice where
  query := some [1]
  retrieved := [⟨0, text "The user logs in.", 1 / 2⟩]

def Reply.isDelivered : Reply → Bool
  | .delivered _ _ => true
  | _ => false

/-- A message is checked by flow `i + 1` while the gateway waits in flow `i`, and delivered. -/
def checked (i exchange : ℕ) : List Action :=
  [.start i (.chat (units "c1") (some (units "Add a login.")) none), .call i {},
    .start (i + 1) (.check exchange)] ++ List.replicate 8 (.call (i + 1) retrievedHalf) ++
  List.replicate 3 (.call i {})

def checkedOnce : List Action := .pass ⟨text "c1", text "H0"⟩ :: checked 0 0

end AssureCode.Scope
