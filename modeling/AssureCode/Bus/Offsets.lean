import AssureCode.Bus.Consumption
import AssureCode.Bus.Partition

/-! # Nothing is lost in a partition

A member goes on to the next message only when `eachMessage` has resolved, so that whatever fails,
and wherever members die or the partition is taken from them, a message that has been neither
handled nor sent to the dead letter topic is not before the committed offset.
-/

namespace AssureCode.Bus.Kafka

open Js Machine Program
open Settlement (Outcome)

variable (P : Platform) (N : Engine) (topic : Text)

/-- The letter is for the message, with its event as it was or as it is written again. -/
def DeadLetter.Of (topic : Text) (raw : Text) (position : Text) (letter : DeadLetter) : Prop :=
  letter.value = ((Json.parse raw).filter Json.truthy).elim raw Json.stringify ∧
    letter.originalStream = topic ∧ letter.originalId = position

/-- The message has no value, or a handler has returned for it, or its letter was sent. -/
def State.Settled (s : State) (offset : ℕ) (message : Message) : Prop :=
  message.value = none ∨ ∃ bytes, message.value = some bytes ∧
    ((∃ envelope, Json.parse (N.decode bytes) = some envelope ∧
      (offset, envelope) ∈ s.handled) ∨
    ∃ letter : DeadLetter, letter.Of topic (N.decode bytes) message.position ∧
      (dlqTopic topic, letter) ∈ s.sent)

/-- All messages before the offset are there, and settled. -/
def State.SettledBelow (s : State) (offset : ℕ) : Prop :=
  ∀ k < offset, ∃ message, s.log[k]? = some message ∧ s.Settled N topic k message

/-! ## What `eachMessage` does -/

/-- The message is settled, by the account of the calls made for it. -/
def Done (message : Message) (h : History) : Prop :=
  message.value = none ∨ ∃ bytes, message.value = some bytes ∧
    ((∃ attempt envelope, Json.parse (N.decode bytes) = some envelope ∧
      (⟨.handler attempt envelope, none⟩ : Program.Event Call.Reply) ∈ h) ∨
    ∃ letter : DeadLetter, letter.Of topic (N.decode bytes) message.position ∧
      (⟨.send (dlqTopic topic) letter, some ()⟩ : Program.Event Call.Reply) ∈ h)

def Call.isTry : Call → Bool
  | .handler _ _ => true
  | _ => false

/-- How often the handler has been called. -/
def tries (h : History) : ℕ := h.countP fun ev => ev.1.isTry

/-- The handler is not called once more than it may be. -/
def Admitted (h : History) (c : Call) : Prop := c.isTry → tries h < maxRetries

variable {P N topic} {message : Message} {h : History} {envelope : Json} {raw position : Text}
  {left attempt attempts : ℕ} {lastError : Thrown} {bytes : List UInt8} {c : Call} {r : c.Reply}
  {E : History → Prop}

theorem tries_concat (h : History) (c : Call) (r : c.Reply) :
    tries (h ++ [⟨c, r⟩]) = tries h + if c.isTry then 1 else 0 := by
  rw [tries, List.countP_append, List.countP_singleton]
  rfl

theorem admitted_of_eq_false (hc : c.isTry = false) : Admitted h c := by
  intro h'
  rw [hc] at h'
  cases h'

/-- The handler is called as often as attempts are left, until it returns. -/
theorem meets_attemptsLeft (hn : tries h + left ≤ maxRetries) :
    (attemptsLeft envelope left attempt lastError).Meets Admitted (fun h' failure =>
      failure = none → ∃ attempt,
        (⟨.handler attempt envelope, none⟩ : Program.Event Call.Reply) ∈ h') E h := by
  induction left generalizing h attempt lastError with
  | zero => exact nofun
  | succ left ih =>
    refine ⟨fun _ => by omega, fun r => ?_⟩
    cases r with
    | none => exact fun _ => ⟨attempt + 1, List.mem_concat_self⟩
    | some err =>
      have htries : tries (h ++ [⟨.handler (attempt + 1) envelope, some err⟩]) = tries h + 1 :=
        tries_concat ..
      apply ih
      omega

/-- A letter is sent, or the message is not given up. -/
theorem meets_sendToDlq :
    (sendToDlq topic (Json.parse raw) raw attempts lastError position).Meets Admitted
      (fun h' _ => ∃ letter : DeadLetter, letter.Of topic raw position ∧
        (⟨.send (dlqTopic topic) letter, some ()⟩ : Program.Event Call.Reply) ∈ h')
      (fun _ => True) h := by
  rw [sendToDlq, meets_bind, meets_ofOption]
  cases lastError.errorMessage with
  | none => trivial
  | some errorMessage =>
    refine ⟨admitted_of_eq_false rfl, fun failedAt => ⟨admitted_of_eq_false rfl, fun r => ?_⟩⟩
    cases r with
    | none => trivial
    | some _ => exact ⟨_, ⟨rfl, rfl, rfl⟩, List.mem_concat_self⟩

/-- A message that `eachMessage` resolves for is settled. -/
theorem meets_eachMessage : (eachMessage P N topic message).Meets Admitted
    (fun h _ => Done N topic message h) (fun _ => True) [] := by
  rw [eachMessage]
  split
  · next hvalue => exact .inl hvalue
  · next bytes hvalue =>
    have hsend : ∀ {h : History} {attempts : ℕ} {lastError : Thrown},
        (sendToDlq topic (Json.parse (N.decode bytes)) (N.decode bytes) attempts lastError
          message.position).Meets Admitted (fun h _ => Done N topic message h) (fun _ => True) h :=
      meets_sendToDlq.mono (fun _ _ hletter => .inr ⟨bytes, hvalue, .inr hletter⟩) fun _ => id
    dsimp only
    cases hparse : Json.parse (N.decode bytes) with
    | none =>
      rw [hparse] at hsend
      exact hsend
    | some envelope =>
      rw [hparse] at hsend
      refine ⟨admitted_of_eq_false rfl, fun now => ?_⟩
      change Program.Meets _ _ _ _ (ite _ _ _)
      split
      · have htries : tries ([] ++ [⟨.now, now⟩]) + maxRetries ≤ maxRetries := le_rfl
        rw [runWithRetries, meets_bind]
        refine (meets_attemptsLeft htries).mono ?_ fun _ => id
        intro h failure hfailure
        cases failure with
        | none =>
          obtain ⟨attempt, hmem⟩ := hfailure rfl
          exact .inr ⟨bytes, hvalue, .inl ⟨attempt, envelope, hparse, hmem⟩⟩
        | some failure => exact hsend
      · trivial

/-! ## What a run does -/

/-- What the history says has been done for the message at the offset. -/
structure Attested (s : State) (offset : ℕ) (h : History) : Prop where
  handled : ∀ attempt envelope,
    (⟨.handler attempt envelope, none⟩ : Program.Event Call.Reply) ∈ h →
      (offset, envelope) ∈ s.handled
  sent : ∀ topic letter,
    (⟨.send topic letter, some ()⟩ : Program.Event Call.Reply) ∈ h → (topic, letter) ∈ s.sent

variable (N topic) in
/-- The history of a member at an offset is one of the message there. -/
structure Underway (s : State) (offset : ℕ) (h : History) (p : Code Unit) : Prop where
  message : ∃ message, s.log[offset]? = some message ∧
    p.Meets Admitted (fun h _ => Done N topic message h) (fun _ => True) h
  tries : tries h ≤ maxRetries
  attested : Attested s offset h

variable (N topic) in
structure Sound (s : State) : Prop where
  committed : s.SettledBelow N topic s.committed
  members : ∀ i, s.SettledBelow N topic (s.members i).offset
  underway : ∀ i offset h p, s.members i = .running offset h p → Underway N topic s offset h p

variable {s t : State} {a : Action} {as : List Action} {i offset : ℕ} {o : Outcome} {x : Choice}
  {b : Member} {p : Code Unit}

/-- Nothing that has happened is undone. -/
structure Grows (s t : State) : Prop where
  log : s.log <+: t.log
  handled : s.handled ⊆ t.handled
  sent : s.sent ⊆ t.sent

theorem Grows.refl (s : State) : Grows s s :=
  ⟨List.prefix_rfl, List.Subset.refl _, List.Subset.refl _⟩

theorem Grows.getElem? (hg : Grows s t) (h : s.log[offset]? = some message) :
    t.log[offset]? = some message := by
  obtain ⟨rest, hrest⟩ := hg.log
  obtain ⟨hlt, -⟩ := List.getElem?_eq_some_iff.mp h
  rw [← hrest, List.getElem?_append_left hlt, h]

theorem Grows.settledBelow (hg : Grows s t) (hs : s.SettledBelow N topic offset) :
    t.SettledBelow N topic offset := by
  intro k hk
  obtain ⟨message, hmessage, hsettled⟩ := hs k hk
  refine ⟨message, hg.getElem? hmessage, ?_⟩
  rcases hsettled with hnone | ⟨bytes, hvalue, ⟨envelope, hparse, hmem⟩ | ⟨letter, hletter, hmem⟩⟩
  · exact .inl hnone
  · exact .inr ⟨bytes, hvalue, .inl ⟨envelope, hparse, hg.handled hmem⟩⟩
  · exact .inr ⟨bytes, hvalue, .inr ⟨letter, hletter, hg.sent hmem⟩⟩

theorem Grows.attested (hg : Grows s t) (h' : Attested s offset h) : Attested t offset h where
  handled attempt envelope hmem := hg.handled (h'.handled attempt envelope hmem)
  sent topic letter hmem := hg.sent (h'.sent topic letter hmem)

theorem Grows.underway (hg : Grows s t) (hu : Underway N topic s offset h p) :
    Underway N topic t offset h p := by
  obtain ⟨message, hmessage, hmeets⟩ := hu.message
  exact ⟨⟨message, hg.getElem? hmessage, hmeets⟩, hu.tries, hg.attested hu.attested⟩

theorem grows_perform (s : State) (offset : ℕ) (o : Outcome) (x : Choice) (c : Call) :
    Grows s (s.perform offset o x c) := by
  cases c with
  | handler attempt envelope =>
    rw [State.perform]
    split
    · exact ⟨List.prefix_rfl, List.subset_append_left .., List.Subset.refl _⟩
    · exact .refl s
  | send topic letter =>
    rw [State.perform]
    split
    · exact .refl s
    · exact ⟨List.prefix_rfl, List.Subset.refl _, List.subset_append_left ..⟩
  | _ => exact .refl s

theorem perform_rest (s : State) (offset : ℕ) (o : Outcome) (x : Choice) (c : Call) :
    (s.perform offset o x c).committed = s.committed ∧
      (s.perform offset o x c).members = s.members := by
  cases c with
  | handler => rw [State.perform]; split <;> exact ⟨rfl, rfl⟩
  | send => rw [State.perform]; split <;> exact ⟨rfl, rfl⟩
  | _ => exact ⟨rfl, rfl⟩

/-- What a history says is settled is settled. -/
theorem settled_of_done (h' : Attested s offset h) (hd : Done N topic message h) :
    s.Settled N topic offset message := by
  rcases hd with hnone | ⟨bytes, hvalue, ⟨attempt, envelope, hparse, hmem⟩ |
    ⟨letter, hletter, hmem⟩⟩
  · exact .inl hnone
  · exact .inr ⟨bytes, hvalue, .inl ⟨envelope, hparse, h'.handled attempt envelope hmem⟩⟩
  · exact .inr ⟨bytes, hvalue, .inr ⟨letter, hletter, h'.sent _ letter hmem⟩⟩

theorem settledBelow_succ (hs : s.SettledBelow N topic offset)
    (hmessage : s.log[offset]? = some message) (hsettled : s.Settled N topic offset message) :
    s.SettledBelow N topic (offset + 1) := by
  intro k hk
  rcases Nat.lt_succ_iff_lt_or_eq.mp hk with hk | rfl
  · exact hs k hk
  · exact ⟨message, hmessage, hsettled⟩

/-- The answer to a call tells of what the call has done. -/
theorem attested_advance (h' : Attested s offset h) :
    Attested (s.perform offset o x c) offset (h ++ [⟨c, answer o x c⟩]) := by
  have hg := grows_perform s offset o x c
  constructor
  · intro attempt envelope hmem
    rcases List.mem_append.mp hmem with hmem | hmem
    · exact hg.handled (h'.handled attempt envelope hmem)
    · obtain ⟨rfl, hreply⟩ := Sigma.mk.inj (List.mem_singleton.mp hmem)
      have hthrown : none = x.thrown := eq_of_heq hreply
      rw [State.perform, ← hthrown]
      exact List.mem_concat_self
  · intro topic letter hmem
    rcases List.mem_append.mp hmem with hmem | hmem
    · exact hg.sent (h'.sent topic letter hmem)
    · obtain ⟨rfl, hreply⟩ := Sigma.mk.inj (List.mem_singleton.mp hmem)
      have hreply : some () = if o = .ok then some () else none := eq_of_heq hreply
      have hok : o ≠ .failed := by
        rintro rfl
        cases hreply
      rw [State.perform, if_neg hok]
      exact List.mem_concat_self

theorem sound_setMember (hs : Sound N topic s) (hoffset : s.SettledBelow N topic b.offset)
    (hown : ∀ offset h p, b = .running offset h p → Underway N topic s offset h p) :
    Sound N topic (s.setMember i b) := by
  have hg : Grows s (s.setMember i b) := ⟨List.prefix_rfl, List.Subset.refl _, List.Subset.refl _⟩
  refine ⟨hg.settledBelow hs.committed, fun j => ?_, fun j offset h p hj => ?_⟩
  · apply hg.settledBelow
    change s.SettledBelow N topic (Function.update s.members i b j).offset
    rcases eq_or_ne j i with rfl | hne
    · rwa [Function.update_self]
    · rw [Function.update_of_ne hne]
      exact hs.members j
  · apply hg.underway
    change Function.update s.members i b j = _ at hj
    rcases eq_or_ne j i with rfl | hne
    · rw [Function.update_self] at hj
      exact hown offset h p hj
    · rw [Function.update_of_ne hne] at hj
      exact hs.underway j offset h p hj

/-- What grows around the members keeps them sound. -/
theorem sound_of_grows (hs : Sound N topic s) (hg : Grows s t)
    (hcommitted : t.committed = s.committed) (hmembers : t.members = s.members) :
    Sound N topic t := by
  refine ⟨?_, fun i => ?_, fun i offset h p hi => ?_⟩
  · rw [hcommitted]
    exact hg.settledBelow hs.committed
  · rw [hmembers]
    exact hg.settledBelow (hs.members i)
  · rw [hmembers] at hi
    exact hg.underway (hs.underway i offset h p hi)

theorem sound_step (hs : Sound N topic s) (ht : step P N topic s a = some t) :
    Sound N topic t := by
  have hnil : s.SettledBelow N topic 0 := fun k hk => absurd hk (Nat.not_lt_zero k)
  cases a with
  | append message =>
    cases ht
    exact sound_of_grows hs
      ⟨List.prefix_append .., List.Subset.refl _, List.Subset.refl _⟩ rfl rfl
  | assign i =>
    cases ht
    exact sound_setMember hs hs.committed nofun
  | crash i =>
    cases ht
    exact sound_setMember hs hnil nofun
  | commit i =>
    have hmember := hs.members i
    rw [step] at ht
    split at ht <;> cases ht
    have hg : Grows s { s with committed := (s.members i).offset } :=
      ⟨List.prefix_rfl, List.Subset.refl _, List.Subset.refl _⟩
    exact ⟨hg.settledBelow hmember, fun j => hg.settledBelow (hs.members j),
      fun j offset h p hj => hg.underway (hs.underway j offset h p hj)⟩
  | fetch i =>
    have hmember := hs.members i
    rw [step] at ht
    split at ht
    · next offset hi =>
      obtain ⟨message, hmessage, rfl⟩ := Option.map_eq_some_iff.mp ht
      have hmember : s.SettledBelow N topic offset := by rwa [hi] at hmember
      apply sound_setMember hs
      · exact hmember
      · rintro _ _ _ ⟨⟩
        exact ⟨⟨message, hmessage, meets_eachMessage⟩, Nat.zero_le _, nofun, nofun⟩
    · cases ht
  | advance i o x =>
    have hmember := hs.members i
    rw [step] at ht
    split at ht
    · next offset history c next hi =>
      cases ht
      have hmember : s.SettledBelow N topic offset := by rwa [hi] at hmember
      obtain ⟨⟨message, hmessage, hadmitted, hmeets⟩, htries, h'⟩ := hs.underway i _ _ _ hi
      have hg := grows_perform s offset o x c
      have hrest := perform_rest s offset o x c
      apply sound_setMember (sound_of_grows hs hg hrest.1 hrest.2)
      · exact hg.settledBelow hmember
      · rintro _ _ _ ⟨⟩
        refine ⟨⟨message, hg.getElem? hmessage, hmeets _⟩, ?_, attested_advance h'⟩
        rw [tries_concat]
        split
        · next hc => exact hadmitted hc
        · exact htries
    · cases ht
  | resolve i =>
    have hmember := hs.members i
    rw [step] at ht
    split at ht
    · next offset history _ hi =>
      cases ht
      have hmember : s.SettledBelow N topic offset := by rwa [hi] at hmember
      obtain ⟨⟨message, hmessage, hdone⟩, -, h'⟩ := hs.underway i _ _ _ hi
      exact sound_setMember hs
        (settledBelow_succ hmember hmessage (settled_of_done h' hdone)) nofun
    · cases ht
  | retry i =>
    have hmember := hs.members i
    rw [step] at ht
    split at ht
    · next offset history hi =>
      cases ht
      have hmember : s.SettledBelow N topic offset := by rwa [hi] at hmember
      exact sound_setMember hs hmember nofun
    · cases ht

theorem sound_initial (hs : Initial s) : Sound N topic s := by
  obtain ⟨hcommitted, haway⟩ := hs
  refine ⟨?_, fun i => ?_, fun i offset h p hi => ?_⟩
  · rw [hcommitted]
    exact fun k hk => absurd hk (Nat.not_lt_zero k)
  · rw [haway i]
    exact fun k hk => absurd hk (Nat.not_lt_zero k)
  · rw [haway i] at hi
    cases hi

/--
In every state of every run all messages before the committed offset are settled, and so are those
before the one that a member is at, for which it has called the handler no more than three times.
-/
theorem partition_no_loss (hs : Initial s) (hrun : (system P N topic).Run Any s as t) :
    ∀ u ∈ (system P N topic).visited s as,
      u.SettledBelow N topic u.committed ∧
      (∀ i, u.SettledBelow N topic (u.members i).offset) ∧
      ∀ i offset h p, u.members i = .running offset h p → tries h ≤ 3 := by
  intro u hu
  have hsound : Sound N topic u :=
    hrun.forall_visited (fun s a t hs _ hst => sound_step hs hst) (sound_initial hs) u hu
  exact ⟨hsound.committed, hsound.members,
    fun i offset h p hi => (hsound.underway i _ _ _ hi).tries⟩

theorem initial_default : Initial {} := ⟨rfl, fun _ => rfl⟩

/-- Metrics and propagator as they are, with one date. -/
def platform : Platform where
  parseDate t := if t = units "2024-01-01T00:00:00.000Z" then some Redis.newYear else none
  observe := Number.isFinite
  set _ := true
  extract _ := true

def ascii : Engine where
  decode bytes := bytes.map UInt8.toNat
  syntaxError raw := (raw, [])

def textMessage (text position : String) : Message where
  value := some ((units text).map fun u => UInt8.ofNat u)
  position := units position

/-- The handler returns. -/
def returning : Choice where
  now := Redis.newYear

def failing : Choice :=
  { returning with thrown := some (.error (units "down") []) }

/--
The first message is no JSON, and its letter is sent without an answer before it is sent again. The
second is tried by a member that dies, and then by another, for which the handler returns.
-/
def rebalanced : List Action :=
  [.append (textMessage "?" "0:0"),
    .append (textMessage "\x7b\"timestamp\":\"2024-01-01T00:00:00.000Z\"\x7d" "0:1"), .assign 0,
    .fetch 0, .advance 0 .ok returning, .advance 0 .lost returning, .retry 0, .fetch 0,
    .advance 0 .ok returning, .advance 0 .ok returning, .resolve 0, .commit 0, .fetch 0,
    .advance 0 .ok returning, .advance 0 .ok failing, .crash 0, .assign 1, .fetch 1,
    .advance 1 .ok returning, .advance 1 .ok failing, .advance 1 .ok returning, .resolve 1,
    .commit 1]

theorem partition_no_loss_rebalanced : ∃ t,
    (system platform ascii (units "audit")).exec {} rebalanced = some t ∧ t.committed = 2 ∧
    t.sent.length = 2 ∧ t.handled.length = 1 ∧
    t.SettledBelow ascii (units "audit") t.committed ∧
    (∀ i, t.SettledBelow ascii (units "audit") (t.members i).offset) ∧
    ∀ i offset h p, t.members i = .running offset h p → tries h ≤ 3 := by
  have h : ((system platform ascii (units "audit")).exec {} rebalanced).any fun t =>
      t.committed = 2 ∧ t.sent.length = 2 ∧ t.handled.length = 1 := by decide +kernel
  obtain ⟨t, ht, h⟩ := (Option.any_eq_true _ _).mp h
  obtain ⟨hcommitted, hsent, hhandled⟩ := of_decide_eq_true h
  have hrun := run_of_exec ht
  exact ⟨t, ht, hcommitted, hsent, hhandled,
    partition_no_loss initial_default hrun t hrun.mem_visited⟩

end AssureCode.Bus.Kafka
