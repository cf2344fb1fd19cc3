import AssureCode.Ledger.Append

/-! # When the committed ledger is one chain

The advisory lock keeps the calls themselves apart, but it is given back before
the row is visible to other sessions. The ledger stays one chain as long as no
session reads its end while another has a row of its own to commit.
-/

namespace AssureCode.Ledger

open Machine

variable {sha256 : String → String} {s t : State} {act : Action} {as : List Action} {i j : ℕ}
  {x : Session} {entry : Entry} {previous : String} {rows rows' : List Row} {r : Row}

/-- An append reads the end of the chain only while no other session has a row to commit. -/
def SelectsAlone (s : State) (act : Action) : Prop :=
  ∀ i, act = .select i → ∀ j, j ≠ i → (s.sessions j).pending = []

/-! ## What a step does -/

@[simp] theorem set_self : (s.set i x).sessions i = x := by simp [State.set]

theorem set_ne (h : j ≠ i) : (s.set i x).sessions j = s.sessions j := by simp [State.set, h]

@[simp] theorem set_committed : (s.set i x).committed = s.committed := rfl
@[simp] theorem set_nextId : (s.set i x).nextId = s.nextId := rfl
@[simp] theorem set_lock : (s.set i x).lock = s.lock := rfl

def Call.inserts : Call → Bool
  | .inserting _ _ => true
  | _ => false

/-- The effects on the rows: most steps only move a session, or lose what it has written. -/
inductive Effect (sha256 : String → String) (s : State) : Action → State → Prop
  | quiet {act : Action} {i : ℕ} {x : Session} (lock : Option (ℕ × ℕ)) :
      x.pending = (s.sessions i).pending ∨ x.pending = [] → x.call.inserts = false →
      Effect sha256 s act (State.set { s with lock := lock } i x)
  | select {i : ℕ} {entry : Entry} : (s.sessions i).call = .selecting entry →
      Effect sha256 s (.select i) (s.set i { s.sessions i with
        call := .inserting entry (previousHash (s.committed ++ (s.sessions i).pending)) })
  | insert {i : ℕ} {entry : Entry} {previous : String} :
      (s.sessions i).call = .inserting entry previous →
      Effect sha256 s (.insert i) (State.set { s with nextId := s.nextId + 1 } i
        { s.sessions i with
          call := .unlocking
          pending := (s.sessions i).pending ++ [newRow sha256 s entry previous] })
  | publish {act : Action} {i : ℕ} : Effect sha256 s act (s.publish i)
  | draw : Effect sha256 s .draw { s with nextId := s.nextId + 1 }

theorem effect_of_step (h : step sha256 s act = some t) : Effect sha256 s act t := by
  cases act with
  | begin i =>
    simp only [step, Option.ite_none_right_eq_some, Option.some.injEq] at h
    obtain ⟨⟨hc, -⟩, rfl⟩ := h
    exact .quiet s.lock (.inl rfl) (by simp [hc, Call.inserts])
  | call i entry =>
    simp only [step, Option.ite_none_right_eq_some, Option.some.injEq] at h
    obtain ⟨-, rfl⟩ := h
    split
    · exact .quiet s.lock (.inr rfl) rfl
    · exact .quiet s.lock (.inl rfl) rfl
  | lock i =>
    simp only [step] at h
    split at h
    · cases h
      exact .quiet _ (.inl rfl) rfl
    · cases h
  | select i =>
    simp only [step] at h
    split at h
    · cases h
      exact .select ‹_›
    · cases h
  | insert i =>
    simp only [step] at h
    split at h
    · cases h
      exact .insert ‹_›
    · cases h
  | unlock i =>
    simp only [step, Option.ite_none_right_eq_some, Option.some.injEq] at h
    obtain ⟨-, rfl⟩ := h
    exact .quiet _ (.inl rfl) (by dsimp only; split <;> rfl)
  | finish i =>
    simp only [step, Option.ite_none_right_eq_some, Option.some.injEq] at h
    obtain ⟨-, rfl⟩ := h
    exact .publish
  | fail i =>
    simp only [step, Option.ite_none_left_eq_some, Option.some.injEq] at h
    obtain ⟨-, rfl⟩ := h
    exact .quiet s.lock (.inr rfl) rfl
  | commit i =>
    simp only [step, Option.ite_none_right_eq_some] at h
    obtain ⟨-, h⟩ := h
    split at h
    · cases h
      exact .publish
    · cases h
      exact .quiet s.lock (.inr rfl) rfl
    · cases h
  | rollback i =>
    simp only [step, Option.ite_none_right_eq_some, Option.some.injEq] at h
    obtain ⟨-, rfl⟩ := h
    exact .quiet s.lock (.inr rfl) rfl
  | disconnect i =>
    cases h
    exact .quiet _ (.inr rfl) rfl
  | draw =>
    cases h
    exact .draw

/-! ## The lock -/

/-- The session is between taking the lock and giving it back. -/
def Call.holds : Call → Bool
  | .selecting _ | .inserting _ _ | .unlocking => true
  | _ => false

/-- Whoever is inside the function holds the lock. -/
def State.Locked (s : State) : Prop :=
  ∀ i, (s.sessions i).call.holds = true → ∃ n, s.lock = some (i, n)

theorem State.Locked.unique (h : s.Locked) (hi : (s.sessions i).call.holds = true)
    (hj : (s.sessions j).call.holds = true) : i = j := by
  obtain ⟨n, hn⟩ := h i hi
  obtain ⟨m, hm⟩ := h j hj
  rw [hn] at hm
  cases hm
  rfl

theorem locked_of_update (hs : s.Locked) (ht : t.sessions = Function.update s.sessions i x)
    (hx : x.call.holds = true → ∃ n, t.lock = some (i, n))
    (hl : ∀ j n, j ≠ i → s.lock = some (j, n) → t.lock = some (j, n)) : t.Locked := by
  intro j hj
  rw [ht] at hj
  rcases eq_or_ne j i with rfl | hne
  · rw [Function.update_self] at hj
    exact hx hj
  · rw [Function.update_of_ne hne] at hj
    obtain ⟨n, hn⟩ := hs j hj
    exact ⟨n, hl j n hne hn⟩

theorem acquire_eq_some {lock : Option (ℕ × ℕ)} {taken : ℕ × ℕ}
    (h : acquire lock i = some taken) :
    taken.1 = i ∧ ∀ j n, lock = some (j, n) → j = i := by
  unfold acquire at h
  split at h
  · cases h
    exact ⟨rfl, by simp⟩
  · simp only [Option.ite_none_right_eq_some, Option.some.injEq] at h
    obtain ⟨rfl, rfl⟩ := h
    exact ⟨rfl, by simp⟩

theorem release_of_ne {n : ℕ} (h : j ≠ i) : release (some (j, n)) i = some (j, n) := by
  simp [release, h]

theorem locked_step (hs : s.Locked) (h : step sha256 s act = some t) : t.Locked := by
  cases act with
  | lock i =>
    simp only [step] at h
    split at h
    · rename_i entry lock hcall hlock
      cases h
      obtain ⟨rfl, hfree⟩ := acquire_eq_some hlock
      exact locked_of_update hs rfl (fun _ => ⟨lock.2, rfl⟩)
        fun j n hne hl => absurd (hfree j n hl) hne
    · cases h
  | select i =>
    simp only [step] at h
    split at h
    · rename_i entry hcall
      cases h
      exact locked_of_update hs rfl (fun _ => hs i (by rw [hcall]; rfl)) fun _ _ _ hl => hl
    · cases h
  | insert i =>
    simp only [step] at h
    split at h
    · rename_i entry previous hcall
      cases h
      exact locked_of_update hs rfl (fun _ => hs i (by rw [hcall]; rfl)) fun _ _ _ hl => hl
    · cases h
  | unlock i =>
    simp only [step, Option.ite_none_right_eq_some, Option.some.injEq] at h
    obtain ⟨-, rfl⟩ := h
    refine locked_of_update hs rfl (fun hx => ?_) fun j n hne hl => ?_
    · dsimp only at hx
      split at hx <;> cases hx
    · simp [hl, release_of_ne hne]
  | disconnect i =>
    cases h
    apply locked_of_update hs rfl (fun hx => by cases hx)
    intro j n hne hl
    simp [hl, hne]
  | begin i =>
    simp only [step, Option.ite_none_right_eq_some, Option.some.injEq] at h
    obtain ⟨⟨hc, -⟩, rfl⟩ := h
    exact locked_of_update hs rfl (fun hx => by simp [hc, Call.holds] at hx) fun _ _ _ hl => hl
  | call i entry =>
    simp only [step, Option.ite_none_right_eq_some, Option.some.injEq] at h
    obtain ⟨-, rfl⟩ := h
    refine locked_of_update hs rfl (fun hx => ?_) fun _ _ _ hl => hl
    split at hx <;> cases hx
  | finish i =>
    simp only [step, Option.ite_none_right_eq_some, Option.some.injEq] at h
    obtain ⟨-, rfl⟩ := h
    exact locked_of_update hs rfl (fun hx => by cases hx) fun _ _ _ hl => hl
  | fail i =>
    simp only [step, Option.ite_none_left_eq_some, Option.some.injEq] at h
    obtain ⟨-, rfl⟩ := h
    exact locked_of_update hs rfl (fun hx => by cases hx) fun _ _ _ hl => hl
  | commit i =>
    simp only [step, Option.ite_none_right_eq_some] at h
    obtain ⟨-, h⟩ := h
    split at h
    · cases h
      exact locked_of_update hs rfl (fun hx => by cases hx) fun _ _ _ hl => hl
    · cases h
      exact locked_of_update hs rfl (fun hx => by cases hx) fun _ _ _ hl => hl
    · cases h
  | rollback i =>
    simp only [step, Option.ite_none_right_eq_some, Option.some.injEq] at h
    obtain ⟨-, rfl⟩ := h
    exact locked_of_update hs rfl (fun hx => by cases hx) fun _ _ _ hl => hl
  | draw =>
    cases h
    exact hs

/-! ## Chains -/

theorem Linked.left : Linked previous (rows ++ rows') → Linked previous rows := by
  induction rows generalizing previous with
  | nil => exact fun _ => trivial
  | cons r rows ih => exact fun h => ⟨h.1, ih h.2⟩

theorem Linked.snoc (h : Linked previous rows)
    (hr : r.previousHash = (rows.getLast?.map (·.currentHash)).getD previous) :
    Linked previous (rows ++ [r]) := by
  induction rows generalizing previous with
  | nil => exact ⟨hr, trivial⟩
  | cons q rows ih =>
    refine ⟨h.1, ih h.2 ?_⟩
    rw [hr, List.getLast?_cons]
    cases rows.getLast? <;> rfl

/-- A chain from `GENESIS` in the order of ids below `n`. -/
structure Chain (n : ℕ) (rows : List Row) : Prop where
  sorted : rows.Pairwise fun r q => r.ledgerId < q.ledgerId
  fresh : ∀ r ∈ rows, r.ledgerId < n
  linked : Linked "GENESIS" rows

theorem Chain.ordered {n : ℕ} (h : Chain n rows) : ordered rows = rows :=
  (h.sorted.imp fun hlt => hlt.le).insertionSort_eq

theorem Chain.left {n : ℕ} (h : Chain n (rows ++ rows')) : Chain n rows where
  sorted := (List.pairwise_append.mp h.sorted).1
  fresh := fun r hr => h.fresh r (List.mem_append_left _ hr)
  linked := h.linked.left

theorem Chain.mono {n : ℕ} (h : Chain n rows) : Chain (n + 1) rows :=
  ⟨h.sorted, fun r hr => Nat.lt_succ_of_lt (h.fresh r hr), h.linked⟩

/-- The next row of a chain carries the next id and the hash of the last row. -/
theorem Chain.snoc {n : ℕ} (h : Chain n rows) (hid : r.ledgerId = n)
    (hr : r.previousHash = previousHash rows) : Chain (n + 1) (rows ++ [r]) where
  sorted := List.pairwise_append.mpr
    ⟨h.sorted, List.pairwise_singleton _ _, by simpa [hid] using h.fresh⟩
  fresh := by
    simp only [List.mem_append, List.mem_singleton]
    rintro q (hq | rfl)
    · exact Nat.lt_succ_of_lt (h.fresh q hq)
    · omega
  linked := by
    rw [previousHash, h.ordered] at hr
    exact h.linked.snoc hr

/-! ## The invariant -/

/-- The session has a row to commit, or is about to insert one. -/
def Session.Busy (x : Session) : Prop := x.pending ≠ [] ∨ x.call.inserts = true

/-- What is committed and what any one session has to add to it is a chain. -/
structure Orderly (s : State) : Prop where
  chain : ∀ i, Chain s.nextId (s.committed ++ (s.sessions i).pending)
  alone : ∀ i j, (s.sessions i).Busy → (s.sessions j).Busy → i = j
  selected : ∀ i entry previous, (s.sessions i).call = .inserting entry previous →
    previous = previousHash (s.committed ++ (s.sessions i).pending)

theorem Call.holds_of_inserts {c : Call} (h : c.inserts = true) : c.holds = true := by
  cases c <;> first | rfl | cases h

theorem orderly_quiet {lock : Option (ℕ × ℕ)} (hs : Orderly s)
    (hp : x.pending = (s.sessions i).pending ∨ x.pending = []) (hc : x.call.inserts = false) :
    Orderly (State.set { s with lock := lock } i x) := by
  have hbusy : x.Busy → (s.sessions i).Busy := by
    rintro (hne | hins)
    · rcases hp with hp | hp
      · exact .inl (hp ▸ hne)
      · exact absurd hp hne
    · simp [hc] at hins
  have hbusy' : ∀ j, ((State.set { s with lock := lock } i x).sessions j).Busy →
      (s.sessions j).Busy := by
    intro j hj
    rcases eq_or_ne j i with rfl | hne
    · rw [set_self] at hj
      exact hbusy hj
    · rwa [set_ne hne] at hj
  refine ⟨fun j => ?_, fun j k hj hk => hs.alone j k (hbusy' j hj) (hbusy' k hk), ?_⟩
  · rcases eq_or_ne j i with rfl | hne
    · rw [set_self]
      rcases hp with hp | hp
      · rw [hp]
        exact hs.chain j
      · rw [hp, List.append_nil]
        exact (hs.chain j).left
    · rw [set_ne hne]
      exact hs.chain j
  · intro j entry previous hj
    rcases eq_or_ne j i with rfl | hne
    · rw [set_self] at hj
      simp [hj, Call.inserts] at hc
    · rw [set_ne hne] at hj ⊢
      exact hs.selected j entry previous hj

theorem orderly_select (hs : Orderly s) (hl : s.Locked)
    (hcall : (s.sessions i).call = .selecting entry)
    (hk : ∀ j, j ≠ i → (s.sessions j).pending = []) :
    Orderly (s.set i { s.sessions i with
      call := .inserting entry (previousHash (s.committed ++ (s.sessions i).pending)) }) := by
  have hnot : ∀ j, j ≠ i → ¬ (s.sessions j).Busy := by
    rintro j hne (hp | hins)
    · exact hp (hk j hne)
    · exact hne (hl.unique (Call.holds_of_inserts hins) (by rw [hcall]; rfl))
  refine ⟨fun j => ?_, fun j k hj hk => ?_, fun j entry' previous hj => ?_⟩
  · rcases eq_or_ne j i with rfl | hne
    · rw [set_self]
      exact hs.chain j
    · rw [set_ne hne]
      exact hs.chain j
  · rcases eq_or_ne j i with rfl | hne
    · rcases eq_or_ne k j with rfl | hne'
      · rfl
      · rw [set_ne hne'] at hk
        exact absurd hk (hnot k hne')
    · rw [set_ne hne] at hj
      exact absurd hj (hnot j hne)
  · rcases eq_or_ne j i with rfl | hne
    · rw [set_self] at hj ⊢
      cases hj
      rfl
    · rw [set_ne hne] at hj
      exact absurd (.inr (by rw [hj]; rfl)) (hnot j hne)

theorem orderly_insert (hs : Orderly s) (hcall : (s.sessions i).call = .inserting entry previous) :
    Orderly (State.set { s with nextId := s.nextId + 1 } i
      { s.sessions i with
        call := .unlocking
        pending := (s.sessions i).pending ++ [newRow sha256 s entry previous] }) := by
  have hi : (s.sessions i).Busy := .inr (by rw [hcall]; rfl)
  have hbusy : ∀ j, ((State.set { s with nextId := s.nextId + 1 } i
      { s.sessions i with
        call := .unlocking
        pending := (s.sessions i).pending ++ [newRow sha256 s entry previous] }).sessions j).Busy →
      (s.sessions j).Busy := by
    intro j hj
    rcases eq_or_ne j i with rfl | hne
    · exact hi
    · rwa [set_ne hne] at hj
  refine ⟨fun j => ?_, fun j k hj hk => hs.alone j k (hbusy j hj) (hbusy k hk),
    fun j entry' previous' hj => ?_⟩
  · rcases eq_or_ne j i with rfl | hne
    · rw [set_self]
      have hchain := (hs.chain j).snoc (r := newRow sha256 s entry previous) rfl
        (hs.selected j entry previous hcall)
      rwa [List.append_assoc] at hchain
    · rw [set_ne hne]
      exact (hs.chain j).mono
  · rcases eq_or_ne j i with rfl | hne
    · rw [set_self] at hj
      cases hj
    · rw [set_ne hne] at hj ⊢
      exact hs.selected j entry' previous' hj

theorem orderly_publish (hs : Orderly s) : Orderly (s.publish i) := by
  -- whoever else has a row to commit leaves session `i` without one
  have hother : ∀ j, j ≠ i → (s.sessions j).Busy → (s.sessions i).pending = [] := by
    intro j hne hj
    by_contra hi
    exact hne (hs.alone j i hj (.inl hi))
  refine ⟨fun j => ?_, fun j k hj hk => ?_, fun j entry previous hj => ?_⟩
  · rcases eq_or_ne j i with rfl | hne
    · simpa [State.publish] using hs.chain j
    · rw [State.publish, set_ne hne, set_committed, set_nextId]
      by_cases hj : (s.sessions j).pending = []
      · simpa [hj] using hs.chain i
      · rw [hother j hne (.inl hj), List.append_nil]
        exact hs.chain j
  · rcases eq_or_ne j i with rfl | hne
    · simp [State.publish, Session.Busy, Call.inserts] at hj
    · rcases eq_or_ne k i with rfl | hne'
      · simp [State.publish, Session.Busy, Call.inserts] at hk
      · rw [State.publish, set_ne hne] at hj
        rw [State.publish, set_ne hne'] at hk
        exact hs.alone j k hj hk
  · rcases eq_or_ne j i with rfl | hne
    · simp [State.publish] at hj
    · rw [State.publish, set_ne hne] at hj ⊢
      have hi := hother j hne (.inr (by rw [hj]; rfl))
      rw [set_committed, hi, List.append_nil]
      exact hs.selected j entry previous hj

theorem orderly_step (hl : s.Locked) (hs : Orderly s) (hk : SelectsAlone s act)
    (h : step sha256 s act = some t) : Orderly t := by
  cases effect_of_step h with
  | quiet _ hp hc => exact orderly_quiet hs hp hc
  | select hcall => exact orderly_select hs hl hcall (hk _ rfl)
  | insert hcall => exact orderly_insert hs hcall
  | publish => exact orderly_publish hs
  | draw => exact ⟨fun j => (hs.chain j).mono, hs.alone, hs.selected⟩

theorem orderly_initial : Orderly {} where
  chain := fun _ => ⟨List.Pairwise.nil, by simp, trivial⟩
  alone := by simp [Session.Busy, Call.inserts]
  selected := by simp

theorem Orderly.linear (hs : Orderly s) : s.Linear := by
  have hc : Chain s.nextId s.committed := (hs.chain 0).left
  rw [State.Linear, hc.ordered]
  exact hc.linked

/-- Runs in which every session reads the end of the chain alone leave one chain. -/
theorem ledger_linear (h : (system sha256).Run SelectsAlone {} as s) : s.Linear := by
  have hinv : s.Locked ∧ Orderly s := by
    refine h.invariant (I := fun s => s.Locked ∧ Orderly s) ?_
      ⟨fun i hi => by simp [Call.holds] at hi, orderly_initial⟩
    rintro s act t ⟨hl, hs⟩ hk hst
    exact ⟨locked_step hl hst, orderly_step hl hs hk hst⟩
  exact hinv.2.linear

/-- One autocommitted append, start to finish. -/
def appendAlone (i : ℕ) (entry : Entry) : List Action :=
  [.call i entry, .lock i, .select i, .insert i, .unlock i, .finish i]

theorem ledger_linear_appendAlone : ∃ s,
    (system id).exec {} (appendAlone 0 ⟨"GENESIS", "{}"⟩) = some s ∧ s.Linear := by
  refine ⟨_, rfl, ledger_linear
    (show (system id).Run SelectsAlone {} (appendAlone 0 ⟨"GENESIS", "{}"⟩) _ from ?_)⟩
  refine .cons (by simp [SelectsAlone]) rfl (.cons (by simp [SelectsAlone]) rfl (.cons ?_ rfl
    (.cons (by simp [SelectsAlone]) rfl (.cons (by simp [SelectsAlone]) rfl
      (.cons (by simp [SelectsAlone]) rfl (.nil _))))))
  rintro _ ⟨⟩ j hne
  simp [State.set, hne]

/-- A transaction appends and has not committed when the next append reads the chain. -/
def forks : List Action :=
  [.begin 0, .call 0 ⟨"SETTLEMENT_COMPLETED", "{}"⟩, .lock 0, .select 0, .insert 0, .unlock 0,
    .call 1 ⟨"CODE_PUSH", "[]"⟩, .lock 1, .select 1, .insert 1, .unlock 1, .finish 1, .commit 0]

/-- Whatever the digest, the two rows both follow `GENESIS`. -/
theorem exec_forks (sha256 : String → String) : ∃ s, (system sha256).exec {} forks = some s ∧
    ∃ r q, ordered s.committed = [r, q] ∧ q.previousHash = "GENESIS" ∧
      r.currentHash = sha256 ("{}" ++ "\n" ++ "GENESIS") :=
  ⟨_, rfl, _, _, rfl, rfl, rfl⟩

/-- No digest of 64 characters keeps every reachable ledger in one chain. -/
theorem ledger_forks : ¬ ∃ sha256 : String → String, (∀ text, (sha256 text).length = 64) ∧
    ∀ as s, (system sha256).Run Any {} as s → s.Linear := by
  rintro ⟨sha256, hlen, hall⟩
  obtain ⟨s, hs, r, q, hrows, hq, hr⟩ := exec_forks sha256
  have hlin := hall forks s (run_of_exec hs)
  rw [State.Linear, hrows] at hlin
  have heq : q.previousHash = r.currentHash := hlin.2.1
  have h64 := hlen ("{}" ++ "\n" ++ "GENESIS")
  rw [← hr, ← heq, hq] at h64
  exact absurd h64 (by decide)

end AssureCode.Ledger
