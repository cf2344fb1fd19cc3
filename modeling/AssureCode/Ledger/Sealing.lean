import AssureCode.Ledger.Roots
import AssureCode.Transition.Schedule

/-! # Roots that go back

`computeAndStoreRoot` reads the ledger in one statement and upserts in another, which no condition
guards. A call that is overtaken between the two writes an older root over a newer one.
-/

namespace AssureCode.Ledger.Roots

open Js Machine
open Settlement (Outcome)

/-- Every contract keeps its root, over no fewer entries. -/
def Covers (s t : State) : Prop :=
  ∀ c root, s.roots c = some root →
    ∃ root', t.roots c = some root' ∧ root.leafCount ≤ root'.leafCount

/-! ## What actions do -/

/-- The call reads the ledger of the contract. -/
def Reads (i : ℕ) (c : Text) (a : Action) : Prop := a = .computeAndStoreRoot i c

/-- The ledger of the contract gains an entry. -/
def Grows (c : Text) : Action → Prop
  | .append row => row.contractId = c
  | _ => False

/-- The call's statement takes effect. -/
def TakesEffect (i : ℕ) : Action → Prop
  | .advance j o _ => j = i ∧ o ≠ .failed
  | _ => False

/-- One call reads, an entry is appended, another call reads and upserts, and then the first. -/
def Overtaken (as : List Action) : Prop :=
  ∃ j i c, InOrder [Reads j c, Grows c, Reads i c, TakesEffect i, TakesEffect j] as

/-- The contract and the number of entries that a call has read and is about to store. -/
def Actor.sealing : Actor → Option (Text × ℕ)
  | .working (.upsert c _ n _) => some (c, n)
  | _ => none

def Actor.Ended (b : Actor) : Prop := ∃ reply, b = .ended reply

/-- What the actions so far say about the calls between their two statements. -/
structure History (p : List Action) (s : State) : Prop where
  own : ∀ j c, .computeAndStoreRoot j c ∈ p →
    (s.actors j).Ended ∨ ∃ n, (s.actors j).sealing = some (c, n)
  started : ∀ j c n, (s.actors j).sealing = some (c, n) → .computeAndStoreRoot j c ∈ p
  bounded : ∀ j c n, (s.actors j).sealing = some (c, n) → n ≤ (s.chains c).length
  stored_le : ∀ c root, s.roots c = some root → root.leafCount ≤ (s.chains c).length
  grown : ∀ j c m, (s.actors j).sealing = some (c, m) →
    (m < (s.chains c).length ↔ InOrder [Reads j c, Grows c] p)
  later : ∀ j i c m n, (s.actors j).sealing = some (c, m) → (s.actors i).sealing = some (c, n) →
    (m < n ↔ InOrder [Reads j c, Grows c, Reads i c] p)
  stored : ∀ j c m, (s.actors j).sealing = some (c, m) →
    ((∃ root, s.roots c = some root ∧ m < root.leafCount) ↔
      ∃ i, InOrder [Reads j c, Grows c, Reads i c, TakesEffect i] p)

variable {sha256 : Buffer → Buffer} {s t : State} {a : Action} {p as : List Action} {i j : ℕ}
  {b : Actor} {c : Text} {m n : ℕ}

/-- The call that a schedule begins with has read the ledger. -/
theorem reads_of_inOrder {kinds : List (Action → Prop)} (h : InOrder (Reads j c :: kinds) p) :
    .computeAndStoreRoot j c ∈ p := by
  obtain ⟨_, ha, rfl⟩ := exists_mem_of_inOrder h _ List.mem_cons_self
  exact ha

theorem inOrder_one : InOrder [Reads j c] p ↔ .computeAndStoreRoot j c ∈ p := by
  constructor
  · exact reads_of_inOrder
  · intro h
    obtain ⟨pre, post, rfl⟩ := List.mem_iff_append.mp h
    exact ⟨pre, _, post, rfl, trivial, rfl⟩

theorem inOrder_two : InOrder [Reads j c, Grows c] (p ++ [a]) ↔
    InOrder [Reads j c, Grows c] p ∨ InOrder [Reads j c] p ∧ Grows c a :=
  then_concat

theorem inOrder_three : InOrder [Reads j c, Grows c, Reads i c] (p ++ [a]) ↔
    InOrder [Reads j c, Grows c, Reads i c] p ∨ InOrder [Reads j c, Grows c] p ∧ Reads i c a :=
  then_concat

theorem inOrder_four : InOrder [Reads j c, Grows c, Reads i c, TakesEffect i] (p ++ [a]) ↔
    InOrder [Reads j c, Grows c, Reads i c, TakesEffect i] p ∨
      InOrder [Reads j c, Grows c, Reads i c] p ∧ TakesEffect i a :=
  then_concat

theorem reads_of_three (h : InOrder [Reads j c, Grows c, Reads i c] p) :
    .computeAndStoreRoot j c ∈ p ∧ .computeAndStoreRoot i c ∈ p := by
  obtain ⟨_, hi, rfl⟩ := exists_mem_of_inOrder h (Reads i c) (by simp)
  exact ⟨reads_of_inOrder h, hi⟩

theorem sealing_update (hb : b.sealing = none) {x : Text × ℕ} :
    (Function.update s.actors i b j).sealing = some x ↔ j ≠ i ∧ (s.actors j).sealing = some x := by
  by_cases hj : j = i
  · subst hj
    simp [hb]
  · simp [hj]

/-- The call that has just read is about to store what it has read. -/
theorem sealing_read {root : Text} {maxLedgerId : Option ℕ} {x : Text × ℕ} :
    (Function.update s.actors i (.working (.upsert c root n maxLedgerId)) j).sealing = some x ↔
      j = i ∧ x = (c, n) ∨ j ≠ i ∧ (s.actors j).sealing = some x := by
  by_cases hj : j = i
  · subst hj
    simp [Actor.sealing, eq_comm]
  · simp [hj]

/-! ## Steps that seal nothing -/

/-- A call goes on that is not between the two statements, or ends. -/
theorem History.other (h : History p s) (hchains : t.chains = s.chains)
    (hroots : ∀ c, (t.roots c).map (·.leafCount) = (s.roots c).map (·.leafCount))
    (hactors : t.actors = Function.update s.actors i b) (hb : b.sealing = none)
    (hi : b.Ended ∨ ∀ c, .computeAndStoreRoot i c ∉ p ++ [a]) (hreads : ∀ j c, Reads j c a → j = i)
    (hgrows : ∀ c, ¬ Grows c a)
    (heffect : ∀ j, TakesEffect j a → ∀ c, .computeAndStoreRoot j c ∉ p) :
    History (p ++ [a]) t := by
  have hcount : ∀ c n, (∃ root, t.roots c = some root ∧ n < root.leafCount) ↔
      ∃ root, s.roots c = some root ∧ n < root.leafCount := by
    intro c n
    have hc := hroots c
    cases hs : s.roots c <;> cases ht : t.roots c <;> simp_all
  have hsealing : ∀ {j x}, (t.actors j).sealing = some x →
      j ≠ i ∧ (s.actors j).sealing = some x := by
    intro j x hj
    rw [hactors] at hj
    exact (sealing_update hb).mp hj
  constructor
  · intro j c hj
    rw [hactors]
    by_cases hji : j = i
    · subst hji
      rw [Function.update_self]
      exact .inl (hi.resolve_right fun hno => hno c hj)
    · rw [Function.update_of_ne hji]
      rcases List.mem_append.mp hj with hj | hj
      · exact h.own j c hj
      · exact absurd (hreads j c (List.mem_singleton.mp hj).symm) hji
  · exact fun j c n hj => List.mem_append_left _ (h.started j c n (hsealing hj).2)
  · intro j c n hj
    rw [hchains]
    exact h.bounded j c n (hsealing hj).2
  · intro c root hc
    rw [hchains]
    have hcount := hroots c
    rw [hc, Option.map_some, eq_comm, Option.map_eq_some_iff] at hcount
    obtain ⟨root', hroot', hle⟩ := hcount
    rw [← hle]
    exact h.stored_le c root' hroot'
  · intro j c m hj
    rw [hchains, inOrder_two, or_iff_left fun h => hgrows c h.2]
    exact h.grown j c m (hsealing hj).2
  · intro j i' c m n hj hi'
    rw [inOrder_three, or_iff_left fun h => (hsealing hi').1 (hreads i' c h.2)]
    exact h.later j i' c m n (hsealing hj).2 (hsealing hi').2
  · intro j c m hj
    have hfour : ∀ i', InOrder [Reads j c, Grows c, Reads i' c, TakesEffect i'] (p ++ [a]) ↔
        InOrder [Reads j c, Grows c, Reads i' c, TakesEffect i'] p := fun i' => by
      rw [inOrder_four]
      exact or_iff_left fun h => heffect i' h.2 c (reads_of_three h.1).2
    simp only [hcount, hfour]
    exact h.stored j c m (hsealing hj).2

/-- A call that has not read the ledger is neither over nor between the two statements. -/
theorem History.notRead (h : History p s) (hended : ¬ (s.actors i).Ended)
    (hsealing : (s.actors i).sealing = none) (c : Text) : .computeAndStoreRoot i c ∉ p := by
  intro hmem
  rcases h.own i c hmem with he | ⟨n, hn⟩
  · exact hended he
  · cases hsealing.symm.trans hn

/-- A call that has read the ledger and is not over is about to store what it has read. -/
theorem History.exists_upsert {τ : Task} (h : History p s) (hi : s.actors i = .working τ)
    (hread : .computeAndStoreRoot i c ∈ p) :
    ∃ root n maxLedgerId, τ = .upsert c root n maxLedgerId := by
  rcases h.own i c hread with ⟨reply, he⟩ | ⟨n, hn⟩
  · cases hi.symm.trans he
  · rw [hi] at hn
    cases τ with
    | upsert c' root m maxLedgerId => cases hn; exact ⟨root, _, maxLedgerId, rfl⟩
    | _ => cases hn

/-- A call goes on that has not read the ledger. -/
theorem History.goesOn (h : History p s) (hended : ¬ (s.actors i).Ended)
    (hsealing : (s.actors i).sealing = none) (hchains : t.chains = s.chains)
    (hroots : ∀ c, (t.roots c).map (·.leafCount) = (s.roots c).map (·.leafCount))
    (hactors : t.actors = Function.update s.actors i b) (hb : b.sealing = none)
    (hreads : ∀ j c, ¬ Reads j c a) (hgrows : ∀ c, ¬ Grows c a)
    (heffect : ∀ j, TakesEffect j a → j = i) : History (p ++ [a]) t := by
  have hno := h.notRead hended hsealing
  refine h.other hchains hroots hactors hb (.inr fun c hc => ?_)
    (fun j c h => absurd h (hreads j c))
    hgrows fun j hj => heffect j hj ▸ hno
  rcases List.mem_append.mp hc with hc | hc
  · exact hno c hc
  · exact hreads i c (List.mem_singleton.mp hc).symm

/-! ## Entries, reads and upserts -/

theorem History.append {row : LedgerRow} (h : History p s) :
    History (p ++ [.append row]) { s with
      chains := Function.update s.chains row.contractId <|
        (s.chains row.contractId).orderedInsert (fun r q => r.ledgerId ≤ q.ledgerId) row } := by
  have hmem : ∀ j c, Action.computeAndStoreRoot j c ∈ p ++ [.append row] ↔
      .computeAndStoreRoot j c ∈ p := by simp
  have hlength : ∀ c, (Function.update s.chains row.contractId
      ((s.chains row.contractId).orderedInsert (fun r q => r.ledgerId ≤ q.ledgerId) row) c).length =
        (s.chains c).length + if row.contractId = c then 1 else 0 := by
    intro c
    by_cases hc : c = row.contractId
    · subst hc
      rw [Function.update_self, List.orderedInsert_length, if_pos rfl]
    · rw [Function.update_of_ne hc, if_neg (Ne.symm hc), Nat.add_zero]
  constructor
  · exact fun j c hj => h.own j c ((hmem j c).mp hj)
  · exact fun j c n hj => (hmem j c).mpr (h.started j c n hj)
  · intro j c n hj
    rw [hlength]
    exact (h.bounded j c n hj).trans (Nat.le_add_right _ _)
  · intro c root hc
    rw [hlength]
    exact (h.stored_le c root hc).trans (Nat.le_add_right _ _)
  · intro j c m hj
    have hle := h.bounded j c m hj
    have hone := inOrder_one.mpr (h.started j c m hj)
    rw [hlength, inOrder_two, ← h.grown j c m hj, and_iff_right hone]
    by_cases hc : row.contractId = c
    · rw [if_pos hc]
      exact ⟨fun _ => .inr hc, fun _ => by omega⟩
    · rw [if_neg hc, Nat.add_zero]
      exact (or_iff_left hc).symm
  · intro j i c m n hj hi
    rw [inOrder_three, or_iff_left fun h => by cases h.2]
    exact h.later j i c m n hj hi
  · intro j c m hj
    have hfour : ∀ i, InOrder [Reads j c, Grows c, Reads i c, TakesEffect i] (p ++ [.append row]) ↔
        InOrder [Reads j c, Grows c, Reads i c, TakesEffect i] p := fun i => by
      rw [inOrder_four]
      exact or_iff_left fun h => h.2
    simp only [hfour]
    exact h.stored j c m hj

theorem History.read {root : Text} {maxLedgerId : Option ℕ} (h : History p s)
    (hi : s.actors i = .idle) :
    History (p ++ [.computeAndStoreRoot i c])
      (s.setActor i (.working (.upsert c root (s.chains c).length maxLedgerId))) := by
  have hno : ∀ c, Action.computeAndStoreRoot i c ∉ p := h.notRead (by simp [hi, Actor.Ended])
    (by rw [hi]; rfl)
  have hmem : ∀ j c', Action.computeAndStoreRoot j c' ∈ p ++ [.computeAndStoreRoot i c] ↔
      .computeAndStoreRoot j c' ∈ p ∨ j = i ∧ c' = c := by simp
  constructor
  all_goals simp only [setActor_actors, setActor_chains, setActor_roots]
  · intro j c' hj
    rcases (hmem j c').mp hj with hj | ⟨rfl, rfl⟩
    · have hji : j ≠ i := fun hji => hno c' (hji ▸ hj)
      rw [Function.update_of_ne hji]
      exact h.own j c' hj
    · rw [Function.update_self]
      exact .inr ⟨_, rfl⟩
  · intro j c' m hj
    rw [hmem]
    rcases sealing_read.mp hj with ⟨rfl, heq⟩ | ⟨-, hj⟩
    · cases heq
      exact .inr ⟨rfl, rfl⟩
    · exact .inl (h.started j c' m hj)
  · intro j c' m hj
    rcases sealing_read.mp hj with ⟨rfl, heq⟩ | ⟨-, hj⟩
    · cases heq
      exact le_rfl
    · exact h.bounded j c' m hj
  · exact h.stored_le
  · intro j c' m hj
    rw [inOrder_two, or_iff_left fun h => h.2]
    rcases sealing_read.mp hj with ⟨rfl, heq⟩ | ⟨-, hj⟩
    · cases heq
      exact iff_of_false (lt_irrefl _) fun htwo => hno _ (reads_of_inOrder htwo)
    · exact h.grown j c' m hj
  · intro j i' c' m n hj hi'
    rw [inOrder_three]
    rcases sealing_read.mp hj with ⟨rfl, heq⟩ | ⟨-, hbefore⟩
    · -- the call that has just read is behind no other one
      cases heq
      have hle : n ≤ (s.chains c).length := by
        rcases sealing_read.mp hi' with ⟨-, heq⟩ | ⟨-, hi'⟩
        · cases heq
          exact le_rfl
        · exact h.bounded i' c n hi'
      apply iff_of_false hle.not_gt
      rintro (hthree | ⟨htwo, -⟩)
      · exact hno _ (reads_of_inOrder hthree)
      · exact hno _ (reads_of_inOrder htwo)
    · rcases sealing_read.mp hi' with ⟨rfl, heq⟩ | ⟨hii, hi'⟩
      · cases heq
        rw [h.grown j _ m hbefore, or_iff_right fun h => hno _ (reads_of_three h).2]
        exact (and_iff_left rfl).symm
      · rw [or_iff_left fun h => hii (Action.computeAndStoreRoot.inj h.2).1.symm]
        exact h.later j i' c' m n hbefore hi'
  · intro j c' m hj
    have hfour : ∀ i', InOrder [Reads j c', Grows c', Reads i' c', TakesEffect i']
        (p ++ [.computeAndStoreRoot i c]) ↔
          InOrder [Reads j c', Grows c', Reads i' c', TakesEffect i'] p := fun i' => by
      rw [inOrder_four]
      exact or_iff_left fun h => h.2
    simp only [hfour]
    rcases sealing_read.mp hj with ⟨rfl, heq⟩ | ⟨-, hj⟩
    · cases heq
      constructor
      · rintro ⟨root', hroot', hlt⟩
        exact absurd (h.stored_le _ root' hroot') hlt.not_ge
      · rintro ⟨i', hfour⟩
        exact absurd (reads_of_inOrder hfour) (hno _)
    · exact h.stored j c' m hj

theorem History.upsert {root : Text} {maxLedgerId : Option ℕ} {o : Outcome} {now : ℕ}
    (h : History p s) (hi : s.actors i = .working (.upsert c root n maxLedgerId))
    (ho : o ≠ .failed)
    (hcovers : Covers s (s.setRoot c (some (sealed root n maxLedgerId)))) :
    History (p ++ [.advance i o now])
      ((s.setRoot c (some (sealed root n maxLedgerId))).setActor i (.ended none)) := by
  have hsealing : (s.actors i).sealing = some (c, n) := by rw [hi]; rfl
  have hmem : ∀ j c', Action.computeAndStoreRoot j c' ∈ p ++ [.advance i o now] ↔
      .computeAndStoreRoot j c' ∈ p := by simp
  have hother : ∀ {j x}, (Function.update s.actors i (.ended none) j).sealing = some x →
      (s.actors j).sealing = some x := fun hx => ((sealing_update rfl).mp hx).2
  constructor
  all_goals simp only [setActor_actors, setActor_chains, setActor_roots, setRoot_roots,
    setRoot_chains, setRoot_actors]
  · intro j c' hj
    by_cases hji : j = i
    · subst hji
      exact .inl ⟨none, Function.update_self ..⟩
    · rw [Function.update_of_ne hji]
      exact h.own j c' ((hmem j c').mp hj)
  · exact fun j c' m hj => (hmem j c').mpr (h.started j c' m (hother hj))
  · exact fun j c' m hj => h.bounded j c' m (hother hj)
  · intro c' root' hroot'
    by_cases hc : c' = c
    · subst hc
      rw [Function.update_self] at hroot'
      cases hroot'
      exact h.bounded i _ n hsealing
    · rw [Function.update_of_ne hc] at hroot'
      exact h.stored_le c' root' hroot'
  · intro j c' m hj
    rw [inOrder_two, or_iff_left fun h => h.2]
    exact h.grown j c' m (hother hj)
  · intro j i' c' m m' hj hi'
    rw [inOrder_three, or_iff_left fun h => by cases h.2]
    exact h.later j i' c' m m' (hother hj) (hother hi')
  · intro j c' m hj
    have hstored := h.stored j c' m (hother hj)
    simp only [inOrder_four, exists_or, ← hstored]
    by_cases hc : c' = c
    · subst hc
      have hlater := h.later j i c' m n (hother hj) hsealing
      rw [Function.update_self]
      constructor
      · rintro ⟨_, hnew, hlt⟩
        cases hnew
        exact .inr ⟨i, hlater.mp hlt, rfl, ho⟩
      · rintro (⟨root', hroot', hlt⟩ | ⟨i', hthree, hii, -⟩)
        · obtain ⟨_, hnew, hle⟩ := hcovers c' root' hroot'
          rw [setRoot_roots, Function.update_self] at hnew
          cases hnew
          exact ⟨_, rfl, hlt.trans_le hle⟩
        · subst hii
          exact ⟨_, rfl, hlater.mpr hthree⟩
    · rw [Function.update_of_ne hc, or_iff_left]
      rintro ⟨i', hthree, hii, -⟩
      subst hii
      obtain ⟨_, _, _, heq⟩ := h.exists_upsert hi (reads_of_three hthree).2
      cases heq
      exact hc rfl

/-! ## The schedule decides -/

theorem covers_refl (s : State) : Covers s s := fun _ root h => ⟨root, h, le_rfl⟩

theorem covers_trans (s t r : State) (h : Covers s t) (h' : Covers t r) : Covers s r := by
  intro c root hc
  obtain ⟨root', hc', hle⟩ := h c root hc
  obtain ⟨root'', hc'', hle'⟩ := h' c root' hc'
  exact ⟨root'', hc'', hle.trans hle'⟩

theorem covers_of_counts (h : ∀ c, (t.roots c).map (·.leafCount) = (s.roots c).map (·.leafCount)) :
    Covers s t := by
  intro c root hc
  have hcount := h c
  rw [hc, Option.map_some, Option.map_eq_some_iff] at hcount
  obtain ⟨root', hroot', hle⟩ := hcount
  exact ⟨root', hroot', hle.ge⟩

/-- The next action does not let a call take effect that has been overtaken. -/
def KeepsOrder (p : List Action) (a : Action) : Prop :=
  ¬ ∃ j i c, InOrder [Reads j c, Grows c, Reads i c, TakesEffect i] p ∧ TakesEffect j a

theorem storeSignature_leafCount {m : RootMessage} {signed : RootSignature} {now : ℕ}
    {root : Option MerkleRoot} :
    (storeSignature m signed now root).map (·.leafCount) = root.map (·.leafCount) := by
  cases root with
  | none => rfl
  | some root =>
    rw [storeSignature, Option.map_some, Option.map_some, Option.map_some]
    split <;> rfl

/-- Only an upsert changes what a root covers. -/
theorem perform_leafCount {τ : Task} {now : ℕ}
    (hτ : ∀ c root n maxLedgerId, τ ≠ .upsert c root n maxLedgerId) (c : Text) :
    ((perform s now τ).1.roots c).map (·.leafCount) = (s.roots c).map (·.leafCount) := by
  cases τ with
  | upsert c' root n maxLedgerId => exact absurd rfl (hτ c' root n maxLedgerId)
  | storeRootSignature m signed caller =>
    simp only [perform, setRoot_roots]
    by_cases hc : c = m.contractId
    · subst hc
      rw [Function.update_self, storeSignature_leafCount]
    · rw [Function.update_of_ne hc]
  | _ => rfl

theorem Actor.EmptyHanded.sealing (h : b.EmptyHanded) : b.sealing = none := by cases h <;> rfl

theorem covers_iff (h : History p s) (hst : step sha256 s a = some t) :
    KeepsOrder p a ↔ Covers s t := by
  cases step_cases hst with
  | @take i o now τ hi _ ho =>
    by_cases hτ : ∃ c root n maxLedgerId, τ = .upsert c root n maxLedgerId
    · obtain ⟨c, root, n, maxLedgerId, rfl⟩ := hτ
      have hsealing : (s.actors i).sealing = some (c, n) := by rw [hi]; rfl
      have hstored := h.stored i c n hsealing
      constructor
      · intro hkeeps c' root' hroot'
        rw [setActor_roots, perform, setRoot_roots]
        by_cases hc : c' = c
        · subst hc
          rw [Function.update_self]
          refine ⟨_, rfl, Nat.le_of_not_lt fun hlt => hkeeps ?_⟩
          obtain ⟨i', hfour⟩ := hstored.mp ⟨root', hroot', hlt⟩
          exact ⟨i, i', c', hfour, rfl, ho⟩
        · rw [Function.update_of_ne hc]
          exact ⟨root', hroot', le_rfl⟩
      · rintro hcovers ⟨j, i', c', hfour, rfl, -⟩
        -- the call has read the contract that it is about to store
        obtain ⟨_, _, _, heq⟩ := h.exists_upsert hi (reads_of_inOrder hfour)
        cases heq
        obtain ⟨root', hroot', hlt⟩ := hstored.mpr ⟨i', hfour⟩
        obtain ⟨_, hnew, hle⟩ := hcovers c root' hroot'
        rw [setActor_roots, perform, setRoot_roots, Function.update_self] at hnew
        cases hnew
        exact hle.not_gt hlt
    · refine iff_of_true ?_ (covers_of_counts fun c => ?_)
      · rintro ⟨j, i', c', hfour, rfl, -⟩
        obtain ⟨root, n, maxLedgerId, heq⟩ := h.exists_upsert hi (reads_of_inOrder hfour)
        exact hτ ⟨c', root, n, maxLedgerId, heq⟩
      · exact perform_leafCount
          (fun c root n maxLedgerId heq => hτ ⟨c, root, n, maxLedgerId, heq⟩) c
  | fail =>
    refine iff_of_true ?_ (covers_of_counts fun _ => rfl)
    rintro ⟨_, _, _, _, -, hok⟩
    exact hok rfl
  | _ =>
    refine iff_of_true ?_ (covers_of_counts fun _ => rfl)
    rintro ⟨_, _, _, _, h⟩
    exact h

theorem history_step (h : History p s) (hst : step sha256 s a = some t) (hq : Covers s t) :
    History (p ++ [a]) t := by
  cases step_cases hst with
  | append => exact h.append
  | @computeAndStoreRoot i c hi =>
    rcases computeAndStoreRoot_cases sha256 c (s.chains c) with hnone | ⟨root, hsome⟩
    · rw [hnone]
      exact h.other rfl (fun _ => rfl) rfl rfl (.inl ⟨none, rfl⟩)
        (fun j c h => (Action.computeAndStoreRoot.inj h).1.symm) (fun _ h => h) fun _ h => h.elim
    · rw [hsome]
      exact h.read hi
  | requestSignature hi =>
    exact h.goesOn (by simp [hi, Actor.Ended]) (by rw [hi]; rfl) rfl (fun _ => rfl) rfl
      requestSignature_emptyHanded.sealing (fun j c h => by cases h) (fun _ h => h)
      fun _ h => h.elim
  | runTool hi =>
    exact h.goesOn (by simp [hi, Actor.Ended]) (by rw [hi]; rfl) rfl (fun _ => rfl) rfl
      runTool_emptyHanded.sealing (fun j c h => by cases h) (fun _ h => h) fun _ h => h.elim
  | answer hi =>
    exact h.goesOn (by simp [hi, Actor.Ended]) (by rw [hi]; rfl) rfl (fun _ => rfl) rfl rfl
      (fun j c h => by cases h) (fun _ h => h) fun _ h => h.elim
  | refuse hi =>
    exact h.goesOn (by simp [hi, Actor.Ended]) (by rw [hi]; rfl) rfl (fun _ => rfl) rfl
      signerFailed_emptyHanded.sealing (fun j c h => by cases h) (fun _ h => h) fun _ h => h.elim
  | @take i o now τ hi _ ho =>
    by_cases hτ : ∃ c root n maxLedgerId, τ = .upsert c root n maxLedgerId
    · obtain ⟨c, root, n, maxLedgerId, rfl⟩ := hτ
      have hend : (if o = .ok then (perform s now (.upsert c root n maxLedgerId)).2
          else .ended none) = .ended none := ite_self _
      rw [hend] at hq ⊢
      exact h.upsert hi ho hq
    · have hsealing : (s.actors i).sealing = none := by
        rw [hi]
        cases τ with
        | upsert c root n maxLedgerId => exact absurd ⟨c, root, n, maxLedgerId, rfl⟩ hτ
        | _ => rfl
      refine h.goesOn (by simp [hi, Actor.Ended]) hsealing (by simp) (perform_leafCount
        fun c root n maxLedgerId heq => hτ ⟨c, root, n, maxLedgerId, heq⟩)
        (by rw [setActor_actors, perform_actors]) ?_
        (fun j c h => by cases h) (fun _ h => h) fun _ h => h.1.symm
      split
      · exact perform_emptyHanded.sealing
      · rfl
  | fail =>
    exact h.other rfl (fun _ => rfl) rfl rfl (.inl ⟨none, rfl⟩) (fun j c h => by cases h)
      (fun _ h => h) fun _ h => absurd rfl h.2
  | crash =>
    exact h.other rfl (fun _ => rfl) rfl rfl (.inl ⟨none, rfl⟩) (fun j c h => by cases h)
      (fun _ h => h) fun _ h => h.elim

theorem history_initial (h : Initial s) : History [] s := by
  obtain ⟨hroots, -, hidle⟩ := h
  have hnone : ∀ {j x}, (s.actors j).sealing ≠ some x := fun {j x} hj => by
    rw [hidle j] at hj
    cases hj
  constructor
  · exact fun j c hj => absurd hj List.not_mem_nil
  · exact fun j c n hj => absurd hj hnone
  · exact fun j c n hj => absurd hj hnone
  · intro c root hc
    rw [hroots c] at hc
    cases hc
  · exact fun j c m hj => absurd hj hnone
  · exact fun j i c m n hj => absurd hj hnone
  · exact fun j c m hj => absurd hj hnone

theorem not_overtaken_iff :
    ¬ Overtaken as ↔ ∀ pre a post, as = pre ++ a :: post → KeepsOrder pre a := by
  constructor
  · rintro h pre a post rfl ⟨j, i, c, hfour, heffect⟩
    exact h ⟨j, i, c, pre, a, post, rfl, hfour, heffect⟩
  · rintro h ⟨j, i, c, pre, a, post, has, hfour, heffect⟩
    exact h pre a post has ⟨j, i, c, hfour, heffect⟩

/-- The stored roots never cover less than before exactly when no call is overtaken. -/
theorem never_back_iff (sha256 : Buffer → Buffer) (h0 : Initial s)
    (h : (system sha256).Run Any s as t) :
    ((system sha256).visited s as).Pairwise Covers ↔ ¬ Overtaken as := by
  rw [h.pairwise_iff_steps covers_refl covers_trans, not_overtaken_iff]
  exact h.forall_steps_iff_schedule (I := History) (Q := fun s _ t => Covers s t)
    (fun _ _ _ _ => history_step) (fun _ _ _ _ => covers_iff) (history_initial h0)

/-! ## A slow call -/

/-- The first call has read one entry when the second one reads two and stores its root. -/
def slowCall : List Action :=
  let c := opening.contractId
  [.append opening, .computeAndStoreRoot 0 c, .append passed, .computeAndStoreRoot 1 c,
    .advance 1 .ok 1, .advance 0 .ok 2]

theorem never_back_iff_slow : ∃ t, (system rootDigest).exec {} slowCall = some t ∧
    (((system rootDigest).visited {} slowCall).Pairwise Covers ↔ ¬ Overtaken slowCall) := by
  have h : ((system rootDigest).exec {} slowCall).isSome := by decide +kernel
  obtain ⟨t, ht⟩ := Option.isSome_iff_exists.mp h
  exact ⟨t, ht, never_back_iff rootDigest initial_default (run_of_exec ht)⟩

/-- The root over one entry is written over the root over two. -/
theorem root_goes_back : ¬ ∀ (sha256 : Buffer → Buffer) s as t, Initial s →
    (system sha256).Run Any s as t → ((system sha256).visited s as).Pairwise Covers := by
  intro hall
  have h : ((system rootDigest).exec {} slowCall).isSome := by decide +kernel
  obtain ⟨t, ht⟩ := Option.isSome_iff_exists.mp h
  have hrun := run_of_exec ht
  have hsteps := (hrun.pairwise_iff_steps covers_refl covers_trans).mp
    (hall rootDigest {} slowCall t initial_default hrun)
  have hbad : ((system rootDigest).steps {} slowCall).any fun x =>
      (x.1.roots opening.contractId).map (·.leafCount) = some 2 ∧
        (x.2.2.roots opening.contractId).map (·.leafCount) = some 1 := by decide +kernel
  obtain ⟨x, hx, hbad⟩ := List.any_eq_true.mp hbad
  obtain ⟨hbefore, hafter⟩ := of_decide_eq_true hbad
  obtain ⟨root, hroot, htwo⟩ := Option.map_eq_some_iff.mp hbefore
  obtain ⟨root', hroot', hle⟩ := hsteps x hx _ root hroot
  rw [hroot', Option.map_some, Option.some.injEq] at hafter
  omega

end AssureCode.Ledger.Roots
