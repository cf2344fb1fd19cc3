import AssureCode.Graph.Model

/-! # Reported trust scores

Neo4j reports a score when a node has it. Postgres also reports one when no row was there to take
it, when the column has rounded it, and when only the dictionary of the process has it.
-/

namespace AssureCode.Graph

open Js Python Reported

/-- A call that has only written to the dictionary returns `False`. -/
def Updated.Honest {ρ : Type} (u : Updated ρ) : Prop :=
  u.fallback = true → u.backend = false → u.returned = false

/-! ## Tables -/

namespace Keyed

variable {α : Type} {key : α → Text} {t : Keyed key} {id other : Text} {f : α → α}

theorem has_iff : t.has id = true ↔ ∃ a ∈ t.rows, key a = id := by
  simp [has, List.any_eq_true]

theorem mem_update {hf : ∀ a, key (f a) = key a} {a : α} (ha : a ∈ t.rows) (h : key a = id) :
    f a ∈ (t.update id f hf).rows :=
  List.mem_map.mpr ⟨a, ha, if_pos h⟩

theorem mem_update_of_ne {hf : ∀ a, key (f a) = key a} {a : α} (ha : a ∈ t.rows)
    (h : key a ≠ id) : a ∈ (t.update id f hf).rows :=
  List.mem_map.mpr ⟨a, ha, if_neg h⟩

/-- The row with the key comes of the one there was. -/
theorem eq_of_mem_update {hf : ∀ a, key (f a) = key a} {b : α}
    (hb : b ∈ (t.update id f hf).rows) (h : key b = id) : ∃ a ∈ t.rows, key a = id ∧ b = f a := by
  obtain ⟨a, ha, rfl⟩ := List.mem_map.mp hb
  by_cases hkey : key a = id
  · exact ⟨a, ha, hkey, if_pos hkey⟩
  · rw [if_neg hkey] at h
    exact absurd h hkey

end Keyed

/-! ## Postgres -/

namespace PostgresGraphRepo

variable {real : ℚ → Option ℚ} {r : PostgresGraphRepo} {id : Text} {s stored : ℚ}
  {outage : Option Outage} {calls : List Call}

/-- The table has the score. -/
def Holds (r : PostgresGraphRepo) (id : Text) (s : ℚ) : Prop :=
  ∃ p ∈ r.table.rows, p.id = id ∧ p.trustScore = s

/--
The statement reaches a row whose column can hold the score; or it fails, and the dictionary does
not know the freelancer.
-/
def Sound (real : ℚ → Option ℚ) (r : PostgresGraphRepo) : Call → Prop
  | .updateTrustScore id s outage =>
    ((outage = none ∨ outage = some .answer) ∧ real s = some s ∧ r.table.has id = true) ∨
      ((outage ≠ none ∨ real s = none) ∧ r.fallback.freelancers.has id = false)
  | .allFreelancers _ => True

def HonestAt (real : ℚ → Option ℚ) (r : PostgresGraphRepo) : Call → Prop
  | .updateTrustScore id s outage => (r.updateTrustScore real id s outage).Honest
  | .allFreelancers _ => True

theorem fallbackUpdate_spec (r : PostgresGraphRepo) (id : Text) (s : ℚ) (backend : Bool) :
    (r.fallbackUpdate id s backend).returned = r.fallback.freelancers.has id ∧
    (r.fallbackUpdate id s backend).fallback = r.fallback.freelancers.has id ∧
    (r.fallbackUpdate id s backend).backend = backend ∧
    (r.fallbackUpdate id s backend).repo.table = r.table := by
  unfold fallbackUpdate InMemoryGraphRepo.updateTrustScore
  cases r.fallback.freelancers.has id <;> exact ⟨rfl, rfl, rfl, rfl⟩

/-- What an update can come to: it takes, it takes without its answer, or it does not take. -/
inductive Ends (r : PostgresGraphRepo) (real : ℚ → Option ℚ) (id : Text) (s : ℚ) :
    Option Outage → Updated PostgresGraphRepo → Prop
  | taken {stored : ℚ} : real s = some stored →
      Ends r real id s none
        ⟨true, r.table.has id, false, { r with table := r.table.setTrust id stored }⟩
  | unanswered {stored : ℚ} {u : Updated PostgresGraphRepo} : real s = some stored →
      u.returned = r.fallback.freelancers.has id → u.fallback = r.fallback.freelancers.has id →
      u.backend = r.table.has id → u.repo.table = r.table.setTrust id stored →
      Ends r real id s (some .answer) u
  | failed {outage : Option Outage} {u : Updated PostgresGraphRepo} :
      outage ≠ none ∨ real s = none → outage ≠ some .answer ∨ real s = none →
      u.returned = r.fallback.freelancers.has id → u.fallback = r.fallback.freelancers.has id →
      u.backend = false → u.repo.table = r.table → Ends r real id s outage u

theorem ends_updateTrustScore (real : ℚ → Option ℚ) (r : PostgresGraphRepo) (id : Text) (s : ℚ)
    (outage : Option Outage) :
    r.Ends real id s outage (r.updateTrustScore real id s outage) := by
  obtain ⟨hreturned, hfallback, hbackend, htable⟩ :=
    fallbackUpdate_spec r id s false
  rw [updateTrustScore]
  by_cases hearly : outage = some .connect ∨ outage = some .statement
  · rw [if_pos hearly]
    refine .failed (.inl ?_) (.inl ?_) hreturned hfallback hbackend htable <;>
      rcases hearly with rfl | rfl <;> simp
  · rw [if_neg hearly]
    cases hreal : real s with
    | none => exact .failed (.inr hreal) (.inr hreal) hreturned hfallback hbackend htable
    | some stored =>
      dsimp only
      split_ifs with hcommit hanswer
      · subst hcommit
        exact .failed (.inl (by simp)) (.inl (by simp)) hreturned hfallback hbackend htable
      · subst hanswer
        obtain ⟨hreturned, hfallback, hbackend, htable⟩ := fallbackUpdate_spec
          { r with table := r.table.setTrust id stored } id s (r.table.has id)
        exact .unanswered hreal hreturned hfallback hbackend htable
      · cases outage with
        | none => exact .taken hreal
        | some o => cases o <;> simp at hearly hcommit hanswer

theorem holds_setTrust (hmatch : r.table.has id = true) :
    ∃ p ∈ (r.table.setTrust id s).rows, p.id = id ∧ p.trustScore = s := by
  obtain ⟨p, hp, hid⟩ := Keyed.has_iff.mp hmatch
  exact ⟨_, Keyed.mem_update hp hid, hid, rfl⟩

/-- Only the row that was there can have the score. -/
theorem holds_setTrust_iff : (∃ p ∈ (r.table.setTrust id stored).rows, p.id = id ∧
    p.trustScore = s) ↔ r.table.has id = true ∧ stored = s := by
  constructor
  · rintro ⟨p, hp, hid, rfl⟩
    obtain ⟨q, hq, hqid, rfl⟩ := Keyed.eq_of_mem_update hp hid
    exact ⟨Keyed.has_iff.mpr ⟨q, hq, hqid⟩, rfl⟩
  · rintro ⟨hmatch, rfl⟩
    exact holds_setTrust hmatch

/-- A reported score is in the table, and only an honest call is sound. -/
theorem sound_iff (real : ℚ → Option ℚ) (r : PostgresGraphRepo) (id : Text) (s : ℚ)
    (outage : Option Outage) :
    r.Sound real (.updateTrustScore id s outage) ↔
      ((r.updateTrustScore real id s outage).returned = true →
        (r.updateTrustScore real id s outage).repo.Holds id s) ∧
      (r.updateTrustScore real id s outage).Honest := by
  have hends := ends_updateTrustScore real r id s outage
  revert hends
  generalize r.updateTrustScore real id s outage = u
  intro hends
  cases hends with
  | @taken stored hreal =>
    have hholds : Holds { r with table := r.table.setTrust id stored } id s ↔
        r.table.has id = true ∧ stored = s := holds_setTrust_iff
    simp [Sound, Updated.Honest, hholds, hreal, and_comm]
  | @unanswered stored u hreal hreturned hfallback hbackend htable =>
    have hholds : u.repo.Holds id s ↔ r.table.has id = true ∧ stored = s := by
      rw [Holds, htable]
      exact holds_setTrust_iff
    rw [Updated.Honest, hreturned, hfallback, hbackend, hholds]
    cases hknown : r.fallback.freelancers.has id <;>
      simp [Sound, hknown, hreal, and_comm]
  | failed hout hnot hreturned hfallback hbackend htable =>
    have hnever : ¬ ((outage = none ∨ outage = some .answer) ∧ real s = some s ∧
        r.table.has id = true) := by
      rintro ⟨rfl | rfl, hreal, -⟩
      · rw [hreal] at hout
        simp at hout
      · rw [hreal] at hnot
        simp at hnot
    rw [Sound, or_iff_right hnever, and_iff_right hout, Updated.Honest, hreturned, hfallback,
      hbackend]
    cases r.fallback.freelancers.has id <;> simp

theorem tracks (real : ℚ → Option ℚ) : Tracks (call real) Holds where
  keeps := by
    rintro r c id s ⟨p, hp, rfl, rfl⟩ hother
    cases c with
    | allFreelancers outage => exact ⟨p, hp, rfl, rfl⟩
    | updateTrustScore other s' outage =>
      have hne : p.id ≠ other := by
        rintro rfl
        exact hother _ _ rfl
      have hkeep : ∀ stored, p ∈ (r.table.setTrust other stored).rows := fun stored =>
        Keyed.mem_update_of_ne hp hne
      refine ⟨p, ?_, rfl, rfl⟩
      have hends := ends_updateTrustScore real r other s' outage
      rw [call]
      revert hends
      generalize r.updateTrustScore real other s' outage = u
      intro hends
      cases hends with
      | taken => exact hkeep _
      | unanswered _ _ _ _ htable =>
        dsimp only
        rw [htable]
        exact hkeep _
      | failed _ _ _ _ _ htable =>
        dsimp only
        rw [htable]
        exact hp
  shows := by
    rintro r c id s contents ⟨p, hp, rfl, rfl⟩ hread
    cases c with
    | updateTrustScore => cases hread
    | allFreelancers outage =>
      rw [call, allFreelancers] at hread
      split_ifs at hread
      · cases hread
      · cases hread
      · cases hread
        exact List.mem_map.mpr ⟨p, (List.perm_insertionSort _ _).mem_iff.mpr hp, rfl⟩

/-- Runs of sound calls. -/
theorem durable_honest (hsound : ∀ p ∈ visited (call real) r calls, Sound real p.1 p.2) :
    Durable (observe (call real) r calls) ∧
      ∀ p ∈ visited (call real) r calls, HonestAt real p.1 p.2 := by
  constructor
  · apply durable_observe (tracks real)
    intro p hp id s hwritten
    obtain ⟨q, c⟩ := p
    cases c with
    | allFreelancers outage => cases hwritten
    | updateTrustScore id' s' outage =>
      have hreported := ((sound_iff real q id' s' outage).mp (hsound _ hp)).1
      rw [call, Seen.written.injEq] at hwritten
      obtain ⟨rfl, rfl, hreturned⟩ := hwritten
      exact hreported hreturned
  · rintro ⟨q, c⟩ hp
    cases c with
    | allFreelancers outage => trivial
    | updateTrustScore id s outage => exact ((sound_iff real q id s outage).mp (hsound _ hp)).2

end PostgresGraphRepo

/-! ## Neo4j -/

namespace Neo4jGraphRepo

variable {lower : Text → Text} {r : Neo4jGraphRepo} {id : Text} {s : ℚ}
  {outage : Option Outage} {calls : List Call}

/-- A node has the score. -/
def Holds (r : Neo4jGraphRepo) (id : Text) (s : ℚ) : Prop :=
  ∃ n ∈ r.nodes.rows, n.id = id ∧ n.trust.getD 0 = s

def HonestAt (r : Neo4jGraphRepo) : Call → Prop
  | .updateTrustScore id s outage => (r.updateTrustScore id s outage).Honest
  | .allFreelancers _ => True

theorem mem_setTrust {n : FreelancerNode} (hn : n ∈ r.nodes.rows) (h : n.id = id) :
    { n with trust := some s } ∈ (r.setTrust id s).nodes.rows :=
  List.mem_map.mpr ⟨n, hn, if_pos h⟩

theorem mem_setTrust_of_ne {n : FreelancerNode} (hn : n ∈ r.nodes.rows) (h : n.id ≠ id) :
    n ∈ (r.setTrust id s).nodes.rows :=
  List.mem_map.mpr ⟨n, hn, if_neg h⟩

/-- The dictionary is never reported. -/
theorem fallbackUpdate_spec (r : Neo4jGraphRepo) (id : Text) (s : ℚ) (backend : Bool) :
    (r.fallbackUpdate id s backend).returned = false ∧
    (r.fallbackUpdate id s backend).repo.nodes = r.nodes := by
  unfold fallbackUpdate InMemoryGraphRepo.updateTrustScore
  cases r.fallback.freelancers.has id <;> exact ⟨rfl, rfl⟩

/-- An update sets the score, or leaves the nodes alone; it reports only what it has set. -/
theorem updateTrustScore_spec (r : Neo4jGraphRepo) (id : Text) (s : ℚ) (outage : Option Outage) :
    ((r.updateTrustScore id s outage).repo.nodes = r.nodes ∧
        (r.updateTrustScore id s outage).returned = false ∨
      (r.updateTrustScore id s outage).repo.nodes = (r.setTrust id s).nodes ∧
        ((r.updateTrustScore id s outage).returned = true → r.nodes.has id = true)) ∧
    (r.updateTrustScore id s outage).Honest := by
  have hfallback : ∀ (q : Neo4jGraphRepo) (backend : Bool),
      (q.fallbackUpdate id s backend).Honest :=
    fun q backend _ _ => (fallbackUpdate_spec q id s backend).1
  rw [updateTrustScore]
  by_cases hdriver : (r.ensureDriver outage).driver = false
  · rw [if_pos hdriver]
    obtain ⟨hreturned, hnodes⟩ :=
      fallbackUpdate_spec (r.ensureDriver outage) id s false
    exact ⟨.inl ⟨hnodes, hreturned⟩, hfallback _ _⟩
  · rw [if_neg hdriver]
    cases outage with
    | none => exact ⟨.inr ⟨rfl, fun h => h⟩, fun h => absurd h Bool.false_ne_true⟩
    | some o =>
      cases o with
      | answer =>
        obtain ⟨hreturned, hnodes⟩ := fallbackUpdate_spec
          ((r.ensureDriver (some .answer)).setTrust id s) id s
          ((r.ensureDriver (some .answer)).nodes.has id)
        refine ⟨.inr ⟨hnodes, fun h => ?_⟩, hfallback _ _⟩
        exact absurd (hreturned.symm.trans h) Bool.false_ne_true
      | connect | statement | commit =>
        obtain ⟨hreturned, hnodes⟩ :=
          fallbackUpdate_spec (r.ensureDriver (some _)) id s false
        exact ⟨.inl ⟨hnodes, hreturned⟩, hfallback _ _⟩

theorem tracks (lower : Text → Text) : Tracks (call lower) Holds where
  keeps := by
    rintro r c id s ⟨n, hn, rfl, rfl⟩ hother
    cases c with
    | allFreelancers outage =>
      refine ⟨n, ?_, rfl, rfl⟩
      rw [call, allFreelancers]
      split_ifs <;> exact hn
    | updateTrustScore other s' outage =>
      have hne : n.id ≠ other := by
        rintro rfl
        exact hother _ _ rfl
      refine ⟨n, ?_, rfl, rfl⟩
      rw [call]
      dsimp only
      rcases (updateTrustScore_spec r other s' outage).1 with ⟨hnodes, -⟩ | ⟨hnodes, -⟩
      · rw [hnodes]
        exact hn
      · rw [hnodes]
        exact mem_setTrust_of_ne hn hne
  shows := by
    rintro r c id s contents ⟨n, hn, rfl, rfl⟩ hread
    cases c with
    | updateTrustScore => cases hread
    | allFreelancers outage =>
      rw [call, allFreelancers] at hread
      split_ifs at hread
      · cases hread
      · cases hread
        exact List.mem_map.mpr ⟨_, List.mem_map.mpr ⟨n, hn, rfl⟩, rfl⟩

/-- All runs. -/
theorem durable_honest : Durable (observe (call lower) r calls) ∧
    ∀ p ∈ visited (call lower) r calls, HonestAt p.1 p.2 := by
  constructor
  · apply durable_observe (tracks lower)
    intro p hp id s hwritten
    obtain ⟨q, c⟩ := p
    cases c with
    | allFreelancers outage => cases hwritten
    | updateTrustScore id' s' outage =>
      rw [call, Seen.written.injEq] at hwritten
      obtain ⟨rfl, rfl, hreturned⟩ := hwritten
      rcases (updateTrustScore_spec q id' s' outage).1 with ⟨-, hnot⟩ | ⟨hnodes, hmatch⟩
      · exact absurd (hnot.symm.trans hreturned) Bool.false_ne_true
      · obtain ⟨n, hn, hid⟩ := Keyed.has_iff.mp (hmatch hreturned)
        refine ⟨{ n with trust := some s' }, ?_, hid, rfl⟩
        rw [call]
        dsimp only
        rw [hnodes]
        exact mem_setTrust hn hid
  · rintro ⟨q, c⟩ -
    cases c with
    | allFreelancers outage => trivial
    | updateTrustScore id s outage => exact (updateTrustScore_spec q id s outage).2

end Neo4jGraphRepo

/--
A reported score is durable and the dictionary is not reported: with Neo4j in every run, with
Postgres in every run of sound calls. A call of Postgres is sound exactly when it reports nothing
but what the table has and not what only the dictionary has.
-/
theorem trust_score_durable (lower : Text → Text) (real : ℚ → Option ℚ) (neo4j : Neo4jGraphRepo)
    (postgres : PostgresGraphRepo) (calls : List Call) :
    (Durable (observe (Neo4jGraphRepo.call lower) neo4j calls) ∧
      ∀ p ∈ visited (Neo4jGraphRepo.call lower) neo4j calls,
        Neo4jGraphRepo.HonestAt p.1 p.2) ∧
    ((∀ p ∈ visited (PostgresGraphRepo.call real) postgres calls,
        PostgresGraphRepo.Sound real p.1 p.2) →
      Durable (observe (PostgresGraphRepo.call real) postgres calls) ∧
        ∀ p ∈ visited (PostgresGraphRepo.call real) postgres calls,
          PostgresGraphRepo.HonestAt real p.1 p.2) ∧
    ∀ (id : Text) (s : ℚ) (outage : Option Outage),
      postgres.Sound real (.updateTrustScore id s outage) ↔
        ((postgres.updateTrustScore real id s outage).returned = true →
          (postgres.updateTrustScore real id s outage).repo.Holds id s) ∧
        (postgres.updateTrustScore real id s outage).Honest :=
  ⟨Neo4jGraphRepo.durable_honest, PostgresGraphRepo.durable_honest,
    PostgresGraphRepo.sound_iff real postgres⟩

/-! ## A freelancer without a profile -/

/-- A table with one profile. -/
def oneProfile : PostgresGraphRepo where
  table := ⟨[{ id := text "u-1", name := text "Ada", trustScore := 1 / 2, skills := [] }],
    List.nodup_singleton _⟩
  fallback := .init

theorem unknown_id_reported :
    ¬ Durable (observe (PostgresGraphRepo.call some) oneProfile
      [.updateTrustScore (text "u-2") (9 / 10) none, .allFreelancers none]) ∧
    ¬ (oneProfile.updateTrustScore some (text "freelancer-priya") (9 / 10)
      (some .connect)).Honest := by
  constructor
  · rintro ⟨hkept, -⟩
    rcases hkept (by rfl) with ⟨hread, -⟩
    have hmem := hread (by rfl)
    revert hmem
    decide +kernel
  · intro hhonest
    have hreturned := hhonest (by decide +kernel) (by decide +kernel)
    revert hreturned
    decide +kernel

end AssureCode.Graph
