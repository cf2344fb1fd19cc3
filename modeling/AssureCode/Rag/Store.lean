import Mathlib.Data.List.Sort
import AssureCode.Python.Format
import AssureCode.Python.Text
import AssureCode.Transition.Run

/-! # The two stores of chunks

The in-memory adapter leaves out chunks whose number the contract already has. The Postgres adapter
leaves them to `ON CONFLICT DO NOTHING`, for which the table has no constraint but that of its
serial key.
-/

namespace AssureCode.Rag

open Js Python Machine

structure StoredChunk where
  contractId : Text
  chunkIdx : ℕ
  content : Text
  embedding : List ℚ
  deriving DecidableEq

/-! ## In memory -/

/-- The chunks of each contract; one that has no bucket yet has none. -/
abbrev Memory : Type := Text → List StoredChunk

def byIdx (chunks : List StoredChunk) : List StoredChunk :=
  chunks.mergeSort fun a b => a.chunkIdx ≤ b.chunkIdx

/-- `InMemoryRagStore.store`, with the number of chunks added. -/
def Memory.store (s : Memory) (contractId : Text) (chunks : List StoredChunk) : ℕ × Memory :=
  let bucket := s contractId
  let new := chunks.filter fun c => decide (∀ b ∈ bucket, b.chunkIdx ≠ c.chunkIdx)
  (new.length, Function.update s contractId (byIdx (bucket ++ new)))

/-! ## In Postgres -/

/-- A row of `rag_embeddings`, with the numbers that `get` reads back for its vector. -/
structure Row extends StoredChunk where
  id : ℕ

/-- `rag_embeddings`, with the next serial and the contracts that its foreign key admits. -/
structure Table where
  rows : List Row
  nextId : ℕ
  contracts : Text → Bool
  fresh : ∀ r ∈ rows, r.id < nextId

/-- `_vector_literal` -/
def vectorLiteral (values : List ℚ) : String :=
  "[" ++ ",".intercalate (values.map (fixed 7)) ++ "]"

/-- The column type: what is read back for a literal, if the cast admits it. -/
abbrev VectorCast : Type := String → Option (List ℚ)

/-- A chunk as it is read back. -/
def StoredChunk.readBack (cast : VectorCast) (c : StoredChunk) : StoredChunk :=
  { c with embedding := (cast (vectorLiteral c.embedding)).getD [] }

/-- Values that the columns admit. -/
def Table.Admits (cast : VectorCast) (t : Table) (c : StoredChunk) : Prop :=
  t.contracts c.contractId = true ∧ c.chunkIdx < 2 ^ 31 ∧ (∀ u ∈ c.content, u ≠ 0) ∧
    (cast (vectorLiteral c.embedding)).isSome = true

instance (cast : VectorCast) (t : Table) (c : StoredChunk) : Decidable (t.Admits cast c) :=
  inferInstanceAs (Decidable (_ ∧ _ ∧ _ ∧ _))

theorem Table.fresh_concat (t : Table) (c : StoredChunk) :
    ∀ r ∈ t.rows ++ [⟨c, t.nextId⟩], r.id < t.nextId + 1 := by
  rintro r hr
  rcases List.mem_append.mp hr with hr | hr
  · exact Nat.lt_succ_of_lt (t.fresh r hr)
  · rw [List.mem_singleton] at hr
    subst hr
    exact Nat.lt_succ_self _

theorem Table.fresh_succ (t : Table) : ∀ r ∈ t.rows, r.id < t.nextId + 1 :=
  fun r hr => Nat.lt_succ_of_lt (t.fresh r hr)

/-- One `INSERT … ON CONFLICT DO NOTHING`; the only key to conflict with is the serial one. -/
def Table.insert (cast : VectorCast) (t : Table) (c : StoredChunk) : Option Table :=
  if t.Admits cast c then
    if ∀ r ∈ t.rows, r.id ≠ t.nextId then
      some { t with
        rows := t.rows ++ [⟨c.readBack cast, t.nextId⟩]
        nextId := t.nextId + 1
        fresh := t.fresh_concat _ }
    else some { t with nextId := t.nextId + 1, fresh := t.fresh_succ }
  else none

/--
`PostgresRagStore.store`, with the number it returns. A refused row raises, and the transaction
is rolled back.
-/
def Table.store (cast : VectorCast) (t : Table) (chunks : List StoredChunk) : Option (ℕ × Table) :=
  (chunks.foldlM (Table.insert cast) t).map fun t => (chunks.length, t)

/-- `PostgresRagStore.get` -/
def Table.get (t : Table) (contractId : Text) : List StoredChunk :=
  byIdx ((t.rows.map (·.toStoredChunk)).filter (·.contractId = contractId))

/-! ## Both -/

structure Stores where
  memory : Memory
  table : Table

/-- One contract's chunks are ingested into both stores; what the database refuses is no ingest. -/
def ingest (cast : VectorCast) (contractId : Text) : Machine Stores (List StoredChunk) where
  init s := s.memory contractId = [] ∧ s.table.get contractId = []
  step s chunks :=
    if ∀ c ∈ chunks, c.contractId = contractId then
      (s.table.store cast chunks).map fun r =>
        ⟨(s.memory.store contractId chunks).2, r.2⟩
    else none

/-- Each store has exactly these chunks of the contract, and they have the same. -/
structure Stores.Has (cast : VectorCast) (contractId : Text) (s : Stores)
    (chunks : List StoredChunk) : Prop where
  memory : (s.memory contractId).Perm chunks
  table : (s.table.get contractId).Perm (chunks.map (·.readBack cast))
  same : (s.table.get contractId).Perm ((s.memory contractId).map (·.readBack cast))

/-- An ingest replaces what was stored; when that was the same, nothing changes. -/
structure Replaces (cast : VectorCast) (contractId : Text) (s : Stores) (chunks : List StoredChunk)
    (t : Stores) : Prop where
  replaced : t.Has cast contractId chunks
  repeated : s.Has cast contractId chunks →
    t.memory contractId = s.memory contractId ∧ t.table.get contractId = s.table.get contractId

/-- No chunk of the contract is stored. -/
def Unstored (contractId : Text) (s : Stores) (_ : List StoredChunk) : Prop :=
  s.memory contractId = [] ∧ s.table.get contractId = []

variable {cast : VectorCast} {contractId : Text} {s s' : Stores} {t t' : Table} {c : StoredChunk}
  {chunks : List StoredChunk} {h : List (List StoredChunk)}

/-! ## What an ingest stores -/

theorem byIdx_perm (chunks : List StoredChunk) : (byIdx chunks).Perm chunks :=
  List.mergeSort_perm _ _

/-- A conflict never occurs, so that a row that is admitted is inserted. -/
theorem insert_rows (hinsert : t.insert cast c = some t') :
    t'.rows.map (·.toStoredChunk) = t.rows.map (·.toStoredChunk) ++ [c.readBack cast] := by
  unfold Table.insert at hinsert
  split at hinsert
  · rw [if_pos fun r hr => (t.fresh r hr).ne] at hinsert
    cases hinsert
    simp
  · cases hinsert

theorem store_rows {n : ℕ} (hstore : t.store cast chunks = some (n, t')) :
    t'.rows.map (·.toStoredChunk) =
      t.rows.map (·.toStoredChunk) ++ chunks.map (·.readBack cast) := by
  simp only [Table.store, Option.map_eq_some_iff, Prod.mk.injEq] at hstore
  obtain ⟨r, hfold, -, rfl⟩ := hstore
  induction chunks generalizing t with
  | nil =>
    cases hfold
    simp
  | cons c cs ih =>
    obtain ⟨u, hu, hrest⟩ := Option.bind_eq_some_iff.mp (by simpa [List.foldlM_cons] using hfold)
    rw [ih hrest, insert_rows hu]
    simp

theorem get_store {n : ℕ} (hof : ∀ c ∈ chunks, c.contractId = contractId)
    (hstore : t.store cast chunks = some (n, t')) :
    (t'.get contractId).Perm (t.get contractId ++ chunks.map (·.readBack cast)) := by
  have hall : ∀ c ∈ chunks.map (·.readBack cast), decide (c.contractId = contractId) = true := by
    rintro c hc
    obtain ⟨d, hd, rfl⟩ := List.mem_map.mp hc
    exact decide_eq_true (hof d hd)
  apply (byIdx_perm _).trans
  rw [store_rows hstore, List.filter_append, List.filter_eq_self.mpr hall]
  exact (byIdx_perm _).symm.append_right _

/-- What each store has of the contract after an ingest. -/
theorem step_ingest (hst : (ingest cast contractId).step s chunks = some s') :
    (s'.memory contractId).Perm (s.memory contractId ++ chunks.filter fun c =>
      decide (∀ b ∈ s.memory contractId, b.chunkIdx ≠ c.chunkIdx)) ∧
    (s'.table.get contractId).Perm (s.table.get contractId ++ chunks.map (·.readBack cast)) := by
  simp only [ingest] at hst
  split at hst
  · rename_i hof
    obtain ⟨⟨n, t'⟩, hstore, rfl⟩ := Option.map_eq_some_iff.mp hst
    constructor
    · simp only [Memory.store, Function.update_self]
      exact byIdx_perm _
    · exact get_store hof hstore
  · cases hst

/-- The two stores have chunks of the contract, or neither has. -/
def Together (contractId : Text) (s : Stores) : Prop :=
  s.memory contractId = [] ↔ s.table.get contractId = []

theorem together_step (hs : Together contractId s)
    (hst : (ingest cast contractId).step s chunks = some s') : Together contractId s' := by
  obtain ⟨hmemory, htable⟩ := step_ingest hst
  have hnil : ∀ {as bs : List StoredChunk}, as.Perm bs → (as = [] ↔ bs = []) := by
    intro as bs hperm
    rw [← List.length_eq_zero_iff, hperm.length_eq, List.length_eq_zero_iff]
  have hmemory' : s'.memory contractId = [] ↔ s.memory contractId = [] ∧ chunks = [] := by
    rw [hnil hmemory, List.append_eq_nil_iff]
    apply and_congr_right
    intro hnone
    simp [hnone]
  have htable' : s'.table.get contractId = [] ↔ s.table.get contractId = [] ∧ chunks = [] := by
    rw [hnil htable, List.append_eq_nil_iff, List.map_eq_nil_iff]
  rw [Together, hmemory', htable']
  exact and_congr_left fun _ => hs

/-- An ingest replaces what was stored exactly when nothing was. -/
theorem unstored_iff_replaces (hs : Together contractId s)
    (hst : (ingest cast contractId).step s chunks = some s') :
    Unstored contractId s chunks ↔ Replaces cast contractId s chunks s' := by
  obtain ⟨hmemory, htable⟩ := step_ingest hst
  constructor
  · rintro ⟨hnone, hnone'⟩
    rw [hnone] at hmemory
    rw [hnone', List.nil_append] at htable
    have hmemory' : (s'.memory contractId).Perm chunks := by simpa using hmemory
    constructor
    · exact ⟨hmemory', htable, htable.trans (hmemory'.map _).symm⟩
    · intro hhas
      have hnil : chunks = [] := by
        have := hhas.memory
        rw [hnone] at this
        exact this.nil_eq.symm
      subst hnil
      rw [hnone, hnone']
      exact ⟨hmemory'.eq_nil, htable.eq_nil⟩
  · rintro ⟨⟨-, hreplaced, -⟩, -⟩
    have hlength := (htable.symm.trans hreplaced).length_eq
    have hnone : s.table.get contractId = [] := by
      apply List.length_eq_zero_iff.mp
      simp only [List.length_append] at hlength
      omega
    exact ⟨hs.mpr hnone, hnone⟩

/-- The ingests of a run replace what was stored exactly when each of them finds nothing. -/
theorem replaces_iff_unstored {t : Stores} (hrun : (ingest cast contractId).Run Any s h t)
    (hs : (ingest cast contractId).init s) :
    (∀ x ∈ (ingest cast contractId).steps s h, Replaces cast contractId x.1 x.2.1 x.2.2) ↔
      (ingest cast contractId).Run (Unstored contractId) s h t := by
  apply hrun.forall_steps_iff (I := Together contractId)
  · exact fun s chunks t hs hst => together_step hs hst
  · exact fun s chunks t hs hst => unstored_iff_replaces hs hst
  · exact iff_of_true hs.1 hs.2

theorem insert_contracts (hinsert : t.insert cast c = some t') : t'.contracts = t.contracts := by
  unfold Table.insert at hinsert
  split at hinsert
  · split at hinsert <;>
    · cases hinsert
      rfl
  · cases hinsert

theorem step_contracts (hst : (ingest cast contractId).step s chunks = some s') :
    s'.table.contracts = s.table.contracts := by
  have hfold : ∀ (chunks : List StoredChunk) {t t' : Table},
      chunks.foldlM (Table.insert cast) t = some t' → t'.contracts = t.contracts := by
    intro chunks
    induction chunks with
    | nil =>
      rintro t t' ⟨⟩
      rfl
    | cons c cs ih =>
      intro t t' h
      rw [List.foldlM_cons] at h
      obtain ⟨u, hu, hrest⟩ := Option.bind_eq_some_iff.mp h
      rw [ih hrest, insert_contracts hu]
  simp only [ingest, Table.store] at hst
  split at hst
  · simp only [Option.map_map, Option.map_eq_some_iff] at hst
    obtain ⟨t', ht', rfl⟩ := hst
    exact hfold chunks ht'
  · cases hst

/-- Chunks that the columns admit are ingested. -/
theorem exists_step (hof : ∀ c ∈ chunks, c.contractId = contractId)
    (hadmits : ∀ c ∈ chunks, s.table.Admits cast c) :
    ∃ s', (ingest cast contractId).step s chunks = some s' := by
  have hstore : ∃ t', chunks.foldlM (Table.insert cast) s.table = some t' := by
    clear hof
    generalize s.table = t at hadmits
    induction chunks generalizing t with
    | nil => exact ⟨t, rfl⟩
    | cons c cs ih =>
      obtain ⟨hc, hcs⟩ := List.forall_mem_cons.mp hadmits
      rw [List.foldlM_cons, Table.insert, if_pos hc, if_pos fun r hr => (t.fresh r hr).ne]
      exact ih _ hcs
  obtain ⟨t', ht'⟩ := hstore
  exact ⟨_, by simp only [ingest, if_pos hof, Table.store, ht']; rfl⟩

/-! ## Two versions of a contract -/

def zeros : List ℚ := List.replicate 384 0

/-- A column that holds the zero vector. -/
def zeroCast : VectorCast := fun literal =>
  if literal = vectorLiteral zeros then some zeros else none

def chunkOf (idx : ℕ) (content : Text) : StoredChunk where
  contractId := text "c-1"
  chunkIdx := idx
  content := content
  embedding := zeros

theorem no_rows : ∀ r ∈ ([] : List Row), r.id < 1 := by
  rintro r ⟨⟩

/-- Both stores before the first ingest. -/
def empty : Stores where
  memory _ := []
  table := ⟨[], 1, fun id => id = text "c-1", no_rows⟩

theorem get_empty : empty.table.get contractId = [] := by
  simp [Table.get, empty, byIdx]

def firstVersion : List StoredChunk := [chunkOf 0 (text "Log in."), chunkOf 1 (text "Log out.")]

def secondVersion : List StoredChunk := [chunkOf 0 (text "Sign in.")]

theorem readBack_chunkOf (idx : ℕ) (content : Text) :
    (chunkOf idx content).readBack zeroCast = chunkOf idx content := by
  simp [StoredChunk.readBack, chunkOf, zeroCast]

theorem admits_chunkOf {t : Table} {idx : ℕ} {content : Text} (ht : t.contracts (text "c-1") = true)
    (hidx : idx < 2 ^ 31) (hcontent : ∀ u ∈ content, u ≠ 0) :
    t.Admits zeroCast (chunkOf idx content) :=
  ⟨ht, hidx, hcontent, by simp [chunkOf, zeroCast]⟩

theorem step_firstVersion :
    ∃ s, (ingest zeroCast (text "c-1")).step empty firstVersion = some s := by
  apply exists_step
  · decide +kernel
  · simp only [firstVersion, List.forall_mem_cons]
    refine ⟨admits_chunkOf rfl (by decide) (by decide),
      admits_chunkOf rfl (by decide) (by decide), ?_⟩
    rintro c ⟨⟩

/-- A first ingest is what the stores have. -/
theorem replaces_firstVersion :
    ∃ s, (ingest zeroCast (text "c-1")).Run (Unstored (text "c-1")) empty [firstVersion] s ∧
      ∀ x ∈ (ingest zeroCast (text "c-1")).steps empty [firstVersion],
        Replaces zeroCast (text "c-1") x.1 x.2.1 x.2.2 := by
  obtain ⟨s, hs⟩ := step_firstVersion
  have hrun : (ingest zeroCast (text "c-1")).Run (Unstored (text "c-1")) empty [firstVersion] s :=
    .single ⟨rfl, get_empty⟩ hs
  exact ⟨s, hrun, (replaces_iff_unstored (.single trivial hs) ⟨rfl, get_empty⟩).mpr hrun⟩

/-- After a second one, memory still has the first version and the database has both. -/
theorem versions_mixed :
    ∃ s t, (ingest zeroCast (text "c-1")).step empty firstVersion = some s ∧
      (ingest zeroCast (text "c-1")).step s secondVersion = some t ∧
      (t.memory (text "c-1")).Perm firstVersion ∧
      (t.table.get (text "c-1")).Perm (firstVersion ++ secondVersion) ∧
      ¬ Replaces zeroCast (text "c-1") s secondVersion t := by
  obtain ⟨s, hs⟩ := step_firstVersion
  obtain ⟨t, ht⟩ : ∃ t, (ingest zeroCast (text "c-1")).step s secondVersion = some t := by
    apply exists_step
    · decide +kernel
    · simp only [secondVersion, List.forall_mem_singleton]
      refine admits_chunkOf ?_ (by decide) (by decide)
      rw [step_contracts hs]
      rfl
  obtain ⟨hmemory, htable⟩ := step_ingest hs
  obtain ⟨hmemory', htable'⟩ := step_ingest ht
  have hfirst : (s.memory (text "c-1")).Perm firstVersion := by
    simpa [empty] using hmemory
  have hread : firstVersion.map (·.readBack zeroCast) = firstVersion := by
    simp [firstVersion, readBack_chunkOf]
  have hread' : secondVersion.map (·.readBack zeroCast) = secondVersion := by
    simp [secondVersion, readBack_chunkOf]
  have hmem : (t.memory (text "c-1")).Perm firstVersion := by
    have hold : chunkOf 0 (text "Log in.") ∈ s.memory (text "c-1") :=
      hfirst.mem_iff.mpr List.mem_cons_self
    have hnone : secondVersion.filter (fun c =>
        decide (∀ b ∈ s.memory (text "c-1"), b.chunkIdx ≠ c.chunkIdx)) = [] := by
      simp only [secondVersion, List.filter_eq_nil_iff, List.mem_singleton, forall_eq,
        decide_eq_true_eq]
      intro h
      exact h _ hold rfl
    rw [hnone, List.append_nil] at hmemory'
    exact hmemory'.trans hfirst
  refine ⟨s, t, hs, ht, hmem, ?_, ?_⟩
  · rw [hread, get_empty, List.nil_append] at htable
    rw [hread'] at htable'
    exact htable'.trans (htable.append_right _)
  · rintro ⟨⟨hreplaced, -, -⟩, -⟩
    have hlength := (hmem.symm.trans hreplaced).length_eq
    cases hlength

end AssureCode.Rag
