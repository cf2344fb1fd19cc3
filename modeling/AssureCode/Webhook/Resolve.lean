import Mathlib.Data.List.MinMax
import Mathlib.Data.List.Sort
import AssureCode.Js.Text

/-! # The contract of a push

A repository may be linked to several contracts. A push is filed under the newest of those that are
in flight, or under the newest of all; the status that provisioning sets is not counted as in
flight.
-/

namespace AssureCode.Webhook

open Js

inductive ContractStatus
  | draft
  | locked
  | inProgress
  | active
  | completed
  | disputed
  deriving DecidableEq

structure Contract where
  contractId : Text
  githubRepoFullName : Option Text
  status : ContractStatus
  createdAt : ℕ
  deriving DecidableEq

/-- `contract_id` is the primary key. -/
structure Contracts where
  rows : List Contract
  distinct : (rows.map Contract.contractId).Nodup

/-- `WHERE github_repo_full_name = $1` -/
def Contracts.linked (t : Contracts) (repoFullName : Text) : List Contract :=
  t.rows.filter fun c => c.githubRepoFullName = some repoFullName

/-- `status IN ('LOCKED','IN_PROGRESS')` -/
def inFlight (c : Contract) : Bool := c.status = .locked || c.status = .inProgress

/-- `ORDER BY (status IN ('LOCKED','IN_PROGRESS')) DESC, created_at DESC` -/
def SortsBefore (c d : Contract) : Prop :=
  inFlight d < inFlight c ∨ inFlight c = inFlight d ∧ d.createdAt ≤ c.createdAt

instance (c d : Contract) : Decidable (SortsBefore c d) := inferInstanceAs (Decidable (_ ∨ _))

def resolveContractId (t : Contracts) (repoFullName : Text) : Option Text :=
  ((t.linked repoFullName).insertionSort SortsBefore).head?.map (·.contractId)

/-! ## Running contracts -/

/-- Work is in progress, also on a repository that provisioning has made usable. -/
def running (c : Contract) : Bool := inFlight c || c.status = .active

def newest (rows : List Contract) : Option Contract := rows.argmax (·.createdAt)

/-- The newest of the running contracts, or else of all. -/
def engagement (rows : List Contract) : Option Contract :=
  (newest (rows.filter running)).or (newest rows)

/--
For every active contract there is a newer one in flight, or else none is in flight and the newest
of all is active.
-/
def ActiveRanked (rows : List Contract) : Prop :=
  ∀ a ∈ rows, a.status = .active → ∃ c ∈ rows,
    inFlight c ∧ a.createdAt < c.createdAt ∨
      c.status = .active ∧ ∀ d ∈ rows, inFlight d = false ∧ d.createdAt ≤ c.createdAt

variable {rows : List Contract} {c d : Contract}

/-! ## The first row -/

theorem sortsBefore_total (c d : Contract) : SortsBefore c d ∨ SortsBefore d c := by
  unfold SortsBefore
  cases inFlight c <;> cases inFlight d <;> simp [le_total]

theorem sortsBefore_trans {e : Contract} (h : SortsBefore c d) (h' : SortsBefore d e) :
    SortsBefore c e := by
  rcases h with h | ⟨heq, hle⟩
  · rcases h' with h' | ⟨heq', -⟩
    · exact .inl (h'.trans h)
    · exact .inl (heq' ▸ h)
  · rcases h' with h' | ⟨heq', hle'⟩
    · exact .inl (heq ▸ h')
    · exact .inr ⟨heq.trans heq', hle'.trans hle⟩

/-- What comes first sorts before every row. -/
theorem mem_of_head_sort (h : (rows.insertionSort SortsBefore).head? = some c) :
    c ∈ rows ∧ ∀ d ∈ rows, SortsBefore c d := by
  have htotal : Std.Total SortsBefore := ⟨sortsBefore_total⟩
  have htrans : IsTrans Contract SortsBefore := ⟨fun _ _ _ => sortsBefore_trans⟩
  have hperm := List.perm_insertionSort SortsBefore rows
  obtain ⟨rest, hsort⟩ := List.head?_eq_some_iff.mp h
  have hpair := List.pairwise_insertionSort SortsBefore rows
  rw [hsort] at hperm hpair
  refine ⟨hperm.mem_iff.mp List.mem_cons_self, fun d hd => ?_⟩
  rcases List.mem_cons.mp (hperm.mem_iff.mpr hd) with rfl | hd
  · exact .inr ⟨rfl, le_rfl⟩
  · exact (List.pairwise_cons.mp hpair).1 d hd

theorem newest_spec (h : newest rows = some c) :
    c ∈ rows ∧ ∀ d ∈ rows, d.createdAt ≤ c.createdAt :=
  ⟨List.argmax_mem h, fun _ hd => List.le_of_mem_argmax hd h⟩

theorem exists_newest (h : c ∈ rows) : ∃ d, newest rows = some d :=
  Option.ne_none_iff_exists'.mp fun hnone =>
    List.ne_nil_of_mem h (List.argmax_eq_none.mp hnone)

/-- Where a contract is running, the engagement is the newest that runs. -/
theorem engagement_of_running (h : c ∈ rows) (hc : running c) :
    ∃ e ∈ rows, engagement rows = some e ∧ running e ∧
      ∀ d ∈ rows, running d → d.createdAt ≤ e.createdAt := by
  obtain ⟨e, he⟩ := exists_newest (List.mem_filter.mpr ⟨h, hc⟩)
  obtain ⟨hmem, hmax⟩ := newest_spec he
  obtain ⟨hrows, hrunning⟩ := List.mem_filter.mp hmem
  refine ⟨e, hrows, ?_, hrunning, fun d hd hd' => hmax d (List.mem_filter.mpr ⟨hd, hd'⟩)⟩
  rw [engagement, he, Option.some_or]

theorem engagement_of_none (h : ∀ c ∈ rows, running c = false) :
    engagement rows = newest rows := by
  have hnil : rows.filter running = [] :=
    List.filter_eq_nil_iff.mpr fun c hc => by simp [h c hc]
  rw [engagement, hnil]
  rfl

theorem running_of_inFlight (h : inFlight c) : running c := by
  rw [running, h]
  rfl

theorem running_of_active (h : c.status = .active) : running c := by
  simp [running, h]

theorem active_of_running (h : running c) (hc : inFlight c = false) : c.status = .active := by
  simpa [running, hc] using h

theorem mem_of_engagement (h : engagement rows = some c) : c ∈ rows := by
  rw [engagement, Option.or_eq_some_iff] at h
  rcases h with h | ⟨-, h⟩
  · exact List.mem_of_mem_filter (newest_spec h).1
  · exact (newest_spec h).1

/-- Where the first row is not in flight, none is, and it is the newest. -/
theorem le_of_not_inFlight (hfirst : ∀ d ∈ rows, SortsBefore c d) (hc : inFlight c = false) :
    ∀ d ∈ rows, inFlight d = false ∧ d.createdAt ≤ c.createdAt := by
  intro d hd
  rcases hfirst d hd with hlt | ⟨hsame, hle⟩
  · rw [hc] at hlt
    exact absurd hlt (by simp)
  · exact ⟨hsame ▸ hc, hle⟩

section Resolve

variable (htimes : (rows.map Contract.createdAt).Nodup)
include htimes

theorem eq_of_createdAt (hc : c ∈ rows) (hd : d ∈ rows) (h : c.createdAt = d.createdAt) : c = d :=
  List.inj_on_of_nodup_map htimes hc hd h

/-- What comes first is the engagement if and only if the active contracts rank as they should. -/
theorem first_eq_engagement_iff (hc : c ∈ rows) (hfirst : ∀ d ∈ rows, SortsBefore c d) :
    engagement rows = some c ↔ ActiveRanked rows := by
  constructor
  · intro heng a ha hactive
    obtain ⟨e, -, he, hrunning, hmax⟩ := engagement_of_running ha (running_of_active hactive)
    obtain rfl : e = c := Option.some.inj (he.symm.trans heng)
    have hle := hmax a ha (running_of_active hactive)
    cases hflight : inFlight e with
    | true =>
      refine ⟨e, hc, .inl ⟨hflight, lt_of_le_of_ne hle fun heq => ?_⟩⟩
      obtain rfl := eq_of_createdAt htimes ha hc heq
      simp [inFlight, hactive] at hflight
    | false =>
      refine ⟨e, hc, .inr ⟨active_of_running hrunning hflight, fun d hd => ?_⟩⟩
      exact le_of_not_inFlight hfirst hflight d hd
  · intro hranked
    by_cases hany : ∃ a ∈ rows, running a
    · obtain ⟨a, ha, hrunning⟩ := hany
      obtain ⟨e, he, heng, hrunning, hmax⟩ := engagement_of_running ha hrunning
      rw [heng, Option.some.injEq]
      cases hflight : inFlight c with
      | true =>
        have hce := hmax c hc (running_of_inFlight hflight)
        cases hflight' : inFlight e with
        | true =>
          rcases hfirst e he with hlt | ⟨-, hle⟩
          · rw [hflight, hflight'] at hlt
            exact absurd hlt (lt_irrefl _)
          · exact eq_of_createdAt htimes he hc (le_antisymm hle hce)
        | false =>
          have hactive := active_of_running hrunning hflight'
          obtain ⟨d, hd, ⟨hd', hlt⟩ | ⟨-, hnone⟩⟩ := hranked e he hactive
          · exact absurd (hmax d hd (running_of_inFlight hd')) (not_le.mpr hlt)
          · rw [(hnone c hc).1] at hflight
            cases hflight
      | false =>
        have hlast := le_of_not_inFlight hfirst hflight
        obtain ⟨d, hd, ⟨hd', -⟩ | ⟨hactive, hnewest⟩⟩ :=
          hranked e he (active_of_running hrunning (hlast e he).1)
        · rw [(hlast d hd).1] at hd'
          cases hd'
        · obtain rfl := eq_of_createdAt htimes hd hc
            (le_antisymm (hlast d hd).2 (hnewest c hc).2)
          exact eq_of_createdAt htimes he hc
            (le_antisymm (hlast e he).2 (hmax d hd (running_of_active hactive)))
    · have hnone : ∀ a ∈ rows, running a = false := fun a ha =>
        Bool.eq_false_of_not_eq_true fun h => hany ⟨a, ha, h⟩
      have hflight : inFlight c = false :=
        Bool.eq_false_of_not_eq_true fun h => hany ⟨c, hc, running_of_inFlight h⟩
      obtain ⟨m, hm⟩ := exists_newest hc
      obtain ⟨hmem, hmax⟩ := newest_spec hm
      rw [engagement_of_none hnone, hm, Option.some.injEq]
      exact eq_of_createdAt htimes hmem hc
        (le_antisymm (le_of_not_inFlight hfirst hflight m hmem).2 (hmax c hc))

end Resolve

/--
A push is filed under the engagement if and only if the active contracts rank as they should.
-/
theorem resolveContractId_iff (t : Contracts) (repoFullName : Text)
    (htimes : ((t.linked repoFullName).map Contract.createdAt).Nodup) :
    resolveContractId t repoFullName =
        (engagement (t.linked repoFullName)).map (·.contractId) ↔
      ActiveRanked (t.linked repoFullName) := by
  rw [resolveContractId]
  cases hhead : ((t.linked repoFullName).insertionSort SortsBefore).head? with
  | none =>
    have hnil : t.linked repoFullName = [] := by
      have hperm := List.perm_insertionSort SortsBefore (t.linked repoFullName)
      rw [List.head?_eq_none_iff.mp hhead] at hperm
      exact hperm.symm.eq_nil
    rw [hnil]
    exact iff_of_true rfl fun a ha => absurd ha List.not_mem_nil
  | some c =>
    obtain ⟨hc, hfirst⟩ := mem_of_head_sort hhead
    rw [← first_eq_engagement_iff htimes hc hfirst]
    constructor
    · intro h
      obtain ⟨e, he, hid⟩ := Option.map_eq_some_iff.mp h.symm
      -- the id is that of one contract
      rw [he]
      refine congrArg some (List.inj_on_of_nodup_map t.distinct ?_ ?_ hid)
      · exact List.mem_of_mem_filter (mem_of_engagement he)
      · exact List.mem_of_mem_filter hc
    · intro h
      rw [h]

/-! ## A repository used again -/

def lynxRepo : Text := units "assurecode/lynx"

/-- A contract that provisioning has made active, and a newer one that is completed. -/
def usedAgain : Contracts where
  rows := [⟨units "c-1", some lynxRepo, .active, 1⟩, ⟨units "c-2", some lynxRepo, .completed, 2⟩]
  distinct := by decide

/-- Two contracts that are in flight. -/
def bothInFlight : Contracts where
  rows := [⟨units "c-1", some lynxRepo, .inProgress, 1⟩, ⟨units "c-2", some lynxRepo, .locked, 2⟩]
  distinct := by decide

theorem resolveContractId_bothInFlight :
    resolveContractId bothInFlight lynxRepo =
      (engagement (bothInFlight.linked lynxRepo)).map (·.contractId) := by
  rw [resolveContractId_iff bothInFlight lynxRepo (by decide +kernel)]
  intro a ha hactive
  have hnone : ∀ c ∈ bothInFlight.linked lynxRepo, c.status ≠ .active := by decide +kernel
  exact absurd hactive (hnone a ha)

/-- The push is filed under the completed contract. -/
theorem completed_before_active :
    ((usedAgain.linked lynxRepo).map Contract.createdAt).Nodup ∧
    resolveContractId usedAgain lynxRepo = some (units "c-2") ∧
    (engagement (usedAgain.linked lynxRepo)).map (·.contractId) = some (units "c-1") := by
  decide +kernel

end AssureCode.Webhook
