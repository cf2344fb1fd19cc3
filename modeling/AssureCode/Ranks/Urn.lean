import Mathlib.Algebra.BigOperators.Fin
import Mathlib.Data.Fin.Tuple.Sort
import Mathlib.Data.Fintype.Perm
import Mathlib.Logic.Equiv.Fin.Basic

/-! # Ranks among a fixed set of values

Of `n + T` distinct values the first `n` are kept aside, and each later one is ranked by how many
of them are at least as large. Over all the orderings the ranks are drawn from an urn: every rank
starts with weight one and gains one each time it comes up, so a sequence of ranks has
`n! ∏ⱼ cⱼ!` orderings, where `cⱼ` counts the places that hold `j`.
-/

namespace AssureCode.Ranks

open Finset

variable {n T : ℕ} {α β : Type*} [LinearOrder α] [LinearOrder β]

/-- How many of the first values are at least as large. -/
def rankAmong (first : Fin n → α) (x : α) : Fin (n + 1) :=
  ⟨#{i | x ≤ first i}, Nat.lt_succ_of_le (by simpa using card_filter_le univ (x ≤ first ·))⟩

/-- The rank of each later value among the first `n`. -/
def ranks (r : Fin (n + T) → α) (t : Fin T) : Fin (n + 1) :=
  rankAmong (fun i => r (Fin.castAdd T i)) (r (Fin.natAdd n t))

theorem rankAmong_congr {first : Fin n → α} {x : α} {first' : Fin n → β} {x' : β}
    (h : ∀ i, x ≤ first i ↔ x' ≤ first' i) : rankAmong first x = rankAmong first' x' := by
  simp only [rankAmong, h]

theorem ranks_comp {f : α → β} (hf : StrictMono f) (r : Fin (n + T) → α) :
    ranks (f ∘ r) = ranks r := by
  funext t
  apply rankAmong_congr
  intro i
  exact hf.le_iff_le

/-! ## One more value -/

/-- Among themselves the first values have the ranks `1, …, n`, each once; rank `0` is left. -/
theorem rankAmong_self_bijective {first : Fin n → α} (h : first.Injective) :
    Function.Bijective fun o : Option (Fin n) => o.elim 0 fun i => rankAmong first (first i) := by
  have hlt {i j : Fin n} (hij : first i < first j) :
      rankAmong first (first j) < rankAmong first (first i) := by
    apply Fin.mk_lt_mk.mpr (card_lt_card _)
    rw [ssubset_iff_of_subset (monotone_filter_right _ fun k _ hk => hij.le.trans hk)]
    exact ⟨i, by simp, by simpa using hij⟩
  have hpos (i : Fin n) : rankAmong first (first i) ≠ 0 := by
    apply Fin.pos_iff_ne_zero.mp
    change 0 < #{k | first i ≤ first k}
    exact card_pos.mpr ⟨i, by simp⟩
  rw [Fintype.bijective_iff_injective_and_card]
  constructor
  · rintro (_ | i) (_ | j) hij
    · rfl
    · exact absurd hij.symm (hpos j)
    · exact absurd hij (hpos i)
    · by_contra hne
      obtain hl | hl := lt_or_gt_of_ne (h.ne fun e => hne (congrArg some e))
      · exact (hlt hl).ne' hij
      · exact (hlt hl).ne hij
  · simp

theorem sum_rankAmong_self {first : Fin n → α} (h : first.Injective) (j : Fin (n + 1)) :
    (∑ i, if rankAmong first (first i) = j then 1 else 0) + (if 0 = j then 1 else 0) = 1 := by
  have hsum := (rankAmong_self_bijective h).sum_comp fun k => if k = j then 1 else 0
  rw [Fintype.sum_option, sum_ite_eq' univ j, if_pos (mem_univ j)] at hsum
  rw [add_comm]
  exact hsum

/-- A value put last: `v` is its place in the order of all, `σ` the ordering of the others. -/
def insertLast {m : ℕ} (v : Fin (m + 1)) (σ : Equiv.Perm (Fin m)) : Equiv.Perm (Fin (m + 1)) :=
  (finSuccEquiv' (Fin.last m)).trans (σ.optionCongr.trans (finSuccEquiv' v).symm)

@[simp] theorem insertLast_last {m : ℕ} (v : Fin (m + 1)) (σ : Equiv.Perm (Fin m)) :
    insertLast v σ (Fin.last m) = v := by
  simp [insertLast]

@[simp] theorem insertLast_castSucc {m : ℕ} (v : Fin (m + 1)) (σ : Equiv.Perm (Fin m))
    (i : Fin m) : insertLast v σ i.castSucc = v.succAbove (σ i) := by
  simp [insertLast, finSuccEquiv'_last_apply_castSucc]

theorem insertLast_bijective (m : ℕ) :
    Function.Bijective fun p : Fin (m + 1) × Equiv.Perm (Fin m) => insertLast p.1 p.2 := by
  rw [Fintype.bijective_iff_injective_and_card]
  constructor
  · rintro ⟨v, σ⟩ ⟨w, τ⟩ h
    have hat := DFunLike.congr_fun h
    obtain rfl : v = w := by simpa using hat (Fin.last m)
    have hσ : σ = τ := by
      apply Equiv.ext
      intro i
      simpa using hat i.castSucc
    rw [hσ]
  · simp [Fintype.card_perm, Nat.factorial_succ]

theorem ranks_insertLast_castSucc (v : Fin (n + T + 1)) (σ : Equiv.Perm (Fin (n + T)))
    (t : Fin T) : ranks (n := n) (insertLast v σ) t.castSucc = ranks σ t := by
  apply rankAmong_congr
  intro i
  change insertLast v σ (Fin.natAdd n t).castSucc ≤ insertLast v σ (Fin.castAdd T i).castSucc ↔ _
  rw [insertLast_castSucc, insertLast_castSucc]
  exact (Fin.strictMono_succAbove v).le_iff_le

theorem ranks_insertLast_last (v : Fin (n + T + 1)) (σ : Equiv.Perm (Fin (n + T))) :
    ranks (n := n) (insertLast v σ) (Fin.last T) =
      rankAmong (fun i => (σ (Fin.castAdd T i)).castSucc) v := by
  apply rankAmong_congr
  intro i
  change insertLast v σ (Fin.last _) ≤ insertLast v σ (Fin.castAdd T i).castSucc ↔ _
  rw [insertLast_last, insertLast_castSucc, ← Fin.lt_succAbove_iff_le_castSucc]
  exact ⟨fun h => h.lt_of_ne (Fin.succAbove_ne _ _).symm, le_of_lt⟩

/-- Of the places for one more value, one more than the times rank `j` has come up give it
rank `j`. -/
theorem card_insertLast (σ : Equiv.Perm (Fin (n + T))) (j : Fin (n + 1)) :
    #{v | ranks (n := n) (insertLast v σ) (Fin.last T) = j} = #{t | ranks σ t = j} + 1 := by
  let first i := (σ (Fin.castAdd T i)).castSucc
  have hinj : first.Injective :=
    (Fin.castSucc_injective _).comp (σ.injective.comp (Fin.castAdd_injective n T))
  have hlast : rankAmong first (Fin.last (n + T)) = 0 := by
    ext
    simp [rankAmong, first, Fin.last_le_iff, (Fin.castSucc_lt_last _).ne]
  have hlater (t : Fin T) : rankAmong first (σ (Fin.natAdd n t)).castSucc = ranks σ t :=
    rankAmong_congr fun i => by simp [first]
  calc
    _ = ∑ v, if rankAmong first v = j then 1 else 0 := by
      simp only [ranks_insertLast_last, card_filter, first]
    _ = (∑ i, if rankAmong first (σ i).castSucc = j then 1 else 0) +
          if 0 = j then 1 else 0 := by
      rw [Fin.sum_univ_castSucc, hlast]
      rw [Equiv.sum_comp σ fun x => if rankAmong first x.castSucc = j then 1 else 0]
    _ = (∑ i, if rankAmong first (first i) = j then 1 else 0) +
          (∑ t, if ranks σ t = j then 1 else 0) + if 0 = j then 1 else 0 := by
      simp only [Fin.sum_univ_add, hlater, first]
    _ = _ := by
      rw [card_filter, add_right_comm, sum_rankAmong_self hinj, add_comm]

/-! ## Counting the orderings -/

/-- The urn's weight of a sequence of ranks. -/
def weight (k : Fin T → Fin (n + 1)) : ℕ :=
  ∏ j, (#{t | k t = j}).factorial

theorem card_eq_init (k : Fin (T + 1) → Fin (n + 1)) (j : Fin (n + 1)) :
    #{t | k t = j} = #{t | Fin.init k t = j} + if k (Fin.last T) = j then 1 else 0 := by
  simp only [card_filter, Fin.sum_univ_castSucc]
  rfl

theorem weight_succ (k : Fin (T + 1) → Fin (n + 1)) :
    weight k = weight (Fin.init k) * (#{t | Fin.init k t = k (Fin.last T)} + 1) := by
  have hfactor (j : Fin (n + 1)) : (#{t | k t = j}).factorial =
      (#{t | Fin.init k t = j}).factorial *
        if k (Fin.last T) = j then #{t | Fin.init k t = j} + 1 else 1 := by
    rw [card_eq_init]
    split
    · rw [Nat.factorial_succ, mul_comm]
    · simp
  simp only [weight, hfactor, prod_mul_distrib, prod_ite_eq, mem_univ, if_true]

theorem card_ranks_perm (k : Fin T → Fin (n + 1)) :
    #{σ : Equiv.Perm (Fin (n + T)) | ranks σ = k} = n.factorial * weight k := by
  induction T with
  | zero =>
    have hall (σ : Equiv.Perm (Fin (n + 0))) : ranks σ = k := Subsingleton.elim _ _
    simp [hall, weight, Fintype.card_perm]
  | succ T ih =>
    have hsplit (v : Fin (n + T + 1)) (σ : Equiv.Perm (Fin (n + T))) :
        ranks (n := n) (insertLast v σ) = k ↔
          ranks σ = Fin.init k ∧ ranks (n := n) (insertLast v σ) (Fin.last T) = k (Fin.last T) := by
      simp only [funext_iff, Fin.forall_fin_succ', ranks_insertLast_castSucc, Fin.init]
    calc
      _ = ∑ τ : Equiv.Perm (Fin (n + T + 1)), if ranks (n := n) τ = k then 1 else 0 :=
        card_filter _ _
      _ = ∑ σ : Equiv.Perm (Fin (n + T)), ∑ v : Fin (n + T + 1),
            if ranks (n := n) (T := T + 1) (insertLast v σ) = k then 1 else 0 := by
        rw [← (insertLast_bijective (n + T)).sum_comp, Fintype.sum_prod_type_right]
      _ = ∑ σ : Equiv.Perm (Fin (n + T)), if ranks σ = Fin.init k then
            #{v | ranks (n := n) (insertLast v σ) (Fin.last T) = k (Fin.last T)} else 0 := by
        apply sum_congr rfl
        rintro σ -
        simp only [hsplit, ite_and, card_filter]
        split <;> simp
      _ = ∑ σ : Equiv.Perm (Fin (n + T)), if ranks σ = Fin.init k then
            #{t | Fin.init k t = k (Fin.last T)} + 1 else 0 := by
        apply sum_congr rfl
        rintro σ -
        split
        · next h => rw [card_insertLast, h]
        · rfl
      _ = n.factorial * weight k := by
        rw [← sum_filter, sum_const, smul_eq_mul, ih, weight_succ, mul_assoc]

/-- Over the orderings of distinct values, a sequence of ranks comes up `n!` times its weight. -/
theorem card_ranks {r : Fin (n + T) → α} (hr : r.Injective) (k : Fin T → Fin (n + 1)) :
    #{σ : Equiv.Perm (Fin (n + T)) | ranks (r ∘ σ) = k} = n.factorial * weight k := by
  have hmono : StrictMono (r ∘ Tuple.sort r) :=
    (Tuple.monotone_sort r).strictMono_of_injective (hr.comp (Equiv.injective _))
  rw [← card_ranks_perm k]
  apply card_bij' (fun σ _ => (Tuple.sort r)⁻¹ * σ) (fun σ _ => Tuple.sort r * σ)
  · intro σ hσ
    rw [mem_filter] at hσ ⊢
    refine ⟨mem_univ _, ?_⟩
    rw [← hσ.2, ← ranks_comp hmono]
    congr 1
    funext i
    simp
  · intro σ hσ
    rw [mem_filter] at hσ ⊢
    refine ⟨mem_univ _, ?_⟩
    rw [← hσ.2, ← ranks_comp hmono]
    rfl
  · simp
  · simp

/-- The orderings whose ranks have a property weigh what the sequences with it weigh. -/
theorem card_ranks_of {r : Fin (n + T) → α} (hr : r.Injective)
    (p : (Fin T → Fin (n + 1)) → Prop) [DecidablePred p] :
    #{σ : Equiv.Perm (Fin (n + T)) | p (ranks (r ∘ σ))} =
      n.factorial * ∑ k with p k, weight k := by
  have hmaps : ∀ σ ∈ univ.filter fun σ : Equiv.Perm (Fin (n + T)) => p (ranks (r ∘ σ)),
      ranks (r ∘ σ) ∈ univ.filter p := by
    simp
  rw [card_eq_sum_card_fiberwise hmaps, mul_sum]
  apply sum_congr rfl
  intro k hk
  rw [← card_ranks hr, filter_filter]
  congr 1
  ext σ
  simp only [mem_filter, mem_univ, true_and] at hk ⊢
  constructor
  · exact And.right
  · rintro rfl
    exact ⟨hk, rfl⟩

end AssureCode.Ranks
