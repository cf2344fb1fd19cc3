import AssureCode.Drift.Run
import AssureCode.Ranks.Urn
import Mathlib.Analysis.SpecialFunctions.Pow.Real
import Mathlib.Analysis.SpecificLimits.Normed
import Mathlib.Data.Nat.Choose.Bounds
import Mathlib.Tactic.NormNum.NatFactorial

/-! # False alarms of the drift detector

The detector ranks every residual against one calibration set, so over the orderings of
exchangeable residuals the p-values of a run come from an urn, not from independent draws: a low
rank makes the next low rank likelier. The alarm keeps its rate `delta` at every level and
horizon only where no bet can gain, and then it is never raised.
-/

namespace AssureCode.Drift

open Finset Ranks ConformalDriftDetector
open scoped Classical Nat

variable {V : Type*} [NormedAddCommGroup V] [InnerProductSpace ℝ V]
variable {n T : ℕ} {δ ε η : ℝ} {c : V}

/--
The martingale alarm is raised when the first `n` residuals are the calibration set and the
others are observed one by one.
-/
def MartingaleAlarm (c : V) (δ ε η : ℝ) (r : Fin (n + T) → ℝ) : Prop :=
  ∃ d, construct c (List.ofFn fun i : Fin n => r (Fin.castAdd T i)) δ ε η none none = .ok d ∧
    (d.observeAll (List.ofFn fun t : Fin T => r (Fin.natAdd n t))).2.state.alarmReason =
      .martingale

/-- The fraction of the orderings of the residuals under which the alarm is raised. -/
noncomputable def falseAlarmRate (c : V) (δ ε η : ℝ) (r : Fin (n + T) → ℝ) : ℝ :=
  #{σ : Equiv.Perm (Fin (n + T)) | MartingaleAlarm c δ ε η (r ∘ σ)} / (n + T)!

/-! ## From residuals to ranks -/

/-- The factor of the martingale at a rank among `n` calibration residuals. -/
noncomputable def bet (ε : ℝ) (k : Fin (n + 1)) : ℝ :=
  ε * ((1 + k) / (n + 1)) ^ (ε - 1)

/-- The martingale of a sequence of ranks passes `1 / δ`. -/
def Passes (δ ε : ℝ) (k : Fin T → Fin (n + 1)) : Prop :=
  ∃ t, 1 / δ < ∏ s ∈ Iic t, bet ε (k s)

theorem bet_pos (hε : ε ∈ Set.Ioo 0 1) (k : Fin (n + 1)) : 0 < bet ε k :=
  mul_pos hε.1 (by positivity)

theorem log_bet (hε : ε ∈ Set.Ioo 0 1) (k : Fin (n + 1)) :
    Real.log (bet ε k) = Real.log ε + (ε - 1) * Real.log ((1 + k) / (n + 1)) := by
  have hp : (0 : ℝ) < (1 + k) / (n + 1) := by positivity
  rw [bet, Real.log_mul hε.1.ne' (by positivity), Real.log_rpow hp]

theorem countP_ofFn (f : Fin n → ℝ) (p : ℝ → Bool) : (List.ofFn f).countP p = #{i | p (f i)} := by
  rw [List.ofFn_eq_map, List.countP_map, List.countP_eq_length_filter, card_def, filter_val,
    Fin.univ_def, Multiset.filter_coe, Multiset.coe_card]
  simp [Function.comp_def]

theorem exceeds_ofFn_iff {d : ConformalDriftDetector V} {r : Fin (n + T) → ℝ}
    (hd : construct c (List.ofFn fun i : Fin n => r (Fin.castAdd T i)) δ ε η none none = .ok d)
    (hδ : δ ∈ Set.Ioo 0 1) (hε : ε ∈ Set.Ioo 0 1) (t : Fin T) :
    d.Exceeds (List.ofFn fun t : Fin T => r (Fin.natAdd n t)) t ↔
      1 / δ < ∏ s ∈ Iic t, bet ε (ranks r s) := by
  obtain ⟨hcalibration, hdelta, hepsilon, -, -, hlog, -, -⟩ := of_construct hd
  have hbet (s : Fin T) : d.logBet (r (Fin.natAdd n s)) = Real.log (bet ε (ranks r s)) := by
    rw [log_bet hε, logBet, pValue, hcalibration, hepsilon, List.length_ofFn, countP_ofFn]
    simp [ranks, rankAmong]
  have hprefix : ({s | s.val < t.val + 1} : Finset (Fin T)) = Iic t := by
    ext s
    simp only [mem_filter, mem_univ, true_and, mem_Iic]
    exact Nat.lt_succ_iff
  have hprod : 0 < ∏ s ∈ Iic t, bet ε (ranks r s) := prod_pos fun s _ => bet_pos hε _
  rw [Exceeds, logAlarmThreshold, hlog, hdelta, zero_add, List.map_take, List.map_ofFn,
    List.sum_take_ofFn, hprefix, ← Real.log_lt_log_iff (one_div_pos.mpr hδ.1) hprod,
    Real.log_prod fun s _ => (bet_pos hε _).ne']
  simp only [Function.comp_apply, hbet]

theorem martingaleAlarm_iff (hn : 1 ≤ n) (hc : c ≠ 0) (hδ : δ ∈ Set.Ioo 0 1)
    (hε : ε ∈ Set.Ioo 0 1) (r : Fin (n + T) → ℝ) :
    MartingaleAlarm c δ ε η r ↔ Passes δ ε (ranks r) := by
  have halarm {d : ConformalDriftDetector V}
      (hd : construct c (List.ofFn fun i : Fin n => r (Fin.castAdd T i)) δ ε η none none = .ok d) :
      (d.observeAll (List.ofFn fun t : Fin T => r (Fin.natAdd n t))).2.state.alarmReason =
        .martingale ↔ Passes δ ε (ranks r) := by
    obtain ⟨-, -, -, -, hcusum, -, -, hstate⟩ := of_construct hd
    rw [observeAll_eq, alarmReason_after_iff _ _ hcusum hstate, List.length_ofFn]
    constructor
    · rintro ⟨t, ht, h⟩
      exact ⟨⟨t, ht⟩, (exceeds_ofFn_iff hd hδ hε ⟨t, ht⟩).mp h⟩
    · rintro ⟨t, h⟩
      exact ⟨t, t.2, (exceeds_ofFn_iff hd hδ hε t).mpr h⟩
  constructor
  · rintro ⟨d, hd, h⟩
    exact (halarm hd).mp h
  · intro h
    have hcalibration : List.ofFn (fun i : Fin n => r (Fin.castAdd T i)) ≠ [] := by
      rw [Ne, List.ofFn_eq_nil_iff]
      omega
    obtain ⟨d, hd⟩ := construct_isOk (η := η) hc hcalibration hδ hε none none
    exact ⟨d, hd, (halarm hd).mpr h⟩

theorem card_martingaleAlarm (hn : 1 ≤ n) (hc : c ≠ 0) (hδ : δ ∈ Set.Ioo 0 1)
    (hε : ε ∈ Set.Ioo 0 1) {r : Fin (n + T) → ℝ} (hr : r.Injective) :
    #{σ : Equiv.Perm (Fin (n + T)) | MartingaleAlarm c δ ε η (r ∘ σ)} =
      n ! * ∑ k : Fin T → Fin (n + 1) with Passes δ ε k, weight k := by
  simp only [martingaleAlarm_iff hn hc hδ hε]
  exact card_ranks_of hr (Passes δ ε)

theorem falseAlarmRate_le_iff_weight (hn : 1 ≤ n) (hc : c ≠ 0) (hδ : δ ∈ Set.Ioo 0 1)
    (hε : ε ∈ Set.Ioo 0 1) {r : Fin (n + T) → ℝ} (hr : r.Injective) :
    falseAlarmRate c δ ε η r ≤ δ ↔
      (n ! * ∑ k : Fin T → Fin (n + 1) with Passes δ ε k, weight k : ℕ) ≤ δ * (n + T)! := by
  rw [falseAlarmRate, card_martingaleAlarm hn hc hδ hε hr, div_le_iff₀ (by positivity)]

/-! ## The largest bet -/

theorem bet_zero : bet ε (0 : Fin (n + 1)) = ε * (n + 1) ^ (1 - ε) := by
  rw [bet, Fin.val_zero, Nat.cast_zero, add_zero, one_div, Real.inv_rpow (by positivity),
    ← Real.rpow_neg (by positivity), neg_sub]

theorem bet_le_bet_zero (hε : ε ∈ Set.Ioo 0 1) (k : Fin (n + 1)) :
    bet ε k ≤ bet ε (0 : Fin (n + 1)) := by
  apply mul_le_mul_of_nonneg_left _ hε.1.le
  apply Real.rpow_le_rpow_of_nonpos (by positivity) _ (sub_nonpos.mpr hε.2.le)
  gcongr
  exact Nat.zero_le _

/-- Where no bet gains, the alarm is never raised. -/
theorem not_passes (hδ : δ ∈ Set.Ioo 0 1) (hε : ε ∈ Set.Ioo 0 1) (h : bet ε (0 : Fin (n + 1)) ≤ 1)
    (k : Fin T → Fin (n + 1)) : ¬ Passes δ ε k := by
  rintro ⟨t, ht⟩
  have hle : ∏ s ∈ Iic t, bet ε (k s) ≤ 1 :=
    prod_le_one (fun s _ => (bet_pos hε _).le) fun s _ => (bet_le_bet_zero hε _).trans h
  exact absurd (ht.trans_le hle) (one_lt_one_div hδ.1 hδ.2).not_gt

theorem passes_zero (hδ : δ ∈ Set.Ioo 0 1) (h : 1 / δ < bet ε (0 : Fin (n + 1)) ^ T) :
    Passes δ ε fun _ : Fin T => (0 : Fin (n + 1)) := by
  cases T with
  | zero => exact absurd h (by simpa using (one_lt_one_div hδ.1 hδ.2).le)
  | succ T => exact ⟨Fin.last T, by simpa using h⟩

theorem weight_zero : weight (fun _ : Fin T => (0 : Fin (n + 1))) = T ! := by
  rw [weight, Fintype.prod_eq_single 0]
  · simp
  · intro j hj
    simp [hj.symm]

/-- The orderings whose later residuals are all above the calibration set. -/
theorem factorial_le_weight (h : Passes δ ε fun _ : Fin T => (0 : Fin (n + 1))) :
    T ! ≤ ∑ k : Fin T → Fin (n + 1) with Passes δ ε k, weight k := by
  rw [← weight_zero (n := n)]
  exact single_le_sum (fun _ _ => Nat.zero_le _) (mem_filter.mpr ⟨mem_univ _, h⟩)

/-- Where a bet gains, the martingale outgrows the number of ways to choose the calibration set. -/
theorem exists_choose_lt_pow {g : ℝ} (n : ℕ) (hg : 1 < g) :
    ∃ T, ((n + T).choose n : ℝ) < g ^ T := by
  have hsmall : ∀ᶠ m : ℕ in Filter.atTop, (m : ℝ) ^ n / g ^ m < (g ^ n)⁻¹ :=
    (tendsto_pow_const_div_const_pow_of_one_lt n hg).eventually_lt_const (by positivity)
  obtain ⟨m, hm, hnm⟩ := (hsmall.and (Filter.eventually_ge_atTop n)).exists
  obtain ⟨T, rfl⟩ := Nat.exists_eq_add_of_le hnm
  refine ⟨T, ?_⟩
  calc
    _ ≤ ((n + T : ℕ) : ℝ) ^ n := by
      exact_mod_cast Nat.choose_le_pow (n + T) n
    _ < (g ^ n)⁻¹ * g ^ (n + T) := (div_lt_iff₀ (by positivity)).mp hm
    _ = g ^ T := by
      rw [pow_add, inv_mul_cancel_left₀ (by positivity)]

/--
The orderings whose later residuals are all above the calibration set make one part in
`choose (n + T) n`, and the martingale is then the largest bet to the power `T`.
-/
theorem lt_falseAlarmRate (hn : 1 ≤ n) (hc : c ≠ 0) (hδ : δ ∈ Set.Ioo 0 1)
    (hε : ε ∈ Set.Ioo 0 1) {r : Fin (n + T) → ℝ} (hr : r.Injective)
    (hpow : 1 / δ < bet ε (0 : Fin (n + 1)) ^ T) (hchoose : δ * (n + T).choose n < 1) :
    δ < falseAlarmRate c δ ε η r := by
  apply lt_of_not_ge
  rw [falseAlarmRate_le_iff_weight hn hc hδ hε hr, not_le]
  have hweight := factorial_le_weight (passes_zero hδ hpow)
  have hfactorial : (0 : ℝ) < n ! * T ! := by positivity
  calc
    δ * (n + T)! = δ * (n + T).choose n * (n ! * T !) := by
      rw [← Nat.add_choose_mul_factorial_mul_factorial, ← Nat.choose_symm_add]
      push_cast
      ring
    _ < n ! * T ! := mul_lt_of_lt_one_left hfactorial hchoose
    _ ≤ _ := by
      exact_mod_cast Nat.mul_le_mul_left _ hweight

/-- With fifteen calibration residuals and `ε = 1/2` every bet on an extreme residual doubles. -/
theorem bet_half : bet (1 / 2) (0 : Fin (15 + 1)) = 2 := by
  rw [bet_zero]
  norm_num [← Real.sqrt_eq_rpow, show (16 : ℝ) = 4 ^ 2 by norm_num]

/-- Fifty increasing residuals above the calibration set are likelier than the level. -/
theorem false_alarms_exceed :
    ¬ falseAlarmRate (1 : ℝ) (1 / 2 ^ 49) (1 / 2) 0.15 (fun i : Fin (15 + 50) => (i : ℝ)) ≤
      1 / 2 ^ 49 := by
  apply not_le_of_gt
  apply lt_falseAlarmRate (by norm_num) one_ne_zero ⟨by norm_num, by norm_num⟩
    ⟨by norm_num, by norm_num⟩
  · intro i j hij
    exact Fin.ext (Nat.cast_injective hij)
  · rw [bet_half]
    norm_num
  · rw [Nat.choose_eq_factorial_div_factorial (by norm_num)]
    norm_num [Nat.factorial]

/--
The alarm keeps its level where the ranks whose bets pass it weigh little enough in the urn, and
at every level and horizon exactly where no bet can gain.
-/
theorem false_alarm_bound_iff (hn : 1 ≤ n) (hε : ε ∈ Set.Ioo 0 1) (hc : c ≠ 0) :
    (∀ (T : ℕ) (δ : ℝ) (r : Fin (n + T) → ℝ), δ ∈ Set.Ioo 0 1 → r.Injective →
        (falseAlarmRate c δ ε η r ≤ δ ↔
          (n ! * ∑ k : Fin T → Fin (n + 1) with Passes δ ε k, weight k : ℕ) ≤ δ * (n + T)!)) ∧
      ((∀ (T : ℕ) (δ : ℝ) (r : Fin (n + T) → ℝ), δ ∈ Set.Ioo 0 1 → r.Injective →
          falseAlarmRate c δ ε η r ≤ δ) ↔
        ε * (n + 1) ^ (1 - ε) ≤ 1) := by
  constructor
  · intro T δ r hδ hr
    exact falseAlarmRate_le_iff_weight hn hc hδ hε hr
  rw [← bet_zero]
  constructor
  · intro hall
    by_contra! hgain
    obtain ⟨T, hT⟩ := exists_choose_lt_pow n hgain
    have hchoose : (0 : ℝ) < (n + T).choose n := by
      exact_mod_cast Nat.choose_pos (Nat.le_add_right n T)
    have hone : ((n + T).choose n : ℝ)⁻¹ ≤ 1 :=
      inv_le_one_of_one_le₀ (by exact_mod_cast hchoose)
    -- a level between what the extreme orderings reach and how many of them there are
    obtain ⟨δ, hδT, hδ⟩ := exists_between (inv_strictAnti₀ hchoose hT)
    have hδ₀ : 0 < δ := lt_trans (by positivity) hδT
    have hpow : 1 / δ < bet ε (0 : Fin (n + 1)) ^ T := by
      rw [one_div]
      exact inv_lt_of_inv_lt₀ (by positivity) hδT
    have hr : Function.Injective fun i : Fin (n + T) => (i : ℝ) := fun i j hij =>
      Fin.ext (Nat.cast_injective hij)
    have hfew : δ * (n + T).choose n < 1 := by
      rwa [← lt_div_iff₀ hchoose, one_div]
    have hlt := lt_falseAlarmRate (η := η) hn hc ⟨hδ₀, hδ.trans_le hone⟩ hε hr hpow hfew
    exact (hall T δ _ ⟨hδ₀, hδ.trans_le hone⟩ hr).not_gt hlt
  · intro hgain T δ r hδ hr
    rw [falseAlarmRate_le_iff_weight hn hc hδ hε hr]
    have hnone : ({k | Passes δ ε k} : Finset (Fin T → Fin (n + 1))) = ∅ :=
      filter_false_of_mem fun k _ => not_passes hδ hε hgain k
    rw [hnone, sum_empty, mul_zero, Nat.cast_zero]
    exact mul_nonneg hδ.1.le (Nat.cast_nonneg _)

theorem false_alarm_bound_iff_one :
    (∀ (T : ℕ) (δ : ℝ) (r : Fin (1 + T) → ℝ), δ ∈ Set.Ioo 0 1 → r.Injective →
        falseAlarmRate (1 : ℝ) δ (1 / 2) 0.15 r ≤ δ) ↔
      (1 / 2 : ℝ) * ((1 : ℕ) + 1) ^ (1 - 1 / 2 : ℝ) ≤ 1 :=
  (false_alarm_bound_iff le_rfl ⟨by norm_num, by norm_num⟩ one_ne_zero).2

end AssureCode.Drift
