import AssureCode.Drift.Run
import Mathlib.Analysis.SpecialFunctions.Pow.Real

/-! # The detector over a conversation

Larger residuals never put an alarm off, and the first alarm is kept. A call may bring an embedding
and may throw because of it: its bet is then made, and no step is kept.
-/

namespace AssureCode.Drift

namespace ConformalDriftDetector

variable {V : Type*} [NormedAddCommGroup V]

/-- The CUSUM statistic after a residual. -/
noncomputable def cusumStep (kappa : Option ℝ) (cusum residual : ℝ) : ℝ :=
  match kappa with
  | some kappa => max 0 (cusum + (residual - kappa))
  | none => cusum

/-- The factor of a residual in the martingale. -/
noncomputable def factor (d : ConformalDriftDetector V) (x : ℝ) : ℝ :=
  d.epsilon * d.pValue x ^ ((d.epsilon : ℝ) - 1)

/-- The martingale of the residuals exceeds `1 / delta`, or their CUSUM statistic exceeds `h`. -/
def Crosses (d : ConformalDriftDetector V) (rs : List ℝ) : Prop :=
  1 / (d.delta : ℝ) < (rs.map d.factor).prod ∨
    ∃ h ∈ d.cusumH, h < rs.foldl (cusumStep d.cusumKappa) 0

/-- Step `t` raises an alarm. -/
def AlarmsAt (d : ConformalDriftDetector V) (t : ℕ) : Prop :=
  ∃ step, d.state.steps[t]? = some step ∧ step.alarmed = true

theorem verdict_iff (d : ConformalDriftDetector V) :
    d.verdict.1 = true ↔
      d.logAlarmThreshold < d.logMartingale ∨ ∃ h ∈ d.cusumH, h < d.cusum := by
  rw [verdict]
  by_cases hlog : d.logAlarmThreshold < d.logMartingale
  · simp [hlog]
  · cases d.cusumH with
    | none => simp [hlog]
    | some h => by_cases hh : h < d.cusum <;> simp [hlog, hh]

/-! ## Larger residuals -/

theorem cusumStep_mono (kappa : Option ℝ) {c c' x x' : ℝ} (hc : c ≤ c') (hx : x ≤ x') :
    cusumStep kappa c x ≤ cusumStep kappa c' x' := by
  cases kappa with
  | none => exact hc
  | some k => exact max_le_max le_rfl (add_le_add hc (sub_le_sub_right hx k))

theorem pValue_pos (d : ConformalDriftDetector V) (x : ℝ) : 0 < d.pValue x := by
  rw [pValue]
  positivity

/-- Fewer calibration residuals reach a larger residual. -/
theorem pValue_anti (d : ConformalDriftDetector V) {x x' : ℝ} (hx : x ≤ x') :
    d.pValue x' ≤ d.pValue x := by
  have hcount : d.calibration.countP (x' ≤ ·) ≤ d.calibration.countP (x ≤ ·) :=
    List.countP_mono_left fun s _ hs => by
      simp only [decide_eq_true_eq] at hs ⊢
      exact hx.trans hs
  rw [pValue, pValue]
  gcongr

theorem logBet_mono (d : ConformalDriftDetector V) {x x' : ℝ} (hx : x ≤ x') :
    d.logBet x ≤ d.logBet x' := by
  have hlog : Real.log (d.pValue x') ≤ Real.log (d.pValue x) :=
    Real.log_le_log (d.pValue_pos x') (d.pValue_anti hx)
  rw [logBet, logBet]
  exact add_le_add_right (mul_le_mul_of_nonpos_left hlog (sub_nonpos.mpr d.epsilon.2.2.le)) _

/-! ## The martingale as a product -/

theorem factor_pos (d : ConformalDriftDetector V) (x : ℝ) : 0 < d.factor x :=
  mul_pos d.epsilon.2.1 (Real.rpow_pos_of_pos (d.pValue_pos x) _)

theorem log_factor (d : ConformalDriftDetector V) (x : ℝ) :
    Real.log (d.factor x) = d.logBet x := by
  rw [factor, Real.log_mul d.epsilon.2.1.ne' (Real.rpow_pos_of_pos (d.pValue_pos x) _).ne',
    Real.log_rpow (d.pValue_pos x)]
  rfl

theorem prod_factor_pos (d : ConformalDriftDetector V) (rs : List ℝ) :
    0 < (rs.map d.factor).prod :=
  List.prod_pos fun _ hmem => by
    obtain ⟨x, -, rfl⟩ := List.mem_map.mp hmem
    exact d.factor_pos x

/-! ## A detector ahead of another -/

section Statistics

variable {d d' q : ConformalDriftDetector V} {x x' : ℝ} {rs : List ℝ}

/-- The second detector has heard the same messages with larger residuals. -/
structure Ahead (d d' : ConformalDriftDetector V) : Prop where
  calibration : d'.calibration = d.calibration
  delta : d'.delta = d.delta
  epsilon : d'.epsilon = d.epsilon
  eta : d'.eta = d.eta
  centroid : d'.centroid = d.centroid
  cusumKappa : d'.cusumKappa = d.cusumKappa
  cusumH : d'.cusumH = d.cusumH
  logMartingale : d.logMartingale ≤ d'.logMartingale
  cusum : d.cusum ≤ d'.cusum
  steps : List.Forall₂ (fun s s' => s.alarmed = true → s'.alarmed = true)
    d.state.steps d'.state.steps

theorem Ahead.accumulate (h : Ahead d d') (hx : x ≤ x') :
    Ahead (d.accumulate (d.pValue x) x) (d'.accumulate (d'.pValue x') x') where
  calibration := h.calibration
  delta := h.delta
  epsilon := h.epsilon
  eta := h.eta
  centroid := h.centroid
  cusumKappa := h.cusumKappa
  cusumH := h.cusumH
  logMartingale := by
    have hbet : d'.logBet x' = d.logBet x' := by
      simp only [logBet, pValue, h.calibration, h.epsilon]
    calc
      d.logMartingale + d.logBet x ≤ d'.logMartingale + d.logBet x' :=
        add_le_add h.logMartingale (d.logBet_mono hx)
      _ = d'.logMartingale + d'.logBet x' := by rw [hbet]
  cusum := by
    have hstep := cusumStep_mono d.cusumKappa h.cusum hx
    nth_rewrite 2 [← h.cusumKappa] at hstep
    exact hstep
  steps := h.steps

theorem Ahead.verdict (h : Ahead d d') (halarm : d.verdict.1 = true) : d'.verdict.1 = true := by
  rw [verdict_iff] at halarm ⊢
  have hthreshold : d'.logAlarmThreshold = d.logAlarmThreshold := by
    rw [logAlarmThreshold, h.delta, logAlarmThreshold]
  rw [hthreshold, h.cusumH]
  rcases halarm with hlog | ⟨bound, hbound, hcusum⟩
  · exact .inl (hlog.trans_le h.logMartingale)
  · exact .inr ⟨bound, hbound, hcusum.trans_le h.cusum⟩

theorem Ahead.refl (d : ConformalDriftDetector V) : Ahead d d where
  calibration := rfl
  delta := rfl
  epsilon := rfl
  eta := rfl
  centroid := rfl
  cusumKappa := rfl
  cusumH := rfl
  logMartingale := le_rfl
  cusum := le_rfl
  steps := List.forall₂_same.mpr fun _ _ => id

theorem Ahead.alarmsAt (h : Ahead d d') {t : ℕ} (halarm : d.AlarmsAt t) : d'.AlarmsAt t := by
  obtain ⟨step, hstep, halarmed⟩ := halarm
  obtain ⟨ht, rfl⟩ := List.getElem?_eq_some_iff.mp hstep
  have ht' : t < d'.state.steps.length := h.steps.length_eq ▸ ht
  exact ⟨_, List.getElem?_eq_getElem ht', h.steps.get ht ht' halarmed⟩

/-! ## What the statistics are -/

/-- The statistics of a detector that began as `d` and has heard the residuals. -/
structure Heard (d : ConformalDriftDetector V) (rs : List ℝ) (q : ConformalDriftDetector V) :
    Prop where
  calibration : q.calibration = d.calibration
  delta : q.delta = d.delta
  epsilon : q.epsilon = d.epsilon
  cusumKappa : q.cusumKappa = d.cusumKappa
  cusumH : q.cusumH = d.cusumH
  logMartingale : q.logMartingale = Real.log (rs.map d.factor).prod
  cusum : q.cusum = rs.foldl (cusumStep d.cusumKappa) 0

theorem Heard.accumulate (h : Heard d rs q) (x : ℝ) :
    Heard d (rs ++ [x]) (q.accumulate (q.pValue x) x) where
  calibration := h.calibration
  delta := h.delta
  epsilon := h.epsilon
  cusumKappa := h.cusumKappa
  cusumH := h.cusumH
  logMartingale := by
    have hbet : q.logBet x = Real.log (d.factor x) := by
      rw [log_factor, logBet, pValue, h.calibration, h.epsilon]
      rfl
    rw [List.map_append, List.prod_append, List.map_singleton, List.prod_singleton,
      Real.log_mul (d.prod_factor_pos rs).ne' (d.factor_pos x).ne', ← h.logMartingale, ← hbet]
    rfl
  cusum := by
    rw [List.foldl_concat, ← h.cusum, ← h.cusumKappa]
    rfl

theorem Heard.crosses_iff (h : Heard d rs q) : q.verdict.1 = true ↔ d.Crosses rs := by
  rw [verdict_iff, logAlarmThreshold, h.logMartingale, h.delta, h.cusumH, h.cusum,
    Real.log_lt_log_iff (one_div_pos.mpr d.delta.2.1) (d.prod_factor_pos rs)]
  rfl

end Statistics

/-! ## One call -/

variable [InnerProductSpace ℝ V] (d : ConformalDriftDetector V) (x : ℝ)

/-- The centroid after a message. -/
noncomputable def moved : Option V → Except Thrown (Direction V)
  | none => .ok d.centroid
  | some e => normalize ((d.centroid : V) + d.eta • e)

/-- The step of a residual whose message has moved the centroid. -/
noncomputable def stepTo (centroid : Direction V) : DriftStep :=
  { d.stepOf x with cumulativeDrift := 1 - inner ℝ (centroid : V) d.c0 }

noncomputable def hear (centroid : Direction V) : ConformalDriftDetector V :=
  { d.accumulate (d.pValue x) x with centroid }.record (d.stepTo x centroid)

theorem advance_eq (e : Option V) :
    d.advance e = (d.moved e).map fun centroid => { d with centroid } := by
  cases e with
  | none => rfl
  | some e =>
    rw [advance, moved]
    cases normalize ((d.centroid : V) + d.eta • e) <;> rfl

theorem observeResidual_ok {e : Option V} {centroid : Direction V}
    (h : d.moved e = .ok centroid) :
    d.observeResidual x e = (.ok (d.stepTo x centroid), d.hear x centroid) := by
  have hmoved : (d.accumulate (d.pValue x) x).moved e = .ok centroid := by
    cases e <;> exact h
  have hvalue : (1 + d.calibration.countP (x ≤ ·)) / (d.calibration.length + 1) = d.pValue x :=
    rfl
  rw [observeResidual, conformalPValue_of_ne_nil d.calibrated]
  simp only [hvalue, advance_eq, hmoved, Except.map, cosine_direction]
  rfl

/-- A call that throws has made its bet. -/
theorem observeResidual_error {e : Option V} {thrown : Thrown} (h : d.moved e = .error thrown) :
    d.observeResidual x e = (.error thrown, d.accumulate (d.pValue x) x) := by
  have hmoved : (d.accumulate (d.pValue x) x).moved e = .error thrown := by
    cases e <;> exact h
  have hvalue : (1 + d.calibration.countP (x ≤ ·)) / (d.calibration.length + 1) = d.pValue x :=
    rfl
  rw [observeResidual, conformalPValue_of_ne_nil d.calibrated]
  simp only [hvalue, advance_eq, hmoved, Except.map]

/-! ## Two conversations -/

/-- The detector after the calls, those that return and those that throw. -/
noncomputable def converse (calls : List (ℝ × Option V)) : ConformalDriftDetector V :=
  calls.foldl (fun d c => (d.observeResidual c.1 c.2).2) d

theorem converse_concat (calls : List (ℝ × Option V)) (c : ℝ × Option V) :
    d.converse (calls ++ [c]) = ((d.converse calls).observeResidual c.1 c.2).2 := by
  rw [converse, List.foldl_concat]
  rfl

variable {d} {d' q : ConformalDriftDetector V} {x x' : ℝ} {rs : List ℝ}

theorem Ahead.moved (h : Ahead d d') (e : Option V) : d'.moved e = d.moved e := by
  cases e with
  | none => exact congrArg Except.ok h.centroid
  | some e =>
    rw [ConformalDriftDetector.moved, h.centroid, h.eta]
    rfl

theorem Ahead.hear (h : Ahead d d') (hx : x ≤ x') (centroid : Direction V) :
    Ahead (d.hear x centroid) (d'.hear x' centroid) := by
  have hacc := h.accumulate hx
  refine { hacc with centroid := rfl, steps := ?_ }
  rw [ConformalDriftDetector.hear, ConformalDriftDetector.hear, record_steps, record_steps]
  exact List.rel_append h.steps (.cons hacc.verdict .nil)

theorem Ahead.observeResidual (h : Ahead d d') (hx : x ≤ x') (e : Option V) :
    Ahead (d.observeResidual x e).2 (d'.observeResidual x' e).2 := by
  cases hmoved : d.moved e with
  | error thrown =>
    rw [observeResidual_error _ _ hmoved, observeResidual_error _ _ ((h.moved e).trans hmoved)]
    exact h.accumulate hx
  | ok centroid =>
    rw [observeResidual_ok _ _ hmoved, observeResidual_ok _ _ ((h.moved e).trans hmoved)]
    exact h.hear hx centroid

/-- The run: over the messages, the detector of the larger residuals stays ahead. -/
theorem Ahead.converse {rs rs' : List ℝ} (hrs : List.Forall₂ (· ≤ ·) rs rs')
    (es : List (Option V)) (h : Ahead d d') :
    Ahead (d.converse (rs.zip es)) (d'.converse (rs'.zip es)) := by
  induction hrs generalizing d d' es with
  | nil => exact h
  | cons hx _ ih =>
    cases es with
    | nil => exact h
    | cons e es => exact ih es (h.observeResidual hx e)

/-! ## The latch -/

variable (d)

/-- The alarm is at the first step that alarms. -/
def Latched : Prop := d.state.alarmedAt = d.state.steps.findIdx? (·.alarmed)

variable {d}

theorem Latched.hear (h : d.Latched) (x : ℝ) (centroid : Direction V) :
    (d.hear x centroid).Latched := by
  have hindex : (d.stepTo x centroid).index = d.state.steps.length := rfl
  rw [Latched, ConformalDriftDetector.hear, record_alarmedAt, record_steps, List.findIdx?_append,
    hindex]
  change (if (d.stepTo x centroid).alarmed && d.state.alarmedAt.isNone then _
    else d.state.alarmedAt) = (d.state.steps.findIdx? (·.alarmed)).or _
  rw [← h]
  cases hold : d.state.alarmedAt with
  | some t => simp
  | none =>
    cases hnew : (d.stepTo x centroid).alarmed with
    | false => simp [hnew]
    | true =>
      simp only [Option.isNone_none, Bool.and_self, if_true, Option.none_or]
      simp [hnew]
      rfl

theorem Latched.observeResidual (h : d.Latched) (x : ℝ) (e : Option V) :
    (d.observeResidual x e).2.Latched := by
  cases hmoved : d.moved e with
  | error thrown =>
    rw [observeResidual_error _ _ hmoved]
    exact h
  | ok centroid =>
    rw [observeResidual_ok _ _ hmoved]
    exact h.hear x centroid

theorem Latched.converse (h : d.Latched) (calls : List (ℝ × Option V)) :
    (d.converse calls).Latched := by
  induction calls using List.reverseRecOn with
  | nil => exact h
  | append_singleton calls c ih =>
    rw [converse_concat]
    exact ih.observeResidual c.1 c.2

/-- No call changes an alarm that is there. -/
theorem alarmedAt_observeResidual {t : ℕ} (h : d.state.alarmedAt = some t) (x : ℝ)
    (e : Option V) : (d.observeResidual x e).2.state.alarmedAt = some t := by
  cases hmoved : d.moved e with
  | error thrown =>
    rw [observeResidual_error _ _ hmoved]
    exact h
  | ok centroid =>
    rw [observeResidual_ok _ _ hmoved]
    change (ConformalDriftDetector.record _ _).state.alarmedAt = _
    rw [record_alarmedAt]
    change (if _ && d.state.alarmedAt.isNone then _ else d.state.alarmedAt) = _
    simp [h]

theorem alarmedAt_converse {t : ℕ} (h : d.state.alarmedAt = some t)
    (calls : List (ℝ × Option V)) : (d.converse calls).state.alarmedAt = some t := by
  induction calls using List.reverseRecOn with
  | nil => exact h
  | append_singleton calls c ih =>
    rw [converse_concat]
    exact alarmedAt_observeResidual ih c.1 c.2

theorem Heard.observeResidual (h : Heard d rs q) (x : ℝ) (e : Option V) :
    Heard d (rs ++ [x]) (q.observeResidual x e).2 := by
  have hacc := h.accumulate x
  cases hmoved : q.moved e with
  | error thrown =>
    rw [observeResidual_error _ _ hmoved]
    exact hacc
  | ok centroid =>
    rw [observeResidual_ok _ _ hmoved]
    exact { hacc with }

theorem Heard.converse (h : Heard d [] d) (calls : List (ℝ × Option V)) :
    Heard d (calls.map Prod.fst) (d.converse calls) := by
  induction calls using List.reverseRecOn with
  | nil => exact h
  | append_singleton calls c ih =>
    rw [converse_concat, List.map_append]
    exact ih.observeResidual c.1 c.2

/-- A step alarms exactly where the residuals up to it cross. -/
theorem Heard.alarmed_iff (h : Heard d rs q) {x : ℝ} {e : Option V} {step : DriftStep}
    (hstep : (q.observeResidual x e).1 = .ok step) :
    (step.alarmed = true ↔ d.Crosses (rs ++ [x])) ∧
      (q.observeResidual x e).2.state.steps = q.state.steps ++ [step] := by
  cases hmoved : q.moved e with
  | error thrown =>
    rw [observeResidual_error _ _ hmoved] at hstep
    cases hstep
  | ok centroid =>
    rw [observeResidual_ok _ _ hmoved] at hstep ⊢
    cases hstep
    exact ⟨(h.accumulate x).crosses_iff, record_steps _ _⟩

theorem observeResidual_bare (q : ConformalDriftDetector V) (x : ℝ) :
    ∃ step, (q.observeResidual x none).1 = .ok step :=
  ⟨_, congrArg Prod.fst (q.observeResidual_ok x rfl)⟩

/-- Without embeddings each residual has its step. -/
theorem Heard.bare (h : Heard d [] d) (hs : d.state = {}) (rs : List ℝ) :
    (d.converse (rs.map (·, none))).state.steps.length = rs.length ∧
      ∀ t step, (d.converse (rs.map (·, none))).state.steps[t]? = some step →
        (step.alarmed = true ↔ d.Crosses (rs.take (t + 1))) := by
  induction rs using List.reverseRecOn with
  | nil => simp [ConformalDriftDetector.converse, hs]
  | append_singleton rs x ih =>
    obtain ⟨hlength, halarmed⟩ := ih
    obtain ⟨new, hnew⟩ := (d.converse (rs.map (·, none))).observeResidual_bare x
    have hheard := h.converse (rs.map (·, none))
    obtain ⟨hcrosses, hsteps⟩ := hheard.alarmed_iff hnew
    rw [List.map_append, List.map_singleton, converse_concat, hsteps]
    refine ⟨by simp [hlength], fun t step hstep => ?_⟩
    rcases Nat.lt_or_ge t rs.length with ht | ht
    · rw [List.getElem?_append_left (hlength ▸ ht)] at hstep
      rw [List.take_append_of_le_length ht]
      exact halarmed t step hstep
    · rw [List.getElem?_append_right (hlength ▸ ht), List.getElem?_singleton] at hstep
      split_ifs at hstep with hzero
      cases hstep
      have hlast : (rs ++ [x]).take (t + 1) = rs ++ [x] :=
        List.take_of_length_le (by simp; omega)
      rw [hlast, hcrosses, List.map_map]
      simp [Function.comp_def]

theorem Heard.first (h : Heard d [] d) (hs : d.state = {}) (rs : List ℝ) (t : ℕ) :
    (d.converse (rs.map (·, none))).state.steps.findIdx? (·.alarmed) = some t ↔
      IsLeast {t | t < rs.length ∧ d.Crosses (rs.take (t + 1))} t := by
  obtain ⟨hlength, halarmed⟩ := h.bare hs rs
  have hat : ∀ u (hu : u < (d.converse (rs.map (·, none))).state.steps.length),
      (d.converse (rs.map (·, none))).state.steps[u].alarmed = true ↔
        d.Crosses (rs.take (u + 1)) := fun u hu =>
    halarmed u _ (List.getElem?_eq_getElem hu)
  rw [List.findIdx?_eq_some_iff_getElem]
  constructor
  · rintro ⟨ht, halarm, hbefore⟩
    refine ⟨⟨hlength ▸ ht, (hat t ht).mp halarm⟩, fun u hu => ?_⟩
    by_contra! hlt
    exact hbefore u hlt ((hat u (hlt.trans ht)).mpr hu.2)
  · rintro ⟨⟨ht, hcross⟩, hleast⟩
    refine ⟨hlength ▸ ht, (hat t _).mpr hcross, fun u hlt hu => ?_⟩
    exact absurd (hleast ⟨hlt.trans ht, (hat u _).mp hu⟩) (not_le.mpr hlt)

end ConformalDriftDetector

open ConformalDriftDetector

variable {V : Type*} [NormedAddCommGroup V] [InnerProductSpace ℝ V] {c : V}
  {calibration : List ℝ} {δ ε η : ℝ} {kappa h : Option ℝ} {d : ConformalDriftDetector V}

theorem heard_of_construct (hd : construct c calibration δ ε η kappa h = .ok d) :
    Heard d [] d where
  calibration := rfl
  delta := rfl
  epsilon := rfl
  cusumKappa := rfl
  cusumH := rfl
  logMartingale := by simpa using (of_construct hd).2.2.2.2.2.1
  cusum := (of_construct hd).2.2.2.2.2.2.1

/--
Over the same messages larger residuals alarm no later. The alarm of a conversation is at the first
step where the martingale or the CUSUM statistic of its residuals crosses, and stays there.
-/
theorem alarms_no_later (hd : construct c calibration δ ε η kappa h = .ok d) :
    (∀ (rs rs' : List ℝ) (es : List (Option V)) (t : ℕ), List.Forall₂ (· ≤ ·) rs rs' →
      (d.converse (rs.zip es)).AlarmsAt t →
        ∃ t' ≤ t, (d.converse (rs'.zip es)).AlarmsAt t') ∧
    (∀ (rs : List ℝ) (t : ℕ), (d.converse (rs.map (·, none))).state.alarmedAt = some t ↔
      IsLeast {t | t < rs.length ∧ d.Crosses (rs.take (t + 1))} t) ∧
    (∀ (calls : List (ℝ × Option V)) (x : ℝ) (e : Option V) (step : DriftStep),
      ((d.converse calls).observeResidual x e).1 = .ok step →
        (step.alarmed = true ↔ d.Crosses (calls.map Prod.fst ++ [x])) ∧
        (d.converse (calls ++ [(x, e)])).state.steps =
          (d.converse calls).state.steps ++ [step]) ∧
    (∀ calls : List (ℝ × Option V), (d.converse calls).state.alarmedAt =
      (d.converse calls).state.steps.findIdx? (·.alarmed)) ∧
    ∀ (calls more : List (ℝ × Option V)) (t : ℕ), (d.converse calls).state.alarmedAt = some t →
      (d.converse (calls ++ more)).state.alarmedAt = some t := by
  have hheard := heard_of_construct hd
  have hstate : d.state = {} := (of_construct hd).2.2.2.2.2.2.2
  have hlatched : d.Latched := by
    rw [Latched, hstate]
    rfl
  refine ⟨fun rs rs' es t hrs halarm => ?_, fun rs t => ?_, fun calls x e step hstep => ?_,
    hlatched.converse, fun calls more t halarm => ?_⟩
  · exact ⟨t, le_rfl, ((Ahead.refl d).converse hrs es).alarmsAt halarm⟩
  · rw [hlatched.converse]
    exact hheard.first hstate rs t
  · rw [converse_concat]
    exact (hheard.converse calls).alarmed_iff hstep
  · rw [converse, List.foldl_append]
    exact alarmedAt_converse halarm more

/-- CUSUM alarms at a residual of 1, so at the latest there when the residual is 2. -/
theorem alarms_no_later_two : ∃ d,
    construct (1 : ℝ) [0] (1 / 2) (1 / 2) 0.15 (some 0) (some (1 / 2)) = .ok d ∧
      (d.converse [(1, none)]).state.alarmedAt = some 0 ∧
      ∃ t' ≤ 0, (d.converse [(2, none)]).AlarmsAt t' := by
  obtain ⟨d, hd⟩ := construct_isOk (η := 0.15) (one_ne_zero : (1 : ℝ) ≠ 0)
    (List.cons_ne_nil (0 : ℝ) []) (δ := 1 / 2) (ε := 1 / 2) ⟨by norm_num, by norm_num⟩
    ⟨by norm_num, by norm_num⟩ (some 0) (some (1 / 2))
  obtain ⟨hmono, hfirst, -, hlatch, -⟩ := alarms_no_later hd
  obtain ⟨-, -, -, hkappa, hh, -⟩ := of_construct hd
  have hcross : d.Crosses [1] := by
    refine .inr ⟨1 / 2, hh, ?_⟩
    rw [hkappa]
    norm_num [cusumStep]
  have halarm := (hfirst [1] 0).mpr ⟨⟨Nat.one_pos, hcross⟩, fun _ _ => Nat.zero_le _⟩
  refine ⟨d, hd, halarm, hmono [1] [2] [none] 0 (.cons one_le_two .nil) ?_⟩
  obtain ⟨ht, halarmed, -⟩ := List.findIdx?_eq_some_iff_getElem.mp ((hlatch _).symm.trans halarm)
  exact ⟨_, List.getElem?_eq_getElem ht, halarmed⟩

end AssureCode.Drift
