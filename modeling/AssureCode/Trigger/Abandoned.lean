import AssureCode.Trigger.Attempts

/-! # Contracts that are given up

The counter of attempts is never put back. What a declined attempt has written stays there when the
reason for it goes away, and so do the attempts from before the contract became scorable.
-/

namespace AssureCode.Trigger

open Js Oracle Machine

variable {deps : TriggerDeps} {s t : State} {a : Action} {as : List Action} {r : Row}

/-- A scorable contract is selected, or enough attempts were made since it became scorable. -/
def State.Kept (s : State) : Prop :=
  s.scorable = true → s.selected = true ∨ scoreMaxAttempts ≤ s.made

/-- No row is without a score before there are audit results. -/
def State.Recorded (s : State) : Prop := s.unscored = true → s.audited = true

/--
An assignment finds the counter below the cap. While the contract is scorable, an attempt takes the
counter to the cap, or a declined one sets it there, only when enough attempts were made.
-/
def Keeps (s : State) : Action → Prop
  | .assign freelancerId =>
    s.freelancerId = [] → freelancerId ≠ [] → s.unscored = true →
      s.scoreAttempts < scoreMaxAttempts
  | .begin counted =>
    counted = true → s.scorable = true → scoreMaxAttempts ≤ s.scoreAttempts + 1 →
      scoreMaxAttempts ≤ s.made + 1
  | .finish taken => taken = true → s.scorable = true → scoreMaxAttempts ≤ s.made
  | _ => True

/-! ## What an action does -/

theorem unscored_iff : s.unscored = true ↔ ∃ r, s.row = some r ∧ r.state.trustScore = none := by
  rw [State.unscored]
  cases s.row <;> simp

/-- All but the audit, the freelancer, the score and the counter may differ. -/
structure Same (s t : State) : Prop where
  audited : t.audited = s.audited
  freelancerId : t.freelancerId = s.freelancerId
  unscored : t.unscored = s.unscored
  scoreAttempts : t.scoreAttempts = s.scoreAttempts

inductive Effect (s : State) : Action → State → Prop
  | same {a : Action} {t : State} : Keeps s a → Same s t → Effect s a t
  | audit : Effect s .audit { s with audited := true }
  | assign (freelancerId : Text) : Effect s (.assign freelancerId) { s with freelancerId }
  | reject : Effect s .reject { s with freelancerId := [] }
  | record {signals : AuditSignals} {t : State} : s.audited = true → s.unscored = false →
      t.audited = true → t.scoreAttempts = 0 → Effect s (.recordAudit signals) t
  | count {t : State} : t.audited = s.audited → t.freelancerId = s.freelancerId →
      t.unscored = s.unscored →
      (s.unscored = true → t.scoreAttempts = s.scoreAttempts + 1) → Effect s (.begin true) t
  | cap {t : State} : t.audited = s.audited → t.freelancerId = s.freelancerId →
      t.unscored = s.unscored →
      (s.unscored = true → t.scoreAttempts = scoreMaxAttempts) → Effect s (.finish true) t
  | score {event : ScoreEvent} {t : State} : t.audited = s.audited → t.unscored = false →
      Effect s (.recordScore event) t

theorem scoredRow_cases (row : Option Row) (e : ScoreEvent) :
    scoredRow row e = row ∨ ∃ r, scoredRow row e = some r ∧ r.state.trustScore ≠ none := by
  have hback : (row.map (·.state)).map (fun state => (⟨state, (row.map (·.scoreAttempts)).getD 0⟩ :
      Row)) = row := by
    cases row <;> rfl
  rw [scoredRow, Oracle.recordScore]
  cases scoreColumns e.trustScore e.criticalVulns with
  | none => exact .inl hback
  | some columns =>
    dsimp only
    split
    · exact .inr ⟨_, rfl, Option.some_ne_none _⟩
    · exact .inl hback

theorem unscored_setAttempts (n : ℕ) : (s.setAttempts n).unscored = s.unscored := by
  rw [State.unscored, State.unscored, State.setAttempts]
  cases s.row <;> rfl

theorem scoreAttempts_setAttempts (h : s.unscored = true) (n : ℕ) :
    (s.setAttempts n).scoreAttempts = n := by
  obtain ⟨r, hr, -⟩ := unscored_iff.mp h
  rw [State.scoreAttempts, State.setAttempts, hr]
  rfl

/-- A first audit makes a row without attempts; a later one leaves score and attempts alone. -/
theorem effect_recordAudit (haudited : s.audited = true) (signals : AuditSignals) :
    Effect s (.recordAudit signals) { s with
      row := some ⟨Oracle.recordAudit (s.row.map (·.state)) signals, s.scoreAttempts⟩
      due := s.due + 1 } := by
  cases hrow : s.row with
  | none =>
    refine .record haudited ?_ haudited ?_
    · rw [State.unscored, hrow]
      rfl
    · rw [State.scoreAttempts, State.scoreAttempts, hrow]
      rfl
  | some r =>
    refine .same trivial ⟨rfl, rfl, ?_, rfl⟩
    rw [State.unscored, State.unscored, hrow]
    rfl

theorem effect_recordScore (event : ScoreEvent) :
    Effect s (.recordScore event) { s with row := scoredRow s.row event } := by
  rcases scoredRow_cases s.row event with hrow | ⟨r, hrow, hscore⟩
  · exact .same trivial ⟨rfl, rfl, by rw [State.unscored, hrow, State.unscored],
      by rw [State.scoreAttempts, hrow, State.scoreAttempts]⟩
  · refine .score rfl ?_
    simpa [State.unscored, hrow, Option.isSome_iff_ne_none] using hscore

theorem effect_of_act (h : act deps s a = some t) : Effect s a t := by
  cases a with
  | lock | view =>
    cases h
    exact .same trivial ⟨rfl, rfl, rfl, rfl⟩
  | audit =>
    cases h
    exact .audit
  | assign freelancerId =>
    cases h
    exact .assign freelancerId
  | reject =>
    cases h
    exact .reject
  | recordAudit signals =>
    rw [act] at h
    split_ifs at h with haudited
    cases h
    exact effect_recordAudit haudited signals
  | sweep =>
    rw [act] at h
    split_ifs at h
    cases h
    exact .same trivial ⟨rfl, rfl, rfl, rfl⟩
  | begin counted =>
    by_cases hdue : s.due = 0
    · rw [act, if_pos hdue] at h
      cases h
    · rw [act, if_neg hdue] at h
      cases h
      cases counted with
      | false => exact .same (fun h => absurd h Bool.false_ne_true) ⟨rfl, rfl, rfl, rfl⟩
      | true =>
        exact .count rfl rfl (unscored_setAttempts _) fun h => scoreAttempts_setAttempts h _
  | ask net readable scorer scores body =>
    by_cases hasking : s.asking = 0
    · rw [act, if_pos hasking] at h
      cases h
    · rw [act, if_neg hasking] at h
      dsimp only at h
      split at h <;>
      · cases h
        exact .same trivial ⟨rfl, rfl, rfl, rfl⟩
  | giveUp =>
    rw [act] at h
    split_ifs at h
    cases h
    exact .same trivial ⟨rfl, rfl, rfl, rfl⟩
  | finish taken =>
    by_cases hdeclined : s.declined = 0
    · rw [act, if_pos hdeclined] at h
      cases h
    · rw [act, if_neg hdeclined] at h
      cases h
      cases taken with
      | false => exact .same (fun h => absurd h Bool.false_ne_true) ⟨rfl, rfl, rfl, rfl⟩
      | true =>
        exact .cap rfl rfl (unscored_setAttempts _) fun h => scoreAttempts_setAttempts h _
  | recordScore event =>
    rw [act] at h
    split_ifs at h
    cases h
    exact effect_recordScore event

/-! ## Steps and runs -/

theorem recorded_step (hs : s.Recorded) (h : step deps s a = some t) : t.Recorded := by
  obtain ⟨u, hu, rfl⟩ := Option.map_eq_some_iff.mp h
  intro hunscored
  change u.unscored = true at hunscored
  change u.audited = true
  cases effect_of_act hu with
  | same _ h => exact h.audited.trans (hs (h.unscored ▸ hunscored))
  | audit => rfl
  | assign | reject => exact hs hunscored
  | record _ _ haudited _ => exact haudited
  | count haudited _ hsame _ | cap haudited _ hsame _ =>
    exact haudited.trans (hs (hsame ▸ hunscored))
  | score _ hscored =>
    rw [hscored] at hunscored
    cases hunscored

theorem scorable_iff : s.scorable = true ↔
    s.audited = true ∧ s.unscored = true ∧ s.freelancerId ≠ [] := by
  simp [State.scorable, and_assoc]

theorem selected_iff : s.selected = true ↔
    s.unscored = true ∧ s.scoreAttempts < scoreMaxAttempts := by
  simp [State.selected]

/-- What a step leaves is kept, told without the attempts that the step counts. -/
theorem kept_step_iff {u : State} (hu : act deps s a = some u) (h : step deps s a = some t) :
    t.Kept ↔ (u.scorable = true → u.selected = true ∨
      s.scorable = true ∧ scoreMaxAttempts ≤ s.made + a.begins.toNat) := by
  rw [step, hu] at h
  cases h
  rw [State.Kept]
  change (u.scorable = true → u.selected = true ∨ _) ↔ _
  refine imp_congr_right fun ht => or_congr_right ?_
  cases hs : s.scorable <;> simp [ht, scoreMaxAttempts]

theorem kept_step (hs : s.Recorded) (hk : s.Kept) (h : step deps s a = some t) :
    Keeps s a ↔ t.Kept := by
  obtain ⟨u, hu, -⟩ := Option.map_eq_some_iff.mp h
  rw [kept_step_iff hu h, selected_iff, scorable_iff, scorable_iff]
  have hstays : s.audited = true ∧ s.unscored = true ∧ s.freelancerId ≠ [] →
      (s.unscored = true ∧ s.scoreAttempts < scoreMaxAttempts) ∨
        (s.audited = true ∧ s.unscored = true ∧ s.freelancerId ≠ []) ∧
          scoreMaxAttempts ≤ s.made + a.begins.toNat := fun h =>
    (hk (scorable_iff.mpr h)).imp selected_iff.mp fun hmade => ⟨h, by omega⟩
  cases effect_of_act hu with
  | same hkeeps hsame =>
    rw [hsame.audited, hsame.unscored, hsame.freelancerId, hsame.scoreAttempts]
    exact iff_of_true hkeeps hstays
  | audit => exact iff_of_true trivial fun ⟨_, hu, hf⟩ => hstays ⟨hs hu, hu, hf⟩
  | assign freelancerId =>
    constructor
    · rintro hkeeps ⟨ha, hu, hf⟩
      by_cases hnone : s.freelancerId = []
      · exact .inl ⟨hu, hkeeps hnone hf hu⟩
      · exact hstays ⟨ha, hu, hnone⟩
    · rintro hkept hnone hf hu
      rcases hkept ⟨hs hu, hu, hf⟩ with ⟨-, h⟩ | ⟨⟨-, -, hsome⟩, -⟩
      · exact h
      · exact absurd hnone hsome
  | reject => exact iff_of_true trivial fun ⟨_, _, hf⟩ => absurd rfl hf
  | record _ _ _ hattempts =>
    refine iff_of_true trivial fun ⟨_, hu, _⟩ => .inl ⟨hu, ?_⟩
    rw [hattempts]
    decide
  | count haudited hfreelancer hunscored hattempts =>
    rw [haudited, hfreelancer, hunscored]
    constructor
    · rintro hkeeps ⟨ha, hu, hf⟩
      rw [hattempts hu]
      by_cases hmax : scoreMaxAttempts ≤ s.scoreAttempts + 1
      · exact .inr ⟨⟨ha, hu, hf⟩, hkeeps rfl (scorable_iff.mpr ⟨ha, hu, hf⟩) hmax⟩
      · exact .inl ⟨hu, Nat.lt_of_not_le hmax⟩
    · rintro hkept - hscorable hmax
      rcases hkept (scorable_iff.mp hscorable) with ⟨hu, hlt⟩ | ⟨-, hmade⟩
      · rw [hattempts hu] at hlt
        exact absurd hlt (Nat.not_lt_of_le hmax)
      · exact hmade
  | cap haudited hfreelancer hunscored hattempts =>
    rw [haudited, hfreelancer, hunscored]
    constructor
    · rintro hkeeps hscorable
      exact .inr ⟨hscorable, hkeeps rfl (scorable_iff.mpr hscorable)⟩
    · rintro hkept - hscorable
      rcases hkept (scorable_iff.mp hscorable) with ⟨hu, hlt⟩ | ⟨-, hmade⟩
      · rw [hattempts hu] at hlt
        exact absurd hlt (Nat.lt_irrefl _)
      · exact hmade
  | score _ hscored =>
    refine iff_of_true trivial fun ⟨_, hu, _⟩ => ?_
    rw [hscored] at hu
    cases hu

/--
In a run, a contract with a recorded audit, an assigned freelancer and no trust score is always
selected unless enough attempts were made since it became so, if and only if each step keeps that.
-/
theorem kept_iff (h : (system deps).Run Any {} as s) :
    (∀ u ∈ (system deps).visited {} as, u.Kept) ↔ (system deps).Run Keeps {} as s :=
  h.forall_visited_iff (I := State.Recorded) (fun _ _ _ hs hst => recorded_step hs hst)
    (fun _ _ _ hs hk hst => kept_step hs hk hst) (fun h => by cases h) (fun h => by cases h)

def sampleSignals : AuditSignals := ⟨true, true, true⟩

/-- An assigned contract is audited; the scorer is out of reach until the attempt gives up. -/
def scorerDown : List Action :=
  [.lock, .assign (units "f-1"), .audit, .recordAudit sampleSignals, .begin true,
    .ask .delivered true .unreachable (.ok (.nan, .nan)) [], .giveUp, .sweep]

theorem kept_scorerDown :
    (∀ u ∈ (system { enabled := true }).visited {} scorerDown, u.Kept) ↔
      ∃ s, (system { enabled := true }).exec {} scorerDown = some s ∧
        (system { enabled := true }).Run Keeps {} scorerDown s := by
  have h : ((system { enabled := true }).exec {} scorerDown).isSome := by decide +kernel
  obtain ⟨s, hs⟩ := Option.isSome_iff_exists.mp h
  simpa [hs] using kept_iff (run_of_exec hs)

/-- The audit is recorded before anybody is assigned, and the gateway declines with a 409. -/
def assignedLater : List Action :=
  [.lock, .audit, .recordAudit sampleSignals, .begin true,
    .ask .delivered true .unreachable (.ok (.nan, .nan)) [], .finish true, .assign (units "f-1")]

theorem assignedLater_abandoned :
    ¬ ∀ as s, (system { enabled := true }).Run Any {} as s →
      ∀ u ∈ (system { enabled := true }).visited {} as, u.Kept := by
  intro hall
  have h : ((system { enabled := true }).exec {} assignedLater).any
      fun s => s.scorable && !s.selected && s.made = 0 := by decide +kernel
  rw [Option.any_eq_true] at h
  obtain ⟨s, hs, hlost⟩ := h
  have hrun := run_of_exec hs
  simp only [Bool.and_eq_true, Bool.not_eq_true', decide_eq_true_eq] at hlost
  obtain ⟨⟨hscorable, hselected⟩, hmade⟩ := hlost
  rcases hall _ s hrun s hrun.mem_visited hscorable with hkept | henough
  · rw [hselected] at hkept
    cases hkept
  · rw [hmade] at henough
    cases henough

end AssureCode.Trigger
