import AssureCode.Drift.Run
import AssureCode.Scope.Recorded

/-! # Alarms that stay

The detector has no memory of its own: each assessment feeds it the whole record again. As long as
no row is on its way in, the record that is read later is the one that was read before with more
residuals behind, so that an alarm is found again, at the same message and for the same reason.
-/

namespace AssureCode.Scope

open Js Program Python Machine
open Concurrent (OnTrail)
open Drift (ConformalDriftDetector Thrown)

/-- The detector that every assessment starts with. -/
noncomputable def detector (settings : Settings) : Except Thrown (ConformalDriftDetector ℝ) :=
  ConformalDriftDetector.construct (1 : ℝ) (settings.calibration.map (↑)) settings.driftDelta
    settings.driftEpsilon 0.15 none none

/-- `assess_drift`: a new detector observes the residuals that were read. -/
noncomputable def assess (settings : Settings) (residuals : List ℚ) :
    Except Thrown (ConformalDriftDetector ℝ) := do
  let detector ← detector settings
  match detector.observeAll (residuals.map (↑)) with
  | (.ok (), detector) => return detector
  | (.error e, _) => throw e

/-! ## The detector goes on -/

section Detector

variable {d : ConformalDriftDetector ℝ} {xs ys : List ℝ}

theorem steps_after_append :
    (d.after xs).state.steps <+: (d.after (xs ++ ys)).state.steps := by
  induction ys using List.reverseRecOn with
  | nil =>
    rw [List.append_nil]
  | append_singleton ys y ih =>
    rw [← List.append_assoc, ConformalDriftDetector.after_concat, ConformalDriftDetector.next,
      ConformalDriftDetector.record_steps]
    exact ih.trans (List.prefix_append ..)

/-- An alarm is the first one, and stays. -/
theorem alarm_after_append {k : ℕ} (h : (d.after xs).state.alarmedAt = some k) :
    (d.after (xs ++ ys)).state.alarmedAt = some k ∧
      (d.after (xs ++ ys)).state.alarmReason = (d.after xs).state.alarmReason := by
  induction ys using List.reverseRecOn with
  | nil =>
    rw [List.append_nil]
    exact ⟨h, rfl⟩
  | append_singleton ys y ih =>
    obtain ⟨halarmed, hreason⟩ := ih
    rw [← List.append_assoc, ConformalDriftDetector.after_concat,
      ConformalDriftDetector.next_alarmedAt, ConformalDriftDetector.next_alarmReason, halarmed]
    simpa using hreason

end Detector

variable {settings : Settings}

theorem assess_eq {d₀ : ConformalDriftDetector ℝ} (hd : detector settings = .ok d₀)
    (rs : List ℚ) : assess settings rs = .ok (d₀.after (rs.map (↑))) := by
  rw [assess, hd]
  change (match d₀.observeAll (rs.map (↑)) with
    | (.ok (), detector) => Except.ok detector
    | (.error e, _) => .error e) = _
  rw [ConformalDriftDetector.observeAll_eq]

theorem exists_detector {rs : List ℚ} {d : ConformalDriftDetector ℝ}
    (h : assess settings rs = .ok d) : ∃ d₀, detector settings = .ok d₀ := by
  cases hd : detector settings with
  | ok d₀ => exact ⟨d₀, rfl⟩
  | error e =>
    rw [assess, hd] at h
    cases h

/-! ## Numbers of rows -/

theorem byCheckId_append {xs ys : List Check} (hnodup : ((xs ++ ys).map (·.checkId)).Nodup)
    (h : ∀ x ∈ xs, ∀ y ∈ ys, x.checkId < y.checkId) :
    Store.byCheckId (xs ++ ys) = Store.byCheckId xs ++ Store.byCheckId ys := by
  have hsorted : ∀ zs, (Store.byCheckId zs).Pairwise fun a b => a.checkId ≤ b.checkId := by
    intro zs
    have hpairwise : (Store.byCheckId zs).Pairwise fun a b => decide (a.checkId ≤ b.checkId) :=
      List.pairwise_mergeSort (fun a b c => by simpa using Nat.le_trans)
        (fun a b => by simpa using Nat.le_total ..) zs
    simpa only [decide_eq_true_eq] using hpairwise
  have hperm : ∀ zs : List Check, (Store.byCheckId zs).Perm zs := fun zs => List.mergeSort_perm ..
  have happended : (Store.byCheckId xs ++ Store.byCheckId ys).Pairwise
      fun a b => a.checkId ≤ b.checkId := by
    rw [List.pairwise_append]
    refine ⟨hsorted xs, hsorted ys, fun a ha b hb => ?_⟩
    exact (h a ((hperm xs).subset ha) b ((hperm ys).subset hb)).le
  refine List.Perm.eq_of_pairwise ?_ (hsorted _) happended
    ((hperm _).trans ((hperm xs).append (hperm ys)).symm)
  intro a b ha hb hab hba
  apply List.inj_on_of_nodup_map hnodup ((hperm _).subset ha) _ (le_antisymm hab hba)
  exact ((hperm xs).append (hperm ys)).subset hb

theorem checks_serve {s s' : Store} {c : Query} {trail : Trail} {x : Choice} {r : c.Answer}
    (hr : serve settings s trail c x = some (r, s')) :
    (s'.checks = s.checks ∧ s'.nextCheckId = s.nextCheckId ∧
        ∀ checkId, (⟨c, r⟩ : Event) ≠ ⟨.nextCheckId, checkId⟩) ∨
      (s'.checks = s.checks ∧ s'.nextCheckId = s.nextCheckId + 1 ∧
        (⟨c, r⟩ : Event) = ⟨.nextCheckId, s.nextCheckId⟩) ∨
      ∃ row decision, c = .insertCheck row.checkId decision ∧
        row.contractId = decision.contractId ∧ s'.checks = s.checks ++ [row] ∧
        s'.nextCheckId = s.nextCheckId := by
  cases c with
  | nextCheckId =>
    obtain ⟨rfl, rfl⟩ := Prod.mk.inj (Option.some.inj hr)
    exact .inr (.inl ⟨rfl, rfl, rfl⟩)
  | insertCheck checkId decision =>
    rw [serve] at hr
    split at hr
    · obtain ⟨rfl, rfl⟩ := Prod.mk.inj (Option.some.inj hr)
      exact .inr (.inr ⟨_, decision, rfl, rfl, rfl, rfl⟩)
    · obtain ⟨rfl, rfl⟩ := Prod.mk.inj (Option.some.inj hr)
      exact .inr (.inr ⟨_, decision, rfl, rfl, rfl, rfl⟩)
    · obtain ⟨rfl, rfl⟩ := Prod.mk.inj (Option.some.inj hr)
      exact .inl ⟨rfl, rfl, by simp⟩
  | receive id =>
    obtain ⟨_, -, heq⟩ := Option.map_eq_some_iff.mp hr
    obtain ⟨-, rfl⟩ := Prod.mk.inj heq
    exact .inl ⟨rfl, rfl, by simp⟩
  | publish =>
    rw [serve] at hr
    split at hr <;>
    · obtain ⟨-, rfl⟩ := Prod.mk.inj (Option.some.inj hr)
      exact .inl ⟨rfl, rfl, by simp⟩
  | accept id =>
    rw [serve] at hr
    split at hr
    · obtain ⟨-, rfl⟩ := Prod.mk.inj (Option.some.inj hr)
      exact .inl ⟨rfl, rfl, by simp⟩
    · cases hr
  | search =>
    rw [serve] at hr
    split at hr
    · split at hr
      · obtain ⟨-, rfl⟩ := Prod.mk.inj (Option.some.inj hr)
        exact .inl ⟨rfl, rfl, by simp⟩
      · cases hr
    · obtain ⟨-, rfl⟩ := Prod.mk.inj (Option.some.inj hr)
      exact .inl ⟨rfl, rfl, by simp⟩
  | _ =>
    obtain ⟨-, rfl⟩ := Prod.mk.inj (Option.some.inj hr)
    exact .inl ⟨rfl, rfl, by simp⟩

/-! ## Runs -/

section Runs

variable {s₀ s t u : System} {as bs : List Action} {a : Action} {contractId : Text}

/-- The flow has taken the number, and its row is not there yet. -/
def Pending (s : System) (i checkId : ℕ) : Prop :=
  ∃ f, s.flows i = some f ∧ f.trail.getLast? = some ⟨.nextCheckId, checkId⟩

structure Numbered (s : System) : Prop where
  nodup : (s.store.checks.map (·.checkId)).Nodup
  below : ∀ row ∈ s.store.checks, row.checkId < s.store.nextCheckId
  pending : ∀ i checkId, Pending s i checkId →
    checkId < s.store.nextCheckId ∧ ∀ row ∈ s.store.checks, row.checkId ≠ checkId

theorem pending_cases {i checkId : ℕ} (h : Concurrent.Moves (service settings) s a t)
    (ht : Pending t i checkId) : Pending s i checkId ∨
      ∃ trail next choice, s.flows i = some ⟨trail, .call .nextCheckId next⟩ ∧
        serve settings s.store trail .nextCheckId choice = some (checkId, t.store) := by
  obtain ⟨f, hf, hlast⟩ := ht
  rcases Concurrent.trail_cases h hf with ⟨f', hf', heq⟩ | ⟨-, request, hflow⟩ |
    ⟨trail, c, next, choice, r, hflow, hr, heq⟩
  · exact .inl ⟨f', hf', heq ▸ hlast⟩
  · obtain rfl := Option.some.inj hflow
    cases request <;> cases hlast
  · rw [heq, List.getLast?_concat] at hlast
    cases Option.some.inj hlast
    exact .inr ⟨trail, next, choice, hflow, hr⟩

/-- Rows and numbers are as they were, or a number goes on, or a row is put behind the others. -/
theorem checks_moves (h : Concurrent.Moves (service settings) s a t) :
    (t.store.checks = s.store.checks ∧ s.store.nextCheckId ≤ t.store.nextCheckId) ∨
      ∃ i trail row decision next,
        s.flows i = some ⟨trail, .call (.insertCheck row.checkId decision) next⟩ ∧
        row.contractId = decision.contractId ∧ t.store.checks = s.store.checks ++ [row] ∧
        t.store.nextCheckId = s.store.nextCheckId ∧ ∀ checkId, ¬ Pending t i checkId := by
  cases h with
  | start | fail => exact .inl ⟨rfl, le_rfl⟩
  | @call i choice trail c next r store hflow hr =>
    rcases checks_serve (show serve settings _ trail _ _ = _ from hr) with
      ⟨hchecks, hnext, -⟩ | ⟨hchecks, hnext, -⟩ | ⟨row, decision, rfl, hcontract, hchecks, hnext⟩
    · exact .inl ⟨hchecks, hnext.ge⟩
    · exact .inl ⟨hchecks, hnext.ge.trans' (Nat.le_succ _)⟩
    · refine .inr ⟨i, trail, row, decision, next, hflow, hcontract, hchecks, hnext, ?_⟩
      rintro checkId ⟨f, hf, hlast⟩
      obtain rfl := Option.some.inj (Concurrent.set_self.symm.trans hf)
      rw [List.getLast?_concat] at hlast
      cases Option.some.inj hlast
  | pass hstore =>
    change pass _ _ = _ at hstore
    rw [pass] at hstore
    split at hstore
    · cases hstore
    · obtain rfl := Option.some.inj hstore
      exact .inl ⟨rfl, le_rfl⟩

theorem numbered_moves (hs : Numbered s) (hexclusive : Concurrent.Exclusive token Spent s)
    (hgood : Concurrent.AllGood (Follows settings) Told s)
    (h : Concurrent.Moves (service settings) s a t) : Numbered t := by
  rcases checks_moves h with ⟨hchecks, hnext⟩ |
    ⟨i, trail, row, decision, next, hflow, -, hchecks, hnext, hgone⟩
  · refine ⟨hchecks ▸ hs.nodup, ?_, ?_⟩
    · exact fun row hrow => Nat.lt_of_lt_of_le (hs.below row (hchecks ▸ hrow)) hnext
    · intro j checkId hpending
      rcases pending_cases h hpending with hold | ⟨_, _, _, _, hr⟩
      · obtain ⟨hlt, hne⟩ := hs.pending j checkId hold
        exact ⟨Nat.lt_of_lt_of_le hlt hnext, hchecks ▸ hne⟩
      · obtain ⟨hid, hstore⟩ := Prod.mk.inj (Option.some.inj hr)
        obtain rfl : s.store.nextCheckId = checkId := hid
        rw [← hstore]
        exact ⟨Nat.lt_succ_self _, fun row hrow => (hs.below row hrow).ne⟩
  · have hlast : trail.getLast? = some ⟨.nextCheckId, row.checkId⟩ := hgood.admitted hflow
    obtain ⟨hlt, hne⟩ := hs.pending i row.checkId ⟨_, hflow, hlast⟩
    refine ⟨?_, ?_, ?_⟩
    · rw [hchecks, List.map_append, List.map_singleton, List.nodup_append]
      refine ⟨hs.nodup, List.nodup_singleton _, ?_⟩
      simpa using hne
    · rw [hchecks, hnext, List.forall_mem_append, List.forall_mem_singleton]
      exact ⟨hs.below, hlt⟩
    · intro j checkId hpending
      rcases pending_cases h hpending with ⟨f, hf, hlast'⟩ | ⟨_, _, _, _, hr⟩
      · rw [hchecks, hnext, List.forall_mem_append, List.forall_mem_singleton]
        obtain ⟨hlt', hne'⟩ := hs.pending j checkId ⟨f, hf, hlast'⟩
        refine ⟨hlt', hne', ?_⟩
        rintro rfl
        obtain rfl := hexclusive.once j f hf i _ hflow _ (List.mem_of_getLast? hlast') _
          (List.mem_of_getLast? hlast) (.drawn row.checkId) rfl rfl
        exact hgone row.checkId hpending
      · obtain ⟨-, hstore⟩ := Prod.mk.inj (Option.some.inj hr)
        rw [← hstore] at hnext
        exact absurd hnext (Nat.succ_ne_self _)

/-- No row of the contract is on its way in. -/
def Quiet (s : System) (contractId : Text) : Prop :=
  ∀ i f checkId decision, s.flows i = some f → f.next = some (.insertCheck checkId decision) →
    decision.contractId ≠ contractId

/-- Since then the contract's rows have come with higher numbers only. -/
structure Extends (s : System) (contractId : Text) (u : System) : Prop where
  checks : ∃ new, u.store.checks = s.store.checks ++ new ∧
    ∀ row ∈ new, row.contractId = contractId → s.store.nextCheckId ≤ row.checkId
  next : s.store.nextCheckId ≤ u.store.nextCheckId
  inserting : ∀ i f checkId decision, u.flows i = some f →
    f.next = some (.insertCheck checkId decision) → decision.contractId = contractId →
    s.store.nextCheckId ≤ checkId

theorem extends_refl (h : Quiet s contractId) : Extends s contractId s where
  checks := ⟨[], (List.append_nil _).symm, List.forall_mem_nil _⟩
  next := le_rfl
  inserting i f checkId decision hf hnext hcontract :=
    absurd hcontract (h i f checkId decision hf hnext)

/-- A flow that is about to insert a row has taken its number in the last step or before. -/
theorem inserting_cases {i checkId : ℕ} {decision : ScopeDecisionRecord}
    {f : Flow Query Query.Answer Reply} (hgood : Concurrent.AllGood (Follows settings) Told t)
    (h : Concurrent.Moves (service settings) s a t) (hf : t.flows i = some f)
    (hnext : f.next = some (.insertCheck checkId decision)) :
    s.flows i = some f ∨ checkId = s.store.nextCheckId := by
  have hlast : f.trail.getLast? = some ⟨.nextCheckId, checkId⟩ := by
    have hf' := hgood i f hf
    rw [Concurrent.Good] at hf'
    rw [Flow.next] at hnext
    split at hnext
    · next hrest =>
      cases hnext
      rw [hrest] at hf'
      exact hf'.1
    · cases hnext
  cases h with
  | @start _ request _ hnone hflow =>
    rcases Concurrent.set_cases hf with ⟨rfl, rfl⟩ | ⟨-, hf⟩
    · obtain rfl := Option.some.inj hflow
      cases request <;> cases hlast
    · exact .inl hf
  | @call _ _ trail _ _ _ _ hflow hr =>
    rcases Concurrent.set_cases hf with ⟨rfl, rfl⟩ | ⟨-, hf⟩
    · rw [List.getLast?_concat] at hlast
      cases Option.some.inj hlast
      change some (s.store.nextCheckId, _) = _ at hr
      exact .inr (Prod.mk.inj (Option.some.inj hr)).1.symm
    · exact .inl hf
  | fail hflow =>
    rcases Concurrent.set_cases hf with ⟨rfl, rfl⟩ | ⟨-, hf⟩
    · cases hnext
    · exact .inl hf
  | pass => exact .inl hf

theorem extends_moves (hu : Extends s contractId u)
    (hgood : Concurrent.AllGood (Follows settings) Told t)
    (h : Concurrent.Moves (service settings) u a t) : Extends s contractId t := by
  obtain ⟨new, hnew, hids⟩ := hu.checks
  constructor
  · rcases checks_moves h with ⟨hchecks, -⟩ |
      ⟨i, trail, row, decision, next, hflow, hcontract, hchecks, -, -⟩
    · exact ⟨new, hchecks.trans hnew, hids⟩
    · refine ⟨new ++ [row], by rw [hchecks, hnew, List.append_assoc], ?_⟩
      rw [List.forall_mem_append, List.forall_mem_singleton]
      refine ⟨hids, fun hrow => ?_⟩
      exact hu.inserting i _ row.checkId decision hflow rfl (hcontract.symm.trans hrow)
  · exact hu.next.trans (grows_moves h).nextCheckId
  · intro i f checkId decision hf hnext hcontract
    rcases inserting_cases hgood h hf hnext with hold | rfl
    · exact hu.inserting i f checkId decision hold hnext hcontract
    · exact hu.next

theorem residuals_extends (hu : Extends s contractId u) (hs : Numbered s) (hnumbered : Numbered u) :
    s.store.residuals contractId <+: u.store.residuals contractId := by
  obtain ⟨new, hnew, hids⟩ := hu.checks
  have hof : u.store.checksOf contractId = s.store.checksOf contractId ++
      new.filter (·.contractId = contractId) := by
    rw [Store.checksOf, hnew, List.filter_append]
    rfl
  have hnodup : ((u.store.checksOf contractId).map (·.checkId)).Nodup :=
    hnumbered.nodup.sublist (List.filter_sublist.map _)
  rw [hof] at hnodup
  rw [Store.residuals, Store.residuals, hof, byCheckId_append hnodup, List.map_append]
  · exact List.prefix_append ..
  · intro x hx y hy
    obtain ⟨hy, hcontract⟩ := List.mem_filter.mp hy
    exact Nat.lt_of_lt_of_le (hs.below x (List.mem_filter.mp hx).1)
      (hids y hy (of_decide_eq_true hcontract))

theorem numbered_of_run (hs : (system settings).init s₀)
    (h : (system settings).Run Any s₀ as s) :
    Numbered s ∧ Concurrent.AllGood (Follows settings) Told s := by
  have hnumbered : Numbered s₀ := by
    refine ⟨by simp [hs.1.2.1], by simp [hs.1.2.1], ?_⟩
    rintro i checkId ⟨f, hf, -⟩
    rw [hs.2 i] at hf
    cases hf
  have hexclusive := Concurrent.exclusive_of_run handsOut hs (.nil s₀) s₀ mem_visited_self
  obtain ⟨⟨hs', -⟩, hgood⟩ := Concurrent.forall_visited_of_run
    (I := fun s => Numbered s ∧ Concurrent.Exclusive token Spent s) hs h
    (fun _ _ _ => good_start)
    (fun _ _ _ hs hgood hmoves => ⟨numbered_moves hs.1 hs.2 hgood hmoves,
      Concurrent.exclusive_moves handsOut hs.2 hmoves⟩)
    ⟨hnumbered, hexclusive⟩ s h.mem_visited
  exact ⟨hs', hgood⟩

/--
When no row of a contract is on its way in, whatever is read of its record later begins with what
is read now: an assessment keeps its steps, and its alarm with the message and the reason.
-/
theorem alarm_stays (hs : (system settings).init s₀) (h₀ : (system settings).Run Any s₀ as s)
    (h : (system settings).Run Any s bs t) (hquiet : Quiet s contractId) :
    ∀ u ∈ (system settings).visited s bs,
      s.store.residuals contractId <+: u.store.residuals contractId ∧
      ∀ d, assess settings (s.store.residuals contractId) = .ok d →
        ∃ d', assess settings (u.store.residuals contractId) = .ok d' ∧
          d.state.steps <+: d'.state.steps ∧
          ∀ k, d.state.alarmedAt = some k →
            d'.state.alarmedAt = some k ∧ d'.state.alarmReason = d.state.alarmReason := by
  obtain ⟨hnumbered, hgood⟩ := numbered_of_run hs h₀
  have hstep : ∀ u a v, Extends s contractId u ∧ Concurrent.AllGood (Follows settings) Told u →
      Any u a → (system settings).step u a = some v →
      Extends s contractId v ∧ Concurrent.AllGood (Follows settings) Told v := by
    rintro u a v ⟨hu, hgood⟩ - hst
    have hgood' := Concurrent.allGood_step hgood
      (fun _ _ _ _ => good_start) hst
    exact ⟨extends_moves hu hgood' (Concurrent.moves_of_step hst), hgood'⟩
  intro u hu
  obtain ⟨hextends, -⟩ := h.forall_visited hstep ⟨extends_refl hquiet, hgood⟩ u hu
  obtain ⟨pre, -, hpre, -⟩ := h.exists_of_mem_visited hu
  obtain ⟨hnumbered', -⟩ := numbered_of_run hs (h₀.append hpre)
  have hbegins := residuals_extends hextends hnumbered hnumbered'
  refine ⟨hbegins, fun d hd => ?_⟩
  obtain ⟨d₀, hdetector⟩ := exists_detector hd
  cases hd.symm.trans (assess_eq hdetector _)
  obtain ⟨rest, hrest⟩ := hbegins
  refine ⟨_, assess_eq hdetector _, ?_, ?_⟩
  · rw [← hrest, List.map_append]
    exact steps_after_append
  · intro k hk
    rw [← hrest, List.map_append]
    exact alarm_after_append hk

end Runs

theorem quiet_checkedOnce {s : System}
    (hs : (system guardSettings).exec ⟨{}, fun _ => none⟩ checkedOnce = some s) (contractId : Text) :
    Quiet s contractId := by
  have h : ((system guardSettings).exec ⟨{}, fun _ => none⟩ checkedOnce).any fun s =>
      ((s.flows 0).all fun f => f.next.isNone) && (s.flows 1).all fun f => f.next.isNone := by
    decide +kernel
  rw [hs, Option.any_some, Bool.and_eq_true, Option.all_eq_true, Option.all_eq_true] at h
  have hflow : ∀ a ∈ checkedOnce, ∀ _ : System, ∀ i, a.flow = some i → i < 2 := by
    simp [checkedOnce, checked, Concurrent.Action.flow]
  have hbeyond : ∀ i, 2 ≤ i → s.flows i = none :=
    (run_of_exec_forall hs hflow).invariant (I := fun s => ∀ i, 2 ≤ i → s.flows i = none)
      (fun s a t hs ha hst i hi => by
        rw [Concurrent.flows_of_moves (Concurrent.moves_of_step hst) fun heq =>
          absurd (ha i heq) (by omega), hs i hi]) fun _ _ => rfl
  rintro i f checkId decision hf hnext -
  have hnone : f.next.isNone := by
    match i with
    | 0 => exact h.1 f hf
    | 1 => exact h.2 f hf
    | i + 2 =>
      rw [hbeyond (i + 2) (by omega)] at hf
      cases hf
  rw [hnext] at hnone
  cases hnone

/-- A second message is checked. -/
theorem alarm_stays_checked : ∃ s t d d',
    (system guardSettings).exec ⟨{}, fun _ => none⟩ checkedOnce = some s ∧
    (system guardSettings).exec s (checked 2 1) = some t ∧ t.store.checks.length = 2 ∧
    assess guardSettings (s.store.residuals (text "c1")) = .ok d ∧
    assess guardSettings (t.store.residuals (text "c1")) = .ok d' ∧
    d.state.steps <+: d'.state.steps := by
  have h : ((system guardSettings).exec ⟨{}, fun _ => none⟩ checkedOnce).any fun s =>
      ((system guardSettings).exec s (checked 2 1)).any fun t => t.store.checks.length = 2 := by
    decide +kernel
  obtain ⟨s, hs, h⟩ := (Option.any_eq_true _ _).mp h
  obtain ⟨t, ht, h⟩ := (Option.any_eq_true _ _).mp h
  have hinit : (system guardSettings).init ⟨{}, fun _ => none⟩ := ⟨⟨rfl, rfl, rfl⟩, fun _ => rfl⟩
  obtain ⟨-, hstays⟩ := alarm_stays hinit (run_of_exec hs) (run_of_exec ht)
    (quiet_checkedOnce hs (text "c1")) t (run_of_exec ht).mem_visited
  have hdetector : ∃ d₀, detector guardSettings = .ok d₀ := by
    apply ConformalDriftDetector.construct_isOk one_ne_zero
    · simp [guardSettings]
    · norm_num [guardSettings]
    · norm_num [guardSettings]
  obtain ⟨d₀, hd₀⟩ := hdetector
  obtain ⟨d', hd', hsteps, -⟩ := hstays _ (assess_eq hd₀ _)
  exact ⟨s, t, _, d', hs, ht, of_decide_eq_true h, assess_eq hd₀ _, hd', hsteps⟩

end AssureCode.Scope
