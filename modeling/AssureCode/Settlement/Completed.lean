import AssureCode.Settlement.Steps

/-! # A completed settlement and what undoes it

`markSettlementFailed` has no status guard, so it is the one statement that
takes a committed settlement back. A run keeps every `COMPLETED` row exactly
when it never executes that statement on one.
-/

namespace AssureCode.Settlement

open Machine

variable {s t s₀ : State} {act : Action} {as : List Action}

def State.Completed (s : State) : Prop := s.status = some .completed

instance (s : State) : Decidable s.Completed :=
  inferInstanceAs (Decidable (s.status = some .completed))

/-- The action executes a `markSettlementFailed`. -/
def MarksFailed (s : State) : Action → Prop
  | .advance i o => o ≠ .failed ∧ (s.actors i).marksFailed = true
  | _ => False

/-- No `markSettlementFailed` reaches a row that a settlement has committed. -/
def KeepsCompleted (s : State) (act : Action) : Prop := ¬ (s.Completed ∧ MarksFailed s act)

theorem claimSettlement_completed (h : s.Completed) : claimSettlement s.settlement = none := by
  obtain ⟨r, hr, hc⟩ := Option.map_eq_some_iff.mp h
  simp [claimSettlement, hr, hc]

theorem completed_congr (h : t.settlement = s.settlement) : t.Completed ↔ s.Completed := by
  simp [State.Completed, State.status, h]

/-- A committed row survives every operation but `markSettlementFailed`. -/
theorem Performs.completed {s' : State} {a a' : Actor} (h : Performs s a s' a')
    (hs : s.Completed) : s'.Completed ↔ a.marksFailed = false := by
  cases h with
  | claim hc =>
    rw [claimSettlement_completed hs] at hc
    cases hc
  | commit =>
    obtain ⟨r, hr, -⟩ := Option.map_eq_some_iff.mp hs
    simp [State.Completed, status_commitSettlement, hr, Actor.marksFailed]
  | rollback_live | rollback_recovery | fail =>
    simp [State.Completed, status_markSettlementFailed hs, Actor.marksFailed]
  | _ => exact ⟨fun _ => rfl, fun _ => hs⟩

theorem completed_step (h : step s act = some t) :
    KeepsCompleted s act ↔ (s.Completed → t.Completed) := by
  rcases step_cases h with ⟨i, o, rfl, ha⟩ | ⟨i, event, rfl, -, -, rfl⟩ | ⟨i, rfl, -, -, rfl⟩ |
    ⟨i, rfl, rfl⟩ | ⟨hc, hact⟩
  · rcases advance_cases ha with ⟨rfl, -, rfl⟩ | ⟨s', a', hp, hend⟩
    · exact ⟨fun _ hs => hs, fun _ hs => hs.2.1 rfl⟩
    · have ht : t.settlement = s'.settlement := by rcases hend with ⟨-, rfl⟩ | ⟨-, rfl⟩ <;> rfl
      have ho : o ≠ .failed := by rcases hend with ⟨rfl, -⟩ | ⟨rfl, -⟩ <;> decide
      rw [completed_congr ht]
      constructor
      · intro hk hs
        rw [hp.completed hs, ← Bool.not_eq_true]
        exact fun hm => hk ⟨hs, ho, hm⟩
      · rintro himp ⟨hs, -, hm⟩
        simp [(hp.completed hs).mp (himp hs)] at hm
  · exact ⟨fun _ hs => hs, fun _ hs => hs.2⟩
  · exact ⟨fun _ hs => hs, fun _ hs => hs.2⟩
  · exact ⟨fun _ hs => hs, fun _ hs => hs.2⟩
  · refine ⟨fun _ => (completed_congr hc.settlement).mpr, fun _ hs => ?_⟩
    cases act with
    | advance i o => exact (hact i).2 o rfl
    | _ => exact hs.2

/--
Once committed, a settlement stays committed and cannot be claimed again, in every state a run
visits afterwards, if and only if no step of the run marks a committed row failed.
-/
theorem completed_stays_iff (h : system.Run Any s₀ as s) :
    (system.visited s₀ as).Pairwise (fun u v =>
      u.Completed → v.Completed ∧ claimSettlement v.settlement = none) ↔
    system.Run KeepsCompleted s₀ as s := by
  rw [← h.pairwise_visited_iff (I := fun _ => True) (P := State.Completed)
    (fun _ _ _ _ _ => trivial) (fun _ _ _ _ hst => completed_step hst) trivial]
  constructor
  · exact List.Pairwise.imp fun huv hu => (huv hu).1
  · exact List.Pairwise.imp fun huv hu => ⟨huv hu, claimSettlement_completed (huv hu)⟩

/-- The settlement commits, then publishing `SETTLEMENT_COMPLETED` throws. -/
def publishThrows : List Action :=
  fundAndRequest ++ [.deliver 0 sampleEvent, .advance 0 .ok, .advance 0 .ok, .advance 0 .ok,
    .advance 0 .ok, .advance 0 .ok, .advance 0 .failed, .advance 0 .ok]

theorem completed_stays_publishThrows :
    (system.visited {} publishThrows).Pairwise (fun u v =>
      u.Completed → v.Completed ∧ claimSettlement v.settlement = none) ↔
    ∃ s, system.exec {} publishThrows = some s ∧ system.Run KeepsCompleted {} publishThrows s := by
  have h : (system.exec {} publishThrows).isSome := by decide
  obtain ⟨s, hs⟩ := Option.isSome_iff_exists.mp h
  simpa [hs] using completed_stays_iff (run_of_exec hs)

theorem completed_does_not_stay :
    ¬ ∀ s₀ as s, Initial s₀ → system.Run Any s₀ as s →
      (system.visited s₀ as).Pairwise (fun u v =>
        u.Completed → v.Completed ∧ claimSettlement v.settlement = none) := by
  intro hall
  have h : (system.exec {} publishThrows).isSome := by decide
  obtain ⟨s, hs⟩ := Option.isSome_iff_exists.mp h
  exact absurd (hall {} publishThrows s initial_default (run_of_exec hs)) (by decide)

end AssureCode.Settlement
