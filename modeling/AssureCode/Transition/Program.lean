import Mathlib.Tactic.Common

/-! # Programs of calls

A program makes calls and goes on with what each of them answers; it returns or raises in the end.
Against fixed answers it makes a list of calls. What its calls have in common whatever they are
answered is settled by rules for its parts, in which the calls that came before are at hand.
-/

namespace AssureCode

inductive Program (γ : Type) (ρ : γ → Type) (α : Type)
  | done (a : α)
  | raised
  | call (c : γ) (next : ρ c → Program γ ρ α)

namespace Program

variable {γ : Type} {ρ : γ → Type} {ι α β : Type}

def bind (p : Program γ ρ α) (f : α → Program γ ρ β) : Program γ ρ β :=
  match p with
  | .done a => f a
  | .raised => .raised
  | .call c next => .call c fun r => (next r).bind f

instance : Monad (Program γ ρ) where
  pure := .done
  bind := bind

def await (c : γ) : Program γ ρ (ρ c) := .call c .done

/-- An answer that may be an exception. -/
def ofOption : Option α → Program γ ρ α
  | some a => .done a
  | none => .raised

/-- `try { … } catch { … }` -/
def catching (p q : Program γ ρ α) : Program γ ρ α :=
  match p with
  | .done a => .done a
  | .raised => q
  | .call c next => .call c fun r => (next r).catching q

/-! ## Given answers -/

section Answers

variable (answer : (c : γ) → ρ c)

/-- What is returned, and `none` after an exception. -/
def result : Program γ ρ α → Option α
  | .done a => some a
  | .raised => none
  | .call c next => (next (answer c)).result

def calls : Program γ ρ α → List γ
  | .done _ => []
  | .raised => []
  | .call c next => c :: (next (answer c)).calls

variable (p : Program γ ρ α) (f : α → Program γ ρ β)

@[simp] theorem result_pure (a : α) : result answer (pure a : Program γ ρ α) = some a := rfl

@[simp] theorem calls_pure (a : α) : calls answer (pure a : Program γ ρ α) = [] := rfl

@[simp] theorem result_raised : result answer (raised : Program γ ρ α) = none := rfl

@[simp] theorem calls_raised : calls answer (raised : Program γ ρ α) = [] := rfl

@[simp] theorem result_await (c : γ) : result answer (await c : Program γ ρ _) = some (answer c) :=
  rfl

@[simp] theorem calls_await (c : γ) : calls answer (await c : Program γ ρ _) = [c] := rfl

@[simp] theorem result_ofOption (r : Option α) :
    result answer (ofOption r : Program γ ρ α) = r := by
  cases r <;> rfl

@[simp] theorem calls_ofOption (r : Option α) : calls answer (ofOption r : Program γ ρ α) = [] := by
  cases r <;> rfl

@[simp] theorem result_bind :
    result answer (p >>= f) = (result answer p).bind fun a => result answer (f a) := by
  induction p with
  | done | raised => rfl
  | call c next ih => exact ih (answer c)

@[simp] theorem calls_bind :
    calls answer (p >>= f) =
      calls answer p ++ (result answer p).elim [] fun a => calls answer (f a) := by
  induction p with
  | done | raised => rfl
  | call c next ih => exact congrArg (c :: ·) (ih (answer c))

/-- When nothing is done about an exception, the calls are those made up to it. -/
@[simp] theorem calls_catching_pure (a : α) :
    calls answer (p.catching (pure a)) = calls answer p := by
  induction p with
  | done | raised => rfl
  | call c next ih => exact congrArg (c :: ·) (ih (answer c))

end Answers

/-! ## Whatever the answers -/

/-- A call with its answer. -/
abbrev Event (ρ : γ → Type) : Type := (c : γ) × ρ c

theorem prefix_concat (h : List (Event ρ)) (ev : Event ρ) : h <+: h ++ [ev] :=
  List.prefix_append ..

/--
After these events every call of the program is admitted by the events before it, and the
program returns with `Q` or raises with `E`.
-/
def Meets (K : List (Event ρ) → γ → Prop) (Q : List (Event ρ) → α → Prop)
    (E : List (Event ρ) → Prop) (h : List (Event ρ)) : Program γ ρ α → Prop
  | .done a => Q h a
  | .raised => E h
  | .call c next => K h c ∧ ∀ r, Meets K Q E (h ++ [⟨c, r⟩]) (next r)

variable {K K' : List (Event ρ) → γ → Prop} {Q Q' : List (Event ρ) → α → Prop}
  {R : List (Event ρ) → β → Prop} {E E' : List (Event ρ) → Prop} {h : List (Event ρ)}
  {p q : Program γ ρ α} {f : α → Program γ ρ β}

theorem Meets.mono (hp : p.Meets K Q E h) (hQ : ∀ h a, Q h a → Q' h a) (hE : ∀ h, E h → E' h) :
    p.Meets K Q' E' h := by
  induction p generalizing h with
  | done a => exact hQ h a hp
  | raised => exact hE h hp
  | call c next ih => exact ⟨hp.1, fun r => ih r (hp.2 r)⟩

theorem Meets.mono_calls (hp : p.Meets K Q E h) (hK : ∀ h c, K h c → K' h c) :
    p.Meets K' Q E h := by
  induction p generalizing h with
  | done | raised => exact hp
  | call c next ih => exact ⟨hK h c hp.1, fun r => ih r (hp.2 r)⟩

/-- What the calls have in common can be said of all that came before. -/
theorem Meets.along {P : γ → Prop} (hp : p.Meets K Q E h) (hK : ∀ h c, K h c → P c)
    (hh : ∀ e ∈ h, P e.1) :
    p.Meets (fun h c => K h c ∧ ∀ e ∈ h, P e.1) (fun h a => Q h a ∧ ∀ e ∈ h, P e.1) E h := by
  induction p generalizing h with
  | done a => exact ⟨hp, hh⟩
  | raised => exact hp
  | call c next ih =>
    refine ⟨⟨hp.1, hh⟩, fun r => ih r (hp.2 r) ?_⟩
    rw [List.forall_mem_append, List.forall_mem_singleton]
    exact ⟨hh, hK h c hp.1⟩

/-- The invariant rule: what each admitted call keeps holds when the program ends. -/
theorem Meets.keep {I : List (Event ρ) → Prop} (hp : p.Meets K Q E h)
    (hI : ∀ h c (r : ρ c), K h c → I h → I (h ++ [⟨c, r⟩])) (hh : I h) :
    p.Meets K (fun h a => Q h a ∧ I h) (fun h => E h ∧ I h) h := by
  induction p generalizing h with
  | done | raised => exact ⟨hp, hh⟩
  | call c next ih => exact ⟨hp.1, fun r => ih r (hp.2 r) (hI h c r hp.1 hh)⟩

/-- No event is taken back. -/
theorem Meets.extends (hp : p.Meets K Q E h) :
    p.Meets K (fun h' a => Q h' a ∧ h <+: h') (fun h' => E h' ∧ h <+: h') h :=
  hp.keep (fun _ _ _ _ hh => hh.trans (prefix_concat ..)) List.prefix_rfl

theorem meets_bind : (p >>= f).Meets K R E h ↔
    p.Meets K (fun h a => (f a).Meets K R E h) E h := by
  induction p generalizing h with
  | done | raised => exact Iff.rfl
  | call c next ih => exact and_congr_right' (forall_congr' fun r => ih r)

theorem meets_await {c : γ} {f : ρ c → Program γ ρ α} :
    (await c >>= f).Meets K Q E h ↔ K h c ∧ ∀ r, (f r).Meets K Q E (h ++ [⟨c, r⟩]) := Iff.rfl

theorem meets_ofOption {r : Option α} :
    (ofOption r : Program γ ρ α).Meets K Q E h ↔ r.elim (E h) (Q h) := by
  cases r <;> exact Iff.rfl

theorem meets_catching : (p.catching q).Meets K Q E h ↔
    p.Meets K Q (fun h => q.Meets K Q E h) h := by
  induction p generalizing h with
  | done | raised => exact Iff.rfl
  | call c next ih => exact and_congr_right' (forall_congr' fun r => ih r)

/-- The rule for loops: an iteration carries the invariant over to the elements that are left. -/
theorem meets_forM {g : ι → Program γ ρ PUnit} {I : List ι → List (Event ρ) → Prop} {xs : List ι}
    (hI : ∀ x xs h, I (x :: xs) h → (g x).Meets K (fun h _ => I xs h) E h) (hs : I xs h) :
    (forM xs g).Meets K (fun h _ => I [] h) E h := by
  induction xs generalizing h with
  | nil => exact hs
  | cons x xs ih =>
    rw [List.forM_cons, meets_bind]
    exact (hI x xs h hs).mono (fun h _ hrest => ih hrest) fun _ => id

end Program

end AssureCode
