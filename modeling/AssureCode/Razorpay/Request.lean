import Mathlib.Tactic.Common

/-! # The retrying request of the Razorpay adapter

`requestWithRetry` repeats a request after a network failure, a 429 or a 5xx and
gives every other answer to its caller. Its sleeps only pass time and are left
out. Against the provider's capture endpoint it takes effect once at most, but
an error does not say whether it did.
-/

namespace AssureCode.Razorpay

variable {σ : Type*}

/-- What one `fetch` ends in. -/
inductive Attempt
  | networkError
  | response (status : ℕ)
  deriving DecidableEq, Repr

def maxAttempts : ℕ := 3

/-- `res.ok` -/
def isOk (status : ℕ) : Bool := 200 ≤ status && status ≤ 299

def retryable (status : ℕ) : Bool := status == 429 || 500 ≤ status

/--
`requestWithRetry` with `left` attempts to go, against a server with state `σ`: the status that
is returned or raised, where 0 stands for a network failure, and the server afterwards.
-/
def requestWithRetry (send : ℕ → σ → Attempt × σ) : ℕ → σ → Except ℕ ℕ × σ
  | 0, s => (.error 0, s)
  | left + 1, s =>
    match send left s with
    | (.networkError, s') =>
      if left = 0 then (.error 0, s') else requestWithRetry send left s'
    | (.response status, s') =>
      if isOk status then (.ok status, s')
      else if retryable status = false ∨ left = 0 then (.error status, s')
      else requestWithRetry send left s'

/-! ## Capturing a payment -/

/-- What the network and the load of the provider make of one request. -/
inductive Transit
  | answered
  /-- The request never arrives. -/
  | dropped
  /-- The request is processed and the response is lost. -/
  | unanswered
  /-- A 429 or 5xx, given without processing the request. -/
  | refused (status : {n : ℕ // retryable n = true ∧ isOk n = false})

/-- `POST /payments/:id/capture`, the state being whether the payment has been captured. -/
def capture (net : ℕ → Transit) (n : ℕ) (captured : Bool) : Attempt × Bool :=
  match net n with
  | .answered => (.response (if captured then 400 else 200), true)
  | .dropped => (.networkError, captured)
  | .unanswered => (.networkError, true)
  | .refused status => (.response status, captured)

/-- `capturePayment` -/
def capturePayment (net : ℕ → Transit) (captured : Bool) : Except ℕ ℕ × Bool :=
  requestWithRetry (capture net) maxAttempts captured

/-- A second capture is never acknowledged, whatever the network does. -/
theorem requestWithRetry_captured (net : ℕ → Transit) (left : ℕ) :
    ∃ status, requestWithRetry (capture net) left true = (.error status, true) := by
  induction left with
  | zero => exact ⟨0, rfl⟩
  | succ left ih =>
    rw [requestWithRetry, capture]
    cases net left with
    | answered => exact ⟨400, by simp [isOk, retryable]⟩
    | dropped | unanswered =>
      by_cases hl : left = 0
      · exact ⟨0, by simp [hl]⟩
      · simpa [hl] using ih
    | refused status =>
      obtain ⟨n, hr, hok⟩ := status
      by_cases hl : left = 0
      · exact ⟨n, by simp [hl, hok]⟩
      · simpa [hl, hr, hok] using ih

/-- An acknowledged capture is the first and has taken effect. -/
theorem requestWithRetry_ok {net : ℕ → Transit} {left : ℕ} {captured : Bool} {status : ℕ}
    (h : (requestWithRetry (capture net) left captured).1 = .ok status) :
    captured = false ∧ (requestWithRetry (capture net) left captured).2 = true := by
  cases captured with
  | true =>
    obtain ⟨n, hn⟩ := requestWithRetry_captured net left
    rw [hn] at h
    cases h
  | false =>
    refine ⟨rfl, ?_⟩
    induction left with
    | zero => cases h
    | succ left ih =>
      rw [requestWithRetry, capture] at h ⊢
      cases hnet : net left with
      | answered => simp [isOk]
      | dropped =>
        by_cases hl : left = 0
        · subst hl
          simp [hnet] at h
        · simp only [hnet, hl, if_false] at h ⊢
          exact ih h
      | unanswered =>
        obtain ⟨n, hn⟩ := requestWithRetry_captured net left
        by_cases hl : left = 0 <;> simp [hl, hn]
      | refused status =>
        obtain ⟨n, hr, hok⟩ := status
        by_cases hl : left = 0
        · subst hl
          simp [hnet, hok] at h
        · simp only [hnet, hl, hr, hok] at h ⊢
          exact ih h

theorem capturePayment_answered :
    capturePayment (fun _ => .answered) false = (.ok 200, true) := by
  simp [capturePayment, maxAttempts, requestWithRetry, capture, isOk]

end AssureCode.Razorpay
