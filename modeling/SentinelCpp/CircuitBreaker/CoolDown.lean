import SentinelCpp.CircuitBreaker.Tripping

/-!
# The configured cool-down

`retry_timeout_ms_` is the product of `retry_timeout_sec` and 1000 taken as a 32-bit integer.  It is the
configured time exactly up to 2147483 seconds; past that it wraps and the breaker probes too early.
-/

namespace SentinelCpp.CircuitBreaker.AbstractCircuitBreaker

open Lib Stat

variable {b : AbstractCircuitBreaker} {rule : Rule}

/-- The breaker is Open before these calls and after each of them. -/
def StaysOpen (b : AbstractCircuitBreaker) (calls : List (ℕ × Op)) : Prop :=
  ∀ k ≤ calls.length, (b.stateAt calls k).currentState = .kOpen

/-- Every `TryPass` before the configured cool-down after `t` is over is refused, as long as the breaker
stays Open. -/
def RefusesUntil (b : AbstractCircuitBreaker) (retryTimeoutSec : ℤ) (t : ℕ) : Prop :=
  ∀ (rest : List (ℕ × Op)) (t' : ℕ), b.StaysOpen rest → (t' : ℤ) < t + 1000 * retryTimeoutSec →
    ((b.stateAt rest rest.length).tryPass t').2 = false

/-- The retry time is written on entering Open only. -/
theorem call_nextRetryTimestamp {c : ℕ × Op} (hs : b.currentState = .kOpen)
    (hs' : (b.call c).currentState = .kOpen) :
    (b.call c).nextRetryTimestamp = b.nextRetryTimestamp := by
  obtain ⟨t, op⟩ := c
  cases op with
  | tryPass =>
    have hcall : b.call (t, .tryPass) = (b.tryPass t).1 := rfl
    rw [hcall] at hs' ⊢
    rcases b.tryPass_cases t with ⟨-, h⟩ | ⟨-, -, h⟩ | ⟨-, -, h⟩ | ⟨-, h⟩ <;> rw [h]
  | recordComplete rt error =>
    rcases (b.recordComplete_cases t rt error).2 with ⟨-, -, h⟩ | ⟨hne, -, -⟩ | ⟨hhalf, -, -⟩
    · exact h
    · exact absurd hs hne
    · exact absurd (hs.symm.trans hhalf) (by simp)

theorem StaysOpen.nextRetryTimestamp {calls : List (ℕ × Op)} (h : b.StaysOpen calls) {k : ℕ}
    (hk : k ≤ calls.length) : (b.stateAt calls k).nextRetryTimestamp = b.nextRetryTimestamp := by
  induction k with
  | zero => simp [stateAt]
  | succ k ih =>
    have hc := List.getElem?_eq_getElem (Nat.lt_of_succ_le hk)
    have hopen := h (k + 1) hk
    rw [b.stateAt_succ calls hc] at hopen ⊢
    rw [call_nextRetryTimestamp (h k (Nat.le_of_succ_le hk)) hopen, ih (Nat.le_of_succ_le hk)]

theorem tryPass_eq_false_iff (hs : b.currentState = .kOpen) (t : ℕ) :
    (b.tryPass t).2 = false ↔ (t : ℤ) < b.nextRetryTimestamp := by
  rw [← not_le, ← Bool.not_eq_true]
  exact not_congr (by simpa [callResult] using ((b.obeys_tryPass t).passOpen rfl hs).1)

/-- A breaker just Open refuses until the retry time it holds, and no later. -/
theorem refusesUntil_iff (hs : b.currentState = .kOpen) (retryTimeoutSec : ℤ) (t : ℕ) :
    b.RefusesUntil retryTimeoutSec t ↔
      ∀ t' : ℕ, (t' : ℤ) < t + 1000 * retryTimeoutSec → (t' : ℤ) < b.nextRetryTimestamp := by
  constructor
  · intro h t' ht'
    have hstay : b.StaysOpen [] := by
      intro k _
      simpa [stateAt] using hs
    exact (tryPass_eq_false_iff hs t').mp (h [] t' hstay ht')
  · intro h rest t' hstay ht'
    rw [tryPass_eq_false_iff (hstay _ le_rfl), hstay.nextRetryTimestamp le_rfl]
    exact h t' ht'

/-- The 32-bit product is the configured time exactly up to 2147483 seconds. -/
theorem forall_lt_wrapped_iff {retryTimeoutSec : ℤ} (hpos : 0 < retryTimeoutSec) (t : ℕ) :
    (∀ t' : ℕ, (t' : ℤ) < t + 1000 * retryTimeoutSec →
        (t' : ℤ) < t + toInt32 (retryTimeoutSec * 1000)) ↔ retryTimeoutSec ≤ 2147483 := by
  constructor
  · intro h
    by_contra hlt
    have hwrap := toInt32_lt (retryTimeoutSec * 1000)
    have hlast := h (t + (toInt32 (retryTimeoutSec * 1000)).toNat) (by omega)
    omega
  · intro hle t' ht'
    rw [toInt32_of_bounds (by omega) (by omega)]
    omega

/-- **The cool-down.**  However the breaker of an accepted rule got there, when it enters Open at time
`t` it refuses for the configured time exactly if `retry_timeout_sec` is at most 2147483. -/
theorem coolDown_iff (hvalid : isValidRule rule = true) (hnew : newCircuitBreaker rule = some b)
    (calls : List (ℕ × Op)) {t : ℕ} {op : Op}
    (hbefore : (b.stateAt calls calls.length).currentState ≠ .kOpen)
    (hopen : ((b.stateAt calls calls.length).call (t, op)).currentState = .kOpen) :
    ((b.stateAt calls calls.length).call (t, op)).RefusesUntil rule.retryTimeoutSec t ↔
      rule.retryTimeoutSec ≤ 2147483 := by
  have hpos : 0 < rule.retryTimeoutSec := by
    unfold isValidRule at hvalid
    split_ifs at hvalid with h1 h2
    omega
  have htimeout : (b.stateAt calls calls.length).retryTimeoutMs =
      toInt32 (rule.retryTimeoutSec * 1000) := by
    rw [stateAt_retryTimeoutMs, eq_mk'_of_new hnew]
    rfl
  have hretry := ((b.stateAt calls calls.length).obeys_call (t, op)).enterOpen hbefore hopen
  rw [refusesUntil_iff hopen, hretry, htimeout]
  exact forall_lt_wrapped_iff hpos t

/-- An accepted rule that asks for a cool-down of almost 25 days. -/
def longCoolDownRule : Rule where
  resource := "api"
  strategy := .kErrorRatio
  retryTimeoutSec := 2147484
  minRequestAmount := 1

/-- The breaker of `longCoolDownRule`, opened at time 0, passes a probe at once. -/
theorem coolDown_fails : isValidRule longCoolDownRule = true ∧
    newCircuitBreaker longCoolDownRule = some (mk' longCoolDownRule .errorCircuitBreaker) ∧
    (mk' longCoolDownRule .errorCircuitBreaker).currentState ≠ .kOpen ∧
    ((mk' longCoolDownRule .errorCircuitBreaker).call
      (0, .recordComplete 1 "e")).currentState = .kOpen ∧
    ¬ ((mk' longCoolDownRule .errorCircuitBreaker).call
      (0, .recordComplete 1 "e")).RefusesUntil longCoolDownRule.retryTimeoutSec 0 := by
  have hopen : ((mk' longCoolDownRule .errorCircuitBreaker).call
      (0, .recordComplete 1 "e")).currentState = .kOpen := by decide +kernel
  refine ⟨by decide, rfl, by decide, hopen, ?_⟩
  rw [refusesUntil_iff hopen]
  intro h
  exact absurd (h 0 (by decide)) (by decide +kernel)

theorem coolDown_iff_example :
    (((mk' longCoolDownRule .errorCircuitBreaker).stateAt [] 0).call
        (0, .recordComplete 1 "e")).RefusesUntil 2147484 0 ↔ (2147484 : ℤ) ≤ 2147483 := by
  have hnew : newCircuitBreaker longCoolDownRule =
      some (mk' longCoolDownRule .errorCircuitBreaker) := rfl
  exact coolDown_iff (by decide) hnew [] (by decide) (by decide +kernel)

end SentinelCpp.CircuitBreaker.AbstractCircuitBreaker
