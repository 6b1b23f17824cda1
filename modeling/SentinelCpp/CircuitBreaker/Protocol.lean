import SentinelCpp.CircuitBreaker.Breaker

/-!
# The protocol of a circuit breaker

Calls of `TryPass` and `RecordComplete` on one breaker, one after another.  `Obeys` says what one call
may do; a HalfOpen period begins with the `TryPass` that let its probe through and ends with a
completion, and no other `TryPass` of the period passes.
-/

namespace SentinelCpp.CircuitBreaker.AbstractCircuitBreaker

/-- The calls made on a breaker. -/
inductive Op
  | tryPass
  | recordComplete (rt : ℤ) (error : String)

/-- The breaker after a call and the time it is made at. -/
def call (b : AbstractCircuitBreaker) (c : ℕ × Op) : AbstractCircuitBreaker :=
  match c.2 with
  | .tryPass => (b.tryPass c.1).1
  | .recordComplete rt error => b.recordComplete c.1 rt error

/-- What the call returns; `RecordComplete` returns nothing. -/
def callResult (b : AbstractCircuitBreaker) (c : ℕ × Op) : Option Bool :=
  match c.2 with
  | .tryPass => some (b.tryPass c.1).2
  | .recordComplete _ _ => none

/-- The breaker before the call with index `i`. -/
def stateAt (b : AbstractCircuitBreaker) (calls : List (ℕ × Op)) (i : ℕ) : AbstractCircuitBreaker :=
  (calls.take i).foldl call b

/-! ### One call -/

/-- The transitions of the state. -/
inductive Transition : State → State → Prop
  | trip : Transition .kClosed .kOpen
  | probe : Transition .kOpen .kHalfOpen
  | reopen : Transition .kHalfOpen .kOpen
  | recover : Transition .kHalfOpen .kClosed

/-- What the call `c` may do to a breaker with this retry timeout: `b` before, `b'` after it. -/
structure Obeys (timeout : ℤ) (b : AbstractCircuitBreaker) (c : ℕ × Op) (b' : AbstractCircuitBreaker)
    (result : Option Bool) : Prop where
  transition : b'.currentState = b.currentState ∨ Transition b.currentState b'.currentState
  passClosed : c.2 = .tryPass → b.currentState = .kClosed → result = some true ∧ b' = b
  passOpen : c.2 = .tryPass → b.currentState = .kOpen →
    (result = some true ↔ (c.1 : ℤ) ≥ b.nextRetryTimestamp) ∧
      (result = some true → b' = { b with currentState := .kHalfOpen }) ∧
      (result ≠ some true → result = some false ∧ b' = b)
  passHalfOpen : c.2 = .tryPass → b.currentState = .kHalfOpen → result = some false ∧ b' = b
  enterOpen : b.currentState ≠ .kOpen → b'.currentState = .kOpen →
    b'.nextRetryTimestamp = c.1 + timeout
  enterHalfOpen : b.currentState ≠ .kHalfOpen → b'.currentState = .kHalfOpen →
    c.2 = .tryPass ∧ result = some true

variable (b : AbstractCircuitBreaker)

theorem obeys_tryPass (t : ℕ) :
    Obeys b.retryTimeoutMs b (t, .tryPass) (b.tryPass t).1 (some (b.tryPass t).2) := by
  rcases b.tryPass_cases t with ⟨hs, h⟩ | ⟨hs, ha, h⟩ | ⟨hs, ha, h⟩ | ⟨hs, h⟩
  · rw [h]
    constructor <;> simp [hs]
  · have ht : b.nextRetryTimestamp ≤ t := by simpa [retryTimeoutArrived] using ha
    rw [h]
    constructor <;> simp [hs, ht, Transition.probe]
  · have ht : (t : ℤ) < b.nextRetryTimestamp := by simpa [retryTimeoutArrived] using ha
    rw [h]
    constructor <;> simp [hs, ht]
  · rw [h]
    constructor <;> simp [hs]

theorem obeys_recordComplete (t : ℕ) (rt : ℤ) (error : String) :
    Obeys b.retryTimeoutMs b (t, .recordComplete rt error) (b.recordComplete t rt error) none := by
  have htr : (b.recordComplete t rt error).currentState = b.currentState ∨
      Transition b.currentState (b.recordComplete t rt error).currentState := by
    rcases (b.recordComplete_cases t rt error).2 with ⟨-, h, -⟩ | ⟨hs, h, -⟩ | ⟨hs, h, -⟩
    · exact .inl h
    · rw [h]
      cases hb : b.currentState with
      | kClosed => exact .inr .trip
      | kOpen => exact absurd hb hs
      | kHalfOpen => exact .inr .reopen
    · rw [h, hs]
      exact .inr .recover
  refine ⟨htr, by simp, by simp, by simp, ?_, ?_⟩
  · intro hs hs'
    rcases (b.recordComplete_cases t rt error).2 with ⟨-, h, -⟩ | ⟨-, -, h⟩ | ⟨-, h, -⟩
    · exact absurd (h.symm.trans hs') hs
    · exact h
    · simp [h] at hs'
  · intro _ hs'
    exact absurd hs' (b.recordComplete_ne_halfOpen t rt error)

theorem obeys_call (c : ℕ × Op) :
    Obeys b.retryTimeoutMs b c (b.call c) (b.callResult c) := by
  obtain ⟨t, op⟩ := c
  cases op with
  | tryPass => exact b.obeys_tryPass t
  | recordComplete rt error => exact b.obeys_recordComplete t rt error

@[simp] theorem call_retryTimeoutMs (c : ℕ × Op) : (b.call c).retryTimeoutMs = b.retryTimeoutMs := by
  obtain ⟨t, op⟩ := c
  cases op with
  | tryPass =>
    show (b.tryPass t).1.retryTimeoutMs = b.retryTimeoutMs
    rcases b.tryPass_cases t with ⟨-, h⟩ | ⟨-, -, h⟩ | ⟨-, -, h⟩ | ⟨-, h⟩ <;> rw [h]
  | recordComplete rt error => exact (b.recordComplete_cases t rt error).1

/-! ### Runs -/

variable (calls : List (ℕ × Op))

theorem stateAt_succ {i : ℕ} {c : ℕ × Op} (h : calls[i]? = some c) :
    b.stateAt calls (i + 1) = (b.stateAt calls i).call c := by
  simp [stateAt, List.take_add_one, h]

theorem stateAt_succ_of_none {i : ℕ} (h : calls[i]? = none) :
    b.stateAt calls (i + 1) = b.stateAt calls i := by
  simp [stateAt, List.take_add_one, h]

theorem stateAt_retryTimeoutMs (i : ℕ) : (b.stateAt calls i).retryTimeoutMs = b.retryTimeoutMs := by
  induction i with
  | zero => rfl
  | succ i ih =>
    cases h : calls[i]? with
    | none => rw [b.stateAt_succ_of_none calls h, ih]
    | some c => rw [b.stateAt_succ calls h, call_retryTimeoutMs, ih]

/-- The call with index `i` moves the breaker into HalfOpen. -/
def EntersHalfOpen (i : ℕ) : Prop :=
  (b.stateAt calls i).currentState ≠ .kHalfOpen ∧ (b.stateAt calls (i + 1)).currentState = .kHalfOpen

/-- The call with index `i` moves the breaker out of HalfOpen. -/
def LeavesHalfOpen (i : ℕ) : Prop :=
  (b.stateAt calls i).currentState = .kHalfOpen ∧ (b.stateAt calls (i + 1)).currentState ≠ .kHalfOpen

/-- A breaker HalfOpen at `i` and not at a later `j` leaves HalfOpen on the way. -/
theorem exists_leavesHalfOpen {i j : ℕ} (hij : i ≤ j)
    (hi : (b.stateAt calls i).currentState = .kHalfOpen)
    (hj : (b.stateAt calls j).currentState ≠ .kHalfOpen) :
    ∃ k, i ≤ k ∧ k < j ∧ b.LeavesHalfOpen calls k := by
  induction j, hij using Nat.le_induction with
  | base => exact absurd hi hj
  | succ j hij ih =>
    by_cases h : (b.stateAt calls j).currentState = .kHalfOpen
    · exact ⟨j, hij, Nat.lt_succ_self j, h, hj⟩
    · obtain ⟨k, hik, hkj, hk⟩ := ih h
      exact ⟨k, hik, Nat.lt_succ_of_lt hkj, hk⟩

/-- Only a completion moves a breaker out of HalfOpen. -/
theorem LeavesHalfOpen.recordComplete {k : ℕ} (h : b.LeavesHalfOpen calls k) :
    ∃ t rt error, calls[k]? = some (t, .recordComplete rt error) := by
  obtain ⟨hk, hk'⟩ := h
  cases hc : calls[k]? with
  | none => exact absurd (b.stateAt_succ_of_none calls hc ▸ hk) hk'
  | some c =>
    obtain ⟨t, op⟩ := c
    cases op with
    | recordComplete rt error => exact ⟨t, rt, error, rfl⟩
    | tryPass =>
      have hsame := ((b.stateAt calls k).obeys_call (t, .tryPass)).passHalfOpen rfl hk
      rw [b.stateAt_succ calls hc, hsame.2] at hk'
      exact absurd hk hk'

/-- **The protocol of a breaker**, for every sequence of calls.  Each call obeys; between two entries
into HalfOpen a completion left HalfOpen; a HalfOpen period is started by a `TryPass` that passed, and
every `TryPass` made in it is refused. -/
theorem protocol :
    (∀ i c, calls[i]? = some c →
      Obeys b.retryTimeoutMs (b.stateAt calls i) c (b.stateAt calls (i + 1))
        ((b.stateAt calls i).callResult c)) ∧
    (∀ i j, i < j → b.EntersHalfOpen calls i → b.EntersHalfOpen calls j →
      ∃ k, i < k ∧ k < j ∧ b.LeavesHalfOpen calls k ∧
        ∃ t rt error, calls[k]? = some (t, .recordComplete rt error)) ∧
    (∀ i, b.EntersHalfOpen calls i →
      ∃ t, calls[i]? = some (t, .tryPass) ∧ (b.stateAt calls i).callResult (t, .tryPass) = some true) ∧
    (∀ i j t, b.EntersHalfOpen calls i → i < j →
      (∀ k, i < k → k ≤ j → (b.stateAt calls k).currentState = .kHalfOpen) →
      calls[j]? = some (t, .tryPass) → (b.stateAt calls j).callResult (t, .tryPass) = some false) := by
  have hobeys : ∀ i c, calls[i]? = some c →
      Obeys b.retryTimeoutMs (b.stateAt calls i) c (b.stateAt calls (i + 1))
        ((b.stateAt calls i).callResult c) := by
    intro i c hc
    rw [b.stateAt_succ calls hc, ← b.stateAt_retryTimeoutMs calls i]
    exact (b.stateAt calls i).obeys_call c
  refine ⟨hobeys, ?_, ?_, ?_⟩
  · rintro i j hij ⟨-, hi⟩ ⟨hj, -⟩
    obtain ⟨k, hik, hkj, hk⟩ := b.exists_leavesHalfOpen calls hij hi hj
    exact ⟨k, hik, hkj, hk, LeavesHalfOpen.recordComplete b calls hk⟩
  · rintro i ⟨hi, hi'⟩
    cases hc : calls[i]? with
    | none => exact absurd (b.stateAt_succ_of_none calls hc ▸ hi') hi
    | some c =>
      obtain ⟨hop, hres⟩ := (hobeys i c hc).enterHalfOpen hi hi'
      obtain ⟨t, op⟩ := c
      obtain rfl : op = .tryPass := hop
      exact ⟨t, rfl, hres⟩
  · intro i j t _ hij hperiod hc
    exact ((hobeys j _ hc).passHalfOpen rfl (hperiod j hij le_rfl)).1

end SentinelCpp.CircuitBreaker.AbstractCircuitBreaker
