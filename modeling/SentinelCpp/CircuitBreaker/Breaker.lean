import SentinelCpp.Common
import SentinelCpp.Stat.LeapArray

/-!
# Circuit breakers

A breaker is Closed, Open or HalfOpen.  `TryPass` moves it from Open to HalfOpen once the retry time
has come; `RecordComplete` counts a completion and moves it out of HalfOpen, or from Closed to Open
when the statistics of the window exceed the threshold.  `AbstractCircuitBreaker` is one machine for the
two classes, with the class as a field; the classes as they are written, and that each of them is this
machine, are in `CircuitBreaker.Classes`.  The counts are `int64_t` and stand for integers, the values
compared are `double` and stand for rationals.
-/

namespace SentinelCpp.CircuitBreaker

open SentinelCpp.Stat

inductive Strategy
  | kSlowRtRatio
  | kErrorRatio
  | kErrorCount
  deriving DecidableEq, Repr

structure Rule where
  resource : String := ""
  strategy : Strategy := .kSlowRtRatio
  threshold : ℚ := 0
  retryTimeoutSec : ℤ := 0
  minRequestAmount : ℤ := 10
  statIntervalMs : ℤ := 1000
  maxAllowedRt : ℤ := 0
  deriving DecidableEq

/-- `Rule::operator==`. -/
instance : BEq Rule where
  beq a b :=
    a.resource = b.resource && a.threshold = b.threshold && a.strategy = b.strategy &&
      a.retryTimeoutSec = b.retryTimeoutSec && a.minRequestAmount = b.minRequestAmount &&
      a.statIntervalMs = b.statIntervalMs && a.maxAllowedRt = b.maxAllowedRt

theorem Rule.beq_iff {a b : Rule} : (a == b) = true ↔ a = b := by
  cases a
  cases b
  simp only [BEq.beq, Bool.and_eq_true, decide_eq_true_eq, Rule.mk.injEq]
  tauto

inductive State
  | kClosed
  | kOpen
  | kHalfOpen
  deriving DecidableEq, Repr

/-- `SimpleErrorCounter` (errors and total) and `SlowRequestCounter` (slow requests and total). -/
structure RequestCounter where
  bad : ℤ
  total : ℤ
  deriving DecidableEq

instance : Resettable RequestCounter := ⟨fun _ => ⟨0, 0⟩⟩

/-- The two subclasses of `AbstractCircuitBreaker`. -/
inductive BreakerClass
  | errorCircuitBreaker
  | responseTimeCircuitBreaker
  deriving DecidableEq, Repr

structure AbstractCircuitBreaker where
  rule : Rule
  cls : BreakerClass
  retryTimeoutMs : ℤ
  currentState : State
  nextRetryTimestamp : ℤ
  slidingCounter : LeapArray RequestCounter

namespace AbstractCircuitBreaker

variable (b : AbstractCircuitBreaker) (t : ℕ)

/-- The constructors: Closed, no retry time, a window of one bucket. -/
def mk' (rule : Rule) (cls : BreakerClass) : AbstractCircuitBreaker where
  rule := rule
  cls := cls
  retryTimeoutMs := toInt32 (rule.retryTimeoutSec * 1000)
  currentState := .kClosed
  nextRetryTimestamp := 0
  slidingCounter := LeapArray.mk' 1 rule.statIntervalMs.toNat ⟨0, 0⟩

def retryTimeoutArrived : Bool := decide ((t : ℤ) ≥ b.nextRetryTimestamp)

def updateNextRetryTimestamp : AbstractCircuitBreaker :=
  { b with nextRetryTimestamp := t + b.retryTimeoutMs }

/-- `Reset()`: the bucket of the current time only. -/
def reset : AbstractCircuitBreaker :=
  { b with slidingCounter := b.slidingCounter.updateCurrent t Resettable.reset }

/-- The transitions are compare-and-swaps; each returns whether it happened. -/
def fromCloseToOpen : AbstractCircuitBreaker × Bool :=
  if b.currentState = .kClosed then
    ({ b with currentState := .kOpen }.updateNextRetryTimestamp t, true)
  else (b, false)

def fromOpenToHalfOpen : AbstractCircuitBreaker × Bool :=
  if b.currentState = .kOpen then ({ b with currentState := .kHalfOpen }, true) else (b, false)

def fromHalfOpenToOpen : AbstractCircuitBreaker × Bool :=
  if b.currentState = .kHalfOpen then
    ({ b with currentState := .kOpen }.updateNextRetryTimestamp t, true)
  else (b, false)

def fromHalfOpenToClose : AbstractCircuitBreaker × Bool :=
  if b.currentState = .kHalfOpen then ({ b with currentState := .kClosed }.reset t, true)
  else (b, false)

/-- `TryPass(node)`. -/
def tryPass : AbstractCircuitBreaker × Bool :=
  match b.currentState with
  | .kClosed => (b, true)
  | .kOpen => if b.retryTimeoutArrived t then b.fromOpenToHalfOpen else (b, false)
  | .kHalfOpen => (b, false)

/-- `RecordAndHandleStateChange`: `bad` tells whether this completion counts against the breaker,
`curValue` is the value compared with the threshold. -/
def recordAndHandleStateChange (bad : Bool) (curValue : ℤ → ℤ → ℚ) : AbstractCircuitBreaker :=
  match b.currentState with
  | .kOpen => b
  | .kHalfOpen => if bad then (b.fromHalfOpenToOpen t).1 else (b.fromHalfOpenToClose t).1
  | .kClosed =>
    let counters := b.slidingCounter.values t
    let badCount := (counters.map RequestCounter.bad).sum
    let totalCount := (counters.map RequestCounter.total).sum
    if totalCount < b.rule.minRequestAmount then b
    else if curValue badCount totalCount > b.rule.threshold then (b.fromCloseToOpen t).1
    else b

/-- `RecordComplete`: count the completion in the current bucket, then look at the state. -/
def recordCompleteWith (bad : Bool) (curValue : ℤ → ℤ → ℚ) : AbstractCircuitBreaker :=
  let count (c : RequestCounter) : RequestCounter :=
    { bad := if bad then c.bad + 1 else c.bad, total := c.total + 1 }
  let b := { b with slidingCounter := b.slidingCounter.updateCurrent t count }
  b.recordAndHandleStateChange t bad curValue

/-- `ErrorCircuitBreaker::RecordComplete(_, error)`. -/
def errorRecordComplete (error : String) : AbstractCircuitBreaker :=
  b.recordCompleteWith t (error ≠ "") fun errCount totalCount =>
    if b.rule.strategy = .kErrorRatio then (errCount : ℚ) * 1 / totalCount else errCount

/-- `ResponseTimeCircuitBreaker::RecordComplete(rt, _)`. -/
def rtRecordComplete (rt : ℤ) : AbstractCircuitBreaker :=
  b.recordCompleteWith t (rt > b.rule.maxAllowedRt) fun slowCount totalCount =>
    (slowCount : ℚ) * 1 / totalCount

/-- `RecordComplete(rt, error)`. -/
def recordComplete (rt : ℤ) (error : String) : AbstractCircuitBreaker :=
  match b.cls with
  | .errorCircuitBreaker => b.errorRecordComplete t error
  | .responseTimeCircuitBreaker => b.rtRecordComplete t rt

/-! ### What a call can do -/

/-- The state `TryPass` finds and whether its retry time has come decide everything it does. -/
theorem tryPass_cases :
    (b.currentState = .kClosed ∧ b.tryPass t = (b, true)) ∨
    (b.currentState = .kOpen ∧ b.retryTimeoutArrived t = true ∧
      b.tryPass t = ({ b with currentState := .kHalfOpen }, true)) ∨
    (b.currentState = .kOpen ∧ b.retryTimeoutArrived t = false ∧ b.tryPass t = (b, false)) ∨
    (b.currentState = .kHalfOpen ∧ b.tryPass t = (b, false)) := by
  unfold tryPass
  cases hs : b.currentState with
  | kClosed => exact .inl ⟨rfl, rfl⟩
  | kHalfOpen => exact .inr (.inr (.inr ⟨rfl, rfl⟩))
  | kOpen =>
    cases ha : b.retryTimeoutArrived t with
    | true => exact .inr (.inl ⟨rfl, rfl, by simp [fromOpenToHalfOpen, hs]⟩)
    | false => exact .inr (.inr (.inl ⟨rfl, rfl, by simp⟩))

@[simp] theorem tryPass_rule : (b.tryPass t).1.rule = b.rule := by
  rcases b.tryPass_cases t with ⟨-, h⟩ | ⟨-, -, h⟩ | ⟨-, -, h⟩ | ⟨-, h⟩ <;> rw [h]

/-- A completion never leaves a breaker HalfOpen: from HalfOpen it decides, from Closed it can only
open. -/
theorem recordAndHandleStateChange_spec (bad : Bool) (curValue : ℤ → ℤ → ℚ) :
    (b.recordAndHandleStateChange t bad curValue).rule = b.rule ∧
      (b.recordAndHandleStateChange t bad curValue).currentState ≠ .kHalfOpen := by
  unfold recordAndHandleStateChange
  cases hs : b.currentState with
  | kOpen =>
    refine ⟨rfl, ?_⟩
    rw [hs]
    simp
  | kHalfOpen =>
    cases bad
    · simp [fromHalfOpenToClose, hs, reset]
    · simp [fromHalfOpenToOpen, hs, updateNextRetryTimestamp]
  | kClosed =>
    have hne : b.currentState ≠ .kHalfOpen := by
      rw [hs]
      simp
    dsimp only
    split_ifs
    · exact ⟨rfl, hne⟩
    · simp [fromCloseToOpen, hs, updateNextRetryTimestamp]
    · exact ⟨rfl, hne⟩

theorem recordCompleteWith_spec (bad : Bool) (curValue : ℤ → ℤ → ℚ) :
    (b.recordCompleteWith t bad curValue).rule = b.rule ∧
      (b.recordCompleteWith t bad curValue).currentState ≠ .kHalfOpen :=
  recordAndHandleStateChange_spec _ t bad curValue

@[simp] theorem recordComplete_rule (rt : ℤ) (error : String) :
    (b.recordComplete t rt error).rule = b.rule := by
  unfold recordComplete
  cases b.cls
  · exact (b.recordCompleteWith_spec t _ _).1
  · exact (b.recordCompleteWith_spec t _ _).1

/-- No breaker is HalfOpen after a completion. -/
theorem recordComplete_ne_halfOpen (rt : ℤ) (error : String) :
    (b.recordComplete t rt error).currentState ≠ .kHalfOpen := by
  unfold recordComplete
  cases b.cls
  · exact (b.recordCompleteWith_spec t _ _).2
  · exact (b.recordCompleteWith_spec t _ _).2

/-- **Inversion of a completion.**  The state stays and was not HalfOpen, or the breaker enters Open and
sets its retry time, or a HalfOpen breaker closes. -/
theorem recordAndHandleStateChange_cases (bad : Bool) (curValue : ℤ → ℤ → ℚ) :
    (b.currentState ≠ .kHalfOpen ∧ b.recordAndHandleStateChange t bad curValue = b) ∨
    (b.currentState ≠ .kOpen ∧ b.recordAndHandleStateChange t bad curValue =
      { b with currentState := .kOpen, nextRetryTimestamp := t + b.retryTimeoutMs }) ∨
    (b.currentState = .kHalfOpen ∧ bad = false ∧ b.recordAndHandleStateChange t bad curValue =
      { b with currentState := .kClosed }.reset t) := by
  unfold recordAndHandleStateChange
  cases hs : b.currentState with
  | kOpen => exact .inl ⟨by simp, rfl⟩
  | kHalfOpen =>
    cases bad with
    | true =>
      right; left
      refine ⟨by simp, ?_⟩
      simp [fromHalfOpenToOpen, hs, updateNextRetryTimestamp]
    | false =>
      right; right
      refine ⟨rfl, rfl, ?_⟩
      simp [fromHalfOpenToClose, hs]
  | kClosed =>
    dsimp only
    split_ifs
    · exact .inl ⟨by simp, rfl⟩
    · right; left
      refine ⟨by simp, ?_⟩
      simp [fromCloseToOpen, hs, updateNextRetryTimestamp]
    · exact .inl ⟨by simp, rfl⟩

/-- The same for `RecordComplete`, on the fields of the protocol. -/
theorem recordComplete_cases (rt : ℤ) (error : String) :
    (b.recordComplete t rt error).retryTimeoutMs = b.retryTimeoutMs ∧
    ((b.currentState ≠ .kHalfOpen ∧ (b.recordComplete t rt error).currentState = b.currentState ∧
        (b.recordComplete t rt error).nextRetryTimestamp = b.nextRetryTimestamp) ∨
      (b.currentState ≠ .kOpen ∧ (b.recordComplete t rt error).currentState = .kOpen ∧
        (b.recordComplete t rt error).nextRetryTimestamp = t + b.retryTimeoutMs) ∨
      (b.currentState = .kHalfOpen ∧ (b.recordComplete t rt error).currentState = .kClosed ∧
        (b.recordComplete t rt error).nextRetryTimestamp = b.nextRetryTimestamp)) := by
  have hwith : ∀ (bad : Bool) (curValue : ℤ → ℤ → ℚ) (b' : AbstractCircuitBreaker),
      b' = b.recordCompleteWith t bad curValue → b'.retryTimeoutMs = b.retryTimeoutMs ∧
      ((b.currentState ≠ .kHalfOpen ∧ b'.currentState = b.currentState ∧
          b'.nextRetryTimestamp = b.nextRetryTimestamp) ∨
        (b.currentState ≠ .kOpen ∧ b'.currentState = .kOpen ∧
          b'.nextRetryTimestamp = t + b.retryTimeoutMs) ∨
        (b.currentState = .kHalfOpen ∧ b'.currentState = .kClosed ∧
          b'.nextRetryTimestamp = b.nextRetryTimestamp)) := by
    rintro bad curValue b' rfl
    unfold recordCompleteWith
    dsimp only
    rcases recordAndHandleStateChange_cases { b with slidingCounter := _ } t bad curValue with
      ⟨hs, h⟩ | ⟨hs, h⟩ | ⟨hs, -, h⟩
    · rw [h]
      exact ⟨rfl, .inl ⟨hs, rfl, rfl⟩⟩
    · rw [h]
      exact ⟨rfl, .inr (.inl ⟨hs, rfl, rfl⟩)⟩
    · rw [h]
      exact ⟨rfl, .inr (.inr ⟨hs, rfl, rfl⟩)⟩
  unfold recordComplete
  cases b.cls with
  | errorCircuitBreaker => exact hwith _ _ _ rfl
  | responseTimeCircuitBreaker => exact hwith _ _ _ rfl

end AbstractCircuitBreaker

end SentinelCpp.CircuitBreaker
