import SentinelCpp.CircuitBreaker.Protocol
import SentinelCpp.Lib.Fold

/-!
# The two breaker classes

`ErrorCircuitBreaker` and `ResponseTimeCircuitBreaker` as they are written: each has its own counter, its
own leap array and its own `TryPass`, `Reset`, `RecordComplete` and `RecordAndHandleStateChange`.
`toAbstract` is the breaker of the other modules; a call on either class is the call there
(`ErrorCircuitBreaker.toAbstract_call`, `ResponseTimeCircuitBreaker.toAbstract_call`).  The counts are
`int64_t` and stand for integers here, the values compared are `double` and stand for rationals.
-/

namespace SentinelCpp.CircuitBreaker

open SentinelCpp.Stat SentinelCpp.Lib

/-! ### What both classes inherit -/

/-- The fields of `AbstractCircuitBreaker`. -/
structure BreakerBase where
  rule : Rule
  retryTimeoutMs : ℤ
  currentState : State
  nextRetryTimestamp : ℤ

namespace BreakerBase

variable (b : BreakerBase) (t : ℕ)

def mk' (rule : Rule) : BreakerBase where
  rule := rule
  retryTimeoutMs := toInt32 (rule.retryTimeoutSec * 1000)
  currentState := .kClosed
  nextRetryTimestamp := 0

def retryTimeoutArrived : Bool := decide ((t : ℤ) ≥ b.nextRetryTimestamp)

def updateNextRetryTimestamp : BreakerBase := { b with nextRetryTimestamp := t + b.retryTimeoutMs }

def fromCloseToOpen : BreakerBase × Bool :=
  if b.currentState = .kClosed then
    ({ b with currentState := .kOpen }.updateNextRetryTimestamp t, true)
  else (b, false)

def fromOpenToHalfOpen : BreakerBase × Bool :=
  if b.currentState = .kOpen then ({ b with currentState := .kHalfOpen }, true) else (b, false)

def fromHalfOpenToOpen : BreakerBase × Bool :=
  if b.currentState = .kHalfOpen then
    ({ b with currentState := .kOpen }.updateNextRetryTimestamp t, true)
  else (b, false)

/-- The compare-and-swap of `FromHalfOpenToClose`, which goes on with the `Reset()` of the class. -/
def swapHalfOpenToClosed : BreakerBase × Bool :=
  if b.currentState = .kHalfOpen then ({ b with currentState := .kClosed }, true) else (b, false)

end BreakerBase

/-! ### `ErrorCircuitBreaker` -/

structure SimpleErrorCounter where
  errorCount : ℤ := 0
  totalCount : ℤ := 0
  deriving DecidableEq

namespace SimpleErrorCounter

variable (c : SimpleErrorCounter)

def addErrorCount (count : ℤ) : SimpleErrorCounter := { c with errorCount := c.errorCount + count }

def addTotalCount (count : ℤ) : SimpleErrorCounter := { c with totalCount := c.totalCount + count }

def reset (_ : SimpleErrorCounter) : SimpleErrorCounter := { errorCount := 0, totalCount := 0 }

instance : Resettable SimpleErrorCounter := ⟨reset⟩

end SimpleErrorCounter

structure ErrorCircuitBreaker extends BreakerBase where
  strategy : Strategy
  threshold : ℚ
  slidingCounter : LeapArray SimpleErrorCounter

namespace ErrorCircuitBreaker

variable (b : ErrorCircuitBreaker) (t : ℕ)

def mk' (rule : Rule) : ErrorCircuitBreaker where
  toBreakerBase := .mk' rule
  strategy := rule.strategy
  threshold := rule.threshold
  slidingCounter := LeapArray.mk' 1 rule.statIntervalMs.toNat {}

/-- A call of an inherited method. -/
def onBase (f : BreakerBase → BreakerBase × Bool) : ErrorCircuitBreaker × Bool :=
  let r := f b.toBreakerBase
  ({ b with toBreakerBase := r.1 }, r.2)

def tryPass : ErrorCircuitBreaker × Bool :=
  let state := b.currentState
  if state = .kClosed then (b, true)
  else if state = .kOpen then
    if b.retryTimeoutArrived t then b.onBase fun base => base.fromOpenToHalfOpen else (b, false)
  else (b, false)

def reset : ErrorCircuitBreaker :=
  { b with slidingCounter := b.slidingCounter.updateCurrent t SimpleErrorCounter.reset }

def fromHalfOpenToClose : ErrorCircuitBreaker × Bool :=
  match b.onBase fun base => base.swapHalfOpenToClosed with
  | (b, true) => (b.reset t, true)
  | (b, false) => (b, false)

def recordAndHandleStateChange (err : String) : ErrorCircuitBreaker :=
  if b.currentState = .kOpen then b
  else if b.currentState = .kHalfOpen then
    if err ≠ "" then (b.onBase fun base => base.fromHalfOpenToOpen t).1
    else (b.fromHalfOpenToClose t).1
  else
    let counters := b.slidingCounter.values t
    let errCount : ℤ := counters.foldl (fun n c => n + c.errorCount) 0
    let totalCount : ℤ := counters.foldl (fun n c => n + c.totalCount) 0
    if totalCount < b.rule.minRequestAmount then b
    else
      let curValue : ℚ :=
        if b.strategy = .kErrorRatio then (errCount : ℚ) * 1 / totalCount else errCount
      if curValue > b.threshold then
        match b.currentState with
        | .kClosed => (b.onBase fun base => base.fromCloseToOpen t).1
        | .kHalfOpen => (b.onBase fun base => base.fromHalfOpenToOpen t).1
        | .kOpen => b
      else b

/-- `RecordComplete(_, err)`. -/
def recordComplete (_ : ℤ) (err : String) : ErrorCircuitBreaker :=
  let counter (c : SimpleErrorCounter) : SimpleErrorCounter :=
    let c := if err ≠ "" then c.addErrorCount 1 else c
    c.addTotalCount 1
  let b := { b with slidingCounter := b.slidingCounter.updateCurrent t counter }
  b.recordAndHandleStateChange t err

end ErrorCircuitBreaker

/-! ### `ResponseTimeCircuitBreaker` -/

structure SlowRequestCounter where
  slowCount : ℤ := 0
  totalCount : ℤ := 0
  deriving DecidableEq

namespace SlowRequestCounter

variable (c : SlowRequestCounter)

def addSlowCount (count : ℤ) : SlowRequestCounter := { c with slowCount := c.slowCount + count }

def addTotalCount (count : ℤ) : SlowRequestCounter := { c with totalCount := c.totalCount + count }

def reset (_ : SlowRequestCounter) : SlowRequestCounter := { slowCount := 0, totalCount := 0 }

instance : Resettable SlowRequestCounter := ⟨reset⟩

end SlowRequestCounter

structure ResponseTimeCircuitBreaker extends BreakerBase where
  maxAllowedRt : ℤ
  maxSlowRequestRatio : ℚ
  slidingCounter : LeapArray SlowRequestCounter

namespace ResponseTimeCircuitBreaker

variable (b : ResponseTimeCircuitBreaker) (t : ℕ)

def mk' (rule : Rule) : ResponseTimeCircuitBreaker where
  toBreakerBase := .mk' rule
  maxAllowedRt := rule.maxAllowedRt
  maxSlowRequestRatio := rule.threshold
  slidingCounter := LeapArray.mk' 1 rule.statIntervalMs.toNat {}

/-- A call of an inherited method. -/
def onBase (f : BreakerBase → BreakerBase × Bool) : ResponseTimeCircuitBreaker × Bool :=
  let r := f b.toBreakerBase
  ({ b with toBreakerBase := r.1 }, r.2)

def tryPass : ResponseTimeCircuitBreaker × Bool :=
  let state := b.currentState
  if state = .kClosed then (b, true)
  else if state = .kOpen then
    if b.retryTimeoutArrived t then b.onBase fun base => base.fromOpenToHalfOpen else (b, false)
  else (b, false)

def reset : ResponseTimeCircuitBreaker :=
  { b with slidingCounter := b.slidingCounter.updateCurrent t SlowRequestCounter.reset }

def fromHalfOpenToClose : ResponseTimeCircuitBreaker × Bool :=
  match b.onBase fun base => base.swapHalfOpenToClosed with
  | (b, true) => (b.reset t, true)
  | (b, false) => (b, false)

def recordAndHandleStateChange (rt : ℤ) : ResponseTimeCircuitBreaker :=
  if b.currentState = .kOpen then b
  else if b.currentState = .kHalfOpen then
    if rt > b.maxAllowedRt then (b.onBase fun base => base.fromHalfOpenToOpen t).1
    else (b.fromHalfOpenToClose t).1
  else
    let counters := b.slidingCounter.values t
    let slowCount : ℤ := counters.foldl (fun n c => n + c.slowCount) 0
    let totalCount : ℤ := counters.foldl (fun n c => n + c.totalCount) 0
    if totalCount < b.rule.minRequestAmount then b
    else
      let currentRatio : ℚ := (slowCount : ℚ) * 1 / totalCount
      if currentRatio > b.maxSlowRequestRatio then
        match b.currentState with
        | .kClosed => (b.onBase fun base => base.fromCloseToOpen t).1
        | .kHalfOpen => (b.onBase fun base => base.fromHalfOpenToOpen t).1
        | .kOpen => b
      else b

/-- `RecordComplete(rt, _)`. -/
def recordComplete (rt : ℤ) (_ : String) : ResponseTimeCircuitBreaker :=
  let counter (c : SlowRequestCounter) : SlowRequestCounter :=
    let c := if rt > b.maxAllowedRt then c.addSlowCount 1 else c
    c.addTotalCount 1
  let b := { b with slidingCounter := b.slidingCounter.updateCurrent t counter }
  b.recordAndHandleStateChange t rt

end ResponseTimeCircuitBreaker

/-! ### `ErrorCircuitBreaker` is the machine -/

/-- Two sums of counters, one after the image. -/
theorem foldl_eq_sum_map {C : Type} (count : C → ℤ) (count' : RequestCounter → ℤ)
    (g : C → RequestCounter) (h : ∀ c, count' (g c) = count c) (l : List C) :
    l.foldl (fun n c => n + count c) 0 = ((l.map g).map count').sum := by
  rw [List.map_map, List.sum_eq_foldl, List.foldl_map]
  simp only [Function.comp_apply, h]

namespace ErrorCircuitBreaker

/-- The errors are the bad completions. -/
def requests (c : SimpleErrorCounter) : RequestCounter := ⟨c.errorCount, c.totalCount⟩

def toAbstract (b : ErrorCircuitBreaker) : AbstractCircuitBreaker where
  rule := b.rule
  cls := .errorCircuitBreaker
  retryTimeoutMs := b.retryTimeoutMs
  currentState := b.currentState
  nextRetryTimestamp := b.nextRetryTimestamp
  slidingCounter := b.slidingCounter.mapValue requests

/-- What the constructor copies from the rule. -/
structure OfRule (b : ErrorCircuitBreaker) : Prop where
  strategy : b.strategy = b.rule.strategy
  threshold : b.threshold = b.rule.threshold

theorem ofRule_mk' (rule : Rule) : (mk' rule).OfRule := ⟨rfl, rfl⟩

theorem toAbstract_mk' (rule : Rule) : (mk' rule).toAbstract = .mk' rule .errorCircuitBreaker := by
  unfold toAbstract mk' AbstractCircuitBreaker.mk' BreakerBase.mk' LeapArray.mapValue LeapArray.mk'
  rfl

variable (b : ErrorCircuitBreaker) (t : ℕ)

theorem toAbstract_tryPass : (b.tryPass t).1.toAbstract = (b.toAbstract.tryPass t).1 ∧
    (b.tryPass t).2 = (b.toAbstract.tryPass t).2 := by
  have harrived : b.toAbstract.retryTimeoutArrived t = b.retryTimeoutArrived t := rfl
  have hstate : b.toAbstract.currentState = b.currentState := rfl
  unfold tryPass AbstractCircuitBreaker.tryPass
  rw [harrived, hstate]
  cases hs : b.currentState with
  | kClosed | kHalfOpen => simp
  | kOpen =>
    cases b.retryTimeoutArrived t with
    | false => simp
    | true => simp [onBase, BreakerBase.fromOpenToHalfOpen, hs,
        AbstractCircuitBreaker.fromOpenToHalfOpen, toAbstract]

theorem toAbstract_reset : (b.reset t).toAbstract = b.toAbstract.reset t := by
  have hcounter : (b.slidingCounter.updateCurrent t SimpleErrorCounter.reset).mapValue requests =
      (b.slidingCounter.mapValue requests).updateCurrent t Resettable.reset :=
    b.slidingCounter.mapValue_updateCurrent requests t (fun _ => rfl) fun _ => rfl
  unfold reset AbstractCircuitBreaker.reset toAbstract
  dsimp only
  rw [hcounter]

/-- The value compared with the threshold. -/
def curValue (b : AbstractCircuitBreaker) (errCount totalCount : ℤ) : ℚ :=
  if b.rule.strategy = .kErrorRatio then (errCount : ℚ) * 1 / totalCount else errCount

variable {b} in
theorem toAbstract_recordAndHandleStateChange (h : b.OfRule) (err : String) :
    (b.recordAndHandleStateChange t err).toAbstract =
      b.toAbstract.recordAndHandleStateChange t (err ≠ "") (curValue b.toAbstract) := by
  have hstate : b.toAbstract.currentState = b.currentState := rfl
  have hvalues : b.toAbstract.slidingCounter.values t = (b.slidingCounter.values t).map requests :=
    b.slidingCounter.values_mapValue requests t
  unfold recordAndHandleStateChange AbstractCircuitBreaker.recordAndHandleStateChange
  rw [hstate, hvalues]
  cases hs : b.currentState with
  | kOpen => rfl
  | kHalfOpen =>
    by_cases hbad : err = ""
    · simp only [reduceCtorEq, if_false, if_true, hbad, ne_eq, not_true, decide_false,
        Bool.false_eq_true, fromHalfOpenToClose, onBase, BreakerBase.swapHalfOpenToClosed, hs,
        AbstractCircuitBreaker.fromHalfOpenToClose, hstate]
      exact toAbstract_reset _ t
    · simp only [reduceCtorEq, if_false, if_true, hbad, ne_eq, not_false_eq_true, decide_true,
        onBase, BreakerBase.fromHalfOpenToOpen, hs, AbstractCircuitBreaker.fromHalfOpenToOpen, hstate]
      rfl
  | kClosed =>
    have hbad := foldl_eq_sum_map SimpleErrorCounter.errorCount RequestCounter.bad requests
      (fun _ => rfl) (b.slidingCounter.values t)
    have htotal := foldl_eq_sum_map SimpleErrorCounter.totalCount RequestCounter.total requests
      (fun _ => rfl) (b.slidingCounter.values t)
    have hmin : b.toAbstract.rule.minRequestAmount = b.rule.minRequestAmount := rfl
    have hthreshold : b.toAbstract.rule.threshold = b.threshold := h.threshold.symm
    have hstrategy : b.toAbstract.rule.strategy = b.strategy := h.strategy.symm
    simp only [reduceCtorEq, if_false, hbad, htotal, hmin, hthreshold, curValue, hstrategy,
      AbstractCircuitBreaker.fromCloseToOpen, hstate, hs, onBase, BreakerBase.fromCloseToOpen, if_true]
    split_ifs <;> rfl

variable {b} in
theorem toAbstract_recordComplete (h : b.OfRule) (rt : ℤ) (err : String) :
    (b.recordComplete t rt err).toAbstract = b.toAbstract.recordComplete t rt err := by
  have hcounter : (b.slidingCounter.updateCurrent t fun c =>
      (if err ≠ "" then c.addErrorCount 1 else c).addTotalCount 1).mapValue requests =
      (b.slidingCounter.mapValue requests).updateCurrent t fun c =>
        ⟨if decide (err ≠ "") = true then c.bad + 1 else c.bad, c.total + 1⟩ := by
    refine b.slidingCounter.mapValue_updateCurrent requests t (fun _ => rfl) fun c => ?_
    by_cases herr : err = ""
    · simp [herr, requests, SimpleErrorCounter.addTotalCount]
    · simp [herr, requests, SimpleErrorCounter.addTotalCount, SimpleErrorCounter.addErrorCount]
  have hrecord := fun counter => toAbstract_recordAndHandleStateChange t
    (b := { b with slidingCounter := counter }) ⟨h.strategy, h.threshold⟩ err
  refine (hrecord _).trans ?_
  unfold toAbstract
  dsimp only
  rw [hcounter]
  rfl

/-- No call touches what the constructor copied. -/
theorem recordAndHandleStateChange_copies (err : String) :
    (b.recordAndHandleStateChange t err).strategy = b.strategy ∧
      (b.recordAndHandleStateChange t err).threshold = b.threshold := by
  have hclose : (b.fromHalfOpenToClose t).1.strategy = b.strategy ∧
      (b.fromHalfOpenToClose t).1.threshold = b.threshold := by
    unfold fromHalfOpenToClose onBase
    dsimp only
    cases b.swapHalfOpenToClosed.2 <;> exact ⟨rfl, rfl⟩
  unfold recordAndHandleStateChange
  cases b.currentState with
  | kOpen => exact ⟨rfl, rfl⟩
  | kHalfOpen =>
    simp only [reduceCtorEq, if_false, if_true]
    split_ifs
    · exact ⟨rfl, rfl⟩
    · exact hclose
  | kClosed =>
    simp only [reduceCtorEq, if_false]
    split_ifs <;> exact ⟨rfl, rfl⟩

theorem recordComplete_copies (rt : ℤ) (err : String) :
    (b.recordComplete t rt err).strategy = b.strategy ∧
      (b.recordComplete t rt err).threshold = b.threshold :=
  recordAndHandleStateChange_copies _ t err

theorem tryPass_copies : (b.tryPass t).1.strategy = b.strategy ∧
    (b.tryPass t).1.threshold = b.threshold := by
  unfold tryPass onBase
  dsimp only
  split_ifs <;> exact ⟨rfl, rfl⟩

/-! Calls. -/

open AbstractCircuitBreaker (Op)

/-- The breaker after a call and the time it is made at. -/
def call (b : ErrorCircuitBreaker) (c : ℕ × Op) : ErrorCircuitBreaker :=
  match c.2 with
  | .tryPass => (b.tryPass c.1).1
  | .recordComplete rt err => b.recordComplete c.1 rt err

/-- What the call returns; `RecordComplete` returns nothing. -/
def callResult (b : ErrorCircuitBreaker) (c : ℕ × Op) : Option Bool :=
  match c.2 with
  | .tryPass => some (b.tryPass c.1).2
  | .recordComplete _ _ => none

/-- The breaker before the call with index `i`. -/
def stateAt (b : ErrorCircuitBreaker) (calls : List (ℕ × Op)) (i : ℕ) : ErrorCircuitBreaker :=
  (calls.take i).foldl call b

variable {b}

/-- A breaker that has kept the rule of its machine and the copies is still of its rule. -/
theorem OfRule.of_copies (h : b.OfRule) {b' : ErrorCircuitBreaker}
    (hrule : b'.toAbstract.rule = b.toAbstract.rule)
    (hcopies : b'.strategy = b.strategy ∧ b'.threshold = b.threshold) : b'.OfRule where
  strategy := (hcopies.1.trans h.strategy).trans (congrArg Rule.strategy hrule.symm)
  threshold := (hcopies.2.trans h.threshold).trans (congrArg Rule.threshold hrule.symm)

/-- **Refinement.**  A call is the call of the machine. -/
theorem toAbstract_call (h : b.OfRule) (c : ℕ × Op) :
    (b.call c).toAbstract = b.toAbstract.call c ∧ (b.call c).OfRule := by
  obtain ⟨t, op⟩ := c
  cases op with
  | tryPass =>
    have hcall := (b.toAbstract_tryPass t).1
    have hrule := (congrArg AbstractCircuitBreaker.rule hcall).trans (b.toAbstract.tryPass_rule t)
    exact ⟨hcall, h.of_copies hrule (b.tryPass_copies t)⟩
  | recordComplete rt err =>
    have hcall := toAbstract_recordComplete t h rt err
    have hrule := (congrArg AbstractCircuitBreaker.rule hcall).trans
      (b.toAbstract.recordComplete_rule t rt err)
    exact ⟨hcall, h.of_copies hrule (b.recordComplete_copies t rt err)⟩

theorem toAbstract_callResult (b : ErrorCircuitBreaker) (c : ℕ × Op) :
    b.callResult c = b.toAbstract.callResult c := by
  obtain ⟨t, op⟩ := c
  cases op with
  | tryPass => exact congrArg some (b.toAbstract_tryPass t).2
  | recordComplete rt err => rfl

/-- **Refinement of runs.** -/
theorem toAbstract_stateAt (h : b.OfRule) (calls : List (ℕ × Op)) (i : ℕ) :
    (b.stateAt calls i).toAbstract = b.toAbstract.stateAt calls i :=
  (foldl_simulates (fun _ c hb => toAbstract_call hb c) h (calls.take i)).1

end ErrorCircuitBreaker

/-! ### `ResponseTimeCircuitBreaker` is the machine -/

namespace ResponseTimeCircuitBreaker

/-- The slow requests are the bad completions. -/
def requests (c : SlowRequestCounter) : RequestCounter := ⟨c.slowCount, c.totalCount⟩

def toAbstract (b : ResponseTimeCircuitBreaker) : AbstractCircuitBreaker where
  rule := b.rule
  cls := .responseTimeCircuitBreaker
  retryTimeoutMs := b.retryTimeoutMs
  currentState := b.currentState
  nextRetryTimestamp := b.nextRetryTimestamp
  slidingCounter := b.slidingCounter.mapValue requests

/-- What the constructor copies from the rule. -/
structure OfRule (b : ResponseTimeCircuitBreaker) : Prop where
  maxAllowedRt : b.maxAllowedRt = b.rule.maxAllowedRt
  ratio : b.maxSlowRequestRatio = b.rule.threshold

theorem ofRule_mk' (rule : Rule) : (mk' rule).OfRule := ⟨rfl, rfl⟩

theorem toAbstract_mk' (rule : Rule) : (mk' rule).toAbstract = .mk' rule .responseTimeCircuitBreaker := by
  unfold toAbstract mk' AbstractCircuitBreaker.mk' BreakerBase.mk' LeapArray.mapValue LeapArray.mk'
  rfl

variable (b : ResponseTimeCircuitBreaker) (t : ℕ)

theorem toAbstract_tryPass : (b.tryPass t).1.toAbstract = (b.toAbstract.tryPass t).1 ∧
    (b.tryPass t).2 = (b.toAbstract.tryPass t).2 := by
  have harrived : b.toAbstract.retryTimeoutArrived t = b.retryTimeoutArrived t := rfl
  have hstate : b.toAbstract.currentState = b.currentState := rfl
  unfold tryPass AbstractCircuitBreaker.tryPass
  rw [harrived, hstate]
  cases hs : b.currentState with
  | kClosed | kHalfOpen => simp
  | kOpen =>
    cases b.retryTimeoutArrived t with
    | false => simp
    | true => simp [onBase, BreakerBase.fromOpenToHalfOpen, hs,
        AbstractCircuitBreaker.fromOpenToHalfOpen, toAbstract]

theorem toAbstract_reset : (b.reset t).toAbstract = b.toAbstract.reset t := by
  have hcounter : (b.slidingCounter.updateCurrent t SlowRequestCounter.reset).mapValue requests =
      (b.slidingCounter.mapValue requests).updateCurrent t Resettable.reset :=
    b.slidingCounter.mapValue_updateCurrent requests t (fun _ => rfl) fun _ => rfl
  unfold reset AbstractCircuitBreaker.reset toAbstract
  dsimp only
  rw [hcounter]

variable {b} in
theorem toAbstract_recordAndHandleStateChange (h : b.OfRule) (rt : ℤ) :
    (b.recordAndHandleStateChange t rt).toAbstract =
      b.toAbstract.recordAndHandleStateChange t (rt > b.rule.maxAllowedRt)
        fun slowCount totalCount => (slowCount : ℚ) * 1 / totalCount := by
  have hstate : b.toAbstract.currentState = b.currentState := rfl
  have hvalues : b.toAbstract.slidingCounter.values t = (b.slidingCounter.values t).map requests :=
    b.slidingCounter.values_mapValue requests t
  unfold recordAndHandleStateChange AbstractCircuitBreaker.recordAndHandleStateChange
  rw [hstate, hvalues, h.maxAllowedRt]
  cases hs : b.currentState with
  | kOpen => rfl
  | kHalfOpen =>
    by_cases hbad : rt > b.rule.maxAllowedRt
    · simp only [reduceCtorEq, if_false, if_true, hbad, decide_true,
        onBase, BreakerBase.fromHalfOpenToOpen, hs, AbstractCircuitBreaker.fromHalfOpenToOpen, hstate]
      rfl
    · simp only [reduceCtorEq, if_false, if_true, hbad, decide_false,
        Bool.false_eq_true, fromHalfOpenToClose, onBase, BreakerBase.swapHalfOpenToClosed, hs,
        AbstractCircuitBreaker.fromHalfOpenToClose, hstate]
      exact toAbstract_reset _ t
  | kClosed =>
    have hbad := foldl_eq_sum_map SlowRequestCounter.slowCount RequestCounter.bad requests
      (fun _ => rfl) (b.slidingCounter.values t)
    have htotal := foldl_eq_sum_map SlowRequestCounter.totalCount RequestCounter.total requests
      (fun _ => rfl) (b.slidingCounter.values t)
    have hmin : b.toAbstract.rule.minRequestAmount = b.rule.minRequestAmount := rfl
    have hthreshold : b.toAbstract.rule.threshold = b.maxSlowRequestRatio := h.ratio.symm
    simp only [reduceCtorEq, if_false, hbad, htotal, hmin, hthreshold,
      AbstractCircuitBreaker.fromCloseToOpen, hstate, hs, onBase, BreakerBase.fromCloseToOpen, if_true]
    split_ifs <;> rfl

variable {b} in
theorem toAbstract_recordComplete (h : b.OfRule) (rt : ℤ) (err : String) :
    (b.recordComplete t rt err).toAbstract = b.toAbstract.recordComplete t rt err := by
  have hcounter : (b.slidingCounter.updateCurrent t fun c =>
      (if rt > b.maxAllowedRt then c.addSlowCount 1 else c).addTotalCount 1).mapValue requests =
      (b.slidingCounter.mapValue requests).updateCurrent t fun c =>
        ⟨if decide (rt > b.rule.maxAllowedRt) = true then c.bad + 1 else c.bad, c.total + 1⟩ := by
    refine b.slidingCounter.mapValue_updateCurrent requests t (fun _ => rfl) fun c => ?_
    rw [h.maxAllowedRt]
    by_cases hslow : rt > b.rule.maxAllowedRt
    · simp [hslow, requests, SlowRequestCounter.addTotalCount, SlowRequestCounter.addSlowCount]
    · simp [hslow, requests, SlowRequestCounter.addTotalCount]
  have hrecord := fun counter => toAbstract_recordAndHandleStateChange t
    (b := { b with slidingCounter := counter }) ⟨h.maxAllowedRt, h.ratio⟩ rt
  refine (hrecord _).trans ?_
  unfold toAbstract
  dsimp only
  rw [hcounter]
  rfl

/-- No call touches what the constructor copied. -/
theorem recordAndHandleStateChange_copies (rt : ℤ) :
    (b.recordAndHandleStateChange t rt).maxAllowedRt = b.maxAllowedRt ∧
      (b.recordAndHandleStateChange t rt).maxSlowRequestRatio = b.maxSlowRequestRatio := by
  have hclose : (b.fromHalfOpenToClose t).1.maxAllowedRt = b.maxAllowedRt ∧
      (b.fromHalfOpenToClose t).1.maxSlowRequestRatio = b.maxSlowRequestRatio := by
    unfold fromHalfOpenToClose onBase
    dsimp only
    cases b.swapHalfOpenToClosed.2 <;> exact ⟨rfl, rfl⟩
  unfold recordAndHandleStateChange
  cases b.currentState with
  | kOpen => exact ⟨rfl, rfl⟩
  | kHalfOpen =>
    simp only [reduceCtorEq, if_false, if_true]
    split_ifs
    · exact ⟨rfl, rfl⟩
    · exact hclose
  | kClosed =>
    simp only [reduceCtorEq, if_false]
    split_ifs <;> exact ⟨rfl, rfl⟩

theorem recordComplete_copies (rt : ℤ) (err : String) :
    (b.recordComplete t rt err).maxAllowedRt = b.maxAllowedRt ∧
      (b.recordComplete t rt err).maxSlowRequestRatio = b.maxSlowRequestRatio :=
  recordAndHandleStateChange_copies _ t rt

theorem tryPass_copies : (b.tryPass t).1.maxAllowedRt = b.maxAllowedRt ∧
    (b.tryPass t).1.maxSlowRequestRatio = b.maxSlowRequestRatio := by
  unfold tryPass onBase
  dsimp only
  split_ifs <;> exact ⟨rfl, rfl⟩

/-! Calls. -/

open AbstractCircuitBreaker (Op)

/-- The breaker after a call and the time it is made at. -/
def call (b : ResponseTimeCircuitBreaker) (c : ℕ × Op) : ResponseTimeCircuitBreaker :=
  match c.2 with
  | .tryPass => (b.tryPass c.1).1
  | .recordComplete rt err => b.recordComplete c.1 rt err

/-- What the call returns; `RecordComplete` returns nothing. -/
def callResult (b : ResponseTimeCircuitBreaker) (c : ℕ × Op) : Option Bool :=
  match c.2 with
  | .tryPass => some (b.tryPass c.1).2
  | .recordComplete _ _ => none

/-- The breaker before the call with index `i`. -/
def stateAt (b : ResponseTimeCircuitBreaker) (calls : List (ℕ × Op)) (i : ℕ) : ResponseTimeCircuitBreaker :=
  (calls.take i).foldl call b

variable {b}

/-- A breaker that has kept the rule of its machine and the copies is still of its rule. -/
theorem OfRule.of_copies (h : b.OfRule) {b' : ResponseTimeCircuitBreaker}
    (hrule : b'.toAbstract.rule = b.toAbstract.rule)
    (hcopies : b'.maxAllowedRt = b.maxAllowedRt ∧ b'.maxSlowRequestRatio = b.maxSlowRequestRatio) :
    b'.OfRule where
  maxAllowedRt := (hcopies.1.trans h.maxAllowedRt).trans (congrArg Rule.maxAllowedRt hrule.symm)
  ratio := (hcopies.2.trans h.ratio).trans (congrArg Rule.threshold hrule.symm)

/-- **Refinement.**  A call is the call of the machine. -/
theorem toAbstract_call (h : b.OfRule) (c : ℕ × Op) :
    (b.call c).toAbstract = b.toAbstract.call c ∧ (b.call c).OfRule := by
  obtain ⟨t, op⟩ := c
  cases op with
  | tryPass =>
    have hcall := (b.toAbstract_tryPass t).1
    have hrule := (congrArg AbstractCircuitBreaker.rule hcall).trans (b.toAbstract.tryPass_rule t)
    exact ⟨hcall, h.of_copies hrule (b.tryPass_copies t)⟩
  | recordComplete rt err =>
    have hcall := toAbstract_recordComplete t h rt err
    have hrule := (congrArg AbstractCircuitBreaker.rule hcall).trans
      (b.toAbstract.recordComplete_rule t rt err)
    exact ⟨hcall, h.of_copies hrule (b.recordComplete_copies t rt err)⟩

theorem toAbstract_callResult (b : ResponseTimeCircuitBreaker) (c : ℕ × Op) :
    b.callResult c = b.toAbstract.callResult c := by
  obtain ⟨t, op⟩ := c
  cases op with
  | tryPass => exact congrArg some (b.toAbstract_tryPass t).2
  | recordComplete rt err => rfl

/-- **Refinement of runs.** -/
theorem toAbstract_stateAt (h : b.OfRule) (calls : List (ℕ × Op)) (i : ℕ) :
    (b.stateAt calls i).toAbstract = b.toAbstract.stateAt calls i :=
  (foldl_simulates (fun _ c hb => toAbstract_call hb c) h (calls.take i)).1

end ResponseTimeCircuitBreaker

end SentinelCpp.CircuitBreaker
