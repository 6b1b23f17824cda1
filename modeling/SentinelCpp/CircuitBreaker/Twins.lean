import SentinelCpp.CircuitBreaker.Classes
import SentinelCpp.CircuitBreaker.Tripping

/-!
# The two breaker classes are one machine

`ErrorCircuitBreaker` and `ResponseTimeCircuitBreaker` keep their own counters and repeat each other's
code.  `Alike` relates two breakers that agree on everything but the rule and the class; a call that
counts as bad in both or in neither keeps it.  The simulation of the two classes goes through the machine
that each of them refines.
-/

namespace SentinelCpp.CircuitBreaker.AbstractCircuitBreaker

open Lib Stat

/-- Two breakers in the same state, with the same counts and the same numbers to compare. -/
structure Alike (a b : AbstractCircuitBreaker) : Prop where
  state : a.currentState = b.currentState
  retry : a.nextRetryTimestamp = b.nextRetryTimestamp
  timeout : a.retryTimeoutMs = b.retryTimeoutMs
  counter : a.slidingCounter = b.slidingCounter
  threshold : a.rule.threshold = b.rule.threshold
  minRequestAmount : a.rule.minRequestAmount = b.rule.minRequestAmount

variable {a b : AbstractCircuitBreaker} {t : ℕ}

theorem Alike.tryPass (h : Alike a b) (t : ℕ) :
    (a.tryPass t).2 = (b.tryPass t).2 ∧ Alike (a.tryPass t).1 (b.tryPass t).1 := by
  have harrived : b.retryTimeoutArrived t = a.retryTimeoutArrived t := by
    rw [retryTimeoutArrived, retryTimeoutArrived, h.retry]
  rcases a.tryPass_cases t with ⟨hs, heq⟩ | ⟨hs, ha, heq⟩ | ⟨hs, ha, heq⟩ | ⟨hs, heq⟩
  · have hb : b.tryPass t = (b, true) := by simp [AbstractCircuitBreaker.tryPass, ← h.state, hs]
    rw [heq, hb]
    exact ⟨rfl, h⟩
  · have hb : b.tryPass t = ({ b with currentState := .kHalfOpen }, true) := by
      simp [AbstractCircuitBreaker.tryPass, ← h.state, hs, harrived, ha, fromOpenToHalfOpen]
    rw [heq, hb]
    exact ⟨rfl, rfl, h.retry, h.timeout, h.counter, h.threshold, h.minRequestAmount⟩
  · have hb : b.tryPass t = (b, false) := by
      simp [AbstractCircuitBreaker.tryPass, ← h.state, hs, harrived, ha]
    rw [heq, hb]
    exact ⟨rfl, h⟩
  · have hb : b.tryPass t = (b, false) := by simp [AbstractCircuitBreaker.tryPass, ← h.state, hs]
    rw [heq, hb]
    exact ⟨rfl, h⟩

theorem Alike.counted (h : Alike a b) (t : ℕ) (bad : Bool) :
    Alike (a.counted t bad) (b.counted t bad) := by
  refine ⟨h.state, h.retry, h.timeout, ?_, h.threshold, h.minRequestAmount⟩
  rw [AbstractCircuitBreaker.counted, AbstractCircuitBreaker.counted, h.counter]

theorem Alike.enterOpen (h : Alike a b) (t : ℕ) :
    Alike ({ a with currentState := .kOpen }.updateNextRetryTimestamp t)
      ({ b with currentState := .kOpen }.updateNextRetryTimestamp t) :=
  ⟨rfl, congrArg (fun n : ℤ => t + n) h.timeout, h.timeout, h.counter, h.threshold,
    h.minRequestAmount⟩

theorem Alike.close (h : Alike a b) (t : ℕ) :
    Alike ({ a with currentState := .kClosed }.reset t)
      ({ b with currentState := .kClosed }.reset t) := by
  refine ⟨rfl, h.retry, h.timeout, ?_, h.threshold, h.minRequestAmount⟩
  rw [reset, reset, h.counter]

/-- Both look at the same counts in the same way. -/
theorem Alike.recordAndHandleStateChange (h : Alike a b) (t : ℕ) (bad : Bool) :
    Alike (a.recordAndHandleStateChange t bad ratio) (b.recordAndHandleStateChange t bad ratio) := by
  have hstate := h.state
  unfold AbstractCircuitBreaker.recordAndHandleStateChange
  rw [h.counter, h.threshold, h.minRequestAmount]
  cases hs : a.currentState with
  | kOpen =>
    rw [← hstate, hs]
    exact h
  | kHalfOpen =>
    rw [← hstate, hs]
    cases bad with
    | true =>
      simp only [if_true, fromHalfOpenToOpen, hs, ← hstate]
      exact h.enterOpen t
    | false =>
      simp only [Bool.false_eq_true, if_false, fromHalfOpenToClose, hs, ← hstate, if_true]
      exact h.close t
  | kClosed =>
    rw [← hstate, hs]
    dsimp only
    split_ifs
    · exact h
    · simp only [fromCloseToOpen, hs, ← hstate, if_true]
      exact h.enterOpen t
    · exact h

/-- **One completion**, bad for both or for neither. -/
theorem Alike.recordComplete (h : Alike a b) (ha : a.ComparesRatio) (hb : b.ComparesRatio) (t : ℕ)
    {rt : ℤ} {error : String} (hbad : a.isBad rt error = b.isBad rt error) :
    Alike (a.recordComplete t rt error) (b.recordComplete t rt error) := by
  rw [recordComplete_eq ha, recordComplete_eq hb, hbad]
  exact (h.counted t _).recordAndHandleStateChange t _

/-! ### Runs -/

@[simp] theorem call_rule (b : AbstractCircuitBreaker) (c : ℕ × Op) : (b.call c).rule = b.rule := by
  obtain ⟨t, op⟩ := c
  cases op with
  | tryPass => exact b.tryPass_rule t
  | recordComplete rt error => exact b.recordComplete_rule t rt error

theorem recordComplete_cls (b : AbstractCircuitBreaker) (t : ℕ) (rt : ℤ) (error : String) :
    (b.recordComplete t rt error).cls = b.cls := by
  have hwith : ∀ bad curValue, (b.recordCompleteWith t bad curValue).cls = b.cls := by
    intro bad curValue
    unfold recordCompleteWith
    rcases recordAndHandleStateChange_cases { b with slidingCounter := _ } t bad curValue with
      ⟨-, h⟩ | ⟨-, h⟩ | ⟨-, -, h⟩ <;> rw [h]
    rfl
  unfold AbstractCircuitBreaker.recordComplete
  cases hcls : b.cls with
  | errorCircuitBreaker => exact (hwith _ _).trans hcls
  | responseTimeCircuitBreaker => exact (hwith _ _).trans hcls

@[simp] theorem call_cls (b : AbstractCircuitBreaker) (c : ℕ × Op) : (b.call c).cls = b.cls := by
  obtain ⟨t, op⟩ := c
  cases op with
  | tryPass =>
    show (b.tryPass t).1.cls = b.cls
    rcases b.tryPass_cases t with ⟨-, h⟩ | ⟨-, -, h⟩ | ⟨-, -, h⟩ | ⟨-, h⟩ <;> rw [h]
  | recordComplete rt error => exact b.recordComplete_cls t rt error

/-- `a` and `b` are alike, and of the classes and rules of `a₀` and `b₀`. -/
structure Twins (a₀ b₀ a b : AbstractCircuitBreaker) : Prop where
  alike : Alike a b
  cls : a.cls = a₀.cls ∧ b.cls = b₀.cls
  rule : a.rule = a₀.rule ∧ b.rule = b₀.rule

variable {a₀ b₀ : AbstractCircuitBreaker}

/-- **One call**, whose completion is bad for both or for neither. -/
theorem Twins.call (h : Twins a₀ b₀ a b) (ha : a₀.ComparesRatio) (hb : b₀.ComparesRatio)
    {c : ℕ × Op} (hbad : ∀ rt error, c.2 = .recordComplete rt error →
      a₀.isBad rt error = b₀.isBad rt error) : Twins a₀ b₀ (a.call c) (b.call c) := by
  refine ⟨?_, by simpa using h.cls, by simpa using h.rule⟩
  obtain ⟨t, op⟩ := c
  cases op with
  | tryPass => exact (h.alike.tryPass t).2
  | recordComplete rt error =>
    have hbad' : a.isBad rt error = b.isBad rt error := by
      rw [isBad_congr h.cls.1 h.rule.1, isBad_congr h.cls.2 h.rule.2]
      exact hbad rt error rfl
    exact h.alike.recordComplete (ha.congr h.cls.1 h.rule.1) (hb.congr h.cls.2 h.rule.2) t hbad'

/-- **Run.**  Alike breakers stay alike, whatever the times. -/
theorem twins_stateAt (h : Alike a₀ b₀) (ha : a₀.ComparesRatio) (hb : b₀.ComparesRatio)
    {calls : List (ℕ × Op)} (hbad : ∀ t rt error, (t, .recordComplete rt error) ∈ calls →
      a₀.isBad rt error = b₀.isBad rt error) (i : ℕ) :
    Twins a₀ b₀ (a₀.stateAt calls i) (b₀.stateAt calls i) := by
  refine List.foldl_rel ⟨h, ⟨rfl, rfl⟩, rfl, rfl⟩ fun c hc a b hab => ?_
  refine hab.call ha hb fun rt error hop => hbad c.1 rt error ?_
  rw [← hop]
  exact List.mem_of_mem_take hc

/-- New breakers of rules that agree in what both classes read. -/
theorem alike_mk' {r₁ r₂ : Rule} (hthreshold : r₁.threshold = r₂.threshold)
    (hretry : r₁.retryTimeoutSec = r₂.retryTimeoutSec)
    (hmin : r₁.minRequestAmount = r₂.minRequestAmount)
    (hinterval : r₁.statIntervalMs = r₂.statIntervalMs) (cls₁ cls₂ : BreakerClass) :
    Alike (.mk' r₁ cls₁) (.mk' r₂ cls₂) := by
  refine ⟨rfl, rfl, ?_, ?_, hthreshold, hmin⟩
  · simp only [mk', hretry]
  · simp only [mk', hinterval]

end AbstractCircuitBreaker

/-! ### The two classes -/

open Lib Stat
open AbstractCircuitBreaker (Op halfRatioRule)

/-- `NewCircuitBreaker` builds the two classes. -/
theorem newCircuitBreaker_eq (rule : Rule) : newCircuitBreaker rule =
    match rule.strategy with
    | .kSlowRtRatio => some (ResponseTimeCircuitBreaker.mk' rule).toAbstract
    | .kErrorRatio => some (ErrorCircuitBreaker.mk' rule).toAbstract
    | .kErrorCount => none := by
  unfold newCircuitBreaker
  cases rule.strategy with
  | kSlowRtRatio => exact congrArg some (ResponseTimeCircuitBreaker.toAbstract_mk' rule).symm
  | kErrorRatio => exact congrArg some (ErrorCircuitBreaker.toAbstract_mk' rule).symm
  | kErrorCount => rfl

/-- The start, the errors and the total of each slot. -/
def ErrorCircuitBreaker.counts (b : ErrorCircuitBreaker) (slot : ℕ) : Option (ℕ × ℤ × ℤ) :=
  (b.slidingCounter.array slot).map fun w => (w.bucketStart, w.value.errorCount, w.value.totalCount)

/-- The start, the slow requests and the total of each slot. -/
def ResponseTimeCircuitBreaker.counts (b : ResponseTimeCircuitBreaker) (slot : ℕ) :
    Option (ℕ × ℤ × ℤ) :=
  (b.slidingCounter.array slot).map fun w => (w.bucketStart, w.value.slowCount, w.value.totalCount)

/-- An error breaker and a response-time breaker that cannot be told apart. -/
structure SameMachine (e : ErrorCircuitBreaker) (s : ResponseTimeCircuitBreaker) : Prop where
  state : e.currentState = s.currentState
  nextRetryTimestamp : e.nextRetryTimestamp = s.nextRetryTimestamp
  counts : e.counts = s.counts
  callResult : ∀ c, e.callResult c = s.callResult c

theorem AbstractCircuitBreaker.Alike.sameMachine {e : ErrorCircuitBreaker}
    {s : ResponseTimeCircuitBreaker} (h : Alike e.toAbstract s.toAbstract) : SameMachine e s := by
  refine ⟨h.state, h.retry, funext fun slot => ?_, fun c => ?_⟩
  · have hslot := congrArg (fun a : LeapArray RequestCounter =>
      (a.array slot).map fun w => (w.bucketStart, w.value.bad, w.value.total)) h.counter
    have he : ((e.toAbstract.slidingCounter.array slot).map
        fun w => (w.bucketStart, w.value.bad, w.value.total)) = e.counts slot := Option.map_map _ _ _
    have hs : ((s.toAbstract.slidingCounter.array slot).map
        fun w => (w.bucketStart, w.value.bad, w.value.total)) = s.counts slot := Option.map_map _ _ _
    exact he.symm.trans (hslot.trans hs)
  · rw [e.toAbstract_callResult, s.toAbstract_callResult]
    obtain ⟨t, op⟩ := c
    cases op with
    | tryPass => exact congrArg some (h.tryPass t).1
    | recordComplete rt error => rfl

/-- **One machine.**  An error-ratio breaker and a response-time breaker of equal numbers, called alike at
the same times, with errors exactly on slow requests: every `TryPass` returns the same, and after every
call both have the same state, retry time and counts. -/
theorem same_machine {r₁ r₂ : Rule} (hstrategy : r₁.strategy = .kErrorRatio)
    (hthreshold : r₁.threshold = r₂.threshold) (hretry : r₁.retryTimeoutSec = r₂.retryTimeoutSec)
    (hmin : r₁.minRequestAmount = r₂.minRequestAmount)
    (hinterval : r₁.statIntervalMs = r₂.statIntervalMs) {calls : List (ℕ × Op)}
    (hcalls : ∀ t rt error, (t, .recordComplete rt error) ∈ calls →
      (error ≠ "" ↔ rt > r₂.maxAllowedRt)) (i : ℕ) :
    SameMachine ((ErrorCircuitBreaker.mk' r₁).stateAt calls i)
      ((ResponseTimeCircuitBreaker.mk' r₂).stateAt calls i) := by
  have halike := AbstractCircuitBreaker.alike_mk' hthreshold hretry hmin hinterval
    .errorCircuitBreaker .responseTimeCircuitBreaker
  have htwins := AbstractCircuitBreaker.twins_stateAt halike (fun _ => hstrategy)
    (fun hcls => BreakerClass.noConfusion hcls)
    (fun t rt error hmem => decide_eq_decide.mpr (hcalls t rt error hmem)) i
  refine AbstractCircuitBreaker.Alike.sameMachine ?_
  rw [ErrorCircuitBreaker.toAbstract_stateAt (ErrorCircuitBreaker.ofRule_mk' r₁),
    ResponseTimeCircuitBreaker.toAbstract_stateAt (ResponseTimeCircuitBreaker.ofRule_mk' r₂),
    ErrorCircuitBreaker.toAbstract_mk', ResponseTimeCircuitBreaker.toAbstract_mk']
  exact htwins.alike

/-- A rule on slow requests with the numbers of `halfRatioRule`. -/
def halfSlowRule : Rule :=
  { halfRatioRule with strategy := .kSlowRtRatio, maxAllowedRt := 10 }

/-- Calls that trip both breakers, find them waiting, probe them, and close them. -/
def tripAndRecover : List (ℕ × Op) :=
  [(0, .recordComplete 20 "e"), (1, .recordComplete 30 "e"), (700, .tryPass), (1100, .tryPass),
    (1150, .recordComplete 5 ""), (1200, .tryPass)]

/-- Both go through every state, and are the same at every call. -/
theorem same_machine_tripAndRecover :
    (∀ i, SameMachine ((ErrorCircuitBreaker.mk' halfRatioRule).stateAt tripAndRecover i)
      ((ResponseTimeCircuitBreaker.mk' halfSlowRule).stateAt tripAndRecover i)) ∧
    (List.range 7).map (fun i =>
      ((ErrorCircuitBreaker.mk' halfRatioRule).stateAt tripAndRecover i).currentState) =
      [.kClosed, .kClosed, .kOpen, .kOpen, .kHalfOpen, .kClosed, .kClosed] := by
  refine ⟨@same_machine halfRatioRule halfSlowRule rfl rfl rfl rfl rfl tripAndRecover
    fun t rt error hmem => ?_, by decide +kernel⟩
  simp only [tripAndRecover, List.mem_cons, Prod.mk.injEq, Op.recordComplete.injEq, reduceCtorEq,
    and_false, List.not_mem_nil, or_false, false_or] at hmem
  rcases hmem with ⟨-, rfl, rfl⟩ | ⟨-, rfl, rfl⟩ | ⟨-, rfl, rfl⟩ <;> decide

end SentinelCpp.CircuitBreaker
