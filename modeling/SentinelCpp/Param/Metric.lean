import Mathlib.Algebra.BigOperators.Group.List.Basic
import Mathlib.Algebra.Order.Floor.Ring
import Mathlib.Data.Rat.Floor
import SentinelCpp.Param.Cache
import SentinelCpp.Param.Rule
import SentinelCpp.Stat.LeapArray

/-!
# The statistics of hot parameters and the check of a rule

A `ParamMetric` belongs to a resource.  It has one cache of thread counts per argument position and
one leap array of buckets per distinct rule key; `index_map_` lists these arrays by the position of
their key, so it is not kept apart.  Reading a counter touches its cache, which changes no count:
`intervalCount` and `threadCount` are the values the reads return.  Sums of type `int` wrap.  An array
whose interval is shorter than its number of buckets divides by zero in `CurrentWindow`: the functions
are total here, and `addFaults` and `checkFaults` say when the process dies instead.
-/

namespace SentinelCpp.Param

open SentinelCpp.Lib SentinelCpp.Stat

/-- What the caches are built with: `std::hash<std::string>` and `hardware_concurrency()`. -/
structure CacheEnv where
  hashString : String → UInt64
  numShards : ℕ
  numShards_pos : 0 < numShards

/-- An `int` as a `size_t`: a negative number becomes a huge one. -/
def toSizeT (x : ℤ) : ℕ := if x < 0 then (x + 2 ^ 64).toNat else x.toNat

theorem toSizeT_of_nonneg {x : ℤ} (h : 0 ≤ x) : toSizeT x = x.toNat := if_neg (not_lt.mpr h)

/-- `std::make_unique<ScalableCache>(capacity)`. -/
def CacheEnv.newCache (env : CacheEnv) (capacity : ℤ) : ScalableCache AnyVal :=
  .mk' (AnyVal.hash env.hashString) env.numShards (toSizeT capacity)

inductive ParamMetricEvent
  | pass
  | block
  deriving DecidableEq, Repr

/-- `ParamBucket`: one cache per event. -/
structure ParamBucket where
  counters : ParamMetricEvent → ScalableCache AnyVal

namespace ParamBucket

def mk' (env : CacheEnv) (capacity : ℤ) : ParamBucket := ⟨fun _ => env.newCache capacity⟩

/-- `Get(e, value)`. -/
def get (b : ParamBucket) (e : ParamMetricEvent) (value : AnyVal) : ParamBucket × ℤ :=
  let r := (b.counters e).find value
  (⟨Function.update b.counters e r.1⟩, r.2.getD 0)

/-- `Add(e, count, value)`. -/
def add (b : ParamBucket) (e : ParamMetricEvent) (count : ℤ) (value : AnyVal) : ParamBucket :=
  ⟨Function.update b.counters e ((b.counters e).increase value count)⟩

/-- `Reset()`. -/
def reset (b : ParamBucket) : ParamBucket := ⟨fun e => (b.counters e).clear⟩

instance : Resettable ParamBucket := ⟨reset⟩

/-- The count a read returns. -/
def count (b : ParamBucket) (e : ParamMetricEvent) (value : AnyVal) : ℤ := (b.counters e).count value

@[simp] theorem get_snd (b : ParamBucket) (e : ParamMetricEvent) (value : AnyVal) :
    (b.get e value).2 = b.count e value := by
  simp [get, count]

/-- A read changes no count. -/
@[simp] theorem get_count (b : ParamBucket) (e e' : ParamMetricEvent) (value value' : AnyVal) :
    (b.get e value).1.count e' value' = b.count e' value' := by
  unfold get count
  by_cases he : e' = e
  · subst he
    simp
  · simp [Function.update_of_ne he]

end ParamBucket

abbrev ParamLeapArray := LeapArray ParamBucket

structure ParamMetric where
  threadCountMap : Assoc ℤ (ScalableCache AnyVal)
  rollingParams : Assoc ParamLeapArrayKey ParamLeapArray

namespace ParamMetric

variable (m : ParamMetric)

def empty : ParamMetric := ⟨[], []⟩

/-- `initializeForRule(k)`: a cache for the position and an array for the key, unless present. -/
def initializeForRule (env : CacheEnv) (k : ParamLeapArrayKey) : ParamMetric where
  threadCountMap :=
    match m.threadCountMap.find? k.paramIdx with
    | some _ => m.threadCountMap
    | none => m.threadCountMap ++ [(k.paramIdx, env.newCache k.cacheSize)]
  rollingParams :=
    match m.rollingParams.find? k with
    | some _ => m.rollingParams
    | none => m.rollingParams ++
      [(k, .mk' k.sampleCount.toNat k.intervalInMs.toNat (.mk' env k.cacheSize))]

/-- The loop of `AddThreadCount` and `DecreaseThreadCount` from position `idx` on; a cache in the map
is never null here. -/
def changeThreadCount (caches : Assoc ℤ (ScalableCache AnyVal)) (value : ℤ) (idx : ℕ) :
    List AnyVal → Assoc ℤ (ScalableCache AnyVal)
  | [] => caches
  | param :: params =>
    changeThreadCount (caches.modify (idx : ℤ) fun c => c.increase param value) value (idx + 1) params

def addThreadCount (params : List AnyVal) : ParamMetric :=
  { m with threadCountMap := changeThreadCount m.threadCountMap 1 0 params }

def decreaseThreadCount (params : List AnyVal) : ParamMetric :=
  { m with threadCountMap := changeThreadCount m.threadCountMap (-1) 0 params }

/-- The thread count a read returns. -/
def threadCount (index : ℤ) (param : AnyVal) : ℤ :=
  match m.threadCountMap.find? index with
  | none => 0
  | some c => c.count param

/-- `GetThreadCount(index, param)`. -/
def getThreadCount (index : ℤ) (param : AnyVal) : ParamMetric × ℤ :=
  match m.threadCountMap.find? index with
  | none => (m, 0)
  | some c =>
    ({ m with threadCountMap := m.threadCountMap.modify index fun c => (c.find param).1 },
      (c.find param).2.getD 0)

/-- The loop of `Add` from position `idx` on: every array of the position counts the argument. -/
def addFrom (t : ℕ) (e : ParamMetricEvent) (count : ℤ) (idx : ℕ)
    (arrays : Assoc ParamLeapArrayKey ParamLeapArray) :
    List AnyVal → Assoc ParamLeapArrayKey ParamLeapArray
  | [] => arrays
  | param :: params =>
    let arrays := arrays.map fun p =>
      if p.1.paramIdx = (idx : ℤ) then (p.1, p.2.updateCurrent t fun b => b.add e count param) else p
    addFrom t e count (idx + 1) arrays params

def add (t : ℕ) (e : ParamMetricEvent) (count : ℤ) (params : List AnyVal) : ParamMetric :=
  { m with rollingParams := addFrom t e count 0 m.rollingParams params }

def addPass (t : ℕ) (count : ℤ) (params : List AnyVal) : ParamMetric := m.add t .pass count params
def addBlock (t : ℕ) (count : ℤ) (params : List AnyVal) : ParamMetric := m.add t .block count params

/-- The count of an argument over the window of an array that has been refreshed at `t`. -/
def windowCount (a : ParamLeapArray) (t : ℕ) (e : ParamMetricEvent) (param : AnyVal) : ℤ :=
  addInt32 0 ((a.values t).map fun b => b.count e param)

/-- The count `GetInterval` returns. -/
def intervalCount (t : ℕ) (key : ParamLeapArrayKey) (e : ParamMetricEvent) (param : AnyVal) : ℤ :=
  match m.rollingParams.find? key with
  | none => 0
  | some a => windowCount (a.refresh t) t e param

/-- `GetInterval(key, e, param)`. -/
def getInterval (t : ℕ) (key : ParamLeapArrayKey) (e : ParamMetricEvent) (param : AnyVal) :
    ParamMetric × ℤ :=
  match m.rollingParams.find? key with
  | none => (m, 0)
  | some a =>
    ({ m with
        rollingParams := m.rollingParams.modify key fun a =>
          (a.refresh t).visitValues t fun b => (b.get e param).1 },
      addInt32 0 (((a.refresh t).values t).map fun b => (b.get e param).2))

/-- `PassInterval(key, param)`. -/
def passInterval (t : ℕ) (key : ParamLeapArrayKey) (param : AnyVal) : ParamMetric × ℤ :=
  m.getInterval t key .pass param

/-! ### Division by zero -/

/-- `Add` divides by zero: an array of the position of an argument has buckets of no length. -/
def addFaults (params : List AnyVal) : Bool :=
  m.rollingParams.any fun p => 0 ≤ p.1.paramIdx ∧ p.1.paramIdx < params.length ∧ p.2.bucketLengthMs = 0

@[simp] theorem addFaults_nil : m.addFaults [] = false := by
  unfold addFaults
  rw [List.any_eq_false]
  rintro p -
  simp only [List.length_nil, Nat.cast_zero, decide_eq_true_eq]
  rintro ⟨h0, hlt, -⟩
  omega

/-- `GetInterval` divides by zero. -/
def getIntervalFaults (key : ParamLeapArrayKey) : Bool :=
  (m.rollingParams.find? key).any fun a => a.bucketLengthMs = 0

/-! ### Reads change no count -/

variable {m}

@[simp] theorem getThreadCount_snd (index : ℤ) (param : AnyVal) :
    (m.getThreadCount index param).2 = m.threadCount index param := by
  unfold getThreadCount threadCount
  cases m.threadCountMap.find? index <;> simp

@[simp] theorem getInterval_snd (t : ℕ) (key : ParamLeapArrayKey) (e : ParamMetricEvent)
    (param : AnyVal) : (m.getInterval t key e param).2 = m.intervalCount t key e param := by
  unfold getInterval intervalCount windowCount
  cases m.rollingParams.find? key <;> simp

@[simp] theorem getThreadCount_threadCount (i j : ℤ) (x y : AnyVal) :
    (m.getThreadCount i x).1.threadCount j y = m.threadCount j y := by
  unfold getThreadCount
  cases hi : m.threadCountMap.find? i with
  | none => rfl
  | some c =>
    unfold threadCount
    dsimp only
    rw [Assoc.find?_modify]
    by_cases hj : j = i
    · subst hj
      simp [hi]
    · simp [hj]

@[simp] theorem getThreadCount_rollingParams (i : ℤ) (x : AnyVal) :
    (m.getThreadCount i x).1.rollingParams = m.rollingParams := by
  unfold getThreadCount
  cases m.threadCountMap.find? i <;> rfl

@[simp] theorem getInterval_threadCountMap (t : ℕ) (key : ParamLeapArrayKey) (e : ParamMetricEvent)
    (x : AnyVal) : (m.getInterval t key e x).1.threadCountMap = m.threadCountMap := by
  unfold getInterval
  cases m.rollingParams.find? key <;> rfl

@[simp] theorem getInterval_threadCount (t : ℕ) (key : ParamLeapArrayKey) (e : ParamMetricEvent)
    (x y : AnyVal) (j : ℤ) : (m.getInterval t key e x).1.threadCount j y = m.threadCount j y := by
  simp [threadCount]

@[simp] theorem getThreadCount_intervalCount (i : ℤ) (x y : AnyVal) (t : ℕ)
    (key : ParamLeapArrayKey) (e : ParamMetricEvent) :
    (m.getThreadCount i x).1.intervalCount t key e y = m.intervalCount t key e y := by
  simp [intervalCount]

/-- Reading the window of an array at time `t` leaves the counts of that window as they are. -/
theorem windowCount_visitValues (a : ParamLeapArray) (t : ℕ) (e e' : ParamMetricEvent)
    (x y : AnyVal) :
    windowCount (((a.refresh t).visitValues t fun b => (b.get e x).1).refresh t) t e' y =
      windowCount (a.refresh t) t e' y := by
  unfold windowCount
  rw [LeapArray.refresh_visitValues_refresh, LeapArray.values_visitValues, List.map_map]
  congr 1
  exact List.map_congr_left fun b _ => by simp

@[simp] theorem getInterval_intervalCount (t : ℕ) (key key' : ParamLeapArrayKey)
    (e e' : ParamMetricEvent) (x y : AnyVal) :
    (m.getInterval t key e x).1.intervalCount t key' e' y = m.intervalCount t key' e' y := by
  unfold getInterval
  cases hk : m.rollingParams.find? key with
  | none => rfl
  | some a =>
    unfold intervalCount
    dsimp only
    rw [Assoc.find?_modify]
    by_cases hk' : key' = key
    · subst hk'
      simp [hk, windowCount_visitValues]
    · simp [hk']

end ParamMetric

/-! ### The check of a rule -/

/-- `static_cast<int>` of a `double`: towards zero. -/
def truncate (x : ℚ) : ℤ := if 0 ≤ x then ⌊x⌋ else ⌈x⌉

/-- The threshold for an argument: its exception item, or the rule's own. -/
def thresholdFor (rule : ParamFlowRule) (param : AnyVal) : ℤ :=
  match ParamFlowRule.findHotItem rule.parsedHotItems param with
  | some threshold => truncate threshold
  | none => truncate rule.threshold

/-- `ParamFlowChecker::PassSingleValueCheck`. -/
def passSingleValueCheck (t : ℕ) (metric : ParamMetric) (rule : ParamFlowRule) (count : ℤ)
    (param : AnyVal) : ParamMetric × Bool :=
  match rule.metricType with
  | .kQps =>
    let r := metric.passInterval t rule.metricKey param
    (r.1, decide (toInt32 (count + r.2) ≤ thresholdFor rule param))
  | .kThreadCount =>
    let r := metric.getThreadCount rule.paramIdx param
    (r.1, decide (toInt32 (r.2 + 1) ≤ thresholdFor rule param))
  | .kNum => (metric, true)

/-- `ParamFlowChecker::PassLocalCheck`: every argument is checked, until one fails. -/
def passLocalCheck (t : ℕ) (metric : ParamMetric) (rule : ParamFlowRule) (count : ℤ) :
    List AnyVal → ParamMetric × Bool
  | [] => (metric, true)
  | param :: params =>
    match passSingleValueCheck t metric rule count param with
    | (metric, false) => (metric, false)
    | (metric, true) => passLocalCheck t metric rule count params

/-- `ParamFlowChecker::PassCheck`. -/
def passCheck (t : ℕ) (metric : ParamMetric) (rule : ParamFlowRule) (count : ℤ)
    (params : List AnyVal) : ParamMetric × Bool :=
  passLocalCheck t metric rule count params

/-- The check of a rule divides by zero: in the constructor of its array, which needs at least one bucket,
or in `PassCheck`, at the first argument. -/
def checkFaults (metric : ParamMetric) (rule : ParamFlowRule) (params : List AnyVal) : Bool :=
  rule.metricKey.sampleCount ≤ 0 ∨
    rule.metricType = .kQps ∧ params ≠ [] ∧ metric.getIntervalFaults rule.metricKey = true

/-- The value is over its limit: with one more call of it the `int` that is compared exceeds the threshold
that applies. -/
def overLimit (t : ℕ) (metric : ParamMetric) (rule : ParamFlowRule) (count : ℤ) (param : AnyVal) :
    Bool :=
  match rule.metricType with
  | .kQps =>
    decide (thresholdFor rule param <
      toInt32 (count + metric.intervalCount t rule.metricKey .pass param))
  | .kThreadCount =>
    decide (thresholdFor rule param < toInt32 (metric.threadCount rule.paramIdx param + 1))
  | .kNum => false

variable (t : ℕ) (metric : ParamMetric) (rule : ParamFlowRule) (count : ℤ)

theorem passSingleValueCheck_snd (param : AnyVal) :
    (passSingleValueCheck t metric rule count param).2 =
      !overLimit t metric rule count param := by
  unfold passSingleValueCheck overLimit
  cases rule.metricType with
  | kQps =>
    simp only [ParamMetric.passInterval, ParamMetric.getInterval_snd, ← decide_not, not_lt]
  | kThreadCount => simp only [ParamMetric.getThreadCount_snd, ← decide_not, not_lt]
  | kNum => rfl

/-- Checking one argument does not change whether another is over its limit. -/
theorem overLimit_passSingleValueCheck (rule' : ParamFlowRule) (count' : ℤ) (x y : AnyVal) :
    overLimit t (passSingleValueCheck t metric rule count x).1 rule' count' y =
      overLimit t metric rule' count' y := by
  unfold passSingleValueCheck overLimit
  cases rule.metricType <;> cases rule'.metricType <;> simp [ParamMetric.passInterval]

/-- A check passes when no argument is over its limit, whatever its position. -/
theorem passCheck_snd (params : List AnyVal) :
    (passCheck t metric rule count params).2 =
      params.all fun x => !overLimit t metric rule count x := by
  unfold passCheck
  induction params generalizing metric with
  | nil => rfl
  | cons x params ih =>
    have hx := passSingleValueCheck_snd t metric rule count x
    have hover := overLimit_passSingleValueCheck t metric rule count rule count x
    rw [passLocalCheck]
    rcases h : passSingleValueCheck t metric rule count x with ⟨metric', _ | _⟩
    · rw [h] at hx
      simp [← hx]
    · rw [h] at hx hover
      rw [List.all_cons, ← hx, Bool.true_and, ih]
      simp only [hover]

/-- A check changes no thread count. -/
theorem passCheck_threadCount (params : List AnyVal) (i : ℤ) (y : AnyVal) :
    (passCheck t metric rule count params).1.threadCount i y = metric.threadCount i y := by
  unfold passCheck
  have hone : ∀ (metric : ParamMetric) (x : AnyVal),
      (passSingleValueCheck t metric rule count x).1.threadCount i y = metric.threadCount i y := by
    intro metric x
    unfold passSingleValueCheck
    cases rule.metricType <;> simp [ParamMetric.passInterval]
  induction params generalizing metric with
  | nil => rfl
  | cons x params ih =>
    have hx := hone metric x
    rw [passLocalCheck]
    rcases h : passSingleValueCheck t metric rule count x with ⟨metric', _ | _⟩
    · rw [h] at hx
      exact hx
    · rw [h] at hx
      exact (ih _).trans hx

end SentinelCpp.Param
