import Mathlib.Algebra.BigOperators.Ring.Finset
import Mathlib.Algebra.Order.BigOperators.Group.List
import Mathlib.Data.ZMod.Basic
import SentinelCpp.Lib.Run
import SentinelCpp.Param.Slot

/-!
# The QPS limit of a hot-parameter rule

One valid rule on a resource and calls of `CheckFlow`, each followed by `AddPass` when it passes.
The counts of a value live in caches that are split into shards, so the limit holds as long as in
each bucket no shard gets more values than it has room for.  Counters and sums are of type `int`, so no
count may be so large that with the threshold it leaves the range of that type.
-/

namespace SentinelCpp.Param

open SentinelCpp.Lib SentinelCpp.Stat

/-! ### One array with one key -/

/-- The shard of a value. -/
def shardOf (env : CacheEnv) (v : AnyVal) : ℕ :=
  (v.hash env.hashString >>> 48).toNat % env.numShards

/-- The total added for a value. -/
def totalOf (v : AnyVal) (es : List (AnyVal × ℤ)) : ℤ := ((es.filter fun x => x.1 = v).map Prod.snd).sum

theorem totalOf_eq_sum (v : AnyVal) (es : List (AnyVal × ℤ)) :
    totalOf v es = (es.map fun x => if x.1 = v then x.2 else 0).sum := by
  unfold totalOf
  induction es with
  | nil => rfl
  | cons x es ih =>
    by_cases hx : x.1 = v
    · simp [hx, ih]
    · simp [hx, ih]

theorem totalOf_concat (v : AnyVal) (es : List (AnyVal × ℤ)) (w : AnyVal) (count : ℤ) :
    totalOf v (es ++ [(w, count)]) = totalOf v es + if w = v then count else 0 := by
  rw [totalOf_eq_sum, totalOf_eq_sum, List.map_append, List.sum_append]
  simp

/-- With counts of at least 0 a total only grows with the list. -/
theorem totalOf_le_of_sublist {v : AnyVal} {es es' : List (AnyVal × ℤ)} (hsub : es.Sublist es')
    (hcounts : ∀ x ∈ es', 0 ≤ x.2) : totalOf v es ≤ totalOf v es' := by
  refine List.Sublist.sum_le_sum ((hsub.filter _).map Prod.snd) fun y hy => ?_
  obtain ⟨x, hx, rfl⟩ := List.mem_map.mp hy
  exact hcounts x (List.mem_of_mem_filter hx)

theorem totalOf_nonneg {v : AnyVal} {es : List (AnyVal × ℤ)} (hcounts : ∀ x ∈ es, 0 ≤ x.2) :
    0 ≤ totalOf v es :=
  totalOf_le_of_sublist (List.nil_sublist es) hcounts

/-- Later, the window has lost entries of the past and gained none. -/
theorem inWindow_sublist {n b t t' : ℕ} {h : Hist (AnyVal × ℤ)} (hle : t ≤ t') (hpast : ∀ x ∈ h, x.1 ≤ t) :
    (inWindow n b t' h).Sublist (inWindow n b t h) := by
  have hfilter : (h.filter fun x => InWindow n b t' (x.1 / b)) =
      (h.filter fun x => InWindow n b t (x.1 / b)).filter fun x => InWindow n b t' (x.1 / b) := by
    rw [List.filter_filter]
    refine List.filter_congr fun x hx => ?_
    have hx' := Nat.div_le_div_right (c := b) (hpast x hx)
    have ht := Nat.div_le_div_right (c := b) hle
    have himp : InWindow n b t' (x.1 / b) → InWindow n b t (x.1 / b) := fun hw =>
      ⟨hx', lt_of_le_of_lt ht hw.2⟩
    by_cases hw : InWindow n b t' (x.1 / b)
    · simp [hw, himp hw]
    · simp [hw]
  unfold inWindow
  rw [hfilter]
  exact List.filter_sublist.map _

/-- Two integers wrap to the same `int` when they are equal modulo 2^32. -/
theorem toInt32_eq_iff {x y : ℤ} : toInt32 x = toInt32 y ↔ (x : ZMod (2 ^ 32)) = (y : ZMod (2 ^ 32)) := by
  rw [ZMod.intCast_eq_intCast_iff]
  constructor
  · intro h
    have hmod := congrArg (fun z : ℤ => z % ((2 ^ 32 : ℕ) : ℤ)) h
    simpa only [toInt32, Int.bmod_emod, Int.ModEq] using hmod
  · intro h
    unfold toInt32
    rw [← Int.emod_bmod x, ← Int.emod_bmod y]
    exact congrArg (fun z : ℤ => z.bmod (2 ^ 32)) h

/-- **The count of a window** whose buckets have counted the value: its total, wrapped. -/
theorem windowCount_eq_toInt32 {rel : ParamBucket → List (AnyVal × ℤ) → Prop} {a : ParamLeapArray}
    {h : Hist (AnyVal × ℤ)} {t : ℕ} {e : ParamMetricEvent} {v : AnyVal} (hS : a.Stands rel h t)
    (hrel : ∀ b k, rel b (inBucket a.bucketLengthMs k h) →
      b.count e v = toInt32 (totalOf v (inBucket a.bucketLengthMs k h)))
    (hw : a.WellFormed) (hv : a.Visited t) :
    ParamMetric.windowCount a t e v =
      toInt32 (totalOf v (inWindow a.sampleCount a.bucketLengthMs t h)) := by
  have hcast : ∀ (es : List (AnyVal × ℤ)), ((totalOf v es : ℤ) : ZMod (2 ^ 32)) =
      (es.map fun x : AnyVal × ℤ => (((if x.1 = v then x.2 else 0) : ℤ) : ZMod (2 ^ 32))).sum := by
    intro es
    rw [totalOf_eq_sum, Int.cast_list_sum, List.map_map]
    rfl
  have hmod := hS.imp (fun b es => ((b.count e v : ℤ) : ZMod (2 ^ 32)) =
      (es.map fun x : AnyVal × ℤ => (((if x.1 = v then x.2 else 0) : ℤ) : ZMod (2 ^ 32))).sum) (by
    intro b k hb
    rw [← hcast, ← toInt32_eq_iff, hrel b k hb, toInt32_toInt32])
  have hsum := hmod.sum_values (fun _ _ hr => hr) hw hv
  have hzero : ∀ xs : List ℤ, addInt32 0 xs = toInt32 xs.sum := by
    intro xs
    have heq := addInt32_eq 0 xs
    rwa [toInt32_zero, zero_add] at heq
  rw [ParamMetric.windowCount, hzero, toInt32_eq_iff, hcast, ← hsum, Int.cast_list_sum, List.map_map]
  rfl

/-- The pass counters of the bucket, built for the capacity, have been given exactly the additions
`es`. -/
structure PassBucketOf (env : CacheEnv) (capacity : ℕ) (b : ParamBucket) (es : List (AnyVal × ℤ)) :
    Prop where
  hash : (b.counters .pass).hash = AnyVal.hash env.hashString
  numShards : (b.counters .pass).numShards = env.numShards
  maxSize : ∀ i, ((b.counters .pass).shards i).maxSize =
    ScalableCache.shardSize capacity env.numShards i
  counts : (b.counters .pass).Counts es

/-- The values fit into their shards: no more distinct ones than a shard has room for, or one. -/
def ValuesFit (env : CacheEnv) (capacity : ℕ) (vs : List AnyVal) : Prop :=
  ∀ i, (vs.filter fun v => shardOf env v = i).dedup.length ≤
    max 1 (ScalableCache.shardSize capacity env.numShards i)

namespace PassBucketOf

variable {env : CacheEnv} {capacity : ℕ} {b : ParamBucket} {es : List (AnyVal × ℤ)}

theorem mk' (env : CacheEnv) {capacity : ℤ} (hcap : 0 ≤ capacity) :
    PassBucketOf env capacity.toNat (ParamBucket.mk' env capacity) [] := by
  rw [← toSizeT_of_nonneg hcap]
  exact ⟨rfl, rfl, fun _ => rfl, ScalableCache.counts_mk' _ _ _⟩

theorem reset (h : PassBucketOf env capacity b es) :
    PassBucketOf env capacity (Resettable.reset b) [] :=
  ⟨h.hash, h.numShards, h.maxSize, ScalableCache.counts_clear _⟩

/-- A read of any counter. -/
theorem get (h : PassBucketOf env capacity b es) (e : ParamMetricEvent) (v : AnyVal) :
    PassBucketOf env capacity (b.get e v).1 es := by
  unfold ParamBucket.get
  cases e with
  | block => exact ⟨h.hash, h.numShards, h.maxSize, h.counts⟩
  | pass =>
    refine ⟨?_, ?_, fun i => ?_, ?_⟩
    · simpa using h.hash
    · simpa using h.numShards
    · rw [← h.maxSize i]
      simp
    · simpa using h.counts.find v

theorem addBlock (h : PassBucketOf env capacity b es) (count : ℤ) (v : AnyVal) :
    PassBucketOf env capacity (b.add .block count v) es :=
  ⟨h.hash, h.numShards, h.maxSize, h.counts⟩

theorem addPass (h : PassBucketOf env capacity b es) (count : ℤ) {v : AnyVal}
    (hv : v.supported = true) : PassBucketOf env capacity (b.add .pass count v) (es ++ [(v, count)]) := by
  unfold ParamBucket.add
  refine ⟨?_, ?_, fun i => ?_, ?_⟩
  · simpa using h.hash
  · simpa using h.numShards
  · rw [← h.maxSize i]
    simp
  · simpa using h.counts.increase hv

/-- A count is the total of the value, wrapped, when the values of the bucket fit. -/
theorem count_eq (h : PassBucketOf env capacity b es)
    (hfit : ValuesFit env capacity (es.map Prod.fst)) (v : AnyVal) :
    b.count .pass v = toInt32 (totalOf v es) := by
  refine h.counts.count v ?_
  have hshard : ∀ w, (b.counters .pass).getShard w = shardOf env w := by
    intro w
    rw [ScalableCache.getShard, h.hash, h.numShards]
    rfl
  have := hfit (shardOf env v)
  unfold ScalableCache.Fits ScalableCache.inShard
  rw [h.maxSize]
  simp only [hshard]
  rwa [List.filter_map] at this

end PassBucketOf

/-- What every update of an array through its buckets leaves in place. -/
structure PassArrayOf (env : CacheEnv) (capacity n b : ℕ) (a : ParamLeapArray)
    (h : Hist (AnyVal × ℤ)) (now : ℕ) : Prop where
  count : a.sampleCount = n
  interval : a.intervalMs = n * b
  fresh : PassBucketOf env capacity a.newEmptyBucket []
  stands : a.Stands (PassBucketOf env capacity) h now

namespace PassArrayOf

variable {env : CacheEnv} {capacity n b now t : ℕ} {a : ParamLeapArray} {h : Hist (AnyVal × ℤ)}

theorem reset_nil (v : ParamBucket) (es : List (AnyVal × ℤ)) (hv : PassBucketOf env capacity v es) :
    PassBucketOf env capacity (Resettable.reset v) [] := hv.reset

theorem bucketLengthMs (hn : 0 < n) (ha : PassArrayOf env capacity n b a h now) :
    a.bucketLengthMs = b := by
  rw [LeapArray.bucketLengthMs, ha.count, ha.interval, Nat.mul_div_cancel_left b hn]

theorem wellFormed (hn : 0 < n) (hb : 0 < b) (ha : PassArrayOf env capacity n b a h now) :
    a.WellFormed :=
  ⟨ha.count ▸ hn, by rw [ha.bucketLengthMs hn]; exact hb,
    by rw [ha.bucketLengthMs hn, ha.count, ha.interval]⟩

theorem mk' (env : CacheEnv) {capacity : ℤ} (hcap : 0 ≤ capacity) (n b now : ℕ) :
    PassArrayOf env capacity.toNat n b (LeapArray.mk' n (n * b) (ParamBucket.mk' env capacity)) []
      now :=
  ⟨rfl, rfl, PassBucketOf.mk' env hcap, LeapArray.stands_mk' _ _ _⟩

/-- `GetInterval` on the array. -/
theorem read (ha : PassArrayOf env capacity n b a h now) (hle : now ≤ t) (e : ParamMetricEvent)
    (v : AnyVal) : PassArrayOf env capacity n b
      ((a.refresh t).visitValues t fun b => (b.get e v).1) h t := by
  obtain ⟨hS, -, -⟩ := ha.stands.currentWindow hle ha.fresh reset_nil
  refine ⟨?_, ?_, ?_, hS.visitValues fun _ _ hv => hv.get e v⟩
  · simp [ha.count]
  · simp [ha.interval]
  · simpa using ha.fresh

/-- `AddBlock` on the array. -/
theorem addBlock (ha : PassArrayOf env capacity n b a h now) (hle : now ≤ t) (count : ℤ)
    (v : AnyVal) : PassArrayOf env capacity n b
      (a.updateCurrent t fun b => b.add .block count v) h t := by
  refine ⟨?_, ?_, ?_, (ha.stands.adjust hle ha.fresh reset_nil
    fun _ _ hv => hv.addBlock count v).1⟩
  · simp [ha.count]
  · simp [ha.interval]
  · simpa using ha.fresh

/-- `AddPass` on the array. -/
theorem addPass (hn : 0 < n) (hb : 0 < b) (ha : PassArrayOf env capacity n b a h now)
    (hle : now ≤ t) (count : ℤ) {v : AnyVal} (hv : v.supported = true) :
    PassArrayOf env capacity n b (a.updateCurrent t fun b => b.add .pass count v)
      (h ++ [(t, v, count)]) t := by
  have hlen : 0 < a.bucketLengthMs := by
    rw [ha.bucketLengthMs hn]
    exact hb
  refine ⟨?_, ?_, ?_, (ha.stands.record hle hlen ha.fresh reset_nil
    fun _ _ hr => hr.addPass count hv).1⟩
  · simp [ha.count]
  · simp [ha.interval]
  · simpa using ha.fresh

/-- The count a check reads is the total of the value in the window, wrapped, when the values of each
bucket fit into their shards. -/
theorem windowCount_eq (hn : 0 < n) (hb : 0 < b) (ha : PassArrayOf env capacity n b a h now)
    (hle : now ≤ t)
    (hfit : ∀ k, ValuesFit env capacity ((inBucket b k h).map Prod.fst)) (v : AnyVal) :
    ParamMetric.windowCount (a.refresh t) t .pass v = toInt32 (totalOf v (inWindow n b t h)) := by
  obtain ⟨hS, hV, -⟩ := ha.stands.currentWindow hle ha.fresh reset_nil
  have hlen : (a.refresh t).bucketLengthMs = b := by
    simp only [LeapArray.bucketLengthMs, LeapArray.refresh_sampleCount,
      LeapArray.refresh_intervalMs]
    exact ha.bucketLengthMs hn
  have hw : (a.refresh t).WellFormed := (ha.wellFormed hn hb).of_eq
    (LeapArray.refresh_sampleCount _ _) (LeapArray.refresh_intervalMs _ _)
  -- the counters of the buckets of this history are exact
  have hsum := windowCount_eq_toInt32 (e := .pass) (v := v) hS (fun c k hc => by
    rw [hlen] at hc ⊢
    exact hc.count_eq (hfit k) v) hw hV
  rw [hsum, hlen, LeapArray.refresh_sampleCount, ha.count]

end PassArrayOf

/-! ### The metric of a resource with one key -/

/-- The metric has one array, under `key`, and its pass counters have been given `h`. -/
def PassMetricOf (env : CacheEnv) (key : ParamLeapArrayKey) (b : ℕ) (m : ParamMetric)
    (h : Hist (AnyVal × ℤ)) (now : ℕ) : Prop :=
  ∃ a, m.rollingParams = [(key, a)] ∧
    PassArrayOf env key.cacheSize.toNat key.sampleCount.toNat b a h now

/-- Adding to a single array: only the argument at the position of its key is counted. -/
theorem addFrom_single (t : ℕ) (e : ParamMetricEvent) (count : ℤ) (key : ParamLeapArrayKey)
    (k : ℕ) (hk : key.paramIdx = k) (a : ParamLeapArray) (idx : ℕ) (params : List AnyVal) :
    ParamMetric.addFrom t e count idx [(key, a)] params =
      [(key, if idx ≤ k then
          match params[k - idx]? with
          | some v => a.updateCurrent t fun b => b.add e count v
          | none => a
        else a)] := by
  induction params generalizing idx a with
  | nil => simp [ParamMetric.addFrom]
  | cons x params ih =>
    have hround : (([(key, a)] : Assoc ParamLeapArrayKey ParamLeapArray).map fun p =>
        if p.1.paramIdx = (idx : ℤ) then (p.1, p.2.updateCurrent t fun b => b.add e count x) else p) =
        [(key, if k = idx then a.updateCurrent t fun b => b.add e count x else a)] := by
      rw [List.map_singleton, hk]
      by_cases hki : k = idx
      · simp [hki]
      · have : ¬ (k : ℤ) = (idx : ℤ) := by omega
        simp [hki, this]
    rw [ParamMetric.addFrom, hround, ih]
    rcases Nat.lt_trichotomy idx k with hlt | rfl | hgt
    · obtain ⟨d, rfl⟩ : ∃ d, k = idx + 1 + d := ⟨k - (idx + 1), by omega⟩
      have h1 : idx + 1 + d - idx = d + 1 := by omega
      have h2 : idx + 1 + d - (idx + 1) = d := by omega
      have h3 : ¬ idx + 1 + d = idx := by omega
      have h4 : idx + 1 ≤ idx + 1 + d := by omega
      have h5 : idx ≤ idx + 1 + d := by omega
      simp [h1, h2, h3, h4, h5]
    · simp
    · have h1 : ¬ idx + 1 ≤ k := by omega
      have h2 : ¬ idx ≤ k := by omega
      have h3 : ¬ k = idx := by omega
      simp [h1, h2, h3]

namespace PassMetricOf

variable {env : CacheEnv} {key : ParamLeapArrayKey} {b now t : ℕ} {m : ParamMetric}
  {h : Hist (AnyVal × ℤ)}

/-- The first check of the rule makes the array, later ones keep it. -/
theorem initializeForRule (hcap : 0 ≤ key.cacheSize)
    (hint : key.intervalInMs.toNat = key.sampleCount.toNat * b)
    (hm : (m.rollingParams = [] ∧ h = []) ∨ PassMetricOf env key b m h now) :
    PassMetricOf env key b (m.initializeForRule env key) h now := by
  rcases hm with ⟨hnil, rfl⟩ | ⟨a, ha, hpa⟩
  · refine ⟨_, ?_, PassArrayOf.mk' env hcap key.sampleCount.toNat b now⟩
    simp [ParamMetric.initializeForRule, hnil, hint]
  · refine ⟨a, ?_, hpa⟩
    simp [ParamMetric.initializeForRule, ha, Assoc.find?_cons]

theorem passInterval (hm : PassMetricOf env key b m h now) (hle : now ≤ t) (v : AnyVal) :
    PassMetricOf env key b (m.passInterval t key v).1 h t := by
  obtain ⟨a, ha, hpa⟩ := hm
  refine ⟨_, ?_, hpa.read hle .pass v⟩
  simp [ParamMetric.passInterval, ParamMetric.getInterval, ha, Assoc.find?_cons, Assoc.modify]

/-- Checking the arguments reads the array only. -/
theorem passCheck {rule : ParamFlowRule} (count : ℤ) (hq : rule.metricType = .kQps)
    (hkey : rule.metricKey = key) (hm : PassMetricOf env key b m h now) (hle : now ≤ t)
    (params : List AnyVal) : ∃ now', now' ≤ t ∧
      PassMetricOf env key b (passCheck t m rule count params).1 h now' := by
  unfold Param.passCheck
  induction params generalizing m now with
  | nil => exact ⟨now, hle, hm⟩
  | cons x params ih =>
    have hx : PassMetricOf env key b (passSingleValueCheck t m rule count x).1 h t := by
      unfold passSingleValueCheck
      rw [hq, hkey]
      exact hm.passInterval hle x
    rw [passLocalCheck]
    rcases hres : passSingleValueCheck t m rule count x with ⟨m', _ | _⟩
    · rw [hres] at hx
      exact ⟨t, le_rfl, hx⟩
    · rw [hres] at hx
      exact ih hx le_rfl

theorem addBlock (hm : PassMetricOf env key b m h now) (hle : now ≤ t) {k : ℕ}
    (hk : key.paramIdx = k) (count : ℤ) {params : List AnyVal} {v : AnyVal}
    (hv : params[k]? = some v) : PassMetricOf env key b (m.addBlock t count params) h t := by
  obtain ⟨a, ha, hpa⟩ := hm
  refine ⟨_, ?_, hpa.addBlock hle count v⟩
  simp [ParamMetric.addBlock, ParamMetric.add, ha, addFrom_single t .block count key k hk a, hv]

theorem addPass (hn : 0 < key.sampleCount) (hb : 0 < b) (hm : PassMetricOf env key b m h now)
    (hle : now ≤ t) {k : ℕ} (hk : key.paramIdx = k) (count : ℤ) {params : List AnyVal} {v : AnyVal}
    (hv : params[k]? = some v) (hs : v.supported = true) :
    PassMetricOf env key b (m.addPass t count params) (h ++ [(t, v, count)]) t := by
  obtain ⟨a, ha, hpa⟩ := hm
  refine ⟨_, ?_, hpa.addPass (by omega) hb hle count hs⟩
  simp [ParamMetric.addPass, ParamMetric.add, ha, addFrom_single t .pass count key k hk a, hv]

theorem intervalCount_eq (hn : 0 < key.sampleCount) (hb : 0 < b)
    (hm : PassMetricOf env key b m h now) (hle : now ≤ t)
    (hfit : ∀ k, ValuesFit env key.cacheSize.toNat ((inBucket b k h).map Prod.fst)) (v : AnyVal) :
    m.intervalCount t key .pass v =
      toInt32 (totalOf v (inWindow key.sampleCount.toNat b t h)) := by
  obtain ⟨a, ha, hpa⟩ := hm
  simp [ParamMetric.intervalCount, ha, Assoc.find?_cons,
    hpa.windowCount_eq (by omega) hb hle hfit v]

end PassMetricOf

/-! ### Runs of calls under one rule -/

/-- A valid QPS rule without exception items, its key in step with its settings, its interval a whole
number of buckets. -/
structure PlainQpsRule (rule : ParamFlowRule) : Prop where
  valid : isValidRule rule = true
  qps : rule.metricType = .kQps
  noItems : rule.specificItemList = []
  noParsedItems : rule.parsedHotItems = []
  key : rule.metricKey = ⟨rule.paramIdx, rule.intervalInMs, rule.sampleCount, rule.cacheSize⟩
  divides : rule.sampleCount ∣ rule.intervalInMs

/-- The length of the buckets of the rule. -/
def bucketMs (rule : ParamFlowRule) : ℕ := rule.intervalInMs.toNat / rule.sampleCount.toNat

structure ParamCall where
  time : ℕ
  count : ℤ
  params : List AnyVal
  deriving DecidableEq

/-- `CheckFlow`, then `AddPass` when it passes; with whether it passed. -/
def ParamCall.run (env : CacheEnv) (rule : ParamFlowRule) (metricMap : MetricMap) (c : ParamCall) :
    Option (MetricMap × Bool) :=
  match paramFlowEntry env c.time (configUpdate none [rule]) rule.resource c.count c.params
    metricMap with
  | some (metricMap, .ok) =>
    if addPassFaults metricMap rule.resource c.params then none
    else some (withParamMetric metricMap rule.resource fun m => m.addPass c.time c.count c.params, true)
  | some (metricMap, _) => some (metricMap, false)
  | none => none

structure LimitState where
  metricMap : MetricMap
  now : ℕ

/-- A call at a time not before the last one, and whether it is admitted. -/
def callStep (env : CacheEnv) (rule : ParamFlowRule) (s : LimitState) (c : ParamCall) :
    Option (LimitState × Bool) :=
  if s.now ≤ c.time then
    (c.run env rule s.metricMap).map fun r => (⟨r.1, c.time⟩, r.2)
  else none

/-- The values admitted at the rule's position, with their counts and times. -/
def admittedHist (rule : ParamFlowRule) (tr : List (ParamCall × Bool)) : Hist (AnyVal × ℤ) :=
  tr.filterMap fun a =>
    if a.2 then (a.1.params[rule.paramIdx.toNat]?).map fun v => (a.1.time, v, a.1.count) else none

/-- The total admitted for a value in the window that ends at time `t`. -/
def admittedTotal (rule : ParamFlowRule) (tr : List (ParamCall × Bool)) (t : ℕ) (v : AnyVal) : ℤ :=
  totalOf v (inWindow rule.sampleCount.toNat (bucketMs rule) t (admittedHist rule tr))

/-- In each bucket every shard gets no more distinct values than it has room for, or only one. -/
def ShardsFit (env : CacheEnv) (rule : ParamFlowRule) (tr : List (ParamCall × Bool)) : Prop :=
  ∀ j, ValuesFit env rule.cacheSize.toNat
    ((inBucket (bucketMs rule) j (admittedHist rule tr)).map Prod.fst)

namespace PlainQpsRule

variable {rule : ParamFlowRule}

theorem bounds (h : PlainQpsRule rule) : 0 ≤ rule.threshold ∧ 0 ≤ rule.paramIdx ∧
    0 < rule.cacheSize ∧ 0 < rule.sampleCount ∧ 0 < rule.intervalInMs := by
  have hv := h.valid
  simp only [isValidRule, Bool.and_eq_true, decide_eq_true_eq] at hv
  exact ⟨hv.1.2.1, hv.1.2.2.1, hv.1.2.2.2.1, hv.1.2.2.2.2.1, hv.1.2.2.2.2.2⟩

theorem interval_eq (h : PlainQpsRule rule) :
    rule.intervalInMs.toNat = rule.sampleCount.toNat * bucketMs rule ∧ 0 < bucketMs rule := by
  obtain ⟨-, -, -, hn, hi⟩ := h.bounds
  have hdvd : rule.sampleCount.toNat ∣ rule.intervalInMs.toNat := by
    have := h.divides
    rwa [← Int.toNat_of_nonneg hn.le, ← Int.toNat_of_nonneg hi.le, Int.natCast_dvd_natCast] at this
  refine ⟨(Nat.mul_div_cancel' hdvd).symm, Nat.div_pos ?_ (by omega)⟩
  exact Nat.le_of_dvd (by omega) hdvd

/-- The rule as the manager stores it. -/
theorem configUpdate_eq (h : PlainQpsRule rule) :
    configUpdate none [rule] = some [(rule.resource, [rule])] := by
  have hfill : rule.fillExceptionFlowItems = rule := by
    simp [ParamFlowRule.fillExceptionFlowItems, h.noItems]
  simp [configUpdate, aggregatedHotParamRules, h.valid, hfill, Assoc.groupBy, Assoc.pushTo]

theorem thresholdFor_eq (h : PlainQpsRule rule) (v : AnyVal) :
    thresholdFor rule v = ⌊rule.threshold⌋ := by
  simp [thresholdFor, h.noParsedItems, ParamFlowRule.findHotItem, truncate, h.bounds.1]

end PlainQpsRule

/-- The metric map has counted the admitted values `h` of the resource. -/
def MapOf (env : CacheEnv) (rule : ParamFlowRule) (metricMap : MetricMap) (h : Hist (AnyVal × ℤ))
    (now : ℕ) : Prop :=
  (metricMap.find? rule.resource = none ∧ h = []) ∨ ∃ m,
    metricMap.find? rule.resource = some m ∧
      PassMetricOf env rule.metricKey (bucketMs rule) m h now

/-- **One call.**  It is admitted when no argument is over its limit, and then counted. -/
theorem ParamCall.run_spec {env : CacheEnv} {rule : ParamFlowRule} (hrule : PlainQpsRule rule)
    {metricMap metricMap' : MetricMap} {h : Hist (AnyVal × ℤ)} {now : ℕ}
    (hmap : MapOf env rule metricMap h now) {c : ParamCall} (hle : now ≤ c.time) {v : AnyVal}
    (hv : c.params[rule.paramIdx.toNat]? = some v) (hs : v.supported = true) {admitted : Bool}
    (hrun : c.run env rule metricMap = some (metricMap', admitted)) :
    (∃ m, PassMetricOf env rule.metricKey (bucketMs rule) m h now ∧
      admitted = c.params.all fun x => !overLimit c.time m rule c.count x) ∧
    MapOf env rule metricMap' (if admitted then h ++ [(c.time, v, c.count)] else h) c.time := by
  obtain ⟨-, hk0, hcap, hn, -⟩ := hrule.bounds
  obtain ⟨hint, hb⟩ := hrule.interval_eq
  have hkey := hrule.key
  have hidx : rule.metricKey.paramIdx = (rule.paramIdx.toNat : ℤ) := by
    rw [hkey]
    dsimp only
    omega
  have hcount : 0 < rule.metricKey.sampleCount := by
    rw [hkey]
    exact hn
  have hne : c.params ≠ [] := by
    rintro hnil
    simp [hnil] at hv
  -- the metric the check works on
  obtain ⟨m, hm⟩ : ∃ m, m = ((metricMap.find? rule.resource).getD ParamMetric.empty).initializeForRule
      env rule.metricKey := ⟨_, rfl⟩
  have hfind := find?_initHotParamMetricsFor env metricMap rule.resource rule
  have hPM : PassMetricOf env rule.metricKey (bucketMs rule) m h now := by
    rw [hm]
    refine PassMetricOf.initializeForRule (by rw [hkey]; exact hcap.le) (by rw [hkey]; exact hint) ?_
    rcases hmap with ⟨hnone, rfl⟩ | ⟨m₀, hsome, hPM⟩
    · exact .inl ⟨by rw [hnone]; rfl, rfl⟩
    · exact .inr (by rw [hsome]; exact hPM)
  have hsnd := passCheck_snd c.time m rule c.count c.params
  obtain ⟨now', hle', hPM'⟩ := hPM.passCheck c.count hrule.qps rfl hle c.params
  -- the only rule of the resource decides
  have hflow : paramFlowEntry env c.time (configUpdate none [rule]) rule.resource c.count c.params
      metricMap = checkFlow env c.time rule.resource c.count c.params [rule] metricMap := by
    simp [paramFlowEntry, hrule.configUpdate_eq, Assoc.find?_cons]
  unfold ParamCall.run at hrun
  rw [hflow, checkFlow] at hrun
  by_cases hres : rule.resource = ""
  · simp [getParamMetric, hres, hne] at hrun
  have hget : getParamMetric (initHotParamMetricsFor env metricMap rule.resource rule)
      rule.resource = some m := by
    simp [getParamMetric, hres, hfind, hm]
  rw [hget] at hrun
  dsimp only at hrun
  -- the process has not died in the check
  by_cases hfault : checkFaults m rule c.params = true
  · simp [hfault] at hrun
  rw [if_neg hfault] at hrun
  rcases hres' : passCheck c.time m rule c.count c.params with ⟨m', _ | _⟩
  · rw [hres'] at hrun hsnd hPM'
    by_cases hadd : m'.addFaults c.params = true
    · simp [hadd] at hrun
    simp only [hadd, if_false, Option.some.injEq, Prod.mk.injEq, Bool.false_eq_true] at hrun
    obtain ⟨rfl, rfl⟩ := hrun
    refine ⟨⟨m, hPM, hsnd⟩, .inr ⟨m'.addBlock c.time c.count c.params, ?_, ?_⟩⟩
    · rw [Assoc.find?_modify_self, hfind, if_pos rfl, Option.map_some]
    · exact hPM'.addBlock hle' hidx c.count hv
  · rw [hres'] at hrun hsnd hPM'
    simp only [checkFlow] at hrun
    split_ifs at hrun
    simp only [Option.some.injEq, Prod.mk.injEq] at hrun
    obtain ⟨rfl, rfl⟩ := hrun
    refine ⟨⟨m, hPM, hsnd⟩, .inr ⟨m'.addPass c.time c.count c.params, ?_, ?_⟩⟩
    · rw [find?_withParamMetric, if_pos ⟨rfl, hres⟩, Assoc.find?_modify_self, hfind, if_pos rfl,
        Option.map_some, Option.map_some]
    · exact hPM'.addPass hcount hb hle' hidx c.count hv hs

theorem callStep_eq_some {env : CacheEnv} {rule : ParamFlowRule} {s s' : LimitState} {c : ParamCall}
    {admitted : Bool} (h : callStep env rule s c = some (s', admitted)) :
    s.now ≤ c.time ∧ c.run env rule s.metricMap = some (s'.metricMap, admitted) ∧
      s'.now = c.time := by
  unfold callStep at h
  split_ifs at h with hle
  obtain ⟨r, hr, heq⟩ := Option.map_eq_some_iff.mp h
  rw [Prod.mk.injEq] at heq
  obtain ⟨rfl, rfl⟩ := heq
  exact ⟨hle, hr, rfl⟩

theorem admittedHist_concat {rule : ParamFlowRule} (tr : List (ParamCall × Bool)) (c : ParamCall)
    (admitted : Bool) {v : AnyVal} (hv : c.params[rule.paramIdx.toNat]? = some v) :
    admittedHist rule (tr ++ [(c, admitted)]) =
      if admitted then admittedHist rule tr ++ [(c.time, v, c.count)] else admittedHist rule tr := by
  rw [admittedHist, List.filterMap_append, ← admittedHist]
  cases admitted <;> simp [hv]

/-- The values of the calls so far fit if those of a longer run do. -/
theorem ValuesFit.of_append {env : CacheEnv} {capacity b j : ℕ} {h h' : Hist (AnyVal × ℤ)}
    (hfit : ValuesFit env capacity ((inBucket b j (h ++ h')).map Prod.fst)) :
    ValuesFit env capacity ((inBucket b j h).map Prod.fst) := by
  intro i
  refine le_trans (ScalableCache.dedup_length_le_of_subset ?_) (hfit i)
  intro v hv
  simp only [inBucket, List.filter_append, List.map_append, List.mem_append] at hv ⊢
  exact .inl hv

/-- The argument at the rule's position is one the caches can hold, and its count is at least 1 and small
enough for the `int` that is compared with the threshold. -/
structure FitsInt (rule : ParamFlowRule) (c : ParamCall) : Prop where
  arg : ∃ v, c.params[rule.paramIdx.toNat]? = some v ∧ v.supported = true
  count_pos : 1 ≤ c.count
  count_lt : ⌊rule.threshold⌋ + c.count < 2 ^ 31

/-- What a run keeps: the counters hold what was admitted, and every total of the window is within the
threshold. -/
structure Limited (env : CacheEnv) (rule : ParamFlowRule) (h : Hist (AnyVal × ℤ)) (s : LimitState) :
    Prop where
  map : MapOf env rule s.metricMap h s.now
  past : ∀ x ∈ h, x.1 ≤ s.now
  counts : ∀ x ∈ h, 0 ≤ x.2.2
  total_le : ∀ v, totalOf v (inWindow rule.sampleCount.toNat (bucketMs rule) s.now h) ≤ ⌊rule.threshold⌋

namespace Limited

variable {env : CacheEnv} {rule : ParamFlowRule} {h : Hist (AnyVal × ℤ)} {s s' : LimitState}

theorem start (hrule : PlainQpsRule rule) : Limited env rule [] ⟨[], 0⟩ := by
  refine ⟨.inl ⟨rfl, rfl⟩, by simp, by simp, fun v => ?_⟩
  obtain ⟨hc, -⟩ := hrule.bounds
  exact Int.floor_nonneg.mpr hc

theorem window_counts (hl : Limited env rule h s) {n b t : ℕ} : ∀ x ∈ inWindow n b t h, 0 ≤ x.2 := by
  intro x hx
  obtain ⟨y, hy, rfl⟩ := List.mem_map.mp hx
  exact hl.counts y (List.mem_of_mem_filter hy)

/-- Without an admission the totals of the window do not grow. -/
theorem later (hl : Limited env rule h s) (hle : s.now ≤ s'.now)
    (hmap : MapOf env rule s'.metricMap h s'.now) : Limited env rule h s' :=
  ⟨hmap, fun x hx => (hl.past x hx).trans hle, hl.counts, fun v =>
    (totalOf_le_of_sublist (inWindow_sublist hle hl.past) hl.window_counts).trans (hl.total_le v)⟩

/-- **One call** keeps the limit: the sum that is compared did not wrap. -/
theorem step (hrule : PlainQpsRule rule) (hl : Limited env rule h s) {c : ParamCall}
    (hc : FitsInt rule c) {v : AnyVal} (hv : c.params[rule.paramIdx.toNat]? = some v)
    (hfit : ∀ j, ValuesFit env rule.cacheSize.toNat ((inBucket (bucketMs rule) j h).map Prod.fst))
    {admitted : Bool} (hstep : callStep env rule s c = some (s', admitted)) :
    Limited env rule (if admitted then h ++ [(c.time, v, c.count)] else h) s' := by
  obtain ⟨hle, hcall, hnow⟩ := callStep_eq_some hstep
  obtain ⟨w, hw, hs⟩ := hc.arg
  obtain rfl : w = v := Option.some.inj (hw.symm.trans hv)
  obtain ⟨⟨m, hm, hadm⟩, hmap'⟩ := ParamCall.run_spec hrule hl.map hle hw hs hcall
  have hmap : MapOf env rule s'.metricMap (if admitted then h ++ [(c.time, w, c.count)] else h) s'.now := by
    rw [hnow]
    exact hmap'
  rw [← hnow] at hle
  cases admitted with
  | false => exact hl.later hle hmap
  | true =>
    -- the totals before the call, at its time
    have hpast : ∀ u, totalOf u (inWindow rule.sampleCount.toNat (bucketMs rule) s'.now h) ≤
        ⌊rule.threshold⌋ := fun u =>
      (totalOf_le_of_sublist (inWindow_sublist hle hl.past) hl.window_counts).trans (hl.total_le u)
    have hnonneg : 0 ≤ totalOf w (inWindow rule.sampleCount.toNat (bucketMs rule) s'.now h) :=
      totalOf_nonneg hl.window_counts
    -- the check has compared the total, and nothing wrapped
    have hkey := hrule.key
    obtain ⟨-, hb⟩ := hrule.interval_eq
    obtain ⟨-, -, -, hn, -⟩ := hrule.bounds
    have hcount := hm.intervalCount_eq (t := c.time) (by rw [hkey]; exact hn) hb (hnow ▸ hle)
      (by rw [hkey]; exact hfit) w
    have hlimit : overLimit c.time m rule c.count w = false := by
      have hall := List.all_eq_true.mp hadm.symm w (List.mem_of_getElem? hw)
      simpa using hall
    rw [overLimit, hrule.qps] at hlimit
    simp only [decide_eq_false_iff_not, not_lt, hrule.thresholdFor_eq, hcount, toInt32_add_right] at hlimit
    simp only [hkey, ← hnow] at hlimit
    have hpos := hc.count_pos
    have hlt := hc.count_lt
    have hw' := hpast w
    rw [toInt32_of_bounds (by omega) (by omega)] at hlimit
    refine ⟨hmap, ?_, ?_, fun u => ?_⟩
    · intro x hx
      rcases List.mem_append.mp hx with hx | hx
      · exact (hl.past x hx).trans hle
      · rw [List.mem_singleton.mp hx]
        exact hnow.ge
    · intro x hx
      rcases List.mem_append.mp hx with hx | hx
      · exact hl.counts x hx
      · rw [List.mem_singleton.mp hx]
        show 0 ≤ c.count
        omega
    · have hin : InWindow rule.sampleCount.toNat (bucketMs rule) s'.now (c.time / bucketMs rule) := by
        rw [hnow]
        exact ⟨le_rfl, by omega⟩
      rw [if_pos rfl, inWindow, List.filter_append, List.map_append, ← inWindow]
      simp only [hin, List.filter_cons, decide_true, if_true, List.filter_nil, List.map_cons, List.map_nil,
        totalOf_concat]
      by_cases hu : w = u
      · subst hu
        simp only [if_true]
        omega
      · simp only [hu, if_false]
        have := hpast u
        omega

end Limited

/-- Every run of calls that fit keeps the limit. -/
theorem limited_of_run {env : CacheEnv} {rule : ParamFlowRule} (hrule : PlainQpsRule rule)
    {tr : List (ParamCall × Bool)} {s : LimitState}
    (hrun : Run (StepOf (callStep env rule)) ⟨[], 0⟩ tr s)
    (hcalls : ∀ a ∈ tr, FitsInt rule a.1) (hfit : ShardsFit env rule tr) :
    Limited env rule (admittedHist rule tr) s := by
  refine Run.hist (I := fun tr s => (∀ a ∈ tr, FitsInt rule a.1) → ShardsFit env rule tr →
    Limited env rule (admittedHist rule tr) s) ?_ ?_ hrun hcalls hfit
  · intro _ _
    exact Limited.start hrule
  · rintro tr s ⟨c, admitted⟩ s' - ih hstep hcalls hfit
    have hc : FitsInt rule c := hcalls (c, admitted) (by simp)
    obtain ⟨v, hv, -⟩ := hc.arg
    have hhist := admittedHist_concat tr c admitted hv
    -- what fits now fitted before
    have hfit' : ShardsFit env rule tr := by
      intro j
      have hj := hfit j
      rw [hhist] at hj
      cases admitted with
      | false => exact hj
      | true => exact ValuesFit.of_append hj
    rw [hhist]
    exact (ih (fun a ha => hcalls a (List.mem_append_left _ ha)) hfit').step hrule hc hv hfit' hstep

/-- **The limit holds.**  In every run of calls under one plain QPS rule whose values fit into the
shards of the cache and whose counts keep the sums within an `int`, after an admitted call the total
admitted in the window is at most the threshold, for the value of the call and every other. -/
theorem admittedTotal_le {env : CacheEnv} {rule : ParamFlowRule} (hrule : PlainQpsRule rule)
    {tr : List (ParamCall × Bool)} {c : ParamCall} {s : LimitState}
    (hrun : Run (StepOf (callStep env rule)) ⟨[], 0⟩ (tr ++ [(c, true)]) s)
    (hcalls : ∀ a ∈ tr ++ [(c, true)], FitsInt rule a.1)
    (hfit : ShardsFit env rule (tr ++ [(c, true)])) (v : AnyVal) :
    admittedTotal rule (tr ++ [(c, true)]) c.time v ≤ ⌊rule.threshold⌋ := by
  have hl := limited_of_run hrule hrun hcalls hfit
  obtain ⟨s₁, -, hstep⟩ := hrun.of_snoc
  obtain ⟨-, -, hnow⟩ := callStep_eq_some hstep
  rw [admittedTotal, ← hnow]
  exact hl.total_le v

/-- A rule on position 0 that allows each value one call a second, with room for two values. -/
def oneCallRule : ParamFlowRule :=
  { ((({} : ParamFlowRule).setParamIdx 0).setCacheSize 2).setThreshold 1 with resource := "r" }

/-- Two shards. -/
def twoShards : CacheEnv := ⟨fun _ => 0, 2, by decide⟩

/-- The integer 1, 2 or 3, at time 0. -/
def callOf (v : Int32) : ParamCall := ⟨0, 1, [.int32 v]⟩

/-- The values 1, 2 and 1 again, all admitted. -/
def evictingRun : List (ParamCall × Bool) := [(callOf 1, true), (callOf 2, true), (callOf 1, true)]

theorem admittedHist_evictingRun : admittedHist oneCallRule evictingRun =
    [(0, .int32 1, 1), (0, .int32 2, 1), (0, .int32 1, 1)] := by decide

theorem inBucket_zero_of_ne {E : Type} {b j : ℕ} {h : Hist E} (hj : j ≠ 0) (h0 : ∀ x ∈ h, x.1 = 0) :
    inBucket b j h = [] :=
  inBucket_eq_nil.mpr fun x hx => by rw [h0 x hx, Nat.zero_div]; exact hj.symm

theorem plainQpsRule_oneCallRule : PlainQpsRule oneCallRule :=
  ⟨by decide, rfl, rfl, rfl, rfl, by decide⟩

theorem floor_threshold_oneCallRule : ⌊oneCallRule.threshold⌋ = 1 := by
  rw [show oneCallRule.threshold = 1 from rfl, Int.floor_one]

theorem run_evictingRun :
    ∃ s, Run (StepOf (callStep twoShards oneCallRule)) ⟨[], 0⟩ evictingRun s :=
  exists_run_of_execute [callOf 1, callOf 2, callOf 1] (by decide)

theorem admittedTotal_evictingRun : admittedTotal oneCallRule evictingRun 0 (.int32 1) = 2 := by
  rw [admittedTotal, admittedHist_evictingRun]
  decide

theorem distinct_evictingRun (j : ℕ) : ((inBucket (bucketMs oneCallRule) j
    (admittedHist oneCallRule evictingRun)).map Prod.fst).dedup.length ≤ 2 := by
  rw [admittedHist_evictingRun]
  by_cases hj : j = 0
  · subst hj
    decide
  · rw [inBucket_zero_of_ne hj (by decide)]
    exact Nat.zero_le _

/-- A rule on position 0 that allows each value five calls a second, in two buckets, with room for two
values in each of two shards. -/
def fiveCallsRule : ParamFlowRule :=
  { (((({} : ParamFlowRule).setParamIdx 0).setSampleCount 2).setCacheSize 4).setThreshold 5 with
    resource := "r" }

theorem plainQpsRule_fiveCallsRule : PlainQpsRule fiveCallsRule :=
  ⟨by decide, rfl, rfl, rfl, rfl, by decide⟩

theorem floor_threshold_fiveCallsRule : ⌊fiveCallsRule.threshold⌋ = 5 := by
  rw [show fiveCallsRule.threshold = 5 from rfl]
  exact Int.floor_intCast 5

/-- A count of 5, then of the largest `int`: the sum wraps, and both are admitted. -/
def wrappingRun : List (ParamCall × Bool) :=
  [(⟨0, 5, [.int32 1]⟩, true), (⟨0, 2147483647, [.int32 1]⟩, true)]

theorem run_wrappingRun :
    ∃ s, Run (StepOf (callStep twoShards fiveCallsRule)) ⟨[], 0⟩ wrappingRun s :=
  exists_run_of_execute [⟨0, 5, [.int32 1]⟩, ⟨0, 2147483647, [.int32 1]⟩] (by decide)

theorem admittedHist_wrappingRun : admittedHist fiveCallsRule wrappingRun =
    [(0, .int32 1, 5), (0, .int32 1, 2147483647)] := by decide

theorem distinct_wrappingRun (j : ℕ) : ((inBucket (bucketMs fiveCallsRule) j
    (admittedHist fiveCallsRule wrappingRun)).map Prod.fst).dedup.length ≤ 4 := by
  rw [admittedHist_wrappingRun]
  by_cases hj : j = 0
  · subst hj
    decide
  · rw [inBucket_zero_of_ne hj (by decide)]
    exact Nat.zero_le _

/-- **The limit as the cache size suggests it fails twice.**  With two shards the values 1 and 2 fall into
the same one, which has room for one value only: the call of 2 evicts the count of 1, and 1 is admitted
twice, though each bucket has only two values.  And where nothing is evicted a large count wraps the sum. -/
theorem admittedTotal_exceeds :
    (PlainQpsRule oneCallRule ∧
      (∃ s, Run (StepOf (callStep twoShards oneCallRule)) ⟨[], 0⟩ evictingRun s) ∧
      (∀ j, ((inBucket (bucketMs oneCallRule) j (admittedHist oneCallRule evictingRun)).map
        Prod.fst).dedup.length ≤ oneCallRule.cacheSize.toNat) ∧
      ⌊oneCallRule.threshold⌋ < admittedTotal oneCallRule evictingRun 0 (.int32 1)) ∧
    (PlainQpsRule fiveCallsRule ∧
      (∃ s, Run (StepOf (callStep twoShards fiveCallsRule)) ⟨[], 0⟩ wrappingRun s) ∧
      (∀ j, ((inBucket (bucketMs fiveCallsRule) j (admittedHist fiveCallsRule wrappingRun)).map
        Prod.fst).dedup.length ≤ fiveCallsRule.cacheSize.toNat) ∧
      ⌊fiveCallsRule.threshold⌋ < admittedTotal fiveCallsRule wrappingRun 0 (.int32 1)) := by
  refine ⟨⟨plainQpsRule_oneCallRule, run_evictingRun, distinct_evictingRun, ?_⟩,
    ⟨plainQpsRule_fiveCallsRule, run_wrappingRun, distinct_wrappingRun, ?_⟩⟩
  · rw [floor_threshold_oneCallRule, admittedTotal_evictingRun]
    decide
  · rw [floor_threshold_fiveCallsRule, admittedTotal, admittedHist_wrappingRun]
    decide

/-- Calls of two values, with counts 2 and 3 of the first and one of it refused in between. -/
def twoValuesRun : List (ParamCall × Bool) :=
  [(⟨0, 2, [.int32 1]⟩, true), (⟨300, 5, [.int32 2]⟩, true), (⟨600, 4, [.int32 1]⟩, false)]

theorem admittedHist_twoValuesRun :
    admittedHist fiveCallsRule (twoValuesRun ++ [(⟨700, 3, [.int32 1]⟩, true)]) =
      [(0, .int32 1, 2), (300, .int32 2, 5), (700, .int32 1, 3)] := by decide

/-- Two values fit into any shard of the rule. -/
theorem shardsFit_of_twoValues {tr : List (ParamCall × Bool)}
    (htwo : ∀ x ∈ admittedHist fiveCallsRule tr, x.2.1 ∈ [AnyVal.int32 1, AnyVal.int32 2]) :
    ShardsFit twoShards fiveCallsRule tr := by
  intro j i
  refine (ScalableCache.dedup_length_le_of_subset
    (show _ ⊆ [AnyVal.int32 1, AnyVal.int32 2] from fun v hv => ?_)).trans ?_
  · obtain ⟨x, hx, rfl⟩ := List.mem_map.mp (List.mem_of_mem_filter hv)
    obtain ⟨y, hy, rfl⟩ := List.mem_map.mp hx
    exact htwo y (List.mem_of_mem_filter hy)
  · rw [show fiveCallsRule.cacheSize.toNat = 4 from rfl, show twoShards.numShards = 2 from rfl,
      ScalableCache.shardSize]
    refine le_trans ?_ (le_max_right _ _)
    show 2 ≤ 4 / 2 + _
    omega

/-- Four calls, the last one admitted: the total of the first value reaches the threshold of 5. -/
theorem admittedTotal_le_example :
    admittedTotal fiveCallsRule (twoValuesRun ++ [(⟨700, 3, [.int32 1]⟩, true)]) 700 (.int32 1) = 5 ∧
    admittedTotal fiveCallsRule (twoValuesRun ++ [(⟨700, 3, [.int32 1]⟩, true)]) 700 (.int32 1) ≤
      ⌊fiveCallsRule.threshold⌋ := by
  obtain ⟨s, hs⟩ : ∃ s, Run (StepOf (callStep twoShards fiveCallsRule)) ⟨[], 0⟩
      (twoValuesRun ++ [(⟨700, 3, [.int32 1]⟩, true)]) s :=
    exists_run_of_execute [⟨0, 2, [.int32 1]⟩, ⟨300, 5, [.int32 2]⟩, ⟨600, 4, [.int32 1]⟩, ⟨700, 3, [.int32 1]⟩]
      (by decide +kernel)
  have hfit : ShardsFit twoShards fiveCallsRule (twoValuesRun ++ [(⟨700, 3, [.int32 1]⟩, true)]) := by
    refine shardsFit_of_twoValues ?_
    rw [admittedHist_twoValuesRun]
    decide
  have hcalls : ∀ a ∈ twoValuesRun ++ [(⟨700, 3, [.int32 1]⟩, true)], FitsInt fiveCallsRule a.1 := by
    simp only [twoValuesRun, List.cons_append, List.nil_append, List.mem_cons, List.not_mem_nil, or_false]
    rintro a (rfl | rfl | rfl | rfl) <;>
      exact ⟨⟨_, rfl, rfl⟩, by decide, by rw [floor_threshold_fiveCallsRule]; decide⟩
  refine ⟨?_, admittedTotal_le plainQpsRule_fiveCallsRule hs hcalls hfit (.int32 1)⟩
  rw [admittedTotal, admittedHist_twoValuesRun]
  decide

end SentinelCpp.Param
