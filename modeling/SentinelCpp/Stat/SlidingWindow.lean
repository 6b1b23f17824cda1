import SentinelCpp.Common
import SentinelCpp.Lib.Fold
import SentinelCpp.Stat.LeapArray
import Mathlib.Data.List.Induction

/-!
# The sliding-window metric

A `MetricBucket` counts five events and keeps the smallest response time; `SlidingWindowMetric` adds
to the current bucket of a leap array and reads totals and extremes over the buckets that are not
deprecated.  `Exact m h now` says that the metric has recorded exactly the history `h`; under it the
three kinds of reads are the corresponding functions of the window.
-/

namespace SentinelCpp.Stat

open SentinelCpp.Lib

inductive MetricEvent
  | pass
  | block
  | exception
  | complete
  | rt
  deriving DecidableEq, Repr

/-- `MetricBucket`; its `int64_t` counters and its `long` are integers that do not overflow. -/
structure MetricBucket where
  counters : MetricEvent → ℤ
  minRt : ℤ

namespace MetricBucket

/-- A new bucket: zero counters and `InitMinRt()`. -/
def empty : MetricBucket := ⟨fun _ => 0, Constants.kMaxAllowedRt⟩

/-- `Reset()`. -/
def reset (_ : MetricBucket) : MetricBucket := empty

def get (b : MetricBucket) (event : MetricEvent) : ℤ := b.counters event

def add (b : MetricBucket) (event : MetricEvent) (n : ℤ) : MetricBucket :=
  { b with counters := Function.update b.counters event (b.counters event + n) }

def addRt (b : MetricBucket) (rt : ℤ) : MetricBucket :=
  let b := b.add .rt rt
  if rt < b.minRt then { b with minRt := rt } else b

instance : Resettable MetricBucket := ⟨reset⟩

end MetricBucket

structure SlidingWindowMetric where
  slidingWindow : LeapArray MetricBucket

namespace SlidingWindowMetric

/-- The constructor, on a `BucketLeapArray`. -/
def mk' (sampleCount intervalMs : ℕ) : SlidingWindowMetric :=
  ⟨LeapArray.mk' sampleCount intervalMs MetricBucket.empty⟩

variable (m : SlidingWindowMetric)

/-- The effect of every read: `sliding_window_->CurrentWindow()`. -/
def refresh (t : ℕ) : SlidingWindowMetric := ⟨m.slidingWindow.refresh t⟩

/-- `GetSum(event)`; the loop adds up the buckets that are not deprecated. -/
def getSum (event : MetricEvent) (t : ℕ) : SlidingWindowMetric × ℤ :=
  let m := m.refresh t
  (m, (m.slidingWindow.values t).foldl (fun sum bucket => sum + bucket.get event) 0)

def pass (t : ℕ) : SlidingWindowMetric × ℤ := m.getSum .pass t
def block (t : ℕ) : SlidingWindowMetric × ℤ := m.getSum .block t
def exception (t : ℕ) : SlidingWindowMetric × ℤ := m.getSum .exception t
def complete (t : ℕ) : SlidingWindowMetric × ℤ := m.getSum .complete t
def rt (t : ℕ) : SlidingWindowMetric × ℤ := m.getSum .rt t

/-- `MaxComplete()`. -/
def maxComplete (t : ℕ) : SlidingWindowMetric × ℤ :=
  let m := m.refresh t
  (m, max 1 ((m.slidingWindow.values t).foldl
    (fun mx bucket => if bucket.get .complete > mx then bucket.get .complete else mx) 0))

/-- `MinRt()`. -/
def minRt (t : ℕ) : SlidingWindowMetric × ℤ :=
  let m := m.refresh t
  (m, max 1 ((m.slidingWindow.values t).foldl
    (fun rt bucket => if bucket.minRt < rt then bucket.minRt else rt) Constants.kMaxAllowedRt))

/-- The common body of `AddPass`, `AddBlock`, `AddComplete` and `AddException`. -/
def addEvent (event : MetricEvent) (n : ℤ) (t : ℕ) : SlidingWindowMetric :=
  ⟨m.slidingWindow.updateCurrent t (fun b => b.add event n)⟩

def addPass (n : ℤ) (t : ℕ) : SlidingWindowMetric := m.addEvent .pass n t
def addBlock (n : ℤ) (t : ℕ) : SlidingWindowMetric := m.addEvent .block n t
def addComplete (n : ℤ) (t : ℕ) : SlidingWindowMetric := m.addEvent .complete n t
def addException (n : ℤ) (t : ℕ) : SlidingWindowMetric := m.addEvent .exception n t

def addRt (rt : ℤ) (t : ℕ) : SlidingWindowMetric :=
  ⟨m.slidingWindow.updateCurrent t (fun b => b.addRt rt)⟩

/-- `WindowIntervalInSec()`. -/
def windowIntervalInSec : ℚ := m.slidingWindow.intervalMs / 1000

def sampleCount : ℕ := m.slidingWindow.sampleCount

@[simp] theorem refresh_windowIntervalInSec (t : ℕ) :
    (m.refresh t).windowIntervalInSec = m.windowIntervalInSec := by
  simp [refresh, windowIntervalInSec]
@[simp] theorem refresh_refresh (t : ℕ) : (m.refresh t).refresh t = m.refresh t := by
  simp [refresh, LeapArray.refresh_refresh]
@[simp] theorem getSum_fst (event : MetricEvent) (t : ℕ) : (m.getSum event t).1 = m.refresh t := rfl
@[simp] theorem maxComplete_fst (t : ℕ) : (m.maxComplete t).1 = m.refresh t := rfl
@[simp] theorem minRt_fst (t : ℕ) : (m.minRt t).1 = m.refresh t := rfl
@[simp] theorem refresh_sampleCount (t : ℕ) : (m.refresh t).sampleCount = m.sampleCount :=
  m.slidingWindow.refresh_sampleCount t
@[simp] theorem getSum_refresh (event : MetricEvent) (t : ℕ) :
    (m.refresh t).getSum event t = m.getSum event t := by
  simp only [getSum, refresh_refresh]
@[simp] theorem maxComplete_refresh (t : ℕ) : (m.refresh t).maxComplete t = m.maxComplete t := by
  simp only [maxComplete, refresh_refresh]
@[simp] theorem minRt_refresh (t : ℕ) : (m.refresh t).minRt t = m.minRt t := by
  simp only [minRt, refresh_refresh]

end SlidingWindowMetric

/-! ### What a metric has recorded -/

/-- One addition to a bucket: an event with an amount, or a response time. -/
inductive MetricAdd
  | add (event : MetricEvent) (n : ℤ)
  | addRt (rt : ℤ)
  deriving DecidableEq

namespace MetricAdd

/-- What the addition contributes to the counter of `event`. -/
def amount (event : MetricEvent) : MetricAdd → ℤ
  | add e n => if e = event then n else 0
  | addRt rt => if event = .rt then rt else 0

/-- The addition made on a bucket. -/
def apply : MetricAdd → MetricBucket → MetricBucket
  | add event n, b => b.add event n
  | addRt rt, b => b.addRt rt

/-- The response time of the addition, when it carries one. -/
def rt? : MetricAdd → Option ℤ
  | add _ _ => none
  | addRt rt => some rt

theorem get_add (b : MetricBucket) (event : MetricEvent) (n : ℤ) (e : MetricEvent) :
    (b.add event n).get e = b.get e + (add event n).amount e := by
  by_cases he : e = event
  · simp [amount, MetricBucket.get, MetricBucket.add, he]
  · simp [amount, MetricBucket.get, MetricBucket.add, he, Ne.symm he]

theorem get_addRt (b : MetricBucket) (rt : ℤ) (e : MetricEvent) :
    (b.addRt rt).get e = b.get e + (addRt rt).amount e := by
  have hget : (b.addRt rt).get e = (b.add .rt rt).get e := by
    unfold MetricBucket.addRt
    dsimp only
    split <;> rfl
  rw [hget, get_add, amount, amount]
  simp only [eq_comm]

theorem get_apply (a : MetricAdd) (b : MetricBucket) (e : MetricEvent) :
    (a.apply b).get e = b.get e + a.amount e := by
  cases a with
  | add event n => exact get_add b event n e
  | addRt rt => exact get_addRt b rt e

end MetricAdd

/-- A bucket has counted exactly the additions `es`. -/
def BucketOf (v : MetricBucket) (es : List MetricAdd) : Prop :=
  (∀ event, v.get event = (es.map (MetricAdd.amount event)).sum) ∧
    v.minRt = (es.filterMap MetricAdd.rt?).foldr min Constants.kMaxAllowedRt

theorem bucketOf_empty : BucketOf MetricBucket.empty [] := by
  simp [BucketOf, MetricBucket.empty, MetricBucket.get]

theorem foldr_min_concat (l : List ℤ) (x c : ℤ) :
    (l ++ [x]).foldr min c = min (l.foldr min c) x := by
  induction l with
  | nil => simp [min_comm]
  | cons y l ih => simp only [List.cons_append, List.foldr_cons, ih, min_assoc]

theorem BucketOf.add {v : MetricBucket} {es : List MetricAdd} (h : BucketOf v es)
    (event : MetricEvent) (n : ℤ) : BucketOf (v.add event n) (es ++ [.add event n]) := by
  obtain ⟨hc, hm⟩ := h
  refine ⟨fun e => ?_, ?_⟩
  · rw [MetricAdd.get_add, hc, List.map_append, List.sum_append, List.map_singleton,
      List.sum_singleton]
  · have hnil : [MetricAdd.add event n].filterMap MetricAdd.rt? = [] := rfl
    rw [List.filterMap_append, hnil, List.append_nil]
    exact hm

theorem BucketOf.addRt {v : MetricBucket} {es : List MetricAdd} (h : BucketOf v es) (rt : ℤ) :
    BucketOf (v.addRt rt) (es ++ [.addRt rt]) := by
  obtain ⟨hc, hm⟩ := h
  have hmin : (v.addRt rt).minRt = min v.minRt rt := by
    by_cases hlt : rt < v.minRt
    · rw [min_eq_right hlt.le]
      simp [MetricBucket.addRt, MetricBucket.add, hlt]
    · rw [min_eq_left (not_lt.mp hlt)]
      simp [MetricBucket.addRt, MetricBucket.add, hlt]
  refine ⟨fun e => ?_, ?_⟩
  · rw [MetricAdd.get_addRt, hc, List.map_append, List.sum_append, List.map_singleton,
      List.sum_singleton]
  · rw [hmin, hm, List.filterMap_append]
    simp only [List.filterMap_cons, MetricAdd.rt?, List.filterMap_nil]
    rw [foldr_min_concat]

/-! ### Exactness -/

/-- The metric was built with `n` buckets of length `b` and has recorded exactly `h`, last used no
later than `now`. -/
structure Exact (n b : ℕ) (m : SlidingWindowMetric) (h : Hist MetricAdd) (now : ℕ) : Prop where
  count : m.slidingWindow.sampleCount = n
  interval : m.slidingWindow.intervalMs = n * b
  fresh : m.slidingWindow.newEmptyBucket = MetricBucket.empty
  stands : m.slidingWindow.Stands BucketOf h now

namespace Exact

variable {n b now t : ℕ} {m : SlidingWindowMetric} {h : Hist MetricAdd}

theorem mk' (n b now : ℕ) : Exact n b (SlidingWindowMetric.mk' n (n * b)) [] now :=
  ⟨rfl, rfl, rfl, LeapArray.stands_mk' _ _ _⟩

theorem bucketLengthMs (hn : 0 < n) (hm : Exact n b m h now) : m.slidingWindow.bucketLengthMs = b := by
  rw [LeapArray.bucketLengthMs, hm.count, hm.interval, Nat.mul_div_cancel_left b hn]

theorem wellFormed (hn : 0 < n) (hb : 0 < b) (hm : Exact n b m h now) :
    m.slidingWindow.WellFormed :=
  ⟨hm.count ▸ hn, by rw [hm.bucketLengthMs hn]; exact hb,
    by rw [hm.bucketLengthMs hn, hm.count, hm.interval]⟩

theorem later (hm : Exact n b m h now) (hle : now ≤ t) : Exact n b m h t :=
  ⟨hm.count, hm.interval, hm.fresh, hm.stands.later hle⟩

theorem reset_nil (v : MetricBucket) (es : List MetricAdd) (_ : BucketOf v es) :
    BucketOf (Resettable.reset v) [] := bucketOf_empty

/-- **Reading** leaves the recorded history as it was. -/
theorem refresh (hm : Exact n b m h now) (hle : now ≤ t) :
    Exact n b (m.refresh t) h t ∧ (m.refresh t).slidingWindow.Visited t := by
  obtain ⟨hS, hV, -⟩ := hm.stands.currentWindow hle (hm.fresh ▸ bucketOf_empty) reset_nil
  refine ⟨⟨?_, ?_, ?_, hS⟩, hV⟩ <;> simp only [SlidingWindowMetric.refresh]
  · rw [LeapArray.refresh_sampleCount, hm.count]
  · rw [LeapArray.refresh_intervalMs, hm.interval]
  · rw [LeapArray.refresh_newEmptyBucket, hm.fresh]

/-- An update of the current bucket that counts one more addition. -/
theorem updateCurrent (hn : 0 < n) (hb : 0 < b) (hm : Exact n b m h now) (hle : now ≤ t)
    {f : MetricBucket → MetricBucket} {e : MetricAdd}
    (hf : ∀ v es, BucketOf v es → BucketOf (f v) (es ++ [e])) :
    Exact n b ⟨m.slidingWindow.updateCurrent t f⟩ (h ++ [(t, e)]) t := by
  have hlen : 0 < m.slidingWindow.bucketLengthMs := by
    rw [hm.bucketLengthMs hn]
    exact hb
  obtain ⟨hS, -⟩ := hm.stands.record hle hlen (hm.fresh ▸ bucketOf_empty) reset_nil hf
  refine ⟨?_, ?_, ?_, hS⟩
  · simp [hm.count]
  · simp [hm.interval]
  · simp [hm.fresh]

theorem addEvent (hn : 0 < n) (hb : 0 < b) (hm : Exact n b m h now) (hle : now ≤ t)
    (event : MetricEvent) (a : ℤ) :
    Exact n b (m.addEvent event a t) (h ++ [(t, .add event a)]) t :=
  hm.updateCurrent hn hb hle fun _ _ hv => hv.add event a

theorem addRt (hn : 0 < n) (hb : 0 < b) (hm : Exact n b m h now) (hle : now ≤ t) (rt : ℤ) :
    Exact n b (m.addRt rt t) (h ++ [(t, .addRt rt)]) t :=
  hm.updateCurrent hn hb hle fun _ _ hv => hv.addRt rt

/-- **`GetSum`** is the total of the window. -/
theorem getSum_eq (hn : 0 < n) (hb : 0 < b) (hm : Exact n b m h now) (hle : now ≤ t)
    (event : MetricEvent) :
    (m.getSum event t).2 = ((inWindow n b t h).map (MetricAdd.amount event)).sum := by
  obtain ⟨hm', hV⟩ := hm.refresh hle
  have hsum := hm'.stands.sum_values (φ := fun v => v.get event) (f := MetricAdd.amount event)
    (fun v es hv => hv.1 event) (hm'.wellFormed hn hb) hV
  rw [hm'.count, hm'.bucketLengthMs hn] at hsum
  rw [← hsum, List.sum_eq_foldl, List.foldl_map]
  rfl

/-- The buckets `Values` returns stand for buckets of the window; the others have no event. -/
theorem values_cover (hn : 0 < n) (hb : 0 < b) (hm : Exact n b m h now) (hle : now ≤ t) :
    ∃ ks : List ℕ, List.Forall₂ (fun v k => BucketOf v (inBucket b k h))
        ((m.refresh t).slidingWindow.values t) ks ∧ (∀ k ∈ ks, InWindow n b t k) ∧
      ∀ k, InWindow n b t k → k ∉ ks → inBucket b k h = [] := by
  obtain ⟨hm', hV⟩ := hm.refresh hle
  obtain ⟨ks, h1, -, h3, h4⟩ := hm'.stands.values_cover (hm'.wellFormed hn hb) hV
  rw [hm'.bucketLengthMs hn] at h1 h3 h4
  rw [hm'.count] at h3 h4
  exact ⟨ks, h1, h3, h4⟩

/-- The buckets `Buckets` returns count what was added in buckets of the window; the ones it does not
return have no addition. -/
theorem buckets_spec (hn : 0 < n) (hb : 0 < b) (hm : Exact n b m h now) (hle : now ≤ t) :
    (∀ w ∈ (m.refresh t).slidingWindow.buckets t, ∃ k, w.bucketStart = k * b ∧ InWindow n b t k ∧
      BucketOf w.value (inBucket b k h)) ∧
    ∀ k, InWindow n b t k → inBucket b k h ≠ [] →
      ∃ w ∈ (m.refresh t).slidingWindow.buckets t, w.bucketStart = k * b := by
  obtain ⟨hm', hV⟩ := hm.refresh hle
  have h := hm'.stands.buckets_spec (hm'.wellFormed hn hb) hV
  rwa [hm'.bucketLengthMs hn, hm'.count] at h

/-- **`MaxComplete`** is the largest number of completions in a bucket of the window, or 1. -/
theorem maxComplete_eq (hn : 0 < n) (hb : 0 < b) (hm : Exact n b m h now) (hle : now ≤ t) :
    (m.maxComplete t).2 = ((windowBuckets n b t).map fun k =>
      ((inBucket b k h).map (MetricAdd.amount .complete)).sum).foldr max 1 := by
  obtain ⟨ks, h1, h2, h3⟩ := hm.values_cover hn hb hle
  refine eq_of_forall_ge_iff fun x => ?_
  have hpos : ∀ v ∈ (m.refresh t).slidingWindow.values t, ∃ k, InWindow n b t k ∧
      v.get .complete = ((inBucket b k h).map (MetricAdd.amount .complete)).sum := by
    intro v hv
    obtain ⟨k, hk, hvk⟩ := exists_of_mem_left h1 hv
    exact ⟨k, h2 k hk, hvk.1 _⟩
  have hneg : ∀ k, InWindow n b t k → (∃ v ∈ (m.refresh t).slidingWindow.values t,
      v.get .complete = ((inBucket b k h).map (MetricAdd.amount .complete)).sum) ∨
      ((inBucket b k h).map (MetricAdd.amount .complete)).sum = 0 := by
    intro k hk
    by_cases hkk : k ∈ ks
    · obtain ⟨v, hv, hvk⟩ := exists_of_mem_right h1 hkk
      exact .inl ⟨v, hv, hvk.1 _⟩
    · right
      rw [h3 k hk hkk]
      rfl
  simp only [SlidingWindowMetric.maxComplete, ite_gt_eq_max]
  rw [max_le_iff, foldl_max_le_iff (fun v : MetricBucket => v.get .complete), foldr_max_le_iff]
  simp only [List.forall_mem_map, mem_windowBuckets]
  constructor
  · rintro ⟨h5, -, h6⟩
    refine ⟨h5, fun k hk => ?_⟩
    rcases hneg k hk with ⟨v, hv, hvk⟩ | h0
    · rw [← hvk]
      exact h6 v hv
    · omega
  · rintro ⟨h5, h6⟩
    refine ⟨h5, by omega, fun v hv => ?_⟩
    obtain ⟨k, hk, hvk⟩ := hpos v hv
    rw [hvk]
    exact h6 k hk

/-- **`MinRt`** is the smallest response time of the window, at most `kMaxAllowedRt`, at least 1. -/
theorem minRt_eq (hn : 0 < n) (hb : 0 < b) (hm : Exact n b m h now) (hle : now ≤ t) :
    (m.minRt t).2 = max 1 (((inWindow n b t h).filterMap MetricAdd.rt?).foldr min
      Constants.kMaxAllowedRt) := by
  obtain ⟨ks, h1, h2, h3⟩ := hm.values_cover hn hb hle
  simp only [SlidingWindowMetric.minRt, ite_lt_eq_min]
  congr 1
  refine eq_of_forall_le_iff fun x => ?_
  rw [le_foldl_min_iff (fun v : MetricBucket => v.minRt), le_foldr_min_iff]
  refine and_congr_right fun hx => ?_
  simp only [List.mem_filterMap]
  constructor
  · rintro h4 r ⟨e, he, hr⟩
    simp only [inWindow, List.mem_map, List.mem_filter, decide_eq_true_eq] at he
    obtain ⟨⟨u, e'⟩, ⟨hmem, hwin⟩, rfl⟩ := he
    have hin : e' ∈ inBucket b (u / b) h := by
      simp only [inBucket, List.mem_map, List.mem_filter, decide_eq_true_eq]
      exact ⟨(u, e'), ⟨hmem, rfl⟩, rfl⟩
    by_cases hkk : u / b ∈ ks
    · obtain ⟨v, hv, hvk⟩ := exists_of_mem_right h1 hkk
      have := h4 v hv
      rw [hvk.2, le_foldr_min_iff] at this
      exact this.2 r (List.mem_filterMap.mpr ⟨e', hin, hr⟩)
    · rw [h3 _ hwin hkk] at hin
      simp at hin
  · intro h4 v hv
    obtain ⟨k, hk, hvk⟩ := exists_of_mem_left h1 hv
    rw [hvk.2, le_foldr_min_iff]
    refine ⟨hx, fun r hr => ?_⟩
    obtain ⟨e, he, her⟩ := List.mem_filterMap.mp hr
    simp only [inBucket, List.mem_map, List.mem_filter, decide_eq_true_eq] at he
    obtain ⟨⟨u, e'⟩, ⟨hmem, hu⟩, rfl⟩ := he
    refine h4 r ⟨e', ?_, her⟩
    simp only [inWindow, List.mem_map, List.mem_filter, decide_eq_true_eq]
    exact ⟨(u, e'), ⟨hmem, hu ▸ h2 k hk⟩, rfl⟩

end Exact

/-! ### Runs of a metric -/

/-- A call on a metric: an addition to the current bucket or one of the reads. -/
inductive MetricOp
  | add (event : MetricEvent) (n : ℤ)
  | addRt (rt : ℤ)
  | getSum (event : MetricEvent)
  | maxComplete
  | minRt

namespace MetricOp

/-- What the call does to the metric at time `t`. -/
def apply (m : SlidingWindowMetric) (t : ℕ) : MetricOp → SlidingWindowMetric
  | add event n => m.addEvent event n t
  | addRt rt => m.addRt rt t
  | getSum event => (m.getSum event t).1
  | maxComplete => (m.maxComplete t).1
  | minRt => (m.minRt t).1

/-- The addition the call makes, if any. -/
def recorded : MetricOp → Option MetricAdd
  | add event n => some (.add event n)
  | addRt rt => some (.addRt rt)
  | _ => none

end MetricOp

/-- The timed calls `ops`, in order, from the metric `m`. -/
def SlidingWindowMetric.run (m : SlidingWindowMetric) (ops : List (ℕ × MetricOp)) :
    SlidingWindowMetric :=
  ops.foldl (fun m x => x.2.apply m x.1) m

/-- The additions among the calls, with their times. -/
def additions (ops : List (ℕ × MetricOp)) : Hist MetricAdd :=
  ops.filterMap fun x => x.2.recorded.map fun e => (x.1, e)

/-- One call at a time not before the last use. -/
theorem Exact.apply {n b now t : ℕ} {m : SlidingWindowMetric} {h : Hist MetricAdd} (hn : 0 < n)
    (hb : 0 < b) (hm : Exact n b m h now) (hle : now ≤ t) (op : MetricOp) :
    Exact n b (op.apply m t) (h ++ additions [(t, op)]) t := by
  cases op with
  | add event a => exact hm.addEvent hn hb hle event a
  | addRt rt => exact hm.addRt hn hb hle rt
  | getSum _ | maxComplete | minRt =>
    simpa [additions, MetricOp.recorded, MetricOp.apply] using (hm.refresh hle).1

/-- A run at non-decreasing times records exactly its additions. -/
theorem Exact.run {n b : ℕ} (hn : 0 < n) (hb : 0 < b) {ops : List (ℕ × MetricOp)} {t : ℕ}
    (hmono : (ops.map Prod.fst).Pairwise (· ≤ ·)) (ht : ∀ x ∈ ops, x.1 ≤ t) :
    Exact n b ((SlidingWindowMetric.mk' n (n * b)).run ops) (additions ops) t := by
  induction ops using List.reverseRecOn generalizing t with
  | nil => exact Exact.mk' n b t
  | append_singleton ops x ih =>
    rw [List.map_append, List.pairwise_append] at hmono
    have hx : ∀ y ∈ ops, y.1 ≤ x.1 := fun y hy =>
      hmono.2.2 y.1 (List.mem_map_of_mem hy) x.1 (by simp)
    have := (ih hmono.1 hx).apply hn hb le_rfl x.2
    simp only [SlidingWindowMetric.run, List.foldl_append, additions, List.filterMap_append] at this ⊢
    exact this.later (ht x (by simp))

/-- **The window is exact.**  After any run at non-decreasing times, a read at a later time `t`
returns the total, the largest bucket and the smallest response time over exactly the additions whose
bucket is one of the last `n`. -/
theorem sliding_window_exact {n b : ℕ} (hn : 0 < n) (hb : 0 < b) (ops : List (ℕ × MetricOp)) (t : ℕ)
    (hmono : (ops.map Prod.fst).Pairwise (· ≤ ·)) (ht : ∀ x ∈ ops, x.1 ≤ t) :
    let m := (SlidingWindowMetric.mk' n (n * b)).run ops
    (∀ event, (m.getSum event t).2 =
      ((inWindow n b t (additions ops)).map (MetricAdd.amount event)).sum) ∧
    (m.maxComplete t).2 = ((windowBuckets n b t).map fun k =>
      ((inBucket b k (additions ops)).map (MetricAdd.amount .complete)).sum).foldr max 1 ∧
    (m.minRt t).2 = max 1 (((inWindow n b t (additions ops)).filterMap MetricAdd.rt?).foldr min
      Constants.kMaxAllowedRt) := by
  have hm := Exact.run hn hb hmono ht
  exact ⟨hm.getSum_eq hn hb le_rfl, hm.maxComplete_eq hn hb le_rfl, hm.minRt_eq hn hb le_rfl⟩

/-- Two buckets of 10 ms; what was added at 0 has left the window at 27, the rest has not. -/
theorem sliding_window_exact_example :
    let ops := [(0, .add .pass 3), (0, .addRt 2), (12, .add .pass 4), (12, .add .complete 2),
      (13, .addRt 7), (25, .getSum .pass), (26, .add .complete 5)]
    let m := (SlidingWindowMetric.mk' 2 (2 * 10)).run ops
    (m.getSum .pass 27).2 = 4 ∧ (m.getSum .complete 27).2 = 7 ∧ (m.maxComplete 27).2 = 5 ∧
      (m.minRt 27).2 = 7 := by
  intro ops m
  obtain ⟨hsum, hmax, hmin⟩ := sliding_window_exact (n := 2) (b := 10) (by decide) (by decide) ops 27
    (by decide) (by decide)
  rw [hsum .pass, hsum .complete, hmax, hmin]
  decide

end SentinelCpp.Stat
