import Mathlib.Algebra.Order.BigOperators.Group.List
import Mathlib.Data.List.Chain
import SentinelCpp.Lib.Run
import SentinelCpp.Stat.Node

/-!
# Metrics per second

`StatisticNode::Metrics()` turns the window of one minute into one item per second and returns the
items that are not empty, whose second has ended, and that lie after the last second it has returned
before.  As long as it is called often enough that no second is overwritten in the ring unseen, every
second in which something was recorded is returned by exactly one call.
-/

namespace SentinelCpp.Stat

open SentinelCpp.Lib

/-! ### Items and the node that returns them -/

structure MetricItem where
  resource : String := ""
  timestamp : ℤ
  passQps : ℤ
  blockQps : ℤ
  completeQps : ℤ
  exceptionQps : ℤ
  rt : ℤ
  deriving DecidableEq

/-- The item `Details()` makes of a bucket, from its start and counters; the division rounds towards
zero. -/
def MetricItem.ofBucket (bucketStart : ℤ) (get : MetricEvent → ℤ) : MetricItem :=
  let complete := get .complete
  { timestamp := bucketStart
    passQps := get .pass
    blockQps := get .block
    completeQps := complete
    exceptionQps := get .exception
    rt := if complete ≤ 0 then get .rt else (get .rt).tdiv complete }

/-- `Details()`. -/
def SlidingWindowMetric.details (m : SlidingWindowMetric) (t : ℕ) :
    SlidingWindowMetric × List MetricItem :=
  let m := m.refresh t
  (m, (m.slidingWindow.buckets t).map fun wrap =>
    MetricItem.ofBucket wrap.bucketStart wrap.value.get)

/-- `IsValidMetricItem(item)`. -/
def isValidMetricItem (item : MetricItem) : Bool :=
  decide (item.passQps > 0 ∨ item.blockQps > 0 ∨ item.completeQps > 0 ∨ item.exceptionQps > 0 ∨
    item.rt > 0)

/-- A statistic node with `last_fetch_timestamp_`, which only `Metrics()` reads and writes. -/
structure FetchedNode extends StatisticNode where
  lastFetchTimestamp : ℤ

namespace FetchedNode

def mk' (c : StatConfig) : FetchedNode :=
  { toStatisticNode := .mk' c, lastFetchTimestamp := -1 }

variable (n : FetchedNode)

/-- `IsNodeInTime(item, cur_time)`. -/
def isNodeInTime (item : MetricItem) (curTime : ℤ) : Bool :=
  decide (item.timestamp > n.lastFetchTimestamp ∧ item.timestamp < curTime)

/-- `Metrics()`: the node after the call and the map it returns. -/
def metrics (t : ℕ) : FetchedNode × Assoc ℤ MetricItem :=
  let curTime : ℤ := (t : ℤ) - (t % 1000 : ℕ)
  let itemsOfSecond := n.rollingCounterMinute.details t
  let r := itemsOfSecond.2.foldl
    (fun (r : ℤ × Assoc ℤ MetricItem) item =>
      if n.isNodeInTime item curTime && isValidMetricItem item then
        (max r.1 item.timestamp, r.2.insertNew item.timestamp item)
      else r)
    (n.lastFetchTimestamp, [])
  ({ n with rollingCounterMinute := itemsOfSecond.1, lastFetchTimestamp := r.1 }, r.2)

end FetchedNode

/-- The calls on a node that its metrics depend on. -/
inductive NodeCall
  | addPassRequest (count : ℤ)
  | addBlockRequest (count : ℤ)
  | addExceptionRequest (count : ℤ)
  | addRtAndCompleteRequest (rt completeCount : ℤ)
  | metrics
  deriving DecidableEq

namespace NodeCall

/-- What the call does to the node at time `t`, and the map when it returns one. -/
def apply (n : FetchedNode) (t : ℕ) : NodeCall → FetchedNode × Option (Assoc ℤ MetricItem)
  | addPassRequest count =>
    ({ n with toStatisticNode := n.toStatisticNode.addPassRequest count t }, none)
  | addBlockRequest count =>
    ({ n with toStatisticNode := n.toStatisticNode.addBlockRequest count t }, none)
  | addExceptionRequest count =>
    ({ n with toStatisticNode := n.toStatisticNode.addExceptionRequest count t }, none)
  | addRtAndCompleteRequest rt completeCount =>
    ({ n with toStatisticNode := n.toStatisticNode.addRtAndCompleteRequest rt completeCount t }, none)
  | metrics => ((n.metrics t).1, some (n.metrics t).2)

/-- The counts of the call are positive. -/
def Positive : NodeCall → Prop
  | addPassRequest count | addBlockRequest count | addExceptionRequest count
  | addRtAndCompleteRequest _ count => 0 < count
  | metrics => True

instance : DecidablePred Positive
  | addPassRequest count => inferInstanceAs (Decidable (0 < count))
  | addBlockRequest count => inferInstanceAs (Decidable (0 < count))
  | addExceptionRequest count => inferInstanceAs (Decidable (0 < count))
  | addRtAndCompleteRequest _ count => inferInstanceAs (Decidable (0 < count))
  | metrics => inferInstanceAs (Decidable True)

/-- What the call adds to the window of one minute. -/
def additions : NodeCall → List MetricAdd
  | addPassRequest count => [.add .pass count]
  | addBlockRequest count => [.add .block count]
  | addExceptionRequest count => [.add .exception count]
  | addRtAndCompleteRequest rt completeCount => [.add .complete completeCount, .addRt rt]
  | metrics => []

end NodeCall

/-- One timed call on the node. -/
def FetchedNode.step (n : FetchedNode) (i : ℕ × NodeCall) :
    Option (FetchedNode × Option (Assoc ℤ MetricItem)) :=
  some (i.2.apply n i.1)

theorem FetchedNode.stepOf_iff {n n' : FetchedNode}
    {a : (ℕ × NodeCall) × Option (Assoc ℤ MetricItem)} :
    StepOf FetchedNode.step n a n' ↔
      n' = (a.1.2.apply n a.1.1).1 ∧ a.2 = (a.1.2.apply n a.1.1).2 := by
  rw [StepOf, FetchedNode.step, Option.some.injEq, Prod.ext_iff, eq_comm, and_congr_right_iff]
  exact fun _ => eq_comm

/-! ### What a second amounts to -/

/-- The total of an event over second `s`. -/
def secondTotal (h : Hist MetricAdd) (s : ℕ) (event : MetricEvent) : ℤ :=
  ((inBucket 1000 s h).map (MetricAdd.amount event)).sum

/-- The item of second `s`. -/
def secondItem (h : Hist MetricAdd) (s : ℕ) : MetricItem := .ofBucket (1000 * s) (secondTotal h s)

/-- Counts are not negative, and every addition comes with a positive count. -/
structure Counted (h : Hist MetricAdd) : Prop where
  nonneg : ∀ x ∈ h, ∀ event, event ≠ .rt → 0 ≤ x.2.amount event
  counts : ∀ x ∈ h, ∃ y ∈ h, y.1 = x.1 ∧ ∃ event, event ≠ .rt ∧ 0 < y.2.amount event

theorem secondItem_congr {h h' : Hist MetricAdd} {s : ℕ} (heq : inBucket 1000 s h = inBucket 1000 s h') :
    secondItem h s = secondItem h' s := by
  have htotal : secondTotal h s = secondTotal h' s := by
    ext event
    rw [secondTotal, heq, secondTotal]
  rw [secondItem, htotal, secondItem]

theorem MetricItem.ofBucket_eq {h : Hist MetricAdd} {s : ℕ} {w : WindowWrap MetricBucket}
    (hs : w.bucketStart = s * 1000) (hw : BucketOf w.value (inBucket 1000 s h)) :
    MetricItem.ofBucket w.bucketStart w.value.get = secondItem h s := by
  have hstart : (w.bucketStart : ℤ) = 1000 * s := by omega
  have hget : w.value.get = secondTotal h s := by
    ext event
    exact hw.1 event
  rw [hstart, hget, secondItem]

theorem Counted.append {h h' : Hist MetricAdd} (hc : Counted h) (hc' : Counted h') :
    Counted (h ++ h') := by
  refine ⟨fun x hx => ?_, fun x hx => ?_⟩
  · rcases List.mem_append.mp hx with hx | hx
    · exact hc.nonneg x hx
    · exact hc'.nonneg x hx
  · rcases List.mem_append.mp hx with hx | hx
    · obtain ⟨y, hy, hyx⟩ := hc.counts x hx
      exact ⟨y, List.mem_append_left _ hy, hyx⟩
    · obtain ⟨y, hy, hyx⟩ := hc'.counts x hx
      exact ⟨y, List.mem_append_right _ hy, hyx⟩

theorem counted_single (t : ℕ) {event : MetricEvent} {count : ℤ} (hne : event ≠ .rt) (hpos : 0 < count) :
    Counted [(t, .add event count)] := by
  refine ⟨fun x hx e _ => ?_, fun x hx => ⟨x, hx, rfl, event, hne, ?_⟩⟩
  · obtain rfl := List.mem_singleton.mp hx
    show 0 ≤ if event = e then count else 0
    split_ifs <;> omega
  · obtain rfl := List.mem_singleton.mp hx
    show 0 < if event = event then count else 0
    simpa using hpos

/-- A call with positive counts adds a positive count with everything it adds. -/
theorem NodeCall.Positive.counted {c : NodeCall} (hc : c.Positive) (t : ℕ) :
    Counted (c.additions.map fun e => (t, e)) := by
  cases c with
  | addPassRequest count => exact counted_single t (by decide) hc
  | addBlockRequest count => exact counted_single t (by decide) hc
  | addExceptionRequest count => exact counted_single t (by decide) hc
  | addRtAndCompleteRequest rt count =>
    have hcomplete : Counted [(t, .add .complete count)] := counted_single t (by decide) hc
    obtain ⟨h1, h2⟩ := hcomplete
    refine ⟨fun x hx e he => ?_, fun x hx => ?_⟩
    · rcases List.mem_cons.mp hx with hx | hx
      · exact h1 x (List.mem_singleton.mpr hx) e he
      · obtain rfl := List.mem_singleton.mp hx
        show 0 ≤ if e = .rt then rt else 0
        rw [if_neg he]
    · obtain ⟨y, hy, -, hpos⟩ := h2 _ (List.mem_singleton_self _)
      refine ⟨y, List.mem_cons.mpr (.inl (List.mem_singleton.mp hy)), ?_, hpos⟩
      obtain rfl := List.mem_singleton.mp hy
      rcases List.mem_cons.mp hx with rfl | hx
      · rfl
      · obtain rfl := List.mem_singleton.mp hx
        rfl
  | metrics => exact ⟨by simp [additions], by simp [additions]⟩

/-- The filter of empty items keeps exactly the seconds with an addition. -/
theorem isValidMetricItem_secondItem {h : Hist MetricAdd} (hc : Counted h) (s : ℕ) :
    isValidMetricItem (secondItem h s) = true ↔ inBucket 1000 s h ≠ [] := by
  constructor
  · intro hv hnil
    simp [isValidMetricItem, secondItem, MetricItem.ofBucket, secondTotal, hnil] at hv
  · intro hne
    obtain ⟨e, he⟩ := List.exists_mem_of_ne_nil _ hne
    obtain ⟨u, hu, hus⟩ := mem_inBucket.mp he
    obtain ⟨y, hy, hyu, event, hev, hpos⟩ := hc.counts _ hu
    have htotal : ∀ e, e ≠ .rt → ∀ z ∈ (inBucket 1000 s h).map (MetricAdd.amount e), 0 ≤ z := by
      intro e he z hz
      obtain ⟨a, ha, rfl⟩ := List.mem_map.mp hz
      obtain ⟨v, hv, -⟩ := mem_inBucket.mp ha
      exact hc.nonneg _ hv e he
    have hmem : y.2 ∈ inBucket 1000 s h := mem_inBucket.mpr ⟨y.1, hy, by rw [hyu]; exact hus⟩
    have hle : y.2.amount event ≤ secondTotal h s event :=
      List.single_le_sum (htotal event hev) _ (List.mem_map_of_mem hmem)
    have hgt : 0 < secondTotal h s event := lt_of_lt_of_le hpos hle
    rw [isValidMetricItem, decide_eq_true_eq]
    cases event with
    | pass => exact .inl hgt
    | block => exact .inr (.inl hgt)
    | complete => exact .inr (.inr (.inl hgt))
    | exception => exact .inr (.inr (.inr (.inl hgt)))
    | rt => exact absurd rfl hev

/-! ### One call -/

/-- The loop of `Metrics()`: the largest timestamp and the map of the items that pass the tests. -/
theorem foldl_metrics (test : MetricItem → Bool) (items : List MetricItem) (c : ℤ)
    (m : Assoc ℤ MetricItem) :
    items.foldl (fun (r : ℤ × Assoc ℤ MetricItem) item =>
        if test item then (max r.1 item.timestamp, r.2.insertNew item.timestamp item) else r) (c, m) =
      ((items.filter test).foldl (fun c item => max c item.timestamp) c,
        (items.filter test).foldl (fun m item => m.insertNew item.timestamp item) m) := by
  induction items generalizing c m with
  | nil => rfl
  | cons item items ih =>
    rw [List.foldl_cons, List.filter_cons]
    split_ifs with h
    · rw [ih, List.foldl_cons, List.foldl_cons]
    · exact ih c m

/-- The items of the ring are the seconds of the last minute, all those with an addition among them. -/
theorem Exact.details_spec {m : SlidingWindowMetric} {h : Hist MetricAdd} {now t : ℕ}
    (hm : Exact 60 1000 m h now) (hle : now ≤ t) :
    (∀ item ∈ (m.details t).2, ∃ s, InWindow 60 1000 t s ∧ item = secondItem h s) ∧
      ∀ s, InWindow 60 1000 t s → inBucket 1000 s h ≠ [] → secondItem h s ∈ (m.details t).2 := by
  obtain ⟨h1, h2⟩ := hm.buckets_spec (by decide) (by decide) hle
  constructor
  · intro item hitem
    obtain ⟨w, hw, rfl⟩ := List.mem_map.mp hitem
    obtain ⟨s, hs, hwin, hb⟩ := h1 w hw
    exact ⟨s, hwin, MetricItem.ofBucket_eq hs hb⟩
  · intro s hwin hne
    obtain ⟨w, hw, hs⟩ := h2 s hwin hne
    obtain ⟨s', hs', -, hb⟩ := h1 w hw
    obtain rfl : s' = s := by omega
    exact List.mem_map.mpr ⟨w, hw, MetricItem.ofBucket_eq hs hb⟩

/-- A node whose `Metrics()` was last called in second `s₀`: its window counts `h`, and the seconds
returned are those before `s₀`. -/
structure FetchedNode.Fetched (n : FetchedNode) (h : Hist MetricAdd) (now s₀ : ℕ) : Prop where
  exact : Exact 60 1000 n.rollingCounterMinute h now
  counted : Counted h
  lt : n.lastFetchTimestamp < 1000 * s₀
  le : ∀ s < s₀, inBucket 1000 s h ≠ [] → 1000 * s ≤ n.lastFetchTimestamp

namespace FetchedNode

variable {n : FetchedNode} {h : Hist MetricAdd} {now t s₀ : ℕ}

/-- The items that pass the tests of `Metrics()` are the seconds from the last call on that have ended
and have an addition. -/
theorem mem_fetched (hn : n.Fetched h now s₀) (hle : now ≤ t) (hgap : t / 1000 < s₀ + 60)
    (item : MetricItem) :
    item ∈ (n.rollingCounterMinute.details t).2.filter (fun item =>
        n.isNodeInTime item ((t : ℤ) - (t % 1000 : ℕ)) && isValidMetricItem item) ↔
      ∃ s, s₀ ≤ s ∧ s < t / 1000 ∧ inBucket 1000 s h ≠ [] ∧ item = secondItem h s := by
  obtain ⟨h1, h2⟩ := hn.exact.details_spec hle
  have hcur : (t : ℤ) - (t % 1000 : ℕ) = 1000 * (t / 1000 : ℕ) := by omega
  have htime : ∀ s, n.isNodeInTime (secondItem h s) ((t : ℤ) - (t % 1000 : ℕ)) = true ↔
      n.lastFetchTimestamp < 1000 * s ∧ s < t / 1000 := by
    intro s
    rw [isNodeInTime, decide_eq_true_eq, hcur]
    show n.lastFetchTimestamp < 1000 * s ∧ (1000 : ℤ) * s < 1000 * (t / 1000 : ℕ) ↔ _
    omega
  rw [List.mem_filter, Bool.and_eq_true]
  constructor
  · rintro ⟨hmem, hin, hvalid⟩
    obtain ⟨s, -, rfl⟩ := h1 item hmem
    obtain ⟨hlast, hlt⟩ := (htime s).mp hin
    have hne := (isValidMetricItem_secondItem hn.counted s).mp hvalid
    refine ⟨s, ?_, hlt, hne, rfl⟩
    by_contra hs
    have := hn.le s (by omega) hne
    omega
  · rintro ⟨s, hs, hlt, hne, rfl⟩
    have hlast := hn.lt
    refine ⟨h2 s ⟨hlt.le, by omega⟩ hne, (htime s).mpr ⟨by omega, hlt⟩, ?_⟩
    exact (isValidMetricItem_secondItem hn.counted s).mpr hne

/-- **One `Metrics()` call** returns the seconds from the last call on that have ended. -/
theorem metrics_spec (hn : n.Fetched h now s₀) (hle : now ≤ t) (hlast : s₀ ≤ t / 1000)
    (hgap : t / 1000 < s₀ + 60) :
    (n.metrics t).1.Fetched h t (t / 1000) ∧
    (∀ p ∈ (n.metrics t).2, ∃ s, s₀ ≤ s ∧ s < t / 1000 ∧ inBucket 1000 s h ≠ [] ∧
      p = (1000 * (s : ℤ), secondItem h s)) ∧
    ∀ s, s₀ ≤ s → s < t / 1000 → inBucket 1000 s h ≠ [] →
      (1000 * (s : ℤ)) ∈ (n.metrics t).2.map Prod.fst := by
  have hmem := mem_fetched hn hle hgap
  have heq := foldl_metrics (fun item => n.isNodeInTime item ((t : ℤ) - (t % 1000 : ℕ)) &&
    isValidMetricItem item) (n.rollingCounterMinute.details t).2 n.lastFetchTimestamp []
  set fetched := (n.rollingCounterMinute.details t).2.filter (fun item =>
    n.isNodeInTime item ((t : ℤ) - (t % 1000 : ℕ)) && isValidMetricItem item)
  have hnode : (n.metrics t).1.lastFetchTimestamp =
      fetched.foldl (fun c item => max c item.timestamp) n.lastFetchTimestamp :=
    congrArg Prod.fst heq
  have hmap : (n.metrics t).2 =
      fetched.foldl (fun m item => Assoc.insertNew m item.timestamp item) [] :=
    congrArg Prod.snd heq
  have hmax := foldl_max_le_iff MetricItem.timestamp fetched n.lastFetchTimestamp
  rw [← hnode] at hmax
  obtain ⟨hfrom, hkeys⟩ := Assoc.foldl_insertNew MetricItem.timestamp id fetched
    ([] : Assoc ℤ MetricItem)
  refine ⟨⟨(hn.exact.refresh hle).1, hn.counted, ?_, fun s hs hne => ?_⟩, fun p hp => ?_,
    fun s hs hlt hne => ?_⟩
  · have hbefore : (n.metrics t).1.lastFetchTimestamp ≤ 1000 * (t / 1000 : ℕ) - 1 := by
      rw [hmax]
      have := hn.lt
      refine ⟨by omega, fun item hitem => ?_⟩
      obtain ⟨s, -, hs, -, rfl⟩ := (hmem item).mp hitem
      show (1000 : ℤ) * s ≤ _
      omega
    omega
  · obtain ⟨hmin, hall⟩ := (hmax _).mp le_rfl
    by_cases hold : s < s₀
    · exact (hn.le s hold hne).trans hmin
    · exact hall _ ((hmem _).mpr ⟨s, by omega, hs, hne, rfl⟩)
  · rw [hmap] at hp
    rcases hfrom p hp with hp | ⟨item, hitem, rfl⟩
    · exact absurd hp List.not_mem_nil
    · obtain ⟨s, hs, hlt, hne, rfl⟩ := (hmem item).mp hitem
      exact ⟨s, hs, hlt, hne, rfl⟩
  · rw [hmap]
    exact (hkeys _).mpr (.inr ⟨secondItem h s, (hmem _).mpr ⟨s, hs, hlt, hne, rfl⟩, rfl⟩)

/-- One addition. -/
theorem Fetched.add (hn : n.Fetched h now s₀) {n' : FetchedNode} {es : Hist MetricAdd}
    (hexact : Exact 60 1000 n'.rollingCounterMinute (h ++ es) t) (hes : Counted es)
    (htime : ∀ x ∈ es, s₀ ≤ x.1 / 1000) (hfetch : n'.lastFetchTimestamp = n.lastFetchTimestamp) :
    n'.Fetched (h ++ es) t s₀ := by
  refine ⟨hexact, hn.counted.append hes, hfetch ▸ hn.lt, fun s hs hne => ?_⟩
  have hold : inBucket 1000 s es = [] :=
    inBucket_eq_nil.mpr fun x hx hxs => by
      have := htime x hx
      omega
  rw [inBucket_append, hold, List.append_nil] at hne
  exact hfetch ▸ hn.le s hs hne

end FetchedNode

/-- A call that is not `Metrics()` adds to the window, returns nothing and leaves the mark alone. -/
theorem NodeCall.apply_add {c : NodeCall} (hc : c ≠ .metrics) (n : FetchedNode) (t : ℕ) :
    (c.apply n t).2 = none ∧ (c.apply n t).1.lastFetchTimestamp = n.lastFetchTimestamp ∧
      ∀ h now, Exact 60 1000 n.rollingCounterMinute h now → now ≤ t →
        Exact 60 1000 (c.apply n t).1.rollingCounterMinute (h ++ c.additions.map fun e => (t, e)) t := by
  cases c with
  | addPassRequest count =>
    exact ⟨rfl, rfl, fun h now hm hle => hm.addEvent (by decide) (by decide) hle _ _⟩
  | addBlockRequest count =>
    exact ⟨rfl, rfl, fun h now hm hle => hm.addEvent (by decide) (by decide) hle _ _⟩
  | addExceptionRequest count =>
    exact ⟨rfl, rfl, fun h now hm hle => hm.addEvent (by decide) (by decide) hle _ _⟩
  | addRtAndCompleteRequest rt count =>
    refine ⟨rfl, rfl, fun h now hm hle => ?_⟩
    have hcomplete := hm.addEvent (by decide) (by decide) hle .complete count
    have hrt := hcomplete.addRt (by decide) (by decide) le_rfl rt
    rwa [List.append_assoc] at hrt
  | metrics => exact absurd rfl hc

/-! ### Runs -/

/-- A timed call with the map it returned, if any. -/
abbrev TimedCall := (ℕ × NodeCall) × Option (Assoc ℤ MetricItem)

namespace TimedCall

def time (l : TimedCall) : ℕ := l.1.1

/-- The items the call returned; none for an addition. -/
def report (l : TimedCall) : Assoc ℤ MetricItem := l.2.getD []

/-- The call returned an item of second `s`. -/
def Reports (l : TimedCall) (s : ℕ) : Prop := ∃ p ∈ l.report, p.2.timestamp = 1000 * s

/-- What the call added, with its time. -/
def additions (l : TimedCall) : Hist MetricAdd := l.1.2.additions.map fun e => (l.1.1, e)

end TimedCall

/-- Everything added in the calls. -/
def recorded (tr : List TimedCall) : Hist MetricAdd := tr.flatMap TimedCall.additions

/-- The times of the `Metrics()` calls. -/
def fetchTimes (tr : List TimedCall) : List ℕ :=
  (tr.filter fun l => l.1.2 = .metrics).map TimedCall.time

/-- Something was added in second `s`. -/
def RecordedIn (tr : List TimedCall) (s : ℕ) : Prop := ∃ x ∈ recorded tr, x.1 / 1000 = s

/-- Second `s` has ended before a `Metrics()` call. -/
def Ended (tr : List TimedCall) (s : ℕ) : Prop := ∃ t ∈ fetchTimes tr, 1000 * (s + 1) ≤ t

/-- Call number `i` returned an item of second `s`. -/
def ReportsAt (tr : List TimedCall) (i s : ℕ) : Prop := ∃ l, tr[i]? = some l ∧ l.Reports s

/-- The time of the last call, or of the creation of the node. -/
def lastTime (t₀ : ℕ) (tr : List TimedCall) : ℕ := (tr.map TimedCall.time).getLastD t₀

/-- The time of the last `Metrics()` call, or of the creation of the node. -/
def lastFetch (t₀ : ℕ) (tr : List TimedCall) : ℕ := (fetchTimes tr).getLastD t₀

section Concat

variable {tr : List TimedCall} {a : TimedCall} {t₀ s : ℕ}

theorem recordedIn_iff : RecordedIn tr s ↔ inBucket 1000 s (recorded tr) ≠ [] := by
  rw [ne_eq, inBucket_eq_nil, RecordedIn]
  push Not
  rfl

theorem recorded_concat : recorded (tr ++ [a]) = recorded tr ++ a.additions := by
  simp [recorded]

@[simp] theorem lastTime_concat : lastTime t₀ (tr ++ [a]) = a.time := by
  rw [lastTime, List.map_append]
  exact List.getLastD_concat

theorem fetchTimes_concat :
    fetchTimes (tr ++ [a]) = fetchTimes tr ++ if a.1.2 = .metrics then [a.time] else [] := by
  by_cases ha : a.1.2 = .metrics <;> simp [fetchTimes, List.filter_append, ha]

/-- A call leaves alone what was added in earlier seconds. -/
theorem inBucket_recorded_concat (hs : s < a.time / 1000) :
    inBucket 1000 s (recorded (tr ++ [a])) = inBucket 1000 s (recorded tr) := by
  have hnil : inBucket 1000 s a.additions = [] := by
    refine inBucket_eq_nil.mpr fun x hx => ?_
    obtain ⟨e, -, rfl⟩ := List.mem_map.mp hx
    show a.time / 1000 ≠ s
    omega
  rw [recorded_concat, inBucket_append, hnil, List.append_nil]

theorem reportsAt_concat {i : ℕ} :
    ReportsAt (tr ++ [a]) i s ↔ ReportsAt tr i s ∨ i = tr.length ∧ a.Reports s := by
  rcases Nat.lt_trichotomy i tr.length with hlt | rfl | hgt
  · have hne : i ≠ tr.length := by omega
    simp [ReportsAt, List.getElem?_append_left hlt, hne]
  · simp [ReportsAt]
  · have hne : i ≠ tr.length := by omega
    have h1 : (tr ++ [a])[i]? = none := by
      rw [List.getElem?_eq_none_iff, List.length_append, List.length_singleton]
      omega
    have h2 : tr[i]? = none := List.getElem?_eq_none hgt.le
    simp [ReportsAt, h1, h2, hne]

/-- A call that does not return the second leaves the number of calls that do. -/
theorem existsUnique_concat (ha : ¬ a.Reports s) (h : ∃! i, ReportsAt tr i s) :
    ∃! i, ReportsAt (tr ++ [a]) i s := by
  obtain ⟨i, hi, huniq⟩ := h
  refine ⟨i, reportsAt_concat.mpr (.inl hi), fun j hj => ?_⟩
  rcases reportsAt_concat.mp hj with hj | ⟨-, hj⟩
  · exact huniq j hj
  · exact absurd hj ha

/-- The first call that returns the second. -/
theorem existsUnique_concat_new (ha : a.Reports s) (h : ∀ i, ¬ ReportsAt tr i s) :
    ∃! i, ReportsAt (tr ++ [a]) i s := by
  refine ⟨tr.length, reportsAt_concat.mpr (.inr ⟨rfl, ha⟩), fun j hj => ?_⟩
  rcases reportsAt_concat.mp hj with hj | ⟨hj, -⟩
  · exact absurd hj (h j)
  · exact hj

end Concat

/-- **The invariant.**  The seconds before the last `Metrics()` call are returned once, nothing else
is, and the node knows where to go on. -/
structure Reporting (t₀ : ℕ) (tr : List TimedCall) (n : FetchedNode) : Prop where
  fetched : n.Fetched (recorded tr) (lastTime t₀ tr) (lastFetch t₀ tr / 1000)
  fetch_le : lastFetch t₀ tr ≤ lastTime t₀ tr
  times : ∀ t ∈ fetchTimes tr, t ≤ lastFetch t₀ tr
  once : ∀ s < lastFetch t₀ tr / 1000, RecordedIn tr s → ∃! i, ReportsAt tr i s
  only : ∀ l ∈ tr, ∀ p ∈ l.report, ∃ s : ℕ, RecordedIn tr s ∧ Ended tr s ∧
    p = (1000 * (s : ℤ), secondItem (recorded tr) s)

namespace Reporting

variable {t₀ : ℕ} {tr : List TimedCall} {n n' : FetchedNode} {a : TimedCall}

theorem start (c : StatConfig) (t₀ : ℕ) : Reporting t₀ [] (.mk' c) := by
  refine ⟨⟨Exact.mk' 60 1000 t₀, ⟨by simp [recorded], by simp [recorded]⟩, ?_, ?_⟩, le_rfl, ?_, ?_, ?_⟩
  · show (-1 : ℤ) < 1000 * (lastFetch t₀ [] / 1000 : ℕ)
    omega
  · intro s _ hne
    exact absurd rfl hne
  · simp [fetchTimes]
  · rintro s - ⟨x, hx, -⟩
    simp [recorded] at hx
  · simp

/-- A second that has ended lies before the last `Metrics()` call. -/
theorem lt_of_ended (hI : Reporting t₀ tr n) {s : ℕ} (hs : Ended tr s) : s < lastFetch t₀ tr / 1000 := by
  obtain ⟨t, ht, hst⟩ := hs
  have := hI.times t ht
  omega

/-- The calls so far have returned nothing of the last `Metrics()` call's second or later. -/
theorem not_reportsAt (hI : Reporting t₀ tr n) {s : ℕ} (hs : lastFetch t₀ tr / 1000 ≤ s) (i : ℕ) :
    ¬ ReportsAt tr i s := by
  rintro ⟨l, hl, p, hp, hts⟩
  obtain ⟨s', -, hend, rfl⟩ := hI.only l (List.mem_of_getElem? hl) p hp
  have hlt := hI.lt_of_ended hend
  have hss : (1000 : ℤ) * s' = 1000 * s := hts
  omega

/-- What was returned stays right when the next call comes. -/
theorem only_concat (hI : Reporting t₀ tr n) (hle : lastTime t₀ tr ≤ a.time) {l : TimedCall} (hl : l ∈ tr)
    {p : ℤ × MetricItem} (hp : p ∈ l.report) :
    ∃ s : ℕ, RecordedIn (tr ++ [a]) s ∧ Ended (tr ++ [a]) s ∧
      p = (1000 * (s : ℤ), secondItem (recorded (tr ++ [a])) s) := by
  obtain ⟨s, hrec, ⟨t, ht, hst⟩, rfl⟩ := hI.only l hl p hp
  have hlt := hI.lt_of_ended ⟨t, ht, hst⟩
  have hfetch := hI.fetch_le
  have hbucket : inBucket 1000 s (recorded (tr ++ [a])) = inBucket 1000 s (recorded tr) :=
    inBucket_recorded_concat (by omega)
  refine ⟨s, ?_, ⟨t, ?_, hst⟩, ?_⟩
  · rw [recordedIn_iff, hbucket]
    exact recordedIn_iff.mp hrec
  · rw [fetchTimes_concat]
    exact List.mem_append_left _ ht
  · rw [secondItem_congr hbucket]

/-- An addition. -/
theorem add (hI : Reporting t₀ tr n) (hs : StepOf FetchedNode.step n a n') (ha : a.1.2 ≠ .metrics)
    (hpos : a.1.2.Positive) (hle : lastTime t₀ tr ≤ a.time) : Reporting t₀ (tr ++ [a]) n' := by
  obtain ⟨hnone, hmark, hexact⟩ := NodeCall.apply_add ha n a.1.1
  obtain ⟨rfl, hout⟩ := FetchedNode.stepOf_iff.mp hs
  have hreport : a.report = [] := by
    rw [TimedCall.report, hout, hnone]
    rfl
  have hfetches : fetchTimes (tr ++ [a]) = fetchTimes tr := by simp [fetchTimes_concat, ha]
  have hlast : lastFetch t₀ (tr ++ [a]) = lastFetch t₀ tr := by rw [lastFetch, hfetches]; rfl
  have hfetch := hI.fetch_le
  refine ⟨?_, ?_, ?_, ?_, ?_⟩
  · rw [recorded_concat, lastTime_concat, hlast]
    refine hI.fetched.add (hexact _ _ hI.fetched.exact hle) (hpos.counted _) (fun x hx => ?_) hmark
    obtain ⟨e, -, rfl⟩ := List.mem_map.mp hx
    show lastFetch t₀ tr / 1000 ≤ a.time / 1000
    omega
  · rw [lastTime_concat, hlast]
    omega
  · rw [hfetches, hlast]
    exact hI.times
  · rw [hlast]
    intro s hs hrec
    have hbucket : inBucket 1000 s (recorded (tr ++ [a])) = inBucket 1000 s (recorded tr) :=
      inBucket_recorded_concat (by omega)
    rw [recordedIn_iff, hbucket, ← recordedIn_iff] at hrec
    refine existsUnique_concat ?_ (hI.once s hs hrec)
    simp [TimedCall.Reports, hreport]
  · intro l hl p hp
    rcases List.mem_append.mp hl with hl | hl
    · exact hI.only_concat hle hl hp
    · obtain rfl := List.mem_singleton.mp hl
      simp [hreport] at hp

/-- A `Metrics()` call less than 59 seconds after the last one. -/
theorem metrics (hI : Reporting t₀ tr n) (hs : StepOf FetchedNode.step n a n') (ha : a.1.2 = .metrics)
    (hle : lastTime t₀ tr ≤ a.time) (hgap : a.time < lastFetch t₀ tr + 59000) :
    Reporting t₀ (tr ++ [a]) n' := by
  obtain ⟨⟨t, c⟩, o⟩ := a
  obtain rfl : c = .metrics := ha
  obtain ⟨hnode, hout⟩ := FetchedNode.stepOf_iff.mp hs
  obtain rfl : o = some (n.metrics t).2 := hout
  obtain rfl : n' = (n.metrics t).1 := hnode
  have hfetches : fetchTimes (tr ++ [((t, .metrics), some (n.metrics t).2)]) = fetchTimes tr ++ [t] := by
    simp [fetchTimes_concat, TimedCall.time]
  have hlast : lastFetch t₀ (tr ++ [((t, .metrics), some (n.metrics t).2)]) = t := by
    rw [lastFetch, hfetches]
    exact List.getLastD_concat
  have hrecorded : recorded (tr ++ [((t, .metrics), some (n.metrics t).2)]) = recorded tr := by
    simp [recorded_concat, TimedCall.additions, NodeCall.additions]
  have hfetch := hI.fetch_le
  have hlt : lastTime t₀ tr ≤ t := hle
  have hsoon : t < lastFetch t₀ tr + 59000 := hgap
  obtain ⟨hfetched, hitems, hall⟩ := FetchedNode.metrics_spec hI.fetched hlt (by omega) (by omega)
  refine ⟨?_, ?_, ?_, ?_, ?_⟩
  · rw [hrecorded, lastTime_concat, hlast]
    exact hfetched
  · rw [lastTime_concat, hlast]
    exact le_rfl
  · rw [hfetches, hlast]
    intro u hu
    rcases List.mem_append.mp hu with hu | hu
    · have := hI.times u hu
      omega
    · exact (List.mem_singleton.mp hu).le
  · rw [hlast]
    intro s hs hrec
    rw [recordedIn_iff, hrecorded, ← recordedIn_iff] at hrec
    by_cases hold : s < lastFetch t₀ tr / 1000
    · refine existsUnique_concat ?_ (hI.once s hold hrec)
      rintro ⟨p, hp, hts⟩
      obtain ⟨s', hs', -, -, rfl⟩ := hitems p hp
      have hss : (1000 : ℤ) * s' = 1000 * s := hts
      omega
    · have hold : lastFetch t₀ tr / 1000 ≤ s := not_lt.mp hold
      refine existsUnique_concat_new ?_ (hI.not_reportsAt hold)
      obtain ⟨p, hp, hkey⟩ := List.mem_map.mp (hall s hold hs (recordedIn_iff.mp hrec))
      obtain ⟨s', -, -, -, rfl⟩ := hitems p hp
      exact ⟨_, hp, hkey⟩
  · intro l hl p hp
    rcases List.mem_append.mp hl with hl | hl
    · exact hI.only_concat hle hl hp
    · obtain rfl := List.mem_singleton.mp hl
      obtain ⟨s, -, hs, hne, rfl⟩ := hitems p hp
      refine ⟨s, ?_, ⟨t, ?_, by omega⟩, by rw [hrecorded]⟩
      · rw [recordedIn_iff, hrecorded]
        exact hne
      · rw [hfetches]
        exact List.mem_append_right _ (List.mem_singleton_self t)

/-- Runs with positive counts at non-decreasing times in which `Metrics()` is called in time. -/
theorem run {c : StatConfig} (hr : Run (StepOf FetchedNode.step) (.mk' c) tr n)
    (hpos : ∀ l ∈ tr, l.1.2.Positive) (hmono : (t₀ :: tr.map TimedCall.time).Pairwise (· ≤ ·))
    (hfetch : (t₀ :: fetchTimes tr).IsChain fun u t => t < u + 59000) : Reporting t₀ tr n := by
  induction hr with
  | nil => exact start c t₀
  | @snoc tr n n' a hr hs ih =>
    rw [List.map_append, ← List.cons_append, List.pairwise_append] at hmono
    rw [fetchTimes_concat, ← List.cons_append, List.isChain_append] at hfetch
    have hI := ih (fun l hl => hpos l (List.mem_append_left _ hl)) hmono.1 hfetch.1
    have hle : lastTime t₀ tr ≤ a.time :=
      hmono.2.2 _ List.getLastD_mem_cons _ (List.mem_singleton_self _)
    by_cases ha : a.1.2 = .metrics
    · refine hI.metrics hs ha hle (hfetch.2.2 _ ?_ a.time ?_)
      · rw [List.getLast?_cons, lastFetch, List.getLastD_eq_getLast?]
        rfl
      · rw [if_pos ha]
        rfl
    · exact hI.add hs ha (hpos a (by simp)) hle

end Reporting

/-- **Every second is reported once.**  In a run with positive counts at non-decreasing times from the
creation `t₀` of the node, with less than 59 s from `t₀` to the first `Metrics()` call and from one to
the next: a second in which something was added and which has ended before a `Metrics()` call is
returned by exactly one of them, and every item returned is that of such a second, with the totals of
the second. -/
theorem metrics_reported_once (c : StatConfig) (t₀ : ℕ) {tr : List TimedCall} {n : FetchedNode}
    (hr : Run (StepOf FetchedNode.step) (.mk' c) tr n) (hpos : ∀ l ∈ tr, l.1.2.Positive)
    (hmono : (t₀ :: tr.map TimedCall.time).Pairwise (· ≤ ·))
    (hfetch : (t₀ :: fetchTimes tr).IsChain fun u t => t < u + 59000) :
    (∀ s, RecordedIn tr s → Ended tr s → ∃! i, ReportsAt tr i s) ∧
    ∀ l ∈ tr, ∀ p ∈ l.report, ∃ s : ℕ, RecordedIn tr s ∧ Ended tr s ∧ p.1 = 1000 * s ∧
      p.2.timestamp = 1000 * s ∧ p.2.passQps = secondTotal (recorded tr) s .pass ∧
      p.2.blockQps = secondTotal (recorded tr) s .block ∧
      p.2.exceptionQps = secondTotal (recorded tr) s .exception ∧
      p.2.completeQps = secondTotal (recorded tr) s .complete := by
  have hI := Reporting.run hr hpos hmono hfetch
  refine ⟨fun s hrec hend => hI.once s (hI.lt_of_ended hend) hrec, fun l hl p hp => ?_⟩
  obtain ⟨s, hrec, hend, rfl⟩ := hI.only l hl p hp
  exact ⟨s, hrec, hend, rfl, rfl, rfl, rfl, rfl, rfl⟩

/-- Second 0 is reported at 1500 and second 1, of which a part came after that call, at 2100. -/
theorem metrics_reported_once_example :
    ∃ n, Run (StepOf FetchedNode.step) (.mk' {})
      [((300, .addPassRequest 2), none), ((900, .addBlockRequest 1), none),
        ((1200, .addPassRequest 4), none),
        ((1500, .metrics), some [(0, ⟨"", 0, 2, 1, 0, 0, 0⟩)]),
        ((1600, .addRtAndCompleteRequest 30 2), none),
        ((2100, .metrics), some [(1000, ⟨"", 1000, 4, 0, 2, 0, 15⟩)])] n ∧
      ∃! i, ReportsAt
        [((300, .addPassRequest 2), none), ((900, .addBlockRequest 1), none),
          ((1200, .addPassRequest 4), none),
          ((1500, .metrics), some [(0, ⟨"", 0, 2, 1, 0, 0, 0⟩)]),
          ((1600, .addRtAndCompleteRequest 30 2), none),
          ((2100, .metrics), some [(1000, ⟨"", 1000, 4, 0, 2, 0, 15⟩)])] i 1 := by
  obtain ⟨n, -, hr⟩ := exists_run_of_outputs FetchedNode.step (.mk' {})
    [(300, .addPassRequest 2), (900, .addBlockRequest 1), (1200, .addPassRequest 4), (1500, .metrics),
      (1600, .addRtAndCompleteRequest 30 2), (2100, .metrics)]
    [none, none, none, some [(0, ⟨"", 0, 2, 1, 0, 0, 0⟩)], none,
      some [(1000, ⟨"", 1000, 4, 0, 2, 0, 15⟩)]] (by decide)
  refine ⟨n, hr, ?_⟩
  obtain ⟨honce, -⟩ := metrics_reported_once {} 0 hr (by decide) (by decide) (by decide)
  exact honce 1 ⟨(1200, .add .pass 4), by decide, rfl⟩ ⟨2100, by decide, by decide⟩

end SentinelCpp.Stat
