import SentinelCpp.Stat.Node

/-!
# What a window keeps

`Keeps n b m h now` says that a metric of `n` buckets of `b` ms has counted the passes, blocks and
completions of `h`, whatever the order of their times, as long as none is later than `now`: a slot holds
the youngest bucket it has been used for, with all that was added to that bucket.  What `GetSum` finds from
`now` on is the total of its window.
-/

namespace SentinelCpp.Stat

open SentinelCpp.Lib

/-- What calls are counted by; exceptions and response times are kept apart. -/
def MetricEvent.CountsCalls (event : MetricEvent) : Prop :=
  event = .pass ∨ event = .block ∨ event = .complete

/-- The bucket has counted the passes, blocks and completions of `es`. -/
def CallsOf (v : MetricBucket) (es : List MetricAdd) : Prop :=
  ∀ event, event.CountsCalls → v.get event = (es.map (MetricAdd.amount event)).sum

theorem callsOf_empty : CallsOf MetricBucket.empty [] := fun _ _ => rfl

theorem CallsOf.apply {v : MetricBucket} {es : List MetricAdd} (h : CallsOf v es) (a : MetricAdd) :
    CallsOf (a.apply v) (es ++ [a]) := by
  intro event hevent
  rw [MetricAdd.get_apply, h event hevent, List.map_append, List.sum_append, List.map_singleton,
    List.sum_singleton]

/-- An addition that counts no call. -/
theorem CallsOf.apply_other {v : MetricBucket} {es : List MetricAdd} (h : CallsOf v es) {a : MetricAdd}
    (ha : ∀ event, event.CountsCalls → a.amount event = 0) : CallsOf (a.apply v) es := by
  intro event hevent
  rw [MetricAdd.get_apply, ha event hevent, add_zero, h event hevent]

/-- The metric has counted the calls of `h`, and has been used no later than `now`. -/
structure SlidingWindowMetric.Keeps (n b : ℕ) (m : SlidingWindowMetric) (h : Hist MetricAdd) (now : ℕ) :
    Prop where
  positive : 0 < n ∧ 0 < b
  count : m.slidingWindow.sampleCount = n
  interval : m.slidingWindow.intervalMs = n * b
  fresh : m.slidingWindow.newEmptyBucket = MetricBucket.empty
  stands : m.slidingWindow.Stands CallsOf h now

namespace SlidingWindowMetric.Keeps

variable {n b now t : ℕ} {m : SlidingWindowMetric} {h : Hist MetricAdd}

theorem mk' (hn : 0 < n) (hb : 0 < b) (now : ℕ) : Keeps n b (.mk' n (n * b)) [] now :=
  ⟨⟨hn, hb⟩, rfl, rfl, rfl, LeapArray.stands_mk' _ _ _⟩

/-- The second-level window of a configuration. -/
theorem ofConfig {c : StatConfig} (hc : c.Valid) (now : ℕ) :
    Keeps c.sampleCount (c.intervalMs / c.sampleCount) (.mk' c.sampleCount c.intervalMs) [] now := by
  have hlength : 0 < c.intervalMs / c.sampleCount :=
    Nat.div_pos (Nat.le_of_dvd hc.interval_pos hc.dvd) hc.count_pos
  have hmk := Keeps.mk' hc.count_pos hlength now
  rwa [Nat.mul_div_cancel' hc.dvd] at hmk

theorem bucketLengthMs (hm : Keeps n b m h now) : m.slidingWindow.bucketLengthMs = b := by
  rw [LeapArray.bucketLengthMs, hm.count, hm.interval, Nat.mul_div_cancel_left b hm.positive.1]

theorem bucketLengthMs_pos (hm : Keeps n b m h now) : 0 < m.slidingWindow.bucketLengthMs := by
  rw [hm.bucketLengthMs]
  exact hm.positive.2

theorem wellFormed (hm : Keeps n b m h now) : m.slidingWindow.WellFormed := by
  refine ⟨?_, hm.bucketLengthMs_pos, ?_⟩
  · rw [hm.count]
    exact hm.positive.1
  · rw [hm.bucketLengthMs, hm.count, hm.interval]

theorem later (hm : Keeps n b m h now) (hle : now ≤ t) : Keeps n b m h t :=
  ⟨hm.positive, hm.count, hm.interval, hm.fresh, hm.stands.later hle⟩

theorem callsOf_new (hm : Keeps n b m h now) : CallsOf m.slidingWindow.newEmptyBucket [] := by
  rw [hm.fresh]
  exact callsOf_empty

/-- **Reading** at any time up to `now`. -/
theorem refresh (hm : Keeps n b m h now) (hle : t ≤ now) : Keeps n b (m.refresh t) h now := by
  refine ⟨hm.positive, ?_, ?_, ?_, ?_⟩
  · exact (m.slidingWindow.refresh_sampleCount t).trans hm.count
  · exact (m.slidingWindow.refresh_intervalMs t).trans hm.interval
  · exact (m.slidingWindow.refresh_newEmptyBucket t).trans hm.fresh
  · exact hm.stands.refresh hle hm.bucketLengthMs_pos hm.callsOf_new fun _ _ _ => callsOf_empty

/-- **Adding** at any time up to `now`. -/
theorem add (hm : Keeps n b m h now) (hle : t ≤ now) (es : List MetricAdd)
    {f : MetricBucket → MetricBucket} (hf : ∀ v es', CallsOf v es' → CallsOf (f v) (es' ++ es)) :
    Keeps n b ⟨m.slidingWindow.updateCurrent t f⟩ (h ++ es.map fun e => (t, e)) now := by
  refine ⟨hm.positive, ?_, ?_, ?_, ?_⟩
  · exact (m.slidingWindow.updateCurrent_sampleCount t f).trans hm.count
  · exact (m.slidingWindow.updateCurrent_intervalMs t f).trans hm.interval
  · exact (m.slidingWindow.updateCurrent_newEmptyBucket t f).trans hm.fresh
  · exact hm.stands.updateCurrent hle hm.bucketLengthMs_pos hm.callsOf_new
      (fun _ _ _ => callsOf_empty) hf

theorem addEvent (hm : Keeps n b m h now) (hle : t ≤ now) (event : MetricEvent) (a : ℤ) :
    Keeps n b (m.addEvent event a t) (h ++ [(t, .add event a)]) now :=
  hm.add hle [.add event a] fun _ _ hv => hv.apply (.add event a)

/-- An addition that counts no call. -/
theorem addOther (hm : Keeps n b m h now) (hle : t ≤ now) {a : MetricAdd}
    (ha : ∀ event, event.CountsCalls → a.amount event = 0) :
    Keeps n b ⟨m.slidingWindow.updateCurrent t a.apply⟩ h now := by
  have hadd := hm.add (f := a.apply) hle [] fun v es hv => by
    rw [List.append_nil]
    exact hv.apply_other ha
  rwa [List.map_nil, List.append_nil] at hadd

theorem addRt (hm : Keeps n b m h now) (hle : t ≤ now) (rt : ℤ) : Keeps n b (m.addRt rt t) h now := by
  refine hm.addOther (a := .addRt rt) hle fun event hevent => ?_
  rcases hevent with rfl | rfl | rfl <;> rfl

theorem addException (hm : Keeps n b m h now) (hle : t ≤ now) (count : ℤ) :
    Keeps n b (m.addException count t) h now := by
  refine hm.addOther (a := .add .exception count) hle fun event hevent => ?_
  rcases hevent with rfl | rfl | rfl <;> rfl

/-- **`GetSum`** is the total of the window, from `now` on. -/
theorem getSum_eq (hm : Keeps n b m h now) (hle : now ≤ t) {event : MetricEvent}
    (hevent : event.CountsCalls) :
    (m.getSum event t).2 = ((inWindow n b t h).map (MetricAdd.amount event)).sum := by
  obtain ⟨-, hvisited, -⟩ :=
    hm.stands.currentWindow hle hm.callsOf_new fun _ _ _ => callsOf_empty
  have hkeeps := (hm.later hle).refresh le_rfl
  have hsum := hkeeps.stands.sum_values (φ := fun v => v.get event) (f := MetricAdd.amount event)
    (fun v es hv => hv event hevent) hkeeps.wellFormed hvisited
  rw [hkeeps.count, hkeeps.bucketLengthMs] at hsum
  rw [← hsum, List.sum_eq_foldl, List.foldl_map]
  rfl

end SlidingWindowMetric.Keeps

end SentinelCpp.Stat
