import SentinelCpp.Stat.Node

/-!
# What one recording changes

`CurrentWindow(t)` hands out one bucket.  `Counted t event k m m'` says that the counter of `event` in this
bucket has gone up by `k` and that nothing else of the metric has changed; a recording at a time that lies
before the bucket of its slot is lost.
-/

namespace SentinelCpp.Stat

section HandedOut

variable {T : Type} [Resettable T] {a : LeapArray T} {t : ℕ} {v : T}

/-- The bucket `CurrentWindow(t)` hands out, unless it is a detached one. -/
def LeapArray.handedOut? (a : LeapArray T) (t : ℕ) : Option T :=
  match a.currentWindow t with
  | (a', .slot idx) => (a'.array idx).map WindowWrap.value
  | (_, .detached _) => none

theorem LeapArray.handedOut?_setSlot :
    (a.setSlot (a.calculateTimeIdx t) ⟨a.calculateWindowStart t, v⟩).handedOut? t = some v := by
  unfold handedOut?
  rw [currentWindow_of_visited (Visited.setSlot v)]
  show ((a.setSlot (a.calculateTimeIdx t) _).array (a.calculateTimeIdx t)).map _ = _
  rw [setSlot_array_self, Option.map_some]

/-- It is that of the slot, or the new or reset one the slot takes. -/
theorem LeapArray.handedOut?_eq (a : LeapArray T) (t : ℕ) : a.handedOut? t =
    match a.array (a.calculateTimeIdx t) with
    | none => some a.newEmptyBucket
    | some old =>
      if a.calculateWindowStart t = old.bucketStart then some old.value
      else if a.calculateWindowStart t > old.bucketStart then some (Resettable.reset old.value)
      else none := by
  have htaken : ∀ v, ((a.setSlot (a.calculateTimeIdx t) ⟨a.calculateWindowStart t, v⟩).array
      (a.calculateTimeIdx t)).map WindowWrap.value = some v := by
    intro v
    rw [setSlot_array_self, Option.map_some]
  unfold handedOut? currentWindow
  dsimp only
  cases hold : a.array (a.calculateTimeIdx t) with
  | none => exact htaken _
  | some old =>
    dsimp only
    split_ifs
    · dsimp only
      rw [hold]
      rfl
    · exact htaken _
    · rfl

/-- An update changes the bucket that is handed out, or nothing. -/
theorem LeapArray.updateCurrent_handedOut? (a : LeapArray T) (t : ℕ) (f : T → T) :
    (∃ v, a.handedOut? t = some v ∧ a.updateCurrent t f =
      a.setSlot (a.calculateTimeIdx t) ⟨a.calculateWindowStart t, f v⟩) ∨
    (a.handedOut? t = none ∧ a.updateCurrent t f = a) := by
  rw [handedOut?_eq]
  rcases a.updateCurrent_cases t f with ⟨v, hv, hupdate⟩ | ⟨old, hold, hlt, hupdate⟩
  · refine .inl ⟨v, ?_, hupdate⟩
    rcases hv with hv | ⟨rfl, hnone⟩ | ⟨old, hold, hlt, rfl⟩
    · rw [hv]
      exact if_pos rfl
    · rw [hnone]
    · rw [hold]
      exact (if_neg hlt.ne').trans (if_pos hlt)
  · refine .inr ⟨?_, hupdate⟩
    rw [hold]
    exact (if_neg hlt.ne).trans (if_neg hlt.asymm)

end HandedOut

/-! ### The counters -/

/-- Two steps of an optional value. -/
theorem optionRel_trans {α β γ : Type} {r : α → β → Prop} {r' : β → γ → Prop} {r'' : α → γ → Prop}
    (hr : ∀ x y z, r x y → r' y z → r'' x z) {a : Option α} {b : Option β} {c : Option γ}
    (h : Option.Rel r a b) (h' : Option.Rel r' b c) : Option.Rel r'' a c := by
  cases h with
  | none =>
    cases h' with
    | none => exact .none
  | some h =>
    cases h' with
    | some h' => exact .some (hr _ _ _ h h')

/-- The counter of `event` has gone up by `k`; the other counters are as they were. -/
structure MetricBucket.Counted (event : MetricEvent) (k : ℤ) (b b' : MetricBucket) : Prop where
  counters : ∀ e, b'.get e = b.get e + if e = event then k else 0
  minRt : b'.minRt = b.minRt

/-- So it has in the bucket of `t`, and in no other bucket. -/
structure SlidingWindowMetric.Counted (t : ℕ) (event : MetricEvent) (k : ℤ)
    (m m' : SlidingWindowMetric) : Prop where
  current : Option.Rel (MetricBucket.Counted event k) (m.slidingWindow.handedOut? t)
    (m'.slidingWindow.handedOut? t)
  behind : m.slidingWindow.handedOut? t = none → m' = m
  others : ∀ i ≠ m.slidingWindow.calculateTimeIdx t,
    m'.slidingWindow.array i = m.slidingWindow.array i
  sampleCount : m'.slidingWindow.sampleCount = m.slidingWindow.sampleCount
  intervalMs : m'.slidingWindow.intervalMs = m.slidingWindow.intervalMs

namespace SlidingWindowMetric.Counted

variable {t : ℕ} {event : MetricEvent} {k k' : ℤ} {m m' m'' : SlidingWindowMetric}

theorem refl (t : ℕ) (event : MetricEvent) (m : SlidingWindowMetric) : Counted t event 0 m m := by
  refine ⟨?_, fun _ => rfl, fun _ _ => rfl, rfl, rfl⟩
  cases m.slidingWindow.handedOut? t with
  | none => exact .none
  | some b => exact .some ⟨fun e => by rw [ite_self, add_zero], rfl⟩

theorem trans (h : Counted t event k m m') (h' : Counted t event k' m' m'') :
    Counted t event (k + k') m m'' := by
  have hidx : m'.slidingWindow.calculateTimeIdx t = m.slidingWindow.calculateTimeIdx t := by
    unfold LeapArray.calculateTimeIdx LeapArray.bucketLengthMs
    rw [h.sampleCount, h.intervalMs]
  refine ⟨?_, fun hnone => ?_, fun i hi => ?_, ?_, ?_⟩
  · refine optionRel_trans (fun b b' b'' h₁ h₂ => ⟨fun e => ?_, h₂.minRt.trans h₁.minRt⟩)
      h.current h'.current
    rw [h₂.counters, h₁.counters]
    split_ifs <;> omega
  · have hsame := h.behind hnone
    rw [hsame] at h'
    exact (h'.behind hnone).trans rfl
  · rw [h'.others i (hidx ▸ hi), h.others i hi]
  · rw [h'.sampleCount, h.sampleCount]
  · rw [h'.intervalMs, h.intervalMs]

/-- **One addition** is counted in the bucket of its time. -/
theorem addEvent (t : ℕ) (event : MetricEvent) (n : ℤ) (m : SlidingWindowMetric) :
    Counted t event n m (m.addEvent event n t) := by
  have hshape : (m.addEvent event n t).slidingWindow.sampleCount = m.slidingWindow.sampleCount ∧
      (m.addEvent event n t).slidingWindow.intervalMs = m.slidingWindow.intervalMs :=
    ⟨m.slidingWindow.updateCurrent_sampleCount t _, m.slidingWindow.updateCurrent_intervalMs t _⟩
  rcases m.slidingWindow.updateCurrent_handedOut? t (fun b => b.add event n) with ⟨v, hv, h⟩ | ⟨hnone, h⟩
  · have hadd : (m.addEvent event n t).slidingWindow = _ := h
    refine ⟨?_, fun hnone => ?_, fun i hi => ?_, hshape.1, hshape.2⟩
    · rw [hv, hadd, LeapArray.handedOut?_setSlot]
      refine .some ⟨fun e => ?_, rfl⟩
      rw [MetricAdd.get_add]
      simp only [MetricAdd.amount, eq_comm]
    · rw [hv] at hnone
      cases hnone
    · rw [hadd]
      exact LeapArray.setSlot_array_of_ne _ hi _
  · have hadd : m.addEvent event n t = m := congrArg SlidingWindowMetric.mk h
    rw [hadd]
    refine ⟨?_, fun _ => rfl, fun _ _ => rfl, rfl, rfl⟩
    rw [hnone]
    exact .none

end SlidingWindowMetric.Counted

/-! ### Nodes -/

/-- Both windows of the node have counted `k` and `d` more calls are in progress. -/
structure StatisticNode.Counted (t : ℕ) (event : MetricEvent) (k : ℤ) (d : ℕ)
    (n n' : StatisticNode) : Prop where
  second : n.rollingCounterSecond.Counted t event k n'.rollingCounterSecond
  minute : n.rollingCounterMinute.Counted t event k n'.rollingCounterMinute
  threads : n'.curThreadNum = n.curThreadNum + UInt32.ofNat d

namespace StatisticNode.Counted

variable {t : ℕ} {event : MetricEvent} {k k' : ℤ} {d d' : ℕ} {n n' n'' : StatisticNode}

theorem refl (t : ℕ) (event : MetricEvent) (n : StatisticNode) : Counted t event 0 0 n n :=
  ⟨.refl t event _, .refl t event _, (UInt32.add_zero _).symm⟩

theorem trans (h : Counted t event k d n n') (h' : Counted t event k' d' n' n'') :
    Counted t event (k + k') (d + d') n n'' := by
  refine ⟨h.second.trans h'.second, h.minute.trans h'.minute, ?_⟩
  rw [h'.threads, h.threads, UInt32.ofNat_add, UInt32.add_assoc]

theorem pass (t : ℕ) (count : ℤ) (n : StatisticNode) :
    Counted t .pass count 1 n ((NodeEvent.pass count).record n t) :=
  ⟨.addEvent t .pass count _, .addEvent t .pass count _, rfl⟩

theorem block (t : ℕ) (count : ℤ) (n : StatisticNode) :
    Counted t .block count 0 n ((NodeEvent.block count).record n t) :=
  ⟨.addEvent t .block count _, .addEvent t .block count _, (UInt32.add_zero _).symm⟩

end StatisticNode.Counted

/-! ### The storage -/

/-- The nodes of `refs`, each as often as it is listed, have counted `count`; no other node has changed. -/
structure ResourceNodeStorage.Counted (t : ℕ) (event : MetricEvent) (count : ℤ) (d : ℕ)
    (refs : List NodeRef) (st st' : ResourceNodeStorage) : Prop where
  node : ∀ ref, Option.Rel
    (StatisticNode.Counted t event (refs.count ref * count) (refs.count ref * d))
    (st.node? ref) (st'.node? ref)
  others : ∀ ref ∉ refs, st'.node? ref = st.node? ref

namespace ResourceNodeStorage.Counted

variable {t : ℕ} {event : MetricEvent} {count : ℤ} {d : ℕ} {refs refs' : List NodeRef}
  {st st' st'' : ResourceNodeStorage}

theorem refl (t : ℕ) (event : MetricEvent) (count : ℤ) (d : ℕ) (st : ResourceNodeStorage) :
    Counted t event count d [] st st := by
  refine ⟨fun ref => ?_, fun _ _ => rfl⟩
  rw [List.count_nil, Nat.cast_zero, zero_mul, zero_mul]
  cases st.node? ref with
  | none => exact .none
  | some n => exact .some (.refl t event n)

theorem trans (h : Counted t event count d refs st st') (h' : Counted t event count d refs' st' st'') :
    Counted t event count d (refs ++ refs') st st'' := by
  refine ⟨fun ref => ?_, fun ref href => ?_⟩
  · rw [List.count_append, Nat.cast_add, add_mul, add_mul]
    exact optionRel_trans (fun n n' n'' => .trans) (h.node ref) (h'.node ref)
  · rw [List.mem_append, not_or] at href
    rw [h'.others ref href.2, h.others ref href.1]

theorem perm (h : Counted t event count d refs st st') (hperm : refs.Perm refs') :
    Counted t event count d refs' st st' := by
  refine ⟨fun ref => ?_, fun ref href => h.others ref fun hmem => href (hperm.mem_iff.mp hmem)⟩
  rw [← hperm.count_eq]
  exact h.node ref

theorem modifyNode {f : StatisticNode → StatisticNode}
    (hf : ∀ n, StatisticNode.Counted t event count d n (f n)) (ref : NodeRef) :
    Counted t event count d [ref] st (st.modifyNode ref f) := by
  refine ⟨fun ref' => ?_, fun ref' href => ?_⟩
  · rw [node?_modifyNode, List.count_singleton]
    by_cases heq : ref' = ref
    · rw [if_pos heq, heq, beq_self_eq_true, if_pos rfl, Nat.cast_one, one_mul, one_mul]
      cases st.node? ref with
      | none => exact .none
      | some n => exact .some (hf n)
    · have hne : (ref == ref') = false := beq_eq_false_iff_ne.mpr (Ne.symm heq)
      rw [if_neg heq, hne, if_neg Bool.false_ne_true, Nat.cast_zero, zero_mul, zero_mul]
      cases st.node? ref' with
      | none => exact .none
      | some n => exact .some (.refl t event n)
  · rw [node?_modifyNode, if_neg (by simpa using href)]

end ResourceNodeStorage.Counted

end SentinelCpp.Stat
