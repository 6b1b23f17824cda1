import SentinelCpp.Stat.Node

/-!
# Nodes that read alike

Two windows that are exact for one history give the same readings from now on, whatever refreshes either
of them has seen.  The relation goes through every operation of a node, with a read on one side only
as well, and from nodes to storages.
-/

namespace SentinelCpp.Stat

open SentinelCpp.Lib

variable {now t : ℕ}

/-! ### Metrics -/

/-- Both are exact for one history up to `now`. -/
def SlidingWindowMetric.Alike (now : ℕ) (m m' : SlidingWindowMetric) : Prop :=
  ∃ k b h, 0 < k ∧ 0 < b ∧ Exact k b m h now ∧ Exact k b m' h now

namespace SlidingWindowMetric.Alike

variable {m m' : SlidingWindowMetric}

theorem mk' {k b : ℕ} (hk : 0 < k) (hb : 0 < b) (now : ℕ) :
    Alike now (.mk' k (k * b)) (.mk' k (k * b)) :=
  ⟨k, b, [], hk, hb, Exact.mk' k b now, Exact.mk' k b now⟩

theorem symm (h : Alike now m m') : Alike now m' m := by
  obtain ⟨k, b, hist, hk, hb, hm, hm'⟩ := h
  exact ⟨k, b, hist, hk, hb, hm', hm⟩

theorem later (h : Alike now m m') (hle : now ≤ t) : Alike t m m' := by
  obtain ⟨k, b, hist, hk, hb, hm, hm'⟩ := h
  exact ⟨k, b, hist, hk, hb, hm.later hle, hm'.later hle⟩

/-- A read on one side. -/
theorem refresh_left (h : Alike now m m') (hle : now ≤ t) : Alike t (m.refresh t) m' := by
  obtain ⟨k, b, hist, hk, hb, hm, hm'⟩ := h
  exact ⟨k, b, hist, hk, hb, (hm.refresh hle).1, hm'.later hle⟩

theorem refresh (h : Alike now m m') (hle : now ≤ t) : Alike t (m.refresh t) (m'.refresh t) :=
  ((h.refresh_left hle).symm.refresh_left le_rfl).symm

theorem addEvent (h : Alike now m m') (hle : now ≤ t) (event : MetricEvent) (a : ℤ) :
    Alike t (m.addEvent event a t) (m'.addEvent event a t) := by
  obtain ⟨k, b, hist, hk, hb, hm, hm'⟩ := h
  exact ⟨k, b, _, hk, hb, hm.addEvent hk hb hle event a, hm'.addEvent hk hb hle event a⟩

theorem addRt (h : Alike now m m') (hle : now ≤ t) (rt : ℤ) :
    Alike t (m.addRt rt t) (m'.addRt rt t) := by
  obtain ⟨k, b, hist, hk, hb, hm, hm'⟩ := h
  exact ⟨k, b, _, hk, hb, hm.addRt hk hb hle rt, hm'.addRt hk hb hle rt⟩

theorem getSum (h : Alike now m m') (hle : now ≤ t) (event : MetricEvent) :
    (m.getSum event t).2 = (m'.getSum event t).2 := by
  obtain ⟨k, b, hist, hk, hb, hm, hm'⟩ := h
  rw [hm.getSum_eq hk hb hle, hm'.getSum_eq hk hb hle]

theorem maxComplete (h : Alike now m m') (hle : now ≤ t) :
    (m.maxComplete t).2 = (m'.maxComplete t).2 := by
  obtain ⟨k, b, hist, hk, hb, hm, hm'⟩ := h
  rw [hm.maxComplete_eq hk hb hle, hm'.maxComplete_eq hk hb hle]

theorem minRt (h : Alike now m m') (hle : now ≤ t) : (m.minRt t).2 = (m'.minRt t).2 := by
  obtain ⟨k, b, hist, hk, hb, hm, hm'⟩ := h
  rw [hm.minRt_eq hk hb hle, hm'.minRt_eq hk hb hle]

theorem windowIntervalInSec (h : Alike now m m') : m.windowIntervalInSec = m'.windowIntervalInSec := by
  obtain ⟨k, b, hist, hk, hb, hm, hm'⟩ := h
  rw [SlidingWindowMetric.windowIntervalInSec, SlidingWindowMetric.windowIntervalInSec, hm.interval,
    hm'.interval]

theorem sampleCount (h : Alike now m m') : m.sampleCount = m'.sampleCount := by
  obtain ⟨k, b, hist, hk, hb, hm, hm'⟩ := h
  exact hm.count.trans hm'.count.symm

end SlidingWindowMetric.Alike

/-- A window as `StatConfig` shapes it. -/
theorem alike_mk' {c : StatConfig} (hc : c.Valid) (now : ℕ) :
    SlidingWindowMetric.Alike now (.mk' c.sampleCount c.intervalMs)
      (.mk' c.sampleCount c.intervalMs) := by
  obtain ⟨hcount, hinterval, b, hb⟩ := hc
  rw [hb]
  exact .mk' hcount (Nat.pos_of_mul_pos_left (hb ▸ hinterval)) now

/-! ### Nodes -/

/-- The same calls in progress, and windows that read alike. -/
structure StatisticNode.Alike (now : ℕ) (n n' : StatisticNode) : Prop where
  second : n.rollingCounterSecond.Alike now n'.rollingCounterSecond
  minute : n.rollingCounterMinute.Alike now n'.rollingCounterMinute
  threads : n.curThreadNum = n'.curThreadNum

namespace StatisticNode.Alike

variable {n n' : StatisticNode}

theorem mk' {c : StatConfig} (hc : c.Valid) (now : ℕ) : Alike now (.mk' c) (.mk' c) :=
  ⟨alike_mk' hc now, .mk' (by decide) (by decide) now, rfl⟩

theorem later (h : Alike now n n') (hle : now ≤ t) : Alike t n n' :=
  ⟨h.second.later hle, h.minute.later hle, h.threads⟩

theorem reset {c : StatConfig} (hc : c.Valid) (h : Alike now n n') : Alike now (n.reset c) (n'.reset c) :=
  ⟨alike_mk' hc now, h.minute, h.threads⟩

theorem readSecond_left (h : Alike now n n') (hle : now ≤ t) : Alike t (n.readSecond t) n' :=
  ⟨h.second.refresh_left hle, h.minute.later hle, h.threads⟩

theorem readMinute_left (h : Alike now n n') (hle : now ≤ t) : Alike t (n.readMinute t) n' :=
  ⟨h.second.later hle, h.minute.refresh_left hle, h.threads⟩

theorem readSecond (h : Alike now n n') (hle : now ≤ t) : Alike t (n.readSecond t) (n'.readSecond t) :=
  ⟨h.second.refresh hle, h.minute.later hle, h.threads⟩

theorem addRequest (h : Alike now n n') (hle : now ≤ t) (event : MetricEvent) (count : ℤ) :
    Alike t (n.addRequest event count t) (n'.addRequest event count t) :=
  ⟨h.second.addEvent hle event count, h.minute.addEvent hle event count, h.threads⟩

theorem record (h : Alike now n n') (hle : now ≤ t) (e : NodeEvent) :
    Alike t (e.record n t) (e.record n' t) := by
  cases e with
  | pass count =>
    have h' : Alike now n.increaseThreadNum n'.increaseThreadNum :=
      ⟨h.second, h.minute, congrArg (· + 1) h.threads⟩
    exact h'.addRequest hle .pass count
  | block count => exact h.addRequest hle .block count
  | exception count => exact h.addRequest hle .exception count
  | complete rt error count =>
    have hrt : Alike t (n.addRtAndCompleteRequest rt count t) (n'.addRtAndCompleteRequest rt count t) :=
      ⟨(h.second.addEvent hle .complete count).addRt le_rfl rt,
        (h.minute.addEvent hle .complete count).addRt le_rfl rt, h.threads⟩
    by_cases herror : error = ""
    · simp only [NodeEvent.record, herror, ne_eq, not_true_eq_false, if_false]
      exact ⟨hrt.second, hrt.minute, congrArg (· - 1) hrt.threads⟩
    · simp only [NodeEvent.record, herror, ne_eq, not_false_eq_true, if_true]
      have h' := hrt.addRequest le_rfl .exception count
      exact ⟨h'.second, h'.minute, congrArg (· - 1) h'.threads⟩

/-! What is read. -/

theorem qps (h : Alike now n n') (hle : now ≤ t) (event : MetricEvent) :
    (n.qps event t).2 = (n'.qps event t).2 := by
  unfold StatisticNode.qps
  rw [h.second.getSum hle, h.second.windowIntervalInSec]

theorem maxCompleteQps (h : Alike now n n') (hle : now ≤ t) :
    (n.maxCompleteQps t).2 = (n'.maxCompleteQps t).2 := by
  unfold StatisticNode.maxCompleteQps
  rw [h.second.maxComplete hle, h.second.sampleCount]

theorem avgRt (h : Alike now n n') (hle : now ≤ t) : (n.avgRt t).2 = (n'.avgRt t).2 := by
  have hcomplete := h.second.getSum hle .complete
  have hrt := h.second.getSum hle .rt
  unfold StatisticNode.avgRt SlidingWindowMetric.complete SlidingWindowMetric.rt
  dsimp only
  rw [hcomplete, hrt]
  split_ifs <;> rfl

theorem minRt (h : Alike now n n') (hle : now ≤ t) : (n.minRt t).2 = (n'.minRt t).2 := by
  unfold StatisticNode.minRt
  rw [h.second.minRt hle]

theorem countInMinute (h : Alike now n n') (hle : now ≤ t) (event : MetricEvent) :
    (n.countInMinute event t).2 = (n'.countInMinute event t).2 := h.minute.getSum hle event

end StatisticNode.Alike

/-! ### Storages -/

/-- The same nodes, which read alike, and the same tags. -/
structure ResourceNodeStorage.Alike (now : ℕ) (st st' : ResourceNodeStorage) : Prop where
  nodes : ∀ ref, Option.Rel (StatisticNode.Alike now) (st.node? ref) (st'.node? ref)
  tagKeys : ∀ r, (st.getClusterNode r).map (fun n => n.tagNodeMap.map Prod.fst) =
    (st'.getClusterNode r).map fun n => n.tagNodeMap.map Prod.fst

namespace ResourceNodeStorage.Alike

variable {st st' : ResourceNodeStorage}

theorem rel_later {o o' : Option StatisticNode} (h : Option.Rel (StatisticNode.Alike now) o o')
    (hle : now ≤ t) : Option.Rel (StatisticNode.Alike t) o o' := by
  cases h with
  | none => exact .none
  | some h => exact .some (h.later hle)

theorem later (h : Alike now st st') (hle : now ≤ t) : Alike t st st' :=
  ⟨fun ref => rel_later (h.nodes ref) hle, h.tagKeys⟩

/-- Updates through one pointer that keep nodes alike. -/
theorem modifyNode (h : Alike now st st') (hle : now ≤ t) (ref : NodeRef)
    {f f' : StatisticNode → StatisticNode}
    (hf : ∀ n n', StatisticNode.Alike now n n' → StatisticNode.Alike t (f n) (f' n')) :
    Alike t (st.modifyNode ref f) (st'.modifyNode ref f') := by
  refine ⟨fun ref' => ?_, fun r => ?_⟩
  · rw [node?_modifyNode, node?_modifyNode]
    have hrel := h.nodes ref'
    generalize st.node? ref' = o at hrel ⊢
    generalize st'.node? ref' = o' at hrel ⊢
    split_ifs
    · cases hrel with
      | none => exact .none
      | some hrel => exact .some (hf _ _ hrel)
    · exact rel_later hrel hle
  · rw [tagKeys_modifyNode, tagKeys_modifyNode]
    exact h.tagKeys r

theorem node?_none (h : Alike now st st') {ref : NodeRef} (hn : st.node? ref = none) :
    st'.node? ref = none := by
  have hrel := h.nodes ref
  rw [hn] at hrel
  generalize st'.node? ref = o' at hrel ⊢
  cases hrel
  rfl

theorem node?_some (h : Alike now st st') {ref : NodeRef} {n : StatisticNode}
    (hn : st.node? ref = some n) : ∃ n', st'.node? ref = some n' ∧ n.Alike now n' := by
  have hrel := h.nodes ref
  rw [hn] at hrel
  generalize st'.node? ref = o' at hrel ⊢
  cases hrel with
  | some hrel => exact ⟨_, rfl, hrel⟩

theorem entryNode (h : Alike now st st') : st.entryNode.Alike now st'.entryNode := by
  obtain ⟨n', hn', halike⟩ := @node?_some _ _ _ h .entryNode _ rfl
  obtain rfl : st'.entryNode = n' := Option.some.inj hn'
  exact halike

/-- A resource has a node in both or in neither. -/
theorem getClusterNode (h : Alike now st st') (r : String) :
    (st.getClusterNode r).isSome = (st'.getClusterNode r).isSome := by
  have htags := congrArg Option.isSome (h.tagKeys r)
  rwa [Option.isSome_map, Option.isSome_map] at htags

end ResourceNodeStorage.Alike

end SentinelCpp.Stat
