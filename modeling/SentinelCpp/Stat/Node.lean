import Mathlib.Data.Rat.Cast.Defs
import SentinelCpp.Lib.Assoc
import SentinelCpp.Stat.SlidingWindow

/-!
# Statistic nodes and their storage

A `StatisticNode` has a second-level window shaped by the current `StatConfig`, a window of one
minute, and the number of calls in progress.  A cluster node belongs to a resource and holds one tag
node per tag; the global entry node counts inbound traffic.  Every read of a node refreshes its
second-level window (`readSecond`), and recording an event afterwards makes the refresh disappear.
-/

namespace SentinelCpp.Stat

open SentinelCpp.Lib

/-! ### Configuration -/

structure StatConfig where
  sampleCount : ℕ := Constants.kDefaultSampleCount
  intervalMs : ℕ := Constants.kDefaultIntervalMs
  deriving DecidableEq

/-- `UpdateSampleCount`: the configuration after the call and whether nodes are reset. -/
def StatConfig.updateSampleCount (c : StatConfig) (newSampleCount : ℤ) : StatConfig × Bool :=
  if (c.sampleCount : ℤ) = newSampleCount then (c, false)
  else if newSampleCount ≤ 0 ∨ (c.intervalMs : ℤ) % newSampleCount ≠ 0 then (c, false)
  else ({ c with sampleCount := newSampleCount.toNat }, true)

/-- `UpdateInterval`. -/
def StatConfig.updateInterval (c : StatConfig) (newIntervalMs : ℤ) : StatConfig × Bool :=
  if (c.intervalMs : ℤ) = newIntervalMs then (c, false)
  else if newIntervalMs ≤ 0 ∨ newIntervalMs % (c.sampleCount : ℤ) ≠ 0 then (c, false)
  else ({ c with intervalMs := newIntervalMs.toNat }, true)

/-- The guards of the two updates: buckets of equal, positive length. -/
structure StatConfig.Valid (c : StatConfig) : Prop where
  count_pos : 0 < c.sampleCount
  interval_pos : 0 < c.intervalMs
  dvd : c.sampleCount ∣ c.intervalMs

theorem StatConfig.valid_default : ({} : StatConfig).Valid := ⟨by decide, by decide, by decide⟩

theorem StatConfig.Valid.updateSampleCount {c : StatConfig} (h : c.Valid) (n : ℤ) :
    (c.updateSampleCount n).1.Valid := by
  unfold StatConfig.updateSampleCount
  split_ifs with h1 h2
  · exact h
  · exact h
  · rw [not_or, not_le, not_not] at h2
    obtain ⟨hpos, hmod⟩ := h2
    refine ⟨by simpa using hpos, h.interval_pos, ?_⟩
    have := Int.dvd_of_emod_eq_zero hmod
    rwa [← Int.toNat_of_nonneg hpos.le, Int.natCast_dvd_natCast] at this

theorem StatConfig.Valid.updateInterval {c : StatConfig} (h : c.Valid) (i : ℤ) :
    (c.updateInterval i).1.Valid := by
  unfold StatConfig.updateInterval
  split_ifs with h1 h2
  · exact h
  · exact h
  · rw [not_or, not_le, not_not] at h2
    obtain ⟨hpos, hmod⟩ := h2
    refine ⟨h.count_pos, by simpa using hpos, ?_⟩
    have := Int.dvd_of_emod_eq_zero hmod
    rwa [← Int.toNat_of_nonneg hpos.le, Int.natCast_dvd_natCast] at this

/-! ### Statistic nodes -/

structure StatisticNode where
  rollingCounterSecond : SlidingWindowMetric
  rollingCounterMinute : SlidingWindowMetric
  curThreadNum : UInt32

namespace StatisticNode

/-- A new node under the configuration of its creation. -/
def mk' (c : StatConfig) : StatisticNode where
  rollingCounterSecond := .mk' c.sampleCount c.intervalMs
  rollingCounterMinute := .mk' 60 (60 * 1000)
  curThreadNum := 0

variable (n : StatisticNode)

/-- What every read of the second-level window does to the node. -/
def readSecond (t : ℕ) : StatisticNode :=
  { n with rollingCounterSecond := n.rollingCounterSecond.refresh t }

/-- The common body of `PassQps`, `BlockQps`, `CompleteQps` and `ExceptionQps`; the `double` is a rational
number, without rounding. -/
def qps (event : MetricEvent) (t : ℕ) : StatisticNode × ℚ :=
  (n.readSecond t,
    (n.rollingCounterSecond.getSum event t).2 / n.rollingCounterSecond.windowIntervalInSec)

def passQps (t : ℕ) : StatisticNode × ℚ := n.qps .pass t
def blockQps (t : ℕ) : StatisticNode × ℚ := n.qps .block t
def completeQps (t : ℕ) : StatisticNode × ℚ := n.qps .complete t
def exceptionQps (t : ℕ) : StatisticNode × ℚ := n.qps .exception t

/-- `MaxCompleteQps()`. -/
def maxCompleteQps (t : ℕ) : StatisticNode × ℚ :=
  (n.readSecond t,
    (n.rollingCounterSecond.maxComplete t).2 * n.rollingCounterSecond.sampleCount)

/-- `AvgRt()`. -/
def avgRt (t : ℕ) : StatisticNode × ℚ :=
  let completed := (n.rollingCounterSecond.complete t).2
  if completed = 0 then (n.readSecond t, 0)
  else (n.readSecond t, (n.rollingCounterSecond.rt t).2 / completed)

/-- `MinRt()`. -/
def minRt (t : ℕ) : StatisticNode × ℚ :=
  (n.readSecond t, (n.rollingCounterSecond.minRt t).2)

/-- `TotalQps()`. -/
def totalQps (t : ℕ) : StatisticNode × ℚ :=
  let pass := n.passQps t
  let block := pass.1.blockQps t
  (block.1, pass.2 + block.2)

/-- What every read of the window of one minute does to the node. -/
def readMinute (t : ℕ) : StatisticNode :=
  { n with rollingCounterMinute := n.rollingCounterMinute.refresh t }

/-- The common body of `PassCountInMinute`, `BlockCountInMinute` and `ExceptionCountInMinute`. -/
def countInMinute (event : MetricEvent) (t : ℕ) : StatisticNode × ℤ :=
  (n.readMinute t, (n.rollingCounterMinute.getSum event t).2)

def passCountInMinute (t : ℕ) : StatisticNode × ℤ := n.countInMinute .pass t
def blockCountInMinute (t : ℕ) : StatisticNode × ℤ := n.countInMinute .block t
def exceptionCountInMinute (t : ℕ) : StatisticNode × ℤ := n.countInMinute .exception t

/-- `TotalCountInMinute()`. -/
def totalCountInMinute (t : ℕ) : StatisticNode × ℤ :=
  let pass := n.passCountInMinute t
  let block := pass.1.blockCountInMinute t
  (block.1, pass.2 + block.2)

/-- The common body of `AddPassRequest`, `AddBlockRequest` and `AddExceptionRequest`. -/
def addRequest (event : MetricEvent) (count : ℤ) (t : ℕ) : StatisticNode :=
  { n with
    rollingCounterSecond := n.rollingCounterSecond.addEvent event count t
    rollingCounterMinute := n.rollingCounterMinute.addEvent event count t }

def addPassRequest (count : ℤ) (t : ℕ) : StatisticNode := n.addRequest .pass count t
def addBlockRequest (count : ℤ) (t : ℕ) : StatisticNode := n.addRequest .block count t
def addExceptionRequest (count : ℤ) (t : ℕ) : StatisticNode := n.addRequest .exception count t

/-- `AddRtAndCompleteRequest(rt, complete_count)`. -/
def addRtAndCompleteRequest (rt completeCount : ℤ) (t : ℕ) : StatisticNode :=
  { n with
    rollingCounterSecond := (n.rollingCounterSecond.addComplete completeCount t).addRt rt t
    rollingCounterMinute := (n.rollingCounterMinute.addComplete completeCount t).addRt rt t }

def increaseThreadNum : StatisticNode := { n with curThreadNum := n.curThreadNum + 1 }
def decreaseThreadNum : StatisticNode := { n with curThreadNum := n.curThreadNum - 1 }

/-- `Reset()`: a new second-level window under the current configuration. -/
def reset (c : StatConfig) : StatisticNode :=
  { n with rollingCounterSecond := .mk' c.sampleCount c.intervalMs }

@[simp] theorem readSecond_readSecond (t : ℕ) :
    (n.readSecond t).readSecond t = n.readSecond t := by
  simp [readSecond]
@[simp] theorem addRequest_curThreadNum (event : MetricEvent) (count : ℤ) (t : ℕ) :
    (n.addRequest event count t).curThreadNum = n.curThreadNum := rfl
@[simp] theorem addRtAndCompleteRequest_curThreadNum (rt count : ℤ) (t : ℕ) :
    (n.addRtAndCompleteRequest rt count t).curThreadNum = n.curThreadNum := rfl
@[simp] theorem qps_fst (event : MetricEvent) (t : ℕ) : (n.qps event t).1 = n.readSecond t := rfl
@[simp] theorem passQps_fst (t : ℕ) : (n.passQps t).1 = n.readSecond t := rfl
@[simp] theorem maxCompleteQps_fst (t : ℕ) : (n.maxCompleteQps t).1 = n.readSecond t := rfl
@[simp] theorem minRt_fst (t : ℕ) : (n.minRt t).1 = n.readSecond t := rfl
@[simp] theorem avgRt_fst (t : ℕ) : (n.avgRt t).1 = n.readSecond t := by
  unfold avgRt
  dsimp only
  split <;> rfl

/-! A read finds at the same time what it found before a read. -/

@[simp] theorem qps_readSecond (event : MetricEvent) (t : ℕ) :
    (n.readSecond t).qps event t = n.qps event t := by
  simp [qps, readSecond]
@[simp] theorem passQps_readSecond (t : ℕ) : (n.readSecond t).passQps t = n.passQps t :=
  n.qps_readSecond .pass t
@[simp] theorem maxCompleteQps_readSecond (t : ℕ) :
    (n.readSecond t).maxCompleteQps t = n.maxCompleteQps t := by
  simp [maxCompleteQps, readSecond]
@[simp] theorem minRt_readSecond (t : ℕ) : (n.readSecond t).minRt t = n.minRt t := by
  simp [minRt, readSecond]
@[simp] theorem avgRt_readSecond (t : ℕ) : (n.readSecond t).avgRt t = n.avgRt t := by
  have hcomplete : (n.readSecond t).rollingCounterSecond.complete t =
      n.rollingCounterSecond.complete t := n.rollingCounterSecond.getSum_refresh .complete t
  have hrt : (n.readSecond t).rollingCounterSecond.rt t = n.rollingCounterSecond.rt t :=
    n.rollingCounterSecond.getSum_refresh .rt t
  unfold avgRt
  rw [hcomplete, hrt, readSecond_readSecond]

@[simp] theorem readMinute_readMinute (t : ℕ) : (n.readMinute t).readMinute t = n.readMinute t := by
  simp [readMinute]
@[simp] theorem countInMinute_fst (event : MetricEvent) (t : ℕ) :
    (n.countInMinute event t).1 = n.readMinute t := rfl
@[simp] theorem countInMinute_readSecond (event : MetricEvent) (t : ℕ) :
    ((n.readSecond t).countInMinute event t).2 = (n.countInMinute event t).2 := rfl
@[simp] theorem countInMinute_readMinute (event : MetricEvent) (t : ℕ) :
    (n.readMinute t).countInMinute event t = n.countInMinute event t := by
  simp [countInMinute, readMinute]
theorem totalCountInMinute_eq (t : ℕ) : n.totalCountInMinute t =
    (n.readMinute t, (n.countInMinute .pass t).2 + (n.countInMinute .block t).2) := by
  show (((n.readMinute t).countInMinute .block t).1,
    (n.countInMinute .pass t).2 + ((n.readMinute t).countInMinute .block t).2) = _
  rw [countInMinute_readMinute]
  rfl
theorem totalQps_eq (t : ℕ) :
    n.totalQps t = (n.readSecond t, (n.passQps t).2 + (n.blockQps t).2) := by
  show (((n.readSecond t).blockQps t).1, (n.passQps t).2 + ((n.readSecond t).blockQps t).2) = _
  rw [blockQps, qps_readSecond]
  rfl

/-- A read at time `t`, or none. -/
def ReadAt (t : ℕ) (n n' : StatisticNode) : Prop := n' = n ∨ n' = n.readSecond t

variable {n} in
theorem ReadAt.trans {t : ℕ} {n' n'' : StatisticNode} (h : ReadAt t n n') (h' : ReadAt t n' n'') :
    ReadAt t n n'' := by
  rcases h with rfl | rfl <;> rcases h' with rfl | rfl
  · exact .inl rfl
  · exact .inr rfl
  · exact .inr rfl
  · exact .inr (readSecond_readSecond _ _)

variable {n} in
theorem ReadAt.curThreadNum {t : ℕ} {n' : StatisticNode} (h : ReadAt t n n') :
    n'.curThreadNum = n.curThreadNum := by
  rcases h with rfl | rfl <;> rfl

end StatisticNode

/-! ### Events of a node -/

/-- What the statistic slot and the tracer record on a node. -/
inductive NodeEvent
  | pass (count : ℤ)
  | block (count : ℤ)
  | complete (rt : ℤ) (error : String) (count : ℤ)
  | exception (count : ℤ)
  deriving DecidableEq

namespace NodeEvent

/-- `RecordPassFor`, `RecordBlockFor`, `RecordCompleteFor` on a node that is not null, and the
exception count of `Tracer::Trace`. -/
def record (n : StatisticNode) (t : ℕ) : NodeEvent → StatisticNode
  | pass count => n.increaseThreadNum.addPassRequest count t
  | block count => n.addBlockRequest count t
  | complete rt error count =>
    let n := n.addRtAndCompleteRequest rt count t
    let n := if error ≠ "" then n.addExceptionRequest count t else n
    n.decreaseThreadNum
  | exception count => n.addExceptionRequest count t

/-- What the event does to the number of calls in progress. -/
def threads (e : NodeEvent) (k : UInt32) : UInt32 :=
  match e with
  | pass _ => k + 1
  | complete _ _ _ => k - 1
  | _ => k

theorem record_curThreadNum (n : StatisticNode) (t : ℕ) (e : NodeEvent) :
    (e.record n t).curThreadNum = e.threads n.curThreadNum := by
  cases e with
  | pass count => rfl
  | block count => rfl
  | exception count => rfl
  | complete rt error count =>
    by_cases he : error = "" <;>
      simp [record, threads, he, StatisticNode.decreaseThreadNum, StatisticNode.addExceptionRequest]

end NodeEvent

/-! ### Cluster nodes and the storage -/

/-- `ClusterNode`: the node of a resource with its tag nodes. -/
structure ClusterNode where
  node : StatisticNode
  tagNodeMap : Assoc String StatisticNode

/-- `GetTagNode(tag)`. -/
def ClusterNode.getTagNode (n : ClusterNode) (tag : String) : Option StatisticNode :=
  n.tagNodeMap.find? tag

/-- `GetOrCreateTagNode(tag)`: the cluster node and whether there is a node for the tag. -/
def ClusterNode.getOrCreateTagNode (n : ClusterNode) (c : StatConfig) (tag : String) :
    ClusterNode × Bool :=
  match n.getTagNode tag with
  | some _ => (n, true)
  | none =>
    if n.tagNodeMap.length > Constants.kMaxTagSize then (n, false)
    else ({ n with tagNodeMap := n.tagNodeMap ++ [(tag, .mk' c)] }, true)

/-- Which statistic node a pointer points to; nodes are never removed. -/
inductive NodeRef
  | cluster (resource : String)
  | tag (resource tag : String)
  | entryNode
  deriving DecidableEq

/-- `ResourceNodeStorage`; reaching `kMaxResourceSize` only writes a log line. -/
structure ResourceNodeStorage where
  nodeMap : Assoc String ClusterNode
  entryNode : StatisticNode

namespace ResourceNodeStorage

variable (st : ResourceNodeStorage)

/-- The storage at start-up. -/
def mk' (c : StatConfig) : ResourceNodeStorage := { nodeMap := [], entryNode := .mk' c }

/-- `GetClusterNode(resource_name)`. -/
def getClusterNode (resourceName : String) : Option ClusterNode := st.nodeMap.find? resourceName

/-- `GetOrCreateClusterNode(resource_name)`: afterwards the resource has a node. -/
def getOrCreateClusterNode (c : StatConfig) (resourceName : String) : ResourceNodeStorage :=
  match st.getClusterNode resourceName with
  | some _ => st
  | none => { st with nodeMap := st.nodeMap ++ [(resourceName, ⟨.mk' c, []⟩)] }

/-- `ResetClusterNodes()`: the cluster nodes only, not their tag nodes or the entry node. -/
def resetClusterNodes (c : StatConfig) : ResourceNodeStorage :=
  { st with nodeMap := st.nodeMap.mapValues fun n => { n with node := n.node.reset c } }

/-- The node a pointer points to. -/
def node? : NodeRef → Option StatisticNode
  | .cluster resource => (st.getClusterNode resource).map ClusterNode.node
  | .tag resource tag => (st.getClusterNode resource).bind fun n => n.getTagNode tag
  | .entryNode => some st.entryNode

/-- An update through a pointer. -/
def modifyNode (ref : NodeRef) (f : StatisticNode → StatisticNode) : ResourceNodeStorage :=
  match ref with
  | .cluster resource =>
    { st with nodeMap := st.nodeMap.modify resource fun n => { n with node := f n.node } }
  | .tag resource tag =>
    { st with nodeMap := st.nodeMap.modify resource fun n =>
        { n with tagNodeMap := n.tagNodeMap.modify tag f } }
  | .entryNode => { st with entryNode := f st.entryNode }

variable {st}

theorem node?_modifyNode (ref ref' : NodeRef) (f : StatisticNode → StatisticNode) :
    (st.modifyNode ref f).node? ref' =
      if ref' = ref then (st.node? ref').map f else st.node? ref' := by
  cases ref with
  | cluster r =>
    cases ref' with
    | cluster r' =>
      by_cases h : r' = r
      · subst h
        simp [modifyNode, node?, getClusterNode, Function.comp_def]
      · simp [modifyNode, node?, getClusterNode, Assoc.find?_modify_of_ne h, h]
    | tag r' g =>
      by_cases h : r' = r
      · subst h
        cases hf : st.nodeMap.find? r' <;>
          simp [modifyNode, node?, getClusterNode, hf, ClusterNode.getTagNode]
      · simp [modifyNode, node?, getClusterNode, Assoc.find?_modify_of_ne h]
    | entryNode => simp [modifyNode, node?]
  | tag r g =>
    cases ref' with
    | cluster r' =>
      by_cases h : r' = r
      · subst h
        cases hf : st.nodeMap.find? r' <;> simp [modifyNode, node?, getClusterNode, hf]
      · simp [modifyNode, node?, getClusterNode, Assoc.find?_modify_of_ne h]
    | tag r' g' =>
      by_cases h : r' = r
      · subst h
        by_cases hg : g' = g
        · subst hg
          cases hf : st.nodeMap.find? r' <;>
            simp [modifyNode, node?, getClusterNode, hf, ClusterNode.getTagNode]
        · cases hf : st.nodeMap.find? r' <;>
            simp [modifyNode, node?, getClusterNode, hf, ClusterNode.getTagNode,
              Assoc.find?_modify_of_ne hg, hg]
      · simp [modifyNode, node?, getClusterNode, Assoc.find?_modify_of_ne h, h]
    | entryNode => simp [modifyNode, node?]
  | entryNode => cases ref' <;> simp [modifyNode, node?, getClusterNode]

/-- Some nodes of the storage have been read at time `t`; nothing else happened. -/
def ReadAt (t : ℕ) (st st' : ResourceNodeStorage) : Prop :=
  (∀ ref, Option.Rel (StatisticNode.ReadAt t) (st.node? ref) (st'.node? ref)) ∧
    ∀ r, (st'.getClusterNode r).map (fun n => n.tagNodeMap.map Prod.fst) =
      (st.getClusterNode r).map (fun n => n.tagNodeMap.map Prod.fst)

theorem ReadAt.refl (t : ℕ) (st : ResourceNodeStorage) : ReadAt t st st := by
  refine ⟨fun ref => ?_, fun _ => rfl⟩
  cases st.node? ref with
  | none => exact .none
  | some n => exact .some (.inl rfl)

theorem ReadAt.trans {t : ℕ} {st st' st'' : ResourceNodeStorage} (h : ReadAt t st st')
    (h' : ReadAt t st' st'') : ReadAt t st st'' := by
  refine ⟨fun ref => ?_, fun r => (h'.2 r).trans (h.2 r)⟩
  have h1 := h.1 ref
  have h2 := h'.1 ref
  revert h1 h2
  generalize st.node? ref = a
  generalize st'.node? ref = b
  generalize st''.node? ref = c
  intro h1 h2
  cases h1 with
  | none => cases h2; exact .none
  | some h1 =>
    cases h2 with
    | some h2 => exact .some (h1.trans h2)

/-- Reading builds no node and drops none. -/
theorem ReadAt.node?_ne_none {t : ℕ} {st st' : ResourceNodeStorage} (h : ReadAt t st st')
    {ref : NodeRef} (hex : st.node? ref ≠ none) : st'.node? ref ≠ none := by
  intro hnone
  have hrel := h.1 ref
  rw [hnone] at hrel
  generalize st.node? ref = n at hrel hex
  cases hrel
  exact hex rfl

/-- The keys of the tag maps stay when a node is changed. -/
theorem tagKeys_modifyNode (st : ResourceNodeStorage) (ref : NodeRef)
    (f : StatisticNode → StatisticNode) (r : String) :
    ((st.modifyNode ref f).getClusterNode r).map (fun n => n.tagNodeMap.map Prod.fst) =
      (st.getClusterNode r).map fun n => n.tagNodeMap.map Prod.fst := by
  cases ref with
  | cluster r' =>
    by_cases h : r = r'
    · subst h
      cases hf : st.nodeMap.find? r <;> simp [modifyNode, getClusterNode, hf]
    · simp [modifyNode, getClusterNode, Assoc.find?_modify_of_ne h]
  | tag r' g =>
    by_cases h : r = r'
    · subst h
      cases hf : st.nodeMap.find? r <;> simp [modifyNode, getClusterNode, hf]
    · simp [modifyNode, getClusterNode, Assoc.find?_modify_of_ne h]
  | entryNode => rfl

theorem keys_modifyNode (st : ResourceNodeStorage) (ref : NodeRef) (f : StatisticNode → StatisticNode) :
    (st.modifyNode ref f).nodeMap.map Prod.fst = st.nodeMap.map Prod.fst := by
  cases ref with
  | cluster r => exact Assoc.keys_modify st.nodeMap r fun n => { n with node := f n.node }
  | tag r g =>
    exact Assoc.keys_modify st.nodeMap r fun n => { n with tagNodeMap := n.tagNodeMap.modify g f }
  | entryNode => rfl

theorem readAt_modifyNode (t : ℕ) (st : ResourceNodeStorage) (ref : NodeRef) :
    ReadAt t st (st.modifyNode ref fun n => n.readSecond t) := by
  refine ⟨fun ref' => ?_, tagKeys_modifyNode st ref _⟩
  rw [node?_modifyNode]
  cases hn : st.node? ref' with
  | none => split_ifs <;> exact .none
  | some n =>
    split_ifs
    · exact .some (.inr rfl)
    · exact .some (.inl rfl)

end ResourceNodeStorage

end SentinelCpp.Stat
