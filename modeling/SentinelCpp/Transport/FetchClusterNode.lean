import SentinelCpp.Slot.Conservation
import SentinelCpp.Transport.CommandRequest

/-!
# The command that fetches the cluster nodes

`FetchClusterNodeCommandHandler` shows each resource node with its rates, its counts in the last minute
and its calls in progress; with type `notZero` only the nodes that passed or blocked something in the
last minute.  Every read refreshes a window of the node, so showing a node changes it.
-/

namespace SentinelCpp.Transport

open Lib Stat

/-! ### The code -/

/-- A conversion of a `double` to `int64_t`: towards zero. -/
def truncate (q : ℚ) : ℤ := q.num.tdiv q.den

/-- `StatisticNodeVO`. -/
structure StatisticNodeVO where
  id : String := ""
  parentId : String := ""
  resource : String
  threadNum : ℤ
  passQps : ℤ
  blockQps : ℤ
  totalQps : ℤ
  avgRt : ℤ
  completeQps : ℤ
  exceptionQps : ℤ
  passPerMin : ℤ
  blockPerMin : ℤ
  totalPerMin : ℤ
  exceptionPerMin : ℤ
  timestamp : ℤ
  deriving DecidableEq

/-- `FromResourceNode(name, node)` on a node that is not null: the node after the reads, and the view. -/
def fromResourceNode (t : ℕ) (name : String) (n : StatisticNode) : StatisticNode × StatisticNodeVO :=
  let passQps := n.passQps t
  let blockQps := passQps.1.blockQps t
  let totalQps := blockQps.1.totalQps t
  let avgRt := totalQps.1.avgRt t
  let completeQps := avgRt.1.completeQps t
  let exceptionQps := completeQps.1.exceptionQps t
  let passPerMin := exceptionQps.1.passCountInMinute t
  let blockPerMin := passPerMin.1.blockCountInMinute t
  let totalPerMin := blockPerMin.1.totalCountInMinute t
  let exceptionPerMin := totalPerMin.1.exceptionCountInMinute t
  (exceptionPerMin.1,
    { resource := name
      threadNum := toInt32 n.curThreadNum.toNat
      passQps := truncate passQps.2
      blockQps := truncate blockQps.2
      totalQps := truncate totalQps.2
      avgRt := truncate avgRt.2
      completeQps := truncate completeQps.2
      exceptionQps := truncate exceptionQps.2
      passPerMin := passPerMin.2
      blockPerMin := blockPerMin.2
      totalPerMin := totalPerMin.2
      exceptionPerMin := exceptionPerMin.2
      timestamp := t })

inductive Json
  | string (s : String)
  | number (n : ℤ)

/-- `ConvertNodeVoToJson`. -/
def convertNodeVoToJson (node : StatisticNodeVO) : Assoc String Json :=
  [("id", .string node.id), ("parentId", .string node.parentId), ("resource", .string node.resource),
    ("threadNum", .number node.threadNum), ("passQps", .number node.passQps),
    ("blockQps", .number node.blockQps), ("totalQps", .number node.totalQps),
    ("averageRt", .number node.avgRt), ("successQps", .number node.completeQps),
    ("exceptionQps", .number node.exceptionQps), ("oneMinutePass", .number node.passPerMin),
    ("oneMinuteBlock", .number node.blockPerMin), ("oneMinuteException", .number node.exceptionPerMin),
    ("oneMinuteTotal", .number node.totalPerMin), ("timestamp", .number node.timestamp)]

def kNotZero : Text := "notZero".toList

/-- What the loop of `Handle` does with one node. -/
def showNode (t : ℕ) (type : Text) (resource : String) (n : StatisticNode) :
    StatisticNode × Option StatisticNodeVO :=
  let view (n : StatisticNode) : StatisticNode × Option StatisticNodeVO :=
    ((fromResourceNode t resource n).1, some (fromResourceNode t resource n).2)
  if type = kNotZero then
    let total := n.totalCountInMinute t
    if total.2 > 0 then view total.1 else (total.1, none)
  else view n

/-- One round of the loop, through the pointer to the node of the resource. -/
def showResource (t : ℕ) (type : Text) (r : ResourceNodeStorage × List StatisticNodeVO)
    (resource : String) : ResourceNodeStorage × List StatisticNodeVO :=
  match r.1.node? (.cluster resource) with
  | none => r
  | some n =>
    let shown := showNode t type resource n
    (r.1.modifyNode (.cluster resource) fun _ => shown.1, r.2 ++ shown.2.toList)

/-- The loop of `Handle` over a copy of the node map. -/
def showNodes (order : IterationOrder (String × ClusterNode)) (t : ℕ) (type : Text)
    (st : ResourceNodeStorage) : ResourceNodeStorage × List StatisticNodeVO :=
  ((order.order st.nodeMap).map Prod.fst).foldl (showResource t type) (st, [])

namespace FetchClusterNodeCommandHandler

/-- `Handle(request)`; `dump` writes an array of objects. -/
def handle (order : IterationOrder (String × ClusterNode)) (dump : List (Assoc String Json) → Text) (t : ℕ)
    (request : CommandRequest) (st : ResourceNodeStorage) : ResourceNodeStorage × CommandResponse :=
  let r := showNodes order t (request.getParam "type".toList) st
  (r.1, .ofSuccess (dump (r.2.map convertNodeVoToJson)))

end FetchClusterNodeCommandHandler

/-! ### What is shown -/

/-- The node has been read at time `t` in any way. -/
def Polled (t : ℕ) (n n' : StatisticNode) : Prop :=
  ∃ n₁, n.ReadAt t n₁ ∧ (n' = n₁ ∨ n' = n₁.readMinute t)

theorem Polled.refl (t : ℕ) (n : StatisticNode) : Polled t n n := ⟨n, .inl rfl, .inl rfl⟩

/-- The view of a node. -/
def viewOf (t : ℕ) (name : String) (n : StatisticNode) : StatisticNodeVO where
  resource := name
  threadNum := toInt32 n.curThreadNum.toNat
  passQps := truncate (n.passQps t).2
  blockQps := truncate (n.blockQps t).2
  totalQps := truncate ((n.passQps t).2 + (n.blockQps t).2)
  avgRt := truncate (n.avgRt t).2
  completeQps := truncate (n.completeQps t).2
  exceptionQps := truncate (n.exceptionQps t).2
  passPerMin := (n.countInMinute .pass t).2
  blockPerMin := (n.countInMinute .block t).2
  totalPerMin := (n.countInMinute .pass t).2 + (n.countInMinute .block t).2
  exceptionPerMin := (n.countInMinute .exception t).2
  timestamp := t

/-- The reads do not disturb one another. -/
theorem fromResourceNode_eq (t : ℕ) (name : String) (n : StatisticNode) :
    fromResourceNode t name n = ((n.readSecond t).readMinute t, viewOf t name n) := by
  unfold fromResourceNode viewOf
  simp [StatisticNode.totalQps_eq, StatisticNode.totalCountInMinute_eq, StatisticNode.passQps,
    StatisticNode.blockQps, StatisticNode.completeQps, StatisticNode.exceptionQps,
    StatisticNode.passCountInMinute, StatisticNode.blockCountInMinute,
    StatisticNode.exceptionCountInMinute]

theorem viewOf_readMinute (t : ℕ) (name : String) (n : StatisticNode) :
    viewOf t name (n.readMinute t) = viewOf t name n := by
  have havg : ((n.readMinute t).avgRt t).2 = (n.avgRt t).2 := by
    unfold StatisticNode.avgRt
    dsimp only [StatisticNode.readMinute]
    split_ifs <;> rfl
  unfold viewOf
  simp only [StatisticNode.countInMinute_readMinute, havg]
  rfl

/-- What one node does to the answer. -/
theorem showNode_spec (t : ℕ) (type : Text) (resource : String) (n : StatisticNode) :
    Polled t n (showNode t type resource n).1 ∧
      (showNode t type resource n).2 =
        if type = kNotZero ∧ (n.totalCountInMinute t).2 ≤ 0 then none else some (viewOf t resource n) := by
  have hread : Polled t n ((n.readSecond t).readMinute t) := ⟨_, .inr rfl, .inr rfl⟩
  unfold showNode
  dsimp only
  rw [fromResourceNode_eq, fromResourceNode_eq, StatisticNode.totalCountInMinute_eq]
  dsimp only
  by_cases htype : type = kNotZero
  · rw [if_pos htype]
    by_cases htotal : 0 < (n.countInMinute .pass t).2 + (n.countInMinute .block t).2
    · rw [if_pos htotal, if_neg (fun h => absurd htotal (not_lt.mpr h.2))]
      have hnode : ((n.readMinute t).readSecond t).readMinute t = (n.readSecond t).readMinute t :=
        (n.readSecond t).readMinute_readMinute t
      rw [hnode, viewOf_readMinute]
      exact ⟨hread, rfl⟩
    · rw [if_neg htotal, if_pos ⟨htype, not_lt.mp htotal⟩]
      exact ⟨⟨n, .inl rfl, .inr rfl⟩, rfl⟩
  · rw [if_neg htype, if_neg (fun h => htype h.1)]
    exact ⟨hread, rfl⟩

/-- Nodes of the storage have been polled at time `t`; nothing else happened. -/
structure PolledAt (t : ℕ) (st st' : ResourceNodeStorage) : Prop where
  keys : st'.nodeMap.map Prod.fst = st.nodeMap.map Prod.fst
  nodes : ∀ ref, Option.Rel (Polled t) (st.node? ref) (st'.node? ref)
  tagKeys : ∀ r, (st'.getClusterNode r).map (fun n => n.tagNodeMap.map Prod.fst) =
    (st.getClusterNode r).map fun n => n.tagNodeMap.map Prod.fst

theorem PolledAt.refl (t : ℕ) (st : ResourceNodeStorage) : PolledAt t st st := by
  refine ⟨rfl, fun ref => ?_, fun _ => rfl⟩
  cases st.node? ref with
  | none => exact .none
  | some n => exact .some (.refl t n)

/-- One more node is polled, which has not been polled so far. -/
theorem PolledAt.modifyNode {t : ℕ} {st st' : ResourceNodeStorage} (h : PolledAt t st st')
    {ref : NodeRef} {n n' : StatisticNode} (hsame : st'.node? ref = st.node? ref)
    (hn : st.node? ref = some n) (hpolled : Polled t n n') :
    PolledAt t st (st'.modifyNode ref fun _ => n') := by
  refine ⟨?_, fun ref' => ?_, fun r => (st'.tagKeys_modifyNode ref _ r).trans (h.tagKeys r)⟩
  · rw [st'.keys_modifyNode, h.keys]
  · rw [ResourceNodeStorage.node?_modifyNode]
    split_ifs with href
    · rw [href, hsame, hn]
      exact .some hpolled
    · exact h.nodes ref'

/-- The loop polls the nodes of the resources, and shows each as it was before the loop. -/
theorem showResources_spec (t : ℕ) (type : Text) (st : ResourceNodeStorage) {resources : List String}
    (hnodup : resources.Nodup) :
    PolledAt t st (resources.foldl (showResource t type) (st, [])).1 ∧
      (∀ r ∉ resources, (resources.foldl (showResource t type) (st, [])).1.node? (.cluster r) =
        st.node? (.cluster r)) ∧
      (resources.foldl (showResource t type) (st, [])).2 = resources.filterMap fun r =>
        (st.node? (.cluster r)).bind fun n => (showNode t type r n).2 := by
  induction resources using List.reverseRecOn with
  | nil => exact ⟨.refl t st, fun _ _ => rfl, rfl⟩
  | append_singleton resources r ih =>
    obtain ⟨hnodup', -, hnot⟩ := List.nodup_append.mp hnodup
    have hr : r ∉ resources := fun hmem => hnot r hmem r List.mem_cons_self rfl
    obtain ⟨hpolled, hother, hshown⟩ := ih hnodup'
    rw [List.foldl_append, List.foldl_cons, List.foldl_nil, List.filterMap_append]
    generalize resources.foldl (showResource t type) (st, []) = acc at hpolled hother hshown
    obtain ⟨st', vec⟩ := acc
    dsimp only at hpolled hother hshown
    have hsame : st'.node? (.cluster r) = st.node? (.cluster r) := hother r hr
    unfold showResource
    dsimp only
    rw [hsame]
    cases hn : st.node? (.cluster r) with
    | none =>
      refine ⟨hpolled, fun r' hr' => hother r' fun h => hr' (List.mem_append_left _ h), ?_⟩
      rw [hshown]
      simp [hn]
    | some n =>
      refine ⟨hpolled.modifyNode hsame hn (showNode_spec t type r n).1, fun r' hr' => ?_, ?_⟩
      · dsimp only
        rw [List.mem_append, List.mem_singleton, not_or] at hr'
        rw [ResourceNodeStorage.node?_modifyNode, if_neg (by simpa using hr'.2)]
        exact hother r' hr'.1
      · dsimp only
        rw [hshown]
        cases hview : (showNode t type r n).2 <;> simp [hn, hview]

/-- **One answer**: a view of each resource that has a node, as the node was; with type `notZero` of those
with something in the last minute. -/
theorem showNodes_spec (order : IterationOrder (String × ClusterNode)) (t : ℕ) (type : Text)
    {st : ResourceNodeStorage} (hkeys : (st.nodeMap.map Prod.fst).Nodup) :
    PolledAt t st (showNodes order t type st).1 ∧
      ((showNodes order t type st).2.map StatisticNodeVO.resource).Nodup ∧
      ∀ vo, vo ∈ (showNodes order t type st).2 ↔ ∃ r n, st.node? (.cluster r) = some n ∧
        ¬ (type = kNotZero ∧ (n.totalCountInMinute t).2 ≤ 0) ∧ vo = viewOf t r n := by
  have hperm := (order.perm st.nodeMap).map Prod.fst
  obtain ⟨hpolled, -, hshown⟩ := showResources_spec t type st (hperm.nodup_iff.mpr hkeys)
  rw [showNodes]
  refine ⟨hpolled, ?_, fun vo => ?_⟩
  · rw [hshown, List.map_filterMap]
    refine List.Nodup.filterMap (fun r r' b hb hb' => ?_) (hperm.nodup_iff.mpr hkeys)
    have hname : ∀ r, b ∈ ((st.node? (.cluster r)).bind fun n => (showNode t type r n).2).map
        StatisticNodeVO.resource → b = r := by
      intro r hb
      obtain ⟨vo, hvo, rfl⟩ := Option.map_eq_some_iff.mp hb
      obtain ⟨n, -, hvo⟩ := Option.bind_eq_some_iff.mp hvo
      rw [(showNode_spec t type r n).2] at hvo
      split_ifs at hvo
      rw [← Option.some.inj hvo]
      rfl
    exact (hname r hb).symm.trans (hname r' hb')
  · rw [hshown, List.mem_filterMap]
    constructor
    · rintro ⟨r, -, hvo⟩
      obtain ⟨n, hn, hvo⟩ := Option.bind_eq_some_iff.mp hvo
      rw [(showNode_spec t type r n).2] at hvo
      split_ifs at hvo with hzero
      exact ⟨r, n, hn, hzero, (Option.some.inj hvo).symm⟩
    · rintro ⟨r, n, hn, hzero, rfl⟩
      refine ⟨r, ?_, ?_⟩
      · by_contra hmem
        rw [hperm.mem_iff, ← Assoc.find?_eq_none] at hmem
        simp [ResourceNodeStorage.node?, ResourceNodeStorage.getClusterNode, hmem] at hn
      · rw [hn, Option.bind_some, (showNode_spec t type r n).2, if_neg hzero]

end SentinelCpp.Transport
