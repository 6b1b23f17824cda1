import SentinelCpp.Slot.Nodes
import SentinelCpp.Stat.Alike

/-!
# Calls on nodes that read alike

A call of the library on two states that differ only in how far the windows of their nodes have been
refreshed comes back the same, and leaves two states of that kind.
-/

namespace SentinelCpp

open Lib Stat

variable {t : ℕ} {st st' : ResourceNodeStorage}

/-- Two checks that agree: storages that read alike, and the same result. -/
def Agree (t : ℕ) (r r' : ResourceNodeStorage × TokenResult) : Prop := r.1.Alike t r'.1 ∧ r.2 = r'.2

/-! ### The flow slot -/

namespace Flow

theorem doCheck_agree (h : st.Alike t st') (c : DefaultTrafficShapingChecker) (node : NodeRef)
    (count : ℤ) (threshold : ℚ) :
    Agree t (c.doCheck t node count threshold st) (c.doCheck t node count threshold st') := by
  unfold DefaultTrafficShapingChecker.doCheck
  cases hn : st.node? node with
  | none =>
    -- without a node the check counts from zero in both
    rw [h.node?_none hn]
    dsimp only
    split_ifs <;> exact ⟨h, rfl⟩
  | some n =>
    obtain ⟨n', hn', halike⟩ := h.node?_some hn
    rw [hn']
    cases c.mode with
    | kThreadCount =>
      dsimp only
      rw [halike.threads]
      split_ifs <;> exact ⟨h, rfl⟩
    | kQps =>
      -- the read refreshes both windows to the same time, and finds the same passes
      have hmodify : (st.modifyNode node fun n => (n.passQps t).1).Alike t
          (st'.modifyNode node fun n => (n.passQps t).1) :=
        h.modifyNode le_rfl node fun _ _ hn => hn.readSecond le_rfl
      have hqps : (n.passQps t).2 = (n'.passQps t).2 := halike.qps le_rfl .pass
      dsimp only
      rw [hqps]
      split_ifs <;> exact ⟨hmodify, rfl⟩

theorem selectNodeByRelStrategy_alike (h : st.Alike t st') (rule : FlowRule) (node : Option NodeRef) :
    selectNodeByRelStrategy st rule node = selectNodeByRelStrategy st' rule node := by
  unfold selectNodeByRelStrategy
  have hsome := h.getClusterNode rule.refResource
  cases hn : st.getClusterNode rule.refResource <;>
    cases hn' : st'.getClusterNode rule.refResource <;> simp [hn, hn'] at hsome ⊢

theorem canPassCheck_agree (h : st.Alike t st') (m : FlowMaps) (rule : FlowRule) (tag : String)
    (tagNode node : Option NodeRef) (count : ℤ) :
    Agree t (canPassCheck t m rule tag tagNode node count st)
      (canPassCheck t m rule tag tagNode node count st') := by
  have hselect : selectNodeByRequesterAndStrategy m st rule tag tagNode node =
      selectNodeByRequesterAndStrategy m st' rule tag tagNode node := by
    unfold selectNodeByRequesterAndStrategy
    rw [selectNodeByRelStrategy_alike h]
  unfold canPassCheck passLocalCheck
  -- both select the same node and the same controller
  rw [hselect]
  split_ifs
  · exact ⟨h, rfl⟩
  · cases selectNodeByRequesterAndStrategy m st' rule tag tagNode node with
    | none => exact ⟨h, rfl⟩
    | some selectedNode =>
      cases m.getTrafficControllerFor rule with
      | none => exact ⟨h, rfl⟩
      | some controller => exact doCheck_agree h _ _ _ _

theorem checkRules_agree (h : st.Alike t st') (m : FlowMaps) (tag : String)
    (tagNode node : Option NodeRef) (count : ℤ) (rules : List FlowRule) :
    Agree t (checkRules t m tag tagNode node count rules st)
      (checkRules t m tag tagNode node count rules st') := by
  induction rules generalizing st st' with
  | nil => exact ⟨h, rfl⟩
  | cons rule rules ih =>
    obtain ⟨halike, hres⟩ := canPassCheck_agree h m rule tag tagNode node count
    rw [checkRules, checkRules]
    generalize canPassCheck t m rule tag tagNode node count st = r at halike hres ⊢
    generalize canPassCheck t m rule tag tagNode node count st' = r' at halike hres ⊢
    obtain ⟨st₁, res⟩ := r
    obtain ⟨st₁', res'⟩ := r'
    obtain rfl : res = res' := hres
    -- a block ends both loops, and otherwise both go on from storages that read alike
    cases res with
    | blocked reason => exact ⟨halike, rfl⟩
    | _ => exact ih halike

end Flow

/-! ### The system slot -/

namespace System

variable {n n' : StatisticNode}

theorem checkBbr_agree (h : n.Alike t n') (concurrency : ℚ) :
    (checkBbr t concurrency n).1.Alike t (checkBbr t concurrency n').1 ∧
      (checkBbr t concurrency n).2 = (checkBbr t concurrency n').2 := by
  have hmax : (n.maxCompleteQps t).2 = (n'.maxCompleteQps t).2 := h.maxCompleteQps le_rfl
  -- `MinRt` is read after `MaxCompleteQps`, so from refreshed windows
  have hread := h.readSecond (t := t) le_rfl
  have hmin : ((n.readSecond t).minRt t).2 = ((n'.readSecond t).minRt t).2 := hread.minRt le_rfl
  unfold checkBbr
  simp only [StatisticNode.maxCompleteQps_fst, StatisticNode.minRt_fst, hmax, hmin]
  split_ifs
  · exact ⟨hread.readSecond le_rfl, rfl⟩
  · exact ⟨h, rfl⟩

theorem checkRule_agree (h : n.Alike t n') (status : SystemStatus) (count : ℤ) (type : MetricType)
    (rule : SystemRule) :
    (checkRule t status count n type rule).1.Alike t (checkRule t status count n' type rule).1 ∧
      (checkRule t status count n type rule).2 = (checkRule t status count n' type rule).2 := by
  unfold checkRule
  rw [h.threads]
  cases type with
  | kQps =>
    have hqps : (n.passQps t).2 = (n'.passQps t).2 := h.qps le_rfl .pass
    dsimp only
    rw [hqps]
    exact ⟨h.readSecond le_rfl, rfl⟩
  | kConcurrency => exact ⟨h, rfl⟩
  | kRt =>
    dsimp only
    rw [h.avgRt le_rfl, StatisticNode.avgRt_fst, StatisticNode.avgRt_fst]
    exact ⟨h.readSecond le_rfl, rfl⟩
  | kSystemLoad =>
    dsimp only
    split_ifs
    · exact checkBbr_agree h _
    · exact ⟨h, rfl⟩
  | kCpuUsage =>
    dsimp only
    split_ifs
    · exact checkBbr_agree h _
    · exact ⟨h, rfl⟩

theorem checkSystem_agree (h : n.Alike t n') (status : SystemStatus) (count : ℤ)
    (rules : List (MetricType × SystemRule)) :
    (checkSystem t status count rules n).1.Alike t (checkSystem t status count rules n').1 ∧
      (checkSystem t status count rules n).2 = (checkSystem t status count rules n').2 := by
  induction rules generalizing n n' with
  | nil => exact ⟨h, rfl⟩
  | cons p rules ih =>
    obtain ⟨type, rule⟩ := p
    obtain ⟨halike, hres⟩ := checkRule_agree h status count type rule
    rw [checkSystem, checkSystem]
    generalize checkRule t status count n type rule = r at halike hres ⊢
    generalize checkRule t status count n' type rule = r' at halike hres ⊢
    obtain ⟨n₁, pass⟩ := r
    obtain ⟨n₁', pass'⟩ := r'
    obtain rfl : pass = pass' := hres
    cases pass with
    | false => exact ⟨halike, rfl⟩
    | true => exact ih halike

theorem systemEntry_agree (h : st.Alike t st')
    (mapOrder : IterationOrder (MetricType × SystemRule)) (status : SystemStatus)
    (ruleMap : Option SystemRuleMap) (entryType : EntryType) (count : ℤ) :
    Agree t (systemEntry mapOrder t status ruleMap entryType count st)
      (systemEntry mapOrder t status ruleMap entryType count st') := by
  unfold systemEntry
  split_ifs
  · cases ruleMap with
    | none => exact ⟨h, rfl⟩
    | some ruleMap =>
      dsimp only
      split_ifs
      · obtain ⟨halike, hres⟩ := checkSystem_agree h.entryNode status count (mapOrder.order ruleMap)
        exact ⟨h.modifyNode le_rfl .entryNode fun _ _ _ => halike, hres⟩
      · exact ⟨h, rfl⟩
  · exact ⟨h, rfl⟩

end System

/-! ### The node builder -/

theorem node?_getOrCreateClusterNode (st : ResourceNodeStorage) (c : StatConfig) (r : String)
    (ref : NodeRef) : (st.getOrCreateClusterNode c r).node? ref =
      if ref = .cluster r then some ((st.node? ref).getD (.mk' c)) else st.node? ref := by
  have hentry : (st.getOrCreateClusterNode c r).entryNode = st.entryNode := by
    unfold ResourceNodeStorage.getOrCreateClusterNode
    cases st.getClusterNode r <;> rfl
  cases ref with
  | entryNode => exact congrArg some hentry
  | cluster r' =>
    simp only [ResourceNodeStorage.node?, World.getClusterNode_getOrCreateClusterNode,
      NodeRef.cluster.injEq]
    by_cases hr : r' = r
    · subst hr
      rw [if_pos rfl, if_pos rfl]
      cases st.getClusterNode r' <;> rfl
    · rw [if_neg hr, if_neg hr]
  | tag r' g =>
    simp only [ResourceNodeStorage.node?, World.getClusterNode_getOrCreateClusterNode, reduceCtorEq,
      if_false]
    by_cases hr : r' = r
    · subst hr
      rw [if_pos rfl]
      cases st.getClusterNode r' <;> rfl
    · rw [if_neg hr]

theorem getOrCreateClusterNode_alike (h : st.Alike t st') {c : StatConfig} (hc : c.Valid) (r : String) :
    (st.getOrCreateClusterNode c r).Alike t (st'.getOrCreateClusterNode c r) := by
  refine ⟨fun ref => ?_, fun r' => ?_⟩
  · rw [node?_getOrCreateClusterNode, node?_getOrCreateClusterNode]
    have hrel := h.nodes ref
    generalize st.node? ref = o at hrel ⊢
    generalize st'.node? ref = o' at hrel ⊢
    split_ifs
    · cases hrel with
      -- the node is made in both or in neither
      | none => exact .some (.mk' hc t)
      | some hrel => exact .some hrel
    · exact hrel
  · rw [World.getClusterNode_getOrCreateClusterNode, World.getClusterNode_getOrCreateClusterNode]
    split_ifs
    · have htags := h.tagKeys r
      generalize st.getClusterNode r = o at htags ⊢
      generalize st'.getClusterNode r = o' at htags ⊢
      cases o <;> cases o' <;> simp at htags ⊢
      exact htags
    · exact h.tagKeys r'

/-- The tag nodes of a resource have the same names in both. -/
theorem getOrCreateTagNode_alike {n n' : ClusterNode} {r : String}
    (h : st.Alike t st') {c : StatConfig} (hc : c.Valid) (tag : String)
    (hn : st.getClusterNode r = some n) (hn' : st'.getClusterNode r = some n') :
    (n.getOrCreateTagNode c tag).2 = (n'.getOrCreateTagNode c tag).2 ∧
      (n.getOrCreateTagNode c tag).1.tagNodeMap.map Prod.fst =
        (n'.getOrCreateTagNode c tag).1.tagNodeMap.map Prod.fst ∧
      ∀ g, Option.Rel (StatisticNode.Alike t) ((n.getOrCreateTagNode c tag).1.getTagNode g)
        ((n'.getOrCreateTagNode c tag).1.getTagNode g) := by
  have hkeys : n.tagNodeMap.map Prod.fst = n'.tagNodeMap.map Prod.fst := by
    have htags := h.tagKeys r
    rw [hn, hn', Option.map_some, Option.map_some, Option.some.injEq] at htags
    exact htags
  have htag : ∀ g, Option.Rel (StatisticNode.Alike t) (n.getTagNode g) (n'.getTagNode g) := by
    intro g
    have hrel := h.nodes (.tag r g)
    simp only [ResourceNodeStorage.node?, hn, hn', Option.bind_some] at hrel
    exact hrel
  -- so the limit on the number of tags stops both or neither
  have hlength : n.tagNodeMap.length = n'.tagNodeMap.length := by
    simpa using congrArg List.length hkeys
  have hrel := htag tag
  unfold ClusterNode.getOrCreateTagNode
  rw [hlength]
  cases hg : n.getTagNode tag with
  | some m =>
    rw [hg] at hrel
    cases hg' : n'.getTagNode tag with
    | none =>
      rw [hg'] at hrel
      cases hrel
    | some m' => exact ⟨rfl, hkeys, htag⟩
  | none =>
    rw [hg] at hrel
    cases hg' : n'.getTagNode tag with
    | some m' =>
      rw [hg'] at hrel
      cases hrel
    | none =>
      -- no node of the tag in either: one is added to both unless there are too many
      dsimp only
      split_ifs with hfull
      · exact ⟨rfl, hkeys, htag⟩
      · refine ⟨rfl, by simp [hkeys], fun g => ?_⟩
        have hgrel := htag g
        unfold ClusterNode.getTagNode at hg hg' hgrel ⊢
        dsimp only
        rw [Assoc.find?_concat hg, Assoc.find?_concat hg']
        split_ifs
        · exact .some (.mk' hc t)
        · exact hgrel

theorem tagNodeFor_alike (h : st.Alike t st') {c : StatConfig} (hc : c.Valid) (r tag : String) :
    (tagNodeFor st c r tag).1.Alike t (tagNodeFor st' c r tag).1 ∧
      (tagNodeFor st c r tag).2 = (tagNodeFor st' c r tag).2 := by
  have hsome := h.getClusterNode r
  unfold tagNodeFor
  cases hn : st.getClusterNode r with
  | none =>
    cases hn' : st'.getClusterNode r with
    | none => exact ⟨h, rfl⟩
    | some n' =>
      rw [hn, hn'] at hsome
      cases hsome
  | some n =>
    cases hn' : st'.getClusterNode r with
    | none =>
      rw [hn, hn'] at hsome
      cases hsome
    | some n' =>
      obtain ⟨hroom, hkeys, htags⟩ := getOrCreateTagNode_alike h hc tag hn hn'
      obtain ⟨-, -, hnode⟩ := World.getTagNode_getOrCreateTagNode n c tag tag
      obtain ⟨-, -, hnode'⟩ := World.getTagNode_getOrCreateTagNode n' c tag tag
      dsimp only
      rw [hroom]
      -- only the tag map of the resource is new
      refine ⟨⟨fun ref => ?_, fun r' => ?_⟩, rfl⟩
      · have hrel := h.nodes ref
        cases ref with
        | entryNode => exact hrel
        | cluster r' =>
          by_cases hr : r' = r
          · subst hr
            simp only [ResourceNodeStorage.node?, ResourceNodeStorage.getClusterNode] at hrel hn hn' ⊢
            rw [Assoc.find?_modify_self, Assoc.find?_modify_self]
            simpa [hn, hn', hnode, hnode'] using hrel
          · simp only [ResourceNodeStorage.node?, ResourceNodeStorage.getClusterNode] at hrel ⊢
            rw [Assoc.find?_modify_of_ne hr, Assoc.find?_modify_of_ne hr]
            exact hrel
        | tag r' g =>
          by_cases hr : r' = r
          · subst hr
            simp only [ResourceNodeStorage.node?, ResourceNodeStorage.getClusterNode] at hn hn' ⊢
            rw [Assoc.find?_modify_self, Assoc.find?_modify_self]
            simpa [hn, hn'] using htags g
          · simp only [ResourceNodeStorage.node?, ResourceNodeStorage.getClusterNode] at hrel ⊢
            rw [Assoc.find?_modify_of_ne hr, Assoc.find?_modify_of_ne hr]
            exact hrel
      · have hold := h.tagKeys r'
        simp only [ResourceNodeStorage.getClusterNode] at hold hn hn' ⊢
        by_cases hr : r' = r
        · subst hr
          rw [Assoc.find?_modify_self, Assoc.find?_modify_self]
          simp [hn, hn', hkeys]
        · rw [Assoc.find?_modify_of_ne hr, Assoc.find?_modify_of_ne hr]
          exact hold

/-! ### One call -/

/-- Two states with storages that read alike, and nothing else to tell them apart. -/
def World.Alike (t : ℕ) (w w' : World) : Prop :=
  ∃ st', w' = { w with storage := st' } ∧ w.storage.Alike t st'

/-- Steps that agree: alike states and the same output, or none at all. -/
def AgreeStep {ω : Type} (t : ℕ) (r r' : Option (World × ω)) : Prop :=
  Option.Rel (fun x x' => x.1.Alike t x'.1 ∧ x.2 = x'.2) r r'

theorem recordFor_alike (h : st.Alike t st') (node : Option NodeRef) (e : NodeEvent) :
    (recordFor node t e st).Alike t (recordFor node t e st') := by
  cases node with
  | none => exact h
  | some ref => exact h.modifyNode le_rfl ref fun _ _ hn => hn.record le_rfl e

namespace World.Alike

variable {w w' : World} {env : Env} {c : Call}

theorem later {now : ℕ} (h : Alike now w w') (hle : now ≤ t) : Alike t w w' := by
  obtain ⟨st', rfl, halike⟩ := h
  exact ⟨st', rfl, halike.later hle⟩

theorem built (env : Env) (c : Call) (h : Alike t w w') (hc : w.config.Valid) :
    Alike t (w.built env c) (w'.built env c) := by
  obtain ⟨st', rfl, halike⟩ := h
  have hcluster := getOrCreateClusterNode_alike halike hc c.resource
  obtain ⟨htag, hnode⟩ := tagNodeFor_alike hcluster hc c.resource (env.contextTag c.context)
  unfold World.built World.builtNodes
  dsimp only
  split_ifs
  · refine ⟨_, ?_, htag⟩
    simp only [modifyContext, hnode]
  · exact ⟨_, rfl, hcluster⟩

theorem preCheck (env : Env) (c : Call) (h : Alike t w w') :
    AgreeStep t (w.preCheck env t c) (w'.preCheck env t c) := by
  obtain ⟨st', rfl, halike⟩ := h
  have hsystem := System.systemEntry_agree halike env.systemMapOrder w.status w.system.maps c.entryType
    c.count
  unfold World.preCheck
  dsimp only
  generalize System.systemEntry env.systemMapOrder t w.status w.system.maps c.entryType c.count
    w.storage = r at hsystem ⊢
  generalize System.systemEntry env.systemMapOrder t w.status w.system.maps c.entryType c.count
    st' = r' at hsystem ⊢
  obtain ⟨st₁, res⟩ := r
  obtain ⟨st₁', res'⟩ := r'
  obtain ⟨halike₁, rfl⟩ : st₁.Alike t st₁' ∧ res = res' := hsystem
  cases res with
  | ok =>
    have hflow : Agree t (Flow.flowEntry t w.flow.maps c.resource (env.contextTag c.context)
        (w.contexts c.context).tagNode (some (.cluster c.resource)) c.count st₁)
        (Flow.flowEntry t w.flow.maps c.resource (env.contextTag c.context)
          (w.contexts c.context).tagNode (some (.cluster c.resource)) c.count st₁') :=
      Flow.checkRules_agree halike₁ _ _ _ _ _ _
    dsimp only
    generalize Flow.flowEntry t w.flow.maps c.resource (env.contextTag c.context)
      (w.contexts c.context).tagNode (some (.cluster c.resource)) c.count st₁ = r at hflow ⊢
    generalize Flow.flowEntry t w.flow.maps c.resource (env.contextTag c.context)
      (w.contexts c.context).tagNode (some (.cluster c.resource)) c.count st₁' = r' at hflow ⊢
    obtain ⟨st₂, res⟩ := r
    obtain ⟨st₂', res'⟩ := r'
    obtain ⟨halike₂, rfl⟩ : st₂.Alike t st₂' ∧ res = res' := hflow
    cases res with
    | ok =>
      cases Param.paramFlowEntry env.cache t w.param.maps c.resource c.count c.params w.metricMap with
      | none => exact .none
      | some r => exact .some ⟨⟨_, rfl, halike₂⟩, rfl⟩
    | _ => exact .some ⟨⟨_, rfl, halike₂⟩, rfl⟩
  | _ => exact .some ⟨⟨_, rfl, halike₁⟩, rfl⟩

/-- **The checks agree.** -/
theorem ruleCheck (env : Env) (c : Call) (h : Alike t w w') :
    AgreeStep t (w.ruleCheck env t c) (w'.ruleCheck env t c) := by
  have hpre := h.preCheck env c
  unfold World.ruleCheck
  generalize w.preCheck env t c = r at hpre ⊢
  generalize w'.preCheck env t c = r' at hpre ⊢
  cases hpre with
  | none => exact .none
  | @some x x' hx =>
    obtain ⟨w₁, res⟩ := x
    obtain ⟨w₁', res'⟩ := x'
    obtain ⟨⟨st', rfl, halike⟩, rfl⟩ : w₁.Alike t w₁' ∧ res = res' := hx
    cases res with
    | ok => exact .some ⟨⟨_, rfl, halike⟩, rfl⟩
    | _ => exact .some ⟨⟨_, rfl, halike⟩, rfl⟩

theorem recordPass (h : Alike t w w') : Alike t (w.recordPass t c) (w'.recordPass t c) := by
  obtain ⟨st', rfl, halike⟩ := h
  exact ⟨_, rfl, recordFor_alike (recordFor_alike (recordFor_alike halike _ _) _ _) _ _⟩

theorem recordBlock (h : Alike t w w') (reason : String) :
    Alike t (w.recordBlock t c reason) (w'.recordBlock t c reason) := by
  obtain ⟨st', rfl, halike⟩ := h
  exact ⟨_, rfl, recordFor_alike (recordFor_alike (recordFor_alike halike _ _) _ _) _ _⟩

theorem entry (h : Alike t w w') (hc : w.config.Valid) :
    AgreeStep t (w.entry env t c) (w'.entry env t c) := by
  cases hact : w.activated with
  | false =>
    obtain ⟨st', rfl, halike⟩ := h
    rw [entry_of_not_activated hact, entry_of_not_activated (w := { w with storage := st' }) hact]
    exact .some ⟨⟨_, rfl, halike⟩, rfl⟩
  | true =>
    have hact' : w'.activated = true := by
      obtain ⟨st', rfl, -⟩ := h
      exact hact
    have hcheck := (h.built env c hc).ruleCheck env c
    rw [entry_eq hact, entry_eq hact']
    generalize (w.built env c).ruleCheck env t c = r at hcheck ⊢
    generalize (w'.built env c).ruleCheck env t c = r' at hcheck ⊢
    cases hcheck with
    | none => exact .none
    | @some x x' hx =>
      obtain ⟨w₁, res⟩ := x
      obtain ⟨w₁', res'⟩ := x'
      obtain ⟨halike, rfl⟩ : w₁.Alike t w₁' ∧ res = res' := hx
      -- the verdict is the same, so both record a pass and hand out an entry, or both record a block
      have hpass : Alike t { w₁.recordPass t c with entries := w₁.entries ++ [admittedEntry t c] }
          { w₁'.recordPass t c with entries := w₁'.entries ++ [admittedEntry t c] } := by
        obtain ⟨st₂, heq, hrecord⟩ := halike.recordPass (c := c)
        obtain ⟨st₁, rfl, -⟩ := halike
        exact ⟨st₂, by rw [heq], hrecord⟩
      -- whether the parameter slot divides by zero depends on the metrics alone
      have hmetrics : w₁'.metricMap = w₁.metricMap := by
        obtain ⟨st₁, rfl, -⟩ := halike
        rfl
      cases res with
      | blocked reason => exact .some ⟨halike.recordBlock reason, rfl⟩
      | _ =>
        dsimp only
        rw [hmetrics]
        split_ifs
        · exact .none
        · exact .some ⟨hpass, rfl⟩

/-- The exit run of the chain leaves one entry object. -/
theorem chainExit_agree (h : Alike t w w') (count : ℤ) (params : List Param.AnyVal) (e : Entry) :
    Alike t (chainExit t count params globalSlotChain (w, e)).1
        (chainExit t count params globalSlotChain (w', e)).1 ∧
      (chainExit t count params globalSlotChain (w, e)).2 =
        (chainExit t count params globalSlotChain (w', e)).2 := by
  have hslots : ∀ w : World, chainExit t count params globalSlotChain (w, e) =
      completeStatSlotExit t count params (statisticSlotExit t count params (w, e)) := fun _ => rfl
  -- the statistic slot records the completion on the nodes, the slot after it only reads the entry
  obtain ⟨hworld, hentry⟩ : Alike t (statisticSlotExit t count params (w, e)).1
        (statisticSlotExit t count params (w', e)).1 ∧
      (statisticSlotExit t count params (w, e)).2 = (statisticSlotExit t count params (w', e)).2 := by
    obtain ⟨st', rfl, halike⟩ := h
    unfold statisticSlotExit
    dsimp only
    cases e.curNode with
    | none => exact ⟨⟨_, rfl, halike⟩, rfl⟩
    | some node =>
      dsimp only
      split_ifs
      · exact ⟨⟨_, rfl, halike⟩, rfl⟩
      · exact ⟨⟨_, rfl, recordFor_alike (recordFor_alike (recordFor_alike halike _ _) _ _) _ _⟩, rfl⟩
  rw [hslots, hslots]
  generalize statisticSlotExit t count params (w, e) = r at hworld hentry ⊢
  generalize statisticSlotExit t count params (w', e) = r' at hworld hentry ⊢
  obtain ⟨w₁, e₁⟩ := r
  obtain ⟨w₁', e₁'⟩ := r'
  obtain rfl : e₁ = e₁' := hentry
  obtain ⟨st', rfl, halike⟩ : Alike t w₁ w₁' := hworld
  unfold completeStatSlotExit
  dsimp only
  split_ifs <;> exact ⟨⟨_, rfl, halike⟩, rfl⟩

theorem exit (h : Alike t w w') (result : Option ℕ) (count : ℤ) :
    AgreeStep t (w.exit t result count) (w'.exit t result count) := by
  have hentries : w'.entries = w.entries := by
    obtain ⟨st', rfl, -⟩ := h
    rfl
  unfold World.exit
  cases result with
  | none => exact .some ⟨h, rfl⟩
  | some id =>
    dsimp only
    rw [hentries]
    cases w.entries[id]? with
    | none => exact .none
    | some e =>
      dsimp only
      split_ifs
      · exact .some ⟨h, rfl⟩
      · obtain ⟨⟨st', heq, halike⟩, hentry⟩ := h.chainExit_agree count e.params e
        refine .some ⟨⟨st', ?_, halike⟩, rfl⟩
        dsimp only
        rw [heq, hentry]

theorem trace (h : Alike t w w') (result : Option ℕ) (count : ℤ) :
    AgreeStep t (w.trace t result count) (w'.trace t result count) := by
  obtain ⟨st', rfl, halike⟩ := h
  unfold World.trace
  cases result with
  | none => exact .some ⟨⟨_, rfl, halike⟩, rfl⟩
  | some id =>
    dsimp only
    cases w.entries[id]? with
    | none => exact .none
    | some e =>
      dsimp only
      split_ifs
      · exact .some ⟨⟨_, rfl, halike⟩, rfl⟩
      · exact .some ⟨⟨_, rfl, recordFor_alike halike _ _⟩, rfl⟩

theorem setError (h : Alike t w w') (result : Option ℕ) (err : String) :
    AgreeStep t (w.setError result err) (w'.setError result err) := by
  obtain ⟨st', rfl, halike⟩ := h
  unfold World.setError
  cases result with
  | none => exact .some ⟨⟨_, rfl, halike⟩, rfl⟩
  | some id =>
    dsimp only
    cases w.entries[id]? with
    | none => exact .none
    | some e => exact .some ⟨⟨_, rfl, halike⟩, rfl⟩

end World.Alike

theorem resetClusterNodes_alike (h : st.Alike t st') {c : StatConfig} (hc : c.Valid) :
    (st.resetClusterNodes c).Alike t (st'.resetClusterNodes c) := by
  refine ⟨fun ref => ?_, fun r => ?_⟩
  · rw [node?_resetClusterNodes, node?_resetClusterNodes]
    cases ref with
    | cluster r =>
      have hrel := h.nodes (.cluster r)
      dsimp only
      generalize st.node? (.cluster r) = o at hrel ⊢
      generalize st'.node? (.cluster r) = o' at hrel ⊢
      cases hrel with
      | none => exact .none
      | some hrel => exact .some (hrel.reset hc)
    | tag r g => exact h.nodes (.tag r g)
    | entryNode => exact h.nodes .entryNode
  · have htags := h.tagKeys r
    simp only [ResourceNodeStorage.getClusterNode] at htags ⊢
    simp only [ResourceNodeStorage.resetClusterNodes, Assoc.find?_mapValues, Option.map_map]
    exact htags

theorem World.Alike.setConfig {w w' : World} (h : Alike t w w') {r : StatConfig × Bool}
    (hr : r.1.Valid) : Alike t (w.setConfig r) (w'.setConfig r) := by
  obtain ⟨st', rfl, halike⟩ := h
  unfold World.setConfig
  split_ifs
  · exact ⟨_, rfl, resetClusterNodes_alike halike hr⟩
  · exact ⟨_, rfl, halike⟩

/-- **A call on alike states** comes back the same and leaves alike states. -/
theorem World.Alike.step {w w' : World} (env : Env) {now : ℕ} (h : Alike now w w') (hc : w.config.Valid)
    (hle : now ≤ t) (op : Op) : AgreeStep t (World.step env w (t, op)) (World.step env w' (t, op)) := by
  have ht := h.later hle
  have hconfig : w'.config = w.config := by
    obtain ⟨st', rfl, -⟩ := h
    rfl
  unfold World.step
  -- the calls that touch no node change two alike states in the same way
  cases op with
  | entry c => exact ht.entry hc
  | exit result count => exact ht.exit result count
  | setError result err => exact ht.setError result err
  | trace result count => exact ht.trace result count
  | updateSampleCount n =>
    dsimp only
    rw [hconfig]
    exact .some ⟨ht.setConfig (hc.updateSampleCount n), rfl⟩
  | updateInterval ms =>
    dsimp only
    rw [hconfig]
    exact .some ⟨ht.setConfig (hc.updateInterval ms), rfl⟩
  | _ =>
    obtain ⟨st', rfl, halike⟩ := ht
    exact .some ⟨⟨_, rfl, halike⟩, rfl⟩

end SentinelCpp
