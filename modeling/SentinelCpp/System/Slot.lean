import SentinelCpp.Stat.Node
import SentinelCpp.System.Rule

/-!
# The system slot

`SystemSlot` compares inbound traffic, load and processor usage with the system rules, in the
iteration order of the rule map.  It reads the global entry node and changes nothing else.
-/

namespace SentinelCpp.System

open SentinelCpp.Lib SentinelCpp.Stat

/-- What `SystemStatusListener` last measured; -1 before the first measurement. -/
structure SystemStatus where
  curLoad : ℚ := -1
  curCpuUsage : ℚ := -1
  deriving DecidableEq

/-- `CheckBbr(concurrency, node)`. -/
def checkBbr (t : ℕ) (concurrency : ℚ) (node : StatisticNode) : StatisticNode × Bool :=
  if concurrency > 1 then
    let maxComplete := node.maxCompleteQps t
    let minRt := maxComplete.1.minRt t
    (minRt.1, !decide (concurrency > maxComplete.2 * minRt.2 / 1000))
  else (node, true)

/-- One round of the loop of `CheckSystem`: the node after its reads, and whether the rule passes. -/
def checkRule (t : ℕ) (status : SystemStatus) (acquireCount : ℤ) (node : StatisticNode)
    (type : MetricType) (rule : SystemRule) : StatisticNode × Bool :=
  let concurrency : ℚ := node.curThreadNum.toNat
  match type with
  | .kQps =>
    let curQps := node.passQps t
    (curQps.1, !decide (curQps.2 + acquireCount > rule.threshold))
  | .kConcurrency => (node, !decide (concurrency + acquireCount > rule.threshold))
  | .kRt =>
    let rt := node.avgRt t
    (rt.1, !decide (rt.2 > rule.threshold))
  | .kSystemLoad =>
    if status.curLoad > rule.threshold then checkBbr t concurrency node else (node, true)
  | .kCpuUsage =>
    if status.curCpuUsage > rule.threshold then checkBbr t concurrency node else (node, true)

/-- `CheckSystem`: the rules in order, until one fails. -/
def checkSystem (t : ℕ) (status : SystemStatus) (acquireCount : ℤ) :
    List (MetricType × SystemRule) → StatisticNode → StatisticNode × TokenResult
  | [], node => (node, .ok)
  | (type, rule) :: rules, node =>
    match checkRule t status acquireCount node type rule with
    | (node, true) => checkSystem t status acquireCount rules node
    | (node, false) => (node, .blocked "SystemException")

/-- `SystemSlot::Entry`. -/
def systemEntry (mapOrder : IterationOrder (MetricType × SystemRule)) (t : ℕ)
    (status : SystemStatus) (ruleMap : Option SystemRuleMap) (entryType : EntryType) (count : ℤ)
    (st : ResourceNodeStorage) : ResourceNodeStorage × TokenResult :=
  if entryType = .IN then
    match ruleMap with
    | none => (st, .ok)
    | some ruleMap =>
      if ruleMap.length > 0 then
        let r := checkSystem t status count (mapOrder.order ruleMap) st.entryNode
        ({ st with entryNode := r.1 }, r.2)
      else (st, .ok)
  else (st, .ok)

/-! ### The slot only reads -/

theorem checkBbr_readAt (t : ℕ) (concurrency : ℚ) (node : StatisticNode) :
    node.ReadAt t (checkBbr t concurrency node).1 := by
  unfold checkBbr
  split_ifs
  · right
    simp
  · exact .inl rfl

theorem checkRule_readAt (t : ℕ) (status : SystemStatus) (count : ℤ) (node : StatisticNode)
    (type : MetricType) (rule : SystemRule) :
    node.ReadAt t (checkRule t status count node type rule).1 := by
  unfold checkRule
  cases type with
  | kQps => exact .inr rfl
  | kConcurrency => exact .inl rfl
  | kRt => exact .inr (node.avgRt_fst t)
  | kSystemLoad =>
    dsimp only
    split_ifs
    · exact checkBbr_readAt _ _ _
    · exact .inl rfl
  | kCpuUsage =>
    dsimp only
    split_ifs
    · exact checkBbr_readAt _ _ _
    · exact .inl rfl

/-- The node has been read at most, and the only rejection is the slot's own. -/
theorem checkSystem_spec (t : ℕ) (status : SystemStatus) (count : ℤ)
    (rules : List (MetricType × SystemRule)) (node : StatisticNode) :
    node.ReadAt t (checkSystem t status count rules node).1 ∧
      ((checkSystem t status count rules node).2 = .ok ∨
        (checkSystem t status count rules node).2 = .blocked "SystemException") := by
  induction rules generalizing node with
  | nil => exact ⟨.inl rfl, .inl rfl⟩
  | cons p rules ih =>
    obtain ⟨type, rule⟩ := p
    have hread := checkRule_readAt t status count node type rule
    rw [checkSystem]
    rcases hres : checkRule t status count node type rule with ⟨node', _ | _⟩
    · rw [hres] at hread
      exact ⟨hread, .inr rfl⟩
    · rw [hres] at hread
      exact ⟨hread.trans (ih node').1, (ih node').2⟩

theorem readAt_entryNode (st : ResourceNodeStorage) {t : ℕ} {node : StatisticNode}
    (h : st.entryNode.ReadAt t node) :
    ResourceNodeStorage.ReadAt t st { st with entryNode := node } := by
  rcases h with rfl | rfl
  · exact .refl _ _
  · exact ResourceNodeStorage.readAt_modifyNode t st .entryNode

theorem systemEntry_spec (mapOrder : IterationOrder (MetricType × SystemRule)) (t : ℕ)
    (status : SystemStatus) (ruleMap : Option SystemRuleMap) (entryType : EntryType) (count : ℤ)
    (st : ResourceNodeStorage) :
    st.ReadAt t (systemEntry mapOrder t status ruleMap entryType count st).1 ∧
      ((systemEntry mapOrder t status ruleMap entryType count st).2 = .ok ∨
        (systemEntry mapOrder t status ruleMap entryType count st).2 =
          .blocked "SystemException") := by
  unfold systemEntry
  split_ifs with hIN
  · cases ruleMap with
    | none => exact ⟨.refl _ _, .inl rfl⟩
    | some ruleMap =>
      dsimp only
      split_ifs
      · obtain ⟨h1, h2⟩ := checkSystem_spec t status count (mapOrder.order ruleMap) st.entryNode
        exact ⟨readAt_entryNode st h1, h2⟩
      · exact ⟨.refl _ _, .inl rfl⟩
  · exact ⟨.refl _ _, .inl rfl⟩

end SentinelCpp.System
