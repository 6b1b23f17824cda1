import SentinelCpp.Flow.Rule
import SentinelCpp.Stat.Node

/-!
# The flow slot

Each rule of the resource selects a node (the resource's, the caller's tag node or another
resource's) and compares its traffic with the rule's count.  The slot reads nodes and changes nothing
else.
-/

namespace SentinelCpp.Flow

open SentinelCpp.Lib SentinelCpp.Stat

/-- `DefaultTrafficShapingCalculator::CalculateAllowedTokens`. -/
def DefaultTrafficShapingCalculator.calculateAllowedTokens (c : DefaultTrafficShapingCalculator) : ℚ :=
  c.threshold

/-- `DefaultTrafficShapingChecker::DoCheck` on the node a pointer points to. -/
def DefaultTrafficShapingChecker.doCheck (c : DefaultTrafficShapingChecker) (t : ℕ) (node : NodeRef)
    (acquireCount : ℤ) (threshold : ℚ) (st : ResourceNodeStorage) :
    ResourceNodeStorage × TokenResult :=
  let r : ResourceNodeStorage × ℚ :=
    match st.node? node with
    | none => (st, 0)
    | some n =>
      match c.mode with
      | .kThreadCount => (st, n.curThreadNum.toNat)
      | .kQps => (st.modifyNode node fun n => (n.passQps t).1, (n.passQps t).2)
  if r.2 + acquireCount > threshold then (r.1, .blocked "FlowException") else (r.1, .ok)

/-- `TrafficShapingController::CanPass`. -/
def TrafficShapingController.canPass (c : TrafficShapingController) (t : ℕ) (node : NodeRef)
    (acquireCount : ℤ) (st : ResourceNodeStorage) : ResourceNodeStorage × TokenResult :=
  c.actionChecker.doCheck t node acquireCount c.calculator.calculateAllowedTokens st

/-- `IsValidTag(tag)`. -/
def isValidTag (tag : String) : Bool :=
  tag ≠ "" && tag ≠ Constants.kLimitOriginDefault && tag ≠ Constants.kLimitOriginOther

/-- `SelectNodeByRelStrategy`. -/
def selectNodeByRelStrategy (st : ResourceNodeStorage) (rule : FlowRule)
    (node : Option NodeRef) : Option NodeRef :=
  if rule.refResource ≠ "" ∧ rule.strategy = .kAssociatedResource then
    (st.getClusterNode rule.refResource).map fun _ => .cluster rule.refResource
  else node

/-- `selectNodeByRequesterAndStrategy`, with the tag and the tag node of the entry's context. -/
def selectNodeByRequesterAndStrategy (m : FlowMaps) (st : ResourceNodeStorage) (rule : FlowRule)
    (tag : String) (tagNode node : Option NodeRef) : Option NodeRef :=
  if tag = rule.limitOrigin ∧ isValidTag tag then
    if rule.strategy = .kDirect then tagNode else selectNodeByRelStrategy st rule node
  else if rule.limitOrigin = Constants.kLimitOriginDefault then
    if rule.strategy = .kDirect then node else selectNodeByRelStrategy st rule node
  else if rule.limitOrigin = Constants.kLimitOriginOther ∧
      m.isTagNotInFlowRuleList rule.resource tag then
    if rule.strategy = .kDirect then tagNode else selectNodeByRelStrategy st rule node
  else none

/-- `FlowRuleChecker::PassLocalCheck`. -/
def passLocalCheck (t : ℕ) (m : FlowMaps) (rule : FlowRule) (tag : String)
    (tagNode node : Option NodeRef) (count : ℤ) (st : ResourceNodeStorage) :
    ResourceNodeStorage × TokenResult :=
  match selectNodeByRequesterAndStrategy m st rule tag tagNode node with
  | none => (st, .ok)
  | some selectedNode =>
    match m.getTrafficControllerFor rule with
    | none => (st, .ok)
    | some controller => controller.canPass t selectedNode count st

/-- `FlowRuleChecker::CanPassCheck`. -/
def canPassCheck (t : ℕ) (m : FlowMaps) (rule : FlowRule) (tag : String)
    (tagNode node : Option NodeRef) (count : ℤ) (st : ResourceNodeStorage) :
    ResourceNodeStorage × TokenResult :=
  if rule.limitOrigin = "" then (st, .ok)
  else passLocalCheck t m rule tag tagNode node count st

/-- The loop of `FlowSlot::Entry`; waiting for a `SHOULD_WAIT` result changes nothing here. -/
def checkRules (t : ℕ) (m : FlowMaps) (tag : String) (tagNode node : Option NodeRef) (count : ℤ) :
    List FlowRule → ResourceNodeStorage → ResourceNodeStorage × TokenResult
  | [], st => (st, .ok)
  | rule :: rules, st =>
    match canPassCheck t m rule tag tagNode node count st with
    | (st, .blocked reason) => (st, .blocked reason)
    | (st, _) => checkRules t m tag tagNode node count rules st

/-- `FlowSlot::Entry`. -/
def flowEntry (t : ℕ) (m : FlowMaps) (resource tag : String) (tagNode node : Option NodeRef)
    (count : ℤ) (st : ResourceNodeStorage) : ResourceNodeStorage × TokenResult :=
  checkRules t m tag tagNode node count (m.getRulesForResource resource) st

/-! ### The slot only reads -/

theorem doCheck_spec (c : DefaultTrafficShapingChecker) (t : ℕ) (node : NodeRef) (count : ℤ)
    (threshold : ℚ) (st : ResourceNodeStorage) :
    st.ReadAt t (c.doCheck t node count threshold st).1 ∧
      ((c.doCheck t node count threshold st).2 = .ok ∨
        (c.doCheck t node count threshold st).2 = .blocked "FlowException") := by
  unfold DefaultTrafficShapingChecker.doCheck
  dsimp only
  constructor
  -- the verdict does not touch the storage; only `PassQps` does, by refreshing a window
  · have hread : ∀ r : ResourceNodeStorage × ℚ, st.ReadAt t r.1 →
        st.ReadAt t (if r.2 + count > threshold then (r.1, TokenResult.blocked "FlowException")
          else (r.1, TokenResult.ok)).1 := by
      intro r hr
      split_ifs <;> exact hr
    refine hread _ ?_
    cases st.node? node with
    | none => exact .refl _ _
    | some n =>
      cases c.mode with
      | kThreadCount => exact .refl _ _
      | kQps => exact ResourceNodeStorage.readAt_modifyNode t st node
  · split_ifs
    · exact .inr rfl
    · exact .inl rfl

theorem canPassCheck_spec (t : ℕ) (m : FlowMaps) (rule : FlowRule) (tag : String)
    (tagNode node : Option NodeRef) (count : ℤ) (st : ResourceNodeStorage) :
    st.ReadAt t (canPassCheck t m rule tag tagNode node count st).1 ∧
      ((canPassCheck t m rule tag tagNode node count st).2 = .ok ∨
        (canPassCheck t m rule tag tagNode node count st).2 = .blocked "FlowException") := by
  unfold canPassCheck passLocalCheck
  split_ifs
  -- a rule without an origin, without a node or without a controller passes unread
  · exact ⟨.refl _ _, .inl rfl⟩
  · cases selectNodeByRequesterAndStrategy m st rule tag tagNode node with
    | none => exact ⟨.refl _ _, .inl rfl⟩
    | some selectedNode =>
      cases m.getTrafficControllerFor rule with
      | none => exact ⟨.refl _ _, .inl rfl⟩
      | some controller => exact doCheck_spec _ _ _ _ _ _

theorem checkRules_spec (t : ℕ) (m : FlowMaps) (tag : String) (tagNode node : Option NodeRef)
    (count : ℤ) (rules : List FlowRule) (st : ResourceNodeStorage) :
    st.ReadAt t (checkRules t m tag tagNode node count rules st).1 ∧
      ((checkRules t m tag tagNode node count rules st).2 = .ok ∨
        (checkRules t m tag tagNode node count rules st).2 = .blocked "FlowException") := by
  induction rules generalizing st with
  | nil => exact ⟨.refl _ _, .inl rfl⟩
  | cons rule rules ih =>
    obtain ⟨hread, hres⟩ := canPassCheck_spec t m rule tag tagNode node count st
    rw [checkRules]
    rcases heq : canPassCheck t m rule tag tagNode node count st with ⟨st', res⟩
    rw [heq] at hread hres
    rcases hres with rfl | rfl
    -- reads at one time compose, and the first block ends the loop
    · exact ⟨hread.trans (ih st').1, (ih st').2⟩
    · exact ⟨hread, .inr rfl⟩

theorem flowEntry_spec (t : ℕ) (m : FlowMaps) (resource tag : String)
    (tagNode node : Option NodeRef) (count : ℤ) (st : ResourceNodeStorage) :
    st.ReadAt t (flowEntry t m resource tag tagNode node count st).1 ∧
      ((flowEntry t m resource tag tagNode node count st).2 = .ok ∨
        (flowEntry t m resource tag tagNode node count st).2 = .blocked "FlowException") :=
  checkRules_spec _ _ _ _ _ _ _ _

/-! ### One direct rule -/

/-- A valid rule that limits the QPS of its own resource for callers of any origin. -/
structure DirectQpsRule (rule : FlowRule) : Prop where
  valid : isValidRule rule = true
  direct : rule.strategy = .kDirect
  origin : rule.limitOrigin = "" ∨ rule.limitOrigin = Constants.kLimitOriginDefault
  qps : rule.metricType = .kQps

/-- `PassQps()` of the node a pointer points to, zero before it exists. -/
def passQpsAt (st : ResourceNodeStorage) (ref : NodeRef) (t : ℕ) : ℚ :=
  ((st.node? ref).map fun n => (n.passQps t).2).getD 0

/-- What `DoCheck` compares with the threshold: the calls in progress or the rate of the node, zero
when there is no node. -/
def readingAt (st : ResourceNodeStorage) (ref : NodeRef) (t : ℕ) : FlowMetricType → ℚ
  | .kThreadCount => ((st.node? ref).map fun n => (n.curThreadNum.toNat : ℚ)).getD 0
  | .kQps => passQpsAt st ref t

theorem doCheck_ok_iff (c : DefaultTrafficShapingChecker) (t : ℕ) (ref : NodeRef) (count : ℤ)
    (threshold : ℚ) (st : ResourceNodeStorage) :
    (c.doCheck t ref count threshold st).2 = .ok ↔ readingAt st ref t c.mode + count ≤ threshold := by
  obtain ⟨mode⟩ := c
  unfold DefaultTrafficShapingChecker.doCheck
  dsimp only
  have hif : ∀ r : ResourceNodeStorage × ℚ,
      (if r.2 + count > threshold then (r.1, TokenResult.blocked "FlowException")
        else (r.1, TokenResult.ok)).2 = .ok ↔ r.2 + count ≤ threshold := by
    intro r
    split_ifs with h
    · simpa using h
    · simpa using h
  rw [hif]
  -- what is compared is read before the window is refreshed
  cases mode with
  | kThreadCount =>
    rw [readingAt]
    cases st.node? ref <;> rfl
  | kQps =>
    rw [readingAt, passQpsAt]
    cases st.node? ref <;> rfl

/-- A valid rule that limits its own resource for callers of any origin. -/
structure DirectRule (rule : FlowRule) : Prop where
  valid : isValidRule rule = true
  direct : rule.strategy = .kDirect
  origin : rule.limitOrigin = "" ∨ rule.limitOrigin = Constants.kLimitOriginDefault

theorem DirectQpsRule.directRule {rule : FlowRule} (h : DirectQpsRule rule) : DirectRule rule :=
  ⟨h.valid, h.direct, h.origin⟩

@[simp] theorem normalizeRule_count (rule : FlowRule) :
    (normalizeRule rule).count = rule.count := by
  unfold normalizeRule
  split_ifs <;> rfl

@[simp] theorem normalizeRule_metricType (rule : FlowRule) :
    (normalizeRule rule).metricType = rule.metricType := by
  unfold normalizeRule
  split_ifs <;> rfl

@[simp] theorem normalizeRule_strategy (rule : FlowRule) :
    (normalizeRule rule).strategy = rule.strategy := by
  unfold normalizeRule
  split_ifs <;> rfl

theorem DirectRule.normalizeRule_limitOrigin {rule : FlowRule} (h : DirectRule rule) :
    (normalizeRule rule).limitOrigin = Constants.kLimitOriginDefault := by
  unfold normalizeRule
  rcases h.origin with h | h
  · rw [if_pos h]
  · rw [if_neg (by rw [h]; decide), h]

/-- **The check of a protected resource**: what its node reads now plus the weight of the call. -/
theorem flowEntry_ok_iff {m : FlowMaps} {rule : FlowRule} (hrule : DirectRule rule)
    (hrules : m.getRulesForResource rule.resource = [normalizeRule rule])
    (hcontroller : m.getTrafficControllerFor (normalizeRule rule) =
      some (createDefaultController (normalizeRule rule)))
    (t : ℕ) (tag : String) (tagNode : Option NodeRef) (ref : NodeRef) (count : ℤ)
    (st : ResourceNodeStorage) :
    (flowEntry t m rule.resource tag tagNode (some ref) count st).2 = .ok ↔
      readingAt st ref t rule.metricType + count ≤ rule.count := by
  have horigin := hrule.normalizeRule_limitOrigin
  -- the origin `default` is no valid tag, so the node of the resource is the one selected
  have hnode : selectNodeByRequesterAndStrategy m st (normalizeRule rule) tag tagNode (some ref) =
      some ref := by
    unfold selectNodeByRequesterAndStrategy
    have htag : ¬ (tag = (normalizeRule rule).limitOrigin ∧ isValidTag tag = true) := by
      rw [horigin]
      rintro ⟨rfl, hvalid⟩
      exact absurd hvalid (by decide)
    rw [if_neg htag, if_pos horigin, if_pos (by rw [normalizeRule_strategy, hrule.direct])]
  have hpass : canPassCheck t m (normalizeRule rule) tag tagNode (some ref) count st =
      (createDefaultController (normalizeRule rule)).canPass t ref count st := by
    unfold canPassCheck passLocalCheck
    rw [if_neg (by rw [horigin]; decide), hnode, hcontroller]
  -- the loop has this rule only, so its verdict is the verdict
  have hres : (flowEntry t m rule.resource tag tagNode (some ref) count st).2 =
      ((createDefaultController (normalizeRule rule)).canPass t ref count st).2 := by
    rw [flowEntry, hrules, checkRules, hpass]
    rcases (doCheck_spec (createDefaultController (normalizeRule rule)).actionChecker t ref count
      rule.count st).2 with h | h
    all_goals
      simp only [TrafficShapingController.canPass, createDefaultController,
        DefaultTrafficShapingCalculator.calculateAllowedTokens, normalizeRule_count] at h ⊢
      generalize DefaultTrafficShapingChecker.doCheck _ t ref count rule.count st = r at h
      obtain ⟨st', res⟩ := r
      subst h
      rfl
  rw [hres, TrafficShapingController.canPass, doCheck_ok_iff]
  simp only [createDefaultController, normalizeRule_count, normalizeRule_metricType,
    DefaultTrafficShapingCalculator.calculateAllowedTokens]

/-- The same for a limit on the rate. -/
theorem flowEntry_direct {m : FlowMaps} {rule : FlowRule} (hrule : DirectQpsRule rule)
    (hrules : m.getRulesForResource rule.resource = [normalizeRule rule])
    (hcontroller : m.getTrafficControllerFor (normalizeRule rule) =
      some (createDefaultController (normalizeRule rule)))
    (t : ℕ) (tag : String) (tagNode : Option NodeRef) (ref : NodeRef) (count : ℤ)
    (st : ResourceNodeStorage) :
    (flowEntry t m rule.resource tag tagNode (some ref) count st).2 = .ok ↔
      passQpsAt st ref t + count ≤ rule.count := by
  rw [flowEntry_ok_iff hrule.directRule hrules hcontroller, hrule.qps]
  rfl

end SentinelCpp.Flow
