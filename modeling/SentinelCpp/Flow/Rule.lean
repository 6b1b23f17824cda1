import SentinelCpp.Lib.Assoc
import SentinelCpp.Property
import Mathlib.Data.List.Induction

/-!
# Flow rules and their manager

`ConfigUpdate` drops the invalid rules, writes an empty origin as `"default"`, collects the rest in a
hash set and splits the set, in its iteration order, into the rules of each resource and one traffic
controller per rule.  Every control behaviour gets the default controller: the warm-up and throttling
branches of `GenerateController` fall through to it.
-/

namespace SentinelCpp.Flow

open SentinelCpp.Lib SentinelCpp.Property

inductive FlowMetricType
  | kThreadCount
  | kQps
  deriving DecidableEq, Repr

inductive FlowRelationStrategy
  | kDirect
  | kAssociatedResource
  | kInvocationChainEntrance
  deriving DecidableEq, Repr

inductive FlowControlBehavior
  | kReject
  | kWarmUp
  | kThrotting
  | kWarmUpThrottling
  deriving DecidableEq, Repr

structure FlowRule where
  resource : String := ""
  limitOrigin : String := Constants.kLimitOriginDefault
  metricType : FlowMetricType := .kQps
  count : ℚ := 0
  strategy : FlowRelationStrategy := .kDirect
  controlBehavior : FlowControlBehavior := .kReject
  refResource : String := ""
  warmUpPeriodSec : ℤ := 10
  maxQueueingTimeMs : ℤ := 500
  clusterMode : Bool := false
  deriving DecidableEq

/-- `Rule::LimitOriginEquals`: the empty origin and `"default"` are the same. -/
def limitOriginEquals (lhs rhs : String) : Bool :=
  if lhs = "" then rhs = "" || rhs = Constants.kLimitOriginDefault
  else if lhs = Constants.kLimitOriginDefault then
    rhs = "" || rhs = Constants.kLimitOriginDefault
  else lhs = rhs

/-- `FlowRule::operator==`. -/
instance : BEq FlowRule where
  beq a b :=
    a.resource = b.resource && limitOriginEquals a.limitOrigin b.limitOrigin &&
      a.metricType = b.metricType && a.count = b.count && a.strategy = b.strategy &&
      a.refResource = b.refResource && a.controlBehavior = b.controlBehavior &&
      a.warmUpPeriodSec = b.warmUpPeriodSec && a.maxQueueingTimeMs = b.maxQueueingTimeMs &&
      a.clusterMode = b.clusterMode

/-- `std::hash` on the types a rule is made of. -/
structure StdHash where
  string : String → UInt64
  double : ℚ → UInt64
  bool : Bool → UInt64

/-- `FlowRuleHash`; arithmetic on `size_t` wraps around, the enumerations count from 0. -/
def flowRuleHash (h : StdHash) (rule : FlowRule) : UInt64 :=
  let result := h.string rule.resource
  let result :=
    if rule.limitOrigin ≠ "" ∧ rule.limitOrigin ≠ Constants.kLimitOriginDefault then
      31 * result + h.string rule.limitOrigin
    else result
  let result := 31 * result + (match rule.metricType with
    | .kThreadCount => 0
    | .kQps => 1)
  let result := 31 * result + h.double rule.count
  let result := 31 * result + (match rule.strategy with
    | .kDirect => 0
    | .kAssociatedResource => 1
    | .kInvocationChainEntrance => 2)
  let result := 31 * result + (match rule.controlBehavior with
    | .kReject => 0
    | .kWarmUp => 1
    | .kThrotting => 2
    | .kWarmUpThrottling => 3)
  let result := 31 * result + h.string rule.refResource
  let result := 31 * result + UInt64.ofInt rule.warmUpPeriodSec
  let result := 31 * result + UInt64.ofInt rule.maxQueueingTimeMs
  31 * result + h.bool rule.clusterMode

/-- `IsValidRule`. -/
def isValidRule (rule : FlowRule) : Bool :=
  let baseValid := rule.resource ≠ "" ∧ rule.count ≥ 0
  let rel := rule.strategy = .kAssociatedResource ∨ rule.strategy = .kInvocationChainEntrance
  let relValid := ¬ rel ∨ rule.refResource ≠ ""
  let cbValid :=
    match rule.controlBehavior with
    | .kWarmUp => decide (rule.warmUpPeriodSec > 0)
    | .kThrotting => decide (rule.maxQueueingTimeMs > 0)
    | _ => true
  decide baseValid && (decide relValid && cbValid)

/-! ### Traffic shaping controllers -/

/-- `DefaultTrafficShapingCalculator`. -/
structure DefaultTrafficShapingCalculator where
  threshold : ℚ
  deriving DecidableEq

/-- `DefaultTrafficShapingChecker`. -/
structure DefaultTrafficShapingChecker where
  mode : FlowMetricType
  deriving DecidableEq

structure TrafficShapingController where
  calculator : DefaultTrafficShapingCalculator
  actionChecker : DefaultTrafficShapingChecker
  deriving DecidableEq

def createDefaultController (rule : FlowRule) : TrafficShapingController :=
  { calculator := { threshold := rule.count }
    actionChecker := { mode := rule.metricType } }

def generateController (rule : FlowRule) : TrafficShapingController :=
  if rule.metricType = .kQps then
    match rule.controlBehavior with
    | .kWarmUp | .kThrotting | _ => createDefaultController rule
  else createDefaultController rule

@[simp] theorem generateController_eq (rule : FlowRule) :
    generateController rule = createDefaultController rule := by
  unfold generateController
  split_ifs
  · split <;> rfl
  · rfl

/-! ### The maps of the manager -/

structure FlowMaps where
  ruleMap : Assoc String (List FlowRule)
  trafficControllerMap : Assoc FlowRule TrafficShapingController

/-- The rule as it is put into the set: an empty origin becomes `"default"`. -/
def normalizeRule (rule : FlowRule) : FlowRule :=
  if rule.limitOrigin = "" then { rule with limitOrigin := Constants.kLimitOriginDefault } else rule

/-- `tmp_set`: `insert` keeps a rule out when an equal one is already there. -/
def tmpSet (value : List FlowRule) : List FlowRule :=
  value.foldl (fun set rule =>
    if isValidRule rule then
      let fRule := normalizeRule rule
      if set.any (fun r => r == fRule) then set else set ++ [fRule]
    else set) []

/-- `FlowPropertyListener::ConfigUpdate`. -/
def configUpdate (setOrder : IterationOrder FlowRule) (_ : FlowMaps) (value : List FlowRule) :
    FlowMaps :=
  if value.isEmpty then { ruleMap := [], trafficControllerMap := [] }
  else
    let rules := setOrder.order (tmpSet value)
    { ruleMap := Assoc.groupBy FlowRule.resource rules
      trafficControllerMap := rules.map fun rule => (rule, generateController rule) }

/-- `FlowRuleManager` with its property listener. -/
def managerKind (setOrder : IterationOrder FlowRule) : ManagerKind FlowRule FlowMaps where
  listenerName := "FlowPropertyListener"
  initial := { ruleMap := [], trafficControllerMap := [] }
  configUpdate := configUpdate setOrder

/-- `GetRulesForResource(resource)`. -/
def FlowMaps.getRulesForResource (m : FlowMaps) (resource : String) : List FlowRule :=
  (m.ruleMap.find? resource).getD []

/-- `GetTrafficControllerFor(rule)`: the keys are compared by `operator==`. -/
def FlowMaps.getTrafficControllerFor (m : FlowMaps) (rule : FlowRule) :
    Option TrafficShapingController :=
  (List.find? (fun p => p.1 == rule) m.trafficControllerMap).map Prod.snd

/-- `IsTagNotInFlowRuleList(resource_name, tag)`. -/
def FlowMaps.isTagNotInFlowRuleList (m : FlowMaps) (resourceName tag : String) : Bool :=
  if tag = "" then false
  else
    match m.ruleMap.find? resourceName with
    | none => true
    | some rules => !rules.any fun rule => rule.limitOrigin = tag

/-- The maps after a delivery depend on the delivered list only. -/
theorem enforces (setOrder : IterationOrder FlowRule) :
    RuleManager.Enforces (managerKind setOrder) (fun _ => True) id
      (configUpdate setOrder (managerKind setOrder).initial) :=
  .of_forgets rfl fun _ _ => rfl

@[simp] theorem normalizeRule_resource (rule : FlowRule) :
    (normalizeRule rule).resource = rule.resource := by
  unfold normalizeRule
  split <;> rfl

theorem resource_eq_of_beq {a b : FlowRule} (h : (a == b) = true) : a.resource = b.resource := by
  simp only [BEq.beq, Bool.and_eq_true, decide_eq_true_eq] at h
  tauto

/-- Equal rules have equal hashes, so `operator==` alone decides what a hash set or map of rules
holds. -/
theorem flowRuleHash_eq_of_beq (h : StdHash) {a b : FlowRule} (hab : (a == b) = true) :
    flowRuleHash h a = flowRuleHash h b := by
  simp only [BEq.beq, Bool.and_eq_true, decide_eq_true_eq] at hab
  obtain ⟨⟨⟨⟨⟨⟨⟨⟨⟨h1, h2⟩, h3⟩, h4⟩, h5⟩, h6⟩, h7⟩, h8⟩, h9⟩, h10⟩ := hab
  have horigin : a.limitOrigin = b.limitOrigin ∨
      (a.limitOrigin = "" ∨ a.limitOrigin = Constants.kLimitOriginDefault) ∧
        (b.limitOrigin = "" ∨ b.limitOrigin = Constants.kLimitOriginDefault) := by
    unfold limitOriginEquals at h2
    split_ifs at h2 with ha hd
    · exact .inr ⟨.inl ha, by simpa using h2⟩
    · exact .inr ⟨.inr hd, by simpa using h2⟩
    · exact .inl (by simpa using h2)
  rw [flowRuleHash, flowRuleHash, h1, h3, h4, h5, h6, h7, h8, h9, h10]
  rcases horigin with heq | ⟨ha, hb⟩
  · rw [heq]
  · have hna : ¬ (a.limitOrigin ≠ "" ∧ a.limitOrigin ≠ Constants.kLimitOriginDefault) := by tauto
    have hnb : ¬ (b.limitOrigin ≠ "" ∧ b.limitOrigin ≠ Constants.kLimitOriginDefault) := by tauto
    simp only [if_neg hna, if_neg hnb]

theorem beq_self (a : FlowRule) : (a == a) = true := by
  have horigin : limitOriginEquals a.limitOrigin a.limitOrigin = true := by
    unfold limitOriginEquals
    split_ifs with h1 h2 <;> simp [*]
  simp [BEq.beq, horigin]

/-! ### A resource with one rule -/

theorem tmpSet_concat (value : List FlowRule) (rule : FlowRule) : tmpSet (value ++ [rule]) =
    if isValidRule rule then
      if (tmpSet value).any (fun r => r == normalizeRule rule) then tmpSet value
      else tmpSet value ++ [normalizeRule rule]
    else tmpSet value := by
  simp [tmpSet]

/-- What the set holds for a resource that has at most one valid rule in the list. -/
theorem tmpSet_filter {value : List FlowRule} {resource : String} {rules : List FlowRule}
    (h : value.filter (fun x => isValidRule x && x.resource = resource) = rules)
    (hle : rules.length ≤ 1) :
    (tmpSet value).filter (fun x => x.resource = resource) = rules.map normalizeRule := by
  induction value using List.reverseRecOn generalizing rules with
  | nil =>
    subst h
    rfl
  | append_singleton value rule ih =>
    subst h
    rw [List.filter_append, List.length_append] at hle
    rw [List.filter_append, tmpSet_concat]
    by_cases hrule : (isValidRule rule && rule.resource = resource) = true
    · have hone : [rule].filter (fun x => isValidRule x && x.resource = resource) = [rule] := by
        simpa using hrule
      rw [hone, List.length_singleton] at hle
      have hnil := List.eq_nil_of_length_eq_zero (Nat.le_zero.mp (Nat.le_of_add_le_add_right hle))
      have hset := ih rfl (by rw [hnil]; simp)
      rw [hnil, List.map_nil, List.filter_eq_nil_iff] at hset
      have hany : (tmpSet value).any (fun r => r == normalizeRule rule) = false := by
        rw [List.any_eq_false]
        intro r hr heq
        have hres := resource_eq_of_beq heq
        simp only [Bool.and_eq_true, decide_eq_true_eq] at hrule
        rw [normalizeRule_resource, hrule.2] at hres
        exact hset r hr (by simpa using hres)
      simp only [Bool.and_eq_true, decide_eq_true_eq] at hrule
      have hfilter : (tmpSet value).filter (fun x => x.resource = resource) = [] :=
        List.filter_eq_nil_iff.mpr hset
      simp [hone, hnil, hany, hrule, hfilter]
    · have hnone : [rule].filter (fun x => isValidRule x && x.resource = resource) = [] := by
        simpa using hrule
      rw [hnone, List.length_nil, Nat.add_zero] at hle
      rw [hnone, List.append_nil, ← ih rfl hle]
      by_cases hv : isValidRule rule = true
      · have hne : rule.resource ≠ resource := by simpa [hv] using hrule
        rw [if_pos hv]
        split_ifs <;> simp [hne]
      · rw [if_neg hv]

/-- The rule is the only valid one of the list for its resource. -/
def OnlyRule (value : List FlowRule) (rule : FlowRule) : Prop :=
  value.filter (fun x => isValidRule x && x.resource = rule.resource) = [rule]

/-- A search by `operator==` finds the rule itself when no other element equals it. -/
theorem find?_beq_of_unique {l : List FlowRule} {a : FlowRule} (hmem : a ∈ l)
    (huniq : ∀ x ∈ l, (x == a) = true → x = a) : l.find? (fun x => x == a) = some a := by
  cases hf : l.find? (fun x => x == a) with
  | none =>
    have hno : ¬ (a == a) = true := List.find?_eq_none.mp hf a hmem
    exact absurd (beq_self a) hno
  | some x =>
    have hx : (x == a) = true := List.find?_some (p := fun x => x == a) hf
    rw [huniq x (List.mem_of_find?_eq_some hf) hx]

/-- **A protected resource**: it has exactly its rule, with the default controller. -/
theorem configUpdate_protected (setOrder : IterationOrder FlowRule) (m : FlowMaps)
    {value : List FlowRule} {rule : FlowRule} (h : OnlyRule value rule) :
    (configUpdate setOrder m value).getRulesForResource rule.resource = [normalizeRule rule] ∧
    (configUpdate setOrder m value).getTrafficControllerFor (normalizeRule rule) =
      some (createDefaultController (normalizeRule rule)) := by
  have hne : value.isEmpty = false := by
    cases value with
    | nil => simp [OnlyRule] at h
    | cons x value => rfl
  have hset : (setOrder.order (tmpSet value)).filter (fun x => x.resource = rule.resource) =
      [normalizeRule rule] := by
    have hperm := (setOrder.perm (tmpSet value)).filter fun x => x.resource = rule.resource
    rw [tmpSet_filter h le_rfl] at hperm
    exact hperm.eq_singleton
  simp only [configUpdate, hne, Bool.false_eq_true, if_false]
  constructor
  · rw [FlowMaps.getRulesForResource, Assoc.find?_groupBy, hset]
    rfl
  · have hmem : normalizeRule rule ∈ setOrder.order (tmpSet value) :=
      List.mem_of_mem_filter (hset ▸ List.mem_singleton.mpr rfl)
    have hfind : (setOrder.order (tmpSet value)).find? (fun x => x == normalizeRule rule) =
        some (normalizeRule rule) := by
      refine find?_beq_of_unique hmem fun x hx heq => ?_
      have hres := resource_eq_of_beq heq
      have hmem : x ∈ (setOrder.order (tmpSet value)).filter
          fun x => x.resource = rule.resource := by
        rw [List.mem_filter]
        exact ⟨hx, by simpa using hres⟩
      rwa [hset, List.mem_singleton] at hmem
    rw [FlowMaps.getTrafficControllerFor, List.find?_map, Option.map_map]
    have hcomp : ((fun p : FlowRule × TrafficShapingController => p.1 == normalizeRule rule) ∘
        fun rule => (rule, generateController rule)) = fun x => x == normalizeRule rule := rfl
    rw [hcomp, hfind]
    simp

end SentinelCpp.Flow
