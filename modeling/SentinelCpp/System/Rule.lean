import SentinelCpp.Lib.Assoc
import SentinelCpp.Property

/-!
# System rules and their manager

`ConfigUpdate` keeps, for each metric type, the valid rule with the smallest threshold.
-/

namespace SentinelCpp.System

open SentinelCpp.Lib SentinelCpp.Property

inductive MetricType
  | kSystemLoad
  | kRt
  | kConcurrency
  | kQps
  | kCpuUsage
  deriving DecidableEq, Repr

structure SystemRule where
  metricType : MetricType
  threshold : ℚ
  deriving DecidableEq

/-- `SystemRule::operator==`. -/
instance : BEq SystemRule where
  beq a b := a.metricType = b.metricType && a.threshold = b.threshold

/-- `IsValidRule`. -/
def isValidRule (rule : SystemRule) : Bool :=
  match rule.metricType with
  | .kCpuUsage => decide (rule.threshold ≥ 0 ∧ rule.threshold ≤ 1)
  | _ => decide (rule.threshold ≥ 0)

abbrev SystemRuleMap := Assoc MetricType SystemRule

/-- One round of the loop of `ConfigUpdate`: add the rule, or keep the stricter threshold. -/
def addRule (m : SystemRuleMap) (rule : SystemRule) : SystemRuleMap :=
  if isValidRule rule then
    match m.find? rule.metricType with
    | none => m ++ [(rule.metricType, rule)]
    | some old =>
      if rule.threshold < old.threshold then
        m.modify rule.metricType fun r => { r with threshold := rule.threshold }
      else m
  else m

/-- `SystemPropertyListener::ConfigUpdate`; `rule_map_` is null until the first one. -/
def configUpdate (_ : Option SystemRuleMap) (values : List SystemRule) : Option SystemRuleMap :=
  some (values.foldl addRule [])

/-- `SystemRuleManager` with its property listener. -/
def managerKind : ManagerKind SystemRule (Option SystemRuleMap) where
  listenerName := "SystemPropertyListener"
  initial := none
  configUpdate := configUpdate

/-- The rule in force for each metric type; a null map has none. -/
def inForce (m : Option SystemRuleMap) (type : MetricType) : Option SystemRule :=
  (m.getD []).find? type

theorem enforces : RuleManager.Enforces managerKind (fun _ => True) inForce
    (fun l => inForce (configUpdate none l)) :=
  .of_forgets rfl fun _ _ => rfl

end SentinelCpp.System
