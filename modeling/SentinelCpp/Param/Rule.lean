import SentinelCpp.Lib.Assoc
import SentinelCpp.Param.Any
import SentinelCpp.Property

/-!
# Hot-parameter rules and their manager

A `ParamFlowRule` has the settings its `operator==` compares, the key under which its statistics are
stored and the parsed exception items.  The setters keep the key in step with the settings, but a new
key has cache size 0 while the rule's own default is 200.  Rules are values here: the key and the
parsed items, which copies of a rule share through a pointer, belong to the rule.
-/

namespace SentinelCpp.Param

open SentinelCpp.Lib SentinelCpp.Property

inductive ParamFlowMetricType
  | kThreadCount
  | kQps
  | kNum
  deriving DecidableEq, Repr

def ParamFlowMetricType.toInt : ParamFlowMetricType → ℤ
  | kThreadCount => 0
  | kQps => 1
  | kNum => 2

inductive ParamItemType
  | kString
  | kInt32
  | kInt64
  | kNum
  deriving DecidableEq, Repr

/-- `ParamFlowItem`; `paramValue` is `none` for an `any` without a value. -/
structure ParamFlowItem where
  paramType : ParamItemType
  paramValue : Option AnyVal
  threshold : ℚ := -1
  deriving DecidableEq

/-- `ParamFlowItem::operator==`; an `any` without a value equals nothing. -/
instance : BEq ParamFlowItem where
  beq a b :=
    a.paramType = b.paramType &&
      (match a.paramValue, b.paramValue with
        | some x, some y => x.equal y
        | _, _ => false) &&
      a.threshold = b.threshold

/-- `ParamLeapArrayKey`. -/
structure ParamLeapArrayKey where
  paramIdx : ℤ := -1
  intervalInMs : ℤ := 1000
  sampleCount : ℤ := 1
  cacheSize : ℤ := 0
  deriving DecidableEq

/-- The fields of `ParamFlowRule` that `operator==` compares. -/
structure ParamFlowSettings where
  resource : String := ""
  paramIdx : ℤ := -1
  metricType : ParamFlowMetricType := .kQps
  threshold : ℚ := 0
  intervalInMs : ℤ := 1000
  sampleCount : ℤ := 1
  cacheSize : ℤ := 200
  specificItemList : List ParamFlowItem := []
  clusterMode : Bool := false
  deriving DecidableEq

/-- `HotItemsMap`. -/
abbrev HotItemsMap := List (AnyVal × ℚ)

structure ParamFlowRule extends ParamFlowSettings where
  metricKey : ParamLeapArrayKey := {}
  parsedHotItems : HotItemsMap := []
  deriving DecidableEq

namespace ParamFlowRule

def setResource (r : ParamFlowRule) (resource : String) : ParamFlowRule := { r with resource }

def setMetricType (r : ParamFlowRule) (metricType : ParamFlowMetricType) : ParamFlowRule :=
  { r with metricType }

def setThreshold (r : ParamFlowRule) (threshold : ℚ) : ParamFlowRule := { r with threshold }

def setParamIdx (r : ParamFlowRule) (index : ℤ) : ParamFlowRule :=
  { r with paramIdx := index, metricKey := { r.metricKey with paramIdx := index } }

def setCacheSize (r : ParamFlowRule) (cacheSize : ℤ) : ParamFlowRule :=
  { r with cacheSize, metricKey := { r.metricKey with cacheSize } }

def setSampleCount (r : ParamFlowRule) (sampleCount : ℤ) : ParamFlowRule :=
  { r with sampleCount, metricKey := { r.metricKey with sampleCount } }

def setIntervalInMs (r : ParamFlowRule) (interval : ℤ) : ParamFlowRule :=
  { r with intervalInMs := interval, metricKey := { r.metricKey with intervalInMs := interval } }

def setClusterMode (r : ParamFlowRule) (clusterMode : Bool) : ParamFlowRule := { r with clusterMode }

def setParamFlowItemList (r : ParamFlowRule) (list : List ParamFlowItem) : ParamFlowRule :=
  { r with specificItemList := list }

/-- `ParamFlowRule::operator==`. -/
instance : BEq ParamFlowRule where
  beq a b :=
    a.resource = b.resource && a.paramIdx = b.paramIdx && a.metricType = b.metricType &&
      a.threshold = b.threshold && a.intervalInMs = b.intervalInMs &&
      a.sampleCount = b.sampleCount && a.cacheSize = b.cacheSize &&
      a.clusterMode = b.clusterMode && a.specificItemList == b.specificItemList

/-- `parsed_hot_items_->find(param)`. -/
def findHotItem (items : HotItemsMap) (param : AnyVal) : Option ℚ :=
  (items.find? fun p => p.1.equal param).map Prod.snd

/-- `FillExceptionFlowItems()`: `insert` keeps the item that is already there. -/
def fillExceptionFlowItems (r : ParamFlowRule) : ParamFlowRule :=
  { r with
    parsedHotItems := r.specificItemList.foldl (fun items item =>
      match item.paramValue with
      | none => items
      | some v =>
        match findHotItem items v with
        | some _ => items
        | none => items ++ [(v, item.threshold)]) r.parsedHotItems }

end ParamFlowRule

/-- `IsValidRule`. -/
def isValidRule (rule : ParamFlowRule) : Bool :=
  let isOK := decide (rule.metricType.toInt ≥ 0 ∧
    rule.metricType.toInt < ParamFlowMetricType.kNum.toInt)
  let isOK := isOK && decide (rule.threshold ≥ 0 ∧ rule.paramIdx ≥ 0 ∧ rule.cacheSize > 0 ∧
    rule.sampleCount > 0 ∧ rule.intervalInMs > 0)
  -- `param_type() > kNum` holds of no item
  isOK && rule.specificItemList.all fun item =>
    !(decide (item.threshold < 0) || item.paramValue.isNone)

abbrev ParamFlowRuleMap := Assoc String (List ParamFlowRule)

/-- `AggregatedHotParamRules(list)`; the copy that is stored shares its exception items with the rule
they are filled into. -/
def aggregatedHotParamRules (list : List ParamFlowRule) : ParamFlowRuleMap :=
  Assoc.groupBy (fun r => r.resource)
    ((list.filter fun rule => isValidRule rule).map ParamFlowRule.fillExceptionFlowItems)

/-- `ParamPropertyListener::ConfigUpdate`; `rule_map_` is null until the first one. -/
def configUpdate (_ : Option ParamFlowRuleMap) (value : List ParamFlowRule) :
    Option ParamFlowRuleMap :=
  some (aggregatedHotParamRules value)

/-- `ParamFlowRuleManager` with its property listener. -/
def managerKind : ManagerKind ParamFlowRule (Option ParamFlowRuleMap) where
  listenerName := "ParamPropertyListener"
  initial := none
  configUpdate := configUpdate

/-- The rules in force for a resource, with their metric keys and exception items; a null map has none. -/
def inForce (m : Option ParamFlowRuleMap) (resource : String) : List ParamFlowRule :=
  ((m.getD []).find? resource).getD []

theorem enforces : RuleManager.Enforces managerKind (fun _ => True) inForce
    (fun l => inForce (configUpdate none l)) :=
  .of_forgets rfl fun _ _ => rfl

end SentinelCpp.Param
