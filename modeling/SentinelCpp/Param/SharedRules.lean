import SentinelCpp.Lib.Run
import SentinelCpp.Param.Rule

/-!
# Rule objects that share

A `ParamFlowRule` object holds its key and its parsed exception items through shared pointers, which a
copy copies: the copies of a rule have one key and one map of items among them.  Here the two kinds of
shared objects stand on a heap.  A method works on the rule that the object and its pointers stand for
(`deref`) and writes back through the pointers.  `LoadRules` is that of the manager, whose property drops
a list equal to the last one; the rules it stores are copies, too.
-/

namespace SentinelCpp.Param

open SentinelCpp.Lib SentinelCpp.Property

/-- A `ParamFlowRule` with pointers for what it shares. -/
structure RuleObject extends ParamFlowSettings where
  metricKey : ℕ
  parsedHotItems : ℕ
  deriving DecidableEq

/-- What the pointers lead to. -/
structure RuleHeap where
  keys : ℕ → ParamLeapArrayKey
  hotItems : ℕ → HotItemsMap

/-- The rule that the object is. -/
def RuleObject.deref (o : RuleObject) (h : RuleHeap) : ParamFlowRule :=
  ⟨o.toParamFlowSettings, h.keys o.metricKey, h.hotItems o.parsedHotItems⟩

/-- `operator==`, which compares neither keys nor parsed items. -/
instance : BEq RuleObject where
  beq a b := ParamFlowRule.mk a.toParamFlowSettings {} [] == ParamFlowRule.mk b.toParamFlowSettings {} []

/-- `IsValidRule`, which reads the settings only. -/
def RuleObject.isValid (o : RuleObject) : Bool :=
  isValidRule (ParamFlowRule.mk o.toParamFlowSettings {} [])

namespace RuleHeap

variable (h : RuleHeap)

/-- What a method has made of the shared parts of the rule. -/
def write (o : RuleObject) (r : ParamFlowRule) : RuleHeap where
  keys := Function.update h.keys o.metricKey r.metricKey
  hotItems := Function.update h.hotItems o.parsedHotItems r.parsedHotItems

/-- `rule.FillExceptionFlowItems()`. -/
def fillExceptionFlowItems (rule : RuleObject) : RuleHeap :=
  h.write rule (rule.deref h).fillExceptionFlowItems

/-- The loop of `AggregatedHotParamRules(list)`: each valid rule is copied into the new map and fills
the items it shares with the copy. -/
def aggregatedHotParamRules (list : List RuleObject) : RuleHeap × Assoc String (List RuleObject) :=
  list.foldl (fun r rule =>
    if rule.isValid then
      (r.1.fillExceptionFlowItems rule, r.2.pushTo rule.resource rule)
    else r) (h, [])

end RuleHeap

/-- The heap and `rule_map_`, which is null until the first update. -/
structure LoadedRules where
  heap : RuleHeap
  ruleMap : Option (Assoc String (List RuleObject))

/-- `ConfigUpdate`. -/
def LoadedRules.configUpdate (m : LoadedRules) (value : List RuleObject) : LoadedRules where
  heap := (m.heap.aggregatedHotParamRules value).1
  ruleMap := some (m.heap.aggregatedHotParamRules value).2

/-- `ParamFlowRuleManager` over rule objects. -/
def sharedManagerKind : ManagerKind RuleObject LoadedRules where
  listenerName := "ParamPropertyListener"
  initial := ⟨⟨fun _ => {}, fun _ => []⟩, none⟩
  configUpdate := LoadedRules.configUpdate

/-- The rule objects of a program, by number, and the manager. -/
structure RuleWorld where
  objects : List RuleObject
  manager : RuleManager RuleObject LoadedRules

namespace RuleWorld

variable (w : RuleWorld)

def heap : RuleHeap := w.manager.maps.heap

/-- `GetRuleOfResource(resource)`; no list for the null pointer. -/
def ruleOfResource (resource : String) : List RuleObject :=
  ((w.manager.maps.ruleMap.getD []).find? resource).getD []

def start : RuleWorld := ⟨[], .start sharedManagerKind⟩

def withHeap (heap : RuleHeap) : RuleWorld :=
  { w with manager := { w.manager with maps := { w.manager.maps with heap } } }

/-- `ParamFlowRule(resource)`: with a new key and a new map of items. -/
def construct (resource : String) : RuleWorld :=
  let o : RuleObject :=
    { resource, metricKey := w.objects.length, parsedHotItems := w.objects.length }
  { w.withHeap (w.heap.write o ⟨o.toParamFlowSettings, {}, []⟩) with objects := w.objects ++ [o] }

/-- A method that changes the rule of object `i`. -/
def change (i : ℕ) (o : RuleObject) (f : ParamFlowRule → ParamFlowRule) : RuleWorld :=
  let r := f (o.deref w.heap)
  { w.withHeap (w.heap.write o r) with
    objects := w.objects.set i ⟨r.toParamFlowSettings, o.metricKey, o.parsedHotItems⟩ }

/-- `ParamFlowRuleManager::LoadRules(rules)`. -/
def loadRules (rules : List RuleObject) : RuleWorld :=
  { w with manager := (w.manager.loadRules sharedManagerKind rules).1 }

end RuleWorld

/-- The setters of a rule. -/
inductive RuleSetter
  | resource (resource : String)
  | metricType (metricType : ParamFlowMetricType)
  | threshold (threshold : ℚ)
  | paramIdx (index : ℤ)
  | cacheSize (cacheSize : ℤ)
  | sampleCount (sampleCount : ℤ)
  | intervalInMs (interval : ℤ)
  | clusterMode (clusterMode : Bool)
  | paramFlowItemList (list : List ParamFlowItem)
  deriving DecidableEq

def RuleSetter.apply : RuleSetter → ParamFlowRule → ParamFlowRule
  | .resource x, r => r.setResource x
  | .metricType x, r => r.setMetricType x
  | .threshold x, r => r.setThreshold x
  | .paramIdx x, r => r.setParamIdx x
  | .cacheSize x, r => r.setCacheSize x
  | .sampleCount x, r => r.setSampleCount x
  | .intervalInMs x, r => r.setIntervalInMs x
  | .clusterMode x, r => r.setClusterMode x
  | .paramFlowItemList x, r => r.setParamFlowItemList x

/-- What a program does with its rule objects: make one, make one that is a copy of another, assign one
to another, call a setter, and load a list of them. -/
inductive RuleCall
  | construct (resource : String)
  | copy (i : ℕ)
  | assign (i j : ℕ)
  | set (i : ℕ) (setter : RuleSetter)
  | loadRules (is : List ℕ)
  deriving DecidableEq

namespace RuleWorld

/-- One call; the numbers are those of objects. -/
def step (w : RuleWorld) : RuleCall → Option RuleWorld
  | .construct resource => some (w.construct resource)
  | .copy i => w.objects[i]?.map fun o => { w with objects := w.objects ++ [o] }
  | .assign i j =>
    if i < w.objects.length then w.objects[j]?.map fun o => { w with objects := w.objects.set i o }
    else none
  | .set i setter => w.objects[i]?.map fun o => w.change i o setter.apply
  | .loadRules is => (is.mapM fun i => w.objects[i]?).map fun rules => w.loadRules rules

/-- The call leads from one state to the other. -/
def Steps (w : RuleWorld) (c : RuleCall) (w' : RuleWorld) : Prop := w.step c = some w'

theorem steps_det (w : RuleWorld) (c : RuleCall) (w₁ w₂ : RuleWorld) (h₁ : w.Steps c w₁)
    (h₂ : w.Steps c w₂) : w₁ = w₂ :=
  Option.some.inj (h₁.symm.trans h₂)

/-! What each call does to the objects and the manager. -/

variable {w w' : RuleWorld}

theorem steps_construct {resource : String} (hs : w.Steps (.construct resource) w') :
    w' = w.construct resource :=
  (Option.some.inj hs).symm

theorem steps_copy {i : ℕ} (hs : w.Steps (.copy i) w') :
    ∃ o, w.objects[i]? = some o ∧ w' = { w with objects := w.objects ++ [o] } := by
  obtain ⟨o, ho, heq⟩ := Option.map_eq_some_iff.mp hs
  exact ⟨o, ho, heq.symm⟩

theorem steps_assign {i j : ℕ} (hs : w.Steps (.assign i j) w') :
    ∃ o, w.objects[j]? = some o ∧ w' = { w with objects := w.objects.set i o } := by
  unfold Steps step at hs
  dsimp only at hs
  split_ifs at hs
  obtain ⟨o, ho, heq⟩ := Option.map_eq_some_iff.mp hs
  exact ⟨o, ho, heq.symm⟩

theorem steps_set {i : ℕ} {setter : RuleSetter} (hs : w.Steps (.set i setter) w') :
    ∃ o, w.objects[i]? = some o ∧ w' = w.change i o setter.apply := by
  obtain ⟨o, ho, heq⟩ := Option.map_eq_some_iff.mp hs
  exact ⟨o, ho, heq.symm⟩

theorem steps_loadRules {is : List ℕ} (hs : w.Steps (.loadRules is) w') :
    ∃ rules, (is.mapM fun i => w.objects[i]?) = some rules ∧ w' = w.loadRules rules := by
  obtain ⟨rules, hrules, heq⟩ := Option.map_eq_some_iff.mp hs
  exact ⟨rules, hrules, heq.symm⟩

end RuleWorld

/-! ### What loading does to the heap -/

/-- The valid rules fill their items one after the other, and are stored by resource. -/
theorem RuleHeap.aggregatedHotParamRules_eq (h : RuleHeap) (list : List RuleObject) :
    h.aggregatedHotParamRules list =
      ((list.filter RuleObject.isValid).foldl RuleHeap.fillExceptionFlowItems h,
        Assoc.groupBy (fun rule => rule.resource) (list.filter RuleObject.isValid)) := by
  unfold RuleHeap.aggregatedHotParamRules Assoc.groupBy
  generalize ([] : Assoc String (List RuleObject)) = map
  induction list generalizing h map with
  | nil => rfl
  | cons rule list ih =>
    rw [List.foldl_cons]
    by_cases hvalid : rule.isValid
    · rw [List.filter_cons_of_pos hvalid, if_pos hvalid, ih]
      rfl
    · rw [List.filter_cons_of_neg hvalid, if_neg hvalid, ih]

/-- Filling leaves the keys alone. -/
@[simp] theorem RuleHeap.keys_fillExceptionFlowItems (h : RuleHeap) (rule : RuleObject) :
    (h.fillExceptionFlowItems rule).keys = h.keys :=
  Function.update_eq_self _ _

namespace RuleWorld

variable {w w' : RuleWorld} {c : RuleCall} {rules : List RuleObject}

/-- The list is not the one that the manager's property holds already. -/
def TakesEffect (w : RuleWorld) (rules : List RuleObject) : Prop :=
  ((w.manager.properties w.manager.curProperty).lastValue == rules) = false

instance (w : RuleWorld) (rules : List RuleObject) : Decidable (w.TakesEffect rules) :=
  inferInstanceAs (Decidable (_ = _))

theorem loadRules_of_same (h : ¬ w.TakesEffect rules) : w.loadRules rules = w := by
  unfold TakesEffect at h
  rw [Bool.not_eq_false] at h
  unfold loadRules RuleManager.loadRules RuleManager.updateValue
  rw [if_pos h]

theorem maps_loadRules (hA : w.manager.Attached sharedManagerKind) (h : w.TakesEffect rules) :
    (w.loadRules rules).manager.maps = w.manager.maps.configUpdate rules := by
  have hmaps := hA.updateValue_maps w.manager.curProperty rules
  have hcur := hA w.manager.curProperty
  unfold TakesEffect at h
  rw [if_pos rfl] at hcur
  simp only [RuleManager.delivers, h, hcur, List.mem_singleton, if_true, Bool.false_eq_true,
    if_false] at hmaps
  exact hmaps

/-- The keys stay when rules are loaded. -/
theorem keys_loadRules (hA : w.manager.Attached sharedManagerKind) (rules : List RuleObject) :
    (w.loadRules rules).heap.keys = w.heap.keys := by
  by_cases h : w.TakesEffect rules
  · unfold heap
    rw [maps_loadRules hA h]
    unfold LoadedRules.configUpdate
    rw [RuleHeap.aggregatedHotParamRules_eq]
    dsimp only
    generalize w.manager.maps.heap = heap
    induction rules.filter RuleObject.isValid generalizing heap with
    | nil => rfl
    | cons rule valid ih => rw [List.foldl_cons, ih, RuleHeap.keys_fillExceptionFlowItems]
  · rw [loadRules_of_same h]

/-- The manager's listener stays attached to its property. -/
theorem Steps.attached (hs : w.Steps c w') (hA : w.manager.Attached sharedManagerKind) :
    w'.manager.Attached sharedManagerKind := by
  cases c with
  | construct resource =>
    obtain rfl := steps_construct hs
    exact hA
  | copy i =>
    obtain ⟨o, -, rfl⟩ := steps_copy hs
    exact hA
  | assign i j =>
    obtain ⟨o, -, rfl⟩ := steps_assign hs
    exact hA
  | set i setter =>
    obtain ⟨o, -, rfl⟩ := steps_set hs
    exact hA
  | loadRules is =>
    obtain ⟨rules, -, rfl⟩ := steps_loadRules hs
    exact hA.updateValue _ _

end RuleWorld

end SentinelCpp.Param
