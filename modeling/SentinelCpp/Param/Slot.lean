import SentinelCpp.Param.Metric

/-!
# The hot-parameter slot

`ParamFlowSlot` keeps one `ParamMetric` per resource, made when the first rule of the resource is
checked.  `GetParamMetric` returns null for the empty resource name; checking an argument there
dereferences it, which is `none` below, as is a division by zero.
-/

namespace SentinelCpp.Param

open SentinelCpp.Lib

/-- `metric_map_`. -/
abbrev MetricMap := Assoc String ParamMetric

/-- `initHotParamMetricsFor(resource, rule)`. -/
def initHotParamMetricsFor (env : CacheEnv) (metricMap : MetricMap) (resource : String)
    (rule : ParamFlowRule) : MetricMap :=
  let metricMap :=
    match metricMap.find? resource with
    | some _ => metricMap
    | none => metricMap ++ [(resource, ParamMetric.empty)]
  metricMap.modify resource fun metric => metric.initializeForRule env rule.metricKey

/-- `GetParamMetric(resource)`. -/
def getParamMetric (metricMap : MetricMap) (resource : String) : Option ParamMetric :=
  if resource = "" then none else metricMap.find? resource

/-- The loop of `ParamFlowSlot::CheckFlow` over the rules of the resource. -/
def checkFlow (env : CacheEnv) (t : ℕ) (resource : String) (count : ℤ) (params : List AnyVal) :
    List ParamFlowRule → MetricMap → Option (MetricMap × TokenResult)
  | [], metricMap => some (metricMap, .ok)
  | rule :: rules, metricMap =>
    let metricMap := initHotParamMetricsFor env metricMap resource rule
    match getParamMetric metricMap resource with
    | none => if params = [] then checkFlow env t resource count params rules metricMap else none
    | some metric =>
      if checkFaults metric rule params then none
      else
        match passCheck t metric rule count params with
        | (metric, true) =>
          checkFlow env t resource count params rules (metricMap.modify resource fun _ => metric)
        | (metric, false) =>
          if metric.addFaults params then none
          else
            some (metricMap.modify resource fun _ => metric.addBlock t count params,
              .blocked "param exception")

/-- `ParamFlowSlot::Entry`. -/
def paramFlowEntry (env : CacheEnv) (t : ℕ) (ruleMap : Option ParamFlowRuleMap)
    (resource : String) (count : ℤ) (params : List AnyVal) (metricMap : MetricMap) :
    Option (MetricMap × TokenResult) :=
  match ruleMap with
  | none => some (metricMap, .ok)
  | some ruleMap =>
    if ruleMap.length > 0 then
      match ruleMap.find? resource with
      | none => some (metricMap, .ok)
      | some rules => checkFlow env t resource count params rules metricMap
    else some (metricMap, .ok)

/-- `auto metric = GetParamMetric(resource); if (metric) metric->f()`. -/
def withParamMetric (metricMap : MetricMap) (resource : String) (f : ParamMetric → ParamMetric) :
    MetricMap :=
  match getParamMetric metricMap resource with
  | none => metricMap
  | some metric => metricMap.modify resource fun _ => f metric

/-- `AddPass` for the resource divides by zero. -/
def addPassFaults (metricMap : MetricMap) (resource : String) (params : List AnyVal) : Bool :=
  (getParamMetric metricMap resource).any fun metric => metric.addFaults params

@[simp] theorem addPassFaults_nil (metricMap : MetricMap) (resource : String) :
    addPassFaults metricMap resource [] = false := by
  unfold addPassFaults
  cases getParamMetric metricMap resource <;> simp

theorem find?_withParamMetric (metricMap : MetricMap) (resource : String)
    (f : ParamMetric → ParamMetric) (r : String) :
    (withParamMetric metricMap resource f).find? r =
      if r = resource ∧ resource ≠ "" then (metricMap.find? r).map f else metricMap.find? r := by
  unfold withParamMetric getParamMetric
  by_cases hres : resource = ""
  · simp [hres]
  · rw [if_neg hres]
    cases hm : metricMap.find? resource with
    | none =>
      by_cases hr : r = resource
      · subst hr
        simp [hm]
      · simp [hr]
    | some metric =>
      dsimp only
      rw [Assoc.find?_modify]
      by_cases hr : r = resource
      · subst hr
        simp [hm, hres]
      · simp [hr]

/-- The metric of the resource at the start of each round of `checkFlow`. -/
theorem find?_initHotParamMetricsFor (env : CacheEnv) (metricMap : MetricMap) (resource : String)
    (rule : ParamFlowRule) (r : String) :
    (initHotParamMetricsFor env metricMap resource rule).find? r =
      if r = resource then
        some (((metricMap.find? resource).getD ParamMetric.empty).initializeForRule env rule.metricKey)
      else metricMap.find? r := by
  unfold initHotParamMetricsFor
  dsimp only
  rw [Assoc.find?_modify]
  by_cases hr : r = resource
  · subst hr
    cases hm : metricMap.find? r with
    | some metric => simp [hm]
    | none => simp [Assoc.find?_concat hm]
  · rw [if_neg hr, if_neg hr]
    cases hm : metricMap.find? resource with
    | some metric => rfl
    | none => simp [Assoc.find?_concat hm, hr]

/-- The only ways out of the slot: pass, or the block with its own reason. -/
theorem checkFlow_result {env : CacheEnv} {t : ℕ} {resource : String} {count : ℤ}
    {params : List AnyVal} {rules : List ParamFlowRule} {metricMap metricMap' : MetricMap}
    {res : TokenResult}
    (h : checkFlow env t resource count params rules metricMap = some (metricMap', res)) :
    res = .ok ∨ res = .blocked "param exception" := by
  induction rules generalizing metricMap with
  | nil =>
    rw [checkFlow, Option.some.injEq, Prod.mk.injEq] at h
    exact .inl h.2.symm
  | cons rule rules ih =>
    rw [checkFlow] at h
    split at h
    · split_ifs at h
      exact ih h
    · split_ifs at h
      split at h
      · exact ih h
      · split_ifs at h
        rw [Option.some.injEq, Prod.mk.injEq] at h
        exact .inr h.2.symm

theorem paramFlowEntry_result {env : CacheEnv} {t : ℕ} {ruleMap : Option ParamFlowRuleMap}
    {resource : String} {count : ℤ} {params : List AnyVal} {metricMap metricMap' : MetricMap}
    {res : TokenResult}
    (h : paramFlowEntry env t ruleMap resource count params metricMap = some (metricMap', res)) :
    res = .ok ∨ res = .blocked "param exception" := by
  have hok : ∀ m : MetricMap, some (m, TokenResult.ok) = some (metricMap', res) →
      res = .ok ∨ res = .blocked "param exception" := by
    intro m hm
    rw [Option.some.injEq, Prod.mk.injEq] at hm
    exact .inl hm.2.symm
  unfold paramFlowEntry at h
  split at h
  · exact hok _ h
  · split_ifs at h
    · split at h
      · exact hok _ h
      · exact checkFlow_result h
    · exact hok _ h

/-! ### The slot changes no thread count -/

/-- `GetThreadCount(index, param)` of the metric of a resource; 0 when there is none. -/
def threadCountOf (metricMap : MetricMap) (resource : String) (index : ℤ) (param : AnyVal) : ℤ :=
  match metricMap.find? resource with
  | none => 0
  | some metric => metric.threadCount index param

theorem initializeForRule_threadCount (env : CacheEnv) (m : ParamMetric) (k : ParamLeapArrayKey)
    (i : ℤ) (x : AnyVal) : (m.initializeForRule env k).threadCount i x = m.threadCount i x := by
  unfold ParamMetric.threadCount ParamMetric.initializeForRule
  dsimp only
  cases hk : m.threadCountMap.find? k.paramIdx with
  | some c => rfl
  | none =>
    dsimp only
    rw [Assoc.find?_concat hk]
    by_cases hi : i = k.paramIdx
    · subst hi
      simp [hk, CacheEnv.newCache]
    · simp [hi]

theorem threadCountOf_modify (metricMap : MetricMap) (resource : String)
    {f : ParamMetric → ParamMetric}
    (hf : ∀ m, metricMap.find? resource = some m → ∀ i x,
      (f m).threadCount i x = m.threadCount i x) (r : String) (i : ℤ) (x : AnyVal) :
    threadCountOf (metricMap.modify resource f) r i x = threadCountOf metricMap r i x := by
  unfold threadCountOf
  rw [Assoc.find?_modify]
  by_cases hr : r = resource
  · subst hr
    rw [if_pos rfl]
    cases hm : metricMap.find? r with
    | none => rfl
    | some m => exact hf m hm i x
  · rw [if_neg hr]

theorem threadCountOf_initHotParamMetricsFor (env : CacheEnv) (metricMap : MetricMap)
    (resource : String) (rule : ParamFlowRule) (r : String) (i : ℤ) (x : AnyVal) :
    threadCountOf (initHotParamMetricsFor env metricMap resource rule) r i x =
      threadCountOf metricMap r i x := by
  unfold threadCountOf
  rw [find?_initHotParamMetricsFor]
  by_cases hr : r = resource
  · subst hr
    rw [if_pos rfl]
    dsimp only
    rw [initializeForRule_threadCount]
    cases metricMap.find? r with
    | none => rfl
    | some m => rfl
  · rw [if_neg hr]

theorem checkFlow_threadCountOf {env : CacheEnv} {t : ℕ} {resource : String} {count : ℤ}
    {params : List AnyVal} {rules : List ParamFlowRule} {metricMap metricMap' : MetricMap}
    {res : TokenResult}
    (h : checkFlow env t resource count params rules metricMap = some (metricMap', res))
    (r : String) (i : ℤ) (x : AnyVal) :
    threadCountOf metricMap' r i x = threadCountOf metricMap r i x := by
  induction rules generalizing metricMap with
  | nil =>
    rw [checkFlow, Option.some.injEq, Prod.mk.injEq] at h
    rw [h.1]
  | cons rule rules ih =>
    have hinit := threadCountOf_initHotParamMetricsFor env metricMap resource rule r i x
    rw [checkFlow] at h
    split at h
    · split_ifs at h
      exact (ih h).trans hinit
    · rename_i metric hmetric
      have hfind : (initHotParamMetricsFor env metricMap resource rule).find? resource =
          some metric := by
        unfold getParamMetric at hmetric
        split_ifs at hmetric
        exact hmetric
      have hcheck := passCheck_threadCount t metric rule count params
      split_ifs at h
      split at h
      · rename_i metric' hpass
        rw [hpass] at hcheck
        rw [ih h, threadCountOf_modify, hinit]
        intro m hm i x
        rw [hfind, Option.some.injEq] at hm
        rw [← hm]
        exact hcheck i x
      · rename_i metric' hpass
        rw [hpass] at hcheck
        split_ifs at h
        rw [Option.some.injEq, Prod.mk.injEq] at h
        rw [← h.1, threadCountOf_modify, hinit]
        intro m hm i x
        rw [hfind, Option.some.injEq] at hm
        rw [← hm]
        exact hcheck i x

theorem paramFlowEntry_threadCountOf {env : CacheEnv} {t : ℕ} {ruleMap : Option ParamFlowRuleMap}
    {resource : String} {count : ℤ} {params : List AnyVal} {metricMap metricMap' : MetricMap}
    {res : TokenResult}
    (h : paramFlowEntry env t ruleMap resource count params metricMap = some (metricMap', res))
    (r : String) (i : ℤ) (x : AnyVal) :
    threadCountOf metricMap' r i x = threadCountOf metricMap r i x := by
  have hsame : ∀ m : MetricMap, some (m, TokenResult.ok) = some (metricMap', res) → metricMap' = m := by
    intro m hm
    rw [Option.some.injEq, Prod.mk.injEq] at hm
    exact hm.1.symm
  unfold paramFlowEntry at h
  split at h
  · rw [hsame _ h]
  · split_ifs at h
    · split at h
      · rw [hsame _ h]
      · exact checkFlow_threadCountOf h r i x
    · rw [hsame _ h]

end SentinelCpp.Param
