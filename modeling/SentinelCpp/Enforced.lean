import SentinelCpp.CircuitBreaker.RuleManager
import SentinelCpp.Flow.Rule
import SentinelCpp.Param.Rule
import SentinelCpp.System.Rule

/-!
# Which rules are in force after `LoadRules`

The four managers share the property mechanism, so one law covers them: a load is dropped when it
equals the value the current property holds, and then the rules in force stay those of the list
delivered last, which may have come through another property or not at all.
-/

namespace SentinelCpp

open Property Property.RuleManager

/-- **`LoadRules` and the rules in force.**  For each manager, after any history, loading `rules`
leaves in force exactly what a fresh manager would enforce if and only if the current property holds
a different list or the list delivered last already has the effect of `rules`. -/
theorem loadRules_enforced_iff (setOrder : IterationOrder Flow.FlowRule) :
    (∀ (ops : List (ManagerOp Flow.FlowRule)) (rules : List Flow.FlowRule),
      Enforced (Flow.managerKind setOrder) id ops rules ↔
        TakesEffect (Flow.managerKind setOrder)
          (Flow.configUpdate setOrder (Flow.managerKind setOrder).initial) ops rules) ∧
    (∀ (ops : List (ManagerOp CircuitBreaker.Rule)) (rules : List CircuitBreaker.Rule),
      Enforced CircuitBreaker.managerKind CircuitBreaker.CircuitBreakerMaps.inForce ops rules ↔
        TakesEffect CircuitBreaker.managerKind
          (fun l => (CircuitBreaker.managerKind.initial.configUpdate l).inForce) ops rules) ∧
    (∀ (ops : List (ManagerOp System.SystemRule)) (rules : List System.SystemRule),
      Enforced System.managerKind System.inForce ops rules ↔
        TakesEffect System.managerKind (fun l => System.inForce (System.configUpdate none l)) ops
          rules) ∧
    (∀ (ops : List (ManagerOp Param.ParamFlowRule)) (rules : List Param.ParamFlowRule),
      Enforced Param.managerKind Param.inForce ops rules ↔
        TakesEffect Param.managerKind (fun l => Param.inForce (Param.configUpdate none l)) ops
          rules) :=
  ⟨enforced_iff (Flow.enforces setOrder),
    enforced_iff CircuitBreaker.CircuitBreakerMaps.enforces, enforced_iff System.enforces,
    enforced_iff Param.enforces⟩

/-- A rule is loaded, the manager moves to an empty property, and `LoadRules({})` is dropped: the
rule stays in force. -/
theorem loadRules_empty_not_enforced :
    ¬ Enforced (Flow.managerKind (.insertion _)) id
      [.loadRules [{ resource := "r", count := 5 }], .registerToProperty (some 1)] [] := by
  intro h
  have hrules := congrArg (fun m : Flow.FlowMaps => (m.getRulesForResource "r").length) h
  revert hrules
  decide

end SentinelCpp
