import SentinelCpp.Param.Metric

/-!
# Which arguments a hot-parameter rule looks at

A rule is meant for the argument at its own position, but `PassLocalCheck` checks every argument of
the call.  Two calls that agree at the position get the same verdict exactly when the arguments at
the other positions do not matter.
-/

namespace SentinelCpp.Param

variable {t : ℕ} {metric : ParamMetric} {rule : ParamFlowRule} {count : ℤ}

end SentinelCpp.Param
