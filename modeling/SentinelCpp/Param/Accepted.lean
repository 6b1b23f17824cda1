import Mathlib.Algebra.Order.Ring.Int
import SentinelCpp.Param.Slot

/-!
# What `IsValidRule` lets through

The rules the slot works with are those `IsValidRule` accepts.  Two things that the rest relies on are
not among its tests: that the interval is a multiple of the sample count, without which the buckets of
the rule's leap array do not cover the interval or have no length at all, and that the rule has a
resource name, without which the slot makes a metric that it then cannot find.
-/

namespace SentinelCpp.Param

open SentinelCpp.Lib SentinelCpp.Property SentinelCpp.Stat

/-! ### The window of a rule -/

/-- The buckets have a length, and together they cover the interval. -/
def CoversInterval (a : ParamLeapArray) : Prop :=
  1 ≤ a.bucketLengthMs ∧ a.bucketLengthMs * a.sampleCount = a.intervalMs

theorem coversInterval_iff_wellFormed (a : ParamLeapArray) : CoversInterval a ↔ a.WellFormed := by
  constructor
  · rintro ⟨hlen, hprod⟩
    have hcount : 0 < a.sampleCount := by
      rcases Nat.eq_zero_or_pos a.sampleCount with h0 | hpos
      · rw [LeapArray.bucketLengthMs, h0, Nat.div_zero] at hlen
        omega
      · exact hpos
    exact ⟨hcount, hlen, by rw [Nat.mul_comm]; exact hprod.symm⟩
  · intro h
    exact ⟨h.length_pos, by rw [Nat.mul_comm]; exact h.interval_eq.symm⟩

/-- The key asks for buckets of one whole length. -/
def DividesEvenly (k : ParamLeapArrayKey) : Prop :=
  0 < k.sampleCount ∧ 0 < k.intervalInMs ∧ k.sampleCount ∣ k.intervalInMs

instance (k : ParamLeapArrayKey) : Decidable (DividesEvenly k) := inferInstanceAs (Decidable (_ ∧ _))

/-- The array `initializeForRule` builds for a key that has none. -/
def arrayFor (env : CacheEnv) (k : ParamLeapArrayKey) : ParamLeapArray :=
  .mk' k.sampleCount.toNat k.intervalInMs.toNat (.mk' env k.cacheSize)

theorem ParamMetric.find?_initializeForRule (env : CacheEnv) (m : ParamMetric)
    (k : ParamLeapArrayKey) (hnew : m.rollingParams.find? k = none) :
    (m.initializeForRule env k).rollingParams.find? k = some (arrayFor env k) := by
  unfold ParamMetric.initializeForRule
  dsimp only
  rw [hnew]
  dsimp only
  rw [Assoc.find?_concat hnew, if_pos rfl]
  rfl

theorem coversInterval_arrayFor (env : CacheEnv) (k : ParamLeapArrayKey) :
    CoversInterval (arrayFor env k) ↔ DividesEvenly k := by
  show 1 ≤ k.intervalInMs.toNat / k.sampleCount.toNat ∧
    k.intervalInMs.toNat / k.sampleCount.toNat * k.sampleCount.toNat = k.intervalInMs.toNat ↔ _
  constructor
  · rintro ⟨hlen, hprod⟩
    have hcount : 0 < k.sampleCount.toNat := by
      rcases Nat.eq_zero_or_pos k.sampleCount.toNat with h0 | hpos
      · rw [h0, Nat.div_zero] at hlen
        omega
      · exact hpos
    have hint : 0 < k.intervalInMs.toNat := by
      rw [← hprod]
      exact Nat.mul_pos hlen hcount
    refine ⟨by omega, by omega, ?_⟩
    have hdvd : k.sampleCount.toNat ∣ k.intervalInMs.toNat := Dvd.intro_left _ hprod
    have hcast := Int.natCast_dvd_natCast.mpr hdvd
    rwa [Int.toNat_of_nonneg (by omega), Int.toNat_of_nonneg (by omega)] at hcast
  · rintro ⟨hcount, hint, hdvd⟩
    have hnat : k.sampleCount.toNat ∣ k.intervalInMs.toNat := by
      rw [← Int.natCast_dvd_natCast, Int.toNat_of_nonneg (by omega), Int.toNat_of_nonneg (by omega)]
      exact hdvd
    refine ⟨?_, Nat.div_mul_cancel hnat⟩
    exact Nat.div_pos (Nat.le_of_dvd (by omega) hnat) (by omega)

/-- **The window of a rule is well formed exactly when its sample count divides its interval.**  The
array is built from the rule's key; for an accepted rule whose key has the rule's own numbers, the
division is all that is left to ask. -/
theorem initializeForRule_covers_iff (env : CacheEnv) (m : ParamMetric) (rule : ParamFlowRule)
    (hnew : m.rollingParams.find? rule.metricKey = none) :
    ∃ a, (m.initializeForRule env rule.metricKey).rollingParams.find? rule.metricKey = some a ∧
      (CoversInterval a ↔ DividesEvenly rule.metricKey) ∧
      (isValidRule rule = true → rule.metricKey.sampleCount = rule.sampleCount →
        rule.metricKey.intervalInMs = rule.intervalInMs →
        (CoversInterval a ↔ rule.sampleCount ∣ rule.intervalInMs)) := by
  refine ⟨arrayFor env rule.metricKey, ParamMetric.find?_initializeForRule env m _ hnew,
    coversInterval_arrayFor env _, ?_⟩
  intro hvalid hcount hint
  rw [coversInterval_arrayFor, DividesEvenly, hcount, hint]
  have hpos : 0 < rule.sampleCount ∧ 0 < rule.intervalInMs := by
    simp only [isValidRule, Bool.and_eq_true, decide_eq_true_eq] at hvalid
    omega
  exact ⟨fun h => h.2.2, fun h => ⟨hpos.1, hpos.2, h⟩⟩

/-- Two samples of one millisecond. -/
def halfMillisecondRule : ParamFlowRule :=
  (({ resource := "r", threshold := 1 } : ParamFlowRule).setParamIdx 0).setCacheSize 200
    |>.setSampleCount 2 |>.setIntervalInMs 1

/-- The rule is accepted, its key has the rule's own numbers, and the buckets of its window have
length 0. -/
theorem bucketLength_halfMillisecondRule :
    isValidRule halfMillisecondRule = true ∧
      ∀ env : CacheEnv, ∃ a, (ParamMetric.empty.initializeForRule env
          halfMillisecondRule.metricKey).rollingParams.find? halfMillisecondRule.metricKey = some a ∧
        a.bucketLengthMs = 0 ∧ ¬ CoversInterval a := by
  refine ⟨by decide, fun env => ⟨arrayFor env halfMillisecondRule.metricKey, ?_, ?_, ?_⟩⟩
  · exact ParamMetric.find?_initializeForRule env _ _ rfl
  · show 1 / 2 = 0
    omega
  · rw [coversInterval_arrayFor]
    decide

/-- Four samples of 250 ms. -/
def quarterSecondRule : ParamFlowRule :=
  (({ resource := "r", threshold := 1 } : ParamFlowRule).setParamIdx 0).setCacheSize 200
    |>.setSampleCount 4 |>.setIntervalInMs 1000

theorem initializeForRule_covers_iff_example :
    ∃ a, (ParamMetric.empty.initializeForRule ⟨fun _ => 0, 1, Nat.one_pos⟩
        quarterSecondRule.metricKey).rollingParams.find? quarterSecondRule.metricKey = some a ∧
      CoversInterval a ∧ isValidRule quarterSecondRule = true := by
  obtain ⟨a, hfound, -, hiff⟩ :=
    initializeForRule_covers_iff ⟨fun _ => 0, 1, Nat.one_pos⟩ ParamMetric.empty quarterSecondRule rfl
  have hvalid : isValidRule quarterSecondRule = true := by decide
  exact ⟨a, hfound, (hiff hvalid rfl rfl).mpr (by decide), hvalid⟩

/-! ### The metrics `CheckFlow` uses -/

/-- The metrics that the loop of `CheckFlow` hands to `PassCheck` or calls `AddBlock` on, in order.
`PassCheck` with a null metric and an argument ends the program, and so does a division by zero. -/
def checkFlowUses (env : CacheEnv) (t : ℕ) (resource : String) (count : ℤ) (params : List AnyVal) :
    List ParamFlowRule → MetricMap → List (Option ParamMetric)
  | [], _ => []
  | rule :: rules, metricMap =>
    let metricMap := initHotParamMetricsFor env metricMap resource rule
    match getParamMetric metricMap resource with
    | none =>
      none :: if params = [] then checkFlowUses env t resource count params rules metricMap else []
    | some metric =>
      if checkFaults metric rule params then [some metric]
      else
        match passCheck t metric rule count params with
        | (checked, true) =>
          some metric ::
            checkFlowUses env t resource count params rules (metricMap.modify resource fun _ => checked)
        | (checked, false) => [some metric, some checked]

/-- The metrics `ParamFlowSlot::Entry` uses. -/
def paramFlowUses (env : CacheEnv) (t : ℕ) (ruleMap : Option ParamFlowRuleMap) (resource : String)
    (count : ℤ) (params : List AnyVal) (metricMap : MetricMap) : List (Option ParamMetric) :=
  match ruleMap with
  | none => []
  | some ruleMap =>
    if ruleMap.length > 0 then
      match ruleMap.find? resource with
      | none => []
      | some rules => checkFlowUses env t resource count params rules metricMap
    else []

variable {env : CacheEnv} {t : ℕ} {resource : String} {count : ℤ} {params : List AnyVal}

/-- A metric that was just made is found again, unless the name is empty. -/
theorem getParamMetric_initHotParamMetricsFor (metricMap : MetricMap) (rule : ParamFlowRule) :
    getParamMetric (initHotParamMetricsFor env metricMap resource rule) resource = none ↔
      resource = "" := by
  unfold getParamMetric
  rw [find?_initHotParamMetricsFor, if_pos rfl]
  split_ifs with h
  · simp [h]
  · simp [h]

theorem none_mem_checkFlowUses {rules : List ParamFlowRule} {metricMap : MetricMap} :
    none ∈ checkFlowUses env t resource count params rules metricMap ↔
      resource = "" ∧ rules ≠ [] := by
  induction rules generalizing metricMap with
  | nil => simp [checkFlowUses]
  | cons rule rules ih =>
    have hfound := @getParamMetric_initHotParamMetricsFor env resource metricMap rule
    rw [checkFlowUses]
    cases hget : getParamMetric (initHotParamMetricsFor env metricMap resource rule) resource with
    | none => simp [hfound.mp hget]
    | some metric =>
      have hname : resource ≠ "" := by
        intro h
        rw [hfound.mpr h] at hget
        exact absurd hget (Option.some_ne_none metric).symm
      dsimp only
      by_cases hfaults : checkFaults metric rule params = true
      · simp [hfaults, hname]
      · rw [if_neg hfaults]
        rcases passCheck t metric rule count params with ⟨checked, _ | _⟩
        · simp [hname]
        · simp [ih, hname]

/-- What ends the program in the loop: a null metric used for an argument, or a metric that divides by
zero. -/
def EndsIn (rules : List ParamFlowRule) (params : List AnyVal) (uses : List (Option ParamMetric)) : Prop :=
  (params ≠ [] ∧ none ∈ uses) ∨ ∃ metric, some metric ∈ uses ∧
    ((∃ rule ∈ rules, checkFaults metric rule params = true) ∨ metric.addFaults params = true)

/-- The loop ends the program only for what it uses. -/
theorem endsIn_of_checkFlow {rules : List ParamFlowRule} {metricMap : MetricMap}
    (h : checkFlow env t resource count params rules metricMap = none) :
    EndsIn rules params (checkFlowUses env t resource count params rules metricMap) := by
  induction rules generalizing metricMap with
  | nil => simp [checkFlow] at h
  | cons rule rules ih =>
    have hlater : ∀ {used : Option ParamMetric} {uses : List (Option ParamMetric)},
        EndsIn rules params uses → EndsIn (rule :: rules) params (used :: uses) := by
      rintro used uses (⟨hparams, hnull⟩ | ⟨metric, hmetric, hfault⟩)
      · exact .inl ⟨hparams, List.mem_cons_of_mem _ hnull⟩
      · refine .inr ⟨metric, List.mem_cons_of_mem _ hmetric, hfault.imp_left ?_⟩
        rintro ⟨r, hr, hfaults⟩
        exact ⟨r, List.mem_cons_of_mem _ hr, hfaults⟩
    rw [checkFlow] at h
    rw [checkFlowUses]
    cases hget : getParamMetric (initHotParamMetricsFor env metricMap resource rule) resource with
    | none =>
      rw [hget] at h
      dsimp only at h ⊢
      by_cases hparams : params = []
      · rw [if_pos hparams] at h ⊢
        exact hlater (ih h)
      · exact .inl ⟨hparams, List.mem_cons_self⟩
    | some metric =>
      rw [hget] at h
      dsimp only at h ⊢
      by_cases hfaults : checkFaults metric rule params = true
      · rw [if_pos hfaults]
        exact .inr ⟨metric, List.mem_cons_self, .inl ⟨rule, List.mem_cons_self, hfaults⟩⟩
      · rw [if_neg hfaults] at h ⊢
        rcases hpass : passCheck t metric rule count params with ⟨checked, _ | _⟩
        · rw [hpass] at h
          dsimp only at h ⊢
          split_ifs at h with hadd
          exact .inr ⟨checked, by simp, .inr hadd⟩
        · rw [hpass] at h
          exact hlater (ih h)

/-- And a null metric used for an argument ends it. -/
theorem checkFlow_eq_none_of_null {rules : List ParamFlowRule} {metricMap : MetricMap}
    (hparams : params ≠ []) (hnull : none ∈ checkFlowUses env t resource count params rules metricMap) :
    checkFlow env t resource count params rules metricMap = none := by
  obtain ⟨hname, hne⟩ := none_mem_checkFlowUses.mp hnull
  cases rules with
  | nil => exact absurd rfl hne
  | cons rule rules =>
    rw [checkFlow, getParamMetric_initHotParamMetricsFor metricMap rule |>.mpr hname]
    exact if_neg hparams

theorem none_mem_paramFlowUses {ruleMap : Option ParamFlowRuleMap} {metricMap : MetricMap} :
    none ∈ paramFlowUses env t ruleMap resource count params metricMap ↔
      resource = "" ∧ inForce ruleMap "" ≠ [] := by
  unfold paramFlowUses inForce
  cases ruleMap with
  | none => simp
  | some ruleMap =>
    dsimp only
    rw [Option.getD_some]
    by_cases hlen : ruleMap.length > 0
    · rw [if_pos hlen]
      by_cases hname : resource = ""
      · subst hname
        cases ruleMap.find? "" with
        | none => simp
        | some rules => simp [none_mem_checkFlowUses]
      · cases ruleMap.find? resource with
        | none => simp [hname]
        | some rules => simp [none_mem_checkFlowUses, hname]
    · have hnil : ruleMap = [] := List.eq_nil_of_length_eq_zero (by omega)
      simp [hnil]

/-- There is a rule in force for a resource exactly when the list has a valid rule for it. -/
theorem inForce_configUpdate_ne_nil (m : Option ParamFlowRuleMap) (l : List ParamFlowRule)
    (r : String) :
    inForce (configUpdate m l) r ≠ [] ↔ ∃ rule ∈ l, isValidRule rule = true ∧ rule.resource = r := by
  unfold inForce configUpdate aggregatedHotParamRules
  rw [Option.getD_some, Assoc.find?_groupBy]
  split_ifs with hnone
  · simp only [List.filter_eq_nil_iff, List.mem_map, List.mem_filter, decide_eq_true_eq] at hnone
    simp only [Option.getD_none, ne_eq, not_true_eq_false, false_iff]
    rintro ⟨rule, hrule, hvalid, hres⟩
    exact hnone _ ⟨rule, ⟨hrule, hvalid⟩, rfl⟩ hres
  · rw [Option.getD_some]
    refine ⟨fun _ => ?_, fun _ => hnone⟩
    obtain ⟨p, hp⟩ := List.exists_mem_of_ne_nil _ hnone
    obtain ⟨hmem, hres⟩ := List.mem_filter.mp hp
    obtain ⟨rule, hrule, rfl⟩ := List.mem_map.mp hmem
    obtain ⟨hrule, hvalid⟩ := List.mem_filter.mp hrule
    exact ⟨rule, hrule, hvalid, of_decide_eq_true hres⟩

/-- **When the slot uses no missing metric.**  After any history of the rule manager: for every entry
with a resource name, and for the empty name when the list delivered last has no valid rule for it. -/
theorem paramFlowUses_metrics_iff (ops : List (ManagerOp ParamFlowRule)) (env : CacheEnv) (t : ℕ)
    (resource : String) (count : ℤ) (params : List AnyVal) (metricMap : MetricMap) :
    (∀ metric ∈ paramFlowUses env t ((RuleManager.start managerKind).run managerKind ops).maps
        resource count params metricMap, metric ≠ none) ↔
      resource ≠ "" ∨ ∀ rule ∈ RuleManager.delivered managerKind (RuleManager.start managerKind) ops [],
        isValidRule rule = true → rule.resource ≠ "" := by
  obtain ⟨-, -, hview⟩ := RuleManager.view_run enforces ops
    (RuleManager.attached_start : (RuleManager.start managerKind).Attached managerKind)
    enforces.inv_initial enforces.view_initial
  have hmem := @none_mem_paramFlowUses env t resource count params
    ((RuleManager.start managerKind).run managerKind ops).maps metricMap
  rw [hview, inForce_configUpdate_ne_nil] at hmem
  have hnone : (∀ metric ∈ paramFlowUses env t ((RuleManager.start managerKind).run managerKind
      ops).maps resource count params metricMap, metric ≠ none) ↔
      ¬ none ∈ paramFlowUses env t ((RuleManager.start managerKind).run managerKind ops).maps
        resource count params metricMap :=
    ⟨fun h hin => h none hin rfl, fun h metric hin heq => h (heq ▸ hin)⟩
  rw [hnone, hmem, not_and_or]
  simp only [not_exists, not_and, ne_eq]

/-- A rule without a resource name. -/
def namelessRule : ParamFlowRule := ({ threshold := 1 } : ParamFlowRule).setParamIdx 0

/-- Caches of one shard. -/
def oneShard : CacheEnv := ⟨fun _ => 0, 1, Nat.one_pos⟩

/-- The rule is loaded, and an entry with the empty name hands `PassCheck` a null metric. -/
theorem namelessRule_uses_null :
    ¬ ∀ metric ∈ paramFlowUses oneShard 0 ((RuleManager.start managerKind).run managerKind
        [.loadRules [namelessRule]]).maps "" 1 [.int32 7] [], metric ≠ none := by
  intro h
  refine h none ?_ rfl
  rw [none_mem_paramFlowUses]
  decide

end SentinelCpp.Param
