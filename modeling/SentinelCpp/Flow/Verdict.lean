import Mathlib.Logic.Relation
import SentinelCpp.Flow.Slot

/-!
# The verdict of the flow slot

The rules of a list go through a hash set, two maps and a node selection that looks at the other rules
of the resource.  What comes out is a plain conjunction over the valid rules of the list, so the order
and the repetition of rules, the spelling of the default origin and invalid rules make no difference.
-/

namespace SentinelCpp.Flow

open SentinelCpp.Lib SentinelCpp.Stat SentinelCpp.Property

/-! ### The rules that are in force -/

/-- The rule is the normal form of a valid rule of the list. -/
def InForce (value : List FlowRule) (rule : FlowRule) : Prop :=
  ∃ r ∈ value, isValidRule r = true ∧ normalizeRule r = rule

theorem normalizeRule_limitOrigin_ne (rule : FlowRule) : (normalizeRule rule).limitOrigin ≠ "" := by
  unfold normalizeRule
  split_ifs with h
  · show Constants.kLimitOriginDefault ≠ ""
    decide
  · exact h

theorem limitOriginEquals_iff {lhs rhs : String} (hl : lhs ≠ "") (hr : rhs ≠ "") :
    limitOriginEquals lhs rhs = true ↔ lhs = rhs := by
  unfold limitOriginEquals
  rw [if_neg hl]
  split_ifs with h
  · subst h
    simp [hr, eq_comm]
  · simp

/-- On rules with a named origin `operator==` is equality. -/
theorem beq_iff_eq_of_origin {a b : FlowRule} (ha : a.limitOrigin ≠ "") (hb : b.limitOrigin ≠ "") :
    (a == b) = true ↔ a = b := by
  constructor
  · intro h
    simp only [BEq.beq, Bool.and_eq_true, decide_eq_true_eq] at h
    obtain ⟨⟨⟨⟨⟨⟨⟨⟨⟨h1, h2⟩, h3⟩, h4⟩, h5⟩, h6⟩, h7⟩, h8⟩, h9⟩, h10⟩ := h
    rw [limitOriginEquals_iff ha hb] at h2
    obtain ⟨_, _, _, _, _, _, _, _, _, _⟩ := a
    subst h1 h2 h3 h4 h5 h6 h7 h8 h9 h10
    rfl
  · rintro rfl
    exact beq_self a

/-- The set holds the normal forms of the valid rules. -/
theorem mem_tmpSet {value : List FlowRule} {rule : FlowRule} :
    rule ∈ tmpSet value ↔ InForce value rule := by
  induction value using List.reverseRecOn generalizing rule with
  | nil =>
    constructor
    · intro h
      exact absurd h List.not_mem_nil
    · rintro ⟨r, hr, -⟩
      exact absurd hr List.not_mem_nil
  | append_singleton value r ih =>
    have hforce : InForce (value ++ [r]) rule ↔
        InForce value rule ∨ isValidRule r = true ∧ normalizeRule r = rule := by
      simp only [InForce, List.mem_append, List.mem_singleton, or_and_right, exists_or,
        exists_eq_left]
    rw [tmpSet_concat, hforce]
    by_cases hv : isValidRule r = true
    · rw [if_pos hv]
      split_ifs with hany
      · -- an equal rule is there already, and it is the same rule
        obtain ⟨r', hr', hbeq⟩ := List.any_eq_true.mp hany
        have horigin : r'.limitOrigin ≠ "" := by
          obtain ⟨r₀, -, -, rfl⟩ := ih.mp hr'
          exact normalizeRule_limitOrigin_ne r₀
        rw [beq_iff_eq_of_origin horigin (normalizeRule_limitOrigin_ne r)] at hbeq
        rw [ih]
        refine ⟨.inl, fun h => h.elim id ?_⟩
        rintro ⟨-, rfl⟩
        exact hbeq ▸ ih.mp hr'
      · rw [List.mem_append, List.mem_singleton, ih]
        exact or_congr_right ⟨fun h => ⟨hv, h.symm⟩, fun h => h.2.symm⟩
    · rw [if_neg hv, ih]
      exact ⟨.inl, fun h => h.elim id fun h => absurd h.1 hv⟩

theorem InForce.limitOrigin_ne {value : List FlowRule} {rule : FlowRule} (h : InForce value rule) :
    rule.limitOrigin ≠ "" := by
  obtain ⟨r, -, -, rfl⟩ := h
  exact normalizeRule_limitOrigin_ne r

section Maps

variable (setOrder : IterationOrder FlowRule) (m : FlowMaps) (value : List FlowRule)

/-- The maps of any list, the empty one included. -/
theorem configUpdate_eq :
    configUpdate setOrder m value =
      { ruleMap := Assoc.groupBy FlowRule.resource (setOrder.order (tmpSet value))
        trafficControllerMap :=
          (setOrder.order (tmpSet value)).map fun rule => (rule, generateController rule) } := by
  unfold configUpdate
  split_ifs with h
  · obtain rfl : value = [] := List.isEmpty_iff.mp h
    show _ = FlowMaps.mk (Assoc.groupBy FlowRule.resource (setOrder.order [])) _
    rw [show tmpSet [] = [] from rfl, setOrder.order_nil]
    rfl
  · rfl

theorem mem_order {rule : FlowRule} : rule ∈ setOrder.order (tmpSet value) ↔ InForce value rule := by
  rw [(setOrder.perm _).mem_iff, mem_tmpSet]

/-- A resource has the rules in force for it. -/
theorem mem_getRulesForResource (resource : String) (rule : FlowRule) :
    rule ∈ (configUpdate setOrder m value).getRulesForResource resource ↔
      InForce value rule ∧ rule.resource = resource := by
  rw [configUpdate_eq, FlowMaps.getRulesForResource, Assoc.find?_groupBy, ← mem_order setOrder]
  split_ifs with h
  · rw [List.filter_eq_nil_iff] at h
    simp only [Option.getD_none, List.not_mem_nil, false_iff, not_and]
    intro hmem hres
    exact h rule hmem (by simpa using hres)
  · simp

/-- Every rule in force has its own controller. -/
theorem getTrafficControllerFor_eq {rule : FlowRule} (h : InForce value rule) :
    (configUpdate setOrder m value).getTrafficControllerFor rule =
      some (createDefaultController rule) := by
  have hfind : (setOrder.order (tmpSet value)).find? (fun x => x == rule) = some rule := by
    refine find?_beq_of_unique ((mem_order setOrder value).mpr h) fun x hx heq => ?_
    have hx' := (mem_order setOrder value).mp hx
    exact (beq_iff_eq_of_origin hx'.limitOrigin_ne h.limitOrigin_ne).mp heq
  have hcomp : ((fun p : FlowRule × TrafficShapingController => p.1 == rule) ∘
      fun rule => (rule, generateController rule)) = fun x => x == rule := rfl
  rw [configUpdate_eq, FlowMaps.getTrafficControllerFor, List.find?_map, Option.map_map, hcomp, hfind]
  simp

/-- A tag is free when no rule in force for the resource names it. -/
theorem isTagNotInFlowRuleList_iff (resource tag : String) :
    (configUpdate setOrder m value).isTagNotInFlowRuleList resource tag = true ↔
      tag ≠ "" ∧ ∀ rule, InForce value rule → rule.resource = resource → rule.limitOrigin ≠ tag := by
  have hmem : ∀ rule, rule ∈ (configUpdate setOrder m value).getRulesForResource resource ↔
      InForce value rule ∧ rule.resource = resource :=
    mem_getRulesForResource setOrder m value resource
  unfold FlowMaps.isTagNotInFlowRuleList
  unfold FlowMaps.getRulesForResource at hmem
  split_ifs with htag
  · simp [htag]
  · cases hf : (configUpdate setOrder m value).ruleMap.find? resource with
    | none =>
      simp only [hf, Option.getD_none, List.not_mem_nil, false_iff, not_and] at hmem
      simpa [htag] using fun rule hrule hres => absurd hres (hmem rule hrule)
    | some rules =>
      simp only [hf, Option.getD_some] at hmem
      simp only [Bool.not_eq_true', List.any_eq_false, decide_eq_true_eq, hmem, and_imp]
      exact (and_iff_right htag).symm

end Maps

/-! ### Reading twice -/

section Read

variable {t : ℕ} {st st' : ResourceNodeStorage}

theorem readingAt_readAt (h : st.ReadAt t st') (ref : NodeRef) (mode : FlowMetricType) :
    readingAt st' ref t mode = readingAt st ref t mode := by
  have href := h.1 ref
  unfold readingAt passQpsAt
  revert href
  generalize st.node? ref = a
  generalize st'.node? ref = b
  intro href
  cases href with
  | none => rfl
  | @some n n' hread =>
    rcases hread with rfl | rfl
    · rfl
    · cases mode with
      | kThreadCount => rfl
      | kQps =>
        simp [StatisticNode.passQps, StatisticNode.qps, StatisticNode.readSecond,
          SlidingWindowMetric.getSum]

theorem isSome_getClusterNode_readAt (h : st.ReadAt t st') (resource : String) :
    (st'.getClusterNode resource).isSome = (st.getClusterNode resource).isSome := by
  have href := h.1 (.cluster resource)
  simp only [ResourceNodeStorage.node?] at href
  cases ha : st.getClusterNode resource <;>
    cases hb : st'.getClusterNode resource <;> simp [ha, hb] at href ⊢

end Read

/-! ### What a rule means for a call -/

/-- The rule concerns calls with the tag: a default rule all of them, a rule for an origin those with
that tag, an `"other"` rule those with a tag that no rule in force for the resource names. -/
def AppliesTo (value : List FlowRule) (rule : FlowRule) (tag : String) : Prop :=
  let origin := (normalizeRule rule).limitOrigin
  origin = Constants.kLimitOriginDefault ∨
  (origin ≠ Constants.kLimitOriginDefault ∧ origin ≠ Constants.kLimitOriginOther ∧ tag = origin) ∨
  (origin = Constants.kLimitOriginOther ∧ tag ≠ "" ∧
    ∀ r, InForce value r → r.resource = rule.resource → r.limitOrigin ≠ tag)

/-- The node whose traffic the rule limits. -/
def selectedNode (st : ResourceNodeStorage) (rule : FlowRule) (tagNode node : Option NodeRef) :
    Option NodeRef :=
  match rule.strategy with
  | .kDirect =>
    if (normalizeRule rule).limitOrigin = Constants.kLimitOriginDefault then node else tagNode
  | .kAssociatedResource =>
    (st.getClusterNode rule.refResource).map fun _ => .cluster rule.refResource
  | .kInvocationChainEntrance => node

/-- There is such a node, and its traffic with the weight of the call is above the rule's count. -/
def Exceeds (t : ℕ) (st : ResourceNodeStorage) (rule : FlowRule) (tagNode node : Option NodeRef)
    (count : ℤ) : Prop :=
  ∃ ref, selectedNode st rule tagNode node = some ref ∧
    readingAt st ref t rule.metricType + count > rule.count

theorem normalizeRule_of_ne {rule : FlowRule} (h : rule.limitOrigin ≠ "") : normalizeRule rule = rule :=
  if_neg h

@[simp] theorem normalizeRule_normalizeRule (rule : FlowRule) :
    normalizeRule (normalizeRule rule) = normalizeRule rule :=
  normalizeRule_of_ne (normalizeRule_limitOrigin_ne rule)

@[simp] theorem isValidRule_normalizeRule (rule : FlowRule) :
    isValidRule (normalizeRule rule) = isValidRule rule := by
  unfold normalizeRule
  split_ifs <;> rfl

@[simp] theorem normalizeRule_refResource (rule : FlowRule) :
    (normalizeRule rule).refResource = rule.refResource := by
  unfold normalizeRule
  split_ifs <;> rfl

theorem appliesTo_normalizeRule (value : List FlowRule) (rule : FlowRule) (tag : String) :
    AppliesTo value (normalizeRule rule) tag ↔ AppliesTo value rule tag := by
  simp only [AppliesTo, normalizeRule_normalizeRule, normalizeRule_resource]

theorem exceeds_normalizeRule (t : ℕ) (st : ResourceNodeStorage) (rule : FlowRule)
    (tagNode node : Option NodeRef) (count : ℤ) :
    Exceeds t st (normalizeRule rule) tagNode node count ↔ Exceeds t st rule tagNode node count := by
  simp only [Exceeds, selectedNode, normalizeRule_normalizeRule, normalizeRule_strategy,
    normalizeRule_refResource, normalizeRule_metricType, normalizeRule_count]

theorem Exceeds.readAt_iff {t : ℕ} {st st' : ResourceNodeStorage} (h : st.ReadAt t st')
    (rule : FlowRule) (tagNode node : Option NodeRef) (count : ℤ) :
    Exceeds t st' rule tagNode node count ↔ Exceeds t st rule tagNode node count := by
  have hnode : selectedNode st' rule tagNode node = selectedNode st rule tagNode node := by
    have hsome := isSome_getClusterNode_readAt h rule.refResource
    unfold selectedNode
    cases rule.strategy with
    | kDirect => rfl
    | kAssociatedResource =>
      cases ha : st.getClusterNode rule.refResource <;>
        cases hb : st'.getClusterNode rule.refResource <;> simp [ha, hb] at hsome ⊢
    | kInvocationChainEntrance => rfl
  unfold Exceeds
  rw [hnode]
  refine exists_congr fun ref => and_congr_right fun _ => ?_
  rw [readingAt_readAt h]

theorem InForce.isValidRule {value : List FlowRule} {rule : FlowRule} (h : InForce value rule) :
    isValidRule rule = true := by
  obtain ⟨r, -, hr, rfl⟩ := h
  rwa [isValidRule_normalizeRule]

/-- A valid rule that refers to another resource names it. -/
theorem selectNodeByRelStrategy_eq {rule : FlowRule} (hvalid : isValidRule rule = true)
    (hdirect : rule.strategy ≠ .kDirect) (st : ResourceNodeStorage) (tagNode node : Option NodeRef) :
    selectNodeByRelStrategy st rule node = selectedNode st rule tagNode node := by
  unfold selectNodeByRelStrategy selectedNode
  cases hs : rule.strategy with
  | kDirect => exact absurd hs hdirect
  | kAssociatedResource =>
    have href : rule.refResource ≠ "" := by
      simp only [Flow.isValidRule, hs, Bool.and_eq_true, decide_eq_true_eq] at hvalid
      exact hvalid.2.1.resolve_left (by simp)
    rw [if_pos ⟨href, rfl⟩]
  | kInvocationChainEntrance => rw [if_neg (by simp)]

section Check

variable (setOrder : IterationOrder FlowRule) (m : FlowMaps) (value : List FlowRule)
variable {t : ℕ} {st : ResourceNodeStorage} {rule : FlowRule} {tag : String}
variable {tagNode node : Option NodeRef} {count : ℤ}

/-- **The node of a rule in force**: the one the rule is about, when the rule applies. -/
theorem selectNode_spec (hrule : InForce value rule) (st : ResourceNodeStorage) (tag : String)
    (tagNode node : Option NodeRef) :
    (AppliesTo value rule tag → selectNodeByRequesterAndStrategy (configUpdate setOrder m value) st rule
      tag tagNode node = selectedNode st rule tagNode node) ∧
    (¬ AppliesTo value rule tag → selectNodeByRequesterAndStrategy (configUpdate setOrder m value) st
      rule tag tagNode node = none) := by
  have hnorm := normalizeRule_of_ne hrule.limitOrigin_ne
  have hrel := fun h => selectNodeByRelStrategy_eq hrule.isValidRule h st tagNode node
  have hdirect : ∀ n, (rule.strategy = .kDirect → selectedNode st rule tagNode node = n) →
      (if rule.strategy = .kDirect then n else selectNodeByRelStrategy st rule node) =
        selectedNode st rule tagNode node := by
    intro n hn
    split_ifs with h
    · exact (hn h).symm
    · exact hrel h
  have hfree := isTagNotInFlowRuleList_iff setOrder m value rule.resource tag
  have happly : AppliesTo value rule tag ↔ rule.limitOrigin = Constants.kLimitOriginDefault ∨
      (rule.limitOrigin ≠ Constants.kLimitOriginDefault ∧
        rule.limitOrigin ≠ Constants.kLimitOriginOther ∧ tag = rule.limitOrigin) ∨
      (rule.limitOrigin = Constants.kLimitOriginOther ∧
        (configUpdate setOrder m value).isTagNotInFlowRuleList rule.resource tag = true) := by
    rw [hfree, AppliesTo, hnorm]
  have hvalidTag : isValidTag tag = true ↔ tag ≠ "" ∧ tag ≠ Constants.kLimitOriginDefault ∧
      tag ≠ Constants.kLimitOriginOther := by
    simp [isValidTag, and_assoc]
  rw [happly]
  unfold selectNodeByRequesterAndStrategy
  by_cases h1 : tag = rule.limitOrigin ∧ isValidTag tag = true
  · -- the rule names the tag
    rw [if_pos h1]
    obtain ⟨rfl, htag⟩ := h1
    obtain ⟨-, hd, ho⟩ := hvalidTag.mp htag
    refine ⟨fun _ => hdirect _ fun h => ?_, fun hno => absurd (.inr (.inl ⟨hd, ho, rfl⟩)) hno⟩
    simp only [selectedNode, h, hnorm, if_neg hd]
  rw [if_neg h1]
  by_cases h2 : rule.limitOrigin = Constants.kLimitOriginDefault
  · rw [if_pos h2]
    refine ⟨fun _ => hdirect _ fun h => ?_, fun hno => absurd (.inl h2) hno⟩
    simp only [selectedNode, h, hnorm, if_pos h2]
  rw [if_neg h2]
  by_cases h3 : rule.limitOrigin = Constants.kLimitOriginOther ∧
      (configUpdate setOrder m value).isTagNotInFlowRuleList rule.resource tag = true
  · rw [if_pos h3]
    refine ⟨fun _ => hdirect _ fun h => ?_, fun hno => absurd (.inr (.inr h3)) hno⟩
    simp only [selectedNode, h, hnorm, if_neg h2]
  rw [if_neg h3]
  refine ⟨?_, fun _ => rfl⟩
  rintro (h | ⟨hd, ho, rfl⟩ | h)
  · exact absurd h h2
  · exact absurd ⟨rfl, hvalidTag.mpr ⟨hrule.limitOrigin_ne, hd, ho⟩⟩ h1
  · exact absurd h h3

/-- **One rule in force.** -/
theorem canPassCheck_ok_iff (hrule : InForce value rule) :
    (canPassCheck t (configUpdate setOrder m value) rule tag tagNode node count st).2 = .ok ↔
      ¬ (AppliesTo value rule tag ∧ Exceeds t st rule tagNode node count) := by
  obtain ⟨happlies, hnot⟩ := selectNode_spec setOrder m value hrule st tag tagNode node
  unfold canPassCheck passLocalCheck
  rw [if_neg hrule.limitOrigin_ne, getTrafficControllerFor_eq setOrder m value hrule]
  by_cases ha : AppliesTo value rule tag
  · rw [happlies ha, Exceeds]
    cases hs : selectedNode st rule tagNode node with
    | none => simp
    | some ref =>
      simp only [TrafficShapingController.canPass, doCheck_ok_iff, createDefaultController,
        DefaultTrafficShapingCalculator.calculateAllowedTokens, Option.some.injEq, exists_eq_left', ha,
        true_and, gt_iff_lt, not_lt]
  · simp [hnot ha, ha]

/-- Rules that are checked alike in every state a read leads to are a conjunction. -/
theorem checkRules_ok_iff {m : FlowMaps} {P : FlowRule → Prop} {rules : List FlowRule}
    (h : ∀ rule ∈ rules, ∀ st', st.ReadAt t st' →
      ((canPassCheck t m rule tag tagNode node count st').2 = .ok ↔ P rule)) :
    (checkRules t m tag tagNode node count rules st).2 = .ok ↔ ∀ rule ∈ rules, P rule := by
  induction rules generalizing st with
  | nil => simp [checkRules]
  | cons rule rules ih =>
    obtain ⟨hread, hres⟩ := canPassCheck_spec t m rule tag tagNode node count st
    have hrule := h rule List.mem_cons_self st (.refl _ _)
    rw [checkRules, List.forall_mem_cons, ← hrule]
    rcases heq : canPassCheck t m rule tag tagNode node count st with ⟨st', res⟩
    rw [heq] at hread hres
    rcases hres with rfl | rfl
    · have hrest := ih fun r hr st'' hst =>
        h r (List.mem_cons_of_mem _ hr) st'' (hread.trans hst)
      simpa using hrest
    · simp

/-- **The slot is a conjunction** over the rules in force for the resource. -/
theorem flowEntry_configUpdate_ok_iff (t : ℕ) (resource tag : String) (tagNode node : Option NodeRef)
    (count : ℤ) (st : ResourceNodeStorage) :
    (flowEntry t (configUpdate setOrder m value) resource tag tagNode node count st).2 = .ok ↔
      ∀ rule, InForce value rule → rule.resource = resource →
        ¬ (AppliesTo value rule tag ∧ Exceeds t st rule tagNode node count) := by
  have hmem := mem_getRulesForResource setOrder m value resource
  have hcheck : ∀ rule ∈ (configUpdate setOrder m value).getRulesForResource resource,
      ∀ st', st.ReadAt t st' →
        ((canPassCheck t (configUpdate setOrder m value) rule tag tagNode node count st').2 = .ok ↔
          ¬ (AppliesTo value rule tag ∧ Exceeds t st rule tagNode node count)) := by
    intro rule hrule st' hst
    rw [canPassCheck_ok_iff setOrder m value ((hmem rule).mp hrule).1, Exceeds.readAt_iff hst]
  rw [flowEntry, checkRules_ok_iff hcheck]
  simp only [hmem, and_imp]

end Check

/-! ### Lists with the same valid rules -/

/-- One change of a rule list that keeps its valid rules. -/
inductive Rewrite : List FlowRule → List FlowRule → Prop
  | permute {value value' : List FlowRule} (h : value.Perm value') : Rewrite value value'
  | repeatRule {value : List FlowRule} {rule : FlowRule} (h : rule ∈ value) :
      Rewrite value (rule :: value)
  | nameDefault {rule : FlowRule} (h : rule.limitOrigin = "") (value : List FlowRule) :
      Rewrite (rule :: value) ({ rule with limitOrigin := Constants.kLimitOriginDefault } :: value)
  | insertInvalid {rule : FlowRule} (h : isValidRule rule = false) (value : List FlowRule) :
      Rewrite value (rule :: value)

theorem inForce_cons {value : List FlowRule} {r rule : FlowRule} :
    InForce (r :: value) rule ↔
      (isValidRule r = true ∧ normalizeRule r = rule) ∨ InForce value rule := by
  simp only [InForce, List.mem_cons, or_and_right, exists_or, exists_eq_left]

theorem Rewrite.inForce_iff {value value' : List FlowRule} (h : Rewrite value value') (rule : FlowRule) :
    InForce value' rule ↔ InForce value rule := by
  cases h with
  | permute h => simp only [InForce, h.mem_iff]
  | repeatRule h =>
    rw [inForce_cons, or_iff_right_iff_imp]
    rintro ⟨hvalid, hnorm⟩
    exact ⟨_, h, hvalid, hnorm⟩
  | @nameDefault r h value =>
    have hnorm : normalizeRule { r with limitOrigin := Constants.kLimitOriginDefault } =
        normalizeRule r := by
      rw [normalizeRule_of_ne (by show Constants.kLimitOriginDefault ≠ ""; decide), normalizeRule,
        if_pos h]
    have hvalid : isValidRule { r with limitOrigin := Constants.kLimitOriginDefault } = isValidRule r :=
      rfl
    rw [inForce_cons, inForce_cons, hnorm, hvalid]
  | insertInvalid h =>
    rw [inForce_cons, h, or_iff_right_iff_imp]
    rintro ⟨hfalse, -⟩
    exact Bool.noConfusion hfalse

theorem inForce_iff_of_rewrites {value value' : List FlowRule}
    (h : Relation.ReflTransGen Rewrite value value') (rule : FlowRule) :
    InForce value' rule ↔ InForce value rule := by
  induction h with
  | refl => rfl
  | tail _ h ih => exact (h.inForce_iff rule).trans ih

/-- The maps of a fresh manager after `LoadRules(value)`. -/
def loadedMaps (setOrder : IterationOrder FlowRule) (value : List FlowRule) : FlowMaps :=
  ((RuleManager.start (managerKind setOrder)).loadRules (managerKind setOrder) value).1.maps

theorem loadedMaps_eq (setOrder : IterationOrder FlowRule) (value : List FlowRule) :
    loadedMaps setOrder value = configUpdate setOrder (managerKind setOrder).initial value :=
  RuleManager.view_start_loadRules (enforces setOrder) value

/-- **The verdict depends on the valid rules only.**  Whatever orders the hash sets are iterated in,
lists that differ by permutations, repetitions, the spelling of the default origin and invalid rules
lead to the same result; and it is a block exactly when some valid rule of the resource applies to the
call and the traffic of its node with the weight of the call is above its count. -/
theorem flow_verdict (setOrder setOrder' : IterationOrder FlowRule) {value value' : List FlowRule}
    (h : Relation.ReflTransGen Rewrite value value') (t : ℕ) (resource tag : String)
    (tagNode node : Option NodeRef) (count : ℤ) (st : ResourceNodeStorage) :
    (flowEntry t (loadedMaps setOrder' value') resource tag tagNode node count st).2 =
      (flowEntry t (loadedMaps setOrder value) resource tag tagNode node count st).2 ∧
    ((flowEntry t (loadedMaps setOrder value) resource tag tagNode node count st).2 =
        .blocked "FlowException" ↔
      ∃ rule ∈ value, isValidRule rule = true ∧ rule.resource = resource ∧
        AppliesTo value rule tag ∧ Exceeds t st rule tagNode node count) := by
  have hforce := inForce_iff_of_rewrites h
  have happlies : ∀ rule, AppliesTo value' rule tag ↔ AppliesTo value rule tag := by
    intro rule
    simp only [AppliesTo, hforce]
  have hok := flowEntry_configUpdate_ok_iff setOrder (managerKind setOrder).initial value t resource
    tag tagNode node count st
  have hok' := flowEntry_configUpdate_ok_iff setOrder' (managerKind setOrder').initial value' t
    resource tag tagNode node count st
  simp only [hforce, happlies] at hok'
  rw [← loadedMaps_eq] at hok hok'
  have hres := (flowEntry_spec t (loadedMaps setOrder value) resource tag tagNode node count st).2
  have hres' := (flowEntry_spec t (loadedMaps setOrder' value') resource tag tagNode node count st).2
  constructor
  · rcases hres with hr | hr
    · rw [hr]
      exact hok'.mpr (hok.mp hr)
    · rcases hres' with hr' | hr'
      · rw [hok.mpr (hok'.mp hr')] at hr
        exact TokenResult.noConfusion hr
      · rw [hr, hr']
  · have hblocked : (flowEntry t (loadedMaps setOrder value) resource tag tagNode node count st).2 =
        .blocked "FlowException" ↔
        ¬ (flowEntry t (loadedMaps setOrder value) resource tag tagNode node count st).2 = .ok := by
      rcases hres with hr | hr <;> simp [hr]
    rw [hblocked, hok]
    push Not
    constructor
    · rintro ⟨_, ⟨r, hr, hvalid, rfl⟩, hresource, happly, hexceeds⟩
      exact ⟨r, hr, hvalid, by rwa [normalizeRule_resource] at hresource,
        (appliesTo_normalizeRule value r tag).mp happly, (exceeds_normalizeRule ..).mp hexceeds⟩
    · rintro ⟨r, hr, hvalid, hresource, happly, hexceeds⟩
      exact ⟨normalizeRule r, ⟨r, hr, hvalid, rfl⟩, by rwa [normalizeRule_resource],
        (appliesTo_normalizeRule value r tag).mpr happly, (exceeds_normalizeRule ..).mpr hexceeds⟩

/-- A resource closed for everyone by a rule without an origin, and the same list with the rule spelled
out, moved behind another one that is repeated, after a rule that is not valid. -/
theorem flow_verdict_example :
    let closed : FlowRule := { resource := "r", limitOrigin := "", count := 0 }
    let vip : FlowRule := { resource := "r", limitOrigin := "vip", count := 5 }
    let st := (ResourceNodeStorage.mk' {}).getOrCreateClusterNode {} "r"
    (flowEntry 7 (loadedMaps ⟨List.reverse, List.reverse_perm⟩
      [{ resource := "r", count := -1 }, vip, vip, { closed with limitOrigin := "default" }])
      "r" "guest" none (some (.cluster "r")) 1 st).2 = .blocked "FlowException" := by
  intro closed vip st
  have hrewrites : Relation.ReflTransGen Rewrite [closed, vip]
      [{ resource := "r", count := -1 }, vip, vip, { closed with limitOrigin := "default" }] :=
    .tail (.tail (.tail (.single (.nameDefault rfl [vip])) (.permute (.swap ..)))
      (.repeatRule List.mem_cons_self)) (.insertInvalid (by decide) _)
  obtain ⟨hsame, hiff⟩ := flow_verdict (.insertion FlowRule) ⟨List.reverse, List.reverse_perm⟩
    hrewrites 7 "r" "guest" none (some (.cluster "r")) 1 st
  rw [hsame, hiff]
  exact ⟨closed, List.mem_cons_self, by decide, rfl, .inl rfl, .cluster "r", rfl, by decide +kernel⟩

end SentinelCpp.Flow
