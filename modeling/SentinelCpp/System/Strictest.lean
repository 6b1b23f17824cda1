import SentinelCpp.Lib.Fold
import SentinelCpp.System.Slot

/-!
# The strictest rules

The map keeps one rule for each metric type, with the smallest valid threshold.  A check that passes with
a threshold passes with every larger one, and reading the node changes no later check: the map admits what
every valid rule on its own admits, in any order of iteration.
-/

namespace SentinelCpp.System

open SentinelCpp.Lib SentinelCpp.Stat

/-! ### What the map keeps -/

/-- The rules kept come from the valid ones of `values`, the strictest of each type. -/
structure Strictest (values : List SystemRule) (m : SystemRuleMap) : Prop where
  nodup : (m.map Prod.fst).Nodup
  mem : ∀ type kept, m.find? type = some kept → ∃ r ∈ values,
    isValidRule r = true ∧ r.metricType = type ∧ r.threshold = kept.threshold
  le : ∀ r ∈ values, isValidRule r = true →
    ∃ kept, m.find? r.metricType = some kept ∧ kept.threshold ≤ r.threshold

namespace Strictest

variable {values : List SystemRule} {m : SystemRuleMap} {rule : SystemRule}

theorem nil : Strictest [] [] where
  nodup := List.nodup_nil
  mem := fun type kept h => by simp at h
  le := fun r hr => absurd hr List.not_mem_nil

/-- A rule that leaves the map as it is: not valid, or no stricter than the one there. -/
theorem skip (h : Strictest values m)
    (hrule : isValidRule rule = true →
      ∃ kept, m.find? rule.metricType = some kept ∧ kept.threshold ≤ rule.threshold) :
    Strictest (values ++ [rule]) m where
  nodup := h.nodup
  mem := fun type kept hkept => by
    obtain ⟨r, hr, hspec⟩ := h.mem type kept hkept
    exact ⟨r, List.mem_append_left _ hr, hspec⟩
  le := fun r hr hvalid => by
    rcases List.mem_append.mp hr with hr | hr
    · exact h.le r hr hvalid
    · obtain rfl := List.mem_singleton.mp hr
      exact hrule hvalid

/-- A rule that takes the place of its type. -/
theorem put (h : Strictest values m) (hvalid : isValidRule rule = true) {m' : SystemRuleMap}
    (hnodup : (m'.map Prod.fst).Nodup) (kept : SystemRule) (hkept : kept.threshold = rule.threshold)
    (hfind : ∀ type, m'.find? type = if type = rule.metricType then some kept else m.find? type)
    (hless : ∀ old, m.find? rule.metricType = some old → rule.threshold ≤ old.threshold) :
    Strictest (values ++ [rule]) m' where
  nodup := hnodup
  mem := fun type r hr => by
    rw [hfind] at hr
    split_ifs at hr with htype
    · obtain rfl := Option.some.inj hr
      exact ⟨rule, by simp, hvalid, htype.symm, hkept.symm⟩
    · obtain ⟨r', hr', hspec⟩ := h.mem type r hr
      exact ⟨r', List.mem_append_left _ hr', hspec⟩
  le := fun r hr hr' => by
    rw [hfind]
    rcases List.mem_append.mp hr with hr | hr
    · obtain ⟨old, hold, hle⟩ := h.le r hr hr'
      split_ifs with htype
      · rw [htype] at hold
        exact ⟨kept, rfl, hkept.le.trans ((hless old hold).trans hle)⟩
      · exact ⟨old, hold, hle⟩
    · obtain rfl := List.mem_singleton.mp hr
      exact ⟨kept, if_pos rfl, hkept.le⟩

/-- One round of the loop. -/
theorem addRule (h : Strictest values m) (rule : SystemRule) :
    Strictest (values ++ [rule]) (addRule m rule) := by
  unfold System.addRule
  by_cases hvalid : isValidRule rule = true
  · rw [if_pos hvalid]
    cases hfind : m.find? rule.metricType with
    | none =>
      refine h.put hvalid ?_ rule rfl (Assoc.find?_concat hfind rule) (fun old hold => ?_)
      · have hnew := Assoc.nodup_insertNew h.nodup rule.metricType rule
        rwa [Assoc.insertNew, hfind, Option.isSome_none, if_neg Bool.false_ne_true] at hnew
      · rw [hfind] at hold
        exact absurd hold (Option.some_ne_none old).symm
    | some old =>
      dsimp only
      split_ifs with hless
      · refine h.put hvalid ?_ { old with threshold := rule.threshold } rfl
          (fun type => ?_) (fun old' hold' => ?_)
        · rw [Assoc.keys_modify]
          exact h.nodup
        · rw [Assoc.find?_modify]
          split_ifs with htype
          · rw [htype, hfind, Option.map_some]
          · rfl
        · rw [hfind] at hold'
          obtain rfl := Option.some.inj hold'
          exact hless.le
      · exact h.skip fun _ => ⟨old, hfind, not_lt.mp hless⟩
  · rw [if_neg hvalid]
    exact h.skip fun hvalid' => absurd hvalid' hvalid

/-- **`ConfigUpdate` keeps the strictest rules.** -/
theorem configUpdate (old : Option SystemRuleMap) (values : List SystemRule) :
    Strictest values ((configUpdate old values).getD []) := by
  show Strictest values (values.foldl System.addRule [])
  exact foldl_rounds nil (fun _ _ rule h => h.addRule rule) values

end Strictest

/-! ### Checks -/

section Checks

variable {t : ℕ} {status : SystemStatus} {count : ℤ} {node node' : StatisticNode}
  {type : MetricType} {rule rule' : SystemRule}

/-- A check passes with every larger threshold. -/
theorem checkRule_mono (hle : rule.threshold ≤ rule'.threshold)
    (h : (checkRule t status count node type rule).2 = true) :
    (checkRule t status count node type rule').2 = true := by
  unfold checkRule at h ⊢
  cases type with
  | kQps | kConcurrency | kRt =>
    simp only [gt_iff_lt, Bool.not_eq_true', decide_eq_false_iff_not, not_lt] at h ⊢
    exact h.trans hle
  | kSystemLoad | kCpuUsage =>
    -- the second condition of these does not look at the threshold
    dsimp only at h ⊢
    split_ifs at h ⊢ with hhigh hlow
    · exact h
    · exact absurd (hle.trans_lt hhigh) hlow
    · rfl
    · rfl

theorem checkBbr_readSecond (concurrency : ℚ) :
    (checkBbr t concurrency (node.readSecond t)).2 = (checkBbr t concurrency node).2 := by
  simp only [checkBbr, StatisticNode.maxCompleteQps_readSecond]
  split_ifs <;> rfl

/-- The reads of other checks change nothing for a check. -/
theorem checkRule_readAt_snd (h : node.ReadAt t node') :
    (checkRule t status count node' type rule).2 = (checkRule t status count node type rule).2 := by
  rcases h with rfl | rfl
  · rfl
  · unfold checkRule
    cases type with
    | kQps =>
      dsimp only
      rw [StatisticNode.passQps_readSecond]
    | kConcurrency => rfl
    | kRt =>
      dsimp only
      rw [StatisticNode.avgRt_readSecond]
    | kSystemLoad | kCpuUsage =>
      dsimp only
      split_ifs
      · exact checkBbr_readSecond _
      · rfl

/-- **`CheckSystem` passes** when every rule of the map does, checked in the state before. -/
theorem checkSystem_eq_ok_iff (rules : List (MetricType × SystemRule)) :
    (checkSystem t status count rules node).2 = .ok ↔
      ∀ p ∈ rules, (checkRule t status count node p.1 p.2).2 = true := by
  induction rules generalizing node with
  | nil => exact ⟨fun _ p hp => absurd hp List.not_mem_nil, fun _ => rfl⟩
  | cons p rules ih =>
    obtain ⟨type, rule⟩ := p
    have hread := checkRule_readAt t status count node type rule
    rw [checkSystem, List.forall_mem_cons]
    rcases hres : checkRule t status count node type rule with ⟨node', _ | _⟩
    · simp
    · rw [hres] at hread
      dsimp only
      rw [ih]
      simp only [checkRule_readAt_snd hread, true_and]

variable {values values' : List SystemRule}

/-- The map passes when each of the valid rules does. -/
theorem checkSystem_configUpdate (mapOrder : IterationOrder (MetricType × SystemRule))
    (old : Option SystemRuleMap) :
    (checkSystem t status count (mapOrder.order ((configUpdate old values).getD [])) node).2 = .ok ↔
      ∀ r ∈ values, isValidRule r = true →
        (checkRule t status count node r.metricType r).2 = true := by
  have hmap := Strictest.configUpdate old values
  rw [checkSystem_eq_ok_iff]
  simp only [(mapOrder.perm _).mem_iff, Prod.forall]
  constructor
  · intro h r hr hvalid
    obtain ⟨kept, hkept, hle⟩ := hmap.le r hr hvalid
    exact checkRule_mono hle (h _ kept ((Assoc.mem_iff_find? hmap.nodup).mpr hkept))
  · intro h type kept hkept
    obtain ⟨r, hr, hvalid, rfl, hthreshold⟩ :=
      hmap.mem type kept ((Assoc.mem_iff_find? hmap.nodup).mp hkept)
    exact checkRule_mono hthreshold.le (h r hr hvalid)

end Checks

/-- **Keeping the strictest rules is enough.**  The map built from a list of rules passes if and only if
each valid rule passes alone; so the verdict is the same for every list with the same rules, and for every
order of iteration. -/
theorem strictest_suffices (t : ℕ) (status : SystemStatus) (count : ℤ) (node : StatisticNode)
    (old : Option SystemRuleMap) (values : List SystemRule)
    (mapOrder : IterationOrder (MetricType × SystemRule)) :
    ((checkSystem t status count (mapOrder.order ((configUpdate old values).getD [])) node).2 = .ok ↔
      ∀ r ∈ values, isValidRule r = true →
        (checkSystem t status count [(r.metricType, r)] node).2 = .ok) ∧
    ∀ (values' : List SystemRule), (∀ r, r ∈ values ↔ r ∈ values') →
      ∀ (old' : Option SystemRuleMap) (mapOrder' : IterationOrder (MetricType × SystemRule)),
      (checkSystem t status count (mapOrder.order ((configUpdate old values).getD [])) node).2 =
        (checkSystem t status count (mapOrder'.order ((configUpdate old' values').getD [])) node).2 := by
  refine ⟨?_, fun values' hsame old' mapOrder' => ?_⟩
  · rw [checkSystem_configUpdate]
    simp only [checkSystem_eq_ok_iff, List.mem_singleton, forall_eq]
  · have hiff : (checkSystem t status count
        (mapOrder.order ((configUpdate old values).getD [])) node).2 = .ok ↔
        (checkSystem t status count
          (mapOrder'.order ((configUpdate old' values').getD [])) node).2 = .ok := by
      rw [checkSystem_configUpdate, checkSystem_configUpdate]
      simp only [hsame]
    -- a slot that does not pass has one answer
    rcases (checkSystem_spec t status count
      (mapOrder.order ((configUpdate old values).getD [])) node).2 with hok | hblocked
    · rw [hok, hiff.mp hok]
    · rcases (checkSystem_spec t status count
        (mapOrder'.order ((configUpdate old' values').getD [])) node).2 with hok' | hblocked'
      · rw [hok', hiff.mpr hok']
      · rw [hblocked, hblocked']

end SentinelCpp.System
