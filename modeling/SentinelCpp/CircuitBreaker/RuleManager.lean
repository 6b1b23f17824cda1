import SentinelCpp.CircuitBreaker.Breaker
import SentinelCpp.Lib.Assoc
import SentinelCpp.Lib.Fold
import SentinelCpp.Property
import Mathlib.Data.List.Dedup

/-!
# The circuit-breaker rule manager

Breakers are shared objects: `breakers` holds every instance ever made, a map entry names it by its
index.  `ConfigUpdate` builds a new map, taking over an instance of the installed map when its rule is
the same, and derives the rule map from it.
-/

namespace SentinelCpp.CircuitBreaker

open SentinelCpp.Lib SentinelCpp.Property

/-- `IsValidRule`. -/
def isValidRule (rule : Rule) : Bool :=
  if ¬ (rule.resource ≠ "" ∧ rule.threshold ≥ 0) then false
  else if rule.retryTimeoutSec ≤ 0 ∨ rule.statIntervalMs ≤ 0 ∨ rule.minRequestAmount < 0 then false
  else
    match rule.strategy with
    | .kSlowRtRatio => decide (rule.maxAllowedRt ≥ 0 ∧ rule.threshold ≤ 1)
    | .kErrorRatio => decide (rule.threshold ≤ 1)
    | .kErrorCount => true

structure CircuitBreakerMaps where
  breakers : List AbstractCircuitBreaker
  cbMap : Assoc String (List ℕ)
  ruleMap : Assoc String (List Rule)

/-- `NewCircuitBreaker(rule)`; no class serves the error-count strategy. -/
def newCircuitBreaker (rule : Rule) : Option AbstractCircuitBreaker :=
  match rule.strategy with
  | .kSlowRtRatio => some (.mk' rule .responseTimeCircuitBreaker)
  | .kErrorRatio => some (.mk' rule .errorCircuitBreaker)
  | .kErrorCount => none

/-- The strategies `NewCircuitBreaker` builds a breaker for. -/
def hasBreaker (rule : Rule) : Bool := (newCircuitBreaker rule).isSome

namespace CircuitBreakerMaps

/-- `GetCircuitBreakers(resource)`. -/
def getCircuitBreakers (m : CircuitBreakerMaps) (resource : String) : List ℕ :=
  (m.cbMap.find? resource).getD []

/-- The installed breaker of the resource with the same rule, if any. -/
def findSameCb (m : CircuitBreakerMaps) (rule : Rule) : Option ℕ :=
  (m.getCircuitBreakers rule.resource).find? fun id =>
    (m.breakers[id]?).any fun cb => rule == cb.rule

/-- `GetExistingSameCbOrNew(rule)`: the instance to use, with the instances made so far in
`breakers`. -/
def getExistingSameCbOrNew (m : CircuitBreakerMaps) (breakers : List AbstractCircuitBreaker) (rule : Rule) :
    List AbstractCircuitBreaker × Option ℕ :=
  match m.findSameCb rule with
  | some id => (breakers, some id)
  | none =>
    match newCircuitBreaker rule with
    | some cb => (breakers ++ [cb], some breakers.length)
    | none => (breakers, none)

/-- One round of the loop of `BuildCircuitBreakerMap`. -/
def addBreaker (m : CircuitBreakerMaps) (acc : List AbstractCircuitBreaker × Assoc String (List ℕ))
    (rule : Rule) : List AbstractCircuitBreaker × Assoc String (List ℕ) :=
  if isValidRule rule then
    match m.getExistingSameCbOrNew acc.1 rule with
    | (breakers, some id) => (breakers, acc.2.pushTo rule.resource id)
    | (breakers, none) => (breakers, acc.2)
  else acc

/-- `BuildCircuitBreakerMap(list)`. -/
def buildCircuitBreakerMap (m : CircuitBreakerMaps) (list : List Rule) :
    List AbstractCircuitBreaker × Assoc String (List ℕ) :=
  list.foldl m.addBreaker (m.breakers, [])

/-- The rules of the breakers `ids`, each once (`RuleSet`). -/
def ruleSet (breakers : List AbstractCircuitBreaker) (ids : List ℕ) : List Rule :=
  (ids.filterMap fun id => (breakers[id]?).map AbstractCircuitBreaker.rule).dedup

/-- `RulePropertyListener::ConfigUpdate`. -/
def configUpdate (m : CircuitBreakerMaps) (value : List Rule) : CircuitBreakerMaps :=
  if value.isEmpty then { m with cbMap := [], ruleMap := [] }
  else
    let cbs := m.buildCircuitBreakerMap value
    { breakers := cbs.1
      cbMap := cbs.2
      ruleMap := (cbs.2.filter fun kv => kv.2 ≠ []).map fun kv => (kv.1, ruleSet cbs.1 kv.2) }

end CircuitBreakerMaps

/-- `RuleManager` with its property listener. -/
def managerKind : ManagerKind Rule CircuitBreakerMaps where
  listenerName := "CircuitBreakerRulePropertyListener"
  initial := { breakers := [], cbMap := [], ruleMap := [] }
  configUpdate := CircuitBreakerMaps.configUpdate

/-! ### The maps built from a list -/

namespace CircuitBreakerMaps

/-- The rules of `list` that get a breaker on the resource, in the order of the list. -/
def served (list : List Rule) (resource : String) : List Rule :=
  list.filter fun rule => isValidRule rule && (hasBreaker rule && rule.resource = resource)

/-- The rules of the breakers that serve a resource. -/
def rulesServed (m : CircuitBreakerMaps) (resource : String) : List Rule :=
  (m.getCircuitBreakers resource).filterMap fun id =>
    (m.breakers[id]?).map AbstractCircuitBreaker.rule

/-- The rules in force for a resource: those of its breakers, and the entry of the rule map. -/
def inForce (m : CircuitBreakerMaps) (resource : String) : List Rule × Option (List Rule) :=
  (m.rulesServed resource, m.ruleMap.find? resource)

/-- Every instance was built for its rule; the map of a resource names instances of its rules. -/
structure Valid (m : CircuitBreakerMaps) : Prop where
  built : ∀ cb ∈ m.breakers, hasBreaker cb.rule = true
  ids : ∀ resource, ∀ id ∈ m.getCircuitBreakers resource,
    ∃ cb, m.breakers[id]? = some cb ∧ cb.rule.resource = resource

/-- What the loop of `BuildCircuitBreakerMap` has made of the rules `list`. -/
structure Built (m : CircuitBreakerMaps) (list : List Rule)
    (acc : List AbstractCircuitBreaker × Assoc String (List ℕ)) : Prop where
  kept : m.breakers <+: acc.1
  built : ∀ cb ∈ acc.1, hasBreaker cb.rule = true
  rules : ∀ resource, ((acc.2.find? resource).getD []).map
      (fun id => (acc.1[id]?).map AbstractCircuitBreaker.rule) =
    (served list resource).map some
  absent : ∀ resource, acc.2.find? resource = none ↔ served list resource = []

theorem served_concat (list : List Rule) (rule : Rule) (resource : String) :
    served (list ++ [rule]) resource = served list resource ++
      if (isValidRule rule && (hasBreaker rule && rule.resource = resource)) = true then [rule]
      else [] := by
  rw [served, List.filter_append, ← served]
  congr 1
  simp only [List.filter_cons, List.filter_nil]

/-- A rule that gets no breaker changes nothing. -/
theorem served_concat_of_not {list : List Rule} {rule : Rule}
    (hno : (isValidRule rule && hasBreaker rule) = false) (resource : String) :
    served (list ++ [rule]) resource = served list resource := by
  rw [served_concat, ← Bool.and_assoc, hno]
  simp

theorem hasBreaker_of_new {rule : Rule} {cb : AbstractCircuitBreaker}
    (h : newCircuitBreaker rule = some cb) : hasBreaker rule = true ∧ cb.rule = rule := by
  refine ⟨by simp [hasBreaker, h], ?_⟩
  unfold newCircuitBreaker at h
  cases hs : rule.strategy <;> simp only [hs] at h
  · obtain rfl := Option.some.inj h
    rfl
  · obtain rfl := Option.some.inj h
    rfl
  · exact absurd h (by simp)

theorem findSameCb_spec {m : CircuitBreakerMaps} {rule : Rule} {id : ℕ}
    (h : m.findSameCb rule = some id) : id ∈ m.getCircuitBreakers rule.resource ∧
      ∃ cb, m.breakers[id]? = some cb ∧ cb.rule = rule := by
  have hmem := List.mem_of_find?_eq_some h
  have hsome := List.find?_some h
  cases hcb : m.breakers[id]? with
  | none => simp [hcb] at hsome
  | some cb =>
    rw [hcb, Option.any_some] at hsome
    exact ⟨hmem, cb, rfl, (Rule.beq_iff.mp hsome).symm⟩

/-- **Each round of the loop** skips its rule, names the rule's instance, or adds one. -/
theorem addBreaker_cases (m : CircuitBreakerMaps)
    (acc : List AbstractCircuitBreaker × Assoc String (List ℕ)) (rule : Rule) :
    ((isValidRule rule && hasBreaker rule) = false ∧ m.addBreaker acc rule = acc) ∨
    (∃ id, isValidRule rule = true ∧ m.findSameCb rule = some id ∧
      m.addBreaker acc rule = (acc.1, acc.2.pushTo rule.resource id)) ∨
    ∃ cb, isValidRule rule = true ∧ m.findSameCb rule = none ∧ newCircuitBreaker rule = some cb ∧
      m.addBreaker acc rule = (acc.1 ++ [cb], acc.2.pushTo rule.resource acc.1.length) := by
  unfold addBreaker getExistingSameCbOrNew
  cases hv : isValidRule rule with
  | false => exact .inl ⟨rfl, rfl⟩
  | true =>
    rw [if_pos rfl]
    cases hf : m.findSameCb rule with
    | some id => exact .inr (.inl ⟨id, rfl, rfl, rfl⟩)
    | none =>
      cases hn : newCircuitBreaker rule with
      | none => exact .inl ⟨by simp [hasBreaker, hn], rfl⟩
      | some cb => exact .inr (.inr ⟨cb, rfl, rfl, rfl, rfl⟩)

/-- Pushing an instance of `rule` under its resource. -/
theorem Built.push {m : CircuitBreakerMaps} {list : List Rule} {rule : Rule} {id : ℕ}
    {acc : List AbstractCircuitBreaker × Assoc String (List ℕ)}
    {breakers : List AbstractCircuitBreaker} (h : Built m list acc) (hkeep : acc.1 <+: breakers)
    (hbuilt : ∀ cb ∈ breakers, hasBreaker cb.rule = true)
    (hid : (breakers[id]?).map AbstractCircuitBreaker.rule = some rule)
    (hv : isValidRule rule = true) :
    Built m (list ++ [rule]) (breakers, acc.2.pushTo rule.resource id) := by
  have hb : hasBreaker rule = true := by
    cases hcb : breakers[id]? with
    | none => simp [hcb] at hid
    | some cb =>
      rw [hcb, Option.map_some, Option.some.injEq] at hid
      exact hid ▸ hbuilt cb (List.mem_of_getElem? hcb)
  -- an instance already named stays where it is when instances are added
  have hsame : ∀ resource, ((acc.2.find? resource).getD []).map
      (fun id => (breakers[id]?).map AbstractCircuitBreaker.rule) =
        (served list resource).map some := by
    intro resource
    rw [← h.rules resource]
    refine List.map_congr_left fun j hj => ?_
    have hmem := List.mem_map_of_mem
      (f := fun id => (acc.1[id]?).map AbstractCircuitBreaker.rule) hj
    rw [h.rules resource] at hmem
    obtain ⟨r, -, hr⟩ := List.mem_map.mp hmem
    cases hacc : acc.1[j]? with
    | none => simp [hacc] at hr
    | some cb =>
      obtain ⟨l, rfl⟩ := hkeep
      rw [List.getElem?_append_left (List.getElem?_eq_some_iff.mp hacc).1, hacc]
  refine ⟨h.kept.trans hkeep, hbuilt, fun resource => ?_, fun resource => ?_⟩
  · rw [Assoc.find?_pushTo, served_concat]
    by_cases hr : resource = rule.resource
    · subst hr
      simp [hv, hb, hsame rule.resource, hid]
    · simp [hr, Ne.symm hr, hsame resource]
  · rw [Assoc.find?_pushTo, served_concat]
    by_cases hr : resource = rule.resource
    · subst hr
      simp [hv, hb]
    · simp [hr, Ne.symm hr, h.absent resource]

/-- Each round of the loop serves one more rule. -/
theorem Built.addBreaker {m : CircuitBreakerMaps} {list : List Rule}
    {acc : List AbstractCircuitBreaker × Assoc String (List ℕ)} (h : Built m list acc)
    (rule : Rule) : Built m (list ++ [rule]) (m.addBreaker acc rule) := by
  rcases m.addBreaker_cases acc rule with ⟨hno, heq⟩ | ⟨id, hv, hf, heq⟩ | ⟨cb, hv, -, hn, heq⟩
  · rw [heq]
    have hs := @served_concat_of_not list rule hno
    exact ⟨h.kept, h.built, fun resource => by rw [hs, h.rules],
      fun resource => by rw [hs, h.absent]⟩
  · obtain ⟨-, cb, hcb, hrule⟩ := findSameCb_spec hf
    rw [heq]
    refine h.push List.prefix_rfl h.built ?_ hv
    obtain ⟨l, hl⟩ := h.kept
    rw [← hl, List.getElem?_append_left (List.getElem?_eq_some_iff.mp hcb).1, hcb]
    exact congrArg some hrule
  · obtain ⟨hb, hrule⟩ := hasBreaker_of_new hn
    rw [heq]
    refine h.push (List.prefix_append _ _) (fun c hc => ?_) ?_ hv
    · rcases List.mem_append.mp hc with hc | hc
      · exact h.built c hc
      · obtain rfl := List.mem_singleton.mp hc
        exact hrule ▸ hb
    · simp [hrule]

/-- **Induction over the rounds** of `BuildCircuitBreakerMap`. -/
theorem buildCircuitBreakerMap_rounds (m : CircuitBreakerMaps)
    {P : List Rule → List AbstractCircuitBreaker × Assoc String (List ℕ) → Prop}
    (hstart : P [] (m.breakers, []))
    (hround : ∀ list acc rule, P list acc → P (list ++ [rule]) (m.addBreaker acc rule))
    (list : List Rule) : P list (m.buildCircuitBreakerMap list) :=
  foldl_rounds hstart hround list

theorem built_buildCircuitBreakerMap {m : CircuitBreakerMaps} (hm : m.Valid) (list : List Rule) :
    Built m list (m.buildCircuitBreakerMap list) := by
  refine m.buildCircuitBreakerMap_rounds ?_ (fun _ _ rule ih => ih.addBreaker rule) list
  exact ⟨List.prefix_rfl, hm.built, fun _ => rfl, fun _ => by simp [served]⟩

theorem Built.filterMap_rules {m : CircuitBreakerMaps} {list : List Rule}
    {acc : List AbstractCircuitBreaker × Assoc String (List ℕ)} (h : Built m list acc)
    (resource : String) : ((acc.2.find? resource).getD []).filterMap
      (fun id => (acc.1[id]?).map AbstractCircuitBreaker.rule) = served list resource := by
  have := congrArg (List.filterMap id) (h.rules resource)
  rw [List.filterMap_map, List.filterMap_map] at this
  simpa using this

theorem Built.valid {m : CircuitBreakerMaps} {list : List Rule}
    {acc : List AbstractCircuitBreaker × Assoc String (List ℕ)} (h : Built m list acc)
    (ruleMap : Assoc String (List Rule)) :
    Valid { breakers := acc.1, cbMap := acc.2, ruleMap := ruleMap } := by
  refine ⟨h.built, fun resource id hid => ?_⟩
  have hmem := List.mem_map_of_mem
    (f := fun id => (acc.1[id]?).map AbstractCircuitBreaker.rule) hid
  rw [show CircuitBreakerMaps.getCircuitBreakers ⟨acc.1, acc.2, ruleMap⟩ resource =
    (acc.2.find? resource).getD [] from rfl, h.rules resource] at hmem
  obtain ⟨r, hr, hid'⟩ := List.mem_map.mp hmem
  cases hcb : acc.1[id]? with
  | none => simp [hcb] at hid'
  | some cb =>
    rw [hcb, Option.map_some, Option.some.injEq] at hid'
    refine ⟨cb, rfl, ?_⟩
    simp only [served, List.mem_filter, Bool.and_eq_true, decide_eq_true_eq] at hr
    rw [← hid']
    exact hr.2.2.2

theorem find?_map_ruleSet (breakers : List AbstractCircuitBreaker)
    (cbs : Assoc String (List ℕ)) (hne : ∀ kv ∈ cbs, kv.2 ≠ []) (resource : String) :
    Assoc.find? ((cbs.filter fun kv => kv.2 ≠ []).map fun kv => (kv.1, ruleSet breakers kv.2))
        resource =
      (cbs.find? resource).map (ruleSet breakers) := by
  have hall : (cbs.filter fun kv => kv.2 ≠ []) = cbs :=
    List.filter_eq_self.mpr fun kv hkv => by simp [hne kv hkv]
  rw [hall]
  clear hne hall
  induction cbs with
  | nil => rfl
  | cons kv cbs ih =>
    rw [List.map_cons, Assoc.find?_cons, Assoc.find?_cons, ih]
    by_cases hk : kv.1 = resource <;> simp [hk]

theorem pushTo_ne_nil {m : Assoc String (List ℕ)} (h : ∀ kv ∈ m, kv.2 ≠ []) (k : String) (id : ℕ) :
    ∀ kv ∈ m.pushTo k id, kv.2 ≠ [] := by
  unfold Assoc.pushTo
  split_ifs
  · intro kv hkv
    obtain ⟨p, hp, rfl⟩ := List.mem_map.mp hkv
    by_cases hpk : p.1 = k
    · simp [hpk]
    · simpa [hpk] using h p hp
  · intro kv hkv
    rcases List.mem_append.mp hkv with hkv | hkv
    · exact h kv hkv
    · obtain rfl := List.mem_singleton.mp hkv
      simp

theorem addBreaker_ne_nil (m : CircuitBreakerMaps)
    {acc : List AbstractCircuitBreaker × Assoc String (List ℕ)} (h : ∀ kv ∈ acc.2, kv.2 ≠ [])
    (rule : Rule) : ∀ kv ∈ (m.addBreaker acc rule).2, kv.2 ≠ [] := by
  rcases m.addBreaker_cases acc rule with ⟨-, heq⟩ | ⟨id, -, -, heq⟩ | ⟨cb, -, -, -, heq⟩
  · rw [heq]
    exact h
  · rw [heq]
    exact pushTo_ne_nil h _ _
  · rw [heq]
    exact pushTo_ne_nil h _ _

theorem buildCircuitBreakerMap_ne_nil (m : CircuitBreakerMaps) (list : List Rule) :
    ∀ kv ∈ (m.buildCircuitBreakerMap list).2, kv.2 ≠ [] :=
  m.buildCircuitBreakerMap_rounds (P := fun _ acc => ∀ kv ∈ acc.2, kv.2 ≠ []) (by simp)
    (fun _ _ rule ih => addBreaker_ne_nil m ih rule) list

theorem configUpdate_valid {m : CircuitBreakerMaps} (hm : m.Valid) (value : List Rule) :
    (m.configUpdate value).Valid := by
  unfold configUpdate
  split_ifs
  · exact ⟨hm.built, fun resource id hid => by simp [getCircuitBreakers] at hid⟩
  · exact (built_buildCircuitBreakerMap hm value).valid _

/-- **What is in force after a delivery**: the rules that get a breaker, and their set. -/
theorem inForce_configUpdate {m : CircuitBreakerMaps} (hm : m.Valid) (value : List Rule)
    (resource : String) : (m.configUpdate value).inForce resource =
      (served value resource,
        if served value resource = [] then none else some (served value resource).dedup) := by
  unfold configUpdate
  by_cases hv : value = []
  · subst hv
    simp [inForce, rulesServed, getCircuitBreakers, served]
  · have hB := built_buildCircuitBreakerMap hm value
    have hne : value.isEmpty = false := by simpa using hv
    simp only [hne, Bool.false_eq_true, if_false]
    refine Prod.ext (hB.filterMap_rules resource) ?_
    simp only [inForce]
    rw [find?_map_ruleSet _ _ (m.buildCircuitBreakerMap_ne_nil value)]
    have hrules := hB.filterMap_rules resource
    cases hf : (m.buildCircuitBreakerMap value).2.find? resource with
    | none => simp [(hB.absent resource).mp hf]
    | some ids =>
      have hs : served value resource ≠ [] := by
        rw [ne_eq, ← hB.absent resource, hf]
        simp
      rw [if_neg hs, Option.map_some, ruleSet]
      rw [hf, Option.getD_some] at hrules
      rw [hrules]

theorem valid_initial : managerKind.initial.Valid :=
  ⟨by simp [managerKind], by simp [managerKind, getCircuitBreakers]⟩

theorem enforces : RuleManager.Enforces managerKind Valid inForce
    (fun l => inForce (configUpdate managerKind.initial l)) where
  inv_initial := valid_initial
  view_initial := rfl
  inv_configUpdate := fun _ l hv => configUpdate_valid hv l
  view_configUpdate := fun v l hv => by
    funext resource
    rw [inForce_configUpdate valid_initial]
    exact inForce_configUpdate hv l resource

/-! ### Distinct instances -/

/-- No breaker twice on a resource. -/
def Distinct (m : CircuitBreakerMaps) : Prop := ∀ resource, (m.getCircuitBreakers resource).Nodup

/-- With nothing installed every rule gets an instance of its own. -/
theorem distinct_buildCircuitBreakerMap {m : CircuitBreakerMaps} (hm : m.cbMap = [])
    (list : List Rule) :
    ∀ resource, (((m.buildCircuitBreakerMap list).2.find? resource).getD []).Nodup ∧
      ∀ id ∈ ((m.buildCircuitBreakerMap list).2.find? resource).getD [],
        id < (m.buildCircuitBreakerMap list).1.length := by
  have hnone : ∀ rule, m.findSameCb rule = none := by
    intro rule
    simp [findSameCb, getCircuitBreakers, hm]
  refine m.buildCircuitBreakerMap_rounds (P := fun _ acc => ∀ resource,
    ((acc.2.find? resource).getD []).Nodup ∧
      ∀ id ∈ (acc.2.find? resource).getD [], id < acc.1.length) (by simp) ?_ list
  intro list acc rule ih
  rcases m.addBreaker_cases acc rule with ⟨-, heq⟩ | ⟨id, -, hf, -⟩ | ⟨cb, -, -, -, heq⟩
  · rw [heq]
    exact ih
  · rw [hnone rule] at hf
    exact absurd hf.symm (Option.some_ne_none id)
  · intro resource
    rw [heq]
    dsimp only
    rw [Assoc.find?_pushTo, List.length_append, List.length_singleton]
    obtain ⟨h1, h2⟩ := ih resource
    by_cases hr : resource = rule.resource
    · subst hr
      rw [if_pos rfl, Option.getD_some]
      refine ⟨List.nodup_append.mpr ⟨h1, List.nodup_singleton _, ?_⟩, fun id hid => ?_⟩
      · intro a ha b hb
        have hlt := h2 a ha
        rw [List.mem_singleton] at hb
        omega
      · rcases List.mem_append.mp hid with hid | hid
        · have hlt := h2 id hid
          omega
        · rw [List.mem_singleton] at hid
          omega
    · rw [if_neg hr]
      refine ⟨h1, fun id hid => ?_⟩
      have hlt := h2 id hid
      omega

/-- The first list a manager is given installs distinct breakers. -/
theorem distinct_configUpdate {m : CircuitBreakerMaps} (hm : m.cbMap = []) (value : List Rule) :
    (m.configUpdate value).Distinct := by
  intro resource
  unfold configUpdate
  split_ifs
  · simp [getCircuitBreakers]
  · exact (distinct_buildCircuitBreakerMap hm value resource).1

/-- Breakers are made Closed. -/
theorem addBreaker_closed (m : CircuitBreakerMaps)
    {acc : List AbstractCircuitBreaker × Assoc String (List ℕ)}
    (h : ∀ cb ∈ acc.1, cb.currentState = .kClosed) (rule : Rule) :
    ∀ cb ∈ (m.addBreaker acc rule).1, cb.currentState = .kClosed := by
  rcases m.addBreaker_cases acc rule with ⟨-, heq⟩ | ⟨id, -, -, heq⟩ | ⟨cb, -, -, hn, heq⟩
  · rw [heq]
    exact h
  · rw [heq]
    exact h
  · rw [heq]
    intro cb' hcb'
    rcases List.mem_append.mp hcb' with hcb' | hcb'
    · exact h cb' hcb'
    · obtain rfl := List.mem_singleton.mp hcb'
      unfold newCircuitBreaker at hn
      cases hs : rule.strategy <;> simp only [hs, Option.some.injEq, reduceCtorEq] at hn <;>
        exact hn ▸ rfl

theorem configUpdate_closed {m : CircuitBreakerMaps}
    (h : ∀ cb ∈ m.breakers, cb.currentState = .kClosed) (value : List Rule) :
    ∀ cb ∈ (m.configUpdate value).breakers, cb.currentState = .kClosed := by
  have hbuild : ∀ cb ∈ (m.buildCircuitBreakerMap value).1, cb.currentState = .kClosed :=
    m.buildCircuitBreakerMap_rounds (P := fun _ acc => ∀ cb ∈ acc.1, cb.currentState = .kClosed) h
      (fun _ _ rule ih => addBreaker_closed m ih rule) value
  unfold configUpdate
  split_ifs
  · exact h
  · exact hbuild

end CircuitBreakerMaps

end SentinelCpp.CircuitBreaker
