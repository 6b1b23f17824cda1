import SentinelCpp.CircuitBreaker.Slot
import SentinelCpp.Lib.Pointwise
import Mathlib.Data.List.Duplicate

/-!
# What a new list of circuit-breaker rules keeps

`BuildCircuitBreakerMap` takes an instance of the installed map for each rule that has one there, and
makes an instance for each other rule.  So a rule repeated in the new list shares one instance when it
was installed before, and gets two when it was not.
-/

namespace SentinelCpp.CircuitBreaker

open Lib

instance : LawfulBEq Rule where
  eq_of_beq h := Rule.beq_iff.mp h
  rfl := Rule.beq_iff.mpr rfl

namespace CircuitBreakerMaps

variable {m : CircuitBreakerMaps}

/-! ### Where the instances come from -/

/-- The instance `id` serves `rule`: it is installed with the same rule, or it was made for the rule. -/
def Source (m : CircuitBreakerMaps) (breakers : List AbstractCircuitBreaker) (id : ℕ) (rule : Rule) :
    Prop :=
  m.findSameCb rule = some id ∨
    m.findSameCb rule = none ∧ m.breakers.length ≤ id ∧
      ∃ cb, breakers[id]? = some cb ∧ newCircuitBreaker rule = some cb

/-- What the loop of `BuildCircuitBreakerMap` has taken over and made for the rules `list`. -/
structure Reuses (m : CircuitBreakerMaps) (list : List Rule)
    (acc : List AbstractCircuitBreaker × Assoc String (List ℕ)) : Prop where
  kept : m.breakers <+: acc.1
  ids : ∀ resource, List.Forall₂ (Source m acc.1) ((acc.2.find? resource).getD [])
    (served list resource)
  below : ∀ resource, ∀ id ∈ (acc.2.find? resource).getD [], id < acc.1.length
  fresh : ∀ resource, ((acc.2.find? resource).getD []).Pairwise fun a b =>
    m.breakers.length ≤ b → a < b

theorem Source.mono {breakers breakers' : List AbstractCircuitBreaker} {id : ℕ} {rule : Rule}
    (h : Source m breakers id rule) (hp : breakers <+: breakers') : Source m breakers' id rule := by
  rcases h with h | ⟨hnone, hle, cb, hcb, hnew⟩
  · exact .inl h
  · obtain ⟨l, rfl⟩ := hp
    refine .inr ⟨hnone, hle, cb, ?_, hnew⟩
    rw [List.getElem?_append_left (List.getElem?_eq_some_iff.mp hcb).1, hcb]

/-- Pushing an instance that comes from where it should. -/
theorem Reuses.push {list : List Rule} {rule : Rule} {id : ℕ}
    {acc : List AbstractCircuitBreaker × Assoc String (List ℕ)}
    {breakers : List AbstractCircuitBreaker} (h : Reuses m list acc) (hkeep : acc.1 <+: breakers)
    (hsrc : Source m breakers id rule) (hlt : id < breakers.length)
    (hfresh : m.breakers.length ≤ id → acc.1.length ≤ id)
    (hv : isValidRule rule = true) (hb : hasBreaker rule = true) :
    Reuses m (list ++ [rule]) (breakers, acc.2.pushTo rule.resource id) := by
  have hlen : acc.1.length ≤ breakers.length := hkeep.length_le
  refine ⟨h.kept.trans hkeep, fun resource => ?_, fun resource j hj => ?_, fun resource => ?_⟩
  · have hold : List.Forall₂ (Source m breakers) ((acc.2.find? resource).getD [])
        (served list resource) := (h.ids resource).imp fun _ _ hs => hs.mono hkeep
    dsimp only
    rw [Assoc.find?_pushTo, served_concat]
    by_cases hr : resource = rule.resource
    · subst hr
      simpa [hv, hb] using forall₂_concat hold hsrc
    · simpa [hr, Ne.symm hr] using hold
  · dsimp only at hj
    rw [Assoc.find?_pushTo] at hj
    by_cases hr : resource = rule.resource
    · subst hr
      rw [if_pos rfl, Option.getD_some] at hj
      rcases List.mem_append.mp hj with hj | hj
      · exact (h.below _ j hj).trans_le hlen
      · obtain rfl := List.mem_singleton.mp hj
        exact hlt
    · rw [if_neg hr] at hj
      exact (h.below _ j hj).trans_le hlen
  · dsimp only
    rw [Assoc.find?_pushTo]
    by_cases hr : resource = rule.resource
    · subst hr
      rw [if_pos rfl, Option.getD_some]
      refine List.pairwise_append.mpr ⟨h.fresh _, List.pairwise_singleton _ _, ?_⟩
      intro a ha b hb hle
      obtain rfl := List.mem_singleton.mp hb
      exact (h.below _ a ha).trans_le (hfresh hle)
    · rw [if_neg hr]
      exact h.fresh resource

/-- Each round of the loop. -/
theorem Reuses.addBreaker (hm : m.Valid) {list : List Rule}
    {acc : List AbstractCircuitBreaker × Assoc String (List ℕ)} (h : Reuses m list acc)
    (rule : Rule) : Reuses m (list ++ [rule]) (m.addBreaker acc rule) := by
  rcases m.addBreaker_cases acc rule with ⟨hno, heq⟩ | ⟨id, hv, hf, heq⟩ | ⟨cb, hv, hf, hn, heq⟩
  · rw [heq]
    have hs := @served_concat_of_not list rule hno
    exact ⟨h.kept, fun resource => by rw [hs]; exact h.ids resource, h.below, h.fresh⟩
  · obtain ⟨-, cb, hcb, hrule⟩ := findSameCb_spec hf
    have hlt : id < m.breakers.length := (List.getElem?_eq_some_iff.mp hcb).1
    have hb : hasBreaker rule = true := hrule ▸ hm.built cb (List.mem_of_getElem? hcb)
    rw [heq]
    exact h.push List.prefix_rfl (.inl hf) (hlt.trans_le h.kept.length_le)
      (fun hle => absurd hlt (Nat.not_lt.mpr hle)) hv hb
  · obtain ⟨hb, -⟩ := hasBreaker_of_new hn
    rw [heq]
    refine h.push (List.prefix_append _ _) (.inr ⟨hf, h.kept.length_le, cb, ?_, hn⟩) ?_
      (fun _ => le_rfl) hv hb
    · simp
    · simp

theorem reuses_buildCircuitBreakerMap (hm : m.Valid) (list : List Rule) :
    Reuses m list (m.buildCircuitBreakerMap list) := by
  refine m.buildCircuitBreakerMap_rounds ?_ (fun _ _ rule ih => ih.addBreaker hm rule) list
  exact ⟨List.prefix_rfl, fun _ => .nil, by simp, by simp⟩

/-! ### Instances that appear twice -/

/-- Under `Source` an instance that is there already belongs to one rule. -/
theorem Source.rule_unique {breakers : List AbstractCircuitBreaker} {id : ℕ} {rule rule' : Rule}
    (h : Source m breakers id rule) (h' : Source m breakers id rule') (hlt : id < m.breakers.length) :
    m.findSameCb rule = some id ∧ rule = rule' := by
  have hfound : ∀ {r : Rule}, Source m breakers id r → m.findSameCb r = some id := by
    intro r hr
    rcases hr with hr | ⟨-, hle, -⟩
    · exact hr
    · omega
  obtain ⟨-, cb, hcb, hrule⟩ := findSameCb_spec (hfound h)
  obtain ⟨-, cb', hcb', hrule'⟩ := findSameCb_spec (hfound h')
  obtain rfl : cb = cb' := Option.some.inj (hcb.symm.trans hcb')
  exact ⟨hfound h, hrule.symm.trans hrule'⟩

/-- **When an instance is shared**: exactly when a repeated rule is installed already. -/
theorem nodup_iff_of_source {breakers : List AbstractCircuitBreaker} {ids : List ℕ} {rules : List Rule}
    (h : List.Forall₂ (Source m breakers) ids rules)
    (hfresh : ids.Pairwise fun a b => m.breakers.length ≤ b → a < b) :
    ids.Nodup ↔ ∀ rule, List.Duplicate rule rules → m.findSameCb rule = none := by
  induction h with
  | nil => simp
  | @cons id rule ids rules hsrc hrest ih =>
    obtain ⟨hhead, htail⟩ := List.pairwise_cons.mp hfresh
    -- the head recurs exactly when its rule does and is installed
    have hmem : id ∈ ids ↔ rule ∈ rules ∧ m.findSameCb rule ≠ none := by
      constructor
      · intro hid
        obtain ⟨rule', hrule', hsrc'⟩ := exists_of_mem_left hrest hid
        have hlt : id < m.breakers.length := by
          by_contra hge
          exact absurd (hhead id hid (by omega)) (lt_irrefl id)
        obtain ⟨hfound, rfl⟩ := hsrc.rule_unique hsrc' hlt
        exact ⟨hrule', by simp [hfound]⟩
      · rintro ⟨hrule, hfound⟩
        obtain ⟨id', hid', hsrc'⟩ := exists_of_mem_right hrest hrule
        have hsame : ∀ {j : ℕ}, Source m breakers j rule → m.findSameCb rule = some j := by
          intro j hj
          rcases hj with hj | ⟨hnone, -⟩
          · exact hj
          · exact absurd hnone hfound
        obtain rfl : id = id' := Option.some.inj ((hsame hsrc).symm.trans (hsame hsrc'))
        exact hid'
    rw [List.nodup_cons, ih htail, hmem]
    constructor
    · rintro ⟨hno, hall⟩ rule' hdup
      rcases List.duplicate_cons_iff.mp hdup with ⟨rfl, hrule'⟩ | hdup
      · by_contra hfound
        exact hno ⟨hrule', hfound⟩
      · exact hall rule' hdup
    · intro hall
      refine ⟨fun hboth => hboth.2 (hall rule ?_), fun rule' hdup => hall rule' ?_⟩
      · exact List.duplicate_cons_iff.mpr (.inl ⟨rfl, hboth.1⟩)
      · exact List.duplicate_cons_iff.mpr (.inr hdup)

/-- **One list**: no breaker twice on a resource exactly when no repeated rule is installed. -/
theorem distinct_configUpdate_iff (hm : m.Valid) (value : List Rule) :
    (m.configUpdate value).Distinct ↔ ∀ resource rule,
      List.Duplicate rule (served value resource) → m.findSameCb rule = none := by
  unfold configUpdate
  by_cases hv : value = []
  · subst hv
    simp [Distinct, getCircuitBreakers, served]
  · have hR := reuses_buildCircuitBreakerMap hm value
    have hne : value.isEmpty = false := by simpa using hv
    simp only [hne, Bool.false_eq_true, if_false]
    exact forall_congr' fun resource => nodup_iff_of_source (hR.ids resource) (hR.fresh resource)

/-! ### What one entry and one exit do with the instances -/

/-- The breakers whose `TryPass` the loop of `CheckerSlot::Entry` calls, in order. -/
def consulted (t : ℕ) : List ℕ → List AbstractCircuitBreaker → List ℕ
  | [], _ => []
  | id :: ids, breakers =>
    match breakers[id]? with
    | none => consulted t ids breakers
    | some cb =>
      match cb.tryPass t with
      | (cb, true) => id :: consulted t ids (breakers.set id cb)
      | (_, false) => [id]

/-- The breakers whose `RecordComplete` the loop of `CompleteStatSlot::Exit` calls. -/
def completed (ids : List ℕ) (breakers : List AbstractCircuitBreaker) : List ℕ :=
  ids.filter fun id => (breakers[id]?).isSome

theorem consulted_sublist (t : ℕ) (ids : List ℕ) (breakers : List AbstractCircuitBreaker) :
    (consulted t ids breakers).Sublist ids := by
  induction ids generalizing breakers with
  | nil => exact .slnil
  | cons id ids ih =>
    rw [consulted]
    cases breakers[id]? with
    | none => exact (ih breakers).cons id
    | some cb =>
      dsimp only
      rcases cb.tryPass t with ⟨cb', _ | _⟩
      · exact (List.nil_sublist ids).cons_cons id
      · exact (ih _).cons_cons id

/-- No breaker twice on a resource, and so no breaker is asked twice by an entry or fed twice by an
exit. -/
structure FedOnce (m : CircuitBreakerMaps) : Prop where
  distinct : m.Distinct
  tryPass : ∀ t resource, (consulted t (m.getCircuitBreakers resource) m.breakers).Nodup
  recordComplete : ∀ resource, (completed (m.getCircuitBreakers resource) m.breakers).Nodup

theorem fedOnce_iff : m.FedOnce ↔ m.Distinct :=
  ⟨FedOnce.distinct, fun h => ⟨h, fun t resource => (consulted_sublist t _ _).nodup (h resource),
    fun resource => (h resource).filter _⟩⟩

/-! ### Reloading -/

/-- The rules of the breakers are the rules of `list` that get one, in the same order. -/
def Serves (m : CircuitBreakerMaps) (list : List Rule) : Prop :=
  ∀ resource, (m.getCircuitBreakers resource).map
      (fun id => (m.breakers[id]?).map AbstractCircuitBreaker.rule) =
    (served list resource).map some

theorem Serves.configUpdate (hm : m.Valid) (value : List Rule) : (m.configUpdate value).Serves value := by
  intro resource
  unfold CircuitBreakerMaps.configUpdate
  by_cases hv : value = []
  · subst hv
    simp [getCircuitBreakers, served]
  · have hne : value.isEmpty = false := by simpa using hv
    simp only [hne, Bool.false_eq_true, if_false]
    exact (built_buildCircuitBreakerMap hm value).rules resource

/-- The breaker that serves a rule, when the list has no rule twice. -/
theorem Serves.existsUnique {list : List Rule} (h : m.Serves list) (hnd : list.Nodup) {rule : Rule}
    (hmem : rule ∈ served list rule.resource) :
    ∃ id cb, id ∈ m.getCircuitBreakers rule.resource ∧ m.breakers[id]? = some cb ∧ cb.rule = rule ∧
      ∀ id' ∈ m.getCircuitBreakers rule.resource, ∀ cb', m.breakers[id']? = some cb' →
        cb'.rule = rule → id' = id := by
  have hrules := h rule.resource
  have hnd' : ((m.getCircuitBreakers rule.resource).map
      (fun id => (m.breakers[id]?).map AbstractCircuitBreaker.rule)).Nodup := by
    rw [hrules]
    exact (hnd.filter _).map (Option.some_injective Rule)
  have hin : some rule ∈ (m.getCircuitBreakers rule.resource).map
      (fun id => (m.breakers[id]?).map AbstractCircuitBreaker.rule) := by
    rw [hrules]
    exact List.mem_map_of_mem hmem
  obtain ⟨id, hid, hcb⟩ := List.mem_map.mp hin
  obtain ⟨cb, hget, hrule⟩ := Option.map_eq_some_iff.mp hcb
  refine ⟨id, cb, hid, hget, hrule, fun id' hid' cb' hget' hrule' => ?_⟩
  refine List.inj_on_of_nodup_map hnd' hid' hid ?_
  rw [hcb, hget', Option.map_some, hrule']

/-- The breaker `cb` with number `id` serves the rule, and no other breaker of the resource does. -/
structure ServedBy (m : CircuitBreakerMaps) (rule : Rule) (id : ℕ) (cb : AbstractCircuitBreaker) : Prop where
  mem : id ∈ m.getCircuitBreakers rule.resource
  get : m.breakers[id]? = some cb
  rule_eq : cb.rule = rule
  unique : ∀ id' ∈ m.getCircuitBreakers rule.resource, ∀ cb', m.breakers[id']? = some cb' →
    cb'.rule = rule → id' = id

/-- What a breaker is like that has not been used. -/
structure Fresh (cb : AbstractCircuitBreaker) : Prop where
  closed : cb.currentState = .kClosed
  retry : cb.nextRetryTimestamp = 0
  counters : ∀ t, cb.slidingCounter.values t = []

/-- From the maps `old` of the list `l₁` to the maps `new` of the list `l₂`. -/
structure Reloaded (old new : CircuitBreakerMaps) (l₁ l₂ : List Rule) : Prop where
  kept : ∀ rule ∈ l₁, rule ∈ l₂ → isValidRule rule = true →
    (rule.strategy = .kSlowRtRatio ∨ rule.strategy = .kErrorRatio) →
      ∃ id cb, old.ServedBy rule id cb ∧ new.ServedBy rule id cb
  made : ∀ rule ∈ l₂, rule ∉ l₁ → isValidRule rule = true →
    (rule.strategy = .kSlowRtRatio ∨ rule.strategy = .kErrorRatio) →
      ∃ id cb, new.ServedBy rule id cb ∧ Fresh cb ∧ old.breakers[id]? = none
  gone : ∀ resource, ∀ id ∈ new.getCircuitBreakers resource, ∀ cb, new.breakers[id]? = some cb →
    cb.rule ∈ l₂
  order : ∀ resource, new.rulesServed resource = served l₂ resource
  resources : ∀ resource, (new.ruleMap.find? resource).isSome = (new.cbMap.find? resource).isSome
  rules : ∀ resource rules, new.ruleMap.find? resource = some rules → rules.Nodup ∧ ∀ rule,
    rule ∈ rules ↔ ∃ id ∈ new.getCircuitBreakers resource, ∃ cb,
      new.breakers[id]? = some cb ∧ cb.rule = rule

theorem hasBreaker_iff {rule : Rule} :
    hasBreaker rule = true ↔ rule.strategy = .kSlowRtRatio ∨ rule.strategy = .kErrorRatio := by
  unfold hasBreaker newCircuitBreaker
  cases rule.strategy <;> simp

theorem mem_served {list : List Rule} {rule : Rule} {resource : String} :
    rule ∈ served list resource ↔ rule ∈ list ∧ isValidRule rule = true ∧ hasBreaker rule = true ∧
      rule.resource = resource := by
  simp [served]

theorem fresh_of_new {rule : Rule} {cb : AbstractCircuitBreaker}
    (h : newCircuitBreaker rule = some cb) : Fresh cb := by
  have hmk : ∃ cls, cb = .mk' rule cls := by
    unfold newCircuitBreaker at h
    cases hs : rule.strategy <;> simp only [hs, Option.some.injEq, reduceCtorEq] at h
    · exact ⟨_, h.symm⟩
    · exact ⟨_, h.symm⟩
  obtain ⟨cls, rfl⟩ := hmk
  exact ⟨rfl, rfl, fun _ => rfl⟩

/-- The instances in the maps after a delivery. -/
theorem configUpdate_sources (hm : m.Valid) (value : List Rule) :
    m.breakers <+: (m.configUpdate value).breakers ∧ ∀ resource,
      List.Forall₂ (Source m (m.configUpdate value).breakers)
        ((m.configUpdate value).getCircuitBreakers resource) (served value resource) := by
  unfold configUpdate
  by_cases hv : value = []
  · subst hv
    exact ⟨List.prefix_rfl, fun _ => .nil⟩
  · have hR := reuses_buildCircuitBreakerMap hm value
    have hne : value.isEmpty = false := by simpa using hv
    simp only [hne, Bool.false_eq_true, if_false]
    exact ⟨hR.kept, hR.ids⟩

/-- A resource is in the map of the breakers exactly when some rule of the list is served there. -/
theorem configUpdate_find? (hm : m.Valid) (value : List Rule) (resource : String) :
    (m.configUpdate value).cbMap.find? resource = none ↔ served value resource = [] := by
  unfold configUpdate
  by_cases hv : value = []
  · subst hv
    simp [served]
  · have hne : value.isEmpty = false := by simpa using hv
    simp only [hne, Bool.false_eq_true, if_false]
    exact (built_buildCircuitBreakerMap hm value).absent resource

theorem Serves.rulesServed {list : List Rule} (h : m.Serves list) (resource : String) :
    m.rulesServed resource = served list resource := by
  have hmap := congrArg (List.filterMap id) (h resource)
  rw [List.filterMap_map, List.filterMap_map] at hmap
  simpa [CircuitBreakerMaps.rulesServed] using hmap

theorem mem_rulesServed {resource : String} {rule : Rule} : rule ∈ m.rulesServed resource ↔
    ∃ id ∈ m.getCircuitBreakers resource, ∃ cb, m.breakers[id]? = some cb ∧ cb.rule = rule := by
  simp [CircuitBreakerMaps.rulesServed, List.mem_filterMap]

theorem Serves.servedBy {list : List Rule} (h : m.Serves list) (hnd : list.Nodup) {rule : Rule}
    (hmem : rule ∈ list) (hv : isValidRule rule = true) (hb : hasBreaker rule = true) :
    ∃ id cb, m.ServedBy rule id cb := by
  obtain ⟨id, cb, hid, hget, hrule, huniq⟩ :=
    h.existsUnique hnd (mem_served.mpr ⟨hmem, hv, hb, rfl⟩)
  exact ⟨id, cb, hid, hget, hrule, huniq⟩

/-- The installed instance is the one that is found. -/
theorem ServedBy.findSameCb {rule : Rule} {id : ℕ} {cb : AbstractCircuitBreaker}
    (h : m.ServedBy rule id cb) : m.findSameCb rule = some id := by
  cases hf : m.findSameCb rule with
  | some id' =>
    obtain ⟨hid', cb', hget', hrule'⟩ := findSameCb_spec hf
    rw [h.unique id' hid' cb' hget' hrule']
  | none =>
    have hno := List.find?_eq_none.mp hf id h.mem
    rw [h.get, Option.any_some, h.rule_eq] at hno
    exact absurd (Rule.beq_iff.mpr rfl) hno

/-- **A reload.** -/
theorem reloaded_configUpdate (hm : m.Valid) {l₁ l₂ : List Rule} (h₁ : m.Serves l₁) (hnd₁ : l₁.Nodup)
    (hnd₂ : l₂.Nodup) : Reloaded m (m.configUpdate l₂) l₁ l₂ := by
  have h₂ : (m.configUpdate l₂).Serves l₂ := .configUpdate hm l₂
  obtain ⟨⟨l, hl⟩, hids⟩ := configUpdate_sources hm l₂
  refine ⟨?_, ?_, ?_, h₂.rulesServed, ?_, ?_⟩
  · intro rule hmem₁ hmem₂ hv hs
    have hb := hasBreaker_iff.mpr hs
    obtain ⟨id, cb, hold⟩ := h₁.servedBy hnd₁ hmem₁ hv hb
    obtain ⟨id', cb', hnew⟩ := h₂.servedBy hnd₂ hmem₂ hv hb
    obtain ⟨j, hj, hsrc⟩ :=
      exists_of_mem_right (hids rule.resource) (mem_served.mpr ⟨hmem₂, hv, hb, rfl⟩)
    have hfound := hold.findSameCb
    obtain rfl : id = j := by
      rcases hsrc with hsrc | ⟨hnone, -⟩
      · exact Option.some.inj (hfound.symm.trans hsrc)
      · exact absurd (hfound.symm.trans hnone) (by simp)
    have hget : (m.configUpdate l₂).breakers[id]? = some cb := by
      rw [← hl, List.getElem?_append_left (List.getElem?_eq_some_iff.mp hold.get).1, hold.get]
    obtain rfl : id = id' := hnew.unique id hj cb hget hold.rule_eq
    obtain rfl : cb = cb' := Option.some.inj (hget.symm.trans hnew.get)
    exact ⟨id, cb, hold, hnew⟩
  · intro rule hmem₂ hmem₁ hv hs
    have hb := hasBreaker_iff.mpr hs
    obtain ⟨id', cb', hnew⟩ := h₂.servedBy hnd₂ hmem₂ hv hb
    obtain ⟨j, hj, hsrc⟩ :=
      exists_of_mem_right (hids rule.resource) (mem_served.mpr ⟨hmem₂, hv, hb, rfl⟩)
    rcases hsrc with hsrc | ⟨-, hle, cb, hcb, hfresh⟩
    · -- an installed instance has a rule of the old list
      obtain ⟨hid, cb, hcb, rfl⟩ := findSameCb_spec hsrc
      have hserved : cb.rule ∈ m.rulesServed cb.rule.resource :=
        mem_rulesServed.mpr ⟨j, hid, cb, hcb, rfl⟩
      rw [h₁.rulesServed] at hserved
      exact absurd (mem_served.mp hserved).1 hmem₁
    · obtain rfl : j = id' := hnew.unique j hj cb hcb (hasBreaker_of_new hfresh).2
      obtain rfl : cb = cb' := Option.some.inj (hcb.symm.trans hnew.get)
      exact ⟨j, cb, hnew, fresh_of_new hfresh, List.getElem?_eq_none hle⟩
  · intro resource id hid cb hcb
    have hserved : cb.rule ∈ (m.configUpdate l₂).rulesServed resource :=
      mem_rulesServed.mpr ⟨id, hid, cb, hcb, rfl⟩
    rw [h₂.rulesServed] at hserved
    exact (mem_served.mp hserved).1
  · intro resource
    have hrule : (m.configUpdate l₂).ruleMap.find? resource = _ :=
      congrArg Prod.snd (inForce_configUpdate hm l₂ resource)
    rw [hrule]
    by_cases hs : served l₂ resource = []
    · rw [if_pos hs, (configUpdate_find? hm l₂ resource).mpr hs]
      rfl
    · rw [if_neg hs, Option.isSome_some]
      exact (Option.isSome_iff_ne_none.mpr (mt (configUpdate_find? hm l₂ resource).mp hs)).symm
  · intro resource rules hfind
    have hrule : (m.configUpdate l₂).ruleMap.find? resource = _ :=
      congrArg Prod.snd (inForce_configUpdate hm l₂ resource)
    rw [hrule] at hfind
    split_ifs at hfind with hs
    obtain rfl := Option.some.inj hfind
    refine ⟨List.nodup_dedup _, fun rule => ?_⟩
    rw [List.mem_dedup, ← h₂.rulesServed, mem_rulesServed]

/-! ### The rules the manager reports -/

/-- `GetRules()`: the sets of the rule map one after another. -/
def getRules (m : CircuitBreakerMaps) : List Rule := m.ruleMap.flatMap Prod.snd

/-- The maps are those of the list: its rules with their breakers, and their sets. -/
structure Installed (m : CircuitBreakerMaps) (list : List Rule) : Prop where
  valid : m.Valid
  serves : m.Serves list
  keys : (m.ruleMap.map Prod.fst).Nodup
  rules : ∀ resource, m.ruleMap.find? resource =
    if served list resource = [] then none else some (served list resource).dedup

theorem nodup_keys_buildCircuitBreakerMap (list : List Rule) :
    ((m.buildCircuitBreakerMap list).2.map Prod.fst).Nodup := by
  refine m.buildCircuitBreakerMap_rounds (P := fun _ acc => (acc.2.map Prod.fst).Nodup) (by simp) ?_
    list
  intro list acc rule ih
  rcases m.addBreaker_cases acc rule with ⟨-, heq⟩ | ⟨id, -, -, heq⟩ | ⟨cb, -, -, -, heq⟩
  · rw [heq]
    exact ih
  · rw [heq]
    exact Assoc.nodup_keys_pushTo ih _ _
  · rw [heq]
    exact Assoc.nodup_keys_pushTo ih _ _

theorem Installed.configUpdate (hm : m.Valid) (value : List Rule) :
    (m.configUpdate value).Installed value := by
  refine ⟨configUpdate_valid hm value, .configUpdate hm value, ?_, fun resource => ?_⟩
  · unfold CircuitBreakerMaps.configUpdate
    split_ifs
    · exact List.nodup_nil
    · have hkeys := nodup_keys_buildCircuitBreakerMap (m := m) value
      rw [List.map_map]
      exact hkeys.sublist (List.filter_sublist.map Prod.fst)
  · exact congrArg Prod.snd (inForce_configUpdate hm value resource)

theorem Installed.mem_getRules {list : List Rule} (h : m.Installed list) {rule : Rule} :
    rule ∈ m.getRules ↔ rule ∈ list ∧ isValidRule rule = true ∧ hasBreaker rule = true := by
  rw [getRules, List.mem_flatMap]
  constructor
  · rintro ⟨⟨resource, rules⟩, hkv, hrule⟩
    have hfind := (Assoc.mem_iff_find? h.keys).mp hkv
    rw [h.rules] at hfind
    split_ifs at hfind with hs
    obtain rfl := Option.some.inj hfind
    obtain ⟨hmem, hv, hb, -⟩ := mem_served.mp (List.mem_dedup.mp hrule)
    exact ⟨hmem, hv, hb⟩
  · rintro ⟨hmem, hv, hb⟩
    have hs : rule ∈ served list rule.resource := mem_served.mpr ⟨hmem, hv, hb, rfl⟩
    refine ⟨(rule.resource, (served list rule.resource).dedup), ?_, List.mem_dedup.mpr hs⟩
    rw [Assoc.mem_iff_find? h.keys, h.rules, if_neg (List.ne_nil_of_mem hs)]

/-- The manager reports exactly the valid rules of the list, and each has a breaker. -/
def AllServed (m : CircuitBreakerMaps) (list : List Rule) : Prop :=
  (∀ rule, rule ∈ m.getRules ↔ rule ∈ list ∧ isValidRule rule = true) ∧
    ∀ rule ∈ list, isValidRule rule = true →
      ∃ id ∈ m.getCircuitBreakers rule.resource, ∃ cb, m.breakers[id]? = some cb ∧ cb.rule = rule

/-- **Which lists are served in full**: those without a valid error-count rule. -/
theorem Installed.servesAll_iff {list : List Rule} (h : m.Installed list) : m.AllServed list ↔
    ∀ rule ∈ list, isValidRule rule = true → rule.strategy ≠ .kErrorCount := by
  have hbuilt : ∀ rule : Rule, hasBreaker rule = true ↔ rule.strategy ≠ .kErrorCount := by
    intro rule
    rw [hasBreaker_iff]
    cases rule.strategy <;> simp
  constructor
  · rintro ⟨hget, -⟩ rule hmem hv
    rw [← hbuilt]
    exact (h.mem_getRules.mp ((hget rule).mpr ⟨hmem, hv⟩)).2.2
  · intro hall
    refine ⟨fun rule => ?_, fun rule hmem hv => ?_⟩
    · rw [h.mem_getRules]
      refine ⟨fun hr => ⟨hr.1, hr.2.1⟩, fun hr => ⟨hr.1, hr.2, ?_⟩⟩
      exact (hbuilt rule).mpr (hall rule hr.1 hr.2)
    · have hs : rule ∈ served list rule.resource :=
        mem_served.mpr ⟨hmem, hv, (hbuilt rule).mpr (hall rule hmem hv), rfl⟩
      rw [← h.serves.rulesServed] at hs
      exact mem_rulesServed.mp hs

end CircuitBreakerMaps

end SentinelCpp.CircuitBreaker
