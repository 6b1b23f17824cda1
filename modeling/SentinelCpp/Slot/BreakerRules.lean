import SentinelCpp.CircuitBreaker.Reload
import SentinelCpp.Slot.HalfOpen

/-!
# Loading circuit-breaker rules in a run

Entries and exits change the states and counters of the breakers, not their rules or the maps, so what
the maps are depends on the lists delivered alone, and what a new list keeps is what the traffic has
made of the breakers it takes over.
-/

namespace SentinelCpp

open Lib Property CircuitBreaker

/-! ### Traffic does not change the rules -/

namespace CircuitBreaker.CircuitBreakerMaps

variable {m m' : CircuitBreakerMaps} {t : ℕ}

/-- The maps are the same and the breakers have the same rules. -/
structure SameRules (m m' : CircuitBreakerMaps) : Prop where
  cbMap : m'.cbMap = m.cbMap
  ruleMap : m'.ruleMap = m.ruleMap
  rules : m'.breakers.map AbstractCircuitBreaker.rule = m.breakers.map AbstractCircuitBreaker.rule

theorem SameRules.refl (m : CircuitBreakerMaps) : SameRules m m := ⟨rfl, rfl, rfl⟩

theorem map_rule_set {breakers : List AbstractCircuitBreaker} {id : ℕ} {cb cb' : AbstractCircuitBreaker}
    (hget : breakers[id]? = some cb) (hrule : cb'.rule = cb.rule) :
    (breakers.set id cb').map AbstractCircuitBreaker.rule =
      breakers.map AbstractCircuitBreaker.rule := by
  have hget' : (breakers.map AbstractCircuitBreaker.rule)[id]? = some cb.rule := by
    rw [List.getElem?_map, hget, Option.map_some]
  obtain ⟨hlt, heq⟩ := List.getElem?_eq_some_iff.mp hget'
  rw [List.map_set, hrule, ← heq]
  exact List.set_getElem_self hlt

theorem map_rule_tryPassAll (ids : List ℕ) (breakers : List AbstractCircuitBreaker) :
    (tryPassAll t ids breakers).1.map AbstractCircuitBreaker.rule =
      breakers.map AbstractCircuitBreaker.rule := by
  induction ids generalizing breakers with
  | nil => rfl
  | cons id ids ih =>
    rw [tryPassAll]
    cases hcb : breakers[id]? with
    | none => exact ih breakers
    | some cb =>
      have hrule : (cb.tryPass t).1.rule = cb.rule := cb.tryPass_rule t
      dsimp only
      rcases h : cb.tryPass t with ⟨cb', _ | _⟩
      · rw [h] at hrule
        exact map_rule_set hcb hrule
      · rw [h] at hrule
        exact (ih _).trans (map_rule_set hcb hrule)

theorem map_rule_recordCompleteAll (rt : ℤ) (error : String) (ids : List ℕ)
    (breakers : List AbstractCircuitBreaker) :
    (recordCompleteAll t rt error ids breakers).map AbstractCircuitBreaker.rule =
      breakers.map AbstractCircuitBreaker.rule := by
  unfold recordCompleteAll
  induction ids generalizing breakers with
  | nil => rfl
  | cons id ids ih =>
    rw [List.foldl_cons, ih]
    cases hcb : breakers[id]? with
    | none => rw [List.modify_eq_set_getElem?, hcb]; rfl
    | some cb =>
      rw [List.modify_eq_set_getElem?, hcb]
      exact map_rule_set hcb (cb.recordComplete_rule t rt error)

theorem sameRules_checkerEntry (m : CircuitBreakerMaps) (resource : String) :
    SameRules m (m.checkerEntry t resource).1 := by
  rw [checkerEntry_fst]
  exact ⟨rfl, rfl, map_rule_tryPassAll _ _⟩

theorem sameRules_completeStatExit (m : CircuitBreakerMaps) (resource : String) (rt : ℤ)
    (error : String) : SameRules m (m.completeStatExit t resource rt error) :=
  ⟨rfl, rfl, map_rule_recordCompleteAll _ _ _ _⟩

namespace SameRules

variable (h : SameRules m m')

include h

theorem ids (resource : String) : m'.getCircuitBreakers resource = m.getCircuitBreakers resource := by
  rw [getCircuitBreakers, h.cbMap, getCircuitBreakers]

theorem rule? (id : ℕ) : (m'.breakers[id]?).map AbstractCircuitBreaker.rule =
    (m.breakers[id]?).map AbstractCircuitBreaker.rule := by
  rw [← List.getElem?_map, h.rules, List.getElem?_map]

theorem distinct : m.Distinct → m'.Distinct := fun hD resource => by
  rw [h.ids]
  exact hD resource

theorem valid (hm : m.Valid) : m'.Valid := by
  refine ⟨fun cb hcb => ?_, fun resource id hid => ?_⟩
  · have hmem : cb.rule ∈ m.breakers.map AbstractCircuitBreaker.rule :=
      h.rules ▸ List.mem_map_of_mem hcb
    obtain ⟨cb₀, hcb₀, hrule⟩ := List.mem_map.mp hmem
    exact hrule ▸ hm.built cb₀ hcb₀
  · rw [h.ids] at hid
    obtain ⟨cb, hcb, hres⟩ := hm.ids resource id hid
    have hsome := h.rule? id
    rw [hcb, Option.map_some] at hsome
    obtain ⟨cb', hcb', hrule⟩ := Option.map_eq_some_iff.mp hsome
    exact ⟨cb', hcb', hrule ▸ hres⟩

theorem installed {list : List Rule} (hm : m.Installed list) : m'.Installed list := by
  refine ⟨h.valid hm.valid, fun resource => ?_, ?_, fun resource => ?_⟩
  · rw [h.ids, ← hm.serves resource]
    exact List.map_congr_left fun id _ => h.rule? id
  · rw [h.ruleMap]
    exact hm.keys
  · rw [h.ruleMap]
    exact hm.rules resource

end SameRules

end CircuitBreaker.CircuitBreakerMaps

/-! ### What a call does to the manager -/

section Step

variable {env : Env} {w w' : World} {t : ℕ} {op : Op} {o : Outcome}

/-- A call that is not on the breaker rules leaves the manager alone but for its breakers. -/
theorem breakers_step (hop : ∀ o, op ≠ .breakerRules o) (h : Effect env t w op o w') :
    w'.circuitBreaker.properties = w.circuitBreaker.properties ∧
      w'.circuitBreaker.curProperty = w.circuitBreaker.curProperty ∧
      w.circuitBreaker.maps.SameRules w'.circuitBreaker.maps := by
  have hcheck : ∀ {c : Call} {w₁ : World} {res : TokenResult},
      (w.built env c).ruleCheck env t c = some (w₁, res) →
        w₁.circuitBreaker.properties = w.circuitBreaker.properties ∧
          w₁.circuitBreaker.curProperty = w.circuitBreaker.curProperty ∧
          w.circuitBreaker.maps.SameRules w₁.circuitBreaker.maps := by
    intro c w₁ res hcheck
    have heq := (World.ruleCheck_spec hcheck).world_eq
    refine ⟨by rw [heq]; rfl, by rw [heq]; rfl, ?_⟩
    rcases World.ruleCheck_breakers hcheck with ⟨-, hmaps, -⟩ | ⟨-, hcb, -⟩
    · rw [hmaps]
      exact CircuitBreakerMaps.sameRules_checkerEntry _ _
    · rw [hcb]
      exact .refl _
  cases h with
  | passed hact hc =>
    have hkept := hcheck hc
    exact hkept
  | blocked hact hc =>
    have hkept := hcheck hc
    exact hkept
  | exited hid hlive =>
    exact ⟨rfl, rfl, CircuitBreakerMaps.sameRules_completeStatExit _ _ _ _⟩
  | config r hw' hop' hop'' =>
    subst hw'
    unfold World.setConfig
    split_ifs
    · exact ⟨rfl, rfl, .refl _⟩
    · exact ⟨rfl, rfl, .refl _⟩
  | rules hw' hcb hop' hop'' =>
    rw [hcb hop]
    exact ⟨rfl, rfl, .refl _⟩
  | _ => exact ⟨rfl, rfl, .refl _⟩

/-- A call on the breaker rules. -/
theorem breakerRules_step {mop : ManagerOp CircuitBreaker.Rule}
    (h : StepOf (World.step env) w ((t, .breakerRules mop), o) w') :
    w' = { w with circuitBreaker := w.circuitBreaker.apply CircuitBreaker.managerKind mop } := by
  simp only [StepOf, World.step, Option.some.injEq, Prod.mk.injEq] at h
  exact h.1.symm

/-- The manager listens where it should and its maps are sound. -/
structure SoundManager (w : World) : Prop where
  attached : w.circuitBreaker.Attached CircuitBreaker.managerKind
  valid : w.circuitBreaker.maps.Valid

theorem attached_of_eq {m m' : RuleManager CircuitBreaker.Rule CircuitBreakerMaps}
    (h : m.Attached CircuitBreaker.managerKind) (hp : m'.properties = m.properties)
    (hc : m'.curProperty = m.curProperty) : m'.Attached CircuitBreaker.managerKind := by
  intro p
  rw [hp, hc]
  exact h p

theorem SoundManager.step (hS : SoundManager w) {l : Ledger} (hB : Books env w l)
    (h : StepOf (World.step env) w ((t, op), o) w') : SoundManager w' := by
  by_cases hop : ∃ mop, op = .breakerRules mop
  · obtain ⟨mop, rfl⟩ := hop
    obtain rfl := breakerRules_step h
    refine ⟨hS.attached.apply mop, ?_⟩
    show (w.circuitBreaker.apply CircuitBreaker.managerKind mop).maps.Valid
    rw [hS.attached.apply_maps]
    cases w.circuitBreaker.delivers CircuitBreaker.managerKind mop with
    | none => exact hS.valid
    | some list => exact CircuitBreakerMaps.configUpdate_valid hS.valid list
  · obtain ⟨hp, hc, hsame⟩ := breakers_step (fun mop heq => hop ⟨mop, heq⟩) (step_effect hB h)
    exact ⟨attached_of_eq hS.attached hp hc, hsame.valid hS.valid⟩

theorem soundManager_run {tr : List Label} (h : World.Steps env (World.start env) tr w) :
    SoundManager w := by
  refine Run.hist (I := fun _ w => SoundManager w) ⟨?_, ?_⟩ ?_ h
  · exact RuleManager.attached_start
  · exact CircuitBreakerMaps.valid_initial
  · rintro tr w ⟨⟨t, op⟩, o⟩ w' hr hS hstep
    exact hS.step (books_run hr) hstep

end Step

/-! ### Each breaker is fed once -/

/-- A delivered list repeats no rule that has a breaker installed. -/
def RepeatsNoInstalled (w : World) (a : Label) : Prop :=
  ∀ mop list, a.1.2 = .breakerRules mop →
    w.circuitBreaker.delivers CircuitBreaker.managerKind mop = some list →
      ∀ resource rule, List.Duplicate rule (CircuitBreakerMaps.served list resource) →
        w.circuitBreaker.maps.findSameCb rule = none

section FedOnce

variable {env : Env} {w w' : World} {t : ℕ} {op : Op} {o : Outcome}

theorem fedOnce_step_iff (hS : SoundManager w) {l : Ledger} (hB : Books env w l)
    (hP : w.circuitBreaker.maps.FedOnce) (h : StepOf (World.step env) w ((t, op), o) w') :
    w'.circuitBreaker.maps.FedOnce ↔ RepeatsNoInstalled w ((t, op), o) := by
  rw [CircuitBreakerMaps.fedOnce_iff]
  have hD := CircuitBreakerMaps.fedOnce_iff.mp hP
  by_cases hop : ∃ mop, op = .breakerRules mop
  · obtain ⟨mop, rfl⟩ := hop
    obtain rfl := breakerRules_step h
    show (w.circuitBreaker.apply CircuitBreaker.managerKind mop).maps.Distinct ↔ _
    rw [hS.attached.apply_maps]
    cases hd : w.circuitBreaker.delivers CircuitBreaker.managerKind mop with
    | none =>
      refine iff_of_true hD fun mop' list heq hd' => ?_
      obtain rfl : mop = mop' := by simpa using heq
      rw [hd] at hd'
      cases hd'
    | some list =>
      refine (CircuitBreakerMaps.distinct_configUpdate_iff hS.valid list).trans ⟨?_, ?_⟩
      · intro hall mop' list' heq hd'
        obtain rfl : mop = mop' := by simpa using heq
        obtain rfl : list = list' := Option.some.inj (hd.symm.trans hd')
        exact hall
      · exact fun hC => hC mop list rfl hd
  · have hsame := (breakers_step (fun mop heq => hop ⟨mop, heq⟩) (step_effect hB h)).2.2
    exact iff_of_true (hsame.distinct hD) fun mop list heq _ => absurd ⟨mop, heq⟩ hop

/-- **Each breaker once.**  In every run: no resource has a breaker twice, throughout, if and only if
no list handed to the manager repeats a rule whose breaker is installed at that moment. -/
theorem fedOnce_iff_repeatsNoInstalled {tr : List Label}
    (h : World.Steps env (World.start env) tr w) :
    Always (StepOf (World.step env)) (World.start env) (fun w => w.circuitBreaker.maps.FedOnce) tr ↔
      EveryStep (StepOf (World.step env)) (World.start env) RepeatsNoInstalled tr := by
  refine always_iff_everyStep stepOf_det ?_ ?_ h
  · refine CircuitBreakerMaps.fedOnce_iff.mpr fun resource => ?_
    simp [World.start, RuleManager.start, CircuitBreaker.managerKind,
      CircuitBreakerMaps.getCircuitBreakers]
  · rintro tr₁ w ⟨⟨t, op⟩, o⟩ w' - hr hP hstep
    exact fedOnce_step_iff (soundManager_run hr) (books_run hr) hP hstep

/-- A rule that trips at the first error. -/
def tripsAtFirstError : CircuitBreaker.Rule :=
  { resource := "r", strategy := .kErrorRatio, retryTimeoutSec := 1, minRequestAmount := 1 }

/-- The rule is loaded, then a list that has it twice. -/
def loadTwice : List (ℕ × Op) :=
  [(0, .breakerRules (.loadRules [tripsAtFirstError])),
    (0, .breakerRules (.loadRules [tripsAtFirstError, tripsAtFirstError]))]

/-- The one installed breaker then serves the resource twice. -/
theorem fedOnce_fails : ∃ w tr, World.Steps (.simple "") (World.start (.simple "")) tr w ∧
    tr.map Prod.fst = loadTwice ∧ w.circuitBreaker.maps.getCircuitBreakers "r" = [0, 0] ∧
    ¬ Always (StepOf (World.step (.simple ""))) (World.start (.simple ""))
      (fun w => w.circuitBreaker.maps.FedOnce) tr := by
  have hx : (execute (World.step (.simple "")) (World.start (.simple "")) loadTwice).map
      (fun r => r.2.circuitBreaker.maps.getCircuitBreakers "r") = some [0, 0] := by
    decide
  obtain ⟨⟨tr, w⟩, hr, hids⟩ := Option.map_eq_some_iff.mp hx
  refine ⟨w, tr, run_of_execute hr, execute_inputs hr, hids, fun hP => ?_⟩
  have hD := (hP.last (run_of_execute hr)).distinct "r"
  rw [show w.circuitBreaker.maps.getCircuitBreakers "r" = [0, 0] from hids] at hD
  simp at hD

/-- The law at this run. -/
theorem fedOnce_iff_repeatsNoInstalled_example : ∃ w tr,
    World.Steps (.simple "") (World.start (.simple "")) tr w ∧ tr.map Prod.fst = loadTwice ∧
    (Always (StepOf (World.step (.simple ""))) (World.start (.simple ""))
        (fun w => w.circuitBreaker.maps.FedOnce) tr ↔
      EveryStep (StepOf (World.step (.simple ""))) (World.start (.simple "")) RepeatsNoInstalled tr) := by
  obtain ⟨w, hx, hr⟩ := exists_run_of_outputs (World.step (.simple "")) (World.start (.simple ""))
    loadTwice [.done, .done] (by decide)
  exact ⟨w, _, hr, execute_inputs hx, fedOnce_iff_repeatsNoInstalled hr⟩

end FedOnce

/-! ### The maps are those of the list loaded last -/

/-- Of the calls on the breaker rules only `LoadRules` is used. -/
def LoadsOnly (a : Label) : Prop := ∀ mop, a.1.2 = .breakerRules mop → ∃ rules, mop = .loadRules rules

/-- The list of the last `LoadRules`; the empty list before the first one. -/
def lastLoaded (tr : List Label) : List CircuitBreaker.Rule :=
  tr.foldl (fun list a => match a.1.2 with
    | .breakerRules (.loadRules rules) => rules
    | _ => list) []

/-- The property holds the list, and the maps are made from it. -/
structure InForce (w : World) (list : List CircuitBreaker.Rule) : Prop where
  value : (w.circuitBreaker.properties w.circuitBreaker.curProperty).lastValue = list
  installed : w.circuitBreaker.maps.Installed list

section InForce

variable {env : Env} {w w' : World} {t : ℕ} {op : Op} {o : Outcome} {list : List CircuitBreaker.Rule}

/-- `LoadRules` with a list that is not the current one is handed to the manager. -/
theorem load_of_ne (hS : SoundManager w) {rules : List CircuitBreaker.Rule}
    (hvalue : (w.circuitBreaker.properties w.circuitBreaker.curProperty).lastValue = list)
    (hne : list ≠ rules) :
    (w.circuitBreaker.apply CircuitBreaker.managerKind (.loadRules rules)).maps =
      w.circuitBreaker.maps.configUpdate rules := by
  have hb : ((w.circuitBreaker.properties w.circuitBreaker.curProperty).lastValue == rules) = false := by
    rw [hvalue]
    exact beq_false_of_ne hne
  have hlist := hS.attached w.circuitBreaker.curProperty
  rw [if_pos rfl] at hlist
  rw [hS.attached.apply_maps]
  simp only [RuleManager.delivers, hb, hlist, List.mem_singleton, if_true]
  rfl

theorem InForce.load (hS : SoundManager w) (hI : InForce w list) {rules : List CircuitBreaker.Rule}
    (h : StepOf (World.step env) w ((t, .breakerRules (.loadRules rules)), o) w') :
    InForce w' rules := by
  obtain rfl := breakerRules_step h
  by_cases hne : list = rules
  · -- the load is dropped
    subst hne
    have hb : ((w.circuitBreaker.properties w.circuitBreaker.curProperty).lastValue == list) = true := by
      rw [hI.value]
      exact beq_self_eq_true list
    have hsame : w.circuitBreaker.apply CircuitBreaker.managerKind (.loadRules list) =
        w.circuitBreaker := by
      simp [RuleManager.apply, RuleManager.loadRules, RuleManager.updateValue, hb]
    show InForce { w with circuitBreaker := _ } list
    rw [hsame]
    exact hI
  · refine ⟨?_, ?_⟩
    · have hb : ((w.circuitBreaker.properties w.circuitBreaker.curProperty).lastValue == rules) =
          false := by
        rw [hI.value]
        exact beq_false_of_ne hne
      simp [RuleManager.apply, RuleManager.loadRules, RuleManager.updateValue, hb]
    · show (w.circuitBreaker.apply CircuitBreaker.managerKind (.loadRules rules)).maps.Installed rules
      rw [load_of_ne hS hI.value hne]
      exact .configUpdate hS.valid rules

theorem lastLoaded_concat (tr : List Label) (a : Label) : lastLoaded (tr ++ [a]) =
    match a.1.2 with
    | .breakerRules (.loadRules rules) => rules
    | _ => lastLoaded tr := by
  rw [lastLoaded, List.foldl_append]
  rfl

theorem inForce_run {tr : List Label} (hloads : ∀ a ∈ tr, LoadsOnly a)
    (h : World.Steps env (World.start env) tr w) : InForce w (lastLoaded tr) := by
  revert hloads
  refine Run.hist (I := fun tr w => (∀ a ∈ tr, LoadsOnly a) → InForce w (lastLoaded tr)) ?_ ?_ h
  · intro _
    refine ⟨rfl, CircuitBreakerMaps.valid_initial, fun _ => rfl, List.nodup_nil, fun _ => rfl⟩
  · rintro tr w ⟨⟨t, op⟩, o⟩ w' hr ih hstep hloads
    have hI := ih fun a ha => hloads a (List.mem_append_left _ ha)
    rw [lastLoaded_concat]
    by_cases hop : ∃ mop, op = .breakerRules mop
    · obtain ⟨mop, rfl⟩ := hop
      obtain ⟨rules, rfl⟩ := hloads ((t, .breakerRules mop), o) (by simp) mop rfl
      exact hI.load (soundManager_run hr) hstep
    · have hkept := breakers_step (fun mop heq => hop ⟨mop, heq⟩) (step_effect (books_run hr) hstep)
      have hsame : InForce w' (lastLoaded tr) :=
        ⟨by rw [hkept.1, hkept.2.1]; exact hI.value, hkept.2.2.installed hI.installed⟩
      cases op with
      | breakerRules mop => exact absurd ⟨mop, rfl⟩ hop
      | _ => exact hsame

/-- **Reloading.**  At any moment of a run, loading a list without repeated rules over a different one
without repeated rules keeps the breakers of the common rules as they are, makes new ones for the new
rules and drops the others. -/
theorem reloaded_of_load {tr : List Label} (h : World.Steps env (World.start env) tr w)
    (hloads : ∀ a ∈ tr, LoadsOnly a) {rules : List CircuitBreaker.Rule}
    (hne : lastLoaded tr ≠ rules) (hnd : (lastLoaded tr).Nodup) (hnd' : rules.Nodup) (t : ℕ) :
    ∃ w', StepOf (World.step env) w ((t, .breakerRules (.loadRules rules)), .done) w' ∧
      w.circuitBreaker.maps.Reloaded w'.circuitBreaker.maps (lastLoaded tr) rules := by
  have hI := inForce_run hloads h
  refine ⟨_, rfl, ?_⟩
  show w.circuitBreaker.maps.Reloaded
    (w.circuitBreaker.apply CircuitBreaker.managerKind (.loadRules rules)).maps (lastLoaded tr) rules
  rw [load_of_ne (soundManager_run h) hI.value hne]
  exact CircuitBreakerMaps.reloaded_configUpdate hI.installed.valid hI.installed.serves hnd hnd'

/-- A rule on response times. -/
def slowRule : CircuitBreaker.Rule := { resource := "r", retryTimeoutSec := 1 }

/-- Two rules are loaded and a failing call opens the first breaker. -/
def loadAndTrip : List (ℕ × Op) :=
  [(0, .breakerRules (.loadRules [tripsAtFirstError, slowRule])),
    (0, .entry ⟨0, "r", .IN, 1, []⟩), (0, .setError (some 0) "error"), (0, .exit (some 0) 1)]

/-- The first rule is loaded again, with another one in place of the second. -/
theorem reloaded_of_load_example : ∃ w w' tr,
    World.Steps (.simple "") (World.start (.simple "")) tr w ∧ tr.map Prod.fst = loadAndTrip ∧
    StepOf (World.step (.simple "")) w
      ((10, .breakerRules (.loadRules [{ slowRule with maxAllowedRt := 9 }, tripsAtFirstError])), .done)
      w' ∧
    w.circuitBreaker.maps.Reloaded w'.circuitBreaker.maps [tripsAtFirstError, slowRule]
      [{ slowRule with maxAllowedRt := 9 }, tripsAtFirstError] := by
  obtain ⟨w, hx, hr⟩ := exists_run_of_outputs (World.step (.simple "")) (World.start (.simple ""))
    loadAndTrip [.done, .passed, .done, .exited true] (by decide)
  have hloads : ∀ a ∈ loadAndTrip.zip [Outcome.done, .passed, .done, .exited true], LoadsOnly a := by
    intro a ha mop hop
    have hmem := List.mem_map_of_mem (f := Prod.fst) ha
    rw [execute_inputs hx] at hmem
    simp only [loadAndTrip, List.mem_cons, List.not_mem_nil, or_false] at hmem
    rcases hmem with h | h | h | h
    · rw [h] at hop
      cases hop
      exact ⟨_, rfl⟩
    all_goals
      rw [h] at hop
      cases hop
  have hnd : [{ slowRule with maxAllowedRt := 9 }, tripsAtFirstError].Nodup := by decide
  obtain ⟨w', hs, hR⟩ :=
    reloaded_of_load hr hloads (by decide) (by decide) hnd 10
  exact ⟨w, w', _, hr, execute_inputs hx, hs, hR⟩

/-- **No rule dropped.**  In every run: the manager reports exactly the valid rules of the list loaded
last, each with a breaker, if and only if none of them has the error-count strategy. -/
theorem allServed_iff {tr : List Label} (h : World.Steps env (World.start env) tr w)
    (hloads : ∀ a ∈ tr, LoadsOnly a) : w.circuitBreaker.maps.AllServed (lastLoaded tr) ↔
      ∀ rule ∈ lastLoaded tr, isValidRule rule = true → rule.strategy ≠ .kErrorCount :=
  (inForce_run hloads h).installed.servesAll_iff

/-- A rule with the error-count strategy. -/
def errorCountRule : CircuitBreaker.Rule :=
  { resource := "r", strategy := .kErrorCount, threshold := 5, retryTimeoutSec := 1 }

/-- The rule is valid, and after it is loaded the manager reports no rule. -/
theorem allServed_fails : ∃ w tr, World.Steps (.simple "") (World.start (.simple "")) tr w ∧
    tr.map Prod.fst = [(0, .breakerRules (.loadRules [errorCountRule]))] ∧
    isValidRule errorCountRule = true ∧ w.circuitBreaker.maps.getRules = [] ∧
    ¬ w.circuitBreaker.maps.AllServed [errorCountRule] := by
  have hx : (execute (World.step (.simple "")) (World.start (.simple ""))
      [(0, .breakerRules (.loadRules [errorCountRule]))]).map
      (fun r => r.2.circuitBreaker.maps.getRules) = some [] := by
    decide
  obtain ⟨⟨tr, w⟩, hr, hrules⟩ := Option.map_eq_some_iff.mp hx
  have hvalid : isValidRule errorCountRule = true := by decide
  refine ⟨w, tr, run_of_execute hr, execute_inputs hr, hvalid, hrules, fun hA => ?_⟩
  have hmem := (hA.1 errorCountRule).mpr ⟨List.mem_singleton_self _, hvalid⟩
  rw [show w.circuitBreaker.maps.getRules = [] from hrules] at hmem
  simp at hmem

/-- The law at this run. -/
theorem allServed_iff_example : ∃ w tr,
    World.Steps (.simple "") (World.start (.simple "")) tr w ∧
    tr.map Prod.fst = [(0, .breakerRules (.loadRules [errorCountRule]))] ∧
    (w.circuitBreaker.maps.AllServed [errorCountRule] ↔
      ∀ rule ∈ [errorCountRule], isValidRule rule = true → rule.strategy ≠ .kErrorCount) := by
  obtain ⟨w, hx, hr⟩ := exists_run_of_outputs (World.step (.simple "")) (World.start (.simple ""))
    [(0, .breakerRules (.loadRules [errorCountRule]))] [.done] (by decide)
  refine ⟨w, _, hr, execute_inputs hx, allServed_iff hr ?_⟩
  intro a ha mop hop
  obtain rfl := List.mem_singleton.mp ha
  cases hop
  exact ⟨_, rfl⟩

end InForce

end SentinelCpp
