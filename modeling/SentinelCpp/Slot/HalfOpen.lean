import SentinelCpp.Slot.Ledger

/-!
# HalfOpen breakers have a probe

A HalfOpen breaker waits for the completion of the entry it let through.  This holds throughout a run
exactly when no entry is rejected by a later breaker after an earlier one went HalfOpen for it.
-/

namespace SentinelCpp

open Lib Property CircuitBreaker

/-! ### What a call does to the breakers -/

namespace World

variable {env : Env} {t : ℕ} {c : Call} {w w₁ : World}

/-- The call gets past the system, flow and hot-parameter checks. -/
def ReachesBreakers (env : Env) (w : World) (t : ℕ) (c : Call) : Prop :=
  w.activated = true ∧ ∃ w₀, (w.built env c).preCheck env t c = some (w₀, .ok)

/-- The checks ask the breakers once the first three have passed, and only then. -/
theorem ruleCheck_breakers {res : TokenResult}
    (h : (w.built env c).ruleCheck env t c = some (w₁, res)) :
    ((∃ w₀, (w.built env c).preCheck env t c = some (w₀, .ok)) ∧
      w₁.circuitBreaker.maps = (w.circuitBreaker.maps.checkerEntry t c.resource).1 ∧
      res = (w.circuitBreaker.maps.checkerEntry t c.resource).2) ∨
    ((¬ ∃ w₀, (w.built env c).preCheck env t c = some (w₀, .ok)) ∧
      w₁.circuitBreaker = w.circuitBreaker ∧ res ≠ .ok) := by
  unfold ruleCheck at h
  cases hpre : (w.built env c).preCheck env t c with
  | none => simp [hpre] at h
  | some r =>
    obtain ⟨w₀, res₀⟩ := r
    obtain ⟨heq, -, -, hres⟩ := preCheck_spec hpre
    have hcb : w₀.circuitBreaker = w.circuitBreaker := by
      rw [heq]
      rfl
    rw [hpre] at h
    rcases hres with rfl | ⟨reason, -, rfl⟩
    · simp only [Option.some.injEq, Prod.mk.injEq] at h
      obtain ⟨rfl, rfl⟩ := h
      left
      rw [hcb]
      exact ⟨⟨w₀, rfl⟩, rfl, rfl⟩
    · simp only [Option.some.injEq, Prod.mk.injEq] at h
      obtain ⟨rfl, rfl⟩ := h
      right
      refine ⟨?_, hcb, by simp⟩
      rintro ⟨w₀', hw₀'⟩
      simp at hw₀'

end World

namespace CircuitBreaker.CircuitBreakerMaps

variable {m : CircuitBreakerMaps} {t : ℕ} {resource : String}

theorem checkerEntry_fst : (m.checkerEntry t resource).1 =
    { m with breakers := (tryPassAll t (m.getCircuitBreakers resource) m.breakers).1 } := by
  unfold checkerEntry
  rcases h : tryPassAll t (m.getCircuitBreakers resource) m.breakers with ⟨breakers, _ | _⟩ <;> rfl

theorem checkerEntry_ok_iff : (m.checkerEntry t resource).2 = .ok ↔
    (tryPassAll t (m.getCircuitBreakers resource) m.breakers).2 = true := by
  unfold checkerEntry
  rcases h : tryPassAll t (m.getCircuitBreakers resource) m.breakers with ⟨breakers, _ | _⟩ <;> simp

end CircuitBreaker.CircuitBreakerMaps

/-- The checks leave the map of the breakers alone. -/
theorem World.cbMap_ruleCheck {env : Env} {t : ℕ} {c : Call} {w w₁ : World} {res : TokenResult}
    (h : (w.built env c).ruleCheck env t c = some (w₁, res)) :
    w₁.circuitBreaker.maps.cbMap = w.circuitBreaker.maps.cbMap := by
  rcases World.ruleCheck_breakers h with ⟨-, hmaps, -⟩ | ⟨-, hcb, -⟩
  · rw [hmaps, CircuitBreakerMaps.checkerEntry_fst]
  · rw [hcb]

/-! ### The property and the condition -/

/-- An entry that was admitted and not exited will tell the breaker of its completion. -/
def WillComplete (w : World) (id : ℕ) : Prop :=
  ∃ e ∈ w.entries, e.exited = false ∧ e.hasBlockError = false ∧
    id ∈ w.circuitBreaker.maps.getCircuitBreakers e.resource

/-- The breaker exists and is HalfOpen. -/
def HalfOpenAt (m : CircuitBreakerMaps) (id : ℕ) : Prop :=
  ∃ cb, m.breakers[id]? = some cb ∧ cb.currentState = .kHalfOpen

/-- Every HalfOpen breaker that serves a resource will be told of a completion. -/
def HalfOpenServed (w : World) : Prop :=
  ∀ resource, ∀ id ∈ w.circuitBreaker.maps.getCircuitBreakers resource,
    HalfOpenAt w.circuitBreaker.maps id → WillComplete w id

/-- A rejected entry leaves no breaker HalfOpen that was not so before. -/
def LeavesNoProbe (env : Env) (w : World) (a : Label) : Prop :=
  ∀ w' reason, StepOf (World.step env) w a w' → a.2 = .blocked reason →
    ∀ id, HalfOpenAt w'.circuitBreaker.maps id → HalfOpenAt w.circuitBreaker.maps id

/-- An entry that reaches the breakers finds none that would go HalfOpen before another rejects. -/
def NoWastedProbe (env : Env) (w : World) (a : Label) : Prop :=
  match a.1.2 with
  | .entry c => World.ReachesBreakers env w a.1.1 c →
      w.circuitBreaker.maps.wastesProbe a.1.1 c.resource = false
  | _ => True

/-- The label is not a call on the circuit-breaker rules. -/
def KeepsBreakerRules (a : Label) : Prop := ∀ o, a.1.2 ≠ .breakerRules o

/-- Start-up and one `LoadRules` of the circuit-breaker manager. -/
def World.loaded (env : Env) (rules : List CircuitBreaker.Rule) : World :=
  { World.start env with
    circuitBreaker := (World.start env).circuitBreaker.apply managerKind (.loadRules rules) }

theorem loaded_maps (env : Env) (rules : List CircuitBreaker.Rule) :
    (World.loaded env rules).circuitBreaker.maps = managerKind.initial ∨
      (World.loaded env rules).circuitBreaker.maps = managerKind.initial.configUpdate rules := by
  simp only [World.loaded, World.start, RuleManager.apply, RuleManager.loadRules,
    RuleManager.updateValue, RuleManager.start]
  split_ifs
  · exact .inl rfl
  · exact .inr rfl

/-! ### Each step -/

section Step

variable {env : Env} {w w' w₁ : World} {t : ℕ} {c : Call}

theorem leavesNoProbe_iff {a : Label} (hstep : StepOf (World.step env) w a w') :
    LeavesNoProbe env w a ↔ ∀ reason, a.2 = .blocked reason →
      ∀ id, HalfOpenAt w'.circuitBreaker.maps id → HalfOpenAt w.circuitBreaker.maps id := by
  constructor
  · intro h reason ha
    exact h w' reason hstep ha
  · intro h w'' reason hstep' ha
    obtain rfl := stepOf_det _ _ _ _ hstep hstep'
    exact h reason ha

/-- The outstanding entries stay, up to fields that do not matter here. -/
theorem WillComplete.mono {id : ℕ} (h : WillComplete w id)
    (hcb : w'.circuitBreaker.maps.cbMap = w.circuitBreaker.maps.cbMap)
    (hentries : ∀ e ∈ w.entries, e.exited = false → ∃ e' ∈ w'.entries, e'.exited = false ∧
      e'.hasBlockError = e.hasBlockError ∧ e'.resource = e.resource) : WillComplete w' id := by
  obtain ⟨e, hmem, hlive, hblock, hid⟩ := h
  obtain ⟨e', hmem', hlive', hblock', hres⟩ := hentries e hmem hlive
  refine ⟨e', hmem', hlive', hblock'.trans hblock, ?_⟩
  rw [CircuitBreakerMaps.getCircuitBreakers, hcb, hres]
  exact hid

/-- Steps that do not touch the breakers. -/
theorem HalfOpenServed.of_maps_eq (hP : HalfOpenServed w)
    (hmaps : w'.circuitBreaker.maps = w.circuitBreaker.maps)
    (hentries : ∀ e ∈ w.entries, e.exited = false → ∃ e' ∈ w'.entries, e'.exited = false ∧
      e'.hasBlockError = e.hasBlockError ∧ e'.resource = e.resource) : HalfOpenServed w' := by
  intro resource id hid hhalf
  rw [hmaps] at hid hhalf
  exact (hP resource id hid hhalf).mono (by rw [hmaps]) hentries

/-- The entry that is admitted is itself the probe of the breakers it moves. -/
theorem HalfOpenServed.passed (hP : HalfOpenServed w)
    (hcheck : (w.built env c).ruleCheck env t c = some (w₁, .ok)) :
    HalfOpenServed
      { w₁.recordPass t c with entries := w₁.entries ++ [World.admittedEntry t c] } := by
  rcases World.ruleCheck_breakers hcheck with ⟨-, hmaps, -⟩ | ⟨-, -, hne⟩
  · rw [CircuitBreakerMaps.checkerEntry_fst] at hmaps
    intro resource id hid hhalf
    have hmaps' : ({ w₁.recordPass t c with
        entries := w₁.entries ++ [World.admittedEntry t c] } : World).circuitBreaker.maps =
          w₁.circuitBreaker.maps := rfl
    rw [hmaps', hmaps] at hid hhalf
    by_cases hmem : id ∈ w.circuitBreaker.maps.getCircuitBreakers c.resource
    · refine ⟨World.admittedEntry t c, by simp, rfl, rfl, ?_⟩
      rw [hmaps', hmaps]
      exact hmem
    · obtain ⟨cb, hcb, hs⟩ := hhalf
      rw [CircuitBreakerMaps.tryPassAll_of_not_mem hmem] at hcb
      refine (hP resource id hid ⟨cb, hcb, hs⟩).mono (by rw [hmaps', hmaps]) fun e he hlive => ?_
      rw [← World.entries_ruleCheck hcheck] at he
      exact ⟨e, by simp [he], hlive, rfl, rfl⟩
  · exact absurd rfl hne

/-- A rejected entry is good exactly when it wastes no probe. -/
theorem HalfOpenServed.blocked_iff (hD : w.circuitBreaker.maps.Distinct) (hP : HalfOpenServed w)
    (hact : w.activated = true) {reason : String}
    (hcheck : (w.built env c).ruleCheck env t c = some (w₁, .blocked reason)) :
    (HalfOpenServed (w₁.recordBlock t c reason) ∧ ∀ id, HalfOpenAt w₁.circuitBreaker.maps id →
      HalfOpenAt w.circuitBreaker.maps id) ↔
    (World.ReachesBreakers env w t c →
      w.circuitBreaker.maps.wastesProbe t c.resource = false) := by
  have hsame : w₁.circuitBreaker.maps = w.circuitBreaker.maps →
      HalfOpenServed (w₁.recordBlock t c reason) ∧ ∀ id, HalfOpenAt w₁.circuitBreaker.maps id →
        HalfOpenAt w.circuitBreaker.maps id := by
    intro hmaps
    refine ⟨hP.of_maps_eq hmaps fun e he hlive => ⟨e, ?_, hlive, rfl, rfl⟩, fun id h => hmaps ▸ h⟩
    rw [World.recordBlock_entries, World.entries_ruleCheck hcheck]
    exact he
  rcases World.ruleCheck_breakers hcheck with ⟨hreach, hmaps, hres⟩ | ⟨hreach, hcb, -⟩
  · rw [CircuitBreakerMaps.checkerEntry_fst] at hmaps
    have hany : (CircuitBreakerMaps.tryPassAll t _ w.circuitBreaker.maps.breakers).2 = _ :=
      CircuitBreakerMaps.tryPassAll_snd (hD c.resource)
    have hrej : (CircuitBreakerMaps.tryPassAll t
        (w.circuitBreaker.maps.getCircuitBreakers c.resource)
        w.circuitBreaker.maps.breakers).2 ≠ true := by
      rw [ne_eq, ← CircuitBreakerMaps.checkerEntry_ok_iff, ← hres]
      simp
    rw [hany, ne_eq, Bool.not_eq_true', Bool.not_eq_false] at hrej
    have hwaste : w.circuitBreaker.maps.wastesProbe t c.resource =
        ((CircuitBreakerMaps.select w.circuitBreaker.maps.breakers
          (w.circuitBreaker.maps.getCircuitBreakers c.resource)).takeWhile
            fun cb => !cb.rejects t).any fun cb => cb.probes t := by
      rw [CircuitBreakerMaps.wastesProbe, hrej, Bool.true_and]
    cases hw : w.circuitBreaker.maps.wastesProbe t c.resource with
    | false =>
      rw [hwaste] at hw
      rw [CircuitBreakerMaps.tryPassAll_of_no_probe (hD c.resource) hw] at hmaps
      exact iff_of_true (hsame hmaps) fun _ => rfl
    | true =>
      rw [hwaste] at hw
      obtain ⟨id, cb, cb', hcb, hopen, hcb', hhalf⟩ :=
        CircuitBreakerMaps.tryPassAll_of_probe (hD c.resource) hw
      refine iff_of_false ?_ (fun h => absurd (h ⟨hact, hreach⟩) (by simp))
      rintro ⟨-, hleaves⟩
      -- the breaker was Open before
      obtain ⟨cb₀, hcb₀, hs₀⟩ := hleaves id ⟨cb', by rw [hmaps]; exact hcb', hhalf⟩
      obtain rfl : cb = cb₀ := Option.some.inj (hcb.symm.trans hcb₀)
      rw [hopen] at hs₀
      exact absurd hs₀ (by decide)
  · exact iff_of_true (hsame (by rw [hcb])) fun h => absurd h.2 hreach

/-- An exit completes all breakers of its resource; the others keep their probe. -/
theorem HalfOpenServed.exited (hP : HalfOpenServed w) {id : ℕ} {e : Entry} {count : ℤ}
    (hid : w.entries[id]? = some e) :
    HalfOpenServed (w.recordExit t count id e (.cluster e.resource)) := by
  intro resource j hj hhalf
  obtain ⟨cb, hcb, hs⟩ := hhalf
  obtain ⟨hmem, hcb₀⟩ := CircuitBreakerMaps.recordCompleteAll_halfOpen hcb hs
  obtain ⟨e', he', hlive, hblock, hj'⟩ := hP resource j hj ⟨cb, hcb₀, hs⟩
  refine ⟨e', ?_, hlive, hblock, hj'⟩
  have hne : e' ≠ e := fun heq => hmem (heq ▸ hj')
  obtain ⟨k, hk⟩ := List.mem_iff_getElem?.mp he'
  have hkid : id ≠ k := by
    rintro rfl
    exact hne (Option.some.inj (hk.symm.trans hid))
  refine List.mem_of_getElem? (i := k) ?_
  rw [World.recordExit_entries, List.getElem?_set_ne hkid]
  exact hk

/-- **One step.** -/
theorem HalfOpenServed.step_iff (hD : w.circuitBreaker.maps.Distinct) (hP : HalfOpenServed w)
    {op : Op} {o : Outcome} (hkeep : KeepsBreakerRules ((t, op), o))
    (hstep : StepOf (World.step env) w ((t, op), o) w') (h : Effect env t w op o w') :
    (HalfOpenServed w' ∧ LeavesNoProbe env w ((t, op), o)) ↔ NoWastedProbe env w ((t, op), o) := by
  rw [leavesNoProbe_iff hstep]
  have hself : ∀ e ∈ w.entries, e.exited = false → ∃ e' ∈ w.entries, e'.exited = false ∧
      e'.hasBlockError = e.hasBlockError ∧ e'.resource = e.resource :=
    fun e he hlive => ⟨e, he, hlive, rfl, rfl⟩
  cases h with
  | @notActivated c hact =>
    refine iff_of_true ⟨hP.of_maps_eq rfl fun e he hlive => ⟨e, by simp [he], hlive, rfl, rfl⟩,
      by simp⟩ ?_
    rintro ⟨hact', -⟩
    rw [hact] at hact'
    exact absurd hact' (by simp)
  | @passed c w₁ hact hcheck =>
    refine iff_of_true ⟨hP.passed hcheck, by simp⟩ fun _ => ?_
    rcases World.ruleCheck_breakers hcheck with ⟨-, -, hres⟩ | ⟨-, -, hne⟩
    · have hok := CircuitBreakerMaps.checkerEntry_ok_iff.mp hres.symm
      rw [CircuitBreakerMaps.tryPassAll_snd (hD c.resource), Bool.not_eq_true'] at hok
      dsimp only
      rw [CircuitBreakerMaps.wastesProbe, hok, Bool.false_and]
    · exact absurd rfl hne
  | @blocked c w₁ reason hact hcheck =>
    rw [← show _ ↔ NoWastedProbe env w ((t, .entry c), .blocked reason) from
      hP.blocked_iff hD hact hcheck]
    refine and_congr_right fun _ => ⟨fun h => h reason rfl, fun h _ _ => h⟩
  | exited hid hlive => exact iff_of_true ⟨hP.exited hid, by simp⟩ trivial
  | exitedBefore | exitBlocked | setActivated =>
    exact iff_of_true ⟨hP.of_maps_eq rfl hself, by simp⟩ trivial
  | trace hid => exact iff_of_true ⟨hP.of_maps_eq rfl hself, by simp⟩ trivial
  | @setError id e err hid =>
    refine iff_of_true ⟨hP.of_maps_eq rfl fun e' he' hlive => ?_, by simp⟩ trivial
    obtain ⟨hlt, hget⟩ := List.getElem?_eq_some_iff.mp hid
    obtain ⟨k, hk⟩ := List.mem_iff_getElem?.mp he'
    by_cases hkid : id = k
    · subst hkid
      obtain rfl : e = e' := Option.some.inj (hid.symm.trans hk)
      exact ⟨{ e with error := err }, List.mem_of_getElem? (List.getElem?_set_self hlt), hlive, rfl,
        rfl⟩
    · exact ⟨e', List.mem_of_getElem? ((List.getElem?_set_ne hkid).trans hk), hlive, rfl, rfl⟩
  | config r hw' hop hop' hop'' =>
    have hC : NoWastedProbe env w ((t, op), .done) := by
      cases op with
      | entry c => exact absurd rfl (hop c)
      | _ => trivial
    subst hw'
    refine iff_of_true ⟨hP.of_maps_eq ?_ ?_, by simp⟩ hC
    · unfold World.setConfig
      split_ifs <;> rfl
    · unfold World.setConfig
      split_ifs <;> exact hself
  | rules hw' hcb hop hop' hop'' =>
    have hC : NoWastedProbe env w ((t, op), .done) := by
      cases op with
      | entry c => exact absurd rfl (hop c)
      | _ => trivial
    refine iff_of_true ⟨hP.of_maps_eq (by rw [hcb hkeep]) ?_, by simp⟩ hC
    rw [hw']
    exact hself

end Step

/-! ### Runs -/

/-- Which breakers serve a resource does not change without a call on the rules. -/
theorem cbMap_step {env : Env} {w w' : World} {t : ℕ} {op : Op} {o : Outcome}
    (hkeep : KeepsBreakerRules ((t, op), o)) (h : Effect env t w op o w') :
    w'.circuitBreaker.maps.cbMap = w.circuitBreaker.maps.cbMap := by
  cases h with
  | @passed c w₁ hact hcheck =>
    have hkept := World.cbMap_ruleCheck hcheck
    exact hkept
  | @blocked c w₁ reason hact hcheck =>
    have hkept := World.cbMap_ruleCheck hcheck
    exact hkept
  | config r hw' hop hop' hop'' =>
    subst hw'
    unfold World.setConfig
    split_ifs <;> rfl
  | rules hw' hcb hop hop' hop'' => rw [hcb hkeep]
  | _ => rfl

theorem distinct_loaded (env : Env) (rules : List CircuitBreaker.Rule) :
    (World.loaded env rules).circuitBreaker.maps.Distinct := by
  rcases loaded_maps env rules with h | h
  · rw [h]
    exact fun resource => by simp [managerKind, CircuitBreakerMaps.getCircuitBreakers]
  · rw [h]
    exact CircuitBreakerMaps.distinct_configUpdate rfl rules

/-- What holds in every state of a run after the rules were loaded. -/
theorem loaded_run {env : Env} {rules : List CircuitBreaker.Rule} {tr : List Label} {w : World}
    (hkeep : ∀ a ∈ tr, KeepsBreakerRules a) (h : World.Steps env (World.loaded env rules) tr w) :
    Books env w (ledger tr) ∧ w.circuitBreaker.maps.Distinct := by
  have hB : ∀ {tr : List Label} {w : World}, World.Steps env (World.loaded env rules) tr w →
      Books env w (ledger tr) := books_run_of ⟨rfl, .nil, by simp [World.loaded, World.start]⟩
  refine ⟨hB h, ?_⟩
  revert hkeep
  refine Run.hist (I := fun tr w => (∀ a ∈ tr, KeepsBreakerRules a) →
    w.circuitBreaker.maps.Distinct) (fun _ => distinct_loaded env rules) ?_ h
  rintro tr w ⟨⟨t, op⟩, o⟩ w' hr ih hstep hkeep resource
  have hD := ih (fun a ha => hkeep a (List.mem_append_left _ ha)) resource
  rw [CircuitBreakerMaps.getCircuitBreakers,
    cbMap_step (hkeep _ (by simp)) (step_effect (hB hr) hstep)]
  exact hD

theorem halfOpenServed_loaded (env : Env) (rules : List CircuitBreaker.Rule) :
    HalfOpenServed (World.loaded env rules) := by
  intro resource id _ hhalf
  obtain ⟨cb, hcb, hs⟩ := hhalf
  have hclosed : cb.currentState = .kClosed := by
    rcases loaded_maps env rules with h | h
    · simp [h, managerKind] at hcb
    · rw [h] at hcb
      exact CircuitBreakerMaps.configUpdate_closed (by simp [managerKind]) rules cb
        (List.mem_of_getElem? hcb)
  rw [hclosed] at hs
  exact absurd hs (by decide)

/-- **No stuck breaker.**  After the rules were loaded, in every run without further calls on them: each
HalfOpen breaker has an outstanding entry that will complete it, throughout, and no rejected entry
leaves a breaker HalfOpen, if and only if no entry reaches the breakers while one of them would go
HalfOpen before another rejects. -/
theorem halfOpenServed_iff {env : Env} {rules : List CircuitBreaker.Rule} {tr : List Label} {w : World}
    (hkeep : ∀ a ∈ tr, KeepsBreakerRules a) (h : World.Steps env (World.loaded env rules) tr w) :
    (Always (StepOf (World.step env)) (World.loaded env rules) HalfOpenServed tr ∧
      EveryStep (StepOf (World.step env)) (World.loaded env rules) (LeavesNoProbe env) tr) ↔
    EveryStep (StepOf (World.step env)) (World.loaded env rules) (NoWastedProbe env) tr := by
  refine always_and_everyStep_iff stepOf_det (halfOpenServed_loaded env rules) ?_ h
  rintro tr₁ w ⟨⟨t, op⟩, o⟩ w' hp hr hP hstep
  have hsub := hp.subset
  obtain ⟨hB, hD⟩ := loaded_run (fun a ha => hkeep a (hsub (List.mem_append_left _ ha))) hr
  exact hP.step_iff hD (hkeep _ (hsub (by simp))) hstep (step_effect hB hstep)

/-- Two error-ratio rules on "r" that open at the first error and retry after 1 s and after 10 s. -/
def twoRetryTimes : List CircuitBreaker.Rule :=
  [{ resource := "r", strategy := .kErrorRatio, retryTimeoutSec := 1, minRequestAmount := 1 },
    { resource := "r", strategy := .kErrorRatio, retryTimeoutSec := 10, minRequestAmount := 1 }]

/-- One failing call opens both breakers; the next call comes when only the first may be retried. -/
def failThenRetry : List (ℕ × Op) :=
  [(0, .entry ⟨0, "r", .IN, 1, []⟩), (0, .setError (some 0) "error"), (0, .exit (some 0) 1),
    (1000, .entry ⟨0, "r", .IN, 1, []⟩)]

/-- The second call is rejected, the first breaker stays HalfOpen, and no entry is outstanding. -/
theorem halfOpenServed_fails : ∃ w tr,
    World.Steps (.simple "") (World.loaded (.simple "") twoRetryTimes) tr w ∧
    tr.map Prod.fst = failThenRetry ∧
    tr.map Prod.snd = [.passed, .done, .exited true, .blocked "DegradeException"] ∧
    HalfOpenAt w.circuitBreaker.maps 0 ∧ ¬ HalfOpenServed w := by
  have hx : (execute (World.step (.simple "")) (World.loaded (.simple "") twoRetryTimes)
      failThenRetry).map (fun r => (r.1.map Prod.snd,
        r.2.circuitBreaker.maps.breakers.map AbstractCircuitBreaker.currentState,
        r.2.circuitBreaker.maps.getCircuitBreakers "r", r.2.entries.map Entry.exited)) =
      some ([.passed, .done, .exited true, .blocked "DegradeException"], [.kHalfOpen, .kOpen], [0, 1],
        [true]) := by
    decide +kernel
  obtain ⟨⟨tr, w⟩, hr, heq⟩ := Option.map_eq_some_iff.mp hx
  simp only [Prod.mk.injEq] at heq
  obtain ⟨hout, hstates, hids, hexited⟩ := heq
  have hhalf : HalfOpenAt w.circuitBreaker.maps 0 := by
    have h0 := congrArg (fun l => l[0]?) hstates
    simp only [List.getElem?_map] at h0
    obtain ⟨cb, hcb, hs⟩ := Option.map_eq_some_iff.mp h0
    exact ⟨cb, hcb, hs⟩
  refine ⟨w, tr, run_of_execute hr, execute_inputs hr, hout, hhalf, fun hP => ?_⟩
  obtain ⟨e, he, hlive, -⟩ := hP "r" 0 (by rw [hids]; simp) hhalf
  have hmem := List.mem_map_of_mem (f := Entry.exited) he
  rw [hexited, hlive] at hmem
  simp at hmem

/-- The law at the run above. -/
theorem halfOpenServed_iff_example : ∃ w tr,
    World.Steps (.simple "") (World.loaded (.simple "") twoRetryTimes) tr w ∧
    tr.map Prod.fst = failThenRetry ∧
    ((Always (StepOf (World.step (.simple ""))) (World.loaded (.simple "") twoRetryTimes)
          HalfOpenServed tr ∧
        EveryStep (StepOf (World.step (.simple ""))) (World.loaded (.simple "") twoRetryTimes)
          (LeavesNoProbe (.simple "")) tr) ↔
      EveryStep (StepOf (World.step (.simple ""))) (World.loaded (.simple "") twoRetryTimes)
        (NoWastedProbe (.simple "")) tr) := by
  obtain ⟨w, hx, hr⟩ := exists_run_of_outputs (World.step (.simple ""))
    (World.loaded (.simple "") twoRetryTimes) failThenRetry
    [.passed, .done, .exited true, .blocked "DegradeException"] (by decide +kernel)
  refine ⟨w, _, hr, execute_inputs hx, halfOpenServed_iff ?_ hr⟩
  intro a ha o
  have hmem := List.mem_map_of_mem (f := Prod.fst) ha
  rw [execute_inputs hx] at hmem
  simp only [failThenRetry, List.mem_cons, List.not_mem_nil, or_false] at hmem
  rcases hmem with h | h | h | h <;> simp [h]

end SentinelCpp
