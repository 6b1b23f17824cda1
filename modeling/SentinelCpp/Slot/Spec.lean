import SentinelCpp.Slot.Chain

/-!
# What one call does

`entry_eq` and `exit_eq` flatten the slot chain: the node builder, then the rule checkers up to the
first that blocks, then the statistics.  The lemmas after them say what each part does to the nodes
and to the rest of the state; later modules use only these.
-/

namespace SentinelCpp

open Lib Stat Property

namespace World

variable (env : Env) (t : ℕ) (c : Call) (w : World)

/-! ### The rule checkers, one after the other -/

/-- The system, flow and hot-parameter checks, up to the first that blocks. -/
def preCheck : Option (World × TokenResult) :=
  let r := System.systemEntry env.systemMapOrder t w.status w.system.maps c.entryType c.count
    w.storage
  let w := { w with storage := r.1 }
  match r.2 with
  | .ok =>
    let r := Flow.flowEntry t w.flow.maps c.resource (env.contextTag c.context)
      (w.contexts c.context).tagNode (some (.cluster c.resource)) c.count w.storage
    let w := { w with storage := r.1 }
    match r.2 with
    | .ok =>
      (Param.paramFlowEntry env.cache t w.param.maps c.resource c.count c.params w.metricMap).map
        fun r => ({ w with metricMap := r.1 }, r.2)
    | token => some (w, token)
  | token => some (w, token)

/-- The four checks. -/
def ruleCheck : Option (World × TokenResult) :=
  match w.preCheck env t c with
  | some (w, .ok) =>
    let r := w.circuitBreaker.maps.checkerEntry t c.resource
    some ({ w with circuitBreaker := { w.circuitBreaker with maps := r.1 } }, r.2)
  | r => r

/-! ### The parts of a call -/

/-- The storage and the tag node after the node builder. -/
def builtNodes : ResourceNodeStorage × Option NodeRef :=
  let tag := env.contextTag c.context
  let st := w.storage.getOrCreateClusterNode w.config c.resource
  if tag ≠ "" then tagNodeFor st w.config c.resource tag
  else (st, (w.contexts c.context).tagNode)

/-- The state the rule checkers see. -/
def built : World :=
  let r := w.builtNodes env c
  { w with storage := r.1 }.modifyContext c.context fun _ =>
    { tagNode := r.2, lastTokenResult := some .ok }

/-- The nodes a call is counted on, given the tag node. -/
def countedOn (resource : String) (type : EntryType) (tagNode : Option NodeRef) (ref : NodeRef) :
    Prop :=
  ref = .cluster resource ∨ entryNodeFor type = some ref ∨ tagNode = some ref

instance (resource : String) (type : EntryType) (tagNode : Option NodeRef) (ref : NodeRef) :
    Decidable (countedOn resource type tagNode ref) := inferInstanceAs (Decidable (_ ∨ _ ∨ _))

/-- The state after the statistics of an admitted call. -/
def recordPass : World :=
  { (onPass t c ⟨w, ⟨c.resource, c.entryType, c.context, t, false, -1, "", "", none, []⟩,
      some (.cluster c.resource)⟩).1.world with
    contexts := Function.update w.contexts c.context
      { w.contexts c.context with lastTokenResult := some .ok } }

/-- The state after the statistics of a blocked call. -/
def recordBlock (reason : String) : World :=
  { (onBlock t c reason ⟨w, ⟨c.resource, c.entryType, c.context, t, false, -1, "", "", none, []⟩,
      some (.cluster c.resource)⟩).1.world with
    contexts := Function.update w.contexts c.context
      { w.contexts c.context with lastTokenResult := some (.blocked reason) } }

/-- The entry object of an admitted call. -/
def admittedEntry : Entry :=
  { resource := c.resource
    entryType := c.entryType
    context := c.context
    createTime := t
    curNode := some (.cluster c.resource)
    params := c.params }

variable {env t c w}

theorem checkerEntry_result (m : CircuitBreaker.CircuitBreakerMaps) (t : ℕ) (resource : String) :
    (m.checkerEntry t resource).2 = .ok ∨
      (m.checkerEntry t resource).2 = .blocked "DegradeException" := by
  unfold CircuitBreaker.CircuitBreakerMaps.checkerEntry
  split
  · exact .inl rfl
  · exact .inr rfl

/-- What the first three checks leave behind. -/
structure PreChecked (t : ℕ) (w w' : World) (res : TokenResult) : Prop where
  world_eq : w' = { w with storage := w'.storage, metricMap := w'.metricMap }
  storage : w.storage.ReadAt t w'.storage
  threadCount : ∀ r i x,
    Param.threadCountOf w'.metricMap r i x = Param.threadCountOf w.metricMap r i x
  result : res = .ok ∨ ∃ reason, reason ≠ "" ∧ res = .blocked reason

theorem preCheck_spec {w' : World} {res : TokenResult}
    (h : w.preCheck env t c = some (w', res)) : PreChecked t w w' res := by
  obtain ⟨hs1, hr1⟩ := System.systemEntry_spec env.systemMapOrder t w.status w.system.maps
    c.entryType c.count w.storage
  unfold preCheck at h
  dsimp only at h
  generalize System.systemEntry env.systemMapOrder t w.status w.system.maps c.entryType c.count
    w.storage = r1 at h hs1 hr1
  rcases hr1 with hr1 | hr1
  · rw [hr1] at h
    dsimp only at h
    obtain ⟨hs2, hr2⟩ := Flow.flowEntry_spec t w.flow.maps c.resource (env.contextTag c.context)
      (w.contexts c.context).tagNode (some (.cluster c.resource)) c.count r1.1
    generalize Flow.flowEntry t w.flow.maps c.resource (env.contextTag c.context)
      (w.contexts c.context).tagNode (some (.cluster c.resource)) c.count r1.1 = r2 at h hs2 hr2
    rcases hr2 with hr2 | hr2
    · rw [hr2] at h
      obtain ⟨⟨mm, res'⟩, hp, heq⟩ := Option.map_eq_some_iff.mp h
      rw [Prod.mk.injEq] at heq
      obtain ⟨rfl, rfl⟩ := heq
      refine ⟨rfl, hs1.trans hs2, Param.paramFlowEntry_threadCountOf hp, ?_⟩
      rcases Param.paramFlowEntry_result hp with rfl | rfl
      · exact .inl rfl
      · exact .inr ⟨_, by decide, rfl⟩
    · rw [hr2, Option.some.injEq, Prod.mk.injEq] at h
      obtain ⟨rfl, rfl⟩ := h
      exact ⟨rfl, hs1.trans hs2, fun _ _ _ => rfl, .inr ⟨_, by decide, rfl⟩⟩
  · rw [hr1, Option.some.injEq, Prod.mk.injEq] at h
    obtain ⟨rfl, rfl⟩ := h
    exact ⟨rfl, hs1, fun _ _ _ => rfl, .inr ⟨_, by decide, rfl⟩⟩

/-- What the four checks leave behind; the breakers move only if the first three pass. -/
structure Checked (t : ℕ) (c : Call) (w w' : World) (res : TokenResult) : Prop where
  world_eq : w' = { w with
    storage := w'.storage
    metricMap := w'.metricMap
    circuitBreaker := { w.circuitBreaker with maps := w'.circuitBreaker.maps } }
  storage : w.storage.ReadAt t w'.storage
  threadCount : ∀ r i x,
    Param.threadCountOf w'.metricMap r i x = Param.threadCountOf w.metricMap r i x
  result : res = .ok ∨ ∃ reason, reason ≠ "" ∧ res = .blocked reason

theorem ruleCheck_spec {w' : World} {res : TokenResult}
    (h : w.ruleCheck env t c = some (w', res)) : Checked t c w w' res := by
  unfold ruleCheck at h
  cases hpre : w.preCheck env t c with
  | none => simp [hpre] at h
  | some r =>
    obtain ⟨w₁, res₁⟩ := r
    obtain ⟨heq, hst, htc, hres⟩ := preCheck_spec hpre
    rw [hpre] at h
    rcases hres with rfl | ⟨reason, hne, rfl⟩
    · simp only [Option.some.injEq, Prod.mk.injEq] at h
      obtain ⟨rfl, rfl⟩ := h
      refine ⟨by rw [heq], hst, htc, ?_⟩
      rcases checkerEntry_result w₁.circuitBreaker.maps t c.resource with h | h
      · exact .inl h
      · exact .inr ⟨_, by decide, h⟩
    · simp only [Option.some.injEq, Prod.mk.injEq] at h
      obtain ⟨rfl, rfl⟩ := h
      refine ⟨?_, hst, htc, .inr ⟨_, hne, rfl⟩⟩
      rw [heq]

section Unchanged

variable {w₁ : World} {res : TokenResult}
  (hcheck : (w.built env c).ruleCheck env t c = some (w₁, res))

include hcheck

theorem entries_ruleCheck : w₁.entries = w.entries := by
  rw [(ruleCheck_spec hcheck).world_eq]
  rfl

theorem config_ruleCheck : w₁.config = w.config := by
  rw [(ruleCheck_spec hcheck).world_eq]
  rfl

theorem contexts_ruleCheck : w₁.contexts = (w.built env c).contexts := by
  rw [(ruleCheck_spec hcheck).world_eq]

end Unchanged

/-- When the checks pass, so does the flow check, on nodes that have only been read. -/
theorem flow_ok_of_ruleCheck {w₁ : World} (h : w.ruleCheck env t c = some (w₁, .ok)) :
    ∃ st, w.storage.ReadAt t st ∧ (Flow.flowEntry t w.flow.maps c.resource
      (env.contextTag c.context) (w.contexts c.context).tagNode (some (.cluster c.resource)) c.count
      st).2 = .ok := by
  obtain ⟨hs1, hr1⟩ := System.systemEntry_spec env.systemMapOrder t w.status w.system.maps
    c.entryType c.count w.storage
  refine ⟨_, hs1, ?_⟩
  unfold ruleCheck preCheck at h
  dsimp only at h
  generalize System.systemEntry env.systemMapOrder t w.status w.system.maps c.entryType c.count
    w.storage = r1 at h hs1 hr1 ⊢
  rcases hr1 with hr1 | hr1
  · rw [hr1] at h
    dsimp only at h
    rcases (Flow.flowEntry_spec t w.flow.maps c.resource (env.contextTag c.context)
      (w.contexts c.context).tagNode (some (.cluster c.resource)) c.count r1.1).2 with hr2 | hr2
    · exact hr2
    · rw [hr2] at h
      simp at h
  · rw [hr1] at h
    simp at h

/-- With no system, hot-parameter or breaker rules the flow check decides. -/
theorem ruleCheck_ok_of_flow (hsystem : w.system.maps = none) (hparam : w.param.maps = none)
    (hbreakers : w.circuitBreaker.maps.cbMap = [])
    (hflow : (Flow.flowEntry t w.flow.maps c.resource (env.contextTag c.context)
      (w.contexts c.context).tagNode (some (.cluster c.resource)) c.count w.storage).2 = .ok) :
    (w.ruleCheck env t c).map Prod.snd = some .ok := by
  have hsys : System.systemEntry env.systemMapOrder t w.status w.system.maps c.entryType c.count
      w.storage = (w.storage, .ok) := by
    unfold System.systemEntry
    rw [hsystem]
    split_ifs <;> rfl
  have hpre : (w.preCheck env t c).map Prod.snd = some .ok := by
    unfold preCheck
    simp only [hsys, hflow, hparam, Param.paramFlowEntry, Option.map_some]
  obtain ⟨⟨w₀, res⟩, hpre, rfl⟩ := Option.map_eq_some_iff.mp hpre
  have hchecker : (w₀.circuitBreaker.maps.checkerEntry t c.resource).2 = .ok := by
    rw [(preCheck_spec hpre).world_eq]
    simp [CircuitBreaker.CircuitBreakerMaps.checkerEntry,
      CircuitBreaker.CircuitBreakerMaps.getCircuitBreakers, hbreakers,
      CircuitBreaker.CircuitBreakerMaps.tryPassAll]
  unfold ruleCheck
  rw [hpre]
  dsimp only [Option.map_some]
  rw [hchecker]

/-! ### The chain, flattened -/

/-- The slots after the rule checkers. -/
def statsSlots : List Slot :=
  [⟨.statsSlot, statisticSlotEntry, statisticSlotExit⟩,
    ⟨.statsSlot, lastTokenResultEntry, completeStatSlotExit⟩,
    ⟨.statsSlot, lastTokenResultEntry, noExit⟩]

section RuleCheckers

variable {s : ChainState} {slots : List Slot}
  {f : Env → ℕ → Call → ChainState → Option (ChainState × TokenResult)}

/-- A rule checker is passed over once a slot before it has blocked the call. -/
theorem chainEntry_ruleChecker_skip {token : TokenResult} (htoken : token ≠ .ok) :
    chainEntry env t c (⟨.ruleCheckerSlot, f, noExit⟩ :: slots) token s =
      chainEntry env t c slots token s := by
  rw [chainEntry]
  simp [Slot.isContinue, htoken]

/-- A rule checker runs while every slot before it has let the call go on. -/
theorem chainEntry_ruleChecker_run :
    chainEntry env t c (⟨.ruleCheckerSlot, f, noExit⟩ :: slots) .ok s =
      match f env t c s with
      | none => none
      | some (s, token) => chainEntry env t c slots token s := by
  cases hf : f env t c s with
  | none => simp [chainEntry, Slot.isContinue, hf]
  | some r => simp [chainEntry, Slot.isContinue, hf]

end RuleCheckers

/-- The rule checkers in the chain are `ruleCheck`. -/
theorem chainEntry_checkers (e : Entry) :
    chainEntry env t c
      (⟨.ruleCheckerSlot, systemSlotEntry, noExit⟩ :: ⟨.ruleCheckerSlot, flowSlotEntry, noExit⟩ ::
        ⟨.ruleCheckerSlot, paramFlowSlotEntry, noExit⟩ ::
        ⟨.ruleCheckerSlot, checkerSlotEntry, noExit⟩ :: statsSlots) .ok
      ⟨w, e, some (.cluster c.resource)⟩ =
    match w.ruleCheck env t c with
    | none => none
    | some (w', token) => chainEntry env t c statsSlots token ⟨w', e, some (.cluster c.resource)⟩ := by
  rw [chainEntry_ruleChecker_run]
  unfold ruleCheck preCheck
  simp only [systemSlotEntry]
  generalize System.systemEntry env.systemMapOrder t w.status w.system.maps c.entryType c.count
    w.storage = r1
  obtain ⟨st1, token1⟩ := r1
  by_cases h1 : token1 = .ok
  · subst h1
    rw [chainEntry_ruleChecker_run]
    simp only [flowSlotEntry]
    generalize Flow.flowEntry t w.flow.maps c.resource (env.contextTag c.context)
      (w.contexts c.context).tagNode (some (.cluster c.resource)) c.count st1 = r2
    obtain ⟨st2, token2⟩ := r2
    by_cases h2 : token2 = .ok
    · subst h2
      rw [chainEntry_ruleChecker_run]
      simp only [paramFlowSlotEntry]
      cases Param.paramFlowEntry env.cache t w.param.maps c.resource c.count c.params
        w.metricMap with
      | none => rfl
      | some r3 =>
        obtain ⟨mm, token3⟩ := r3
        by_cases h3 : token3 = .ok
        · subst h3
          simp only [Option.map_some, chainEntry_ruleChecker_run, checkerSlotEntry]
        · simp only [Option.map_some, chainEntry_ruleChecker_skip h3]
          cases token3 <;> first | rfl | exact absurd rfl h3
    · rw [chainEntry_ruleChecker_skip h2, chainEntry_ruleChecker_skip h2]
      cases token2 <;> first | rfl | exact absurd rfl h2
  · rw [chainEntry_ruleChecker_skip h1, chainEntry_ruleChecker_skip h1,
      chainEntry_ruleChecker_skip h1]
    cases token1 <;> first | rfl | exact absurd rfl h1

theorem chainEntry_stats_pass (e : Entry) (he : e.context = c.context) :
    chainEntry env t c statsSlots .ok ⟨w, e, some (.cluster c.resource)⟩ =
      if Param.addPassFaults w.metricMap c.resource c.params then none
      else some (⟨w.recordPass t c, e, some (.cluster c.resource)⟩, .ok) := by
  by_cases hfaults : Param.addPassFaults w.metricMap c.resource c.params = true
  · simp [statsSlots, chainEntry, Slot.isContinue, statisticSlotEntry, he, modifyContext, hfaults]
  · simp [statsSlots, chainEntry, Slot.isContinue, statisticSlotEntry, lastTokenResultEntry, he,
      modifyContext, onPass, recordPass, hfaults]

theorem chainEntry_stats_block (e : Entry) (he : e.context = c.context) (reason : String) :
    chainEntry env t c statsSlots (.blocked reason) ⟨w, e, some (.cluster c.resource)⟩ =
      some (⟨w.recordBlock t c reason, { e with blockError := reason },
        some (.cluster c.resource)⟩, .blocked reason) := by
  simp [statsSlots, chainEntry, Slot.isContinue, statisticSlotEntry, lastTokenResultEntry, he,
    modifyContext, onBlock, recordBlock]

/-- The node builder makes the state the checkers see. -/
theorem resourceNodeBuilderEntry_eq (e : Entry) :
    resourceNodeBuilderEntry env t c
      ⟨w.modifyContext c.context fun ctx => { ctx with lastTokenResult := some .ok }, e, none⟩ =
    some (⟨w.built env c, { e with curNode := some (.cluster c.resource) },
      some (.cluster c.resource)⟩, .ok) := by
  unfold resourceNodeBuilderEntry built builtNodes modifyContext
  by_cases htag : env.contextTag c.context = "" <;> simp [htag]

theorem chainEntry_globalSlotChain (e : Entry) (he : e.context = c.context) :
    chainEntry env t c globalSlotChain .ok ⟨w, e, none⟩ =
      match (w.built env c).ruleCheck env t c with
      | none => none
      | some (w', token) => chainEntry env t c statsSlots token
          ⟨w', { e with curNode := some (.cluster c.resource) }, some (.cluster c.resource)⟩ := by
  rw [globalSlotChain, chainEntry]
  simp only [Slot.isContinue, he, resourceNodeBuilderEntry_eq]
  exact chainEntry_checkers _

/-- The exit run of a blocked call changes nothing. -/
theorem chainExit_of_blockError (t : ℕ) (count : ℤ) (params : List Param.AnyVal) (w : World)
    (e : Entry) (he : e.hasBlockError = true) :
    chainExit t count params globalSlotChain (w, e) = (w, e) := by
  have hstat : statisticSlotExit t count params (w, e) = (w, e) := by
    unfold statisticSlotExit
    cases hn : e.curNode <;> simp [he, hn]
  simp [chainExit, globalSlotChain, noExit, hstat, completeStatSlotExit, he]

/-- **An activated call, flattened.** -/
theorem entry_eq (hact : w.activated = true) : w.entry env t c =
    match (w.built env c).ruleCheck env t c with
    | none => none
    | some (w', .blocked reason) => some (w'.recordBlock t c reason, .blocked reason)
    | some (w', _) =>
      if Param.addPassFaults w'.metricMap c.resource c.params then none
      else some ({ w'.recordPass t c with entries := w'.entries ++ [admittedEntry t c] }, .passed) := by
  unfold entry
  simp only [hact, Bool.not_true, Bool.false_eq_true, if_false]
  rw [chainEntry_globalSlotChain _ rfl]
  cases hcheck : (w.built env c).ruleCheck env t c with
  | none => rfl
  | some r =>
    obtain ⟨w', token⟩ := r
    obtain ⟨-, -, -, hres⟩ := ruleCheck_spec hcheck
    rcases hres with rfl | ⟨reason, hne, rfl⟩
    · dsimp only
      rw [chainEntry_stats_pass _ rfl]
      split_ifs <;> rfl
    · dsimp only
      rw [chainEntry_stats_block _ rfl]
      dsimp only
      rw [chainExit_of_blockError]
      simpa [Entry.hasBlockError] using hne

/-- A call while the library is switched off. -/
theorem entry_of_not_activated (hact : w.activated = false) : w.entry env t c =
    some ({ w with entries := w.entries ++
      [⟨c.resource, c.entryType, c.context, t, true, -1, "", "", none, []⟩] }, .notActivated) := by
  simp [entry, hact]

/-! ### Exits -/

/-- The state after the exit run of an entry that was counted on `node`. -/
def recordExit (t : ℕ) (count : ℤ) (id : ℕ) (e : Entry) (node : NodeRef) (w : World) : World :=
  let rt : ℤ := (t : ℤ) - e.createTime
  let r := statisticSlotExit t count e.params (w, { e with curNode := some node, blockError := "" })
  { r.1 with
    circuitBreaker := { w.circuitBreaker with
      maps := w.circuitBreaker.maps.completeStatExit t e.resource (if rt < 0 then max 0 rt else rt)
        e.error }
    entries := w.entries.set id { e with rt := rt, exited := true } }

/-- **The exit of an outstanding entry, flattened.** -/
theorem exit_eq {id : ℕ} {e : Entry} {count : ℤ} {node : NodeRef} (hid : w.entries[id]? = some e)
    (hlive : e.exited = false) (hnode : e.curNode = some node) (hblock : e.blockError = "") :
    w.exit t (some id) count = some (recordExit t count id e node w, .exited true) := by
  simp [exit, hid, hlive, chainExit, globalSlotChain, noExit, statisticSlotExit, hnode,
    completeStatSlotExit, recordExit, Entry.hasBlockError, hblock]

theorem exit_of_exited {id : ℕ} {e : Entry} {count : ℤ} (hid : w.entries[id]? = some e)
    (hlive : e.exited = true) : w.exit t (some id) count = some (w, .exited false) := by
  simp [exit, hid, hlive]

end World

end SentinelCpp
