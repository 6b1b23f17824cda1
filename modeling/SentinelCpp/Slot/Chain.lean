import SentinelCpp.CircuitBreaker.Slot
import SentinelCpp.Flow.Slot
import SentinelCpp.Lib.Run
import SentinelCpp.Param.Slot
import SentinelCpp.System.Slot

/-!
# The slot chain

`World` is the state the singletons of the library share, together with the entries handed out to
callers.  An entry runs through the eight slots of the global chain, first for `Entry` and, when it is
blocked or exited, for `Exit`.  Contexts are named by numbers; their tags are fixed by the
environment, and a call without a context uses one of its own with an empty tag.
-/

namespace SentinelCpp

open Lib Stat Property

/-- What a run does not change: iteration orders, the cache parameters, the tags of the contexts. -/
structure Env where
  flowSetOrder : IterationOrder Flow.FlowRule
  systemMapOrder : IterationOrder (System.MetricType × System.SystemRule)
  cache : Param.CacheEnv
  contextTag : ℕ → String

/-- Insertion orders, one cache shard, every context with the same tag. -/
def Env.simple (tag : String) : Env where
  flowSetOrder := .insertion _
  systemMapOrder := .insertion _
  cache := ⟨fun _ => 0, 1, Nat.one_pos⟩
  contextTag := fun _ => tag

/-- The fields of `EntryContext` that change. -/
structure EntryContext where
  tagNode : Option NodeRef := none
  lastTokenResult : Option TokenResult := none

structure Entry where
  resource : String
  entryType : EntryType
  context : ℕ
  createTime : ℕ
  exited : Bool := false
  rt : ℤ := -1
  error : String := ""
  blockError : String := ""
  curNode : Option NodeRef := none
  params : List Param.AnyVal := []

/-- `HasBlockError()`. -/
def Entry.hasBlockError (e : Entry) : Bool := e.blockError ≠ ""

structure World where
  activated : Bool
  config : StatConfig
  storage : ResourceNodeStorage
  flow : RuleManager Flow.FlowRule Flow.FlowMaps
  system : RuleManager System.SystemRule (Option System.SystemRuleMap)
  param : RuleManager Param.ParamFlowRule (Option Param.ParamFlowRuleMap)
  circuitBreaker : RuleManager CircuitBreaker.Rule CircuitBreaker.CircuitBreakerMaps
  metricMap : Param.MetricMap
  status : System.SystemStatus
  contexts : ℕ → EntryContext
  entries : List Entry

/-- The state at start-up. -/
def World.start (env : Env) : World where
  activated := true
  config := {}
  storage := .mk' {}
  flow := .start (Flow.managerKind env.flowSetOrder)
  system := .start System.managerKind
  param := .start Param.managerKind
  circuitBreaker := .start CircuitBreaker.managerKind
  metricMap := []
  status := {}
  contexts := fun _ => {}
  entries := []

/-- The arguments of `SphU::Entry`; the flag is passed on but read by no slot. -/
structure Call where
  context : ℕ
  resource : String
  entryType : EntryType
  count : ℤ
  params : List Param.AnyVal
  deriving DecidableEq

/-! ### Slots and their chain -/

/-- What the slots hand on: the entry object and the node found for it. -/
structure ChainState where
  world : World
  entry : Entry
  node : Option NodeRef

/-- `SlotType`, which decides what `IsContinue` does. -/
inductive SlotType
  | ruleCheckerSlot
  | statsSlot
  deriving DecidableEq

structure Slot where
  type : SlotType
  entry : Env → ℕ → Call → ChainState → Option (ChainState × TokenResult)
  exit : ℕ → ℤ → List Param.AnyVal → World × Entry → World × Entry

/-- An update of the context of the entry. -/
def World.modifyContext (w : World) (context : ℕ) (f : EntryContext → EntryContext) : World :=
  { w with contexts := Function.update w.contexts context (f (w.contexts context)) }

/-- `StatsSlot::IsContinue` and `RuleCheckerSlot::IsContinue`. -/
def Slot.isContinue (slot : Slot) (token : TokenResult) (s : ChainState) : ChainState × Bool :=
  match slot.type with
  | .statsSlot =>
    ({ s with world := s.world.modifyContext s.entry.context fun c =>
        { c with lastTokenResult := some token } }, true)
  | .ruleCheckerSlot => (s, token = .ok)

/-- The loop of `DefaultSlotChainImpl::Entry`. -/
def chainEntry (env : Env) (t : ℕ) (c : Call) :
    List Slot → TokenResult → ChainState → Option (ChainState × TokenResult)
  | [], token, s => some (s, token)
  | slot :: slots, token, s =>
    match slot.isContinue token s with
    | (s, false) => chainEntry env t c slots token s
    | (s, true) =>
      match slot.entry env t c s with
      | none => none
      | some (s, token) => chainEntry env t c slots token s

/-- `DefaultSlotChainImpl::Exit`. -/
def chainExit (t : ℕ) (count : ℤ) (params : List Param.AnyVal) (slots : List Slot)
    (s : World × Entry) : World × Entry :=
  slots.foldl (fun s slot => slot.exit t count params s) s

/-- The `Exit` of most slots. -/
def noExit (_ : ℕ) (_ : ℤ) (_ : List Param.AnyVal) (s : World × Entry) : World × Entry := s

/-! ### The slots of the global chain -/

/-- `ClusterNode::GetOrCreateTagNode` through the storage. -/
def tagNodeFor (st : ResourceNodeStorage) (c : StatConfig) (resource tag : String) :
    ResourceNodeStorage × Option NodeRef :=
  match st.getClusterNode resource with
  | none => (st, none)
  | some n =>
    let r := n.getOrCreateTagNode c tag
    ({ st with nodeMap := st.nodeMap.modify resource fun _ => r.1 },
      if r.2 then some (.tag resource tag) else none)

/-- `ResourceNodeBuilderSlot::Entry`. -/
def resourceNodeBuilderEntry (env : Env) (_ : ℕ) (c : Call) (s : ChainState) :
    Option (ChainState × TokenResult) :=
  let w := s.world
  let tag := env.contextTag c.context
  let st := w.storage.getOrCreateClusterNode w.config c.resource
  let w :=
    if tag ≠ "" then
      let r := tagNodeFor st w.config c.resource tag
      { w with storage := r.1 }.modifyContext c.context fun ctx => { ctx with tagNode := r.2 }
    else { w with storage := st }
  let node : Option NodeRef := some (.cluster c.resource)
  some (⟨w, { s.entry with curNode := node }, node⟩, .ok)

/-- `SystemSlot::Entry`. -/
def systemSlotEntry (env : Env) (t : ℕ) (c : Call) (s : ChainState) :
    Option (ChainState × TokenResult) :=
  let w := s.world
  let r := System.systemEntry env.systemMapOrder t w.status w.system.maps c.entryType c.count
    w.storage
  some ({ s with world := { w with storage := r.1 } }, r.2)

/-- `FlowSlot::Entry`. -/
def flowSlotEntry (env : Env) (t : ℕ) (c : Call) (s : ChainState) :
    Option (ChainState × TokenResult) :=
  let w := s.world
  let r := Flow.flowEntry t w.flow.maps c.resource (env.contextTag c.context)
    (w.contexts c.context).tagNode s.node c.count w.storage
  some ({ s with world := { w with storage := r.1 } }, r.2)

/-- `ParamFlowSlot::Entry`. -/
def paramFlowSlotEntry (env : Env) (t : ℕ) (c : Call) (s : ChainState) :
    Option (ChainState × TokenResult) :=
  let w := s.world
  (Param.paramFlowEntry env.cache t w.param.maps c.resource c.count c.params w.metricMap).map
    fun r => ({ s with world := { w with metricMap := r.1 } }, r.2)

/-- `CircuitBreaker::CheckerSlot::Entry`. -/
def checkerSlotEntry (_ : Env) (t : ℕ) (c : Call) (s : ChainState) :
    Option (ChainState × TokenResult) :=
  let w := s.world
  let r := w.circuitBreaker.maps.checkerEntry t c.resource
  some ({ s with world := { w with circuitBreaker := { w.circuitBreaker with maps := r.1 } } }, r.2)

/-- `RecordPassFor`, `RecordBlockFor` and `RecordCompleteFor`. -/
def recordFor (node : Option NodeRef) (t : ℕ) (e : NodeEvent) (st : ResourceNodeStorage) :
    ResourceNodeStorage :=
  match node with
  | none => st
  | some ref => st.modifyNode ref fun n => e.record n t

/-- The global entry node, for inbound traffic. -/
def entryNodeFor (type : EntryType) : Option NodeRef := if type = .IN then some .entryNode else none

/-- `StatisticSlot::OnPass`. -/
def onPass (t : ℕ) (c : Call) (s : ChainState) : ChainState × TokenResult :=
  let w := s.world
  let e := NodeEvent.pass c.count
  let st := recordFor s.node t e w.storage
  let st := recordFor (entryNodeFor c.entryType) t e st
  let st := recordFor (w.contexts c.context).tagNode t e st
  let metricMap := Param.withParamMetric w.metricMap c.resource fun m =>
    (m.addPass t c.count c.params).addThreadCount c.params
  ({ s with world := { w with storage := st, metricMap := metricMap } }, .ok)

/-- `StatisticSlot::OnBlock`. -/
def onBlock (t : ℕ) (c : Call) (reason : String) (s : ChainState) : ChainState × TokenResult :=
  let w := s.world
  let e := NodeEvent.block c.count
  let st := recordFor s.node t e w.storage
  let st := recordFor (w.contexts c.context).tagNode t e st
  let st := recordFor (entryNodeFor c.entryType) t e st
  ({ s with world := { w with storage := st }, entry := { s.entry with blockError := reason } },
    .blocked reason)

/-- `StatisticSlot::Entry`. -/
def statisticSlotEntry (_ : Env) (t : ℕ) (c : Call) (s : ChainState) :
    Option (ChainState × TokenResult) :=
  match (s.world.contexts c.context).lastTokenResult with
  | some (.blocked reason) => some (onBlock t c reason s)
  | _ =>
    if Param.addPassFaults s.world.metricMap c.resource c.params then none else some (onPass t c s)

/-- `StatisticSlot::Exit`. -/
def statisticSlotExit (t : ℕ) (count : ℤ) (params : List Param.AnyVal) (s : World × Entry) :
    World × Entry :=
  let (w, entry) := s
  match entry.curNode with
  | none => (w, entry)
  | some node =>
    if entry.hasBlockError then (w, entry)
    else
      let rt : ℤ := (t : ℤ) - entry.createTime
      let e := NodeEvent.complete (toInt32 rt) entry.error count
      let st := recordFor (some node) t e w.storage
      let st := recordFor (w.contexts entry.context).tagNode t e st
      let st := recordFor (entryNodeFor entry.entryType) t e st
      let metricMap := Param.withParamMetric w.metricMap entry.resource fun m =>
        m.decreaseThreadCount params
      ({ w with storage := st, metricMap := metricMap }, { entry with rt })

/-- The `Entry` of `CompleteStatSlot` and of `LogSlot`, which also writes the block log. -/
def lastTokenResultEntry (_ : Env) (_ : ℕ) (c : Call) (s : ChainState) :
    Option (ChainState × TokenResult) :=
  some (s, ((s.world.contexts c.context).lastTokenResult).getD .ok)

/-- `CircuitBreaker::CompleteStatSlot::Exit`. -/
def completeStatSlotExit (t : ℕ) (_ : ℤ) (_ : List Param.AnyVal) (s : World × Entry) :
    World × Entry :=
  let (w, entry) := s
  if entry.hasBlockError then (w, entry)
  else
    let rt := if entry.rt < 0 then max 0 ((t : ℤ) - entry.createTime) else entry.rt
    let maps := w.circuitBreaker.maps.completeStatExit t entry.resource rt entry.error
    ({ w with circuitBreaker := { w.circuitBreaker with maps := maps } }, entry)

/-- `GetGlobalSlotChain()`. -/
def globalSlotChain : List Slot :=
  [⟨.statsSlot, resourceNodeBuilderEntry, noExit⟩,
    ⟨.ruleCheckerSlot, systemSlotEntry, noExit⟩,
    ⟨.ruleCheckerSlot, flowSlotEntry, noExit⟩,
    ⟨.ruleCheckerSlot, paramFlowSlotEntry, noExit⟩,
    ⟨.ruleCheckerSlot, checkerSlotEntry, noExit⟩,
    ⟨.statsSlot, statisticSlotEntry, statisticSlotExit⟩,
    ⟨.statsSlot, lastTokenResultEntry, completeStatSlotExit⟩,
    ⟨.statsSlot, lastTokenResultEntry, noExit⟩]

/-! ### The public calls -/

/-- What a call returns to its caller. -/
inductive Outcome
  /-- An `EntryResult` with an entry that went through the chain. -/
  | passed
  /-- An `EntryResult` with a blocked reason. -/
  | blocked (reason : String)
  /-- An `EntryResult` with an entry made while the library was switched off. -/
  | notActivated
  /-- The value `EntryResult::Exit` returns. -/
  | exited (b : Bool)
  | done
  deriving DecidableEq

namespace World

variable (env : Env) (w : World) (t : ℕ)

/-- `SphU::Entry`. -/
def entry (c : Call) : Option (World × Outcome) :=
  let e : Entry :=
    { resource := c.resource, entryType := c.entryType, context := c.context, createTime := t }
  if !w.activated then
    some ({ w with entries := w.entries ++ [{ e with exited := true }] }, .notActivated)
  else
    match chainEntry env t c globalSlotChain .ok ⟨w, e, none⟩ with
    | none => none
    | some (s, .blocked reason) =>
      some ((chainExit t c.count c.params globalSlotChain (s.world, s.entry)).1, .blocked reason)
    | some (s, _) =>
      let w := s.world
      some ({ w with entries := w.entries ++ [{ s.entry with params := c.params }] }, .passed)

/-- `EntryResult::Exit(count)`; the result of a blocked call has no entry. -/
def exit (result : Option ℕ) (count : ℤ) : Option (World × Outcome) :=
  match result with
  | none => some (w, .exited false)
  | some id =>
    match w.entries[id]? with
    | none => none
    | some e =>
      if e.exited then some (w, .exited false)
      else
        let r := chainExit t count e.params globalSlotChain (w, e)
        some ({ r.1 with entries := w.entries.set id { r.2 with exited := true } }, .exited true)

/-- `EntryResult::SetError(err)`. -/
def setError (result : Option ℕ) (err : String) : Option (World × Outcome) :=
  match result with
  | none => some (w, .done)
  | some id =>
    match w.entries[id]? with
    | none => none
    | some e => some ({ w with entries := w.entries.set id { e with error := err } }, .done)

/-- `Tracer::Trace(entry, _, count)`. -/
def trace (result : Option ℕ) (count : ℤ) : Option (World × Outcome) :=
  match result with
  | none => some (w, .done)
  | some id =>
    match w.entries[id]? with
    | none => none
    | some e =>
      if count ≤ 0 then some (w, .done)
      else some ({ w with storage := recordFor e.curNode t (.exception count) w.storage }, .done)

/-- `StatConfigManager::UpdateSampleCount` and `UpdateInterval`, given the new configuration. -/
def setConfig (r : StatConfig × Bool) : World :=
  if r.2 then { w with config := r.1, storage := w.storage.resetClusterNodes r.1 }
  else { w with config := r.1 }

end World

/-- A call of the library; a result is named by the number of its entry, or has none. -/
inductive Op
  | entry (c : Call)
  | exit (result : Option ℕ) (count : ℤ)
  | setError (result : Option ℕ) (err : String)
  | trace (result : Option ℕ) (count : ℤ)
  | setActivated (b : Bool)
  | flowRules (op : ManagerOp Flow.FlowRule)
  | systemRules (op : ManagerOp System.SystemRule)
  | paramRules (op : ManagerOp Param.ParamFlowRule)
  | breakerRules (op : ManagerOp CircuitBreaker.Rule)
  | updateSampleCount (n : ℤ)
  | updateInterval (ms : ℤ)
  | systemStatus (status : System.SystemStatus)

/-- One call at a time of the millisecond clock; `none` is a null dereference, a division by zero or a
result that was never handed out. -/
def World.step (env : Env) (w : World) (op : ℕ × Op) : Option (World × Outcome) :=
  match op.2 with
  | .entry c => w.entry env op.1 c
  | .exit result count => w.exit op.1 result count
  | .setError result err => w.setError result err
  | .trace result count => w.trace op.1 result count
  | .setActivated b => some ({ w with activated := b }, .done)
  | .flowRules o =>
    some ({ w with flow := w.flow.apply (Flow.managerKind env.flowSetOrder) o }, .done)
  | .systemRules o => some ({ w with system := w.system.apply System.managerKind o }, .done)
  | .paramRules o => some ({ w with param := w.param.apply Param.managerKind o }, .done)
  | .breakerRules o =>
    some ({ w with circuitBreaker := w.circuitBreaker.apply CircuitBreaker.managerKind o }, .done)
  | .updateSampleCount n => some (w.setConfig (w.config.updateSampleCount n), .done)
  | .updateInterval ms => some (w.setConfig (w.config.updateInterval ms), .done)
  | .systemStatus status => some ({ w with status }, .done)

/-- A call of a run with its time and what it returned. -/
abbrev Label := (ℕ × Op) × Outcome

/-- A sequential run of calls. -/
abbrev World.Steps (env : Env) : World → List Label → World → Prop := Run (StepOf (World.step env))

end SentinelCpp
