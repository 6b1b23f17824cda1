import SentinelCpp.Slot.Conservation

/-!
# One statistics configuration for all nodes

Every node is built with a window shaped by the configuration of that moment, and a change of the
configuration resets the cluster nodes.  It reaches neither their tag nodes nor the entry node, which
keep the old shape; so all nodes agree with the configuration exactly as long as it does not change
once the storage has been built.
-/

namespace SentinelCpp

open Lib Stat

/-! ### The lifetime of the storage -/

namespace World

/-- What the call makes of the configuration, and whether it changes it. -/
def newConfig (w : World) (op : Op) : StatConfig × Bool := op.newConfig w.config

/-- Whether the call needs the storage: an activated entry, and a change of the configuration, which
resets the nodes. -/
def needsStorage (w : World) : Op → Bool
  | .entry _ => w.activated
  | op => (w.newConfig op).2

end World

/-- The state with the lifetime of the storage: the first call that needs it builds it. -/
structure StartingWorld where
  world : World
  storageBuilt : Bool

namespace StartingWorld

/-- The state at start-up; something outside the run, such as the metric log, may have built the
storage already. -/
def start (env : Env) (storageBuilt : Bool) : StartingWorld := ⟨.start env, storageBuilt⟩

/-- The state the call works on.  `ResourceNodeStorage::GetInstance()` is called after the
configuration has been changed. -/
def getInstance (s : StartingWorld) (op : Op) : World :=
  if !s.storageBuilt && s.world.needsStorage op then
    { s.world with storage := .mk' (s.world.newConfig op).1 }
  else s.world

/-- One call. -/
def step (env : Env) (s : StartingWorld) (op : ℕ × Op) : Option (StartingWorld × Outcome) :=
  ((s.getInstance op.2).step env op).map fun r =>
    (⟨r.1, s.storageBuilt || s.world.needsStorage op.2⟩, r.2)

abbrev Steps (env : Env) : StartingWorld → List Label → StartingWorld → Prop :=
  Run (StepOf (step env))

end StartingWorld

/-! ### The shape of a node -/

/-- The second-level window was built under the configuration. -/
def HasShape (config : StatConfig) (n : StatisticNode) : Prop :=
  n.rollingCounterSecond.slidingWindow.sampleCount = config.sampleCount ∧
    n.rollingCounterSecond.slidingWindow.intervalMs = config.intervalMs

/-- The node, if it exists, was built under the configuration. -/
def Shaped (config : StatConfig) (node : Option StatisticNode) : Prop :=
  ∀ n, node = some n → HasShape config n

namespace HasShape

variable {config : StatConfig} {n : StatisticNode}

theorem mk' (config : StatConfig) : HasShape config (.mk' config) := ⟨rfl, rfl⟩

theorem reset (config : StatConfig) (n : StatisticNode) : HasShape config (n.reset config) := ⟨rfl, rfl⟩

theorem unique {config' : StatConfig} (h : HasShape config n) (h' : HasShape config' n) :
    config = config' := by
  obtain ⟨hcount, hinterval⟩ := h
  obtain ⟨hcount', hinterval'⟩ := h'
  obtain ⟨c, i⟩ := config
  obtain ⟨c', i'⟩ := config'
  obtain rfl : c = c' := hcount.symm.trans hcount'
  obtain rfl : i = i' := hinterval.symm.trans hinterval'
  rfl

theorem readSecond (h : HasShape config n) (t : ℕ) : HasShape config (n.readSecond t) := by
  obtain ⟨hcount, hinterval⟩ := h
  refine ⟨?_, ?_⟩
  · show (n.rollingCounterSecond.slidingWindow.refresh t).sampleCount = config.sampleCount
    rw [LeapArray.refresh_sampleCount, hcount]
  · show (n.rollingCounterSecond.slidingWindow.refresh t).intervalMs = config.intervalMs
    rw [LeapArray.refresh_intervalMs, hinterval]

theorem addRequest (h : HasShape config n) (event : MetricEvent) (count : ℤ) (t : ℕ) :
    HasShape config (n.addRequest event count t) := by
  obtain ⟨hcount, hinterval⟩ := h
  simpa [HasShape, StatisticNode.addRequest, SlidingWindowMetric.addEvent] using
    And.intro hcount hinterval

theorem addRtAndCompleteRequest (h : HasShape config n) (rt count : ℤ) (t : ℕ) :
    HasShape config (n.addRtAndCompleteRequest rt count t) := by
  obtain ⟨hcount, hinterval⟩ := h
  simpa [HasShape, StatisticNode.addRtAndCompleteRequest, SlidingWindowMetric.addComplete,
    SlidingWindowMetric.addEvent, SlidingWindowMetric.addRt] using And.intro hcount hinterval

/-- Recording an event fills the window and keeps its shape. -/
theorem record (h : HasShape config n) (t : ℕ) (e : NodeEvent) : HasShape config (e.record n t) := by
  cases e with
  | pass count =>
    have hthread : HasShape config n.increaseThreadNum := h
    exact hthread.addRequest .pass count t
  | block count => exact h.addRequest .block count t
  | exception count => exact h.addRequest .exception count t
  | complete rt error count =>
    have hcomplete := h.addRtAndCompleteRequest rt count t
    by_cases herror : error = ""
    · subst herror
      exact hcomplete
    · have hrecord : (NodeEvent.complete rt error count).record n t =
          ((n.addRtAndCompleteRequest rt count t).addExceptionRequest count t).decreaseThreadNum := by
        simp [NodeEvent.record, herror]
      rw [hrecord]
      exact hcomplete.addRequest .exception count t

end HasShape

namespace Shaped

variable {config : StatConfig} {node node' : Option StatisticNode}

theorem grown (h : Shaped config node)
    (hg : node' = node ∨ (node = none ∧ node' = some (.mk' config))) : Shaped config node' := by
  rcases hg with rfl | ⟨-, rfl⟩
  · exact h
  · rintro n hn
    obtain rfl := Option.some.inj hn
    exact .mk' config

theorem read (h : Shaped config node) {t : ℕ} (hr : Option.Rel (StatisticNode.ReadAt t) node node') :
    Shaped config node' := by
  cases hr with
  | none => exact h
  | @some n n' hr =>
    rintro n'' hn
    obtain rfl := Option.some.inj hn
    rcases hr with rfl | rfl
    · exact h _ rfl
    · exact (h n rfl).readSecond t

/-- The node after recording an event or not. -/
theorem record (h : Shaped config node) {p : Prop} [Decidable p] {t : ℕ} {e : NodeEvent}
    (heq : node' = if p then node.map fun n => e.record n t else node) : Shaped config node' := by
  subst heq
  split_ifs
  · rintro n hn
    obtain ⟨n', hn', rfl⟩ := Option.map_eq_some_iff.mp hn
    exact (h n' hn').record t e
  · exact h

end Shaped

/-! ### Calls that leave the configuration alone -/

/-- The nodes that satisfy `p` have the shape of the configuration in force. -/
def NodesShaped (p : NodeRef → Prop) (w : World) : Prop :=
  ∀ ref, p ref → Shaped w.config (w.storage.node? ref)

section Step

variable {env : Env} {w w' : World} {p : NodeRef → Prop} {t : ℕ}

theorem NodesShaped.checked (h : NodesShaped p w) {c : Call} {w₁ : World} {res : TokenResult}
    (hcheck : (w.built env c).ruleCheck env t c = some (w₁, res)) :
    w₁.config = w.config ∧ NodesShaped p w₁ := by
  have hspec := World.ruleCheck_spec hcheck
  have hconfig : w₁.config = w.config := World.config_ruleCheck hcheck
  refine ⟨hconfig, fun ref href => ?_⟩
  rw [hconfig]
  exact ((h ref href).grown (World.grown_builtNodes _ _ _ ref)).read (hspec.storage.1 ref)

/-- **A call that is no update** keeps the configuration, and builds and uses nodes of its shape. -/
theorem NodesShaped.step {l : Ledger} (hB : Books env w l) (h : NodesShaped p w) {op : Op} {o : Outcome}
    (hop : ∀ n, op ≠ .updateSampleCount n) (hop' : ∀ ms, op ≠ .updateInterval ms)
    (hs : w.step env (t, op) = some (w', o)) : w'.config = w.config ∧ NodesShaped p w' := by
  cases step_effect hB hs with
  | notActivated hact => exact ⟨rfl, h⟩
  | @passed c w₁ hact hcheck =>
    obtain ⟨hconfig, h₁⟩ := h.checked hcheck
    have htag := ((hB.built c).checked hcheck).isTagNode c.context
    exact ⟨hconfig, fun ref href => (h₁ ref href).record (World.recordPass_node? htag ref)⟩
  | @blocked c w₁ reason hact hcheck =>
    obtain ⟨hconfig, h₁⟩ := h.checked hcheck
    have htag := ((hB.built c).checked hcheck).isTagNode c.context
    exact ⟨hconfig, fun ref href => (h₁ ref href).record (World.recordBlock_node? htag reason ref)⟩
  | @exited id e count hid hlive =>
    have htag := hB.isTagNode e.context
    have hconfig : (w.recordExit t count id e (.cluster e.resource)).config = w.config := by
      simp [World.recordExit, statisticSlotExit, Entry.hasBlockError]
    refine ⟨hconfig, fun ref href => ?_⟩
    rw [hconfig]
    exact (h ref href).record (World.recordExit_node? htag ref)
  | exitedBefore | exitBlocked | setError | setActivated => exact ⟨rfl, h⟩
  | @trace id e count hid =>
    exact ⟨rfl, fun ref href => (h ref href).record (node?_recordFor e.curNode t _ w.storage ref)⟩
  | config r hw' hop₁ hop₂ hop₃ hconfig =>
    rcases hconfig with ⟨n, rfl⟩ | ⟨ms, rfl⟩
    · exact absurd rfl (hop n)
    · exact absurd rfl (hop' ms)
  | rules hw' =>
    rw [hw']
    exact ⟨rfl, h⟩

end Step

/-! ### Updates -/

namespace World

variable {env : Env} {w : World} {t : ℕ} {op : Op}

/-- `UpdateSampleCount` or `UpdateInterval`. -/
def IsUpdate (op : Op) : Prop := (∃ n, op = .updateSampleCount n) ∨ ∃ ms, op = .updateInterval ms

theorem newConfig_of_not_isUpdate (h : ¬ IsUpdate op) : w.newConfig op = (w.config, false) := by
  cases op with
  | updateSampleCount n => exact absurd (.inl ⟨n, rfl⟩) h
  | updateInterval ms => exact absurd (.inr ⟨ms, rfl⟩) h
  | _ => rfl

theorem step_of_isUpdate (h : IsUpdate op) :
    w.step env (t, op) = some (w.setConfig (w.newConfig op), .done) := by
  rcases h with ⟨n, rfl⟩ | ⟨ms, rfl⟩ <;> rfl

theorem needsStorage_of_isUpdate (h : IsUpdate op) : w.needsStorage op = (w.newConfig op).2 := by
  rcases h with ⟨n, rfl⟩ | ⟨ms, rfl⟩ <;> rfl

theorem newConfig_valid (h : w.config.Valid) : (w.newConfig op).1.Valid := op.newConfig_valid h

/-- The call changes the configuration or leaves it as it is. -/
theorem newConfig_cases (w : World) (op : Op) :
    ((w.newConfig op).2 = false ∧ (w.newConfig op).1 = w.config) ∨
      ((w.newConfig op).2 = true ∧ (w.newConfig op).1 ≠ w.config) := op.newConfig_cases w.config

theorem setConfig_of_unchanged (h : (w.newConfig op).2 = false) : w.setConfig (w.newConfig op) = w := by
  have hsame : (w.newConfig op).1 = w.config := by
    rcases w.newConfig_cases op with ⟨-, hsame⟩ | ⟨htrue, -⟩
    · exact hsame
    · rw [h] at htrue
      exact Bool.noConfusion htrue
  simp [setConfig, h, hsame]

theorem setConfig_of_changed {r : StatConfig × Bool} (h : r.2 = true) :
    w.setConfig r = { w with config := r.1, storage := w.storage.resetClusterNodes r.1 } := by
  rw [setConfig, if_pos h]

/-- A change of the configuration reaches the cluster nodes. -/
theorem shaped_cluster_resetClusterNodes (st : ResourceNodeStorage) (config : StatConfig) (r : String) :
    Shaped config ((st.resetClusterNodes config).node? (.cluster r)) := by
  intro n hn
  simp only [ResourceNodeStorage.node?, ResourceNodeStorage.getClusterNode,
    ResourceNodeStorage.resetClusterNodes, Assoc.find?_mapValues, Option.map_map] at hn
  obtain ⟨n', -, rfl⟩ := Option.map_eq_some_iff.mp hn
  exact .reset config n'.node

end World

/-! ### Agreement with the configuration -/

/-- The configuration has buckets of equal, positive length, and the nodes that satisfy `p` were built
under it. -/
structure UniformOn (p : NodeRef → Prop) (s : StartingWorld) : Prop where
  valid : s.world.config.Valid
  nodes : s.storageBuilt = true → NodesShaped p s.world

/-- All nodes that entries record on agree with the configuration. -/
def Uniform (s : StartingWorld) : Prop := UniformOn (fun _ => True) s

/-- The nodes of the resources. -/
def IsClusterRef (ref : NodeRef) : Prop := ∃ r, ref = .cluster r

section Run

variable {env : Env} {s s' : StartingWorld} {p : NodeRef → Prop} {a : Label}

theorem StartingWorld.stepOf_iff : StepOf (StartingWorld.step env) s a s' ↔
    (s.getInstance a.1.2).step env a.1 = some (s'.world, a.2) ∧
      s'.storageBuilt = (s.storageBuilt || s.world.needsStorage a.1.2) := by
  obtain ⟨w', b'⟩ := s'
  simp only [StepOf, StartingWorld.step, Option.map_eq_some_iff, Prod.exists, Prod.mk.injEq,
    StartingWorld.mk.injEq]
  constructor
  · rintro ⟨w'', o, h, ⟨rfl, rfl⟩, rfl⟩
    exact ⟨h, rfl⟩
  · rintro ⟨h, rfl⟩
    exact ⟨w', a.2, h, ⟨rfl, rfl⟩, rfl⟩

theorem Books.getInstance {l : Ledger} (h : Books env s.world l) (op : Op) :
    Books env (s.getInstance op) l := by
  unfold StartingWorld.getInstance
  split_ifs
  · exact ⟨h.activated, h.entries, h.tagNode⟩
  · exact h

/-- The books of every run, whenever the storage is built. -/
theorem books_startingRun {built : Bool} {tr : List Label}
    (h : StartingWorld.Steps env (.start env built) tr s) : Books env s.world (ledger tr) := by
  refine Run.hist (I := fun tr s => Books env s.world (ledger tr)) (books_start env) ?_ h
  rintro tr s ⟨⟨t, op⟩, o⟩ s' - hB hstep
  rw [ledger_concat]
  have hB' := hB.getInstance op
  exact hB'.step (step_effect hB' (StartingWorld.stepOf_iff.mp hstep).1)

theorem getInstance_config (op : Op) : (s.getInstance op).config = s.world.config := by
  unfold StartingWorld.getInstance
  split_ifs <;> rfl

/-- A new storage has the entry node only. -/
theorem nodesShaped_mk' (w : World) (config : StatConfig) :
    NodesShaped p { w with config := config, storage := .mk' config } := by
  intro ref _ n hn
  cases ref with
  | cluster r => simp [ResourceNodeStorage.node?, ResourceNodeStorage.mk',
      ResourceNodeStorage.getClusterNode] at hn
  | tag r tag => simp [ResourceNodeStorage.node?, ResourceNodeStorage.mk',
      ResourceNodeStorage.getClusterNode] at hn
  | entryNode =>
    obtain rfl := Option.some.inj hn
    exact .mk' config

/-- The nodes the call works on have the shape of the configuration in force, unless the storage is
neither there nor needed. -/
theorem UniformOn.getInstance (h : UniformOn p s) {op : Op} (hop : ¬ World.IsUpdate op)
    (hbuilt : (s.storageBuilt || s.world.needsStorage op) = true) : NodesShaped p (s.getInstance op) := by
  unfold StartingWorld.getInstance
  rw [World.newConfig_of_not_isUpdate hop]
  split_ifs with hnew
  · exact nodesShaped_mk' s.world s.world.config
  · cases hb : s.storageBuilt with
    | true => exact h.nodes hb
    | false =>
      rw [hb] at hnew hbuilt
      simp only [Bool.not_false, Bool.true_and] at hnew
      exact absurd hbuilt hnew

/-- **One call** keeps the agreement of the nodes in `p`, when it leaves the configuration alone, when it
is the one that builds the storage, or when only cluster nodes are in `p`. -/
theorem UniformOn.step {l : Ledger} (hB : Books env s.world l) (h : UniformOn p s)
    (hs : StepOf (StartingWorld.step env) s a s')
    (hgood : (s.world.newConfig a.1.2).2 = false ∨ s.storageBuilt = false ∨
      ∀ ref, p ref → IsClusterRef ref) : UniformOn p s' := by
  obtain ⟨⟨t, op⟩, o⟩ := a
  obtain ⟨hstep, hbuilt⟩ := StartingWorld.stepOf_iff.mp hs
  dsimp only at hstep hbuilt
  by_cases hop : World.IsUpdate op
  · have hconfig : (s.getInstance op).newConfig op = s.world.newConfig op := by
      rcases hop with ⟨n, rfl⟩ | ⟨ms, rfl⟩ <;> simp only [World.newConfig, getInstance_config]
    have hvalid : (s.world.newConfig op).1.Valid := World.newConfig_valid h.valid
    have hneeds := World.needsStorage_of_isUpdate (w := s.world) hop
    rw [World.step_of_isUpdate hop, hconfig, Option.some.injEq, Prod.mk.injEq] at hstep
    cases hchange : (s.world.newConfig op).2 with
    | false =>
      have hsame : s.getInstance op = s.world := by
        simp [StartingWorld.getInstance, hneeds, hchange]
      have hworld : s'.world = s.world := by
        rw [← hstep.1, hsame, World.setConfig_of_unchanged hchange]
      refine ⟨hworld ▸ h.valid, fun hb => ?_⟩
      rw [hneeds, hchange, Bool.or_false] at hbuilt
      rw [hworld]
      exact h.nodes (hbuilt ▸ hb)
    | true =>
      rw [World.setConfig_of_changed hchange] at hstep
      obtain ⟨hworld, -⟩ := hstep
      refine ⟨by rw [← hworld]; exact hvalid, fun _ => ?_⟩
      rw [← hworld]
      rcases hgood with hfalse | hnew | hcluster
      · rw [hchange] at hfalse
        exact Bool.noConfusion hfalse
      · have hmk : s.getInstance op =
            { s.world with storage := .mk' (s.world.newConfig op).1 } := by
          simp [StartingWorld.getInstance, hneeds, hchange, hnew]
        rw [hmk]
        exact nodesShaped_mk' s.world _
      · intro ref href
        obtain ⟨r, rfl⟩ := hcluster ref href
        exact World.shaped_cluster_resetClusterNodes _ _ r
  · have hnot : ∀ q, NodesShaped q (s.getInstance op) → s'.world.config = (s.getInstance op).config ∧
        NodesShaped q s'.world := fun q hq =>
      hq.step (hB.getInstance op) (fun n hn => hop (.inl ⟨n, hn⟩)) (fun ms hms => hop (.inr ⟨ms, hms⟩))
        hstep
    have hconfig : s'.world.config = s.world.config := by
      rw [(hnot (fun _ => False) fun _ hf => hf.elim).1, getInstance_config]
    refine ⟨hconfig ▸ h.valid, fun hb => ?_⟩
    exact (hnot p (h.getInstance hop (hbuilt ▸ hb))).2

/-- A change of the configuration leaves the entry node behind. -/
theorem not_uniform_of_changed (h : Uniform s) (hs : StepOf (StartingWorld.step env) s a s')
    (hb : s.storageBuilt = true) (hchange : (s.world.newConfig a.1.2).2 = true) : ¬ Uniform s' := by
  obtain ⟨⟨t, op⟩, o⟩ := a
  obtain ⟨hstep, hbuilt⟩ := StartingWorld.stepOf_iff.mp hs
  dsimp only at hstep hbuilt
  have hop : World.IsUpdate op := by
    by_contra hop
    rw [World.newConfig_of_not_isUpdate hop] at hchange
    exact Bool.noConfusion hchange
  have hsame : s.getInstance op = s.world := by simp [StartingWorld.getInstance, hb]
  rw [hsame, World.step_of_isUpdate hop, World.setConfig_of_changed hchange, Option.some.injEq,
    Prod.mk.injEq] at hstep
  intro h'
  have hb' : s'.storageBuilt = true := by rw [hbuilt, hb, Bool.true_or]
  have hnew := h'.nodes hb' .entryNode trivial s.world.storage.entryNode
  rw [← hstep.1] at hnew
  have hold := h.nodes hb .entryNode trivial s.world.storage.entryNode rfl
  have hne : (s.world.newConfig op).1 ≠ s.world.config := by
    rcases s.world.newConfig_cases op with ⟨hfalse, -⟩ | ⟨-, hne⟩
    · rw [hchange] at hfalse
      exact Bool.noConfusion hfalse
    · exact hne
  exact hne ((hnew rfl).unique hold)

end Run

theorem uniform_start (env : Env) (built : Bool) (p : NodeRef → Prop) :
    UniformOn p (.start env built) :=
  ⟨StatConfig.valid_default, fun _ => nodesShaped_mk' (World.start env) {}⟩

/-- **One configuration for all nodes.**  In every run the configuration is one the guards let through
and the cluster nodes agree with it.  All nodes, tag nodes and the entry node included, agree with it
throughout the run exactly when no call changes the configuration once the storage has been built. -/
theorem one_configuration {env : Env} {built : Bool} {tr : List Label} {s : StartingWorld}
    (hr : StartingWorld.Steps env (.start env built) tr s) :
    Always (StepOf (StartingWorld.step env)) (.start env built) (UniformOn IsClusterRef) tr ∧
    (Always (StepOf (StartingWorld.step env)) (.start env built) Uniform tr ↔
      EveryStep (StepOf (StartingWorld.step env)) (.start env built)
        (fun s a => s.storageBuilt = true → (s.world.newConfig a.1.2).2 = false) tr) := by
  constructor
  · rintro tr₁ s₁ - hr₁
    refine Run.hist (I := fun _ s => UniformOn IsClusterRef s) (uniform_start env built _) ?_ hr₁
    intro tr s a s' hr h hs
    exact h.step (books_startingRun hr) hs (.inr (.inr fun _ href => href))
  · refine always_iff_everyStep stepOf_det (uniform_start env built _) ?_ hr
    rintro tr₁ s a s' - hr₁ h hs
    constructor
    · intro h' hb
      rw [← Bool.not_eq_true]
      exact fun hchange => not_uniform_of_changed h hs hb hchange h'
    · intro hcond
      refine UniformOn.step (books_startingRun hr₁) h hs ?_
      cases hb : s.storageBuilt with
      | false => exact .inr (.inl rfl)
      | true => exact .inl (hcond hb)

/-- The configuration is changed to four buckets before the first entry: the nodes are built with four. -/
theorem one_configuration_example : ∃ tr s, StartingWorld.Steps (.simple "T") (.start (.simple "T") false)
      tr s ∧ tr.map Prod.fst = [(0, .updateSampleCount 4), (1, .entry ⟨0, "r", .IN, 1, []⟩)] ∧
      Uniform s := by
  have hchecks : checks (StartingWorld.step (.simple "T"))
      (fun s a => !s.storageBuilt || !(s.world.newConfig a.1.2).2) (.start (.simple "T") false)
      [(0, .updateSampleCount 4), (1, .entry ⟨0, "r", .IN, 1, []⟩)] = true := by decide
  obtain ⟨tr, s, htr, hr, hall⟩ := exists_run_of_checks hchecks
  refine ⟨tr, s, hr, htr, ((one_configuration hr).2.mpr ?_).last hr⟩
  intro tr₁ s₁ a hp hr₁ hb
  have htest := hall tr₁ s₁ a hp hr₁
  simpa [hb] using htest

/-- An inbound entry with a tag, then a change to four buckets: the cluster node has four, its tag node
and the entry node still two. -/
theorem one_configuration_fails : ∃ tr s, StartingWorld.Steps (.simple "T")
      (.start (.simple "T") false) tr s ∧
      tr.map Prod.fst = [(0, .entry ⟨0, "r", .IN, 1, []⟩), (1, .updateSampleCount 4)] ∧
      s.world.config.sampleCount = 4 ∧
      [.cluster "r", .tag "r" "T", .entryNode].map (fun ref =>
        (s.world.storage.node? ref).map fun n => n.rollingCounterSecond.slidingWindow.sampleCount) =
        [some 4, some 2, some 2] ∧
      ¬ Uniform s := by
  have hexec : (execute (StartingWorld.step (.simple "T")) (.start (.simple "T") false)
      [(0, .entry ⟨0, "r", .IN, 1, []⟩), (1, .updateSampleCount 4)]).map (fun r =>
        (r.1.map Prod.snd, r.2.storageBuilt, r.2.world.config.sampleCount,
          [.cluster "r", .tag "r" "T", .entryNode].map fun ref =>
            (r.2.world.storage.node? ref).map fun n =>
              n.rollingCounterSecond.slidingWindow.sampleCount)) =
      some ([.passed, .done], true, 4, [some 4, some 2, some 2]) := by decide
  obtain ⟨⟨tr, s⟩, hr, heq⟩ := Option.map_eq_some_iff.mp hexec
  simp only [Prod.mk.injEq] at heq
  obtain ⟨-, hbuilt, hcount, hnodes⟩ := heq
  refine ⟨tr, s, run_of_execute hr, execute_inputs hr, hcount, hnodes, fun h => ?_⟩
  simp only [List.map_cons, List.map_nil, List.cons.injEq, and_true] at hnodes
  obtain ⟨-, -, hentry⟩ := hnodes
  have hshape := h.nodes hbuilt .entryNode trivial s.world.storage.entryNode rfl
  have htwo : s.world.storage.entryNode.rollingCounterSecond.slidingWindow.sampleCount = 2 := by
    simpa [ResourceNodeStorage.node?] using hentry
  have hfour := hshape.1
  omega

end SentinelCpp
