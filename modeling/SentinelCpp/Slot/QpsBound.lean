import SentinelCpp.Slot.Conservation
import SentinelCpp.Slot.HalfOpen
import SentinelCpp.Stat.PassWindow

/-!
# The rate under a QPS rule

The flow check adds the weight of a call to a rate per second.  The rate the node reports afterwards
stays within the limit of the rule, in every run, exactly when the whole part of the limit fits into
the window: with windows of a second or more it always does.
-/

namespace SentinelCpp

open Lib Stat Property SentinelCpp.Flow

/-! ### The window of a node that may not exist yet -/

/-- The node, if it exists, has a `PassWindow`. -/
def NodeWindow (n b : ℕ) (node : Option StatisticNode) (now : ℕ) : Prop :=
  ∀ x, node = some x → PassWindow n b x now

/-- The passes in its window, zero before it exists. -/
def sumOf (node : Option StatisticNode) (t : ℕ) : ℤ := (node.map fun x => passSum x t).getD 0

namespace NodeWindow

variable {n b now t : ℕ} {node node' : Option StatisticNode}

theorem later (h : NodeWindow n b node now) (hle : now ≤ t) : NodeWindow n b node t :=
  fun x hx => (h x hx).later hle

/-- A new node has an empty window. -/
theorem grown (hn : 0 < n) (hb : 0 < b) {config : StatConfig} (hc : config.sampleCount = n)
    (hi : config.intervalMs = n * b) (h : NodeWindow n b node t)
    (hg : node' = node ∨ (node = none ∧ node' = some (.mk' config))) :
    NodeWindow n b node' t ∧ sumOf node' t = sumOf node t := by
  rcases hg with rfl | ⟨rfl, rfl⟩
  · exact ⟨h, rfl⟩
  · refine ⟨fun x hx => ?_, passSum_mk' hn hb hc hi t⟩
    obtain rfl := Option.some.inj hx
    exact .mk' hc hi t

theorem readAt (h : NodeWindow n b node t) (hr : Option.Rel (StatisticNode.ReadAt t) node node') :
    NodeWindow n b node' t ∧ sumOf node' t = sumOf node t := by
  cases hr with
  | none => exact ⟨h, rfl⟩
  | some hr =>
    refine ⟨fun x hx => ?_, passSum_readAt hr⟩
    obtain rfl := Option.some.inj hx
    exact (h _ rfl).readAt le_rfl hr

theorem record (hn : 0 < n) (hb : 0 < b) (h : NodeWindow n b node t) (e : NodeEvent)
    (he : ∀ a, e = .pass a → 0 ≤ a) : NodeWindow n b (node.map fun x => e.record x t) t := by
  intro x hx
  obtain ⟨y, hy, rfl⟩ := Option.map_eq_some_iff.mp hx
  exact (h y hy).record hn hb le_rfl e he

theorem sumOf_record (hn : 0 < n) (hb : 0 < b) (h : NodeWindow n b node t) (hex : node ≠ none) (a : ℤ) :
    sumOf (node.map fun x => (NodeEvent.pass a).record x t) t = sumOf node t + a := by
  cases node with
  | none => exact absurd rfl hex
  | some x => exact (h x rfl).passSum_record hn hb le_rfl a

theorem sumOf_nonneg (hn : 0 < n) (hb : 0 < b) (h : NodeWindow n b node t) : 0 ≤ sumOf node t := by
  cases node with
  | none => exact le_rfl
  | some x => exact (h x rfl).passSum_nonneg hn hb le_rfl

theorem passQpsAt_eq {st : ResourceNodeStorage} {ref : NodeRef} (h : NodeWindow n b (st.node? ref) t) :
    passQpsAt st ref t = sumOf (st.node? ref) t / (((n * b : ℕ) : ℚ) / 1000) := by
  unfold passQpsAt sumOf
  cases hx : st.node? ref with
  | none => simp
  | some x => exact (h x hx).passQps_eq t

end NodeWindow

/-! ### One call -/

section Call

variable {env : Env} {w w₁ : World} {t n b : ℕ} {c : Call} {resource : String}

variable (env c) in
/-- The checks leave the window and its total as they were. -/
theorem nodeWindow_checked (hn : 0 < n) (hb : 0 < b) (hc : w.config.sampleCount = n)
    (hi : w.config.intervalMs = n * b) {ref : NodeRef} (h : NodeWindow n b (w.storage.node? ref) t) :
    NodeWindow n b ((w.built env c).storage.node? ref) t ∧
      sumOf ((w.built env c).storage.node? ref) t = sumOf (w.storage.node? ref) t ∧
      ∀ st, (w.built env c).storage.ReadAt t st → NodeWindow n b (st.node? ref) t ∧
        sumOf (st.node? ref) t = sumOf (w.storage.node? ref) t := by
  obtain ⟨h1, h2⟩ := h.grown hn hb hc hi (World.grown_builtNodes env c w ref)
  refine ⟨h1, h2, fun st hr => ?_⟩
  obtain ⟨h3, h4⟩ := h1.readAt (hr.1 ref)
  exact ⟨h3, h4.trans h2⟩

/-- An admitted call adds its weight on its own resource. -/
theorem nodeWindow_passed (hn : 0 < n) (hb : 0 < b) (hc : w.config.sampleCount = n)
    (hi : w.config.intervalMs = n * b) (htag : IsTagNode (w₁.contexts c.context).tagNode)
    (hcount : 0 ≤ c.count) (h : NodeWindow n b (w.storage.node? (.cluster resource)) t)
    (hcheck : (w.built env c).ruleCheck env t c = some (w₁, .ok)) :
    NodeWindow n b ((w₁.recordPass t c).storage.node? (.cluster resource)) t ∧
      sumOf ((w₁.recordPass t c).storage.node? (.cluster resource)) t =
        sumOf (w.storage.node? (.cluster resource)) t + if c.resource = resource then c.count else 0 := by
  obtain ⟨h1, h2⟩ := (nodeWindow_checked env c hn hb hc hi h).2.2 _
    (World.ruleCheck_spec hcheck).storage
  have hon : World.countedOn c.resource c.entryType (w₁.contexts c.context).tagNode
      (.cluster resource) ↔ c.resource = resource := by
    rw [countedOn_iff (fun _ _ => by simp) htag]
    simp [belongsTo]
  rw [World.recordPass_node? htag]
  by_cases hr : c.resource = resource
  · rw [if_pos (hon.mpr hr), if_pos hr]
    subst hr
    refine ⟨h1.record hn hb (.pass c.count) fun a ha => ?_, ?_⟩
    · obtain rfl := NodeEvent.pass.inj ha
      exact hcount
    · rw [h1.sumOf_record hn hb (World.node?_ne_none_of_ruleCheck hcheck World.builtNodes_cluster), h2]
  · rw [if_neg (mt hon.mp hr), if_neg hr, add_zero]
    exact ⟨h1, h2⟩

/-- Every call keeps the window. -/
theorem nodeWindow_step {w' : World} {l : Ledger} (hB : Books env w l) (hn : 0 < n) (hb : 0 < b)
    (hc : w.config.sampleCount = n) (hi : w.config.intervalMs = n * b) {op : Op} {o : Outcome}
    (hop : match op with
      | .entry c => 0 ≤ c.count
      | .exit _ _ => True
      | _ => False)
    (h : NodeWindow n b (w.storage.node? (.cluster resource)) t) (hE : Effect env t w op o w') :
    NodeWindow n b (w'.storage.node? (.cluster resource)) t := by
  have hmap : ∀ {node node' : Option StatisticNode} {p : Prop} [Decidable p] (e : NodeEvent),
      (∀ a, e = .pass a → 0 ≤ a) → NodeWindow n b node t →
      node' = (if p then node.map fun x => e.record x t else node) → NodeWindow n b node' t := by
    rintro node node' p hp e he hnode rfl
    split_ifs
    · exact hnode.record hn hb e he
    · exact hnode
  cases hE with
  | notActivated hact => exact h
  | @passed c w₁ hact hcheck =>
    exact (nodeWindow_passed hn hb hc hi (((hB.built c).checked hcheck).isTagNode _) hop h hcheck).1
  | @blocked c w₁ reason hact hcheck =>
    obtain ⟨h1, -⟩ := (nodeWindow_checked env c hn hb hc hi h).2.2 _
      (World.ruleCheck_spec hcheck).storage
    exact hmap (.block c.count) (by simp) h1
      (World.recordBlock_node? (((hB.built c).checked hcheck).isTagNode _) reason _)
  | @exited id e count hid hlive =>
    exact hmap (.complete _ e.error count) (by simp) h (World.recordExit_node? (hB.isTagNode _) _)
  | exitedBefore | exitBlocked => exact h
  | setError | trace | setActivated => exact hop.elim
  | config r hw' _ _ _ hconfig =>
    rcases hconfig with ⟨_, rfl⟩ | ⟨_, rfl⟩
    · exact hop.elim
    · exact hop.elim
  | rules hw' =>
    rw [hw']
    exact h

end Call

/-! ### Setting up a protected resource -/

/-- A call of `StatConfigManager`. -/
def IsConfigCall (a : Label) : Prop :=
  (∃ n, a.1.2 = .updateSampleCount n) ∨ ∃ ms, a.1.2 = .updateInterval ms

/-- Start-up, any calls of `StatConfigManager`, and one `LoadRules` of the flow manager. -/
def SetUp (env : Env) (rules : List FlowRule) (w : World) : Prop :=
  ∃ cs w₀, (∀ a ∈ cs, IsConfigCall a) ∧ World.Steps env (World.start env) cs w₀ ∧
    w = { w₀ with flow := w₀.flow.apply (Flow.managerKind env.flowSetOrder) (.loadRules rules) }

/-- Only the configuration differs from start-up, and it is one the guards let through. -/
structure OnlyConfigured (env : Env) (w : World) : Prop where
  world_eq : w = { World.start env with config := w.config, storage := w.storage }
  nodeMap : w.storage.nodeMap = []
  valid : w.config.Valid

theorem onlyConfigured_run {env : Env} {cs : List Label} {w : World} (hcs : ∀ a ∈ cs, IsConfigCall a)
    (h : World.Steps env (World.start env) cs w) : OnlyConfigured env w := by
  induction h with
  | nil => exact ⟨rfl, rfl, StatConfig.valid_default⟩
  | @snoc tr w w' a hr hs ih =>
    obtain ⟨heq, hnil, hvalid⟩ := ih fun a ha => hcs a (List.mem_append_left _ ha)
    have hset : ∀ r : StatConfig × Bool, r.1.Valid → OnlyConfigured env (w.setConfig r) := by
      intro r hr
      unfold World.setConfig
      split_ifs
      · refine ⟨by rw [heq], ?_, hr⟩
        simp [ResourceNodeStorage.resetClusterNodes, hnil, Assoc.mapValues]
      · exact ⟨by rw [heq], hnil, hr⟩
    obtain ⟨⟨t, op⟩, o⟩ := a
    rcases hcs ((t, op), o) (by simp) with ⟨n, hop⟩ | ⟨ms, hop⟩
    · subst hop
      simp only [StepOf, World.step, Option.some.injEq, Prod.mk.injEq] at hs
      rw [← hs.1]
      exact hset _ (hvalid.updateSampleCount n)
    · subst hop
      simp only [StepOf, World.step, Option.some.injEq, Prod.mk.injEq] at hs
      rw [← hs.1]
      exact hset _ (hvalid.updateInterval ms)

/-- What an entry of the protected resource depends on. -/
structure Protected (env : Env) (rule : FlowRule) (config : StatConfig) (w : World) : Prop where
  activated : w.activated = true
  config_eq : w.config = config
  rules : w.flow.maps.getRulesForResource rule.resource = [normalizeRule rule]
  controller : w.flow.maps.getTrafficControllerFor (normalizeRule rule) =
    some (createDefaultController (normalizeRule rule))
  system : w.system.maps = none
  param : w.param.maps = none
  breakers : w.circuitBreaker.maps.cbMap = []

theorem setUp_spec {env : Env} {rules : List FlowRule} {rule : FlowRule} {w : World}
    (honly : OnlyRule rules rule) (h : SetUp env rules w) :
    w.config.Valid ∧ w.storage.nodeMap = [] ∧ Books env w {} ∧ Protected env rule w.config w := by
  obtain ⟨cs, w₀, hcs, hr, rfl⟩ := h
  obtain ⟨heq, hnil, hvalid⟩ := onlyConfigured_run hcs hr
  have hne : rules ≠ [] := by
    rintro rfl
    simp [OnlyRule] at honly
  have hflow : (w₀.flow.apply (Flow.managerKind env.flowSetOrder) (.loadRules rules)).maps =
      Flow.configUpdate env.flowSetOrder (Flow.managerKind env.flowSetOrder).initial rules := by
    rw [heq]
    cases rules with
    | nil => exact absurd rfl hne
    | cons x rules => rfl
  obtain ⟨h1, h2⟩ := configUpdate_protected env.flowSetOrder
    (Flow.managerKind env.flowSetOrder).initial honly
  refine ⟨hvalid, hnil, ?_, ?_⟩
  · refine ⟨?_, ?_, ?_⟩
    · rw [heq]
      rfl
    · rw [heq]
      exact .nil
    · rw [heq]
      simp [World.start]
  · refine ⟨?_, rfl, ?_, ?_, ?_, ?_, ?_⟩
    · rw [heq]
      rfl
    · rw [hflow]
      exact h1
    · rw [hflow]
      exact h2
    · rw [heq]
      rfl
    · rw [heq]
      rfl
    · rw [heq]
      rfl

/-! ### Runs of entries and exits -/

/-- A call of `Entry` with a positive `int` weight, or of `Exit`. -/
def EntryOrExit (a : Label) : Prop :=
  match a.1.2 with
  | .entry c => 1 ≤ c.count ∧ c.count ≤ 2147483647
  | .exit _ _ => True
  | _ => False

/-- The times of the calls do not decrease. -/
def NonDecreasing (tr : List Label) : Prop := (tr.map fun a => a.1.1).Pairwise (· ≤ ·)

theorem NonDecreasing.of_concat {tr : List Label} {a : Label} (h : NonDecreasing (tr ++ [a])) :
    NonDecreasing tr ∧ ∀ x ∈ tr, x.1.1 ≤ a.1.1 := by
  rw [NonDecreasing, List.map_append, List.pairwise_append] at h
  exact ⟨h.1, fun x hx => h.2.2 _ (List.mem_map_of_mem hx) _ (by simp)⟩

theorem nonDecreasing_of_zero {tr : List Label} (h : ∀ a ∈ tr, a.1.1 = 0) : NonDecreasing tr := by
  refine List.pairwise_of_forall_mem_list fun x hx y hy => ?_
  obtain ⟨a, ha, rfl⟩ := List.mem_map.mp hx
  rw [h a ha]
  exact Nat.zero_le y

section Runs

variable {env : Env} {rule : FlowRule} {config : StatConfig} {w w' w₁ : World} {t n b : ℕ}

theorem Protected.step (hP : Protected env rule config w) {op : Op} {o : Outcome}
    (hop : EntryOrExit ((t, op), o)) (hE : Effect env t w op o w') :
    Protected env rule config w' := by
  have hkeep : KeepsBreakerRules ((t, op), o) := by
    rintro r rfl
    exact hop
  obtain ⟨h1, h2, h3, h4, h5, h6, h7⟩ := hP
  have hcb := (cbMap_step hkeep hE).trans h7
  cases hE with
  | notActivated hact => exact ⟨h1, h2, h3, h4, h5, h6, hcb⟩
  | @passed c w₁ hact hcheck =>
    have heq := (World.ruleCheck_spec hcheck).world_eq
    refine ⟨?_, ?_, ?_, ?_, ?_, ?_, hcb⟩ <;> simp only [World.recordPass, onPass] <;> rw [heq]
    · exact h1
    · exact h2
    · exact h3
    · exact h4
    · exact h5
    · exact h6
  | @blocked c w₁ reason hact hcheck =>
    have heq := (World.ruleCheck_spec hcheck).world_eq
    refine ⟨?_, ?_, ?_, ?_, ?_, ?_, hcb⟩ <;> simp only [World.recordBlock, onBlock] <;> rw [heq]
    · exact h1
    · exact h2
    · exact h3
    · exact h4
    · exact h5
    · exact h6
  | exited hid hlive =>
    refine ⟨?_, ?_, ?_, ?_, ?_, ?_, hcb⟩ <;>
      simp only [World.recordExit, statisticSlotExit, Entry.hasBlockError, ne_eq, not_true_eq_false,
        decide_false, Bool.false_eq_true, if_false]
    · exact h1
    · exact h2
    · exact h3
    · exact h4
    · exact h5
    · exact h6
  | exitedBefore | exitBlocked => exact ⟨h1, h2, h3, h4, h5, h6, h7⟩
  | setError | trace | setActivated => exact hop.elim
  | config r hw' _ _ _ hconfig =>
    rcases hconfig with ⟨_, rfl⟩ | ⟨_, rfl⟩
    · exact hop.elim
    · exact hop.elim
  | @rules op _ hw' _ hentry _ _ hexit =>
    cases op with
    | entry c => exact absurd rfl (hentry c)
    | exit result count => exact absurd rfl (hexit result count)
    | _ => exact hop.elim

/-- The window of the protected resource after a run of entries and exits. -/
theorem nodeWindow_run {tr : List Label} (hn : 0 < n) (hb : 0 < b) (hc : config.sampleCount = n)
    (hi : config.intervalMs = n * b) (hB : Books env w₁ {}) (hP : Protected env rule config w₁)
    (hnone : w₁.storage.nodeMap = []) (hops : ∀ a ∈ tr, EntryOrExit a) (hmono : NonDecreasing tr)
    (h : World.Steps env w₁ tr w) : Protected env rule config w ∧
      ∀ t, (∀ a ∈ tr, a.1.1 ≤ t) → NodeWindow n b (w.storage.node? (.cluster rule.resource)) t := by
  induction h with
  | nil =>
    refine ⟨hP, fun t _ x hx => ?_⟩
    simp [ResourceNodeStorage.node?, ResourceNodeStorage.getClusterNode, hnone] at hx
  | @snoc tr w w' a hr hs ih =>
    obtain ⟨hmono, hlast⟩ := hmono.of_concat
    obtain ⟨hP', hwin⟩ := ih (fun x hx => hops x (List.mem_append_left _ hx)) hmono
    obtain ⟨⟨t, op⟩, o⟩ := a
    have hop := hops ((t, op), o) (by simp)
    have hE := step_effect (books_run_of hB hr) hs
    refine ⟨hP'.step hop hE, fun t' ht' => ?_⟩
    have hstep : NodeWindow n b (w'.storage.node? (.cluster rule.resource)) t := by
      refine nodeWindow_step (books_run_of hB hr) hn hb (hP'.config_eq ▸ hc) (hP'.config_eq ▸ hi) ?_
        (hwin t hlast) hE
      cases op with
      | entry c => exact le_trans (by decide) hop.1
      | exit result count => trivial
      | _ => exact hop.elim
    exact hstep.later (ht' ((t, op), o) (by simp))

/-! ### The admission test -/

/-- **An admitted call** found room for its weight beside the rate. -/
theorem Protected.admitted {c : Call} (hrule : DirectQpsRule rule) (hP : Protected env rule config w)
    (hn : 0 < n) (hb : 0 < b) (hc : config.sampleCount = n) (hi : config.intervalMs = n * b)
    (hres : c.resource = rule.resource)
    (hwin : NodeWindow n b (w.storage.node? (.cluster rule.resource)) t)
    (hcheck : (w.built env c).ruleCheck env t c = some (w₁, .ok)) :
    (sumOf (w.storage.node? (.cluster rule.resource)) t : ℚ) / (((n * b : ℕ) : ℚ) / 1000) + c.count ≤
      rule.count := by
  obtain ⟨st, hread, hok⟩ := World.flow_ok_of_ruleCheck hcheck
  obtain ⟨h1, h2⟩ := (nodeWindow_checked env c hn hb (hP.config_eq ▸ hc)
    (hP.config_eq ▸ hi) hwin).2.2 st hread
  rw [hres] at hok
  have hpass := (flowEntry_direct hrule hP.rules hP.controller t _ _ _ c.count st).mp hok
  rwa [h1.passQpsAt_eq, h2] at hpass

/-- With no other rules, that is all a call needs. -/
theorem Protected.admits {c : Call} (hrule : DirectQpsRule rule) (hP : Protected env rule config w)
    (hn : 0 < n) (hb : 0 < b) (hc : config.sampleCount = n) (hi : config.intervalMs = n * b)
    (hres : c.resource = rule.resource)
    (hwin : NodeWindow n b (w.storage.node? (.cluster rule.resource)) t)
    (hroom : (sumOf (w.storage.node? (.cluster rule.resource)) t : ℚ) / (((n * b : ℕ) : ℚ) / 1000) +
      c.count ≤ rule.count) (hargs : c.params = []) :
    ∃ w', StepOf (World.step env) w ((t, .entry c), .passed) w' := by
  obtain ⟨h1, h2, -⟩ := nodeWindow_checked env c hn hb (hP.config_eq ▸ hc)
    (hP.config_eq ▸ hi) hwin
  have hflow : (Flow.flowEntry t (w.built env c).flow.maps c.resource (env.contextTag c.context)
      ((w.built env c).contexts c.context).tagNode (some (.cluster c.resource)) c.count
      (w.built env c).storage).2 = .ok := by
    rw [hres]
    refine (flowEntry_direct hrule hP.rules hP.controller t _ _ _ c.count _).mpr ?_
    rwa [h1.passQpsAt_eq, h2]
  have hcheck : ((w.built env c).ruleCheck env t c).map Prod.snd = some .ok :=
    World.ruleCheck_ok_of_flow hP.system hP.param hP.breakers hflow
  obtain ⟨⟨w₁, res⟩, hcheck, rfl⟩ := Option.map_eq_some_iff.mp hcheck
  refine ⟨{ w₁.recordPass t c with entries := w₁.entries ++ [World.admittedEntry t c] }, ?_⟩
  show World.entry env w t c = _
  rw [World.entry_eq hP.activated, hcheck]
  dsimp only
  rw [hargs, Param.addPassFaults_nil, if_neg Bool.false_ne_true]

/-! ### The bound -/

/-- After every admitted call on the resource, in every run of entries and exits at non-decreasing
times, the node of the resource reports at most `limit` passes per second. -/
def BoundsRate (env : Env) (w₁ : World) (resource : String) (limit : ℚ) : Prop :=
  ∀ tr w t c, World.Steps env w₁ (tr ++ [((t, .entry c), .passed)]) w →
    (∀ a ∈ tr ++ [((t, .entry c), .passed)], EntryOrExit a) →
    NonDecreasing (tr ++ [((t, .entry c), .passed)]) → c.resource = resource →
    passQpsAt w.storage (.cluster resource) t ≤ limit

/-- The rate after an admitted call: its weight is added to the window. -/
theorem Protected.passQps_passed {l : Ledger} {c : Call} (hP : Protected env rule config w)
    (hB : Books env w l) (hn : 0 < n) (hb : 0 < b) (hc : config.sampleCount = n)
    (hi : config.intervalMs = n * b) (hres : c.resource = rule.resource) (hcount : 0 ≤ c.count)
    (hwin : NodeWindow n b (w.storage.node? (.cluster rule.resource)) t)
    (hE : Effect env t w (.entry c) .passed w') :
    sumOf (w'.storage.node? (.cluster rule.resource)) t =
        sumOf (w.storage.node? (.cluster rule.resource)) t + c.count ∧
      passQpsAt w'.storage (.cluster rule.resource) t =
        ((sumOf (w.storage.node? (.cluster rule.resource)) t : ℚ) + c.count) /
          (((n * b : ℕ) : ℚ) / 1000) := by
  cases hE with
  | @passed _ w₁ hact hcheck =>
    obtain ⟨h1, h2⟩ := nodeWindow_passed hn hb (hP.config_eq ▸ hc) (hP.config_eq ▸ hi)
      (((hB.built c).checked hcheck).isTagNode _) hcount hwin hcheck
    rw [if_pos hres] at h2
    refine ⟨h2, ?_⟩
    dsimp only
    rw [h1.passQpsAt_eq, h2, Int.cast_add]

theorem boundsRate_of_fits (hrule : DirectQpsRule rule) (hn : 0 < n) (hb : 0 < b)
    (hc : config.sampleCount = n) (hi : config.intervalMs = n * b) (hB : Books env w₁ {})
    (hP : Protected env rule config w₁) (hnone : w₁.storage.nodeMap = [])
    (hfits : (⌊rule.count⌋ : ℚ) ≤ rule.count * (((n * b : ℕ) : ℚ) / 1000)) :
    BoundsRate env w₁ rule.resource rule.count := by
  intro tr w' t c h hops hmono hres
  obtain ⟨w, hr, hs⟩ := h.of_snoc
  obtain ⟨hmono₀, hlast⟩ := hmono.of_concat
  obtain ⟨hP', hwin⟩ := nodeWindow_run hn hb hc hi hB hP hnone
    (fun x hx => hops x (List.mem_append_left _ hx)) hmono₀ hr
  have hwin := hwin t hlast
  have hB' := books_run_of hB hr
  have hE := step_effect hB' hs
  have hcount : 0 ≤ c.count := le_trans (by decide) (hops ((t, .entry c), .passed) (by simp)).1
  rw [(hP'.passQps_passed hB' hn hb hc hi hres hcount hwin hE).2]
  have hq : (0 : ℚ) < ((n * b : ℕ) : ℚ) / 1000 := by
    have : 0 < n * b := Nat.mul_pos hn hb
    positivity
  cases hE with
  | passed hact hcheck =>
    have hadm := hP'.admitted hrule hn hb hc hi hres hwin hcheck
    exact rate_le_of_admitted hq (hwin.sumOf_nonneg hn hb) hcount hadm hfits

/-- An outbound call on the resource without arguments. -/
def plainCall (resource : String) (count : ℤ) : Call := ⟨0, resource, .OUT, count, []⟩

/-- The label of such a call, admitted at time 0. -/
def admittedAtZero (resource : String) (count : ℤ) : Label :=
  ((0, .entry (plainCall resource count)), .passed)

theorem entryOrExit_admittedAtZero {resource : String} {m : ℤ} (h1 : 1 ≤ m) (h2 : m ≤ 2147483647) :
    EntryOrExit (admittedAtZero resource m) ∧ (admittedAtZero resource m).1.1 = 0 :=
  ⟨⟨h1, h2⟩, rfl⟩

theorem entryOrExit_replicate {resource : String} {p : ℕ} :
    ∀ a ∈ List.replicate p (admittedAtZero resource 1), EntryOrExit a ∧ a.1.1 = 0 := by
  intro a ha
  rw [List.eq_of_mem_replicate ha]
  exact entryOrExit_admittedAtZero le_rfl (by decide)

/-- One more call at time 0, after a run at time 0 that left room for it. -/
theorem Protected.one_more {tr : List Label} {m : ℤ} (hrule : DirectQpsRule rule) (hn : 0 < n)
    (hb : 0 < b) (hc : config.sampleCount = n) (hi : config.intervalMs = n * b)
    (hB : Books env w₁ {}) (hP : Protected env rule config w₁) (hnone : w₁.storage.nodeMap = [])
    (hops : ∀ a ∈ tr, EntryOrExit a) (hzero : ∀ a ∈ tr, a.1.1 = 0) (hm : 0 ≤ m)
    (hr : World.Steps env w₁ tr w)
    (hroom : (sumOf (w.storage.node? (.cluster rule.resource)) 0 : ℚ) / (((n * b : ℕ) : ℚ) / 1000) +
      m ≤ rule.count) :
    ∃ w', World.Steps env w₁ (tr ++ [admittedAtZero rule.resource m]) w' ∧
      sumOf (w'.storage.node? (.cluster rule.resource)) 0 =
        sumOf (w.storage.node? (.cluster rule.resource)) 0 + m ∧
      passQpsAt w'.storage (.cluster rule.resource) 0 =
        ((sumOf (w.storage.node? (.cluster rule.resource)) 0 : ℚ) + m) /
          (((n * b : ℕ) : ℚ) / 1000) := by
  obtain ⟨hP', hwin⟩ := nodeWindow_run hn hb hc hi hB hP hnone hops (nonDecreasing_of_zero hzero) hr
  have hwin := hwin 0 fun a ha => (hzero a ha).le
  obtain ⟨w', hs⟩ := hP'.admits (c := plainCall rule.resource m) hrule hn hb hc hi rfl hwin hroom rfl
  have hB' := books_run_of hB hr
  exact ⟨w', hr.snoc hs,
    hP'.passQps_passed hB' hn hb hc hi rfl hm hwin (step_effect hB' hs)⟩

/-- Calls of weight 1, as long as there is room. -/
theorem Protected.unit_calls (hrule : DirectQpsRule rule) (hn : 0 < n) (hb : 0 < b)
    (hc : config.sampleCount = n) (hi : config.intervalMs = n * b) (hB : Books env w₁ {})
    (hP : Protected env rule config w₁) (hnone : w₁.storage.nodeMap = []) {p : ℕ}
    (hroom : ∀ k < p, (k : ℚ) / (((n * b : ℕ) : ℚ) / 1000) + 1 ≤ rule.count) :
    ∃ w, World.Steps env w₁ (List.replicate p (admittedAtZero rule.resource 1)) w ∧
      sumOf (w.storage.node? (.cluster rule.resource)) 0 = p := by
  induction p with
  | zero =>
    refine ⟨w₁, .nil, ?_⟩
    simp [ResourceNodeStorage.node?, ResourceNodeStorage.getClusterNode, hnone, sumOf]
  | succ p ih =>
    obtain ⟨w, hr, hsum⟩ := ih fun k hk => hroom k (Nat.lt_succ_of_lt hk)
    obtain ⟨w', hr', hsum', -⟩ := Protected.one_more (m := 1) hrule hn hb hc hi hB hP hnone
      (fun a ha => (entryOrExit_replicate a ha).1) (fun a ha => (entryOrExit_replicate a ha).2)
      (by decide) hr (by
        rw [hsum]
        exact_mod_cast hroom p (Nat.lt_succ_self p))
    refine ⟨w', ?_, ?_⟩
    · rw [List.replicate_succ']
      exact hr'
    · rw [hsum', hsum]
      push_cast
      rfl

end Runs

/-- **The bound of a QPS rule.**  For every reachable configuration and every resource protected by
one valid direct rule of the default origin, the node reports at most the count of the rule after every
admitted call, in every run of entries and exits, if and only if the whole part of the count fits into
the statistic window. -/
theorem boundsRate_iff {env : Env} {rules : List FlowRule} {rule : FlowRule} {w₁ : World}
    (hrule : DirectQpsRule rule) (honly : OnlyRule rules rule) (hsetup : SetUp env rules w₁) :
    BoundsRate env w₁ rule.resource rule.count ↔
      (⌊rule.count⌋ : ℚ) * 1000 ≤ rule.count * w₁.config.intervalMs := by
  obtain ⟨⟨hn, hinterval, hdvd⟩, hnone, hB, hP⟩ := setUp_spec honly hsetup
  obtain ⟨b, hi⟩ := hdvd
  have hb : 0 < b := by
    rcases Nat.eq_zero_or_pos b with h0 | h0
    · rw [h0, Nat.mul_zero] at hi
      omega
    · exact h0
  have hcond : (⌊rule.count⌋ : ℚ) * 1000 ≤ rule.count * w₁.config.intervalMs ↔
      (⌊rule.count⌋ : ℚ) ≤ rule.count * (((w₁.config.sampleCount * b : ℕ) : ℚ) / 1000) := by
    rw [hi, ← mul_div_assoc, le_div_iff₀ (by norm_num)]
  rw [hcond]
  constructor
  · intro hbound
    by_contra hno
    have hcount : 0 ≤ rule.count := by
      have hvalid := hrule.valid
      simp only [Flow.isValidRule, Bool.and_eq_true, decide_eq_true_eq] at hvalid
      exact hvalid.1.2
    obtain ⟨p, m, hm1, hm2, hunit, hlast, hover⟩ := exists_weights_over
      (Nat.mul_pos hn hb) (by decide : (1000 : ℤ) ≤ 2147483647) hcount hno
    obtain ⟨w, hr, hsum⟩ := Protected.unit_calls hrule hn hb rfl hi hB hP hnone hunit
    obtain ⟨w', hr', -, hqps⟩ := Protected.one_more (m := m) hrule hn hb rfl hi hB hP hnone
      (fun a ha => (entryOrExit_replicate a ha).1) (fun a ha => (entryOrExit_replicate a ha).2)
      (by omega) hr (by
        rw [hsum]
        exact_mod_cast hlast)
    have hall : ∀ a ∈ List.replicate p (admittedAtZero rule.resource 1) ++
        [admittedAtZero rule.resource m], EntryOrExit a ∧ a.1.1 = 0 := by
      intro a ha
      rcases List.mem_append.mp ha with ha | ha
      · exact entryOrExit_replicate a ha
      · rw [List.mem_singleton.mp ha]
        exact entryOrExit_admittedAtZero hm1 hm2
    have hle := hbound _ w' 0 (plainCall rule.resource m) hr' (fun a ha => (hall a ha).1)
      (nonDecreasing_of_zero fun a ha => (hall a ha).2) rfl
    rw [hqps, hsum] at hle
    exact absurd hle (not_le.mpr (by exact_mod_cast hover))
  · intro hfits
    exact boundsRate_of_fits hrule hn hb rfl hi hB hP hnone hfits

/-- At most one call per second on "r". -/
def oncePerSecond : FlowRule := { resource := "r", count := 1 }

/-- The window is cut to half a second, the rule loaded, and one call made. -/
def halfSecondCall : List (ℕ × Op) :=
  [(0, .updateInterval 500), (0, .flowRules (.loadRules [oncePerSecond])),
    (0, .entry ⟨0, "r", .IN, 1, []⟩)]

/-- The call is admitted, and the node then reports two passes per second. -/
theorem boundsRate_fails : ∃ w tr, World.Steps (.simple "") (.start (.simple "")) tr w ∧
    tr.map Prod.fst = halfSecondCall ∧ tr.map Prod.snd = [.done, .done, .passed] ∧
    passQpsAt w.storage (.cluster "r") 0 = 2 ∧ oncePerSecond.count = 1 := by
  have hx : (execute (World.step (.simple "")) (.start (.simple "")) halfSecondCall).map (fun r =>
      (r.1.map Prod.snd, passQpsAt r.2.storage (.cluster "r") 0)) =
      some ([.done, .done, .passed], 2) := by
    decide +kernel
  obtain ⟨⟨tr, w⟩, hr, heq⟩ := Option.map_eq_some_iff.mp hx
  simp only [Prod.mk.injEq] at heq
  exact ⟨w, tr, run_of_execute hr, execute_inputs hr, heq.1, heq.2, rfl⟩

/-- With the default window of one second the bound of the same rule holds. -/
theorem boundsRate_iff_example : ∃ w₁, SetUp (.simple "") [oncePerSecond] w₁ ∧
    BoundsRate (.simple "") w₁ "r" 1 := by
  have hrule : DirectQpsRule oncePerSecond := ⟨by decide, rfl, .inr rfl, rfl⟩
  have hsetup : SetUp (.simple "") [oncePerSecond] { World.start (.simple "") with
      flow := (World.start (.simple "")).flow.apply (Flow.managerKind (Env.simple "").flowSetOrder)
        (.loadRules [oncePerSecond]) } := ⟨[], _, by simp, .nil, rfl⟩
  have honly : OnlyRule [oncePerSecond] oncePerSecond := by
    unfold OnlyRule
    decide
  refine ⟨_, hsetup, (boundsRate_iff hrule honly hsetup).mpr ?_⟩
  rw [show oncePerSecond.count = 1 from rfl, Int.floor_one, show StatConfig.intervalMs _ = 1000 from rfl]
  norm_num

end SentinelCpp
