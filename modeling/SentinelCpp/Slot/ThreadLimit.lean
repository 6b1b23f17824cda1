import Mathlib.Algebra.Order.BigOperators.Group.Finset
import SentinelCpp.Slot.HalfOpen
import SentinelCpp.Slot.TagNode

/-!
# A concurrency limit under interleaving

`k` clients admit calls in two atomic steps: `check` runs the node builder and the rule checkers,
among them the flow check that reads `CurThreadNum`; `record` runs the statistics, which increment it.
An exit is one step.  Between the two steps of one client the others may do anything, so up to `k`
clients can pass the check on the same reading.
-/

namespace SentinelCpp

open Lib Stat Property SentinelCpp.Flow

/-! ### Clients -/

/-- An admission between its two steps. -/
structure Admission where
  createTime : ℕ
  call : Call
  token : TokenResult

/-- The shared state, and the admission each client is in the middle of. -/
structure Clients (k : ℕ) where
  world : World
  pending : Fin k → Option Admission

inductive ClientOp
  | check (c : Call)
  | record
  /-- The holder of an admitted entry exits it. -/
  | exit (id : ℕ) (count : ℤ)

/-- One atomic step of a client. -/
def Clients.step (env : Env) {k : ℕ} (s : Clients k) (i : Fin k) (t : ℕ) :
    ClientOp → Option (Clients k)
  | .check c =>
    if (s.pending i).isSome then none
    else
      ((s.world.built env c).ruleCheck env t c).map fun r =>
        { world := r.1, pending := Function.update s.pending i (some ⟨t, c, r.2⟩) }
  | .record =>
    match s.pending i with
    | none => none
    | some a =>
      let pending := Function.update s.pending i none
      match a.token with
      | .blocked reason => some ⟨s.world.recordBlock t a.call reason, pending⟩
      | _ =>
        if Param.addPassFaults s.world.metricMap a.call.resource a.call.params then none
        else some ⟨{ s.world.recordPass t a.call with
          entries := s.world.entries ++ [World.admittedEntry a.createTime a.call] }, pending⟩
  | .exit id count => (s.world.exit t (some id) count).map fun r => { s with world := r.1 }

/-- A step of an interleaving: who takes it, when, and what it is. -/
abbrev ClientLabel (k : ℕ) := Fin k × ℕ × ClientOp

/-- Any order of the steps of `k` clients. -/
abbrev Clients.Steps (env : Env) {k : ℕ} : Clients k → List (ClientLabel k) → Clients k → Prop :=
  Run fun s a s' => s.step env a.1 a.2.1 a.2.2 = some s'

/-- **The two steps taken one after the other are `SphU::Entry`.** -/
theorem Clients.check_record_eq_entry {env : Env} {k : ℕ} {s : Clients k} {i : Fin k} {t : ℕ}
    {c : Call} (hact : s.world.activated = true) (hidle : s.pending i = none) :
    ((s.step env i t (.check c)).bind fun s' => s'.step env i t .record).map Clients.world =
      (s.world.entry env t c).map Prod.fst := by
  rw [World.entry_eq hact]
  simp only [Clients.step, hidle, Option.isSome_none, Bool.false_eq_true, if_false]
  cases hcheck : (s.world.built env c).ruleCheck env t c with
  | none => rfl
  | some r =>
    obtain ⟨w₁, token⟩ := r
    rcases (World.ruleCheck_spec hcheck).result with rfl | ⟨reason, -, rfl⟩
    · by_cases hfaults : Param.addPassFaults w₁.metricMap c.resource c.params = true
      · simp [hfaults]
      · simp [hfaults]
    · simp

/-! ### Counting clients -/

/-- The number of values of `f` that satisfy `p`. -/
def countValues {α : Type*} {k : ℕ} (p : α → Bool) (f : Fin k → α) : ℕ :=
  ∑ i, if p (f i) then 1 else 0

theorem countValues_update {α : Type*} {k : ℕ} (p : α → Bool) (f : Fin k → α) (i : Fin k) (a : α) :
    countValues p (Function.update f i a) + (if p (f i) then 1 else 0) =
      countValues p f + if p a then 1 else 0 := by
  unfold countValues
  have hsplit : ∀ g : Fin k → α, (∑ j, if p (g j) then 1 else 0) =
      (∑ j ∈ Finset.univ.erase i, if p (g j) then 1 else 0) + if p (g i) then 1 else 0 :=
    fun g => (Finset.sum_erase_add _ _ (Finset.mem_univ i)).symm
  have hrest : (∑ j ∈ Finset.univ.erase i, if p (Function.update f i a j) then 1 else 0) =
      ∑ j ∈ Finset.univ.erase i, if p (f j) then 1 else 0 := by
    refine Finset.sum_congr rfl fun j hj => ?_
    rw [Function.update_of_ne (Finset.ne_of_mem_erase hj)]
  rw [hsplit, hsplit f, hrest, Function.update_self]
  omega

theorem countValues_le {α : Type*} {k : ℕ} (p : α → Bool) (f : Fin k → α) : countValues p f ≤ k := by
  have h : countValues p f ≤ ∑ _i : Fin k, 1 := by
    refine Finset.sum_le_sum fun i _ => ?_
    split_ifs
    · exact le_rfl
    · exact Nat.zero_le _
  simpa using h

/-- The client has passed the checks of the resource and not been counted yet. -/
def admittedOn (resource : String) (a : Option Admission) : Bool :=
  a.any fun a => !a.token.isBlocked && a.call.resource = resource

namespace Clients

variable {env : Env} {k : ℕ} (s : Clients k) (resource : String)

/-- The admitted entries of the resource that were not exited yet. -/
def inFlight : ℕ := s.world.live fun e => e.resource = resource

/-- The clients between the two steps of an admission to the resource. -/
def admitting : ℕ := countValues (admittedOn resource) s.pending

end Clients

/-! ### The counter of the node -/

/-- What every interleaving keeps: the flow rules, the shape of contexts and entries, and the thread
counter of the resource's node, which counts the entries in flight modulo 2^32. -/
structure ThreadInv (maps : FlowMaps) (resource : String) {k : ℕ} (s : Clients k) : Prop where
  flow : s.world.flow.maps = maps
  tagNode : ∀ ctx, IsTagNode (s.world.contexts ctx).tagNode
  entries : ∀ e ∈ s.world.entries, e.exited = false →
    e.curNode = some (.cluster e.resource) ∧ e.blockError = ""
  absent : s.world.storage.node? (.cluster resource) = none →
    s.inFlight resource = 0 ∧ s.admitting resource = 0
  threads : threadsAt s.world.storage (.cluster resource) = UInt32.ofNat (s.inFlight resource)

section Steps

variable {env : Env} {k : ℕ} {s s' : Clients k} {i : Fin k} {t : ℕ} {c : Call} {w₁ : World}
  {resource : String} {maps : FlowMaps}

theorem countedOn_cluster {r r' : String} {type : EntryType} {tagNode : Option NodeRef}
    (htag : IsTagNode tagNode) : World.countedOn r type tagNode (.cluster r') ↔ r = r' := by
  rw [countedOn_iff (fun _ _ => by simp) htag]
  simp [belongsTo]

theorem isTagNode_built {w : World} (h : ∀ ctx, IsTagNode (w.contexts ctx).tagNode) (ctx : ℕ) :
    IsTagNode ((w.built env c).contexts ctx).tagNode := by
  rw [World.built_tagNode]
  split_ifs
  · rcases World.builtNodes_tagNode env c w with ⟨-, hsame⟩ | ⟨-, hnone | ⟨hsome, -⟩⟩
    · rw [hsame]
      exact h _
    · rw [hnone]
      intro ref href
      simp at href
    · rw [hsome]
      intro ref href
      exact ⟨_, _, (Option.some.inj href).symm⟩
  · exact h ctx

/-- The first step of an admission changes neither the entries nor the counter. -/
theorem ThreadInv.check (hI : ThreadInv maps resource s) {token : TokenResult}
    (hidle : s.pending i = none)
    (hcheck : (s.world.built env c).ruleCheck env t c = some (w₁, token)) :
    ThreadInv maps resource
      { world := w₁, pending := Function.update s.pending i (some ⟨t, c, token⟩) } := by
  have hspec := World.ruleCheck_spec hcheck
  have heq := hspec.world_eq
  have hflight : Clients.inFlight
      { world := w₁, pending := Function.update s.pending i (some ⟨t, c, token⟩) } resource =
        s.inFlight resource := by
    simp only [Clients.inFlight, World.live_ruleCheck _ hcheck]
  refine ⟨?_, fun ctx => ?_, ?_, fun hnone => ?_, ?_⟩
  · rw [heq]
    exact hI.flow
  · rw [heq]
    exact isTagNode_built hI.tagNode ctx
  · rw [World.entries_ruleCheck hcheck]
    exact hI.entries
  · -- the resource of this call has a node, so the call is for another one
    have hold : s.world.storage.node? (.cluster resource) = none := by
      by_contra hex
      refine World.node?_ne_none_of_ruleCheck hcheck ?_ hnone
      rcases World.grown_builtNodes env c s.world (.cluster resource) with hsame | ⟨-, hnew⟩
      · exact hsame ▸ hex
      · exact fun h => absurd (h.symm.trans hnew) (by simp)
    have hne : c.resource ≠ resource := by
      rintro rfl
      exact World.node?_ne_none_of_ruleCheck hcheck World.builtNodes_cluster hnone
    obtain ⟨h1, h2⟩ := hI.absent hold
    refine ⟨hflight.trans h1, ?_⟩
    have hcount := countValues_update (admittedOn resource) s.pending i (some ⟨t, c, token⟩)
    have hno : admittedOn resource (some ⟨t, c, token⟩) = false := by simp [admittedOn, hne]
    rw [hno, hidle] at hcount
    simp only [Clients.admitting] at h2 ⊢
    simp only [admittedOn, Option.any_none, Bool.false_eq_true, if_false] at hcount h2 ⊢
    omega
  · rw [hflight, ← hI.threads]
    exact (threadsAt_readAt hspec.storage).trans
      (threadsAt_grown (World.grown_builtNodes env c s.world))

/-- The counter of a node after an event of a call of `r`, and whether the node exists. -/
theorem threadsAt_event {r : String} {type : EntryType} {tagNode : Option NodeRef}
    (htag : IsTagNode tagNode) {e : NodeEvent} {st st' : ResourceNodeStorage}
    (h : st'.node? (.cluster resource) =
      if World.countedOn r type tagNode (.cluster resource) then
        (st.node? (.cluster resource)).map fun n => e.record n t
      else st.node? (.cluster resource))
    (hex : r = resource → st.node? (.cluster resource) ≠ none) :
    threadsAt st' (.cluster resource) =
      if r = resource then e.threads (threadsAt st (.cluster resource))
      else threadsAt st (.cluster resource) := by
  have hiff : World.countedOn r type tagNode (.cluster resource) ↔ r = resource :=
    countedOn_cluster htag
  rw [threadsAt_record h fun hon => hex (hiff.mp hon)]
  simp only [hiff]

/-- Recording makes no node. -/
theorem node?_eq_none_of_event {p : Prop} [Decidable p] {st st' : ResourceNodeStorage}
    {ref : NodeRef} {f : StatisticNode → StatisticNode}
    (h : st'.node? ref = if p then (st.node? ref).map f else st.node? ref)
    (hnone : st'.node? ref = none) : st.node? ref = none := by
  rw [h] at hnone
  split_ifs at hnone
  · exact Option.map_eq_none_iff.mp hnone
  · exact hnone

variable (s i resource) in
theorem admitting_update (a : Option Admission) :
    countValues (admittedOn resource) (Function.update s.pending i a) +
        (if admittedOn resource (s.pending i) then 1 else 0) =
      s.admitting resource + if admittedOn resource a then 1 else 0 :=
  countValues_update _ _ _ _

/-- The second step of a rejected admission. -/
theorem ThreadInv.recordBlock (hI : ThreadInv maps resource s) {a : Admission} {reason : String}
    (hpend : s.pending i = some a) (htoken : a.token = .blocked reason) :
    ThreadInv maps resource
      { world := s.world.recordBlock t a.call reason, pending := Function.update s.pending i none } ∧
    countValues (admittedOn resource) (Function.update s.pending i none) = s.admitting resource := by
  have hcount := admitting_update s i resource none
  have hno : admittedOn resource (s.pending i) = false := by
    simp [hpend, admittedOn, htoken, TokenResult.isBlocked]
  have hno' : admittedOn resource none = false := rfl
  rw [hno, hno', if_neg Bool.false_ne_true, add_zero, add_zero] at hcount
  refine ⟨?_, hcount⟩
  have hevent := World.recordBlock_node? (t := t) (hI.tagNode a.call.context) reason (.cluster resource)
  refine ⟨hI.flow, fun ctx => ?_, hI.entries, fun hnone => ?_, ?_⟩
  · rw [World.recordBlock_tagNode]
    exact hI.tagNode ctx
  · obtain ⟨h1, h2⟩ := hI.absent (node?_eq_none_of_event hevent hnone)
    exact ⟨h1, hcount.trans h2⟩
  · show threadsAt _ _ = UInt32.ofNat (s.inFlight resource)
    rw [← hI.threads, threadsAt, hevent]
    split_ifs
    · rw [Option.map_map]
      exact congrArg (fun x => Option.getD x 0) (Option.map_congr fun n _ =>
        NodeEvent.record_curThreadNum n t _)
    · rfl

/-- The second step of an admission: one more in flight, one less on the way. -/
theorem ThreadInv.recordPass (hI : ThreadInv maps resource s) {a : Admission}
    (hpend : s.pending i = some a) (htoken : a.token.isBlocked = false) {s' : Clients k}
    (hs' : s' =
      { world :=
          { s.world.recordPass t a.call with
            entries := s.world.entries ++ [World.admittedEntry a.createTime a.call] }
        pending := Function.update s.pending i none }) :
    ThreadInv maps resource s' ∧
      s'.inFlight resource + s'.admitting resource = s.inFlight resource + s.admitting resource := by
  have hcount := admitting_update s i resource none
  have hon : admittedOn resource (s.pending i) = decide (a.call.resource = resource) := by
    simp [hpend, admittedOn, htoken]
  have hlive : s'.inFlight resource =
      s.inFlight resource + if decide (a.call.resource = resource) then 1 else 0 := by
    rw [hs']
    exact World.live_of_admitted _ rfl
  have hadmitting : s'.admitting resource + (if decide (a.call.resource = resource) then 1 else 0) =
      s.admitting resource := by
    rw [hs', ← hon]
    exact hcount
  have hex : a.call.resource = resource → s.world.storage.node? (.cluster resource) ≠ none := by
    intro hr hnone
    have h := (hI.absent hnone).2
    simp only [hr, decide_true, if_true] at hadmitting
    omega
  have hevent := World.recordPass_node? (t := t) (hI.tagNode a.call.context) (.cluster resource)
  refine ⟨⟨?_, fun ctx => ?_, fun e he hlive' => ?_, fun hnone => ?_, ?_⟩, by omega⟩
  · rw [hs']
    exact hI.flow
  · rw [hs']
    show IsTagNode ((s.world.recordPass t a.call).contexts ctx).tagNode
    rw [World.recordPass_tagNode]
    exact hI.tagNode ctx
  · rw [hs'] at he
    rcases List.mem_append.mp he with he | he
    · exact hI.entries e he hlive'
    · obtain rfl := List.mem_singleton.mp he
      exact ⟨rfl, rfl⟩
  · rw [hs'] at hnone
    have hold := node?_eq_none_of_event hevent hnone
    obtain ⟨h1, h2⟩ := hI.absent hold
    have hne : a.call.resource ≠ resource := fun hr => hex hr hold
    simp only [hne, decide_false, Bool.false_eq_true, if_false] at hlive hadmitting
    omega
  · have hthreads := threadsAt_event (hI.tagNode a.call.context) hevent hex
    rw [hs'] at hlive ⊢
    rw [hlive]
    refine hthreads.trans ?_
    rw [hI.threads]
    by_cases hr : a.call.resource = resource
    · simp [hr, NodeEvent.threads, ofNat_succ]
    · simp [hr]

/-- An exit, whoever takes it. -/
theorem ThreadInv.exit (hI : ThreadInv maps resource s) {id : ℕ} {count : ℤ} {w' : World}
    {o : Outcome} (hexit : s.world.exit t (some id) count = some (w', o)) :
    ThreadInv maps resource { s with world := w' } ∧
      Clients.inFlight { s with world := w' } resource ≤ s.inFlight resource := by
  cases hid : s.world.entries[id]? with
  | none => simp [World.exit, hid] at hexit
  | some e =>
    by_cases hlive : e.exited = true
    · rw [World.exit_of_exited hid hlive, Option.some.injEq, Prod.mk.injEq] at hexit
      obtain ⟨rfl, -⟩ := hexit
      exact ⟨hI, le_rfl⟩
    · rw [Bool.not_eq_true] at hlive
      obtain ⟨hnode, hblock⟩ := hI.entries e (List.mem_of_getElem? hid) hlive
      rw [World.exit_eq hid hlive hnode hblock, Option.some.injEq, Prod.mk.injEq] at hexit
      obtain ⟨rfl, -⟩ := hexit
      set s' : Clients k := { s with
        world := s.world.recordExit t count id e (.cluster e.resource) } with hs'
      have hflight : s.inFlight resource =
          s'.inFlight resource + if decide (e.resource = resource) then 1 else 0 :=
        World.live_of_set_exited _ hid World.recordExit_entries hlive rfl
      have hevent : (s.world.recordExit t count id e (.cluster e.resource)).storage.node?
          (.cluster resource) = _ := World.recordExit_node? (hI.tagNode e.context) (.cluster resource)
      have hex : e.resource = resource → s.world.storage.node? (.cluster resource) ≠ none := by
        intro hr hnone
        have h := (hI.absent hnone).1
        simp only [hr, decide_true, if_true] at hflight
        omega
      refine ⟨⟨?_, fun ctx => ?_, fun e' he' hlive' => ?_, fun hnone => ?_, ?_⟩, by omega⟩
      · rw [← hI.flow]
        simp [hs', World.recordExit, statisticSlotExit, Entry.hasBlockError]
      · rw [hs']
        show IsTagNode ((s.world.recordExit t count id e _).contexts ctx).tagNode
        rw [World.recordExit_world.2]
        exact hI.tagNode ctx
      · rw [hs', World.recordExit_entries] at he'
        rcases List.mem_or_eq_of_mem_set he' with he' | rfl
        · exact hI.entries e' he' hlive'
        · simp at hlive'
      · obtain ⟨h1, h2⟩ := hI.absent (node?_eq_none_of_event hevent hnone)
        exact ⟨by omega, h2⟩
      · refine (threadsAt_event (hI.tagNode e.context) hevent hex).trans ?_
        rw [hI.threads, hflight]
        by_cases hr : e.resource = resource
        · simp [hr, NodeEvent.threads, ofNat_succ]
        · simp [hr]

end Steps

/-! ### The bound -/

/-- A valid rule that limits the calls in progress on its own resource, for callers of any origin. -/
structure DirectThreadRule (rule : FlowRule) : Prop extends DirectRule rule where
  threads : rule.metricType = .kThreadCount

/-- No entry of the resource is in flight and no client is admitting one. -/
structure Idle (resource : String) {k : ℕ} (s : Clients k) : Prop where
  entries : ∀ e ∈ s.world.entries, e.exited = true
  pending : ∀ i, s.pending i = none
  threads : threadsAt s.world.storage (.cluster resource) = 0
  tagNode : ∀ ctx, IsTagNode (s.world.contexts ctx).tagNode

theorem Idle.counts {resource : String} {k : ℕ} {s : Clients k} (h : Idle resource s) :
    s.inFlight resource = 0 ∧ s.admitting resource = 0 := by
  constructor
  · refine List.countP_eq_zero.mpr fun e he => ?_
    simp [h.entries e he]
  · unfold Clients.admitting countValues
    refine Finset.sum_eq_zero fun i _ => ?_
    simp [h.pending i, admittedOn]

theorem Idle.threadInv {resource : String} {k : ℕ} {s : Clients k} (h : Idle resource s) :
    ThreadInv s.world.flow.maps resource s := by
  refine ⟨rfl, h.tagNode, fun e he hlive => ?_, fun _ => h.counts, ?_⟩
  · exact absurd (h.entries e he) (by simp [hlive])
  · rw [h.threads, h.counts.1]
    rfl

/-- Every admission to the resource asks for one or more. -/
def AcquiresOn (resource : String) {k : ℕ} (a : ClientLabel k) : Prop :=
  ∀ c, a.2.2 = .check c → c.resource = resource → 1 ≤ c.count

section Bound

variable {env : Env} {k C t : ℕ} {s s' : Clients k} {i : Fin k} {rules : List FlowRule}
  {rule : FlowRule} {m : FlowMaps}

/-- An admission that passes the check has read a count below the limit. -/
theorem ThreadInv.inFlight_lt (honly : OnlyRule rules rule) (hrule : DirectThreadRule rule)
    (hcount : rule.count = C) (hbits : C + k ≤ 2 ^ 32)
    (hI : ThreadInv (configUpdate env.flowSetOrder m rules) rule.resource s)
    (hbound : s.inFlight rule.resource + s.admitting rule.resource ≤ C + k - 1) {c : Call}
    {w₁ : World} {token : TokenResult} (hc : 1 ≤ c.count) (hres : c.resource = rule.resource)
    (hcheck : (s.world.built env c).ruleCheck env t c = some (w₁, token))
    (hpass : token.isBlocked = false) : s.inFlight rule.resource < C := by
  have htoken : token = .ok := by
    rcases (World.ruleCheck_spec hcheck).result with h | ⟨reason, -, h⟩
    · exact h
    · rw [h] at hpass
      exact absurd hpass (by simp [TokenResult.isBlocked])
  subst htoken
  obtain ⟨st, hread, hok⟩ := World.flow_ok_of_ruleCheck hcheck
  obtain ⟨hrules, hcontroller⟩ := configUpdate_protected env.flowSetOrder m honly
  have hflow : (s.world.built env c).flow.maps = configUpdate env.flowSetOrder m rules := hI.flow
  rw [hres, hflow] at hok
  have hle := (flowEntry_ok_iff hrule.toDirectRule hrules hcontroller _ _ _ _ _ _).mp hok
  -- the reading is the number of entries in flight, which the counter can hold
  have hthreads : threadsAt st (.cluster rule.resource) = UInt32.ofNat (s.inFlight rule.resource) :=
    ((threadsAt_readAt hread).trans
      (threadsAt_grown (World.grown_builtNodes env c s.world))).trans hI.threads
  have hreading : readingAt st (.cluster rule.resource) t rule.metricType =
      ((s.inFlight rule.resource : ℕ) : ℚ) := by
    have hnat : (threadsAt st (.cluster rule.resource)).toNat = s.inFlight rule.resource := by
      rw [hthreads, UInt32.toNat_ofNat']
      exact Nat.mod_eq_of_lt (by omega)
    rw [hrule.threads, readingAt, ← hnat, threadsAt]
    cases st.node? (.cluster rule.resource) <;> rfl
  rw [hreading, hcount] at hle
  have hint : ((s.inFlight rule.resource : ℕ) : ℤ) + c.count ≤ (C : ℕ) := by exact_mod_cast hle
  omega

/-- **Each step keeps the bound.** -/
theorem ThreadInv.step (honly : OnlyRule rules rule) (hrule : DirectThreadRule rule)
    (hcount : rule.count = C) (hbits : C + k ≤ 2 ^ 32)
    (hI : ThreadInv (configUpdate env.flowSetOrder m rules) rule.resource s)
    (hbound : s.inFlight rule.resource + s.admitting rule.resource ≤ C + k - 1) {op : ClientOp}
    (hacq : AcquiresOn rule.resource (i, t, op)) (hs : s.step env i t op = some s') :
    ThreadInv (configUpdate env.flowSetOrder m rules) rule.resource s' ∧
      s'.inFlight rule.resource + s'.admitting rule.resource ≤ C + k - 1 := by
  cases op with
  | check c =>
    simp only [Clients.step] at hs
    split_ifs at hs with hidle
    obtain ⟨⟨w₁, token⟩, hcheck, hs'⟩ := Option.map_eq_some_iff.mp hs
    dsimp only at hs'
    have hnone : s.pending i = none := by simpa using hidle
    have hflight : s'.inFlight rule.resource = s.inFlight rule.resource := by
      rw [← hs']
      simp only [Clients.inFlight, World.live_ruleCheck _ hcheck]
    have hupdate := admitting_update s i rule.resource (some ⟨t, c, token⟩)
    have hno : admittedOn rule.resource (s.pending i) = false := by
      rw [hnone]
      rfl
    have hadmitting : s'.admitting rule.resource =
        countValues (admittedOn rule.resource)
          (Function.update s.pending i (some ⟨t, c, token⟩)) := by
      rw [← hs']
      rfl
    rw [hno, if_neg Bool.false_ne_true, add_zero, ← hadmitting] at hupdate
    refine ⟨hs' ▸ hI.check hnone hcheck, ?_⟩
    by_cases hon : admittedOn rule.resource (some ⟨t, c, token⟩) = true
    · -- a client that passes has read less than the limit, and at most `k` clients are on the way
      obtain ⟨hpass, hres⟩ : token.isBlocked = false ∧ c.resource = rule.resource := by
        simpa [admittedOn] using hon
      have hlt := hI.inFlight_lt honly hrule hcount hbits hbound (hacq c rfl hres) hres hcheck hpass
      have hle : s'.admitting rule.resource ≤ k := countValues_le _ _
      omega
    · rw [if_neg hon, add_zero] at hupdate
      omega
  | record =>
    simp only [Clients.step] at hs
    cases hpend : s.pending i with
    | none => simp [hpend] at hs
    | some a =>
      rw [hpend] at hs
      dsimp only at hs
      cases htoken : a.token with
      | blocked reason =>
        rw [htoken, Option.some.injEq] at hs
        obtain ⟨h1, h2⟩ := hI.recordBlock (t := t) hpend htoken
        rw [← hs]
        exact ⟨h1, (Nat.add_le_add_left h2.le _).trans hbound⟩
      | ok | shouldWait =>
        rw [htoken] at hs
        dsimp only at hs
        split_ifs at hs
        rw [Option.some.injEq] at hs
        obtain ⟨h1, h2⟩ := hI.recordPass (t := t) hpend (by rw [htoken]; rfl) rfl
        rw [← hs]
        exact ⟨h1, h2.le.trans hbound⟩
  | exit id count =>
    obtain ⟨⟨w', o⟩, hexit, rfl⟩ := Option.map_eq_some_iff.mp hs
    obtain ⟨h1, h2⟩ := hI.exit hexit
    exact ⟨h1, (Nat.add_le_add_right h2 _).trans hbound⟩

/-- **Bounded overshoot.**  With a limit of `C` calls in progress and `k` clients, every interleaving
keeps at most `C + k - 1` entries in flight, as long as the 32-bit counter can hold that many. -/
theorem inFlight_le (honly : OnlyRule rules rule) (hrule : DirectThreadRule rule)
    (hcount : rule.count = C) (hbits : C + k ≤ 2 ^ 32)
    (hrules : s.world.flow.maps = configUpdate env.flowSetOrder m rules)
    (hidle : Idle rule.resource s) {tr : List (ClientLabel k)} (hrun : Clients.Steps env s tr s')
    (hacq : ∀ a ∈ tr, AcquiresOn rule.resource a) : s'.inFlight rule.resource ≤ C + k - 1 := by
  have hinv : ThreadInv (configUpdate env.flowSetOrder m rules) rule.resource s' ∧
      s'.inFlight rule.resource + s'.admitting rule.resource ≤ C + k - 1 := by
    induction hrun with
    | nil =>
      obtain ⟨h1, h2⟩ := hidle.counts
      exact ⟨hrules ▸ hidle.threadInv, by omega⟩
    | @snoc tr s₁ s₂ a hr hs ih =>
      obtain ⟨hI, hbound⟩ := ih fun b hb => hacq b (List.mem_append_left _ hb)
      exact hI.step honly hrule hcount hbits hbound (hacq a (by simp)) hs
  omega

end Bound

/-! ### Limits the counter cannot hold -/

section Wrap

variable {env : Env} {k C : ℕ} {s : Clients k} {i : Fin k} {rules : List FlowRule} {rule : FlowRule}
  {m : FlowMaps} {c : Call}

/-- No other rules, and client `i` is between two calls. -/
structure OnlyFlowRules (maps : FlowMaps) (resource : String) (i : Fin k) (s : Clients k) : Prop
    extends ThreadInv maps resource s where
  system : s.world.system.maps = none
  param : s.world.param.maps = none
  breakers : s.world.circuitBreaker.maps.cbMap = []
  free : s.pending i = none

/-- The two steps of one admission at time 0. -/
def admitOnce (i : Fin k) (c : Call) : List (ClientLabel k) := [(i, 0, .check c), (i, 0, .record)]

/-- A limit of 2^32 or more never stops a call of weight one: the counter stays below it. -/
theorem OnlyFlowRules.admit (honly : OnlyRule rules rule) (hrule : DirectThreadRule rule)
    (hcount : (2 ^ 32 : ℚ) ≤ rule.count) (hres : c.resource = rule.resource) (hone : c.count = 1)
    (hargs : c.params = [])
    (h : OnlyFlowRules (configUpdate env.flowSetOrder m rules) rule.resource i s) :
    ∃ s', Clients.Steps env s (admitOnce i c) s' ∧
      OnlyFlowRules (configUpdate env.flowSetOrder m rules) rule.resource i s' ∧
      s'.inFlight rule.resource = s.inFlight rule.resource + 1 := by
  obtain ⟨hrules, hcontroller⟩ := configUpdate_protected env.flowSetOrder m honly
  have hreading : readingAt (s.world.built env c).storage (.cluster rule.resource) 0
      rule.metricType ≤ 2 ^ 32 - 1 := by
    rw [hrule.threads, readingAt]
    cases (s.world.built env c).storage.node? (.cluster rule.resource) with
    | none => norm_num
    | some n =>
      have hlt : n.curThreadNum.toNat ≤ 2 ^ 32 - 1 := Nat.le_pred_of_lt n.curThreadNum.toNat_lt
      have hcast : ((n.curThreadNum.toNat : ℕ) : ℚ) ≤ ((2 ^ 32 - 1 : ℕ) : ℚ) := by exact_mod_cast hlt
      exact hcast.trans (by norm_num)
  have hflow : (Flow.flowEntry 0 (s.world.built env c).flow.maps c.resource
      (env.contextTag c.context) ((s.world.built env c).contexts c.context).tagNode
      (some (.cluster c.resource)) c.count (s.world.built env c).storage).2 = .ok := by
    have hmaps : (s.world.built env c).flow.maps = configUpdate env.flowSetOrder m rules := h.flow
    rw [hres, hmaps, flowEntry_ok_iff hrule.toDirectRule hrules hcontroller, hone]
    push_cast
    linarith
  have hmap : ((s.world.built env c).ruleCheck env 0 c).map Prod.snd = some .ok :=
    World.ruleCheck_ok_of_flow h.system h.param h.breakers hflow
  obtain ⟨⟨w₁, token⟩, hcheck, htoken⟩ := Option.map_eq_some_iff.mp hmap
  obtain rfl : token = .ok := htoken
  have hspec := World.ruleCheck_spec hcheck
  set s₁ : Clients k := { world := w₁, pending := Function.update s.pending i (some ⟨0, c, .ok⟩) }
    with hs₁
  have hstep₁ : s.step env i 0 (.check c) = some s₁ := by
    simp [Clients.step, h.free, hcheck, hs₁]
  have hI₁ := h.toThreadInv.check h.free hcheck
  have hpend : s₁.pending i = some ⟨0, c, .ok⟩ := by simp [hs₁]
  obtain ⟨hI₂, -⟩ := hI₁.recordPass (t := 0) hpend rfl rfl
  refine ⟨_, (Run.nil.snoc hstep₁).snoc (a := (i, 0, ClientOp.record)) ?_, ⟨hI₂, ?_, ?_, ?_, ?_⟩, ?_⟩
  · simp only [Clients.step, hpend, hargs, Param.addPassFaults_nil, Bool.false_eq_true, if_false]
    rfl
  · show w₁.system.maps = none
    rw [hspec.world_eq]
    exact h.system
  · show w₁.param.maps = none
    rw [hspec.world_eq]
    exact h.param
  · show w₁.circuitBreaker.maps.cbMap = []
    rw [World.cbMap_ruleCheck hcheck]
    exact h.breakers
  · simp
  · have hlive := World.live_recordPass (fun e => decide (e.resource = rule.resource)) hcheck
    refine hlive.trans ?_
    simp [World.admittedEntry, hres, Clients.inFlight]

/-- One client admits as many calls as it likes. -/
theorem OnlyFlowRules.admitMany (honly : OnlyRule rules rule) (hrule : DirectThreadRule rule)
    (hcount : (2 ^ 32 : ℚ) ≤ rule.count) (hres : c.resource = rule.resource) (hone : c.count = 1)
    (hargs : c.params = [])
    (h : OnlyFlowRules (configUpdate env.flowSetOrder m rules) rule.resource i s) (n : ℕ) :
    ∃ s', Clients.Steps env s (List.replicate n (admitOnce i c)).flatten s' ∧
      s'.inFlight rule.resource = s.inFlight rule.resource + n := by
  suffices hmany : ∃ s', Clients.Steps env s (List.replicate n (admitOnce i c)).flatten s' ∧
      OnlyFlowRules (configUpdate env.flowSetOrder m rules) rule.resource i s' ∧
      s'.inFlight rule.resource = s.inFlight rule.resource + n by
    obtain ⟨s', hr, -, hn⟩ := hmany
    exact ⟨s', hr, hn⟩
  induction n with
  | zero => exact ⟨s, .nil, h, rfl⟩
  | succ n ih =>
    obtain ⟨s₁, hr₁, h₁, hn₁⟩ := ih
    obtain ⟨s₂, hr₂, h₂, hn₂⟩ := h₁.admit honly hrule hcount hres hone hargs
    refine ⟨s₂, ?_, h₂, by omega⟩
    rw [List.replicate_succ', List.flatten_append]
    simpa using hr₁.trans hr₂

end Wrap

/-- A limit of calls in progress on `"r"`. -/
def concurrencyRule (count : ℚ) : FlowRule := { resource := "r", metricType := .kThreadCount, count }

theorem directThreadRule_concurrencyRule {count : ℚ} (h : 0 ≤ count) :
    DirectThreadRule (concurrencyRule count) :=
  ⟨⟨by simp [isValidRule, concurrencyRule, h], rfl, .inr rfl⟩, rfl⟩

theorem onlyRule_concurrencyRule {count : ℚ} (h : 0 ≤ count) :
    OnlyRule [concurrencyRule count] (concurrencyRule count) := by
  have hvalid := (directThreadRule_concurrencyRule h).valid
  simp [OnlyRule, hvalid]

/-- `k` clients of a process that has loaded the rule. -/
def startClients (k : ℕ) (count : ℚ) : Clients k where
  world :=
    { World.start (.simple "") with
      flow := ((World.start (.simple "")).flow.loadRules (Flow.managerKind (.insertion _))
        [concurrencyRule count]).1 }
  pending := fun _ => none

theorem idle_startClients (k : ℕ) (count : ℚ) : Idle "r" (startClients k count) :=
  ⟨by simp [startClients, World.start], fun _ => rfl, rfl,
    fun ctx ref h => by simp [startClients, World.start] at h⟩

theorem startClients_maps (k : ℕ) (count : ℚ) : (startClients k count).world.flow.maps =
    configUpdate (.insertion _) (Flow.managerKind (.insertion _)).initial [concurrencyRule count] := rfl

/-- A call of weight one on `"r"`. -/
def unitCall : Call := ⟨0, "r", .OUT, 1, []⟩

/-- With a limit of 2^32 one client admits 2^32 + 1 calls: the counter is back at zero by then. -/
theorem inFlight_exceeds_wrapped_counter :
    ∃ s, Clients.Steps (.simple "") (startClients 1 (2 ^ 32))
        (List.replicate (2 ^ 32 + 1) (admitOnce 0 unitCall)).flatten s ∧
      ¬ s.inFlight "r" ≤ 2 ^ 32 + 1 - 1 := by
  have hpos : (0 : ℚ) ≤ 2 ^ 32 := by norm_num
  have hidle := idle_startClients 1 (2 ^ 32)
  have hfree : OnlyFlowRules (configUpdate (Env.simple "").flowSetOrder
      (Flow.managerKind (.insertion _)).initial [concurrencyRule (2 ^ 32)]) (concurrencyRule (2 ^ 32)).resource
      (0 : Fin 1) (startClients 1 (2 ^ 32)) :=
    ⟨hidle.threadInv, rfl, rfl, rfl, rfl⟩
  obtain ⟨s, hr, hn⟩ := hfree.admitMany (c := unitCall) (onlyRule_concurrencyRule hpos)
    (directThreadRule_concurrencyRule hpos) le_rfl rfl rfl rfl (2 ^ 32 + 1)
  have hn' : s.inFlight "r" = (startClients 1 (2 ^ 32)).inFlight "r" + (2 ^ 32 + 1) := hn
  rw [hidle.counts.1] at hn'
  exact ⟨s, hr, by omega⟩

/-- Two clients check before either is counted. -/
def checkTogether : List (ClientLabel 2) :=
  [(0, 0, .check unitCall), (1, 0, .check unitCall), (0, 1, .record), (1, 1, .record)]

/-- A limit of one admits the two of them, and no more. -/
theorem inFlight_le_example : ∃ s, Clients.Steps (.simple "") (startClients 2 1) checkTogether s ∧
      s.inFlight "r" = 2 ∧ s.inFlight "r" ≤ 1 + 2 - 1 := by
  have hexec : (checkTogether.foldlM (fun (s : Clients 2) a => s.step (.simple "") a.1 a.2.1 a.2.2)
      (startClients 2 1)).map (fun s => s.inFlight "r") = some 2 := by
    decide +kernel
  obtain ⟨s, hs, hn⟩ := Option.map_eq_some_iff.mp hexec
  have hr := run_of_foldlM hs
  have hone : (0 : ℚ) ≤ 1 := by norm_num
  refine ⟨s, hr, hn, inFlight_le (C := 1) (onlyRule_concurrencyRule hone)
    (directThreadRule_concurrencyRule hone) (by simp [concurrencyRule]) (by norm_num)
    (startClients_maps 2 1) (idle_startClients 2 1) hr fun a ha c hc _ => ?_⟩
  simp only [checkTogether, List.mem_cons, List.not_mem_nil, or_false] at ha
  rcases ha with rfl | rfl | rfl | rfl
  · exact (ClientOp.check.inj hc) ▸ le_rfl
  · exact (ClientOp.check.inj hc) ▸ le_rfl
  · simp at hc
  · simp at hc

end SentinelCpp
