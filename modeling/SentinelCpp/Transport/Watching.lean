import SentinelCpp.Slot.Alike
import SentinelCpp.Transport.FetchClusterNode

/-!
# Watching the cluster nodes

Requests to show the cluster nodes come between the calls of the library.  Each refreshes the windows of
the nodes it reads, but the calls cannot tell: with the requests left out they run to a state that reads
alike.
-/

namespace SentinelCpp.Transport

open Lib Stat

/-! ### Calls and requests -/

inductive Request
  | call (op : Op)
  | fetchClusterNode (type : Text)

inductive Reply
  | outcome (o : Outcome)
  | shown (vec : List StatisticNodeVO)
  deriving DecidableEq

/-- A call or a request at a time of the millisecond clock. -/
def serve (env : Env) (order : IterationOrder (String × ClusterNode)) (w : World) (r : ℕ × Request) :
    Option (World × Reply) :=
  match r.2 with
  | .call op => (World.step env w (r.1, op)).map fun x => (x.1, .outcome x.2)
  | .fetchClusterNode type =>
    let x := showNodes order r.1 type w.storage
    some ({ w with storage := x.1 }, .shown x.2)

abbrev Served := (ℕ × Request) × Reply

/-- The calls among what was served, with what they returned. -/
def callsOf (tr : List Served) : List Label :=
  tr.filterMap fun
    | ((t, .call op), .outcome o) => some ((t, op), o)
    | _ => none

variable {env : Env} {order : IterationOrder (String × ClusterNode)} {t now : ℕ}

/-! ### What every call keeps -/

/-- The configuration is one the guards let through, and every resource has one node. -/
structure Sound (w : World) : Prop where
  valid : w.config.Valid
  keys : (w.storage.nodeMap.map Prod.fst).Nodup

section Keys

variable {st : ResourceNodeStorage}

theorem keys_recordFor (node : Option NodeRef) (t : ℕ) (e : NodeEvent) (st : ResourceNodeStorage) :
    (recordFor node t e st).nodeMap.map Prod.fst = st.nodeMap.map Prod.fst := by
  cases node with
  | none => rfl
  | some ref => exact st.keys_modifyNode ref _

theorem keys_checkRules (t : ℕ) (m : Flow.FlowMaps) (tag : String) (tagNode node : Option NodeRef)
    (count : ℤ) (rules : List Flow.FlowRule) (st : ResourceNodeStorage) :
    (Flow.checkRules t m tag tagNode node count rules st).1.nodeMap.map Prod.fst =
      st.nodeMap.map Prod.fst := by
  have hcheck : ∀ (c : Flow.DefaultTrafficShapingChecker) (node : NodeRef) (threshold : ℚ)
      (st : ResourceNodeStorage),
      (c.doCheck t node count threshold st).1.nodeMap.map Prod.fst = st.nodeMap.map Prod.fst := by
    intro c node threshold st
    unfold Flow.DefaultTrafficShapingChecker.doCheck
    cases st.node? node with
    | none =>
      dsimp only
      split_ifs <;> rfl
    | some n =>
      cases c.mode with
      | kThreadCount =>
        dsimp only
        split_ifs <;> rfl
      | kQps =>
        dsimp only
        split_ifs <;> exact st.keys_modifyNode node _
  have hrule : ∀ rule (st : ResourceNodeStorage),
      (Flow.canPassCheck t m rule tag tagNode node count st).1.nodeMap.map Prod.fst =
        st.nodeMap.map Prod.fst := by
    intro rule st
    unfold Flow.canPassCheck Flow.passLocalCheck
    split_ifs
    · rfl
    · cases Flow.selectNodeByRequesterAndStrategy m st rule tag tagNode node with
      | none => rfl
      | some selectedNode =>
        cases m.getTrafficControllerFor rule with
        | none => rfl
        | some controller => exact hcheck _ _ _ _
  induction rules generalizing st with
  | nil => rfl
  | cons rule rules ih =>
    have h := hrule rule st
    rw [Flow.checkRules]
    generalize Flow.canPassCheck t m rule tag tagNode node count st = r at h ⊢
    obtain ⟨st₁, res⟩ := r
    cases res with
    | blocked reason => exact h
    | _ => exact (ih st₁).trans h

theorem keys_preCheck {w w₁ : World} {c : Call} {res : TokenResult}
    (h : w.preCheck env t c = some (w₁, res)) :
    w₁.storage.nodeMap.map Prod.fst = w.storage.nodeMap.map Prod.fst := by
  have hsystem : (System.systemEntry env.systemMapOrder t w.status w.system.maps c.entryType c.count
      w.storage).1.nodeMap = w.storage.nodeMap := by
    unfold System.systemEntry
    split_ifs
    · cases w.system.maps with
      | none => rfl
      | some ruleMap =>
        dsimp only
        split_ifs <;> rfl
    · rfl
  unfold World.preCheck at h
  dsimp only at h
  generalize System.systemEntry env.systemMapOrder t w.status w.system.maps c.entryType c.count
    w.storage = r at h hsystem
  obtain ⟨st₁, res₁⟩ := r
  obtain hkeys₁ := congrArg (List.map Prod.fst) hsystem
  cases res₁ with
  | ok =>
    have hflow := keys_checkRules t w.flow.maps (env.contextTag c.context)
      (w.contexts c.context).tagNode (some (.cluster c.resource)) c.count
      (w.flow.maps.getRulesForResource c.resource) st₁
    unfold Flow.flowEntry at h
    dsimp only at h
    generalize Flow.checkRules t w.flow.maps (env.contextTag c.context)
      (w.contexts c.context).tagNode (some (.cluster c.resource)) c.count
      (w.flow.maps.getRulesForResource c.resource) st₁ = r at h hflow
    obtain ⟨st₂, res₂⟩ := r
    cases res₂ with
    | ok =>
      obtain ⟨⟨mm, res₃⟩, -, heq⟩ := Option.map_eq_some_iff.mp h
      rw [Prod.mk.injEq] at heq
      rw [← heq.1]
      exact hflow.trans hkeys₁
    | _ =>
      rw [Option.some.injEq, Prod.mk.injEq] at h
      rw [← h.1]
      exact hflow.trans hkeys₁
  | _ =>
    rw [Option.some.injEq, Prod.mk.injEq] at h
    rw [← h.1]
    exact hkeys₁

theorem keys_ruleCheck {w w₁ : World} {c : Call} {res : TokenResult}
    (h : w.ruleCheck env t c = some (w₁, res)) :
    w₁.storage.nodeMap.map Prod.fst = w.storage.nodeMap.map Prod.fst := by
  unfold World.ruleCheck at h
  cases hpre : w.preCheck env t c with
  | none => simp [hpre] at h
  | some r =>
    obtain ⟨w₀, res₀⟩ := r
    rw [hpre] at h
    have hkeys := keys_preCheck hpre
    cases res₀ with
    | ok =>
      rw [Option.some.injEq, Prod.mk.injEq] at h
      rw [← h.1]
      exact hkeys
    | _ =>
      rw [Option.some.injEq, Prod.mk.injEq] at h
      rw [← h.1]
      exact hkeys

/-- The node builder adds at most the resource of the call. -/
theorem nodup_builtNodes {w : World} (env : Env) (c : Call) (h : (w.storage.nodeMap.map Prod.fst).Nodup) :
    ((w.builtNodes env c).1.nodeMap.map Prod.fst).Nodup := by
  have hcluster : ((w.storage.getOrCreateClusterNode w.config c.resource).nodeMap.map
      Prod.fst).Nodup := by
    unfold ResourceNodeStorage.getOrCreateClusterNode
    cases hn : w.storage.getClusterNode c.resource with
    | some n => exact h
    | none =>
      have hinsert := Assoc.nodup_insertNew h c.resource (⟨.mk' w.config, []⟩ : ClusterNode)
      have hfind : w.storage.nodeMap.find? c.resource = none := hn
      rwa [Assoc.insertNew, hfind] at hinsert
  unfold World.builtNodes tagNodeFor
  dsimp only
  split_ifs
  · cases (w.storage.getOrCreateClusterNode w.config c.resource).getClusterNode c.resource with
    | none => exact hcluster
    | some n =>
      dsimp only
      rwa [Assoc.keys_modify]
  · exact hcluster

end Keys

variable {w w' w₁ : World}

/-- Alike states agree with the same ledgers. -/
theorem books_of_alike {l : Ledger} (h : World.Alike now w w') (hB : Books env w' l) : Books env w l := by
  obtain ⟨st', rfl, -⟩ := h
  exact ⟨hB.activated, hB.entries, hB.tagNode⟩

theorem Sound.setConfig (h : Sound w) {r : StatConfig × Bool} (hr : r.1.Valid) :
    Sound (w.setConfig r) := by
  unfold World.setConfig
  split_ifs
  · refine ⟨hr, ?_⟩
    have hkeys : (w.storage.resetClusterNodes r.1).nodeMap.map Prod.fst =
        w.storage.nodeMap.map Prod.fst := by
      simp [ResourceNodeStorage.resetClusterNodes, Assoc.mapValues]
    show ((w.storage.resetClusterNodes r.1).nodeMap.map Prod.fst).Nodup
    rw [hkeys]
    exact h.keys
  · exact ⟨hr, h.keys⟩

/-- **Every call keeps the state sound.** -/
theorem Sound.step {l : Ledger} (h : Sound w) (hB : Books env w l) {op : Op} {o : Outcome}
    (hs : World.step env w (t, op) = some (w₁, o)) : Sound w₁ := by
  have hthree : ∀ (a b c : Option NodeRef) (e : NodeEvent) (st : ResourceNodeStorage),
      (st.nodeMap.map Prod.fst).Nodup →
        ((recordFor a t e (recordFor b t e (recordFor c t e st))).nodeMap.map Prod.fst).Nodup := by
    intro a b c e st hst
    rwa [keys_recordFor, keys_recordFor, keys_recordFor]
  have hchecked : ∀ {c : Call} {w₁ : World} {res : TokenResult},
      (w.built env c).ruleCheck env t c = some (w₁, res) → Sound w₁ := by
    intro c w₁ res hcheck
    refine ⟨World.config_ruleCheck hcheck ▸ h.valid, ?_⟩
    rw [keys_ruleCheck hcheck]
    exact nodup_builtNodes env c h.keys
  have hE := step_effect hB hs
  cases hE with
  | notActivated | exitedBefore | exitBlocked | setError | setActivated => exact ⟨h.valid, h.keys⟩
  | passed hact hcheck =>
    have hw := hchecked hcheck
    exact ⟨hw.valid, hthree _ _ _ _ _ hw.keys⟩
  | blocked hact hcheck =>
    have hw := hchecked hcheck
    exact ⟨hw.valid, hthree _ _ _ _ _ hw.keys⟩
  | exited hid hlive =>
    simp only [World.recordExit, statisticSlotExit, Entry.hasBlockError, ne_eq, not_true_eq_false,
      decide_false, Bool.false_eq_true, if_false]
    exact ⟨h.valid, hthree _ _ _ _ _ h.keys⟩
  | trace hid =>
    refine ⟨h.valid, ?_⟩
    dsimp only
    rw [keys_recordFor]
    exact h.keys
  | config r hw' hop hop' hop'' hconfig =>
    rcases hconfig with ⟨n, rfl⟩ | ⟨ms, rfl⟩
    · obtain rfl : w.setConfig (w.config.updateSampleCount n) = w₁ := by
        simpa [World.step] using hs
      exact h.setConfig (h.valid.updateSampleCount n)
    · obtain rfl : w.setConfig (w.config.updateInterval ms) = w₁ := by
        simpa [World.step] using hs
      exact h.setConfig (h.valid.updateInterval ms)
  | rules hw' =>
    rw [hw']
    exact ⟨h.valid, h.keys⟩

/-! ### The requests are invisible -/

theorem Polled.alike {n n' n₁ : StatisticNode} (h : n.Alike t n') (hp : Polled t n n₁) :
    n₁.Alike t n' := by
  obtain ⟨n₂, hread, hn₁⟩ := hp
  have h₂ : n₂.Alike t n' := by
    rcases hread with rfl | rfl
    · exact h
    · exact h.readSecond_left le_rfl
  rcases hn₁ with rfl | rfl
  · exact h₂
  · exact h₂.readMinute_left le_rfl

theorem PolledAt.alike {st st' st₁ : ResourceNodeStorage} (h : st.Alike t st') (hp : PolledAt t st st₁) :
    st₁.Alike t st' := by
  refine ⟨fun ref => ?_, fun r => (hp.tagKeys r).trans (h.tagKeys r)⟩
  have hrel := h.nodes ref
  have hpolled := hp.nodes ref
  generalize st.node? ref = o at hrel hpolled
  generalize st'.node? ref = o' at hrel ⊢
  generalize st₁.node? ref = o₁ at hpolled ⊢
  cases hrel with
  | none =>
    cases hpolled
    exact .none
  | some hrel =>
    cases hpolled with
    | some hpolled => exact .some (hpolled.alike hrel)

theorem alike_start (env : Env) (now : ℕ) : World.Alike now (.start env) (.start env) := by
  refine ⟨_, rfl, fun ref => ?_, fun _ => rfl⟩
  cases ref with
  | entryNode => exact .some (.mk' StatConfig.valid_default now)
  | cluster | tag => exact .none

theorem sound_start (env : Env) : Sound (.start env) := ⟨StatConfig.valid_default, List.nodup_nil⟩

/-- The times of what was served do not decrease. -/
def InOrder (tr : List Served) : Prop := (tr.map fun x => x.1.1).Pairwise (· ≤ ·)

instance (tr : List Served) : Decidable (InOrder tr) := inferInstanceAs (Decidable (List.Pairwise _ _))

theorem InOrder.of_concat {tr : List Served} {x : Served} (h : InOrder (tr ++ [x])) :
    InOrder tr ∧ ∀ y ∈ tr, y.1.1 ≤ x.1.1 := by
  rw [InOrder, List.map_append, List.pairwise_append] at h
  exact ⟨h.1, fun y hy => h.2.2 _ (List.mem_map_of_mem hy) _ (by simp)⟩

/-- The calls are in order if all is. -/
theorem callsOf_inOrder {tr : List Served} (hmono : InOrder tr) (hnow : ∀ x ∈ tr, x.1.1 ≤ now) :
    ((callsOf tr).map fun x => x.1.1).Pairwise (· ≤ ·) ∧ ∀ x ∈ callsOf tr, x.1.1 ≤ now := by
  have hsub : ((callsOf tr).map fun x => x.1.1).Sublist (tr.map fun x => x.1.1) := by
    clear hmono hnow
    induction tr with
    | nil => exact .refl _
    | cons x tr ih =>
      obtain ⟨⟨t, request⟩, reply⟩ := x
      cases request with
      | call op =>
        cases reply with
        | outcome o => exact ih.cons_cons t
        | shown vec => exact ih.cons t
      | fetchClusterNode type => exact ih.cons t
  refine ⟨hmono.sublist hsub, fun x hx => ?_⟩
  have hmem := hsub.mem (List.mem_map_of_mem hx)
  obtain ⟨y, hy, htime⟩ := List.mem_map.mp hmem
  exact htime ▸ hnow y hy

theorem serve_call {op : Op} {reply : Reply}
    (h : serve env order w (t, .call op) = some (w₁, reply)) :
    ∃ o, reply = .outcome o ∧ World.step env w (t, op) = some (w₁, o) := by
  obtain ⟨⟨w₂, o⟩, hs, heq⟩ := Option.map_eq_some_iff.mp h
  rw [Prod.mk.injEq] at heq
  obtain ⟨rfl, rfl⟩ := heq
  exact ⟨o, rfl, hs⟩

/-- The calls of what was served run on their own, to a state that reads alike. -/
theorem calls_run {tr : List Served} (h : Run (StepOf (serve env order)) (.start env) tr w)
    (hmono : InOrder tr) (hnow : ∀ x ∈ tr, x.1.1 ≤ now) :
    Sound w ∧ ∃ w', World.Steps env (.start env) (callsOf tr) w' ∧ World.Alike now w w' := by
  induction h generalizing now with
  | nil => exact ⟨sound_start env, _, .nil, alike_start env now⟩
  | @snoc tr w w₁ x hr hs ih =>
    obtain ⟨⟨t, request⟩, reply⟩ := x
    obtain ⟨hmono', hbefore⟩ := hmono.of_concat
    have hle : t ≤ now := hnow _ (List.mem_append_right _ List.mem_cons_self)
    obtain ⟨hsound, w', hr', halike⟩ := ih hmono' hbefore
    cases request with
    | call op =>
      obtain ⟨o, rfl, hcall⟩ := serve_call hs
      have hB := books_of_alike halike (books_run hr')
      have hagree := halike.step env hsound.valid le_rfl op
      rw [hcall] at hagree
      generalize hcall' : World.step env w' (t, op) = r at hagree
      cases hagree with
      | @some _ x' hx =>
        obtain ⟨w₁', o'⟩ := x'
        obtain ⟨halike', rfl⟩ : w₁.Alike t w₁' ∧ o = o' := hx
        refine ⟨hsound.step hB hcall, w₁', ?_, halike'.later hle⟩
        have hcalls : callsOf (tr ++ [((t, .call op), .outcome o)]) =
            callsOf tr ++ [((t, op), o)] := by
          simp [callsOf]
        rw [hcalls]
        exact hr'.snoc hcall'
    | fetchClusterNode type =>
      obtain ⟨rfl, rfl⟩ : { w with storage := (showNodes order t type w.storage).1 } = w₁ ∧
          Reply.shown (showNodes order t type w.storage).2 = reply := by
        simpa [StepOf, serve] using hs
      obtain ⟨hpolled, -, -⟩ := showNodes_spec order t type hsound.keys
      refine ⟨⟨hsound.valid, hpolled.keys ▸ hsound.keys⟩, w', ?_, ?_⟩
      · have hcalls : callsOf (tr ++ [((t, .fetchClusterNode type),
            .shown (showNodes order t type w.storage).2)]) = callsOf tr := by
          simp [callsOf]
        rw [hcalls]
        exact hr'
      · obtain ⟨st', rfl, hst⟩ := halike
        exact ⟨st', rfl, (hpolled.alike hst).later hle⟩

theorem exists_last (tr : List Served) : ∃ now, ∀ x ∈ tr, x.1.1 ≤ now := by
  induction tr with
  | nil => exact ⟨0, fun x hx => absurd hx List.not_mem_nil⟩
  | cons x tr ih =>
    obtain ⟨now, hnow⟩ := ih
    refine ⟨max x.1.1 now, fun y hy => ?_⟩
    rcases List.mem_cons.mp hy with rfl | hy
    · exact le_max_left _ _
    · exact (hnow y hy).trans (le_max_right _ _)

/-- **Watching changes nothing.**  Two runs with the same calls at the same times, with any requests for
the cluster nodes in between, give the calls the same results. -/
theorem watching_invisible {order' : IterationOrder (String × ClusterNode)} {tr tr' : List Served}
    (h : Run (StepOf (serve env order)) (.start env) tr w)
    (h' : Run (StepOf (serve env order')) (.start env) tr' w') (hmono : InOrder tr)
    (hmono' : InOrder tr') (hcalls : (callsOf tr).map Prod.fst = (callsOf tr').map Prod.fst) :
    callsOf tr = callsOf tr' := by
  obtain ⟨now, hnow⟩ := exists_last tr
  obtain ⟨now', hnow'⟩ := exists_last tr'
  obtain ⟨-, _, hr, -⟩ := calls_run h hmono hnow
  obtain ⟨-, _, hr', -⟩ := calls_run h' hmono' hnow'
  exact (hr.eq_of_inputs hr' hcalls).1

/-- At most two calls per second on "r". -/
def twicePerSecond : Flow.FlowRule := { resource := "r", count := 2 }

/-- The rule is loaded; a call of weight 2 is admitted and exited, and another one is blocked. -/
def limitedCalls : List (ℕ × Request) :=
  [(0, .call (.flowRules (.loadRules [twicePerSecond]))), (0, .call (.entry ⟨0, "r", .IN, 2, []⟩)),
    (6, .call (.entry ⟨0, "r", .IN, 1, []⟩)), (7, .call (.exit (some 0) 1))]

/-- The same with looks at the nodes in between. -/
def watchedCalls : List (ℕ × Request) :=
  [(0, .call (.flowRules (.loadRules [twicePerSecond]))), (0, .call (.entry ⟨0, "r", .IN, 2, []⟩)),
    (5, .fetchClusterNode kNotZero), (6, .call (.entry ⟨0, "r", .IN, 1, []⟩)),
    (7, .call (.exit (some 0) 1)), (8, .fetchClusterNode kNotZero)]

/-- The view of the resource while the call is in progress. -/
def viewInProgress : StatisticNodeVO where
  resource := "r"
  threadNum := 1
  passQps := 2
  blockQps := 0
  totalQps := 2
  avgRt := 0
  completeQps := 0
  exceptionQps := 0
  passPerMin := 2
  blockPerMin := 0
  totalPerMin := 2
  exceptionPerMin := 0
  timestamp := 5

/-- The view when one call has been blocked and the other exited. -/
def viewAfterExit : StatisticNodeVO where
  resource := "r"
  threadNum := 0
  passQps := 2
  blockQps := 1
  totalQps := 3
  avgRt := 7
  completeQps := 1
  exceptionQps := 0
  passPerMin := 2
  blockPerMin := 1
  totalPerMin := 3
  exceptionPerMin := 0
  timestamp := 8

/-- What the requests return. -/
def watchedReplies : List Reply :=
  [.outcome .done, .outcome .passed, .shown [viewInProgress], .outcome (.blocked "FlowException"),
    .outcome (.exited true), .shown [viewAfterExit]]

def limitedReplies : List Reply :=
  [.outcome .done, .outcome .passed, .outcome (.blocked "FlowException"), .outcome (.exited true)]

theorem watching_invisible_example : ∃ w w',
    Run (StepOf (serve (.simple "") (.insertion _))) (.start (.simple ""))
      (watchedCalls.zip watchedReplies) w ∧
    Run (StepOf (serve (.simple "") (.insertion _))) (.start (.simple ""))
      (limitedCalls.zip limitedReplies) w' ∧
    callsOf (watchedCalls.zip watchedReplies) = callsOf (limitedCalls.zip limitedReplies) := by
  obtain ⟨w, -, h⟩ := exists_run_of_outputs (serve (.simple "") (.insertion _)) (.start (.simple ""))
    watchedCalls watchedReplies (by decide +kernel)
  obtain ⟨w', -, h'⟩ := exists_run_of_outputs (serve (.simple "") (.insertion _)) (.start (.simple ""))
    limitedCalls limitedReplies (by decide +kernel)
  exact ⟨w, w', h, h', watching_invisible h h' (by decide) (by decide) rfl⟩

end SentinelCpp.Transport
