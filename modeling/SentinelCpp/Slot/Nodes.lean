import SentinelCpp.Slot.Spec

/-!
# What a call does to the nodes

The node builder only adds fresh nodes, the checks only read, and each call is recorded once on every
node it is counted on: the node of its resource, the entry node for inbound traffic, and the tag node
its context points to.
-/

namespace SentinelCpp

open Lib Stat

/-! ### Recording -/

/-- Only the nodes of the resources get new second-level windows. -/
theorem node?_resetClusterNodes (st : ResourceNodeStorage) (c : StatConfig) (ref : NodeRef) :
    (st.resetClusterNodes c).node? ref = match ref with
      | .cluster r => (st.node? (.cluster r)).map fun n => n.reset c
      | ref => st.node? ref := by
  cases ref with
  | entryNode => rfl
  | cluster r =>
    simp [ResourceNodeStorage.node?, ResourceNodeStorage.resetClusterNodes,
      ResourceNodeStorage.getClusterNode, Assoc.find?_mapValues, Function.comp_def]
  | tag r g =>
    simp only [ResourceNodeStorage.node?, ResourceNodeStorage.resetClusterNodes,
      ResourceNodeStorage.getClusterNode, Assoc.find?_mapValues]
    cases st.nodeMap.find? r <;> rfl

theorem node?_recordFor (node : Option NodeRef) (t : ℕ) (e : NodeEvent) (st : ResourceNodeStorage)
    (ref : NodeRef) : (recordFor node t e st).node? ref =
      if node = some ref then (st.node? ref).map fun n => e.record n t else st.node? ref := by
  cases node with
  | none => simp [recordFor]
  | some ref' =>
    rw [recordFor, ResourceNodeStorage.node?_modifyNode]
    by_cases h : ref = ref'
    · simp [h]
    · simp [h, Ne.symm h]

/-- The pointer, if any, points to a tag node. -/
def IsTagNode (node : Option NodeRef) : Prop := ∀ ref, node = some ref → ∃ r tag, ref = .tag r tag

/-- Recording on the three nodes of a call, in either order of the last two. -/
theorem node?_recordThree {resource : String} {type : EntryType} {tagNode : Option NodeRef}
    (htag : IsTagNode tagNode) (t : ℕ) (e : NodeEvent) (st : ResourceNodeStorage) (ref : NodeRef) :
    (recordFor tagNode t e (recordFor (entryNodeFor type) t e
        (recordFor (some (.cluster resource)) t e st))).node? ref =
      (if World.countedOn resource type tagNode ref then (st.node? ref).map fun n => e.record n t
        else st.node? ref) ∧
    (recordFor (entryNodeFor type) t e (recordFor tagNode t e
        (recordFor (some (.cluster resource)) t e st))).node? ref =
      (if World.countedOn resource type tagNode ref then (st.node? ref).map fun n => e.record n t
        else st.node? ref) := by
  -- the three nodes are different ones
  have h1 : tagNode = some ref → ref ≠ .cluster resource ∧ entryNodeFor type ≠ some ref := by
    intro h
    obtain ⟨r, tag, rfl⟩ := htag ref h
    refine ⟨by simp, ?_⟩
    unfold entryNodeFor
    split_ifs <;> simp
  have h2 : entryNodeFor type = some ref → ref ≠ .cluster resource := by
    unfold entryNodeFor
    split_ifs
    · rintro h rfl
      simp at h
    · intro h
      simp at h
  unfold World.countedOn
  simp only [node?_recordFor, Option.some.injEq]
  by_cases hc : ref = .cluster resource
  · subst hc
    have h3 : tagNode ≠ some (.cluster resource) := fun h => (h1 h).1 rfl
    have h4 : entryNodeFor type ≠ some (.cluster resource) := fun h => h2 h rfl
    simp [h3, h4]
  · by_cases he : entryNodeFor type = some ref
    · have h3 : tagNode ≠ some ref := fun h => (h1 h).2 he
      simp [h3, he, Ne.symm hc]
    · by_cases hd : tagNode = some ref <;> simp [hc, he, hd, Ne.symm hc]

/-- The keys of the tag maps stay as they are. -/
def SameTags (st st' : ResourceNodeStorage) : Prop :=
  ∀ r, (st'.getClusterNode r).map (fun n => n.tagNodeMap.map Prod.fst) =
    (st.getClusterNode r).map fun n => n.tagNodeMap.map Prod.fst

theorem sameTags_modifyNode (st : ResourceNodeStorage) (ref : NodeRef)
    (f : StatisticNode → StatisticNode) : SameTags st (st.modifyNode ref f) :=
  st.tagKeys_modifyNode ref f

theorem SameTags.trans {st st' st'' : ResourceNodeStorage} (h : SameTags st st')
    (h' : SameTags st' st'') : SameTags st st'' := fun r => (h' r).trans (h r)

theorem sameTags_recordFor (node : Option NodeRef) (t : ℕ) (e : NodeEvent)
    (st : ResourceNodeStorage) : SameTags st (recordFor node t e st) := by
  cases node with
  | none => exact fun _ => rfl
  | some ref => exact sameTags_modifyNode st ref _

namespace World

variable {env : Env} {t : ℕ} {c : Call} {w : World}

/-- An admitted call is recorded on the nodes it is counted on. -/
theorem recordPass_node? (htag : IsTagNode (w.contexts c.context).tagNode) (ref : NodeRef) :
    (w.recordPass t c).storage.node? ref =
      if countedOn c.resource c.entryType (w.contexts c.context).tagNode ref then
        (w.storage.node? ref).map fun n => (NodeEvent.pass c.count).record n t
      else w.storage.node? ref :=
  (node?_recordThree htag t _ _ ref).1

/-- A blocked call is recorded on the same nodes. -/
theorem recordBlock_node? (htag : IsTagNode (w.contexts c.context).tagNode) (reason : String)
    (ref : NodeRef) :
    (w.recordBlock t c reason).storage.node? ref =
      if countedOn c.resource c.entryType (w.contexts c.context).tagNode ref then
        (w.storage.node? ref).map fun n => (NodeEvent.block c.count).record n t
      else w.storage.node? ref :=
  (node?_recordThree htag t _ _ ref).2

/-- An exit is recorded on the entry's own node and on the node its context points to by then. -/
theorem recordExit_node? {id : ℕ} {e : Entry} {count : ℤ}
    (htag : IsTagNode (w.contexts e.context).tagNode) (ref : NodeRef) :
    (w.recordExit t count id e (.cluster e.resource)).storage.node? ref =
      if countedOn e.resource e.entryType (w.contexts e.context).tagNode ref then
        (w.storage.node? ref).map fun n => (NodeEvent.complete
          (toInt32 ((t : ℤ) - e.createTime)) e.error count).record n t
      else w.storage.node? ref := by
  simp only [recordExit, statisticSlotExit, Entry.hasBlockError, ne_eq, not_true_eq_false,
    decide_false, Bool.false_eq_true, if_false]
  exact (node?_recordThree htag t _ _ ref).2

theorem recordPass_sameTags : SameTags w.storage (w.recordPass t c).storage :=
  ((sameTags_recordFor _ _ _ _).trans (sameTags_recordFor _ _ _ _)).trans (sameTags_recordFor _ _ _ _)

theorem recordBlock_sameTags (reason : String) :
    SameTags w.storage (w.recordBlock t c reason).storage :=
  ((sameTags_recordFor _ _ _ _).trans (sameTags_recordFor _ _ _ _)).trans (sameTags_recordFor _ _ _ _)

theorem recordExit_sameTags {id : ℕ} {e : Entry} {count : ℤ} :
    SameTags w.storage (w.recordExit t count id e (.cluster e.resource)).storage := by
  simp only [recordExit, statisticSlotExit, Entry.hasBlockError, ne_eq, not_true_eq_false,
    decide_false, Bool.false_eq_true, if_false]
  exact ((sameTags_recordFor _ _ _ _).trans (sameTags_recordFor _ _ _ _)).trans
    (sameTags_recordFor _ _ _ _)

@[simp] theorem recordBlock_entries (reason : String) :
    (w.recordBlock t c reason).entries = w.entries := rfl
@[simp] theorem recordBlock_metricMap (reason : String) :
    (w.recordBlock t c reason).metricMap = w.metricMap := rfl

@[simp] theorem recordPass_tagNode (ctx : ℕ) :
    ((w.recordPass t c).contexts ctx).tagNode = (w.contexts ctx).tagNode := by
  by_cases h : ctx = c.context
  · subst h
    simp [recordPass]
  · simp [recordPass, Function.update_of_ne h]

@[simp] theorem recordBlock_tagNode (reason : String) (ctx : ℕ) :
    ((w.recordBlock t c reason).contexts ctx).tagNode = (w.contexts ctx).tagNode := by
  by_cases h : ctx = c.context
  · subst h
    simp [recordBlock]
  · simp [recordBlock, Function.update_of_ne h]

@[simp] theorem built_tagNode (ctx : ℕ) : ((w.built env c).contexts ctx).tagNode =
    if ctx = c.context then (w.builtNodes env c).2 else (w.contexts ctx).tagNode := by
  by_cases h : ctx = c.context
  · subst h
    simp [built, modifyContext]
  · simp [built, modifyContext, h]

section Exit

variable {id : ℕ} {e : Entry} {count : ℤ} {node : NodeRef}

@[simp] theorem recordExit_entries : (w.recordExit t count id e node).entries =
    w.entries.set id { e with rt := (t : ℤ) - e.createTime, exited := true } := rfl

theorem recordExit_world : (w.recordExit t count id e node).activated = w.activated ∧
    (w.recordExit t count id e node).contexts = w.contexts := by
  simp [recordExit, statisticSlotExit, Entry.hasBlockError]

end Exit

/-! ### The node builder -/

/-- Nodes are the same, or new and fresh. -/
def Grown (config : StatConfig) (st st' : ResourceNodeStorage) : Prop :=
  ∀ ref, st'.node? ref = st.node? ref ∨
    (st.node? ref = none ∧ st'.node? ref = some (.mk' config))

theorem getClusterNode_getOrCreateClusterNode (st : ResourceNodeStorage) (config : StatConfig)
    (r r' : String) : (st.getOrCreateClusterNode config r).getClusterNode r' =
      if r' = r then some ((st.getClusterNode r).getD ⟨.mk' config, []⟩)
      else st.getClusterNode r' := by
  unfold ResourceNodeStorage.getOrCreateClusterNode
  cases h : st.getClusterNode r with
  | some n =>
    by_cases hr : r' = r
    · subst hr
      simp [h]
    · simp [hr]
  | none =>
    simp only [ResourceNodeStorage.getClusterNode] at h ⊢
    rw [Assoc.find?_concat h]
    rfl

theorem grown_getOrCreateClusterNode (st : ResourceNodeStorage) (config : StatConfig) (r : String) :
    Grown config st (st.getOrCreateClusterNode config r) := by
  intro ref
  have hentry : (st.getOrCreateClusterNode config r).entryNode = st.entryNode := by
    unfold ResourceNodeStorage.getOrCreateClusterNode
    cases st.getClusterNode r <;> rfl
  cases ref with
  | entryNode => exact .inl (by simp [ResourceNodeStorage.node?, hentry])
  | cluster r' =>
    simp only [ResourceNodeStorage.node?, getClusterNode_getOrCreateClusterNode]
    by_cases hr : r' = r
    · subst hr
      cases st.getClusterNode r' with
      | none => exact .inr ⟨rfl, by simp⟩
      | some n => exact .inl (by simp)
    · exact .inl (by simp [hr])
  | tag r' g =>
    simp only [ResourceNodeStorage.node?, getClusterNode_getOrCreateClusterNode]
    by_cases hr : r' = r
    · subst hr
      cases st.getClusterNode r' with
      | none => exact .inl (by simp [ClusterNode.getTagNode])
      | some n => exact .inl (by simp)
    · exact .inl (by simp [hr])

/-- The tag node of a resource that has a cluster node, and whether there is room for it. -/
theorem getTagNode_getOrCreateTagNode (n : ClusterNode) (config : StatConfig) (tag g : String) :
    ((n.getOrCreateTagNode config tag).1.getTagNode g = n.getTagNode g ∨
      (g = tag ∧ n.getTagNode g = none ∧
        (n.getOrCreateTagNode config tag).1.getTagNode g = some (.mk' config))) ∧
    ((n.getOrCreateTagNode config tag).2 = true →
      (n.getOrCreateTagNode config tag).1.getTagNode tag ≠ none) ∧
    (n.getOrCreateTagNode config tag).1.node = n.node := by
  unfold ClusterNode.getOrCreateTagNode
  cases h : n.getTagNode tag with
  | some m => exact ⟨.inl rfl, fun _ => by simp [h], rfl⟩
  | none =>
    dsimp only
    split_ifs
    · exact ⟨.inl rfl, by simp, rfl⟩
    · simp only [ClusterNode.getTagNode] at h ⊢
      refine ⟨?_, fun _ => ?_, trivial⟩
      · rw [Assoc.find?_concat h]
        by_cases hg : g = tag
        · subst hg
          exact .inr ⟨rfl, h, by simp⟩
        · exact .inl (by simp [hg])
      · rw [Assoc.find?_concat h]
        simp

theorem grown_tagNodeFor (st : ResourceNodeStorage) (config : StatConfig) (r tag : String) :
    Grown config st (tagNodeFor st config r tag).1 := by
  intro ref
  unfold tagNodeFor
  cases hn : st.getClusterNode r with
  | none => exact .inl rfl
  | some n =>
    obtain ⟨-, -, hnode⟩ := getTagNode_getOrCreateTagNode n config tag tag
    cases ref with
    | entryNode => exact .inl rfl
    | cluster r' =>
      left
      by_cases hr : r' = r
      · subst hr
        simp only [ResourceNodeStorage.getClusterNode] at hn
        simp [ResourceNodeStorage.node?, ResourceNodeStorage.getClusterNode, hn, hnode]
      · simp [ResourceNodeStorage.node?, ResourceNodeStorage.getClusterNode,
          Assoc.find?_modify_of_ne hr]
    | tag r' g =>
      by_cases hr : r' = r
      · subst hr
        obtain ⟨h, -, -⟩ := getTagNode_getOrCreateTagNode n config tag g
        simp only [ResourceNodeStorage.getClusterNode] at hn
        simp only [ResourceNodeStorage.node?, ResourceNodeStorage.getClusterNode, hn,
          Assoc.find?_modify_self, Option.map_some, Option.bind_some]
        rcases h with h | ⟨-, h1, h2⟩
        · exact .inl h
        · exact .inr ⟨h1, h2⟩
      · left
        simp [ResourceNodeStorage.node?, ResourceNodeStorage.getClusterNode,
          Assoc.find?_modify_of_ne hr]

theorem Grown.trans {config : StatConfig} {st st' st'' : ResourceNodeStorage}
    (h : Grown config st st') (h' : Grown config st' st'') : Grown config st st'' := by
  intro ref
  rcases h ref with h1 | ⟨h1, h2⟩ <;> rcases h' ref with h3 | ⟨h3, h4⟩
  · exact .inl (h3.trans h1)
  · exact .inr ⟨h1 ▸ h3, h4⟩
  · exact .inr ⟨h1, h3.trans h2⟩
  · rw [h2] at h3
    simp at h3

variable (env c w) in
theorem grown_builtNodes : Grown w.config w.storage (w.builtNodes env c).1 := by
  unfold builtNodes
  dsimp only
  split_ifs
  · exact (grown_getOrCreateClusterNode _ _ _).trans (grown_tagNodeFor _ _ _ _)
  · exact grown_getOrCreateClusterNode _ _ _

/-- The resource of the call has a node afterwards. -/
theorem builtNodes_cluster : (w.builtNodes env c).1.node? (.cluster c.resource) ≠ none := by
  have h : (w.storage.getOrCreateClusterNode w.config c.resource).node? (.cluster c.resource) ≠
      none := by
    simp [ResourceNodeStorage.node?, getClusterNode_getOrCreateClusterNode]
  unfold builtNodes
  dsimp only
  split_ifs
  · rcases grown_tagNodeFor (w.storage.getOrCreateClusterNode w.config c.resource) w.config
      c.resource (env.contextTag c.context) (.cluster c.resource) with h1 | ⟨-, h1⟩
    · rwa [h1]
    · simp [h1]
  · exact h

/-- The checks keep the nodes there are. -/
theorem node?_ne_none_of_ruleCheck {w₁ : World} {res : TokenResult} {ref : NodeRef}
    (h : w.ruleCheck env t c = some (w₁, res)) (hex : w.storage.node? ref ≠ none) :
    w₁.storage.node? ref ≠ none :=
  (ruleCheck_spec h).storage.node?_ne_none hex

variable (env c w) in
/-- With a tag, the context points to the tag node of the resource, or to none when there are too many
tags; without one, its pointer is left alone. -/
theorem builtNodes_tagNode : (env.contextTag c.context = "" ∧
      (w.builtNodes env c).2 = (w.contexts c.context).tagNode) ∨
    (env.contextTag c.context ≠ "" ∧ ((w.builtNodes env c).2 = none ∨
      ((w.builtNodes env c).2 = some (.tag c.resource (env.contextTag c.context)) ∧
        (w.builtNodes env c).1.node? (.tag c.resource (env.contextTag c.context)) ≠ none))) := by
  unfold builtNodes
  by_cases htag : env.contextTag c.context = ""
  · exact .inl ⟨htag, by simp [htag]⟩
  · right
    refine ⟨htag, ?_⟩
    simp only [ne_eq, htag, not_false_eq_true, if_true]
    unfold tagNodeFor
    cases hn : (w.storage.getOrCreateClusterNode w.config c.resource).getClusterNode c.resource with
    | none => exact .inl rfl
    | some n =>
      dsimp only
      obtain ⟨-, h, -⟩ := getTagNode_getOrCreateTagNode n w.config (env.contextTag c.context) ""
      by_cases hb : (n.getOrCreateTagNode w.config (env.contextTag c.context)).2 = true
      · rw [if_pos hb]
        refine .inr ⟨rfl, ?_⟩
        simp only [ResourceNodeStorage.getClusterNode] at hn
        simp only [ResourceNodeStorage.node?, ResourceNodeStorage.getClusterNode, hn,
          Assoc.find?_modify_self, Option.map_some, Option.bind_some]
        exact h hb
      · rw [if_neg hb]
        exact .inl rfl

end World

end SentinelCpp
