import SentinelCpp.Slot.Conservation

/-!
# Tag nodes under nested calls

An entry is counted on the tag node its context points to when it enters, and discounted on the one
the context points to when it exits.  The context is shared, so the two differ when another resource
was entered with the same context in between.
-/

namespace SentinelCpp

open Lib Stat

/-! ### Room for the tags -/

/-- The tag a call uses on a resource, if any. -/
def tagUsed (env : Env) (resource : String) (a : Label) : Option String :=
  match a.1.2 with
  | .entry c =>
    if c.resource = resource ∧ env.contextTag c.context ≠ "" then some (env.contextTag c.context)
    else none
  | _ => none

/-- The tags that the calls of a run use on a resource. -/
def tagsUsed (env : Env) (tr : List Label) (resource : String) : List String :=
  (tr.filterMap (tagUsed env resource)).dedup

/-- The tag nodes of each resource are for different tags, all used in the run. -/
def TagsWithin (env : Env) (tr : List Label) (st : ResourceNodeStorage) : Prop :=
  ∀ r n, st.getClusterNode r = some n →
    (n.tagNodeMap.map Prod.fst).Nodup ∧ n.tagNodeMap.map Prod.fst ⊆ tagsUsed env tr r

theorem tagsUsed_mono (env : Env) (tr : List Label) (a : Label) (r : String) :
    tagsUsed env tr r ⊆ tagsUsed env (tr ++ [a]) r := by
  intro tag h
  simp only [tagsUsed, List.mem_dedup, List.filterMap_append, List.mem_append] at h ⊢
  exact .inl h

theorem mem_tagsUsed {env : Env} {c : Call} (htag : env.contextTag c.context ≠ "") (tr : List Label)
    (t : ℕ) (o : Outcome) :
    env.contextTag c.context ∈ tagsUsed env (tr ++ [((t, .entry c), o)]) c.resource := by
  simp [tagsUsed, tagUsed, htag]

namespace TagsWithin

variable {env : Env} {tr : List Label} {st st' : ResourceNodeStorage}

theorem mono (h : TagsWithin env tr st) (a : Label) : TagsWithin env (tr ++ [a]) st :=
  fun r n hn => ⟨(h r n hn).1, fun _ hx => tagsUsed_mono env tr a r ((h r n hn).2 hx)⟩

theorem same (h : TagsWithin env tr st) (hs : SameTags st st') : TagsWithin env tr st' := by
  intro r n hn
  have hr := hs r
  rw [hn] at hr
  cases hst : st.getClusterNode r with
  | none => simp [hst] at hr
  | some m =>
    rw [hst, Option.map_some, Option.map_some, Option.some.injEq] at hr
    rw [hr]
    exact h r m hst

/-- The node builder adds the tag of the call, unless it is there. -/
theorem built {w : World} (h : TagsWithin env tr w.storage) (t : ℕ) (c : Call) (o : Outcome) :
    TagsWithin env (tr ++ [((t, .entry c), o)]) (w.builtNodes env c).1 := by
  have hcluster : TagsWithin env (tr ++ [((t, .entry c), o)])
      (w.storage.getOrCreateClusterNode w.config c.resource) := by
    intro r n hn
    rw [World.getClusterNode_getOrCreateClusterNode] at hn
    split_ifs at hn with hr
    · subst hr
      rw [Option.some.injEq] at hn
      subst hn
      cases hst : w.storage.getClusterNode c.resource with
      | none => simp
      | some m => exact h.mono _ _ m hst
    · exact h.mono _ r n hn
  unfold World.builtNodes
  dsimp only
  split_ifs with htag
  · unfold tagNodeFor
    cases hst : (w.storage.getOrCreateClusterNode w.config c.resource).getClusterNode c.resource with
    | none => exact hcluster
    | some m =>
      obtain ⟨hnd, hsub⟩ := hcluster _ m hst
      intro r n hn
      dsimp only [ResourceNodeStorage.getClusterNode] at hn
      rw [Assoc.find?_modify] at hn
      split_ifs at hn with hr
      · subst hr
        simp only [ResourceNodeStorage.getClusterNode] at hst
        rw [hst, Option.map_some, Option.some.injEq] at hn
        subst hn
        unfold ClusterNode.getOrCreateTagNode
        cases hfind : m.getTagNode (env.contextTag c.context) with
        | some _ => exact ⟨hnd, hsub⟩
        | none =>
          dsimp only
          split_ifs
          · exact ⟨hnd, hsub⟩
          · have hnew := Assoc.find?_eq_none.mp hfind
            simp only [List.map_append, List.map_cons, List.map_nil]
            refine ⟨List.nodup_append.mpr ⟨hnd, by simp, ?_⟩, ?_⟩
            · rintro a ha b hb rfl
              rw [List.mem_singleton] at hb
              exact hnew (hb ▸ ha)
            · intro g hg
              rcases List.mem_append.mp hg with hg | hg
              · exact hsub hg
              · rw [List.mem_singleton] at hg
                subst hg
                exact mem_tagsUsed htag tr t o
      · exact hcluster r n hn
  · exact hcluster

theorem length_le (h : TagsWithin env tr st) {r : String} {n : ClusterNode}
    (hn : st.getClusterNode r = some n) : n.tagNodeMap.length ≤ (tagsUsed env tr r).length := by
  obtain ⟨hnd, hsub⟩ := h r n hn
  have := (List.subperm_of_subset hnd hsub).length_le
  rwa [List.length_map] at this

end TagsWithin

/-- With room for it, the context of a tagged call points to the tag node of its resource. -/
theorem builtNodes_tagNode_of_room {env : Env} {w : World} {c : Call}
    (htag : env.contextTag c.context ≠ "")
    (hroom : ∀ n, w.storage.getClusterNode c.resource = some n →
      n.tagNodeMap.length ≤ Constants.kMaxTagSize) :
    (w.builtNodes env c).2 = some (.tag c.resource (env.contextTag c.context)) := by
  unfold World.builtNodes
  simp only [ne_eq, htag, not_false_eq_true, if_true]
  unfold tagNodeFor
  rw [World.getClusterNode_getOrCreateClusterNode, if_pos rfl]
  dsimp only
  rw [if_pos]
  unfold ClusterNode.getOrCreateTagNode
  cases hst : w.storage.getClusterNode c.resource with
  | none => simp [ClusterNode.getTagNode]
  | some n =>
    have := hroom n hst
    rw [Option.getD_some]
    cases n.getTagNode (env.contextTag c.context) with
    | some _ => rfl
    | none =>
      dsimp only
      rw [if_neg (by omega)]

/-! ### Tag nodes in a run -/

/-- The tag nodes have room in the run, and the contexts point to nodes that exist. -/
structure TagBooks (env : Env) (tr : List Label) (w : World) : Prop where
  within : TagsWithin env tr w.storage
  pointer : ∀ ctx ref, (w.contexts ctx).tagNode = some ref → w.storage.node? ref ≠ none

/-- The run uses fewer than `kMaxTagSize` tags on each resource. -/
def RoomForTags (env : Env) (tr : List Label) : Prop :=
  ∀ r, (tagsUsed env tr r).length < Constants.kMaxTagSize

theorem node?_ne_none_of_record {st st' : ResourceNodeStorage} {ref : NodeRef} {p : Prop}
    [Decidable p] {f : StatisticNode → StatisticNode}
    (h : st'.node? ref = if p then (st.node? ref).map f else st.node? ref)
    (hex : st.node? ref ≠ none) : st'.node? ref ≠ none := by
  rw [h]
  split_ifs
  · simpa using hex
  · exact hex

theorem TagBooks.built {env : Env} {tr : List Label} {w : World} (hT : TagBooks env tr w) (t : ℕ)
    (c : Call) (o : Outcome) : TagBooks env (tr ++ [((t, .entry c), o)]) (w.built env c) := by
  refine ⟨hT.within.built t c o, fun ctx ref h => ?_⟩
  have hgrown : ∀ ref, w.storage.node? ref ≠ none → (w.built env c).storage.node? ref ≠ none := by
    intro ref hex
    rcases World.grown_builtNodes env c w ref with hsame | ⟨hnone, -⟩
    · exact fun hn => hex (hsame.symm.trans hn)
    · exact absurd hnone hex
  rw [World.built_tagNode] at h
  split_ifs at h with hctx
  · rcases World.builtNodes_tagNode env c w with
      ⟨-, hsame⟩ | ⟨-, hnone | ⟨hsome, hex⟩⟩
    · exact hgrown ref (hT.pointer _ ref (hsame.symm.trans h))
    · rw [hnone] at h
      simp at h
    · rw [hsome, Option.some.injEq] at h
      subst h
      exact hex
  · exact hgrown ref (hT.pointer ctx ref h)

theorem TagBooks.checked {env : Env} {tr : List Label} {w w₁ : World} (hT : TagBooks env tr w)
    {t : ℕ} {c : Call} {res : TokenResult} (h : w.ruleCheck env t c = some (w₁, res)) :
    TagBooks env tr w₁ := by
  obtain ⟨heq, hread, -, -⟩ := World.ruleCheck_spec h
  refine ⟨hT.within.same fun r => hread.2 r, fun ctx ref hp => ?_⟩
  rw [heq] at hp
  exact hread.node?_ne_none (hT.pointer ctx ref hp)

/-- **Each step keeps the tag books.** -/
theorem TagBooks.step {env : Env} {tr : List Label} {w w' : World} (hB : Books env w (ledger tr))
    (hT : TagBooks env tr w) {t : ℕ} {op : Op} {o : Outcome} (h : Effect env t w op o w') :
    TagBooks env (tr ++ [((t, op), o)]) w' := by
  cases h with
  | notActivated hact => exact ⟨hT.within.mono _, hT.pointer⟩
  | @passed c w₁ hact hcheck =>
    have hT₁ := (hT.built t c .passed).checked hcheck
    have htag := ((hB.built c).checked hcheck).isTagNode c.context
    refine ⟨hT₁.within.same World.recordPass_sameTags, fun ctx ref hp => ?_⟩
    dsimp only at hp
    rw [World.recordPass_tagNode] at hp
    exact node?_ne_none_of_record (World.recordPass_node? htag ref) (hT₁.pointer ctx ref hp)
  | @blocked c w₁ reason hact hcheck =>
    have hT₁ := (hT.built t c (.blocked reason)).checked hcheck
    have htag := ((hB.built c).checked hcheck).isTagNode c.context
    refine ⟨hT₁.within.same (World.recordBlock_sameTags reason), fun ctx ref hp => ?_⟩
    rw [World.recordBlock_tagNode] at hp
    exact node?_ne_none_of_record (World.recordBlock_node? htag reason ref) (hT₁.pointer ctx ref hp)
  | @exited id e count hid hlive =>
    have hctx : (w.recordExit t count id e (.cluster e.resource)).contexts = w.contexts :=
      World.recordExit_world.2
    refine ⟨(hT.within.mono _).same World.recordExit_sameTags, fun ctx ref hp => ?_⟩
    rw [hctx] at hp
    exact node?_ne_none_of_record (World.recordExit_node? (hB.isTagNode e.context) ref)
      (hT.pointer ctx ref hp)
  | exitedBefore | exitBlocked | setError | setActivated =>
    exact ⟨hT.within.mono _, hT.pointer⟩
  | @trace id e count hid =>
    refine ⟨(hT.within.mono _).same (sameTags_recordFor _ _ _ _), fun ctx ref hp => ?_⟩
    exact node?_ne_none_of_record (node?_recordFor e.curNode t (.exception count) w.storage ref)
      (hT.pointer ctx ref hp)
  | config r hw' hop hop' hop'' =>
    subst hw'
    have hctx : (w.setConfig r).contexts = w.contexts := by
      unfold World.setConfig
      split_ifs <;> rfl
    refine ⟨(hT.within.mono _).same fun r' => ?_, fun ctx ref hp => ?_⟩
    · unfold World.setConfig
      split_ifs
      · simp only [ResourceNodeStorage.resetClusterNodes, ResourceNodeStorage.getClusterNode,
          Assoc.find?_mapValues, Option.map_map]
        rfl
      · rfl
    · rw [hctx] at hp
      rcases node?_setConfig w r ref with hsame | hreset
      · rw [hsame]
        exact hT.pointer ctx ref hp
      · rw [hreset]
        simpa using hT.pointer ctx ref hp
  | rules hw' hcb hop hop' hop'' =>
    rw [hw']
    exact ⟨hT.within.mono _, hT.pointer⟩

theorem tagBooks_run {env : Env} {tr : List Label} {w : World}
    (h : World.Steps env (World.start env) tr w) : TagBooks env tr w := by
  refine Run.hist (I := TagBooks env) ?_ ?_ h
  · exact ⟨by simp [TagsWithin, World.start, ResourceNodeStorage.mk',
      ResourceNodeStorage.getClusterNode], by simp [World.start]⟩
  · rintro tr w ⟨⟨t, op⟩, o⟩ w' hr hT hstep
    have hB := books_run hr
    exact hT.step hB (step_effect hB hstep)

theorem RoomForTags.of_prefix {env : Env} {tr tr₁ : List Label} (h : RoomForTags env tr)
    (hp : tr₁ <+: tr) : RoomForTags env tr₁ := by
  intro r
  have hsub : tagsUsed env tr₁ r ⊆ tagsUsed env tr r := by
    intro tag htag
    obtain ⟨tr₂, rfl⟩ := hp
    simp only [tagsUsed, List.mem_dedup, List.filterMap_append, List.mem_append] at htag ⊢
    exact .inl htag
  have hle := (List.subperm_of_subset (List.nodup_dedup _) hsub).length_le
  exact Nat.lt_of_le_of_lt hle (h r)

theorem roomForTags_of_length {env : Env} {tr : List Label}
    (h : tr.length < Constants.kMaxTagSize) : RoomForTags env tr := by
  intro r
  have h1 : (tagsUsed env tr r).length ≤ (tr.filterMap (tagUsed env r)).length :=
    (List.dedup_sublist _).length_le
  have h2 := List.length_filterMap_le (tagUsed env r) tr
  omega

/-! ### Calls in progress on a node -/

/-- `CurThreadNum()` of the node a pointer points to, zero before it exists. -/
def threadsAt (st : ResourceNodeStorage) (ref : NodeRef) : UInt32 :=
  ((st.node? ref).map StatisticNode.curThreadNum).getD 0

section ThreadsAt

variable {st st' : ResourceNodeStorage} {ref : NodeRef} {t : ℕ}

theorem threadsAt_grown {config : StatConfig} (h : World.Grown config st st') :
    threadsAt st' ref = threadsAt st ref := by
  unfold threadsAt
  rcases h ref with hsame | ⟨hnone, hnew⟩
  · rw [hsame]
  · rw [hnone, hnew]
    rfl

theorem threadsAt_readAt (h : st.ReadAt t st') : threadsAt st' ref = threadsAt st ref := by
  unfold threadsAt
  have hrel := h.1 ref
  generalize st.node? ref = n at hrel
  generalize st'.node? ref = n' at hrel
  cases hrel with
  | none => rfl
  | some hr => simp [hr.curThreadNum]

theorem threadsAt_record {p : Prop} [Decidable p] {e : NodeEvent}
    (h : st'.node? ref = if p then (st.node? ref).map fun n => e.record n t else st.node? ref)
    (hex : p → st.node? ref ≠ none) :
    threadsAt st' ref = if p then e.threads (threadsAt st ref) else threadsAt st ref := by
  unfold threadsAt
  rw [h]
  split_ifs with hp
  · cases hn : st.node? ref with
    | none => exact absurd hn (hex hp)
    | some n => simp [NodeEvent.record_curThreadNum]
  · rfl

end ThreadsAt

theorem threadsAt_setConfig (w : World) (r : StatConfig × Bool) (ref : NodeRef) :
    threadsAt (w.setConfig r).storage ref = threadsAt w.storage ref := by
  unfold threadsAt
  rcases node?_setConfig w r ref with hsame | hreset
  · rw [hsame]
  · rw [hreset, Option.map_map]
    rfl

@[simp] theorem countedOn_tag {resource r tag : String} {type : EntryType}
    {tagNode : Option NodeRef} :
    World.countedOn resource type tagNode (.tag r tag) ↔ tagNode = some (.tag r tag) := by
  unfold World.countedOn entryNodeFor
  by_cases htype : type = .IN <;> simp [htype]

/-! ### Exactness of the tag nodes -/

/-- The entry is on the resource, and its context has the tag. -/
def onTag (env : Env) (resource tag : String) (e : Entry) : Bool :=
  e.resource = resource ∧ env.contextTag e.context = tag

theorem onTag_iff {env : Env} {resource tag : String} {e : Entry} :
    onTag env resource tag e = true ↔ e.resource = resource ∧ env.contextTag e.context = tag := by
  simp [onTag]

/-- Every tag node has as many calls in progress as there are outstanding entries for it. -/
def TagThreadsExact (env : Env) (w : World) : Prop :=
  ∀ r tag, tag ≠ "" → threadsAt w.storage (.tag r tag) = UInt32.ofNat (w.live (onTag env r tag))

/-- An outstanding entry of a tagged context is exited only while the context points to the tag node
of the entry's own resource. -/
def ExitsOwnTagNode (env : Env) (w : World) (a : Label) : Prop :=
  match a.1.2 with
  | .exit (some id) _ => ∀ e, w.entries[id]? = some e → e.exited = false →
      env.contextTag e.context ≠ "" →
      (w.contexts e.context).tagNode = some (.tag e.resource (env.contextTag e.context))
  | _ => True

theorem tagThreadsExact_start (env : Env) : TagThreadsExact env (World.start env) :=
  fun _ _ _ => rfl

section Step

variable {env : Env} {tr : List Label} {w w₁ : World} {t : ℕ} {c : Call}

/-- The state after the checks: nothing has been counted yet. -/
theorem threadsAt_checked {res : TokenResult}
    (hcheck : (w.built env c).ruleCheck env t c = some (w₁, res)) (ref : NodeRef) :
    threadsAt w₁.storage ref = threadsAt w.storage ref :=
  (threadsAt_readAt (World.ruleCheck_spec hcheck).storage).trans
    (threadsAt_grown (World.grown_builtNodes env c w))

/-- The pointer of the call's context after the checks. -/
theorem tagNode_checked {res : TokenResult} (hB : Books env w (ledger tr)) (hT : TagBooks env tr w)
    (hroom : RoomForTags env tr)
    (hcheck : (w.built env c).ruleCheck env t c = some (w₁, res)) :
    (w₁.contexts c.context).tagNode = if env.contextTag c.context = "" then none
      else some (.tag c.resource (env.contextTag c.context)) := by
  rw [World.contexts_ruleCheck hcheck, World.built_tagNode, if_pos rfl]
  split_ifs with htag
  · cases hp : (w.builtNodes env c).2 with
    | none => rfl
    | some ref => exact absurd htag (hB.builtTagNode hp).2
  · refine builtNodes_tagNode_of_room htag fun n hn => ?_
    have h1 := hT.within.length_le hn
    have h2 := hroom c.resource
    omega

/-- An admitted call keeps the counts exact. -/
theorem TagThreadsExact.passed (hB : Books env w (ledger tr)) (hT : TagBooks env tr w)
    (hroom : RoomForTags env tr) (hP : TagThreadsExact env w)
    (hcheck : (w.built env c).ruleCheck env t c = some (w₁, .ok)) :
    TagThreadsExact env
      { w₁.recordPass t c with entries := w₁.entries ++ [World.admittedEntry t c] } := by
  intro r tag htag
  have hB₁ := (hB.built c).checked hcheck
  have hT₁ := (hT.built t c .passed).checked hcheck
  rw [World.live_recordPass _ hcheck]
  dsimp only
  rw [threadsAt_record (World.recordPass_node? (hB₁.isTagNode _) _)
    (fun h => hT₁.pointer _ _ (countedOn_tag.mp h)), threadsAt_checked hcheck, hP r tag htag]
  simp only [countedOn_tag, tagNode_checked hB hT hroom hcheck]
  have hiff : (if env.contextTag c.context = "" then none
      else some (NodeRef.tag c.resource (env.contextTag c.context))) = some (.tag r tag) ↔
      onTag env r tag (World.admittedEntry t c) = true := by
    rw [onTag_iff]
    split_ifs with h
    · simp [World.admittedEntry, h, Ne.symm htag]
    · simp [World.admittedEntry]
  by_cases hon : onTag env r tag (World.admittedEntry t c) = true
  · rw [if_pos (hiff.mpr hon), if_pos hon, ofNat_succ]
    rfl
  · rw [if_neg (mt hiff.mp hon), if_neg hon, add_zero]

/-- A blocked call counts no thread. -/
theorem TagThreadsExact.blocked (hB : Books env w (ledger tr)) (hT : TagBooks env tr w)
    (hP : TagThreadsExact env w) {reason : String}
    (hcheck : (w.built env c).ruleCheck env t c = some (w₁, .blocked reason)) :
    TagThreadsExact env (w₁.recordBlock t c reason) := by
  intro r tag htag
  have hB₁ := (hB.built c).checked hcheck
  have hT₁ := (hT.built t c (.blocked reason)).checked hcheck
  rw [threadsAt_record (World.recordBlock_node? (hB₁.isTagNode _) _ _)
    (fun h => hT₁.pointer _ _ (countedOn_tag.mp h)), threadsAt_checked hcheck, hP r tag htag,
    World.live_recordBlock _ hcheck]
  simp [NodeEvent.threads]

/-- The exit of an outstanding entry keeps the counts exact precisely when it discounts the node the
entry was counted on. -/
theorem TagThreadsExact.exited_iff (hB : Books env w (ledger tr)) (hT : TagBooks env tr w)
    (hP : TagThreadsExact env w) {id : ℕ} {e : Entry} {count : ℤ} (hid : w.entries[id]? = some e)
    (hlive : e.exited = false) :
    TagThreadsExact env (w.recordExit t count id e (.cluster e.resource)) ↔
      (env.contextTag e.context ≠ "" → (w.contexts e.context).tagNode =
        some (.tag e.resource (env.contextTag e.context))) := by
  have hthreads : ∀ r tag, threadsAt
      (w.recordExit t count id e (.cluster e.resource)).storage (.tag r tag) =
      if (w.contexts e.context).tagNode = some (.tag r tag) then threadsAt w.storage (.tag r tag) - 1
      else threadsAt w.storage (.tag r tag) := by
    intro r tag
    rw [threadsAt_record (World.recordExit_node? (hB.isTagNode _) _)
      (fun h => hT.pointer _ _ (countedOn_tag.mp h))]
    simp only [countedOn_tag]
    rfl
  have hcount : ∀ r tag, w.live (onTag env r tag) =
      (w.recordExit t count id e (.cluster e.resource)).live (onTag env r tag) +
        if onTag env r tag e then 1 else 0 :=
    fun r tag => World.live_of_set_exited (onTag env r tag) hid rfl hlive rfl
  constructor
  · intro hP' htag
    by_contra hne
    have h1 := hP' e.resource _ htag
    rw [hthreads, if_neg hne, hP _ _ htag, hcount, if_pos (onTag_iff.mpr ⟨rfl, rfl⟩), ofNat_succ] at h1
    -- one more than itself
    exact absurd (UInt32.add_eq_left.mp h1) (by decide)
  · intro hown r tag htag
    have h1 := hP r tag htag
    rw [hcount] at h1
    rw [hthreads, h1]
    by_cases hon : onTag env r tag e = true
    · obtain ⟨rfl, rfl⟩ := onTag_iff.mp hon
      rw [if_pos (hown htag), if_pos hon, ofNat_succ, UInt32.add_sub_cancel]
    · rw [if_neg, if_neg hon, add_zero]
      intro hp
      obtain ⟨r', heq, hne⟩ := hB.tagNode _ _ hp
      rw [NodeRef.tag.injEq] at heq
      rw [hown hne, Option.some.injEq, NodeRef.tag.injEq] at hp
      exact hon (onTag_iff.mpr hp)

/-- Only exits can fail the condition. -/
theorem exitsOwnTagNode_of_other {op : Op} {o : Outcome}
    (h : ∀ id count, op ≠ .exit (some id) count) : ExitsOwnTagNode env w ((t, op), o) := by
  cases op with
  | exit result count =>
    cases result with
    | none => trivial
    | some id => exact absurd rfl (h id count)
  | _ => trivial

/-- **One step.** -/
theorem TagThreadsExact.step_iff {w' : World} (hB : Books env w (ledger tr)) (hT : TagBooks env tr w)
    (hroom : RoomForTags env tr) (hP : TagThreadsExact env w) {op : Op} {o : Outcome}
    (h : Effect env t w op o w') : TagThreadsExact env w' ↔ ExitsOwnTagNode env w ((t, op), o) := by
  have hsame : ∀ w' : World, threadsAt w'.storage = threadsAt w.storage →
      w'.entries = w.entries → TagThreadsExact env w' := by
    intro w' hth hentries r tag htag
    rw [hth, World.live, hentries]
    exact hP r tag htag
  cases h with
  | notActivated hact =>
    refine (iff_true _).mpr fun r tag htag => ?_
    rw [World.live_of_concat (onTag env r tag) rfl]
    exact hP r tag htag
  | passed hact hcheck => exact (iff_true _).mpr (hP.passed hB hT hroom hcheck)
  | blocked hact hcheck => exact (iff_true _).mpr (hP.blocked hB hT hcheck)
  | @exited id e count hid hlive =>
    rw [hP.exited_iff hB hT hid hlive]
    simp only [ExitsOwnTagNode, hid, Option.some.injEq]
    constructor
    · rintro h e' rfl - htag
      exact h htag
    · intro h htag
      exact h e rfl hlive htag
  | @exitedBefore id e count hid hlive =>
    refine iff_of_true hP ?_
    rintro e' he' hlive'
    obtain rfl : e = e' := Option.some.inj (hid.symm.trans he')
    simp [hlive] at hlive'
  | exitBlocked => exact iff_of_true hP trivial
  | @setError id e err hid =>
    refine (iff_true _).mpr fun r tag htag => ?_
    have hsame : World.live { w with entries := w.entries.set id { e with error := err } }
        (onTag env r tag) = w.live (onTag env r tag) :=
      World.live_of_set_same _ hid rfl rfl rfl
    rw [hsame]
    exact hP r tag htag
  | @trace id e count hid =>
    refine (iff_true _).mpr (hsame _ (funext fun ref => ?_) rfl)
    unfold threadsAt
    rw [node?_recordFor]
    split_ifs
    · rw [Option.map_map]
      rfl
    · rfl
  | @config op w' r hw' hop hop' hop'' =>
    refine iff_of_true (hsame w' (funext fun ref => ?_) ?_) (exitsOwnTagNode_of_other hop')
    · rw [hw']
      exact threadsAt_setConfig w r ref
    · rw [hw']
      unfold World.setConfig
      split_ifs <;> rfl
  | setActivated => exact iff_of_true hP trivial
  | @rules op w' hw' hcb hop hop' hop'' =>
    exact iff_of_true (hsame w' (by rw [hw']) (by rw [hw'])) (exitsOwnTagNode_of_other hop')

end Step

/-- **Exactness of the tag nodes.**  In every run with room for its tags, the tag nodes count exactly
the outstanding entries throughout, if and only if every exit of a tagged entry happens while its
context points to the tag node of its own resource, that is, while the last call with that context was
on the same resource. -/
theorem tagThreadsExact_iff {env : Env} {tr : List Label} {w : World} (hroom : RoomForTags env tr)
    (h : World.Steps env (World.start env) tr w) :
    Always (StepOf (World.step env)) (World.start env) (TagThreadsExact env) tr ↔
      EveryStep (StepOf (World.step env)) (World.start env) (ExitsOwnTagNode env) tr := by
  refine always_iff_everyStep stepOf_det (tagThreadsExact_start env) ?_ h
  rintro tr₁ w ⟨⟨t, op⟩, o⟩ w' hp hr hP hstep
  have hB := books_run hr
  have hroom₁ := hroom.of_prefix ((List.prefix_append _ _).trans hp)
  exact hP.step_iff hB (tagBooks_run hr) hroom₁ (step_effect hB hstep)

/-- One context, nested calls on "a" and "b", exited in the order they were entered. -/
def nestedCalls : List (ℕ × Op) :=
  [(0, .entry ⟨0, "a", .IN, 1, []⟩), (1, .entry ⟨0, "b", .IN, 1, []⟩), (2, .exit (some 0) 1),
    (3, .exit (some 1) 1)]

/-- Both exits discount the tag node of "b": the count of "a" stays at one for good, the one of "b"
wraps. -/
theorem tagThreadsExact_fails : ∃ tr w, RoomForTags (.simple "T") tr ∧
    World.Steps (.simple "T") (.start (.simple "T")) tr w ∧
    w.live (onTag (.simple "T") "a" "T") = 0 ∧ threadsAt w.storage (.tag "a" "T") = 1 ∧
    w.live (onTag (.simple "T") "b" "T") = 0 ∧ threadsAt w.storage (.tag "b" "T") = 4294967295 := by
  have hx : (execute (World.step (.simple "T")) (.start (.simple "T")) nestedCalls).map (fun r =>
      (r.2.live (onTag (.simple "T") "a" "T"), threadsAt r.2.storage (.tag "a" "T"),
        r.2.live (onTag (.simple "T") "b" "T"), threadsAt r.2.storage (.tag "b" "T"))) =
      some (0, 1, 0, 4294967295) := by
    decide
  obtain ⟨⟨tr, w⟩, hr, heq⟩ := Option.map_eq_some_iff.mp hx
  simp only [Prod.mk.injEq] at heq
  refine ⟨tr, w, roomForTags_of_length ?_, run_of_execute hr, heq⟩
  rw [← List.length_map (f := Prod.fst), execute_inputs hr]
  decide

/-- The run above meets the condition up to its first exit and not beyond. -/
theorem tagThreadsExact_iff_example : ∃ tr w, World.Steps (.simple "T") (.start (.simple "T")) tr w ∧
    tr.map Prod.fst = nestedCalls ∧
    (Always (StepOf (World.step (.simple "T"))) (.start (.simple "T"))
        (TagThreadsExact (.simple "T")) tr ↔
      EveryStep (StepOf (World.step (.simple "T"))) (.start (.simple "T"))
        (ExitsOwnTagNode (.simple "T")) tr) := by
  obtain ⟨w, hx, hr⟩ := exists_run_of_outputs (World.step (.simple "T")) (.start (.simple "T"))
    nestedCalls [.passed, .passed, .exited true, .exited true] (by decide)
  exact ⟨_, w, hr, execute_inputs hx, tagThreadsExact_iff (roomForTags_of_length (by decide)) hr⟩

end SentinelCpp
