import SentinelCpp.Param.Metric
import SentinelCpp.Param.SharedRules

/-!
# The exception items of loaded rules

`FillExceptionFlowItems` inserts the items of a rule into a map that the rule shares with every copy it
comes from, with the copies loaded before, and with those of the same list.  Nothing is ever removed and
the first item of a value stays.  So a loaded rule uses its own items exactly when, in each load that
takes effect, the items that the rules of its family have put into the map give every value the
threshold that its own list gives it.
-/

namespace SentinelCpp.Param

open SentinelCpp.Lib SentinelCpp.Property

/-! ### Filling the map -/

/-- The values of the items with their thresholds. -/
def itemsOf (list : List ParamFlowItem) : HotItemsMap :=
  list.filterMap fun item => item.paramValue.map fun v => (v, item.threshold)

namespace ParamFlowRule

theorem findHotItem_append (items items' : HotItemsMap) (v : AnyVal) :
    findHotItem (items ++ items') v = (findHotItem items v).or (findHotItem items' v) := by
  unfold findHotItem
  rw [List.find?_append]
  cases items.find? fun p => p.1.equal v <;> rfl

theorem findHotItem_eq_none {items : HotItemsMap} {v : AnyVal} :
    findHotItem items v = none ↔ ∀ p ∈ items, p.1.equal v = false := by
  unfold findHotItem
  rw [Option.map_eq_none_iff, List.find?_eq_none]
  simp

/-- A value that is found stands in the map. -/
theorem mem_of_findHotItem {items : HotItemsMap} {v : AnyVal} {x : ℚ} (h : findHotItem items v = some x) :
    ∃ p ∈ items, p.1 = v := by
  obtain ⟨p, hp, -⟩ := Option.map_eq_some_iff.mp h
  have heq : p.1.equal v = true := by simpa using List.find?_some hp
  exact ⟨p, List.mem_of_find?_eq_some hp, (AnyVal.equal_iff.mp heq).1⟩

/-- **Filling** appends the items as far as lookups can tell. -/
theorem findHotItem_fillExceptionFlowItems (r : ParamFlowRule) (v : AnyVal) :
    findHotItem r.fillExceptionFlowItems.parsedHotItems v =
      findHotItem (r.parsedHotItems ++ itemsOf r.specificItemList) v := by
  unfold fillExceptionFlowItems
  dsimp only
  generalize r.parsedHotItems = items
  induction r.specificItemList generalizing items with
  | nil => rw [List.foldl_nil, itemsOf, List.filterMap_nil, List.append_nil]
  | cons item list ih =>
    rw [List.foldl_cons, ih]
    cases hvalue : item.paramValue with
    | none =>
      have hskip : itemsOf (item :: list) = itemsOf list := by
        rw [itemsOf, List.filterMap_cons_none (by rw [hvalue]; rfl), itemsOf]
      rw [hskip]
    | some w =>
      have hitem : itemsOf (item :: list) = (w, item.threshold) :: itemsOf list := by
        rw [itemsOf, List.filterMap_cons_some (b := (w, item.threshold)) (by rw [hvalue]; rfl), itemsOf]
      rw [hitem]
      dsimp only
      cases hfound : findHotItem items w with
      | none => rw [List.append_assoc, List.singleton_append]
      | some x =>
        -- the item is not inserted: its value is found before it anyway
        dsimp only
        rw [findHotItem_append, findHotItem_append, ← List.singleton_append, findHotItem_append]
        by_cases heq : w.equal v = true
        · obtain rfl := (AnyVal.equal_iff.mp heq).1
          rw [hfound, Option.some_or, Option.some_or]
        · have hnone : findHotItem [(w, item.threshold)] v = none :=
            findHotItem_eq_none.mpr fun p hp => by
              rw [List.mem_singleton.mp hp]
              simpa using heq
          rw [hnone, Option.none_or]

end ParamFlowRule

open ParamFlowRule

/-- The items that the map of a pointer has after the rules have filled theirs: what it had before, and
the items of the rules with this pointer, in order. -/
def merged (h : RuleHeap) (rules : List RuleObject) (pointer : ℕ) : HotItemsMap :=
  h.hotItems pointer ++
    (rules.filter fun rule => rule.parsedHotItems = pointer).flatMap fun rule =>
      itemsOf rule.specificItemList

theorem findHotItem_foldl_fill (h : RuleHeap) (rules : List RuleObject) (pointer : ℕ) (v : AnyVal) :
    findHotItem ((rules.foldl RuleHeap.fillExceptionFlowItems h).hotItems pointer) v =
      findHotItem (merged h rules pointer) v := by
  induction rules generalizing h with
  | nil => rw [List.foldl_nil, merged, List.filter_nil, List.flatMap_nil, List.append_nil]
  | cons rule rules ih =>
    rw [List.foldl_cons, ih]
    unfold merged
    rw [findHotItem_append]
    show (findHotItem (Function.update h.hotItems rule.parsedHotItems
      (rule.deref h).fillExceptionFlowItems.parsedHotItems pointer) v).or _ = _
    by_cases heq : rule.parsedHotItems = pointer
    · subst heq
      rw [Function.update_self, findHotItem_fillExceptionFlowItems,
        List.filter_cons_of_pos (by simp), List.flatMap_cons, ← List.append_assoc,
        ← findHotItem_append]
      rfl
    · rw [Function.update_of_ne (Ne.symm heq), List.filter_cons_of_neg (by simpa using heq),
        ← findHotItem_append]

/-! ### Loaded rules -/

/-- The threshold for a value among the items, or the rule's own. -/
def thresholdAmong (items : HotItemsMap) (rule : RuleObject) (v : AnyVal) : ℤ :=
  truncate ((findHotItem items v).getD rule.threshold)

/-- What the check of a rule compares with. -/
theorem thresholdFor_deref (o : RuleObject) (h : RuleHeap) (v : AnyVal) :
    thresholdFor (o.deref h) v = thresholdAmong (h.hotItems o.parsedHotItems) o v := by
  unfold thresholdFor thresholdAmong
  have hitems : (o.deref h).parsedHotItems = h.hotItems o.parsedHotItems := rfl
  rw [hitems]
  cases findHotItem (h.hotItems o.parsedHotItems) v <;> rfl

/-- Every loaded rule gives every value the threshold of the first item with this value in the list it
was loaded with, or else its own. -/
def ItemsAsLoaded (w : RuleWorld) : Prop :=
  ∀ resource, ∀ p ∈ w.ruleOfResource resource, ∀ v,
    thresholdFor (p.deref w.heap) v = thresholdAmong (itemsOf p.specificItemList) p v

/-- The map of the rule, once the valid rules have filled it, has no item that changes a threshold. -/
def FilledAlike (h : RuleHeap) (rules : List RuleObject) : Prop :=
  ∀ r ∈ rules.filter RuleObject.isValid,
    ∀ q ∈ merged h (rules.filter RuleObject.isValid) r.parsedHotItems,
      thresholdAmong (merged h (rules.filter RuleObject.isValid) r.parsedHotItems) r q.1 =
        thresholdAmong (itemsOf r.specificItemList) r q.1

instance (h : RuleHeap) (rules : List RuleObject) : Decidable (FilledAlike h rules) :=
  inferInstanceAs (Decidable (∀ r ∈ rules.filter RuleObject.isValid, ∀ q ∈ _, _))

/-- The condition on a call: a list that is loaded and takes effect is filled alike. -/
def LoadsAlike (w : RuleWorld) : RuleCall → Prop
  | .loadRules is =>
    ∀ rules ∈ is.mapM fun i => w.objects[i]?, w.TakesEffect rules → FilledAlike w.heap rules
  | _ => True

instance (w : RuleWorld) (c : RuleCall) : Decidable (LoadsAlike w c) :=
  match c with
  | .loadRules is => inferInstanceAs (Decidable
      (∀ rules ∈ is.mapM fun i => w.objects[i]?, w.TakesEffect rules → FilledAlike w.heap rules))
  | .construct _ => isTrue trivial
  | .copy _ => isTrue trivial
  | .assign _ _ => isTrue trivial
  | .set _ _ => isTrue trivial

theorem filledAlike_iff (h : RuleHeap) (rules : List RuleObject) :
    FilledAlike h rules ↔ ∀ r ∈ rules.filter RuleObject.isValid, ∀ v,
      thresholdAmong (merged h (rules.filter RuleObject.isValid) r.parsedHotItems) r v =
        thresholdAmong (itemsOf r.specificItemList) r v := by
  constructor
  · intro hfilled r hr v
    cases hfound : findHotItem (merged h (rules.filter RuleObject.isValid) r.parsedHotItems) v with
    | some x =>
      obtain ⟨q, hq, rfl⟩ := mem_of_findHotItem hfound
      exact hfilled r hr q hq
    | none =>
      -- the rule's own items are among those of the map
      have hown : findHotItem (itemsOf r.specificItemList) v = none := by
        rw [findHotItem_eq_none] at hfound ⊢
        intro p hp
        refine hfound p (List.mem_append_right _ (List.mem_flatMap.mpr ⟨r, ?_, hp⟩))
        exact List.mem_filter.mpr ⟨hr, decide_eq_true rfl⟩
      rw [thresholdAmong, thresholdAmong, hfound, hown]
  · intro hall r hr q _
    exact hall r hr q.1

/-- The rules that a load puts in place. -/
theorem mem_ruleOfResource_configUpdate (m : LoadedRules) (rules : List RuleObject) (resource : String)
    (p : RuleObject) :
    p ∈ (((m.configUpdate rules).ruleMap.getD []).find? resource).getD [] ↔
      p ∈ rules.filter RuleObject.isValid ∧ p.resource = resource := by
  unfold LoadedRules.configUpdate
  rw [RuleHeap.aggregatedHotParamRules_eq, Option.getD_some, Assoc.find?_groupBy]
  split_ifs with hnil
  · rw [Option.getD_none]
    constructor
    · exact fun h => absurd h List.not_mem_nil
    · rintro ⟨hp, hres⟩
      have hmem : p ∈ (rules.filter RuleObject.isValid).filter fun a => a.resource = resource :=
        List.mem_filter.mpr ⟨hp, decide_eq_true hres⟩
      rw [hnil] at hmem
      exact absurd hmem List.not_mem_nil
  · rw [Option.getD_some, List.mem_filter, decide_eq_true_eq]

/-- **A load that takes effect**: the loaded rules use their items exactly when they are filled alike. -/
theorem itemsAsLoaded_loadRules_iff {w : RuleWorld} (hA : w.manager.Attached sharedManagerKind)
    {rules : List RuleObject} (heff : w.TakesEffect rules) :
    ItemsAsLoaded (w.loadRules rules) ↔ FilledAlike w.heap rules := by
  have hmaps := RuleWorld.maps_loadRules hA heff
  have hheap : ∀ pointer v, findHotItem ((w.loadRules rules).heap.hotItems pointer) v =
      findHotItem (merged w.heap (rules.filter RuleObject.isValid) pointer) v := by
    intro pointer v
    unfold RuleWorld.heap
    rw [hmaps]
    unfold LoadedRules.configUpdate
    rw [RuleHeap.aggregatedHotParamRules_eq]
    exact findHotItem_foldl_fill _ _ pointer v
  have hthreshold : ∀ (p : RuleObject) v, thresholdFor (p.deref (w.loadRules rules).heap) v =
      thresholdAmong (merged w.heap (rules.filter RuleObject.isValid) p.parsedHotItems) p v := by
    intro p v
    rw [thresholdFor_deref, thresholdAmong, thresholdAmong, hheap]
  rw [filledAlike_iff]
  unfold ItemsAsLoaded RuleWorld.ruleOfResource
  simp only [hmaps, mem_ruleOfResource_configUpdate, hthreshold]
  constructor
  · intro h r hr v
    exact h r.resource r ⟨hr, rfl⟩ v
  · rintro h resource p ⟨hp, -⟩ v
    exact h p hp v

/-! ### Runs -/

theorem mem_of_mapM_getElem? {A : Type} {l rules : List A} {is : List ℕ}
    (h : (is.mapM fun i => l[i]?) = some rules) {o : A} (ho : o ∈ rules) : o ∈ l := by
  induction is generalizing rules with
  | nil =>
    obtain rfl : [] = rules := Option.some.inj h
    exact absurd ho List.not_mem_nil
  | cons i is ih =>
    rw [List.mapM_cons] at h
    obtain ⟨a, ha, h⟩ := Option.bind_eq_some_iff.mp h
    obtain ⟨as, has, h⟩ := Option.bind_eq_some_iff.mp h
    obtain rfl : a :: as = rules := Option.some.inj h
    rcases List.mem_cons.mp ho with rfl | ho
    · exact List.mem_of_getElem? ha
    · exact ih has ho

/-- The pointers of all rules have been given out. -/
structure PointersMade (w : RuleWorld) : Prop where
  attached : w.manager.Attached sharedManagerKind
  objects : ∀ o ∈ w.objects, o.parsedHotItems < w.objects.length
  loaded : ∀ resource, ∀ p ∈ w.ruleOfResource resource, p.parsedHotItems < w.objects.length

namespace PointersMade

variable {w w' : RuleWorld} {c : RuleCall}

theorem start : PointersMade .start where
  attached := RuleManager.attached_start
  objects := fun _ h => absurd h List.not_mem_nil
  loaded := fun _ _ h => absurd h List.not_mem_nil

/-- The pointers stay made when the objects get new ones only with the objects that own them. -/
theorem of_objects (h : PointersMade w) (hA : w'.manager.Attached sharedManagerKind)
    (hlen : w.objects.length ≤ w'.objects.length)
    (hobjects : ∀ o ∈ w'.objects, o ∈ w.objects ∨ o.parsedHotItems < w'.objects.length)
    (hloaded : ∀ resource, ∀ p ∈ w'.ruleOfResource resource,
      p ∈ w.ruleOfResource resource ∨ p ∈ w.objects) : PointersMade w' := by
  refine ⟨hA, fun o ho => ?_, fun resource p hp => ?_⟩
  · rcases hobjects o ho with ho | hlt
    · have hlt := h.objects o ho
      omega
    · exact hlt
  · rcases hloaded resource p hp with hp | hp
    · have hlt := h.loaded resource p hp
      omega
    · have hlt := h.objects p hp
      omega

theorem step (h : PointersMade w) (hs : w.Steps c w') : PointersMade w' := by
  have hA := hs.attached h.attached
  cases c with
  | construct resource =>
    obtain rfl := RuleWorld.steps_construct hs
    have hlen : (w.construct resource).objects.length = w.objects.length + 1 := List.length_append
    refine h.of_objects hA ((Nat.le_succ _).trans hlen.ge) (fun o ho => ?_) fun _ _ => .inl
    rcases List.mem_append.mp ho with ho | ho
    · exact .inl ho
    · -- the new object has the new pointer
      rw [List.mem_singleton.mp ho]
      exact .inr (lt_of_lt_of_eq (Nat.lt_succ_self w.objects.length) hlen.symm)
  | copy i =>
    obtain ⟨o, ho, rfl⟩ := RuleWorld.steps_copy hs
    have hlen : (w.objects ++ [o]).length = w.objects.length + 1 := List.length_append
    refine h.of_objects hA ((Nat.le_succ _).trans hlen.ge) (fun o' ho' => .inl ?_) fun _ _ => .inl
    rcases List.mem_append.mp ho' with ho' | ho'
    · exact ho'
    · rw [List.mem_singleton.mp ho']
      exact List.mem_of_getElem? ho
  | assign i j =>
    obtain ⟨o, ho, rfl⟩ := RuleWorld.steps_assign hs
    have hlen : (w.objects.set i o).length = w.objects.length := List.length_set
    refine h.of_objects hA hlen.ge (fun o' ho' => .inl ?_) fun _ _ => .inl
    rcases List.mem_or_eq_of_mem_set ho' with ho' | rfl
    · exact ho'
    · exact List.mem_of_getElem? ho
  | set i setter =>
    obtain ⟨o, ho, rfl⟩ := RuleWorld.steps_set hs
    have hlen : (w.change i o setter.apply).objects.length = w.objects.length := List.length_set
    refine h.of_objects hA hlen.ge (fun o' ho' => ?_) fun _ _ => .inl
    rcases List.mem_or_eq_of_mem_set ho' with ho' | rfl
    · exact .inl ho'
    · right
      rw [hlen]
      exact h.objects o (List.mem_of_getElem? ho)
  | loadRules is =>
    obtain ⟨rules, hrules, rfl⟩ := RuleWorld.steps_loadRules hs
    refine h.of_objects hA le_rfl (fun _ => .inl) fun resource p hp => ?_
    by_cases heff : w.TakesEffect rules
    · unfold RuleWorld.ruleOfResource at hp
      rw [RuleWorld.maps_loadRules h.attached heff, mem_ruleOfResource_configUpdate] at hp
      exact .inr (mem_of_mapM_getElem? hrules (List.mem_of_mem_filter hp.1))
    · rw [RuleWorld.loadRules_of_same heff] at hp
      exact .inl hp

end PointersMade

/-- The same rules with the same items. -/
theorem ItemsAsLoaded.congr {w w' : RuleWorld} (h : ItemsAsLoaded w)
    (hrules : ∀ resource, w'.ruleOfResource resource = w.ruleOfResource resource)
    (hitems : ∀ resource, ∀ p ∈ w.ruleOfResource resource,
      w'.heap.hotItems p.parsedHotItems = w.heap.hotItems p.parsedHotItems) : ItemsAsLoaded w' := by
  intro resource p hp v
  rw [hrules] at hp
  rw [thresholdFor_deref, hitems resource p hp, ← thresholdFor_deref]
  exact h resource p hp v

/-- No setter touches the parsed items. -/
theorem RuleSetter.parsedHotItems_apply (c : RuleSetter) (r : ParamFlowRule) :
    (c.apply r).parsedHotItems = r.parsedHotItems := by
  cases c <;> rfl

/-- **One call.** -/
theorem itemsAsLoaded_step_iff {w w' : RuleWorld} {c : RuleCall} (hmade : PointersMade w)
    (h : ItemsAsLoaded w) (hs : w.Steps c w') : ItemsAsLoaded w' ↔ LoadsAlike w c := by
  cases c with
  | construct resource =>
    obtain rfl := RuleWorld.steps_construct hs
    refine iff_of_true (h.congr (fun _ => rfl) fun resource' p hp => ?_) trivial
    -- the new map is not the one of a loaded rule
    have hlt := hmade.loaded resource' p hp
    exact Function.update_of_ne hlt.ne _ _
  | copy i =>
    obtain ⟨o, -, rfl⟩ := RuleWorld.steps_copy hs
    exact iff_of_true (h.congr (fun _ => rfl) fun _ _ _ => rfl) trivial
  | assign i j =>
    obtain ⟨o, -, rfl⟩ := RuleWorld.steps_assign hs
    exact iff_of_true (h.congr (fun _ => rfl) fun _ _ _ => rfl) trivial
  | set i setter =>
    obtain ⟨o, -, rfl⟩ := RuleWorld.steps_set hs
    refine iff_of_true (h.congr (fun _ => rfl) fun _ p _ => ?_) trivial
    show Function.update w.heap.hotItems o.parsedHotItems
      (setter.apply (o.deref w.heap)).parsedHotItems p.parsedHotItems = _
    rw [setter.parsedHotItems_apply]
    exact congrFun (Function.update_eq_self _ _) _
  | loadRules is =>
    obtain ⟨rules, hrules, rfl⟩ := RuleWorld.steps_loadRules hs
    have hcondition : LoadsAlike w (.loadRules is) ↔ (w.TakesEffect rules → FilledAlike w.heap rules) := by
      show (∀ r ∈ is.mapM fun i => w.objects[i]?, _) ↔ _
      rw [hrules]
      simp
    rw [hcondition]
    by_cases heff : w.TakesEffect rules
    · rw [itemsAsLoaded_loadRules_iff hmade.attached heff]
      exact ⟨fun hf _ => hf, fun hf => hf heff⟩
    · rw [RuleWorld.loadRules_of_same heff]
      exact iff_of_true h fun heff' => absurd heff' heff

/-- **When loaded rules keep their items.**  In every run of calls that make, copy, assign, change and
load rules: throughout it exactly when each list that is loaded and takes effect is filled alike. -/
theorem always_itemsAsLoaded_iff {calls : List RuleCall} {w : RuleWorld}
    (hrun : Run RuleWorld.Steps .start calls w) :
    Always RuleWorld.Steps .start ItemsAsLoaded calls ↔
      EveryStep RuleWorld.Steps .start LoadsAlike calls := by
  have hmade : ∀ {calls w}, Run RuleWorld.Steps .start calls w → PointersMade w := by
    intro calls w hr
    induction hr with
    | nil => exact .start
    | snoc _ hs ih => exact ih.step hs
  have hstart : ItemsAsLoaded .start := fun _ _ hp => absurd hp List.not_mem_nil
  refine always_iff_everyStep RuleWorld.steps_det hstart (fun _ w c w' _ hr h hs => ?_) hrun
  exact itemsAsLoaded_step_iff (hmade hr) h hs

/-- An item for the integer 7. -/
def itemForSeven (threshold : ℚ) : ParamFlowItem := ⟨.kInt32, some (.int32 7), threshold⟩

/-- A rule with an item is loaded. -/
def loadOnce : List RuleCall :=
  [.construct "r", .set 0 (.paramIdx 0), .set 0 (.paramFlowItemList [itemForSeven 5]), .loadRules [0]]

/-- Then it gets another item for the same value and is loaded again. -/
def loadAgain : List RuleCall :=
  loadOnce ++ [.set 0 (.paramFlowItemList [itemForSeven 9]), .loadRules [0]]

/-- The thresholds for 7 of the rules loaded for `r`: the one used and the one of the rule's list. -/
def thresholdsForSeven (w : RuleWorld) : List (ℤ × ℤ) :=
  (w.ruleOfResource "r").map fun p =>
    (thresholdFor (p.deref w.heap) (.int32 7), thresholdAmong (itemsOf p.specificItemList) p (.int32 7))

theorem thresholdsForSeven_loadAgain :
    (loadAgain.foldlM RuleWorld.step .start).map thresholdsForSeven = some [(5, 9)] := by
  decide

/-- Another rule is made, with an item of its own for the same value, and is loaded in place of the first. -/
def loadOther : List RuleCall :=
  loadOnce ++ [.construct "r", .set 1 (.paramIdx 0), .set 1 (.paramFlowItemList [itemForSeven 9]),
    .loadRules [1]]

theorem always_itemsAsLoaded_iff_loadOther : ∃ w, Run RuleWorld.Steps .start loadOther w ∧
    Always RuleWorld.Steps .start ItemsAsLoaded loadOther ∧ thresholdsForSeven w = [(9, 9)] := by
  have hrun : (loadOther.foldlM RuleWorld.step .start).map thresholdsForSeven = some [(9, 9)] := by
    decide
  obtain ⟨w, hw, hthresholds⟩ := Option.map_eq_some_iff.mp hrun
  have hr : Run RuleWorld.Steps .start loadOther w := run_of_foldlM hw
  have hpasses : passes RuleWorld.step (fun w c => decide (LoadsAlike w c)) .start loadOther = true := by
    decide
  have hevery : EveryStep RuleWorld.Steps .start LoadsAlike loadOther := fun tr₁ s₁ a hp hr₁ =>
    of_decide_eq_true (everyStep_of_passes hpasses tr₁ s₁ a hp hr₁)
  exact ⟨w, hr, (always_itemsAsLoaded_iff hr).mpr hevery, hthresholds⟩

/-- The second load leaves the first item of 7 in place: the loaded rule has 9 in its list and uses 5. -/
theorem not_itemsAsLoaded_loadAgain : ∃ w, Run RuleWorld.Steps .start loadAgain w ∧
    ¬ ItemsAsLoaded w ∧ ¬ Always RuleWorld.Steps .start ItemsAsLoaded loadAgain := by
  obtain ⟨w, hw, hthresholds⟩ := Option.map_eq_some_iff.mp thresholdsForSeven_loadAgain
  have hrun : Run RuleWorld.Steps .start loadAgain w := run_of_foldlM hw
  have hnot : ¬ ItemsAsLoaded w := by
    intro h
    have hmem : ((5, 9) : ℤ × ℤ) ∈ thresholdsForSeven w := by
      rw [hthresholds]
      exact List.mem_singleton_self _
    obtain ⟨p, hp, heq⟩ := List.mem_map.mp hmem
    have h59 := (Prod.mk.inj heq).1.symm.trans ((h "r" p hp _).trans (Prod.mk.inj heq).2)
    omega
  exact ⟨w, hrun, hnot, fun hall => hnot (hall loadAgain w (List.prefix_refl _) hrun)⟩

end SentinelCpp.Param
