import SentinelCpp.Param.SharedRules

/-!
# Rules and their metric keys

A rule has four of its settings a second time in its metric key.  The key belongs to all copies of the
rule, while each copy has its own settings, and the cache size starts with another value in the key.  So
the key mirrors a rule exactly when, for each of the four, the value that was last set through any rule
of the family is the one that was last set on the rule itself or on what it was copied from.
-/

namespace SentinelCpp.Param

open SentinelCpp.Lib SentinelCpp.Property

/-- The settings that the metric key repeats. -/
inductive KeyField
  | paramIdx
  | intervalInMs
  | sampleCount
  | cacheSize
  deriving DecidableEq

def ParamFlowSettings.get (s : ParamFlowSettings) : KeyField → ℤ
  | .paramIdx => s.paramIdx
  | .intervalInMs => s.intervalInMs
  | .sampleCount => s.sampleCount
  | .cacheSize => s.cacheSize

def ParamLeapArrayKey.get (k : ParamLeapArrayKey) : KeyField → ℤ
  | .paramIdx => k.paramIdx
  | .intervalInMs => k.intervalInMs
  | .sampleCount => k.sampleCount
  | .cacheSize => k.cacheSize

/-- The key has the settings that the rule's own getters report. -/
def Mirrors (r : ParamFlowRule) : Prop :=
  r.metricKey = ⟨r.paramIdx, r.intervalInMs, r.sampleCount, r.cacheSize⟩

instance (r : ParamFlowRule) : Decidable (Mirrors r) := inferInstanceAs (Decidable (_ = _))

theorem mirrors_iff_get (r : ParamFlowRule) :
    Mirrors r ↔ ∀ f, r.metricKey.get f = r.toParamFlowSettings.get f := by
  constructor
  · intro h f
    rw [h]
    cases f <;> rfl
  · intro h
    have h1 : r.metricKey.paramIdx = r.paramIdx := h .paramIdx
    have h2 : r.metricKey.intervalInMs = r.intervalInMs := h .intervalInMs
    have h3 : r.metricKey.sampleCount = r.sampleCount := h .sampleCount
    have h4 : r.metricKey.cacheSize = r.cacheSize := h .cacheSize
    unfold Mirrors
    rw [← h1, ← h2, ← h3, ← h4]

/-- The value that the setter gives to the field. -/
def RuleSetter.sets : RuleSetter → KeyField → Option ℤ
  | .paramIdx x, .paramIdx => some x
  | .intervalInMs x, .intervalInMs => some x
  | .sampleCount x, .sampleCount => some x
  | .cacheSize x, .cacheSize => some x
  | _, _ => none

/-- A setter sets the field in both places, or in none. -/
theorem RuleSetter.get_apply (c : RuleSetter) (r : ParamFlowRule) (f : KeyField) :
    (c.apply r).toParamFlowSettings.get f = (c.sets f).getD (r.toParamFlowSettings.get f) ∧
      (c.apply r).metricKey.get f = (c.sets f).getD (r.metricKey.get f) := by
  cases c <;> cases f <;> exact ⟨rfl, rfl⟩

/-! ### Histories, the last call first -/

/-- The number of rules made so far; they are numbered in this order. -/
def made : List RuleCall → ℕ
  | [] => 0
  | .construct _ :: past => made past + 1
  | .copy _ :: past => made past + 1
  | _ :: past => made past

/-- The constructed rule that the rule goes back to through copies and assignments: it belongs to the
family of that rule. -/
def origin : List RuleCall → ℕ → ℕ
  | [], i => i
  | .construct _ :: past, i => if i = made past then i else origin past i
  | .copy j :: past, i => if i = made past then origin past j else origin past i
  | .assign i' j :: past, i => if i = i' then origin past j else origin past i
  | _ :: past, i => origin past i

/-- The value last given to the field by a setter called on the rule, or on what it was copied from. -/
def lastOwn (f : KeyField) : List RuleCall → ℕ → Option ℤ
  | [], _ => none
  | .construct _ :: past, i => if i = made past then none else lastOwn f past i
  | .copy j :: past, i => if i = made past then lastOwn f past j else lastOwn f past i
  | .assign i' j :: past, i => if i = i' then lastOwn f past j else lastOwn f past i
  | .set i' c :: past, i => if i = i' then (c.sets f).or (lastOwn f past i) else lastOwn f past i
  | .loadRules _ :: past, i => lastOwn f past i

/-- The value last given to the field by a setter called on any rule of the family. -/
def lastInFamily (f : KeyField) : List RuleCall → ℕ → Option ℤ
  | [], _ => none
  | .set i c :: past, family =>
    if origin past i = family then (c.sets f).or (lastInFamily f past family)
    else lastInFamily f past family
  | _ :: past, family => lastInFamily f past family

/-- For every field, the last value set in the rule's family is the last one set on the rule itself; a
field that was never set counts with its initial value in the key or in the rule. -/
def SetAlike (past : List RuleCall) (i : ℕ) : Prop :=
  ∀ f, (lastInFamily f past (origin past i)).getD (({} : ParamLeapArrayKey).get f) =
    (lastOwn f past i).getD (({} : ParamFlowSettings).get f)

/-! ### What a run leaves in the rules and in the keys -/

/-- The objects are as the history says. -/
structure Follows (past : List RuleCall) (w : RuleWorld) : Prop where
  attached : w.manager.Attached sharedManagerKind
  made : w.objects.length = made past
  origin_lt : ∀ i < Param.made past, origin past i < Param.made past
  pointer : ∀ i o, w.objects[i]? = some o → o.metricKey = origin past i
  own : ∀ i o, w.objects[i]? = some o → ∀ f,
    o.toParamFlowSettings.get f = (lastOwn f past i).getD (({} : ParamFlowSettings).get f)
  unborn : ∀ family, Param.made past ≤ family → ∀ f, lastInFamily f past family = none
  shared : ∀ family f, (w.heap.keys family).get f =
    (lastInFamily f past family).getD (({} : ParamLeapArrayKey).get f)

namespace Follows

variable {past : List RuleCall} {w w' : RuleWorld}

theorem start : Follows [] .start where
  attached := RuleManager.attached_start
  made := rfl
  origin_lt := fun _ h => absurd h (Nat.not_lt_zero _)
  pointer := fun _ _ h => absurd h (by simp [RuleWorld.start])
  own := fun _ _ h => absurd h (by simp [RuleWorld.start])
  unborn := fun _ _ _ => rfl
  shared := fun _ _ => rfl

theorem lt_made (h : Follows past w) {i : ℕ} {o : RuleObject} (ho : w.objects[i]? = some o) :
    i < Param.made past := by
  rw [← h.made]
  exact (List.getElem?_eq_some_iff.mp ho).1

theorem getElem?_concat_eq_some {A : Type} {l : List A} {a b : A} {i : ℕ}
    (h : (l ++ [a])[i]? = some b) : (i < l.length ∧ l[i]? = some b) ∨ (i = l.length ∧ b = a) := by
  rw [List.getElem?_append] at h
  split_ifs at h with hlt
  · exact .inl ⟨hlt, h⟩
  · obtain ⟨hi, heq⟩ := List.getElem?_eq_some_iff.mp h
    rw [List.length_singleton] at hi
    exact .inr ⟨by omega, by simpa using heq.symm⟩

theorem getElem?_set_eq_some {A : Type} {l : List A} {a b : A} {i j : ℕ}
    (h : (l.set j a)[i]? = some b) : (i ≠ j ∧ l[i]? = some b) ∨ (i = j ∧ b = a) := by
  by_cases hij : i = j
  · subst hij
    rw [List.getElem?_set_self'] at h
    obtain ⟨-, -, rfl⟩ := Option.map_eq_some_iff.mp h
    exact .inr ⟨rfl, rfl⟩
  · rw [List.getElem?_set_ne (Ne.symm hij)] at h
    exact .inl ⟨hij, h⟩

theorem construct (h : Follows past w) (resource : String) :
    Follows (.construct resource :: past) (w.construct resource) where
  attached := h.attached
  made := by
    show (w.objects ++ [_]).length = Param.made past + 1
    rw [List.length_append, h.made]
    rfl
  origin_lt := by
    intro i hi
    show (if i = Param.made past then i else origin past i) < Param.made past + 1
    have hi' : i < Param.made past + 1 := hi
    split_ifs with heq
    · exact hi'
    · have hlt := h.origin_lt i (by omega)
      omega
  pointer := by
    intro i o ho
    show o.metricKey = if i = Param.made past then i else origin past i
    rw [← h.made]
    rcases getElem?_concat_eq_some ho with ⟨hlt, ho⟩ | ⟨rfl, rfl⟩
    · rw [if_neg (by omega), h.pointer i o ho]
    · rw [if_pos rfl]
  own := by
    intro i o ho f
    show _ = (if i = Param.made past then none else lastOwn f past i).getD _
    rw [← h.made]
    rcases getElem?_concat_eq_some ho with ⟨hlt, ho⟩ | ⟨rfl, rfl⟩
    · rw [if_neg (by omega), h.own i o ho f]
    · rw [if_pos rfl]
      cases f <;> rfl
  unborn := by
    intro family hle f
    have hle' : Param.made past + 1 ≤ family := hle
    exact h.unborn family (by omega) f
  shared := by
    intro family f
    -- the new key is one that no setter has reached
    show (Function.update w.heap.keys w.objects.length {} family).get f =
      (lastInFamily f past family).getD _
    by_cases heq : family = w.objects.length
    · subst heq
      rw [Function.update_self, h.unborn _ h.made.ge f, Option.getD_none]
    · rw [Function.update_of_ne heq, h.shared]

theorem copy (h : Follows past w) {j : ℕ} {o : RuleObject} (hj : w.objects[j]? = some o) :
    Follows (.copy j :: past) { w with objects := w.objects ++ [o] } where
  attached := h.attached
  made := by
    show (w.objects ++ [o]).length = Param.made past + 1
    rw [List.length_append, h.made]
    rfl
  origin_lt := by
    intro i hi
    show (if i = Param.made past then origin past j else origin past i) < Param.made past + 1
    have hi' : i < Param.made past + 1 := hi
    have hjlt := h.origin_lt j (h.lt_made hj)
    split_ifs with heq
    · omega
    · have hlt := h.origin_lt i (by omega)
      omega
  pointer := by
    intro i o' ho
    show o'.metricKey = if i = Param.made past then origin past j else origin past i
    rw [← h.made]
    rcases getElem?_concat_eq_some ho with ⟨hlt, ho⟩ | ⟨rfl, rfl⟩
    · rw [if_neg (by omega), h.pointer i o' ho]
    · rw [if_pos rfl, h.pointer j o' hj]
  own := by
    intro i o' ho f
    show _ = (if i = Param.made past then lastOwn f past j else lastOwn f past i).getD _
    rw [← h.made]
    rcases getElem?_concat_eq_some ho with ⟨hlt, ho⟩ | ⟨rfl, rfl⟩
    · rw [if_neg (by omega), h.own i o' ho f]
    · rw [if_pos rfl, h.own j o' hj f]
  unborn := by
    intro family hle f
    have hle' : Param.made past + 1 ≤ family := hle
    exact h.unborn family (by omega) f
  shared := h.shared

theorem assign (h : Follows past w) {i' j : ℕ} {o : RuleObject} (hj : w.objects[j]? = some o) :
    Follows (.assign i' j :: past) { w with objects := w.objects.set i' o } where
  attached := h.attached
  made := by
    show (w.objects.set i' o).length = Param.made past
    rw [List.length_set, h.made]
  origin_lt := by
    intro i hi
    show (if i = i' then origin past j else origin past i) < Param.made past
    split_ifs
    · exact h.origin_lt j (h.lt_made hj)
    · exact h.origin_lt i hi
  pointer := by
    intro i o' ho
    show o'.metricKey = if i = i' then origin past j else origin past i
    rcases getElem?_set_eq_some ho with ⟨hne, ho⟩ | ⟨rfl, rfl⟩
    · rw [if_neg hne, h.pointer i o' ho]
    · rw [if_pos rfl, h.pointer j o' hj]
  own := by
    intro i o' ho f
    show _ = (if i = i' then lastOwn f past j else lastOwn f past i).getD _
    rcases getElem?_set_eq_some ho with ⟨hne, ho⟩ | ⟨rfl, rfl⟩
    · rw [if_neg hne, h.own i o' ho f]
    · rw [if_pos rfl, h.own j o' hj f]
  unborn := h.unborn
  shared := h.shared

theorem set (h : Follows past w) {i' : ℕ} {o : RuleObject} (hi' : w.objects[i']? = some o)
    (c : RuleSetter) : Follows (.set i' c :: past) (w.change i' o c.apply) where
  attached := h.attached
  made := by
    show (w.objects.set i' _).length = Param.made past
    rw [List.length_set, h.made]
  origin_lt := h.origin_lt
  pointer := by
    intro i o' ho
    show o'.metricKey = origin past i
    rcases getElem?_set_eq_some ho with ⟨hne, ho⟩ | ⟨rfl, rfl⟩
    · exact h.pointer i o' ho
    · exact h.pointer i o hi'
  own := by
    intro i o' ho f
    show _ = (if i = i' then (c.sets f).or (lastOwn f past i) else lastOwn f past i).getD _
    rcases getElem?_set_eq_some ho with ⟨hne, ho⟩ | ⟨rfl, rfl⟩
    · rw [if_neg hne, h.own i o' ho f]
    · rw [if_pos rfl, Option.getD_or, ← h.own i o hi' f]
      exact (c.get_apply (o.deref w.heap) f).1
  unborn := by
    intro family hle f
    have hlt := h.origin_lt i' (h.lt_made hi')
    have hle' : Param.made past ≤ family := hle
    show (if origin past i' = family then _ else _) = none
    rw [if_neg (by omega), h.unborn family hle' f]
  shared := by
    intro family f
    show (Function.update w.heap.keys o.metricKey (c.apply (o.deref w.heap)).metricKey family).get f =
      (if origin past i' = family then (c.sets f).or (lastInFamily f past family)
        else lastInFamily f past family).getD _
    rw [← h.pointer i' o hi']
    by_cases heq : family = o.metricKey
    · subst heq
      rw [Function.update_self, if_pos rfl, Option.getD_or, ← h.shared]
      exact (c.get_apply (o.deref w.heap) f).2
    · rw [Function.update_of_ne heq, if_neg (Ne.symm heq), h.shared]

theorem loadRules (h : Follows past w) (is : List ℕ) (rules : List RuleObject) :
    Follows (.loadRules is :: past) (w.loadRules rules) where
  attached := h.attached.updateValue _ _
  made := h.made
  origin_lt := h.origin_lt
  pointer := h.pointer
  own := h.own
  unborn := h.unborn
  shared := by
    intro family f
    rw [RuleWorld.keys_loadRules h.attached]
    exact h.shared family f

/-- **One call.** -/
theorem step (h : Follows past w) {c : RuleCall} (hs : w.Steps c w') : Follows (c :: past) w' := by
  cases c with
  | construct resource =>
    obtain rfl := RuleWorld.steps_construct hs
    exact h.construct resource
  | copy i =>
    obtain ⟨o, ho, rfl⟩ := RuleWorld.steps_copy hs
    exact h.copy ho
  | assign i j =>
    obtain ⟨o, ho, rfl⟩ := RuleWorld.steps_assign hs
    exact h.assign ho
  | set i setter =>
    obtain ⟨o, ho, rfl⟩ := RuleWorld.steps_set hs
    exact h.set ho setter
  | loadRules is =>
    obtain ⟨rules, -, rfl⟩ := RuleWorld.steps_loadRules hs
    exact h.loadRules is rules

theorem run {calls : List RuleCall} (hrun : Run RuleWorld.Steps .start calls w) :
    Follows calls.reverse w := by
  induction hrun with
  | nil => exact .start
  | snoc _ hs ih =>
    rw [List.reverse_concat]
    exact ih.step hs

end Follows

/-- **When the key mirrors the rule.**  After any calls that make, copy, assign, change and load rules:
exactly when the four settings were last set alike in the rule's family and on the rule. -/
theorem mirrors_iff_setAlike {calls : List RuleCall} {w : RuleWorld}
    (hrun : Run RuleWorld.Steps .start calls w) {i : ℕ} {o : RuleObject}
    (ho : w.objects[i]? = some o) : Mirrors (o.deref w.heap) ↔ SetAlike calls.reverse i := by
  have h := Follows.run hrun
  rw [mirrors_iff_get]
  refine forall_congr' fun f => ?_
  show (w.heap.keys o.metricKey).get f = o.toParamFlowSettings.get f ↔ _
  rw [h.shared, h.own i o ho, h.pointer i o ho]

/-- A rule is copied, and the cache size of the copy is set: the key that both share mirrors the copy and
not the rule. -/
theorem mirrors_iff_setAlike_copiedRule : ∃ w o o',
    Run RuleWorld.Steps .start [.construct "r", .copy 0, .set 1 (.cacheSize 50)] w ∧
      w.objects[0]? = some o ∧ w.objects[1]? = some o' ∧ ¬ Mirrors (o.deref w.heap) ∧
        Mirrors (o'.deref w.heap) := by
  have hrun : (([.construct "r", .copy 0, .set 1 (.cacheSize 50)] : List RuleCall).foldlM RuleWorld.step
      .start).map (fun w => w.objects.length) = some 2 := by decide
  obtain ⟨w, hw, hlength⟩ := Option.map_eq_some_iff.mp hrun
  have hr : Run RuleWorld.Steps .start [.construct "r", .copy 0, .set 1 (.cacheSize 50)] w := run_of_foldlM hw
  obtain ⟨o, ho⟩ : ∃ o, w.objects[0]? = some o := ⟨_, List.getElem?_eq_getElem (by omega)⟩
  obtain ⟨o', ho'⟩ : ∃ o, w.objects[1]? = some o := ⟨_, List.getElem?_eq_getElem (by omega)⟩
  refine ⟨w, o, o', hr, ho, ho', ?_, ?_⟩
  · rw [mirrors_iff_setAlike hr ho]
    exact fun h => absurd (h .cacheSize) (by decide)
  · rw [mirrors_iff_setAlike hr ho']
    intro f
    cases f <;> rfl

/-- A rule that has just been constructed reports a cache size of 200, and its key one of 0. -/
theorem not_mirrors_constructed : ∃ w o, Run RuleWorld.Steps .start [.construct "r"] w ∧
    w.objects[0]? = some o ∧ o.cacheSize = 200 ∧ (o.deref w.heap).metricKey.cacheSize = 0 ∧
      ¬ Mirrors (o.deref w.heap) := by
  have hrun : Run RuleWorld.Steps .start ([] ++ [.construct "r"]) (RuleWorld.start.construct "r") :=
    Run.nil.snoc rfl
  exact ⟨_, _, hrun, rfl, rfl, rfl, by decide⟩

end SentinelCpp.Param
