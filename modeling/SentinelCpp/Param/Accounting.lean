import Mathlib.Data.List.TakeWhile
import SentinelCpp.Param.Accepted
import SentinelCpp.Param.QpsLimit
import SentinelCpp.Param.SharedMetric

/-!
# What a metric has counted

The metric of a resource under any calls that register keys, add to the arguments' counters and read
them.  As long as no cache evicts a counter, every read returns the total of the additions since the key
was first registered that lie in its window, wrapped to an `int`: a second registration changes nothing,
and a call counts in every array of its positions (`getInterval_eq_total`).
-/

namespace SentinelCpp.Param

open SentinelCpp.Lib SentinelCpp.Stat

/-! ### Calls on a metric -/

/-- The argument at a position. -/
def argumentAt (params : List AnyVal) (paramIdx : ℤ) : Option AnyVal :=
  if paramIdx < 0 then none else params[paramIdx.toNat]?

/-- `add` is `AddPass` or `AddBlock`, `getInterval` is `PassInterval` or `BlockInterval`. -/
inductive MetricCall
  | initializeForRule (k : ParamLeapArrayKey)
  | add (e : ParamMetricEvent) (time : ℕ) (count : ℤ) (params : List AnyVal)
  | getInterval (e : ParamMetricEvent) (time : ℕ) (k : ParamLeapArrayKey) (param : AnyVal)
  deriving DecidableEq

structure MetricState where
  metric : SharedMetric
  now : ℕ

/-- A call at a time not before the last one, and the count it returns. -/
def metricStep (env : CacheEnv) (s : MetricState) : MetricCall → Option (MetricState × Option ℤ)
  | .initializeForRule k => some (⟨s.metric.initializeForRule env k, s.now⟩, none)
  | .add e t count params =>
    if s.now ≤ t then some (⟨s.metric.add t e count params, t⟩, none) else none
  | .getInterval e t k param =>
    if s.now ≤ t then
      let r := s.metric.getInterval t k e param
      some (⟨r.1, t⟩, some r.2)
    else none

/-- Where the call adds to a counter, its cache evicts no other. -/
def EvictsNothing (s : MetricState) (a : MetricCall × Option ℤ) : Prop :=
  match a.1 with
  | .add e t count params =>
    ∀ p ∈ s.metric.view.rollingParams, ∀ v ∈ argumentAt params p.1.paramIdx,
      ∀ b ∈ p.2.currentValue? t, (b.counters e).KeepsCounters v count
  | _ => True

def Registered (k : ParamLeapArrayKey) (tr : List (MetricCall × Option ℤ)) : Prop :=
  ∃ o, (MetricCall.initializeForRule k, o) ∈ tr

/-- What the call adds for the event at the position of the key. -/
def added (k : ParamLeapArrayKey) (e : ParamMetricEvent) (a : MetricCall × Option ℤ) :
    Option (ℕ × AnyVal × ℤ) :=
  match a.1 with
  | .add e' t count params =>
    if e' = e then (argumentAt params k.paramIdx).map fun v => (t, v, count) else none
  | _ => none

/-- What was added since the key was first registered. -/
def addedSince (k : ParamLeapArrayKey) (e : ParamMetricEvent) (tr : List (MetricCall × Option ℤ)) :
    Hist (AnyVal × ℤ) :=
  (tr.dropWhile fun a => a.1 ≠ .initializeForRule k).filterMap (added k e)

/-- The length of the buckets of the key's array. -/
def ParamLeapArrayKey.bucketMs (k : ParamLeapArrayKey) : ℕ := k.intervalInMs.toNat / k.sampleCount.toNat

section History

variable {k : ParamLeapArrayKey} {e : ParamMetricEvent} {tr : List (MetricCall × Option ℤ)}
  {a : MetricCall × Option ℤ}

theorem registered_concat :
    Registered k (tr ++ [a]) ↔ Registered k tr ∨ a.1 = .initializeForRule k := by
  unfold Registered
  constructor
  · rintro ⟨o, ho⟩
    rcases List.mem_append.mp ho with ho | ho
    · exact .inl ⟨o, ho⟩
    · rw [← List.mem_singleton.mp ho]
      exact .inr rfl
  · rintro (⟨o, ho⟩ | ha)
    · exact ⟨o, List.mem_append_left _ ho⟩
    · exact ⟨a.2, by rw [← ha]; simp⟩

theorem addedSince_concat (h : Registered k tr) (e : ParamMetricEvent) (a : MetricCall × Option ℤ) :
    addedSince k e (tr ++ [a]) = addedSince k e tr ++ (added k e a).toList := by
  obtain ⟨o, ho⟩ := h
  have hne : (tr.dropWhile fun a => a.1 ≠ .initializeForRule k).isEmpty = false := by
    rw [List.isEmpty_eq_false_iff, Ne, List.dropWhile_eq_nil_iff]
    intro hall
    exact absurd (hall _ ho) (by simp)
  rw [addedSince, List.dropWhile_append, hne, if_neg Bool.false_ne_true, List.filterMap_append,
    ← addedSince]
  cases hadded : added k e a <;> simp [hadded]

/-- The first registration starts an empty history. -/
theorem addedSince_first (h : ¬ Registered k tr) (e : ParamMetricEvent) (o : Option ℤ) :
    addedSince k e (tr ++ [(.initializeForRule k, o)]) = [] := by
  have hall : (tr.dropWhile fun a => a.1 ≠ .initializeForRule k) = [] := by
    rw [List.dropWhile_eq_nil_iff]
    intro a ha
    refine decide_eq_true fun heq => h ⟨a.2, ?_⟩
    rw [← heq]
    exact ha
  rw [addedSince, List.dropWhile_append, hall, List.isEmpty_nil, if_pos rfl,
    List.dropWhile_cons_of_neg (by simp)]
  rfl

end History

/-! ### One array -/

/-- The bucket's counter of the value is its total, wrapped. -/
def CountOf (e : ParamMetricEvent) (v : AnyVal) (b : ParamBucket) (es : List (AnyVal × ℤ)) : Prop :=
  b.count e v = toInt32 (totalOf v es)

theorem ParamBucket.add_count_self {b : ParamBucket} {e : ParamMetricEvent} {count : ℤ} {v w : AnyVal}
    (hkeep : (b.counters e).KeepsCounters w count) (hv : v.supported = true) :
    (b.add e count w).count e v = if w = v then toInt32 (b.count e v + count) else b.count e v := by
  unfold ParamBucket.add ParamBucket.count
  dsimp only
  rw [Function.update_self]
  exact hkeep.increase_count hv

theorem ParamBucket.add_count_of_ne {e e' : ParamMetricEvent} (he : e ≠ e') (b : ParamBucket) (count : ℤ)
    (v w : AnyVal) : (b.add e' count w).count e v = b.count e v := by
  unfold ParamBucket.add ParamBucket.count
  dsimp only
  rw [Function.update_of_ne he]

/-- The array of the key has counted for the value exactly the additions `h`. -/
structure CountsArray (k : ParamLeapArrayKey) (e : ParamMetricEvent) (v : AnyVal) (a : ParamLeapArray)
    (h : Hist (AnyVal × ℤ)) (now : ℕ) : Prop where
  count : a.sampleCount = k.sampleCount.toNat
  interval : a.intervalMs = k.intervalInMs.toNat
  fresh : CountOf e v a.newEmptyBucket []
  stands : a.Stands (CountOf e v) h now

namespace CountsArray

variable {k : ParamLeapArrayKey} {e : ParamMetricEvent} {v : AnyVal} {a : ParamLeapArray}
  {h : Hist (AnyVal × ℤ)} {now t : ℕ}

theorem reset_nil (b : ParamBucket) (es : List (AnyVal × ℤ)) (_ : CountOf e v b es) :
    CountOf e v (Resettable.reset b) [] := rfl

theorem arrayFor (env : CacheEnv) (k : ParamLeapArrayKey) (e : ParamMetricEvent) (v : AnyVal) (now : ℕ) :
    CountsArray k e v (Param.arrayFor env k) [] now :=
  ⟨rfl, rfl, rfl, LeapArray.stands_mk' _ _ _⟩

theorem bucketLengthMs (ha : CountsArray k e v a h now) : a.bucketLengthMs = k.bucketMs := by
  rw [LeapArray.bucketLengthMs, ha.count, ha.interval, ParamLeapArrayKey.bucketMs]

theorem wellFormed (hk : DividesEvenly k) (ha : CountsArray k e v a h now) : a.WellFormed := by
  have hcovers := (coversInterval_arrayFor ⟨fun _ => 0, 1, Nat.one_pos⟩ k).mpr hk
  exact ((coversInterval_iff_wellFormed _).mp hcovers).of_eq ha.count ha.interval

theorem later (ha : CountsArray k e v a h now) (hle : now ≤ t) : CountsArray k e v a h t :=
  ⟨ha.count, ha.interval, ha.fresh, ha.stands.later hle⟩

/-- A read of any counter. -/
theorem read (ha : CountsArray k e v a h now) (hle : now ≤ t) (e' : ParamMetricEvent) (w : AnyVal) :
    CountsArray k e v ((a.refresh t).visitValues t fun b => (b.get e' w).1) h t := by
  obtain ⟨hS, -, -⟩ := ha.stands.currentWindow hle ha.fresh reset_nil
  refine ⟨?_, ?_, ?_, hS.visitValues fun b es hb => ?_⟩
  · simp [ha.count]
  · simp [ha.interval]
  · simpa using ha.fresh
  · unfold CountOf at hb ⊢
    rw [ParamBucket.get_count, hb]

/-- An addition for the other event. -/
theorem add_other (ha : CountsArray k e v a h now) (hle : now ≤ t) {e' : ParamMetricEvent} (he : e ≠ e')
    (count : ℤ) (w : AnyVal) :
    CountsArray k e v (a.updateCurrent t fun b => b.add e' count w) h t := by
  refine ⟨?_, ?_, ?_, (ha.stands.adjust hle ha.fresh reset_nil fun b es hb => ?_).1⟩
  · simp [ha.count]
  · simp [ha.interval]
  · simpa using ha.fresh
  · unfold CountOf at hb ⊢
    rw [ParamBucket.add_count_of_ne he, hb]

/-- An addition that evicts no counter. -/
theorem add (hk : DividesEvenly k) (ha : CountsArray k e v a h now) (hle : now ≤ t)
    (hv : v.supported = true) {count : ℤ} {w : AnyVal}
    (hkeep : ∀ b ∈ a.currentValue? t, (b.counters e).KeepsCounters w count) :
    CountsArray k e v (a.updateCurrent t fun b => b.add e count w) (h ++ [(t, w, count)]) t := by
  refine ⟨?_, ?_, ?_, (ha.stands.record_current hle (ha.wellFormed hk).length_pos ha.fresh reset_nil
    fun b hb es hes => ?_).1⟩
  · simp [ha.count]
  · simp [ha.interval]
  · simpa using ha.fresh
  · unfold CountOf at hes ⊢
    rw [ParamBucket.add_count_self (hkeep b hb) hv, hes, totalOf_concat]
    by_cases hw : w = v
    · rw [if_pos hw, if_pos hw, toInt32_add_left]
    · rw [if_neg hw, if_neg hw, add_zero]

/-- The count that is read is the total of the window, wrapped. -/
theorem windowCount_eq (hk : DividesEvenly k) (ha : CountsArray k e v a h now) (hle : now ≤ t) :
    ParamMetric.windowCount (a.refresh t) t e v =
      toInt32 (totalOf v (inWindow k.sampleCount.toNat k.bucketMs t h)) := by
  obtain ⟨hS, hV, -⟩ := ha.stands.currentWindow hle ha.fresh reset_nil
  have hw : (a.refresh t).WellFormed := (ha.wellFormed hk).of_eq
    (LeapArray.refresh_sampleCount _ _) (LeapArray.refresh_intervalMs _ _)
  have hlen : (a.refresh t).bucketLengthMs = k.bucketMs := by
    rw [← ha.bucketLengthMs]
    simp [LeapArray.bucketLengthMs]
  rw [windowCount_eq_toInt32 hS (fun _ _ hb => hb) hw hV, hlen, LeapArray.refresh_sampleCount, ha.count]

end CountsArray

/-! ### The metric -/

theorem ParamMetric.rollingParams_initializeForRule (env : CacheEnv) (m : ParamMetric)
    (k : ParamLeapArrayKey) :
    (m.initializeForRule env k).rollingParams = m.rollingParams.insertNew k (arrayFor env k) := by
  unfold ParamMetric.initializeForRule Assoc.insertNew
  dsimp only
  cases m.rollingParams.find? k <;> rfl

/-- Adding: each array counts the argument at the position of its key. -/
theorem ParamMetric.find?_addFrom (t : ℕ) (e : ParamMetricEvent) (count : ℤ) (idx : ℕ)
    (arrays : Assoc ParamLeapArrayKey ParamLeapArray) (params : List AnyVal) (k : ParamLeapArrayKey) :
    (ParamMetric.addFrom t e count idx arrays params).find? k = (arrays.find? k).map fun a =>
      (if k.paramIdx < idx then none else params[(k.paramIdx - idx).toNat]?).elim a fun v =>
        a.updateCurrent t fun b => b.add e count v := by
  induction params generalizing idx arrays with
  | nil => simp [ParamMetric.addFrom]
  | cons x params ih =>
    have hround : (arrays.map fun p =>
        if p.1.paramIdx = (idx : ℤ) then (p.1, p.2.updateCurrent t fun b => b.add e count x) else p) =
        arrays.map fun p => (p.1,
          if p.1.paramIdx = (idx : ℤ) then p.2.updateCurrent t fun b => b.add e count x else p.2) := by
      refine List.map_congr_left fun p _ => ?_
      split_ifs <;> rfl
    rw [ParamMetric.addFrom, hround, ih, Assoc.find?_map arrays fun k a =>
      if k.paramIdx = (idx : ℤ) then a.updateCurrent t fun b => b.add e count x else a, Option.map_map]
    congr 1
    funext a
    rw [Function.comp_apply]
    rcases lt_trichotomy k.paramIdx idx with hlt | heq | hgt
    · rw [if_neg hlt.ne, if_pos hlt, if_pos (by omega : k.paramIdx < ((idx + 1 : ℕ) : ℤ))]
    · rw [if_pos heq, if_neg (by omega : ¬ k.paramIdx < idx),
        if_pos (by omega : k.paramIdx < ((idx + 1 : ℕ) : ℤ)),
        (by omega : (k.paramIdx - (idx : ℤ)).toNat = 0)]
      rfl
    · rw [if_neg hgt.ne', if_neg (by omega : ¬ k.paramIdx < idx),
        if_neg (by omega : ¬ k.paramIdx < ((idx + 1 : ℕ) : ℤ)),
        (by omega : (k.paramIdx - (idx : ℤ)).toNat = (k.paramIdx - ((idx + 1 : ℕ) : ℤ)).toNat + 1),
        List.getElem?_cons_succ]

theorem ParamMetric.find?_add (m : ParamMetric) (t : ℕ) (e : ParamMetricEvent) (count : ℤ)
    (params : List AnyVal) (k : ParamLeapArrayKey) :
    (m.add t e count params).rollingParams.find? k = (m.rollingParams.find? k).map fun a =>
      (argumentAt params k.paramIdx).elim a fun v => a.updateCurrent t fun b => b.add e count v := by
  rw [ParamMetric.add, ParamMetric.find?_addFrom]
  simp [argumentAt]

/-- A key that is not registered has no array, and the array of one that is has counted exactly what
was added since. -/
def Accounts (k : ParamLeapArrayKey) (e : ParamMetricEvent) (v : AnyVal)
    (tr : List (MetricCall × Option ℤ)) (s : MetricState) : Prop :=
  (¬ Registered k tr ∧ s.metric.view.rollingParams.find? k = none) ∨
    Registered k tr ∧ ∃ a, s.metric.view.rollingParams.find? k = some a ∧
      CountsArray k e v a (addedSince k e tr) s.now

section Runs

variable {env : CacheEnv} {s s' : MetricState} {tr : List (MetricCall × Option ℤ)}
  {a : MetricCall × Option ℤ} {k : ParamLeapArrayKey} {e : ParamMetricEvent} {v : AnyVal}

/-! What each call does to the metric. -/

theorem stepOf_initializeForRule {k' : ParamLeapArrayKey} {o : Option ℤ}
    (hs : StepOf (metricStep env) s (.initializeForRule k', o) s') :
    o = none ∧ s' = ⟨s.metric.initializeForRule env k', s.now⟩ := by
  obtain ⟨hs', ho⟩ := Prod.mk.inj (Option.some.inj hs)
  exact ⟨ho.symm, hs'.symm⟩

theorem stepOf_add {e' : ParamMetricEvent} {t : ℕ} {count : ℤ} {params : List AnyVal} {o : Option ℤ}
    (hs : StepOf (metricStep env) s (.add e' t count params, o) s') :
    s.now ≤ t ∧ o = none ∧ s' = ⟨s.metric.add t e' count params, t⟩ := by
  unfold StepOf metricStep at hs
  dsimp only at hs
  split_ifs at hs with hle
  obtain ⟨hs', ho⟩ := Prod.mk.inj (Option.some.inj hs)
  exact ⟨hle, ho.symm, hs'.symm⟩

theorem stepOf_getInterval {e' : ParamMetricEvent} {t : ℕ} {k' : ParamLeapArrayKey} {param : AnyVal}
    {o : Option ℤ} (hs : StepOf (metricStep env) s (.getInterval e' t k' param, o) s') :
    s.now ≤ t ∧ o = some (s.metric.getInterval t k' e' param).2 ∧
      s' = ⟨(s.metric.getInterval t k' e' param).1, t⟩ := by
  unfold StepOf metricStep at hs
  dsimp only at hs
  split_ifs at hs with hle
  obtain ⟨hs', ho⟩ := Prod.mk.inj (Option.some.inj hs)
  exact ⟨hle, ho.symm, hs'.symm⟩

/-- A step keeps the containers in step. -/
theorem inStep_of_stepOf (hs : StepOf (metricStep env) s a s') (h : s.metric.InStep) : s'.metric.InStep := by
  obtain ⟨c, o⟩ := a
  cases c with
  | initializeForRule k =>
    obtain ⟨-, rfl⟩ := stepOf_initializeForRule hs
    exact h.initializeForRule env k
  | add e t count params =>
    obtain ⟨-, -, rfl⟩ := stepOf_add hs
    exact h.add t e count params
  | getInterval e t k param =>
    obtain ⟨-, -, rfl⟩ := stepOf_getInterval hs
    exact h.getInterval t k e param

/-- Registering a key: an array that is there already stays as it is. -/
theorem Accounts.initializeForRule (hin : s.metric.InStep) (h : Accounts k e v tr s)
    (k' : ParamLeapArrayKey) :
    Accounts k e v (tr ++ [(.initializeForRule k', none)])
      ⟨s.metric.initializeForRule env k', s.now⟩ := by
  have hfind : (s.metric.initializeForRule env k').view.rollingParams.find? k =
      if k = k' then some ((s.metric.view.rollingParams.find? k').getD (arrayFor env k'))
      else s.metric.view.rollingParams.find? k := by
    rw [SharedMetric.view_initializeForRule hin, ParamMetric.rollingParams_initializeForRule,
      Assoc.find?_insertNew]
  unfold Accounts
  rw [registered_concat, hfind]
  by_cases hkk : k = k'
  · subst hkk
    refine .inr ⟨.inr rfl, ?_⟩
    rw [if_pos rfl]
    rcases h with ⟨hnew, hnone⟩ | ⟨hreg, a, ha, hcounts⟩
    · rw [hnone, addedSince_first hnew]
      exact ⟨_, rfl, CountsArray.arrayFor env k e v s.now⟩
    · rw [ha, addedSince_concat hreg]
      exact ⟨a, rfl, by simpa [added] using hcounts⟩
  · rw [if_neg hkk]
    rcases h with ⟨hnew, hnone⟩ | ⟨hreg, a, ha, hcounts⟩
    · refine .inl ⟨fun hreg => hreg.elim hnew fun heq => hkk ?_, hnone⟩
      exact (MetricCall.initializeForRule.inj heq).symm
    · rw [addedSince_concat hreg]
      exact .inr ⟨.inl hreg, a, ha, by simpa [added] using hcounts⟩

/-- Adding: the array of the key counts the argument at the key's position, if there is one. -/
theorem Accounts.add (hk : DividesEvenly k) (hv : v.supported = true) (hin : s.metric.InStep)
    (h : Accounts k e v tr s) {e' : ParamMetricEvent} {t : ℕ} (hle : s.now ≤ t) {count : ℤ}
    {params : List AnyVal} (hkept : EvictsNothing s (.add e' t count params, none)) :
    Accounts k e v (tr ++ [(.add e' t count params, none)]) ⟨s.metric.add t e' count params, t⟩ := by
  have hfind := ParamMetric.find?_add s.metric.view t e' count params k
  unfold Accounts
  rw [registered_concat, SharedMetric.view_add hin, hfind]
  rcases h with ⟨hnew, hnone⟩ | ⟨hreg, a, ha, hcounts⟩
  · exact .inl ⟨fun hreg => hreg.elim hnew (by simp), by rw [hnone, Option.map_none]⟩
  · refine .inr ⟨.inl hreg, _, by rw [ha, Option.map_some], ?_⟩
    rw [addedSince_concat hreg]
    cases harg : argumentAt params k.paramIdx with
    | none =>
      have hnothing : added k e (.add e' t count params, none) = none := by
        simp [added, harg]
      rw [hnothing, Option.elim_none, Option.toList_none, List.append_nil]
      exact hcounts.later hle
    | some w =>
      rw [Option.elim_some]
      by_cases he : e' = e
      · subst he
        have hadded : added k e' (.add e' t count params, none) = some (t, w, count) := by
          simp [added, harg]
        rw [hadded, Option.toList_some]
        refine hcounts.add hk hle hv fun b hb => ?_
        have hmem : (k, a) ∈ s.metric.view.rollingParams := by
          refine (Assoc.mem_iff_find? ?_).mpr ha
          unfold SharedMetric.view
          rw [List.map_map]
          exact hin.keys
        exact hkept (k, a) hmem w harg b hb
      · have hnothing : added k e (.add e' t count params, none) = none := by
          simp [added, he]
        rw [hnothing, Option.toList_none, List.append_nil]
        exact hcounts.add_other hle (Ne.symm he) count w

/-- Reading adds nothing; the array that is read rotates out its stale buckets. -/
theorem Accounts.getInterval (hin : s.metric.InStep) (h : Accounts k e v tr s) (e' : ParamMetricEvent)
    {t : ℕ} (hle : s.now ≤ t) (k' : ParamLeapArrayKey) (param : AnyVal) (o : Option ℤ) :
    Accounts k e v (tr ++ [(.getInterval e' t k' param, o)])
      ⟨(s.metric.getInterval t k' e' param).1, t⟩ := by
  unfold Accounts
  rw [registered_concat, SharedMetric.view_getInterval hin]
  unfold ParamMetric.getInterval
  rcases h with ⟨hnew, hnone⟩ | ⟨hreg, a, ha, hcounts⟩
  · refine .inl ⟨fun hreg => hreg.elim hnew (by simp), ?_⟩
    cases s.metric.view.rollingParams.find? k' with
    | none => exact hnone
    | some a' =>
      dsimp only
      rw [Assoc.find?_modify, hnone]
      split_ifs <;> rfl
  · rw [addedSince_concat hreg]
    have hnothing : added k e (.getInterval e' t k' param, o) = none := rfl
    rw [hnothing, Option.toList_none, List.append_nil]
    cases hk' : s.metric.view.rollingParams.find? k' with
    | none => exact .inr ⟨.inl hreg, a, ha, hcounts.later hle⟩
    | some a' =>
      refine .inr ⟨.inl hreg, ?_⟩
      dsimp only
      rw [Assoc.find?_modify, ha]
      split_ifs
      · exact ⟨_, rfl, hcounts.read hle e' param⟩
      · exact ⟨a, rfl, hcounts.later hle⟩

/-- **One call.**  It adds to the history what it adds to the counters. -/
theorem Accounts.step (hk : DividesEvenly k) (hv : v.supported = true) (hin : s.metric.InStep)
    (h : Accounts k e v tr s) (hs : StepOf (metricStep env) s a s') (hkept : EvictsNothing s a) :
    Accounts k e v (tr ++ [a]) s' := by
  obtain ⟨c, o⟩ := a
  cases c with
  | initializeForRule k' =>
    obtain ⟨rfl, rfl⟩ := stepOf_initializeForRule hs
    exact h.initializeForRule hin k'
  | add e' t count params =>
    obtain ⟨hle, rfl, rfl⟩ := stepOf_add hs
    exact h.add hk hv hin hle hkept
  | getInterval e' t k' param =>
    obtain ⟨hle, -, rfl⟩ := stepOf_getInterval hs
    exact h.getInterval hin e' hle k' param o

/-- **Every run.**  As long as no cache evicts a counter, the arrays have counted what was added. -/
theorem accounts_of_run (hrun : Run (StepOf (metricStep env)) ⟨.empty env, 0⟩ tr s)
    (hkept : EveryStep (StepOf (metricStep env)) ⟨.empty env, 0⟩ EvictsNothing tr)
    (hk : DividesEvenly k) (hv : v.supported = true) :
    s.metric.InStep ∧ Accounts k e v tr s := by
  induction hrun with
  | nil =>
    refine ⟨SharedMetric.inStep_empty env, .inl ⟨?_, rfl⟩⟩
    rintro ⟨o, ho⟩
    exact absurd ho List.not_mem_nil
  | snoc hrun hs ih =>
    obtain ⟨hin, haccounts⟩ := ih (hkept.mono (List.prefix_append _ _))
    exact ⟨inStep_of_stepOf hs hin, haccounts.step hk hv hin hs (hkept.last hrun)⟩

end Runs

/-- **Exact accounting.**  In every run of registrations, additions and reads at times that do not
decrease, whose keys divide their intervals evenly and whose caches evict no counter, each read of a
registered key returns the total that was added for the value since the key was first registered, in the
buckets of the key's window: exactly when it is an `int`, and wrapped to one otherwise. -/
theorem getInterval_eq_total {env : CacheEnv} {tr : List (MetricCall × Option ℤ)} {s : MetricState}
    {e : ParamMetricEvent} {t : ℕ} {k : ParamLeapArrayKey} {v : AnyVal} {count : Option ℤ}
    (hrun : Run (StepOf (metricStep env)) ⟨.empty env, 0⟩ (tr ++ [(.getInterval e t k v, count)]) s)
    (hkeys : ∀ k', Registered k' tr → DividesEvenly k')
    (hkept : EveryStep (StepOf (metricStep env)) ⟨.empty env, 0⟩ EvictsNothing tr)
    (hk : Registered k tr) (hv : v.supported = true) :
    let total := totalOf v (inWindow k.sampleCount.toNat k.bucketMs t (addedSince k e tr))
    count = some (toInt32 total) ∧ (-2 ^ 31 ≤ total ∧ total < 2 ^ 31 → count = some total) := by
  intro total
  obtain ⟨s₁, hrun₁, hstep⟩ := hrun.of_snoc
  have hdiv := hkeys k hk
  obtain ⟨hin, haccounts⟩ := @accounts_of_run env s₁ tr k e v hrun₁ hkept hdiv hv
  obtain ⟨-, a, ha, hcounts⟩ := haccounts.resolve_left fun h => h.1 hk
  obtain ⟨hle, rfl, -⟩ := stepOf_getInterval hstep
  rw [SharedMetric.getInterval_snd_view, ParamMetric.getInterval_snd, ParamMetric.intervalCount, ha]
  dsimp only
  rw [hcounts.windowCount_eq hdiv hle]
  refine ⟨rfl, fun hfits => ?_⟩
  rw [toInt32_of_bounds hfits.1 hfits.2]

instance (s : MetricState) (a : MetricCall × Option ℤ) : Decidable (EvictsNothing s a) :=
  match a with
  | (.initializeForRule _, _) => isTrue trivial
  | (.add e t count params, _) => inferInstanceAs (Decidable
      (∀ p ∈ s.metric.view.rollingParams, ∀ v ∈ argumentAt params p.1.paramIdx,
        ∀ b ∈ p.2.currentValue? t, (b.counters e).KeepsCounters v count))
  | (.getInterval _ _ _ _, _) => isTrue trivial

/-- Two arrays of position 0, with two buckets of a second and with one of half a second. -/
def twoSeconds : ParamLeapArrayKey := ⟨0, 2000, 2, 4⟩
def halfSecond : ParamLeapArrayKey := ⟨0, 500, 1, 4⟩

/-- A value passes at times 100 and 1700, with the first key registered again in between. -/
def sharedCalls : List (MetricCall × Option ℤ) :=
  [(.initializeForRule twoSeconds, none), (.initializeForRule halfSecond, none),
    (.add .pass 100 2 [.int32 7], none), (.initializeForRule twoSeconds, none),
    (.add .pass 1700 3 [.int32 7], none)]

theorem evictsNothing_sharedCalls :
    EveryStep (StepOf (metricStep twoShards)) ⟨.empty twoShards, 0⟩ EvictsNothing sharedCalls :=
  everyStep_cons rfl stepOf_det trivial <| everyStep_cons rfl stepOf_det trivial <|
    everyStep_cons rfl stepOf_det (by decide) <| everyStep_cons rfl stepOf_det trivial <|
      everyStep_cons rfl stepOf_det (by decide) everyStep_nil

theorem divides_of_registered_sharedCalls (k : ParamLeapArrayKey) (h : Registered k sharedCalls) :
    DividesEvenly k := by
  obtain ⟨o, ho⟩ := h
  simp only [sharedCalls, List.mem_cons, Prod.mk.injEq, MetricCall.initializeForRule.injEq, reduceCtorEq,
    false_and, List.not_mem_nil, or_false, false_or] at ho
  rcases ho with ⟨rfl, -⟩ | ⟨rfl, -⟩ | ⟨rfl, -⟩ <;> decide

/-- A value passes with the largest `int`, then once more. -/
def wrappingCalls : List (MetricCall × Option ℤ) :=
  [(.initializeForRule twoSeconds, none), (.add .pass 100 2147483647 [.int32 7], none),
    (.add .pass 100 1 [.int32 7], none)]

/-- The smallest `int` is read where 2147483648 was added. -/
theorem getInterval_wraps :
    (∃ s, Run (StepOf (metricStep twoShards)) ⟨.empty twoShards, 0⟩
      (wrappingCalls ++ [(.getInterval .pass 100 twoSeconds (.int32 7), some (-2147483648))]) s) ∧
    (∀ k, Registered k wrappingCalls → DividesEvenly k) ∧
    EveryStep (StepOf (metricStep twoShards)) ⟨.empty twoShards, 0⟩ EvictsNothing wrappingCalls ∧
    Registered twoSeconds wrappingCalls ∧
    totalOf (.int32 7) (inWindow twoSeconds.sampleCount.toNat twoSeconds.bucketMs 100
      (addedSince twoSeconds .pass wrappingCalls)) = 2147483648 := by
  refine ⟨exists_run_of_execute ((wrappingCalls.map Prod.fst) ++ [.getInterval .pass 100 twoSeconds (.int32 7)])
    (by decide), ?_, ?_, ⟨none, by decide⟩, by decide⟩
  · rintro k ⟨o, ho⟩
    simp only [wrappingCalls, List.mem_cons, Prod.mk.injEq, MetricCall.initializeForRule.injEq, reduceCtorEq,
      false_and, List.not_mem_nil, or_false] at ho
    obtain ⟨rfl, -⟩ := ho
    decide
  · exact everyStep_cons rfl stepOf_det trivial <| everyStep_cons rfl stepOf_det (by decide) <|
      everyStep_cons rfl stepOf_det (by decide) everyStep_nil

/-- The read of the first key at time 1900 returns the 5 of both additions. -/
theorem getInterval_eq_total_shared :
    (∃ s, Run (StepOf (metricStep twoShards)) ⟨.empty twoShards, 0⟩
      (sharedCalls ++ [(.getInterval .pass 1900 twoSeconds (.int32 7), some 5)]) s) ∧
    (some 5 : Option ℤ) = some (totalOf (.int32 7) (inWindow twoSeconds.sampleCount.toNat
      twoSeconds.bucketMs 1900 (addedSince twoSeconds .pass sharedCalls))) := by
  have hrun : ∃ s, Run (StepOf (metricStep twoShards)) ⟨.empty twoShards, 0⟩
      (sharedCalls ++ [(.getInterval .pass 1900 twoSeconds (.int32 7), some 5)]) s :=
    exists_run_of_execute
      ((sharedCalls.map Prod.fst) ++ [.getInterval .pass 1900 twoSeconds (.int32 7)]) (by decide)
  obtain ⟨s, hs⟩ := hrun
  have htotal := getInterval_eq_total hs divides_of_registered_sharedCalls evictsNothing_sharedCalls
    ⟨none, by decide⟩ rfl
  exact ⟨⟨s, hs⟩, htotal.2 (by decide)⟩

end SentinelCpp.Param
