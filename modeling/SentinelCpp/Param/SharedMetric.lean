import SentinelCpp.Param.Metric

/-!
# The two containers of a metric

`rolling_params_` finds an array by the key of a rule, `index_map_` lists the arrays of an argument
position, and both hold shared pointers to the same arrays.  Here a pointer is a number and the arrays
stand on a heap.  The containers stay in step (`InStep`), so the metric works as one in which every key
owns its array (`view`).
-/

namespace SentinelCpp.Param

open SentinelCpp.Lib SentinelCpp.Stat

/-- `ParamMetric` with the pointers of both containers; `next` is the next pointer to be given out. -/
structure SharedMetric where
  threadCountMap : Assoc ℤ (ScalableCache AnyVal)
  heap : ℕ → ParamLeapArray
  next : ℕ
  rollingParams : Assoc ParamLeapArrayKey ℕ
  indexMap : List (ℤ × ℕ)

namespace SharedMetric

variable (m : SharedMetric)

/-- No key has been registered. -/
def empty (env : CacheEnv) : SharedMetric := ⟨[], fun _ => .mk' 0 0 (.mk' env 0), 0, [], []⟩

/-- `initializeForRule(k)`. -/
def initializeForRule (env : CacheEnv) (k : ParamLeapArrayKey) : SharedMetric :=
  let threadCountMap :=
    match m.threadCountMap.find? k.paramIdx with
    | some _ => m.threadCountMap
    | none => m.threadCountMap ++ [(k.paramIdx, env.newCache k.cacheSize)]
  match m.rollingParams.find? k with
  | some _ => { m with threadCountMap }
  | none =>
    let array : ParamLeapArray :=
      .mk' k.sampleCount.toNat k.intervalInMs.toNat (.mk' env k.cacheSize)
    { threadCountMap
      heap := Function.update m.heap m.next array
      next := m.next + 1
      rollingParams := m.rollingParams ++ [(k, m.next)]
      indexMap := m.indexMap ++ [(k.paramIdx, m.next)] }

/-- `index_map_.equal_range(idx)`. -/
def equalRange (idx : ℤ) : List ℕ := (m.indexMap.filter fun p => p.1 = idx).map Prod.snd

/-- The loop of `Add` from position `idx` on. -/
def addFrom (t : ℕ) (e : ParamMetricEvent) (count : ℤ) : SharedMetric → ℕ → List AnyVal → SharedMetric
  | m, _, [] => m
  | m, idx, param :: params =>
    let heap := (m.equalRange idx).foldl (fun heap i =>
      Function.update heap i ((heap i).updateCurrent t fun b => b.add e count param)) m.heap
    addFrom t e count { m with heap } (idx + 1) params

/-- `Add(e, count, params)`. -/
def add (t : ℕ) (e : ParamMetricEvent) (count : ℤ) (params : List AnyVal) : SharedMetric :=
  addFrom t e count m 0 params

/-- `GetInterval(key, e, param)`. -/
def getInterval (t : ℕ) (key : ParamLeapArrayKey) (e : ParamMetricEvent) (param : AnyVal) :
    SharedMetric × ℤ :=
  match m.rollingParams.find? key with
  | none => (m, 0)
  | some i =>
    let array := (m.heap i).refresh t
    ({ m with heap := Function.update m.heap i (array.visitValues t fun b => (b.get e param).1) },
      addInt32 0 ((array.values t).map fun b => (b.get e param).2))

/-- Every key with the array its pointer leads to. -/
def view : ParamMetric := ⟨m.threadCountMap, m.rollingParams.map fun p => (p.1, m.heap p.2)⟩

/-- Each key has a pointer of its own, which is listed under the key's position. -/
structure InStep : Prop where
  keys : (m.rollingParams.map Prod.fst).Nodup
  pointers : (m.rollingParams.map Prod.snd).Nodup
  fresh : ∀ p ∈ m.rollingParams, p.2 < m.next
  index : m.indexMap = m.rollingParams.map fun p => (p.1.paramIdx, p.2)

variable {m}

theorem inStep_empty (env : CacheEnv) : (empty env).InStep :=
  ⟨List.nodup_nil, List.nodup_nil, fun _ h => absurd h List.not_mem_nil, rfl⟩

namespace InStep

theorem initializeForRule (h : m.InStep) (env : CacheEnv) (k : ParamLeapArrayKey) :
    (m.initializeForRule env k).InStep := by
  unfold SharedMetric.initializeForRule
  dsimp only
  cases hk : m.rollingParams.find? k with
  | some i => exact ⟨h.keys, h.pointers, h.fresh, h.index⟩
  | none =>
    have hnew : k ∉ m.rollingParams.map Prod.fst := Assoc.find?_eq_none.mp hk
    refine ⟨?_, ?_, fun p hp => ?_, ?_⟩
    · show ((m.rollingParams ++ [(k, m.next)]).map Prod.fst).Nodup
      rw [List.map_append, List.map_singleton, ← List.concat_eq_append]
      exact h.keys.concat hnew
    · show ((m.rollingParams ++ [(k, m.next)]).map Prod.snd).Nodup
      rw [List.map_append, List.map_singleton, ← List.concat_eq_append]
      refine h.pointers.concat fun hmem => ?_
      obtain ⟨p, hp, heq⟩ := List.mem_map.mp hmem
      have hlt := h.fresh p hp
      omega
    · show p.2 < m.next + 1
      rcases List.mem_append.mp hp with hp | hp
      · have hlt := h.fresh p hp
        omega
      · rw [List.mem_singleton.mp hp]
        omega
    · show m.indexMap ++ [(k.paramIdx, m.next)] = _
      rw [h.index, List.map_append, List.map_singleton]

/-- The arrays do not matter. -/
theorem with_heap (h : m.InStep) (heap : ℕ → ParamLeapArray) : InStep { m with heap } :=
  ⟨h.keys, h.pointers, h.fresh, h.index⟩

theorem equalRange_eq (h : m.InStep) (idx : ℤ) :
    m.equalRange idx = (m.rollingParams.filter fun p => p.1.paramIdx = idx).map Prod.snd := by
  rw [equalRange, h.index, List.filter_map, List.map_map]
  rfl

theorem nodup_equalRange (h : m.InStep) (idx : ℤ) : (m.equalRange idx).Nodup := by
  rw [h.equalRange_eq]
  exact (List.filter_sublist.map Prod.snd).nodup h.pointers

/-- A pointer is listed under the position of its key only. -/
theorem mem_equalRange (h : m.InStep) {p : ParamLeapArrayKey × ℕ} (hp : p ∈ m.rollingParams) (idx : ℤ) :
    p.2 ∈ m.equalRange idx ↔ p.1.paramIdx = idx := by
  rw [h.equalRange_eq, List.mem_map]
  constructor
  · rintro ⟨q, hq, heq⟩
    obtain ⟨hq, hidx⟩ := List.mem_filter.mp hq
    obtain rfl := List.inj_on_of_nodup_map h.pointers hq hp heq
    exact of_decide_eq_true hidx
  · intro hidx
    exact ⟨p, List.mem_filter.mpr ⟨hp, decide_eq_true hidx⟩, rfl⟩

end InStep

/-! ### The operations on the view -/

/-- Updates through distinct pointers. -/
theorem foldl_update {A : Type} (f : A → A) {is : List ℕ} (his : is.Nodup) (heap : ℕ → A) (j : ℕ) :
    is.foldl (fun heap i => Function.update heap i (f (heap i))) heap j =
      if j ∈ is then f (heap j) else heap j := by
  induction is generalizing heap with
  | nil => rw [List.foldl_nil, if_neg List.not_mem_nil]
  | cons i is ih =>
    obtain ⟨hi, his⟩ := List.nodup_cons.mp his
    rw [List.foldl_cons, ih his]
    by_cases hj : j = i
    · subst hj
      rw [if_neg hi, Function.update_self, if_pos List.mem_cons_self]
    · rw [Function.update_of_ne hj]
      simp only [List.mem_cons, hj, false_or]

theorem view_initializeForRule (h : m.InStep) (env : CacheEnv) (k : ParamLeapArrayKey) :
    (m.initializeForRule env k).view = m.view.initializeForRule env k := by
  unfold SharedMetric.initializeForRule ParamMetric.initializeForRule view
  dsimp only
  rw [Assoc.find?_map m.rollingParams fun _ => m.heap]
  cases hk : m.rollingParams.find? k with
  | some i => rfl
  | none =>
    have hold : m.rollingParams.map (fun p => (p.1, Function.update m.heap m.next
        (.mk' k.sampleCount.toNat k.intervalInMs.toNat (.mk' env k.cacheSize)) p.2)) =
          m.rollingParams.map fun p => (p.1, m.heap p.2) := by
      refine List.map_congr_left fun p hp => ?_
      rw [Function.update_of_ne (h.fresh p hp).ne]
    rw [Option.map_none]
    dsimp only
    rewrite [List.map_append, hold, List.map_singleton, Function.update_self]
    rfl

theorem addFrom_spec (h : m.InStep) (t : ℕ) (e : ParamMetricEvent) (count : ℤ) (idx : ℕ)
    (params : List AnyVal) : (addFrom t e count m idx params).InStep ∧
      (addFrom t e count m idx params).view =
        { m.view with
          rollingParams := ParamMetric.addFrom t e count idx m.view.rollingParams params } := by
  induction params generalizing m idx with
  | nil => exact ⟨h, rfl⟩
  | cons param params ih =>
    obtain ⟨hstep, hview⟩ := ih (h.with_heap _) (idx + 1)
    refine ⟨hstep, ?_⟩
    rw [addFrom, ParamMetric.addFrom]
    dsimp only
    rw [hview]
    -- one round of the loop: the arrays of the position are those of the keys with this position
    have hround : (m.rollingParams.map fun p => (p.1, (m.equalRange idx).foldl (fun heap i =>
        Function.update heap i ((heap i).updateCurrent t fun b => b.add e count param)) m.heap p.2)) =
          m.view.rollingParams.map fun p =>
            if p.1.paramIdx = (idx : ℤ) then (p.1, p.2.updateCurrent t fun b => b.add e count param)
            else p := by
      unfold view
      rw [List.map_map]
      refine List.map_congr_left fun p hp => ?_
      rw [foldl_update (fun a : ParamLeapArray => a.updateCurrent t fun b => b.add e count param)
        (h.nodup_equalRange idx)]
      simp only [h.mem_equalRange hp, Function.comp_apply]
      split_ifs <;> rfl
    show ParamMetric.mk m.threadCountMap (ParamMetric.addFrom t e count (idx + 1)
      (m.rollingParams.map fun p => (p.1, (m.equalRange idx).foldl (fun heap i =>
        Function.update heap i ((heap i).updateCurrent t fun b => b.add e count param)) m.heap p.2))
      params) = _
    rw [hround]
    rfl

theorem view_add (h : m.InStep) (t : ℕ) (e : ParamMetricEvent) (count : ℤ) (params : List AnyVal) :
    (m.add t e count params).view = m.view.add t e count params :=
  (addFrom_spec h t e count 0 params).2

theorem InStep.add (h : m.InStep) (t : ℕ) (e : ParamMetricEvent) (count : ℤ) (params : List AnyVal) :
    (m.add t e count params).InStep :=
  (addFrom_spec h t e count 0 params).1

theorem InStep.getInterval (h : m.InStep) (t : ℕ) (key : ParamLeapArrayKey) (e : ParamMetricEvent)
    (param : AnyVal) : (m.getInterval t key e param).1.InStep := by
  unfold SharedMetric.getInterval
  cases m.rollingParams.find? key with
  | none => exact h
  | some i => exact h.with_heap _

theorem getInterval_snd_view (t : ℕ) (key : ParamLeapArrayKey) (e : ParamMetricEvent) (param : AnyVal) :
    (m.getInterval t key e param).2 = (m.view.getInterval t key e param).2 := by
  unfold SharedMetric.getInterval ParamMetric.getInterval view
  dsimp only
  rw [Assoc.find?_map m.rollingParams fun _ => m.heap]
  cases m.rollingParams.find? key <;> rfl

theorem view_getInterval (h : m.InStep) (t : ℕ) (key : ParamLeapArrayKey) (e : ParamMetricEvent)
    (param : AnyVal) :
    (m.getInterval t key e param).1.view = (m.view.getInterval t key e param).1 := by
  unfold SharedMetric.getInterval ParamMetric.getInterval view
  dsimp only
  rw [Assoc.find?_map m.rollingParams fun _ => m.heap]
  cases hk : m.rollingParams.find? key with
  | none => rfl
  | some i =>
    have hkey : (key, i) ∈ m.rollingParams := (Assoc.mem_iff_find? h.keys).mpr hk
    rw [Option.map_some]
    dsimp only
    congr 1
    unfold Assoc.modify
    rw [List.map_map]
    refine List.map_congr_left fun p hp => ?_
    rw [Function.comp_apply]
    by_cases hpi : p.2 = i
    · obtain rfl := List.inj_on_of_nodup_map h.pointers hp hkey hpi
      rw [if_pos rfl, Function.update_self]
    · have hpk : p.1 ≠ key := fun heq =>
        hpi (congrArg Prod.snd (List.inj_on_of_nodup_map h.keys hp hkey heq))
      rw [if_neg hpk, Function.update_of_ne hpi]

end SharedMetric

end SentinelCpp.Param
