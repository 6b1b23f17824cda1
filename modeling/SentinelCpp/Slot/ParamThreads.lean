import SentinelCpp.Slot.Ledger

/-!
# Thread counts of hot parameters

The count of an argument value is raised when an entry is admitted and lowered when it exits, each
time in the cache its position has at that time.  It stays between zero and the number of outstanding
entries with the value as long as no exit finds a count of zero and no admission the largest `int`.
-/

namespace SentinelCpp

open Lib Stat Property Param

/-! ### Changing the counts of one metric -/

namespace Param

variable {caches : Assoc ℤ (ScalableCache AnyVal)} {value : ℤ} {params : List AnyVal}

/-- The cache of a position changes once, by the argument at the position. -/
theorem find?_changeThreadCount_from (idx i : ℕ) :
    (ParamMetric.changeThreadCount caches value idx params).find? (i : ℤ) =
      if idx ≤ i then
        match params[i - idx]? with
        | some p => (caches.find? (i : ℤ)).map fun c => c.increase p value
        | none => caches.find? (i : ℤ)
      else caches.find? (i : ℤ) := by
  induction params generalizing caches idx with
  | nil => simp [ParamMetric.changeThreadCount]
  | cons p params ih =>
    rw [ParamMetric.changeThreadCount, ih, Assoc.find?_modify]
    rcases Nat.lt_trichotomy idx i with hlt | rfl | hgt
    · have hne : (i : ℤ) ≠ idx := by omega
      obtain ⟨k, rfl⟩ := Nat.exists_eq_add_of_lt hlt
      have h1 : idx + 1 ≤ idx + k + 1 := by omega
      have h2 : idx + k + 1 - (idx + 1) = k := by omega
      have h3 : idx + k + 1 - idx = k + 1 := by omega
      rw [if_neg hne, if_pos h1, if_pos hlt.le, h2, h3, List.getElem?_cons_succ]
    · have h1 : ¬ idx + 1 ≤ idx := by omega
      rw [if_neg h1, if_pos rfl, if_pos le_rfl, Nat.sub_self, List.getElem?_cons_zero]
    · have h1 : ¬ idx + 1 ≤ i := by omega
      have h2 : ¬ idx ≤ i := by omega
      have hne : (i : ℤ) ≠ idx := by omega
      rw [if_neg h1, if_neg h2, if_neg hne]

theorem find?_changeThreadCount (i : ℕ) :
    (ParamMetric.changeThreadCount caches value 0 params).find? (i : ℤ) =
      match params[i]? with
      | some p => (caches.find? (i : ℤ)).map fun c => c.increase p value
      | none => caches.find? (i : ℤ) := by
  rw [find?_changeThreadCount_from, if_pos (Nat.zero_le i), Nat.sub_zero]

/-- `GetParamMetric(resource)` has a cache for the position. -/
def HasCache (metricMap : MetricMap) (resource : String) (i : ℕ) : Prop :=
  resource ≠ "" ∧ ∃ m c, metricMap.find? resource = some m ∧ m.threadCountMap.find? (i : ℤ) = some c

/-- **One change of the counts.**  The count of the value at its position changes (an `int`, it wraps), if
there is a cache for it; every other count of the resource stays, or is evicted. -/
theorem threadCountOf_change (metricMap : MetricMap) (resource : String) (i : ℕ)
    {f : ParamMetric → ParamMetric} {v : AnyVal} (hv : v.supported = true)
    (hf : ∀ m, (f m).threadCountMap = ParamMetric.changeThreadCount m.threadCountMap value 0 params) :
    (params[i]? = some v ∧ HasCache metricMap resource i ∧
      threadCountOf (withParamMetric metricMap resource f) resource i v =
        toInt32 (threadCountOf metricMap resource i v + value)) ∨
    ((params[i]? ≠ some v ∨ ¬ HasCache metricMap resource i) ∧
      (threadCountOf (withParamMetric metricMap resource f) resource i v =
        threadCountOf metricMap resource i v ∨
      threadCountOf (withParamMetric metricMap resource f) resource i v = 0)) := by
  unfold threadCountOf
  rw [find?_withParamMetric]
  by_cases hne : resource = ""
  · refine .inr ⟨.inr fun h => h.1 hne, .inl ?_⟩
    rw [if_neg (fun h => h.2 hne)]
  rw [if_pos ⟨rfl, hne⟩]
  cases hm : metricMap.find? resource with
  | none => exact .inr ⟨.inr (fun ⟨_, m, _, hm', _⟩ => by simp [hm] at hm'), .inl rfl⟩
  | some m =>
    simp only [Option.map_some, ParamMetric.threadCount, hf, find?_changeThreadCount]
    cases hc : m.threadCountMap.find? (i : ℤ) with
    | none =>
      refine .inr ⟨.inr ?_, .inl ?_⟩
      · rintro ⟨-, m', c, hm', hc'⟩
        obtain rfl : m = m' := Option.some.inj (hm.symm.trans hm')
        simp [hc] at hc'
      · cases params[i]? <;> rfl
    | some c =>
      cases hp : params[i]? with
      | none => exact .inr ⟨.inl (by simp), .inl rfl⟩
      | some p =>
        by_cases hpv : p = v
        · subst hpv
          exact .inl ⟨rfl, ⟨hne, m, c, hm, hc⟩, ScalableCache.increase_count_self c p hv⟩
        · right
          refine ⟨.inl fun h => hpv (Option.some.inj h), ?_⟩
          rcases ScalableCache.increase_count_of_ne c v p (Ne.symm hpv) (v := value) with h | ⟨h, -⟩
          · exact .inl h
          · exact .inr h

/-- Without a cache nothing has been counted, the empty resource name apart. -/
theorem threadCountOf_of_not_hasCache {metricMap : MetricMap} {resource : String} {i : ℕ}
    (h : ¬ HasCache metricMap resource i) (hne : resource ≠ "") (v : AnyVal) :
    threadCountOf metricMap resource i v = 0 := by
  unfold threadCountOf
  cases hm : metricMap.find? resource with
  | none => rfl
  | some m =>
    simp only [ParamMetric.threadCount]
    cases hc : m.threadCountMap.find? (i : ℤ) with
    | none => rfl
    | some c => exact absurd ⟨hne, m, c, hm, hc⟩ h

theorem threadCountOf_withParamMetric_empty {metricMap : MetricMap} {resource : String}
    {f : ParamMetric → ParamMetric} (i : ℕ) (v : AnyVal) :
    threadCountOf (withParamMetric metricMap resource f) "" i v = threadCountOf metricMap "" i v := by
  unfold threadCountOf
  rw [find?_withParamMetric, if_neg (fun h => h.2 h.1.symm)]

theorem threadCountOf_withParamMetric_of_ne {metricMap : MetricMap} {resource r : String}
    {f : ParamMetric → ParamMetric} (hr : r ≠ resource) (i : ℕ) (v : AnyVal) :
    threadCountOf (withParamMetric metricMap resource f) r i v = threadCountOf metricMap r i v := by
  unfold threadCountOf
  rw [find?_withParamMetric, if_neg (fun h => hr h.1)]

end Param

/-! ### The property and the condition -/

/-- The entry is on the resource and has the value at the position. -/
def hasParam (resource : String) (i : ℕ) (v : AnyVal) (e : Entry) : Bool :=
  e.resource = resource ∧ e.params[i]? = some v

theorem hasParam_iff {resource : String} {i : ℕ} {v : AnyVal} {e : Entry} :
    hasParam resource i v e = true ↔ e.resource = resource ∧ e.params[i]? = some v := by
  simp [hasParam]

/-- The count of every value is between zero and the number of outstanding entries with it. -/
def ParamThreadsBounded (w : World) : Prop :=
  ∀ r (i : ℕ) v, v.supported = true → 0 ≤ threadCountOf w.metricMap r i v ∧
    threadCountOf w.metricMap r i v ≤ w.live (hasParam r i v)

/-- What every run keeps: `GetParamMetric` finds no metric for the empty name, so nothing is counted there,
and a count is an `int`. -/
structure Tallied (w : World) : Prop where
  emptyName : ∀ (i : ℕ) v, threadCountOf w.metricMap "" i v = 0
  lt : ∀ r (i : ℕ) v, v.supported = true → threadCountOf w.metricMap r i v < 2 ^ 31

/-- An outstanding entry is exited only while each of its values, at a position that has a cache, is
counted at least once. -/
def ExitsCounted (w : World) (a : Label) : Prop :=
  match a.1.2 with
  | .exit (some id) _ => ∀ e, w.entries[id]? = some e → e.exited = false →
      ∀ (i : ℕ) v, e.params[i]? = some v → v.supported = true →
        HasCache w.metricMap e.resource i → 1 ≤ threadCountOf w.metricMap e.resource i v
  | _ => True

/-- An entry is admitted only while none of its values has the largest `int` as its count. -/
def EntriesCounted (w : World) (a : Label) : Prop :=
  match a with
  | ((_, .entry c), .passed) => ∀ (i : ℕ) v, c.params[i]? = some v → v.supported = true →
      threadCountOf w.metricMap c.resource i v ≠ 2 ^ 31 - 1
  | _ => True

/-- Without a cache nothing has been counted. -/
theorem Tallied.of_not_hasCache {w : World} (hK : Tallied w) {resource : String} {i : ℕ}
    (h : ¬ HasCache w.metricMap resource i) (v : AnyVal) : threadCountOf w.metricMap resource i v = 0 := by
  by_cases hne : resource = ""
  · rw [hne]
    exact hK.emptyName i v
  · exact threadCountOf_of_not_hasCache h hne v

theorem paramThreadsBounded_start (env : Env) : ParamThreadsBounded (World.start env) :=
  fun _ _ _ _ => ⟨le_rfl, le_rfl⟩

/-! ### Each step -/

section Step

variable {env : Env} {w w₁ w' : World} {t : ℕ} {c : Call}

/-- Steps that change neither the counts nor the outstanding entries. -/
theorem ParamThreadsBounded.of_eq (hP : ParamThreadsBounded w)
    (hcount : ∀ r (i : ℕ) v, threadCountOf w'.metricMap r i v = threadCountOf w.metricMap r i v)
    (hlive : ∀ p, w'.live p = w.live p) : ParamThreadsBounded w' := by
  intro r i v hv
  rw [hcount, hlive]
  exact hP r i v hv

theorem recordPass_metricMap : (w₁.recordPass t c).metricMap = withParamMetric w₁.metricMap c.resource
    fun m => (m.addPass t c.count c.params).addThreadCount c.params := rfl

variable (w₁) in
/-- The counts after an admission, value by value. -/
theorem threadCountOf_recordPass {i : ℕ} {v : AnyVal} (hv : v.supported = true) :
    (c.params[i]? = some v ∧ HasCache w₁.metricMap c.resource i ∧
      threadCountOf (w₁.recordPass t c).metricMap c.resource i v =
        toInt32 (threadCountOf w₁.metricMap c.resource i v + 1)) ∨
    ((c.params[i]? ≠ some v ∨ ¬ HasCache w₁.metricMap c.resource i) ∧
      (threadCountOf (w₁.recordPass t c).metricMap c.resource i v =
        threadCountOf w₁.metricMap c.resource i v ∨
      threadCountOf (w₁.recordPass t c).metricMap c.resource i v = 0)) := by
  rw [recordPass_metricMap]
  exact threadCountOf_change _ _ _ hv fun m => rfl

/-- A rule check changes no count. -/
theorem threadCountOf_ruleCheck {token : TokenResult}
    (hcheck : (w.built env c).ruleCheck env t c = some (w₁, token)) (r : String) (i : ℕ) (v : AnyVal) :
    threadCountOf w₁.metricMap r i v = threadCountOf w.metricMap r i v :=
  (World.ruleCheck_spec hcheck).threadCount r i v

theorem Tallied.ruleCheck (hK : Tallied w) {token : TokenResult}
    (hcheck : (w.built env c).ruleCheck env t c = some (w₁, token)) : Tallied w₁ := by
  refine ⟨fun i v => ?_, fun r i v hv => ?_⟩
  · rw [threadCountOf_ruleCheck hcheck]
    exact hK.emptyName i v
  · rw [threadCountOf_ruleCheck hcheck]
    exact hK.lt r i v hv

/-- An admission keeps the counts within their bounds precisely when none of them wraps. -/
theorem ParamThreadsBounded.passed_iff (hK : Tallied w) (hP : ParamThreadsBounded w)
    (hcheck : (w.built env c).ruleCheck env t c = some (w₁, .ok)) :
    ParamThreadsBounded
      { w₁.recordPass t c with entries := w₁.entries ++ [World.admittedEntry t c] } ↔
      ∀ (i : ℕ) v, c.params[i]? = some v → v.supported = true →
        threadCountOf w.metricMap c.resource i v ≠ 2 ^ 31 - 1 := by
  constructor
  · intro hP' i v hp hv hmax
    obtain ⟨h0, -⟩ := hP' c.resource i v hv
    have hold := threadCountOf_ruleCheck hcheck c.resource i v
    rcases threadCountOf_recordPass w₁ (t := t) (c := c) (i := i) hv with
      ⟨-, -, heq⟩ | ⟨hno | hno, -⟩
    · -- the largest int becomes the smallest
      have hwrap : toInt32 (2 ^ 31 - 1 + 1) = -2 ^ 31 := by decide
      dsimp only at h0
      rw [heq, hold, hmax, hwrap] at h0
      omega
    · exact hno hp
    · have hzero := (hK.ruleCheck hcheck).of_not_hasCache hno v
      omega
  · intro hcounted r i v hv
    have hold := threadCountOf_ruleCheck hcheck r i v
    obtain ⟨h0, hle⟩ := hP r i v hv
    rw [World.live_recordPass _ hcheck]
    dsimp only
    by_cases hr : r = c.resource
    · subst hr
      rcases threadCountOf_recordPass w₁ (t := t) (c := c) (i := i) hv with
        ⟨hp, -, heq⟩ | ⟨-, heq | heq⟩
      · have hon : hasParam c.resource i v (World.admittedEntry t c) = true :=
          hasParam_iff.mpr ⟨rfl, hp⟩
        have hlt := hK.lt c.resource i v hv
        have hne := hcounted i v hp hv
        rw [heq, hold, if_pos hon, toInt32_of_bounds (by omega) (by omega)]
        push_cast
        omega
      · rw [heq, hold]
        push_cast
        omega
      · rw [heq]
        omega
    · rw [recordPass_metricMap, threadCountOf_withParamMetric_of_ne hr, hold]
      push_cast
      omega

theorem recordExit_metricMap {id : ℕ} {e : Entry} {count : ℤ} :
    (w.recordExit t count id e (.cluster e.resource)).metricMap =
      withParamMetric w.metricMap e.resource fun m => m.decreaseThreadCount e.params := by
  simp [World.recordExit, statisticSlotExit, Entry.hasBlockError]

/-- The counts after an exit, value by value. -/
theorem threadCountOf_recordExit {id : ℕ} {e : Entry} {count : ℤ} {i : ℕ} {v : AnyVal}
    (hv : v.supported = true) :
    (e.params[i]? = some v ∧ HasCache w.metricMap e.resource i ∧
      threadCountOf (w.recordExit t count id e (.cluster e.resource)).metricMap e.resource i v =
        toInt32 (threadCountOf w.metricMap e.resource i v + -1)) ∨
    ((e.params[i]? ≠ some v ∨ ¬ HasCache w.metricMap e.resource i) ∧
      (threadCountOf (w.recordExit t count id e (.cluster e.resource)).metricMap e.resource i v =
        threadCountOf w.metricMap e.resource i v ∨
      threadCountOf (w.recordExit t count id e (.cluster e.resource)).metricMap e.resource i v =
        0)) := by
  rw [recordExit_metricMap]
  exact threadCountOf_change _ _ _ hv fun m => rfl

/-- An exit keeps the counts within their bounds precisely when it discounts only what was counted. -/
theorem ParamThreadsBounded.exited_iff (hK : Tallied w) (hP : ParamThreadsBounded w)
    {id : ℕ} {e : Entry} {count : ℤ} (hid : w.entries[id]? = some e) (hlive : e.exited = false) :
    ParamThreadsBounded (w.recordExit t count id e (.cluster e.resource)) ↔
      ∀ (i : ℕ) v, e.params[i]? = some v → v.supported = true →
        HasCache w.metricMap e.resource i → 1 ≤ threadCountOf w.metricMap e.resource i v := by
  have hcount : ∀ r (i : ℕ) v, w.live (hasParam r i v) =
      (w.recordExit t count id e (.cluster e.resource)).live (hasParam r i v) +
        if hasParam r i v e then 1 else 0 :=
    fun r i v => World.live_of_set_exited (hasParam r i v) hid rfl hlive rfl
  constructor
  · intro hP' i v hp hv hcache
    obtain ⟨h0, -⟩ := hP' e.resource i v hv
    rcases threadCountOf_recordExit (w := w) (t := t) (e := e) (i := i) hv with
      ⟨-, -, heq⟩ | ⟨hno | hno, -⟩
    · obtain ⟨hnonneg, -⟩ := hP e.resource i v hv
      have hlt := hK.lt e.resource i v hv
      rw [heq, toInt32_of_bounds (by omega) (by omega)] at h0
      omega
    · exact absurd hp hno
    · exact absurd hcache hno
  · intro hcounted r i v hv
    obtain ⟨h0, hle⟩ := hP r i v hv
    have hlive' := hcount r i v
    by_cases hr : r = e.resource
    · subst hr
      rcases threadCountOf_recordExit (w := w) (t := t) (e := e) (i := i) hv with
        ⟨hp, hcache, heq⟩ | ⟨hno, heq⟩
      · have h1 := hcounted i v hp hv hcache
        have hlt := hK.lt e.resource i v hv
        rw [if_pos (hasParam_iff.mpr ⟨rfl, hp⟩)] at hlive'
        rw [heq, toInt32_of_bounds (by omega) (by omega)]
        omega
      · rcases hno with hno | hno
        · have hon : ¬ hasParam e.resource i v e = true := fun h => hno (hasParam_iff.mp h).2
          rw [if_neg hon] at hlive'
          rcases heq with heq | heq
          · rw [heq]
            omega
          · rw [heq]
            omega
        · -- nothing was counted at this position
          have hzero := hK.of_not_hasCache hno v
          rw [hzero, or_self] at heq
          rw [heq]
          omega
    · have hon : ¬ hasParam r i v e = true := fun h => hr (hasParam_iff.mp h).1.symm
      rw [if_neg hon] at hlive'
      rw [recordExit_metricMap, threadCountOf_withParamMetric_of_ne hr]
      omega

/-- Only exits and entries can fail the condition. -/
theorem counted_of_other {op : Op} {o : Outcome} (hexit : ∀ id count, op ≠ .exit (some id) count)
    (hentry : ∀ c, op = .entry c → o ≠ .passed) :
    ExitsCounted w ((t, op), o) ∧ EntriesCounted w ((t, op), o) := by
  cases op with
  | exit result count =>
    cases result with
    | none => exact ⟨trivial, trivial⟩
    | some id => exact absurd rfl (hexit id count)
  | entry c =>
    refine ⟨trivial, ?_⟩
    cases o with
    | passed => exact absurd rfl (hentry c rfl)
    | _ => exact trivial
  | _ => exact ⟨trivial, trivial⟩

/-- **One step.** -/
theorem ParamThreadsBounded.step_iff (hK : Tallied w) (hP : ParamThreadsBounded w) {op : Op}
    {o : Outcome} (h : Effect env t w op o w') :
    ParamThreadsBounded w' ↔ ExitsCounted w ((t, op), o) ∧ EntriesCounted w ((t, op), o) := by
  cases h with
  | notActivated hact =>
    refine iff_of_true (hP.of_eq (fun _ _ _ => rfl) fun p => ?_) ⟨trivial, trivial⟩
    rw [World.live, List.countP_append]
    rfl
  | passed hact hcheck =>
    rw [hP.passed_iff hK hcheck]
    exact (and_iff_right trivial).symm
  | @blocked c w₁ reason hact hcheck =>
    refine iff_of_true (hP.of_eq (fun r i v => ?_) fun p => ?_) ⟨trivial, trivial⟩
    · rw [World.recordBlock_metricMap]
      exact threadCountOf_ruleCheck hcheck r i v
    · exact World.live_recordBlock p hcheck reason
  | @exited id e count hid hlive =>
    rw [hP.exited_iff hK hid hlive]
    simp only [ExitsCounted, EntriesCounted, and_true, hid, Option.some.injEq]
    constructor
    · rintro h e' rfl -
      exact h
    · intro h
      exact h e rfl hlive
  | @exitedBefore id e count hid hlive =>
    refine iff_of_true hP ⟨?_, trivial⟩
    rintro e' he' hlive'
    obtain rfl : e = e' := Option.some.inj (hid.symm.trans he')
    simp [hlive] at hlive'
  | exitBlocked | setActivated =>
    exact iff_of_true (hP.of_eq (fun _ _ _ => rfl) fun _ => rfl) ⟨trivial, trivial⟩
  | trace hid => exact iff_of_true (hP.of_eq (fun _ _ _ => rfl) fun _ => rfl) ⟨trivial, trivial⟩
  | @setError id e err hid =>
    refine iff_of_true (fun r i v hv => ?_) ⟨trivial, trivial⟩
    have hsame : World.live { w with entries := w.entries.set id { e with error := err } }
        (hasParam r i v) = w.live (hasParam r i v) := World.live_of_set_same _ hid rfl rfl rfl
    rw [hsame]
    exact hP r i v hv
  | config r hw' hop hop' hop'' =>
    subst hw'
    refine iff_of_true (hP.of_eq ?_ ?_) (counted_of_other hop' fun c hc => absurd hc (hop c))
    · unfold World.setConfig
      split_ifs <;> exact fun _ _ _ => rfl
    · unfold World.setConfig
      split_ifs <;> exact fun _ => rfl
  | rules hw' hcb hop hop' hop'' =>
    refine iff_of_true (hP.of_eq ?_ ?_) (counted_of_other hop' fun c hc => absurd hc (hop c))
    · rw [hw']
      exact fun _ _ _ => rfl
    · rw [hw']
      exact fun _ => rfl

/-- A change of the counts keeps them tallied. -/
theorem Tallied.of_change (hK : Tallied w) {resource : String} {f : ParamMetric → ParamMetric} {value : ℤ}
    (params : List AnyVal) (hf : ∀ m, (f m).threadCountMap =
      ParamMetric.changeThreadCount m.threadCountMap value 0 params)
    (hmap : w'.metricMap = withParamMetric w.metricMap resource f) : Tallied w' := by
  refine ⟨fun i v => ?_, fun r i v hv => ?_⟩
  · rw [hmap, threadCountOf_withParamMetric_empty]
    exact hK.emptyName i v
  · rw [hmap]
    by_cases hr : r = resource
    · subst hr
      rcases threadCountOf_change w.metricMap r i hv hf with ⟨-, -, heq⟩ | ⟨-, heq | heq⟩
      · rw [heq]
        exact toInt32_lt _
      · rw [heq]
        exact hK.lt r i v hv
      · rw [heq]
        omega
    · rw [threadCountOf_withParamMetric_of_ne hr]
      exact hK.lt r i v hv

theorem Tallied.of_eq (hK : Tallied w) (hmap : w'.metricMap = w.metricMap) : Tallied w' := by
  refine ⟨fun i v => ?_, fun r i v hv => ?_⟩
  · rw [hmap]
    exact hK.emptyName i v
  · rw [hmap]
    exact hK.lt r i v hv

theorem Tallied.step (hK : Tallied w) {op : Op} {o : Outcome} (h : Effect env t w op o w') :
    Tallied w' := by
  cases h with
  | @passed c w₁ hact hcheck =>
    exact (hK.ruleCheck hcheck).of_change c.params (fun m => rfl) recordPass_metricMap
  | @blocked c w₁ reason hact hcheck =>
    exact (hK.ruleCheck hcheck).of_eq (World.recordBlock_metricMap _)
  | @exited id e count hid hlive =>
    exact hK.of_change e.params (fun m => rfl) recordExit_metricMap
  | config r hw' hop hop' hop'' =>
    subst hw'
    refine hK.of_eq ?_
    unfold World.setConfig
    split_ifs <;> rfl
  | rules hw' hcb hop hop' hop'' =>
    rw [hw']
    exact hK.of_eq rfl
  | _ => exact hK.of_eq rfl

end Step

/-! ### Runs -/

theorem tallied_run {env : Env} {tr : List Label} {w : World}
    (h : World.Steps env (World.start env) tr w) : Tallied w := by
  refine Run.hist (I := fun _ w => Tallied w) ⟨fun _ _ => rfl, fun _ _ _ _ => Int.pow_pos (by omega)⟩ ?_ h
  rintro tr w ⟨⟨t, op⟩, o⟩ w' hr hK hstep
  exact hK.step (step_effect (books_run hr) hstep)

/-- While few entries are outstanding no count is the largest `int`. -/
theorem entriesCounted_of_live_lt {env : Env} {w w' : World} {t : ℕ} {op : Op} {o : Outcome}
    (hP : ParamThreadsBounded w) (h : Effect env t w op o w')
    (hfew : w'.live (fun _ => true) < 2 ^ 31) : EntriesCounted w ((t, op), o) := by
  cases h with
  | @passed c w₁ hact hcheck =>
    intro i v hp hv hmax
    obtain ⟨-, hle⟩ := hP c.resource i v hv
    have hmono : w.live (hasParam c.resource i v) ≤ w.live fun _ => true := by
      refine List.countP_mono_left fun e _ he => ?_
      rw [Bool.and_eq_true] at he ⊢
      exact ⟨he.1, rfl⟩
    rw [World.live_recordPass _ hcheck, if_pos rfl] at hfew
    omega
  | config r hw' hop hop' hop'' => exact (counted_of_other hop' fun c hc => absurd hc (hop c)).2
  | rules hw' hcb hop hop' hop'' => exact (counted_of_other hop' fun c hc => absurd hc (hop c)).2
  | _ => exact trivial

/-- **Bounds of the thread counts.**  In every run the count of each argument value stays between zero
and the number of outstanding entries with it, if and only if no exit finds a value uncounted at a
position that has a cache and no admission finds one counted 2^31 - 1 times.  While fewer than 2^31 entries
are outstanding, the exits alone decide. -/
theorem paramThreadsBounded_iff {env : Env} {tr : List Label} {w : World}
    (h : World.Steps env (World.start env) tr w) :
    (Always (StepOf (World.step env)) (World.start env) ParamThreadsBounded tr ↔
      EveryStep (StepOf (World.step env)) (World.start env)
        (fun w a => ExitsCounted w a ∧ EntriesCounted w a) tr) ∧
    (Always (StepOf (World.step env)) (World.start env) (fun w => w.live (fun _ => true) < 2 ^ 31) tr →
      (Always (StepOf (World.step env)) (World.start env) ParamThreadsBounded tr ↔
        EveryStep (StepOf (World.step env)) (World.start env) ExitsCounted tr)) := by
  constructor
  · refine always_iff_everyStep stepOf_det (paramThreadsBounded_start env) ?_ h
    rintro tr₁ w ⟨⟨t, op⟩, o⟩ w' - hr hP hstep
    exact hP.step_iff (tallied_run hr) (step_effect (books_run hr) hstep)
  · intro hfew
    refine always_iff_everyStep stepOf_det (paramThreadsBounded_start env) ?_ h
    rintro tr₁ w ⟨⟨t, op⟩, o⟩ w' hpre hr hP hstep
    have heffect := step_effect (books_run hr) hstep
    rw [hP.step_iff (tallied_run hr) heffect]
    exact and_iff_left (entriesCounted_of_live_lt hP heffect (hfew _ _ hpre (hr.snoc hstep)))

/-- A limit of ten calls at a time for each value of the first argument. -/
def threadRule : ParamFlowRule :=
  ((({ resource := "r", metricType := .kThreadCount } : ParamFlowRule).setParamIdx 0).setThreshold
    10).setCacheSize 200

/-- A call with 7 before the rule is loaded, one with 8 after; then the first exits. -/
def loadInBetween : List (ℕ × Op) :=
  [(0, .entry ⟨0, "r", .IN, 1, [.int32 7]⟩), (1, .paramRules (.loadRules [threadRule])),
    (2, .entry ⟨0, "r", .IN, 1, [.int32 8]⟩), (3, .exit (some 0) 1)]

/-- The exit discounts a value that was never counted. -/
theorem paramThreadsBounded_fails : ∃ w tr, World.Steps (.simple "") (.start (.simple "")) tr w ∧
    tr.map Prod.fst = loadInBetween ∧
    tr.map Prod.snd = [.passed, .done, .passed, .exited true] ∧
    threadCountOf w.metricMap "r" 0 (.int32 7) = -1 ∧ ¬ ParamThreadsBounded w := by
  have hx : (execute (World.step (.simple "")) (.start (.simple "")) loadInBetween).map (fun r =>
      (r.1.map Prod.snd, threadCountOf r.2.metricMap "r" 0 (.int32 7))) =
      some ([.passed, .done, .passed, .exited true], -1) := by
    decide
  obtain ⟨⟨tr, w⟩, hr, heq⟩ := Option.map_eq_some_iff.mp hx
  simp only [Prod.mk.injEq] at heq
  obtain ⟨hout, hcount⟩ := heq
  refine ⟨w, tr, run_of_execute hr, execute_inputs hr, hout, hcount, fun hP => ?_⟩
  have h0 := (hP "r" 0 (.int32 7) rfl).1
  rw [Nat.cast_zero, hcount] at h0
  omega

/-- The law at the run above. -/
theorem paramThreadsBounded_iff_example : ∃ w tr,
    World.Steps (.simple "") (.start (.simple "")) tr w ∧ tr.map Prod.fst = loadInBetween ∧
    (Always (StepOf (World.step (.simple ""))) (.start (.simple "")) ParamThreadsBounded tr ↔
      EveryStep (StepOf (World.step (.simple ""))) (.start (.simple ""))
        (fun w a => ExitsCounted w a ∧ EntriesCounted w a) tr) ∧
    (Always (StepOf (World.step (.simple ""))) (.start (.simple ""))
        (fun w => w.live (fun _ => true) < 2 ^ 31) tr →
      (Always (StepOf (World.step (.simple ""))) (.start (.simple "")) ParamThreadsBounded tr ↔
        EveryStep (StepOf (World.step (.simple ""))) (.start (.simple "")) ExitsCounted tr)) := by
  obtain ⟨w, hx, hr⟩ := exists_run_of_outputs (World.step (.simple "")) (.start (.simple ""))
    loadInBetween [.passed, .done, .passed, .exited true] (by decide)
  exact ⟨w, _, hr, execute_inputs hx, paramThreadsBounded_iff hr⟩

end SentinelCpp
