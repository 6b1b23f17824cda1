import SentinelCpp.CircuitBreaker.Protocol
import SentinelCpp.CircuitBreaker.RuleManager

/-!
# When a breaker trips

The two classes that `NewCircuitBreaker` builds compare a ratio with the threshold.  Their leap array
has one slot, and closing the breaker clears it, so what is compared is the ratio over the completions
of the current window made since the breaker last closed.
-/

namespace SentinelCpp.CircuitBreaker.AbstractCircuitBreaker

open Lib Stat

variable (b : AbstractCircuitBreaker)

/-! ### Breakers that compare a ratio -/

/-- The completion counts against the breaker. -/
def isBad (rt : ℤ) (error : String) : Bool :=
  match b.cls with
  | .errorCircuitBreaker => decide (error ≠ "")
  | .responseTimeCircuitBreaker => decide (rt > b.rule.maxAllowedRt)

/-- A response-time breaker, or an error breaker of strategy `kErrorRatio`. -/
def ComparesRatio : Prop := b.cls = .errorCircuitBreaker → b.rule.strategy = .kErrorRatio

/-- The value compared with the threshold. -/
def ratio (badCount totalCount : ℤ) : ℚ := (badCount : ℚ) * 1 / totalCount

variable {b}

/-- Only the class and the rule decide which completions are bad. -/
theorem isBad_congr {cb : AbstractCircuitBreaker} (hcls : cb.cls = b.cls) (hrule : cb.rule = b.rule)
    (rt : ℤ) (error : String) : cb.isBad rt error = b.isBad rt error := by
  unfold isBad
  rw [hcls, hrule]

theorem ComparesRatio.congr {cb : AbstractCircuitBreaker} (h : b.ComparesRatio)
    (hcls : cb.cls = b.cls) (hrule : cb.rule = b.rule) : cb.ComparesRatio := by
  intro hc
  rw [hrule]
  exact h (hcls.symm.trans hc)

theorem recordComplete_of_comparesRatio (h : b.ComparesRatio) (t : ℕ) (rt : ℤ) (error : String) :
    b.recordComplete t rt error = b.recordCompleteWith t (b.isBad rt error) ratio := by
  unfold recordComplete isBad
  cases hcls : b.cls with
  | errorCircuitBreaker =>
    simp only [errorRecordComplete, if_pos (h hcls)]
    rfl
  | responseTimeCircuitBreaker => rfl

theorem comparesRatio_of_new {rule : Rule} (h : newCircuitBreaker rule = some b) :
    b.ComparesRatio := by
  unfold newCircuitBreaker at h
  cases hs : rule.strategy with
  | kSlowRtRatio =>
    rw [hs] at h
    obtain rfl := Option.some.inj h
    intro hcls
    exact absurd hcls (by simp [mk'])
  | kErrorRatio =>
    rw [hs] at h
    obtain rfl := Option.some.inj h
    exact fun _ => hs
  | kErrorCount => simp [hs] at h

/-- What `NewCircuitBreaker` builds, whichever the class. -/
theorem eq_mk'_of_new {rule : Rule} (h : newCircuitBreaker rule = some b) :
    b = mk' rule b.cls := by
  unfold newCircuitBreaker at h
  cases hs : rule.strategy <;> rw [hs] at h
  · obtain rfl := Option.some.inj h
    rfl
  · obtain rfl := Option.some.inj h
    rfl
  · exact absurd h (by simp)

/-! ### What a completion does to a ratio breaker -/

/-- Counting one completion. -/
def count (bad : Bool) (c : RequestCounter) : RequestCounter where
  bad := if bad then c.bad + 1 else c.bad
  total := c.total + 1

/-- The breaker with a completion counted, before its state is looked at. -/
def counted (b : AbstractCircuitBreaker) (t : ℕ) (bad : Bool) : AbstractCircuitBreaker :=
  { b with slidingCounter := b.slidingCounter.updateCurrent t (count bad) }

theorem recordComplete_eq (h : b.ComparesRatio) (t : ℕ) (rt : ℤ) (error : String) :
    b.recordComplete t rt error =
      (b.counted t (b.isBad rt error)).recordAndHandleStateChange t (b.isBad rt error) ratio := by
  rw [recordComplete_of_comparesRatio h]
  rfl

/-- From Closed, the breaker opens exactly when the counts it reads call for it. -/
theorem recordComplete_isOpen_iff (h : b.ComparesRatio) (hs : b.currentState = .kClosed) (t : ℕ)
    (rt : ℤ) (error : String) {bad total : ℤ}
    (hbad : (((b.counted t (b.isBad rt error)).slidingCounter.values t).map
      RequestCounter.bad).sum = bad)
    (htotal : (((b.counted t (b.isBad rt error)).slidingCounter.values t).map
      RequestCounter.total).sum = total) :
    (b.recordComplete t rt error).currentState = .kOpen ↔
      b.rule.minRequestAmount ≤ total ∧ b.rule.threshold < bad / total := by
  have hs' : (b.counted t (b.isBad rt error)).currentState = .kClosed := hs
  have hrule : (b.counted t (b.isBad rt error)).rule = b.rule := rfl
  rw [recordComplete_eq h, recordAndHandleStateChange, hs']
  dsimp only
  rw [hbad, htotal, hrule, ratio, mul_one]
  split_ifs with h1 h2
  · simp only [hs', reduceCtorEq, false_iff, not_and]
    intro hle
    omega
  · simp only [fromCloseToOpen, hs', if_true, updateNextRetryTimestamp, true_iff]
    exact ⟨not_lt.mp h1, h2⟩
  · simp only [hs', reduceCtorEq, false_iff, not_and]
    exact fun _ => h2

/-! ### The completions since the breaker last closed -/

section Since

variable (b) (calls : List (ℕ × Op))

/-- The call with index `i` moves the breaker from HalfOpen to Closed. -/
def Closes (i : ℕ) : Prop :=
  (b.stateAt calls i).currentState = .kHalfOpen ∧ (b.stateAt calls (i + 1)).currentState = .kClosed

instance (i : ℕ) : Decidable (b.Closes calls i) := inferInstanceAs (Decidable (_ ∧ _))

/-- How many of the first `i` calls there are up to the last one that closed the breaker. -/
def lastClosed : ℕ → ℕ
  | 0 => 0
  | i + 1 => if b.Closes calls i then i + 1 else lastClosed i

/-- The completions among these calls, with their times. -/
def completions (calls : List (ℕ × Op)) : Hist (ℤ × String) :=
  calls.filterMap fun c =>
    match c.2 with
    | .tryPass => none
    | .recordComplete rt error => some (c.1, (rt, error))

/-- The completions among the first `i` calls made after the last of them that closed the breaker. -/
def sinceClosed (i : ℕ) : Hist (ℤ × String) :=
  completions ((calls.take i).drop (b.lastClosed calls i))

/-- Those of them in the aligned statistic window that ends at time `t`. -/
def inStatWindow (i t : ℕ) : List (ℤ × String) :=
  let interval := b.rule.statIntervalMs.toNat
  ((b.sinceClosed calls i).filter fun x => interval * (t / interval) ≤ x.1 ∧ x.1 ≤ t).map Prod.snd

theorem lastClosed_le (i : ℕ) : b.lastClosed calls i ≤ i := by
  induction i with
  | zero => exact le_rfl
  | succ i ih =>
    rw [lastClosed]
    split_ifs
    · exact le_rfl
    · omega

variable {b calls} {i : ℕ}

theorem sinceClosed_of_closes (h : b.Closes calls i) : b.sinceClosed calls (i + 1) = [] := by
  rw [sinceClosed, lastClosed, if_pos h, List.drop_eq_nil_of_le (List.length_take_le _ _)]
  rfl

theorem sinceClosed_succ (h : ¬ b.Closes calls i) {c : ℕ × Op} (hc : calls[i]? = some c) :
    b.sinceClosed calls (i + 1) = b.sinceClosed calls i ++ completions [c] := by
  have hi : i < calls.length := by
    by_contra hlt
    rw [List.getElem?_eq_none (not_lt.mp hlt)] at hc
    simp at hc
  have hle : b.lastClosed calls i ≤ (calls.take i).length := by
    rw [List.length_take_of_le hi.le]
    exact b.lastClosed_le calls i
  rw [sinceClosed, lastClosed, if_neg h, List.take_add_one, hc, Option.toList_some,
    List.drop_append_of_le_length hle, completions, List.filterMap_append]
  rfl

/-- Past the last call nothing changes. -/
theorem not_closes_of_none (h : calls[i]? = none) : ¬ b.Closes calls i := by
  rintro ⟨h1, h2⟩
  rw [b.stateAt_succ_of_none calls h, h1] at h2
  exact absurd h2 (by simp)

theorem mem_sinceClosed {x : ℕ × ℤ × String} (h : x ∈ b.sinceClosed calls i) :
    ∃ c ∈ calls.take i, c.1 = x.1 := by
  obtain ⟨c, hc, hx⟩ := List.mem_filterMap.mp h
  refine ⟨c, List.mem_of_mem_drop hc, ?_⟩
  obtain ⟨t, op⟩ := c
  cases op with
  | tryPass => exact absurd hx (by simp)
  | recordComplete rt error =>
    obtain rfl := Option.some.inj hx
    rfl

end Since

/-! ### What the counters stand for -/

/-- The counter of a bucket stands for these completions. -/
def Counts (b : AbstractCircuitBreaker) (c : RequestCounter) (es : List (ℤ × String)) : Prop :=
  c.bad = (es.map fun e => if b.isBad e.1 e.2 then (1 : ℤ) else 0).sum ∧
    c.total = (es.map fun _ => (1 : ℤ)).sum

theorem counts_nil (b : AbstractCircuitBreaker) : b.Counts ⟨0, 0⟩ [] := ⟨rfl, rfl⟩

theorem Counts.concat {c : RequestCounter} {es : List (ℤ × String)} (h : b.Counts c es) (rt : ℤ)
    (error : String) : b.Counts (count (b.isBad rt error) c) (es ++ [(rt, error)]) := by
  obtain ⟨h1, h2⟩ := h
  refine ⟨?_, ?_⟩
  · rw [List.map_append, List.sum_append, ← h1, count]
    cases hb : b.isBad rt error <;> simp [hb]
  · rw [List.map_append, List.sum_append, ← h2]
    rfl

/-- The leap array has one slot of the statistic interval and stands for the completions made since the
breaker last closed, at every time not before them. -/
structure Tracks (b cb : AbstractCircuitBreaker) (h : Hist (ℤ × String)) (t : ℕ) : Prop where
  rule : cb.rule = b.rule
  cls : cb.cls = b.cls
  one : cb.slidingCounter.sampleCount = 1
  interval : cb.slidingCounter.intervalMs = b.rule.statIntervalMs.toNat
  empty : cb.slidingCounter.newEmptyBucket = ⟨0, 0⟩
  stands : cb.slidingCounter.Stands b.Counts h t

section Tracks

variable {cb : AbstractCircuitBreaker} {h : Hist (ℤ × String)} {t : ℕ}

theorem Tracks.isBad (hT : Tracks b cb h t) (rt : ℤ) (error : String) :
    cb.isBad rt error = b.isBad rt error :=
  isBad_congr hT.cls hT.rule rt error

theorem Tracks.bucketLengthMs (hT : Tracks b cb h t) :
    cb.slidingCounter.bucketLengthMs = b.rule.statIntervalMs.toNat := by
  rw [LeapArray.bucketLengthMs, hT.one, hT.interval, Nat.div_one]

theorem Tracks.later (hT : Tracks b cb h t) {t' : ℕ} (hle : t ≤ t') : Tracks b cb h t' :=
  ⟨hT.rule, hT.cls, hT.one, hT.interval, hT.empty, hT.stands.later hle⟩

/-- The state and the retry time play no part. -/
theorem Tracks.withState (hT : Tracks b cb h t) (s : State) (n : ℤ) :
    Tracks b { cb with currentState := s, nextRetryTimestamp := n } h t :=
  ⟨hT.rule, hT.cls, hT.one, hT.interval, hT.empty, hT.stands⟩

theorem tracks_new {rule : Rule} (hnew : newCircuitBreaker rule = some b) : Tracks b b [] t := by
  rw [eq_mk'_of_new hnew]
  exact ⟨rfl, rfl, rfl, rfl, rfl, LeapArray.stands_mk' _ _ _⟩

/-- Counting a completion. -/
theorem Tracks.counted (hT : Tracks b cb h t) (hI : 0 < b.rule.statIntervalMs.toNat) (rt : ℤ)
    (error : String) :
    Tracks b (cb.counted t (b.isBad rt error)) (h ++ [(t, (rt, error))]) t ∧
      (cb.counted t (b.isBad rt error)).slidingCounter.Visited t := by
  have hrec := hT.stands.record le_rfl (by rw [hT.bucketLengthMs]; exact hI)
    (by rw [hT.empty]; exact b.counts_nil) (fun _ _ _ => b.counts_nil)
    (fun v es hv => hv.concat (b := b) rt error)
  refine ⟨⟨hT.rule, hT.cls, ?_, ?_, ?_, hrec.1⟩, hrec.2⟩
  · rw [AbstractCircuitBreaker.counted, LeapArray.updateCurrent_sampleCount, hT.one]
  · rw [AbstractCircuitBreaker.counted, LeapArray.updateCurrent_intervalMs, hT.interval]
  · rw [AbstractCircuitBreaker.counted, LeapArray.updateCurrent_newEmptyBucket, hT.empty]

/-- `Reset()` clears the one bucket, so nothing is left of the completions before it. -/
theorem Tracks.reset (hT : Tracks b cb h t) : Tracks b (cb.reset t) [] t := by
  have hforget := hT.stands.forget le_rfl hT.one (by rw [hT.empty]; exact b.counts_nil)
    (fun _ _ _ => b.counts_nil) (f := Resettable.reset) (fun _ => b.counts_nil)
  refine ⟨hT.rule, hT.cls, ?_, ?_, ?_, hforget⟩
  · rw [AbstractCircuitBreaker.reset, LeapArray.updateCurrent_sampleCount, hT.one]
  · rw [AbstractCircuitBreaker.reset, LeapArray.updateCurrent_intervalMs, hT.interval]
  · rw [AbstractCircuitBreaker.reset, LeapArray.updateCurrent_newEmptyBucket, hT.empty]

/-- **One completion.**  Closing the breaker empties what the array stands for; otherwise the completion
is added. -/
theorem Tracks.recordComplete (hT : Tracks b cb h t) (hb : b.ComparesRatio)
    (hI : 0 < b.rule.statIntervalMs.toNat) (rt : ℤ) (error : String) :
    (cb.currentState = .kHalfOpen ∧ (cb.recordComplete t rt error).currentState = .kClosed ∧
        Tracks b (cb.recordComplete t rt error) [] t) ∨
      (¬ (cb.currentState = .kHalfOpen ∧ (cb.recordComplete t rt error).currentState = .kClosed) ∧
        Tracks b (cb.recordComplete t rt error) (h ++ [(t, (rt, error))]) t) := by
  have hC := (hT.counted hI rt error).1
  have hstate : (cb.counted t (b.isBad rt error)).currentState = cb.currentState := rfl
  rw [recordComplete_eq (hb.congr hT.cls hT.rule), hT.isBad]
  rcases (cb.counted t (b.isBad rt error)).recordAndHandleStateChange_cases t (b.isBad rt error)
    ratio with ⟨hs, heq⟩ | ⟨-, heq⟩ | ⟨hs, -, heq⟩
  · right
    rw [heq]
    exact ⟨fun hclose => hs (hstate.trans hclose.1), hC⟩
  · right
    rw [heq]
    exact ⟨fun hclose => absurd hclose.2 (by simp), hC.withState _ _⟩
  · left
    rw [heq]
    exact ⟨hstate.symm.trans hs, rfl, (hC.withState .kClosed cb.nextRetryTimestamp).reset⟩

theorem Tracks.tryPass (hT : Tracks b cb h t) :
    ¬ (cb.currentState = .kHalfOpen ∧ (cb.tryPass t).1.currentState = .kClosed) ∧
      Tracks b (cb.tryPass t).1 h t := by
  rcases cb.tryPass_cases t with ⟨hs, heq⟩ | ⟨hs, -, heq⟩ | ⟨hs, -, heq⟩ | ⟨hs, heq⟩
  all_goals rw [heq]
  · exact ⟨by simp [hs], hT⟩
  · exact ⟨by simp [hs], hT.withState .kHalfOpen cb.nextRetryTimestamp⟩
  · exact ⟨by simp [hs], hT⟩
  · exact ⟨by simp [hs], hT⟩

end Tracks

/-! ### Runs -/

section Runs

variable {calls : List (ℕ × Op)} {i t : ℕ}

/-- The times of the calls do not decrease. -/
def NonDecreasing (calls : List (ℕ × Op)) : Prop := (calls.map Prod.fst).Pairwise (· ≤ ·)

theorem NonDecreasing.le_of_mem_take (hmono : NonDecreasing calls) {c c' : ℕ × Op}
    (hc : calls[i]? = some c) (hc' : c' ∈ calls.take i) : c'.1 ≤ c.1 := by
  obtain ⟨j, hj⟩ := List.mem_iff_getElem?.mp hc'
  have hji : j < i := by
    by_contra hlt
    rw [List.getElem?_take_eq_none (not_lt.mp hlt)] at hj
    simp at hj
  rw [List.getElem?_take_of_lt hji] at hj
  obtain ⟨hi, rfl⟩ := List.getElem?_eq_some_iff.mp hc
  obtain ⟨hj', rfl⟩ := List.getElem?_eq_some_iff.mp hj
  have hget := List.pairwise_iff_getElem.mp hmono j i (by simpa using hj') (by simpa using hi) hji
  simpa using hget

/-- **Run.**  After every call the leap array stands for the completions since the breaker last
closed. -/
theorem tracks_stateAt {rule : Rule} (hnew : newCircuitBreaker rule = some b)
    (hI : 0 < b.rule.statIntervalMs.toNat) (hmono : NonDecreasing calls)
    (ht : ∀ c ∈ calls.take i, c.1 ≤ t) :
    Tracks b (b.stateAt calls i) (b.sinceClosed calls i) t := by
  induction i generalizing t with
  | zero =>
    have hstart : b.stateAt calls 0 = b := by simp [stateAt]
    have hnil : b.sinceClosed calls 0 = [] := by simp [sinceClosed, completions]
    rw [hstart, hnil]
    exact tracks_new hnew
  | succ i ih =>
    cases hc : calls[i]? with
    | none =>
      have htake : calls.take (i + 1) = calls.take i := by simp [List.take_add_one, hc]
      have hsince : b.sinceClosed calls (i + 1) = b.sinceClosed calls i := by
        rw [sinceClosed, lastClosed, if_neg (not_closes_of_none hc), htake]
        rfl
      rw [b.stateAt_succ_of_none calls hc, hsince]
      exact ih (htake ▸ ht)
    | some c =>
      obtain ⟨tc, op⟩ := c
      have htc : tc ≤ t := ht (tc, op) (by simp [List.take_add_one, hc])
      have hT := ih (t := tc) fun c' hc' => hmono.le_of_mem_take hc hc'
      have hsucc := b.stateAt_succ calls hc
      refine Tracks.later ?_ htc
      cases op with
      | tryPass =>
        obtain ⟨hno, hT'⟩ := hT.tryPass
        have hcl : ¬ b.Closes calls i := by rwa [Closes, hsucc]
        have hnone : completions [(tc, Op.tryPass)] = [] := rfl
        rw [sinceClosed_succ hcl hc, hsucc, hnone, List.append_nil]
        exact hT'
      | recordComplete rt error =>
        rcases hT.recordComplete (comparesRatio_of_new hnew) hI rt error with
          ⟨h1, h2, hT'⟩ | ⟨hno, hT'⟩
        · have hcl : b.Closes calls i := ⟨h1, by rw [hsucc]; exact h2⟩
          rw [sinceClosed_of_closes hcl, hsucc]
          exact hT'
        · have hcl : ¬ b.Closes calls i := by rwa [Closes, hsucc]
          rw [sinceClosed_succ hcl hc, hsucc]
          exact hT'

theorem past_of_getElem? (hmono : NonDecreasing calls) {c : ℕ × Op} (hc : calls[i]? = some c) :
    ∀ c' ∈ calls.take (i + 1), c'.1 ≤ c.1 := by
  intro c' hc'
  rw [List.take_add_one, hc, Option.toList_some, List.mem_append] at hc'
  rcases hc' with hc' | hc'
  · exact hmono.le_of_mem_take hc hc'
  · obtain rfl := List.mem_singleton.mp hc'
    exact le_rfl

theorem sum_isBad (es : List (ℤ × String)) :
    (es.map fun e => if b.isBad e.1 e.2 then (1 : ℤ) else 0).sum =
      (es.countP fun e => b.isBad e.1 e.2 : ℕ) := by
  induction es with
  | nil => rfl
  | cons e es ih =>
    rw [List.map_cons, List.sum_cons, ih, List.countP_cons]
    split_ifs
    · push_cast
      ring
    · push_cast
      ring

theorem statInterval_pos {rule : Rule} (hvalid : isValidRule rule = true) :
    0 < rule.statIntervalMs.toNat := by
  unfold isValidRule at hvalid
  split_ifs at hvalid with h1 h2
  omega

/-- **When a breaker trips.**  In every run at non-decreasing times, a completion recorded in Closed
opens the breaker exactly when, among the completions of the current window made since the breaker last
closed, this one included, there are enough and the ratio of bad ones exceeds the threshold. -/
theorem trips_iff {rule : Rule} (hvalid : isValidRule rule = true)
    (hnew : newCircuitBreaker rule = some b) (hmono : NonDecreasing calls) {rt : ℤ} {error : String}
    (hc : calls[i]? = some (t, .recordComplete rt error))
    (hclosed : (b.stateAt calls i).currentState = .kClosed) :
    (b.stateAt calls (i + 1)).currentState = .kOpen ↔
      rule.minRequestAmount ≤ (b.inStatWindow calls (i + 1) t).length ∧
        rule.threshold < ((b.inStatWindow calls (i + 1) t).countP fun e => b.isBad e.1 e.2 : ℕ) /
          (b.inStatWindow calls (i + 1) t).length := by
  have hratio := comparesRatio_of_new hnew
  have hrule : b.rule = rule := (CircuitBreakerMaps.hasBreaker_of_new hnew).2
  have hI : 0 < b.rule.statIntervalMs.toNat := hrule ▸ statInterval_pos hvalid
  have hT := tracks_stateAt hnew hI hmono (t := t) fun c' hc' => hmono.le_of_mem_take hc hc'
  obtain ⟨hC, hvisited⟩ := hT.counted hI rt error
  -- the call does not close the breaker, so its completion is the last of those since it closed
  have hcl : ¬ b.Closes calls i := by
    rintro ⟨hhalf, -⟩
    exact absurd (hclosed.symm.trans hhalf) (by simp)
  have hsince : b.sinceClosed calls (i + 1) = b.sinceClosed calls i ++ [(t, (rt, error))] :=
    sinceClosed_succ hcl hc
  rw [← hsince] at hC
  have hpast : ∀ x ∈ b.sinceClosed calls (i + 1), x.1 ≤ t := by
    intro x hx
    obtain ⟨c', hc', hx⟩ := mem_sinceClosed hx
    exact hx ▸ past_of_getElem? hmono hc c' hc'
  have hwf : ((b.stateAt calls i).counted t (b.isBad rt error)).slidingCounter.WellFormed := by
    refine ⟨by rw [hC.one]; exact one_pos, by rw [hC.bucketLengthMs]; exact hI, ?_⟩
    rw [hC.one, one_mul, hC.bucketLengthMs, hC.interval]
  have hwindow : inWindow 1 b.rule.statIntervalMs.toNat t (b.sinceClosed calls (i + 1)) =
      b.inStatWindow calls (i + 1) t := inWindow_one hI hpast
  have hbad := hC.stands.sum_values (fun _ _ hv => hv.1) hwf hvisited
  have htotal := hC.stands.sum_values (fun _ _ hv => hv.2) hwf hvisited
  rw [hC.one, hC.bucketLengthMs, hwindow, sum_isBad] at hbad
  rw [hC.one, hC.bucketLengthMs, hwindow, List.map_const', List.sum_replicate, nsmul_eq_mul,
    mul_one] at htotal
  rw [← hT.isBad] at hbad htotal
  have hiff := recordComplete_isOpen_iff (hratio.congr hT.cls hT.rule) hclosed t rt error hbad htotal
  rw [hT.rule, hrule, Int.cast_natCast, Int.cast_natCast] at hiff
  rw [b.stateAt_succ calls hc]
  exact hiff

/-- A rule that opens its breaker on more than half errors among at least two completions. -/
def halfRatioRule : Rule where
  resource := "api"
  strategy := .kErrorRatio
  threshold := 1 / 2
  retryTimeoutSec := 1
  minRequestAmount := 2

/-- Two errors open the breaker, a success after the cool-down closes it, and two more errors of the
same window open it again. -/
def opensTwice : List (ℕ × Op) :=
  [(0, .recordComplete 1 "e"), (1, .recordComplete 1 "e"), (1001, .tryPass),
    (1002, .recordComplete 1 ""), (1003, .recordComplete 1 "e"), (1004, .recordComplete 1 "e")]

theorem trips_iff_example :
    (stateAt (mk' halfRatioRule .errorCircuitBreaker) opensTwice 6).currentState = .kOpen ↔
      halfRatioRule.minRequestAmount ≤
          (inStatWindow (mk' halfRatioRule .errorCircuitBreaker) opensTwice 6 1004).length ∧
        halfRatioRule.threshold <
          ((inStatWindow (mk' halfRatioRule .errorCircuitBreaker) opensTwice 6 1004).countP fun e =>
            isBad (mk' halfRatioRule .errorCircuitBreaker) e.1 e.2 : ℕ) /
          (inStatWindow (mk' halfRatioRule .errorCircuitBreaker) opensTwice 6 1004).length :=
  have hmono : NonDecreasing opensTwice := by
    unfold NonDecreasing
    decide
  trips_iff (i := 5) (by decide +kernel) rfl hmono rfl (by decide +kernel)

example : (stateAt (mk' halfRatioRule .errorCircuitBreaker) opensTwice 6).currentState = .kOpen := by
  decide +kernel

end Runs

/-! ### Which breakers can trip -/

section CanTrip

variable {cb : AbstractCircuitBreaker} {k m t : ℕ}

/-- All of these are bad completions in the statistic window `k`. -/
def AllBad (b : AbstractCircuitBreaker) (k : ℕ) (calls : List (ℕ × Op)) : Prop :=
  ∀ c ∈ calls, c.1 / b.rule.statIntervalMs.toNat = k ∧
    ∃ rt error, c.2 = .recordComplete rt error ∧ b.isBad rt error = true

/-- The one slot counts `m` completions of window `k`, all bad. -/
structure Filled (b cb : AbstractCircuitBreaker) (k m : ℕ) : Prop where
  rule : cb.rule = b.rule
  cls : cb.cls = b.cls
  one : cb.slidingCounter.sampleCount = 1
  interval : cb.slidingCounter.intervalMs = b.rule.statIntervalMs.toNat
  empty : cb.slidingCounter.newEmptyBucket = ⟨0, 0⟩
  slot : cb.slidingCounter.array 0 =
    if m = 0 then none else some ⟨k * b.rule.statIntervalMs.toNat, ⟨m, m⟩⟩

theorem filled_new {rule : Rule} (hnew : newCircuitBreaker rule = some b) : Filled b b k 0 := by
  rw [eq_mk'_of_new hnew]
  exact ⟨rfl, rfl, rfl, rfl, rfl, rfl⟩

theorem Filled.calculateTimeIdx (hF : Filled b cb k m) :
    cb.slidingCounter.calculateTimeIdx t = 0 := by
  rw [LeapArray.calculateTimeIdx, hF.one, Nat.mod_one]

theorem Filled.calculateWindowStart (hF : Filled b cb k m)
    (ht : t / b.rule.statIntervalMs.toNat = k) :
    cb.slidingCounter.calculateWindowStart t = k * b.rule.statIntervalMs.toNat := by
  rw [LeapArray.calculateWindowStart_eq, LeapArray.bucketLengthMs, hF.one, Nat.div_one, hF.interval,
    ht]

/-- One more bad completion of the window. -/
theorem Filled.counted (hF : Filled b cb k m) (ht : t / b.rule.statIntervalMs.toNat = k) :
    Filled b (cb.counted t true) k (m + 1) := by
  refine ⟨hF.rule, hF.cls, ?_, ?_, ?_, ?_⟩
  · rw [AbstractCircuitBreaker.counted, LeapArray.updateCurrent_sampleCount, hF.one]
  · rw [AbstractCircuitBreaker.counted, LeapArray.updateCurrent_intervalMs, hF.interval]
  · rw [AbstractCircuitBreaker.counted, LeapArray.updateCurrent_newEmptyBucket, hF.empty]
  · have hslot := hF.slot
    have hidx := hF.calculateTimeIdx (t := t)
    have hstart := hF.calculateWindowStart ht
    rw [if_neg (Nat.succ_ne_zero m), AbstractCircuitBreaker.counted]
    by_cases hm : m = 0
    · subst hm
      rw [if_pos rfl] at hslot
      simp [LeapArray.updateCurrent, LeapArray.currentWindow, LeapArray.modify, LeapArray.setSlot,
        hidx, hstart, hslot, hF.empty, count]
    · rw [if_neg hm] at hslot
      rw [LeapArray.Visited.updateCurrent_eq (by rw [hidx, hstart]; exact hslot), hidx, hstart]
      simp [LeapArray.setSlot, count]

/-- What `Values()` returns after a completion of the window. -/
theorem Filled.values (hF : Filled b cb k (m + 1)) (hI : 0 < b.rule.statIntervalMs.toNat)
    (ht : t / b.rule.statIntervalMs.toNat = k) :
    cb.slidingCounter.values t = [⟨(m + 1 : ℕ), (m + 1 : ℕ)⟩] := by
  have hdep : cb.slidingCounter.isBucketDeprecated t
      ⟨k * b.rule.statIntervalMs.toNat, ⟨(m + 1 : ℕ), (m + 1 : ℕ)⟩⟩ = false := by
    have hlt := Nat.lt_div_mul_add hI (a := t)
    rw [ht] at hlt
    rw [LeapArray.isBucketDeprecated, hF.interval, decide_eq_false_iff_not]
    push_cast
    omega
  have hslot := hF.slot
  rw [if_neg (Nat.succ_ne_zero m)] at hslot
  rw [LeapArray.values, LeapArray.buckets, hF.one, List.range_one, List.filterMap_cons, hslot]
  simp only [hdep, Bool.false_eq_true, if_false, List.filterMap_nil, List.map_cons, List.map_nil]

/-- A bad completion in Closed either opens the breaker or is counted. -/
theorem Filled.recordComplete (hF : Filled b cb k m) (hb : b.ComparesRatio)
    (hI : 0 < b.rule.statIntervalMs.toNat) (ht : t / b.rule.statIntervalMs.toNat = k)
    (hs : cb.currentState = .kClosed) {rt : ℤ} {error : String} (hbad : b.isBad rt error = true) :
    ((cb.recordComplete t rt error).currentState = .kOpen ∧
        b.rule.minRequestAmount ≤ (m + 1 : ℕ) ∧ b.rule.threshold < 1) ∨
      ((cb.recordComplete t rt error).currentState = .kClosed ∧
        Filled b (cb.recordComplete t rt error) k (m + 1) ∧
        ¬ (b.rule.minRequestAmount ≤ (m + 1 : ℕ) ∧ b.rule.threshold < 1)) := by
  have hbad' : cb.isBad rt error = true := (isBad_congr hF.cls hF.rule rt error).trans hbad
  have hcb : cb.ComparesRatio := hb.congr hF.cls hF.rule
  have hC := hF.counted ht
  have hvalues := hC.values hI ht
  have hone : ((m + 1 : ℕ) : ℚ) / (m + 1 : ℕ) = 1 :=
    div_self (Nat.cast_ne_zero.mpr (Nat.succ_ne_zero m))
  have hsum : (((cb.counted t (cb.isBad rt error)).slidingCounter.values t).map
      RequestCounter.bad).sum = (m + 1 : ℕ) := by
    rw [hbad', hvalues]
    simp
  have htotal : (((cb.counted t (cb.isBad rt error)).slidingCounter.values t).map
      RequestCounter.total).sum = (m + 1 : ℕ) := by
    rw [hbad', hvalues]
    simp
  have hiff := recordComplete_isOpen_iff hcb hs t rt error hsum htotal
  rw [hF.rule, Int.cast_natCast, hone] at hiff
  by_cases hopen : (cb.recordComplete t rt error).currentState = .kOpen
  · exact .inl ⟨hopen, hiff.mp hopen⟩
  · right
    rw [recordComplete_eq hcb, hbad'] at hopen hiff ⊢
    rcases (cb.counted t true).recordAndHandleStateChange_cases t true ratio with
      ⟨-, heq⟩ | ⟨-, heq⟩ | ⟨-, hno, -⟩
    · rw [heq] at hopen hiff ⊢
      exact ⟨hs, hC, fun h => hopen (hiff.mpr h)⟩
    · rw [heq] at hopen
      exact absurd rfl hopen
    · exact absurd hno (by simp)

/-- A completion recorded in Open leaves the breaker Open. -/
theorem recordComplete_of_open (hs : cb.currentState = .kOpen) (t : ℕ) (rt : ℤ) (error : String) :
    (cb.recordComplete t rt error).currentState = .kOpen := by
  rcases (cb.recordComplete_cases t rt error).2 with ⟨-, h, -⟩ | ⟨-, h, -⟩ | ⟨hhalf, -, -⟩
  · rw [h, hs]
  · exact h
  · exact absurd (hs.symm.trans hhalf) (by simp)

/-- **Run of bad completions.**  The breaker is Open, or has counted them all and had no reason to
open. -/
theorem stateAt_of_allBad {rule : Rule} (hnew : newCircuitBreaker rule = some b)
    (hI : 0 < b.rule.statIntervalMs.toNat) {calls : List (ℕ × Op)} (hall : b.AllBad k calls) {i : ℕ}
    (hi : i ≤ calls.length) :
    ((b.stateAt calls i).currentState = .kOpen ∧ b.rule.threshold < 1) ∨
      ((b.stateAt calls i).currentState = .kClosed ∧ Filled b (b.stateAt calls i) k i ∧
        ¬ (0 < i ∧ b.rule.minRequestAmount ≤ i ∧ b.rule.threshold < 1)) := by
  induction i with
  | zero =>
    right
    have hstart : b.stateAt calls 0 = b := by simp [stateAt]
    have hclosed : b.currentState = .kClosed := by rw [eq_mk'_of_new hnew]; rfl
    rw [hstart]
    exact ⟨hclosed, filled_new hnew, fun h => absurd h.1 (lt_irrefl 0)⟩
  | succ i ih =>
    have hc := List.getElem?_eq_getElem (Nat.lt_of_succ_le hi)
    obtain ⟨ht, rt, error, hop, hbad⟩ := hall _ (List.getElem_mem (Nat.lt_of_succ_le hi))
    have hsucc := b.stateAt_succ calls hc
    rw [call, hop] at hsucc
    rw [hsucc]
    rcases ih (Nat.le_of_succ_le hi) with ⟨hopen, hlt⟩ | ⟨hclosed, hF, -⟩
    · exact .inl ⟨recordComplete_of_open hopen _ _ _, hlt⟩
    · rcases hF.recordComplete (comparesRatio_of_new hnew) hI ht hclosed hbad with
        ⟨hopen, -, hlt⟩ | ⟨hclosed', hF', hno⟩
      · exact .inl ⟨hopen, hlt⟩
      · exact .inr ⟨hclosed', hF', fun h => hno h.2⟩

theorem exists_isBad (b : AbstractCircuitBreaker) : ∃ rt error, b.isBad rt error = true := by
  refine ⟨b.rule.maxAllowedRt + 1, "error", ?_⟩
  unfold isBad
  cases b.cls with
  | errorCircuitBreaker => simp
  | responseTimeCircuitBreaker => simp

/-- If some number of bad completions always opens a new breaker, its threshold is below one. -/
theorem threshold_lt_of_opens {rule : Rule} (hnew : newCircuitBreaker rule = some b)
    (hI : 0 < b.rule.statIntervalMs.toNat) {n : ℕ}
    (hn : ∀ calls k, calls.length = n → b.AllBad k calls →
      (b.stateAt calls n).currentState = .kOpen) : b.rule.threshold < 1 := by
  obtain ⟨rt, error, hbad⟩ := b.exists_isBad
  have hall : b.AllBad 0 (List.replicate n (0, .recordComplete rt error)) := by
    intro c hc
    obtain rfl := List.eq_of_mem_replicate hc
    exact ⟨Nat.zero_div _, rt, error, rfl, hbad⟩
  have hopen := hn _ 0 List.length_replicate hall
  rcases stateAt_of_allBad hnew hI hall (i := n) List.length_replicate.ge with
    ⟨-, hlt⟩ | ⟨hclosed, -⟩
  · exact hlt
  · exact absurd (hopen.symm.trans hclosed) (by simp)

/-- **Which breakers can trip.**  Some number of bad completions in one window, whatever they are, opens
a new breaker exactly when its threshold is below one. -/
theorem canTrip_iff {rule : Rule} (hvalid : isValidRule rule = true)
    (hnew : newCircuitBreaker rule = some b) :
    (∃ n, ∀ calls k, calls.length = n → b.AllBad k calls →
        (b.stateAt calls n).currentState = .kOpen) ↔ rule.threshold < 1 := by
  have hrule : b.rule = rule := (CircuitBreakerMaps.hasBreaker_of_new hnew).2
  have hI : 0 < b.rule.statIntervalMs.toNat := hrule ▸ statInterval_pos hvalid
  constructor
  · rintro ⟨n, hn⟩
    exact hrule ▸ threshold_lt_of_opens hnew hI hn
  · intro hlt
    -- enough completions are those that `min_request_amount` asks for, and at least one
    refine ⟨max 1 rule.minRequestAmount.toNat, fun calls k hlen hall => ?_⟩
    rcases stateAt_of_allBad hnew hI hall hlen.ge with ⟨hopen, -⟩ | ⟨-, -, hno⟩
    · exact hopen
    · rw [hrule] at hno
      exact absurd ⟨by omega, by omega, hlt⟩ hno

/-- An accepted rule whose threshold is the largest ratio there is. -/
def wholeRatioRule : Rule where
  resource := "api"
  strategy := .kErrorRatio
  threshold := 1
  retryTimeoutSec := 1

/-- No number of errors opens the breaker of `wholeRatioRule`. -/
theorem canTrip_fails : isValidRule wholeRatioRule = true ∧
    newCircuitBreaker wholeRatioRule = some (mk' wholeRatioRule .errorCircuitBreaker) ∧
    ¬ ∃ n, ∀ calls k, calls.length = n →
        AllBad (mk' wholeRatioRule .errorCircuitBreaker) k calls →
        (stateAt (mk' wholeRatioRule .errorCircuitBreaker) calls n).currentState = .kOpen := by
  refine ⟨by decide, rfl, ?_⟩
  rintro ⟨n, hn⟩
  have hnew : newCircuitBreaker wholeRatioRule = some (mk' wholeRatioRule .errorCircuitBreaker) := rfl
  exact lt_irrefl (1 : ℚ) (threshold_lt_of_opens hnew (by decide) hn)

theorem canTrip_iff_example :
    (∃ n, ∀ calls k, calls.length = n →
        AllBad (mk' { wholeRatioRule with threshold := 1 / 2 } .errorCircuitBreaker) k calls →
        (stateAt (mk' { wholeRatioRule with threshold := 1 / 2 } .errorCircuitBreaker)
          calls n).currentState = .kOpen) ↔ (1 / 2 : ℚ) < 1 :=
  have hvalid : isValidRule { wholeRatioRule with threshold := 1 / 2 } = true := by decide +kernel
  canTrip_iff hvalid rfl

end CanTrip

end SentinelCpp.CircuitBreaker.AbstractCircuitBreaker
