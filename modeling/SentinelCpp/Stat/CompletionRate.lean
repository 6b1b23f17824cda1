import Mathlib.Tactic.FieldSimp
import Mathlib.Tactic.Linarith
import Mathlib.Tactic.Positivity
import SentinelCpp.Lib.Run
import SentinelCpp.Stat.Node

/-!
# The maximum completion rate

`MaxCompleteQps` multiplies the completions of the fullest bucket by the number of buckets; that is a
number per interval, and one per second when the interval is a second.  `CompleteQps` divides the total of
the window by the interval.  The node below is used under any configuration that `StatConfigManager`
allows, also one that changes while it is used.
-/

namespace SentinelCpp.Stat

open SentinelCpp.Lib

/-- What the calls of `StatConfigManager` make of the default configuration. -/
inductive StatConfig.Reachable : StatConfig → Prop
  | default : Reachable ⟨Constants.kDefaultSampleCount, Constants.kDefaultIntervalMs⟩
  | updateSampleCount {c : StatConfig} (h : Reachable c) (newSampleCount : ℤ) :
      Reachable (c.updateSampleCount newSampleCount).1
  | updateInterval {c : StatConfig} (h : Reachable c) (newIntervalMs : ℤ) :
      Reachable (c.updateInterval newIntervalMs).1

theorem StatConfig.Reachable.valid {c : StatConfig} (h : c.Reachable) : c.Valid := by
  induction h with
  | default => exact valid_default
  | updateSampleCount _ n ih => exact ih.updateSampleCount n
  | updateInterval _ i ih => exact ih.updateInterval i

/-- The length of a bucket. -/
def StatConfig.bucketMs (c : StatConfig) : ℕ := c.intervalMs / c.sampleCount

/-! ### Runs of a node -/

/-- A node, the configuration its second-level window was made with and the current one, and the time of
the last call. -/
structure NodeState where
  node : StatisticNode
  madeWith : StatConfig
  config : StatConfig
  now : ℕ

namespace NodeState

/-- A call on a node, or one that changes the configuration of the process. -/
inductive Call
  | addPassRequest (count : ℤ)
  | addBlockRequest (count : ℤ)
  | addExceptionRequest (count : ℤ)
  | addRtAndCompleteRequest (rt completeCount : ℤ)
  | increaseThreadNum
  | decreaseThreadNum
  | passQps
  | blockQps
  | completeQps
  | exceptionQps
  | maxCompleteQps
  | avgRt
  | minRt
  | reset
  | updateSampleCount (newSampleCount : ℤ)
  | updateInterval (newIntervalMs : ℤ)
  deriving DecidableEq

/-- A new node. -/
def start (config : StatConfig) (now : ℕ) : NodeState := ⟨.mk' config, config, config, now⟩

/-- A call at time `t`. -/
def apply (s : NodeState) (t : ℕ) : Call → NodeState
  | .addPassRequest count => { s with node := s.node.addPassRequest count t }
  | .addBlockRequest count => { s with node := s.node.addBlockRequest count t }
  | .addExceptionRequest count => { s with node := s.node.addExceptionRequest count t }
  | .addRtAndCompleteRequest rt completeCount =>
    { s with node := s.node.addRtAndCompleteRequest rt completeCount t }
  | .increaseThreadNum => { s with node := s.node.increaseThreadNum }
  | .decreaseThreadNum => { s with node := s.node.decreaseThreadNum }
  | .passQps => { s with node := (s.node.passQps t).1 }
  | .blockQps => { s with node := (s.node.blockQps t).1 }
  | .completeQps => { s with node := (s.node.completeQps t).1 }
  | .exceptionQps => { s with node := (s.node.exceptionQps t).1 }
  | .maxCompleteQps => { s with node := (s.node.maxCompleteQps t).1 }
  | .avgRt => { s with node := (s.node.avgRt t).1 }
  | .minRt => { s with node := (s.node.minRt t).1 }
  | .reset => { s with node := s.node.reset s.config, madeWith := s.config }
  | .updateSampleCount newSampleCount =>
    { s with config := (s.config.updateSampleCount newSampleCount).1 }
  | .updateInterval newIntervalMs => { s with config := (s.config.updateInterval newIntervalMs).1 }

/-- A timed call, not before the last one. -/
def step (s : NodeState) (a : ℕ × Call) : Option NodeState :=
  if s.now ≤ a.1 then some { s.apply a.1 a.2 with now := a.1 } else none

abbrev Steps : NodeState → ℕ × Call → NodeState → Prop := fun s a s' => s.step a = some s'

/-- The completions since the node was made or last reset, after one more call. -/
def completed (h : Hist ℤ) (a : ℕ × Call) : Hist ℤ :=
  match a.2 with
  | .addRtAndCompleteRequest _ completeCount => h ++ [(a.1, completeCount)]
  | .reset => []
  | _ => h

/-- The completions since the node was made or last reset. -/
def completions (tr : List (ℕ × Call)) : Hist ℤ := tr.foldl completed []

end NodeState

/-- The completions in the fullest bucket of the window at time `t`, or 1. -/
def largestBucket (c : StatConfig) (t : ℕ) (h : Hist ℤ) : ℤ :=
  ((windowBuckets c.sampleCount c.bucketMs t).map fun k => (inBucket c.bucketMs k h).sum).foldr max 1

/-! ### What a node has counted -/

/-- The additions complete what the history says, in every bucket. -/
def Completes (h : Hist MetricAdd) (cs : Hist ℤ) : Prop :=
  ∀ b k, ((inBucket b k h).map (MetricAdd.amount .complete)).sum = (inBucket b k cs).sum

namespace Completes

variable {h : Hist MetricAdd} {cs : Hist ℤ} {t : ℕ}

theorem nil : Completes [] [] := fun _ _ => rfl

/-- An addition that completes nothing. -/
theorem other (hh : Completes h cs) {e : MetricAdd} (he : e.amount .complete = 0) :
    Completes (h ++ [(t, e)]) cs := by
  intro b k
  rw [inBucket_concat, List.map_append, List.sum_append, hh b k]
  split_ifs
  · rw [List.map_singleton, List.sum_singleton, he, add_zero]
  · rw [List.map_nil, List.sum_nil, add_zero]

theorem complete (hh : Completes h cs) (count : ℤ) :
    Completes (h ++ [(t, .add .complete count)]) (cs ++ [(t, count)]) := by
  intro b k
  rw [inBucket_concat, inBucket_concat, List.map_append, List.sum_append, List.sum_append, hh b k]
  split_ifs
  · rfl
  · rfl

end Completes

/-- The node stands for its completions, under configurations that are allowed. -/
structure Counting (s : NodeState) (cs : Hist ℤ) : Prop where
  madeWith : s.madeWith.Valid
  config : s.config.Valid
  exact : ∃ h, Exact s.madeWith.sampleCount s.madeWith.bucketMs s.node.rollingCounterSecond h s.now ∧
    Completes h cs

theorem StatConfig.Valid.bucketMs_pos {c : StatConfig} (h : c.Valid) : 0 < c.bucketMs :=
  Nat.div_pos (Nat.le_of_dvd h.interval_pos h.dvd) h.count_pos

theorem StatConfig.Valid.mul_bucketMs {c : StatConfig} (h : c.Valid) :
    c.sampleCount * c.bucketMs = c.intervalMs :=
  Nat.mul_div_cancel' h.dvd

/-- A new window. -/
theorem StatConfig.Valid.exact_new {c : StatConfig} (h : c.Valid) (now : ℕ) :
    Exact c.sampleCount c.bucketMs (.mk' c.sampleCount c.intervalMs) [] now := by
  rw [← h.mul_bucketMs]
  exact Exact.mk' _ _ now

namespace Counting

open NodeState

variable {s s' : NodeState} {cs : Hist ℤ} {t : ℕ}

theorem start {c : StatConfig} (hc : c.Valid) (now : ℕ) : Counting (.start c now) [] where
  madeWith := hc
  config := hc
  exact := ⟨[], hc.exact_new now, Completes.nil⟩

/-- A call that adds one thing, which completes nothing. -/
theorem add (h : Counting s cs) (hle : s.now ≤ t) (event : MetricEvent) (count : ℤ)
    (hevent : event ≠ .complete) :
    Counting { s with node := s.node.addRequest event count t, now := t } cs where
  madeWith := h.madeWith
  config := h.config
  exact := by
    obtain ⟨hist, hexact, hcs⟩ := h.exact
    refine ⟨_, hexact.addEvent h.madeWith.count_pos h.madeWith.bucketMs_pos hle event count, ?_⟩
    exact hcs.other (if_neg hevent)

/-- A call that reads the window. -/
theorem read (h : Counting s cs) (hle : s.now ≤ t) {n : StatisticNode} (hn : n = s.node.readSecond t) :
    Counting { s with node := n, now := t } cs where
  madeWith := h.madeWith
  config := h.config
  exact := by
    obtain ⟨hist, hexact, hcs⟩ := h.exact
    exact ⟨hist, hn ▸ (hexact.refresh hle).1, hcs⟩

/-- A call that leaves the window alone. -/
theorem leave (h : Counting s cs) (hle : s.now ≤ t) (hsame : s'.madeWith = s.madeWith)
    (hconfig : s'.config.Valid)
    (hwindow : s'.node.rollingCounterSecond = s.node.rollingCounterSecond) (hnow : s'.now = t) :
    Counting s' cs where
  madeWith := hsame ▸ h.madeWith
  config := hconfig
  exact := by
    obtain ⟨hist, hexact, hcs⟩ := h.exact
    rw [hsame, hwindow, hnow]
    exact ⟨hist, hexact.later hle, hcs⟩

/-- **One call** keeps the count. -/
theorem step (h : Counting s cs) {a : ℕ × Call} (hs : Steps s a s') : Counting s' (completed cs a) := by
  obtain ⟨t, call⟩ := a
  unfold Steps NodeState.step at hs
  split_ifs at hs with hle
  obtain rfl := Option.some.inj hs
  dsimp only at hle
  cases call with
  | addPassRequest count => exact h.add hle .pass count (by decide)
  | addBlockRequest count => exact h.add hle .block count (by decide)
  | addExceptionRequest count => exact h.add hle .exception count (by decide)
  | addRtAndCompleteRequest rt count =>
    obtain ⟨hist, hexact, hcs⟩ := h.exact
    have hcomplete := hexact.addEvent h.madeWith.count_pos h.madeWith.bucketMs_pos hle .complete count
    have hrt := hcomplete.addRt h.madeWith.count_pos h.madeWith.bucketMs_pos le_rfl rt
    exact ⟨h.madeWith, h.config, _, hrt, (hcs.complete count).other rfl⟩
  | increaseThreadNum | decreaseThreadNum => exact h.leave hle rfl h.config rfl rfl
  | passQps | blockQps | completeQps | exceptionQps | maxCompleteQps | minRt => exact h.read hle rfl
  | avgRt => exact h.read hle (s.node.avgRt_fst t)
  | reset => exact ⟨h.config, h.config, [], h.config.exact_new t, Completes.nil⟩
  | updateSampleCount n => exact h.leave hle rfl (h.config.updateSampleCount n) rfl rfl
  | updateInterval i => exact h.leave hle rfl (h.config.updateInterval i) rfl rfl

/-- Every run. -/
theorem run {c : StatConfig} {now : ℕ} {tr : List (ℕ × Call)} (hc : c.Reachable)
    (hrun : Run Steps (NodeState.start c now) tr s) : Counting s (completions tr) := by
  induction hrun with
  | nil => exact start hc.valid now
  | snoc _ hs ih =>
    unfold completions
    rw [List.foldl_append]
    exact ih.step hs

/-! ### The two rates -/

/-- What `MaxCompleteQps` returns. -/
theorem maxCompleteQps_eq (h : Counting s cs) (hle : s.now ≤ t) :
    (s.node.maxCompleteQps t).2 = largestBucket s.madeWith t cs * s.madeWith.sampleCount := by
  obtain ⟨hist, hexact, hcs⟩ := h.exact
  have hmax := hexact.maxComplete_eq h.madeWith.count_pos h.madeWith.bucketMs_pos hle
  have hcount : s.node.rollingCounterSecond.sampleCount = s.madeWith.sampleCount := hexact.count
  show ((s.node.rollingCounterSecond.maxComplete t).2 : ℚ) * s.node.rollingCounterSecond.sampleCount = _
  rw [hmax, hcount]
  unfold largestBucket
  simp only [hcs s.madeWith.bucketMs]

theorem one_le_largestBucket (c : StatConfig) (t : ℕ) (h : Hist ℤ) : 1 ≤ largestBucket c t h :=
  ((foldr_max_le_iff _ _ _).mp le_rfl).1

/-- What `CompleteQps` returns is at most the fullest bucket for every bucket, each interval. -/
theorem completeQps_le (h : Counting s cs) (hle : s.now ≤ t) :
    (s.node.completeQps t).2 ≤ largestBucket s.madeWith t cs * s.madeWith.sampleCount /
      (s.madeWith.intervalMs / 1000) := by
  obtain ⟨hist, hexact, hcs⟩ := h.exact
  have hsum := hexact.getSum_eq h.madeWith.count_pos h.madeWith.bucketMs_pos hle .complete
  have hwindow : s.node.rollingCounterSecond.windowIntervalInSec = s.madeWith.intervalMs / 1000 := by
    unfold SlidingWindowMetric.windowIntervalInSec
    rw [hexact.interval, h.madeWith.mul_bucketMs]
  show ((s.node.rollingCounterSecond.getSum .complete t).2 : ℚ) /
    s.node.rollingCounterSecond.windowIntervalInSec ≤ _
  rw [hsum, hwindow]
  -- no bucket has more than the fullest one
  have hle' : ∀ k, InWindow s.madeWith.sampleCount s.madeWith.bucketMs t k →
      ((inBucket s.madeWith.bucketMs k hist).map (MetricAdd.amount .complete)).sum ≤
        largestBucket s.madeWith t cs := by
    intro k hk
    rw [hcs]
    exact ((foldr_max_le_iff _ _ _).mp le_rfl).2 _
      (List.mem_map.mpr ⟨k, mem_windowBuckets.mpr hk, rfl⟩)
  have hone := one_le_largestBucket s.madeWith t cs
  have hall := sum_inWindow_le (MetricAdd.amount .complete) (by omega) hle'
  rw [nsmul_eq_mul, mul_comm] at hall
  refine div_le_div_of_nonneg_right ?_ (by positivity)
  exact_mod_cast hall

end Counting

/-- The maximum completion rate at time `t` is one per second, and not below the rate itself. -/
def IsMaxRate (s : NodeState) (cs : Hist ℤ) (t : ℕ) : Prop :=
  (s.node.maxCompleteQps t).2 = largestBucket s.madeWith t cs /
      ((s.madeWith.intervalMs : ℚ) / s.madeWith.sampleCount / 1000) ∧
    (s.node.completeQps t).2 ≤ (s.node.maxCompleteQps t).2

theorem not_isMaxRate_of_lt {s : NodeState} {cs : Hist ℤ} {t : ℕ}
    (h : (s.node.maxCompleteQps t).2 < (s.node.completeQps t).2) : ¬ IsMaxRate s cs t :=
  fun hmax => absurd hmax.2 (not_le.mpr h)

/-- **The maximum completion rate is a rate exactly for an interval of one second**, at every time after
every run of a node. -/
theorem isMaxRate_iff {c : StatConfig} {now t : ℕ} {tr : List (ℕ × NodeState.Call)} {s : NodeState}
    (hc : c.Reachable) (hrun : Run NodeState.Steps (.start c now) tr s) (hle : s.now ≤ t) :
    IsMaxRate s (NodeState.completions tr) t ↔ s.madeWith.intervalMs = 1000 := by
  have hcount := Counting.run hc hrun
  have hlargest : (0 : ℚ) < largestBucket s.madeWith t (NodeState.completions tr) := by
    have hone := Counting.one_le_largestBucket s.madeWith t (NodeState.completions tr)
    exact_mod_cast (by omega : (0 : ℤ) < _)
  have hn : (0 : ℚ) < s.madeWith.sampleCount := by exact_mod_cast hcount.madeWith.count_pos
  have hi : (0 : ℚ) < s.madeWith.intervalMs := by exact_mod_cast hcount.madeWith.interval_pos
  unfold IsMaxRate
  rw [hcount.maxCompleteQps_eq hle]
  constructor
  · rintro ⟨hrate, -⟩
    field_simp at hrate
    exact_mod_cast hrate
  · intro hsecond
    have hthousand : (s.madeWith.intervalMs : ℚ) = 1000 := by exact_mod_cast hsecond
    refine ⟨?_, ?_⟩
    · rw [hthousand]
      field_simp
    · have hrate := hcount.completeQps_le hle
      rwa [hthousand, div_self (by norm_num), div_one] at hrate

/-- Four buckets of 250 ms: three completions in the first and one in the second.  The interval is changed,
but the node is not made anew. -/
def fourBuckets : List (ℕ × NodeState.Call) :=
  [(0, .addRtAndCompleteRequest 5 3), (250, .addRtAndCompleteRequest 5 1), (260, .updateInterval 2000),
    (300, .completeQps)]

theorem isMaxRate_iff_fourBuckets : ∃ c : StatConfig, c.Reachable ∧ ∃ s, Run NodeState.Steps (.start c 0)
    fourBuckets s ∧ IsMaxRate s (NodeState.completions fourBuckets) 400 ∧
      (s.node.maxCompleteQps 400).2 = 12 := by
  have hc : StatConfig.Reachable _ := .updateSampleCount .default 4
  obtain ⟨s, hrun, hnow, hmade, hrate⟩ : ∃ s, Run NodeState.Steps
      (.start (StatConfig.updateSampleCount ⟨Constants.kDefaultSampleCount, Constants.kDefaultIntervalMs⟩ 4).1
        0) fourBuckets s ∧ s.now ≤ 400 ∧ s.madeWith.intervalMs = 1000 ∧ (s.node.maxCompleteQps 400).2 = 12 :=
    ⟨_, run_of_foldlM rfl, by decide, by decide, by decide +kernel⟩
  exact ⟨_, hc, s, hrun, (isMaxRate_iff hc hrun hnow).mpr hmade, hrate⟩

/-- Two buckets of 250 ms with three completions each: 12 a second, and at most 6. -/
theorem maxCompleteQps_below : ∃ c : StatConfig, c.Reachable ∧ ∃ s, Run NodeState.Steps (.start c 0)
    [(0, .addRtAndCompleteRequest 5 3), (250, .addRtAndCompleteRequest 5 3)] s ∧ s.now ≤ 250 ∧
    (s.node.maxCompleteQps 250).2 = 6 ∧ (s.node.completeQps 250).2 = 12 ∧
    ¬ IsMaxRate s (NodeState.completions
      [(0, .addRtAndCompleteRequest 5 3), (250, .addRtAndCompleteRequest 5 3)]) 250 := by
  refine ⟨_, .updateInterval .default 500, _, run_of_foldlM rfl, by decide, ?_⟩
  refine ⟨by decide +kernel, by decide +kernel, not_isMaxRate_of_lt ?_⟩
  decide +kernel

end SentinelCpp.Stat
