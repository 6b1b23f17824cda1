import Mathlib.Algebra.Order.BigOperators.Group.List
import Mathlib.Algebra.Order.Floor.Ring
import Mathlib.Data.Rat.Floor
import Mathlib.Tactic.GCongr
import Mathlib.Tactic.Linarith
import Mathlib.Tactic.NormNum
import Mathlib.Tactic.Positivity
import SentinelCpp.Stat.Node

/-!
# The passes a node reports

`PassWindow` says that the second-level window of a node has recorded some history of non-negative
passes exactly.  Under it `PassQps` is the total of the window over its length, and an admitted call
raises that total by its weight.
-/

namespace SentinelCpp.Stat

open SentinelCpp.Lib

/-- The second-level window has `n` buckets of `b` ms and is exact for passes that are not negative. -/
def PassWindow (n b : ℕ) (node : StatisticNode) (now : ℕ) : Prop :=
  ∃ h : Hist MetricAdd, Exact n b node.rollingCounterSecond h now ∧
    ∀ x ∈ h, 0 ≤ x.2.amount .pass

/-- The passes in the window at time `t`. -/
def passSum (node : StatisticNode) (t : ℕ) : ℤ := (node.rollingCounterSecond.getSum .pass t).2

namespace PassWindow

variable {n b now t : ℕ} {node node' : StatisticNode}

theorem mk' {config : StatConfig} (hn : config.sampleCount = n) (hi : config.intervalMs = n * b)
    (now : ℕ) : PassWindow n b (.mk' config) now := by
  refine ⟨[], ?_, by simp⟩
  rw [StatisticNode.mk', hn, hi]
  exact Exact.mk' n b now

theorem later (h : PassWindow n b node now) (hle : now ≤ t) : PassWindow n b node t := by
  obtain ⟨hist, hex, hpos⟩ := h
  exact ⟨hist, hex.later hle, hpos⟩

theorem readAt (h : PassWindow n b node now) (hle : now ≤ t) (hr : node.ReadAt t node') :
    PassWindow n b node' t := by
  obtain ⟨hist, hex, hpos⟩ := h
  rcases hr with rfl | rfl
  · exact ⟨hist, hex.later hle, hpos⟩
  · exact ⟨hist, (hex.refresh hle).1, hpos⟩

/-- One more addition that passes nothing, or something positive. -/
theorem add {m : SlidingWindowMetric} {e : MetricAdd} (h : PassWindow n b node now)
    (he : 0 ≤ e.amount .pass)
    (hm : ∀ hist, Exact n b node.rollingCounterSecond hist now → Exact n b m (hist ++ [(t, e)]) t)
    (hnode : node'.rollingCounterSecond = m) : PassWindow n b node' t := by
  obtain ⟨hist, hex, hpos⟩ := h
  refine ⟨hist ++ [(t, e)], hnode ▸ hm hist hex, fun x hx => ?_⟩
  rcases List.mem_append.mp hx with hx | hx
  · exact hpos x hx
  · rw [List.mem_singleton.mp hx]
    exact he

theorem addEvent (hn : 0 < n) (hb : 0 < b) (h : PassWindow n b node now) (hle : now ≤ t)
    (event : MetricEvent) {a : ℤ} (ha : event = .pass → 0 ≤ a)
    (hnode : node'.rollingCounterSecond = node.rollingCounterSecond.addEvent event a t) :
    PassWindow n b node' t := by
  refine h.add (e := .add event a) ?_ (fun _ hex => hex.addEvent hn hb hle event a) hnode
  simp only [MetricAdd.amount]
  split_ifs with he
  · exact ha he
  · exact le_rfl

/-- Every event of a node keeps its window, as long as no negative weight passes. -/
theorem record (hn : 0 < n) (hb : 0 < b) (h : PassWindow n b node now) (hle : now ≤ t)
    (e : NodeEvent) (he : ∀ a, e = .pass a → 0 ≤ a) : PassWindow n b (e.record node t) t := by
  cases e with
  | pass a => exact h.addEvent hn hb hle .pass (fun _ => he a rfl) rfl
  | block a => exact h.addEvent hn hb hle .block (by simp) rfl
  | exception a => exact h.addEvent hn hb hle .exception (by simp) rfl
  | complete rt error count =>
    have h1 : PassWindow n b { node with
        rollingCounterSecond := node.rollingCounterSecond.addComplete count t } t :=
      h.addEvent hn hb hle .complete (by simp) rfl
    have h2 : PassWindow n b (node.addRtAndCompleteRequest rt count t) t :=
      h1.add (e := .addRt rt) le_rfl (fun _ hex => hex.addRt hn hb le_rfl rt) rfl
    by_cases herr : error = ""
    · simp only [NodeEvent.record, herr, ne_eq, not_true_eq_false, if_false]
      exact h2
    · have h3 : PassWindow n b ((node.addRtAndCompleteRequest rt count t).addExceptionRequest count t)
          t := h2.addEvent hn hb le_rfl .exception (by simp) rfl
      simp only [NodeEvent.record, herr, ne_eq, not_false_eq_true, if_true]
      exact h3

theorem passSum_nonneg (hn : 0 < n) (hb : 0 < b) (h : PassWindow n b node now) (hle : now ≤ t) :
    0 ≤ passSum node t := by
  obtain ⟨hist, hex, hpos⟩ := h
  rw [passSum, hex.getSum_eq hn hb hle]
  refine List.sum_nonneg fun x hx => ?_
  simp only [inWindow, List.mem_map, List.mem_filter] at hx
  obtain ⟨e, ⟨y, ⟨hy, -⟩, rfl⟩, rfl⟩ := hx
  exact hpos y hy

/-- An admitted call raises the total by its weight. -/
theorem passSum_record (hn : 0 < n) (hb : 0 < b) (h : PassWindow n b node now) (hle : now ≤ t)
    (a : ℤ) : passSum ((NodeEvent.pass a).record node t) t = passSum node t + a := by
  obtain ⟨hist, hex, -⟩ := h
  have hwin : InWindow n b t (t / b) := ⟨le_rfl, by omega⟩
  have hadd := (hex.addEvent hn hb hle .pass a).getSum_eq hn hb le_rfl .pass
  rw [inWindow, List.filter_append, List.map_append, List.map_append, List.sum_append, ← inWindow,
    ← hex.getSum_eq hn hb hle] at hadd
  have hone : ((([(t, MetricAdd.add .pass a)].filter
      fun x : ℕ × MetricAdd => InWindow n b t (x.1 / b)).map Prod.snd).map
        (MetricAdd.amount .pass)).sum = a := by
    simp [hwin, MetricAdd.amount]
  rw [hone] at hadd
  exact hadd

theorem windowIntervalInSec (h : PassWindow n b node now) :
    node.rollingCounterSecond.windowIntervalInSec = ((n * b : ℕ) : ℚ) / 1000 := by
  obtain ⟨hist, hex, -⟩ := h
  rw [SlidingWindowMetric.windowIntervalInSec, hex.interval]

/-- **`PassQps`** is the total of the window over its length in seconds. -/
theorem passQps_eq (h : PassWindow n b node now) (t : ℕ) :
    (node.passQps t).2 = passSum node t / (((n * b : ℕ) : ℚ) / 1000) := by
  rw [← h.windowIntervalInSec]
  rfl

end PassWindow

theorem passSum_mk' {n b : ℕ} (hn : 0 < n) (hb : 0 < b) {config : StatConfig}
    (hc : config.sampleCount = n) (hi : config.intervalMs = n * b) (t : ℕ) :
    passSum (.mk' config) t = 0 := by
  rw [passSum, StatisticNode.mk', hc, hi, (Exact.mk' n b t).getSum_eq hn hb le_rfl]
  rfl

theorem passSum_readAt {node node' : StatisticNode} {t : ℕ} (h : node.ReadAt t node') :
    passSum node' t = passSum node t := by
  rcases h with rfl | rfl
  · rfl
  · simp [passSum, StatisticNode.readSecond, SlidingWindowMetric.getSum]

/-! ### Admission against the rate -/

/-- **Arithmetic of the check.**  With `q` seconds in the window and `s` passes in it, a call of weight
`a` that the check admits keeps the rate within the limit, provided that the whole part of the limit
fits into the window. -/
theorem rate_le_of_admitted {s a : ℤ} {q limit : ℚ} (hq : 0 < q) (hs : 0 ≤ s) (ha : 0 ≤ a)
    (hadm : s / q + a ≤ limit) (hfits : ⌊limit⌋ ≤ limit * q) : (s + a : ℚ) / q ≤ limit := by
  have hs' : (0 : ℚ) ≤ s := by exact_mod_cast hs
  have ha' : (0 : ℚ) ≤ a := by exact_mod_cast ha
  rw [div_le_iff₀ hq]
  rcases le_total 1 q with h1 | h1
  · have hle : (a : ℚ) ≤ a * q := le_mul_of_one_le_right ha' h1
    have hmul : (s / q + a) * q ≤ limit * q := mul_le_mul_of_nonneg_right hadm hq.le
    rw [add_mul, div_mul_cancel₀ _ hq.ne'] at hmul
    linarith
  · have hle : (s : ℚ) ≤ s / q := (le_div_iff₀ hq).mpr (mul_le_of_le_one_right hs' h1)
    have hfloor : s + a ≤ ⌊limit⌋ := by
      rw [Int.le_floor]
      push_cast
      linarith
    have hcast : ((s + a : ℤ) : ℚ) ≤ ⌊limit⌋ := by exact_mod_cast hfloor
    push_cast at hcast
    linarith

/-- **How the check goes wrong.**  When the whole part of the limit does not fit into a window of `i`
ms, `p` calls of weight 1 and one of weight `m` (at most `bound`) are admitted one after the other and
exceed the rate. -/
theorem exists_weights_over {i : ℕ} {limit : ℚ} {bound : ℤ} (hi : 0 < i) (hbound : 1000 ≤ bound)
    (hlimit : 0 ≤ limit) (hno : ¬ (⌊limit⌋ : ℚ) ≤ limit * ((i : ℚ) / 1000)) :
    ∃ (p : ℕ) (m : ℤ), 1 ≤ m ∧ m ≤ bound ∧
      (∀ k < p, (k : ℚ) / ((i : ℚ) / 1000) + 1 ≤ limit) ∧
      (p : ℚ) / ((i : ℚ) / 1000) + m ≤ limit ∧
      limit < ((p : ℚ) + m) / ((i : ℚ) / 1000) := by
  have hq : (0 : ℚ) < (i : ℚ) / 1000 := by positivity
  have hfloor : (⌊limit⌋ : ℚ) ≤ limit := Int.floor_le limit
  -- the window is shorter than a second
  have hlt : i < 1000 := by
    by_contra hge
    have h1 : (1 : ℚ) ≤ (i : ℚ) / 1000 := by
      rw [le_div_iff₀ (by norm_num), one_mul]
      exact_mod_cast not_lt.mp hge
    exact hno (hfloor.trans (le_mul_of_one_le_right hlimit h1))
  have hq1 : (i : ℚ) / 1000 ≤ 999 / 1000 := by
    have : (i : ℚ) ≤ 999 := by exact_mod_cast Nat.le_of_lt_succ hlt
    gcongr
  generalize hqdef : (i : ℚ) / 1000 = q at hno hq hq1 ⊢
  rw [not_le] at hno
  have hone : 1 ≤ ⌊limit⌋ := by
    by_contra hlt
    have hzero : ⌊limit⌋ = 0 := by
      have := Int.floor_nonneg.mpr hlimit
      omega
    rw [hzero, Int.cast_zero] at hno
    exact absurd (mul_nonneg hlimit hq.le) (not_le.mpr hno)
  have hm1 : 1 ≤ min ⌊limit⌋ bound := le_min hone (by omega)
  have hmlimit : ((min ⌊limit⌋ bound : ℤ) : ℚ) ≤ limit :=
    le_trans (by exact_mod_cast min_le_left _ _) hfloor
  have hrest : 0 ≤ (limit - (min ⌊limit⌋ bound : ℤ)) * q :=
    mul_nonneg (sub_nonneg.mpr hmlimit) hq.le
  refine ⟨⌊(limit - (min ⌊limit⌋ bound : ℤ)) * q⌋₊, min ⌊limit⌋ bound, hm1, min_le_right _ _, ?_, ?_, ?_⟩
  all_goals
    generalize hm : min ⌊limit⌋ bound = m at hm1 hmlimit hrest ⊢
    generalize hp : ⌊(limit - (m : ℤ)) * q⌋₊ = p
    have hple : (p : ℚ) ≤ (limit - m) * q := hp ▸ Nat.floor_le hrest
    have hplt : (limit - m) * q < p + 1 := hp ▸ Nat.lt_floor_add_one _
    have hm1' : (1 : ℚ) ≤ m := by exact_mod_cast hm1
  · intro k hk
    have hk' : (k : ℚ) + 1 ≤ p := by exact_mod_cast hk
    have h1 : (k : ℚ) / q + 1 ≤ (k + 1) / q := by
      rw [add_div]
      have : (1 : ℚ) ≤ 1 / q := by
        rw [le_div_iff₀ hq]
        linarith
      linarith
    have h2 : ((k : ℚ) + 1) / q ≤ limit - m := by
      rw [div_le_iff₀ hq]
      linarith
    linarith
  · have h1 : (p : ℚ) / q ≤ limit - m := by
      rw [div_le_iff₀ hq]
      exact hple
    linarith
  · rw [lt_div_iff₀ hq]
    rcases le_total ⌊limit⌋ bound with hle | hle
    · have hmf : (m : ℚ) = ⌊limit⌋ := by rw [← hm, min_eq_left hle]
      have hp0 : (0 : ℚ) ≤ p := Nat.cast_nonneg p
      rw [hmf]
      linarith
    · have hmb : (1000 : ℚ) ≤ m := by
        rw [← hm, min_eq_right hle]
        exact_mod_cast hbound
      nlinarith

end SentinelCpp.Stat
