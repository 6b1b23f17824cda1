import Mathlib.Algebra.Order.Archimedean.Basic
import Mathlib.Algebra.Order.Field.Basic
import Mathlib.Algebra.Order.Floor.Ring
import Mathlib.Data.Rat.Floor
import Mathlib.Tactic.FieldSimp
import Mathlib.Tactic.Linarith
import SentinelCpp.Common
import SentinelCpp.Lib.Fold
import SentinelCpp.Lib.Run
import SentinelCpp.Lib.Spacing

/-!
# Throttling

`ThrottlingTrafficShapingChecker` lets a request pass at the time of the last one plus the cost of the
new one, at once or after a wait, and refuses it when it would have to wait too long.  The cost is a
whole number of milliseconds.  A cost that is rounded up spaces the requests at least as the threshold
asks; one that is rounded down makes room for more of them, and a cost of 0 for any number.

All calls take one reading of the clock.  `last_passed_time_` has no initial value in the code; here it
is any time not later than the first call.
-/

namespace SentinelCpp.Flow

open Lib

/-- `std::round`: to the nearest integer, halves away from zero. -/
def stdRound (x : ℚ) : ℤ := if 0 ≤ x then ⌊x + 1 / 2⌋ else -⌊-x + 1 / 2⌋

structure ThrottlingTrafficShapingChecker where
  maxTimeout : ℤ
  lastPassedTime : ℤ
  deriving DecidableEq

/-- `cost_time`: the interval between two requests, in ms. -/
def costTime (acquireCount : ℤ) (threshold : ℚ) : ℤ := stdRound (acquireCount / threshold * 1000)

/-- `DoCheck(_, acquire_count, threshold)` at the time `curTime`. -/
def ThrottlingTrafficShapingChecker.doCheck (c : ThrottlingTrafficShapingChecker) (curTime : ℤ)
    (acquireCount : ℤ) (threshold : ℚ) : ThrottlingTrafficShapingChecker × TokenResult :=
  if acquireCount < 0 then (c, .ok)
  else if threshold ≤ 0 then (c, .blocked "blocked")
  else
    let costTime := costTime acquireCount threshold
    let expectedTime := costTime + c.lastPassedTime
    if expectedTime ≤ curTime then ({ c with lastPassedTime := curTime }, .ok)
    else
      let waitTime := costTime + c.lastPassedTime - curTime
      if waitTime > c.maxTimeout then (c, .blocked "timeout")
      else
        -- `fetch_add` returns the old value
        let oldTime := costTime + c.lastPassedTime
        let c := { c with lastPassedTime := c.lastPassedTime + costTime }
        let waitTime := oldTime - curTime
        if waitTime > c.maxTimeout then
          ({ c with lastPassedTime := c.lastPassedTime - costTime }, .blocked "timeout")
        else if waitTime > 0 then (c, .shouldWait waitTime.toNat)
        else (c, .ok)

/-! ### Runs -/

structure ThrottleCall where
  time : ℤ
  acquireCount : ℤ
  threshold : ℚ
  deriving DecidableEq

structure ThrottleState where
  checker : ThrottlingTrafficShapingChecker
  now : ℤ
  deriving DecidableEq

namespace ThrottleState

/-- The first call is not before `lastPassedTime`. -/
def start (maxTimeout lastPassedTime : ℤ) : ThrottleState :=
  ⟨⟨maxTimeout, lastPassedTime⟩, lastPassedTime⟩

/-- A call at a time not before the last one, and its result. -/
def step (s : ThrottleState) (c : ThrottleCall) : Option (ThrottleState × TokenResult) :=
  if s.now ≤ c.time then
    let r := s.checker.doCheck c.time c.acquireCount c.threshold
    some (⟨r.1, c.time⟩, r.2)
  else none

abbrev Steps : ThrottleState → ThrottleCall × TokenResult → ThrottleState → Prop := StepOf step

end ThrottleState

/-- When the call passes, if it does: at its own time, or after the wait it was given. -/
def passTime (a : ThrottleCall × TokenResult) : Option ℤ :=
  match a.2 with
  | .ok => some a.1.time
  | .shouldWait waitMs => some (a.1.time + waitMs)
  | .blocked _ => none

/-- The pass times of the calls so far. -/
def passTimes (tr : List (ThrottleCall × TokenResult)) : List ℤ := tr.filterMap passTime

namespace ThrottlingTrafficShapingChecker

/-- **The exits of `DoCheck`**, for a count that is not negative and a positive threshold: at once, after
a wait, or not at all. -/
theorem doCheck_cases (c : ThrottlingTrafficShapingChecker) (curTime : ℤ) {acquireCount : ℤ}
    {threshold : ℚ} (hcount : 0 ≤ acquireCount) (hthreshold : 0 < threshold) :
    let cost := costTime acquireCount threshold
    (c.lastPassedTime + cost ≤ curTime ∧
      c.doCheck curTime acquireCount threshold = ({ c with lastPassedTime := curTime }, .ok)) ∨
    (curTime < c.lastPassedTime + cost ∧ c.lastPassedTime + cost - curTime ≤ c.maxTimeout ∧
      c.doCheck curTime acquireCount threshold =
        ({ c with lastPassedTime := c.lastPassedTime + cost },
          .shouldWait (c.lastPassedTime + cost - curTime).toNat)) ∨
    (c.maxTimeout < c.lastPassedTime + cost - curTime ∧ curTime < c.lastPassedTime + cost ∧
      c.doCheck curTime acquireCount threshold = (c, .blocked "timeout")) := by
  intro cost
  unfold doCheck
  rw [if_neg (not_lt.mpr hcount), if_neg (not_le.mpr hthreshold)]
  dsimp only
  rw [add_comm (costTime acquireCount threshold)]
  by_cases hnow : c.lastPassedTime + costTime acquireCount threshold ≤ curTime
  · exact .inl ⟨hnow, if_pos hnow⟩
  · right
    rw [if_neg hnow]
    have hlate : curTime < c.lastPassedTime + cost := not_le.mp hnow
    by_cases hwait : c.lastPassedTime + costTime acquireCount threshold - curTime > c.maxTimeout
    · exact .inr ⟨hwait, hlate, if_pos hwait⟩
    · -- the second computation of the wait gives the same
      refine .inl ⟨hlate, not_lt.mp hwait, ?_⟩
      rw [if_neg hwait, if_neg hwait, if_pos (by omega)]

end ThrottlingTrafficShapingChecker

/-- A call that may pass does so at least its cost after the last one, and sets the time of the last
one; otherwise nothing changes. -/
theorem ThrottleState.steps_cases {s s' : ThrottleState} {a : ThrottleCall × TokenResult}
    (hs : Steps s a s') (hcount : 0 ≤ a.1.acquireCount) (hthreshold : 0 < a.1.threshold) :
    let cost := costTime a.1.acquireCount a.1.threshold
    (∃ p, passTime a = some p ∧ s'.checker = { s.checker with lastPassedTime := p } ∧
      s.checker.lastPassedTime + cost ≤ p ∧ (p = a.1.time ∨ p ≤ a.1.time + s.checker.maxTimeout)) ∨
    (passTime a = none ∧ s'.checker = s.checker ∧
      s.checker.maxTimeout < s.checker.lastPassedTime + cost - a.1.time) := by
  intro cost
  obtain ⟨c, o⟩ := a
  unfold Steps StepOf step at hs
  split_ifs at hs with hnow
  obtain ⟨hs', ho⟩ := Prod.mk.inj (Option.some.inj hs)
  dsimp only at hs' ho
  rcases s.checker.doCheck_cases c.time hcount hthreshold with
    ⟨hle, heq⟩ | ⟨hlt, hwait, heq⟩ | ⟨hwait, -, heq⟩
  · rw [heq] at hs' ho
    refine .inl ⟨c.time, ?_, by rw [← hs'], hle, .inl rfl⟩
    rw [← ho]
    rfl
  · rw [heq] at hs' ho
    refine .inl ⟨s.checker.lastPassedTime + cost, ?_, by rw [← hs'], le_rfl, .inr ?_⟩
    · -- the wait ends at the expected time
      rw [← ho]
      show some (c.time + ((s.checker.lastPassedTime + cost - c.time).toNat : ℤ)) = _
      rw [Int.toNat_of_nonneg (by omega), add_sub_cancel]
    · show s.checker.lastPassedTime + cost ≤ c.time + s.checker.maxTimeout
      omega
  · rw [heq] at hs' ho
    refine .inr ⟨?_, by rw [← hs'], hwait⟩
    rw [← ho]
    rfl

/-! ### Pacing -/

/-- What a call keeps to, after calls that passed at the times `passed`. -/
structure Paces (s : ThrottleState) (passed : List ℤ) (a : ThrottleCall × TokenResult)
    (s' : ThrottleState) : Prop where
  /-- An admitted call passes at the new `last_passed_time_`, -/
  pass : ∀ p ∈ passTime a, p = s'.checker.lastPassedTime
  /-- its own cost after the one admitted before it, -/
  spaced : ∀ p ∈ passTime a, ∀ q ∈ passed.getLast?,
    q + costTime a.1.acquireCount a.1.threshold ≤ p
  /-- and without waiting longer than allowed. -/
  timely : ∀ p ∈ passTime a, 0 ≤ s.checker.maxTimeout → p ≤ a.1.time + s.checker.maxTimeout
  /-- A blocked one changes nothing, -/
  refused : passTime a = none → s'.checker = s.checker
  /-- and would have had to wait longer. -/
  late : passTime a = none → s.checker.maxTimeout <
    s.checker.lastPassedTime + costTime a.1.acquireCount a.1.threshold - a.1.time

section Runs

variable {maxTimeout last : ℤ} {s s' : ThrottleState} {tr : List (ThrottleCall × TokenResult)}
  {a : ThrottleCall × TokenResult}

/-- The counts and thresholds that `DoCheck` does not answer at once. -/
def Checked (tr : List (ThrottleCall × TokenResult)) : Prop :=
  ∀ a ∈ tr, 0 ≤ a.1.acquireCount ∧ 0 < a.1.threshold

theorem passTimes_concat : passTimes (tr ++ [a]) = passTimes tr ++ (passTime a).toList := by
  unfold passTimes
  rw [List.filterMap_append]
  cases h : passTime a <;> simp [h]

/-- The time kept is the one the last admitted call passed at. -/
theorem lastPassedTime_of_run (hrun : Run ThrottleState.Steps (.start maxTimeout last) tr s)
    (hchecked : Checked tr) : s.checker.maxTimeout = maxTimeout ∧
      s.checker.lastPassedTime = (passTimes tr).getLast?.getD last := by
  induction hrun with
  | nil => exact ⟨rfl, rfl⟩
  | @snoc tr s s' a _ hs ih =>
    obtain ⟨hmax, hlast⟩ := ih fun b hb => hchecked b (List.mem_append_left _ hb)
    obtain ⟨hcount, hthreshold⟩ := hchecked a (List.mem_append_right _ (List.mem_singleton_self a))
    rw [passTimes_concat]
    rcases ThrottleState.steps_cases hs hcount hthreshold with ⟨p, hp, hs', -⟩ | ⟨hp, hs', -⟩
    · rw [hp, hs']
      refine ⟨hmax, ?_⟩
      rw [Option.toList_some, List.getLast?_concat, Option.getD_some]
    · rw [hp, hs']
      refine ⟨hmax, ?_⟩
      rw [Option.toList_none, List.append_nil, hlast]

/-- **Pacing**: in every run, every call keeps to its place behind the calls admitted before it. -/
theorem paces_of_run (hrun : Run ThrottleState.Steps (.start maxTimeout last) tr s)
    (hs : ThrottleState.Steps s a s') (hchecked : Checked (tr ++ [a])) :
    s.checker.maxTimeout = maxTimeout ∧ Paces s (passTimes tr) a s' := by
  obtain ⟨hmax, hlast⟩ := lastPassedTime_of_run hrun fun b hb => hchecked b (List.mem_append_left _ hb)
  obtain ⟨hcount, hthreshold⟩ := hchecked a (List.mem_append_right _ (List.mem_singleton_self a))
  refine ⟨hmax, ?_⟩
  rcases ThrottleState.steps_cases hs hcount hthreshold with
    ⟨p, hp, hs', hle, hwait⟩ | ⟨hp, hs', hwait⟩
  · have hsome : ∀ p' ∈ passTime a, p' = p := by
      intro p' hp'
      exact (Option.some.inj (hp.symm.trans hp')).symm
    refine ⟨fun p' hp' => ?_, fun p' hp' q hq => ?_, fun p' hp' hmax' => ?_, fun h => ?_, fun h => ?_⟩
    · rw [hsome p' hp', hs']
    · rw [hlast, Option.mem_def.mp hq, Option.getD_some] at hle
      rw [hsome p' hp']
      exact hle
    · rw [hsome p' hp']
      omega
    · rw [hp] at h
      exact absurd h (Option.some_ne_none p)
    · rw [hp] at h
      exact absurd h (Option.some_ne_none p)
  · refine ⟨fun p' hp' => ?_, fun p' hp' => ?_, fun p' hp' => ?_, fun _ => hs', fun _ => hwait⟩
    all_goals
      rw [hp] at hp'
      exact absurd hp' (Option.not_mem_none p')

end Runs

/-- Ten a second: after one request the next one waits for 100 ms. -/
theorem paces_of_run_ten : (ThrottlingTrafficShapingChecker.mk 500 0).maxTimeout = 500 ∧
    Paces ⟨⟨500, 100⟩, 100⟩ (passTimes [(⟨100, 1, 10⟩, .ok)]) (⟨100, 1, 10⟩, .shouldWait 100)
      ⟨⟨500, 200⟩, 100⟩ := by
  have hfirst : ThrottleState.Steps (.start 500 0) (⟨100, 1, 10⟩, .ok) ⟨⟨500, 100⟩, 100⟩ := by
    unfold ThrottleState.Steps StepOf
    decide +kernel
  have hsecond : ThrottleState.Steps ⟨⟨500, 100⟩, 100⟩ (⟨100, 1, 10⟩, .shouldWait 100)
      ⟨⟨500, 200⟩, 100⟩ := by
    unfold ThrottleState.Steps StepOf
    decide +kernel
  refine paces_of_run (Run.nil.snoc hfirst) hsecond fun a ha => ?_
  simp only [List.nil_append, List.cons_append, List.mem_cons, List.not_mem_nil, or_false] at ha
  rcases ha with rfl | rfl <;> decide

/-! ### The rate -/

/-- Pass time and acquire count of each admitted call. -/
def passes (tr : List (ThrottleCall × TokenResult)) : List (ℤ × ℤ) :=
  tr.filterMap fun a => (passTime a).map fun p => (p, a.1.acquireCount)

/-- The admitted calls that pass within the `length` milliseconds from `start` on. -/
def passesIn (tr : List (ThrottleCall × TokenResult)) (start : ℤ) (length : ℕ) : List (ℤ × ℤ) :=
  (passes tr).filter fun p => start ≤ p.1 ∧ p.1 < start + length

/-- The sum of the acquire counts. -/
def acquired (passes : List (ℤ × ℤ)) : ℤ := (passes.map Prod.snd).sum

/-- The largest acquire count. -/
def largestCount (passes : List (ℤ × ℤ)) : ℤ := (passes.map Prod.snd).foldr max 0

/-- No interval admits more than the threshold allows and one call on top. -/
def WithinRate (threshold : ℚ) (tr : List (ThrottleCall × TokenResult)) : Prop :=
  ∀ (start : ℤ) (length : ℕ), (acquired (passesIn tr start length) : ℚ) ≤
    threshold * length / 1000 + largestCount (passesIn tr start length)

/-- The cost is at least the exact one. -/
def CostCovers (threshold : ℚ) (acquireCount : ℤ) : Prop :=
  acquireCount / threshold * 1000 ≤ costTime acquireCount threshold

section Rate

variable {threshold : ℚ} {maxTimeout last : ℤ} {s : ThrottleState} {counts : Set ℤ}
  {tr : List (ThrottleCall × TokenResult)} {a : ThrottleCall × TokenResult}

/-- The calls of a run with one threshold and counts from a set. -/
def CallsWith (threshold : ℚ) (counts : Set ℤ) (tr : List (ThrottleCall × TokenResult)) : Prop :=
  ∀ a ∈ tr, a.1.threshold = threshold ∧ a.1.acquireCount ∈ counts

theorem passes_concat : passes (tr ++ [a]) =
    passes tr ++ ((passTime a).map fun p => (p, a.1.acquireCount)).toList := by
  unfold passes
  rw [List.filterMap_append]
  cases h : passTime a <;> simp [h]

/-- With costs that are not rounded down, the calls pass at least their exact costs apart. -/
theorem spaced_of_run (hthreshold : 0 < threshold)
    (hcounts : ∀ n ∈ counts, 1 ≤ n ∧ CostCovers threshold n)
    (hrun : Run ThrottleState.Steps (.start maxTimeout last) tr s)
    (hcalls : CallsWith threshold counts tr) :
    Spaced (fun p : ℤ × ℤ => (p.1 : ℚ)) (fun p => p.2 / threshold * 1000) (passes tr) ∧
      ∀ p ∈ passes tr, (p.1 : ℚ) ≤ s.checker.lastPassedTime := by
  induction hrun with
  | nil => exact ⟨.nil, fun p hp => absurd hp List.not_mem_nil⟩
  | @snoc tr s s' a _ hs ih =>
    obtain ⟨hspaced, hlast⟩ := ih fun b hb => hcalls b (List.mem_append_left _ hb)
    obtain ⟨hthr, hmem⟩ := hcalls a (List.mem_append_right _ (List.mem_singleton_self a))
    obtain ⟨hone, hcover⟩ := hcounts _ hmem
    have hcost : (0 : ℚ) ≤ a.1.acquireCount / threshold * 1000 := by
      have : (0 : ℚ) ≤ a.1.acquireCount := by exact_mod_cast (by omega : (0 : ℤ) ≤ a.1.acquireCount)
      positivity
    rw [passes_concat]
    rcases ThrottleState.steps_cases hs (by omega) (hthr ▸ hthreshold) with
      ⟨p, hp, hs', hle, -⟩ | ⟨hp, hs', -⟩
    · rw [hthr] at hle
      rw [hp, hs', Option.map_some, Option.toList_some]
      -- the expected time is late enough for the exact cost
      have hnext : (s.checker.lastPassedTime : ℚ) + a.1.acquireCount / threshold * 1000 ≤ p := by
        have hle' : (s.checker.lastPassedTime : ℚ) + costTime a.1.acquireCount threshold ≤ p := by
          exact_mod_cast hle
        exact (add_le_add_right hcover _).trans hle'
      refine ⟨hspaced.concat hlast hnext, fun q hq => ?_⟩
      rcases List.mem_append.mp hq with hq | hq
      · exact (hlast q hq).trans ((le_add_of_nonneg_right hcost).trans hnext)
      · rw [List.mem_singleton.mp hq]
    · rw [hp, hs', Option.map_none, Option.toList_none, List.append_nil]
      exact ⟨hspaced, hlast⟩

theorem exactCosts_sum (passes : List (ℤ × ℤ)) :
    (passes.map fun p => (p.2 : ℚ) / threshold * 1000).sum = acquired passes / threshold * 1000 := by
  unfold acquired
  induction passes with
  | nil => simp
  | cons p passes ih =>
    rw [List.map_cons, List.sum_cons, ih, List.map_cons, List.sum_cons]
    push_cast
    ring

theorem le_largestCount {passes : List (ℤ × ℤ)} {p : ℤ × ℤ} (hp : p ∈ passes) :
    p.2 ≤ largestCount passes :=
  ((foldr_max_le_iff _ _ _).mp le_rfl).2 _ (List.mem_map_of_mem hp)

/-- **Costs that cover enforce the rate**, in every run. -/
theorem withinRate_of_run (hthreshold : 0 < threshold)
    (hcounts : ∀ n ∈ counts, 1 ≤ n ∧ CostCovers threshold n)
    (hrun : Run ThrottleState.Steps (.start maxTimeout last) tr s)
    (hcalls : CallsWith threshold counts tr) : WithinRate threshold tr := by
  intro start length
  obtain ⟨hspaced, -⟩ := spaced_of_run hthreshold hcounts hrun hcalls
  have hin : ∀ p ∈ passesIn tr start length,
      (start : ℚ) ≤ p.1 ∧ (p.1 : ℚ) ≤ start + length := by
    intro p hp
    obtain ⟨-, hstart, hend⟩ : p ∈ passes tr ∧ start ≤ p.1 ∧ p.1 < start + length := by
      simpa [passesIn] using hp
    exact ⟨by exact_mod_cast hstart, by exact_mod_cast hend.le⟩
  have hsub : (passesIn tr start length).Sublist (passes tr) := List.filter_sublist
  rcases (hspaced.sublist hsub).sum_le hin with hnil | ⟨p, hp, hsum⟩
  · rw [hnil]
    show ((0 : ℤ) : ℚ) ≤ threshold * length / 1000 + ((0 : ℤ) : ℚ)
    simp only [Int.cast_zero, add_zero]
    positivity
  · rw [exactCosts_sum] at hsum
    have hlargest : (p.2 : ℚ) ≤ largestCount (passesIn tr start length) := by
      exact_mod_cast le_largestCount hp
    -- the costs in units of the threshold
    have hscaled := mul_le_mul_of_nonneg_left hsum (by positivity : (0 : ℚ) ≤ threshold / 1000)
    field_simp at hscaled
    linarith

/-! ### Too cheap a cost -/

/-- Calls that pass at once: the `k`-th at `k` times their cost. -/
def spacedCalls (threshold : ℚ) (acquireCount : ℤ) (N : ℕ) : List (ThrottleCall × TokenResult) :=
  (List.range N).map fun k : ℕ =>
    (⟨k * costTime acquireCount threshold, acquireCount, threshold⟩, .ok)

theorem spacedCalls_succ {n : ℤ} {N : ℕ} : spacedCalls threshold n (N + 1) =
    spacedCalls threshold n N ++ [(⟨N * costTime n threshold, n, threshold⟩, .ok)] := by
  unfold spacedCalls
  rw [List.range_succ, List.map_append, List.map_singleton]

theorem stdRound_nonneg {x : ℚ} (hx : 0 ≤ x) : 0 ≤ stdRound x := by
  rw [stdRound, if_pos hx]
  exact Int.floor_nonneg.mpr (by positivity)

theorem costTime_nonneg {n : ℤ} (hn : 0 ≤ n) (hthreshold : 0 < threshold) :
    0 ≤ costTime n threshold := by
  refine stdRound_nonneg ?_
  have : (0 : ℚ) ≤ n := by exact_mod_cast hn
  positivity

theorem run_spacedCalls {n : ℤ} (hn : 0 ≤ n) (hthreshold : 0 < threshold) (N : ℕ) :
    Run ThrottleState.Steps (.start maxTimeout (-costTime n threshold)) (spacedCalls threshold n N)
      (.start maxTimeout ((N - 1) * costTime n threshold)) := by
  induction N with
  | zero =>
    rw [Nat.cast_zero, zero_sub, neg_one_mul]
    exact .nil
  | succ N ih =>
    rw [spacedCalls_succ, Nat.cast_succ, add_sub_cancel_right]
    refine ih.snoc ?_
    have hcost := costTime_nonneg hn hthreshold
    have hexpected : (N - 1 : ℤ) * costTime n threshold + costTime n threshold =
        N * costTime n threshold := by ring
    have hpass := (⟨maxTimeout, (N - 1) * costTime n threshold⟩ :
      ThrottlingTrafficShapingChecker).doCheck_cases (N * costTime n threshold) hn hthreshold
    dsimp only at hpass
    rw [hexpected] at hpass
    rcases hpass with ⟨-, heq⟩ | ⟨hlt, -⟩ | ⟨-, hlt, -⟩
    · unfold ThrottleState.Steps StepOf ThrottleState.step ThrottleState.start
      dsimp only
      rw [if_pos (by linarith), heq]
    · exact absurd hlt (lt_irrefl _)
    · exact absurd hlt (lt_irrefl _)

theorem acquired_spacedCalls {n : ℤ} (N : ℕ) :
    acquired (passes (spacedCalls threshold n N)) = N * n := by
  induction N with
  | zero => simp [spacedCalls, passes, acquired]
  | succ N ih =>
    have hone : passes (spacedCalls threshold n (N + 1)) =
        passes (spacedCalls threshold n N) ++ [(N * costTime n threshold, n)] := by
      rw [spacedCalls_succ, passes_concat]
      rfl
    unfold acquired at ih ⊢
    rw [hone, List.map_append, List.sum_append, ih, List.map_singleton, List.sum_singleton]
    push_cast
    ring

theorem mem_passes_spacedCalls {n : ℤ} {N : ℕ} {p : ℤ × ℤ}
    (hp : p ∈ passes (spacedCalls threshold n N)) :
    ∃ k < N, p = (k * costTime n threshold, n) := by
  obtain ⟨a, ha, hpass⟩ := List.mem_filterMap.mp hp
  obtain ⟨k, hk, rfl⟩ := List.mem_map.mp ha
  exact ⟨k, List.mem_range.mp hk, (Option.some.inj hpass).symm⟩

/-- **A cost that is rounded down breaks the rate**, in a long enough run. -/
theorem exists_not_withinRate {n : ℤ} (hn : 1 ≤ n) (hthreshold : 0 < threshold)
    (hcover : ¬ CostCovers threshold n) :
    ∃ N, ¬ WithinRate threshold (spacedCalls threshold n N) := by
  have hcost := costTime_nonneg (by omega : 0 ≤ n) hthreshold
  have hgap : (0 : ℚ) < n * 1000 - threshold * costTime n threshold := by
    have hlt : (costTime n threshold : ℚ) < n / threshold * 1000 := not_le.mp hcover
    have hscaled := mul_lt_mul_of_pos_left hlt hthreshold
    field_simp at hscaled
    linarith
  -- the gaps of `N` calls add up to more than a millisecond admits
  obtain ⟨N, hN⟩ := exists_lt_nsmul hgap threshold
  refine ⟨N + 1, fun hrate => ?_⟩
  have hall : passesIn (spacedCalls threshold n (N + 1)) 0 ((N * costTime n threshold).toNat + 1) =
      passes (spacedCalls threshold n (N + 1)) := by
    refine List.filter_eq_self.mpr fun p hp => ?_
    obtain ⟨k, hk, rfl⟩ := mem_passes_spacedCalls hp
    have hk' : (k : ℤ) * costTime n threshold ≤ N * costTime n threshold :=
      mul_le_mul_of_nonneg_right (by omega) hcost
    have hk0 : (0 : ℤ) ≤ k * costTime n threshold := by positivity
    simp only [decide_eq_true_eq]
    omega
  have hlargest : largestCount (passes (spacedCalls threshold n (N + 1))) ≤ n := by
    refine (foldr_max_le_iff _ _ _).mpr ⟨by omega, fun x hx => ?_⟩
    obtain ⟨p, hp, rfl⟩ := List.mem_map.mp hx
    obtain ⟨k, -, rfl⟩ := mem_passes_spacedCalls hp
    exact le_rfl
  have hbound := hrate 0 ((N * costTime n threshold).toNat + 1)
  rw [hall, acquired_spacedCalls] at hbound
  have hlength : ((((N * costTime n threshold).toNat + 1 : ℕ) : ℤ) : ℚ) =
      N * costTime n threshold + 1 := by
    have h0 : (0 : ℤ) ≤ N * costTime n threshold := by positivity
    push_cast [Int.toNat_of_nonneg h0]
    rfl
  rw [Int.cast_natCast] at hlength
  rw [hlength] at hbound
  have hlargest' : (largestCount (passes (spacedCalls threshold n (N + 1))) : ℚ) ≤ n := by
    exact_mod_cast hlargest
  rw [nsmul_eq_mul] at hN
  push_cast at hbound
  linarith

/-- **The rate is enforced exactly by the counts whose cost covers**: every run with these counts keeps to
the threshold if and only if none of their costs is rounded down. -/
theorem withinRate_iff (hthreshold : 0 < threshold) (hcounts : ∀ n ∈ counts, 1 ≤ n) :
    (∀ last tr s, Run ThrottleState.Steps (.start maxTimeout last) tr s →
      CallsWith threshold counts tr → WithinRate threshold tr) ↔
      ∀ n ∈ counts, CostCovers threshold n := by
  constructor
  · intro h n hn
    by_contra hcover
    obtain ⟨N, hN⟩ := exists_not_withinRate (hcounts n hn) hthreshold hcover
    refine hN (h _ _ _ (run_spacedCalls (by linarith [hcounts n hn]) hthreshold N) ?_)
    intro a ha
    obtain ⟨k, -, rfl⟩ := List.mem_map.mp ha
    exact ⟨rfl, hn⟩
  · intro hcover last tr s hrun hcalls
    exact withinRate_of_run hthreshold (fun n hn => ⟨hcounts n hn, hcover n hn⟩) hrun hcalls

end Rate

/-- At a threshold of 1000 a request costs one millisecond, exactly. -/
theorem withinRate_iff_thousand :
    (∀ last tr s, Run ThrottleState.Steps (.start 500 last) tr s →
      CallsWith 1000 {1} tr → WithinRate 1000 tr) ↔ ∀ n ∈ ({1} : Set ℤ), CostCovers 1000 n :=
  withinRate_iff (by norm_num) fun _ hn => hn.ge

/-- A third of a millisecond is rounded to none: five requests pass at one time, at a threshold of 3000
a second. -/
theorem free_requests : ∃ s, Run ThrottleState.Steps (.start 0 0)
    (List.replicate 5 (⟨0, 1, 3000⟩, .ok)) s ∧
    ¬ WithinRate 3000 (List.replicate 5 (⟨0, 1, 3000⟩, .ok)) := by
  obtain ⟨s, -, hrun⟩ := exists_run_of_outputs ThrottleState.step (.start 0 0)
    (List.replicate 5 ⟨0, 1, 3000⟩) (List.replicate 5 .ok) (by decide +kernel)
  refine ⟨s, hrun, fun hrate => ?_⟩
  -- four are allowed in a single millisecond
  have h := hrate 0 1
  have hacquired : acquired (passesIn (List.replicate 5 (⟨0, 1, 3000⟩, .ok)) 0 1) = 5 := by
    decide
  have hlargest : largestCount (passesIn (List.replicate 5 (⟨0, 1, 3000⟩, .ok)) 0 1) = 1 := by
    decide
  rw [hacquired, hlargest] at h
  norm_num at h

end SentinelCpp.Flow
