import SentinelCpp.Lib.Groups
import SentinelCpp.Log.Complete
import SentinelCpp.Stat.Metrics

/-!
# From the counters to the log

`RunLogTask` goes in rounds: it copies the node map, calls `Metrics()` on each node of the copy,
gathers the items by time (`AggregateMetrics`), and hands each time with its items to the writer.
Meanwhile requests go on being counted and new resources get their nodes, in any order.

* `LogTask`, `LogTask.step`: the nodes, the round under way and the log; one step for each of these.
* `additionsOf tr r`: what a run counted for the resource `r`.
* `Prompt t₀ tr`: no round lasts into the second after the next, and a round begins within 58 s of the
  last one.
* `Gathered`: what stands in the log or waits in the round is each collected second once.

A round that lasted longer could write a second that the next round still has items of, and those the
writer drops.
-/

namespace SentinelCpp.Log

open Lib Stat

/-- `MetricItemTimeMap`. -/
abbrev MetricItemTimeMap := Groups ℤ MetricItem

/-- `set_resource(resource)`. -/
def setResource (resource : String) (item : MetricItem) : MetricItem := { item with resource := resource }

/-- `AggregateMetrics(map, metrics, resource)`; the hash map is walked in the given order. -/
def aggregateMetrics (order : IterationOrder (ℤ × MetricItem)) (map : MetricItemTimeMap)
    (metrics : Assoc ℤ MetricItem) (resource : String) : MetricItemTimeMap :=
  (order.order metrics).foldl (fun map e => map.push e.1 (setResource resource e.2)) map

/-- Where the task stands: between rounds, or in a round with resources left to collect and the map of
the round; once none is left the map is written, time after time. -/
inductive Phase
  | sleeping
  | running (left : List String) (map : MetricItemTimeMap)
  deriving DecidableEq

namespace Phase

/-- The resources left to collect. -/
def left : Phase → List String
  | sleeping => []
  | running left _ => left

/-- The items gathered in the round and not yet written. -/
def map : Phase → MetricItemTimeMap
  | sleeping => []
  | running _ map => map

end Phase

/-- The nodes of `ResourceNodeStorage`, the task, and its writer with the disk. -/
structure LogTask where
  nodeMap : Assoc String FetchedNode
  phase : Phase
  log : LogState

/-- What happens next, and when. -/
inductive TaskAction
  /-- `GetOrCreateClusterNode(r)`. -/
  | getOrCreate (r : String) (t : ℕ)
  /-- A call that counts for the node of `r`. -/
  | count (r : String) (c : NodeCall) (t : ℕ)
  /-- A round begins with a copy of the node map. -/
  | getNodeMap (t : ℕ)
  /-- `AggregateMetrics(map, node->Metrics(), r)` for a node of the copy. -/
  | collect (r : String) (t : ℕ)
  /-- `Write` for the first time of the map. -/
  | write (c : WriteCall)
  /-- The round is over. -/
  | sleep

namespace TaskAction

def time? : TaskAction → Option ℕ
  | getOrCreate _ t | count _ _ t | getNodeMap t | collect _ t => some t
  | write _ | sleep => none

end TaskAction

namespace LogTask

variable (env : LogEnv) (order : IterationOrder (ℤ × MetricItem)) (config : StatConfig)

/-- No node yet, and a new writer. -/
def start (singleFileSize totalFileCount : ℤ) (t₀ : ℕ) (d : Disk) : LogTask where
  nodeMap := []
  phase := .sleeping
  log := .start env singleFileSize totalFileCount t₀ d

variable (s : LogTask)

/-- One step; `none` where the source has no such step. -/
def step : TaskAction → Option LogTask
  | .getOrCreate r _ => some { s with nodeMap := s.nodeMap.insertNew r (.mk' config) }
  | .count r c t =>
    if c = .metrics then none
    else (s.nodeMap.find? r).map fun n =>
      { s with nodeMap := s.nodeMap.modify r fun _ => (c.apply n t).1 }
  | .getNodeMap _ =>
    match s.phase with
    | .sleeping => some { s with phase := .running (s.nodeMap.map Prod.fst) [] }
    | .running _ _ => none
  | .collect r t =>
    match s.phase with
    | .sleeping => none
    | .running left map =>
      if r ∈ left then
        (s.nodeMap.find? r).map fun n =>
          { s with
            nodeMap := s.nodeMap.modify r fun _ => (n.metrics t).1
            phase := .running (left.erase r) (aggregateMetrics order map (n.metrics t).2 r) }
      else none
  | .write c =>
    match s.phase with
    | .running [] ((time, nodes) :: map) =>
      if c.time = time ∧ c.nodes = nodes then
        some { s with phase := .running [] map, log := s.log.write env c.time c.nodes }
      else none
    | _ => none
  | .sleep =>
    match s.phase with
    | .running [] [] => some { s with phase := .sleeping }
    | _ => none

end LogTask

/-- An interleaving of requests, new resources and the log task. -/
abbrev LogTask.Steps (env : LogEnv) (order : IterationOrder (ℤ × MetricItem)) (config : StatConfig) :
    LogTask → List TaskAction → LogTask → Prop :=
  Run fun s a s' => s.step env order config a = some s'

/-! ### What a run did -/

/-- What was counted for `r`, with the times. -/
def TaskAction.additions (r : String) : TaskAction → Hist MetricAdd
  | .count r' c t => if r' = r then c.additions.map fun e => (t, e) else []
  | _ => []

def additionsOf (tr : List TaskAction) (r : String) : Hist MetricAdd :=
  tr.flatMap (TaskAction.additions r)

/-- Something was counted for `r` in second `k`. -/
def CountedIn (tr : List TaskAction) (r : String) (k : ℕ) : Prop :=
  inBucket 1000 k (additionsOf tr r) ≠ []

instance (tr : List TaskAction) (r : String) (k : ℕ) : Decidable (CountedIn tr r k) :=
  inferInstanceAs (Decidable (_ ≠ []))

/-- The times at which the node of `r` was collected. -/
def collectTimes (tr : List TaskAction) (r : String) : List ℕ :=
  tr.filterMap fun
    | .collect r' t => if r' = r then some t else none
    | _ => none

/-- The node of `r` was collected after second `k` had ended. -/
def CollectedAfter (tr : List TaskAction) (r : String) (k : ℕ) : Prop :=
  ∃ t ∈ collectTimes tr r, 1000 * (k + 1) ≤ t

instance (tr : List TaskAction) (r : String) (k : ℕ) : Decidable (CollectedAfter tr r k) :=
  inferInstanceAs (Decidable (∃ t ∈ _, _))

/-- The item of `r` for second `k`. -/
def itemOf (tr : List TaskAction) (r : String) (k : ℕ) : MetricItem :=
  setResource r (secondItem (additionsOf tr r) k)

/-- The calls of `Write`. -/
def writeCalls (tr : List TaskAction) : List WriteCall :=
  tr.filterMap fun
    | .write c => some c
    | _ => none

/-- The times of the actions that read the clock. -/
def times (tr : List TaskAction) : List ℕ := tr.filterMap TaskAction.time?

/-- The last time, or that of the start. -/
def lastRead (t₀ : ℕ) (tr : List TaskAction) : ℕ := (times tr).getLastD t₀

/-- The time at which the last round began, when the one before began at `b`. -/
def TaskAction.roundAfter (b : ℕ) : TaskAction → ℕ
  | .getNodeMap t => t
  | _ => b

/-- The time at which the last round began, or that of the start. -/
def lastRound (t₀ : ℕ) (tr : List TaskAction) : ℕ := tr.foldl TaskAction.roundAfter t₀

/-- After a round that began at `b`: the round ends before the second after the next, and the next one
begins within 58 s. -/
def TaskAction.PromptAfter (b : ℕ) : TaskAction → Prop
  | .getNodeMap t => t < b + 58000
  | .collect _ t => t / 1000 ≤ b / 1000 + 1
  | _ => True

instance (b : ℕ) : DecidablePred (TaskAction.PromptAfter b)
  | .getNodeMap _ => inferInstanceAs (Decidable (_ < _))
  | .collect _ _ => inferInstanceAs (Decidable (_ ≤ _))
  | .getOrCreate _ _ | .count _ _ _ | .write _ | .sleep => inferInstanceAs (Decidable True)

/-- Every action is in time. -/
def Prompt : ℕ → List TaskAction → Prop
  | _, [] => True
  | b, a :: tr => a.PromptAfter b ∧ Prompt (a.roundAfter b) tr

instance decidablePrompt : (b : ℕ) → (tr : List TaskAction) → Decidable (Prompt b tr)
  | _, [] => inferInstanceAs (Decidable True)
  | b, a :: tr =>
    have := decidablePrompt (a.roundAfter b) tr
    inferInstanceAs (Decidable (_ ∧ _))

/-- The counts are positive. -/
def PositiveCounts (tr : List TaskAction) : Prop := ∀ r c t, .count r c t ∈ tr → c.Positive

theorem mem_collectTimes {tr : List TaskAction} {r : String} {t : ℕ} :
    t ∈ collectTimes tr r ↔ .collect r t ∈ tr := by
  rw [collectTimes, List.mem_filterMap]
  constructor
  · rintro ⟨a, ha, h⟩
    cases a <;> simp at h
    obtain ⟨rfl, rfl⟩ := h
    exact ha
  · exact fun h => ⟨_, h, if_pos rfl⟩

section Concat

variable (tr : List TaskAction) (a : TaskAction)

theorem additionsOf_concat (r : String) :
    additionsOf (tr ++ [a]) r = additionsOf tr r ++ a.additions r := by
  simp [additionsOf]

theorem additionsOf_concat_of_nil {r : String} (h : a.additions r = []) :
    additionsOf (tr ++ [a]) r = additionsOf tr r := by
  rw [additionsOf_concat, h, List.append_nil]

theorem lastRead_concat (t₀ : ℕ) :
    lastRead t₀ (tr ++ [a]) = a.time?.getD (lastRead t₀ tr) := by
  rw [lastRead, times, List.filterMap_append]
  cases ha : a.time? with
  | none => simp [ha, lastRead, times]
  | some t => simp [ha]

theorem lastRound_concat_getNodeMap (t₀ t : ℕ) : lastRound t₀ (tr ++ [.getNodeMap t]) = t := by
  rw [lastRound, List.foldl_concat]
  rfl

theorem lastRound_concat_of_ne (t₀ : ℕ) (h : ∀ t, a ≠ .getNodeMap t) :
    lastRound t₀ (tr ++ [a]) = lastRound t₀ tr := by
  rw [lastRound, List.foldl_concat, ← lastRound]
  cases a with
  | getNodeMap t => exact absurd rfl (h t)
  | _ => rfl

theorem prompt_concat (t₀ : ℕ) :
    Prompt t₀ (tr ++ [a]) ↔ Prompt t₀ tr ∧ a.PromptAfter (lastRound t₀ tr) := by
  induction tr generalizing t₀ with
  | nil => exact and_comm
  | cons a' tr ih => exact (and_congr_right fun _ => ih _).trans and_assoc.symm

theorem writeCalls_concat_write (c : WriteCall) : writeCalls (tr ++ [.write c]) = writeCalls tr ++ [c] := by
  simp [writeCalls]

theorem writeCalls_concat_of_ne (h : ∀ c, a ≠ .write c) : writeCalls (tr ++ [a]) = writeCalls tr := by
  cases a with
  | write c => exact absurd rfl (h c)
  | getOrCreate r t => simp [writeCalls]
  | count r c t => simp [writeCalls]
  | getNodeMap t => simp [writeCalls]
  | collect r t => simp [writeCalls]
  | sleep => simp [writeCalls]

end Concat

/-- **Inversion of a step.** -/
theorem LogTask.step_cases {env : LogEnv} {order : IterationOrder (ℤ × MetricItem)} {config : StatConfig}
    {s s' : LogTask} {a : TaskAction} (h : s.step env order config a = some s') :
    (∃ r t, a = .getOrCreate r t ∧ s' = { s with nodeMap := s.nodeMap.insertNew r (.mk' config) }) ∨
    (∃ r c t n, a = .count r c t ∧ c ≠ .metrics ∧ s.nodeMap.find? r = some n ∧
      s' = { s with nodeMap := s.nodeMap.modify r fun _ => (c.apply n t).1 }) ∨
    (∃ t, a = .getNodeMap t ∧ s.phase = .sleeping ∧
      s' = { s with phase := .running (s.nodeMap.map Prod.fst) [] }) ∨
    (∃ r t left map n, a = .collect r t ∧ s.phase = .running left map ∧ r ∈ left ∧
      s.nodeMap.find? r = some n ∧ s' =
        { s with
          nodeMap := s.nodeMap.modify r fun _ => (n.metrics t).1
          phase := .running (left.erase r) (aggregateMetrics order map (n.metrics t).2 r) }) ∨
    (∃ c map, a = .write c ∧ s.phase = .running [] ((c.time, c.nodes) :: map) ∧
      s' = { s with phase := .running [] map, log := s.log.write env c.time c.nodes }) ∨
    (a = .sleep ∧ s.phase = .running [] [] ∧ s' = { s with phase := .sleeping }) := by
  cases a with
  | getOrCreate r t => exact .inl ⟨r, t, rfl, (Option.some.inj h).symm⟩
  | count r c t =>
    rw [step] at h
    split_ifs at h with hc
    obtain ⟨n, hn, rfl⟩ := Option.map_eq_some_iff.mp h
    exact .inr (.inl ⟨r, c, t, n, rfl, hc, hn, rfl⟩)
  | getNodeMap t =>
    cases hp : s.phase with
    | sleeping =>
      simp only [step, hp, Option.some.injEq] at h
      exact .inr (.inr (.inl ⟨t, rfl, rfl, h.symm⟩))
    | running left map => simp [step, hp] at h
  | collect r t =>
    cases hp : s.phase with
    | sleeping => simp [step, hp] at h
    | running left map =>
      simp only [step, hp] at h
      split_ifs at h with hr
      obtain ⟨n, hn, rfl⟩ := Option.map_eq_some_iff.mp h
      exact .inr (.inr (.inr (.inl ⟨r, t, left, map, n, rfl, rfl, hr, hn, rfl⟩)))
  | write c =>
    cases hp : s.phase with
    | sleeping => simp [step, hp] at h
    | running left map =>
      cases left with
      | cons r left => simp [step, hp] at h
      | nil =>
        cases map with
        | nil => simp [step, hp] at h
        | cons e map =>
          obtain ⟨time, nodes⟩ := e
          simp only [step, hp] at h
          split_ifs at h with hc
          obtain ⟨rfl, rfl⟩ := hc
          exact .inr (.inr (.inr (.inr (.inl ⟨c, map, rfl, rfl, (Option.some.inj h).symm⟩))))
  | sleep =>
    cases hp : s.phase with
    | sleeping => simp [step, hp] at h
    | running left map =>
      cases left with
      | cons r left => simp [step, hp] at h
      | nil =>
        cases map with
        | cons e map => simp [step, hp] at h
        | nil =>
          simp only [step, hp, Option.some.injEq] at h
          exact .inr (.inr (.inr (.inr (.inr ⟨rfl, rfl, h.symm⟩))))

/-! ### One node -/

/-- The items of `Metrics()` have times of their own. -/
theorem nodup_metrics (n : FetchedNode) (t : ℕ) : ((n.metrics t).2.map Prod.fst).Nodup := by
  have hfold : ∀ (l : List MetricItem) (m : Assoc ℤ MetricItem), (m.map Prod.fst).Nodup →
      ((l.foldl (fun m item => m.insertNew item.timestamp item) m).map Prod.fst).Nodup := by
    intro l
    induction l with
    | nil => exact fun m hm => hm
    | cons item l ih => exact fun m hm => ih _ (Assoc.nodup_insertNew hm _ _)
  have heq := foldl_metrics (fun item => n.isNodeInTime item ((t : ℤ) - (t % 1000 : ℕ)) &&
    isValidMetricItem item) (n.rollingCounterMinute.details t).2 n.lastFetchTimestamp []
  have hmap : (n.metrics t).2 = ((n.rollingCounterMinute.details t).2.filter fun item =>
      n.isNodeInTime item ((t : ℤ) - (t % 1000 : ℕ)) && isValidMetricItem item).foldl
        (fun m item => Assoc.insertNew m item.timestamp item) [] := congrArg Prod.snd heq
  rw [hmap]
  exact hfold _ [] List.nodup_nil

section Metrics

variable {n : FetchedNode} {h : Hist MetricAdd} {now t s₀ : ℕ}

/-- What one `Metrics()` call returns of second `k`. -/
theorem filter_metrics (hn : n.Fetched h now s₀) (hle : now ≤ t) (hlast : s₀ ≤ t / 1000)
    (hgap : t / 1000 < s₀ + 60) (k : ℕ) :
    ((n.metrics t).2.map Prod.snd).filter (fun x : MetricItem => x.second = k) =
      if s₀ ≤ k ∧ k < t / 1000 ∧ inBucket 1000 k h ≠ [] then [secondItem h k] else [] := by
  obtain ⟨-, hitems, hall⟩ := FetchedNode.metrics_spec hn hle hlast hgap
  have hsecond : ∀ k' : ℕ, (secondItem h k').second = k' := fun k' =>
    Int.mul_tdiv_cancel_left _ (by decide)
  have hkeys : ((n.metrics t).2.map Prod.snd).map MetricItem.timestamp =
      (n.metrics t).2.map Prod.fst := by
    rw [List.map_map]
    refine List.map_congr_left fun p hp => ?_
    obtain ⟨k', -, -, -, rfl⟩ := hitems p hp
    rfl
  have hnodup : ((n.metrics t).2.map Prod.snd).Nodup := by
    refine List.Nodup.of_map MetricItem.timestamp ?_
    rw [hkeys]
    exact nodup_metrics n t
  split_ifs with hk
  · obtain ⟨h1, h2, h3⟩ := hk
    obtain ⟨p, hp, hkey⟩ := List.mem_map.mp (hall k h1 h2 h3)
    obtain ⟨k', -, -, -, rfl⟩ := hitems p hp
    obtain rfl : k' = k := by
      have hkk : (1000 : ℤ) * k' = 1000 * k := hkey
      omega
    have hmem : secondItem h k' ∈ (n.metrics t).2.map Prod.snd := List.mem_map.mpr ⟨_, hp, rfl⟩
    have hone := List.filter_eq (l := (n.metrics t).2.map Prod.snd) (secondItem h k')
    rw [List.count_eq_one_of_mem hnodup hmem] at hone
    rw [← List.replicate_one, ← hone]
    refine List.filter_congr fun x hx => ?_
    obtain ⟨p', hp', rfl⟩ := List.mem_map.mp hx
    obtain ⟨k'', -, -, -, rfl⟩ := hitems p' hp'
    rw [decide_eq_decide]
    constructor
    · intro hkk
      rw [hsecond] at hkk
      rw [Int.ofNat_inj.mp hkk]
    · intro heq
      have heq' : secondItem h k'' = secondItem h k' := heq
      rw [heq', hsecond]
  · rw [List.filter_eq_nil_iff]
    intro x hx hkx
    obtain ⟨p, hp, rfl⟩ := List.mem_map.mp hx
    obtain ⟨k', h1, h2, h3, rfl⟩ := hitems p hp
    rw [decide_eq_true_eq, hsecond] at hkx
    obtain rfl : k' = k := by omega
    exact hk ⟨h1, h2, h3⟩

end Metrics

/-- The node of `r`: it counts what the run added, and what `Metrics()` has not returned yet begins
with second `mark`. -/
structure Watched (tr : List TaskAction) (r : String) (n : FetchedNode) (now mark : ℕ) : Prop where
  fetched : n.Fetched (additionsOf tr r) now mark
  mark_le : mark ≤ now / 1000
  collected : ∀ t, .collect r t ∈ tr → t / 1000 ≤ mark
  marked : (∃ t, .collect r t ∈ tr ∧ t / 1000 = mark) ∨ ∀ x ∈ additionsOf tr r, mark ≤ x.1 / 1000

namespace Watched

variable {tr : List TaskAction} {r : String} {n : FetchedNode} {now mark t : ℕ} {a : TaskAction}

/-- A node just made. -/
theorem start (config : StatConfig) (hadd : additionsOf tr r = []) (hcollect : ∀ t, .collect r t ∉ tr) :
    Watched tr r (.mk' config) t (t / 1000) := by
  refine ⟨⟨?_, ?_, ?_, ?_⟩, le_rfl, fun u hu => absurd hu (hcollect u), .inr (by simp [hadd])⟩
  · rw [hadd]
    exact Exact.mk' 60 1000 t
  · rw [hadd]
    exact ⟨by simp, by simp⟩
  · show (-1 : ℤ) < _
    omega
  · intro k _ hne
    rw [hadd] at hne
    exact absurd rfl hne

/-- Nothing happens to the node. -/
theorem other (h : Watched tr r n now mark) (hle : now ≤ t) (hadd : a.additions r = [])
    (hcollect : ∀ u, a ≠ .collect r u) : Watched (tr ++ [a]) r n t mark := by
  have hsame := additionsOf_concat_of_nil tr a hadd
  refine ⟨⟨?_, ?_, h.fetched.lt, ?_⟩, h.mark_le.trans (Nat.div_le_div_right hle), fun u hu => ?_, ?_⟩
  · rw [hsame]
    exact h.fetched.exact.later hle
  · rw [hsame]
    exact h.fetched.counted
  · rw [hsame]
    exact h.fetched.le
  · rcases List.mem_append.mp hu with hu | hu
    · exact h.collected u hu
    · exact absurd (List.mem_singleton.mp hu).symm (hcollect u)
  · rw [hsame]
    rcases h.marked with ⟨u, hu, hmark⟩ | hall
    · exact .inl ⟨u, List.mem_append_left _ hu, hmark⟩
    · exact .inr hall

/-- Something is counted. -/
theorem count (h : Watched tr r n now mark) (hle : now ≤ t) {c : NodeCall} (hc : c ≠ .metrics)
    (hpos : c.Positive) : Watched (tr ++ [.count r c t]) r (c.apply n t).1 t mark := by
  obtain ⟨-, hmark, hexact⟩ := NodeCall.apply_add hc n t
  have hadd : (TaskAction.count r c t).additions r = c.additions.map fun e => (t, e) := if_pos rfl
  have hsame : additionsOf (tr ++ [.count r c t]) r =
      additionsOf tr r ++ c.additions.map fun e => (t, e) := by rw [additionsOf_concat, hadd]
  have hlate : ∀ x ∈ c.additions.map fun e => (t, e), mark ≤ x.1 / 1000 := by
    intro x hx
    obtain ⟨e, -, rfl⟩ := List.mem_map.mp hx
    exact h.mark_le.trans (Nat.div_le_div_right hle)
  refine ⟨?_, h.mark_le.trans (Nat.div_le_div_right hle), fun u hu => ?_, ?_⟩
  · rw [hsame]
    exact h.fetched.add (hexact _ _ h.fetched.exact hle) (hpos.counted t) hlate hmark
  · rcases List.mem_append.mp hu with hu | hu
    · exact h.collected u hu
    · exact absurd (List.mem_singleton.mp hu) (by simp)
  · rw [hsame]
    rcases h.marked with ⟨u, hu, hmark⟩ | hall
    · exact .inl ⟨u, List.mem_append_left _ hu, hmark⟩
    · refine .inr fun x hx => ?_
      rcases List.mem_append.mp hx with hx | hx
      · exact hall x hx
      · exact hlate x hx

/-- The node is collected. -/
theorem collect (h : Watched tr r n now mark) (hle : now ≤ t) (hgap : t / 1000 < mark + 60) :
    Watched (tr ++ [.collect r t]) r (n.metrics t).1 t (t / 1000) := by
  have hmark : mark ≤ t / 1000 := h.mark_le.trans (Nat.div_le_div_right hle)
  obtain ⟨hfetched, -, -⟩ := FetchedNode.metrics_spec h.fetched hle hmark hgap
  refine ⟨?_, le_rfl, fun u hu => ?_, .inl ⟨t, by simp, rfl⟩⟩
  · rw [additionsOf_concat_of_nil tr (.collect r t) rfl]
    exact hfetched
  · rcases List.mem_append.mp hu with hu | hu
    · exact (h.collected u hu).trans hmark
    · obtain ⟨-, rfl⟩ : r = r ∧ u = t := by simpa using hu
      exact le_rfl

/-- A second with something counted lies before the mark exactly when the node has been collected after
it. -/
theorem lt_mark_iff (h : Watched tr r n now mark) {k : ℕ} (hk : CountedIn tr r k) :
    k < mark ↔ CollectedAfter tr r k := by
  constructor
  · intro hlt
    rcases h.marked with ⟨t, ht, hmark⟩ | hall
    · exact ⟨t, mem_collectTimes.mpr ht, by omega⟩
    · obtain ⟨e, he⟩ := List.exists_mem_of_ne_nil _ hk
      obtain ⟨u, hu, huk⟩ := mem_inBucket.mp he
      have := hall _ hu
      omega
  · rintro ⟨t, ht, hkt⟩
    have := h.collected t (mem_collectTimes.mp ht)
    omega

end Watched

/-! ### The round and the log -/

/-- The map of a round gets the items with the name of their resource. -/
theorem values_aggregateMetrics (order : IterationOrder (ℤ × MetricItem)) (map : MetricItemTimeMap)
    (metrics : Assoc ℤ MetricItem) (r : String) :
    (Groups.values (aggregateMetrics order map metrics r)).Perm
      (Groups.values map ++ (metrics.map Prod.snd).map (setResource r)) := by
  have hfold := Groups.values_foldl_push Prod.fst (fun e : ℤ × MetricItem => setResource r e.2) map
    (order.order metrics)
  have hperm := (order.perm metrics).map fun e => setResource r e.2
  rw [List.map_map]
  exact hfold.trans (hperm.append_left _)

/-- What has been written, and what waits in the round. -/
def gathered (tr : List TaskAction) (s : LogTask) : List MetricItem :=
  (writeCalls tr).flatMap WriteCall.items ++ Groups.values s.phase.map

/-- The items of `r` for second `k`. -/
def ofSecond (r : String) (k : ℕ) (xs : List MetricItem) : List MetricItem :=
  xs.filter fun x => x.resource = r ∧ x.second = k

theorem ofSecond_append (r : String) (k : ℕ) (xs ys : List MetricItem) :
    ofSecond r k (xs ++ ys) = ofSecond r k xs ++ ofSecond r k ys := List.filter_append ..

theorem ofSecond_perm {r : String} {k : ℕ} {xs ys : List MetricItem} (h : xs.Perm ys) :
    (ofSecond r k xs).Perm (ofSecond r k ys) := h.filter _

theorem ofSecond_setResource (r : String) (k : ℕ) (xs : List MetricItem) :
    ofSecond r k (xs.map (setResource r)) =
      (xs.filter fun x : MetricItem => x.second = k).map (setResource r) := by
  rw [ofSecond, List.filter_map]
  congr 1
  refine List.filter_congr fun x _ => ?_
  show decide (r = r ∧ x.second = k) = decide (x.second = k)
  simp

theorem ofSecond_setResource_of_ne {r r' : String} (h : r' ≠ r) (k : ℕ) (xs : List MetricItem) :
    ofSecond r' k (xs.map (setResource r)) = [] := by
  rw [ofSecond, List.filter_eq_nil_iff]
  intro x hx hr
  obtain ⟨y, -, rfl⟩ := List.mem_map.mp hx
  have hname : r = r' := (of_decide_eq_true hr).1
  exact h hname.symm

/-- The items of `r` for second `k` when the node counts `h` and its seconds before `mark` have been
collected. -/
def expected (r : String) (h : Hist MetricAdd) (mark k : ℕ) : List MetricItem :=
  if k < mark ∧ inBucket 1000 k h ≠ [] then [setResource r (secondItem h k)] else []

theorem expected_congr {r : String} {h h' : Hist MetricAdd} {mark k : ℕ}
    (heq : ∀ k < mark, inBucket 1000 k h = inBucket 1000 k h') :
    expected r h mark k = expected r h' mark k := by
  unfold expected
  by_cases hk : k < mark
  · rw [heq k hk, secondItem_congr (heq k hk)]
  · rw [if_neg fun h => hk h.1, if_neg fun h => hk h.1]

/-- It is one item at most, so a permutation of it is the same. -/
theorem eq_expected_of_perm {r : String} {h : Hist MetricAdd} {mark k : ℕ} {xs : List MetricItem}
    (hperm : xs.Perm (expected r h mark k)) : xs = expected r h mark k := by
  unfold expected at hperm ⊢
  split_ifs at hperm ⊢ with hk
  · exact List.perm_singleton.mp hperm
  · exact hperm.eq_nil

/-- One more collection, up to second `mark'`. -/
theorem expected_append {r : String} {h : Hist MetricAdd} {mark mark' k : ℕ} (hle : mark ≤ mark') :
    expected r h mark k ++ (if mark ≤ k ∧ k < mark' ∧ inBucket 1000 k h ≠ [] then [secondItem h k]
      else []).map (setResource r) = expected r h mark' k := by
  unfold expected
  by_cases hne : inBucket 1000 k h = []
  · simp [hne]
  · by_cases hk : k < mark
    · simp [hne, hk, hk.trans_le hle, not_le.mpr hk]
    · by_cases hk' : k < mark'
      · simp [hne, hk, hk', not_lt.mp hk]
      · simp [hk, hk']

/-- The time is that of a second from `low` to `high`, and the items have it. -/
def Timed (low high : ℕ) (time : ℤ) (xs : List MetricItem) : Prop :=
  ∃ k : ℕ, time = 1000 * k ∧ low ≤ k ∧ k ≤ high ∧ ∀ x ∈ xs, x.timestamp = time

theorem Timed.mono {low low' high high' : ℕ} {time : ℤ} {xs : List MetricItem}
    (h : Timed low high time xs) (hlow : low' ≤ low) (hhigh : high ≤ high') :
    Timed low' high' time xs := by
  obtain ⟨k, htime, h1, h2, hxs⟩ := h
  exact ⟨k, htime, hlow.trans h1, h2.trans hhigh, hxs⟩

/-- A call at the time of its items writes them as they are. -/
theorem Timed.items {low high : ℕ} {c : WriteCall} (h : Timed low high c.time c.nodes) :
    c.items = c.nodes := by
  obtain ⟨k, htime, -, -, hxs⟩ := h
  rw [WriteCall.items, if_pos (by omega)]
  calc c.nodes.map (fun x => { x with timestamp := c.time })
      _ = c.nodes.map id := List.map_congr_left fun x hx => by rw [← hxs x hx]; rfl
      _ = c.nodes := List.map_id _

theorem Timed.second {low high : ℕ} {c : WriteCall} (h : Timed low high c.time c.nodes) :
    ∃ k : ℕ, c.second = k ∧ c.time = 1000 * k ∧ low ≤ k ∧ k ≤ high := by
  obtain ⟨k, htime, h1, h2, -⟩ := h
  refine ⟨k, ?_, htime, h1, h2⟩
  rw [WriteCall.second, htime]
  exact Int.mul_tdiv_cancel_left _ (by decide)

/-- One more call, in a second that is not before the others. -/
theorem inOrder_concat {now : ℤ} {calls : List WriteCall} {c : WriteCall} (h : InOrder now calls)
    (hcalls : ∀ c' ∈ calls, c'.second ≤ c.second) (hnow : now.tdiv 1000 ≤ c.second) :
    InOrder now (calls ++ [c]) := by
  rw [InOrder, List.map_append, ← List.cons_append, List.isChain_append]
  refine ⟨h, List.isChain_singleton _, fun x hx y hy => ?_⟩
  obtain rfl : y = c.second := by simpa using hy.symm
  rcases List.mem_cons.mp (List.mem_of_getLast? hx) with rfl | hx
  · exact hnow
  · obtain ⟨c', hc', rfl⟩ := List.mem_map.mp hx
    exact hcalls c' hc'

/-- **The invariant.**  The writer has nothing later than second `low`, what a round gathers lies
between `low` and the second in which the round began, and each second that has been collected is
there once. -/
structure Gathered (env : LogEnv) (t₀ : ℕ) (log₀ : LogState) (tr : List TaskAction) (s : LogTask)
    (low : ℕ) (mark : String → ℕ) : Prop where
  log : s.log = log₀.writes env (writeCalls tr)
  keys : (s.nodeMap.map Prod.fst).Nodup
  absent : ∀ r, s.nodeMap.find? r = none → additionsOf tr r = [] ∧ ∀ t, .collect r t ∉ tr
  watched : ∀ r n, s.nodeMap.find? r = some n → Watched tr r n (lastRead t₀ tr) (mark r)
  round_le : lastRound t₀ tr ≤ lastRead t₀ tr
  start_le : t₀ / 1000 ≤ low
  low_le : low ≤ lastRound t₀ tr / 1000
  left_nodup : s.phase.left.Nodup
  left_present : ∀ r ∈ s.phase.left, s.nodeMap.find? r ≠ none
  left_low : ∀ r ∈ s.phase.left, low ≤ mark r
  left_soon : s.phase.left ≠ [] → lastRound t₀ tr / 1000 ≤ low + 58
  other_mark : ∀ r, s.nodeMap.find? r ≠ none → r ∉ s.phase.left → lastRound t₀ tr / 1000 ≤ mark r
  sorted : Groups.Sorted s.phase.map
  groups : ∀ e ∈ s.phase.map, Timed low (lastRound t₀ tr / 1000) e.1 e.2
  calls : ∀ c ∈ writeCalls tr, Timed (t₀ / 1000) low c.time c.nodes
  chain : InOrder t₀ (writeCalls tr)
  once : ∀ r k, ofSecond r k (gathered tr s) = expected r (additionsOf tr r) (mark r) k

namespace Gathered

variable {env : LogEnv} {order : IterationOrder (ℤ × MetricItem)} {config : StatConfig} {t₀ t : ℕ}
  {log₀ : LogState} {tr : List TaskAction} {s : LogTask} {low : ℕ} {mark : String → ℕ} {r : String}
  {n : FetchedNode}

theorem start (env : LogEnv) (singleFileSize totalFileCount : ℤ) (t₀ : ℕ) (d : Disk) :
    Gathered env t₀ (.start env singleFileSize totalFileCount t₀ d) []
      (.start env singleFileSize totalFileCount t₀ d) (t₀ / 1000) fun _ => 0 where
  log := rfl
  keys := List.nodup_nil
  absent := fun r _ => ⟨rfl, by simp⟩
  watched := fun r n h => by simp [LogTask.start] at h
  round_le := le_rfl
  start_le := le_rfl
  low_le := le_rfl
  left_nodup := List.nodup_nil
  left_present := fun r h => by simp [LogTask.start, Phase.left] at h
  left_low := fun r h => by simp [LogTask.start, Phase.left] at h
  left_soon := fun h => absurd rfl h
  other_mark := fun r h => by simp [LogTask.start] at h
  sorted := Groups.sorted_nil
  groups := fun e h => by simp [LogTask.start, Phase.map] at h
  calls := fun c h => by simp [writeCalls] at h
  chain := List.isChain_singleton _
  once := fun r k => by
    simp [gathered, writeCalls, LogTask.start, Phase.map, ofSecond, expected]

/-- `GetOrCreateClusterNode` makes a node for a resource that has none. -/
theorem getOrCreate (hI : Gathered env t₀ log₀ tr s low mark) (hle : lastRead t₀ tr ≤ t) :
    Gathered env t₀ log₀ (tr ++ [.getOrCreate r t])
      { s with nodeMap := s.nodeMap.insertNew r (.mk' config) } low
      fun r' => if s.nodeMap.find? r' = none then t / 1000 else mark r' := by
  have hread : lastRead t₀ (tr ++ [.getOrCreate r t]) = t := lastRead_concat ..
  have hround : lastRound t₀ (tr ++ [.getOrCreate r t]) = lastRound t₀ tr :=
    lastRound_concat_of_ne _ _ _ (by simp)
  have hadd : ∀ r', additionsOf (tr ++ [.getOrCreate r t]) r' = additionsOf tr r' := fun r' =>
    additionsOf_concat_of_nil _ _ rfl
  have hcalls : writeCalls (tr ++ [.getOrCreate r t]) = writeCalls tr :=
    writeCalls_concat_of_ne _ _ (by simp)
  have hmark : ∀ r', s.nodeMap.find? r' ≠ none →
      (if s.nodeMap.find? r' = none then t / 1000 else mark r') = mark r' := fun r' h => if_neg h
  have hfind := Assoc.find?_insertNew s.nodeMap r (FetchedNode.mk' config)
  refine ⟨?_, Assoc.nodup_insertNew hI.keys _ _, fun r' hr' => ?_, fun r' n hn => ?_, ?_, hI.start_le, ?_,
    hI.left_nodup, fun r' hr' => ?_, fun r' hr' => ?_, ?_, fun r' hr' hleft => ?_, hI.sorted, ?_, ?_, ?_,
    fun r' k => ?_⟩
  · rw [hcalls]
    exact hI.log
  · dsimp only at hr'
    rw [hfind] at hr'
    split_ifs at hr' with heq
    obtain ⟨h1, h2⟩ := hI.absent r' hr'
    refine ⟨(hadd r').trans h1, fun u hu => ?_⟩
    rcases List.mem_append.mp hu with hu | hu
    · exact h2 u hu
    · exact absurd (List.mem_singleton.mp hu) (by simp)
  · dsimp only at hn
    rw [hfind] at hn
    rw [hread]
    cases hr' : s.nodeMap.find? r' with
    | some n' =>
      obtain rfl : n' = n := by
        split_ifs at hn with heq
        · rw [← heq, hr'] at hn
          exact Option.some.inj hn
        · rw [hr'] at hn
          exact Option.some.inj hn
      rw [if_neg (by simp)]
      exact (hI.watched r' n' hr').other hle rfl (by simp)
    | none =>
      rw [if_pos rfl]
      split_ifs at hn with heq
      · subst heq
        rw [hr', Option.getD_none, Option.some.injEq] at hn
        subst hn
        obtain ⟨h1, h2⟩ := hI.absent r' hr'
        refine Watched.start config ((hadd r').trans h1) fun u hu => ?_
        rcases List.mem_append.mp hu with hu | hu
        · exact h2 u hu
        · exact absurd (List.mem_singleton.mp hu) (by simp)
      · rw [hr'] at hn
        exact absurd hn (by simp)
  · rw [hround, hread]
    exact hI.round_le.trans hle
  · rw [hround]
    exact hI.low_le
  · dsimp only
    rw [hfind]
    split_ifs
    · simp
    · exact hI.left_present r' hr'
  · rw [hmark r' (hI.left_present r' hr')]
    exact hI.left_low r' hr'
  · rw [hround]
    exact hI.left_soon
  · rw [hround]
    split_ifs with hnone
    · have := hI.round_le
      omega
    · exact hI.other_mark r' hnone hleft
  · rw [hround]
    exact hI.groups
  · rw [hcalls]
    exact hI.calls
  · rw [hcalls]
    exact hI.chain
  · have hgathered : gathered (tr ++ [.getOrCreate r t])
        { s with nodeMap := s.nodeMap.insertNew r (.mk' config) } = gathered tr s := by
      rw [gathered, hcalls, gathered]
    rw [hgathered, hI.once, hadd]
    split_ifs with hnone
    · rw [(hI.absent r' hnone).1]
      simp [expected]
    · rfl

/-- Something is counted for a resource with a node. -/
theorem count (hI : Gathered env t₀ log₀ tr s low mark) (hle : lastRead t₀ tr ≤ t) {c : NodeCall}
    (hc : c ≠ .metrics) (hpos : c.Positive) (hn : s.nodeMap.find? r = some n) :
    Gathered env t₀ log₀ (tr ++ [.count r c t])
      { s with nodeMap := s.nodeMap.modify r fun _ => (c.apply n t).1 } low mark := by
  have hread : lastRead t₀ (tr ++ [.count r c t]) = t := lastRead_concat ..
  have hround : lastRound t₀ (tr ++ [.count r c t]) = lastRound t₀ tr :=
    lastRound_concat_of_ne _ _ _ (by simp)
  have hadd : ∀ r', r' ≠ r → (TaskAction.count r c t).additions r' = [] := fun r' hr' =>
    if_neg hr'.symm
  have hcalls : writeCalls (tr ++ [.count r c t]) = writeCalls tr := writeCalls_concat_of_ne _ _ (by simp)
  have hfind := Assoc.find?_modify s.nodeMap r fun _ => (c.apply n t).1
  have hpresent : ∀ r', (s.nodeMap.modify r fun _ => (c.apply n t).1).find? r' ≠ none ↔
      s.nodeMap.find? r' ≠ none := by
    intro r'
    rw [hfind]
    split_ifs <;> simp
  have hwatched := (hI.watched r n hn).count hle hc hpos
  refine ⟨?_, ?_, fun r' hr' => ?_, fun r' n' hn' => ?_, ?_, hI.start_le, ?_, hI.left_nodup,
    fun r' hr' => (hpresent r').mpr (hI.left_present r' hr'), hI.left_low, ?_, fun r' hr' => ?_,
    hI.sorted, ?_, ?_, ?_, fun r' k => ?_⟩
  · rw [hcalls]
    exact hI.log
  · dsimp only
    rw [Assoc.keys_modify]
    exact hI.keys
  · have hnone : s.nodeMap.find? r' = none := by
      by_contra h
      exact (hpresent r').mpr h hr'
    have hne : r' ≠ r := by
      rintro rfl
      rw [hn] at hnone
      exact absurd hnone (by simp)
    obtain ⟨h1, h2⟩ := hI.absent r' hnone
    refine ⟨(additionsOf_concat_of_nil _ _ (hadd r' hne)).trans h1, fun u hu => ?_⟩
    rcases List.mem_append.mp hu with hu | hu
    · exact h2 u hu
    · exact absurd (List.mem_singleton.mp hu) (by simp)
  · dsimp only at hn'
    rw [hfind] at hn'
    rw [hread]
    split_ifs at hn' with heq
    · subst heq
      rw [hn, Option.map_some, Option.some.injEq] at hn'
      subst hn'
      exact hwatched
    · exact (hI.watched r' n' hn').other hle (hadd r' heq) (by simp)
  · rw [hround, hread]
    exact hI.round_le.trans hle
  · rw [hround]
    exact hI.low_le
  · rw [hround]
    exact hI.left_soon
  · rw [hround]
    exact hI.other_mark r' ((hpresent r').mp hr')
  · rw [hround]
    exact hI.groups
  · rw [hcalls]
    exact hI.calls
  · rw [hcalls]
    exact hI.chain
  · have hgathered : gathered (tr ++ [.count r c t])
        { s with nodeMap := s.nodeMap.modify r fun _ => (c.apply n t).1 } = gathered tr s := by
      rw [gathered, hcalls, gathered]
    rw [hgathered, hI.once]
    by_cases heq : r' = r
    · -- what is counted now lies in a second that has not been collected
      subst heq
      refine expected_congr fun j hj => ?_
      have hnil : inBucket 1000 j ((TaskAction.count r' c t).additions r') = [] := by
        refine inBucket_eq_nil.mpr fun x hx => ?_
        rw [TaskAction.additions, if_pos rfl] at hx
        obtain ⟨e, -, rfl⟩ := List.mem_map.mp hx
        have hmark := (hI.watched r' n hn).mark_le
        dsimp only
        omega
      rw [additionsOf_concat, inBucket_append, hnil, List.append_nil]
    · rw [additionsOf_concat_of_nil _ _ (hadd r' heq)]

/-- A round begins. -/
theorem getNodeMap (hI : Gathered env t₀ log₀ tr s low mark) (hle : lastRead t₀ tr ≤ t)
    (hprompt : t < lastRound t₀ tr + 58000) (hphase : s.phase = .sleeping) :
    Gathered env t₀ log₀ (tr ++ [.getNodeMap t])
      { s with phase := .running (s.nodeMap.map Prod.fst) [] } (lastRound t₀ tr / 1000) mark := by
  have hread : lastRead t₀ (tr ++ [.getNodeMap t]) = t := lastRead_concat ..
  have hround : lastRound t₀ (tr ++ [.getNodeMap t]) = t := lastRound_concat_getNodeMap ..
  have hadd : ∀ r', additionsOf (tr ++ [.getNodeMap t]) r' = additionsOf tr r' := fun r' =>
    additionsOf_concat_of_nil _ _ rfl
  have hcalls : writeCalls (tr ++ [.getNodeMap t]) = writeCalls tr := writeCalls_concat_of_ne _ _ (by simp)
  have hleft : s.phase.left = [] := by rw [hphase, Phase.left]
  have hnotin : ∀ r', s.nodeMap.find? r' ≠ none ↔ r' ∈ s.nodeMap.map Prod.fst := fun r' => by
    rw [ne_eq, Assoc.find?_eq_none, not_not]
  have hroundle := hI.round_le
  refine ⟨?_, hI.keys, fun r' hr' => ?_, fun r' n hn => ?_, ?_, ?_, ?_, hI.keys,
    fun r' hr' => (hnotin r').mpr hr', fun r' hr' => ?_, fun _ => ?_,
    fun r' hr' hnot => absurd ((hnotin r').mp hr') hnot, Groups.sorted_nil,
    fun e he => absurd he List.not_mem_nil, fun c hc => ?_, ?_, fun r' k => ?_⟩
  · rw [hcalls]
    exact hI.log
  · obtain ⟨h1, h2⟩ := hI.absent r' hr'
    refine ⟨(hadd r').trans h1, fun u hu => ?_⟩
    rcases List.mem_append.mp hu with hu | hu
    · exact h2 u hu
    · exact absurd (List.mem_singleton.mp hu) (by simp)
  · rw [hread]
    exact (hI.watched r' n hn).other hle rfl (by simp)
  · rw [hround, hread]
  · exact hI.start_le.trans hI.low_le
  · rw [hround]
    exact Nat.div_le_div_right (hroundle.trans hle)
  · refine hI.other_mark r' ((hnotin r').mpr hr') ?_
    rw [hleft]
    exact List.not_mem_nil
  · rw [hround]
    omega
  · rw [hcalls] at hc
    exact (hI.calls c hc).mono le_rfl hI.low_le
  · rw [hcalls]
    exact hI.chain
  · have hgathered : gathered (tr ++ [.getNodeMap t])
        { s with phase := .running (s.nodeMap.map Prod.fst) [] } = gathered tr s := by
      rw [gathered, hcalls, gathered, hphase]
      rfl
    rw [hgathered, hI.once, hadd]

/-- A node of the copy is collected. -/
theorem collect (hI : Gathered env t₀ log₀ tr s low mark) (hle : lastRead t₀ tr ≤ t)
    (hprompt : t / 1000 ≤ lastRound t₀ tr / 1000 + 1) {left : List String} {map : MetricItemTimeMap}
    (hphase : s.phase = .running left map) (hr : r ∈ left) (hn : s.nodeMap.find? r = some n) :
    Gathered env t₀ log₀ (tr ++ [.collect r t])
      { s with
        nodeMap := s.nodeMap.modify r fun _ => (n.metrics t).1
        phase := .running (left.erase r) (aggregateMetrics order map (n.metrics t).2 r) }
      low (Function.update mark r (t / 1000)) := by
  have hleft : s.phase.left = left := by rw [hphase, Phase.left]
  have hmap : s.phase.map = map := by rw [hphase, Phase.map]
  have hread : lastRead t₀ (tr ++ [.collect r t]) = t := lastRead_concat ..
  have hround : lastRound t₀ (tr ++ [.collect r t]) = lastRound t₀ tr :=
    lastRound_concat_of_ne _ _ _ (by simp)
  have hadd : ∀ r', additionsOf (tr ++ [.collect r t]) r' = additionsOf tr r' := fun r' =>
    additionsOf_concat_of_nil _ _ rfl
  have hcalls : writeCalls (tr ++ [.collect r t]) = writeCalls tr := writeCalls_concat_of_ne _ _ (by simp)
  have hfind := Assoc.find?_modify s.nodeMap r fun _ => (n.metrics t).1
  have hpresent : ∀ r', (s.nodeMap.modify r fun _ => (n.metrics t).1).find? r' ≠ none ↔
      s.nodeMap.find? r' ≠ none := by
    intro r'
    rw [hfind]
    split_ifs <;> simp
  have hlow : low ≤ mark r := hI.left_low r (hleft ▸ hr)
  have hsoon : lastRound t₀ tr / 1000 ≤ low + 58 :=
    hI.left_soon (hleft ▸ List.ne_nil_of_mem hr)
  have hw := hI.watched r n hn
  have hmark : mark r ≤ t / 1000 := hw.mark_le.trans (Nat.div_le_div_right hle)
  have hgap : t / 1000 < mark r + 60 := by omega
  have hroundle := hI.round_le
  obtain ⟨-, hitems, -⟩ := FetchedNode.metrics_spec hw.fetched hle hmark hgap
  have hother : ∀ r', r' ≠ r → ∀ u, TaskAction.collect r t ≠ .collect r' u := by
    intro r' hne u heq
    injection heq with h1 h2
    exact hne h1.symm
  have hnodup : left.Nodup := hleft ▸ hI.left_nodup
  have hsub : ∀ r' ∈ left.erase r, r' ≠ r ∧ r' ∈ s.phase.left := by
    intro r' hr'
    rw [hnodup.mem_erase_iff] at hr'
    exact ⟨hr'.1, hleft ▸ hr'.2⟩
  refine ⟨?_, ?_, fun r' hr' => ?_, fun r' n' hn' => ?_, ?_, hI.start_le, ?_, hnodup.erase r,
    fun r' hr' => (hpresent r').mpr (hI.left_present r' (hsub r' hr').2), fun r' hr' => ?_, fun _ => ?_,
    fun r' hr' hnot => ?_, ?_, ?_, ?_, ?_, fun r' k => ?_⟩
  · rw [hcalls]
    exact hI.log
  · dsimp only
    rw [Assoc.keys_modify]
    exact hI.keys
  · have hnone : s.nodeMap.find? r' = none := by
      by_contra h
      exact (hpresent r').mpr h hr'
    have hne : r' ≠ r := by
      rintro rfl
      rw [hn] at hnone
      exact absurd hnone (by simp)
    obtain ⟨h1, h2⟩ := hI.absent r' hnone
    refine ⟨(hadd r').trans h1, fun u hu => ?_⟩
    rcases List.mem_append.mp hu with hu | hu
    · exact h2 u hu
    · exact hother r' hne u (List.mem_singleton.mp hu).symm
  · dsimp only at hn'
    rw [hfind] at hn'
    rw [hread]
    split_ifs at hn' with heq
    · subst heq
      rw [hn, Option.map_some, Option.some.injEq] at hn'
      subst hn'
      rw [Function.update_self]
      exact hw.collect hle hgap
    · rw [Function.update_of_ne heq]
      exact (hI.watched r' n' hn').other hle rfl (hother r' heq)
  · rw [hround, hread]
    exact hroundle.trans hle
  · rw [hround]
    exact hI.low_le
  · obtain ⟨hne, hr'⟩ := hsub r' hr'
    rw [Function.update_of_ne hne]
    exact hI.left_low r' hr'
  · rw [hround]
    exact hsoon
  · rw [hround]
    by_cases heq : r' = r
    · rw [heq, Function.update_self]
      exact Nat.div_le_div_right (hroundle.trans hle)
    · rw [Function.update_of_ne heq]
      refine hI.other_mark r' ((hpresent r').mp hr') fun hin => hnot ?_
      exact (List.mem_erase_of_ne heq).mpr (hleft ▸ hin)
  · exact Groups.Sorted.foldl_push _ _ (hmap ▸ hI.sorted) _
  · -- the seconds collected now have ended since the mark of the node
    rw [hround]
    have hold : ∀ e ∈ map, Timed low (lastRound t₀ tr / 1000) e.1 e.2 := hmap ▸ hI.groups
    refine Groups.forall_foldl_push _ _ hold (fun e he => ?_) fun e he vs hvs => ?_
    · obtain ⟨k, h1, h2, -, rfl⟩ := hitems e ((order.perm _).mem_iff.mp he)
      exact ⟨k, rfl, hlow.trans h1, by omega, by simp [setResource, secondItem, MetricItem.ofBucket]⟩
    · obtain ⟨k, -, -, -, rfl⟩ := hitems e ((order.perm _).mem_iff.mp he)
      obtain ⟨k', htime, h1, h2, hvs⟩ := hvs
      refine ⟨k', htime, h1, h2, fun x hx => ?_⟩
      rcases List.mem_append.mp hx with hx | hx
      · exact hvs x hx
      · obtain rfl := List.mem_singleton.mp hx
        rfl
  · rw [hcalls]
    exact hI.calls
  · rw [hcalls]
    exact hI.chain
  · rw [hadd]
    have hvalues := values_aggregateMetrics order map (n.metrics t).2 r
    have hgathered : (gathered (tr ++ [.collect r t])
        { s with
          nodeMap := s.nodeMap.modify r fun _ => (n.metrics t).1
          phase := .running (left.erase r) (aggregateMetrics order map (n.metrics t).2 r) }).Perm
        (gathered tr s ++ ((n.metrics t).2.map Prod.snd).map (setResource r)) := by
      rw [gathered, hcalls, gathered, hmap, List.append_assoc]
      exact hvalues.append_left _
    refine eq_expected_of_perm ((ofSecond_perm hgathered).trans ?_)
    rw [ofSecond_append, hI.once]
    by_cases heq : r' = r
    · subst heq
      rw [ofSecond_setResource, filter_metrics hw.fetched hle hmark hgap, expected_append hmark,
        Function.update_self]
    · rw [ofSecond_setResource_of_ne heq, List.append_nil, Function.update_of_ne heq]

/-- The first time of the map is written. -/
theorem write (hI : Gathered env t₀ log₀ tr s low mark) {c : WriteCall} {map : MetricItemTimeMap}
    (hphase : s.phase = .running [] ((c.time, c.nodes) :: map)) :
    ∃ k, Gathered env t₀ log₀ (tr ++ [.write c])
      { s with phase := .running [] map, log := s.log.write env c.time c.nodes } k mark := by
  have hleft : s.phase.left = [] := by rw [hphase, Phase.left]
  have hmap : s.phase.map = (c.time, c.nodes) :: map := by rw [hphase, Phase.map]
  have hread : lastRead t₀ (tr ++ [.write c]) = lastRead t₀ tr := lastRead_concat ..
  have hround : lastRound t₀ (tr ++ [.write c]) = lastRound t₀ tr :=
    lastRound_concat_of_ne _ _ _ (by simp)
  have hadd : ∀ r', additionsOf (tr ++ [.write c]) r' = additionsOf tr r' := fun r' =>
    additionsOf_concat_of_nil _ _ rfl
  have hcalls := writeCalls_concat_write tr c
  have htimed : Timed low (lastRound t₀ tr / 1000) c.time c.nodes :=
    hI.groups (c.time, c.nodes) (by rw [hmap]; exact List.mem_cons_self)
  obtain ⟨k, hsecond, htime, hlow, hhigh⟩ := htimed.second
  have hsorted := hI.sorted
  rw [hmap] at hsorted
  obtain ⟨hlater, hsorted⟩ := List.pairwise_cons.mp hsorted
  refine ⟨k, ?_, hI.keys, fun r' hr' => ?_, fun r' n hn => ?_, ?_, hI.start_le.trans hlow, ?_,
    List.nodup_nil, fun r' hr' => absurd hr' List.not_mem_nil, fun r' hr' => absurd hr' List.not_mem_nil,
    fun h => absurd rfl h, fun r' hr' _ => ?_, hsorted, fun e he => ?_, fun c' hc' => ?_, ?_,
    fun r' j => ?_⟩
  · rw [hcalls, LogState.writes, List.foldl_concat, ← LogState.writes, ← hI.log]
  · obtain ⟨h1, h2⟩ := hI.absent r' hr'
    refine ⟨(hadd r').trans h1, fun u hu => ?_⟩
    rcases List.mem_append.mp hu with hu | hu
    · exact h2 u hu
    · exact absurd (List.mem_singleton.mp hu) (by simp)
  · rw [hread]
    exact (hI.watched r' n hn).other le_rfl rfl (by simp)
  · rw [hround, hread]
    exact hI.round_le
  · rw [hround]
    exact hhigh
  · rw [hround]
    refine hI.other_mark r' hr' ?_
    rw [hleft]
    exact List.not_mem_nil
  · rw [hround]
    obtain ⟨k', htime', -, hhigh', hxs⟩ :=
      hI.groups e (by rw [hmap]; exact List.mem_cons_of_mem _ he)
    have hlt : c.time < e.1 := hlater e he
    exact ⟨k', htime', by omega, hhigh', hxs⟩
  · rw [hcalls] at hc'
    rcases List.mem_append.mp hc' with hc' | hc'
    · exact (hI.calls c' hc').mono le_rfl hlow
    · obtain rfl := List.mem_singleton.mp hc'
      obtain ⟨k', htime', -, -, hxs⟩ := htimed
      have hstart := hI.start_le
      exact ⟨k', htime', by omega, by omega, hxs⟩
  · rw [hcalls]
    have hstart := hI.start_le
    refine inOrder_concat hI.chain (fun c' hc' => ?_) ?_
    · obtain ⟨k', hsecond', -, -, hhigh'⟩ := (hI.calls c' hc').second
      omega
    · have htdiv : (t₀ : ℤ).tdiv 1000 = ((t₀ / 1000 : ℕ) : ℤ) := (Int.ofNat_tdiv t₀ 1000).symm
      omega
  · have hgathered : gathered (tr ++ [.write c])
        { s with phase := .running [] map, log := s.log.write env c.time c.nodes } = gathered tr s := by
      rw [gathered, hcalls, gathered, hmap, List.flatMap_append, List.flatMap_singleton,
        htimed.items, Groups.values_cons, List.append_assoc]
      rfl
    rw [hgathered, hI.once, hadd]

/-- The round is over. -/
theorem sleep (hI : Gathered env t₀ log₀ tr s low mark) (hphase : s.phase = .running [] []) :
    Gathered env t₀ log₀ (tr ++ [.sleep]) { s with phase := .sleeping } low mark := by
  have hleft : s.phase.left = [] := by rw [hphase, Phase.left]
  have hread : lastRead t₀ (tr ++ [.sleep]) = lastRead t₀ tr := lastRead_concat ..
  have hround : lastRound t₀ (tr ++ [.sleep]) = lastRound t₀ tr :=
    lastRound_concat_of_ne _ _ _ (by simp)
  have hadd : ∀ r', additionsOf (tr ++ [.sleep]) r' = additionsOf tr r' := fun r' =>
    additionsOf_concat_of_nil _ _ rfl
  have hcalls : writeCalls (tr ++ [.sleep]) = writeCalls tr := writeCalls_concat_of_ne _ _ (by simp)
  refine ⟨?_, hI.keys, fun r' hr' => ?_, fun r' n hn => ?_, ?_, hI.start_le, ?_,
    List.nodup_nil, fun r' hr' => absurd hr' List.not_mem_nil, fun r' hr' => absurd hr' List.not_mem_nil,
    fun h => absurd rfl h, fun r' hr' _ => ?_, Groups.sorted_nil,
    fun e he => absurd he List.not_mem_nil, ?_, ?_, fun r' j => ?_⟩
  · rw [hcalls]
    exact hI.log
  · obtain ⟨h1, h2⟩ := hI.absent r' hr'
    refine ⟨(hadd r').trans h1, fun u hu => ?_⟩
    rcases List.mem_append.mp hu with hu | hu
    · exact h2 u hu
    · exact absurd (List.mem_singleton.mp hu) (by simp)
  · rw [hread]
    exact (hI.watched r' n hn).other le_rfl rfl (by simp)
  · rw [hround, hread]
    exact hI.round_le
  · rw [hround]
    exact hI.low_le
  · rw [hround]
    refine hI.other_mark r' hr' ?_
    rw [hleft]
    exact List.not_mem_nil
  · rw [hcalls]
    exact hI.calls
  · rw [hcalls]
    exact hI.chain
  · have hgathered : gathered (tr ++ [.sleep]) { s with phase := .sleeping } = gathered tr s := by
      rw [gathered, hcalls, gathered, hphase]
      rfl
    rw [hgathered, hI.once, hadd]

/-- **One step.** -/
theorem step (hI : Gathered env t₀ log₀ tr s low mark) {a : TaskAction} {s' : LogTask}
    (hs : s.step env order config a = some s') (hle : ∀ t ∈ a.time?, lastRead t₀ tr ≤ t)
    (hprompt : a.PromptAfter (lastRound t₀ tr)) (hpos : ∀ r c t, a = .count r c t → c.Positive) :
    ∃ low mark, Gathered env t₀ log₀ (tr ++ [a]) s' low mark := by
  rcases LogTask.step_cases hs with ⟨r, t, rfl, rfl⟩ | ⟨r, c, t, n, rfl, hc, hn, rfl⟩ | ⟨t, rfl, hphase, rfl⟩ |
    ⟨r, t, left, map, n, rfl, hphase, hr, hn, rfl⟩ | ⟨c, map, rfl, hphase, rfl⟩ | ⟨rfl, hphase, rfl⟩
  · exact ⟨_, _, hI.getOrCreate (hle t rfl)⟩
  · exact ⟨_, _, hI.count (hle t rfl) hc (hpos r c t rfl) hn⟩
  · exact ⟨_, _, hI.getNodeMap (hle t rfl) hprompt hphase⟩
  · exact ⟨_, _, hI.collect (hle t rfl) hprompt hphase hr hn⟩
  · obtain ⟨k, h⟩ := hI.write hphase
    exact ⟨_, _, h⟩
  · exact ⟨_, _, hI.sleep hphase⟩

/-- **Every run.** -/
theorem run {singleFileSize totalFileCount : ℤ} {d : Disk}
    (hr : LogTask.Steps env order config (.start env singleFileSize totalFileCount t₀ d) tr s)
    (hpos : PositiveCounts tr) (hmono : (t₀ :: times tr).Pairwise (· ≤ ·)) (hprompt : Prompt t₀ tr) :
    ∃ low mark, Gathered env t₀ (.start env singleFileSize totalFileCount t₀ d) tr s low mark := by
  induction hr with
  | nil => exact ⟨_, _, start env singleFileSize totalFileCount t₀ d⟩
  | @snoc tr s s' a hr hs ih =>
    have htimes : times (tr ++ [a]) = times tr ++ a.time?.toList := by
      rw [times, List.filterMap_append, ← times]
      cases ha : a.time? <;> simp [ha]
    rw [htimes, ← List.cons_append, List.pairwise_append] at hmono
    obtain ⟨hmono, -, hlast⟩ := hmono
    obtain ⟨hprompt, hnow⟩ := (prompt_concat tr a t₀).mp hprompt
    obtain ⟨low, mark, hI⟩ := ih (fun r c t h => hpos r c t (List.mem_append_left _ h)) hmono hprompt
    refine hI.step hs (fun t ht => ?_) hnow fun r c t ha => ?_
    · exact hlast _ List.getLastD_mem_cons t (Option.mem_toList.mpr ht)
    · exact hpos r c t (by simp [ha])

/-- The items stand at the times of seconds, in those that have been collected. -/
theorem counted_of_mem (hI : Gathered env t₀ log₀ tr s low mark) {x : MetricItem}
    (hx : x ∈ gathered tr s) :
    ∃ k : ℕ, x.timestamp = 1000 * k ∧ CountedIn tr x.resource k := by
  have htime : ∃ k : ℕ, x.timestamp = 1000 * k := by
    rcases List.mem_append.mp hx with hx | hx
    · obtain ⟨c, hc, hx⟩ := List.mem_flatMap.mp hx
      have htimed := hI.calls c hc
      rw [htimed.items] at hx
      obtain ⟨k, htime, -, -, hxs⟩ := htimed
      exact ⟨k, (hxs x hx).trans htime⟩
    · obtain ⟨e, he, hx⟩ := List.mem_flatMap.mp hx
      obtain ⟨k, htime, -, -, hxs⟩ := hI.groups e he
      exact ⟨k, (hxs x hx).trans htime⟩
  obtain ⟨k, htime⟩ := htime
  refine ⟨k, htime, fun hnil => ?_⟩
  have hmem : x ∈ ofSecond x.resource k (gathered tr s) := by
    refine List.mem_filter.mpr ⟨hx, decide_eq_true ⟨rfl, ?_⟩⟩
    rw [MetricItem.second, htime]
    exact Int.mul_tdiv_cancel_left _ (by decide)
  rw [hI.once, expected, if_neg fun h => h.2 hnil] at hmem
  exact List.not_mem_nil hmem

/-- A second of a resource, with what was counted in it, stands in the log or waits exactly when the
node has been collected after it. -/
theorem ofSecond_eq (hI : Gathered env t₀ log₀ tr s low mark) (r : String) (k : ℕ) :
    ofSecond r k (gathered tr s) =
      if CountedIn tr r k ∧ CollectedAfter tr r k then [itemOf tr r k] else [] := by
  rw [hI.once]
  unfold expected
  by_cases hk : CountedIn tr r k
  · cases hn : s.nodeMap.find? r with
    | none =>
      have hnil := (hI.absent r hn).1
      rw [CountedIn, hnil] at hk
      exact absurd rfl hk
    | some n => simp only [(hI.watched r n hn).lt_mark_iff hk, and_comm]; rfl
  · rw [if_neg fun h => hk h.2, if_neg fun h => hk h.1]

/-- Between rounds every second that had ended when the last round began has been collected. -/
theorem collectedAfter (hI : Gathered env t₀ log₀ tr s low mark) (hsleep : s.phase = .sleeping)
    {r : String} {k : ℕ} (hk : CountedIn tr r k) (hend : 1000 * (k + 1) ≤ lastRound t₀ tr) :
    CollectedAfter tr r k := by
  cases hn : s.nodeMap.find? r with
  | none =>
    have hnil := (hI.absent r hn).1
    rw [CountedIn, hnil] at hk
    exact absurd rfl hk
  | some n =>
    refine ((hI.watched r n hn).lt_mark_iff hk).mp ?_
    have hmark := hI.other_mark r (by simp [hn]) (by simp [hsleep, Phase.left])
    omega

end Gathered

/-- No resource with something counted has a line break in its name. -/
def OneLineResources (tr : List TaskAction) : Prop := ∀ r c t, .count r c t ∈ tr → '\n' ∉ r.toList

theorem OneLineResources.of_countedIn {tr : List TaskAction} (h : OneLineResources tr) {r : String} {k : ℕ}
    (hk : CountedIn tr r k) : '\n' ∉ r.toList := by
  obtain ⟨e, he⟩ := List.exists_mem_of_ne_nil _ hk
  obtain ⟨u, hu, -⟩ := mem_inBucket.mp he
  obtain ⟨a, ha, hadd⟩ := List.mem_flatMap.mp hu
  cases a with
  | count r' c t =>
    rw [TaskAction.additions] at hadd
    split_ifs at hadd with hname
    · exact hname ▸ h r' c t ha
    · exact absurd hadd List.not_mem_nil
  | _ => exact absurd hadd List.not_mem_nil

namespace Gathered

variable {env : LogEnv} {t₀ : ℕ} {tr : List TaskAction} {s : LogTask} {low : ℕ} {mark : String → ℕ}
  {singleFileSize totalFileCount : ℤ} {d : Disk}

/-- Between rounds everything gathered is in the log, and the lookups find it. -/
theorem findsAll (junk : Junk)
    (hI : Gathered env t₀ (.start env singleFileSize totalFileCount t₀ d) tr s low mark)
    (hsleep : s.phase = .sleeping) (hnames : OneLineResources tr)
    (hlisted : s.log.disk.ListedInOrder env) :
    (∀ x ∈ gathered tr s, Readable x) ∧ ((gathered tr s).map MetricItem.second).Pairwise (· ≤ ·) ∧
      FindsAll MetricItem.stored env junk s.log.disk (gathered tr s) := by
  have hwritten : gathered tr s = (writeCalls tr).flatMap WriteCall.items := by
    rw [gathered, hsleep]
    exact List.append_nil _
  have hdated : ∀ c ∈ writeCalls tr, c.Dated := by
    intro c hc
    obtain ⟨k, -, htime, -⟩ := (hI.calls c hc).second
    exact WriteCall.dated (by omega)
  have hread : ∀ x ∈ gathered tr s, Readable x := by
    rw [hwritten]
    refine readable_items fun c hc x hx => ?_
    have hmem : x ∈ gathered tr s := by
      rw [hwritten]
      exact List.mem_flatMap.mpr ⟨c, hc, by rw [(hI.calls c hc).items]; exact hx⟩
    obtain ⟨k, -, hk⟩ := hI.counted_of_mem hmem
    exact hnames.of_countedIn hk
  have hlog := hI.log
  obtain ⟨files, hlogged⟩ := (Logged.start env singleFileSize totalFileCount t₀ d).writes hdated hI.chain
    (hlog ▸ hlisted.nodup)
  rw [← hlog, List.nil_append, ← hwritten] at hlogged
  refine ⟨hread, ?_, hlogged.findsAll hread hlisted⟩
  rw [← hlogged.log.items]
  exact hlogged.log.isLog.items_sorted

end Gathered

/-- **Every second of every resource is in the log once.**  Requests are counted and nodes made in any
order with the rounds of the task, the rounds are prompt, and no file has been removed.  Then between
rounds a fresh searcher finds the items `written`: for each resource and second with something counted
and collected since, one item with the totals of the second, nothing else; and every second that had
ended when the last round began has been collected. -/
theorem every_second_logged (env : LogEnv) (order : IterationOrder (ℤ × MetricItem)) (config : StatConfig)
    (junk : Junk) (singleFileSize totalFileCount : ℤ) (t₀ : ℕ) (d : Disk) {tr : List TaskAction}
    {s : LogTask}
    (hr : LogTask.Steps env order config (.start env singleFileSize totalFileCount t₀ d) tr s)
    (hpos : PositiveCounts tr) (hmono : (t₀ :: times tr).Pairwise (· ≤ ·)) (hprompt : Prompt t₀ tr)
    (hsleep : s.phase = .sleeping) (hnames : OneLineResources tr)
    (hlisted : s.log.disk.ListedInOrder env) :
    ∃ written, FindsAll MetricItem.stored env junk s.log.disk written ∧
      (written.map MetricItem.second).Pairwise (· ≤ ·) ∧
      (∀ x ∈ written, ∃ k : ℕ, x.timestamp = 1000 * k) ∧
      (∀ r k, ofSecond r k written =
        if CountedIn tr r k ∧ CollectedAfter tr r k then [itemOf tr r k] else []) ∧
      ∀ r k, CountedIn tr r k → 1000 * (k + 1) ≤ lastRound t₀ tr → CollectedAfter tr r k := by
  obtain ⟨low, mark, hI⟩ := Gathered.run hr hpos hmono hprompt
  obtain ⟨-, hsorted, hfinds⟩ := hI.findsAll junk hsleep hnames hlisted
  refine ⟨gathered tr s, hfinds, hsorted, fun x hx => ?_, hI.ofSecond_eq,
    fun r k => hI.collectedAfter hsleep⟩
  obtain ⟨k, htime, -⟩ := hI.counted_of_mem hx
  exact ⟨k, htime⟩

/-- A request is counted while the round that collects it is under way. -/
def oneRound : List TaskAction :=
  [.getOrCreate "a" 100, .getNodeMap 900, .count "a" (.addPassRequest 1) 950, .collect "a" 1050,
    .write (oneItem 0 0 "a"), .sleep]

theorem oneRound_steps : ∃ s, LogTask.Steps (.utc "/logs/" "app") ⟨id, fun _ => .refl _⟩ {}
    (.start (.utc "/logs/" "app") 1000 6 0 {}) oneRound s ∧ s.phase = .sleeping ∧
      s.log.disk.ListedInOrder (.utc "/logs/" "app") := by
  have hrun : ((oneRound.foldlM (fun s a => LogTask.step (.utc "/logs/" "app") ⟨id, fun _ => .refl _⟩ {} s a)
      (.start (.utc "/logs/" "app") 1000 6 0 {})).map fun s => (s.phase,
        decide (s.log.disk.created = paths (listMetricFiles (LogEnv.utc "/logs/" "app").dirOrder s.log.disk
          (LogEnv.utc "/logs/" "app").baseDir (formMetricFileName (.utc "/logs/" "app")))),
        s.log.disk.removed)) = some (.sleeping, true, []) := by
    decide +kernel
  obtain ⟨s, hs, hend⟩ := Option.map_eq_some_iff.mp hrun
  simp only [Prod.mk.injEq, decide_eq_true_eq] at hend
  obtain ⟨hsleep, hcreated, hremoved⟩ := hend
  exact ⟨s, run_of_foldlM hs, hsleep, hcreated, hremoved⟩

theorem oneRound_count {r : String} {c : NodeCall} {t : ℕ} (h : TaskAction.count r c t ∈ oneRound) :
    r = "a" ∧ c = .addPassRequest 1 := by
  simp only [oneRound, List.mem_cons, TaskAction.count.injEq, reduceCtorEq, List.not_mem_nil, or_false,
    false_or] at h
  exact ⟨h.1, h.2.1⟩

theorem oneRound_positive : PositiveCounts oneRound := by
  intro r c t h
  rw [(oneRound_count h).2]
  exact (by decide : (0 : ℤ) < 1)

theorem oneRound_oneLine : OneLineResources oneRound := by
  intro r c t h
  rw [(oneRound_count h).1]
  decide

theorem every_second_logged_round :
    ∃ s written, LogTask.Steps (.utc "/logs/" "app") ⟨id, fun _ => .refl _⟩ {}
      (.start (.utc "/logs/" "app") 1000 6 0 {}) oneRound s ∧
      FindsAll MetricItem.stored (.utc "/logs/" "app") ⟨0, fun _ => 0⟩ s.log.disk written ∧
      ofSecond "a" 0 written = [⟨"a", 0, 1, 0, 0, 0, 0⟩] := by
  obtain ⟨s, hr, hsleep, hlisted⟩ := oneRound_steps
  obtain ⟨written, hfinds, -, -, hsecond, -⟩ := every_second_logged (.utc "/logs/" "app")
    ⟨id, fun _ => .refl _⟩ {} ⟨0, fun _ => 0⟩ 1000 6 0 {} hr oneRound_positive (by decide) (by decide)
    hsleep oneRound_oneLine hlisted
  exact ⟨s, written, hr, hfinds, (hsecond "a" 0).trans (by decide +kernel)⟩

end SentinelCpp.Log
