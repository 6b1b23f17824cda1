import SentinelCpp.Log.MetricLogTask
import SentinelCpp.Transport.FetchMetricLog

/-!
# What a dashboard reads

A client that asks for all resources between two times, and reads the lines of the answer back, gets
the totals that the requests were counted with: the counters, the log task, the writer, the searcher,
the handler and both codecs lie in between.
-/

namespace SentinelCpp.Transport

open Lib Stat Log CommandRequest

/-- The request asks for all resources between two times. -/
structure AsksBetween (request : CommandRequest) (startTime endTime : ℤ) : Prop where
  startTime : simpleAtoi (request.getParam kStartTimeKey) = some startTime
  endTime : simpleAtoi (request.getParam kEndTimeKey) = some endTime
  identity : request.getParam kResourceKey = []

/-- Such a request is answered by `FindByTimeAndResource`. -/
theorem handle_of_asksBetween {junk : Junk} {order : IterationOrder Text} {searcher : MetricSearcher}
    {d : Disk} {request : CommandRequest} {startTime endTime : ℤ}
    (h : AsksBetween request startTime endTime) :
    (handle junk order searcher d request).2 =
      (searcher.findByTimeAndResource junk order d startTime endTime "").2.map fun vec =>
        .ofSuccess (thinText vec) := by
  have hempty : simpleAtoi [] = none := by decide
  have hne : ∀ {key : Text} {time : ℤ}, simpleAtoi (request.getParam key) = some time →
      request.getParam key ≠ [] := by
    intro key time hsome hnil
    rw [hnil, hempty] at hsome
    exact absurd hsome.symm (Option.some_ne_none _)
  unfold handle
  dsimp only
  rw [if_neg (hne h.startTime), h.startTime]
  dsimp only
  rw [if_pos (hne h.endTime), h.endTime, h.identity]

/-- The items of a second among those of a range of seconds. -/
theorem ofSecond_range (b e : ℤ) (r : String) (k : ℕ) (xs : List MetricItem) :
    ofSecond r k (xs.filter fun x => b ≤ x.second ∧ x.second ≤ e) =
      if b ≤ k ∧ k ≤ e then ofSecond r k xs else [] := by
  have hboth : ofSecond r k (xs.filter fun x => b ≤ x.second ∧ x.second ≤ e) =
      (ofSecond r k xs).filter fun x => b ≤ x.second ∧ x.second ≤ e := by
    rw [ofSecond, ofSecond, List.filter_filter, List.filter_filter]
    exact List.filter_congr fun x _ => Bool.and_comm _ _
  have hsecond : ∀ x ∈ ofSecond r k xs, x.second = k := fun x hx =>
    (of_decide_eq_true (List.mem_filter.mp hx).2).2
  rw [hboth]
  split_ifs with hk
  · refine List.filter_eq_self.mpr fun x hx => ?_
    rw [hsecond x hx]
    exact decide_eq_true hk
  · refine List.filter_eq_nil_iff.mpr fun x hx hin => ?_
    rw [hsecond x hx] at hin
    exact hk (of_decide_eq_true hin)

/-- **A dashboard reads what was counted.**  Requests are counted and nodes made in any order with the
rounds of the log task, the rounds are prompt, and no file has been removed.  Then between rounds the
answer to a request for all resources between two times is successful, and its lines, read back, are the
first `kMaxLinesReturn` of the items `found` under their legal names: for each resource and second of
the range with something counted and collected since, one item with the totals of the second, and nothing
else. -/
theorem dashboard_reads_counts (env : LogEnv) (order : IterationOrder (ℤ × MetricItem))
    (config : StatConfig) (junk : Junk) (singleFileSize totalFileCount : ℤ) (t₀ : ℕ) (d : Disk)
    {tr : List TaskAction} {s : LogTask} {request : CommandRequest} {startTime endTime : ℤ}
    (hr : LogTask.Steps env order config (.start env singleFileSize totalFileCount t₀ d) tr s)
    (hpos : PositiveCounts tr) (hmono : (t₀ :: times tr).Pairwise (· ≤ ·)) (hprompt : Prompt t₀ tr)
    (hsleep : s.phase = .sleeping) (hnames : OneLineResources tr)
    (hlisted : s.log.disk.ListedInOrder env) (hasks : AsksBetween request startTime endTime)
    (hstart : 0 ≤ startTime) :
    ∃ (found : List MetricItem) (response : CommandResponse),
      (handle junk env.dirOrder (.fresh env) s.log.disk request).2 = some response ∧
      response.success = true ∧
      ResponseLines response ((found.map MetricItem.stored).take kMaxLinesReturn) ∧
      (found.map MetricItem.second).Pairwise (· ≤ ·) ∧
      (∀ x ∈ found, ∃ k : ℕ, x.timestamp = 1000 * k) ∧
      ∀ r k, ofSecond r k found =
        if startTime.tdiv 1000 ≤ k ∧ k ≤ endTime.tdiv 1000 then
          if CountedIn tr r k ∧ CollectedAfter tr r k then [itemOf tr r k] else []
        else [] := by
  obtain ⟨low, mark, hI⟩ := Gathered.run hr hpos hmono hprompt
  obtain ⟨hread, hsorted, hfinds⟩ := hI.findsAll junk hsleep hnames hlisted
  set found := (gathered tr s).filter fun x =>
    startTime.tdiv 1000 ≤ x.second ∧ x.second ≤ endTime.tdiv 1000 with hfound
  refine ⟨found, .ofSuccess (thinText ((found.map MetricItem.stored).take kMaxLinesReturn)), ?_, rfl, ?_,
    ?_, fun x hx => ?_, fun r k => ?_⟩
  · rw [handle_of_asksBetween hasks, hfinds.findByTime startTime endTime hstart]
    rfl
  · refine responseLines_thinText fun x hx => ?_
    obtain ⟨y, hy, rfl⟩ := List.mem_map.mp (List.mem_of_mem_take hx)
    have hy' := hread y (List.mem_filter.mp hy).1
    exact ⟨lineOf env y, fromFatString_lineOf hy',
      MetricItem.lineBreak_not_mem_toFatString hy'.2 (env.formatTime_plain _).2⟩
  · exact hsorted.sublist (List.filter_sublist.map _)
  · obtain ⟨k, htime, -⟩ := hI.counted_of_mem (List.mem_filter.mp hx).1
    exact ⟨k, htime⟩
  · rw [ofSecond_range, hI.ofSecond_eq]

/-- A request for the first second. -/
def firstSecond : CommandRequest :=
  ({} : CommandRequest).addParams [(kStartTimeKey, "0".toList), (kEndTimeKey, "999".toList)]

theorem dashboard_reads_counts_round :
    ∃ s found response, LogTask.Steps (.utc "/logs/" "app") ⟨id, fun _ => .refl _⟩ {}
      (.start (.utc "/logs/" "app") 1000 6 0 {}) oneRound s ∧
      (handle ⟨0, fun _ => 0⟩ (LogEnv.utc "/logs/" "app").dirOrder (.fresh (.utc "/logs/" "app"))
        s.log.disk firstSecond).2 = some response ∧
      ResponseLines response ((found.map MetricItem.stored).take kMaxLinesReturn) ∧
      ofSecond "a" 0 found = [⟨"a", 0, 1, 0, 0, 0, 0⟩] := by
  obtain ⟨s, hr, hsleep, hlisted⟩ := oneRound_steps
  obtain ⟨found, response, hresponse, -, hlines, -, -, hsecond⟩ := dashboard_reads_counts
    (.utc "/logs/" "app") ⟨id, fun _ => .refl _⟩ {} ⟨0, fun _ => 0⟩ 1000 6 0 {} hr oneRound_positive
    (by decide) (by decide) hsleep oneRound_oneLine hlisted
    (⟨by decide, by decide, by decide⟩ : AsksBetween firstSecond 0 999) le_rfl
  exact ⟨s, found, response, hr, hresponse, hlines, (hsecond "a" 0).trans (by decide)⟩

end SentinelCpp.Transport
