import SentinelCpp.Lib.Ranking
import SentinelCpp.Log.LineBreaks
import SentinelCpp.Log.WholeSeconds
import SentinelCpp.Transport.CommandRequest

/-!
# The command that fetches the metric log

`FetchMetricLogCommandHandler` looks up the log from a start time on, up to an end time or for a number of
lines, and answers with the thin strings of the items.  The number of lines that a client asks for is
raised to `kMaxLines`, so it bounds the answer from above only when it is the larger one.
-/

namespace SentinelCpp.Transport

open Lib Stat Log CommandRequest

/-! ### The code -/

def kStartTimeKey : Text := "startTime".toList
def kEndTimeKey : Text := "endTime".toList
def kMaxLinesKey : Text := "maxLines".toList
def kResourceKey : Text := "identity".toList
def kMaxLines : ℤ := 12000

/-- `SimpleAtoi` for 32 bits. -/
def simpleAtoi32 (s : Text) : Option ℤ :=
  (simpleAtoi s).filter fun x => -2 ^ 31 ≤ x ∧ x < 2 ^ 31

/-- The text of the answer: the thin string of each item with a line break. -/
def thinText (vec : List MetricItem) : Text := vec.flatMap fun item => item.toThinString ++ ['\n']

/-- `Handle(request)`, with the searcher of the handler. -/
def handle (junk : Junk) (order : IterationOrder Text) (searcher : MetricSearcher) (d : Disk)
    (request : CommandRequest) : MetricSearcher × Option CommandResponse :=
  let startTimeStr := request.getParam kStartTimeKey
  let endTimeStr := request.getParam kEndTimeKey
  let maxLinesStr := request.getParam kMaxLinesKey
  let identity := String.ofList (request.getParam kResourceKey)
  let answer (r : MetricSearcher × Option (List MetricItem)) : MetricSearcher × Option CommandResponse :=
    (r.1, r.2.map fun vec => .ofSuccess (thinText vec))
  if startTimeStr = [] then (searcher, some (.ofSuccess []))
  else
    match simpleAtoi startTimeStr with
    | none => (searcher, some (.ofFailure "Invalid start_time".toList))
    | some startTime =>
      if endTimeStr ≠ [] then
        match simpleAtoi endTimeStr with
        | none => (searcher, some (.ofFailure "Invalid end_time".toList))
        | some endTime =>
          answer (searcher.findByTimeAndResource junk order d startTime endTime identity)
      else if maxLinesStr ≠ [] then
        match simpleAtoi32 maxLinesStr with
        | none => (searcher, some (.ofFailure "Invalid max_lines".toList))
        | some maxLines => answer (searcher.find junk order d startTime (max maxLines kMaxLines))
      else answer (searcher, some [])

/-! ### What is sent -/

variable {junk : Junk} {order : IterationOrder Text} {searcher : MetricSearcher} {d : Disk}
  {request : CommandRequest} {startTime maxLines : ℤ} {xss : List (List MetricItem)}

/-- The request asks for a number of lines from a start time on. -/
structure AsksFor (request : CommandRequest) (startTime maxLines : ℤ) : Prop where
  startTime : simpleAtoi (request.getParam kStartTimeKey) = some startTime
  endTime : request.getParam kEndTimeKey = []
  maxLines : simpleAtoi32 (request.getParam kMaxLinesKey) = some maxLines

theorem AsksFor.int32 (h : AsksFor request startTime maxLines) :
    -2 ^ 31 ≤ maxLines ∧ maxLines < 2 ^ 31 := by
  have hfilter := h.maxLines
  unfold simpleAtoi32 at hfilter
  rw [Option.filter_eq_some_iff] at hfilter
  simpa using hfilter.2

/-- Such a request is answered by `Find`. -/
theorem handle_of_asksFor (h : AsksFor request startTime maxLines) :
    handle junk order searcher d request =
      ((searcher.find junk order d startTime (max maxLines kMaxLines)).1,
        (searcher.find junk order d startTime (max maxLines kMaxLines)).2.map fun vec =>
          .ofSuccess (thinText vec)) := by
  have hempty : simpleAtoi [] = none := by decide
  have hstart : request.getParam kStartTimeKey ≠ [] := by
    intro hnil
    have hsome := h.startTime
    rw [hnil, hempty] at hsome
    exact absurd hsome.symm (Option.some_ne_none _)
  have hmax : request.getParam kMaxLinesKey ≠ [] := by
    intro hnil
    have hsome := h.maxLines
    rw [hnil, simpleAtoi32, hempty, Option.filter_none] at hsome
    exact absurd hsome.symm (Option.some_ne_none _)
  unfold handle
  dsimp only
  rw [if_neg hstart, h.startTime]
  dsimp only
  rw [if_neg (not_not.mpr h.endTime), if_pos hmax, h.maxLines]

/-- The lines of a response are the items. -/
def ResponseLines (response : CommandResponse) (vec : List MetricItem) : Prop :=
  (getLines response.result).map MetricItem.fromThinString = vec.map some

theorem thinText_eq (vec : List MetricItem) : thinText vec = unlines (vec.map MetricItem.toThinString) := by
  rw [thinText, unlines, List.flatMap_map]

/-- **Items that were read from lines are sent as they are.** -/
theorem responseLines_thinText {vec : List MetricItem}
    (h : ∀ x ∈ vec, ∃ line, MetricItem.fromFatString line = some x ∧ '\n' ∉ line) :
    ResponseLines (.ofSuccess (thinText vec)) vec := by
  have hread : ∀ x ∈ vec, '\n' ∉ x.toThinString ∧ MetricItem.fromThinString x.toThinString = some x := by
    intro x hx
    obtain ⟨line, hline, hbreak⟩ := h x hx
    obtain ⟨hfits, hname, hsub⟩ := MetricItem.of_fromFatString hline
    refine ⟨MetricItem.lineBreak_not_mem_toThinString fun hmem => hbreak (hsub _ hmem), ?_⟩
    rw [MetricItem.fromThinString_toThinString hfits, MetricItem.stored_eq_self hname]
  show (getLines (thinText vec)).map MetricItem.fromThinString = vec.map some
  rw [thinText_eq, getLines_unlines, List.map_map]
  · exact List.map_congr_left fun x hx => (hread x hx).2
  · intro l hl
    obtain ⟨x, hx, rfl⟩ := List.mem_map.mp hl
    exact (hread x hx).1

/-! ### What is found -/

/-- The items of the files from the position that the search from a time finds, file by file. -/
def FoundItems (junk : Junk) (order : IterationOrder Text) (searcher : MetricSearcher) (d : Disk)
    (startTime : ℤ) (xss : List (List MetricItem)) : Prop :=
  match (searcher.search junk order d startTime).2.2 with
  | none => xss = []
  | some (pos, offset) =>
    FilesAre d offset ((searcher.search junk order d startTime).2.1.drop pos) xss

theorem linesOf_of_filesAre {offset : ℤ} {fileNames : List Text} (h : FilesAre d offset fileNames xss) :
    ∀ x ∈ xss.flatten, ∃ line, MetricItem.fromFatString line = some x ∧ '\n' ∉ line := by
  induction h with
  | nil => exact fun x hx => absurd hx List.not_mem_nil
  | @cons offset fileName fileNames xs xss first rest ih =>
    rw [List.flatten_cons, List.forall_mem_append]
    refine ⟨fun x hx => ?_, ih⟩
    have hmem : some x ∈ (linesOf d offset fileName).map MetricItem.fromFatString := by
      rw [first]
      exact List.mem_map_of_mem hx
    obtain ⟨line, hline, hparse⟩ := List.mem_map.mp hmem
    refine ⟨line, hparse, ?_⟩
    unfold linesOf at hline
    split at hline
    · exact absurd hline List.not_mem_nil
    · unfold linesFrom at hline
      split_ifs at hline
      · exact absurd hline List.not_mem_nil
      · exact lineBreak_not_mem_getLines hline

/-- What `Find` returns of the items it finds: the first `n`, and then only items of the second of the
`n`-th. -/
theorem find_take (hfound : FoundItems junk order searcher d startTime xss) {n : ℕ} (h1 : 1 ≤ n)
    (hn : n < 2 ^ 64) :
    ∃ tail, (searcher.find junk order d startTime n).2 = some (xss.flatten.take n ++ tail) ∧
      (∀ x ∈ xss.flatten, ∃ line, MetricItem.fromFatString line = some x ∧ '\n' ∉ line) ∧
      ∀ y ∈ tail, ∃ x, xss.flatten[n - 1]? = some x ∧ y ∈ xss.flatten ∧ y.second = x.second := by
  unfold FoundItems at hfound
  unfold MetricSearcher.find
  dsimp only
  cases hsearch : (searcher.search junk order d startTime).2.2 with
  | none =>
    rw [hsearch] at hfound
    dsimp only at hfound
    subst hfound
    exact ⟨[], by simp, fun x hx => absurd hx List.not_mem_nil, fun y hy => absurd hy List.not_mem_nil⟩
  | some r =>
    rw [hsearch] at hfound
    obtain ⟨tail, hread, htail⟩ := readMetrics_take hn h1 hfound
    exact ⟨tail, hread, linesOf_of_filesAre hfound, htail⟩

/-! ### The limit of lines -/

/-- Fewer than `k` lines are of an earlier second than the last one. -/
def KeepsLimit (k : ℤ) (vec : List MetricItem) : Prop :=
  ∀ x ∈ vec.getLast?, ((vec.filter fun y => y.second < x.second).length : ℤ) < k

/-- The `k`-th line is of the second of the `n`-th, or of the last one when there are fewer than `n`. -/
def SameSecond (k n : ℕ) (xs : List MetricItem) : Prop :=
  ∀ x y, xs[k - 1]? = some x → xs[min n xs.length - 1]? = some y → x.second = y.second

section Limit

variable {xs tail : List MetricItem} {k n : ℕ}

/-- The last line of what is returned is of the second of the `n`-th line, or of the last one. -/
theorem second_getLast? (h1 : 1 ≤ n)
    (htail : ∀ y ∈ tail, ∃ x, xs[n - 1]? = some x ∧ y.second = x.second) {z : MetricItem}
    (hz : (xs.take n ++ tail).getLast? = some z) :
    ∃ y, xs[min n xs.length - 1]? = some y ∧ z.second = y.second := by
  rcases List.eq_nil_or_concat tail with rfl | ⟨l, w, rfl⟩
  · rw [List.append_nil, List.getLast?_eq_getElem?, List.length_take,
      List.getElem?_take_of_lt (by omega)] at hz
    exact ⟨z, hz, rfl⟩
  · rw [List.concat_eq_append, ← List.append_assoc, List.getLast?_concat, Option.some.injEq] at hz
    subst hz
    obtain ⟨x, hx, hsecond⟩ := htail w (by simp)
    obtain ⟨hlt, -⟩ := List.getElem?_eq_some_iff.mp hx
    rw [Nat.min_eq_left (by omega)]
    exact ⟨x, hx, hsecond⟩

/-- The lines in order: an earlier one is of no later second. -/
theorem second_le_of_le (hsorted : xs.Pairwise fun x y => x.second ≤ y.second) {i j : ℕ} (hij : i ≤ j)
    {x y : MetricItem} (hx : xs[i]? = some x) (hy : xs[j]? = some y) : x.second ≤ y.second := by
  obtain ⟨hi, rfl⟩ := List.getElem?_eq_some_iff.mp hx
  obtain ⟨hj, rfl⟩ := List.getElem?_eq_some_iff.mp hy
  rcases Nat.lt_or_eq_of_le hij with hlt | rfl
  · exact List.pairwise_iff_getElem.mp hsorted i j hi hj hlt
  · exact le_rfl

/-- **The limit is kept exactly when the `k`-th line is of the last second.** -/
theorem keepsLimit_iff (hsorted : xs.Pairwise fun x y => x.second ≤ y.second) (hk : 1 ≤ k) (hkn : k ≤ n)
    (htail : ∀ y ∈ tail, ∃ x, xs[n - 1]? = some x ∧ y.second = x.second) :
    KeepsLimit k (xs.take n ++ tail) ↔ SameSecond k n xs := by
  unfold KeepsLimit SameSecond
  cases hlast : (xs.take n ++ tail).getLast? with
  | none =>
    -- nothing is returned, since there is no line
    have hnil : xs = [] := by
      rw [List.getLast?_eq_none_iff, List.append_eq_nil_iff, List.take_eq_nil_iff] at hlast
      exact hlast.1.resolve_left (by omega)
    subst hnil
    exact ⟨fun _ x y hx => absurd hx.symm (Option.some_ne_none x), fun _ x hx => absurd hx.symm
      (Option.some_ne_none x)⟩
  | some z =>
    obtain ⟨y, hy, hz⟩ := second_getLast? (by omega) htail hlast
    have hnone : tail.filter (fun w => w.second < z.second) = [] := by
      refine List.filter_eq_nil_iff.mpr fun w hw => ?_
      obtain ⟨x, hx, hsecond⟩ := htail w hw
      obtain ⟨hlt, -⟩ := List.getElem?_eq_some_iff.mp hx
      rw [Nat.min_eq_left (by omega), hx, Option.some.injEq] at hy
      simp [hsecond, hz, hy]
    have hcount := length_filter_lt_iff (hsorted.sublist (List.take_sublist n xs)) z.second
      (by omega : 0 < k)
    simp only [Option.mem_some_iff, forall_eq', Nat.cast_lt]
    rw [List.filter_append, hnone, List.append_nil, hcount, List.getElem?_take_of_lt (by omega), hz]
    refine forall_congr' fun x => ?_
    rw [hy]
    simp only [Option.some.injEq]
    constructor
    · rintro hge _ hx rfl
      obtain ⟨hlt, -⟩ := List.getElem?_eq_some_iff.mp hx
      exact le_antisymm (second_le_of_le hsorted (by omega) hx hy) (hge hx)
    · intro hsame hx
      exact (hsame y hx rfl).ge

end Limit

/-! ### Logs that the writer left -/

section Stored

variable {env : LogEnv} {files : List (Text × Segment)}

theorem linesAre_of_holds {f : Text × Segment} {l₁ l₂ : Segment} (hf : d.Holds env f)
    (hl : f.2 = l₁ ++ l₂) (hread : ∀ x ∈ items l₂, Readable x) :
    LinesAre d (metricText env l₁).length f.1 ((items l₂).map MetricItem.stored) := by
  unfold LinesAre linesOf
  rw [hf.1, hl]
  dsimp only
  rw [linesFrom_metricText hread, List.map_map, List.map_map]
  exact List.map_congr_left fun x hx => fromFatString_lineOf (hread x hx)

theorem filesAre_of_holds (hfiles : ∀ f ∈ files, d.Holds env f)
    (hread : ∀ x ∈ items (logOf files), Readable x) :
    FilesAre d 0 (files.map Prod.fst) (files.map fun f => (items f.2).map MetricItem.stored) := by
  induction files with
  | nil => exact .nil 0
  | cons f files ih =>
    rw [logOf_cons, items_append, List.forall_mem_append] at hread
    have hfirst := @linesAre_of_holds d env f [] f.2 (hfiles f List.mem_cons_self) rfl hread.1
    exact .cons hfirst (ih (fun g hg => hfiles g (List.mem_cons_of_mem f hg)) hread.2)

theorem flatten_stored (files : List (Text × Segment)) :
    (files.map fun f => (items f.2).map MetricItem.stored).flatten =
      (items (logOf files)).map MetricItem.stored := by
  induction files with
  | nil => rfl
  | cons f files ih =>
    rw [List.map_cons, List.flatten_cons, ih, logOf_cons, items_append, List.map_append]

/-- **What any search finds in a log of the writer** is an end of its items. -/
theorem foundItems_of_holds (hreached : Reached env searcher)
    (hnames : listMetricFiles env.dirOrder d env.baseDir (formMetricFileName env) = files.map Prod.fst)
    (hfiles : ∀ f ∈ files, d.Holds env f) (hread : ∀ x ∈ items (logOf files), Readable x) (t : ℤ) :
    ∃ xss, FoundItems junk env.dirOrder searcher d t xss ∧
      xss.flatten <:+ (items (logOf files)).map MetricItem.stored := by
  obtain ⟨hlist, hbehind⟩ := @search_behind env d junk files searcher hreached.unplaced hnames hfiles t
  unfold FoundItems
  cases hsearch : (searcher.search junk env.dirOrder d t).2.2 with
  | none => exact ⟨[], rfl, List.nil_suffix⟩
  | some r =>
    obtain ⟨A, f, B, l₁, k, l₂, rfl, hpos, hl, hoffset⟩ := hbehind r.1 r.2 hsearch
    have hitems : items (logOf (A ++ f :: B)) =
        items (logOf A ++ l₁) ++ (items (.entry k :: l₂) ++ items (logOf B)) := by
      rw [logOf_append, logOf_cons, hl]
      simp only [items_append, List.append_assoc]
    rw [hitems, List.forall_mem_append, List.forall_mem_append] at hread
    refine ⟨(items (.entry k :: l₂)).map MetricItem.stored ::
      B.map fun g => (items g.2).map MetricItem.stored, ?_, ?_⟩
    · dsimp only
      rw [hlist, hpos, hoffset, drop_map_fst]
      exact .cons (linesAre_of_holds (hfiles f (by simp)) hl hread.2.1)
        (filesAre_of_holds (fun g hg => hfiles g (by simp [hg])) hread.2.2)
    · rw [hitems, List.map_append, List.map_append, List.flatten_cons, flatten_stored]
      exact List.suffix_append _ _

/-- Found in the order of their seconds, if they were written so. -/
theorem foundItems_sorted (hsorted : (items (logOf files)).Pairwise fun x y => x.second ≤ y.second)
    (hend : xss.flatten <:+ (items (logOf files)).map MetricItem.stored) :
    xss.flatten.Pairwise fun x y => x.second ≤ y.second := by
  refine List.Pairwise.sublist hend.sublist ?_
  rw [List.pairwise_map]
  simpa only [MetricItem.stored_second] using hsorted

end Stored

/-! ### The answer to a request -/

/-- **When the limit of a request is kept**: with `m` lines asked for and at most `kMaxLines` allowed,
exactly when the `min`-th line from the position found is of the second of the `max`-th one, or of the last
one there is. -/
theorem handle_keepsLimit_iff (junk : Junk) (order : IterationOrder Text) (searcher : MetricSearcher)
    (d : Disk) {request : CommandRequest} {startTime m : ℤ} {xss : List (List MetricItem)}
    (hask : AsksFor request startTime m) (hm : 1 ≤ m)
    (hfound : FoundItems junk order searcher d startTime xss)
    (hsorted : xss.flatten.Pairwise fun x y => x.second ≤ y.second) :
    ∃ response vec, (handle junk order searcher d request).2 = some response ∧
      response.success = true ∧ ResponseLines response vec ∧
      (KeepsLimit (min m kMaxLines) vec ↔
        SameSecond (min m kMaxLines).toNat (max m kMaxLines).toNat xss.flatten) := by
  have hbound := hask.int32.2
  have hk : min m kMaxLines = ((min m kMaxLines).toNat : ℤ) := by
    unfold kMaxLines
    omega
  have hn : max m kMaxLines = ((max m kMaxLines).toNat : ℤ) := by
    unfold kMaxLines
    omega
  obtain ⟨tail, hfind, hlines, htail⟩ := @find_take junk order searcher d startTime xss hfound
    (max m kMaxLines).toNat (by unfold kMaxLines; omega) (by unfold kMaxLines; omega)
  rw [← hn] at hfind
  have hresponse : ResponseLines
      (.ofSuccess (thinText (xss.flatten.take (max m kMaxLines).toNat ++ tail)))
      (xss.flatten.take (max m kMaxLines).toNat ++ tail) := by
    refine responseLines_thinText fun x hx => ?_
    rcases List.mem_append.mp hx with hx | hx
    · exact hlines x (List.mem_of_mem_take hx)
    · obtain ⟨-, -, hmem, -⟩ := htail x hx
      exact hlines x hmem
  have hlimit := keepsLimit_iff hsorted (k := (min m kMaxLines).toNat) (n := (max m kMaxLines).toNat)
    (by unfold kMaxLines; omega) (by unfold kMaxLines; omega) fun y hy => by
      obtain ⟨x, hx, -, hsecond⟩ := htail y hy
      exact ⟨x, hx, hsecond⟩
  rw [← hk] at hlimit
  refine ⟨_, _, ?_, rfl, hresponse, hlimit⟩
  rw [handle_of_asksFor hask, hfind, Option.map_some]

/-- Two seconds with a line each. -/
def twoSeconds : Disk :=
  ((LogState.start (.utc "/logs/" "app") 1000 6 0 .empty).writes (.utc "/logs/" "app")
    [oneItem 1000 0 "a" fits_firstSecond, oneItem 2000 0 "b" fits_nextSecond]).disk

/-- The items of the two lines. -/
def twoItems : List MetricItem := [⟨"a", 1000, 1, 0, 0, 0, 0⟩, ⟨"b", 2000, 1, 0, 0, 0, 0⟩]

/-- A request for one line from the beginning. -/
def oneLine : CommandRequest :=
  ({} : CommandRequest).addParams [(kStartTimeKey, "0".toList), (kMaxLinesKey, "1".toList)]

theorem asksFor_oneLine : AsksFor oneLine 0 1 := ⟨by decide, by decide, by decide⟩

theorem foundItems_twoSeconds : FoundItems ⟨0, fun _ => 0⟩ (.insertion Text)
    (.fresh (.utc "/logs/" "app")) twoSeconds 0 [twoItems] := by
  have hsearch : (MetricSearcher.search ⟨0, fun _ => 0⟩ (.insertion Text) (.fresh (.utc "/logs/" "app"))
      twoSeconds 0).2 = (["/logs/app-metrics.log.1970-01-01".toList], some (0, 0)) := by decide
  unfold FoundItems
  rw [hsearch]
  exact .cons (by decide) (.nil 0)

/-- A request for two lines. -/
def twoLines : CommandRequest :=
  ({} : CommandRequest).addParams [(kStartTimeKey, "0".toList), (kMaxLinesKey, "2".toList)]

theorem asksFor_twoLines : AsksFor twoLines 0 2 := ⟨by decide, by decide, by decide⟩

/-- There are no more lines than two. -/
theorem handle_keepsLimit_iff_twoLines :
    ∃ response vec, (handle ⟨0, fun _ => 0⟩ (.insertion Text) (.fresh (.utc "/logs/" "app")) twoSeconds
        twoLines).2 = some response ∧
      response.success = true ∧ ResponseLines response vec ∧ KeepsLimit (min 2 kMaxLines) vec := by
  obtain ⟨response, vec, hresponse, hsuccess, hlines, hiff⟩ := handle_keepsLimit_iff ⟨0, fun _ => 0⟩
    (.insertion Text) (.fresh (.utc "/logs/" "app")) twoSeconds asksFor_twoLines (by decide)
    foundItems_twoSeconds (by decide)
  refine ⟨response, vec, hresponse, hsuccess, hlines, hiff.mpr fun x y hx hy => ?_⟩
  have hsame : [twoItems].flatten[(min 2 kMaxLines).toNat - 1]? =
      [twoItems].flatten[min (max 2 kMaxLines).toNat [twoItems].flatten.length - 1]? := by decide
  exact congrArg MetricItem.second (Option.some.inj (hx.symm.trans (hsame.trans hy)))

/-- Both lines are sent, of two different seconds. -/
theorem handle_not_keepsLimit :
    AsksFor oneLine 0 1 ∧ ∃ response vec, (handle ⟨0, fun _ => 0⟩ (.insertion Text)
        (.fresh (.utc "/logs/" "app")) twoSeconds oneLine).2 = some response ∧
      ResponseLines response vec ∧ ¬ KeepsLimit (min 1 kMaxLines) vec := by
  refine ⟨asksFor_oneLine, .ofSuccess (thinText twoItems), twoItems, by decide, ?_, fun h => ?_⟩
  · show (getLines (thinText twoItems)).map MetricItem.fromThinString = twoItems.map some
    decide
  · have hfew := h ⟨"b", 2000, 1, 0, 0, 0, 0⟩ rfl
    exact absurd hfew (by decide)

end SentinelCpp.Transport
