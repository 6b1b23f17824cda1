import SentinelCpp.Log.Complete

/-!
# Lookups after removals

`RemoveMoreFiles` takes the oldest files off the disk, each with its index.  The index entry of a line
may stand in an older file than the line: an entry is written before the first write of a day opens a
new file, and a second that goes on after its file was full gets no second entry.  What a fresh
searcher still finds is therefore exactly the lines that have a late enough entry ahead of them on the
disk (`IndexedAhead`).
-/

namespace SentinelCpp.Log

open Lib Stat

/-- The items that the listed metric files hold, in order. -/
def Disk.survivors (env : LogEnv) (d : Disk) : List MetricItem :=
  (listMetricFiles env.dirOrder d env.baseDir (formMetricFileName env)).flatMap fun p =>
    (getLines ((d.content? p).getD [])).filterMap MetricItem.fromFatString

/-- `Find` with a sufficient number of lines returns every item that the disk holds from the begin
second on. -/
def FindsSurvivors (env : LogEnv) (junk : Junk) (d : Disk) : Prop :=
  ∀ beginTimeMs recommendLines : ℤ, InInt64 beginTimeMs →
    (d.survivors env).length ≤ recommendLines → recommendLines < 2 ^ 31 →
    ∃ found, ((MetricSearcher.fresh env).find junk env.dirOrder d beginTimeMs recommendLines).2 =
        some found ∧
      ((d.survivors env).filter fun x => beginTimeMs.tdiv 1000 ≤ x.second).Sublist found

/-- The listed files are segments in which each item has, in its own or in an earlier file, an index
entry ahead of it whose second is at least its own. -/
def IndexedAhead (env : LogEnv) (d : Disk) : Prop :=
  ∃ files : List (Text × Segment),
    listMetricFiles env.dirOrder d env.baseDir (formMetricFileName env) = files.map Prod.fst ∧
      (∀ f ∈ files, d.Holds env f) ∧ (∀ x ∈ items (logOf files), Readable x) ∧
        Ahead MetricItem.second (logOf files)

/-- Each path was created once, and `ListMetricFiles` returns the created metric files that have not
been removed, in the order of their creation. -/
structure Disk.ListsSurvivors (env : LogEnv) (d : Disk) : Prop where
  nodup : d.created.Nodup
  listed : ∃ names, d.created = paths names ∧
    listMetricFiles env.dirOrder d env.baseDir (formMetricFileName env) =
      names.filter fun p => (d.content? p).isSome

/-! ### What a fresh searcher finds -/

section Find

variable {env : LogEnv} {d : Disk} {files : List (Text × Segment)}

theorem survivors_eq (hfiles : ∀ f ∈ files, d.Holds env f)
    (hnames : listMetricFiles env.dirOrder d env.baseDir (formMetricFileName env) =
      files.map Prod.fst) (hread : ∀ x ∈ items (logOf files), Readable x) :
    d.survivors env = (items (logOf files)).map MetricItem.stored := by
  rw [Disk.survivors, hnames]
  clear hnames
  induction files with
  | nil => rfl
  | cons f files ih =>
    rw [logOf_cons, items_append] at hread ⊢
    have hlines : getLines (metricText env f.2) = (items f.2).map (lineOf env) := by
      have h : linesFrom (metricText env f.2) 0 = (items f.2).map (lineOf env) :=
        linesFrom_zero fun x hx => hread x (List.mem_append_left _ hx)
      simpa [linesFrom] using h
    have hparsed : ((items f.2).map (lineOf env)).filterMap MetricItem.fromFatString =
        (items f.2).map MetricItem.stored := by
      rw [List.filterMap_map, ← List.filterMap_eq_map]
      exact List.filterMap_congr fun x hx =>
        fromFatString_lineOf (hread x (List.mem_append_left _ hx))
    rw [List.map_cons, List.flatMap_cons, (hfiles f (by simp)).1, Option.getD_some, hlines, hparsed,
      List.map_append, ih (fun g hg => hfiles g (by simp [hg]))
        fun x hx => hread x (List.mem_append_right _ hx)]

/-- All lines behind the first entry that is late enough are returned. -/
theorem find_spec (junk : Junk) (hfiles : ∀ f ∈ files, d.Holds env f)
    (hnames : listMetricFiles env.dirOrder d env.baseDir (formMetricFileName env) =
      files.map Prod.fst) (hread : ∀ x ∈ items (logOf files), Readable x) (b : ℤ) {n : ℤ}
    (hcount : (items (logOf files)).length ≤ n) (hn : n < 2 ^ 31) :
    ∃ found, ((MetricSearcher.fresh env).find junk env.dirOrder d b n).2 =
        some (found.map MetricItem.stored) ∧
      ((found = [] ∧ ∀ k, Mark.entry k ∈ logOf files → k < b.tdiv 1000) ∨
        ∃ u k v, logOf files = u ++ .entry k :: v ∧ found = items v ∧
          (∀ k', Mark.entry k' ∈ u → k' < b.tdiv 1000) ∧ b.tdiv 1000 ≤ k) := by
  have hsearch := searchFiles_spec junk hfiles b (.fresh env) 0
  unfold MetricSearcher.find
  rw [search_fresh, hnames]
  dsimp only
  cases hr : (MetricSearcher.searchFiles junk d b (.fresh env) (files.map Prod.fst) 0 0).2 with
  | none =>
    rw [hr] at hsearch
    exact ⟨[], rfl, .inl ⟨rfl, hsearch⟩⟩
  | some r =>
    obtain ⟨i, offset⟩ := r
    rw [hr] at hsearch
    obtain ⟨A, f, B, l₁, k, l₂, rfl, rfl, hf, rfl, hlt, hk⟩ := hsearch
    have hcut : logOf (A ++ f :: B) = (logOf A ++ l₁) ++ .entry k :: (l₂ ++ logOf B) := by
      rw [logOf_append, logOf_cons, hf]
      simp
    rw [hcut] at hread hcount ⊢
    rw [items_append, items_entry, List.length_append] at hcount
    obtain ⟨ys, hys, hres, hend⟩ := readMetrics_spec (A := A) (n := n)
      (fun g hg => hfiles g (List.mem_append_right _ hg)) hf
      fun x hx => hread x (by rw [items_append]; exact List.mem_append_right _ hx)
    rw [List.cons_append, items_entry] at hys hend
    have hall : ys = items (l₂ ++ logOf B) := by
      rcases hend with rfl | hend
      · rfl
      · have hlen := le_length_of_wantsMore (by omega) hn hend
        rw [List.nil_append, List.length_map] at hlen
        exact hys.eq_of_length_le (by omega)
    refine ⟨ys, ?_, .inr ⟨_, k, _, rfl, hall, hlt, hk⟩⟩
    simpa using hres

theorem filter_map_stored (b : ℤ) (xs : List MetricItem) :
    (xs.map MetricItem.stored).filter (fun x => b ≤ x.second) =
      (xs.filter fun x => b ≤ x.second).map MetricItem.stored := by
  rw [List.filter_map]
  rfl

/-- An item that is left out makes the rest too short. -/
theorem not_sublist_of_before {x : MetricItem} {u v : List (Mark ℤ MetricItem)} (hx : x ∈ items u) :
    ¬ (((items u ++ items v).filter fun y => x.second ≤ y.second).map MetricItem.stored).Sublist
      ((items v).map MetricItem.stored) := by
  intro hsub
  have hmem : x ∈ (items u).filter fun y => x.second ≤ y.second :=
    List.mem_filter.mpr ⟨hx, by simp⟩
  have hpos := List.length_pos_of_mem hmem
  have hkeep := hsub.filter (fun y => x.second ≤ y.second)
  rw [filter_map_stored, filter_map_stored, List.filter_filter] at hkeep
  have hlen := hkeep.length_le
  simp only [Bool.and_self, List.filter_append, List.map_append, List.length_append,
    List.length_map] at hlen
  omega

/-- If every surviving item is found, each has an index entry ahead of it. -/
theorem ahead_of_findsSurvivors (junk : Junk) (hfiles : ∀ f ∈ files, d.Holds env f)
    (hnames : listMetricFiles env.dirOrder d env.baseDir (formMetricFileName env) =
      files.map Prod.fst) (hread : ∀ x ∈ items (logOf files), Readable x)
    (hcount : (items (logOf files)).length < 2 ^ 31) (hfinds : FindsSurvivors env junk d) :
    Ahead MetricItem.second (logOf files) := by
  have hlength : (d.survivors env).length = (items (logOf files)).length := by
    rw [survivors_eq hfiles hnames hread, List.length_map]
  by_contra hahead
  simp only [Ahead, not_forall, not_exists, not_and, not_le] at hahead
  obtain ⟨l₁, x, l₂, hl, hlost⟩ := hahead
  have hx : x ∈ items (logOf files) := mem_items.mpr (by rw [hl]; simp)
  -- ask for the second of the item that no entry is ahead of
  obtain ⟨found, hres, hsub⟩ := hfinds x.timestamp (items (logOf files)).length
    (hread x hx).1.1 (by rw [hlength]) (by omega)
  obtain ⟨found', hres', hfound⟩ := find_spec junk hfiles hnames hread x.timestamp le_rfl
    (by omega : ((items (logOf files)).length : ℤ) < 2 ^ 31)
  have hsecond : x.timestamp.tdiv 1000 = x.second := rfl
  rw [hsecond] at hsub hfound
  rw [hres', Option.some.injEq] at hres
  subst hres
  rw [survivors_eq hfiles hnames hread, filter_map_stored] at hsub
  rcases hfound with ⟨rfl, -⟩ | ⟨u, k, v, hcut, rfl, -, hk⟩
  · have hmem : x ∈ (items (logOf files)).filter fun y => x.second ≤ y.second :=
      List.mem_filter.mpr ⟨hx, by simp⟩
    have hle := hsub.length_le
    rw [List.length_map, List.length_map] at hle
    exact absurd (List.length_pos_of_mem hmem) (by simpa using hle)
  · have hbefore : x ∈ items u :=
      before_first_of_unmarked (hl ▸ hcut) (fun k' hk' => hlost k' hk') hk
    rw [hcut, items_append, items_entry] at hsub
    exact not_sublist_of_before hbefore hsub

/-- If each item has an index entry ahead of it, every one is found. -/
theorem findsSurvivors_of_ahead (junk : Junk) (hfiles : ∀ f ∈ files, d.Holds env f)
    (hnames : listMetricFiles env.dirOrder d env.baseDir (formMetricFileName env) =
      files.map Prod.fst) (hread : ∀ x ∈ items (logOf files), Readable x)
    (hahead : Ahead MetricItem.second (logOf files)) : FindsSurvivors env junk d := by
  intro b n _ h1 h2
  rw [survivors_eq hfiles hnames hread, List.length_map] at h1
  obtain ⟨found, hres, hfound⟩ := find_spec junk hfiles hnames hread b h1 h2
  refine ⟨_, hres, ?_⟩
  rw [survivors_eq hfiles hnames hread, filter_map_stored]
  refine List.Sublist.map _ ?_
  rcases hfound with ⟨rfl, hno⟩ | ⟨u, k, v, hcut, rfl, hno, -⟩
  · rw [hahead.filter_of_no_entry hno]
  · rw [hcut] at hahead ⊢
    rw [hahead.filter_of_first hno]
    exact List.filter_sublist

/-- **Every surviving item is found exactly when each has an index entry ahead of it**, unless there
are too many to ask for. -/
theorem findsSurvivors_iff (junk : Junk) (hfiles : ∀ f ∈ files, d.Holds env f)
    (hnames : listMetricFiles env.dirOrder d env.baseDir (formMetricFileName env) =
      files.map Prod.fst) (hread : ∀ x ∈ items (logOf files), Readable x) :
    FindsSurvivors env junk d ↔
      2 ^ 31 ≤ (d.survivors env).length ∨ Ahead MetricItem.second (logOf files) := by
  have hlength : (d.survivors env).length = (items (logOf files)).length := by
    rw [survivors_eq hfiles hnames hread, List.length_map]
  constructor
  · intro hfinds
    rw [or_iff_not_imp_left, not_le, hlength]
    intro hcount
    exact ahead_of_findsSurvivors junk hfiles hnames hread hcount hfinds
  · rintro (hmany | hahead)
    · intro b n _ h1 h2
      omega
    · exact findsSurvivors_of_ahead junk hfiles hnames hread hahead

end Find

/-! ### Runs of the writer -/

namespace Keeps

variable {env : LogEnv} {s : LogState} {files : List (Text × Segment)} {f : Text × Segment}

theorem indexFirstWrite (h : Keeps env s (files ++ [f])) (k : ℤ) :
    ∃ f', Keeps env (s.indexFirstWrite k) (files ++ [f']) ∧
      items (logOf (files ++ [f'])) = items (logOf (files ++ [f])) := by
  obtain ⟨out, l⟩ := f
  unfold LogState.indexFirstWrite
  split_ifs with hfirst
  · let s' : LogState := { s with writer := { s.writer with firstWrite := false } }
    have h' : Keeps env s' (files ++ [(out, l)]) := h.of_eq rfl rfl
    exact ⟨_, h'.writeIndex k, by simp⟩
  · exact ⟨_, h, rfl⟩

/-- A call, in whatever second, adds at most its items. -/
theorem write (h : Keeps env s files) (c : WriteCall)
    (hnodup : (s.write env c.time c.nodes).disk.created.Nodup) :
    ∃ files', Keeps env (s.write env c.time c.nodes) files' ∧
      ∀ x ∈ items (logOf files'), x ∈ items (logOf files) ∨ x ∈ c.items := by
  have hadd : ∀ {l l' : Segment}, items l = items (logOf files) →
      l' = l ++ c.items.map .item → ∀ x ∈ items l', x ∈ items (logOf files) ∨ x ∈ c.items := by
    rintro l l' hl rfl x hx
    rw [items_append, items_map_item, hl] at hx
    exact List.mem_append.mp hx
  rcases LogState.write_cases env s c with ⟨-, hw⟩ | ⟨-, hw⟩ | ⟨-, s₁, hs₁, hd, hw⟩
  · rw [hw] at hnodup ⊢
    obtain ⟨files', f, h', hlog⟩ := h.ensureOpen hnodup
    exact ⟨_, h', fun x hx => .inl (hlog ▸ hx)⟩
  · rw [hw] at hnodup ⊢
    obtain ⟨files₁, f₁, h₁, hlog₁⟩ := h.ensureOpen
      (((LogState.grows_indexFirstWrite _ _).trans (LogState.grows_doWrite env _ _ _)).nodup hnodup)
    obtain ⟨f₂, h₂, hitems₂⟩ := h₁.indexFirstWrite c.second
    obtain ⟨out, l⟩ := f₂
    obtain ⟨files', f', h', hlog'⟩ := h₂.doWrite hnodup
    exact ⟨_, h', hadd (hitems₂.trans (hlog₁ ▸ rfl)) hlog'⟩
  · rw [hd] at hnodup
    have hroll := (LogState.grows_doWrite env _ _ _).nodup hnodup
    have hindex := (LogState.grows_rollOnNewDay env _ _ _).nodup hroll
    rw [hs₁] at hindex
    obtain ⟨files₁, f₁, h₁, hlog₁⟩ := h.ensureOpen ((LogState.grows_writeIndex _ _ _).nodup hindex)
    obtain ⟨out₁, l₁⟩ := f₁
    have h₂ := h₁.writeIndex c.second
    rw [← hs₁] at h₂
    obtain ⟨files₃, ⟨out₃, l₃⟩, h₃, hlog₃⟩ := h₂.rollOnNewDay hroll
    obtain ⟨files', f', h', hlog'⟩ := h₃.doWrite hnodup
    have hitems : items (logOf (files₃ ++ [(out₃, l₃)])) = items (logOf files) := by
      rw [hlog₃, ← hlog₁]
      simp
    exact ⟨_, h'.of_eq (by rw [hw]) hd, hadd hitems hlog'⟩

theorem writes (h : Keeps env s files) (calls : List WriteCall)
    (hnodup : (s.writes env calls).disk.created.Nodup) :
    ∃ files', Keeps env (s.writes env calls) files' ∧
      ∀ x ∈ items (logOf files'), x ∈ items (logOf files) ∨ x ∈ calls.flatMap WriteCall.items := by
  induction calls generalizing s files with
  | nil => exact ⟨files, h, fun x hx => .inl hx⟩
  | cons c calls ih =>
    have hgrows : (s.write env c.time c.nodes).disk.Grows
        ((s.write env c.time c.nodes).writes env calls).disk := LogState.grows_writes env _ _
    obtain ⟨files₁, h₁, hitems₁⟩ := h.write c (hgrows.nodup hnodup)
    obtain ⟨files', h', hitems'⟩ := ih h₁ hnodup
    refine ⟨files', h', fun x hx => ?_⟩
    rw [List.flatMap_cons, List.mem_append, ← or_assoc]
    exact (hitems' x hx).imp_left (hitems₁ x)

/-- The listed files are the segments that have not been removed. -/
theorem listed (h : Keeps env s files) (hlists : s.disk.ListsSurvivors env) :
    listMetricFiles env.dirOrder s.disk env.baseDir (formMetricFileName env) =
        (files.filter fun f => (s.disk.content? f.1).isSome).map Prod.fst ∧
      ∀ f ∈ files.filter (fun f => (s.disk.content? f.1).isSome), s.disk.Holds env f := by
  obtain ⟨names, hcreated, hnames⟩ := hlists.listed
  obtain rfl : names = files.map Prod.fst := paths_injective (hcreated.symm.trans h.created)
  refine ⟨by rw [hnames, List.filter_map]; rfl, fun f hf => ?_⟩
  obtain ⟨hmem, hsome⟩ := List.mem_filter.mp hf
  refine (h.holds f hmem).resolve_left fun hgone => ?_
  rw [hgone.1] at hsome
  exact absurd hsome (by simp)

theorem items_logOf_filter {p : Text × Segment → Bool} {x : MetricItem}
    (hx : x ∈ items (logOf (files.filter p))) : x ∈ items (logOf files) := by
  rw [mem_items, logOf, List.mem_flatMap] at hx ⊢
  obtain ⟨f, hf, hxf⟩ := hx
  exact ⟨f, List.mem_of_mem_filter hf, hxf⟩

theorem findsSurvivors_iff (h : Keeps env s files) (junk : Junk) (hlists : s.disk.ListsSurvivors env)
    (hread : ∀ x ∈ items (logOf files), Readable x) :
    FindsSurvivors env junk s.disk ↔
      2 ^ 31 ≤ (s.disk.survivors env).length ∨ IndexedAhead env s.disk := by
  obtain ⟨hlisted, hholds⟩ := h.listed hlists
  have hread' : ∀ x ∈ items (logOf (files.filter fun f => (s.disk.content? f.1).isSome)), Readable x :=
    fun x hx => hread x (items_logOf_filter hx)
  constructor
  · intro hfinds
    rcases (SentinelCpp.Log.findsSurvivors_iff junk hholds hlisted hread').mp hfinds with
      hmany | hahead
    · exact .inl hmany
    · exact .inr ⟨_, hlisted, hholds, hread', hahead⟩
  · rintro (hmany | ⟨files', hlisted', hholds', hread', hahead⟩)
    · exact (SentinelCpp.Log.findsSurvivors_iff junk hholds hlisted hread').mpr (.inl hmany)
    · exact (SentinelCpp.Log.findsSurvivors_iff junk hholds' hlisted' hread').mpr (.inr hahead)

end Keeps

/-- **Lookups after removals**: after any calls of `Write` a fresh searcher finds every surviving item
exactly when each of them has a late enough index entry ahead of it that has survived too. -/
theorem writes_findsSurvivors_iff (env : LogEnv) (junk : Junk) (singleFileSize totalFileCount now : ℤ)
    (d : Disk) (calls : List WriteCall) (hnames : OneLineNames calls)
    (hlists : ((LogState.start env singleFileSize totalFileCount now d).writes env
      calls).disk.ListsSurvivors env) :
    FindsSurvivors env junk
        ((LogState.start env singleFileSize totalFileCount now d).writes env calls).disk ↔
      2 ^ 31 ≤ (((LogState.start env singleFileSize totalFileCount now d).writes env
          calls).disk.survivors env).length ∨
        IndexedAhead env
          ((LogState.start env singleFileSize totalFileCount now d).writes env calls).disk := by
  have hstart := (Logged.start env singleFileSize totalFileCount now d).log.keeps
  obtain ⟨files, hkeeps, hitems⟩ := hstart.writes calls hlists.nodup
  refine hkeeps.findsSurvivors_iff junk hlists fun x hx => readable_items hnames x ?_
  exact (hitems x hx).resolve_left (by simp)

/-! The same application keeps at most one old file, and writes one item on each of three days: the
index entry of the second item stands in the first file. -/

def threeDays : List WriteCall :=
  [oneItem 1000 0 "a" fits_firstSecond, oneItem 86400000 0 "b" fits_nextDay,
    oneItem 172800000 0 "c" fits_thirdDay]

theorem threeDays_listsSurvivors :
    ((LogState.start (.utc "/logs/" "app") 100 1 0 {}).writes (.utc "/logs/" "app")
      threeDays).disk.ListsSurvivors (.utc "/logs/" "app") :=
  ⟨by decide, ["/logs/app-metrics.log.1970-01-01".toList,
    "/logs/app-metrics.log.1970-01-02".toList, "/logs/app-metrics.log.1970-01-03".toList],
    by decide, by decide⟩

/-- With the first file its entry is gone, and the item of the second day is not found. -/
theorem not_findsSurvivors_threeDays :
    (threeDays.map WriteCall.second).IsChain (· ≤ ·) ∧ OneLineNames threeDays ∧
      ((LogState.start (.utc "/logs/" "app") 100 1 0 {}).writes (.utc "/logs/" "app")
        threeDays).disk.ListsSurvivors (.utc "/logs/" "app") ∧
      ¬ FindsSurvivors (.utc "/logs/" "app") ⟨0, fun _ => 0⟩
        ((LogState.start (.utc "/logs/" "app") 100 1 0 {}).writes (.utc "/logs/" "app")
          threeDays).disk := by
  refine ⟨by decide, by decide, threeDays_listsSurvivors, fun h => ?_⟩
  obtain ⟨found, hfound, hsub⟩ := h 0 10 (by decide) (by decide) (by decide)
  have hres : ((MetricSearcher.fresh (.utc "/logs/" "app")).find ⟨0, fun _ => 0⟩ (.insertion Text)
      ((LogState.start (.utc "/logs/" "app") 100 1 0 {}).writes (.utc "/logs/" "app")
        threeDays).disk 0 10).2 = some [⟨"c", 172800000, 1, 0, 0, 0, 0⟩] := by decide
  obtain rfl : found = [⟨"c", 172800000, 1, 0, 0, 0, 0⟩] := Option.some.inj (hfound.symm.trans hres)
  exact absurd hsub (by decide)

/-! With files that one item fills, and two old ones kept, every item follows its own entry. -/

theorem fits_thirdSecond : InInt64 3000 ∧ InInt64 0 := by decide

def threeSeconds : List WriteCall :=
  [oneItem 1000 0 "a" fits_firstSecond, oneItem 2000 0 "b" fits_nextSecond,
    oneItem 3000 0 "c" fits_thirdSecond]

def threeSecondsDisk : Disk :=
  ((LogState.start (.utc "/logs/" "app") 1 2 0 .empty).writes (.utc "/logs/" "app") threeSeconds).disk

/-- The files that are left. -/
def lastFiles : List (Text × Segment) :=
  [("/logs/app-metrics.log.1970-01-01.1".toList, [.entry 2, .item ⟨"b", 2000, 1, 0, 0, 0, 0⟩]),
    ("/logs/app-metrics.log.1970-01-01.2".toList, [.entry 3, .item ⟨"c", 3000, 1, 0, 0, 0, 0⟩]),
    ("/logs/app-metrics.log.1970-01-01.3".toList, [])]

theorem indexedAhead_threeSeconds : IndexedAhead (.utc "/logs/" "app") threeSecondsDisk := by
  have hholds : ∀ f ∈ lastFiles, threeSecondsDisk.content? f.1 =
      some (metricText (.utc "/logs/" "app") f.2) ∧ threeSecondsDisk.content? (formIndexFileName f.1) =
        some (indexText (.utc "/logs/" "app") f.2) := by
    decide
  have hread : ∀ x ∈ items (logOf lastFiles), Readable x := by
    intro x hx
    have hitem : x = ⟨"b", 2000, 1, 0, 0, 0, 0⟩ ∨ x = ⟨"c", 3000, 1, 0, 0, 0, 0⟩ := by
      simpa [lastFiles, logOf] using hx
    rcases hitem with rfl | rfl <;> exact ⟨by decide, by decide⟩
  have hlog : ∀ x : MetricItem, IsLog MetricItem.second [.entry x.second, .item x] := fun x => by
    have hentry : IsLog MetricItem.second [.entry x.second] := IsLog.nil.concat (by simp) (by simp)
    have hitem : IsLog MetricItem.second ([.entry x.second] ++ [x].map .item) :=
      hentry.append_items (k := x.second) (by simp) (by simp [Mark.key]) (by simp)
    exact hitem
  refine ⟨lastFiles, by decide, hholds, hread, IsLog.ahead ?_⟩
  exact (hlog ⟨"b", 2000, 1, 0, 0, 0, 0⟩).append (hlog ⟨"c", 3000, 1, 0, 0, 0, 0⟩) (by
    simp [Mark.key, MetricItem.second])

theorem writes_findsSurvivors_iff_threeSeconds :
    FindsSurvivors (.utc "/logs/" "app") ⟨0, fun _ => 0⟩ threeSecondsDisk ∧
      threeSecondsDisk.survivors (.utc "/logs/" "app") = items (logOf lastFiles) := by
  have hlists : threeSecondsDisk.ListsSurvivors (.utc "/logs/" "app") :=
    ⟨by decide, "/logs/app-metrics.log.1970-01-01".toList :: lastFiles.map Prod.fst,
      by decide, by decide⟩
  refine ⟨?_, by decide⟩
  exact (writes_findsSurvivors_iff _ _ 1 2 0 .empty threeSeconds (by decide) hlists).mpr
    (.inr indexedAhead_threeSeconds)

end SentinelCpp.Log
