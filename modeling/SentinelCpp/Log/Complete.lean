import Mathlib.Data.List.Chain
import SentinelCpp.Log.Lookup

/-!
# The metric log loses nothing on lookup

When no file was removed and the listing shows the files in the order in which they were created, a
fresh searcher finds every written item, whatever the size rolls and day changes: an index entry is
written before the lines of its second, and at the end of the previous file when the day changes.
-/

namespace SentinelCpp.Log

open Lib Stat

/-! ### Listed files -/

variable {order : IterationOrder Text} {d : Disk} {baseDir baseFileName : Text}

theorem nodup_listFiles : (d.listFiles order baseDir).Nodup := by
  refine (order.perm _).nodup_iff.mpr ?_
  have hmap : (d.files.filterMap fun f =>
      if baseDir <+: f.1 ∧ '/' ∉ f.1.drop baseDir.length then some (f.1.drop baseDir.length) else none) =
      (d.files.map Prod.fst).filterMap fun p =>
        if baseDir <+: p ∧ '/' ∉ p.drop baseDir.length then some (p.drop baseDir.length) else none := by
    rw [List.filterMap_map]
    rfl
  rw [hmap]
  refine d.nodup.filterMap fun p q n hp hq => ?_
  simp only [Option.mem_def, Option.ite_none_right_eq_some, Option.some.injEq] at hp hq
  obtain ⟨⟨⟨a, rfl⟩, -⟩, hp⟩ := hp
  obtain ⟨⟨⟨b, rfl⟩, -⟩, hq⟩ := hq
  rw [List.drop_left] at hp hq
  rw [hp, hq]

theorem nodup_listMetricFiles : (listMetricFiles order d baseDir baseFileName).Nodup := by
  refine (List.perm_insertionSort _ _).nodup_iff.mpr ?_
  exact (nodup_listFiles.filter _).map (List.append_right_injective baseDir)

theorem nodup_paths {l : List Text} (hl : l.Nodup) (hindex : ∀ p ∈ l, ∀ q, p ≠ formIndexFileName q) :
    (paths l).Nodup := by
  induction l with
  | nil => exact List.nodup_nil
  | cons p l ih =>
    rw [List.nodup_cons] at hl
    have hnew : ∀ q ∈ l, p ≠ q ∧ p ≠ formIndexFileName q ∧ formIndexFileName p ≠ q ∧
        formIndexFileName p ≠ formIndexFileName q := fun q hq =>
      ⟨fun h => hl.1 (h ▸ hq), hindex p (by simp) q, (hindex q (by simp [hq]) p).symm,
        fun h => hl.1 (formIndexFileName_injective h ▸ hq)⟩
    have hcons : paths (p :: l) = p :: formIndexFileName p :: paths l := rfl
    rw [hcons, List.nodup_cons, List.nodup_cons]
    refine ⟨?_, ?_, ih hl.2 fun q hq => hindex q (by simp [hq])⟩
    · intro h
      rcases List.mem_cons.mp h with h | h
      · exact hindex p (by simp) p h
      · obtain ⟨q, hq, hmem⟩ := List.mem_flatMap.mp h
        obtain ⟨h1, h2, -, -⟩ := hnew q hq
        rcases List.mem_pair.mp hmem with h | h
        · exact h1 h
        · exact h2 h
    · intro h
      obtain ⟨q, hq, hmem⟩ := List.mem_flatMap.mp h
      obtain ⟨-, -, h3, h4⟩ := hnew q hq
      rcases List.mem_pair.mp hmem with h | h
      · exact h3 h
      · exact h4 h

theorem paths_injective : Function.Injective paths := by
  intro l l' h
  induction l generalizing l' with
  | nil =>
    cases l' with
    | nil => rfl
    | cons p l' => exact absurd h.symm (List.cons_ne_nil _ _)
  | cons p l ih =>
    cases l' with
    | nil => exact absurd h (List.cons_ne_nil _ _)
    | cons q l' =>
      obtain ⟨rfl, h⟩ := List.cons.inj h
      rw [ih (List.cons.inj h).2]

/-- `RemoveMoreFiles` has removed nothing, and `ListMetricFiles` returns the files that the writer has
created, each with its index, in the order of their creation. -/
structure Disk.ListedInOrder (env : LogEnv) (d : Disk) : Prop where
  created : d.created =
    paths (listMetricFiles env.dirOrder d env.baseDir (formMetricFileName env))
  removed : d.removed = []

theorem Disk.ListedInOrder.nodup {env : LogEnv} (h : d.ListedInOrder env) : d.created.Nodup :=
  h.created ▸ nodup_paths nodup_listMetricFiles fun _ hp => ne_index_of_mem_listMetricFiles hp

/-! ### Lookups -/

/-- A searcher on the writer's directory that has not searched yet. -/
def MetricSearcher.fresh (env : LogEnv) : MetricSearcher where
  baseDir := env.baseDir
  baseFileName := formMetricFileName env

/-- Every written item is found, in the form `kept` in which the log keeps it: `Find` returns the first
items from the begin second on, at least as many as recommended if there are so many, and
`FindByTimeAndResource` for all resources returns those between the two seconds, up to the maximum. -/
structure FindsAll (kept : MetricItem → MetricItem) (env : LogEnv) (junk : Junk) (d : Disk)
    (written : List MetricItem) : Prop where
  find : ∀ beginTimeMs recommendLines : ℤ, 0 ≤ beginTimeMs → 1 ≤ recommendLines →
    recommendLines < 2 ^ 31 →
    ∃ found, found <+: written.filter (fun x => beginTimeMs.tdiv 1000 ≤ x.second) ∧
      min recommendLines (written.filter fun x => beginTimeMs.tdiv 1000 ≤ x.second).length ≤
        found.length ∧
      ((MetricSearcher.fresh env).find junk env.dirOrder d beginTimeMs recommendLines).2 =
        some (found.map kept)
  findByTime : ∀ beginTimeMs endTimeMs : ℤ, 0 ≤ beginTimeMs →
    ((MetricSearcher.fresh env).findByTimeAndResource junk env.dirOrder d beginTimeMs endTimeMs "").2 =
      some (((written.filter fun x =>
        beginTimeMs.tdiv 1000 ≤ x.second ∧ x.second ≤ endTimeMs.tdiv 1000).map kept).take
          kMaxLinesReturn)

/-- The calls are made in the order of their seconds, beginning with the second of creation. -/
def InOrder (now : ℤ) (calls : List WriteCall) : Prop :=
  (now.tdiv 1000 :: calls.map WriteCall.second).IsChain (· ≤ ·)

instance (now : ℤ) (calls : List WriteCall) : Decidable (InOrder now calls) :=
  inferInstanceAs (Decidable (List.IsChain _ _))

/-- No resource name has a line break. -/
def OneLineNames (calls : List WriteCall) : Prop :=
  ∀ c ∈ calls, ∀ x ∈ c.nodes, '\n' ∉ x.resource.toList

instance (calls : List WriteCall) : Decidable (OneLineNames calls) :=
  inferInstanceAs (Decidable (∀ c ∈ calls, ∀ x ∈ c.nodes, '\n' ∉ x.resource.toList))

variable {env : LogEnv} {junk : Junk}

/-- A fresh searcher looks at all listed files from the start. -/
theorem search_fresh (t : ℤ) :
    let names := listMetricFiles env.dirOrder d env.baseDir (formMetricFileName env)
    let r := MetricSearcher.searchFiles junk d t (.fresh env) names 0 0
    (MetricSearcher.fresh env).search junk env.dirOrder d t = (r.1, names, r.2) :=
  MetricSearcher.search_eq_of_not_usesPosition (MetricSearcher.not_usesPosition_new _ _)

theorem readable_items {calls : List WriteCall} (hnames : OneLineNames calls) :
    ∀ x ∈ calls.flatMap WriteCall.items, Readable x := by
  intro x hx
  obtain ⟨c, hc, hx⟩ := List.mem_flatMap.mp hx
  unfold WriteCall.items at hx
  split_ifs at hx
  · obtain ⟨y, hy, rfl⟩ := List.mem_map.mp hx
    exact ⟨⟨c.fits.1, (c.fits.2 y hy).2⟩, hnames c hc y hy⟩
  · exact ⟨c.fits.2 x hx, hnames c hc x hx⟩

/-- **Where a search starts reading**: either no item is late enough, or what stands behind the position
found are exactly the items that are. -/
theorem search_spec (junk : Junk) {files : List (Text × Segment)} (hfiles : ∀ f ∈ files, d.Holds env f)
    (hlog : IsLog MetricItem.second (logOf files))
    (hnames : listMetricFiles env.dirOrder d env.baseDir (formMetricFileName env) =
      files.map Prod.fst) (t : ℤ) :
    (((MetricSearcher.fresh env).search junk env.dirOrder d t).2 = (files.map Prod.fst, none) ∧
      (items (logOf files)).filter (fun x => t.tdiv 1000 ≤ x.second) = []) ∨
    ∃ A f B l₁ l₂, files = A ++ f :: B ∧ f.2 = l₁ ++ l₂ ∧
      ((MetricSearcher.fresh env).search junk env.dirOrder d t).2 =
        (files.map Prod.fst, some (A.length, ((metricText env l₁).length : ℤ))) ∧
      (items (logOf files)).filter (fun x => t.tdiv 1000 ≤ x.second) = items (l₂ ++ logOf B) := by
  have hsearch := searchFiles_spec junk hfiles t (.fresh env) 0
  rw [search_fresh, hnames]
  dsimp only
  cases hr : (MetricSearcher.searchFiles junk d t (.fresh env) (files.map Prod.fst) 0 0).2 with
  | none =>
    rw [hr] at hsearch
    exact .inl ⟨rfl, hlog.ahead.filter_of_no_entry hsearch⟩
  | some r =>
    obtain ⟨i, offset⟩ := r
    rw [hr] at hsearch
    obtain ⟨A, f, B, l₁, k, l₂, rfl, rfl, hf, rfl, hlt, hk⟩ := hsearch
    refine .inr ⟨A, f, B, l₁, .entry k :: l₂, rfl, hf, by rw [Nat.zero_add], ?_⟩
    have hcut : logOf (A ++ f :: B) = (logOf A ++ l₁) ++ .entry k :: (l₂ ++ logOf B) := by
      rw [logOf_append, logOf_cons, hf]
      simp
    rw [hcut] at hlog ⊢
    exact hlog.filter_of_first hlt hk

/-- Enough has been read. -/
theorem le_length_of_wantsMore {n : ℤ} (h1 : 0 ≤ n) (h2 : n < 2 ^ 31) {v : List MetricItem}
    (h : wantsMore v n = false) : n ≤ v.length := by
  have hmod : n % 2 ^ 64 = n := Int.emod_eq_of_lt (by omega) (by omega)
  rw [wantsMore, hmod] at h
  simpa using h

section Queries

variable {files : List (Text × Segment)}

/-- `Find` reads the items behind the position of the search until there are enough. -/
theorem find_of_isLog (hfiles : ∀ f ∈ files, d.Holds env f)
    (hlog : IsLog MetricItem.second (logOf files))
    (hnames : listMetricFiles env.dirOrder d env.baseDir (formMetricFileName env) =
      files.map Prod.fst) (hread : ∀ x ∈ items (logOf files), Readable x) (b : ℤ) {n : ℤ} (h1 : 1 ≤ n)
    (h2 : n < 2 ^ 31) :
    ∃ found, found <+: (items (logOf files)).filter (fun x => b.tdiv 1000 ≤ x.second) ∧
      min n ((items (logOf files)).filter fun x => b.tdiv 1000 ≤ x.second).length ≤ found.length ∧
      ((MetricSearcher.fresh env).find junk env.dirOrder d b n).2 =
        some (found.map MetricItem.stored) := by
  rcases search_spec junk hfiles hlog hnames b with
    ⟨hpos, hnone⟩ | ⟨A, f, B, l₁, l₂, hsplit, hf, hpos, hitems⟩
  · refine ⟨[], List.nil_prefix, by simp [hnone], ?_⟩
    unfold MetricSearcher.find
    simp only [hpos]
    rfl
  · subst hsplit
    have htail : ∀ x ∈ items (l₂ ++ logOf B), Readable x := fun x hx =>
      hread x (List.mem_of_mem_filter (hitems ▸ hx))
    obtain ⟨ys, hys, hres, hend⟩ := readMetrics_spec (A := A) (n := n)
      (fun g hg => hfiles g (List.mem_append_right _ hg)) hf htail
    refine ⟨ys, hitems ▸ hys, ?_, ?_⟩
    · rw [hitems]
      rcases hend with rfl | hend
      · exact min_le_right _ _
      · have hlen := le_length_of_wantsMore (by omega) h2 hend
        rw [List.nil_append, List.length_map] at hlen
        exact (min_le_left _ _).trans hlen
    · unfold MetricSearcher.find
      simp only [hpos]
      exact hres

/-- `FindByTimeAndResource` reads them up to the end second, those under the name only. -/
theorem findByTime_of_isLog (hfiles : ∀ f ∈ files, d.Holds env f)
    (hlog : IsLog MetricItem.second (logOf files))
    (hnames : listMetricFiles env.dirOrder d env.baseDir (formMetricFileName env) =
      files.map Prod.fst) (hread : ∀ x ∈ items (logOf files), Readable x) (b e : ℤ)
    (identity : String) :
    ((MetricSearcher.fresh env).findByTimeAndResource junk env.dirOrder d b e identity).2 =
      some ((named identity (((items (logOf files)).filter fun x =>
        b.tdiv 1000 ≤ x.second ∧ x.second ≤ e.tdiv 1000).map MetricItem.stored)).take
          kMaxLinesReturn) := by
  have hrange : ((items (logOf files)).filter fun x => b.tdiv 1000 ≤ x.second ∧ x.second ≤ e.tdiv 1000) =
      ((items (logOf files)).filter fun x => b.tdiv 1000 ≤ x.second).filter
        fun x => x.second ≤ e.tdiv 1000 := by
    rw [List.filter_filter]
    exact List.filter_congr fun x _ => by rw [Bool.decide_and, Bool.and_comm]
  rw [hrange]
  rcases search_spec junk hfiles hlog hnames b with
    ⟨hpos, hnone⟩ | ⟨A, f, B, l₁, l₂, hsplit, hf, hpos, hitems⟩
  · rw [hnone]
    unfold MetricSearcher.findByTimeAndResource
    simp only [hpos]
    rfl
  · subst hsplit
    have htail : ∀ x ∈ items (l₂ ++ logOf B), Readable x ∧ b.tdiv 1000 ≤ x.second := by
      intro x hx
      rw [← hitems, List.mem_filter] at hx
      exact ⟨hread x hx.1, by simpa using hx.2⟩
    have hsorted : ((items (l₂ ++ logOf B)).map MetricItem.second).Pairwise (· ≤ ·) := by
      rw [← hitems]
      exact hlog.items_sorted.sublist (List.filter_sublist.map _)
    unfold MetricSearcher.findByTimeAndResource
    simp only [hpos]
    rw [readMetricsByEndTime_spec (fun g hg => hfiles g (List.mem_append_right _ hg)) hf
      (fun x hx => (htail x hx).1) (fun x hx => (htail x hx).2), hitems, upTo,
      takeWhile_le_of_sorted _ hsorted]

end Queries

/-- Lookups in files that hold the segments of a log find every item of it. -/
theorem Logged.findsAll {s : LogState} {files : List (Text × Segment)} {written : List MetricItem}
    (h : Logged env s files written) (hread : ∀ x ∈ written, Readable x)
    (hlisted : s.disk.ListedInOrder env) : FindsAll MetricItem.stored env junk s.disk written := by
  obtain ⟨⟨hkeeps, hlog, rfl, -⟩, -⟩ := h
  have hnames : listMetricFiles env.dirOrder s.disk env.baseDir (formMetricFileName env) =
      files.map Prod.fst := paths_injective (hlisted.created.symm.trans hkeeps.created)
  have hholds := hkeeps.holds_of_removed hlisted.removed
  refine ⟨fun b n _ h1 h2 => ?_, fun b e _ => ?_⟩
  · exact find_of_isLog hholds hlog hnames hread b h1 h2
  · rw [findByTime_of_isLog hholds hlog hnames hread b e, named_all]

/-- **The metric log loses nothing on lookup**: after any calls of `Write` in the order of their
seconds, a fresh searcher finds every item that was written, each with its legal name. -/
theorem writes_findsAll (env : LogEnv) (junk : Junk) (singleFileSize totalFileCount now : ℤ) (d : Disk)
    (calls : List WriteCall) (horder : InOrder now calls) (htime : ∀ c ∈ calls, c.time ≠ -1)
    (hnames : OneLineNames calls)
    (hlisted : ((LogState.start env singleFileSize totalFileCount now d).writes env calls).disk.ListedInOrder
      env) :
    FindsAll MetricItem.stored env junk
      ((LogState.start env singleFileSize totalFileCount now d).writes env calls).disk
      (calls.flatMap WriteCall.items) := by
  have hstart := Logged.start env singleFileSize totalFileCount now d
  obtain ⟨files, hlogged⟩ := hstart.writes (fun c hc => WriteCall.dated (htime c hc)) horder
    hlisted.nodup
  exact hlogged.findsAll (readable_items hnames) hlisted

/-! A log of an application `app` in the directory `/logs/`. -/

/-- One call with one item, which passed once. -/
def oneItem (time timestamp : ℤ) (resource : String)
    (fits : InInt64 time ∧ InInt64 timestamp := by decide) : WriteCall where
  time := time
  nodes := [⟨resource, timestamp, 1, 0, 0, 0, 0⟩]
  fits := ⟨fits.1, fun x hx => by
    obtain rfl := List.mem_singleton.mp hx
    exact ⟨fits.2, (by decide : InInt64 1 ∧ InInt64 0 ∧ InInt64 0 ∧ InInt64 0 ∧ InInt64 0)⟩⟩

/-! The times the examples write at. -/

theorem fits_firstSecond : InInt64 1000 ∧ InInt64 0 := by decide
theorem fits_nextSecond : InInt64 2000 ∧ InInt64 0 := by decide
theorem fits_nextDay : InInt64 86400000 ∧ InInt64 0 := by decide
theorem fits_thirdDay : InInt64 172800000 ∧ InInt64 0 := by decide

/-- Two calls on one day and one on the next; the second fills the file. -/
theorem writes_findsAll_roll :
    FindsAll MetricItem.stored (.utc "/logs/" "app") ⟨0, fun _ => 0⟩
      ((LogState.start (.utc "/logs/" "app") 60 6 0 {}).writes (.utc "/logs/" "app")
        [oneItem 1000 0 "a|b", oneItem 2000 0 "c", oneItem 86400000 0 "d"]).disk
      ([oneItem 1000 0 "a|b", oneItem 2000 0 "c", oneItem 86400000 0 "d"].flatMap WriteCall.items) :=
  writes_findsAll _ _ 60 6 0 {} _ (by decide) (by decide) (by decide)
    ⟨by decide, by decide⟩

/-- The log does not keep every item as it was: a separator in a name is replaced, and with the time −1
an item keeps a time of its own, for which there may be no index entry. -/
theorem not_findsAll_id :
    (let calls := [oneItem 1000 0 "a|b"]
      let d := ((LogState.start (.utc "/logs/" "app") 60 6 0 {}).writes (.utc "/logs/" "app") calls).disk
      InOrder 0 calls ∧ OneLineNames calls ∧ d.ListedInOrder (.utc "/logs/" "app") ∧
        ¬ FindsAll id (.utc "/logs/" "app") ⟨0, fun _ => 0⟩ d (calls.flatMap WriteCall.items)) ∧
    (let calls := [oneItem (-1) 5000 "a"]
      let d := ((LogState.start (.utc "/logs/" "app") 60 6 0 {}).writes (.utc "/logs/" "app") calls).disk
      InOrder 0 calls ∧ OneLineNames calls ∧ d.ListedInOrder (.utc "/logs/" "app") ∧
        ¬ FindsAll id (.utc "/logs/" "app") ⟨0, fun _ => 0⟩ d (calls.flatMap WriteCall.items)) := by
  refine ⟨⟨by decide, by decide, ⟨by decide, by decide⟩, fun h => ?_⟩,
    ⟨by decide, by decide, ⟨by decide, by decide⟩, fun h => ?_⟩⟩
  · have hfound := h.findByTime 0 5000 (by omega)
    exact absurd hfound (by decide)
  · have hfound := h.findByTime 5000 5000 (by omega)
    exact absurd hfound (by decide)

end SentinelCpp.Log
