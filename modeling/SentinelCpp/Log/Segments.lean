import SentinelCpp.Lib.SegmentedLog
import SentinelCpp.Log.MetricWriter

/-!
# What the writer keeps on disk

Each metric file with its index is a segment of one log of index entries and items, in the order in
which they were written (`Keeps`).  Every operation of the writer that creates no path twice extends
this log: an index entry is stored with the length of the metric file, lines go to the file that is
open, and a new file starts an empty segment.  `RemoveMoreFiles` takes whole segments off the disk.
-/

namespace SentinelCpp.Log

open Lib Stat

/-- The index entries (seconds) and the items of one metric file. -/
abbrev Segment := List (Mark ℤ MetricItem)

/-! ### The two texts of a segment -/

section Texts

variable (env : LogEnv)

def lineOf (x : MetricItem) : Text := x.toFatString env.formatTime

/-- The length of a line with its line break. -/
def lineSize (x : MetricItem) : ℕ := (lineOf env x).length + 1

/-- The lines of the items. -/
def metricText (l : Segment) : Text := unlines ((items l).map (lineOf env))

def indexLine (e : ℤ × ℕ) : Text := decimal e.1 ++ [' '] ++ decimal e.2

/-- The entries, each with the length of the lines before it. -/
def indexText (l : Segment) : Text := unlines ((offsets (lineSize env) 0 l).map indexLine)

theorem metricText_append (l l' : Segment) :
    metricText env (l ++ l') = metricText env l ++ metricText env l' := by
  rw [metricText, items_append, List.map_append, unlines_append]
  rfl

theorem length_metricText (l : Segment) :
    (metricText env l).length = ((items l).map (lineSize env)).sum := by
  rw [metricText]
  induction items l with
  | nil => rfl
  | cons x xs ih =>
    rw [List.map_cons, unlines_cons, List.length_append, List.length_cons, ih, List.map_cons,
      List.sum_cons, lineSize]
    omega

theorem indexText_concat_entry (l : Segment) (k : ℤ) : indexText env (l ++ [.entry k]) =
    indexText env l ++ unlines [indexLine (k, (metricText env l).length)] := by
  rw [indexText, offsets_append, List.map_append, unlines_append, length_metricText]
  simp [indexText, offsets]

theorem indexText_append_items (l : Segment) (xs : List MetricItem) :
    indexText env (l ++ xs.map .item) = indexText env l := by
  rw [indexText, offsets_append, offsets_map_item, List.append_nil]
  rfl

end Texts

/-! ### Paths -/

theorem matchesDate_length {s : Text} (h : matchesDate s = true) : 11 ≤ s.length := by
  unfold matchesDate at h
  split at h
  · simp only [List.length_cons]
    omega
  · exact absurd h Bool.false_ne_true

/-- A listed file is no index file. -/
theorem ne_index_of_mem_listMetricFiles {order : IterationOrder Text} {d : Disk}
    {baseDir baseFileName p : Text}
    (h : p ∈ listMetricFiles order d baseDir baseFileName) (q : Text) : p ≠ formIndexFileName q := by
  rw [listMetricFiles, sortFiles, List.mem_insertionSort] at h
  obtain ⟨n, hn, rfl⟩ := List.mem_map.mp h
  obtain ⟨-, hmatch⟩ := List.mem_filter.mp hn
  simp only [fileNameMatches, Bool.and_eq_true, decide_eq_true_eq, Bool.not_eq_true',
    isIndexOrLock, Bool.or_eq_false_iff, decide_eq_false_iff_not] at hmatch
  obtain ⟨⟨-, hdate⟩, hsuffix, -⟩ := hmatch
  intro heq
  have hend : kMetricIndexFileSuffix <:+ baseDir ++ n := heq ▸ List.suffix_append _ _
  refine hsuffix (List.suffix_of_suffix_length_le hend (List.suffix_append _ _) ?_)
  have h11 := matchesDate_length hdate
  rw [List.length_drop] at h11
  show 4 ≤ n.length
  omega

theorem formIndexFileName_injective : Function.Injective formIndexFileName :=
  List.append_left_injective _

/-- The metric files and their indexes, in order. -/
def paths (names : List Text) : List Text := names.flatMap fun p => [p, formIndexFileName p]

theorem paths_append (l l' : List Text) : paths (l ++ l') = paths l ++ paths l' :=
  List.flatMap_append

theorem mem_paths {l : List Text} {q : Text} :
    q ∈ paths l ↔ q ∈ l ∨ ∃ p ∈ l, q = formIndexFileName p := by
  simp only [paths, List.mem_flatMap, List.mem_pair]
  constructor
  · rintro ⟨p, hp, rfl | rfl⟩
    · exact .inl hp
    · exact .inr ⟨p, hp, rfl⟩
  · rintro (hq | ⟨p, hp, rfl⟩)
    · exact ⟨q, hq, .inl rfl⟩
    · exact ⟨p, hp, .inr rfl⟩

/-- The index goes only together with its file. -/
theorem index_not_mem_paths {l : List Text} (hindex : ∀ p ∈ l, ∀ q, p ≠ formIndexFileName q) {p : Text}
    (h : p ∉ paths l) : formIndexFileName p ∉ paths l := by
  rw [mem_paths] at h ⊢
  rintro (hq | ⟨q, hq, heq⟩)
  · exact hindex _ hq p rfl
  · exact h (.inl (formIndexFileName_injective heq ▸ hq))

/-! ### The files and their segments -/

/-- The metric file and its index hold the texts of the segment. -/
def Disk.Holds (env : LogEnv) (d : Disk) (f : Text × Segment) : Prop :=
  d.content? f.1 = some (metricText env f.2) ∧
    d.content? (formIndexFileName f.1) = some (indexText env f.2)

/-- The log that the segments are cut from. -/
def logOf (files : List (Text × Segment)) : Segment := files.flatMap Prod.snd

@[simp] theorem logOf_append (files files' : List (Text × Segment)) :
    logOf (files ++ files') = logOf files ++ logOf files' := List.flatMap_append

@[simp] theorem logOf_nil : logOf [] = [] := rfl

@[simp] theorem logOf_cons (f : Text × Segment) (files : List (Text × Segment)) :
    logOf (f :: files) = f.2 ++ logOf files := List.flatMap_cons

/-- The metric file has been removed. -/
def Disk.Gone (d : Disk) (f : Text × Segment) : Prop := d.content? f.1 = none ∧ f.1 ∈ d.removed

/-- The writer has created exactly these files, the last one is open, and the disk holds their segments
as far as they have not been removed. -/
structure Keeps (env : LogEnv) (s : LogState) (files : List (Text × Segment)) : Prop where
  metricOut : s.writer.metricOut = files.getLast?.map Prod.fst
  created : s.disk.created = paths (files.map Prod.fst)
  nodup : s.disk.created.Nodup
  holds : ∀ f ∈ files, s.disk.Gone f ∨ s.disk.Holds env f
  current : ∀ f ∈ files.getLast?, s.disk.Holds env f

/-- The record of the disk goes on. -/
def Disk.Grows (d d' : Disk) : Prop := d.created <+: d'.created

namespace Disk

variable {d d' d'' : Disk}

theorem Grows.refl (d : Disk) : d.Grows d := List.prefix_rfl

theorem Grows.trans (h : d.Grows d') (h' : d'.Grows d'') : d.Grows d'' := List.IsPrefix.trans h h'

theorem Grows.nodup (hg : d.Grows d') (h : d'.created.Nodup) : d.created.Nodup :=
  List.IsPrefix.sublist hg |>.nodup h

end Disk

/-! ### The operations of the writer -/

namespace LogState

variable {env : LogEnv} {s : LogState}

theorem removeAll_spec (l : List Text) (d : Disk) :
    let d' := l.foldl (fun d path => (d.remove path).remove (formIndexFileName path)) d
    d'.created = d.created ∧ d'.removed = d.removed ++ paths l ∧
      ∀ q, d'.content? q = if q ∈ paths l then none else d.content? q := by
  induction l generalizing d with
  | nil => simp [paths]
  | cons p l ih =>
    obtain ⟨h1, h2, h3⟩ := ih ((d.remove p).remove (formIndexFileName p))
    refine ⟨h1, h2.trans (by simp [paths]), fun q => (h3 q).trans ?_⟩
    have hcons : q ∈ paths (p :: l) ↔ q ∈ paths l ∨ q = formIndexFileName p ∨ q = p := by
      simp only [paths, List.flatMap_cons, List.mem_append, List.mem_pair]
      tauto
    simp only [Disk.content?_remove, hcons]
    by_cases h4 : q ∈ paths l
    · simp [h4]
    · by_cases h5 : q = formIndexFileName p <;> by_cases h6 : q = p <;> simp [h4, h5, h6]

/-- What is removed is a list of listed files with their indexes. -/
theorem removeMoreFiles_spec (env : LogEnv) (s : LogState) :
    (s.removeMoreFiles env).writer = s.writer ∧
      (s.removeMoreFiles env).disk.created = s.disk.created ∧
      ∃ l, (s.removeMoreFiles env).disk.removed = s.disk.removed ++ paths l ∧
        (∀ q, (s.removeMoreFiles env).disk.content? q =
          if q ∈ paths l then none else s.disk.content? q) ∧
        ∀ p ∈ l, ∀ q, p ≠ formIndexFileName q := by
  unfold removeMoreFiles
  dsimp only
  split_ifs with h
  · exact ⟨rfl, rfl, [], by simp [paths], by simp [paths], by simp⟩
  · obtain ⟨h1, h2, h3⟩ := removeAll_spec ((listMetricFiles env.dirOrder s.disk s.writer.baseDir
      s.writer.baseFileName).take (toInt32 ((listMetricFiles env.dirOrder s.disk s.writer.baseDir
        s.writer.baseFileName).length - s.writer.totalFileCount % 2 ^ 64)).toNat) s.disk
    exact ⟨rfl, h1, _, h2, h3, fun p hp => ne_index_of_mem_listMetricFiles (List.mem_of_mem_take hp)⟩

theorem closeAndNewFile_created (env : LogEnv) (s : LogState) (p : Text) :
    (s.closeAndNewFile env p).disk.created = s.disk.created ++ [p, formIndexFileName p] := by
  simp [closeAndNewFile, (removeMoreFiles_spec env s).2.1]

theorem grows_closeAndNewFile (env : LogEnv) (s : LogState) (p : Text) :
    s.disk.Grows (s.closeAndNewFile env p).disk := by
  rw [Disk.Grows, closeAndNewFile_created]
  exact List.prefix_append _ _

theorem grows_put (s : LogState) (text : Text) : s.disk.Grows (s.put text).disk := by
  unfold put
  cases s.writer.metricOut with
  | none => exact .refl _
  | some out => exact List.prefix_rfl

theorem grows_writeIndex (s : LogState) (time offset : ℤ) :
    s.disk.Grows (s.writeIndex time offset).disk := by
  unfold writeIndex
  cases s.writer.metricOut with
  | none => exact .refl _
  | some out => exact List.prefix_rfl

theorem grows_doWrite (env : LogEnv) (s : LogState) (time : ℤ) (nodes : List MetricItem) :
    s.disk.Grows (s.doWrite env time nodes).disk := by
  unfold doWrite
  dsimp only
  split_ifs
  · exact (grows_put _ _).trans (grows_closeAndNewFile env _ _)
  · exact grows_put _ _

theorem grows_ensureOpen (env : LogEnv) (s : LogState) (time : ℤ) :
    s.disk.Grows (s.ensureOpen env time).disk := by
  unfold ensureOpen
  split_ifs
  · let s' : LogState := { s with writer := { s.writer with baseFileName := formMetricFileName env } }
    exact grows_closeAndNewFile env s' (s'.nextFileNameOfDay env time)
  · exact .refl _

theorem grows_indexFirstWrite (s : LogState) (second : ℤ) :
    s.disk.Grows (s.indexFirstWrite second).disk := by
  unfold indexFirstWrite
  split_ifs
  · let s' : LogState := { s with writer := { s.writer with firstWrite := false } }
    exact grows_writeIndex s' second s'.tellp
  · exact .refl _

theorem grows_rollOnNewDay (env : LogEnv) (s : LogState) (time second : ℤ) :
    s.disk.Grows (s.rollOnNewDay env time second).disk := by
  unfold rollOnNewDay
  split_ifs
  · exact grows_closeAndNewFile env _ _
  · exact .refl _

theorem grows_write (env : LogEnv) (s : LogState) (time : ℤ) (nodes : List MetricItem) :
    s.disk.Grows (s.write env time nodes).disk := by
  have hopen := grows_ensureOpen env s time
  unfold write
  generalize (if time ≠ -1 then nodes.map fun x => { x with timestamp := time } else nodes) = nodes'
  dsimp only
  by_cases hlt : time.tdiv 1000 < (s.ensureOpen env time).writer.lastSecond
  · rw [if_pos hlt]
    exact hopen
  rw [if_neg hlt]
  by_cases heq : time.tdiv 1000 = (s.ensureOpen env time).writer.lastSecond
  · rw [if_pos heq]
    exact (hopen.trans (grows_indexFirstWrite _ _)).trans (grows_doWrite env _ _ _)
  · rw [if_neg heq]
    have hindex := hopen.trans (grows_writeIndex _ (time.tdiv 1000) (s.ensureOpen env time).tellp)
    exact (hindex.trans (grows_rollOnNewDay env _ _ _)).trans (grows_doWrite env _ _ _)

theorem grows_writes (env : LogEnv) (s : LogState) (calls : List WriteCall) :
    s.disk.Grows (s.writes env calls).disk := by
  induction calls generalizing s with
  | nil => exact .refl _
  | cons c calls ih => exact (grows_write env s c.time c.nodes).trans (ih _)

/-! The writer's own fields -/

section Writer

theorem closeAndNewFile_writer (env : LogEnv) (s : LogState) (path : Text) :
    (s.closeAndNewFile env path).writer = { s.writer with metricOut := some path } := by
  rw [closeAndNewFile, (removeMoreFiles_spec env s).1]

@[simp] theorem closeAndNewFile_lastSecond (p : Text) :
    (s.closeAndNewFile env p).writer.lastSecond = s.writer.lastSecond := by
  rw [closeAndNewFile_writer]

@[simp] theorem closeAndNewFile_firstWrite (p : Text) :
    (s.closeAndNewFile env p).writer.firstWrite = s.writer.firstWrite := by
  rw [closeAndNewFile_writer]

@[simp] theorem put_writer (text : Text) : (s.put text).writer = s.writer := by
  unfold put
  cases s.writer.metricOut <;> rfl

@[simp] theorem writeIndex_writer (time offset : ℤ) :
    (s.writeIndex time offset).writer = s.writer := by
  unfold writeIndex
  cases s.writer.metricOut <;> rfl

@[simp] theorem doWrite_lastSecond (time : ℤ) (nodes : List MetricItem) :
    (s.doWrite env time nodes).writer.lastSecond = s.writer.lastSecond := by
  unfold doWrite
  dsimp only
  split_ifs <;> simp

@[simp] theorem ensureOpen_lastSecond (time : ℤ) :
    (s.ensureOpen env time).writer.lastSecond = s.writer.lastSecond := by
  unfold ensureOpen
  split_ifs <;> simp

@[simp] theorem ensureOpen_firstWrite (time : ℤ) :
    (s.ensureOpen env time).writer.firstWrite = s.writer.firstWrite := by
  unfold ensureOpen
  split_ifs <;> simp

@[simp] theorem indexFirstWrite_lastSecond (second : ℤ) :
    (s.indexFirstWrite second).writer.lastSecond = s.writer.lastSecond := by
  unfold indexFirstWrite
  split_ifs <;> simp

end Writer

/-- What `Write` does in a second before the last one, in the last one, and in a later one. -/
theorem write_cases (env : LogEnv) (s : LogState) (c : WriteCall) :
    (c.second < s.writer.lastSecond ∧ s.write env c.time c.nodes = s.ensureOpen env c.time) ∨
      (c.second = s.writer.lastSecond ∧ s.write env c.time c.nodes =
        ((s.ensureOpen env c.time).indexFirstWrite c.second).doWrite env c.time c.items) ∨
      (s.writer.lastSecond < c.second ∧ ∃ s₁, s₁ = (s.ensureOpen env c.time).writeIndex c.second
          (s.ensureOpen env c.time).tellp ∧
        (s.write env c.time c.nodes).disk =
          ((s₁.rollOnNewDay env c.time c.second).doWrite env c.time c.items).disk ∧
        (s.write env c.time c.nodes).writer =
          { ((s₁.rollOnNewDay env c.time c.second).doWrite env c.time c.items).writer with
            lastSecond := c.second }) := by
  have hwrite : s.write env c.time c.nodes =
      if c.second < s.writer.lastSecond then s.ensureOpen env c.time
      else if c.second = s.writer.lastSecond then
        ((s.ensureOpen env c.time).indexFirstWrite c.second).doWrite env c.time c.items
      else
        let s₁ := (s.ensureOpen env c.time).writeIndex c.second (s.ensureOpen env c.time).tellp
        let s₂ := (s₁.rollOnNewDay env c.time c.second).doWrite env c.time c.items
        { s₂ with writer := { s₂.writer with lastSecond := c.second } } := by
    unfold write
    simp only [ensureOpen_lastSecond]
    rfl
  rw [hwrite]
  rcases lt_trichotomy c.second s.writer.lastSecond with hlt | heq | hlt
  · exact .inl ⟨hlt, if_pos hlt⟩
  · rw [if_neg heq.not_lt]
    exact .inr (.inl ⟨heq, if_pos heq⟩)
  · rw [if_neg hlt.not_gt, if_neg hlt.ne']
    exact .inr (.inr ⟨hlt, _, rfl, rfl, rfl⟩)

end LogState

namespace Keeps

variable {env : LogEnv} {s : LogState} {files : List (Text × Segment)} {out : Text} {l l' : Segment}

/-- Only the writer's open file matters. -/
theorem of_eq {s' : LogState} (h : Keeps env s files) (hw : s'.writer.metricOut = s.writer.metricOut)
    (hd : s'.disk = s.disk) : Keeps env s' files :=
  ⟨hw.trans h.metricOut, hd ▸ h.created, hd ▸ h.nodup, hd ▸ h.holds, hd ▸ h.current⟩

/-- As long as nothing has been removed the disk holds every segment. -/
theorem holds_of_removed (h : Keeps env s files) (hremoved : s.disk.removed = []) :
    ∀ f ∈ files, s.disk.Holds env f := by
  intro f hf
  refine (h.holds f hf).resolve_left fun hgone => ?_
  rw [Disk.Gone, hremoved] at hgone
  exact List.not_mem_nil hgone.2

theorem metricOut_concat (h : Keeps env s (files ++ [(out, l)])) :
    s.writer.metricOut = some out := by
  simpa using h.metricOut

theorem holds_concat (h : Keeps env s (files ++ [(out, l)])) : s.disk.Holds env (out, l) :=
  h.current _ (by simp)

theorem tellp (h : Keeps env s (files ++ [(out, l)])) : s.tellp = (metricText env l).length := by
  rw [LogState.tellp, h.metricOut_concat]
  dsimp only
  rw [h.holds_concat.1, Option.getD_some]

/-- The files of different segments are different. -/
theorem ne_of_mem (h : Keeps env s (files ++ [(out, l)])) {p q : Text} (hp : p ∈ paths (files.map Prod.fst))
    (hq : q = out ∨ q = formIndexFileName out) : p ≠ q := by
  have hnodup := h.nodup
  rw [h.created, List.map_append, paths_append, List.nodup_append] at hnodup
  exact hnodup.2.2 p hp q (by simpa [paths] using hq)

theorem index_ne (h : Keeps env s (files ++ [(out, l)])) : formIndexFileName out ≠ out := by
  have hnodup := h.nodup
  rw [h.created, List.map_append, paths_append, List.nodup_append] at hnodup
  have hne : out ≠ formIndexFileName out := by simpa [paths] using hnodup.2.1
  exact hne.symm

/-- The current segment changes, and with it only the two files that are open. -/
theorem replace {d : Disk} (h : Keeps env s (files ++ [(out, l)]))
    (hcreated : d.created = s.disk.created) (hremoved : d.removed = s.disk.removed)
    (hother : ∀ q, q ≠ out → q ≠ formIndexFileName out → d.content? q = s.disk.content? q)
    (hcur : d.Holds env (out, l')) : Keeps env { s with disk := d } (files ++ [(out, l')]) := by
  refine ⟨by simpa using h.metricOut, ?_, ?_, fun f hf => ?_, by simpa using hcur⟩
  · simpa using hcreated.trans h.created
  · show d.created.Nodup
    rw [hcreated]
    exact h.nodup
  · rcases List.mem_append.mp hf with hf | hf
    · have hmem : ∀ q, q = f.1 ∨ q = formIndexFileName f.1 → d.content? q = s.disk.content? q := by
        intro q hq
        have hp : q ∈ paths (files.map Prod.fst) :=
          List.mem_flatMap.mpr ⟨f.1, List.mem_map_of_mem hf, by simpa using hq⟩
        exact hother _ (h.ne_of_mem hp (.inl rfl)) (h.ne_of_mem hp (.inr rfl))
      rcases h.holds f (List.mem_append_left _ hf) with ⟨h1, h2⟩ | ⟨h1, h2⟩
      · exact .inl ⟨(hmem _ (.inl rfl)).trans h1, hremoved ▸ h2⟩
      · exact .inr ⟨(hmem _ (.inl rfl)).trans h1, (hmem _ (.inr rfl)).trans h2⟩
    · obtain rfl : f = (out, l') := by simpa using hf
      exact .inr hcur

/-- An index entry is stored with the length of the metric file. -/
theorem writeIndex (h : Keeps env s (files ++ [(out, l)])) (k : ℤ) :
    Keeps env (s.writeIndex k s.tellp) (files ++ [(out, l ++ [.entry k])]) := by
  rw [h.tellp, LogState.writeIndex, h.metricOut_concat]
  refine h.replace rfl rfl (fun q _ hq => by simp [hq]) ⟨?_, ?_⟩
  · rw [Disk.content?_append, if_neg h.index_ne.symm, h.holds_concat.1, metricText_append]
    simp [metricText]
  · rw [Disk.content?_append, if_pos rfl, h.holds_concat.2, Option.map_some, indexText_concat_entry]
    rfl

/-- Lines go to the open file. -/
theorem put (h : Keeps env s (files ++ [(out, l)])) (xs : List MetricItem) :
    Keeps env (s.put (unlines (xs.map (MetricItem.toFatString env.formatTime))))
      (files ++ [(out, l ++ xs.map .item)]) := by
  rw [LogState.put, h.metricOut_concat]
  refine h.replace rfl rfl (fun q hq _ => by simp [hq]) ⟨?_, ?_⟩
  · rw [Disk.content?_append, if_pos rfl, h.holds_concat.1, Option.map_some, metricText_append,
      metricText, metricText, items_map_item]
    rfl
  · rw [Disk.content?_append, if_neg h.index_ne, h.holds_concat.2, indexText_append_items]

/-- Removing files takes whole segments away. -/
theorem removeMoreFiles (h : Keeps env s files) :
    ∀ f ∈ files, (s.removeMoreFiles env).disk.Gone f ∨ (s.removeMoreFiles env).disk.Holds env f := by
  obtain ⟨-, -, l, hremoved, hcontent, hindex⟩ := LogState.removeMoreFiles_spec env s
  intro f hf
  by_cases hmem : f.1 ∈ paths l
  · exact .inl ⟨by rw [hcontent, if_pos hmem], by rw [hremoved]; exact List.mem_append_right _ hmem⟩
  · have hmem' := index_not_mem_paths hindex hmem
    rcases h.holds f hf with ⟨h1, h2⟩ | ⟨h1, h2⟩
    · exact .inl ⟨by rw [hcontent, if_neg hmem, h1], by rw [hremoved]; exact List.mem_append_left _ h2⟩
    · exact .inr ⟨by rw [hcontent, if_neg hmem, h1], by rw [hcontent, if_neg hmem', h2]⟩

/-- A new file starts an empty segment. -/
theorem closeAndNewFile (h : Keeps env s files) {p : Text}
    (hnodup : (s.closeAndNewFile env p).disk.created.Nodup) :
    Keeps env (s.closeAndNewFile env p) (files ++ [(p, [])]) := by
  have hcreated := LogState.closeAndNewFile_created env s p
  have hsplit : (s.disk.created ++ [p, formIndexFileName p]).Nodup := hcreated ▸ hnodup
  rw [List.nodup_append] at hsplit
  obtain ⟨-, hpair, hnew⟩ := hsplit
  have hne : p ≠ formIndexFileName p := by simpa using hpair
  have hold := h.removeMoreFiles
  have hopen : (s.closeAndNewFile env p).disk.Holds env (p, []) := by
    refine ⟨?_, ?_⟩
    · simp [LogState.closeAndNewFile, hne, metricText]
    · simp [LogState.closeAndNewFile, indexText, offsets]
  refine ⟨by simp [LogState.closeAndNewFile], ?_, hnodup, fun f hf => ?_, by simpa using hopen⟩
  · rw [hcreated, h.created, List.map_append, paths_append]
    rfl
  · rcases List.mem_append.mp hf with hf | hf
    · have hsame : ∀ q, q = f.1 ∨ q = formIndexFileName f.1 →
          (s.closeAndNewFile env p).disk.content? q = (s.removeMoreFiles env).disk.content? q := by
        intro q hq
        have hq' : q ∈ s.disk.created := by
          rw [h.created]
          exact List.mem_flatMap.mpr ⟨f.1, List.mem_map_of_mem hf, by simpa using hq⟩
        have h1 : q ≠ p := hnew q hq' p (by simp)
        have h2 : q ≠ formIndexFileName p := hnew q hq' _ (by simp)
        simp [LogState.closeAndNewFile, h1, h2]
      rcases hold f hf with ⟨h1, h2⟩ | ⟨h1, h2⟩
      · exact .inl ⟨(hsame _ (.inl rfl)).trans h1, h2⟩
      · exact .inr ⟨(hsame _ (.inl rfl)).trans h1, (hsame _ (.inr rfl)).trans h2⟩
    · obtain rfl : f = (p, []) := by simpa using hf
      exact .inr hopen

/-- `DoWrite` adds the items; a new file may be open afterwards. -/
theorem doWrite (h : Keeps env s (files ++ [(out, l)])) {time : ℤ} {xs : List MetricItem}
    (hnodup : (s.doWrite env time xs).disk.created.Nodup) :
    ∃ files' f, Keeps env (s.doWrite env time xs) (files' ++ [f]) ∧
      logOf (files' ++ [f]) = logOf (files ++ [(out, l)]) ++ xs.map .item := by
  have hput := h.put xs
  unfold LogState.doWrite at hnodup ⊢
  dsimp only at hnodup ⊢
  split_ifs at hnodup ⊢ with hsize
  · exact ⟨_, _, hput.closeAndNewFile hnodup, by simp⟩
  · exact ⟨_, _, hput, by simp⟩

/-- The writer without a file creates its first one. -/
theorem ensureOpen (h : Keeps env s files) {time : ℤ}
    (hnodup : (s.ensureOpen env time).disk.created.Nodup) :
    ∃ files' f, Keeps env (s.ensureOpen env time) (files' ++ [f]) ∧
      logOf (files' ++ [f]) = logOf files := by
  unfold LogState.ensureOpen at hnodup ⊢
  split_ifs at hnodup ⊢ with hout
  · let s' : LogState := { s with writer := { s.writer with baseFileName := formMetricFileName env } }
    have h' : Keeps env s' files := h.of_eq rfl rfl
    exact ⟨_, _, h'.closeAndNewFile hnodup, by simp⟩
  · cases files using List.reverseRecOn with
    | nil =>
      rw [h.metricOut] at hout
      exact absurd rfl hout
    | append_singleton files f => exact ⟨files, f, h, rfl⟩

/-- The first write of a day opens a new file; the log stays the same. -/
theorem rollOnNewDay (h : Keeps env s (files ++ [(out, l)])) {time second : ℤ}
    (hnodup : (s.rollOnNewDay env time second).disk.created.Nodup) :
    ∃ files' f', Keeps env (s.rollOnNewDay env time second) (files' ++ [f']) ∧
      logOf (files' ++ [f']) = logOf (files ++ [(out, l)]) := by
  unfold LogState.rollOnNewDay at hnodup ⊢
  split_ifs at hnodup ⊢ with hday
  · exact ⟨_, _, h.closeAndNewFile hnodup, by simp⟩
  · exact ⟨files, (out, l), h, rfl⟩

end Keeps

/-! ### Runs of the writer -/

/-- The segments form a log of the written items, with seconds up to `k`. -/
structure LogUpTo (env : LogEnv) (s : LogState) (files : List (Text × Segment))
    (written : List MetricItem) (k : ℤ) : Prop where
  keeps : Keeps env s files
  isLog : IsLog MetricItem.second (logOf files)
  items : items (logOf files) = written
  bound : ∀ m ∈ logOf files, m.key MetricItem.second ≤ k

namespace LogUpTo

variable {env : LogEnv} {s s' : LogState} {files files' : List (Text × Segment)} {f : Text × Segment}
  {written : List MetricItem} {k k' : ℤ}

theorem mono (h : LogUpTo env s files written k) (hk : k ≤ k') : LogUpTo env s files written k' :=
  ⟨h.keeps, h.isLog, h.items, fun m hm => (h.bound m hm).trans hk⟩

theorem congr (h : LogUpTo env s files written k) (hkeeps : Keeps env s' files')
    (hlog : logOf files' = logOf files) : LogUpTo env s' files' written k :=
  ⟨hkeeps, hlog ▸ h.isLog, hlog ▸ h.items, hlog ▸ h.bound⟩

/-- The index entry of the current second. -/
theorem writeIndex (h : LogUpTo env s (files ++ [f]) written k) :
    ∃ f', LogUpTo env (s.writeIndex k s.tellp) (files ++ [f']) written k ∧
      Mark.entry k ∈ logOf (files ++ [f']) := by
  obtain ⟨out, l⟩ := f
  have hlog : logOf (files ++ [(out, l ++ [.entry k])]) = logOf (files ++ [(out, l)]) ++ [.entry k] := by
    simp
  refine ⟨(out, l ++ [.entry k]), ⟨h.keeps.writeIndex k, ?_, ?_, fun m hm => ?_⟩, by simp⟩
  · rw [hlog]
    exact h.isLog.concat h.bound (by simp)
  · rw [hlog, items_append, h.items]
    simp
  · rw [hlog] at hm
    rcases List.mem_append.mp hm with hm | hm
    · exact h.bound m hm
    · obtain rfl : m = .entry k := by simpa using hm
      exact le_rfl

/-- After `indexFirstWrite` the current second has an index entry, if only a writer that still waits
for its first write lacks one. -/
theorem indexFirstWrite (h : LogUpTo env s (files ++ [f]) written k)
    (hmark : s.writer.firstWrite = false → Mark.entry k ∈ logOf (files ++ [f])) :
    ∃ f', LogUpTo env (s.indexFirstWrite k) (files ++ [f']) written k ∧
      Mark.entry k ∈ logOf (files ++ [f']) := by
  unfold LogState.indexFirstWrite
  split_ifs with hfirst
  · let s' : LogState := { s with writer := { s.writer with firstWrite := false } }
    have h' : LogUpTo env s' (files ++ [f]) written k := h.congr (h.keeps.of_eq rfl rfl) rfl
    exact h'.writeIndex
  · exact ⟨f, h, hmark (by simpa using hfirst)⟩

/-- A new day opens a new file; the log stays the same. -/
theorem rollOnNewDay (h : LogUpTo env s (files ++ [f]) written k) {time second : ℤ}
    (hnodup : (s.rollOnNewDay env time second).disk.created.Nodup) :
    ∃ files' f', LogUpTo env (s.rollOnNewDay env time second) (files' ++ [f']) written k ∧
      logOf (files' ++ [f']) = logOf (files ++ [f]) := by
  obtain ⟨files', f', hkeeps, hlog⟩ := h.keeps.rollOnNewDay hnodup
  exact ⟨files', f', h.congr hkeeps hlog, hlog⟩

/-- The lines of the current second, once it has an index entry. -/
theorem doWrite (h : LogUpTo env s (files ++ [f]) written k)
    (hmark : Mark.entry k ∈ logOf (files ++ [f])) {time : ℤ} {xs : List MetricItem}
    (hxs : ∀ x ∈ xs, x.second = k) (hnodup : (s.doWrite env time xs).disk.created.Nodup) :
    ∃ files', LogUpTo env (s.doWrite env time xs) files' (written ++ xs) k ∧
      Mark.entry k ∈ logOf files' := by
  obtain ⟨files', f', hkeeps, hlog⟩ := h.keeps.doWrite hnodup
  refine ⟨files' ++ [f'], ⟨hkeeps, ?_, ?_, fun m hm => ?_⟩, ?_⟩
  · rw [hlog]
    exact h.isLog.append_items hxs h.bound hmark
  · rw [hlog, items_append, items_map_item, h.items]
  · rw [hlog] at hm
    rcases List.mem_append.mp hm with hm | hm
    · exact h.bound m hm
    · obtain ⟨x, hx, rfl⟩ := List.mem_map.mp hm
      exact (hxs x hx).le
  · rw [hlog]
    exact List.mem_append_left _ hmark

end LogUpTo

/-- The items are of the second of their call. -/
def WriteCall.Dated (c : WriteCall) : Prop := ∀ x ∈ c.items, x.second = c.second

instance (c : WriteCall) : Decidable c.Dated :=
  inferInstanceAs (Decidable (∀ x ∈ c.items, x.second = c.second))

/-- They are whenever the call sets their time. -/
theorem WriteCall.dated {c : WriteCall} (h : c.time ≠ -1) : c.Dated := by
  intro x hx
  rw [WriteCall.items, if_pos h] at hx
  obtain ⟨y, -, rfl⟩ := List.mem_map.mp hx
  rfl

/-- After the items `written`: the log reaches up to the writer's last second, and that second has an
index entry unless the writer still waits for its first write of a second already begun. -/
structure Logged (env : LogEnv) (s : LogState) (files : List (Text × Segment))
    (written : List MetricItem) : Prop where
  log : LogUpTo env s files written s.writer.lastSecond
  marked : s.writer.firstWrite = false → Mark.entry s.writer.lastSecond ∈ logOf files

namespace Logged

variable {env : LogEnv} {s : LogState} {files : List (Text × Segment)} {written : List MetricItem}

/-- A writer that has not written yet. -/
theorem start (env : LogEnv) (singleFileSize totalFileCount now : ℤ) (d : Disk) :
    Logged env (.start env singleFileSize totalFileCount now d) [] [] :=
  ⟨⟨⟨rfl, rfl, List.nodup_nil, by simp, by simp⟩, .nil, rfl, by simp⟩,
    by simp [LogState.start, MetricWriter.mk']⟩

/-- **Each call of `Write` extends the log** by its items. -/
theorem write (h : Logged env s files written) (c : WriteCall) (hitems : c.Dated)
    (hle : s.writer.lastSecond ≤ c.second)
    (hnodup : (s.write env c.time c.nodes).disk.created.Nodup) :
    (s.write env c.time c.nodes).writer.lastSecond = c.second ∧
      ∃ files', Logged env (s.write env c.time c.nodes) files' (written ++ c.items) := by
  rcases LogState.write_cases env s c with ⟨hlt, -⟩ | ⟨heq, hw⟩ | ⟨hlt, s₁, hs₁, hd, hw⟩
  · exact absurd hlt (not_lt.mpr hle)
  · -- the same second: it has an index entry, or gets one now
    rw [hw] at hnodup ⊢
    obtain ⟨files₁, f₁, hopen, hlog⟩ := h.log.keeps.ensureOpen
      (((LogState.grows_indexFirstWrite _ _).trans (LogState.grows_doWrite env _ _ _)).nodup hnodup)
    have h₁ := h.log.congr hopen hlog
    rw [← heq] at h₁
    obtain ⟨f₂, h₂, hmark⟩ := h₁.indexFirstWrite fun hfirst => by
      rw [hlog, heq]
      exact h.marked (by simpa using hfirst)
    obtain ⟨files', h', hmark'⟩ := h₂.doWrite hmark hitems hnodup
    have hlast : (((s.ensureOpen env c.time).indexFirstWrite c.second).doWrite env c.time
        c.items).writer.lastSecond = c.second := by simp [heq]
    exact ⟨hlast, files', ⟨by rw [hlast]; exact h', fun _ => by rw [hlast]; exact hmark'⟩⟩
  · -- a later second: the entry is written before the day may change
    have hlast : (s.write env c.time c.nodes).writer.lastSecond = c.second := by rw [hw]
    rw [hd] at hnodup
    have hroll := (LogState.grows_doWrite env _ _ _).nodup hnodup
    have hindex := (LogState.grows_rollOnNewDay env _ _ _).nodup hroll
    rw [hs₁] at hindex
    obtain ⟨files₁, f₁, hopen, hlog⟩ := h.log.keeps.ensureOpen
      ((LogState.grows_writeIndex _ _ _).nodup hindex)
    obtain ⟨f₂, h₂, hmark⟩ := ((h.log.congr hopen hlog).mono hlt.le).writeIndex
    rw [← hs₁] at h₂
    obtain ⟨files₃, f₃, h₃, hlog₃⟩ := h₂.rollOnNewDay hroll
    obtain ⟨files', h', hmark'⟩ := h₃.doWrite (hlog₃ ▸ hmark) hitems hnodup
    refine ⟨hlast, files', ⟨?_, fun _ => by rw [hlast]; exact hmark'⟩⟩
    rw [hlast]
    exact h'.congr (h'.keeps.of_eq (by rw [hw]) hd) rfl

/-- **The log after any number of calls** whose seconds never decrease. -/
theorem writes {calls : List WriteCall} (h : Logged env s files written)
    (hdated : ∀ c ∈ calls, c.Dated)
    (hle : (s.writer.lastSecond :: calls.map WriteCall.second).IsChain (· ≤ ·))
    (hnodup : (s.writes env calls).disk.created.Nodup) :
    ∃ files', Logged env (s.writes env calls) files' (written ++ calls.flatMap WriteCall.items) := by
  induction calls generalizing s files written with
  | nil => exact ⟨files, by simpa [LogState.writes] using h⟩
  | cons c calls ih =>
    rw [List.map_cons, List.isChain_cons_cons] at hle
    have hgrows : (s.write env c.time c.nodes).disk.Grows
        ((s.write env c.time c.nodes).writes env calls).disk := LogState.grows_writes env _ _
    obtain ⟨hlast, files₁, h₁⟩ := h.write c (hdated c (by simp)) hle.1 (hgrows.nodup hnodup)
    obtain ⟨files', h'⟩ := ih h₁ (fun c' hc' => hdated c' (by simp [hc'])) (by rw [hlast]; exact hle.2)
      hnodup
    refine ⟨files', ?_⟩
    rw [List.flatMap_cons, ← List.append_assoc]
    exact h'

end Logged

end SentinelCpp.Log
