import SentinelCpp.Log.MetricReader

/-!
# Searching the metric log

`MetricSearcher` finds the first index entry that is late enough, file by file in the listed order,
and reads from the offset of that entry.  It keeps the position of the last search and starts from it
when it is still valid.  A local variable that is read before it is assigned has an arbitrary value
(`Junk`).
-/

namespace SentinelCpp.Log

open Lib Stat

structure Position where
  metricFileName : Text := []
  indexFileName : Text := []
  offsetInIndex : ℤ := -1
  second : ℤ := -1

/-- The values of the variables without initial value: `sec` in `ValidPosition`, and `second` in
`FindOffset` on each index file. -/
structure Junk where
  sec : ℤ
  second : Text → ℤ

structure MetricSearcher where
  baseDir : Text
  baseFileName : Text
  lastPos : Position := {}

/-- `FindOffset`'s loop over the index, from the variables `second` and `tmp_offset`: the offset found
(−1 for none) and the cached offset in the index.  Each round reads at least one character or fails. -/
def scanIndex (beginSecond : ℤ) : ℕ → IStream → ℤ → ℤ → ℤ → ℤ × ℤ
  | 0, _, _, _, offsetInIndex => (-1, offsetInIndex)
  | fuel + 1, input, second, tmpOffset, offsetInIndex =>
    if input.eof || input.fail then (-1, offsetInIndex)
    else
      let r1 := input.extractInt second
      let r2 := r1.2.extractInt tmpOffset
      if r1.1 < beginSecond then scanIndex beginSecond fuel r2.2 r1.1 r2.1 r2.2.tellg
      else (r2.1, offsetInIndex)

namespace MetricSearcher

variable (junk : Junk) (order : IterationOrder Text) (m : MetricSearcher) (d : Disk)

/-- `ValidPosition`. -/
def validPosition (beginTimeMs : ℤ) : Bool :=
  if beginTimeMs.tdiv 1000 < m.lastPos.second then false
  else if m.lastPos.indexFileName = [] then false
  else
    match d.content? m.lastPos.indexFileName with
    | none => false
    | some text =>
      (((IStream.mk text 0 false false).seekg m.lastPos.offsetInIndex).extractInt junk.sec).1 =
        m.lastPos.second

/-- `FindOffset`. -/
def findOffset (beginTimeMs : ℤ) (metricFileName idxFileName : Text) (offsetInIndex : ℤ) :
    MetricSearcher × ℤ :=
  let pos := { m.lastPos with metricFileName := [], indexFileName := [] }
  match d.content? idxFileName with
  | none => ({ m with lastPos := pos }, -1)
  | some text =>
    let r := scanIndex (beginTimeMs.tdiv 1000) (text.length + 1)
      ((IStream.mk text 0 false false).seekg offsetInIndex) (junk.second idxFileName) (-1)
      pos.offsetInIndex
    let pos := { pos with offsetInIndex := r.2 }
    let pos :=
      if r.1 ≠ -1 then { pos with metricFileName := metricFileName, indexFileName := idxFileName }
      else pos
    ({ m with lastPos := pos }, r.1)

/-- The loop of a search: the first file from `pos` on with an offset, and that offset. -/
def searchFiles (beginTimeMs : ℤ) : MetricSearcher → List Text → ℕ → ℤ →
    MetricSearcher × Option (ℕ × ℤ)
  | m, [], _, _ => (m, none)
  | m, fileName :: fileNames, pos, offsetInIndex =>
    let r := m.findOffset junk d beginTimeMs fileName (formIndexFileName fileName) offsetInIndex
    if r.2 ≠ -1 then (r.1, some (pos, r.2))
    else searchFiles beginTimeMs r.1 fileNames (pos + 1) 0

/-- The listed files and where in them a search starts reading, if anywhere. -/
def search (beginTimeMs : ℤ) : MetricSearcher × List Text × Option (ℕ × ℤ) :=
  let fileNames := listMetricFiles order d m.baseDir m.baseFileName
  let start :=
    if m.validPosition junk d beginTimeMs && m.lastPos.metricFileName ∈ fileNames then
      (fileNames.idxOf m.lastPos.metricFileName, m.lastPos.offsetInIndex)
    else (0, 0)
  let r := searchFiles junk d beginTimeMs m (fileNames.drop start.1) start.1 start.2
  (r.1, fileNames, r.2)

/-- The search starts at the cached position: it looks valid, and its file is listed. -/
def UsesPosition (beginTimeMs : ℤ) : Prop :=
  m.validPosition junk d beginTimeMs = true ∧
    m.lastPos.metricFileName ∈ listMetricFiles order d m.baseDir m.baseFileName

instance (beginTimeMs : ℤ) : Decidable (m.UsesPosition junk order d beginTimeMs) :=
  inferInstanceAs (Decidable (_ ∧ _))

/-- `Find`. -/
def find (beginTimeMs recommendLines : ℤ) : MetricSearcher × Option (List MetricItem) :=
  let r := m.search junk order d beginTimeMs
  (r.1,
    match r.2.2 with
    | none => some []
    | some (pos, offset) => readMetrics d r.2.1 pos offset recommendLines)

/-- `FindByTimeAndResource`. -/
def findByTimeAndResource (beginTimeMs endTimeMs : ℤ) (identity : String) :
    MetricSearcher × Option (List MetricItem) :=
  let r := m.search junk order d beginTimeMs
  (r.1,
    match r.2.2 with
    | none => some []
    | some (pos, offset) =>
      readMetricsByEndTime d r.2.1 pos offset beginTimeMs endTimeMs identity)

variable {junk order m d} {t : ℤ}

/-- Otherwise it starts at the first listed file. -/
theorem search_eq_of_not_usesPosition (h : ¬ m.UsesPosition junk order d t) :
    let names := listMetricFiles order d m.baseDir m.baseFileName
    let r := searchFiles junk d t m names 0 0
    m.search junk order d t = (r.1, names, r.2) := by
  have hstart : (m.validPosition junk d t && decide (m.lastPos.metricFileName ∈
      listMetricFiles order d m.baseDir m.baseFileName)) = false := by
    rw [← Bool.not_eq_true, Bool.and_eq_true, decide_eq_true_eq]
    exact h
  unfold search
  simp only [hstart, Bool.false_eq_true, if_false, List.drop_zero]

/-- A new searcher has no position. -/
theorem not_usesPosition_new (baseDir baseFileName : Text) :
    ¬ (⟨baseDir, baseFileName, {}⟩ : MetricSearcher).UsesPosition junk order d t := by
  rintro ⟨h, -⟩
  unfold validPosition at h
  split_ifs at h with h1 h2
  exact h2 rfl

end MetricSearcher

end SentinelCpp.Log
