import SentinelCpp.Log.MetricWriter

/-!
# Reading metric files

`MetricReader` reads items from a position in one file and from the files after it: either until
enough lines have been read and their last second is complete, or up to an end time.  `none` is the use
of an item that could not be parsed.
-/

namespace SentinelCpp.Log

open Lib Stat

def kMaxLinesReturn : ℕ := 100000

/-- The lines from an offset on; a negative offset makes the stream fail. -/
def linesFrom (text : Text) (offset : ℤ) : List Text :=
  if offset < 0 then [] else getLines (text.drop offset.toNat)

/-- `metric_vec.size() < recommend_lines`: the number is converted to an unsigned one. -/
def wantsMore (metricVec : List MetricItem) (recommendLines : ℤ) : Bool :=
  (metricVec.length : ℤ) < recommendLines % 2 ^ 64

/-- The loop over the lines of one file. -/
def readLines (recommendLines : ℤ) :
    List Text → List MetricItem → ℤ → Option (List MetricItem)
  | [], metricVec, _ => some metricVec
  | line :: lines, metricVec, lastSecond =>
    match MetricItem.fromFatString line with
    | none => none
    | some node =>
      if wantsMore metricVec recommendLines || node.second = lastSecond then
        readLines recommendLines lines (metricVec ++ [node]) node.second
      else some metricVec

/-- `ReadMetricsInOneFile`. -/
def readMetricsInOneFile (d : Disk) (metricVec : List MetricItem) (fileName : Text) (offset : ℤ)
    (recommendLines : ℤ) : Option (List MetricItem) :=
  match d.content? fileName with
  | none => some metricVec
  | some text =>
    readLines recommendLines (linesFrom text offset) metricVec
      ((metricVec.getLast?.map MetricItem.second).getD (-1))

/-- The files after the first one, read from their start while lines are missing. -/
def readFiles (d : Disk) (recommendLines : ℤ) :
    List Text → List MetricItem → Option (List MetricItem)
  | [], metricVec => some metricVec
  | fileName :: fileNames, metricVec =>
    if wantsMore metricVec recommendLines then
      (readMetricsInOneFile d metricVec fileName 0 recommendLines).bind
        (readFiles d recommendLines fileNames)
    else some metricVec

/-- `ReadMetrics`. -/
def readMetrics (d : Disk) (fileNames : List Text) (pos : ℕ) (offset : ℤ) (recommendLines : ℤ) :
    Option (List MetricItem) :=
  match fileNames.drop pos with
  | [] => some []
  | fileName :: fileNames =>
    (readMetricsInOneFile d [] fileName offset recommendLines).bind
      (readFiles d recommendLines fileNames)

/-- The loop over the lines of one file, up to an end time; the second component tells whether to go
on with the next file. -/
def readLinesByEndTime (beginSecond endSecond : ℤ) (identity : String) :
    List Text → List MetricItem → Option (List MetricItem × Bool)
  | [], metricVec => some (metricVec, true)
  | line :: lines, metricVec =>
    match MetricItem.fromFatString line with
    | none => none
    | some node =>
      if node.second < beginSecond then some (metricVec, false)
      else if node.second ≤ endSecond then
        let metricVec :=
          if identity = "" ∨ node.resource = identity then metricVec ++ [node] else metricVec
        if kMaxLinesReturn ≤ metricVec.length then some (metricVec, false)
        else readLinesByEndTime beginSecond endSecond identity lines metricVec
      else some (metricVec, false)

/-- `ReadMetricsInOneFileByEndTime`. -/
def readMetricsInOneFileByEndTime (d : Disk) (metricVec : List MetricItem) (fileName : Text)
    (offset beginTimeMs endTimeMs : ℤ) (identity : String) : Option (List MetricItem × Bool) :=
  match d.content? fileName with
  | none => some (metricVec, false)
  | some text =>
    readLinesByEndTime (beginTimeMs.tdiv 1000) (endTimeMs.tdiv 1000) identity (linesFrom text offset)
      metricVec

/-- The files after the first one, up to an end time. -/
def readFilesByEndTime (d : Disk) (beginTimeMs endTimeMs : ℤ) (identity : String) :
    List Text → List MetricItem × Bool → Option (List MetricItem)
  | [], r => some r.1
  | fileName :: fileNames, r =>
    if r.2 then
      (readMetricsInOneFileByEndTime d r.1 fileName 0 beginTimeMs endTimeMs identity).bind
        (readFilesByEndTime d beginTimeMs endTimeMs identity fileNames)
    else some r.1

/-- `ReadMetricsByEndTime`. -/
def readMetricsByEndTime (d : Disk) (fileNames : List Text) (pos : ℕ)
    (offset beginTimeMs endTimeMs : ℤ) (identity : String) : Option (List MetricItem) :=
  match fileNames.drop pos with
  | [] => some []
  | fileName :: fileNames =>
    (readMetricsInOneFileByEndTime d [] fileName offset beginTimeMs endTimeMs identity).bind
      (readFilesByEndTime d beginTimeMs endTimeMs identity fileNames)

end SentinelCpp.Log
