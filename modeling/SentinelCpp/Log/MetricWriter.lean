import SentinelCpp.Lib.Assoc
import SentinelCpp.Lib.TextOrder
import SentinelCpp.Stat.MetricItem

/-!
# The metric log writer

`MetricWriter` appends the lines of a second to the current metric file and one entry (second, offset)
to its index.  A file is replaced by a new one when it has grown too long and when the day changes.
The disk keeps, besides the files, which paths have been created and removed.
-/

namespace SentinelCpp.Log

open Lib Stat

/-- What the code takes from its surroundings: the log directory, the application, the local time zone
(the dates and times it prints, and the second that is midnight, 1970-01-01) and the order in which a
directory is listed. -/
structure LogEnv where
  baseDir : Text
  appName : Text
  logNameUsePid : Bool
  pid : ℤ
  timeSecondBase : ℤ
  formatDate : ℤ → Text
  formatDate_plain : ∀ t, '-' ∈ formatDate t ∧ ∀ c ∈ formatDate t, c.isDigit = true ∨ c = '-'
  formatTime : ℤ → Text
  formatTime_plain : ∀ t, '|' ∉ formatTime t ∧ '\n' ∉ formatTime t
  dirOrder : IterationOrder Text

/-! A zone with fixed offset zero -/

/-- The date in UTC, `yyyy-MM-dd`: eras of 400 years that begin on March 1. -/
def utcDate (ms : ℤ) : Text :=
  let z := ms / 86400000 + 719468
  let doe := z % 146097
  let yoe := (doe - doe / 1460 + doe / 36524 - doe / 146096) / 365
  let doy := doe - (365 * yoe + yoe / 4 - yoe / 100)
  let mp := (5 * doy + 2) / 153
  let month := if mp < 10 then mp + 3 else mp - 9
  let year := yoe + z / 146097 * 400 + if month ≤ 2 then 1 else 0
  padded 4 year ++ ['-'] ++ padded 2 month ++ ['-'] ++ padded 2 (doy - (153 * mp + 2) / 5 + 1)

/-- The date and the time in UTC, `yyyy-MM-dd HH:mm:ss`. -/
def utcTime (ms : ℤ) : Text :=
  let second := ms / 1000 % 86400
  utcDate ms ++ [' '] ++ padded 2 (second / 3600) ++ [':'] ++ padded 2 (second / 60 % 60) ++ [':'] ++
    padded 2 (second % 60)

theorem mem_padded {c : Char} {width : ℕ} {n : ℤ} (h : c ∈ padded width n) :
    c.isDigit = true ∨ c = '-' := by
  by_contra hc
  rw [not_or, Bool.not_eq_true] at hc
  exact not_mem_padded hc.1 hc.2 width n h

theorem mem_utcDate {c : Char} {ms : ℤ} (h : c ∈ utcDate ms) : c.isDigit = true ∨ c = '-' := by
  simp only [utcDate, List.mem_append, List.mem_singleton] at h
  rcases h with (((h | h) | h) | h) | h
  · exact mem_padded h
  · exact .inr h
  · exact mem_padded h
  · exact .inr h
  · exact mem_padded h

theorem not_mem_utcTime {c : Char} (hd : c.isDigit = false) (hc : c ∉ ['-', ' ', ':']) (ms : ℤ) :
    c ∉ utcTime ms := by
  simp only [List.mem_cons, List.not_mem_nil, or_false, not_or] at hc
  simp only [utcTime, utcDate, List.mem_append, List.mem_singleton, not_mem_padded hd hc.1, hc, or_self,
    not_false_eq_true]

/-- Surroundings in UTC, with files listed in the order of their creation. -/
def LogEnv.utc (baseDir appName : String) : LogEnv where
  baseDir := baseDir.toList
  appName := appName.toList
  logNameUsePid := false
  pid := 0
  timeSecondBase := 0
  formatDate := utcDate
  formatDate_plain t := ⟨by simp [utcDate], fun _ hc => mem_utcDate hc⟩
  formatTime := utcTime
  formatTime_plain t := ⟨not_mem_utcTime (by decide) (by decide) t, not_mem_utcTime (by decide) (by decide) t⟩
  dirOrder := .insertion Text

/-! ### The disk -/

/-- The files of the disk by path, with a record of the paths created and removed. -/
structure Disk where
  files : Assoc Text Text := []
  nodup : (files.map Prod.fst).Nodup := by simp
  created : List Text := []
  removed : List Text := []

namespace Disk

/-- The disk before the first writer is made. -/
def empty : Disk := {}

def content? (d : Disk) (path : Text) : Option Text := d.files.find? path

/-- Open a file for writing: it is created if it is not there, and emptied. -/
def openOut (d : Disk) (path : Text) : Disk where
  files := (d.files.insertNew path []).modify path fun _ => []
  nodup := by
    rw [Assoc.keys_modify]
    exact Assoc.nodup_insertNew d.nodup path []
  created := d.created ++ [path]
  removed := d.removed

def append (d : Disk) (path text : Text) : Disk where
  files := d.files.modify path (· ++ text)
  nodup := by
    rw [Assoc.keys_modify]
    exact d.nodup
  created := d.created
  removed := d.removed

def remove (d : Disk) (path : Text) : Disk where
  files := d.files.filter fun f => f.1 ≠ path
  nodup := (List.filter_sublist.map _).nodup d.nodup
  created := d.created
  removed := d.removed ++ [path]

variable {d : Disk} {path q : Text}

@[simp] theorem content?_openOut :
    (d.openOut path).content? q = if q = path then some [] else d.content? q := by
  unfold content? openOut
  dsimp only
  rw [Assoc.find?_modify, Assoc.find?_insertNew]
  split_ifs <;> simp_all

@[simp] theorem content?_append {text : Text} :
    (d.append path text).content? q =
      if q = path then (d.content? q).map (· ++ text) else d.content? q := by
  unfold content? append
  dsimp only
  rw [Assoc.find?_modify]

@[simp] theorem content?_remove :
    (d.remove path).content? q = if q = path then none else d.content? q := by
  unfold content? remove
  dsimp only
  rw [Assoc.find?_filter_key d.files fun p => decide (p ≠ path)]
  by_cases hq : q = path <;> simp [hq]

@[simp] theorem openOut_created : (d.openOut path).created = d.created ++ [path] := rfl
@[simp] theorem openOut_removed : (d.openOut path).removed = d.removed := rfl
@[simp] theorem append_created (text : Text) : (d.append path text).created = d.created := rfl
@[simp] theorem append_removed (text : Text) : (d.append path text).removed = d.removed := rfl
@[simp] theorem remove_created : (d.remove path).created = d.created := rfl
@[simp] theorem remove_removed : (d.remove path).removed = d.removed ++ [path] := rfl

/-- The names of the files in a directory. -/
def listFiles (order : IterationOrder Text) (d : Disk) (dir : Text) : List Text :=
  order.order (d.files.filterMap fun f =>
    if dir <+: f.1 ∧ '/' ∉ f.1.drop dir.length then some (f.1.drop dir.length) else none)

end Disk

/-! ### File names -/

def kMetricFile : Text := "metrics.log".toList
def kMetricIndexFileSuffix : Text := ".idx".toList

/-- `FormMetricFileName`. -/
def formMetricFileName (env : LogEnv) : Text :=
  let formAppName := env.appName.map fun c => if c = '.' then '-' else c
  let fileName := formAppName ++ ['-'] ++ kMetricFile
  if env.logNameUsePid then fileName ++ ".pid".toList ++ decimal env.pid else fileName

def formIndexFileName (metricFileName : Text) : Text := metricFileName ++ kMetricIndexFileSuffix

/-- The order of metric files: by date, then by length, then by name.  (`getD` stands for an index out
of range.) -/
def metricFileNameComparator (name1 name2 : Text) : Bool :=
  let l1 := name1.splitOn '.'
  let l2 := name2.splitOn '.'
  let field := if "pid".toList <+: l1.getD 2 [] then 3 else 2
  let date1 := l1.getD field []
  let date2 := l2.getD field []
  if date1 ≠ date2 then date1 < date2
  else if name1.length ≠ name2.length then name1.length < name2.length
  else name1 < name2

/-- `std::sort` with the comparator. -/
def sortFiles (files : List Text) : List Text :=
  files.insertionSort fun a b => metricFileNameComparator b a = false

/-- The end of a name after the date: nothing, or a dot and digits. -/
def matchesNumber : Text → Bool
  | [] => true
  | '.' :: digits => digits.all Char.isDigit
  | _ => false

/-- A dot, a date `yyyy-MM-dd` and possibly a number. -/
def matchesDate : Text → Bool
  | '.' :: y1 :: y2 :: y3 :: y4 :: '-' :: m1 :: m2 :: '-' :: d1 :: d2 :: rest =>
    [y1, y2, y3, y4, m1, m2, d1, d2].all Char.isDigit && matchesNumber rest
  | _ => false

def fileNameMatches (fileName baseFileName : Text) : Bool :=
  baseFileName <+: fileName && matchesDate (fileName.drop baseFileName.length)

/-- The name of an index or of a lock file. -/
def isIndexOrLock (fileName : Text) : Bool :=
  kMetricIndexFileSuffix <:+ fileName || ".lck".toList <:+ fileName

/-- `ListMetricFiles`. -/
def listMetricFiles (order : IterationOrder Text) (d : Disk) (baseDir baseFileName : Text) :
    List Text :=
  sortFiles (((d.listFiles order baseDir).filter fun n =>
    fileNameMatches n baseFileName && !isIndexOrLock n).map (baseDir ++ ·))

/-! ### The writer -/

structure MetricWriter where
  singleFileSize : ℤ
  totalFileCount : ℤ
  baseDir : Text
  baseFileName : Text
  metricOut : Option Text := none
  timeSecondBase : ℤ
  lastSecond : ℤ
  firstWrite : Bool := true

/-- The constructor, at time `now`. -/
def MetricWriter.mk' (env : LogEnv) (singleFileSize totalFileCount now : ℤ) : MetricWriter where
  singleFileSize := singleFileSize
  totalFileCount := totalFileCount
  baseDir := env.baseDir
  baseFileName := formMetricFileName env
  timeSecondBase := env.timeSecondBase
  lastSecond := now.tdiv 1000

/-- A writer and the disk it writes to. -/
structure LogState where
  writer : MetricWriter
  disk : Disk

namespace LogState

variable (env : LogEnv) (s : LogState)

/-- `NextFileNameOfDay`: the next number after that of the last file of the day. -/
def nextFileNameOfDay (time : ℤ) : Text :=
  let w := s.writer
  let fileNameModel := w.baseFileName ++ ['.'] ++ env.formatDate time
  let files := ((s.disk.listFiles env.dirOrder w.baseDir).filter fun n =>
    fileNameModel <:+: n && !isIndexOrLock n).map (w.baseDir ++ ·)
  match (sortFiles files).getLast? with
  | none => w.baseDir ++ fileNameModel
  | some lastFileName =>
    let lastField := ((lastFileName.splitOn '.').getLast?).getD []
    let n :=
      if lastField ≠ [] ∧ lastField.length ≤ 10 ∧ lastField.all Char.isDigit = true then
        toInt32 ((simpleAtoi lastField).getD 0)
      else 0
    w.baseDir ++ fileNameModel ++ ['.'] ++ decimal (toInt32 (n + 1))

/-- `RemoveMoreFiles`: the oldest files beyond the total count go (a negative count is compared as a
large one). -/
def removeMoreFiles : LogState :=
  let w := s.writer
  let list := listMetricFiles env.dirOrder s.disk w.baseDir w.baseFileName
  if list = [] ∨ (list.length : ℤ) ≤ w.totalFileCount % 2 ^ 64 then s
  else
    let diff := toInt32 (list.length - w.totalFileCount % 2 ^ 64)
    { s with
      disk := (list.take diff.toNat).foldl
        (fun d path => (d.remove path).remove (formIndexFileName path)) s.disk }

/-- `CloseAndNewFile`. -/
def closeAndNewFile (fileName : Text) : LogState :=
  let s := s.removeMoreFiles env
  { writer := { s.writer with metricOut := some fileName }
    disk := (s.disk.openOut fileName).openOut (formIndexFileName fileName) }

/-- `metric_out_.tellp()`: the length of the metric file. -/
def tellp : ℕ :=
  match s.writer.metricOut with
  | none => 0
  | some out => ((s.disk.content? out).getD []).length

/-- `metric_out_ << text`. -/
def put (text : Text) : LogState :=
  match s.writer.metricOut with
  | none => s
  | some out => { s with disk := s.disk.append out text }

/-- `WriteIndex`. -/
def writeIndex (time offset : ℤ) : LogState :=
  match s.writer.metricOut with
  | none => s
  | some out =>
    let line := decimal time ++ [' '] ++ decimal offset
    { s with disk := s.disk.append (formIndexFileName out) (unlines [line]) }

def isExceedMaxSingleFileSize : Bool := s.writer.singleFileSize ≤ s.tellp

def isNewDay (lastSecond second : ℤ) : Bool :=
  (lastSecond - s.writer.timeSecondBase).tdiv 86400 < (second - s.writer.timeSecondBase).tdiv 86400

/-- `DoWrite`. -/
def doWrite (time : ℤ) (nodes : List MetricItem) : LogState :=
  let s := s.put (unlines (nodes.map (MetricItem.toFatString env.formatTime)))
  if s.isExceedMaxSingleFileSize then s.closeAndNewFile env (s.nextFileNameOfDay env time) else s

/-- The first file is created by the first call. -/
def ensureOpen (time : ℤ) : LogState :=
  if s.writer.metricOut.isNone then
    let s := { s with writer := { s.writer with baseFileName := formMetricFileName env } }
    s.closeAndNewFile env (s.nextFileNameOfDay env time)
  else s

/-- The index entry of the first write of a second that had begun before. -/
def indexFirstWrite (second : ℤ) : LogState :=
  if s.writer.firstWrite then
    let s := { s with writer := { s.writer with firstWrite := false } }
    s.writeIndex second s.tellp
  else s

/-- The first write of a day goes to a new file. -/
def rollOnNewDay (time second : ℤ) : LogState :=
  if s.isNewDay s.writer.lastSecond second then s.closeAndNewFile env (s.nextFileNameOfDay env time)
  else s

/-- `Write`. -/
def write (time : ℤ) (nodes : List MetricItem) : LogState :=
  let nodes := if time ≠ -1 then nodes.map fun x => { x with timestamp := time } else nodes
  let s := s.ensureOpen env time
  let second := time.tdiv 1000
  if second < s.writer.lastSecond then s
  else if second = s.writer.lastSecond then (s.indexFirstWrite second).doWrite env time nodes
  else
    let s := s.writeIndex second s.tellp
    let s := (s.rollOnNewDay env time second).doWrite env time nodes
    { s with writer := { s.writer with lastSecond := second } }

end LogState

/-- A call of `Write`: its arguments are 64-bit values. -/
structure WriteCall where
  time : ℤ
  nodes : List MetricItem
  fits : InInt64 time ∧ ∀ x ∈ nodes, x.Fits

namespace WriteCall

def second (c : WriteCall) : ℤ := c.time.tdiv 1000

/-- The items as they are written: with the time of the call, or with their own when it is −1. -/
def items (c : WriteCall) : List MetricItem :=
  if c.time ≠ -1 then c.nodes.map fun x => { x with timestamp := c.time } else c.nodes

end WriteCall

/-- A new writer, created at time `now`; the record of the disk starts here. -/
def LogState.start (env : LogEnv) (singleFileSize totalFileCount now : ℤ) (d : Disk) : LogState :=
  ⟨.mk' env singleFileSize totalFileCount now, { d with created := [], removed := [] }⟩

/-- The calls, one after the other. -/
def LogState.writes (env : LogEnv) (s : LogState) (calls : List WriteCall) : LogState :=
  calls.foldl (fun s c => s.write env c.time c.nodes) s

end SentinelCpp.Log
