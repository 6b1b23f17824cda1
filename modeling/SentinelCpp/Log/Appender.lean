import SentinelCpp.Log.Complete

/-!
# The writer as an appender

What the writer is for, without its files: a log of index entries and items to which a call adds the
entry of a new second and its items; a call for a second before the last one adds nothing.  Whatever the
calls, their order and the files that are rolled and removed, the disk holds this log in segments
(`Refines`).  So the lookups find exactly the items of the calls that came in time (`kept`).
-/

namespace SentinelCpp.Log

open Lib Stat

/-- The log, the last second, and whether the writer still waits for a write of a second already begun. -/
structure Appender where
  lastSecond : ℤ
  firstWrite : Bool
  log : Segment

namespace Appender

def start (now : ℤ) : Appender where
  lastSecond := now.tdiv 1000
  firstWrite := true
  log := []

variable (a : Appender)

def write (c : WriteCall) : Appender :=
  if c.second < a.lastSecond then a
  else if c.second = a.lastSecond then
    { a with
      firstWrite := false
      log := a.log ++ (if a.firstWrite = true then [.entry c.second] else []) ++ c.items.map .item }
  else { a with lastSecond := c.second, log := a.log ++ [.entry c.second] ++ c.items.map .item }

def writes (calls : List WriteCall) : Appender := calls.foldl write a

end Appender

/-- The calls for a second that is not before the last one. -/
def kept : ℤ → List WriteCall → List WriteCall
  | _, [] => []
  | lastSecond, c :: calls =>
    if c.second < lastSecond then kept lastSecond calls else c :: kept c.second calls

theorem mem_of_mem_kept {k : ℤ} {calls : List WriteCall} {c : WriteCall} (h : c ∈ kept k calls) :
    c ∈ calls := by
  induction calls generalizing k with
  | nil => exact h
  | cons c' calls ih =>
    rw [kept] at h
    split_ifs at h
    · exact List.mem_cons_of_mem _ (ih h)
    · rcases List.mem_cons.mp h with rfl | h
      · exact List.mem_cons_self
      · exact List.mem_cons_of_mem _ (ih h)

/-! ### The log -/

namespace Appender

/-- **The log**: index entries and items in the order of their seconds, each item after the entry of its
second, with seconds from `low` up to the last one; and the last second has an entry unless the writer
waits for its first write. -/
structure Wf (a : Appender) (low : ℤ) : Prop where
  isLog : IsLog MetricItem.second a.log
  low_le : low ≤ a.lastSecond
  bounds : ∀ m ∈ a.log, low ≤ m.key MetricItem.second ∧ m.key MetricItem.second ≤ a.lastSecond
  marked : a.firstWrite = false → Mark.entry a.lastSecond ∈ a.log

theorem wf_start (now : ℤ) : (start now).Wf (now.tdiv 1000) :=
  ⟨.nil, le_rfl, fun m h => absurd h List.not_mem_nil, fun h => absurd h (by simp [start])⟩

variable {a : Appender} {low : ℤ} {c : WriteCall}

/-- An index entry for the last second or a later one. -/
theorem Wf.entry (h : a.Wf low) {k : ℤ} (hk : a.lastSecond ≤ k) (first : Bool) :
    (Appender.mk k first (a.log ++ [.entry k])).Wf low := by
  have hold : ∀ m ∈ a.log, m.key MetricItem.second ≤ k := fun m hm => (h.bounds m hm).2.trans hk
  refine ⟨h.isLog.concat hold (by simp), h.low_le.trans hk, fun m hm => ?_, fun _ => by simp⟩
  rcases List.mem_append.mp hm with hm | hm
  · exact ⟨(h.bounds m hm).1, hold m hm⟩
  · obtain rfl := List.mem_singleton.mp hm
    exact ⟨h.low_le.trans hk, le_rfl⟩

/-- Items of the last second, once it has an entry. -/
theorem Wf.items (h : a.Wf low) (hmark : Mark.entry a.lastSecond ∈ a.log) {xs : List MetricItem}
    (hxs : ∀ x ∈ xs, x.second = a.lastSecond) :
    (Appender.mk a.lastSecond a.firstWrite (a.log ++ xs.map .item)).Wf low := by
  refine ⟨h.isLog.append_items hxs (fun m hm => (h.bounds m hm).2) hmark, h.low_le, fun m hm => ?_,
    fun _ => List.mem_append_left _ hmark⟩
  rcases List.mem_append.mp hm with hm | hm
  · exact h.bounds m hm
  · obtain ⟨x, hx, rfl⟩ := List.mem_map.mp hm
    have hsecond : (Mark.item x : Mark ℤ MetricItem).key MetricItem.second = a.lastSecond := hxs x hx
    exact ⟨h.low_le.trans hsecond.ge, hsecond.le⟩

theorem Wf.write (h : a.Wf low) (hc : c.Dated) : (a.write c).Wf low := by
  unfold Appender.write
  by_cases hlt : c.second < a.lastSecond
  · rw [if_pos hlt]
    exact h
  rw [if_neg hlt]
  by_cases heq : c.second = a.lastSecond
  · rw [if_pos heq]
    cases hfirst : a.firstWrite with
    | true =>
      rw [if_pos rfl]
      have hentry := h.entry heq.ge false
      have hboth := hentry.items (by simp) hc
      rwa [heq] at hboth ⊢
    | false =>
      have hsame : ∀ x ∈ c.items, x.second = a.lastSecond := fun x hx => (hc x hx).trans heq
      have hboth := h.items (h.marked hfirst) hsame
      rw [hfirst] at hboth
      simpa using hboth
  · rw [if_neg heq]
    exact (h.entry (not_lt.mp hlt) a.firstWrite).items (by simp) hc

theorem Wf.writes (h : a.Wf low) {calls : List WriteCall} (hcalls : ∀ c ∈ calls, c.Dated) :
    (a.writes calls).Wf low := by
  induction calls generalizing a with
  | nil => exact h
  | cons c calls ih => exact ih (h.write (hcalls c (by simp))) fun c' hc' => hcalls c' (by simp [hc'])

/-- The items of the log are those of the calls that came in time. -/
theorem items_writes (a : Appender) (calls : List WriteCall) :
    items (a.writes calls).log =
      items a.log ++ (kept a.lastSecond calls).flatMap WriteCall.items := by
  induction calls generalizing a with
  | nil => simp [writes, kept]
  | cons c calls ih =>
    show items ((a.write c).writes calls).log = _
    rw [ih, kept, write]
    by_cases hlt : c.second < a.lastSecond
    · rw [if_pos hlt, if_pos hlt]
    rw [if_neg hlt, if_neg hlt, List.flatMap_cons, ← List.append_assoc]
    by_cases heq : c.second = a.lastSecond
    · rw [if_pos heq, heq]
      split_ifs <;> simp
    · rw [if_neg heq]
      simp

end Appender

/-! ### The refinement -/

/-- The disk holds the log in segments, as far as they have not been removed. -/
def Refines (env : LogEnv) (s : LogState) (a : Appender) : Prop :=
  ∃ files, Keeps env s files ∧ logOf files = a.log ∧ s.writer.lastSecond = a.lastSecond ∧
    s.writer.firstWrite = a.firstWrite

theorem refines_start (env : LogEnv) (singleFileSize totalFileCount now : ℤ) (d : Disk) :
    Refines env (.start env singleFileSize totalFileCount now d) (.start now) :=
  ⟨[], ⟨rfl, rfl, List.nodup_nil, by simp, by simp⟩, rfl, rfl, rfl⟩

section Refines

variable {env : LogEnv} {s : LogState} {a : Appender} {c : WriteCall}

@[simp] theorem LogState.doWrite_firstWrite (time : ℤ) (nodes : List MetricItem) :
    (s.doWrite env time nodes).writer.firstWrite = s.writer.firstWrite := by
  unfold doWrite
  dsimp only
  split_ifs <;> simp

@[simp] theorem LogState.rollOnNewDay_firstWrite (time second : ℤ) :
    (s.rollOnNewDay env time second).writer.firstWrite = s.writer.firstWrite := by
  unfold rollOnNewDay
  split_ifs <;> simp

@[simp] theorem LogState.indexFirstWrite_firstWrite (second : ℤ) :
    (s.indexFirstWrite second).writer.firstWrite = false := by
  unfold indexFirstWrite
  split_ifs with hfirst
  · simp
  · simpa using hfirst

/-- The entry of the first write. -/
theorem Keeps.firstEntry {files : List (Text × Segment)} {f : Text × Segment}
    (h : Keeps env s (files ++ [f])) (second : ℤ) :
    ∃ f', Keeps env (s.indexFirstWrite second) (files ++ [f']) ∧ logOf (files ++ [f']) =
      logOf (files ++ [f]) ++ if s.writer.firstWrite = true then [.entry second] else [] := by
  obtain ⟨out, l⟩ := f
  unfold LogState.indexFirstWrite
  split_ifs with hfirst
  · let s' : LogState := { s with writer := { s.writer with firstWrite := false } }
    have h' : Keeps env s' (files ++ [(out, l)]) := h.of_eq rfl rfl
    exact ⟨_, h'.writeIndex second, by simp⟩
  · exact ⟨_, h, by simp⟩

theorem Refines.write (h : Refines env s a)
    (hnodup : (s.write env c.time c.nodes).disk.created.Nodup) :
    Refines env (s.write env c.time c.nodes) (a.write c) := by
  obtain ⟨files, hkeeps, hlog, hlast, hfirst⟩ := h
  rcases LogState.write_cases env s c with ⟨hlt, hw⟩ | ⟨heq, hw⟩ | ⟨hlt, s₁, hs₁, hd, hw⟩
  · -- too late: at most the first file is created
    rw [hw] at hnodup ⊢
    obtain ⟨files₁, f₁, hopen, hsame⟩ := hkeeps.ensureOpen hnodup
    rw [Appender.write, if_pos (hlast ▸ hlt)]
    exact ⟨_, hopen, hsame.trans hlog, by simpa using hlast, by simpa using hfirst⟩
  · rw [hw] at hnodup ⊢
    obtain ⟨files₁, f₁, hopen, hsame⟩ := hkeeps.ensureOpen
      (((LogState.grows_indexFirstWrite _ _).trans (LogState.grows_doWrite env _ _ _)).nodup hnodup)
    obtain ⟨f₂, hindex, hentry⟩ := hopen.firstEntry c.second
    obtain ⟨files', f', hdo, hitems⟩ := hindex.doWrite hnodup
    rw [Appender.write, if_neg (by rw [← hlast, heq]; exact lt_irrefl _), if_pos (heq.trans hlast)]
    refine ⟨_, hdo, ?_, by simpa using hlast, by simp⟩
    rw [hitems, hentry, hsame, hlog]
    simp [hfirst]
  · rw [hd] at hnodup
    have hroll := (LogState.grows_doWrite env _ _ _).nodup hnodup
    have hindex := (LogState.grows_rollOnNewDay env _ _ _).nodup hroll
    rw [hs₁] at hindex
    obtain ⟨files₁, ⟨out, l⟩, hopen, hsame⟩ := hkeeps.ensureOpen
      ((LogState.grows_writeIndex _ _ _).nodup hindex)
    have hentry := hopen.writeIndex c.second
    rw [← hs₁] at hentry
    obtain ⟨files₂, f₂, hday, hsame₂⟩ := hentry.rollOnNewDay hroll
    obtain ⟨files', f', hdo, hitems⟩ := hday.doWrite hnodup
    rw [Appender.write, if_neg (by rw [← hlast]; exact hlt.not_gt), if_neg (by rw [← hlast]; exact hlt.ne')]
    refine ⟨_, hdo.of_eq (by rw [hw]) hd, ?_, by rw [hw], ?_⟩
    · rw [hitems, hsame₂, ← hlog, ← hsame]
      simp
    · rw [hw, hs₁]
      simpa using hfirst

theorem Refines.writes {calls : List WriteCall} (h : Refines env s a)
    (hnodup : (s.writes env calls).disk.created.Nodup) :
    Refines env (s.writes env calls) (a.writes calls) := by
  induction calls generalizing s a with
  | nil => exact h
  | cons c calls ih =>
    have hgrows := LogState.grows_writes env (s.write env c.time c.nodes) calls
    exact ih (h.write (hgrows.nodup hnodup)) hnodup

end Refines

/-- **The writer refines the appender**: whatever calls are made, in any order, the disk holds the
appender's log cut into the files that were created, each with its index, except for those that have
been removed; when the items of each call are of its second, this log has each item after the entry of
its second and in the order of the seconds, and its items are those of the calls that came in time. -/
theorem writer_refines_appender (env : LogEnv) (singleFileSize totalFileCount now : ℤ) (d : Disk)
    (calls : List WriteCall)
    (hnodup : ((LogState.start env singleFileSize totalFileCount now d).writes env
      calls).disk.created.Nodup) :
    Refines env ((LogState.start env singleFileSize totalFileCount now d).writes env calls)
      ((Appender.start now).writes calls) ∧
    ((∀ c ∈ calls, c.Dated) → IsLog MetricItem.second ((Appender.start now).writes calls).log) ∧
    items ((Appender.start now).writes calls).log =
      (kept (now.tdiv 1000) calls).flatMap WriteCall.items :=
  ⟨(refines_start env singleFileSize totalFileCount now d).writes hnodup,
    fun hdated => ((Appender.wf_start now).writes hdated).isLog, Appender.items_writes (.start now) calls⟩

/-- The second call comes too late. -/
theorem writer_refines_appender_late :
    Refines (.utc "/logs/" "app") ((LogState.start (.utc "/logs/" "app") 1000 6 0 {}).writes
        (.utc "/logs/" "app") [oneItem 2000 0 "a" fits_nextSecond, oneItem 1000 0 "b" fits_firstSecond])
      ((Appender.start 0).writes [oneItem 2000 0 "a" fits_nextSecond,
        oneItem 1000 0 "b" fits_firstSecond]) ∧
    items ((Appender.start 0).writes [oneItem 2000 0 "a" fits_nextSecond,
      oneItem 1000 0 "b" fits_firstSecond]).log = [⟨"a", 2000, 1, 0, 0, 0, 0⟩] := by
  obtain ⟨hrefines, -, hitems⟩ := writer_refines_appender (.utc "/logs/" "app") 1000 6 0 {}
    [oneItem 2000 0 "a" fits_nextSecond, oneItem 1000 0 "b" fits_firstSecond] (by decide)
  exact ⟨hrefines, hitems.trans (by decide)⟩

end SentinelCpp.Log
