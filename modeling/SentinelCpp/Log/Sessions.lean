import SentinelCpp.Log.Appender

/-!
# The log across restarts

A process that starts again makes a new writer on the directory of the last one.  The new writer leaves
the files that are there alone and writes to new ones, so that the directory holds the logs of all
sessions, one after the other; as long as no session begins before the seconds that the sessions before
it have written, a fresh searcher finds what every session has kept.
-/

namespace SentinelCpp.Log

open Lib Stat

/-! ### What a writer leaves alone -/

/-- The writer works on files that it has created, and the others are as on `d` if it has not removed
them. -/
structure Framed (d : Disk) (s : LogState) : Prop where
  own : ∀ out, s.writer.metricOut = some out →
    out ∈ s.disk.created ∧ formIndexFileName out ∈ s.disk.created
  same : ∀ q, q ∉ s.disk.created → q ∉ s.disk.removed → s.disk.content? q = d.content? q

namespace Framed

variable {env : LogEnv} {d : Disk} {s : LogState}

theorem start (env : LogEnv) (singleFileSize totalFileCount now : ℤ) (d : Disk) :
    Framed d (.start env singleFileSize totalFileCount now d) :=
  ⟨fun out h => absurd h (by simp [LogState.start, MetricWriter.mk']), fun q _ _ => rfl⟩

theorem of_eq {s' : LogState} (h : Framed d s) (hw : s'.writer.metricOut = s.writer.metricOut)
    (hd : s'.disk = s.disk) : Framed d s' :=
  ⟨fun out hout => hd ▸ h.own out (hw ▸ hout), fun q => hd ▸ h.same q⟩

/-- Text goes to a file of the writer. -/
theorem append (h : Framed d s) {p : Text} (hp : p ∈ s.disk.created) (text : Text) :
    Framed d { s with disk := s.disk.append p text } := by
  refine ⟨h.own, fun q hq hq' => ?_⟩
  have hne : q ≠ p := fun heq => hq (heq ▸ hp)
  show (s.disk.append p text).content? q = d.content? q
  rw [Disk.content?_append, if_neg hne]
  exact h.same q hq hq'

theorem put (h : Framed d s) (text : Text) : Framed d (s.put text) := by
  unfold LogState.put
  cases hout : s.writer.metricOut with
  | none => exact h
  | some out => exact h.append (h.own out hout).1 text

theorem writeIndex (h : Framed d s) (time offset : ℤ) : Framed d (s.writeIndex time offset) := by
  unfold LogState.writeIndex
  cases hout : s.writer.metricOut with
  | none => exact h
  | some out => exact h.append (h.own out hout).2 _

theorem closeAndNewFile (h : Framed d s) (p : Text) : Framed d (s.closeAndNewFile env p) := by
  obtain ⟨-, hcreated, l, hremoved, hcontent, -⟩ := LogState.removeMoreFiles_spec env s
  refine ⟨fun out hout => ?_, fun q hq hq' => ?_⟩
  · rw [LogState.closeAndNewFile_writer] at hout
    obtain rfl : p = out := Option.some.inj hout
    rw [LogState.closeAndNewFile_created]
    simp
  · rw [LogState.closeAndNewFile_created] at hq
    simp only [List.mem_append, List.mem_cons, List.not_mem_nil, or_false, not_or] at hq
    obtain ⟨hold, hp, hindex⟩ := hq
    have hremoved' : (s.closeAndNewFile env p).disk.removed = s.disk.removed ++ paths l := by
      simp [LogState.closeAndNewFile, hremoved]
    rw [hremoved', List.mem_append, not_or] at hq'
    have hkept : (s.closeAndNewFile env p).disk.content? q = (s.removeMoreFiles env).disk.content? q := by
      simp [LogState.closeAndNewFile, hp, hindex]
    rw [hkept, hcontent, if_neg hq'.2]
    exact h.same q hold hq'.1

theorem doWrite (h : Framed d s) (time : ℤ) (nodes : List MetricItem) :
    Framed d (s.doWrite env time nodes) := by
  unfold LogState.doWrite
  dsimp only
  split_ifs
  · exact (h.put _).closeAndNewFile _
  · exact h.put _

theorem ensureOpen (h : Framed d s) (time : ℤ) : Framed d (s.ensureOpen env time) := by
  unfold LogState.ensureOpen
  split_ifs
  · let s' : LogState := { s with writer := { s.writer with baseFileName := formMetricFileName env } }
    have h' : Framed d s' := h.of_eq rfl rfl
    exact h'.closeAndNewFile _
  · exact h

theorem indexFirstWrite (h : Framed d s) (second : ℤ) : Framed d (s.indexFirstWrite second) := by
  unfold LogState.indexFirstWrite
  split_ifs
  · let s' : LogState := { s with writer := { s.writer with firstWrite := false } }
    have h' : Framed d s' := h.of_eq rfl rfl
    exact h'.writeIndex _ _
  · exact h

theorem rollOnNewDay (h : Framed d s) (time second : ℤ) : Framed d (s.rollOnNewDay env time second) := by
  unfold LogState.rollOnNewDay
  split_ifs
  · exact h.closeAndNewFile _
  · exact h

theorem write (h : Framed d s) (c : WriteCall) : Framed d (s.write env c.time c.nodes) := by
  rcases LogState.write_cases env s c with ⟨-, hw⟩ | ⟨-, hw⟩ | ⟨-, s₁, hs₁, hd, hw⟩
  · rw [hw]
    exact h.ensureOpen _
  · rw [hw]
    exact ((h.ensureOpen _).indexFirstWrite _).doWrite _ _
  · have h₁ : Framed d s₁ := hs₁ ▸ (h.ensureOpen _).writeIndex _ _
    exact ((h₁.rollOnNewDay c.time c.second).doWrite c.time c.items).of_eq (by rw [hw]) hd

theorem writes (h : Framed d s) (calls : List WriteCall) : Framed d (s.writes env calls) := by
  induction calls generalizing s with
  | nil => exact h
  | cons c calls ih => exact ih (h.write c)

end Framed

/-! ### Sessions -/

/-- A writer made at a time, and the calls on it until the process ends. -/
structure Session where
  now : ℤ
  singleFileSize : ℤ
  totalFileCount : ℤ
  calls : List WriteCall

namespace Session

variable (env : LogEnv) (d : Disk) (x : Session)

def state : LogState := (LogState.start env x.singleFileSize x.totalFileCount x.now d).writes env x.calls

/-- The disk after the session, with the record of the sessions before. -/
def run : Disk :=
  { (x.state env d).disk with
    created := d.created ++ (x.state env d).disk.created
    removed := d.removed ++ (x.state env d).disk.removed }

/-- The log of the session. -/
def log : Appender := (Appender.start x.now).writes x.calls

/-- The items of the calls that came in time. -/
def items : List MetricItem := (kept (x.now.tdiv 1000) x.calls).flatMap WriteCall.items

end Session

/-- The sessions, one after the other. -/
def runSessions (env : LogEnv) (d : Disk) (xs : List Session) : Disk := xs.foldl (Session.run env) d

/-- No session begins before a second that an earlier one has written. -/
def SessionsInOrder : ℤ → List Session → Prop
  | _, [] => True
  | k, x :: xs => k ≤ x.now.tdiv 1000 ∧ SessionsInOrder x.log.lastSecond xs

/-- After sessions: the disk holds the segments of one log, with seconds up to `k`. -/
structure HoldsLog (env : LogEnv) (d : Disk) (files : List (Text × Segment)) (k : ℤ) : Prop where
  created : d.created = paths (files.map Prod.fst)
  holds : ∀ f ∈ files, d.Holds env f
  isLog : IsLog MetricItem.second (logOf files)
  bound : ∀ m ∈ logOf files, m.key MetricItem.second ≤ k

section Sessions

variable {env : LogEnv} {d : Disk} {x : Session} {xs : List Session} {files : List (Text × Segment)} {k : ℤ}

theorem Session.content?_run (q : Text) : (x.run env d).content? q = (x.state env d).disk.content? q := rfl

theorem Session.holds_run {f : Text × Segment} :
    (x.run env d).Holds env f ↔ (x.state env d).disk.Holds env f := Iff.rfl

/-- **One session more.** -/
theorem HoldsLog.run (h : HoldsLog env d files k) (hk : k ≤ x.now.tdiv 1000)
    (hdated : ∀ c ∈ x.calls, c.Dated) (hnodup : (x.run env d).created.Nodup)
    (hremoved : (x.run env d).removed = []) :
    ∃ files', HoldsLog env (x.run env d) (files ++ files') x.log.lastSecond ∧
      Lib.items (logOf files') = x.items := by
  have hsplit : (d.created ++ (x.state env d).disk.created).Nodup := hnodup
  have hnone : (x.state env d).disk.removed = [] := (List.append_eq_nil_iff.mp hremoved).2
  obtain ⟨-, hnew, hdisjoint⟩ := List.nodup_append.mp hsplit
  obtain ⟨files', hkeeps, hlog, hlast, -⟩ :=
    (refines_start env x.singleFileSize x.totalFileCount x.now d).writes hnew
  have hwf := (Appender.wf_start x.now).writes hdated
  have hframe : Framed d (x.state env d) :=
    (Framed.start env x.singleFileSize x.totalFileCount x.now d).writes x.calls
  refine ⟨files', ⟨?_, fun f hf => ?_, ?_, fun m hm => ?_⟩, ?_⟩
  · show d.created ++ (x.state env d).disk.created = _
    rw [h.created, List.map_append, paths_append]
    exact congrArg _ hkeeps.created
  · rw [Session.holds_run]
    rcases List.mem_append.mp hf with hf | hf
    · -- a file of an earlier session
      have hold : ∀ q, q = f.1 ∨ q = formIndexFileName f.1 →
          (x.state env d).disk.content? q = d.content? q := by
        intro q hq
        have hq' : q ∈ d.created := by
          rw [h.created]
          exact List.mem_flatMap.mpr ⟨f.1, List.mem_map_of_mem hf, by simpa using hq⟩
        refine hframe.same q (fun hmem => hdisjoint q hq' q hmem rfl) ?_
        rw [hnone]
        exact List.not_mem_nil
      obtain ⟨h1, h2⟩ := h.holds f hf
      exact ⟨(hold _ (.inl rfl)).trans h1, (hold _ (.inr rfl)).trans h2⟩
    · exact hkeeps.holds_of_removed hnone f hf
  · rw [logOf_append]
    refine h.isLog.append (hlog ▸ hwf.isLog) fun m hm m' hm' => ?_
    rw [hlog] at hm'
    exact (h.bound m hm).trans (hk.trans (hwf.bounds m' hm').1)
  · rw [logOf_append] at hm
    rcases List.mem_append.mp hm with hm | hm
    · exact (h.bound m hm).trans (hk.trans hwf.low_le)
    · rw [hlog] at hm
      exact (hwf.bounds m hm).2
  · rw [hlog]
    exact Appender.items_writes (.start x.now) x.calls

theorem runSessions_grows (env : LogEnv) (d : Disk) (xs : List Session) :
    d.created <+: (runSessions env d xs).created ∧ d.removed <+: (runSessions env d xs).removed := by
  induction xs generalizing d with
  | nil => exact ⟨List.prefix_rfl, List.prefix_rfl⟩
  | cons x xs ih =>
    obtain ⟨h1, h2⟩ := ih (x.run env d)
    exact ⟨(List.prefix_append _ _).trans h1, (List.prefix_append _ _).trans h2⟩

/-- **Any number of sessions.** -/
theorem HoldsLog.runSessions (h : HoldsLog env d files k) (horder : SessionsInOrder k xs)
    (hdated : ∀ x ∈ xs, ∀ c ∈ x.calls, c.Dated) (hnodup : (runSessions env d xs).created.Nodup)
    (hremoved : (runSessions env d xs).removed = []) :
    ∃ files' k', HoldsLog env (Log.runSessions env d xs) (files ++ files') k' ∧
      Lib.items (logOf files') = xs.flatMap Session.items := by
  induction xs generalizing d files k with
  | nil =>
    rw [← List.append_nil files] at h
    exact ⟨[], k, h, rfl⟩
  | cons x xs ih =>
    obtain ⟨hk, hrest⟩ := horder
    obtain ⟨hcreated', hremoved'⟩ := runSessions_grows env (x.run env d) xs
    have hgone : (x.run env d).removed = [] := by
      have hprefix : (x.run env d).removed <+: [] := hremoved ▸ hremoved'
      exact List.prefix_nil.mp hprefix
    obtain ⟨files₁, h₁, hitems₁⟩ := h.run hk (hdated x (by simp)) (hcreated'.sublist.nodup hnodup) hgone
    obtain ⟨files', k', h', hitems'⟩ := ih h₁ hrest (fun y hy => hdated y (by simp [hy])) hnodup hremoved
    refine ⟨files₁ ++ files', k', by rwa [← List.append_assoc], ?_⟩
    rw [logOf_append, Lib.items_append, hitems₁, hitems', List.flatMap_cons]

end Sessions

/-- **The log survives restarts.**  Writers follow one another on one directory, each with any calls in
any order whose items are of the second of their call; no session begins before a second that an earlier
one has written, no file has been removed, and the listing shows the files in the order of their
creation.  Then a fresh searcher finds exactly the items of the calls of all sessions that came in
time. -/
theorem sessions_findsAll (env : LogEnv) (junk : Junk) (files : Assoc Text Text)
    (hpaths : (files.map Prod.fst).Nodup) (xs : List Session) (k : ℤ) (horder : SessionsInOrder k xs)
    (hdated : ∀ x ∈ xs, ∀ c ∈ x.calls, c.Dated) (hnames : ∀ x ∈ xs, OneLineNames x.calls)
    (hlisted : (runSessions env ⟨files, hpaths, [], []⟩ xs).ListedInOrder env) :
    FindsAll MetricItem.stored env junk (runSessions env ⟨files, hpaths, [], []⟩ xs)
      (xs.flatMap Session.items) := by
  have hstart : HoldsLog env ⟨files, hpaths, [], []⟩ [] k := ⟨rfl, by simp, .nil, by simp⟩
  obtain ⟨files', k', h, hitems⟩ := hstart.runSessions horder hdated hlisted.nodup hlisted.removed
  rw [List.nil_append] at h
  have hread : ∀ y ∈ items (logOf files'), Readable y := by
    rw [hitems]
    intro y hy
    obtain ⟨x, hx, hy⟩ := List.mem_flatMap.mp hy
    obtain ⟨c, hc, hy⟩ := List.mem_flatMap.mp hy
    exact readable_items (hnames x hx) y (List.mem_flatMap.mpr ⟨c, mem_of_mem_kept hc, hy⟩)
  have hlist : listMetricFiles env.dirOrder (runSessions env ⟨files, hpaths, [], []⟩ xs) env.baseDir
      (formMetricFileName env) = files'.map Prod.fst :=
    paths_injective (hlisted.created.symm.trans h.created)
  refine ⟨fun b n _ h1 h2 => ?_, fun b e _ => ?_⟩
  · rw [← hitems]
    exact find_of_isLog h.holds h.isLog hlist hread b h1 h2
  · rw [findByTime_of_isLog h.holds h.isLog hlist hread b e, named_all, hitems]

/-- A day, a restart, and a day more: the last call of the second session comes too late. -/
def twoSessions : List Session :=
  [⟨0, 60, 6, [oneItem 1000 0 "a" fits_firstSecond, oneItem 2000 0 "b" fits_nextSecond]⟩,
    ⟨3000, 60, 6, [oneItem 86400000 0 "c" fits_nextDay, oneItem 2000 0 "d" fits_nextSecond]⟩]

theorem sessions_findsAll_twoSessions :
    FindsAll MetricItem.stored (.utc "/logs/" "app") ⟨0, fun _ => 0⟩
      (runSessions (.utc "/logs/" "app") ⟨[], List.nodup_nil, [], []⟩ twoSessions)
      (twoSessions.flatMap Session.items) ∧
    (twoSessions.flatMap Session.items).map MetricItem.resource = ["a", "b", "c"] :=
  ⟨sessions_findsAll (.utc "/logs/" "app") _ [] List.nodup_nil twoSessions 0
    ⟨by decide, by decide, trivial⟩ (by decide) (by decide) ⟨by decide, by decide⟩,
    by decide⟩

end SentinelCpp.Log
