import SentinelCpp.Log.Retention

/-!
# Metric files and local dates

A new file is named by the local date at its time (`NextFileNameOfDay`), but whether a second begins a
new day is computed with the one offset that the zone had at the epoch (`IsNewDay`).  The lines stand
under their local dates in every run of a set of calls exactly when the two agree on it; in a zone with
summer time they do not.

* `CarriesDate`: a path names the local date of a time.
* `Named`: the open file was named by a call of the same arithmetic day as the last second, at least.
* `DayTestAgrees`: calls of one arithmetic day are of one local date.
-/

namespace SentinelCpp.Log

open Lib Stat

/-! ### Time zones -/

/-- The offset of local time from UTC, in seconds, at each second.  Local dates never go backwards. -/
structure TimeZone where
  offset : ℤ → ℤ
  mono : ∀ second second', second ≤ second' →
    (second + offset second) / 86400 ≤ (second' + offset second') / 86400

/-- The local date, as a number of days. -/
def TimeZone.localDay (z : TimeZone) (second : ℤ) : ℤ := (second + z.offset second) / 86400

/-- Surroundings in a local time zone: a date is printed as its local day (`absl::FormatTime`), and the
base is an instant of local midnight, 1970-01-01, if there is one (`absl::FromDateTime`). -/
structure LocalEnv extends LogEnv where
  zone : TimeZone
  formatDate_eq_iff : ∀ t t', formatDate t = formatDate t' ↔
    zone.localDay (t / 1000) = zone.localDay (t' / 1000)
  midnight : (∃ second, second + zone.offset second = 0) →
    timeSecondBase + zone.offset timeSecondBase = 0

/-! ### Dates in names -/

section Dates

variable {env : LogEnv} {out : Text} {t t' : ℤ}

/-- The path is that of a file of the local date of `time`. -/
def CarriesDate (env : LogEnv) (out : Text) (time : ℤ) : Prop :=
  out = dayPath env time ∨ ∃ k : ℤ, out = dayPath env time ++ '.' :: decimal k

theorem dayPath_eq (env : LogEnv) (t : ℤ) :
    dayPath env t = (env.baseDir ++ formMetricFileName env ++ ['.']) ++ env.formatDate t := by
  simp [dayPath, fileNameModel]

/-- The date of a path is what stands between the base name and the next dot. -/
theorem CarriesDate.takeWhile (h : CarriesDate env out t) :
    (out.drop (env.baseDir ++ formMetricFileName env ++ ['.']).length).takeWhile (· ≠ '.') =
      env.formatDate t := by
  have hdate : ∀ c ∈ env.formatDate t, decide (c ≠ '.') = true := by
    intro c hc
    rw [decide_eq_true_eq]
    rintro rfl
    exact absurd ((env.formatDate_plain t).2 _ hc) (by decide)
  rcases h with rfl | ⟨k, rfl⟩
  · rw [dayPath_eq, List.drop_left]
    exact List.takeWhile_eq_self_iff.mpr hdate
  · rw [dayPath_eq, List.append_assoc _ (env.formatDate t), List.drop_left,
      List.takeWhile_append_of_pos hdate, List.takeWhile_cons_of_neg (by simp), List.append_nil]

theorem CarriesDate.formatDate_eq (h : CarriesDate env out t) (h' : CarriesDate env out t') :
    env.formatDate t = env.formatDate t' := h.takeWhile.symm.trans h'.takeWhile

/-- **A path carries one date.** -/
theorem CarriesDate.congr_iff (h : CarriesDate env out t) :
    CarriesDate env out t' ↔ env.formatDate t = env.formatDate t' := by
  refine ⟨h.formatDate_eq, fun heq => ?_⟩
  have hpath : dayPath env t' = dayPath env t := by rw [dayPath, dayPath, fileNameModel, fileNameModel, heq]
  unfold CarriesDate
  rw [hpath]
  exact h

end Dates

/-! ### The open file -/

/-- The arithmetic day of a second. -/
def dayNumber (base second : ℤ) : ℤ := (second - base).tdiv 86400

theorem dayNumber_mono (base : ℤ) {second second' : ℤ} (h : second ≤ second') :
    dayNumber base second ≤ dayNumber base second' := Int.tdiv_le_tdiv (by omega) (by omega)

/-- The writer works on the names and the base of its surroundings. -/
structure Sited (env : LogEnv) (w : MetricWriter) : Prop where
  baseDir : w.baseDir = env.baseDir
  baseFileName : w.baseFileName = formMetricFileName env
  timeSecondBase : w.timeSecondBase = env.timeSecondBase

namespace LogState

variable {env : LogEnv} {s : LogState} {out : Text} {time second : ℤ}

theorem isNewDay_iff (h : Sited env s.writer) {lastSecond : ℤ} : s.isNewDay lastSecond second = true ↔
    dayNumber env.timeSecondBase lastSecond < dayNumber env.timeSecondBase second := by
  rw [isNewDay, decide_eq_true_eq, h.timeSecondBase]
  rfl

theorem carriesDate_nextFileNameOfDay (h : Sited env s.writer) (time : ℤ) :
    CarriesDate env (s.nextFileNameOfDay env time) time := by
  unfold nextFileNameOfDay
  dsimp only
  rw [h.baseDir, h.baseFileName]
  split
  · exact .inl rfl
  · exact .inr ⟨_, List.append_assoc (dayPath env time) ['.'] (decimal _)⟩

/-- A new file is of the date at its time. -/
theorem closeAndNewFile_spec (h : Sited env s.writer) (time : ℤ) :
    Sited env (s.closeAndNewFile env (s.nextFileNameOfDay env time)).writer ∧
      ∃ out, (s.closeAndNewFile env (s.nextFileNameOfDay env time)).writer.metricOut = some out ∧
        CarriesDate env out time := by
  rw [closeAndNewFile_writer]
  exact ⟨⟨h.baseDir, h.baseFileName, h.timeSecondBase⟩, _, rfl, carriesDate_nextFileNameOfDay h time⟩

theorem ensureOpen_spec (h : Sited env s.writer) (time : ℤ) : Sited env (s.ensureOpen env time).writer ∧
    ∃ out, (s.ensureOpen env time).writer.metricOut = some out ∧
      (s.writer.metricOut = some out ∨ s.writer.metricOut = none ∧ CarriesDate env out time) := by
  unfold ensureOpen
  split_ifs with hnone
  · obtain ⟨hsited, out, hout, hdate⟩ := closeAndNewFile_spec
      (s := { s with writer := { s.writer with baseFileName := formMetricFileName env } })
      ⟨h.baseDir, rfl, h.timeSecondBase⟩ time
    exact ⟨hsited, out, hout, .inr ⟨Option.isNone_iff_eq_none.mp hnone, hdate⟩⟩
  · obtain ⟨out, hout⟩ := Option.ne_none_iff_exists'.mp (mt Option.isNone_iff_eq_none.mpr hnone)
    exact ⟨h, out, hout, .inl hout⟩

theorem rollOnNewDay_spec (h : Sited env s.writer) (hout : s.writer.metricOut = some out)
    (time second : ℤ) : Sited env (s.rollOnNewDay env time second).writer ∧
      ∃ out', (s.rollOnNewDay env time second).writer.metricOut = some out' ∧
        (dayNumber env.timeSecondBase second ≤ dayNumber env.timeSecondBase s.writer.lastSecond ∧
            out' = out ∨
          dayNumber env.timeSecondBase s.writer.lastSecond < dayNumber env.timeSecondBase second ∧
            CarriesDate env out' time) := by
  unfold rollOnNewDay
  split_ifs with hday
  · obtain ⟨hsited, out', hout', hdate⟩ := closeAndNewFile_spec h time
    exact ⟨hsited, out', hout', .inr ⟨(isNewDay_iff h).mp hday, hdate⟩⟩
  · exact ⟨h, out, hout, .inl ⟨not_lt.mp (mt (isNewDay_iff h).mpr hday), rfl⟩⟩

theorem doWrite_spec (h : Sited env s.writer) (hout : s.writer.metricOut = some out) (time : ℤ)
    (nodes : List MetricItem) : Sited env (s.doWrite env time nodes).writer ∧
      ∃ out', (s.doWrite env time nodes).writer.metricOut = some out' ∧
        (out' = out ∨ CarriesDate env out' time) := by
  have hput := put_writer (s := s) (unlines (nodes.map (MetricItem.toFatString env.formatTime)))
  rw [← hput] at h hout
  unfold doWrite
  dsimp only
  split_ifs
  · obtain ⟨hsited, out', hout', hdate⟩ := closeAndNewFile_spec h time
    exact ⟨hsited, out', hout', .inr hdate⟩
  · exact ⟨h, out, hout, .inl rfl⟩

theorem indexFirstWrite_spec (h : Sited env s.writer) (second : ℤ) :
    Sited env (s.indexFirstWrite second).writer ∧
      (s.indexFirstWrite second).writer.metricOut = s.writer.metricOut := by
  unfold indexFirstWrite
  split_ifs
  · dsimp only
    rw [writeIndex_writer]
    exact ⟨⟨h.baseDir, h.baseFileName, h.timeSecondBase⟩, rfl⟩
  · exact ⟨h, rfl⟩

/-- The writer as `Write` comes to the lines, unless their second is before the last one. -/
def beforeLines (env : LogEnv) (s : LogState) (c : WriteCall) : Option LogState :=
  let s₁ := s.ensureOpen env c.time
  if c.second < s.writer.lastSecond then none
  else if c.second = s.writer.lastSecond then some (s₁.indexFirstWrite c.second)
  else some ((s₁.writeIndex c.second s₁.tellp).rollOnNewDay env c.time c.second)

theorem beforeLines_eq_none_iff {c : WriteCall} :
    s.beforeLines env c = none ↔ c.second < s.writer.lastSecond := by
  unfold beforeLines
  dsimp only
  by_cases hlt : c.second < s.writer.lastSecond
  · rw [if_pos hlt]
    exact iff_of_true rfl hlt
  · rw [if_neg hlt]
    split_ifs <;> exact iff_of_false (by simp) hlt

/-- From there on `Write` is `DoWrite`. -/
theorem write_eq (env : LogEnv) (s : LogState) (c : WriteCall) : s.write env c.time c.nodes =
    match s.beforeLines env c with
    | none => s.ensureOpen env c.time
    | some s₁ =>
      let s₂ := s₁.doWrite env c.time c.items
      { s₂ with writer := { s₂.writer with lastSecond := c.second } } := by
  unfold beforeLines
  dsimp only
  rcases write_cases env s c with ⟨hlt, hw⟩ | ⟨heq, hw⟩ | ⟨hlt, s₁, rfl, hd, hw⟩
  · rw [if_pos hlt]
    exact hw
  · have hlast : (((s.ensureOpen env c.time).indexFirstWrite c.second).doWrite env c.time
        c.items).writer.lastSecond = c.second := by simp [heq]
    have hset : ∀ t : LogState, t.writer.lastSecond = c.second →
        t = { t with writer := { t.writer with lastSecond := c.second } } := by
      intro t ht
      rw [← ht]
    rw [if_neg heq.not_lt, if_pos heq, hw]
    exact hset _ hlast
  · rw [if_neg hlt.not_gt, if_neg hlt.ne']
    exact congrArg₂ LogState.mk hw hd

/-- **The file of the lines**: the open one while the arithmetic day lasts, else a new one of the date at
the time of the call. -/
theorem beforeLines_spec (h : Sited env s.writer) {c : WriteCall} {s₁ : LogState}
    (hs : s.beforeLines env c = some s₁) : s.writer.lastSecond ≤ c.second ∧ Sited env s₁.writer ∧
      ∃ out, s₁.writer.metricOut = some out ∧
        (s.writer.metricOut = some out ∧
            dayNumber env.timeSecondBase c.second ≤ dayNumber env.timeSecondBase s.writer.lastSecond ∨
          (s.writer.metricOut = none ∨
              dayNumber env.timeSecondBase s.writer.lastSecond < dayNumber env.timeSecondBase c.second) ∧
            CarriesDate env out c.time) := by
  obtain ⟨hsited, out, hout, hopen⟩ := ensureOpen_spec h c.time
  unfold beforeLines at hs
  dsimp only at hs
  split_ifs at hs with hlt heq
  · -- the second is the last one
    obtain rfl := Option.some.inj hs
    obtain ⟨hsited₁, hout₁⟩ := indexFirstWrite_spec hsited c.second
    refine ⟨heq.ge, hsited₁, out, hout₁.trans hout, ?_⟩
    rcases hopen with hopen | ⟨hnone, hdate⟩
    · exact .inl ⟨hopen, heq ▸ le_rfl⟩
    · exact .inr ⟨.inl hnone, hdate⟩
  · -- a later one
    obtain rfl := Option.some.inj hs
    rw [← writeIndex_writer c.second (s.ensureOpen env c.time).tellp] at hsited hout
    obtain ⟨hsited₁, out', hout', hday⟩ := rollOnNewDay_spec hsited hout c.time c.second
    rw [writeIndex_writer, ensureOpen_lastSecond] at hday
    refine ⟨not_lt.mp hlt, hsited₁, out', hout', ?_⟩
    rcases hday with ⟨hsame, rfl⟩ | ⟨hnew, hdate⟩
    · rcases hopen with hopen | ⟨hnone, hdate⟩
      · exact .inl ⟨hopen, hsame⟩
      · exact .inr ⟨.inl hnone, hdate⟩
    · exact .inr ⟨.inr hnew, hdate⟩

theorem lastSecond_write (env : LogEnv) (s : LogState) (c : WriteCall) :
    (s.write env c.time c.nodes).writer.lastSecond = max s.writer.lastSecond c.second := by
  rcases write_cases env s c with ⟨hlt, hw⟩ | ⟨heq, hw⟩ | ⟨hlt, s₁, rfl, hd, hw⟩
  · rw [hw, ensureOpen_lastSecond, max_eq_left hlt.le]
  · rw [hw, doWrite_lastSecond, indexFirstWrite_lastSecond, ensureOpen_lastSecond, heq, max_self]
  · rw [hw, max_eq_right hlt.le]

/-- **The file after a call** was open before it, on the same arithmetic day, or is of the date at the
time of the call; it is older than the last second only when no file was open. -/
theorem write_spec (h : Sited env s.writer) (c : WriteCall) :
    Sited env (s.write env c.time c.nodes).writer ∧
      ∃ out, (s.write env c.time c.nodes).writer.metricOut = some out ∧
        (s.writer.metricOut = some out ∧
            dayNumber env.timeSecondBase (max s.writer.lastSecond c.second) ≤
              dayNumber env.timeSecondBase s.writer.lastSecond ∨
          (s.writer.metricOut = none ∨ s.writer.lastSecond ≤ c.second) ∧ CarriesDate env out c.time) := by
  rw [write_eq]
  cases hs : s.beforeLines env c with
  | none =>
    have hlt := beforeLines_eq_none_iff.mp hs
    obtain ⟨hsited, out, hout, hopen | ⟨hnone, hdate⟩⟩ := ensureOpen_spec h c.time
    · exact ⟨hsited, out, hout, .inl ⟨hopen, (max_eq_left hlt.le).symm ▸ le_rfl⟩⟩
    · exact ⟨hsited, out, hout, .inr ⟨.inl hnone, hdate⟩⟩
  | some s₁ =>
    obtain ⟨hle, hsited₁, out, hout, hfile⟩ := beforeLines_spec h hs
    obtain ⟨hsited₂, out', hout', hroll⟩ := doWrite_spec hsited₁ hout c.time c.items
    refine ⟨⟨hsited₂.baseDir, hsited₂.baseFileName, hsited₂.timeSecondBase⟩, out', hout', ?_⟩
    rcases hroll with rfl | hdate
    · rcases hfile with ⟨hsame, hday⟩ | ⟨-, hdate⟩
      · exact .inl ⟨hsame, by rwa [max_eq_right hle]⟩
      · exact .inr ⟨.inr hle, hdate⟩
    · exact .inr ⟨.inr hle, hdate⟩

end LogState

/-! ### Lines and dates -/

/-- The lines that the call writes go to a file of the local date of their second. -/
def FiledByDate (env : LogEnv) (s : LogState) (c : WriteCall) : Prop :=
  ∀ s₁, s.beforeLines env c = some s₁ → ∃ out, s₁.writer.metricOut = some out ∧
    ∀ x ∈ c.items, CarriesDate env out (1000 * x.second)

/-- A writer created at time `now`, after the calls: the open file was named by one of them, and the last
second is not of a later arithmetic day than that call and the creation. -/
structure Named (env : LogEnv) (now : ℤ) (calls : List WriteCall) (s : LogState) : Prop where
  sited : Sited env s.writer
  now_le : now.tdiv 1000 ≤ s.writer.lastSecond
  unopened : s.writer.metricOut = none → s.writer.lastSecond = now.tdiv 1000
  named : ∀ out, s.writer.metricOut = some out → ∃ c ∈ calls, CarriesDate env out c.time ∧
    dayNumber env.timeSecondBase s.writer.lastSecond ≤
      dayNumber env.timeSecondBase (max (now.tdiv 1000) c.second)

namespace Named

variable {env : LogEnv} {now : ℤ} {calls : List WriteCall} {s : LogState}

theorem start (env : LogEnv) (singleFileSize totalFileCount now : ℤ) (d : Disk) :
    Named env now [] (.start env singleFileSize totalFileCount now d) where
  sited := ⟨rfl, rfl, rfl⟩
  now_le := le_rfl
  unopened := fun _ => rfl
  named := fun out hout => absurd hout (Option.some_ne_none out).symm

/-- **One call**: a file that it opens is named by it, and another file stays open on the same arithmetic
day only. -/
theorem write (h : Named env now calls s) (c : WriteCall) :
    Named env now (calls ++ [c]) (s.write env c.time c.nodes) := by
  obtain ⟨hsited, out, hout, hfile⟩ := LogState.write_spec h.sited c
  have hlast := LogState.lastSecond_write env s c
  have hnow := h.now_le
  refine ⟨hsited, ?_, fun hnone => ?_, fun out' hout' => ?_⟩
  · rw [hlast]
    exact hnow.trans (le_max_left _ _)
  · exact absurd (hout.symm.trans hnone) (Option.some_ne_none out)
  · obtain rfl : out = out' := Option.some.inj (hout.symm.trans hout')
    rw [hlast]
    rcases hfile with ⟨hsame, hday⟩ | ⟨hopened, hdate⟩
    · obtain ⟨c₀, hc₀, hdate, hday₀⟩ := h.named out hsame
      exact ⟨c₀, List.mem_append_left _ hc₀, hdate, hday.trans hday₀⟩
    · refine ⟨c, List.mem_append_right _ (List.mem_singleton_self c), hdate, dayNumber_mono _ ?_⟩
      rcases hopened with hnone | hle
      · rw [h.unopened hnone]
      · exact max_le (hle.trans (le_max_right _ _)) (le_max_right _ _)

theorem of_run {singleFileSize totalFileCount : ℤ} {d : Disk}
    (h : Run (WriteStep env) (.start env singleFileSize totalFileCount now d) calls s) :
    Named env now calls s := by
  refine Run.hist (start env singleFileSize totalFileCount now d) ?_ h
  rintro tr s c s' - ih rfl
  exact ih.write c

end Named

/-- The day test agrees with the calendar on the calls: when, from one call or from the creation on, the
arithmetic day lasts up to a call that writes, its lines are of the local date at the time of the one. -/
def DayTestAgrees (env : LocalEnv) (now : ℤ) (S : Set WriteCall) : Prop :=
  ∀ c ∈ S, ∀ c' ∈ S, c.second ≤ c'.second → now.tdiv 1000 ≤ c'.second →
    dayNumber env.timeSecondBase (max (now.tdiv 1000) c.second) = dayNumber env.timeSecondBase c'.second →
      ∀ x ∈ c'.items, env.zone.localDay (c.time / 1000) = env.zone.localDay x.second

/-- The local date that the path of a file carries. -/
theorem LocalEnv.carriesDate_iff (env : LocalEnv) {out : Text} {t second : ℤ}
    (h : CarriesDate env.toLogEnv out t) : CarriesDate env.toLogEnv out (1000 * second) ↔
      env.zone.localDay (t / 1000) = env.zone.localDay second := by
  rw [h.congr_iff, env.formatDate_eq_iff, Int.mul_ediv_cancel_left _ (by omega)]

section Agreement

variable {env : LocalEnv} {now : ℤ} {S : Set WriteCall} {calls : List WriteCall} {s : LogState}
  {c c' : WriteCall}

/-- **The next call** after calls of a set on which the day test agrees with the calendar. -/
theorem Named.filedByDate (h : Named env.toLogEnv now calls s) (hagree : DayTestAgrees env now S)
    (hcalls : ∀ a ∈ calls, a ∈ S ∧ a.second ≤ c.second) (hc : c ∈ S) :
    FiledByDate env.toLogEnv s c := by
  intro s₁ hs₁
  obtain ⟨hle, -, out, hout, hfile⟩ := LogState.beforeLines_spec h.sited hs₁
  have hnow : now.tdiv 1000 ≤ c.second := h.now_le.trans hle
  refine ⟨out, hout, fun x hx => ?_⟩
  rcases hfile with ⟨hsame, hday⟩ | ⟨-, hdate⟩
  · -- the file was named by a call of the same arithmetic day
    obtain ⟨c₀, hc₀, hdate, hday₀⟩ := h.named out hsame
    obtain ⟨hmem₀, hle₀⟩ := hcalls c₀ hc₀
    have heq := le_antisymm (dayNumber_mono env.timeSecondBase (max_le hnow hle₀)) (hday.trans hday₀)
    exact (env.carriesDate_iff hdate).mpr (hagree c₀ hmem₀ c hc hle₀ hnow heq x hx)
  · -- the file is named by the call itself
    have heq : dayNumber env.timeSecondBase (max (now.tdiv 1000) c.second) =
        dayNumber env.timeSecondBase c.second := by rw [max_eq_right hnow]
    exact (env.carriesDate_iff hdate).mpr (hagree c hc c hc le_rfl hnow heq x hx)

/-- **After one call** the next one of the same arithmetic day writes to the file that it named. -/
theorem Named.localDay_eq (h : Named env.toLogEnv now [c] s) {out : Text}
    (hout : s.writer.metricOut = some out) (hle : s.writer.lastSecond ≤ c'.second)
    (hday : dayNumber env.timeSecondBase s.writer.lastSecond = dayNumber env.timeSecondBase c'.second)
    (hfiled : FiledByDate env.toLogEnv s c') :
    ∀ x ∈ c'.items, env.zone.localDay (c.time / 1000) = env.zone.localDay x.second := by
  intro x hx
  obtain ⟨c₀, hc₀, hdate, -⟩ := h.named out hout
  obtain rfl : c₀ = c := List.mem_singleton.mp hc₀
  obtain ⟨s₁, hs₁⟩ := Option.ne_none_iff_exists'.mp
    (mt LogState.beforeLines_eq_none_iff.mp (not_lt.mpr hle))
  obtain ⟨out', hout', hlines⟩ := hfiled s₁ hs₁
  obtain ⟨-, -, out₁, hout₁, hfile⟩ := LogState.beforeLines_spec h.sited hs₁
  obtain rfl : out' = out₁ := Option.some.inj (hout'.symm.trans hout₁)
  rcases hfile with ⟨hsame, -⟩ | ⟨hnone | hnew, -⟩
  · obtain rfl : out = out' := Option.some.inj (hout.symm.trans hsame)
    exact (env.carriesDate_iff hdate).mp (hlines x hx)
  · exact absurd (hout.symm.trans hnone) (Option.some_ne_none out)
  · exact absurd hday hnew.ne

end Agreement

/-- **Lines are filed under their local dates** in every run of the calls of a set, in the order of their
seconds, exactly when the day test agrees with the calendar on the set. -/
theorem filedByDate_iff (env : LocalEnv) (singleFileSize totalFileCount now : ℤ) (d : Disk)
    (S : Set WriteCall) :
    (∀ calls : List WriteCall, (∀ c ∈ calls, c ∈ S) → (calls.map WriteCall.second).Pairwise (· ≤ ·) →
      EveryStep (WriteStep env.toLogEnv) (.start env.toLogEnv singleFileSize totalFileCount now d)
        (FiledByDate env.toLogEnv) calls) ↔ DayTestAgrees env now S := by
  constructor
  · intro hfiled c hc c' hc' hle hnow hday
    -- a run of the two calls
    have hcalls : ∀ a ∈ [c] ++ [c'], a ∈ S := by
      intro a ha
      rcases List.mem_pair.mp ha with rfl | rfl
      · exact hc
      · exact hc'
    have hstart := Named.start env.toLogEnv singleFileSize totalFileCount now d
    have hlast := LogState.lastSecond_write env.toLogEnv
      (.start env.toLogEnv singleFileSize totalFileCount now d) c
    obtain ⟨-, out, hout, -⟩ := LogState.write_spec hstart.sited c
    refine (hstart.write c).localDay_eq hout (hlast.le.trans (max_le hnow hle))
      ((congrArg _ hlast).trans hday) ?_
    exact (hfiled ([c] ++ [c']) hcalls (by simpa using hle)).last (Run.nil.snoc rfl)
  · intro hagree calls hcalls hsorted tr s c hpre hrun
    have hsorted' := hsorted.sublist (hpre.sublist.map WriteCall.second)
    rw [List.map_append, List.pairwise_append] at hsorted'
    refine (Named.of_run hrun).filedByDate hagree (fun a ha => ⟨?_, ?_⟩) ?_
    · exact hcalls a (hpre.subset (List.mem_append_left _ ha))
    · exact hsorted'.2.2 _ (List.mem_map_of_mem ha) _ (by simp)
    · exact hcalls c (hpre.subset (List.mem_append_right _ (List.mem_singleton_self c)))

/-- **In a zone with one offset** the day test agrees with the calendar on calls that are made after the
creation and not before the epoch, in UTC and in the zone. -/
theorem dayTestAgrees_of_fixedOffset (env : LocalEnv) {offset now : ℤ} {S : Set WriteCall}
    (hoffset : ∀ second, env.zone.offset second = offset)
    (hS : ∀ c ∈ S, 0 ≤ c.time ∧ 0 ≤ c.second + offset ∧ now.tdiv 1000 ≤ c.second) :
    DayTestAgrees env now S := by
  have hbase := env.midnight ⟨-offset, by rw [hoffset]; omega⟩
  rw [hoffset] at hbase
  have hlocal : ∀ second, 0 ≤ second + offset →
      env.zone.localDay second = dayNumber env.timeSecondBase second := by
    intro second hsecond
    have hshift : second - env.timeSecondBase = second + offset := by omega
    rw [TimeZone.localDay, hoffset, dayNumber, hshift, Int.tdiv_eq_ediv_of_nonneg hsecond]
  intro c hc c' hc' _ _ hday x hx
  obtain ⟨htime, hsecond, hnow⟩ := hS c hc
  obtain ⟨htime', hsecond', -⟩ := hS c' hc'
  have hitem : x.second = c'.second := WriteCall.dated (by omega) x hx
  have hdiv : c.time / 1000 = c.second := (Int.tdiv_eq_ediv_of_nonneg htime).symm
  rw [max_eq_right hnow] at hday
  rw [hitem, hdiv, hlocal _ hsecond, hlocal _ hsecond', hday]

/-! ### The calendar -/

/-- The days from 1970-01-01 to a date. -/
def daysFromCivil (year month day : ℤ) : ℤ :=
  let y := if month ≤ 2 then year - 1 else year
  let yoe := y % 400
  let doy := (153 * (if month ≤ 2 then month + 9 else month - 3) + 2) / 5 + day - 1
  y / 400 * 146097 + (365 * yoe + yoe / 4 - yoe / 100 + doy) - 719468

/-- The day of an era falls into a year of it, and into that year. -/
theorem era_bounds {doe yoe : ℤ} (h0 : 0 ≤ doe) (h1 : doe < 146097)
    (hyoe : yoe = (doe - doe / 1460 + doe / 36524 - doe / 146096) / 365) :
    (0 ≤ yoe ∧ yoe < 400) ∧ 0 ≤ doe - (365 * yoe + yoe / 4 - yoe / 100) ∧
      doe - (365 * yoe + yoe / 4 - yoe / 100) ≤ 365 := by
  refine ⟨⟨by omega, by omega⟩, ?_⟩
  -- the centuries of the day and of the year
  obtain ⟨c, hc⟩ : ∃ c, c = doe / 36524 := ⟨_, rfl⟩
  obtain ⟨k, hk⟩ : ∃ k, k = yoe / 100 := ⟨_, rfl⟩
  rw [← hc] at hyoe
  rw [← hk]
  have hc' : c = 0 ∨ c = 1 ∨ c = 2 ∨ c = 3 ∨ c = 4 := by omega
  have hk' : k = 0 ∨ k = 1 ∨ k = 2 ∨ k = 3 := by omega
  rcases hc' with rfl | rfl | rfl | rfl | rfl <;> rcases hk' with rfl | rfl | rfl | rfl <;> omega

theorem utcDate_spec (ms : ℤ) : ∃ year month day : ℤ, (1 ≤ month ∧ month ≤ 12) ∧ (1 ≤ day ∧ day ≤ 31) ∧
    ms / 86400000 = daysFromCivil year month day ∧
    utcDate ms = padded 4 year ++ ['-'] ++ padded 2 month ++ ['-'] ++ padded 2 day := by
  obtain ⟨z, hz⟩ : ∃ z, z = ms / 86400000 + 719468 := ⟨_, rfl⟩
  obtain ⟨yoe, hyoe⟩ : ∃ yoe, yoe = (z % 146097 - z % 146097 / 1460 + z % 146097 / 36524 -
    z % 146097 / 146096) / 365 := ⟨_, rfl⟩
  obtain ⟨hy, hdoy⟩ := era_bounds (Int.emod_nonneg z (by omega)) (Int.emod_lt_of_pos z (by omega)) hyoe
  obtain ⟨doy, hd⟩ : ∃ doy, doy = z % 146097 - (365 * yoe + yoe / 4 - yoe / 100) := ⟨_, rfl⟩
  obtain ⟨mp, hmp⟩ : ∃ mp, mp = (5 * doy + 2) / 153 := ⟨_, rfl⟩
  obtain ⟨month, hmonth⟩ : ∃ month, month = if mp < 10 then mp + 3 else mp - 9 := ⟨_, rfl⟩
  rw [← hd] at hdoy
  have hm : 0 ≤ mp ∧ mp ≤ 11 := by omega
  refine ⟨yoe + z / 146097 * 400 + if month ≤ 2 then 1 else 0, month, doy - (153 * mp + 2) / 5 + 1,
    ⟨?_, ?_⟩, ⟨?_, ?_⟩, ?_, ?_⟩
  · split_ifs at hmonth <;> omega
  · split_ifs at hmonth <;> omega
  · omega
  · omega
  · have hmp' : (if month ≤ 2 then month + 9 else month - 3) = mp := by
      split_ifs at hmonth ⊢ <;> omega
    have hyear : (if month ≤ 2 then (yoe + z / 146097 * 400 + if month ≤ 2 then 1 else 0) - 1
        else yoe + z / 146097 * 400 + if month ≤ 2 then 1 else 0) = yoe + z / 146097 * 400 := by
      split_ifs <;> omega
    have hera : (yoe + z / 146097 * 400) / 400 = z / 146097 := by omega
    have hyoe' : (yoe + z / 146097 * 400) % 400 = yoe := by omega
    unfold daysFromCivil
    dsimp only
    rw [hyear, hera, hyoe', hmp']
    omega
  · unfold utcDate
    simp only [← hz, ← hyoe, ← hd, ← hmp, ← hmonth]

theorem length_padded_two {n : ℤ} (h0 : 1 ≤ n) (h1 : n ≤ 31) : (padded 2 n).length = 2 := by
  obtain ⟨m, rfl⟩ := Int.eq_ofNat_of_zero_le (by omega : 0 ≤ n)
  exact length_padded (by omega) (by omega)

/-- **The date tells the day.** -/
theorem utcDate_eq_iff {ms ms' : ℤ} : utcDate ms = utcDate ms' ↔ ms / 86400000 = ms' / 86400000 := by
  constructor
  · intro h
    obtain ⟨y, m, d, hm, hd, hdays, htext⟩ := utcDate_spec ms
    obtain ⟨y', m', d', hm', hd', hdays', htext'⟩ := utcDate_spec ms'
    rw [htext, htext'] at h
    obtain ⟨h, hday⟩ := List.append_inj' h
      ((length_padded_two hd.1 hd.2).trans (length_padded_two hd'.1 hd'.2).symm)
    obtain ⟨h, hmonth⟩ := List.append_inj' (List.append_cancel_right h)
      ((length_padded_two hm.1 (by omega)).trans (length_padded_two hm'.1 (by omega)).symm)
    have hyear := List.append_cancel_right h
    rw [hdays, hdays', padded_injective 4 hyear, padded_injective 2 hmonth, padded_injective 2 hday]
  · intro h
    unfold utcDate
    rw [h]

/-! ### Summer time -/

/-- The milliseconds that a clock in UTC shows when the local one shows the time. -/
def TimeZone.localMillis (z : TimeZone) (t : ℤ) : ℤ := t + 1000 * z.offset (t / 1000)

/-- Surroundings in a zone, with files listed in the order of their creation. -/
def LocalEnv.ofZone (z : TimeZone) (base : ℤ)
    (hbase : (∃ second, second + z.offset second = 0) → base + z.offset base = 0)
    (baseDir appName : String) : LocalEnv where
  baseDir := baseDir.toList
  appName := appName.toList
  logNameUsePid := false
  pid := 0
  timeSecondBase := base
  formatDate t := utcDate (z.localMillis t)
  formatDate_plain t := (LogEnv.utc baseDir appName).formatDate_plain (z.localMillis t)
  formatTime t := utcTime (z.localMillis t)
  formatTime_plain t := (LogEnv.utc baseDir appName).formatTime_plain (z.localMillis t)
  dirOrder := .insertion Text
  zone := z
  formatDate_eq_iff t t' := by
    have hday : ∀ t, z.localMillis t / 86400000 = z.localDay (t / 1000) := by
      intro t
      rw [TimeZone.localMillis, TimeZone.localDay]
      omega
    rw [utcDate_eq_iff, hday, hday]
  midnight := hbase

/-- Five hours behind UTC, and four from 2019-03-10 to 2019-11-03. -/
def eastern2019 : TimeZone where
  offset second := if 1552201200 ≤ second ∧ second < 1572760800 then -14400 else -18000
  mono := by
    intro second second' h
    split_ifs <;> omega

/-- An application `app` with its log in `/logs/`. -/
def easternEnv : LocalEnv := .ofZone eastern2019 18000 (fun _ => by decide) "/logs/" "app"

theorem fits_beforeMidnight : InInt64 1562039970000 ∧ InInt64 0 := by decide
theorem fits_afterMidnight : InInt64 1562040030000 ∧ InInt64 0 := by decide

/-- One line half a minute before the end of 2019-07-01. -/
def beforeMidnight : WriteCall := oneItem 1562039970000 0 "a" fits_beforeMidnight

/-- One line half a minute after it. -/
def afterMidnight : WriteCall := oneItem 1562040030000 0 "b" fits_afterMidnight

/-- The line of July 2 goes to the file of July 1. -/
theorem not_filedByDate : ([beforeMidnight, afterMidnight].map WriteCall.second).Pairwise (· ≤ ·) ∧
    ¬ EveryStep (WriteStep easternEnv.toLogEnv) (.start easternEnv.toLogEnv 1000 6 1562000000000 {})
      (FiledByDate easternEnv.toLogEnv) [beforeMidnight, afterMidnight] := by
  refine ⟨by decide, fun h => ?_⟩
  let s := (LogState.start easternEnv.toLogEnv 1000 6 1562000000000 {}).write easternEnv.toLogEnv
    beforeMidnight.time beforeMidnight.nodes
  have hcalls : EveryStep (WriteStep easternEnv.toLogEnv)
      (.start easternEnv.toLogEnv 1000 6 1562000000000 {}) (FiledByDate easternEnv.toLogEnv)
      ([beforeMidnight] ++ [afterMidnight]) := h
  have hstep : FiledByDate easternEnv.toLogEnv s afterMidnight := hcalls.last (Run.nil.snoc rfl)
  have hfile : (s.beforeLines easternEnv.toLogEnv afterMidnight).bind (fun s => s.writer.metricOut) =
      some "/logs/app-metrics.log.2019-07-01".toList := by decide
  obtain ⟨s₁, hs₁, hout₁⟩ := Option.bind_eq_some_iff.mp hfile
  obtain ⟨out, hout, hlines⟩ := hstep s₁ hs₁
  obtain rfl := Option.some.inj (hout.symm.trans hout₁)
  have hdate := (hlines _ (List.mem_singleton_self _)).takeWhile
  exact absurd hdate (by decide)

end SentinelCpp.Log
