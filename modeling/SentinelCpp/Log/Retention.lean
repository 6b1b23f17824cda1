import SentinelCpp.Log.Complete
import SentinelCpp.Log.NextFile

/-!
# The number of metric files

`CloseAndNewFile` first removes the oldest files beyond the total count and then creates a new one, so
a writer whose directory is full has one file too many from its next file on.  The limit is kept by
the runs in which every new file finds room, and these remove nothing.
-/

namespace SentinelCpp.Log

open Lib Stat

/-! ### What the limit asks for -/

/-- The files that `ListMetricFiles` shows for the writer. -/
def listed (env : LogEnv) (s : LogState) : List Text :=
  listMetricFiles env.dirOrder s.disk s.writer.baseDir s.writer.baseFileName

/-- The path `p` was created later than `q`, the last time for both. -/
def CreatedAfter (d : Disk) (p q : Text) : Prop := ∃ A B, d.created = A ++ p :: B ∧ q ∉ p :: B

/-- The limit is kept, the open file is there, and no removed file is newer than a listed one. -/
structure Retained (env : LogEnv) (s : LogState) : Prop where
  count_le : ((listed env s).length : ℤ) ≤ s.writer.totalFileCount
  current : ∀ out, s.writer.metricOut = some out → s.disk.content? out ≠ none
  oldest : ∀ p ∈ s.disk.removed, s.disk.content? p = none → ∀ q ∈ listed env s,
    ¬ CreatedAfter s.disk p q

/-- A new file finds room: fewer files than the limit are listed, or it is listed already, or it is not
of the kind that is listed. -/
def HasRoom (env : LogEnv) (s : LogState) (path : Text) : Prop :=
  ((listed env s).length : ℤ) < s.writer.totalFileCount ∨ path ∈ listed env s ∨ ¬ Listable env path

instance (env : LogEnv) (s : LogState) (path : Text) : Decidable (HasRoom env s path) :=
  inferInstanceAs (Decidable (_ ∨ _))

/-- Room for the file that `Write` opens when none is open. -/
def RoomToOpen (env : LogEnv) (s : LogState) (time : ℤ) : Prop :=
  s.writer.metricOut = none → HasRoom env s (s.nextFileNameOfDay env time)

instance (env : LogEnv) (s : LogState) (time : ℤ) : Decidable (RoomToOpen env s time) :=
  inferInstanceAs (Decidable (_ → _))

/-- Room for the file that a new day opens. -/
def RoomToRoll (env : LogEnv) (s : LogState) (time second : ℤ) : Prop :=
  s.isNewDay s.writer.lastSecond second = true → HasRoom env s (s.nextFileNameOfDay env time)

instance (env : LogEnv) (s : LogState) (time second : ℤ) : Decidable (RoomToRoll env s time second) :=
  inferInstanceAs (Decidable (_ → _))

/-- Room for the file that `DoWrite` opens when the current one has grown too long. -/
def RoomToWrite (env : LogEnv) (s : LogState) (time : ℤ) (nodes : List MetricItem) : Prop :=
  let s' := s.put (unlines (nodes.map (MetricItem.toFatString env.formatTime)))
  s'.isExceedMaxSingleFileSize = true → HasRoom env s' (s'.nextFileNameOfDay env time)

instance (env : LogEnv) (s : LogState) (time : ℤ) (nodes : List MetricItem) :
    Decidable (RoomToWrite env s time nodes) := inferInstanceAs (Decidable (_ → _))

/-- Room for each new file of the call, at the point of the call where it is opened. -/
def RoomFor (env : LogEnv) (s : LogState) (c : WriteCall) : Prop :=
  let s₁ := s.ensureOpen env c.time
  let s₂ := s₁.writeIndex c.second s₁.tellp
  RoomToOpen env s c.time ∧
    (c.second = s.writer.lastSecond →
      RoomToWrite env (s₁.indexFirstWrite c.second) c.time c.items) ∧
    (s.writer.lastSecond < c.second →
      RoomToRoll env s₂ c.time c.second ∧
        RoomToWrite env (s₂.rollOnNewDay env c.time c.second) c.time c.items)

instance (env : LogEnv) (s : LogState) (c : WriteCall) : Decidable (RoomFor env s c) :=
  inferInstanceAs (Decidable (_ ∧ (_ → _) ∧ (_ → _ ∧ _)))

/-- One call of `Write`. -/
def WriteStep (env : LogEnv) (s : LogState) (c : WriteCall) (s' : LogState) : Prop :=
  s.write env c.time c.nodes = s'

theorem writeStep_det (env : LogEnv) (s : LogState) (c : WriteCall) (s₁ s₂ : LogState)
    (h₁ : WriteStep env s c s₁) (h₂ : WriteStep env s c s₂) : s₁ = s₂ := h₁.symm.trans h₂

/-! ### Listed files -/

variable {env : LogEnv} {s s' : LogState} {path p : Text}

/-- The writer works on the directory and the names of its surroundings, and its limit is positive. -/
structure Settled (env : LogEnv) (w : MetricWriter) : Prop where
  baseDir : w.baseDir = env.baseDir
  baseFileName : w.baseFileName = formMetricFileName env
  total : 1 ≤ w.totalFileCount ∧ w.totalFileCount < 2 ^ 31

theorem mem_listed (h : Settled env s.writer) :
    p ∈ listed env s ↔ Listable env p ∧ s.disk.content? p ≠ none := by
  rw [listed, h.baseDir, h.baseFileName, mem_listMetricFiles]

theorem nodup_listed (env : LogEnv) (s : LogState) : (listed env s).Nodup := nodup_listMetricFiles

/-- As many files are listed when the same files are there. -/
theorem length_listed_eq (h : Settled env s.writer) (h' : Settled env s'.writer)
    (hsame : ∀ p, s'.disk.content? p ≠ none ↔ s.disk.content? p ≠ none) :
    (listed env s').length = (listed env s).length := by
  refine List.Perm.length_eq ((List.perm_ext_iff_of_nodup (nodup_listed env s') (nodup_listed env s)).mpr ?_)
  intro p
  rw [mem_listed h', mem_listed h, hsame]

/-- A directory within the limit loses nothing. -/
theorem removeMoreFiles_of_le (h : Settled env s.writer)
    (hle : ((listed env s).length : ℤ) ≤ s.writer.totalFileCount) : s.removeMoreFiles env = s := by
  obtain ⟨h1, h2⟩ := h.total
  have hmod : s.writer.totalFileCount % 2 ^ 64 = s.writer.totalFileCount :=
    Int.emod_eq_of_lt (by omega) (by omega)
  unfold LogState.removeMoreFiles
  dsimp only
  rw [hmod, if_pos (.inr hle)]

theorem closeAndNewFile_of_le (h : Settled env s.writer)
    (hle : ((listed env s).length : ℤ) ≤ s.writer.totalFileCount) (path : Text) :
    s.closeAndNewFile env path =
      ⟨{ s.writer with metricOut := some path },
        (s.disk.openOut path).openOut (formIndexFileName path)⟩ := by
  rw [LogState.closeAndNewFile, removeMoreFiles_of_le h hle]

/-- A file listed after that is the new one or was listed before. -/
theorem mem_listed_closeAndNewFile (h : Settled env s.writer)
    (hle : ((listed env s).length : ℤ) ≤ s.writer.totalFileCount) {path q : Text} :
    q ∈ listed env (s.closeAndNewFile env path) ↔
      q ∈ listed env s ∨ (q = path ∧ Listable env path) := by
  have hnew := closeAndNewFile_of_le h hle path
  have h' : Settled env (s.closeAndNewFile env path).writer := by
    rw [hnew]
    exact ⟨h.baseDir, h.baseFileName, h.total⟩
  constructor
  · intro hq
    have hidx := ne_index_of_mem_listMetricFiles hq path
    rw [mem_listed h'] at hq
    obtain ⟨hlistable, hthere⟩ := hq
    rw [hnew, openOut_content?_ne_none, openOut_content?_ne_none] at hthere
    rcases hthere.resolve_left hidx with rfl | hthere
    · exact .inr ⟨rfl, hlistable⟩
    · exact .inl ((mem_listed h).mpr ⟨hlistable, hthere⟩)
  · rintro (hq | ⟨rfl, hlistable⟩)
    · rw [mem_listed h] at hq
      rw [mem_listed h', hnew, openOut_content?_ne_none, openOut_content?_ne_none]
      exact ⟨hq.1, .inr (.inr hq.2)⟩
    · rw [mem_listed h', hnew, openOut_content?_ne_none, openOut_content?_ne_none]
      exact ⟨hlistable, .inr (.inl rfl)⟩

/-- **One new file** keeps the limit exactly when it finds room. -/
theorem length_closeAndNewFile_le_iff (h : Settled env s.writer)
    (hle : ((listed env s).length : ℤ) ≤ s.writer.totalFileCount) (path : Text) :
    ((listed env (s.closeAndNewFile env path)).length : ℤ) ≤ s.writer.totalFileCount ↔
      HasRoom env s path := by
  unfold HasRoom
  by_cases hadds : path ∈ listed env s ∨ ¬ Listable env path
  · have hsub : listed env (s.closeAndNewFile env path) ⊆ listed env s := by
      intro q hq
      rcases (mem_listed_closeAndNewFile h hle).mp hq with hq | ⟨rfl, hlistable⟩
      · exact hq
      · exact hadds.resolve_right (not_not.mpr hlistable)
    have hlen := (List.subperm_of_subset (nodup_listed env _) hsub).length_le
    exact iff_of_true (by omega) (.inr hadds)
  · rw [not_or, not_not] at hadds
    have hperm : (listed env (s.closeAndNewFile env path)).Perm (path :: listed env s) := by
      refine (List.perm_ext_iff_of_nodup (nodup_listed env _)
        (List.nodup_cons.mpr ⟨hadds.1, nodup_listed env s⟩)).mpr fun q => ?_
      rw [mem_listed_closeAndNewFile h hle, List.mem_cons, and_iff_left hadds.2, or_comm]
    have hlen := hperm.length_eq
    rw [List.length_cons] at hlen
    constructor
    · intro hafter
      exact .inl (by omega)
    · rintro (hroom | hno)
      · omega
      · exact absurd hno (by rw [not_or, not_not]; exact hadds)

/-! ### Runs with room -/

/-- Nothing has been removed, and the limit is kept. -/
structure Spared (env : LogEnv) (s : LogState) : Prop where
  settled : Settled env s.writer
  removed : s.disk.removed = []
  count_le : ((listed env s).length : ℤ) ≤ s.writer.totalFileCount
  current : ∀ out, s.writer.metricOut = some out → s.disk.content? out ≠ none

namespace Spared

theorem retained (h : Spared env s) : Retained env s where
  count_le := h.count_le
  current := h.current
  oldest := by
    intro p hp
    rw [h.removed] at hp
    exact absurd hp List.not_mem_nil

/-- The same files are there, and the writer is the same up to its seconds. -/
theorem congr (h : Spared env s) (hw : Settled env s'.writer)
    (htotal : s'.writer.totalFileCount = s.writer.totalFileCount)
    (hout : s'.writer.metricOut = s.writer.metricOut) (hremoved : s'.disk.removed = s.disk.removed)
    (hsame : ∀ p, s'.disk.content? p ≠ none ↔ s.disk.content? p ≠ none) : Spared env s' where
  settled := hw
  removed := hremoved.trans h.removed
  count_le := by
    rw [length_listed_eq h.settled hw hsame, htotal]
    exact h.count_le
  current := fun out hcur => (hsame out).mpr (h.current out (hout ▸ hcur))

theorem append (h : Spared env s) (path text : Text) :
    Spared env { s with disk := s.disk.append path text } := by
  refine h.congr h.settled rfl rfl rfl fun p => ?_
  rw [Disk.content?_append]
  split_ifs
  · rw [ne_eq, Option.map_eq_none_iff]
  · exact Iff.rfl

theorem put (h : Spared env s) (text : Text) : Spared env (s.put text) := by
  unfold LogState.put
  cases s.writer.metricOut with
  | none => exact h
  | some out => exact h.append out text

theorem writeIndex (h : Spared env s) (time offset : ℤ) : Spared env (s.writeIndex time offset) := by
  unfold LogState.writeIndex
  cases s.writer.metricOut with
  | none => exact h
  | some out => exact h.append _ _

theorem indexFirstWrite (h : Spared env s) (second : ℤ) : Spared env (s.indexFirstWrite second) := by
  unfold LogState.indexFirstWrite
  split_ifs
  · let s' : LogState := { s with writer := { s.writer with firstWrite := false } }
    have h' : Spared env s' := h.congr ⟨h.settled.baseDir, h.settled.baseFileName, h.settled.total⟩ rfl rfl
      rfl fun _ => Iff.rfl
    exact h'.writeIndex second s'.tellp
  · exact h

theorem closeAndNewFile (h : Spared env s) (hroom : HasRoom env s path) :
    Spared env (s.closeAndNewFile env path) := by
  have hcount := (length_closeAndNewFile_le_iff h.settled h.count_le path).mpr hroom
  have hnew := closeAndNewFile_of_le h.settled h.count_le path
  refine ⟨?_, ?_, ?_, fun out hout => ?_⟩
  · rw [hnew]
    exact ⟨h.settled.baseDir, h.settled.baseFileName, h.settled.total⟩
  · rw [hnew]
    exact h.removed
  · rw [show (s.closeAndNewFile env path).writer.totalFileCount = s.writer.totalFileCount by rw [hnew]]
    exact hcount
  · rw [hnew] at hout ⊢
    obtain rfl : path = out := Option.some.inj hout
    rw [openOut_content?_ne_none, openOut_content?_ne_none]
    exact .inr (.inl rfl)

theorem ensureOpen (h : Spared env s) {time : ℤ} (hroom : RoomToOpen env s time) :
    Spared env (s.ensureOpen env time) := by
  unfold LogState.ensureOpen
  split_ifs with hout
  · -- the base name is set again to what it is
    have hsame : ({ s with writer := { s.writer with baseFileName := formMetricFileName env } } :
        LogState) = s := by rw [← h.settled.baseFileName]
    dsimp only
    rw [hsame]
    exact h.closeAndNewFile (hroom (Option.isNone_iff_eq_none.mp hout))
  · exact h

theorem rollOnNewDay (h : Spared env s) {time second : ℤ} (hroom : RoomToRoll env s time second) :
    Spared env (s.rollOnNewDay env time second) := by
  unfold LogState.rollOnNewDay
  split_ifs with hday
  · exact h.closeAndNewFile (hroom hday)
  · exact h

theorem doWrite (h : Spared env s) {time : ℤ} {nodes : List MetricItem}
    (hroom : RoomToWrite env s time nodes) : Spared env (s.doWrite env time nodes) := by
  unfold LogState.doWrite
  dsimp only
  split_ifs with hsize
  · exact (h.put _).closeAndNewFile (hroom hsize)
  · exact h.put _

/-- **A call whose new files find room** removes nothing and keeps the limit. -/
theorem write (h : Spared env s) {c : WriteCall} (hroom : RoomFor env s c) :
    Spared env (s.write env c.time c.nodes) := by
  obtain ⟨hopen, hsame, hlater⟩ := hroom
  have h₁ := h.ensureOpen hopen
  rcases LogState.write_cases env s c with ⟨-, hw⟩ | ⟨heq, hw⟩ | ⟨hlt, s₂, rfl, hd, hw⟩
  · rw [hw]
    exact h₁
  · rw [hw]
    exact (h₁.indexFirstWrite c.second).doWrite (hsame heq)
  · obtain ⟨hroll, hwrite⟩ := hlater hlt
    have h₄ := ((h₁.writeIndex c.second (s.ensureOpen env c.time).tellp).rollOnNewDay hroll).doWrite hwrite
    refine h₄.congr ?_ ?_ ?_ ?_ fun p => ?_
    · rw [hw]
      exact ⟨h₄.settled.baseDir, h₄.settled.baseFileName, h₄.settled.total⟩
    · rw [hw]
    · rw [hw]
    · rw [hd]
    · rw [hd]

end Spared

/-- **The retention limit holds in every run whose new files find room**: then at most `total_file_count`
files are listed after every call, the open file is there, and nothing has been removed. -/
theorem always_retained (env : LogEnv) (singleFileSize totalFileCount now : ℤ) (d : Disk)
    (htotal : 1 ≤ totalFileCount ∧ totalFileCount < 2 ^ 31)
    (hd : ((listMetricFiles env.dirOrder d env.baseDir (formMetricFileName env)).length : ℤ) ≤
      totalFileCount) (calls : List WriteCall)
    (hroom : EveryStep (WriteStep env) (.start env singleFileSize totalFileCount now d) (RoomFor env)
      calls) :
    Always (WriteStep env) (.start env singleFileSize totalFileCount now d) (Retained env) calls := by
  have hstart : Spared env (.start env singleFileSize totalFileCount now d) := by
    refine ⟨⟨rfl, rfl, htotal⟩, rfl, hd, fun out hout => ?_⟩
    exact absurd hout (Option.some_ne_none out).symm
  intro calls₁ s hprefix hrun
  refine Spared.retained (Run.hist (I := fun calls₁ s => calls₁ <+: calls → Spared env s)
    (fun _ => hstart) ?_ hrun hprefix)
  rintro calls₂ s₂ c s₃ hrun₂ ih rfl hprefix₂
  exact (ih ((List.prefix_append _ _).trans hprefix₂)).write (hroom calls₂ s₂ c hprefix₂ hrun₂)

/-- Two days, one item on each. -/
def twoDays : List WriteCall :=
  [oneItem 1000 0 "a" fits_firstSecond, oneItem 86400000 0 "b" fits_nextDay]

/-- With a limit of one file, two files are listed on the second day. -/
theorem not_always_retained :
    ¬ Always (WriteStep (.utc "/logs/" "app")) (.start (.utc "/logs/" "app") 1000 1 0 {})
      (Retained (.utc "/logs/" "app")) twoDays := by
  intro h
  have hcount := (h.last ((Run.nil.snoc rfl).snoc rfl)).count_le
  revert hcount
  decide

/-- With a limit of two files both find room. -/
theorem roomFor_twoDays :
    EveryStep (WriteStep (.utc "/logs/" "app")) (.start (.utc "/logs/" "app") 1000 2 0 {})
      (RoomFor (.utc "/logs/" "app")) twoDays :=
  everyStep_cons rfl (writeStep_det _) (by decide)
    (everyStep_cons rfl (writeStep_det _) (by decide) everyStep_nil)

theorem always_retained_twoDays :
    Always (WriteStep (.utc "/logs/" "app")) (.start (.utc "/logs/" "app") 1000 2 0 {})
      (Retained (.utc "/logs/" "app")) twoDays :=
  always_retained (.utc "/logs/" "app") 1000 2 0 {} (by omega) (by decide) twoDays roomFor_twoDays

end SentinelCpp.Log
