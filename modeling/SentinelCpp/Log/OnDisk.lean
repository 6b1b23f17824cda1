import SentinelCpp.Log.NextFile

/-!
# What the writer leaves in its directory

A directory stays readable whatever the writer does in it: every listed metric file and its index hold
the texts of one segment (`HoldsLogs`), also when files are removed, when a path is created a second
time, and when the directory held the files of earlier writers at the start.
-/

namespace SentinelCpp.Log

open Lib Stat

/-- The entries are seconds of 64-bit times, and the numbers of the items fit. -/
def Written64 (l : Segment) : Prop :=
  (∀ k, Mark.entry k ∈ l → ∃ t, InInt64 t ∧ k = t.tdiv 1000) ∧ ∀ x ∈ items l, x.Fits

/-- Each listed metric file holds a segment, together with its index. -/
def Disk.HoldsLogs (env : LogEnv) (d : Disk) : Prop :=
  ∀ p ∈ listMetricFiles env.dirOrder d env.baseDir (formMetricFileName env),
    ∃ l, d.Holds env (p, l) ∧ Written64 l

theorem Written64.nil : Written64 [] :=
  ⟨fun _ h => absurd h List.not_mem_nil, fun _ h => absurd h List.not_mem_nil⟩

theorem Written64.append {l l' : Segment} (h : Written64 l) (h' : Written64 l') : Written64 (l ++ l') := by
  refine ⟨fun k hk => ?_, fun x hx => ?_⟩
  · exact (List.mem_append.mp hk).elim (h.1 k) (h'.1 k)
  · rw [items_append] at hx
    exact (List.mem_append.mp hx).elim (h.2 x) (h'.2 x)

theorem Written64.entry {t : ℤ} (ht : InInt64 t) : Written64 [.entry (t.tdiv 1000)] := by
  refine ⟨fun k hk => ⟨t, ht, ?_⟩, fun _ h => absurd h List.not_mem_nil⟩
  simpa using hk

theorem Written64.items {xs : List MetricItem} (h : ∀ x ∈ xs, x.Fits) : Written64 (xs.map .item) := by
  refine ⟨fun k hk => ?_, fun x hx => h x (by simpa using hx)⟩
  simp at hk

theorem WriteCall.fits_of_mem_items {c : WriteCall} {x : MetricItem} (hx : x ∈ c.items) : x.Fits := by
  unfold WriteCall.items at hx
  split_ifs at hx
  · obtain ⟨y, hy, rfl⟩ := List.mem_map.mp hx
    exact ⟨c.fits.1, (c.fits.2 y hy).2⟩
  · exact c.fits.2 x hx

variable {env : LogEnv} {s s' : LogState}

/-- The next file is no index file. -/
theorem nextFileNameOfDay_ne_index (s : LogState) (time : ℤ) (q : Text) :
    s.nextFileNameOfDay env time ≠ formIndexFileName q := by
  have hend : ∀ {path : Text} {c : Char}, path.getLast? = some c → c ≠ 'x' →
      path ≠ formIndexFileName q := by
    rintro path c hc hx rfl
    have hlast : (formIndexFileName q).getLast? = some 'x' := by
      rw [formIndexFileName, List.getLast?_append]
      rfl
    exact hx (Option.some.inj (hc.symm.trans hlast))
  obtain ⟨c, hc, hx, -⟩ := getLast?_formatDate env time
  unfold LogState.nextFileNameOfDay
  dsimp only
  split
  · refine hend (c := c) ?_ hx
    rw [List.getLast?_append, List.getLast?_append, hc, Option.some_or, Option.some_or]
  · have hne := decimal_ne_nil
    refine hend (List.getLast?_append_of_ne_nil _ (hne _) |>.trans
      (List.getLast?_eq_some_getLast (hne _))) fun heq => ?_
    rcases mem_decimal (List.getLast_mem (hne _)) with h | h
    · rw [heq] at h
      exact absurd h (by decide)
    · rw [heq] at h
      exact absurd h (by decide)

/-- The writer works in the directory of its surroundings, its open file is no index, and the directory
holds logs. -/
structure Logging (env : LogEnv) (s : LogState) : Prop where
  baseDir : s.writer.baseDir = env.baseDir
  baseFileName : s.writer.baseFileName = formMetricFileName env
  out_ne_index : ∀ out, s.writer.metricOut = some out → ∀ q, out ≠ formIndexFileName q
  logs : s.disk.HoldsLogs env

namespace Logging

/-- Only the names, the open file and the disk matter. -/
theorem of_eq (h : Logging env s) (hdir : s'.writer.baseDir = s.writer.baseDir)
    (hname : s'.writer.baseFileName = s.writer.baseFileName)
    (hout : s'.writer.metricOut = s.writer.metricOut) (hd : s'.disk = s.disk) : Logging env s' :=
  ⟨hdir.trans h.baseDir, hname.trans h.baseFileName, fun out ho => h.out_ne_index out (hout ▸ ho),
    hd ▸ h.logs⟩

/-- Appending to one file of the current segment, or to its index. -/
theorem append (h : Logging env s) {out p text : Text} (hout : s.writer.metricOut = some out)
    (hp : p = out ∨ p = formIndexFileName out)
    (hsegment : ∀ l, s.disk.Holds env (out, l) → Written64 l → ∃ l',
      (s.disk.append p text).Holds env (out, l') ∧ Written64 l') :
    Logging env { s with disk := s.disk.append p text } := by
  refine ⟨h.baseDir, h.baseFileName, h.out_ne_index, fun q hq => ?_⟩
  rw [mem_listMetricFiles] at hq
  have hthere : s.disk.content? q ≠ none := by
    intro hnone
    refine hq.2 ?_
    rw [Disk.content?_append, hnone]
    split_ifs <;> rfl
  obtain ⟨l, hl, hwritten⟩ := h.logs q (mem_listMetricFiles.mpr ⟨hq.1, hthere⟩)
  by_cases hqo : q = out
  · subst hqo
    exact hsegment l hl hwritten
  · -- the file and its index are others than the two of the current segment
    have hq₁ : q ≠ p := by
      rcases hp with rfl | rfl
      · exact hqo
      · exact hq.1.ne_index out
    have hq₂ : formIndexFileName q ≠ p := by
      rcases hp with rfl | rfl
      · exact (h.out_ne_index p hout q).symm
      · exact fun heq => hqo (formIndexFileName_injective heq)
    refine ⟨l, ⟨?_, ?_⟩, hwritten⟩
    · rw [Disk.content?_append, if_neg hq₁]
      exact hl.1
    · rw [Disk.content?_append, if_neg hq₂]
      exact hl.2

theorem put (h : Logging env s) {xs : List MetricItem} (hxs : ∀ x ∈ xs, x.Fits) :
    Logging env (s.put (unlines (xs.map (MetricItem.toFatString env.formatTime)))) := by
  unfold LogState.put
  cases hout : s.writer.metricOut with
  | none => exact h
  | some out =>
    have hne := h.out_ne_index out hout out
    refine h.append hout (.inl rfl) fun l hl hwritten => ⟨l ++ xs.map .item, ⟨?_, ?_⟩,
      hwritten.append (.items hxs)⟩
    · rw [Disk.content?_append, if_pos rfl, hl.1, Option.map_some, metricText_append, metricText,
        metricText, items_map_item]
      rfl
    · rw [Disk.content?_append, if_neg hne.symm, hl.2, indexText_append_items]

theorem writeIndex (h : Logging env s) {t : ℤ} (ht : InInt64 t) :
    Logging env (s.writeIndex (t.tdiv 1000) s.tellp) := by
  unfold LogState.writeIndex
  cases hout : s.writer.metricOut with
  | none => exact h
  | some out =>
    have hne := h.out_ne_index out hout out
    refine h.append hout (.inr rfl) fun l hl hwritten => ⟨l ++ [.entry (t.tdiv 1000)], ⟨?_, ?_⟩,
      hwritten.append (.entry ht)⟩
    · rw [Disk.content?_append, if_neg hne, hl.1, metricText_append]
      simp [metricText]
    · have htellp : s.tellp = (metricText env l).length := by
        rw [LogState.tellp, hout]
        dsimp only
        rw [hl.1, Option.getD_some]
      rw [Disk.content?_append, if_pos rfl, hl.2, Option.map_some, htellp, indexText_concat_entry]
      rfl

/-- A new file is an empty segment, in the place of one that was there under its name. -/
theorem closeAndNewFile (h : Logging env s) {path : Text} (hpath : ∀ q, path ≠ formIndexFileName q) :
    Logging env (s.closeAndNewFile env path) := by
  obtain ⟨-, -, removed, -, hcontent, hindex⟩ := LogState.removeMoreFiles_spec env s
  refine ⟨?_, ?_, ?_, fun q hq => ?_⟩
  · rw [LogState.closeAndNewFile_writer]
    exact h.baseDir
  · rw [LogState.closeAndNewFile_writer]
    exact h.baseFileName
  · intro out hout
    obtain rfl : path = out := Option.some.inj hout
    exact hpath
  · rw [mem_listMetricFiles] at hq
    obtain ⟨hlistable, hthere⟩ := hq
    have hidx := hlistable.ne_index path
    by_cases hqp : q = path
    · subst hqp
      refine ⟨[], ⟨?_, ?_⟩, .nil⟩
      · rw [LogState.closeAndNewFile, Disk.content?_openOut, if_neg hidx, Disk.content?_openOut,
          if_pos rfl]
        rfl
      · rw [LogState.closeAndNewFile, Disk.content?_openOut, if_pos rfl]
        rfl
    · have hsame : ∀ r, r ≠ path → r ≠ formIndexFileName path →
          (s.closeAndNewFile env path).disk.content? r =
            if r ∈ paths removed then none else s.disk.content? r := by
        intro r h1 h2
        rw [LogState.closeAndNewFile, Disk.content?_openOut, if_neg h2, Disk.content?_openOut, if_neg h1,
          hcontent]
      rw [hsame q hqp hidx] at hthere
      have hkept : q ∉ paths removed := fun hin => hthere (if_pos hin)
      rw [if_neg hkept] at hthere
      obtain ⟨l, hl, hwritten⟩ := h.logs q (mem_listMetricFiles.mpr ⟨hlistable, hthere⟩)
      have hindexKept := index_not_mem_paths hindex hkept
      refine ⟨l, ⟨?_, ?_⟩, hwritten⟩
      · rw [hsame q hqp hidx, if_neg hkept]
        exact hl.1
      · rw [hsame _ (fun heq => hpath q heq.symm) fun heq => hqp (formIndexFileName_injective heq),
          if_neg hindexKept]
        exact hl.2

theorem ensureOpen (h : Logging env s) (time : ℤ) : Logging env (s.ensureOpen env time) := by
  unfold LogState.ensureOpen
  split_ifs
  · let s' : LogState := { s with writer := { s.writer with baseFileName := formMetricFileName env } }
    have h' : Logging env s' := ⟨h.baseDir, rfl, h.out_ne_index, h.logs⟩
    exact h'.closeAndNewFile (nextFileNameOfDay_ne_index s' time)
  · exact h

theorem indexFirstWrite (h : Logging env s) {t : ℤ} (ht : InInt64 t) :
    Logging env (s.indexFirstWrite (t.tdiv 1000)) := by
  unfold LogState.indexFirstWrite
  split_ifs
  · let s' : LogState := { s with writer := { s.writer with firstWrite := false } }
    have h' : Logging env s' := h.of_eq rfl rfl rfl rfl
    exact h'.writeIndex ht
  · exact h

theorem rollOnNewDay (h : Logging env s) (time second : ℤ) :
    Logging env (s.rollOnNewDay env time second) := by
  unfold LogState.rollOnNewDay
  split_ifs
  · exact h.closeAndNewFile (nextFileNameOfDay_ne_index s time)
  · exact h

theorem doWrite (h : Logging env s) (time : ℤ) {xs : List MetricItem} (hxs : ∀ x ∈ xs, x.Fits) :
    Logging env (s.doWrite env time xs) := by
  unfold LogState.doWrite
  dsimp only
  split_ifs
  · exact (h.put hxs).closeAndNewFile (nextFileNameOfDay_ne_index _ time)
  · exact h.put hxs

/-- **Every call of `Write`** leaves a directory that holds logs. -/
theorem write (h : Logging env s) (c : WriteCall) : Logging env (s.write env c.time c.nodes) := by
  have hopen := h.ensureOpen c.time
  rcases LogState.write_cases env s c with ⟨-, hw⟩ | ⟨-, hw⟩ | ⟨-, s₁, rfl, hd, hw⟩
  · rw [hw]
    exact hopen
  · rw [hw]
    exact (hopen.indexFirstWrite c.fits.1).doWrite _ fun x hx => c.fits_of_mem_items hx
  · have hlater := ((hopen.writeIndex c.fits.1).rollOnNewDay c.time c.second).doWrite c.time
      fun x hx => c.fits_of_mem_items hx
    refine hlater.of_eq ?_ ?_ ?_ hd
    · rw [hw]
      rfl
    · rw [hw]
      rfl
    · rw [hw]
      rfl

theorem writes (h : Logging env s) (calls : List WriteCall) : Logging env (s.writes env calls) := by
  induction calls generalizing s with
  | nil => exact h
  | cons c calls ih => exact ih (h.write c)

theorem start {d : Disk} (hd : d.HoldsLogs env) (singleFileSize totalFileCount now : ℤ) :
    Logging env (.start env singleFileSize totalFileCount now d) :=
  ⟨rfl, rfl, fun out hout => absurd hout (Option.some_ne_none out).symm, hd⟩

end Logging

end SentinelCpp.Log
