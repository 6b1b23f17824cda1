import SentinelCpp.Log.FileOrder

/-!
# The next file of a day

`NextFileNameOfDay` takes the number of the last file, in the comparator's order, among all names that
contain the writer's model, and adds one.  When that last file is one of the writer's own, the path is
free, because the writer's files of a day are ordered by their numbers (`comparator_dayPath`); when it
belongs to another application, its number says nothing about the writer's files.
-/

namespace SentinelCpp.Log

open Lib Stat

/-! ### Directories -/

theorem mem_listFiles {d : Disk} {order : IterationOrder Text} {dir n : Text} :
    n ∈ d.listFiles order dir ↔ '/' ∉ n ∧ d.content? (dir ++ n) ≠ none := by
  rw [Disk.listFiles, (order.perm _).mem_iff, List.mem_filterMap, Disk.content?, ne_eq,
    Assoc.find?_eq_none, not_not, List.mem_map]
  constructor
  · rintro ⟨f, hf, h⟩
    rw [Option.ite_none_right_eq_some] at h
    obtain ⟨⟨⟨t, ht⟩, hslash⟩, hn⟩ := h
    rw [← ht, List.drop_left] at hslash hn
    obtain rfl : t = n := Option.some.inj hn
    exact ⟨hslash, f, hf, ht.symm⟩
  · rintro ⟨hslash, f, hf, hfn⟩
    refine ⟨f, hf, ?_⟩
    rw [hfn, List.drop_left, if_pos ⟨List.prefix_append _ _, hslash⟩]

/-- The path is one that `ListMetricFiles` shows once the file is there. -/
def Listable (env : LogEnv) (path : Text) : Prop :=
  env.baseDir <+: path ∧ '/' ∉ path.drop env.baseDir.length ∧
    fileNameMatches (path.drop env.baseDir.length) (formMetricFileName env) = true ∧
    isIndexOrLock (path.drop env.baseDir.length) = false

instance (env : LogEnv) (path : Text) : Decidable (Listable env path) :=
  inferInstanceAs (Decidable (_ ∧ _))

theorem mem_listMetricFiles {env : LogEnv} {d : Disk} {p : Text} :
    p ∈ listMetricFiles env.dirOrder d env.baseDir (formMetricFileName env) ↔
      Listable env p ∧ d.content? p ≠ none := by
  unfold listMetricFiles sortFiles
  rw [(List.perm_insertionSort _ _).mem_iff, List.mem_map]
  constructor
  · rintro ⟨n, hn, rfl⟩
    obtain ⟨hlist, hkind⟩ := List.mem_filter.mp hn
    obtain ⟨hslash, hthere⟩ := mem_listFiles.mp hlist
    rw [Bool.and_eq_true, Bool.not_eq_true'] at hkind
    refine ⟨⟨List.prefix_append _ _, ?_⟩, hthere⟩
    rw [List.drop_left]
    exact ⟨hslash, hkind⟩
  · rintro ⟨⟨⟨n, rfl⟩, hn⟩, hthere⟩
    rw [List.drop_left] at hn
    refine ⟨n, List.mem_filter.mpr ⟨mem_listFiles.mpr ⟨hn.1, hthere⟩, ?_⟩, rfl⟩
    rw [Bool.and_eq_true, Bool.not_eq_true']
    exact hn.2

/-- No index file is listed. -/
theorem Listable.ne_index {env : LogEnv} {p : Text} (h : Listable env p) (q : Text) :
    p ≠ formIndexFileName q := by
  have hlisted : p ∈ listMetricFiles env.dirOrder (Disk.empty.openOut p) env.baseDir
      (formMetricFileName env) := by
    rw [mem_listMetricFiles, Disk.content?_openOut, if_pos rfl]
    exact ⟨h, Option.some_ne_none _⟩
  exact ne_index_of_mem_listMetricFiles hlisted q

theorem openOut_content?_ne_none {d : Disk} {path q : Text} :
    (d.openOut path).content? q ≠ none ↔ q = path ∨ d.content? q ≠ none := by
  rw [Disk.content?_openOut]
  by_cases hq : q = path
  · simp [hq]
  · simp [hq]

theorem isIndexOrLock_of_getLast {n : Text} {c : Char} (h : n.getLast? = some c) (hx : c ≠ 'x')
    (hk : c ≠ 'k') : isIndexOrLock n = false := by
  have hend : ∀ {t : Text} {e : Char}, t.getLast? = some e → e ≠ c → ¬ t <:+ n := by
    rintro t e ht hne ⟨u, rfl⟩
    rw [List.getLast?_append, ht, Option.some_or] at h
    exact hne (Option.some.inj h)
  have hidx : ¬ kMetricIndexFileSuffix <:+ n := hend rfl hx.symm
  have hlck : ¬ ".lck".toList <:+ n := hend rfl hk.symm
  rw [isIndexOrLock, decide_eq_false hidx, decide_eq_false hlck]
  rfl

/-! ### The files that contain the model -/

section Model

variable (env : LogEnv) (d : Disk) (time : ℤ)

/-- `file_name_model`. -/
def fileNameModel : Text := formMetricFileName env ++ ['.'] ++ env.formatDate time

/-- The path of the first file of the day. -/
def dayPath : Text := env.baseDir ++ fileNameModel env time

/-- The sorted paths that `NextFileNameOfDay` looks at. -/
def modelFiles : List Text :=
  sortFiles (((d.listFiles env.dirOrder env.baseDir).filter fun n =>
    fileNameModel env time <:+: n && !isIndexOrLock n).map (env.baseDir ++ ·))

/-- The number that the last field of a path is, 0 if it is none. -/
def trailingNumber (path : Text) : ℤ :=
  let lastField := ((path.splitOn '.').getLast?).getD []
  if lastField ≠ [] ∧ lastField.length ≤ 10 ∧ lastField.all Char.isDigit = true then
    toInt32 ((simpleAtoi lastField).getD 0)
  else 0

theorem nextFileNameOfDay_eq (singleFileSize totalFileCount now : ℤ) :
    (LogState.mk (.mk' env singleFileSize totalFileCount now) d).nextFileNameOfDay env time =
      match (modelFiles env d time).getLast? with
      | none => dayPath env time
      | some last => dayPath env time ++ '.' :: decimal (toInt32 (trailingNumber last + 1)) := by
  unfold LogState.nextFileNameOfDay modelFiles dayPath fileNameModel trailingNumber
  dsimp only [MetricWriter.mk']
  split <;> rename_i heq <;> rw [heq]
  simp

end Model

variable {env : LogEnv} {d : Disk} {time : ℤ}

/-- One of the writer's own files of the day: the first, or one with a number that has a successor. -/
def IsOwn (env : LogEnv) (time : ℤ) (path : Text) : Prop :=
  path = dayPath env time ∨
    ∃ k : ℕ, k < 2 ^ 31 - 1 ∧ path = dayPath env time ++ '.' :: decimal (k : ℤ)

/-- The fields of the writer's files of the day begin with those of the first one, and the comparator
looks at none behind them. -/
theorem splitOn_dayPath (env : LogEnv) (time : ℤ) : ∃ G, 2 ≤ G.length ∧
    (dayPath env time).splitOn '.' = G ++ [env.formatDate time] := by
  have hdate : '.' ∉ env.formatDate time := fun h =>
    absurd ((env.formatDate_plain time).2 _ h) (by decide)
  refine ⟨(stem env).splitOn '.' ++ baseFields env, ?_, ?_⟩
  · have hstem : 1 ≤ ((stem env).splitOn '.').length :=
      List.length_pos_of_ne_nil (List.splitOn_ne_nil _ _)
    rw [List.length_append, baseFields, List.length_cons]
    omega
  · have hpath : dayPath env time =
        env.baseDir ++ formMetricFileName env ++ '.' :: env.formatDate time := by
      simp [dayPath, fileNameModel]
    rw [hpath, List.splitOn_append_cons_self, splitOn_base, List.splitOn_eq_singleton hdate]

theorem comparator_dayPath {name1 name2 : Text} {A B : List Text}
    (h1 : name1.splitOn '.' = (dayPath env time).splitOn '.' ++ A)
    (h2 : name2.splitOn '.' = (dayPath env time).splitOn '.' ++ B) :
    metricFileNameComparator name1 name2 = lengthThenName name1 name2 := by
  obtain ⟨G, hG, hfields⟩ := splitOn_dayPath env time
  refine comparator_of_common h1 h2 ?_ fun hpid => ?_
  · rw [hfields, List.length_append, List.length_singleton]
    omega
  · rw [hfields, List.length_append, List.length_singleton]
    rcases hG.lt_or_eq with hlt | heq
    · omega
    · -- the third field would be the date
      rw [hfields, List.getD_append_right _ _ _ _ heq.ge, ← heq, Nat.sub_self,
        List.getD_cons_zero] at hpid
      exact absurd ((env.formatDate_plain time).2 'p' (hpid.subset (by decide))) (by decide)

theorem splitOn_dayPath_number (k : ℕ) : (dayPath env time ++ '.' :: decimal (k : ℤ)).splitOn '.' =
    (dayPath env time).splitOn '.' ++ [decimal (k : ℤ)] := by
  rw [List.splitOn_append_cons_self,
    List.splitOn_eq_singleton (not_mem_decimal (by decide) (by decide) _)]

/-- Each of the writer's files of a day is followed by the one with the next number. -/
theorem comparator_next {path : Text} (h : IsOwn env time path) : ∃ n : ℕ, trailingNumber path = n ∧
    n < 2 ^ 31 - 1 ∧ metricFileNameComparator path (dayPath env time ++ '.' :: decimal ((n + 1 : ℕ) : ℤ)) =
      true := by
  rcases h with rfl | ⟨k, hk, rfl⟩
  · refine ⟨0, ?_, by omega, ?_⟩
    · obtain ⟨G, -, hfields⟩ := splitOn_dayPath env time
      have hdigits : ¬ (env.formatDate time).all Char.isDigit = true := by
        rw [List.all_eq_true]
        exact fun hall => absurd (hall _ (env.formatDate_plain time).1) (by decide)
      unfold trailingNumber
      rw [hfields, List.getLast?_concat]
      exact if_neg fun hcond => hdigits hcond.2.2
    · rw [comparator_dayPath (List.append_nil _).symm (splitOn_dayPath_number 1), lengthThenName_iff]
      left
      rw [List.length_append, List.length_cons]
      omega
  · refine ⟨k, ?_, hk, ?_⟩
    · have hlen : (decimal (k : ℤ)).length ≤ 10 := (length_decimal_le_iff (by omega)).mpr (by omega)
      have hall : (decimal (k : ℤ)).all Char.isDigit = true :=
        List.all_eq_true.mpr isDigit_of_mem_decimal
      unfold trailingNumber
      rw [splitOn_dayPath_number, List.getLast?_concat]
      dsimp only [Option.getD_some]
      rw [if_pos ⟨decimal_ne_nil _, hlen, hall⟩, simpleAtoi_decimal ⟨by omega, by omega⟩,
        Option.getD_some]
      exact toInt32_of_bounds (by omega) (by omega)
    · rw [comparator_dayPath (splitOn_dayPath_number k) (splitOn_dayPath_number (k + 1)),
        lengthThenName_iff]
      simp only [List.length_append, List.length_cons, append_lt_append_left_iff,
        List.cons_lt_cons_self]
      rcases decimal_lt_decimal (Nat.lt_add_one k) with hlen | ⟨hlen, htext⟩
      · exact .inl (by omega)
      · exact .inr ⟨by omega, htext⟩

/-- A path in the directory is one that `NextFileNameOfDay` looks at when its name contains the model
and is no index or lock file. -/
theorem mem_modelFiles {path : Text} : path ∈ modelFiles env d time ↔ ∃ n, path = env.baseDir ++ n ∧
    ('/' ∉ n ∧ d.content? path ≠ none) ∧ fileNameModel env time <:+: n ∧ isIndexOrLock n = false := by
  rw [modelFiles, sortFiles, List.mem_insertionSort, List.mem_map]
  simp only [List.mem_filter, Bool.and_eq_true, decide_eq_true_eq, Bool.not_eq_true', mem_listFiles]
  constructor
  · rintro ⟨n, ⟨hlist, hmodel⟩, rfl⟩
    exact ⟨n, rfl, hlist, hmodel⟩
  · rintro ⟨n, rfl, hlist, hmodel⟩
    exact ⟨n, ⟨hlist, hmodel⟩, rfl⟩

theorem getLast?_formatDate (env : LogEnv) (time : ℤ) :
    ∃ c, (env.formatDate time).getLast? = some c ∧ c ≠ 'x' ∧ c ≠ 'k' := by
  have hne : env.formatDate time ≠ [] := List.ne_nil_of_mem (env.formatDate_plain time).1
  refine ⟨_, List.getLast?_eq_some_getLast hne, ?_, ?_⟩
  all_goals
    intro hc
    have hmem := (env.formatDate_plain time).2 _ (List.getLast_mem hne)
    rw [hc] at hmem
    exact absurd hmem (by decide)

/-- The first file of the day is looked at when it is there. -/
theorem dayPath_mem_modelFiles (hslash : '/' ∉ fileNameModel env time)
    (hthere : d.content? (dayPath env time) ≠ none) : dayPath env time ∈ modelFiles env d time := by
  obtain ⟨c, hc, hx, hk⟩ := getLast?_formatDate env time
  refine mem_modelFiles.mpr ⟨_, rfl, ⟨hslash, hthere⟩, List.infix_rfl, ?_⟩
  refine isIndexOrLock_of_getLast (c := c) ?_ hx hk
  rw [fileNameModel, List.getLast?_append, hc, Option.some_or]

/-- And so is the file with a number. -/
theorem number_mem_modelFiles (hslash : '/' ∉ fileNameModel env time) {k : ℕ}
    (hthere : d.content? (dayPath env time ++ '.' :: decimal (k : ℤ)) ≠ none) :
    dayPath env time ++ '.' :: decimal (k : ℤ) ∈ modelFiles env d time := by
  have hne := decimal_ne_nil (k : ℤ)
  have hdigit := isDigit_of_mem_decimal _ (List.getLast_mem hne)
  refine mem_modelFiles.mpr ⟨fileNameModel env time ++ '.' :: decimal (k : ℤ), by simp [dayPath],
    ⟨?_, hthere⟩, List.infix_append' [] _ _, ?_⟩
  · rw [List.mem_append, List.mem_cons, not_or, not_or]
    exact ⟨hslash, by decide, not_mem_decimal (by decide) (by decide) _⟩
  · refine isIndexOrLock_of_getLast (c := (decimal (k : ℤ)).getLast hne) ?_ ?_ ?_
    · rw [List.getLast?_append, List.getLast?_cons, List.getLast?_eq_some_getLast hne]
      rfl
    · exact fun hc => absurd (hc ▸ hdigit) (by decide)
    · exact fun hc => absurd (hc ▸ hdigit) (by decide)

theorem slash_not_mem_of_appName (h : '/' ∉ env.appName) : '/' ∉ fileNameModel env time := by
  have hdate : '/' ∉ env.formatDate time := fun h =>
    absurd ((env.formatDate_plain time).2 _ h) (by decide)
  have happ : '/' ∉ env.appName.map fun c => if c = '.' then '-' else c := by
    intro hmem
    obtain ⟨c, hc, heq⟩ := List.mem_map.mp hmem
    split_ifs at heq with hdot
    · exact absurd heq (by decide)
    · exact h (heq ▸ hc)
  have hpid : '/' ∉ decimal env.pid := not_mem_decimal (by decide) (by decide) _
  have hfixed : '/' ∉ kMetricFile ∧ '/' ∉ ".pid".toList := ⟨by decide, by decide⟩
  unfold fileNameModel formMetricFileName
  cases env.logNameUsePid <;> simp [hdate, happ, hpid, hfixed]

/-- A model with a slash is part of no file name. -/
theorem slash_mem_of_appName (h : '/' ∈ env.appName) : '/' ∈ fileNameModel env time := by
  have happ : '/' ∈ env.appName.map fun c => if c = '.' then '-' else c :=
    List.mem_map.mpr ⟨'/', h, rfl⟩
  unfold fileNameModel formMetricFileName
  cases env.logNameUsePid <;> simp [happ]

/-! ### The order of the files that contain the model -/

/-- The field of a path that the comparator looks at. -/
def comparedField (path : Text) : ℕ := if "pid".toList <+: (path.splitOn '.').getD 2 [] then 3 else 2

/-- What it sorts by when it looks at the same field of all paths. -/
def pathKey (field : ℕ) (path : Text) : Lex (Text × Lex (ℕ × Text)) :=
  toLex ((path.splitOn '.').getD field [], toLex (path.length, path))

theorem pathKey_injective (field : ℕ) : Function.Injective (pathKey field) := by
  intro p q h
  simp only [pathKey, toLex_inj, Prod.mk.injEq] at h
  exact h.2.2

theorem comparator_iff_pathKey {p q : Text} :
    metricFileNameComparator p q = true ↔ pathKey (comparedField p) p < pathKey (comparedField p) q := by
  unfold metricFileNameComparator
  rw [pathKey, pathKey, Prod.Lex.toLex_lt_toLex, Prod.Lex.toLex_lt_toLex]
  dsimp only
  rw [← comparedField]
  generalize (p.splitOn '.').getD (comparedField p) [] = x
  generalize (q.splitOn '.').getD (comparedField p) [] = y
  by_cases hfield : x = y
  · by_cases hlength : p.length = q.length <;> simp [hfield, hlength]
  · simp [hfield]

/-- The comparator looks at the same field of all names that contain the model.  Otherwise it need not be an
order, and what sorting by it leaves last is undefined. -/
def OneField (env : LogEnv) (d : Disk) (time : ℤ) : Prop :=
  ∀ p ∈ modelFiles env d time, ∀ q ∈ modelFiles env d time, comparedField p = comparedField q

/-- Then the last file is the one that all others precede. -/
theorem comparator_last (h : OneField env d time) {p last : Text}
    (hlast : (modelFiles env d time).getLast? = some last) (hp : p ∈ modelFiles env d time)
    (hne : p ≠ last) : metricFileNameComparator p last = true := by
  have hmem : last ∈ modelFiles env d time := List.mem_of_getLast? hlast
  rw [comparator_iff_pathKey, h p hp last hmem]
  refine lt_of_le_of_ne ?_ fun heq => hne (pathKey_injective _ heq)
  rw [modelFiles, sortFiles, List.mem_insertionSort] at hp
  refine le_of_getLast?_insertionSort hp ?_
  rw [← hlast, modelFiles, sortFiles]
  refine congrArg _ ?_
  have hmap := List.map_insertionSort (fun a b : Text => pathKey (comparedField last) a ≤
    pathKey (comparedField last) b) (fun a b => metricFileNameComparator b a = false) id
    (((d.listFiles env.dirOrder env.baseDir).filter fun n =>
      fileNameModel env time <:+: n && !isIndexOrLock n).map (env.baseDir ++ ·)) ?_
  · simpa only [List.map_id] using hmap
  · intro a _ b hb
    rw [id, id, ← Bool.not_eq_true, comparator_iff_pathKey, not_lt]
    have hb' : b ∈ modelFiles env d time := by
      rw [modelFiles, sortFiles, List.mem_insertionSort]
      exact hb
    rw [h b hb' last hmem]

theorem comparator_asymm (h : OneField env d time) {p q : Text} (hp : p ∈ modelFiles env d time)
    (hq : q ∈ modelFiles env d time) (hpq : metricFileNameComparator p q = true) :
    ¬ metricFileNameComparator q p = true := by
  rw [comparator_iff_pathKey] at hpq ⊢
  rw [h q hq p hp]
  exact hpq.not_gt

/-! ### The next path is free -/

/-- There is a file of the day with this number. -/
def HasNumber (env : LogEnv) (d : Disk) (time k : ℤ) : Prop :=
  d.content? (dayPath env time ++ '.' :: decimal k) ≠ none

/-- The number is the one after that in which the path ends, as an `int`; a path that ends in none
counts as 0. -/
def EndsBefore (path : Text) (k : ℤ) : Prop := k = toInt32 (trailingNumber path + 1)

/-- A file that contains the model but is none of the writer's own, and that all others precede. -/
structure ForeignLast (env : LogEnv) (d : Disk) (time : ℤ) (path : Text) : Prop where
  mem : path ∈ modelFiles env d time
  foreign : ¬ IsOwn env time path
  last : ∀ q ∈ modelFiles env d time, q ≠ path → metricFileNameComparator q path = true

/-- The condition on the directory and the name of the application.  With a slash in the name, the first
file of the day must not be there, since no file of the writer is ever listed.  Otherwise no foreign file
that comes last ends in the number before one of the writer's files.  (Where the comparator
does not look at one field, the file that the sorting happens to leave last does not, own or foreign.) -/
def NextIsFree (env : LogEnv) (d : Disk) (time : ℤ) : Prop :=
  ('/' ∈ env.appName → d.content? (dayPath env time) = none) ∧
    (OneField env d time → ∀ path, ForeignLast env d time path → ∀ k, HasNumber env d time k →
      ¬ EndsBefore path k) ∧
    (¬ OneField env d time → ∀ path ∈ (modelFiles env d time).getLast?, ∀ k, HasNumber env d time k →
      ¬ EndsBefore path k)

/-- Without a file that contains the model the first file of the day is created. -/
theorem dayPath_free_iff (hnil : modelFiles env d time = []) : d.content? (dayPath env time) = none ↔
    ('/' ∈ env.appName → d.content? (dayPath env time) = none) := by
  refine ⟨fun h _ => h, fun h => ?_⟩
  by_contra hthere
  have hmem := dayPath_mem_modelFiles (slash_not_mem_of_appName fun hslash => hthere (h hslash)) hthere
  exact absurd hmem (hnil ▸ List.not_mem_nil)

theorem slash_not_mem_of_mem {path : Text} (h : path ∈ modelFiles env d time) : '/' ∉ env.appName := by
  intro hslash
  obtain ⟨n, -, ⟨hn, -⟩, hmodel, -⟩ := mem_modelFiles.mp h
  exact hn (hmodel.subset (slash_mem_of_appName hslash))

/-- Where the comparator is an order, one of the writer's own files that comes last is followed by none. -/
theorem not_hasNumber_of_own (h : OneField env d time) {last : Text}
    (hlast : (modelFiles env d time).getLast? = some last) (hown : IsOwn env time last) {k : ℤ}
    (hk : HasNumber env d time k) : ¬ EndsBefore last k := by
  rintro rfl
  obtain ⟨n, hn, hlt, hnext⟩ := comparator_next hown
  have hsucc : toInt32 (trailingNumber last + 1) = ((n + 1 : ℕ) : ℤ) := by
    rw [hn, toInt32_of_bounds (by omega) (by omega)]
    rfl
  rw [HasNumber, hsucc] at hk
  have hmem : last ∈ modelFiles env d time := List.mem_of_getLast? hlast
  have hnumber := number_mem_modelFiles (slash_not_mem_of_appName (slash_not_mem_of_mem hmem)) hk
  refine comparator_asymm h hmem hnumber hnext (comparator_last h hlast hnumber ?_)
  rintro heq
  rw [heq] at hnext
  exact comparator_asymm h hmem hmem hnext hnext

/-- **A roll overwrites no file** exactly under this condition on the directory. -/
theorem nextFileNameOfDay_free_iff (env : LogEnv) (d : Disk) (singleFileSize totalFileCount now time : ℤ) :
    d.content? ((LogState.mk (.mk' env singleFileSize totalFileCount now) d).nextFileNameOfDay env time) =
        none ↔ NextIsFree env d time := by
  rw [nextFileNameOfDay_eq, NextIsFree]
  cases hlast : (modelFiles env d time).getLast? with
  | none =>
    have hnil : modelFiles env d time = [] := List.getLast?_eq_none_iff.mp hlast
    refine (dayPath_free_iff hnil).trans ⟨fun h => ⟨h, fun _ path hpath => ?_, fun _ path hpath => ?_⟩, And.left⟩
    · exact absurd hpath.mem (hnil ▸ List.not_mem_nil)
    · exact absurd hpath (by simp)
  | some last =>
    have hmem : last ∈ modelFiles env d time := List.mem_of_getLast? hlast
    have hfree : d.content? (dayPath env time ++ '.' :: decimal (toInt32 (trailingNumber last + 1))) =
        none ↔ ∀ k, HasNumber env d time k → ¬ EndsBefore last k := by
      refine ⟨fun h k hk hends => hk (hends ▸ h), fun h => ?_⟩
      by_contra hthere
      exact h _ hthere rfl
    dsimp only
    rw [hfree, and_iff_right fun hslash => absurd hslash (slash_not_mem_of_mem hmem)]
    constructor
    · refine fun h => ⟨fun hfield path hpath => ?_, fun _ path hpath => ?_⟩
      · -- no other file can come last
        have heq : path = last := by
          by_contra hne
          exact comparator_asymm hfield hpath.mem hmem (comparator_last hfield hlast hpath.mem hne)
            (hpath.last last hmem (Ne.symm hne))
        exact heq ▸ h
      · obtain rfl : last = path := Option.some.inj hpath
        exact h
    · rintro ⟨hforeign, hother⟩
      by_cases hfield : OneField env d time
      · by_cases hown : IsOwn env time last
        · exact fun k hk => not_hasNumber_of_own hfield hlast hown hk
        · exact hforeign hfield last ⟨hmem, hown, fun q hq hne => comparator_last hfield hlast hq hne⟩
      · exact hother hfield last rfl

/-- Two files of an application `app` and one of an application `my-app`, all of one day. -/
def sharedDirectory : Disk where
  files := [("/logs/app-metrics.log.1970-01-01".toList, "a\n".toList),
    ("/logs/app-metrics.log.1970-01-01.1".toList, "b\n".toList),
    ("/logs/my-app-metrics.log.1970-01-01".toList, "c\n".toList)]
  nodup := by decide

/-- The longer name of `my-app` comes last and ends in no number, so the file with number 1 is
overwritten. -/
theorem nextFileNameOfDay_overwrites :
    (LogState.mk (.mk' (.utc "/logs/" "app") 100 6 0) sharedDirectory).nextFileNameOfDay
        (.utc "/logs/" "app") 1000 = "/logs/app-metrics.log.1970-01-01.1".toList ∧
      sharedDirectory.content? ((LogState.mk (.mk' (.utc "/logs/" "app") 100 6 0)
        sharedDirectory).nextFileNameOfDay (.utc "/logs/" "app") 1000) ≠ none :=
  ⟨by decide, by decide⟩

end SentinelCpp.Log
