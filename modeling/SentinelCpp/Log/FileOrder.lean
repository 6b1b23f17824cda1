import Mathlib.Data.List.GetD
import Mathlib.Data.Prod.Lex
import Mathlib.Data.Set.List
import SentinelCpp.Log.Complete

/-!
# The order of metric files

`MetricFileNameComparator` splits the two paths at their dots and compares the third field (the fourth,
when the third begins with `pid`), then the lengths, then the paths.  The field is the date when no dot
stands in the directory (`comparator_of_date`); with a dot there it is a field that all files have in
common, and only lengths and paths decide (`comparator_of_common`).
-/

namespace SentinelCpp.Log

open Lib

/-! ### The fields of a path -/

/-- The path up to the first dot of the file name. -/
def stem (env : LogEnv) : Text :=
  env.baseDir ++ (env.appName.map fun c => if c = '.' then '-' else c) ++ "-metrics".toList

/-- The fields of a base name after the first one. -/
def baseFields (env : LogEnv) : List Text :=
  "log".toList :: if env.logNameUsePid then ["pid".toList ++ decimal env.pid] else []

theorem dot_not_mem_pid (env : LogEnv) : '.' ∉ "pid".toList ++ decimal env.pid := by
  rw [List.mem_append, not_or]
  exact ⟨by decide, not_mem_decimal (by decide) (by decide) env.pid⟩

theorem splitOn_base (env : LogEnv) :
    (env.baseDir ++ formMetricFileName env).splitOn '.' = (stem env).splitOn '.' ++ baseFields env := by
  have hbase : env.baseDir ++ formMetricFileName env = stem env ++ '.' :: ("log".toList ++
      if env.logNameUsePid then '.' :: ("pid".toList ++ decimal env.pid) else []) := by
    unfold formMetricFileName stem kMetricFile
    cases env.logNameUsePid <;> simp
  rw [hbase, List.splitOn_append_cons_self, baseFields]
  cases env.logNameUsePid with
  | false => rfl
  | true =>
    rw [if_pos rfl, if_pos rfl, List.splitOn_append_cons_self,
      List.splitOn_eq_singleton (dot_not_mem_pid env)]
    rfl

/-- Without a dot in the directory there is one field before these. -/
theorem splitOn_stem {env : LogEnv} (h : '.' ∉ env.baseDir) : (stem env).splitOn '.' = [stem env] := by
  refine List.splitOn_eq_singleton ?_
  simp only [stem, List.mem_append, List.mem_map, not_or, not_exists, not_and]
  refine ⟨⟨h, fun c _ hc => ?_⟩, by decide⟩
  split_ifs at hc with hdot
  · exact absurd hc (by decide)
  · exact hdot hc

/-- With a dot there are at least two. -/
theorem length_splitOn_stem {env : LogEnv} (h : '.' ∈ env.baseDir) :
    2 ≤ ((stem env).splitOn '.').length := by
  obtain ⟨u, v, huv⟩ := List.mem_iff_append.mp h
  have hstem : stem env = u ++ '.' :: (v ++ ((env.appName.map fun c => if c = '.' then '-' else c) ++
      "-metrics".toList)) := by
    rw [stem, huv]
    simp
  have hpos : ∀ s : Text, 1 ≤ (s.splitOn '.').length := fun s =>
    List.length_pos_of_ne_nil (List.splitOn_ne_nil _ _)
  rw [hstem, List.splitOn_append_cons_self, List.length_append]
  have hu := hpos u
  have hv := hpos (v ++ ((env.appName.map fun c => if c = '.' then '-' else c) ++ "-metrics".toList))
  omega

/-! ### The comparator -/

/-- What the comparator does when the fields that it looks at are the same. -/
def lengthThenName (name1 name2 : Text) : Bool :=
  if name1.length ≠ name2.length then name1.length < name2.length else name1 < name2

theorem lengthThenName_iff {a b : Text} :
    lengthThenName a b = true ↔ a.length < b.length ∨ a.length = b.length ∧ a < b := by
  unfold lengthThenName
  split_ifs with h
  · simp [h]
  · simp only [ne_eq, not_not] at h
    simp [h]

variable {F A B : List Text} {name1 name2 : Text}

/-- The two names begin with the fields that the comparator looks at. -/
theorem comparator_of_common (h1 : name1.splitOn '.' = F ++ A) (h2 : name2.splitOn '.' = F ++ B)
    (hlen : 2 < F.length) (hpid : "pid".toList <+: F.getD 2 [] → 3 < F.length) :
    metricFileNameComparator name1 name2 = lengthThenName name1 name2 := by
  have hget : ∀ i < F.length, (F ++ A).getD i [] = (F ++ B).getD i [] := fun i hi => by
    rw [List.getD_append _ _ _ _ hi, List.getD_append _ _ _ _ hi]
  have hthird : (F ++ A).getD 2 [] = F.getD 2 [] := List.getD_append _ _ _ _ hlen
  unfold metricFileNameComparator lengthThenName
  rw [h1, h2]
  dsimp only
  rw [hthird]
  by_cases hp : "pid".toList <+: F.getD 2 []
  · rw [if_pos hp, if_neg (not_not.mpr (hget 3 (hpid hp)))]
  · rw [if_neg hp, if_neg (not_not.mpr (hget 2 hlen))]

/-- The field that the comparator looks at follows the common ones. -/
theorem comparator_of_date {x y : Text} (h1 : name1.splitOn '.' = F ++ x :: A)
    (h2 : name2.splitOn '.' = F ++ y :: B)
    (hF : (F.length = 2 ∧ ¬ "pid".toList <+: x) ∨ (F.length = 3 ∧ "pid".toList <+: F.getD 2 [])) :
    metricFileNameComparator name1 name2 =
      if x ≠ y then decide (x < y) else lengthThenName name1 name2 := by
  have hx : ∀ {z : Text} {C : List Text}, (F ++ z :: C).getD F.length [] = z := fun {z C} => by
    rw [List.getD_append_right _ _ _ _ le_rfl, Nat.sub_self, List.getD_cons_zero]
  unfold metricFileNameComparator lengthThenName
  rw [h1, h2]
  dsimp only
  rcases hF with ⟨hlen, hpid⟩ | ⟨hlen, hpid⟩
  · have hfield : (F ++ x :: A).getD 2 [] = x := hlen ▸ hx
    have hfield' : (F ++ y :: B).getD 2 [] = y := hlen ▸ hx
    rw [hfield, if_neg hpid, hfield, hfield']
  · have hthird : (F ++ x :: A).getD 2 [] = F.getD 2 [] := List.getD_append _ _ _ _ (by omega)
    have hfield : (F ++ x :: A).getD 3 [] = x := hlen ▸ hx
    have hfield' : (F ++ y :: B).getD 3 [] = y := hlen ▸ hx
    rw [hthird, if_pos hpid, hfield, hfield']

/-! ### The files of a writer -/

/-- A date that is printed as `yyyy-MM-dd`. -/
structure LogDate where
  year : ℕ
  month : ℕ
  day : ℕ
  valid : year < 10000 ∧ month < 100 ∧ day < 100 := by decide
  deriving DecidableEq

namespace LogDate

def text (x : LogDate) : Text :=
  padded 4 x.year ++ '-' :: (padded 2 x.month ++ '-' :: padded 2 x.day)

/-- The order of time. -/
def Before (x y : LogDate) : Prop :=
  x.year < y.year ∨ x.year = y.year ∧ (x.month < y.month ∨ x.month = y.month ∧ x.day < y.day)

instance (x y : LogDate) : Decidable (x.Before y) := inferInstanceAs (Decidable (_ ∨ _))

variable {x y : LogDate}

theorem length_text (x : LogDate) : x.text.length = 10 := by
  have h1 : (padded 4 (x.year : ℤ)).length = 4 := length_padded (by omega) x.valid.1
  have h2 : (padded 2 (x.month : ℤ)).length = 2 := length_padded (by omega) x.valid.2.1
  have h3 : (padded 2 (x.day : ℤ)).length = 2 := length_padded (by omega) x.valid.2.2
  simp only [text, List.length_append, List.length_cons, h1, h2, h3]

/-- **Dates are ordered as texts** as they are in time. -/
theorem text_lt_iff : x.text < y.text ↔ x.Before y := by
  obtain ⟨hy, hm, hd⟩ := x.valid
  obtain ⟨hy', hm', hd'⟩ := y.valid
  have h4 : ∀ {n : ℕ}, n < 10000 → (padded 4 (n : ℤ)).length = 4 := fun h => length_padded (by omega) h
  have h2 : ∀ {n : ℕ}, n < 100 → (padded 2 (n : ℤ)).length = 2 := fun h => length_padded (by omega) h
  have hdash : ∀ {s t : Text}, '-' :: s < '-' :: t ↔ s < t := List.cons_lt_cons_self
  rw [text, text, append_lt_append_iff ((h4 hy).trans (h4 hy').symm), hdash,
    append_lt_append_iff ((h2 hm).trans (h2 hm').symm), hdash, padded_lt_iff (by omega) hy hy',
    padded_lt_iff (by omega) hm hm', padded_lt_iff (by omega) hd hd', padded_inj, padded_inj, Before]

theorem text_injective : Function.Injective text := by
  intro x y h
  have hx : ¬ x.Before y := fun hb => absurd (text_lt_iff.mpr hb) (h ▸ lt_irrefl _)
  have hy : ¬ y.Before x := fun hb => absurd (text_lt_iff.mpr hb) (h ▸ lt_irrefl _)
  obtain ⟨a, b, c, _⟩ := x
  obtain ⟨a', b', c', _⟩ := y
  simp only [Before] at hx hy
  simp only [LogDate.mk.injEq]
  omega

/-- A date is one field, and does not begin with `pid`. -/
theorem text_plain (x : LogDate) : '.' ∉ x.text ∧ ¬ "pid".toList <+: x.text := by
  have hplain : ∀ c ∈ x.text, c.isDigit = true ∨ c = '-' := by
    intro c hc
    simp only [text, List.mem_append, List.mem_cons] at hc
    rcases hc with hc | rfl | hc | rfl | hc
    · exact .inl (isDigit_of_mem_padded c hc)
    · exact .inr rfl
    · exact .inl (isDigit_of_mem_padded c hc)
    · exact .inr rfl
    · exact .inl (isDigit_of_mem_padded c hc)
  refine ⟨fun h => absurd (hplain _ h) (by decide), fun h => ?_⟩
  exact absurd (hplain 'p' (h.subset (by decide))) (by decide)

end LogDate

/-- A metric file of the writer: its date, and its number unless it is the first of the day. -/
structure LogFile where
  date : LogDate
  number : Option ℕ

namespace LogFile

/-- What follows the date. -/
def suffix (f : LogFile) : Text :=
  match f.number with
  | none => []
  | some n => '.' :: decimal n

/-- `base.yyyy-MM-dd` or `base.yyyy-MM-dd.n`. -/
def name (baseFileName : Text) (f : LogFile) : Text :=
  baseFileName ++ '.' :: (f.date.text ++ f.suffix)

/-- The file without number is the first of its day. -/
def rank (f : LogFile) : ℕ :=
  match f.number with
  | none => 0
  | some n => n + 1

/-- The order of the files: by date, and on one day by number. -/
def Before (f g : LogFile) : Prop :=
  f.date.Before g.date ∨ f.date = g.date ∧ f.rank < g.rank

instance (f g : LogFile) : Decidable (f.Before g) := inferInstanceAs (Decidable (_ ∨ _))

variable {f g : LogFile}

theorem suffix_lt (h : f.rank < g.rank) :
    f.suffix.length < g.suffix.length ∨ f.suffix.length = g.suffix.length ∧ f.suffix < g.suffix := by
  obtain ⟨df, nf⟩ := f
  obtain ⟨dg, ng⟩ := g
  cases ng with
  | none => exact absurd h (by simp [rank])
  | some m =>
    cases nf with
    | none => exact .inl (by simp [suffix])
    | some n =>
      have hlt : n < m := by simpa [rank] using h
      simp only [suffix, List.length_cons]
      rcases decimal_lt_decimal hlt with hlen | ⟨hlen, htext⟩
      · exact .inl (by omega)
      · exact .inr ⟨by omega, List.cons_lt_cons_self.mpr htext⟩

theorem suffix_ne_of_rank_lt (h : f.rank < g.rank) : f.suffix ≠ g.suffix := by
  intro heq
  rcases suffix_lt h with hlen | ⟨-, htext⟩
  · exact absurd hlen (heq ▸ lt_irrefl _)
  · exact absurd htext (heq ▸ lt_irrefl _)

theorem eq_of_rank (hdate : f.date = g.date) (h : f.rank = g.rank) : f = g := by
  obtain ⟨df, nf⟩ := f
  obtain ⟨dg, ng⟩ := g
  obtain rfl : df = dg := hdate
  cases nf with
  | none =>
    cases ng with
    | none => rfl
    | some m => exact absurd h (Nat.succ_ne_zero m).symm
  | some n =>
    cases ng with
    | none => exact absurd h (Nat.succ_ne_zero n)
    | some m =>
      obtain rfl : n = m := Nat.succ.inj h
      rfl

theorem suffix_injective_of_date (hdate : f.date = g.date) (h : f.suffix = g.suffix) : f = g := by
  rcases lt_trichotomy f.rank g.rank with hr | hr | hr
  · exact absurd h (suffix_ne_of_rank_lt hr)
  · exact eq_of_rank hdate hr
  · exact absurd h.symm (suffix_ne_of_rank_lt hr)

variable (env : LogEnv)

def path (f : LogFile) : Text := env.baseDir ++ f.name (formMetricFileName env)

theorem path_eq (f : LogFile) :
    f.path env = env.baseDir ++ formMetricFileName env ++ '.' :: (f.date.text ++ f.suffix) := by
  rw [path, name, List.append_assoc]

theorem splitOn_path (f : LogFile) : ∃ A, (f.path env).splitOn '.' =
    ((stem env).splitOn '.' ++ baseFields env) ++ f.date.text :: A := by
  rw [path_eq, List.splitOn_append_cons_self, splitOn_base]
  have hdate := f.date.text_plain.1
  cases hn : f.number with
  | none =>
    refine ⟨[], ?_⟩
    rw [suffix, hn, List.append_nil, List.splitOn_eq_singleton hdate]
  | some n =>
    refine ⟨(decimal (n : ℤ)).splitOn '.', ?_⟩
    rw [suffix, hn, List.splitOn_append_cons_self_of_not_mem hdate]

theorem length_path (f : LogFile) :
    (f.path env).length = (env.baseDir ++ formMetricFileName env).length + 11 + f.suffix.length := by
  rw [path_eq]
  simp only [List.length_append, List.length_cons, f.date.length_text]
  omega

theorem path_lt_iff : f.path env < g.path env ↔ f.date.text ++ f.suffix < g.date.text ++ g.suffix := by
  rw [path_eq, path_eq, append_lt_append_left_iff, List.cons_lt_cons_self]

theorem rest_injective (h : f.date.text ++ f.suffix = g.date.text ++ g.suffix) : f = g := by
  obtain ⟨hdate, hsuffix⟩ := List.append_inj h (f.date.length_text.trans g.date.length_text.symm)
  exact suffix_injective_of_date (LogDate.text_injective hdate) hsuffix

theorem name_injective (baseFileName : Text) : Function.Injective (name baseFileName) :=
  fun _ _ h => rest_injective (List.cons.inj (List.append_cancel_left h)).2

theorem path_injective : Function.Injective (path env) :=
  fun _ _ h => name_injective _ (List.append_cancel_left h)

/-- Lengths and paths compare what stands behind the base name. -/
theorem lengthThenName_path : lengthThenName (f.path env) (g.path env) = true ↔
    f.suffix.length < g.suffix.length ∨
      f.suffix.length = g.suffix.length ∧ f.date.text ++ f.suffix < g.date.text ++ g.suffix := by
  have hlt : (env.baseDir ++ formMetricFileName env).length + 11 + f.suffix.length <
      (env.baseDir ++ formMetricFileName env).length + 11 + g.suffix.length ↔
        f.suffix.length < g.suffix.length := by omega
  have heq : (env.baseDir ++ formMetricFileName env).length + 11 + f.suffix.length =
      (env.baseDir ++ formMetricFileName env).length + 11 + g.suffix.length ↔
        f.suffix.length = g.suffix.length := by omega
  rw [lengthThenName_iff, length_path, length_path, path_lt_iff, hlt, heq]

/-- Without a dot in the directory the dates are compared first. -/
theorem comparator_of_plain {env : LogEnv} (h : '.' ∉ env.baseDir) (f g : LogFile) :
    metricFileNameComparator (f.path env) (g.path env) =
      if f.date.text ≠ g.date.text then decide (f.date.text < g.date.text)
      else lengthThenName (f.path env) (g.path env) := by
  obtain ⟨A, hA⟩ := f.splitOn_path env
  obtain ⟨B, hB⟩ := g.splitOn_path env
  refine comparator_of_date hA hB ?_
  rw [splitOn_stem h, baseFields]
  cases env.logNameUsePid with
  | false => exact .inl ⟨rfl, f.date.text_plain.2⟩
  | true => exact .inr ⟨rfl, List.prefix_append _ _⟩

/-- With a dot only lengths and paths decide. -/
theorem comparator_of_dot {env : LogEnv} (h : '.' ∈ env.baseDir) (f g : LogFile) :
    metricFileNameComparator (f.path env) (g.path env) =
      lengthThenName (f.path env) (g.path env) := by
  obtain ⟨A, hA⟩ := f.splitOn_path env
  obtain ⟨B, hB⟩ := g.splitOn_path env
  have hstem := length_splitOn_stem h
  refine comparator_of_common hA hB ?_ fun hpid => ?_
  · rw [List.length_append, baseFields, List.length_cons]
    omega
  · rw [List.length_append]
    rcases hstem.lt_or_eq with hlt | heq
    · rw [baseFields, List.length_cons]
      omega
    · -- two fields, then `log`, which does not begin with `pid`
      rw [List.getD_append_right _ _ _ _ heq.ge, ← heq] at hpid
      rw [Nat.sub_self, baseFields, List.getD_cons_zero] at hpid
      exact absurd hpid (by decide)

/-! Keys that the comparator sorts by -/

def plainKey (f : LogFile) : Lex (Text × Lex (ℕ × Text)) :=
  toLex (f.date.text, toLex (f.suffix.length, f.suffix))

def dotKey (f : LogFile) : Lex (ℕ × Text) := toLex (f.suffix.length, f.date.text ++ f.suffix)

theorem plainKey_injective : Function.Injective plainKey := by
  intro f g h
  simp only [plainKey, toLex_inj, Prod.mk.injEq] at h
  exact suffix_injective_of_date (LogDate.text_injective h.1) h.2.2

theorem dotKey_injective : Function.Injective dotKey := by
  intro f g h
  simp only [dotKey, toLex_inj, Prod.mk.injEq] at h
  exact rest_injective h.2

theorem plainKey_lt_iff : plainKey f < plainKey g ↔ f.date.text < g.date.text ∨
    f.date.text = g.date.text ∧ (f.suffix.length < g.suffix.length ∨
      f.suffix.length = g.suffix.length ∧ f.suffix < g.suffix) := by
  rw [plainKey, plainKey, Prod.Lex.toLex_lt_toLex, Prod.Lex.toLex_lt_toLex]

theorem dotKey_lt_iff : dotKey f < dotKey g ↔ f.suffix.length < g.suffix.length ∨
    f.suffix.length = g.suffix.length ∧ f.date.text ++ f.suffix < g.date.text ++ g.suffix := by
  rw [dotKey, dotKey, Prod.Lex.toLex_lt_toLex]

/-- In time order is in the order of this key. -/
theorem Before.plainKey_lt (h : f.Before g) : plainKey f < plainKey g := by
  rw [plainKey_lt_iff]
  rcases h with hdate | ⟨hdate, hrank⟩
  · exact .inl (LogDate.text_lt_iff.mpr hdate)
  · exact .inr ⟨by rw [hdate], suffix_lt hrank⟩

theorem Before.ne (h : f.Before g) : f ≠ g := by
  rintro rfl
  exact lt_irrefl _ h.plainKey_lt

theorem Before.not_date (h : f.Before g) : ¬ g.date.Before f.date := by
  rcases h with hdate | ⟨hdate, -⟩
  · rw [← LogDate.text_lt_iff] at hdate ⊢
    exact hdate.not_gt
  · rw [hdate, ← LogDate.text_lt_iff]
    exact lt_irrefl _

/-- In time order is in the order of the other key unless the later name is shorter. -/
theorem Before.dotKey_le_iff (h : f.Before g) :
    dotKey f ≤ dotKey g ↔ f.suffix.length ≤ g.suffix.length := by
  rw [← not_lt, dotKey_lt_iff, append_lt_append_iff (g.date.length_text.trans f.date.length_text.symm)]
  rcases h with hdate | ⟨hdate, hrank⟩
  · have hlt := LogDate.text_lt_iff.mpr hdate
    have hnot : ¬ g.date.text < f.date.text := hlt.not_gt
    have hne : g.date.text ≠ f.date.text := hlt.ne'
    simp [hnot, hne]
  · rcases suffix_lt hrank with hlen | ⟨hlen, htext⟩
    · rw [hdate]
      simp [hlen.le, hlen.not_gt, hlen.ne']
    · rw [hdate]
      simp [hlen, htext.not_gt]

end LogFile

/-! ### Listing -/

open LogFile

variable {env : LogEnv}

/-- Sorting paths by the comparator is sorting files by a key. -/
theorem sortFiles_paths_iff {β : Type*} [LinearOrder β] {key : LogFile → β}
    (hkey : Function.Injective key) (hcmp : ∀ f g : LogFile,
      metricFileNameComparator (f.path env) (g.path env) = true ↔ key f < key g)
    {paths : List Text} {fs : List LogFile} (hperm : paths.Perm (fs.map (path env))) :
    sortFiles paths = fs.map (path env) ↔ fs.Pairwise fun f g => key f ≤ key g := by
  obtain ⟨fs', rfl⟩ : paths ∈ Set.range (List.map (path env)) := by
    rw [Set.range_list_map]
    intro p hp
    obtain ⟨f, -, rfl⟩ := List.mem_map.mp (hperm.mem_iff.mp hp)
    exact ⟨f, rfl⟩
  have hsort : sortFiles (fs'.map (path env)) =
      (fs'.insertionSort fun f g => key f ≤ key g).map (path env) := by
    refine (List.map_insertionSort _ _ (path env) fs' fun f _ g _ => ?_).symm
    rw [← not_lt, ← hcmp, Bool.not_eq_true]
  rw [hsort, (path_injective env).list_map.eq_iff,
    insertionSort_eq_iff hkey ((List.map_perm_map_iff (path_injective env)).mp hperm)]

/-- The metric files of a directory are these. -/
def HasMetricFiles (env : LogEnv) (d : Disk) (fs : List LogFile) : Prop :=
  ∀ n, (n ∈ d.listFiles env.dirOrder env.baseDir ∧ fileNameMatches n (formMetricFileName env) = true ∧
      isIndexOrLock n = false) ↔ ∃ f ∈ fs, f.name (formMetricFileName env) = n

theorem HasMetricFiles.of_filter_eq {d : Disk} {fs : List LogFile}
    (h : (d.listFiles env.dirOrder env.baseDir).filter (fun n =>
      fileNameMatches n (formMetricFileName env) && !isIndexOrLock n) =
        fs.map (name (formMetricFileName env))) : HasMetricFiles env d fs := by
  intro n
  rw [← List.mem_map, ← h, List.mem_filter, Bool.and_eq_true, Bool.not_eq_true']

/-- **Metric files are listed oldest first** exactly when there is no dot in the directory, or no file
has a longer number than a file of a later date. -/
theorem listMetricFiles_iff (env : LogEnv) (d : Disk) (fs : List LogFile)
    (horder : fs.Pairwise LogFile.Before) (hfiles : HasMetricFiles env d fs) :
    listMetricFiles env.dirOrder d env.baseDir (formMetricFileName env) = fs.map (path env) ↔
      '.' ∉ env.baseDir ∨
        ∀ f ∈ fs, ∀ g ∈ fs, f.date.Before g.date → f.suffix.length ≤ g.suffix.length := by
  have hnodup : fs.Nodup := horder.imp fun h => h.ne
  have hperm : (((d.listFiles env.dirOrder env.baseDir).filter fun n =>
      fileNameMatches n (formMetricFileName env) && !isIndexOrLock n).map (env.baseDir ++ ·)).Perm
        (fs.map (path env)) := by
    have hnames : ((d.listFiles env.dirOrder env.baseDir).filter fun n =>
        fileNameMatches n (formMetricFileName env) && !isIndexOrLock n).Perm
          (fs.map (name (formMetricFileName env))) := by
      refine (List.perm_ext_iff_of_nodup (nodup_listFiles.filter _)
        (hnodup.map (name_injective _))).mpr fun n => ?_
      rw [List.mem_filter, List.mem_map, Bool.and_eq_true, Bool.not_eq_true']
      exact hfiles n
    have hmap := hnames.map (env.baseDir ++ ·)
    rw [List.map_map] at hmap
    exact hmap
  unfold listMetricFiles
  by_cases hdot : '.' ∈ env.baseDir
  · have hcmp : ∀ f g : LogFile, metricFileNameComparator (f.path env) (g.path env) = true ↔
        dotKey f < dotKey g := fun f g => by
      rw [comparator_of_dot hdot, lengthThenName_path, dotKey_lt_iff]
    rw [sortFiles_paths_iff dotKey_injective hcmp hperm]
    constructor
    · intro hkeys
      have hlater : fs.Pairwise fun f g => f.date.Before g.date → f.suffix.length ≤ g.suffix.length :=
        horder.imp₂ (fun f g hbefore hkey _ => hbefore.dotKey_le_iff.mp hkey) hkeys
      have hearlier : fs.Pairwise fun f g => g.date.Before f.date → g.suffix.length ≤ f.suffix.length :=
        horder.imp fun hbefore hdate => absurd hdate hbefore.not_date
      exact .inr fun f hf g hg => hlater.forall_of_forall_of_flip (fun _ _ _ => le_rfl) hearlier hf hg
    · intro h
      have hlen := h.resolve_left (not_not.mpr hdot)
      refine horder.imp_of_mem fun {f g} hf hg hbefore => hbefore.dotKey_le_iff.mpr ?_
      rcases hbefore with hdate | ⟨-, hrank⟩
      · exact hlen f hf g hg hdate
      · rcases suffix_lt hrank with h | ⟨h, -⟩
        · exact h.le
        · exact h.le
  · have hcmp : ∀ f g : LogFile, metricFileNameComparator (f.path env) (g.path env) = true ↔
        plainKey f < plainKey g := fun f g => by
      rw [comparator_of_plain hdot, plainKey_lt_iff]
      by_cases hdate : f.date.text = g.date.text
      · rw [if_neg (not_not.mpr hdate), lengthThenName_path, hdate, append_lt_append_left_iff]
        simp
      · rw [if_pos hdate]
        simp [hdate]
    rw [sortFiles_paths_iff plainKey_injective hcmp hperm]
    exact iff_of_true (horder.imp fun h => h.plainKey_lt.le) (.inl hdot)

/-! Three files that the writer of an application `app` makes, the second one when the first is full. -/

def threeFiles : List LogFile :=
  [⟨{ year := 1970, month := 1, day := 1 }, none⟩, ⟨{ year := 1970, month := 1, day := 1 }, some 1⟩,
    ⟨{ year := 1970, month := 1, day := 2 }, none⟩]

def threeFilesDisk (baseDir : String) : Disk :=
  ((LogState.start (.utc baseDir "app") 60 6 0 .empty).writes (.utc baseDir "app")
    [oneItem 1000 0 "a" fits_firstSecond, oneItem 2000 0 "b" fits_nextSecond,
      oneItem 86400000 0 "c" fits_nextDay]).disk

theorem threeFiles_before : threeFiles.Pairwise LogFile.Before := by decide

theorem listMetricFiles_iff_threeFiles :
    listMetricFiles (.insertion Text) (threeFilesDisk "/logs/") "/logs/".toList "app-metrics.log".toList =
        threeFiles.map (path (.utc "/logs/" "app")) ↔
      '.' ∉ "/logs/".toList ∨ ∀ f ∈ threeFiles, ∀ g ∈ threeFiles, f.date.Before g.date →
        f.suffix.length ≤ g.suffix.length :=
  listMetricFiles_iff (.utc "/logs/" "app") (threeFilesDisk "/logs/") threeFiles threeFiles_before
    (.of_filter_eq (by decide))

/-- In the directory `./` the file of the second day is listed before the second file of the first. -/
theorem not_listed_oldest_first :
    threeFiles.Pairwise LogFile.Before ∧
      HasMetricFiles (.utc "./" "app") (threeFilesDisk "./") threeFiles ∧
        listMetricFiles (.insertion Text) (threeFilesDisk "./") "./".toList "app-metrics.log".toList ≠
          threeFiles.map (path (.utc "./" "app")) :=
  ⟨threeFiles_before, .of_filter_eq (by decide), by decide⟩

end SentinelCpp.Log
