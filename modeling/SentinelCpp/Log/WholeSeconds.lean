import SentinelCpp.Log.MetricReader

/-!
# Whole seconds

`ReadMetrics` stops at its limit but lets the second it is in run on, inside the file it is in.  The
loop over the files does not know of this: it stops as soon as enough lines have been read.  So a second
is cut in half exactly when the line that reaches the limit has its second go on in a later file.
-/

namespace SentinelCpp.Log

open Lib Stat

/-! ### The lines of a list of files -/

/-- The lines that a reading of the file from the offset on comes upon; none if it is not there. -/
def linesOf (d : Disk) (offset : ℤ) (fileName : Text) : List Text :=
  match d.content? fileName with
  | none => []
  | some text => linesFrom text offset

/-- These lines parse to the items. -/
def LinesAre (d : Disk) (offset : ℤ) (fileName : Text) (xs : List MetricItem) : Prop :=
  (linesOf d offset fileName).map MetricItem.fromFatString = xs.map some

instance (d : Disk) (offset : ℤ) (fileName : Text) (xs : List MetricItem) :
    Decidable (LinesAre d offset fileName xs) := inferInstanceAs (Decidable (_ = _))

/-- The items of each of the files: of the first one from the offset on, of the others from the start. -/
inductive FilesAre (d : Disk) : ℤ → List Text → List (List MetricItem) → Prop
  | nil (offset : ℤ) : FilesAre d offset [] []
  | cons {offset : ℤ} {fileName : Text} {fileNames : List Text} {xs : List MetricItem}
      {xss : List (List MetricItem)} (first : LinesAre d offset fileName xs)
      (rest : FilesAre d 0 fileNames xss) : FilesAre d offset (fileName :: fileNames) (xs :: xss)

/-- Of each second that the result has a line of, it has all lines. -/
def KeepsSecondsWhole (xs result : List MetricItem) : Prop :=
  ∀ x ∈ result, result.filter (fun y => y.second = x.second) = xs.filter fun y => y.second = x.second

/-- The second of the `n`-th line does not go on in a file after that line's own. -/
def NthSecondEndsInItsFile (xss : List (List MetricItem)) (n : ℕ) : Prop :=
  ∀ A l₁ x l₂ B, xss = A ++ (l₁ ++ x :: l₂) :: B → A.flatten.length + l₁.length + 1 = n →
    ∀ y ∈ B.flatten, y.second ≠ x.second

/-! ### One file -/

variable {d : Disk} {n : ℕ} {v xs l₁ l₂ : List MetricItem} {x : MetricItem} {lines : List Text}

theorem wantsMore_natCast (hn : n < 2 ^ 64) (v : List MetricItem) :
    wantsMore v n = decide (v.length < n) := by
  have hmod : (n : ℤ) % 2 ^ 64 = n := Int.emod_eq_of_lt (by omega) (by omega)
  rw [wantsMore, hmod, decide_eq_decide]
  omega

/-- With room for all of them, all lines are read. -/
theorem readLines_of_room (hn : n < 2 ^ 64) (hlines : lines.map MetricItem.fromFatString = xs.map some)
    (hroom : v.length + xs.length ≤ n) (lastSecond : ℤ) :
    readLines n lines v lastSecond = some (v ++ xs) := by
  induction xs generalizing lines v lastSecond with
  | nil =>
    rw [List.map_nil, List.map_eq_nil_iff] at hlines
    rw [hlines, readLines, List.append_nil]
  | cons x xs ih =>
    obtain ⟨line, lines, rfl, hline, hlines⟩ := List.map_eq_cons_iff.mp hlines
    rw [List.length_cons] at hroom
    rw [readLines, hline]
    dsimp only
    rw [wantsMore_natCast hn, decide_eq_true (by omega : v.length < n), Bool.true_or, if_pos rfl,
      ih hlines (by rw [List.length_append, List.length_singleton]; omega), List.append_assoc,
      List.singleton_append]

/-- With no room left, the second that was begun is read on. -/
theorem readLines_of_full (hn : n < 2 ^ 64) (hlines : lines.map MetricItem.fromFatString = xs.map some)
    (hfull : n ≤ v.length) (lastSecond : ℤ) :
    readLines n lines v lastSecond =
      some (v ++ xs.takeWhile fun y => y.second = lastSecond) := by
  induction xs generalizing lines v with
  | nil =>
    rw [List.map_nil, List.map_eq_nil_iff] at hlines
    rw [hlines, readLines, List.takeWhile_nil, List.append_nil]
  | cons x xs ih =>
    obtain ⟨line, lines, rfl, hline, hlines⟩ := List.map_eq_cons_iff.mp hlines
    rw [readLines, hline]
    dsimp only
    rw [wantsMore_natCast hn, decide_eq_false (by omega : ¬ v.length < n), Bool.false_or]
    by_cases hx : x.second = lastSecond
    · rw [if_pos (decide_eq_true hx), List.takeWhile_cons_of_pos (by simpa using hx), hx,
        ih hlines (by rw [List.length_append]; omega), List.append_assoc, List.singleton_append]
    · rw [if_neg (by simpa using hx), List.takeWhile_cons_of_neg (by simpa using hx), List.append_nil]

/-- When the limit is reached in the file, the second of the line that reaches it is read on. -/
theorem readLines_of_nth (hn : n < 2 ^ 64)
    (hlines : lines.map MetricItem.fromFatString = (l₁ ++ x :: l₂).map some)
    (hnth : v.length + l₁.length + 1 = n) (lastSecond : ℤ) :
    readLines n lines v lastSecond =
      some (v ++ l₁ ++ x :: l₂.takeWhile fun y => y.second = x.second) := by
  induction l₁ generalizing lines v lastSecond with
  | nil =>
    obtain ⟨line, lines, rfl, hline, hlines⟩ := List.map_eq_cons_iff.mp hlines
    rw [List.length_nil] at hnth
    rw [readLines, hline]
    dsimp only
    rw [wantsMore_natCast hn, decide_eq_true (by omega : v.length < n), Bool.true_or, if_pos rfl,
      readLines_of_full hn hlines (by rw [List.length_append, List.length_singleton]; omega),
      List.append_nil, List.append_assoc, List.singleton_append]
  | cons y l₁ ih =>
    obtain ⟨line, lines, rfl, hline, hlines⟩ := List.map_eq_cons_iff.mp hlines
    rw [List.length_cons] at hnth
    rw [readLines, hline]
    dsimp only
    rw [wantsMore_natCast hn, decide_eq_true (by omega : v.length < n), Bool.true_or, if_pos rfl,
      ih hlines (by rw [List.length_append, List.length_singleton]; omega)]
    simp

/-- What holds of the loop over the lines of the file holds of the file. -/
theorem LinesAre.read {offset : ℤ} {fileName : Text} {r : List MetricItem}
    (h : LinesAre d offset fileName xs)
    (hread : ∀ lines lastSecond, lines.map MetricItem.fromFatString = xs.map some →
      readLines n lines v lastSecond = some r) :
    readMetricsInOneFile d v fileName offset n = some r := by
  unfold LinesAre linesOf at h
  unfold readMetricsInOneFile
  cases htext : d.content? fileName with
  | none =>
    rw [htext] at h
    have hnil := hread [] 0 h
    rwa [readLines] at hnil
  | some text =>
    rw [htext] at h
    exact hread _ _ h

/-! ### The files one after the other -/

variable {xss A B : List (List MetricItem)} {offset : ℤ} {fileName : Text} {fileNames : List Text}

theorem FilesAre.length_eq (h : FilesAre d offset fileNames xss) : fileNames.length = xss.length := by
  induction h with
  | nil => rfl
  | cons first rest ih => rw [List.length_cons, List.length_cons, ih]

/-- The loop over the files, from a first file on that is read in any case. -/
theorem readFiles_of_room (hn : n < 2 ^ 64) (h : FilesAre d offset (fileName :: fileNames) xss)
    (hroom : v.length + xss.flatten.length < n) :
    (readMetricsInOneFile d v fileName offset n).bind (readFiles d n fileNames) =
      some (v ++ xss.flatten) := by
  induction fileNames generalizing fileName offset xss v with
  | nil =>
    cases h with
    | cons first rest =>
      cases rest
      rw [List.flatten_cons, List.flatten_nil, List.append_nil] at hroom ⊢
      rw [first.read fun lines lastSecond hlines =>
        readLines_of_room hn hlines hroom.le lastSecond]
      rfl
  | cons fileName' fileNames ih =>
    cases h with
    | @cons _ _ _ xs xss first rest =>
      rw [List.flatten_cons, List.length_append] at hroom
      have hlen : (v ++ xs).length < n := by
        rw [List.length_append]
        omega
      rw [first.read fun lines lastSecond hlines =>
        readLines_of_room hn hlines (by omega) lastSecond, Option.bind_some, readFiles,
        wantsMore_natCast hn, if_pos (decide_eq_true hlen),
        ih rest (by rw [List.length_append]; omega), List.flatten_cons, List.append_assoc]

theorem readFiles_of_nth (hn : n < 2 ^ 64)
    (h : FilesAre d offset (fileName :: fileNames) (A ++ (l₁ ++ x :: l₂) :: B))
    (hnth : v.length + (A.flatten.length + l₁.length + 1) = n) :
    (readMetricsInOneFile d v fileName offset n).bind (readFiles d n fileNames) =
      some (v ++ (A.flatten ++ l₁ ++ x :: l₂.takeWhile fun y => y.second = x.second)) := by
  induction A generalizing fileName fileNames offset v with
  | nil =>
    rw [List.flatten_nil, List.length_nil] at hnth
    cases h with
    | cons first rest =>
      rw [first.read fun lines lastSecond hlines =>
        readLines_of_nth hn hlines (by omega) lastSecond, Option.bind_some]
      have hfull : wantsMore (v ++ l₁ ++ x :: l₂.takeWhile fun y => y.second = x.second) n = false := by
        rw [wantsMore_natCast hn]
        simp only [List.length_append, List.length_cons, decide_eq_false_iff_not]
        omega
      cases fileNames with
      | nil => simp [readFiles]
      | cons fileName' fileNames =>
        rw [readFiles, hfull, if_neg Bool.false_ne_true]
        simp
  | cons a A ih =>
    rw [List.flatten_cons, List.length_append] at hnth
    cases h with
    | cons first rest =>
      have hlen : (v ++ a).length < n := by
        rw [List.length_append]
        omega
      rw [first.read fun lines lastSecond hlines =>
        readLines_of_room hn hlines (by omega) lastSecond, Option.bind_some]
      cases fileNames with
      | nil =>
        have hlength : ([] : List Text).length = (A ++ (l₁ ++ x :: l₂) :: B).length := rest.length_eq
        rw [List.length_nil, List.length_append, List.length_cons] at hlength
        omega
      | cons fileName' fileNames =>
        rw [readFiles, wantsMore_natCast hn, if_pos (decide_eq_true hlen),
          ih rest (by rw [List.length_append]; omega)]
        simp

/-- Some line is the `n`-th, when there are so many. -/
theorem exists_nth (h1 : 1 ≤ n) (hlen : n ≤ xss.flatten.length) :
    ∃ A l₁ x l₂ B, xss = A ++ (l₁ ++ x :: l₂) :: B ∧ A.flatten.length + l₁.length + 1 = n := by
  induction xss generalizing n with
  | nil =>
    rw [List.flatten_nil, List.length_nil] at hlen
    omega
  | cons xs xss ih =>
    rw [List.flatten_cons, List.length_append] at hlen
    by_cases hin : n ≤ xs.length
    · have hsplit := List.drop_eq_getElem_cons (by omega : n - 1 < xs.length)
      refine ⟨[], xs.take (n - 1), xs[n - 1], xs.drop (n - 1 + 1), xss, ?_, ?_⟩
      · rw [List.nil_append, ← hsplit, List.take_append_drop]
      · rw [List.flatten_nil, List.length_nil, List.length_take]
        omega
    · obtain ⟨A, l₁, x, l₂, B, rfl, hnth⟩ := @ih (n - xs.length) (by omega) (by omega)
      refine ⟨xs :: A, l₁, x, l₂, B, rfl, ?_⟩
      rw [List.flatten_cons, List.length_append]
      omega

/-- Fewer lines than the limit are all read. -/
theorem readMetrics_of_room {pos : ℕ} (hn : n < 2 ^ 64)
    (hfiles : FilesAre d offset (fileNames.drop pos) xss) (hlen : xss.flatten.length < n) :
    readMetrics d fileNames pos offset n = some xss.flatten := by
  unfold readMetrics
  cases hdrop : fileNames.drop pos with
  | nil =>
    rw [hdrop] at hfiles
    cases hfiles
    rfl
  | cons fileName fileNames =>
    rw [hdrop] at hfiles
    dsimp only
    simpa using readFiles_of_room (v := []) hn hfiles (by simpa using hlen)

/-- The reading ends with the second of the `n`-th line, as far as its file has it. -/
theorem readMetrics_of_nth {pos : ℕ} (hn : n < 2 ^ 64)
    (hfiles : FilesAre d offset (fileNames.drop pos) (A ++ (l₁ ++ x :: l₂) :: B))
    (hnth : A.flatten.length + l₁.length + 1 = n) :
    readMetrics d fileNames pos offset n =
      some (A.flatten ++ l₁ ++ x :: l₂.takeWhile fun y => y.second = x.second) := by
  unfold readMetrics
  cases hdrop : fileNames.drop pos with
  | nil =>
    rw [hdrop] at hfiles
    have hlength : ([] : List Text).length = (A ++ (l₁ ++ x :: l₂) :: B).length := hfiles.length_eq
    rw [List.length_nil, List.length_append, List.length_cons] at hlength
    omega
  | cons fileName fileNames =>
    rw [hdrop] at hfiles
    dsimp only
    simpa using readFiles_of_nth (v := []) hn hfiles (by simpa using hnth)

/-- **What a limited reading returns**: the first `n` lines, and then only lines of the second of the
`n`-th. -/
theorem readMetrics_take {pos : ℕ} (hn : n < 2 ^ 64) (h1 : 1 ≤ n)
    (hfiles : FilesAre d offset (fileNames.drop pos) xss) :
    ∃ tail, readMetrics d fileNames pos offset n = some (xss.flatten.take n ++ tail) ∧
      ∀ y ∈ tail, ∃ x, xss.flatten[n - 1]? = some x ∧ y ∈ xss.flatten ∧ y.second = x.second := by
  by_cases hlen : xss.flatten.length < n
  · refine ⟨[], ?_, fun y hy => absurd hy List.not_mem_nil⟩
    rw [readMetrics_of_room hn hfiles hlen, List.take_of_length_le hlen.le, List.append_nil]
  · obtain ⟨A, l₁, x, l₂, B, rfl, hnth⟩ := exists_nth h1 (by omega : n ≤ xss.flatten.length)
    have hflat : (A ++ (l₁ ++ x :: l₂) :: B).flatten =
        (A.flatten ++ l₁) ++ x :: (l₂ ++ B.flatten) := by simp
    have hlength : (A.flatten ++ l₁).length = n - 1 := by
      rw [List.length_append]
      omega
    have htake : (A ++ (l₁ ++ x :: l₂) :: B).flatten.take n = A.flatten ++ l₁ ++ [x] := by
      rw [hflat, List.take_append, hlength, List.take_of_length_le (by omega)]
      have hone : n - (n - 1) = 1 := by omega
      rw [hone]
      rfl
    refine ⟨l₂.takeWhile fun y => y.second = x.second, ?_, fun y hy => ⟨x, ?_, ?_, ?_⟩⟩
    · rw [readMetrics_of_nth hn hfiles hnth, htake]
      simp
    · rw [hflat, ← hlength, List.getElem?_append_right le_rfl, Nat.sub_self]
      rfl
    · rw [hflat]
      have hmem := (List.takeWhile_sublist _).subset hy
      simp [hmem]
    · simpa using List.mem_takeWhile_imp hy

/-! ### Seconds in order -/

/-- Behind the lines of a second that are read on, all lines are of later seconds. -/
theorem second_lt_of_mem_dropWhile (hsorted : (x :: l₂).Pairwise fun y z => y.second ≤ z.second)
    {y : MetricItem} (hy : y ∈ l₂.dropWhile fun y => y.second = x.second) : x.second < y.second := by
  induction l₂ with
  | nil => exact absurd hy List.not_mem_nil
  | cons z l₂ ih =>
    obtain ⟨hx, hz⟩ := List.pairwise_cons.mp hsorted
    rw [List.dropWhile_cons] at hy
    split_ifs at hy with hsame
    · exact ih (List.pairwise_cons.mpr ⟨fun w hw => hx w (List.mem_cons_of_mem z hw),
        (List.pairwise_cons.mp hz).2⟩) hy
    · have hlt : x.second < z.second :=
        lt_of_le_of_ne (hx z List.mem_cons_self) fun h => hsame (decide_eq_true h.symm)
      rcases List.mem_cons.mp hy with rfl | hy
      · exact hlt
      · exact hlt.trans_le ((List.pairwise_cons.mp hz).1 y hy)

/-- What is read keeps the seconds whole exactly when the files after it have no line of the last one. -/
theorem keepsSecondsWhole_iff {before rest : List MetricItem}
    (hsorted : (before ++ (x :: l₂) ++ rest).Pairwise fun y z => y.second ≤ z.second) :
    KeepsSecondsWhole (before ++ (x :: l₂) ++ rest)
        (before ++ x :: l₂.takeWhile fun y => y.second = x.second) ↔
      ∀ y ∈ rest, y.second ≠ x.second := by
  obtain ⟨hhead, -, hrest⟩ := List.pairwise_append.mp hsorted
  obtain ⟨-, htail, hbefore⟩ := List.pairwise_append.mp hhead
  have hsplit : before ++ (x :: l₂) ++ rest =
      (before ++ x :: l₂.takeWhile fun y => y.second = x.second) ++
        ((l₂.dropWhile fun y => y.second = x.second) ++ rest) := by
    simp only [List.append_assoc, List.cons_append]
    rw [← List.append_assoc (l₂.takeWhile _), List.takeWhile_append_dropWhile]
  unfold KeepsSecondsWhole
  rw [hsplit]
  simp only [List.filter_append, List.self_eq_append_right, List.append_eq_nil_iff,
    List.filter_eq_nil_iff, decide_eq_true_eq]
  constructor
  · intro hwhole y hy
    exact (hwhole x (by simp)).2 y hy
  · intro hlater z hz
    -- every line read is of the last second or of an earlier one
    have hzx : z.second ≤ x.second := by
      rcases List.mem_append.mp hz with hz | hz
      · exact hbefore z hz x List.mem_cons_self
      · rcases List.mem_cons.mp hz with rfl | hz
        · exact le_rfl
        · exact (by simpa using List.mem_takeWhile_imp hz : z.second = x.second).le
    refine ⟨fun y hy heq => ?_, fun y hy heq => ?_⟩
    · have hlt := second_lt_of_mem_dropWhile htail hy
      omega
    · have hle := hrest x (by simp) y hy
      have hne := hlater y hy
      omega

/-! ### The whole reading -/

/-- **When a limited reading keeps its seconds whole.**  For lines in the order of their seconds and a
limit of at least 1: exactly when the second of the line that reaches the limit does not go on in a
later file. -/
theorem readMetrics_keepsSecondsWhole_iff {d : Disk} {fileNames : List Text} {pos : ℕ}
    {offset recommendLines : ℤ} {xss : List (List MetricItem)}
    (hfiles : FilesAre d offset (fileNames.drop pos) xss)
    (hsorted : xss.flatten.Pairwise fun x y => x.second ≤ y.second)
    (hlimit : 1 ≤ recommendLines ∧ recommendLines < 2 ^ 31) :
    ∃ result, readMetrics d fileNames pos offset recommendLines = some result ∧
      (KeepsSecondsWhole xss.flatten result ↔ NthSecondEndsInItsFile xss recommendLines.toNat) := by
  obtain ⟨n, rfl⟩ := Int.eq_ofNat_of_zero_le (by omega : 0 ≤ recommendLines)
  have hn : n < 2 ^ 64 := by omega
  rw [Int.toNat_natCast]
  by_cases hlen : xss.flatten.length < n
  · refine ⟨xss.flatten, readMetrics_of_room hn hfiles hlen, fun _ A l₁ x l₂ B h hnth => ?_,
      fun _ x _ => rfl⟩
    rw [h, List.flatten_append, List.flatten_cons, List.length_append, List.length_append,
      List.length_append, List.length_cons] at hlen
    omega
  · -- the reading ends with the second of the `n`-th line, wherever that line stands
    have hread : ∀ A l₁ x l₂ B, xss = A ++ (l₁ ++ x :: l₂) :: B →
        A.flatten.length + l₁.length + 1 = n →
        readMetrics d fileNames pos offset n =
          some (A.flatten ++ l₁ ++ x :: l₂.takeWhile fun y => y.second = x.second) ∧
        (KeepsSecondsWhole xss.flatten
            (A.flatten ++ l₁ ++ x :: l₂.takeWhile fun y => y.second = x.second) ↔
          ∀ y ∈ B.flatten, y.second ≠ x.second) := by
      intro A l₁ x l₂ B h hnth
      refine ⟨readMetrics_of_nth hn (h ▸ hfiles) hnth, ?_⟩
      have hflat : xss.flatten = A.flatten ++ l₁ ++ (x :: l₂) ++ B.flatten := by
        rw [h]
        simp
      rw [hflat] at hsorted ⊢
      exact keepsSecondsWhole_iff hsorted
    obtain ⟨A, l₁, x, l₂, B, h, hnth⟩ := exists_nth (by omega : 1 ≤ n) (by omega : n ≤ xss.flatten.length)
    obtain ⟨hresult, hwhole⟩ := hread A l₁ x l₂ B h hnth
    refine ⟨_, hresult, fun hkeeps A' l₁' x' l₂' B' h' hnth' => ?_, fun hends => ?_⟩
    · obtain ⟨hresult', hwhole'⟩ := hread A' l₁' x' l₂' B' h' hnth'
      rw [hresult, Option.some.injEq] at hresult'
      exact hwhole'.mp (hresult' ▸ hkeeps)
    · exact hwhole.mpr (hends A l₁ x l₂ B h hnth)

/-- The two lines of one second, one in each of two files. -/
def splitSecond : List Text × Disk :=
  let line (name : Text) : Text := "5000|t|".toList ++ name ++ "|1|0|0|0|0\n".toList
  let d := (Disk.empty.openOut "f.1".toList).append "f.1".toList (line "a".toList)
  (["f.1".toList, "f.2".toList],
    (d.openOut "f.2".toList).append "f.2".toList (line "b".toList))

def splitItem (name : String) : MetricItem :=
  { timestamp := 5000, resource := name, passQps := 1, blockQps := 0, completeQps := 0
    exceptionQps := 0, rt := 0 }

theorem filesAre_splitSecond :
    FilesAre splitSecond.2 0 (splitSecond.1.drop 0) [[splitItem "a"], [splitItem "b"]] :=
  .cons (by decide) (.cons (by decide) (.nil 0))

/-- The reading of one line gives one of the two lines of the second. -/
theorem readMetrics_splitSecond :
    FilesAre splitSecond.2 0 (splitSecond.1.drop 0) [[splitItem "a"], [splitItem "b"]] ∧
      readMetrics splitSecond.2 splitSecond.1 0 0 1 = some [splitItem "a"] ∧
      ¬ KeepsSecondsWhole [splitItem "a", splitItem "b"] [splitItem "a"] := by
  refine ⟨filesAre_splitSecond, by decide, fun h => ?_⟩
  have hone := h (splitItem "a") (by simp)
  revert hone
  decide

/-- The reading of two lines of the same files. -/
theorem readMetrics_keepsSecondsWhole_iff_example :
    ∃ result, readMetrics splitSecond.2 splitSecond.1 0 0 2 = some result ∧
      (KeepsSecondsWhole [splitItem "a", splitItem "b"] result ↔
        NthSecondEndsInItsFile [[splitItem "a"], [splitItem "b"]] 2) :=
  readMetrics_keepsSecondsWhole_iff filesAre_splitSecond (by decide) (by omega)

end SentinelCpp.Log
