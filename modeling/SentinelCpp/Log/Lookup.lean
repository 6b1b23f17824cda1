import SentinelCpp.Log.MetricSearcher
import SentinelCpp.Log.Segments

/-!
# Lookups in the metric log

A fresh searcher finds the first index entry that is late enough (`search_spec`), because it reads the
index entries back as the writer wrote them.  Behind that entry lie exactly the items that are late
enough, so what the reader returns is cut from the written items themselves: `find` a prefix of them,
`findByTimeAndResource` those up to the end time.
-/

namespace SentinelCpp.Log

open Lib Stat

/-! ### Reading an index -/

theorem indexLine_append (e : ℤ × ℕ) (rest : Text) :
    indexLine e ++ '\n' :: rest = decimal e.1 ++ ' ' :: (decimal e.2 ++ '\n' :: rest) := by
  simp [indexLine]

/-- The scan of an index stops at the first entry from `b` on. -/
theorem scanIndex_spec {b : ℤ} {es : List (ℤ × ℕ)} {before space : Text}
    (hspace : space.all isSpace = true) {second tmpOffset offsetInIndex : ℤ} {fuel : ℕ}
    (hfuel : es.length < fuel) (hvar : second < b ∨ tmpOffset = -1) :
    (scanIndex b fuel ⟨before ++ (space ++ unlines (es.map indexLine)), before.length, false, false⟩
      second tmpOffset offsetInIndex).1 =
      match es.find? (fun e => b ≤ e.1) with
      | some e => (e.2 : ℤ)
      | none => -1 := by
  induction es generalizing before space second tmpOffset offsetInIndex fuel with
  | nil =>
    obtain ⟨fuel, rfl⟩ := Nat.exists_eq_add_one_of_ne_zero (by simp at hfuel; omega : fuel ≠ 0)
    simp only [List.map_nil, unlines_nil, List.append_nil, scanIndex, Bool.or_self, Bool.false_eq_true,
      if_false, IStream.extractInt_end _ hspace]
    rw [IStream.extractInt_of_fail _ rfl]
    split_ifs with hlt
    · cases fuel <;> rfl
    · exact hvar.resolve_left hlt
  | cons e es ih =>
    obtain ⟨fuel, rfl⟩ := Nat.exists_eq_add_one_of_ne_zero (by simp at hfuel; omega : fuel ≠ 0)
    have htext : before ++ (space ++ unlines ((e :: es).map indexLine)) =
        before ++ (space ++ (decimal e.1 ++ ' ' :: (decimal e.2 ++ '\n' :: unlines (es.map indexLine)))) := by
      rw [List.map_cons, unlines_cons, indexLine_append]
    have hfirst := IStream.extractInt_decimal before
      (decimal e.2 ++ '\n' :: unlines (es.map indexLine)) e.1 (c := ' ') second hspace (by decide)
    have htext₂ : before ++ (space ++ (decimal e.1 ++ ' ' :: (decimal e.2 ++ '\n' ::
        unlines (es.map indexLine)))) = (before ++ (space ++ decimal e.1)) ++ ([' '] ++ (decimal e.2 ++
          '\n' :: unlines (es.map indexLine))) := by simp
    have hsecond := IStream.extractInt_decimal (before ++ (space ++ decimal e.1))
      (unlines (es.map indexLine)) e.2 (c := '\n') tmpOffset (by decide : [' '].all isSpace = true)
      (by decide)
    have hpos : before.length + (space.length + (decimal e.1).length) =
        (before ++ (space ++ decimal e.1)).length := by simp
    have htext₃ : (before ++ (space ++ decimal e.1)) ++ ([' '] ++ (decimal e.2 ++ '\n' ::
        unlines (es.map indexLine))) = (before ++ (space ++ decimal e.1) ++ ([' '] ++ decimal e.2)) ++
          (['\n'] ++ unlines (es.map indexLine)) := by simp
    have hpos₃ : (before ++ (space ++ decimal e.1)).length + ([' '].length + (decimal e.2).length) =
        (before ++ (space ++ decimal e.1) ++ ([' '] ++ decimal e.2)).length := by
      simp only [List.length_append]
    rw [htext, scanIndex]
    simp only [Bool.or_self, Bool.false_eq_true, if_false]
    rw [hfirst]
    dsimp only
    rw [htext₂, hpos, hsecond]
    dsimp only
    rw [htext₃, hpos₃, List.find?_cons]
    by_cases hlt : e.1 < b
    · rw [if_pos hlt, ih (by decide) (by simpa using hfuel) (.inl hlt)]
      simp [not_le.mpr hlt]
    · rw [if_neg hlt]
      simp [not_lt.mp hlt]

theorem length_le_unlines (ls : List Text) : ls.length ≤ (unlines ls).length := by
  induction ls with
  | nil => simp
  | cons l ls ih =>
    rw [unlines_cons, List.length_append, List.length_cons, List.length_cons]
    omega

variable {env : LogEnv} {d : Disk} {junk : Junk}

/-- `FindOffset` on the index of a segment. -/
theorem findOffset_spec (junk : Junk) (m : MetricSearcher) {f : Text × Segment} (hf : d.Holds env f)
    (t : ℤ) :
    (m.findOffset junk d t f.1 (formIndexFileName f.1) 0).2 =
      match (offsets (lineSize env) 0 f.2).find? (fun e => t.tdiv 1000 ≤ e.1) with
      | some e => (e.2 : ℤ)
      | none => -1 := by
  unfold MetricSearcher.findOffset
  rw [hf.2]
  dsimp only
  have hseek : (IStream.mk (indexText env f.2) 0 false false).seekg 0 =
      ⟨[] ++ ([] ++ unlines ((offsets (lineSize env) 0 f.2).map indexLine)), ([] : Text).length, false,
        false⟩ := rfl
  rw [hseek, scanIndex_spec rfl ?_ (.inr rfl)]
  have h := length_le_unlines ((offsets (lineSize env) 0 f.2).map indexLine)
  rw [List.length_map] at h
  exact Nat.lt_succ_of_le h

/-- **Where a search starts reading**: behind the first entry from the begin second on, in the file it
stands in; nowhere when there is no such entry. -/
theorem searchFiles_spec (junk : Junk) {files : List (Text × Segment)}
    (hfiles : ∀ f ∈ files, d.Holds env f) (t : ℤ) (m : MetricSearcher) (pos : ℕ) :
    match (MetricSearcher.searchFiles junk d t m (files.map Prod.fst) pos 0).2 with
    | none => ∀ k, Mark.entry k ∈ logOf files → k < t.tdiv 1000
    | some (i, offset) => ∃ A f B l₁ k l₂, files = A ++ f :: B ∧ i = pos + A.length ∧
        f.2 = l₁ ++ .entry k :: l₂ ∧ offset = (metricText env l₁).length ∧
        (∀ k', Mark.entry k' ∈ logOf A ++ l₁ → k' < t.tdiv 1000) ∧ t.tdiv 1000 ≤ k := by
  induction files generalizing m pos with
  | nil =>
    intro k hk
    simp at hk
  | cons f files ih =>
    have hoffset := findOffset_spec junk m (hfiles f (by simp)) t
    rw [List.map_cons, MetricSearcher.searchFiles]
    cases hfind : (offsets (lineSize env) 0 f.2).find? (fun e => t.tdiv 1000 ≤ e.1) with
    | none =>
      rw [hfind] at hoffset
      have hno := offsets_find?_none hfind
      rw [if_neg (not_not.mpr hoffset)]
      have hrest := ih (fun g hg => hfiles g (by simp [hg]))
        (m.findOffset junk d t f.1 (formIndexFileName f.1) 0).1 (pos + 1)
      cases hr : (MetricSearcher.searchFiles junk d t
          (m.findOffset junk d t f.1 (formIndexFileName f.1) 0).1 (files.map Prod.fst) (pos + 1) 0).2 with
      | none =>
        rw [hr] at hrest
        intro k hk
        rcases List.mem_append.mp (logOf_cons f files ▸ hk) with hk | hk
        · exact hno k hk
        · exact hrest k hk
      | some r =>
        obtain ⟨i, offset⟩ := r
        rw [hr] at hrest
        obtain ⟨A, g, B, l₁, k, l₂, rfl, hi, hg, ho, hlt, hk⟩ := hrest
        refine ⟨f :: A, g, B, l₁, k, l₂, rfl, by rw [hi, List.length_cons]; omega, hg, ho, ?_, hk⟩
        intro k' hk'
        rw [logOf_cons, List.append_assoc] at hk'
        rcases List.mem_append.mp hk' with hk' | hk'
        · exact hno k' hk'
        · exact hlt k' hk'
    | some e =>
      rw [hfind] at hoffset
      dsimp only at hoffset
      obtain ⟨l₁, l₂, hl, hno, hk, ho⟩ := offsets_find?_some hfind
      rw [if_pos (by rw [hoffset]; omega)]
      refine ⟨[], f, files, l₁, e.1, l₂, rfl, by simp, hl, ?_, by simpa using hno, hk⟩
      rw [hoffset, length_metricText, ho, Nat.zero_add]

/-! ### Reading the lines -/

/-- An item that the log can give back: its numbers fit and its name has no line break. -/
def Readable (x : MetricItem) : Prop := x.Fits ∧ '\n' ∉ x.resource.toList

variable {xs : List MetricItem}

theorem fromFatString_lineOf {x : MetricItem} (hx : Readable x) :
    MetricItem.fromFatString (lineOf env x) = some x.stored :=
  MetricItem.fromFatString_toFatString hx.1 (env.formatTime_plain _).1

/-- Behind the first items stands the text of the others. -/
theorem linesFrom_length (l₁ l₂ : Segment) :
    linesFrom (metricText env (l₁ ++ l₂)) (metricText env l₁).length = getLines (metricText env l₂) := by
  rw [linesFrom, if_neg (by omega), Int.toNat_natCast, metricText_append, List.drop_left]

theorem getLines_metricText {l : Segment} (hlines : ∀ x ∈ items l, '\n' ∉ x.resource.toList) :
    getLines (metricText env l) = (items l).map (lineOf env) := by
  refine getLines_unlines fun line hline => ?_
  obtain ⟨x, hx, rfl⟩ := List.mem_map.mp hline
  exact MetricItem.lineBreak_not_mem_toFatString (hlines x hx) (env.formatTime_plain _).2

/-- From the offset behind the first items on, the lines are those of the other items. -/
theorem linesFrom_metricText {l₁ l₂ : Segment} (hread : ∀ x ∈ items l₂, Readable x) :
    linesFrom (metricText env (l₁ ++ l₂)) (metricText env l₁).length =
      (items l₂).map (lineOf env) := by
  rw [linesFrom_length, getLines_metricText fun x hx => (hread x hx).2]

/-- Reading a file from its start. -/
theorem linesFrom_zero {l : Segment} (hread : ∀ x ∈ items l, Readable x) :
    linesFrom (metricText env l) 0 = (items l).map (lineOf env) := by
  have h := @linesFrom_metricText env [] l hread
  simpa [metricText] using h

variable {n : ℤ} {v : List MetricItem}

/-- What is read is a beginning of the items, all of them unless enough have been read. -/
def ReadsUntil (n : ℤ) (v xs : List MetricItem) (result : Option (List MetricItem)) : Prop :=
  ∃ ys, ys <+: xs ∧ result = some (v ++ ys.map MetricItem.stored) ∧
    (ys = xs ∨ wantsMore (v ++ ys.map MetricItem.stored) n = false)

theorem readLines_spec (hread : ∀ x ∈ xs, Readable x) (lastSecond : ℤ) :
    ReadsUntil n v xs (readLines n (xs.map (lineOf env)) v lastSecond) := by
  induction xs generalizing v lastSecond with
  | nil => exact ⟨[], List.prefix_rfl, by simp [readLines], .inl rfl⟩
  | cons x xs ih =>
    rw [List.map_cons, readLines, fromFatString_lineOf (hread x (by simp))]
    dsimp only
    split_ifs with hmore
    · obtain ⟨ys, hys, hres, hend⟩ :=
        ih (v := v ++ [x.stored]) (fun y hy => hread y (by simp [hy])) x.stored.second
      have happ : v ++ [x.stored] ++ ys.map MetricItem.stored =
          v ++ (x :: ys).map MetricItem.stored := by simp
      rw [happ] at hres hend
      exact ⟨x :: ys, List.cons_prefix_cons.mpr ⟨rfl, hys⟩, hres, hend.imp_left (congrArg (x :: ·))⟩
    · rw [Bool.or_eq_true, not_or] at hmore
      exact ⟨[], List.nil_prefix, by simp, .inr (by simpa using hmore.1)⟩

theorem readFiles_of_enough (h : wantsMore v n = false) (names : List Text) :
    readFiles d n names v = some v := by
  cases names with
  | nil => rfl
  | cons p names => rw [readFiles, h, if_neg Bool.false_ne_true]

/-- One file and then the files after it. -/
theorem ReadsUntil.bind {ys : List MetricItem} {result : Option (List MetricItem)} {names : List Text}
    (h : ReadsUntil n v xs result)
    (hrest : ∀ v, ReadsUntil n v ys (readFiles d n names v)) :
    ReadsUntil n v (xs ++ ys) (result.bind (readFiles d n names)) := by
  obtain ⟨zs, hzs, rfl, hend⟩ := h
  rcases hend with rfl | hend
  · obtain ⟨us, hus, hres, hend⟩ := hrest (v ++ zs.map MetricItem.stored)
    have happ : v ++ zs.map MetricItem.stored ++ us.map MetricItem.stored =
        v ++ (zs ++ us).map MetricItem.stored := by simp
    rw [happ] at hres hend
    exact ⟨zs ++ us, (List.prefix_append_right_inj zs).mpr hus, hres, hend.imp_left (congrArg (zs ++ ·))⟩
  · exact ⟨zs, hzs.trans (List.prefix_append _ _), readFiles_of_enough hend names, .inr hend⟩

theorem readFiles_spec {files : List (Text × Segment)} (hfiles : ∀ f ∈ files, d.Holds env f)
    (hread : ∀ x ∈ items (logOf files), Readable x) (v : List MetricItem) :
    ReadsUntil n v (items (logOf files)) (readFiles d n (files.map Prod.fst) v) := by
  induction files generalizing v with
  | nil => exact ⟨[], List.prefix_rfl, by simp [readFiles], .inl rfl⟩
  | cons f files ih =>
    rw [logOf_cons, items_append] at hread ⊢
    rw [List.map_cons, readFiles]
    split_ifs with hmore
    · have hone : ReadsUntil n v (items f.2) (readMetricsInOneFile d v f.1 0 n) := by
        rw [readMetricsInOneFile, (hfiles f (by simp)).1]
        dsimp only
        rw [linesFrom_zero fun x hx => hread x (List.mem_append_left _ hx)]
        exact readLines_spec (fun x hx => hread x (List.mem_append_left _ hx)) _
      exact hone.bind fun v =>
        ih (fun g hg => hfiles g (by simp [hg])) (fun x hx => hread x (List.mem_append_right _ hx)) v
    · exact ⟨[], List.nil_prefix, by simp, .inr (by simpa using hmore)⟩

/-- The names from the file `f` on. -/
theorem drop_map_fst (A B : List (Text × Segment)) (f : Text × Segment) :
    ((A ++ f :: B).map Prod.fst).drop A.length = f.1 :: B.map Prod.fst := by
  rw [List.map_append, ← List.length_map (f := Prod.fst), List.drop_left, List.map_cons]

/-- Reading from a position in one of the files. -/
theorem readMetrics_spec {A B : List (Text × Segment)} {f : Text × Segment} {l₁ l₂ : Segment}
    (hfiles : ∀ g ∈ f :: B, d.Holds env g) (hf : f.2 = l₁ ++ l₂)
    (hread : ∀ x ∈ items (l₂ ++ logOf B), Readable x) :
    ReadsUntil n [] (items (l₂ ++ logOf B))
      (readMetrics d ((A ++ f :: B).map Prod.fst) A.length (metricText env l₁).length n) := by
  rw [items_append] at hread ⊢
  have hone : ReadsUntil n [] (items l₂)
      (readMetricsInOneFile d [] f.1 (metricText env l₁).length n) := by
    rw [readMetricsInOneFile, (hfiles f (by simp)).1]
    dsimp only
    rw [hf, linesFrom_metricText fun x hx => hread x (List.mem_append_left _ hx)]
    exact readLines_spec (fun x hx => hread x (List.mem_append_left _ hx)) _
  rw [readMetrics, drop_map_fst]
  exact hone.bind fun v => readFiles_spec (fun g hg => hfiles g (by simp [hg]))
    (fun x hx => hread x (List.mem_append_right _ hx)) v

/-! ### Reading up to an end time -/

variable {b e : ℤ}

/-- The items up to second `e`, as the log keeps them. -/
def upTo (e : ℤ) (xs : List MetricItem) : List MetricItem :=
  (xs.takeWhile fun x => x.second ≤ e).map MetricItem.stored

@[simp] theorem upTo_nil : upTo e [] = [] := rfl

theorem upTo_cons_of_le {x : MetricItem} (h : x.second ≤ e) (xs : List MetricItem) :
    upTo e (x :: xs) = x.stored :: upTo e xs := by
  rw [upTo, List.takeWhile_cons_of_pos (by simpa using h), List.map_cons, upTo]

theorem upTo_cons_of_lt {x : MetricItem} (h : e < x.second) (xs : List MetricItem) :
    upTo e (x :: xs) = [] := by
  rw [upTo, List.takeWhile_cons_of_neg (by simpa using h), List.map_nil]

theorem upTo_append (h : ∀ x ∈ xs, x.second ≤ e) (ys : List MetricItem) :
    upTo e (xs ++ ys) = xs.map MetricItem.stored ++ upTo e ys := by
  rw [upTo, List.takeWhile_append_of_pos (by simpa using h), List.map_append, upTo]

/-- The items that a query for a resource keeps; the empty name stands for all. -/
def named (identity : String) (xs : List MetricItem) : List MetricItem :=
  xs.filter fun x => identity = "" ∨ x.resource = identity

@[simp] theorem named_nil (identity : String) : named identity [] = [] := rfl

@[simp] theorem named_all (xs : List MetricItem) : named "" xs = xs := by
  rw [named, List.filter_eq_self]
  intro x _
  rfl

theorem named_append (identity : String) (xs ys : List MetricItem) :
    named identity (xs ++ ys) = named identity xs ++ named identity ys := List.filter_append _ _

variable {identity : String}

theorem named_cons (x : MetricItem) (xs : List MetricItem) :
    named identity (x :: xs) = named identity [x] ++ named identity xs :=
  named_append identity [x] xs

/-- Either all items have been read and there is room for more, or the result is complete whatever
follows. -/
def ReadsUpTo (identity : String) (e : ℤ) (v xs : List MetricItem)
    (result : Option (List MetricItem × Bool)) : Prop :=
  (result = some (v ++ named identity (xs.map MetricItem.stored), true) ∧
    (v ++ named identity (xs.map MetricItem.stored)).length < kMaxLinesReturn ∧
      ∀ x ∈ xs, x.second ≤ e) ∨
  ∃ r, result = some (r, false) ∧
    ∀ ys, r = (v ++ named identity (upTo e (xs ++ ys))).take kMaxLinesReturn

theorem readLinesByEndTime_spec (hread : ∀ x ∈ xs, Readable x) (hb : ∀ x ∈ xs, b ≤ x.second)
    (hroom : v.length < kMaxLinesReturn) :
    ReadsUpTo identity e v xs (readLinesByEndTime b e identity (xs.map (lineOf env)) v) := by
  induction xs generalizing v with
  | nil => exact .inl ⟨by simp [readLinesByEndTime], by simpa using hroom, by simp⟩
  | cons x xs ih =>
    have hlate : ¬ x.stored.second < b := not_lt.mpr (hb x (by simp))
    rw [List.map_cons, readLinesByEndTime, fromFatString_lineOf (hread x (by simp))]
    dsimp only
    rw [if_neg hlate]
    by_cases hx : x.second ≤ e
    · have hkept : (if identity = "" ∨ x.stored.resource = identity then v ++ [x.stored] else v) =
          v ++ named identity [x.stored] := by
        unfold named
        split_ifs with hname <;> simp [hname]
      have hone : (named identity [x.stored]).length ≤ 1 := List.length_filter_le _ _
      rw [if_pos (show x.stored.second ≤ e from hx), hkept]
      by_cases hfull : kMaxLinesReturn ≤ (v ++ named identity [x.stored]).length
      · rw [if_pos hfull]
        refine .inr ⟨_, rfl, fun ys => ?_⟩
        have hlen : (v ++ named identity [x.stored]).length = kMaxLinesReturn := by
          rw [List.length_append] at hfull ⊢
          omega
        rw [List.cons_append, upTo_cons_of_le hx, named_cons _ (upTo e _), ← List.append_assoc,
          List.take_left' hlen]
      · rw [if_neg hfull]
        rcases ih (v := v ++ named identity [x.stored]) (fun y hy => hread y (by simp [hy]))
          (fun y hy => hb y (by simp [hy])) (not_le.mp hfull) with ⟨hres, hlen, hle⟩ | ⟨r, hres, hr⟩
        · refine .inl ⟨?_, ?_, ?_⟩
          · rw [hres, List.map_cons, named_cons _ (xs.map _), List.append_assoc]
          · rw [List.map_cons, named_cons _ (xs.map _), ← List.append_assoc]
            exact hlen
          · exact List.forall_mem_cons.mpr ⟨hx, hle⟩
        · refine .inr ⟨r, hres, fun ys => ?_⟩
          rw [hr ys, List.cons_append, upTo_cons_of_le hx, named_cons _ (upTo e _), List.append_assoc]
    · rw [if_neg (show ¬ x.stored.second ≤ e from hx)]
      refine .inr ⟨_, rfl, fun ys => ?_⟩
      rw [List.cons_append, upTo_cons_of_lt (not_le.mp hx), named_nil, List.append_nil,
        List.take_of_length_le hroom.le]

variable {beginTimeMs endTimeMs : ℤ}

/-- One file and then the files after it. -/
theorem ReadsUpTo.bind {ys : List MetricItem} {result : Option (List MetricItem × Bool)}
    {names : List Text} (h : ReadsUpTo identity (endTimeMs.tdiv 1000) v xs result)
    (hrest : ∀ v, v.length < kMaxLinesReturn →
      readFilesByEndTime d beginTimeMs endTimeMs identity names (v, true) =
        some ((v ++ named identity (upTo (endTimeMs.tdiv 1000) ys)).take kMaxLinesReturn)) :
    result.bind (readFilesByEndTime d beginTimeMs endTimeMs identity names) =
      some ((v ++ named identity (upTo (endTimeMs.tdiv 1000) (xs ++ ys))).take kMaxLinesReturn) := by
  rcases h with ⟨rfl, hlen, hle⟩ | ⟨r, rfl, hr⟩
  · rw [Option.bind_some, hrest _ hlen, upTo_append hle, named_append, List.append_assoc]
  · rw [Option.bind_some, hr ys]
    cases names with
    | nil => rfl
    | cons p names => rw [readFilesByEndTime, if_neg Bool.false_ne_true]

theorem readFilesByEndTime_spec {files : List (Text × Segment)} (hfiles : ∀ f ∈ files, d.Holds env f)
    (hread : ∀ x ∈ items (logOf files), Readable x)
    (hb : ∀ x ∈ items (logOf files), beginTimeMs.tdiv 1000 ≤ x.second)
    (hroom : v.length < kMaxLinesReturn) :
    readFilesByEndTime d beginTimeMs endTimeMs identity (files.map Prod.fst) (v, true) =
      some ((v ++ named identity (upTo (endTimeMs.tdiv 1000) (items (logOf files)))).take
        kMaxLinesReturn) := by
  induction files generalizing v with
  | nil =>
    rw [List.map_nil, readFilesByEndTime, logOf_nil, items_nil, upTo_nil, named_nil, List.append_nil,
      List.take_of_length_le hroom.le]
  | cons f files ih =>
    rw [logOf_cons, items_append] at hread hb ⊢
    have hone : ReadsUpTo identity (endTimeMs.tdiv 1000) v (items f.2)
        (readMetricsInOneFileByEndTime d v f.1 0 beginTimeMs endTimeMs identity) := by
      rw [readMetricsInOneFileByEndTime, (hfiles f (by simp)).1]
      dsimp only
      rw [linesFrom_zero fun x hx => hread x (List.mem_append_left _ hx)]
      exact readLinesByEndTime_spec (fun x hx => hread x (List.mem_append_left _ hx))
        (fun x hx => hb x (List.mem_append_left _ hx)) hroom
    rw [List.map_cons, readFilesByEndTime, if_pos rfl]
    exact hone.bind fun v hroom => ih (fun g hg => hfiles g (by simp [hg]))
      (fun x hx => hread x (List.mem_append_right _ hx))
      (fun x hx => hb x (List.mem_append_right _ hx)) hroom

/-- Reading from a position in one of the files up to an end time. -/
theorem readMetricsByEndTime_spec {A B : List (Text × Segment)} {f : Text × Segment} {l₁ l₂ : Segment}
    (hfiles : ∀ g ∈ f :: B, d.Holds env g) (hf : f.2 = l₁ ++ l₂)
    (hread : ∀ x ∈ items (l₂ ++ logOf B), Readable x)
    (hb : ∀ x ∈ items (l₂ ++ logOf B), beginTimeMs.tdiv 1000 ≤ x.second) :
    readMetricsByEndTime d ((A ++ f :: B).map Prod.fst) A.length (metricText env l₁).length
        beginTimeMs endTimeMs identity =
      some ((named identity (upTo (endTimeMs.tdiv 1000) (items (l₂ ++ logOf B)))).take
        kMaxLinesReturn) := by
  rw [items_append] at hread hb ⊢
  have hone : ReadsUpTo identity (endTimeMs.tdiv 1000) [] (items l₂)
      (readMetricsInOneFileByEndTime d [] f.1 (metricText env l₁).length beginTimeMs endTimeMs identity) := by
    rw [readMetricsInOneFileByEndTime, (hfiles f (by simp)).1]
    dsimp only
    rw [hf, linesFrom_metricText fun x hx => hread x (List.mem_append_left _ hx)]
    exact readLinesByEndTime_spec (fun x hx => hread x (List.mem_append_left _ hx))
      (fun x hx => hb x (List.mem_append_left _ hx)) (by decide)
  rw [readMetricsByEndTime, drop_map_fst]
  exact hone.bind fun v hroom => readFilesByEndTime_spec (fun g hg => hfiles g (by simp [hg]))
    (fun x hx => hread x (List.mem_append_right _ hx))
    (fun x hx => hb x (List.mem_append_right _ hx)) hroom

end SentinelCpp.Log
