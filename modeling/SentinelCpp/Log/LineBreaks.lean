import SentinelCpp.Log.CachedPosition
import SentinelCpp.Log.OnDisk
import SentinelCpp.Log.Surviving
import SentinelCpp.Log.WholeSeconds

/-!
# Reading back what was written

The reader uses the item of every line without asking whether it could be parsed.  A search starts
behind an index entry, whatever position the searcher has cached (`search_behind`), so what it reads are
whole lines, and these parse as long as no name has a line break: such a name cuts its line in parts
that have too few fields.  One name is enough, since a query for a name that no line has reads
everything behind the first entry.
-/

namespace SentinelCpp.Log

open Lib Stat

/-- A searcher on the writer's directory after any lookups, each on what the disk held at its time. -/
inductive Reached (env : LogEnv) : MetricSearcher → Prop
  | fresh : Reached env (.fresh env)
  | lookup {m : MetricSearcher} (l : Lookup) (h : Reached env m) :
      Reached env (l.query.run l.junk env.dirOrder m l.disk).1

/-- The arguments are values of the types of the parameters. -/
def Query.Fits : Query → Prop
  | .find b n => InInt64 b ∧ -2 ^ 31 ≤ n ∧ n < 2 ^ 31
  | .findByTimeAndResource b e _ => InInt64 b ∧ InInt64 e

/-- No lookup uses the item of a line that could not be parsed. -/
def SafeToRead (env : LogEnv) (d : Disk) : Prop :=
  ∀ m, Reached env m → ∀ (q : Query) (junk : Junk), q.Fits → (q.run junk env.dirOrder m d).2 ≠ none

/-- The listed files are segments in which no item behind an index entry, in its own or in an earlier
file, has a line break in its name. -/
def OneLineBehindEntry (env : LogEnv) (d : Disk) : Prop :=
  ∃ files : List (Text × Segment),
    listMetricFiles env.dirOrder d env.baseDir (formMetricFileName env) = files.map Prod.fst ∧
      (∀ f ∈ files, d.Holds env f) ∧
        ∀ u k v, logOf files = u ++ .entry k :: v → ∀ x ∈ items v, '\n' ∉ x.resource.toList

variable {env : LogEnv} {d : Disk} {junk : Junk} {files : List (Text × Segment)}

/-! ### Where a search starts reading -/

/-- The position is the one behind an index entry. -/
def Behind (env : LogEnv) (files : List (Text × Segment)) (pos : ℕ) (offset : ℤ) : Prop :=
  ∃ A f B l₁ k l₂, files = A ++ f :: B ∧ pos = A.length ∧ f.2 = l₁ ++ .entry k :: l₂ ∧
    offset = (metricText env l₁).length

theorem minus_not_mem_tail_decimal (x : ℤ) : '-' ∉ (decimal x).tail := by
  have hdigits : '-' ∉ Nat.toDigits 10 x.natAbs := fun h =>
    absurd (List.all_eq_true.mp (all_isDigit_toDigits _) _ h) (by decide)
  unfold decimal
  split_ifs
  · exact hdigits
  · exact fun h => hdigits (List.mem_of_mem_tail h)

/-- In an index a minus sign stands only where an entry begins. -/
theorem entry_of_minus {es : List (ℤ × ℕ)} {before rest : Text}
    (h : unlines (es.map indexLine) = before ++ '-' :: rest) :
    ∃ es₁ es₂, es = es₁ ++ es₂ ∧ '-' :: rest = unlines (es₂.map indexLine) := by
  induction es generalizing before with
  | nil => exact absurd h (by simp)
  | cons e es ih =>
    rw [List.map_cons, unlines_cons] at h
    rcases List.append_eq_append_iff.mp h with ⟨b, rfl, hb⟩ | ⟨a, ha, hrest⟩
    · -- the sign stands behind the line
      cases b with
      | nil => exact absurd (List.cons.inj hb).1 (by decide)
      | cons c b =>
        obtain ⟨es₁, es₂, rfl, hes⟩ := ih (List.cons.inj hb).2
        exact ⟨e :: es₁, es₂, rfl, hes⟩
    · cases a with
      | nil => exact absurd (List.cons.inj hrest).1 (by decide)
      | cons c a =>
        obtain ⟨rfl, -⟩ := List.cons.inj hrest
        cases before with
        | nil =>
          refine ⟨[], e :: es, rfl, ?_⟩
          rw [List.map_cons, unlines_cons, ha, hrest]
          rfl
        | cons c before =>
          -- the line has its only sign, if any, at the beginning
          have hmem : '-' ∈ (indexLine e).tail := by
            rw [ha]
            simp
          obtain ⟨c', ds, hd⟩ := List.exists_cons_of_ne_nil (decimal_ne_nil e.1)
          have htail := minus_not_mem_tail_decimal e.1
          rw [indexLine, hd] at hmem
          rw [hd, List.tail_cons] at htail
          simp only [List.cons_append, List.tail_cons, List.mem_append, List.mem_singleton, htail,
            false_or] at hmem
          rcases hmem with hmem | hmem
          · exact absurd hmem (by decide)
          · exact absurd (isDigit_of_mem_decimal _ hmem) (by decide)

/-- Nothing is found once the stream has failed to give a second. -/
theorem scanIndex_of_fail {b second o : ℤ} {fuel : ℕ} {input : IStream}
    (h : (input.extractInt second).2.fail = true) : (scanIndex b fuel input second (-1) o).1 = -1 := by
  cases fuel with
  | zero => rfl
  | succ fuel =>
    rw [scanIndex]
    split_ifs
    · rfl
    · dsimp only
      rw [IStream.extractInt_of_fail _ h]
      dsimp only
      split_ifs
      · cases fuel with
        | zero => rfl
        | succ fuel => rw [scanIndex, h, Bool.or_true, if_pos rfl]
      · rfl

/-- **A scan that starts where −1 is read** finds an entry or nothing. -/
theorem scanIndex_of_minus {es : List (ℤ × ℕ)} {o sec b second oi : ℤ}
    (hsec : (((IStream.mk (unlines (es.map indexLine)) 0 false false).seekg o).extractInt sec).1 = -1) :
    (scanIndex b ((unlines (es.map indexLine)).length + 1)
        ((IStream.mk (unlines (es.map indexLine)) 0 false false).seekg o) second (-1) oi).1 = -1 ∨
      ∃ e ∈ es, (scanIndex b ((unlines (es.map indexLine)).length + 1)
        ((IStream.mk (unlines (es.map indexLine)) 0 false false).seekg o) second (-1) oi).1 = e.2 := by
  generalize htext : unlines (es.map indexLine) = text at *
  rcases lt_or_ge o 0 with hneg | hpos
  · left
    refine scanIndex_of_fail ?_
    unfold IStream.seekg
    rw [if_neg Bool.false_ne_true, if_pos hneg, IStream.extractInt_of_fail _ rfl]
  have hseek : (IStream.mk text 0 false false).seekg o = ⟨text, o.toNat, false, false⟩ := by
    unfold IStream.seekg
    rw [if_neg Bool.false_ne_true, if_neg (not_lt.mpr hpos)]
  rw [hseek] at hsec ⊢
  rcases IStream.extractInt_cases ⟨text, o.toNat, false, false⟩ sec with
    ⟨-, hfail⟩ | hnonneg | ⟨rest, hbody⟩
  · rw [(IStream.extractInt_old _ sec second).1] at hfail
    exact .inl (scanIndex_of_fail hfail)
  · omega
  dsimp only at hbody
  have hcut : text = text.take o.toNat ++ ((text.drop o.toNat).takeWhile isSpace ++ '-' :: rest) := by
    rw [← hbody, List.takeWhile_append_dropWhile, List.take_append_drop]
  obtain ⟨es₁, es₂, rfl, hes₂⟩ := @entry_of_minus es
    (text.take o.toNat ++ (text.drop o.toNat).takeWhile isSpace) rest
    (by rw [htext, List.append_assoc]; exact hcut)
  have hlen : (text.take o.toNat).length = o.toNat := by
    rw [List.length_take, Nat.min_eq_left]
    by_contra hlong
    rw [List.drop_eq_nil_of_le (by omega)] at hbody
    exact absurd hbody (by simp)
  have hfuel : es₂.length < text.length + 1 := by
    have hle := length_le_unlines ((es₁ ++ es₂).map indexLine)
    rw [htext, List.length_map, List.length_append] at hle
    omega
  have hspec := @scanIndex_spec b es₂ (text.take o.toNat) ((text.drop o.toNat).takeWhile isSpace)
    List.all_takeWhile second (-1) oi _ hfuel (.inr rfl)
  rw [← hes₂, ← hcut, hlen] at hspec
  rw [hspec]
  cases hfind : es₂.find? fun e => b ≤ e.1 with
  | none => exact .inl rfl
  | some e => exact .inr ⟨e, List.mem_append_right _ (List.mem_of_find?_eq_some hfind), rfl⟩

/-- What every reached searcher has in common. -/
structure Unplaced (env : LogEnv) (m : MetricSearcher) : Prop where
  baseDir : m.baseDir = env.baseDir
  baseFileName : m.baseFileName = formMetricFileName env
  second : m.lastPos.second = -1
  index : m.lastPos.indexFileName = [] ∨
    m.lastPos.indexFileName = formIndexFileName m.lastPos.metricFileName

theorem findOffset_index (junk : Junk) (m : MetricSearcher) (d : Disk) (t : ℤ) (p : Text) (o : ℤ) :
    let m' := (m.findOffset junk d t p (formIndexFileName p) o).1
    m'.lastPos.indexFileName = [] ∨
      m'.lastPos.indexFileName = formIndexFileName m'.lastPos.metricFileName := by
  unfold MetricSearcher.findOffset
  cases d.content? (formIndexFileName p) with
  | none => exact .inl rfl
  | some text =>
    dsimp only
    split_ifs
    · exact .inr rfl
    · exact .inl rfl

theorem searchFiles_index {m : MetricSearcher} {t : ℤ} (names : List Text) (pos : ℕ) (o : ℤ)
    (h : m.lastPos.indexFileName = [] ∨
      m.lastPos.indexFileName = formIndexFileName m.lastPos.metricFileName) :
    let m' := (MetricSearcher.searchFiles junk d t m names pos o).1
    m'.lastPos.indexFileName = [] ∨
      m'.lastPos.indexFileName = formIndexFileName m'.lastPos.metricFileName := by
  induction names generalizing m pos o with
  | nil => exact h
  | cons p names ih =>
    have hfound := findOffset_index junk m d t p o
    rw [MetricSearcher.searchFiles]
    dsimp only
    split_ifs
    · exact hfound
    · exact ih _ _ hfound

theorem Reached.unplaced {m : MetricSearcher} (h : Reached env m) : Unplaced env m := by
  induction h with
  | fresh => exact ⟨rfl, rfl, rfl, .inl rfl⟩
  | @lookup m l h ih =>
    have hstate := (l.query.run_spec l.junk env.dirOrder m l.disk).1
    obtain ⟨h1, h2, h3⟩ := MetricSearcher.search_keeps l.junk env.dirOrder m l.disk l.query.beginTimeMs
    rw [hstate]
    exact ⟨h1.trans ih.baseDir, h2.trans ih.baseFileName, h3.trans ih.second,
      searchFiles_index _ _ _ ih.index⟩

/-- The offset found in an index, wherever the scan was sent, is the one behind an entry. -/
theorem findOffset_of_minus (m : MetricSearcher) {f : Text × Segment} (hf : d.Holds env f) {t o sec : ℤ}
    (hsec : (((IStream.mk (indexText env f.2) 0 false false).seekg o).extractInt sec).1 = -1) :
    (m.findOffset junk d t f.1 (formIndexFileName f.1) o).2 = -1 ∨
      ∃ l₁ k l₂, f.2 = l₁ ++ .entry k :: l₂ ∧
        (m.findOffset junk d t f.1 (formIndexFileName f.1) o).2 = (metricText env l₁).length := by
  unfold MetricSearcher.findOffset
  rw [hf.2]
  dsimp only
  rcases @scanIndex_of_minus (offsets (lineSize env) 0 f.2) _ _ _ _ _ hsec with hnone | ⟨e, he, hfound⟩
  · exact .inl hnone
  · obtain ⟨l₁, l₂, hl, ho⟩ := mem_offsets he
    refine .inr ⟨l₁, e.1, l₂, hl, hfound.trans ?_⟩
    rw [ho, length_metricText, Nat.zero_add]

/-- A search that reads the indexes of the files `B` from their starts. -/
theorem behind_of_searchFiles {A B : List (Text × Segment)} (hfiles : ∀ f ∈ A ++ B, d.Holds env f)
    (m : MetricSearcher) {t : ℤ} {pos : ℕ} {offset : ℤ}
    (hr : (MetricSearcher.searchFiles junk d t m (B.map Prod.fst) A.length 0).2 = some (pos, offset)) :
    Behind env (A ++ B) pos offset := by
  have hsearch := searchFiles_spec junk (fun f hf => hfiles f (List.mem_append_right A hf)) t m A.length
  rw [hr] at hsearch
  obtain ⟨A', f, B', l₁, k, l₂, rfl, hpos, hf, ho, -⟩ := hsearch
  exact ⟨A ++ A', f, B', l₁, k, l₂, by simp, by simpa using hpos, hf, ho⟩

/-- The cached second was never assigned, so the position is valid only because −1 is read at it. -/
theorem minus_of_validPosition {m : MetricSearcher} (hm : Unplaced env m) {f : Text × Segment}
    (hf : d.Holds env f) (hfp : f.1 = m.lastPos.metricFileName) {t : ℤ}
    (hvalid : m.validPosition junk d t = true) :
    (((IStream.mk (indexText env f.2) 0 false false).seekg m.lastPos.offsetInIndex).extractInt
      junk.sec).1 = -1 := by
  unfold MetricSearcher.validPosition at hvalid
  rw [hm.second] at hvalid
  split_ifs at hvalid with hlate hnil
  rw [hm.index.resolve_left hnil, ← hfp, hf.2] at hvalid
  exact of_decide_eq_true hvalid

/-- **Where any search starts reading**: behind an index entry, or nowhere. -/
theorem search_behind {m : MetricSearcher} (hm : Unplaced env m)
    (hnames : listMetricFiles env.dirOrder d env.baseDir (formMetricFileName env) = files.map Prod.fst)
    (hfiles : ∀ f ∈ files, d.Holds env f) (t : ℤ) :
    (m.search junk env.dirOrder d t).2.1 = files.map Prod.fst ∧
      ∀ pos offset, (m.search junk env.dirOrder d t).2.2 = some (pos, offset) →
        Behind env files pos offset := by
  have hlist : listMetricFiles env.dirOrder d m.baseDir m.baseFileName = files.map Prod.fst := by
    rw [hm.baseDir, hm.baseFileName, hnames]
  by_cases hused : m.UsesPosition junk env.dirOrder d t
  · obtain ⟨hvalid, hlisted⟩ := hused
    rw [hlist] at hlisted
    -- the first file of the cached name
    obtain ⟨as, bs, hsplit, has⟩ := List.eq_append_cons_of_mem hlisted
    obtain ⟨A, rest, rfl, rfl, hrest⟩ := List.map_eq_append_iff.mp hsplit
    obtain ⟨f, B, rfl, hfp, rfl⟩ := List.map_eq_cons_iff.mp hrest
    have hf : d.Holds env f := hfiles f (by simp)
    have hpos : ((A ++ f :: B).map Prod.fst).idxOf m.lastPos.metricFileName = A.length := by
      rw [hsplit, List.idxOf_append_of_notMem has, List.idxOf_cons_self, List.length_map, Nat.add_zero]
    have hfound := @findOffset_of_minus env d junk m f hf t _ _
      (minus_of_validPosition hm hf hfp hvalid)
    have hstart : (m.validPosition junk d t && decide (m.lastPos.metricFileName ∈
        (A ++ f :: B).map Prod.fst)) = true := by
      rw [hvalid, decide_eq_true hlisted, Bool.and_self]
    unfold MetricSearcher.search
    simp only [hlist, hstart, if_true, hpos, drop_map_fst]
    refine ⟨trivial, ?_⟩
    rw [MetricSearcher.searchFiles]
    split_ifs with hoffset
    · obtain ⟨l₁, k, l₂, hl, ho⟩ := hfound.resolve_left hoffset
      intro pos offset heq
      obtain ⟨rfl, rfl⟩ := Prod.mk.inj (Option.some.inj heq)
      exact ⟨A, f, B, l₁, k, l₂, rfl, rfl, hl, ho⟩
    · intro pos offset hr
      have hregroup : A ++ f :: B = (A ++ [f]) ++ B := (List.append_cons A f B)
      rw [hregroup] at hfiles ⊢
      rw [← List.length_singleton (a := f), ← List.length_append] at hr
      exact behind_of_searchFiles hfiles _ hr
  · have hsearch := MetricSearcher.search_eq_of_not_usesPosition hused
    dsimp only at hsearch
    rw [hsearch, hlist]
    exact ⟨rfl, fun pos offset hr => @behind_of_searchFiles env d junk [] files hfiles m t pos offset hr⟩

/-! ### Lines that parse -/

/-- A reading of the file from the offset on comes upon no line that cannot be parsed. -/
def Parses (d : Disk) (offset : ℤ) (fileName : Text) : Prop :=
  ∀ line ∈ linesOf d offset fileName, MetricItem.fromFatString line ≠ none

section

variable {lines names : List Text} {v : List MetricItem} {offset : ℤ} {p : Text}

theorem readLines_ne_none {n : ℤ} (h : ∀ line ∈ lines, MetricItem.fromFatString line ≠ none)
    (lastSecond : ℤ) : readLines n lines v lastSecond ≠ none := by
  induction lines generalizing v lastSecond with
  | nil => exact Option.some_ne_none v
  | cons line lines ih =>
    obtain ⟨node, hnode⟩ := Option.ne_none_iff_exists'.mp (h line List.mem_cons_self)
    rw [readLines, hnode]
    dsimp only
    split_ifs
    · exact ih (fun l hl => h l (List.mem_cons_of_mem line hl)) _
    · exact Option.some_ne_none v

theorem readLinesByEndTime_ne_none {b e : ℤ} {identity : String}
    (h : ∀ line ∈ lines, MetricItem.fromFatString line ≠ none) :
    readLinesByEndTime b e identity lines v ≠ none := by
  induction lines generalizing v with
  | nil => exact Option.some_ne_none _
  | cons line lines ih =>
    obtain ⟨node, hnode⟩ := Option.ne_none_iff_exists'.mp (h line List.mem_cons_self)
    have hrest := fun l hl => h l (List.mem_cons_of_mem line hl)
    rw [readLinesByEndTime, hnode]
    dsimp only
    split_ifs <;> first | exact ih hrest | exact Option.some_ne_none _

theorem Parses.readMetricsInOneFile_ne_none {n : ℤ} (h : Parses d offset p) :
    readMetricsInOneFile d v p offset n ≠ none := by
  unfold Parses linesOf at h
  unfold readMetricsInOneFile
  cases htext : d.content? p with
  | none => exact Option.some_ne_none v
  | some text =>
    rw [htext] at h
    exact readLines_ne_none h _

theorem Parses.readMetricsInOneFileByEndTime_ne_none {b e : ℤ} {identity : String}
    (h : Parses d offset p) : readMetricsInOneFileByEndTime d v p offset b e identity ≠ none := by
  unfold Parses linesOf at h
  unfold readMetricsInOneFileByEndTime
  cases htext : d.content? p with
  | none => exact Option.some_ne_none _
  | some text =>
    rw [htext] at h
    exact readLinesByEndTime_ne_none h

theorem bind_ne_none {α β : Type} {r : Option α} {f : α → Option β} (hr : r ≠ none)
    (hf : ∀ a, f a ≠ none) : r.bind f ≠ none := by
  obtain ⟨a, rfl⟩ := Option.ne_none_iff_exists'.mp hr
  exact hf a

theorem readFiles_ne_none {n : ℤ} (h : ∀ p ∈ names, Parses d 0 p) (v : List MetricItem) :
    readFiles d n names v ≠ none := by
  induction names generalizing v with
  | nil => exact Option.some_ne_none v
  | cons p names ih =>
    rw [readFiles]
    split_ifs
    · exact bind_ne_none (h p List.mem_cons_self).readMetricsInOneFile_ne_none
        (ih fun q hq => h q (List.mem_cons_of_mem p hq))
    · exact Option.some_ne_none v

theorem readFilesByEndTime_ne_none {b e : ℤ} {identity : String} (h : ∀ p ∈ names, Parses d 0 p)
    (r : List MetricItem × Bool) : readFilesByEndTime d b e identity names r ≠ none := by
  induction names generalizing r with
  | nil => exact Option.some_ne_none r.1
  | cons p names ih =>
    rw [readFilesByEndTime]
    split_ifs
    · exact bind_ne_none (h p List.mem_cons_self).readMetricsInOneFileByEndTime_ne_none
        (ih fun q hq => h q (List.mem_cons_of_mem p hq))
    · exact Option.some_ne_none r.1

/-- The files parse from a position on. -/
def ParsesFrom (d : Disk) (names : List Text) (pos : ℕ) (offset : ℤ) : Prop :=
  ∃ p later, names.drop pos = p :: later ∧ Parses d offset p ∧ ∀ q ∈ later, Parses d 0 q

theorem ParsesFrom.readMetrics_ne_none {n : ℤ} {pos : ℕ} (h : ParsesFrom d names pos offset) :
    readMetrics d names pos offset n ≠ none := by
  obtain ⟨p, later, hdrop, hp, hlater⟩ := h
  unfold readMetrics
  rw [hdrop]
  exact bind_ne_none hp.readMetricsInOneFile_ne_none (readFiles_ne_none hlater)

theorem ParsesFrom.readMetricsByEndTime_ne_none {b e : ℤ} {identity : String} {pos : ℕ}
    (h : ParsesFrom d names pos offset) :
    readMetricsByEndTime d names pos offset b e identity ≠ none := by
  obtain ⟨p, later, hdrop, hp, hlater⟩ := h
  unfold readMetricsByEndTime
  rw [hdrop]
  exact bind_ne_none hp.readMetricsInOneFileByEndTime_ne_none (readFilesByEndTime_ne_none hlater)

/-- A lookup is safe when the files parse from where its search starts reading. -/
theorem Query.run_ne_none {q : Query} {m : MetricSearcher} {order : IterationOrder Text}
    (h : ∀ pos offset, (m.search junk order d q.beginTimeMs).2.2 = some (pos, offset) →
      ParsesFrom d (m.search junk order d q.beginTimeMs).2.1 pos offset) :
    (q.run junk order m d).2 ≠ none := by
  cases q with
  | find b n =>
    unfold Query.beginTimeMs at h
    unfold Query.run MetricSearcher.find
    dsimp only at h ⊢
    cases hr : (m.search junk order d b).2.2 with
    | none => exact Option.some_ne_none _
    | some r => exact (h r.1 r.2 hr).readMetrics_ne_none
  | findByTimeAndResource b e identity =>
    unfold Query.beginTimeMs at h
    unfold Query.run MetricSearcher.findByTimeAndResource
    dsimp only at h ⊢
    cases hr : (m.search junk order d b).2.2 with
    | none => exact Option.some_ne_none _
    | some r => exact (h r.1 r.2 hr).readMetricsByEndTime_ne_none

end

/-- Whole lines parse. -/
theorem parses_of_oneLine {f : Text × Segment} {l₁ l₂ : Segment} (hf : d.Holds env f)
    (hl : f.2 = l₁ ++ l₂) (hlines : ∀ x ∈ items l₂, '\n' ∉ x.resource.toList) :
    Parses d (metricText env l₁).length f.1 := by
  intro line hline
  unfold linesOf at hline
  rw [hf.1, hl] at hline
  dsimp only at hline
  rw [linesFrom_length, getLines_metricText hlines] at hline
  obtain ⟨x, -, rfl⟩ := List.mem_map.mp hline
  exact MetricItem.fromFatString_toFatString_ne_none (env.formatTime_plain _).1

/-- **No break behind an entry, no unparsed item.** -/
theorem OneLineBehindEntry.safeToRead (h : OneLineBehindEntry env d) : SafeToRead env d := by
  obtain ⟨files, hnames, hfiles, hlines⟩ := h
  intro m hm q junk _
  obtain ⟨hlist, hbehind⟩ := @search_behind env d junk files m hm.unplaced hnames hfiles q.beginTimeMs
  refine Query.run_ne_none fun pos offset hr => ?_
  obtain ⟨A, f, B, l₁, k, l₂, rfl, rfl, hl, rfl⟩ := hbehind pos offset hr
  have hlater : ∀ x ∈ items (l₂ ++ logOf B), '\n' ∉ x.resource.toList := by
    refine hlines (logOf A ++ l₁) k (l₂ ++ logOf B) ?_
    rw [logOf_append, logOf_cons, hl]
    simp
  rw [items_append] at hlater
  refine ⟨f.1, B.map Prod.fst, ?_, ?_, ?_⟩
  · rw [hlist, drop_map_fst]
  · exact parses_of_oneLine (hfiles f (by simp)) hl fun x hx => hlater x (List.mem_append_left _ hx)
  · intro p hp
    obtain ⟨g, hg, rfl⟩ := List.mem_map.mp hp
    refine @parses_of_oneLine env d g [] g.2 (hfiles g (by simp [hg])) rfl fun x hx => ?_
    exact hlater x (List.mem_append_right _ (mem_items.mpr (List.mem_flatMap.mpr ⟨g, hg, mem_items.mp hx⟩)))

/-! ### A query for a name that no line has -/

/-- No item in the log has the name `|`, so nothing but the end of the files or a line that does not
parse ends this reading. -/
theorem oneLine_of_readLinesByEndTime {b e : ℤ} {xs : List MetricItem} (hfits : ∀ x ∈ xs, x.Fits)
    (hrange : ∀ x ∈ xs, b ≤ x.second ∧ x.second ≤ e)
    (h : readLinesByEndTime b e "|" (getLines (unlines (xs.map (lineOf env)))) [] ≠ none) :
    (∀ x ∈ xs, '\n' ∉ x.resource.toList) ∧
      readLinesByEndTime b e "|" (getLines (unlines (xs.map (lineOf env)))) [] = some ([], true) := by
  induction xs with
  | nil => exact ⟨fun _ hx => absurd hx List.not_mem_nil, rfl⟩
  | cons x xs ih =>
    rw [List.map_cons, unlines_cons] at h ⊢
    by_cases hname : '\n' ∈ x.resource.toList
    · -- what stands before the break is the next line
      obtain ⟨a, c, hline, ha, hnone⟩ := MetricItem.toFatString_of_lineBreak hname
        (env.formatTime_plain x.timestamp)
      have hfirst : getLines (lineOf env x ++ '\n' :: unlines (xs.map (lineOf env))) =
          a :: getLines (c ++ '\n' :: unlines (xs.map (lineOf env))) := by
        rw [lineOf, hline, List.append_assoc, List.cons_append, getLines_cons ha]
      rw [hfirst, readLinesByEndTime, hnone] at h
      exact absurd rfl h
    · have hfirst : getLines (lineOf env x ++ '\n' :: unlines (xs.map (lineOf env))) =
          lineOf env x :: getLines (unlines (xs.map (lineOf env))) :=
        getLines_cons (MetricItem.lineBreak_not_mem_toFatString hname (env.formatTime_plain _).2) _
      have hnamed : ¬ (("|" : String) = "" ∨ x.stored.resource = "|") := by
        rintro (heq | heq)
        · exact absurd heq (by decide)
        · refine MetricItem.separator_not_mem_legalName x.resource ?_
          have hlist : MetricItem.legalName x.resource = ['|'] := by
            rw [← String.toList_ofList (l := MetricItem.legalName x.resource)]
            exact congrArg String.toList heq
          rw [hlist]
          exact List.mem_singleton_self '|'
      obtain ⟨hb, he⟩ := hrange x List.mem_cons_self
      have hstep : readLinesByEndTime b e "|"
          (getLines (lineOf env x ++ '\n' :: unlines (xs.map (lineOf env)))) [] =
            readLinesByEndTime b e "|" (getLines (unlines (xs.map (lineOf env)))) [] := by
        rw [hfirst, readLinesByEndTime,
          fromFatString_lineOf ⟨hfits x List.mem_cons_self, hname⟩]
        dsimp only
        rw [MetricItem.stored_second, if_neg (not_lt.mpr hb), if_pos he, if_neg hnamed,
          if_neg (by decide : ¬ kMaxLinesReturn ≤ ([] : List MetricItem).length)]
      rw [hstep] at h ⊢
      obtain ⟨hlines, hend⟩ := ih (fun y hy => hfits y (List.mem_cons_of_mem x hy))
        (fun y hy => hrange y (List.mem_cons_of_mem x hy)) h
      exact ⟨List.forall_mem_cons.mpr ⟨hname, hlines⟩, hend⟩

section

variable {b e : ℤ}

/-- One file from a boundary on, and what is done with its result. -/
theorem oneLine_of_readMetricsInOneFile {f : Text × Segment} {l₁ l₂ : Segment} (hf : d.Holds env f)
    (hl : f.2 = l₁ ++ l₂) (hfits : ∀ x ∈ items l₂, x.Fits)
    (hrange : ∀ x ∈ items l₂, b.tdiv 1000 ≤ x.second ∧ x.second ≤ e.tdiv 1000)
    {rest : List MetricItem × Bool → Option (List MetricItem)}
    (h : (readMetricsInOneFileByEndTime d [] f.1 (metricText env l₁).length b e "|").bind rest ≠ none) :
    (∀ x ∈ items l₂, '\n' ∉ x.resource.toList) ∧ rest ([], true) ≠ none := by
  have hread : readMetricsInOneFileByEndTime d [] f.1 (metricText env l₁).length b e "|" =
      readLinesByEndTime (b.tdiv 1000) (e.tdiv 1000) "|"
        (getLines (unlines ((items l₂).map (lineOf env)))) [] := by
    rw [readMetricsInOneFileByEndTime, hf.1]
    dsimp only
    rw [hl, linesFrom_length, metricText]
  rw [hread] at h
  have hne : readLinesByEndTime (b.tdiv 1000) (e.tdiv 1000) "|"
      (getLines (unlines ((items l₂).map (lineOf env)))) [] ≠ none := by
    intro hnone
    rw [hnone, Option.bind_none] at h
    exact h rfl
  obtain ⟨hlines, hend⟩ := oneLine_of_readLinesByEndTime hfits hrange hne
  rw [hend, Option.bind_some] at h
  exact ⟨hlines, h⟩

theorem oneLine_of_readFilesByEndTime (hfiles : ∀ f ∈ files, d.Holds env f)
    (hfits : ∀ x ∈ items (logOf files), x.Fits)
    (hrange : ∀ x ∈ items (logOf files), b.tdiv 1000 ≤ x.second ∧ x.second ≤ e.tdiv 1000)
    (h : readFilesByEndTime d b e "|" (files.map Prod.fst) ([], true) ≠ none) :
    ∀ x ∈ items (logOf files), '\n' ∉ x.resource.toList := by
  induction files with
  | nil => exact fun _ hx => absurd hx List.not_mem_nil
  | cons f files ih =>
    rw [logOf_cons, items_append, List.forall_mem_append] at hfits hrange ⊢
    rw [List.map_cons, readFilesByEndTime, if_pos rfl] at h
    obtain ⟨hlines, hrest⟩ := @oneLine_of_readMetricsInOneFile env d b e f [] f.2
      (hfiles f List.mem_cons_self) rfl hfits.1 hrange.1 _ h
    exact ⟨hlines, ih (fun g hg => hfiles g (List.mem_cons_of_mem f hg)) hfits.2 hrange.2 hrest⟩

theorem oneLine_of_readMetricsByEndTime {A B : List (Text × Segment)} {f : Text × Segment}
    {l₁ l₂ : Segment} (hfiles : ∀ g ∈ f :: B, d.Holds env g) (hl : f.2 = l₁ ++ l₂)
    (hfits : ∀ x ∈ items (l₂ ++ logOf B), x.Fits)
    (hrange : ∀ x ∈ items (l₂ ++ logOf B), b.tdiv 1000 ≤ x.second ∧ x.second ≤ e.tdiv 1000)
    (h : readMetricsByEndTime d ((A ++ f :: B).map Prod.fst) A.length (metricText env l₁).length b e
      "|" ≠ none) :
    ∀ x ∈ items (l₂ ++ logOf B), '\n' ∉ x.resource.toList := by
  rw [readMetricsByEndTime, drop_map_fst] at h
  rw [items_append, List.forall_mem_append] at hfits hrange ⊢
  obtain ⟨hlines, hrest⟩ := oneLine_of_readMetricsInOneFile (hfiles f List.mem_cons_self) hl hfits.1
    hrange.1 h
  exact ⟨hlines, oneLine_of_readFilesByEndTime (fun g hg => hfiles g (List.mem_cons_of_mem f hg))
    hfits.2 hrange.2 hrest⟩

end

/-- The listed files with their segments. -/
theorem Disk.HoldsLogs.exists_files (h : d.HoldsLogs env) :
    ∃ files : List (Text × Segment),
      listMetricFiles env.dirOrder d env.baseDir (formMetricFileName env) = files.map Prod.fst ∧
        ∀ f ∈ files, d.Holds env f ∧ Written64 f.2 := by
  unfold Disk.HoldsLogs at h
  generalize listMetricFiles env.dirOrder d env.baseDir (formMetricFileName env) = names at *
  induction names with
  | nil => exact ⟨[], rfl, fun _ hf => absurd hf List.not_mem_nil⟩
  | cons p names ih =>
    obtain ⟨l, hl⟩ := h p List.mem_cons_self
    obtain ⟨files, hnames, hfiles⟩ := ih fun q hq => h q (List.mem_cons_of_mem p hq)
    exact ⟨(p, l) :: files, by rw [hnames, List.map_cons], List.forall_mem_cons.mpr ⟨hl, hfiles⟩⟩

theorem written64_logOf (h : ∀ f ∈ files, Written64 f.2) : Written64 (logOf files) := by
  induction files with
  | nil => exact .nil
  | cons f files ih =>
    rw [logOf_cons]
    exact (h f List.mem_cons_self).append (ih fun g hg => h g (List.mem_cons_of_mem f hg))

/-- The seconds of all times. -/
theorem second_mem_range {t : ℤ} (ht : InInt64 t) :
    (-2 ^ 63 : ℤ).tdiv 1000 ≤ t.tdiv 1000 ∧ t.tdiv 1000 ≤ (2 ^ 63 - 1 : ℤ).tdiv 1000 :=
  ⟨Int.tdiv_le_tdiv (by decide) ht.1, Int.tdiv_le_tdiv (by decide) (Int.le_sub_one_of_lt ht.2)⟩

/-- What is behind any entry is behind the first one. -/
theorem items_behind_first {u v w z : Segment} {k k' : ℤ}
    (h : w ++ .entry k :: z = u ++ .entry k' :: v) (hfirst : ∀ k, Mark.entry k ∉ w) :
    ∀ x ∈ items v, x ∈ items z := by
  intro x hx
  rcases List.append_eq_append_iff.mp h with ⟨a, -, ha⟩ | ⟨a, hw, ha⟩
  · cases a with
    | nil => rwa [(List.cons.inj ha).2]
    | cons m a =>
      have hz : z = a ++ .entry k' :: v := (List.cons.inj ha).2
      rw [hz, items_append]
      exact List.mem_append_right _ hx
  · cases a with
    | nil => rwa [← (List.cons.inj ha).2]
    | cons m a =>
      refine absurd ?_ (hfirst k')
      rw [hw, (List.cons.inj ha).1]
      simp

/-- **One unsafe lookup for every break behind an entry**: the query for the name `|` over all times. -/
theorem SafeToRead.oneLineBehindEntry (hlogs : d.HoldsLogs env) (h : SafeToRead env d) :
    OneLineBehindEntry env d := by
  obtain ⟨files, hnames, hfiles⟩ := hlogs.exists_files
  have hholds : ∀ f ∈ files, d.Holds env f := fun f hf => (hfiles f hf).1
  refine ⟨files, hnames, hholds, fun u k v hlog => ?_⟩
  obtain ⟨htimes, hfits⟩ := written64_logOf fun f hf => (hfiles f hf).2
  have hentry : ∀ k, Mark.entry k ∈ logOf files → (-2 ^ 63 : ℤ).tdiv 1000 ≤ k := by
    intro k hk
    obtain ⟨t, ht, rfl⟩ := htimes k hk
    exact (second_mem_range ht).1
  have hsafe := h _ .fresh (.findByTimeAndResource (-2 ^ 63) (2 ^ 63 - 1) "|") ⟨0, fun _ => 0⟩
    ⟨by decide, by decide⟩
  have hsearch := searchFiles_spec ⟨0, fun _ => 0⟩ hholds (-2 ^ 63) (MetricSearcher.fresh env) 0
  unfold Query.run MetricSearcher.findByTimeAndResource at hsafe
  dsimp only at hsafe
  rw [search_fresh, hnames] at hsafe
  dsimp only at hsafe
  cases hr : (MetricSearcher.searchFiles ⟨0, fun _ => 0⟩ d (-2 ^ 63) (.fresh env) (files.map Prod.fst)
      0 0).2 with
  | none =>
    rw [hr] at hsearch
    have hk := hentry k (by rw [hlog]; simp)
    exact absurd (hsearch k (by rw [hlog]; simp)) (not_lt.mpr hk)
  | some r =>
    obtain ⟨i, offset⟩ := r
    rw [hr] at hsearch hsafe
    obtain ⟨A, f, B, l₁, k₁, l₂, rfl, rfl, hf, rfl, hlt, -⟩ := hsearch
    have hcut : logOf (A ++ f :: B) = (logOf A ++ l₁) ++ .entry k₁ :: (l₂ ++ logOf B) := by
      rw [logOf_append, logOf_cons, hf]
      simp
    have hbehind : ∀ x ∈ items (l₂ ++ logOf B), x ∈ items (logOf (A ++ f :: B)) := by
      intro x hx
      rw [hcut, items_append]
      exact List.mem_append_right _ hx
    have hfirst : ∀ k, Mark.entry k ∉ logOf A ++ l₁ := by
      intro k' hk'
      have hle := hentry k' (by rw [hcut]; exact List.mem_append_left _ hk')
      exact absurd (hlt k' hk') (not_lt.mpr hle)
    dsimp only at hsafe
    rw [Nat.zero_add] at hsafe
    have hlines : ∀ x ∈ items (l₂ ++ logOf B), '\n' ∉ x.resource.toList :=
      @oneLine_of_readMetricsByEndTime env d _ _ A B f l₁ (.entry k₁ :: l₂)
        (fun g hg => hholds g (List.mem_append_right A hg)) hf
        (fun x hx => hfits x (hbehind x hx))
        (fun x hx => second_mem_range (hfits x (hbehind x hx)).1) hsafe
    exact fun x hx => hlines x (items_behind_first (hcut.symm.trans hlog) hfirst x hx)

/-- **When reading back is safe**: after any calls of `Write`, in a directory of logs, exactly when no
item behind an index entry of the listed files has a line break in its name. -/
theorem writes_safeToRead_iff (env : LogEnv) (singleFileSize totalFileCount now : ℤ) {d : Disk}
    (hd : d.HoldsLogs env) (calls : List WriteCall) :
    SafeToRead env ((LogState.start env singleFileSize totalFileCount now d).writes env calls).disk ↔
      OneLineBehindEntry env
        ((LogState.start env singleFileSize totalFileCount now d).writes env calls).disk :=
  ⟨SafeToRead.oneLineBehindEntry ((Logging.start hd singleFileSize totalFileCount now).writes calls).logs,
    OneLineBehindEntry.safeToRead⟩

theorem holdsLogs_empty (env : LogEnv) : Disk.HoldsLogs env .empty := by
  intro p hp
  exact absurd (mem_listMetricFiles.mp hp).2 (fun h => h rfl)

/-- Three plain names in files that one item fills. -/
theorem writes_safeToRead_iff_threeSeconds : SafeToRead (.utc "/logs/" "app") threeSecondsDisk := by
  refine (writes_safeToRead_iff (.utc "/logs/" "app") 1 2 0 (holdsLogs_empty _) threeSeconds).mpr ?_
  obtain ⟨files, hlisted, hholds, hread, -⟩ := indexedAhead_threeSeconds
  refine ⟨files, hlisted, hholds, fun u k v hlog x hx => (hread x ?_).2⟩
  rw [hlog, items_append, items_entry]
  exact List.mem_append_right _ hx

/-- An item of a name with a line break makes the next lookup use an item that was not parsed. -/
theorem lineBreak_not_safeToRead :
    ¬ SafeToRead (.utc "/logs/" "app")
      ((LogState.start (.utc "/logs/" "app") 1000 6 0 .empty).writes (.utc "/logs/" "app")
        [oneItem 1000 0 "a\nb" fits_firstSecond]).disk := by
  intro h
  exact absurd (h _ .fresh (.find 0 10) ⟨0, fun _ => 0⟩ ⟨by decide, by decide, by decide⟩)
    (by decide)

end SentinelCpp.Log
