import SentinelCpp.Log.Complete

/-!
# The cached position of a searcher

A searcher keeps the position of its last search and starts the next one there when the position looks
valid.  Without the cached position a search starts at the first listed file, and what it returns
depends neither on the earlier searches nor on the values of uninitialised variables
(`search_of_unused`).  The cached second is never assigned, so the position looks valid only when −1 is
read at it, which in an index without minus signs is the value `sec` happens to have
(`sec_of_validPosition`).
-/

namespace SentinelCpp.Log

open Lib Stat

/-! ### What a search depends on -/

variable {b : ℤ}

/-- What a scan finds depends neither on the junk it starts with nor on the offset cached before. -/
theorem scanIndex_fst {fuel : ℕ} {input : IStream} {second second' tmpOffset : ℤ}
    (h : second = second' ∨ tmpOffset = -1) (o o' : ℤ) :
    (scanIndex b fuel input second tmpOffset o).1 = (scanIndex b fuel input second' tmpOffset o').1 := by
  induction fuel generalizing input second second' tmpOffset o o' with
  | zero => rfl
  | succ fuel ih =>
    rw [scanIndex, scanIndex]
    split_ifs with hend
    · rfl
    obtain ⟨hstream, hvalue⟩ := IStream.extractInt_old input second second'
    by_cases heq : (input.extractInt second).1 = (input.extractInt second').1
    · -- the same number is read: from here on both scans have the same variables
      have hsame : input.extractInt second = input.extractInt second' := Prod.ext heq hstream
      rw [hsame]
      dsimp only
      split_ifs
      · exact ih (.inl rfl) _ _
      · rfl
    · have hfail := hvalue.resolve_left heq
      have htmp : tmpOffset = -1 := h.resolve_left fun hs => heq (by rw [hs])
      subst htmp
      have hnone : ∀ sec o, (scanIndex b fuel (input.extractInt second').2 sec (-1) o).1 = -1 := by
        intro sec o
        cases fuel with
        | zero => rfl
        | succ fuel =>
          rw [scanIndex, ← hstream, hfail, Bool.or_true, if_pos rfl]
      dsimp only
      rw [hstream] at hfail ⊢
      rw [IStream.extractInt_of_fail _ hfail]
      dsimp only
      split_ifs <;> simp only [hnone]

namespace MetricSearcher

variable {junk junk' : Junk} {order : IterationOrder Text} {d : Disk} {m m' : MetricSearcher} {t : ℤ}

theorem findOffset_snd (junk junk' : Junk) (m m' : MetricSearcher) (d : Disk) (t : ℤ) (p q : Text)
    (o : ℤ) : (m.findOffset junk d t p q o).2 = (m'.findOffset junk' d t p q o).2 := by
  unfold findOffset
  cases d.content? q with
  | none => rfl
  | some text => exact scanIndex_fst (.inr rfl) _ _

theorem searchFiles_snd (junk junk' : Junk) (m m' : MetricSearcher) (names : List Text) (pos : ℕ)
    (o : ℤ) : (searchFiles junk d t m names pos o).2 = (searchFiles junk' d t m' names pos o).2 := by
  induction names generalizing m m' pos o with
  | nil => rfl
  | cons p names ih =>
    rw [searchFiles, searchFiles]
    rw [findOffset_snd junk junk' m m']
    split_ifs
    · rfl
    · exact ih _ _ _ _

/-- The directory and the name searched for stay, and no search assigns the cached second. -/
theorem findOffset_keeps (junk : Junk) (m : MetricSearcher) (d : Disk) (t : ℤ) (p q : Text) (o : ℤ) :
    (m.findOffset junk d t p q o).1.baseDir = m.baseDir ∧
      (m.findOffset junk d t p q o).1.baseFileName = m.baseFileName ∧
      (m.findOffset junk d t p q o).1.lastPos.second = m.lastPos.second := by
  unfold findOffset
  cases d.content? q with
  | none => exact ⟨rfl, rfl, rfl⟩
  | some text =>
    dsimp only
    refine ⟨rfl, rfl, ?_⟩
    split_ifs <;> rfl

theorem searchFiles_keeps (m : MetricSearcher) (names : List Text) (pos : ℕ) (o : ℤ) :
    (searchFiles junk d t m names pos o).1.baseDir = m.baseDir ∧
      (searchFiles junk d t m names pos o).1.baseFileName = m.baseFileName ∧
      (searchFiles junk d t m names pos o).1.lastPos.second = m.lastPos.second := by
  induction names generalizing m pos o with
  | nil => exact ⟨rfl, rfl, rfl⟩
  | cons p names ih =>
    rw [searchFiles]
    obtain ⟨h1, h2, h3⟩ := findOffset_keeps junk m d t p (formIndexFileName p) o
    split_ifs
    · exact ⟨h1, h2, h3⟩
    · obtain ⟨h4, h5, h6⟩ := ih (m.findOffset junk d t p (formIndexFileName p) o).1 (pos + 1) 0
      exact ⟨h4.trans h1, h5.trans h2, h6.trans h3⟩

/-- **A search that does not start at the cached position** finds what any other such search on the same
directory finds. -/
theorem search_of_unused (h : ¬ m.UsesPosition junk order d t) (h' : ¬ m'.UsesPosition junk' order d t)
    (hdir : m.baseDir = m'.baseDir) (hname : m.baseFileName = m'.baseFileName) :
    (m.search junk order d t).2 = (m'.search junk' order d t).2 := by
  rw [search_eq_of_not_usesPosition h, search_eq_of_not_usesPosition h', hdir, hname]
  dsimp only
  rw [searchFiles_snd junk junk' m m']

theorem search_keeps (junk : Junk) (order : IterationOrder Text) (m : MetricSearcher) (d : Disk) (t : ℤ) :
    (m.search junk order d t).1.baseDir = m.baseDir ∧
      (m.search junk order d t).1.baseFileName = m.baseFileName ∧
        (m.search junk order d t).1.lastPos.second = m.lastPos.second :=
  searchFiles_keeps _ _ _ _

/-- In an index without minus signs the position looks valid only when `sec` happens to be −1. -/
theorem sec_of_validPosition (hsecond : m.lastPos.second = -1)
    (hindex : ∀ text, d.content? m.lastPos.indexFileName = some text → '-' ∉ text)
    (h : m.validPosition junk d t = true) : junk.sec = -1 := by
  unfold validPosition at h
  rw [hsecond] at h
  split_ifs at h
  cases hc : d.content? m.lastPos.indexFileName with
  | none => simp [hc] at h
  | some text =>
    simp only [hc, decide_eq_true_eq] at h
    have htext : ((IStream.mk text 0 false false).seekg m.lastPos.offsetInIndex).text = text := by
      unfold IStream.seekg
      split_ifs <;> rfl
    rcases IStream.extractInt_nonneg (by rw [htext]; exact hindex text hc) junk.sec with hsec | hsec
    · exact hsec.symm.trans h
    · omega

end MetricSearcher

/-! ### Histories of lookups -/

/-- The two lookups with their arguments. -/
inductive Query
  | find (beginTimeMs recommendLines : ℤ)
  | findByTimeAndResource (beginTimeMs endTimeMs : ℤ) (identity : String)

/-- A lookup, the files it is made on and the values its uninitialised variables happen to have. -/
structure Lookup where
  query : Query
  disk : Disk
  junk : Junk

namespace Query

def beginTimeMs : Query → ℤ
  | find b _ => b
  | findByTimeAndResource b _ _ => b

/-- The searcher after the lookup, and the answer. -/
def run (q : Query) (junk : Junk) (order : IterationOrder Text) (m : MetricSearcher) (d : Disk) :
    MetricSearcher × Option (List MetricItem) :=
  match q with
  | find b n => m.find junk order d b n
  | findByTimeAndResource b e identity => m.findByTimeAndResource junk order d b e identity

end Query

variable (order : IterationOrder Text)

/-- The answers of one searcher to lookups made one after the other. -/
def answers : MetricSearcher → List Lookup → List (Option (List MetricItem))
  | _, [] => []
  | m, l :: ls =>
    let r := l.query.run l.junk order m l.disk
    r.2 :: answers r.1 ls

/-- No lookup starts at a cached position. -/
def NeverUsesPosition : MetricSearcher → List Lookup → Prop
  | _, [] => True
  | m, l :: ls =>
    ¬ m.UsesPosition l.junk order l.disk l.query.beginTimeMs ∧
      NeverUsesPosition (l.query.run l.junk order m l.disk).1 ls

instance decidableNeverUsesPosition (m : MetricSearcher) (ls : List Lookup) :
    Decidable (NeverUsesPosition order m ls) :=
  match ls with
  | [] => inferInstanceAs (Decidable True)
  | l :: ls =>
    have := decidableNeverUsesPosition (l.query.run l.junk order m l.disk).1 ls
    inferInstanceAs (Decidable (_ ∧ _))

/-- Every answer is the one that a new searcher gives on the same files. -/
def AnswersAsNew (baseDir baseFileName : Text) (ls : List Lookup) : Prop :=
  ∀ junk : Junk, answers order { baseDir, baseFileName } ls =
    ls.map fun l => (l.query.run junk order { baseDir, baseFileName } l.disk).2

variable {order}

/-- One lookup: the answer depends on the search only. -/
theorem Query.run_spec (q : Query) (junk : Junk) (order : IterationOrder Text) (m : MetricSearcher) (d : Disk) :
    (q.run junk order m d).1 = (m.search junk order d q.beginTimeMs).1 ∧
      ∀ {junk' : Junk} {m' : MetricSearcher},
        (m.search junk order d q.beginTimeMs).2 = (m'.search junk' order d q.beginTimeMs).2 →
        (q.run junk order m d).2 = (q.run junk' order m' d).2 := by
  cases q with
  | find b n =>
    refine ⟨rfl, fun h => ?_⟩
    change (m.search junk order d b).2 = _ at h
    unfold Query.run MetricSearcher.find
    dsimp only
    rw [h]
    rfl
  | findByTimeAndResource b e identity =>
    refine ⟨rfl, fun h => ?_⟩
    change (m.search junk order d b).2 = _ at h
    unfold Query.run MetricSearcher.findByTimeAndResource
    dsimp only
    rw [h]
    rfl

/-- **The cached position is only an optimisation** for every history in which no search starts at
it. -/
theorem answers_of_unused (baseDir baseFileName : Text) (ls : List Lookup)
    (h : NeverUsesPosition order { baseDir, baseFileName } ls) :
    AnswersAsNew order baseDir baseFileName ls := by
  intro junk
  -- any searcher on the directory, so that the induction goes through
  have hany : ∀ m : MetricSearcher, m.baseDir = baseDir → m.baseFileName = baseFileName →
      NeverUsesPosition order m ls → answers order m ls =
        ls.map fun l => (l.query.run junk order { baseDir, baseFileName } l.disk).2 := by
    clear h
    induction ls with
    | nil => intros; rfl
    | cons l ls ih =>
      intro m hdir hname hnever
      obtain ⟨hunused, hrest⟩ := hnever
      obtain ⟨hstate, hanswer⟩ := l.query.run_spec l.junk order m l.disk
      obtain ⟨h1, h2, -⟩ := MetricSearcher.search_keeps l.junk order m l.disk l.query.beginTimeMs
      have hfresh : (l.query.run l.junk order m l.disk).2 =
          (l.query.run junk order { baseDir, baseFileName } l.disk).2 :=
        hanswer (MetricSearcher.search_of_unused hunused
          (MetricSearcher.not_usesPosition_new baseDir baseFileName) hdir hname)
      rw [answers, List.map_cons, hfresh, ih _ ?_ ?_ hrest]
      · rw [hstate, h1, hdir]
      · rw [hstate, h2, hname]
  exact hany _ rfl rfl h

/-- In logs without negative seconds a search starts at a cached position only when the uninitialised
`sec` happens to be −1. -/
theorem neverUsesPosition_of_sec {m : MetricSearcher} {ls : List Lookup} (hsecond : m.lastPos.second = -1)
    (hls : ∀ l ∈ ls, l.junk.sec ≠ -1 ∧ ∀ p text, l.disk.content? p = some text → '-' ∉ text) :
    NeverUsesPosition order m ls := by
  induction ls generalizing m with
  | nil => trivial
  | cons l ls ih =>
    obtain ⟨hsec, hindex⟩ := hls l (by simp)
    refine ⟨fun hused => hsec ?_, ih ?_ fun l' hl' => hls l' (by simp [hl'])⟩
    · exact MetricSearcher.sec_of_validPosition hsecond (fun text => hindex _ text) hused.1
    · rw [(l.query.run_spec l.junk order m l.disk).1]
      exact (MetricSearcher.search_keeps l.junk order m l.disk l.query.beginTimeMs).2.2.trans hsecond

/-! The log of an application `app` with one item, looked up twice. -/

def oneItemDisk : Disk :=
  ((LogState.start (.utc "/logs/" "app") 100 6 0 .empty).writes (.utc "/logs/" "app")
    [oneItem 1000 0 "a" fits_firstSecond]).disk

/-- The same lookup twice; `sec` has the value −1 or 0. -/
def twice (sec : ℤ) : List Lookup :=
  [⟨.find 0 10, oneItemDisk, ⟨sec, fun _ => 0⟩⟩, ⟨.find 0 10, oneItemDisk, ⟨sec, fun _ => 0⟩⟩]

theorem answers_of_unused_twice :
    AnswersAsNew (.insertion Text) "/logs/".toList "app-metrics.log".toList (twice 0) :=
  answers_of_unused _ _ _ (by decide)

/-- With −1 the second lookup starts at the cached position, for which no entry was read, and finds
nothing. -/
theorem not_answersAsNew_twice :
    ¬ AnswersAsNew (.insertion Text) "/logs/".toList "app-metrics.log".toList (twice (-1)) := by
  intro h
  have hnew := h ⟨0, fun _ => 0⟩
  exact absurd hnew (by decide)

end SentinelCpp.Log
