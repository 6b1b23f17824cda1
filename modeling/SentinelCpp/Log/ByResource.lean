import SentinelCpp.Log.Complete

/-!
# Searching by resource

A line of the log has the legal name of its item, and `FindByTimeAndResource` compares that with the
name it is given as it is.  So a name with a separator finds nothing, and a name without one finds,
besides its own items, those of every resource that has separators where the name has underscores.
-/

namespace SentinelCpp.Log

open Lib Stat

/-- The items between the two seconds. -/
def inRange (beginTimeMs endTimeMs : ℤ) (written : List MetricItem) : List MetricItem :=
  written.filter fun x => beginTimeMs.tdiv 1000 ≤ x.second ∧ x.second ≤ endTimeMs.tdiv 1000

/-- Those recorded for the resource. -/
def recordedFor (identity : String) (xs : List MetricItem) : List MetricItem :=
  xs.filter fun x => x.resource = identity

/-- Those whose line has the name. -/
def storedUnder (identity : String) (xs : List MetricItem) : List MetricItem :=
  xs.filter fun x => x.stored.resource = identity

/-- No other resource gets in the way of the search: the name has a separator and nothing is recorded
for it, or all of the first items stored under it are its own; or there are so many items of its own
that the search stops before a difference shows. -/
def NamesApart (identity : String) (xs : List MetricItem) : Prop :=
  if '|' ∈ identity.toList then recordedFor identity xs = []
  else
    (∀ x ∈ (storedUnder identity xs).take kMaxLinesReturn, x.resource = identity) ∨
      (kMaxLinesReturn ≤ (recordedFor identity xs).length ∧
        ((storedUnder identity xs).take kMaxLinesReturn).map MetricItem.stored =
          (recordedFor identity xs).take kMaxLinesReturn)

variable {identity : String} {xs : List MetricItem}

/-- No line has a name with a separator. -/
theorem storedUnder_of_separator (h : '|' ∈ identity.toList) : storedUnder identity xs = [] := by
  rw [storedUnder, List.filter_eq_nil_iff]
  intro x _ hx
  rw [decide_eq_true_eq] at hx
  refine MetricItem.separator_not_mem_legalName x.resource ?_
  have hname : identity.toList = MetricItem.legalName x.resource := by
    rw [← hx]
    exact String.toList_ofList
  rwa [← hname]

/-- An item whose name has no separator is kept as it is. -/
theorem stored_of_not_mem {x : MetricItem} (h : '|' ∉ x.resource.toList) : x.stored = x := by
  unfold MetricItem.stored
  rw [MetricItem.legalName_of_not_mem h, String.ofList_toList]

/-- The own items of a name without separator are among those stored under it. -/
theorem recordedFor_storedUnder (h : '|' ∉ identity.toList) (xs : List MetricItem) :
    recordedFor identity (storedUnder identity xs) = recordedFor identity xs := by
  unfold recordedFor storedUnder
  rw [List.filter_filter]
  refine List.filter_congr fun x _ => ?_
  rw [← Bool.decide_and, decide_eq_decide]
  refine ⟨And.left, fun hx => ⟨hx, ?_⟩⟩
  rw [stored_of_not_mem (by rw [hx]; exact h), hx]

theorem map_stored_recordedFor (h : '|' ∉ identity.toList) (xs : List MetricItem) :
    (recordedFor identity xs).map MetricItem.stored = recordedFor identity xs := by
  refine (List.map_congr_left fun x hx => ?_).trans (List.map_id _)
  have hname : x.resource = identity := by simpa [recordedFor] using (List.mem_filter.mp hx).2
  exact stored_of_not_mem (by rw [hname]; exact h)

/-- Filtering changes no beginning of a list whose elements all pass. -/
theorem take_filter_of_forall {α : Type} {p : α → Bool} {k : ℕ} {l : List α}
    (h : ∀ x ∈ l.take k, p x = true) : (l.filter p).take k = l.take k := by
  have hsplit : l.filter p = l.take k ++ (l.drop k).filter p := by
    conv_lhs => rw [← List.take_append_drop k l, List.filter_append, List.filter_eq_self.mpr h]
  rcases le_total k l.length with hk | hk
  · rw [hsplit, List.take_left' (by rw [List.length_take]; omega)]
  · rw [hsplit, List.drop_eq_nil_of_le hk, List.filter_nil, List.append_nil, List.take_take, min_self]

/-- What the reader keeps of the items is exact under the condition, and only then. -/
theorem take_storedUnder_iff (identity : String) (xs : List MetricItem) :
    ((storedUnder identity xs).map MetricItem.stored).take kMaxLinesReturn =
        (recordedFor identity xs).take kMaxLinesReturn ↔ NamesApart identity xs := by
  unfold NamesApart
  split_ifs with hsep
  · have hpos : kMaxLinesReturn ≠ 0 := by decide
    rw [storedUnder_of_separator hsep, List.map_nil, List.take_nil, eq_comm, List.take_eq_nil_iff]
    simp [hpos]
  · rw [← List.map_take]
    constructor
    · intro heq
      rcases le_or_gt kMaxLinesReturn (recordedFor identity xs).length with hlong | hshort
      · exact .inr ⟨hlong, heq⟩
      · -- no item has been cut off, so the two lists are equally long
        left
        have hlen := congrArg List.length heq
        rw [List.length_map, List.length_take, List.length_take] at hlen
        have hsame : (recordedFor identity (storedUnder identity xs)).length =
            (storedUnder identity xs).length := by
          rw [recordedFor_storedUnder hsep]
          omega
        intro x hx
        have hmem : x ∈ recordedFor identity (storedUnder identity xs) := by
          rw [recordedFor, List.length_filter_eq_length_iff] at hsame
          exact List.mem_filter.mpr ⟨List.mem_of_mem_take hx, hsame x (List.mem_of_mem_take hx)⟩
        simpa [recordedFor] using (List.mem_filter.mp hmem).2
    · rintro (hown | ⟨-, heq⟩)
      · have htake : (recordedFor identity (storedUnder identity xs)).take kMaxLinesReturn =
            (storedUnder identity xs).take kMaxLinesReturn :=
          take_filter_of_forall fun x hx => decide_eq_true (hown x hx)
        rw [recordedFor_storedUnder hsep] at htake
        rw [← htake, List.map_take, map_stored_recordedFor hsep]
      · exact heq

theorem named_map_stored (h : identity ≠ "") (xs : List MetricItem) :
    named identity (xs.map MetricItem.stored) = (storedUnder identity xs).map MetricItem.stored := by
  unfold named storedUnder
  rw [List.filter_map]
  refine congrArg (List.map MetricItem.stored) (List.filter_congr fun x _ => ?_)
  rw [Function.comp_apply, decide_eq_decide, or_iff_right h]

/-- **When a search by resource is exact.**  After calls of `Write` in the order of their seconds, with
no file removed and the files listed in the order of their creation: exactly when no other resource
gets in the way among the items between the two seconds. -/
theorem writes_findsByResource_iff (env : LogEnv) (junk : Junk)
    (singleFileSize totalFileCount now : ℤ) (d : Disk) (calls : List WriteCall)
    (horder : InOrder now calls) (hdated : ∀ c ∈ calls, c.Dated) (hnames : OneLineNames calls)
    (hlisted : ((LogState.start env singleFileSize totalFileCount now d).writes env calls).disk.ListedInOrder
      env) (beginTimeMs endTimeMs : ℤ) (identity : String) (hid : identity ≠ "") :
    ((MetricSearcher.fresh env).findByTimeAndResource junk env.dirOrder
        ((LogState.start env singleFileSize totalFileCount now d).writes env calls).disk beginTimeMs
        endTimeMs identity).2 =
      some ((recordedFor identity (inRange beginTimeMs endTimeMs
        (calls.flatMap WriteCall.items))).take kMaxLinesReturn) ↔
    NamesApart identity (inRange beginTimeMs endTimeMs (calls.flatMap WriteCall.items)) := by
  have hstart := Logged.start env singleFileSize totalFileCount now d
  obtain ⟨files, ⟨⟨hkeeps, hlog, hitems, -⟩, -⟩⟩ := hstart.writes hdated horder hlisted.nodup
  have hread := readable_items hnames
  rw [List.nil_append] at hitems
  rw [← hitems] at hread ⊢
  have hfound := @findByTime_of_isLog _ _ junk _ (hkeeps.holds_of_removed hlisted.removed) hlog
    (paths_injective (hlisted.created.symm.trans hkeeps.created)) hread beginTimeMs endTimeMs identity
  rw [hfound, named_map_stored hid, Option.some.injEq]
  exact take_storedUnder_iff identity _

/-- Items of `a|b` and of `a_b`. -/
def twoNames : List WriteCall := [oneItem 1000 0 "a|b", oneItem 2000 0 "a_b"]

theorem twoNames_disk :
    (((LogState.start (.utc "/logs/" "app") 1000 6 0 {}).writes (.utc "/logs/" "app")
      twoNames).disk).ListedInOrder (.utc "/logs/" "app") := ⟨by decide, by decide⟩

/-- A query for `a_b` returns the item of `a|b` as well, and one for `a|b` returns nothing. -/
theorem findByResource_mixes :
    let env := LogEnv.utc "/logs/" "app"
    let d := ((LogState.start env 1000 6 0 {}).writes env twoNames).disk
    let find := fun id => ((MetricSearcher.fresh env).findByTimeAndResource ⟨0, fun _ => 0⟩
      env.dirOrder d 0 5000 id).2
    let recorded := fun id => recordedFor id (inRange 0 5000 (twoNames.flatMap WriteCall.items))
    (InOrder 0 twoNames ∧ (∀ c ∈ twoNames, c.Dated) ∧ OneLineNames twoNames ∧ d.ListedInOrder env) ∧
      (find "a_b").map List.length = some 2 ∧ (recorded "a_b").length = 1 ∧
      find "a_b" ≠ some ((recorded "a_b").take kMaxLinesReturn) ∧
      find "a|b" = some [] ∧ find "a|b" ≠ some ((recorded "a|b").take kMaxLinesReturn) := by
  refine ⟨⟨by decide, by decide, by decide, twoNames_disk⟩, ?_, ?_, ?_, ?_, ?_⟩ <;> decide

/-- The same files, searched in the second of the second item only. -/
theorem writes_findsByResource_iff_example :
    ((MetricSearcher.fresh (.utc "/logs/" "app")).findByTimeAndResource ⟨0, fun _ => 0⟩
        (LogEnv.utc "/logs/" "app").dirOrder
        ((LogState.start (.utc "/logs/" "app") 1000 6 0 {}).writes (.utc "/logs/" "app") twoNames).disk
        2000 2000 "a_b").2 =
      some ((recordedFor "a_b" (inRange 2000 2000 (twoNames.flatMap WriteCall.items))).take
        kMaxLinesReturn) ↔
    NamesApart "a_b" (inRange 2000 2000 (twoNames.flatMap WriteCall.items)) :=
  writes_findsByResource_iff (.utc "/logs/" "app") ⟨0, fun _ => 0⟩ 1000 6 0 {} twoNames (by decide)
    (by decide) (by decide) twoNames_disk 2000 2000 "a_b" (by decide)

end SentinelCpp.Log
