import SentinelCpp.Lib.Text
import SentinelCpp.Stat.Metrics

/-!
# Metric items as lines of text

`MetricItem` is written to the metric log as one line of fields separated by `|`, the fat string, and
sent to clients as another, the thin string, which leaves out the formatted time.  In the resource name
the separator is replaced, so a line read back is the item with the legal name.
-/

namespace SentinelCpp.Stat

open SentinelCpp.Lib

def parseOrDefault (s : Text) (default_value : ℤ) : ℤ := (simpleAtoi s).getD default_value

theorem parseOrDefault_decimal {x : ℤ} (hx : InInt64 x) (d : ℤ) : parseOrDefault (decimal x) d = x := by
  rw [parseOrDefault, simpleAtoi_decimal hx, Option.getD_some]

namespace MetricItem

/-- The resource name without field separators. -/
def legalName (resource : String) : Text :=
  resource.toList.map fun c => if c = '|' then '_' else c

/-- The counters and the time are 64-bit values. -/
def Fits (x : MetricItem) : Prop :=
  InInt64 x.timestamp ∧ InInt64 x.passQps ∧ InInt64 x.blockQps ∧ InInt64 x.completeQps ∧
    InInt64 x.exceptionQps ∧ InInt64 x.rt

instance (x : MetricItem) : Decidable x.Fits := inferInstanceAs (Decidable (_ ∧ _))

/-- The second of the item's time; the division rounds towards zero. -/
def second (x : MetricItem) : ℤ := x.timestamp.tdiv 1000

/-- `ToThinString`. -/
def toThinString (x : MetricItem) : Text :=
  ['|'].intercalate
    [decimal x.timestamp, legalName x.resource, decimal x.passQps, decimal x.blockQps,
      decimal x.completeQps, decimal x.exceptionQps, decimal x.rt]

/-- `ToFatString`, given the formatting of times in the local zone. -/
def toFatString (formatTime : ℤ → Text) (x : MetricItem) : Text :=
  ['|'].intercalate
    [decimal x.timestamp, formatTime x.timestamp, legalName x.resource, decimal x.passQps,
      decimal x.blockQps, decimal x.completeQps, decimal x.exceptionQps, decimal x.rt]

/-- `FromThinString`: `none` is the null pointer. -/
def fromThinString (s : Text) : Option MetricItem :=
  let vec := s.splitOn '|'
  if vec.length < 7 then none
  else
    some
      { timestamp := parseOrDefault (vec.getD 0 []) 0
        resource := String.ofList (vec.getD 1 [])
        passQps := parseOrDefault (vec.getD 2 []) 0
        blockQps := parseOrDefault (vec.getD 3 []) 0
        completeQps := parseOrDefault (vec.getD 4 []) 0
        exceptionQps := parseOrDefault (vec.getD 5 []) 0
        rt := parseOrDefault (vec.getD 6 []) 0 }

/-- `FromFatString`: `none` is the null pointer. -/
def fromFatString (s : Text) : Option MetricItem :=
  let vec := s.splitOn '|'
  if vec.length < 8 then none
  else
    some
      { timestamp := parseOrDefault (vec.getD 0 []) 0
        resource := String.ofList (vec.getD 2 [])
        passQps := parseOrDefault (vec.getD 3 []) 0
        blockQps := parseOrDefault (vec.getD 4 []) 0
        completeQps := parseOrDefault (vec.getD 5 []) 0
        exceptionQps := parseOrDefault (vec.getD 6 []) 0
        rt := parseOrDefault (vec.getD 7 []) 0 }

/-- The item as the log keeps it. -/
def stored (x : MetricItem) : MetricItem := { x with resource := String.ofList (legalName x.resource) }

@[simp] theorem stored_second (x : MetricItem) : x.stored.second = x.second := rfl

theorem separator_not_mem_legalName (resource : String) : '|' ∉ legalName resource := by
  intro h
  obtain ⟨c, -, hc⟩ := List.mem_map.mp h
  split_ifs at hc with hsep
  · exact absurd hc (by decide)
  · exact hsep hc

theorem lineBreak_not_mem_legalName {resource : String} (h : '\n' ∉ resource.toList) :
    '\n' ∉ legalName resource := by
  intro hmem
  obtain ⟨c, hc, heq⟩ := List.mem_map.mp hmem
  split_ifs at heq with hsep
  · exact absurd heq (by decide)
  · exact h (heq ▸ hc)

/-- A name without separators is kept as it is. -/
theorem legalName_of_not_mem {resource : String} (h : '|' ∉ resource.toList) :
    legalName resource = resource.toList := by
  refine (List.map_congr_left fun c hc => if_neg ?_).trans (List.map_id _)
  rintro rfl
  exact h hc

variable {formatTime : ℤ → Text}

/-- The fields of a line. -/
theorem splitOn_toFatString {x : MetricItem} (hformat : '|' ∉ formatTime x.timestamp) :
    (toFatString formatTime x).splitOn '|' =
      [decimal x.timestamp, formatTime x.timestamp, legalName x.resource, decimal x.passQps,
        decimal x.blockQps, decimal x.completeQps, decimal x.exceptionQps, decimal x.rt] := by
  have hnum : ∀ n, '|' ∉ decimal n := not_mem_decimal (by decide) (by decide)
  refine List.splitOn_intercalate _ ?_ (List.cons_ne_nil _ _)
  simp only [List.forall_mem_cons, hnum, hformat, separator_not_mem_legalName, not_false_eq_true,
    true_and]
  exact fun _ h => absurd h List.not_mem_nil

/-- **A line read back** is the item with the legal name. -/
theorem fromFatString_toFatString {x : MetricItem} (hx : x.Fits)
    (hformat : '|' ∉ formatTime x.timestamp) :
    fromFatString (toFatString formatTime x) = some x.stored := by
  obtain ⟨h0, h3, h4, h5, h6, h7⟩ := hx
  unfold fromFatString
  simp only [splitOn_toFatString hformat]
  simp [parseOrDefault_decimal, h0, h3, h4, h5, h6, h7, stored]

/-- A line can be read back whatever the numbers are. -/
theorem fromFatString_toFatString_ne_none {x : MetricItem} (hformat : '|' ∉ formatTime x.timestamp) :
    fromFatString (toFatString formatTime x) ≠ none := by
  unfold fromFatString
  simp [splitOn_toFatString hformat]

/-- **A thin string read back** is the item with the legal name, too. -/
theorem fromThinString_toThinString {x : MetricItem} (hx : x.Fits) :
    fromThinString (toThinString x) = some x.stored := by
  have hnum : ∀ n, '|' ∉ decimal n := not_mem_decimal (by decide) (by decide)
  have hsplit : (toThinString x).splitOn '|' =
      [decimal x.timestamp, legalName x.resource, decimal x.passQps, decimal x.blockQps,
        decimal x.completeQps, decimal x.exceptionQps, decimal x.rt] := by
    refine List.splitOn_intercalate _ ?_ (List.cons_ne_nil _ _)
    simp only [List.forall_mem_cons, hnum, separator_not_mem_legalName, not_false_eq_true, true_and]
    exact fun _ h => absurd h List.not_mem_nil
  obtain ⟨h0, h2, h3, h4, h5, h6⟩ := hx
  unfold fromThinString
  simp only [hsplit]
  simp [parseOrDefault_decimal, h0, h2, h3, h4, h5, h6, stored]

/-- A legal name has nothing left to replace. -/
@[simp] theorem legalName_stored (x : MetricItem) : legalName x.stored.resource = legalName x.resource := by
  have hlegal : '|' ∉ (String.ofList (legalName x.resource)).toList := by
    rw [String.toList_ofList]
    exact separator_not_mem_legalName x.resource
  show legalName (String.ofList (legalName x.resource)) = _
  rw [legalName_of_not_mem hlegal, String.toList_ofList]

@[simp] theorem toThinString_stored (x : MetricItem) : x.stored.toThinString = x.toThinString := by
  unfold toThinString
  rw [legalName_stored]
  rfl

/-- **Both codecs keep the item up to its legal name**, and what a client gets from a line of the log is
what the item itself would have sent. -/
theorem codecs_roundTrip {x : MetricItem} (hx : x.Fits) (hformat : '|' ∉ formatTime x.timestamp) :
    fromFatString (toFatString formatTime x) = some x.stored ∧
      fromThinString (toThinString x) = some x.stored ∧
      (fromFatString (toFatString formatTime x)).map toThinString = some (toThinString x) := by
  have hfat := fromFatString_toFatString hx hformat
  refine ⟨hfat, fromThinString_toThinString hx, ?_⟩
  rw [hfat, Option.map_some, toThinString_stored]

/-- An item with a separator and a negative count, and the extreme time. -/
theorem codecs_roundTrip_extreme :
    let x : MetricItem :=
      { timestamp := -2 ^ 63, resource := "a|b", passQps := -1, blockQps := 0, completeQps := 0
        exceptionQps := 0, rt := 2 ^ 63 - 1 }
    fromFatString (toFatString (fun _ => []) x) = some x.stored ∧
      fromThinString (toThinString x) = some x.stored ∧
      (fromFatString (toFatString (fun _ => []) x)).map toThinString = some (toThinString x) :=
  codecs_roundTrip (by decide) List.not_mem_nil

theorem mem_intercalate {c d : Char} {ls : List Text} (h : c ∈ [d].intercalate ls) :
    c = d ∨ ∃ l ∈ ls, c ∈ l := by
  induction ls with
  | nil => simp at h
  | cons l ls ih =>
    cases ls with
    | nil => exact .inr ⟨l, by simp, by simpa using h⟩
    | cons l' ls =>
      rw [List.intercalate_cons_cons, List.mem_append, List.mem_append, List.mem_singleton] at h
      rcases h with (h | h) | h
      · exact .inr ⟨l, by simp, h⟩
      · exact .inl h
      · rcases ih h with h | ⟨m, hm, hc⟩
        · exact .inl h
        · exact .inr ⟨m, List.mem_cons_of_mem _ hm, hc⟩

theorem not_mem_intercalate {c d : Char} {ls : List Text} (hd : c ≠ d) (h : ∀ l ∈ ls, c ∉ l) :
    c ∉ [d].intercalate ls := by
  intro hc
  rcases mem_intercalate hc with hc | ⟨l, hl, hc⟩
  · exact hd hc
  · exact h l hl hc

/-- A line holds no line break when the name and the formatted time hold none. -/
theorem lineBreak_not_mem_toFatString {x : MetricItem} (hname : '\n' ∉ x.resource.toList)
    (hformat : '\n' ∉ formatTime x.timestamp) : '\n' ∉ toFatString formatTime x := by
  have hnum : ∀ n, '\n' ∉ decimal n := not_mem_decimal (by decide) (by decide)
  refine not_mem_intercalate (by decide) ?_
  simp only [List.forall_mem_cons]
  exact ⟨hnum _, hformat, lineBreak_not_mem_legalName hname, hnum _, hnum _, hnum _, hnum _, hnum _,
    List.forall_mem_nil _⟩

theorem lineBreak_not_mem_toThinString {x : MetricItem} (hname : '\n' ∉ x.resource.toList) :
    '\n' ∉ toThinString x := by
  have hnum : ∀ n, '\n' ∉ decimal n := not_mem_decimal (by decide) (by decide)
  refine not_mem_intercalate (by decide) ?_
  simp only [List.forall_mem_cons]
  exact ⟨hnum _, lineBreak_not_mem_legalName hname, hnum _, hnum _, hnum _, hnum _, hnum _,
    List.forall_mem_nil _⟩

/-- What is read from a line fits, and its name has no separator and no other characters than the line. -/
theorem of_fromFatString {line : Text} {x : MetricItem} (h : fromFatString line = some x) :
    x.Fits ∧ '|' ∉ x.resource.toList ∧ ∀ c ∈ x.resource.toList, c ∈ line := by
  have hfits : ∀ s, InInt64 (parseOrDefault s 0) := by
    intro s
    unfold parseOrDefault
    cases hs : simpleAtoi s with
    | none => decide
    | some y => exact simpleAtoi_inInt64 hs
  unfold fromFatString at h
  dsimp only at h
  split_ifs at h with hlen
  rw [Option.some.injEq] at h
  subst h
  refine ⟨⟨hfits _, hfits _, hfits _, hfits _, hfits _, hfits _⟩, ?_⟩
  have hmem : (line.splitOn '|').getD 2 [] ∈ line.splitOn '|' := by
    rw [List.getD_eq_getElem?_getD, List.getElem?_eq_getElem (by omega), Option.getD_some]
    exact List.getElem_mem _
  dsimp only
  rw [String.toList_ofList]
  exact mem_splitOn hmem

theorem stored_eq_self {x : MetricItem} (h : '|' ∉ x.resource.toList) : x.stored = x := by
  unfold stored
  rw [legalName_of_not_mem h, String.ofList_toList]

theorem lineBreak_mem_legalName {resource : String} (h : '\n' ∈ resource.toList) :
    '\n' ∈ legalName resource :=
  List.mem_map.mpr ⟨'\n', h, if_neg (by decide)⟩

/-- With a line break in the name, what stands before it has three fields and is no item. -/
theorem toFatString_of_lineBreak {x : MetricItem} (hname : '\n' ∈ x.resource.toList)
    (hformat : '|' ∉ formatTime x.timestamp ∧ '\n' ∉ formatTime x.timestamp) :
    ∃ a b, toFatString formatTime x = a ++ '\n' :: b ∧ '\n' ∉ a ∧ fromFatString a = none := by
  obtain ⟨u, v, huv, hu⟩ := List.eq_append_cons_of_mem (lineBreak_mem_legalName hname)
  have hsep : '|' ∉ u := fun h =>
    separator_not_mem_legalName x.resource (by rw [huv]; exact List.mem_append_left _ h)
  have hnum : ∀ {c : Char}, c.isDigit = false → c ≠ '-' → c ∉ decimal x.timestamp := fun hd hm =>
    not_mem_decimal hd hm _
  refine ⟨['|'].intercalate [decimal x.timestamp, formatTime x.timestamp, u],
    v ++ '|' :: ['|'].intercalate [decimal x.passQps, decimal x.blockQps, decimal x.completeQps,
      decimal x.exceptionQps, decimal x.rt], ?_, fun h => ?_, ?_⟩
  · unfold toFatString
    rw [huv]
    simp [List.intercalate_cons_cons]
  · rcases mem_intercalate h with h | ⟨l, hl, hc⟩
    · exact absurd h (by decide)
    · simp only [List.mem_cons, List.not_mem_nil, or_false] at hl
      rcases hl with rfl | rfl | rfl
      · exact hnum (by decide) (by decide) hc
      · exact hformat.2 hc
      · exact hu hc
  · have hsplit : (['|'].intercalate [decimal x.timestamp, formatTime x.timestamp, u]).splitOn '|' =
        [decimal x.timestamp, formatTime x.timestamp, u] := by
      refine List.splitOn_intercalate _ ?_ (List.cons_ne_nil _ _)
      simp only [List.forall_mem_cons, hnum (by decide : ('|' : Char).isDigit = false) (by decide),
        hformat.1, hsep, not_false_eq_true, true_and]
      exact fun _ h => absurd h List.not_mem_nil
    unfold fromFatString
    rw [hsplit]
    exact if_pos (by decide : 3 < 8)

end MetricItem

end SentinelCpp.Stat
