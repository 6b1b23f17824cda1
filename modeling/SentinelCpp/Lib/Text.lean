import Mathlib.Algebra.Order.Ring.Int
import Mathlib.Data.List.DropRight

/-!
# Texts: decimal numbers, fields and lines

A text is a list of characters, one for each byte.  Integers are printed in decimal and read back in
two ways: a whole field at once (`simpleAtoi`), and from a stream that skips white space and stops at
the first character that is no digit (`IStream.extractInt`; `IStream.extractWord` reads a word).  Lines
end with a line break.
-/

namespace SentinelCpp.Lib

abbrev Text := List Char

/-- The value fits 64 bits, two's complement. -/
def InInt64 (x : ℤ) : Prop := -2 ^ 63 ≤ x ∧ x < 2 ^ 63

instance (x : ℤ) : Decidable (InInt64 x) := inferInstanceAs (Decidable (_ ∧ _))

/-- The white space of the C locale. -/
def isSpace (c : Char) : Bool := c = ' ' || (9 ≤ c.toNat && c.toNat ≤ 13)

theorem isSpace_of_isDigit {c : Char} (h : c.isDigit = true) : isSpace c = false := by
  simp only [Char.isDigit, Bool.and_eq_true, decide_eq_true_eq] at h
  have h48 : 48 ≤ c.toNat := h.1
  simp only [isSpace, Bool.or_eq_false_iff, decide_eq_false_iff_not, Bool.and_eq_false_iff]
  refine ⟨?_, .inr (by omega)⟩
  rintro rfl
  exact absurd h48 (by decide)

/-! ### Decimal numbers -/

/-- Decimal notation, as `%d` prints it. -/
def decimal (x : ℤ) : Text :=
  if x < 0 then '-' :: Nat.toDigits 10 x.natAbs else Nat.toDigits 10 x.natAbs

/-- An optional sign: whether it is a minus, and the text after it. -/
def splitSign : Text → Bool × Text
  | '-' :: s => (true, s)
  | '+' :: s => (false, s)
  | s => (false, s)

/-- The number with the given sign and digits. -/
def ofDigits (negative : Bool) (digits : Text) : ℤ :=
  if negative then -(Nat.ofDigitChars 10 digits 0 : ℤ) else Nat.ofDigitChars 10 digits 0

/-- `SimpleAtoi` for 64 bits: white space around the number is ignored; the rest is an optional sign
and at least one digit, in range. -/
def simpleAtoi (s : Text) : Option ℤ :=
  let r := splitSign ((s.dropWhile isSpace).rdropWhile isSpace)
  if r.2 ≠ [] ∧ r.2.all Char.isDigit = true ∧ InInt64 (ofDigits r.1 r.2) then
    some (ofDigits r.1 r.2)
  else none

theorem all_isDigit_toDigits (n : ℕ) : (Nat.toDigits 10 n).all Char.isDigit = true :=
  List.all_eq_true.mpr fun _ hc => Nat.isDigit_of_mem_toDigits (by omega) (by omega) hc

theorem splitSign_of_isDigit {c : Char} {s : Text} (hc : c.isDigit = true) :
    splitSign (c :: s) = (false, c :: s) := by
  unfold splitSign
  split
  · rename_i heq
    obtain ⟨rfl, -⟩ := List.cons.inj heq
    exact absurd hc (by decide)
  · rename_i heq
    obtain ⟨rfl, -⟩ := List.cons.inj heq
    exact absurd hc (by decide)
  · rfl

/-- The sign and the digits of a printed number, whatever follows it. -/
theorem splitSign_decimal_append (x : ℤ) (s : Text) :
    splitSign (decimal x ++ s) = (decide (x < 0), Nat.toDigits 10 x.natAbs ++ s) := by
  unfold decimal
  by_cases hx : x < 0
  · rw [if_pos hx, decide_eq_true hx]
    rfl
  · rw [if_neg hx, decide_eq_false hx]
    obtain ⟨c, ds, hd⟩ := List.exists_cons_of_ne_nil (Nat.toDigits_ne_nil (n := x.natAbs) (b := 10))
    have hc : c.isDigit = true :=
      Nat.isDigit_of_mem_toDigits (b := 10) (n := x.natAbs) (by omega) (by omega) (by simp [hd])
    rw [hd, List.cons_append, splitSign_of_isDigit hc]

theorem splitSign_decimal (x : ℤ) :
    splitSign (decimal x) = (decide (x < 0), Nat.toDigits 10 x.natAbs) := by
  have h := splitSign_decimal_append x []
  simpa using h

@[simp] theorem ofDigits_toDigits (x : ℤ) :
    ofDigits (decide (x < 0)) (Nat.toDigits 10 x.natAbs) = x := by
  unfold ofDigits
  rw [Nat.ofDigitChars_ten_toDigits]
  split_ifs with h
  · rw [decide_eq_true_eq] at h
    omega
  · rw [decide_eq_true_eq] at h
    omega

theorem mem_decimal {x : ℤ} {c : Char} (h : c ∈ decimal x) : c = '-' ∨ c.isDigit = true := by
  unfold decimal at h
  split_ifs at h
  · rcases List.mem_cons.mp h with rfl | h
    · exact .inl rfl
    · exact .inr (Nat.isDigit_of_mem_toDigits (by omega) (by omega) h)
  · exact .inr (Nat.isDigit_of_mem_toDigits (by omega) (by omega) h)

theorem decimal_ne_nil (x : ℤ) : decimal x ≠ [] := by
  unfold decimal
  split_ifs
  · exact List.cons_ne_nil _ _
  · exact Nat.toDigits_ne_nil

theorem isSpace_of_mem_decimal {x : ℤ} {c : Char} (h : c ∈ decimal x) : isSpace c = false := by
  rcases mem_decimal h with rfl | h
  · decide
  · exact isSpace_of_isDigit h

/-- A character that is neither a digit nor a minus sign is in no number. -/
theorem not_mem_decimal {c : Char} (hd : c.isDigit = false) (hm : c ≠ '-') (x : ℤ) :
    c ∉ decimal x := by
  intro h
  rcases mem_decimal h with h | h
  · exact hm h
  · simp [hd] at h

theorem dropWhile_of_head {α : Type*} {p : α → Bool} {l : List α} (h : ∀ a ∈ l.head?, p a = false) :
    l.dropWhile p = l := by
  cases l with
  | nil => rfl
  | cons a l => rw [List.dropWhile_cons, h a rfl, if_neg Bool.false_ne_true]

theorem rdropWhile_of_forall {α : Type*} {p : α → Bool} {l : List α} (h : ∀ a ∈ l, p a = false) :
    l.rdropWhile p = l :=
  List.rdropWhile_eq_self_iff.mpr fun hl => by simp [h _ (List.getLast_mem hl)]

/-- **Numbers survive printing and parsing.** -/
theorem simpleAtoi_decimal {x : ℤ} (hx : InInt64 x) : simpleAtoi (decimal x) = some x := by
  have hdrop : (decimal x).dropWhile isSpace = decimal x :=
    dropWhile_of_head fun c hc => isSpace_of_mem_decimal (List.mem_of_mem_head? hc)
  have hrdrop : (decimal x).rdropWhile isSpace = decimal x :=
    rdropWhile_of_forall fun c hc => isSpace_of_mem_decimal hc
  unfold simpleAtoi
  dsimp only
  rw [hdrop, hrdrop, splitSign_decimal]
  dsimp only
  rw [ofDigits_toDigits, if_pos ⟨Nat.toDigits_ne_nil, all_isDigit_toDigits _, hx⟩]

theorem simpleAtoi_inInt64 {s : Text} {x : ℤ} (h : simpleAtoi s = some x) : InInt64 x := by
  unfold simpleAtoi at h
  dsimp only at h
  split_ifs at h with hcond
  rw [Option.some.injEq] at h
  exact h ▸ hcond.2.2

/-! ### Lines -/

/-- A field has no separator, and its characters come from the text. -/
theorem mem_splitOn {c : Char} {s l : Text} (h : l ∈ s.splitOn c) : c ∉ l ∧ ∀ x ∈ l, x ∈ s := by
  induction hn : s.length using Nat.strong_induction_on generalizing s with
  | _ n ih =>
    by_cases hc : c ∈ s
    · obtain ⟨a, b, rfl, ha⟩ := List.eq_append_cons_of_mem hc
      rw [List.splitOn_append_cons_self_of_not_mem ha] at h
      rw [List.length_append, List.length_cons] at hn
      rcases List.mem_cons.mp h with rfl | h
      · exact ⟨ha, fun x hx => List.mem_append_left _ hx⟩
      · obtain ⟨hl, hsub⟩ := ih b.length (by omega) h rfl
        exact ⟨hl, fun x hx => List.mem_append_right _ (List.mem_cons_of_mem _ (hsub x hx))⟩
    · rw [List.splitOn_eq_singleton hc, List.mem_singleton] at h
      subst h
      exact ⟨hc, fun x hx => hx⟩

/-- The lines written one after the other, each with its line break. -/
def unlines (ls : List Text) : Text := ls.flatMap fun l => l ++ ['\n']

/-- The lines `getline` returns until it fails: the text after the last line break is a line of its
own unless it is empty. -/
def getLines (s : Text) : List Text :=
  let parts := s.splitOn '\n'
  if parts.getLast? = some [] then parts.dropLast else parts

theorem lineBreak_not_mem_getLines {s l : Text} (h : l ∈ getLines s) : '\n' ∉ l := by
  have hmem : l ∈ s.splitOn '\n' := by
    unfold getLines at h
    dsimp only at h
    split_ifs at h
    · exact (List.dropLast_sublist _).subset h
    · exact h
  exact (mem_splitOn hmem).1

@[simp] theorem unlines_nil : unlines [] = [] := rfl

theorem unlines_cons (l : Text) (ls : List Text) : unlines (l :: ls) = l ++ '\n' :: unlines ls := by
  simp [unlines]

theorem unlines_append (ls ls' : List Text) : unlines (ls ++ ls') = unlines ls ++ unlines ls' := by
  simp [unlines]

theorem splitOn_unlines {ls : List Text} (h : ∀ l ∈ ls, '\n' ∉ l) :
    (unlines ls).splitOn '\n' = ls ++ [[]] := by
  induction ls with
  | nil => rfl
  | cons l ls ih =>
    rw [unlines_cons, List.splitOn_append_cons_self_of_not_mem (h l (by simp)),
      ih fun l' hl' => h l' (by simp [hl']), List.cons_append]

/-- The first line. -/
theorem getLines_cons {a : Text} (ha : '\n' ∉ a) (b : Text) :
    getLines (a ++ '\n' :: b) = a :: getLines b := by
  unfold getLines
  rw [List.splitOn_append_cons_self_of_not_mem ha]
  obtain ⟨c, cs, hb⟩ := List.exists_cons_of_ne_nil (List.splitOn_ne_nil '\n' b)
  dsimp only
  rw [hb, List.getLast?_cons_cons, List.dropLast_cons_cons]
  split_ifs <;> rfl

/-- **Lines survive writing and reading.** -/
theorem getLines_unlines {ls : List Text} (h : ∀ l ∈ ls, '\n' ∉ l) : getLines (unlines ls) = ls := by
  simp [getLines, splitOn_unlines h]

/-! ### Reading integers from a stream -/

/-- An input stream on a text: the position and the two failure bits. -/
structure IStream where
  text : Text
  pos : ℕ := 0
  eof : Bool := false
  fail : Bool := false

namespace IStream

/-- `seekg`: forgets an end of file that was seen, and goes nowhere after a failure. -/
def seekg (s : IStream) (offset : ℤ) : IStream :=
  if s.fail = true then { s with eof := false }
  else if offset < 0 then { s with eof := false, fail := true }
  else { s with eof := false, pos := offset.toNat }

/-- `tellg`: −1 at the end of the file or after a failure. -/
def tellg (s : IStream) : ℤ := if s.eof || s.fail then -1 else s.pos

/-- `>>` into an integer variable with value `old`: a stream that is not good, or has only white space
left, leaves the variable alone; a text that is no number stores 0.  (The numbers read are far below
the limits of the type.) -/
def extractInt (s : IStream) (old : ℤ) : ℤ × IStream :=
  if s.eof || s.fail then (old, { s with fail := true })
  else
    let rest := s.text.drop s.pos
    let body := rest.dropWhile isSpace
    if body = [] then (old, { s with pos := s.pos + rest.length, eof := true, fail := true })
    else
      let r := splitSign body
      let digits := r.2.takeWhile Char.isDigit
      let after := r.2.dropWhile Char.isDigit
      let s := { s with pos := s.pos + (rest.length - after.length), eof := after.isEmpty }
      if digits = [] then (0, { s with fail := true }) else (ofDigits r.1 digits, s)

/-- A number between white space and a character that is no digit: it is read, and the stream stands
behind it. -/
theorem extractInt_decimal (before : Text) {space : Text} (after : Text) (x : ℤ) {c : Char} (old : ℤ)
    (hspace : space.all isSpace = true) (hc : c.isDigit = false) :
    extractInt ⟨before ++ (space ++ (decimal x ++ c :: after)), before.length, false, false⟩ old =
      (x, ⟨before ++ (space ++ (decimal x ++ c :: after)),
        before.length + (space.length + (decimal x).length), false, false⟩) := by
  have hrest : (before ++ (space ++ (decimal x ++ c :: after))).drop before.length =
      space ++ (decimal x ++ c :: after) := List.drop_left
  have hbody : (space ++ (decimal x ++ c :: after)).dropWhile isSpace = decimal x ++ c :: after := by
    rw [List.dropWhile_append_of_pos (List.all_eq_true.mp hspace)]
    refine dropWhile_of_head fun a ha => ?_
    rw [List.head?_append_of_ne_nil _ (decimal_ne_nil x)] at ha
    exact isSpace_of_mem_decimal (List.mem_of_mem_head? ha)
  have hdigits := List.all_eq_true.mp (all_isDigit_toDigits x.natAbs)
  have htake : (Nat.toDigits 10 x.natAbs ++ c :: after).takeWhile Char.isDigit =
      Nat.toDigits 10 x.natAbs := by
    rw [List.takeWhile_append_of_pos hdigits, List.takeWhile_cons, hc]
    simp
  have hdrop : (Nat.toDigits 10 x.natAbs ++ c :: after).dropWhile Char.isDigit = c :: after := by
    rw [List.dropWhile_append_of_pos hdigits, List.dropWhile_cons, hc]
    simp
  unfold extractInt
  simp only [Bool.or_self, Bool.false_eq_true, if_false, hrest, hbody]
  rw [if_neg (by simp [decimal_ne_nil]), splitSign_decimal_append]
  dsimp only
  rw [htake, hdrop, if_neg Nat.toDigits_ne_nil, ofDigits_toDigits]
  simp only [List.length_append, List.isEmpty_cons, Prod.mk.injEq, true_and, IStream.mk.injEq,
    and_true]
  omega

/-- A number at the very end: it is read, and the end of the text has been seen. -/
theorem extractInt_last (before : Text) {space : Text} (x old : ℤ) (hspace : space.all isSpace = true) :
    extractInt ⟨before ++ (space ++ decimal x), before.length, false, false⟩ old =
      (x, ⟨before ++ (space ++ decimal x), before.length + (space.length + (decimal x).length), true,
        false⟩) := by
  have hrest : (before ++ (space ++ decimal x)).drop before.length = space ++ decimal x :=
    List.drop_left
  have hbody : (space ++ decimal x).dropWhile isSpace = decimal x := by
    rw [List.dropWhile_append_of_pos (List.all_eq_true.mp hspace)]
    exact dropWhile_of_head fun a ha => isSpace_of_mem_decimal (List.mem_of_mem_head? ha)
  have hdigits := List.all_eq_true.mp (all_isDigit_toDigits x.natAbs)
  unfold extractInt
  simp only [Bool.or_self, Bool.false_eq_true, if_false, hrest, hbody]
  rw [if_neg (decimal_ne_nil x), splitSign_decimal]
  dsimp only
  rw [List.takeWhile_eq_self_iff.mpr hdigits, List.dropWhile_eq_nil_iff.mpr hdigits,
    if_neg Nat.toDigits_ne_nil, ofDigits_toDigits]
  simp

/-- At the end, after white space only, the variable keeps its value and the stream has failed. -/
theorem extractInt_end {before space : Text} (old : ℤ) (hspace : space.all isSpace = true) :
    extractInt ⟨before ++ space, before.length, false, false⟩ old =
      (old, ⟨before ++ space, before.length + space.length, true, true⟩) := by
  have hbody : space.dropWhile isSpace = [] :=
    List.dropWhile_eq_nil_iff.mpr (List.all_eq_true.mp hspace)
  unfold extractInt
  simp [hbody]

/-- A stream that has failed is left alone. -/
theorem extractInt_of_fail {s : IStream} (old : ℤ) (h : s.fail = true) :
    extractInt s old = (old, s) := by
  unfold extractInt
  rw [h, Bool.or_true, if_pos rfl, ← h]

/-- The stream after `>>` does not depend on the old value, and neither does the value unless the
stream has failed. -/
theorem extractInt_old (s : IStream) (old old' : ℤ) :
    (s.extractInt old).2 = (s.extractInt old').2 ∧
      ((s.extractInt old).1 = (s.extractInt old').1 ∨ (s.extractInt old).2.fail = true) := by
  unfold extractInt
  dsimp only
  split_ifs
  · exact ⟨rfl, .inr rfl⟩
  · exact ⟨rfl, .inr rfl⟩
  · exact ⟨rfl, .inl rfl⟩
  · exact ⟨rfl, .inl rfl⟩

/-- A stream that has seen the end leaves the variable alone. -/
theorem extractInt_of_eof {s : IStream} (old : ℤ) (h : s.eof = true) :
    extractInt s old = (old, { s with fail := true }) := by
  unfold extractInt
  rw [h, Bool.true_or, if_pos rfl, ← h]

/-- `>>` into a string with value `old`: the next word. -/
def extractWord (s : IStream) (old : Text) : Text × IStream :=
  if s.eof || s.fail then (old, { s with fail := true })
  else
    let rest := s.text.drop s.pos
    let body := rest.dropWhile isSpace
    if body = [] then (old, { s with pos := s.pos + rest.length, eof := true, fail := true })
    else
      let after := body.dropWhile fun c => !isSpace c
      (body.takeWhile fun c => !isSpace c,
        { s with pos := s.pos + (rest.length - after.length), eof := after.isEmpty })

/-- A word at the start, before white space. -/
theorem extractWord_append {word : Text} {c : Char} (after old : Text) (hne : word ≠ [])
    (hword : ∀ x ∈ word, isSpace x = false) (hc : isSpace c = true) :
    extractWord ⟨word ++ c :: after, 0, false, false⟩ old =
      (word, ⟨word ++ c :: after, word.length, false, false⟩) := by
  have hbody : (word ++ c :: after).dropWhile isSpace = word ++ c :: after := by
    refine dropWhile_of_head fun a ha => ?_
    rw [List.head?_append_of_ne_nil _ hne] at ha
    exact hword a (List.mem_of_mem_head? ha)
  have hpos : ∀ x ∈ word, (!isSpace x) = true := by
    intro x hx
    rw [hword x hx, Bool.not_false]
  have htake : (word ++ c :: after).takeWhile (fun c => !isSpace c) = word := by
    rw [List.takeWhile_append_of_pos hpos, List.takeWhile_cons, hc]
    simp
  have hdrop : (word ++ c :: after).dropWhile (fun c => !isSpace c) = c :: after := by
    rw [List.dropWhile_append_of_pos hpos, List.dropWhile_cons, hc]
    simp
  unfold extractWord
  simp only [Bool.or_self, Bool.false_eq_true, if_false, List.drop_zero, hbody]
  rw [if_neg (by simp [hne]), htake, hdrop]
  simp

theorem splitSign_fst {c : Char} (h : c ≠ '-') (s : Text) : (splitSign (c :: s)).1 = false := by
  unfold splitSign
  split
  · rename_i heq
    exact absurd (List.cons.inj heq).1 h
  · rfl
  · rfl

/-- What is read is the old value, when nothing is left, or not negative, or behind a minus sign. -/
theorem extractInt_cases (s : IStream) (old : ℤ) :
    ((s.extractInt old).1 = old ∧ (s.extractInt old).2.fail = true) ∨ 0 ≤ (s.extractInt old).1 ∨
      ∃ rest, (s.text.drop s.pos).dropWhile isSpace = '-' :: rest := by
  unfold extractInt
  dsimp only
  split_ifs with h1 h2 h3
  · exact .inl ⟨rfl, rfl⟩
  · exact .inl ⟨rfl, rfl⟩
  · exact .inr (.inl le_rfl)
  · right
    obtain ⟨c, cs, hbody⟩ := List.exists_cons_of_ne_nil h2
    by_cases hc : c = '-'
    · exact .inr ⟨cs, by rw [hbody, hc]⟩
    · left
      rw [hbody, splitSign_fst hc, ofDigits, if_neg Bool.false_ne_true]
      exact Int.natCast_nonneg _

/-- In a text without minus signs, what is read is the old value or not negative. -/
theorem extractInt_nonneg {s : IStream} (h : '-' ∉ s.text) (old : ℤ) :
    (s.extractInt old).1 = old ∨ 0 ≤ (s.extractInt old).1 := by
  rcases extractInt_cases s old with ⟨hold, -⟩ | hnonneg | ⟨rest, hrest⟩
  · exact .inl hold
  · exact .inr hnonneg
  · have hmem : '-' ∈ (s.text.drop s.pos).dropWhile isSpace := hrest ▸ List.mem_cons_self
    exact absurd (List.mem_of_mem_drop ((List.dropWhile_sublist _).mem hmem)) h

end IStream

end SentinelCpp.Lib
