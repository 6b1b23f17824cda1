import Mathlib.Data.Char
import Mathlib.Data.List.Lex
import Mathlib.Data.List.Pairwise
import Mathlib.Data.List.Sort
import SentinelCpp.Lib.Text

/-!
# The order of texts

Texts are compared character by character.  Numbers with equally many digits are ordered as their
values, and a larger number has at least as many digits; so numbers without leading zeros are ordered
by length and then as texts.
-/

namespace SentinelCpp.Lib

/-! ### Common beginnings -/

theorem append_lt_append_left_iff {p x y : Text} : p ++ x < p ++ y ↔ x < y := by
  induction p with
  | nil => rfl
  | cons c p ih =>
    rw [List.cons_append, List.cons_append, List.cons_lt_cons_self]
    exact ih

/-- Blocks of equal length are compared first. -/
theorem append_lt_append_iff {x y s t : Text} (h : x.length = y.length) :
    x ++ s < y ++ t ↔ x < y ∨ x = y ∧ s < t := by
  induction x generalizing y with
  | nil =>
    obtain rfl : y = [] := List.length_eq_zero_iff.mp h.symm
    simp
  | cons c x ih =>
    cases y with
    | nil => exact absurd h (by simp)
    | cons c' y =>
      rw [List.cons_append, List.cons_append, List.cons_lt_cons_iff, List.cons_lt_cons_iff,
        ih (Nat.succ.inj h), List.cons.injEq]
      tauto

/-! ### Digits -/

/-- The value of a list of digits, most significant digit first. -/
theorem ofDigitChars_cons_zero (c : Char) (l : Text) :
    Nat.ofDigitChars 10 (c :: l) 0 = 10 ^ l.length * (c.toNat - 48) + Nat.ofDigitChars 10 l 0 := by
  have h0 : '0'.toNat = 48 := rfl
  rw [Nat.ofDigitChars_cons, Nat.ofDigitChars_eq_ofDigitChars_zero, h0, Nat.mul_zero, Nat.zero_add]

theorem toNat_of_isDigit {c : Char} (h : c.isDigit = true) : 48 ≤ c.toNat ∧ c.toNat ≤ 57 := by
  simp only [Char.isDigit, Bool.and_eq_true, decide_eq_true_eq] at h
  exact ⟨h.1, h.2⟩

theorem ofDigitChars_lt {l : Text} (h : ∀ c ∈ l, c.isDigit = true) :
    Nat.ofDigitChars 10 l 0 < 10 ^ l.length := by
  induction l with
  | nil => simp
  | cons c l ih =>
    have hc := toNat_of_isDigit (h c (by simp))
    have hl := ih fun c' hc' => h c' (by simp [hc'])
    have hdigit : 10 ^ l.length * (c.toNat - 48) ≤ 10 ^ l.length * 9 :=
      Nat.mul_le_mul_left _ (by omega)
    rw [ofDigitChars_cons_zero, List.length_cons, pow_succ]
    omega

/-- A smaller leading digit decides. -/
theorem ofDigitChars_lt_of_lt {c c' : Char} {l l' : Text} (hc : c.isDigit = true)
    (hl : ∀ d ∈ l, d.isDigit = true) (hlen : l.length = l'.length) (hlt : c < c') :
    Nat.ofDigitChars 10 (c :: l) 0 < Nat.ofDigitChars 10 (c' :: l') 0 := by
  have hvalue := ofDigitChars_lt hl
  have h48 := (toNat_of_isDigit hc).1
  have hnat : c.toNat < c'.toNat := hlt
  have hstep : 10 ^ l.length * (c.toNat - 48 + 1) ≤ 10 ^ l.length * (c'.toNat - 48) :=
    Nat.mul_le_mul_left _ (by omega)
  rw [Nat.mul_add, Nat.mul_one] at hstep
  rw [ofDigitChars_cons_zero, ofDigitChars_cons_zero, ← hlen]
  omega

/-- **Numbers with equally many digits** are ordered as their values. -/
theorem lt_iff_ofDigitChars_lt {l l' : Text} (hl : ∀ c ∈ l, c.isDigit = true)
    (hl' : ∀ c ∈ l', c.isDigit = true) (hlen : l.length = l'.length) :
    l < l' ↔ Nat.ofDigitChars 10 l 0 < Nat.ofDigitChars 10 l' 0 := by
  induction l generalizing l' with
  | nil =>
    obtain rfl : l' = [] := List.length_eq_zero_iff.mp hlen.symm
    simp
  | cons c l ih =>
    cases l' with
    | nil => exact absurd hlen (by simp)
    | cons c' l' =>
      have hlen' : l.length = l'.length := Nat.succ.inj hlen
      have hrest : ∀ d ∈ l, d.isDigit = true := fun d hd => hl d (by simp [hd])
      have hrest' : ∀ d ∈ l', d.isDigit = true := fun d hd => hl' d (by simp [hd])
      rw [List.cons_lt_cons_iff]
      rcases lt_trichotomy c c' with hlt | rfl | hgt
      · have hval := ofDigitChars_lt_of_lt (hl c (by simp)) hrest hlen' hlt
        exact ⟨fun _ => hval, fun _ => .inl hlt⟩
      · rw [ofDigitChars_cons_zero, ofDigitChars_cons_zero, hlen', ih hrest hrest' hlen']
        simp
      · have hval := ofDigitChars_lt_of_lt (hl' c' (by simp)) hrest' hlen'.symm hgt
        refine ⟨?_, fun h => absurd h hval.not_gt⟩
        rintro (h | ⟨rfl, -⟩)
        · exact absurd h hgt.not_gt
        · exact absurd hgt (lt_irrefl _)

/-! ### Decimal numbers -/

theorem decimal_natCast (n : ℕ) : decimal n = Nat.toDigits 10 n := by
  rw [decimal, if_neg (by omega), Int.natAbs_natCast]

theorem isDigit_of_mem_decimal {n : ℕ} : ∀ c ∈ decimal n, c.isDigit = true := by
  rw [decimal_natCast]
  exact fun c hc => Nat.isDigit_of_mem_toDigits (by omega) (by omega) hc

theorem ofDigitChars_decimal (n : ℕ) : Nat.ofDigitChars 10 (decimal n) 0 = n := by
  rw [decimal_natCast, Nat.ofDigitChars_ten_toDigits]

theorem length_decimal_le_iff {n k : ℕ} (hk : 0 < k) : (decimal (n : ℤ)).length ≤ k ↔ n < 10 ^ k := by
  rw [decimal_natCast, Nat.length_toDigits_le_iff (by omega) hk]

theorem length_decimal_pos (n : ℕ) : 0 < (decimal (n : ℤ)).length :=
  List.length_pos_of_ne_nil (decimal_ne_nil _)

/-- A larger number has at least as many digits. -/
theorem length_decimal_mono {n m : ℕ} (h : n ≤ m) :
    (decimal (n : ℤ)).length ≤ (decimal (m : ℤ)).length := by
  rw [length_decimal_le_iff (length_decimal_pos m)]
  exact h.trans_lt ((length_decimal_le_iff (length_decimal_pos m)).mp le_rfl)

theorem decimal_lt_iff {n m : ℕ} (hlen : (decimal (n : ℤ)).length = (decimal (m : ℤ)).length) :
    decimal (n : ℤ) < decimal (m : ℤ) ↔ n < m := by
  rw [lt_iff_ofDigitChars_lt isDigit_of_mem_decimal isDigit_of_mem_decimal hlen, ofDigitChars_decimal,
    ofDigitChars_decimal]

/-- **A number and a larger one**: fewer digits, or as many and smaller as a text. -/
theorem decimal_lt_decimal {n m : ℕ} (h : n < m) :
    (decimal (n : ℤ)).length < (decimal (m : ℤ)).length ∨
      (decimal (n : ℤ)).length = (decimal (m : ℤ)).length ∧ decimal (n : ℤ) < decimal (m : ℤ) := by
  rcases (length_decimal_mono h.le).lt_or_eq with hlen | hlen
  · exact .inl hlen
  · exact .inr ⟨hlen, (decimal_lt_iff hlen).mpr h⟩

/-! ### Filled up with zeros -/

/-- Decimal digits, filled up with zeros. -/
def padded (width : ℕ) (n : ℤ) : Text := List.replicate (width - (decimal n).length) '0' ++ decimal n

theorem not_mem_padded {c : Char} (hd : c.isDigit = false) (hm : c ≠ '-') (width : ℕ) (n : ℤ) :
    c ∉ padded width n := by
  rw [padded, List.mem_append, not_or]
  refine ⟨fun h => ?_, not_mem_decimal hd hm n⟩
  rw [List.eq_of_mem_replicate h] at hd
  exact absurd hd (by decide)

theorem isDigit_of_mem_padded {width n : ℕ} : ∀ c ∈ padded width n, c.isDigit = true := by
  intro c hc
  rcases List.mem_append.mp hc with hc | hc
  · rw [List.eq_of_mem_replicate hc]
    rfl
  · exact isDigit_of_mem_decimal c hc

theorem length_padded {width n : ℕ} (hw : 0 < width) (hn : n < 10 ^ width) :
    (padded width n).length = width := by
  have hlen := (length_decimal_le_iff hw).mpr hn
  rw [padded, List.length_append, List.length_replicate]
  omega

/-- Neither the zeros nor the sign count as digits. -/
theorem ofDigitChars_padded (width : ℕ) (n : ℤ) :
    Nat.ofDigitChars 10 (padded width n) 0 = n.natAbs := by
  rw [padded, Nat.ofDigitChars_append, Nat.ofDigitChars_replicate_zero, Nat.mul_zero, decimal]
  split_ifs
  · rw [Nat.ofDigitChars_cons]
    exact Nat.ofDigitChars_ten_toDigits
  · exact Nat.ofDigitChars_ten_toDigits

theorem minus_mem_padded {width : ℕ} {n : ℤ} : '-' ∈ padded width n ↔ n < 0 := by
  constructor
  · intro h
    by_contra hn
    obtain ⟨m, rfl⟩ := Int.eq_ofNat_of_zero_le (not_lt.mp hn)
    exact absurd (isDigit_of_mem_padded _ h) (by decide)
  · intro h
    rw [padded, decimal, if_pos h]
    exact List.mem_append_right _ List.mem_cons_self

/-- **Filled up to one width**, numbers are ordered as their values. -/
theorem padded_lt_iff {width n m : ℕ} (hw : 0 < width) (hn : n < 10 ^ width) (hm : m < 10 ^ width) :
    padded width n < padded width m ↔ n < m := by
  rw [lt_iff_ofDigitChars_lt isDigit_of_mem_padded isDigit_of_mem_padded
    ((length_padded hw hn).trans (length_padded hw hm).symm), ofDigitChars_padded, ofDigitChars_padded,
    Int.natAbs_natCast, Int.natAbs_natCast]

theorem padded_injective (width : ℕ) : Function.Injective (padded width) := by
  intro n m h
  have habs : n.natAbs = m.natAbs := by
    rw [← ofDigitChars_padded width n, ← ofDigitChars_padded width m, h]
  have hsign : n < 0 ↔ m < 0 := by rw [← @minus_mem_padded width n, h, minus_mem_padded]
  omega

theorem padded_inj {width n m : ℕ} : padded width (n : ℤ) = padded width (m : ℤ) ↔ n = m :=
  (padded_injective width).eq_iff.trans Int.natCast_inj

/-! ### Sorting by a key -/

section Sorting

variable {α β : Type*} [LinearOrder β] {key : α → β}

/-- Sorting by a key without ties gives the one list that is in order. -/
theorem insertionSort_eq_iff (hkey : Function.Injective key) {l l' : List α} (hperm : l'.Perm l) :
    l'.insertionSort (fun a b => key a ≤ key b) = l ↔ l.Pairwise fun a b => key a ≤ key b := by
  have : Std.Total fun a b : α => key a ≤ key b := ⟨fun a b => le_total _ _⟩
  have : IsTrans α fun a b : α => key a ≤ key b := ⟨fun a b c => le_trans⟩
  have : Std.Antisymm fun a b : α => key a ≤ key b := ⟨fun a b h h' => hkey (le_antisymm h h')⟩
  have hsorted := List.pairwise_insertionSort (fun a b : α => key a ≤ key b) l'
  refine ⟨fun h => h ▸ hsorted, fun h => ?_⟩
  exact ((List.perm_insertionSort _ l').trans hperm).eq_of_pairwise' hsorted h

/-- The last one has the greatest key. -/
theorem le_of_getLast?_insertionSort {l : List α} {x y : α} (hy : y ∈ l)
    (hx : (l.insertionSort fun a b => key a ≤ key b).getLast? = some x) : key y ≤ key x := by
  have : Std.Total fun a b : α => key a ≤ key b := ⟨fun a b => le_total _ _⟩
  have : IsTrans α fun a b : α => key a ≤ key b := ⟨fun a b c => le_trans⟩
  have hsorted := List.pairwise_insertionSort (fun a b : α => key a ≤ key b) l
  have hmem : y ∈ l.insertionSort fun a b => key a ≤ key b := (List.mem_insertionSort _).mpr hy
  obtain ⟨hne, rfl⟩ := List.mem_getLast?_eq_getLast (Option.mem_def.mpr hx)
  exact hsorted.rel_getLast_of_rel_getLast_getLast hmem le_rfl

end Sorting

end SentinelCpp.Lib
