import Mathlib.Algebra.Order.Ring.Nat
import Mathlib.Data.List.Induction
import Mathlib.Order.Lattice

/-!
# Logs with an index, cut into segments

A log is a sequence of items with index marks between them; the keys of marks and items never
decrease, and an item comes after a mark with its own key (`IsLog`).  The first mark with key at least
`b` then splits the log: behind it lie exactly the items with key at least `b`
(`IsLog.filter_of_first`); all of them, but not only them, when each item has a late enough mark ahead
of it (`Ahead`).  A segment stores its marks apart from its items, each mark with the total
size of the items before it in the segment (`offsets`); `offsets_find?` reads the split off these.
-/

namespace SentinelCpp.Lib

inductive Mark (κ α : Type*)
  | entry (k : κ)
  | item (x : α)

namespace Mark

variable {κ α : Type*}

/-- The key of a mark or of an item. -/
def key (keyOf : α → κ) : Mark κ α → κ
  | entry k => k
  | item x => keyOf x

def item? : Mark κ α → Option α
  | entry _ => none
  | item x => some x

end Mark

section Log

variable {κ α : Type*}

/-- The items of a log, in order. -/
def items (l : List (Mark κ α)) : List α := l.filterMap Mark.item?

@[simp] theorem items_nil : items ([] : List (Mark κ α)) = [] := rfl
@[simp] theorem items_entry (k : κ) (l : List (Mark κ α)) : items (.entry k :: l) = items l := rfl
@[simp] theorem items_item (x : α) (l : List (Mark κ α)) : items (.item x :: l) = x :: items l := rfl
@[simp] theorem items_append (l l' : List (Mark κ α)) : items (l ++ l') = items l ++ items l' :=
  List.filterMap_append

@[simp] theorem items_map_item (xs : List α) : items (xs.map (Mark.item : α → Mark κ α)) = xs := by
  induction xs with
  | nil => rfl
  | cons x xs ih => rw [List.map_cons, items_item, ih]

theorem mem_items {l : List (Mark κ α)} {x : α} : x ∈ items l ↔ Mark.item x ∈ l := by
  induction l with
  | nil => simp
  | cons m l ih =>
    cases m with
    | entry k => simp [ih]
    | item y => simp [ih]

variable [LinearOrder κ] {keyOf : α → κ}

/-- Before every item there is a mark with a key at least that of the item. -/
def Ahead (keyOf : α → κ) (l : List (Mark κ α)) : Prop :=
  ∀ l₁ x l₂, l = l₁ ++ .item x :: l₂ → ∃ k, Mark.entry k ∈ l₁ ∧ keyOf x ≤ k

namespace Ahead

/-- Without a mark from `b` on there is no item from `b` on. -/
theorem filter_of_no_entry {l : List (Mark κ α)} (h : Ahead keyOf l) {b : κ}
    (hno : ∀ k, Mark.entry k ∈ l → k < b) : (items l).filter (fun x => b ≤ keyOf x) = [] := by
  refine List.filter_eq_nil_iff.mpr fun x hx hb => ?_
  obtain ⟨l₁, l₂, rfl⟩ := List.mem_iff_append.mp (mem_items.mp hx)
  obtain ⟨k, hmark, hk⟩ := h l₁ x l₂ rfl
  have hlt := hno k (List.mem_append_left _ hmark)
  exact absurd (hk.trans_lt hlt) (not_lt.mpr (by simpa using hb))

/-- Before the first mark from `b` on there is no item from `b` on. -/
theorem filter_of_first {l₁ l₂ : List (Mark κ α)} {k b : κ} (h : Ahead keyOf (l₁ ++ .entry k :: l₂))
    (hno : ∀ k', Mark.entry k' ∈ l₁ → k' < b) :
    (items (l₁ ++ .entry k :: l₂)).filter (fun x => b ≤ keyOf x) =
      (items l₂).filter (fun x => b ≤ keyOf x) := by
  have hfirst : Ahead keyOf l₁ := fun u x v hl => h u x (v ++ .entry k :: l₂) (by simp [hl])
  rw [items_append, items_entry, List.filter_append, hfirst.filter_of_no_entry hno, List.nil_append]

end Ahead

/-- An item with no mark late enough before it stands before the first mark from its key on. -/
theorem before_first_of_unmarked {l₁ l₂ u v : List (Mark κ α)} {x : α} {k : κ}
    (hl : l₁ ++ .item x :: l₂ = u ++ .entry k :: v) (hlost : ∀ k', Mark.entry k' ∈ l₁ → k' < keyOf x)
    (hk : keyOf x ≤ k) : x ∈ items u := by
  rcases List.append_eq_append_iff.mp hl with ⟨w, rfl, hw⟩ | ⟨w, rfl, hw⟩
  · cases w with
    | nil => exact absurd (List.cons.inj hw).1 (by simp)
    | cons m w =>
      obtain ⟨rfl, -⟩ := List.cons.inj hw
      simp
  · cases w with
    | nil => exact absurd (List.cons.inj hw).1 (by simp)
    | cons m w =>
      obtain ⟨rfl, -⟩ := List.cons.inj hw
      exact absurd (hlost k (by simp)) (not_lt.mpr hk)

/-- Keys never decrease, and every item has a mark with its key before it. -/
structure IsLog (keyOf : α → κ) (l : List (Mark κ α)) : Prop where
  sorted : (l.map (Mark.key keyOf)).Pairwise (· ≤ ·)
  marked : ∀ l₁ x l₂, l = l₁ ++ .item x :: l₂ → Mark.entry (keyOf x) ∈ l₁

namespace IsLog

theorem nil : IsLog keyOf ([] : List (Mark κ α)) :=
  ⟨.nil, fun l₁ x l₂ h => absurd h (by simp)⟩

/-- A log goes on with any mark whose key is late enough, and with an item whose mark is there. -/
theorem concat {l : List (Mark κ α)} (h : IsLog keyOf l) {m : Mark κ α}
    (hm : ∀ m' ∈ l, m'.key keyOf ≤ m.key keyOf)
    (hmark : ∀ x, m = .item x → Mark.entry (keyOf x) ∈ l) : IsLog keyOf (l ++ [m]) := by
  refine ⟨?_, fun l₁ x l₂ heq => ?_⟩
  · rw [List.map_append, List.pairwise_append]
    refine ⟨h.sorted, List.pairwise_singleton _ _, fun a ha b hb => ?_⟩
    obtain ⟨m', hm', rfl⟩ := List.mem_map.mp ha
    obtain rfl : b = m.key keyOf := by simpa using hb
    exact hm m' hm'
  · rcases List.append_eq_append_iff.mp heq with ⟨l₃, rfl, h₃⟩ | ⟨l₃, rfl, h₃⟩
    · -- the item is the new element
      have hlen := congrArg List.length h₃
      simp only [List.length_append, List.length_cons, List.length_nil] at hlen
      obtain rfl : l₃ = [] := List.length_eq_zero_iff.mp (by omega)
      have hx : m = .item x := by simpa using congrArg List.head? h₃
      simpa using hmark x hx
    · cases l₃ with
      | nil =>
        have hx : m = .item x := by simpa using (congrArg List.head? h₃).symm
        simpa using hmark x hx
      | cons m' l₃ =>
        obtain ⟨rfl, -⟩ := List.cons.inj h₃
        exact h.marked l₁ x l₃ rfl

/-- Items with one key, after a mark with that key. -/
theorem append_items {l : List (Mark κ α)} (h : IsLog keyOf l) {xs : List α} {k : κ}
    (hxs : ∀ x ∈ xs, keyOf x = k) (hk : ∀ m ∈ l, m.key keyOf ≤ k) (hmark : Mark.entry k ∈ l) :
    IsLog keyOf (l ++ xs.map .item) := by
  induction xs using List.reverseRecOn with
  | nil => simpa using h
  | append_singleton xs x ih =>
    have hx : keyOf x = k := hxs x (by simp)
    have ih := ih fun y hy => hxs y (by simp [hy])
    rw [List.map_append, ← List.append_assoc]
    refine ih.concat (fun m hm => ?_) fun y hy => ?_
    · show m.key keyOf ≤ keyOf x
      rw [hx]
      rcases List.mem_append.mp hm with hm | hm
      · exact hk m hm
      · obtain ⟨y, hy, rfl⟩ := List.mem_map.mp hm
        exact (hxs y (by simp [hy])).le
    · obtain rfl : x = y := by simpa using hy
      exact List.mem_append_left _ (hx ▸ hmark)

/-- One log after another with later keys. -/
theorem append {l l' : List (Mark κ α)} (h : IsLog keyOf l) (h' : IsLog keyOf l')
    (hle : ∀ m ∈ l, ∀ m' ∈ l', m.key keyOf ≤ m'.key keyOf) : IsLog keyOf (l ++ l') := by
  refine ⟨?_, fun l₁ x l₂ heq => ?_⟩
  · rw [List.map_append, List.pairwise_append]
    refine ⟨h.sorted, h'.sorted, fun k hk k' hk' => ?_⟩
    obtain ⟨m, hm, rfl⟩ := List.mem_map.mp hk
    obtain ⟨m', hm', rfl⟩ := List.mem_map.mp hk'
    exact hle m hm m' hm'
  · rcases List.append_eq_append_iff.mp heq with ⟨b, rfl, hb⟩ | ⟨b, rfl, hb⟩
    · exact List.mem_append_right _ (h'.marked b x l₂ hb)
    · cases b with
      | nil => exact absurd (h'.marked [] x l₂ hb.symm) List.not_mem_nil
      | cons m b =>
        rw [List.cons_append, List.cons.injEq] at hb
        obtain ⟨rfl, -⟩ := hb
        exact h.marked l₁ x b rfl

theorem ahead {l : List (Mark κ α)} (h : IsLog keyOf l) : Ahead keyOf l :=
  fun l₁ x l₂ hl => ⟨keyOf x, h.marked l₁ x l₂ hl, le_rfl⟩

/-- **The first mark from `b` on** has exactly the items from `b` on behind it. -/
theorem filter_of_first {l₁ l₂ : List (Mark κ α)} {k b : κ} (h : IsLog keyOf (l₁ ++ .entry k :: l₂))
    (hno : ∀ k', Mark.entry k' ∈ l₁ → k' < b) (hk : b ≤ k) :
    (items (l₁ ++ .entry k :: l₂)).filter (fun x => b ≤ keyOf x) = items l₂ := by
  have hrest : ∀ x ∈ items l₂, b ≤ keyOf x := by
    intro x hx
    have hsorted := h.sorted
    rw [List.map_append, List.map_cons, List.pairwise_append, List.pairwise_cons] at hsorted
    exact hk.trans (hsorted.2.1.1 _ (List.mem_map.mpr ⟨_, mem_items.mp hx, rfl⟩))
  rw [h.ahead.filter_of_first hno]
  exact List.filter_eq_self.mpr fun x hx => by simpa using hrest x hx

/-- The keys of the items never decrease. -/
theorem items_sorted {l : List (Mark κ α)} (h : IsLog keyOf l) :
    ((items l).map keyOf).Pairwise (· ≤ ·) := by
  have hsorted := h.sorted
  rw [List.pairwise_map] at hsorted ⊢
  refine List.Pairwise.filterMap _ (fun m m' hle x hx y hy => ?_) hsorted
  cases m <;> cases m' <;> simp [Mark.item?] at hx hy
  rw [← hx, ← hy]
  exact hle

end IsLog

/-! ### Segments -/

/-- The marks of a segment, each with the size of the items before it, counted from `o`. -/
def offsets (size : α → ℕ) : ℕ → List (Mark κ α) → List (κ × ℕ)
  | _, [] => []
  | o, .entry k :: l => (k, o) :: offsets size o l
  | o, .item x :: l => offsets size (o + size x) l

variable {size : α → ℕ}

omit [LinearOrder κ] in
theorem offsets_append (o : ℕ) (l l' : List (Mark κ α)) :
    offsets size o (l ++ l') = offsets size o l ++ offsets size (o + ((items l).map size).sum) l' := by
  induction l generalizing o with
  | nil => simp [offsets]
  | cons m l ih =>
    cases m with
    | entry k => simp [offsets, ih]
    | item x => simp [offsets, ih, Nat.add_assoc]

omit [LinearOrder κ] in
theorem offsets_map_item (o : ℕ) (xs : List α) :
    offsets size o (xs.map (Mark.item : α → Mark κ α)) = [] := by
  induction xs generalizing o with
  | nil => rfl
  | cons x xs ih => rw [List.map_cons, offsets, ih]

omit [LinearOrder κ] in
/-- Each stored mark is one of the segment, with the size of the items before it. -/
theorem mem_offsets {o : ℕ} {l : List (Mark κ α)} {e : κ × ℕ} (h : e ∈ offsets size o l) :
    ∃ l₁ l₂, l = l₁ ++ .entry e.1 :: l₂ ∧ e.2 = o + ((items l₁).map size).sum := by
  induction l generalizing o with
  | nil => exact absurd h List.not_mem_nil
  | cons m l ih =>
    cases m with
    | entry k =>
      rw [offsets] at h
      rcases List.mem_cons.mp h with rfl | h
      · exact ⟨[], l, rfl, by simp⟩
      · obtain ⟨l₁, l₂, rfl, ho⟩ := ih h
        exact ⟨.entry k :: l₁, l₂, rfl, by simpa using ho⟩
    | item x =>
      rw [offsets] at h
      obtain ⟨l₁, l₂, rfl, ho⟩ := ih h
      exact ⟨.item x :: l₁, l₂, rfl, by rw [ho]; simp [Nat.add_assoc]⟩

/-- No mark is found: there is none from `b` on. -/
theorem offsets_find?_none {o : ℕ} {l : List (Mark κ α)} {b : κ}
    (h : (offsets size o l).find? (fun e => b ≤ e.1) = none) : ∀ k, Mark.entry k ∈ l → k < b := by
  induction l generalizing o with
  | nil => simp
  | cons m l ih =>
    cases m with
    | entry k =>
      rw [offsets, List.find?_cons] at h
      by_cases hb : b ≤ k
      · simp [hb] at h
      · simp only [hb, decide_false] at h
        intro k' hk'
        rcases List.mem_cons.mp hk' with hk' | hk'
        · obtain rfl : k' = k := by simpa using hk'
          exact not_le.mp hb
        · exact ih h k' hk'
    | item x =>
      rw [offsets] at h
      intro k' hk'
      exact ih h k' (by simpa using hk')

/-- The mark that is found is the first one from `b` on, and its offset is the size of the items before
it. -/
theorem offsets_find?_some {o : ℕ} {l : List (Mark κ α)} {b : κ} {e : κ × ℕ}
    (h : (offsets size o l).find? (fun e => b ≤ e.1) = some e) :
    ∃ l₁ l₂, l = l₁ ++ .entry e.1 :: l₂ ∧ (∀ k, Mark.entry k ∈ l₁ → k < b) ∧ b ≤ e.1 ∧
      e.2 = o + ((items l₁).map size).sum := by
  induction l generalizing o with
  | nil => simp [offsets] at h
  | cons m l ih =>
    cases m with
    | entry k =>
      rw [offsets, List.find?_cons] at h
      by_cases hb : b ≤ k
      · simp only [hb, decide_true, Option.some.injEq] at h
        subst h
        exact ⟨[], l, rfl, by simp, hb, by simp⟩
      · simp only [hb, decide_false] at h
        obtain ⟨l₁, l₂, rfl, hno, hk, ho⟩ := ih h
        refine ⟨.entry k :: l₁, l₂, rfl, fun k' hk' => ?_, hk, by simpa using ho⟩
        rcases List.mem_cons.mp hk' with hk' | hk'
        · obtain rfl : k' = k := by simpa using hk'
          exact not_le.mp hb
        · exact hno k' hk'
    | item x =>
      rw [offsets] at h
      obtain ⟨l₁, l₂, rfl, hno, hk, ho⟩ := ih h
      refine ⟨.item x :: l₁, l₂, rfl, fun k' hk' => hno k' (by simpa using hk'), hk, ?_⟩
      rw [ho]
      simp [Nat.add_assoc]

end Log

/-! ### Reading in order -/

/-- In a sorted list the elements up to `e` come first. -/
theorem takeWhile_le_of_sorted {κ α : Type*} [LinearOrder κ] {keyOf : α → κ} {l : List α} (e : κ)
    (h : (l.map keyOf).Pairwise (· ≤ ·)) :
    l.takeWhile (fun x => keyOf x ≤ e) = l.filter (fun x => keyOf x ≤ e) := by
  induction l with
  | nil => rfl
  | cons x l ih =>
    rw [List.map_cons, List.pairwise_cons] at h
    by_cases hx : keyOf x ≤ e
    · rw [List.takeWhile_cons_of_pos (by simpa using hx), List.filter_cons_of_pos (by simpa using hx),
        ih h.2]
    · rw [List.takeWhile_cons_of_neg (by simpa using hx), List.filter_cons_of_neg (by simpa using hx)]
      refine (List.filter_eq_nil_iff.mpr fun y hy => ?_).symm
      have hxy := h.1 _ (List.mem_map_of_mem hy)
      simpa using lt_of_lt_of_le (not_le.mp hx) hxy

end SentinelCpp.Lib
