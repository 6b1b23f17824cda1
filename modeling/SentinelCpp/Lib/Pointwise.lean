import Mathlib.Data.List.Forall2

/-!
# Lists related element by element

Reading, extending and changing two lists whose elements at equal positions are related.
-/

namespace SentinelCpp.Lib

open List

variable {α β : Type*} {R : α → β → Prop} {l : List α} {l' : List β}

theorem exists_of_mem_left (h : Forall₂ R l l') {a : α} (ha : a ∈ l) : ∃ b ∈ l', R a b := by
  induction h with
  | nil => simp at ha
  | cons hr _ ih =>
    rcases mem_cons.mp ha with rfl | ha
    · exact ⟨_, mem_cons_self, hr⟩
    · obtain ⟨b, hb, hab⟩ := ih ha
      exact ⟨b, mem_cons_of_mem _ hb, hab⟩

theorem exists_of_mem_right (h : Forall₂ R l l') {b : β} (hb : b ∈ l') : ∃ a ∈ l, R a b :=
  exists_of_mem_left (R := flip R) h.flip hb

theorem exists_of_getElem?_left (h : Forall₂ R l l') {i : ℕ} {a : α} (ha : l[i]? = some a) :
    ∃ b, l'[i]? = some b ∧ R a b := by
  induction h generalizing i with
  | nil => simp at ha
  | cons hr _ ih =>
    cases i with
    | zero =>
      obtain rfl : _ = a := by simpa using ha
      exact ⟨_, rfl, hr⟩
    | succ i => exact ih (by simpa using ha)

theorem forall₂_concat (h : Forall₂ R l l') {a : α} {b : β} (hab : R a b) :
    Forall₂ R (l ++ [a]) (l' ++ [b]) :=
  rel_append h (.cons hab .nil)

/-- Replacing the elements at one position by related ones. -/
theorem forall₂_set (h : Forall₂ R l l') (i : ℕ) {a : α} {b : β} (hab : R a b) :
    Forall₂ R (l.set i a) (l'.set i b) := by
  induction h generalizing i with
  | nil => exact .nil
  | cons hr ht ih =>
    cases i with
    | zero => exact .cons hab ht
    | succ i => exact .cons hr (ih i)

/-- Replacing an element on the left by one that is related to the same partner. -/
theorem forall₂_set_left (h : Forall₂ R l l') {i : ℕ} {a : α}
    (hab : ∀ b, l'[i]? = some b → R a b) : Forall₂ R (l.set i a) l' := by
  induction h generalizing i with
  | nil => exact .nil
  | cons hr ht ih =>
    cases i with
    | zero => exact .cons (hab _ rfl) ht
    | succ i => exact .cons hr (ih fun b hb => hab b (by simpa using hb))

end SentinelCpp.Lib
