import Mathlib.Data.List.Induction
import Mathlib.Order.MinMax

/-!
# Loops over lists

An invariant of a loop may speak of the part of the list that the loop has gone through
(`foldl_rounds`).  A loop that is simulated round by round is simulated (`foldl_simulates`).  The bounds of a running maximum are those of its elements and of its start; the ones
of a running minimum are the same in the dual order.
-/

namespace SentinelCpp.Lib

section Rounds

variable {α β : Type*} {f : β → α → β} {b : β}

/-- **Rounds of a loop.**  What holds before the first round and is kept by each one holds at the end. -/
theorem foldl_rounds {P : List α → β → Prop} (hstart : P [] b)
    (hround : ∀ done b a, P done b → P (done ++ [a]) (f b a)) (l : List α) :
    P l (l.foldl f b) := by
  induction l using List.reverseRecOn with
  | nil => exact hstart
  | append_singleton l a ih =>
    rw [List.foldl_append]
    exact hround l _ a ih

/-- **Simulation of a loop.**  What `f` does to a state that keeps the invariant, `g` does to its image. -/
theorem foldl_simulates {γ : Type*} {g : γ → α → γ} {inv : β → Prop} {image : β → γ}
    (hround : ∀ b a, inv b → image (f b a) = g (image b) a ∧ inv (f b a)) (hb : inv b) (l : List α) :
    image (l.foldl f b) = l.foldl g (image b) ∧ inv (l.foldl f b) := by
  induction l generalizing b with
  | nil => exact ⟨rfl, hb⟩
  | cons a l ih =>
    obtain ⟨himage, hinv⟩ := hround b a hb
    rw [List.foldl_cons, List.foldl_cons, ← himage]
    exact ih hinv

end Rounds

/-! ### Extremes -/

section Extremes

variable {α β : Type*} [LinearOrder β] (f : α → β)

theorem ite_gt_eq_max (x y : β) : (if y > x then y else x) = max x y :=
  (max_def_lt x y).symm

theorem ite_lt_eq_min (x y : β) : (if y < x then y else x) = min x y := by
  rw [min_comm, min_def_lt]

theorem foldl_max_le_iff (l : List α) (c x : β) :
    l.foldl (fun m a => max m (f a)) c ≤ x ↔ c ≤ x ∧ ∀ a ∈ l, f a ≤ x := by
  induction l generalizing c with
  | nil => simp
  | cons a l ih => rw [List.foldl_cons, ih, max_le_iff, List.forall_mem_cons, and_assoc]

theorem foldr_max_le_iff (l : List β) (c x : β) :
    l.foldr max c ≤ x ↔ c ≤ x ∧ ∀ a ∈ l, a ≤ x := by
  induction l with
  | nil => simp
  | cons a l ih => rw [List.foldr_cons, max_le_iff, ih, List.forall_mem_cons, and_left_comm]

theorem le_foldl_min_iff (l : List α) (c x : β) :
    x ≤ l.foldl (fun m a => min m (f a)) c ↔ x ≤ c ∧ ∀ a ∈ l, x ≤ f a :=
  @foldl_max_le_iff α βᵒᵈ _ f l c x

theorem le_foldr_min_iff (l : List β) (c x : β) :
    x ≤ l.foldr min c ↔ x ≤ c ∧ ∀ a ∈ l, x ≤ a :=
  @foldr_max_le_iff βᵒᵈ _ l c x

end Extremes

end SentinelCpp.Lib
