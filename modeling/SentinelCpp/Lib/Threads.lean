import Mathlib.Algebra.Order.BigOperators.Group.Finset
import Mathlib.Data.Fintype.BigOperators

/-!
# Sums over threads

Finitely many threads stand somewhere each, and every place has a weight in a commutative monoid: what a
thread there holds, or whether it counts.  A step of one thread takes the weight of its old place out of
the sum and puts that of its new place in.
-/

namespace SentinelCpp.Lib

variable {ι α M : Type*} [Fintype ι] [DecidableEq ι]

/-- **One thread moves.** -/
theorem sum_update_add [AddCommMonoid M] (w : α → M) (f : ι → α) (i : ι) (v : α) :
    ∑ j, w (Function.update f i v j) + w (f i) = ∑ j, w (f j) + w v := by
  have hrest : ∑ j ∈ Finset.univ.erase i, w (Function.update f i v j) =
      ∑ j ∈ Finset.univ.erase i, w (f j) :=
    Finset.sum_congr rfl fun j hj => by rw [Function.update_of_ne (Finset.ne_of_mem_erase hj)]
  rw [← Finset.sum_erase_add _ _ (Finset.mem_univ i), ← Finset.sum_erase_add _ (fun j => w (f j))
    (Finset.mem_univ i), hrest, Function.update_self, add_assoc, add_assoc, add_comm (w v)]

/-- Threads that count at most one each, and one of them does not count. -/
theorem sum_lt_card {w : α → ℕ} (hw : ∀ a, w a ≤ 1) {f : ι → α} {i : ι} (hi : w (f i) = 0) :
    ∑ j, w (f j) < Fintype.card ι := by
  have hle : ∑ j ∈ Finset.univ.erase i, w (f j) ≤ (Finset.univ.erase i).card := by
    simpa using Finset.sum_le_card_nsmul (Finset.univ.erase i) (fun j => w (f j)) 1 fun j _ => hw (f j)
  have hcard : (Finset.univ.erase i).card + 1 = Fintype.card ι := by
    rw [Finset.card_erase_add_one (Finset.mem_univ i), Finset.card_univ]
  rw [← Finset.sum_erase_add _ _ (Finset.mem_univ i), hi]
  omega

end SentinelCpp.Lib
