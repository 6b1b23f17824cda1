import SentinelCpp.Lib.Run

/-!
# Progress

A rank that no step raises and that the steps of one kind lower until it is zero bounds how many of
these steps a run can take before it is: the form in which "in the end" is stated here, without any
assumption on the schedule.
-/

namespace SentinelCpp.Lib

variable {σ α : Type*} {R : σ → α → σ → Prop} {s₀ s : σ} {tr : List α}

/-- **Countdown.**  In a run with labels of `A`, as long as `I` holds no step raises the rank and those
of `p` lower it while it is not zero. -/
theorem Run.countdown {I : σ → Prop} {A : α → Prop} {r : σ → ℕ} {p : α → Bool} (h0 : I s₀)
    (hstep : ∀ s a s', I s → A a → R s a s' →
      I s' ∧ r s' ≤ r s ∧ (p a = true → r s ≠ 0 → r s' < r s))
    (hr : Run R s₀ tr s) (hA : ∀ a ∈ tr, A a) :
    I s ∧ (r s = 0 ∨ r s + tr.countP p ≤ r s₀) := by
  induction hr with
  | nil => exact ⟨h0, .inr (by simp)⟩
  | @snoc tr s s' a _ hs ih =>
    obtain ⟨hI, hrank⟩ := ih fun b hb => hA b (List.mem_append_left _ hb)
    obtain ⟨hI', hle, hlt⟩ := hstep s a s' hI (hA a (by simp)) hs
    refine ⟨hI', ?_⟩
    rcases hrank with hzero | hrank
    · exact .inl (by omega)
    · by_cases hzero : r s = 0
      · exact .inl (by omega)
      · rw [List.countP_append, List.countP_singleton]
        split_ifs with hp
        · have := hlt hp hzero
          exact .inr (by omega)
        · exact .inr (by omega)

end SentinelCpp.Lib
