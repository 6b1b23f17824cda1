import Mathlib.Algebra.Group.Nat.Even
import Mathlib.Data.List.Induction

/-!
# Two slots that change places

A sampler keeps two samples.  Each round swaps them and then writes the new sample over the second; a
round without a sample only swaps.  After a sample the slots hold it and an earlier one; which earlier
one depends on the parity of the rounds without a sample in between.
-/

namespace SentinelCpp.Lib.TwoSlots

variable {α : Type*}

/-- One round: the slots change places, then a sample goes into the second. -/
def round (p : α × α) : Option α → α × α
  | none => (p.2, p.1)
  | some a => (p.2, a)

/-- The slots after the rounds. -/
def slots (p : α × α) (rounds : List (Option α)) : α × α := rounds.foldl round p

theorem slots_append (p : α × α) (l l' : List (Option α)) :
    slots p (l ++ l') = slots (slots p l) l' := List.foldl_append

theorem slots_replicate_none (p : α × α) (n : ℕ) :
    slots p (List.replicate n none) = if Even n then p else (p.2, p.1) := by
  induction n with
  | zero => rfl
  | succ n ih =>
    rw [List.replicate_succ', slots_append, ih]
    by_cases hn : Even n
    · rw [if_pos hn, if_neg (by rw [Nat.even_add_one]; exact not_not_intro hn)]
      rfl
    · rw [if_neg hn, if_pos (Nat.even_add_one.mpr hn)]
      rfl

/-- The slots hold samples, or what was there in the beginning. -/
theorem slots_mem (z : α) (rounds : List (Option α)) :
    (slots (z, z) rounds).1 ∈ z :: rounds.filterMap id ∧
      (slots (z, z) rounds).2 ∈ z :: rounds.filterMap id := by
  induction rounds using List.reverseRecOn with
  | nil => exact ⟨List.mem_cons_self, List.mem_cons_self⟩
  | append_singleton rounds r ih =>
    obtain ⟨h1, h2⟩ := ih
    rw [slots_append, List.filterMap_append]
    cases r with
    | none =>
      rw [List.filterMap_cons_none rfl, List.filterMap_nil, List.append_nil]
      exact ⟨h2, h1⟩
    | some c => exact ⟨List.mem_append_left _ h2, List.mem_append_right (z :: _) List.mem_cons_self⟩

/-- **The slots hold the last sample and an earlier one**, in one order or the other. -/
theorem slots_cases (z : α) {rounds : List (Option α)} {pre : List α} {b : α}
    (h : rounds.filterMap id = pre ++ [b]) :
    ∃ a ∈ z :: pre, slots (z, z) rounds = (a, b) ∨ slots (z, z) rounds = (b, a) := by
  induction rounds using List.reverseRecOn generalizing pre b with
  | nil => simp at h
  | append_singleton rounds r ih =>
    rw [slots_append]
    show ∃ a ∈ z :: pre, round (slots (z, z) rounds) r = (a, b) ∨ _ = (b, a)
    cases r with
    | none =>
      rw [List.filterMap_append, List.filterMap_cons_none rfl, List.filterMap_nil,
        List.append_nil] at h
      obtain ⟨a, ha, hslots⟩ := ih h
      refine ⟨a, ha, ?_⟩
      rcases hslots with hslots | hslots
      · exact .inr (by rw [hslots]; rfl)
      · exact .inl (by rw [hslots]; rfl)
    | some c =>
      rw [List.filterMap_append, List.filterMap_cons_some (by rfl), List.filterMap_nil] at h
      obtain ⟨rfl, hcb⟩ := List.append_inj' h rfl
      obtain rfl : c = b := by simpa using hcb
      exact ⟨_, (slots_mem z rounds).2, .inl rfl⟩

/-- After `n` rounds without a sample the next one stands beside the last sample if `n` is even, and beside
the older slot if `n` is odd. -/
theorem slots_gap (x a b : α) (n : ℕ) :
    slots (x, a) (List.replicate n none ++ [some b]) = (if Even n then a else x, b) := by
  rw [slots_append, slots_replicate_none]
  show round (ite _ _ _) (some b) = _
  split_ifs <;> rfl

end SentinelCpp.Lib.TwoSlots
