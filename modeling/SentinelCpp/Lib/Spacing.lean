import Mathlib.Algebra.BigOperators.Group.List.Basic
import Mathlib.Algebra.Order.Group.Defs
import Mathlib.Algebra.Order.Monoid.Defs

/-!
# Events spaced by their costs

Events are spaced when each comes at least its own cost after every earlier one.  Those that fit into an
interval then cost no more, all but the first together, than the interval is long (`Spaced.sum_le`).
-/

namespace SentinelCpp.Lib

variable {E K : Type*} [AddCommGroup K] [LinearOrder K] [IsOrderedAddMonoid K] {time cost : E → K}

/-- Each event comes at least its cost after the ones before it. -/
def Spaced (time cost : E → K) (events : List E) : Prop :=
  events.Pairwise fun x y => time x + cost y ≤ time y

namespace Spaced

variable {events : List E} {x : E}

omit [IsOrderedAddMonoid K] in
theorem nil : Spaced time cost [] := List.Pairwise.nil

omit [IsOrderedAddMonoid K] in
theorem sublist {events' : List E} (h : Spaced time cost events) (hs : events'.Sublist events) :
    Spaced time cost events' :=
  List.Pairwise.sublist hs h

/-- An event late enough after a bound of the earlier ones. -/
theorem concat (h : Spaced time cost events) {last : K} (hlast : ∀ y ∈ events, time y ≤ last)
    (hx : last + cost x ≤ time x) : Spaced time cost (events ++ [x]) := by
  refine List.pairwise_append.mpr ⟨h, List.pairwise_singleton _ _, fun y hy z hz => ?_⟩
  rw [List.mem_singleton.mp hz]
  exact (add_le_add_left (hlast y hy) (cost x)).trans hx

/-- The costs of the events after the first one add up to no more than the time they take. -/
theorem add_sum_le (h : Spaced time cost (x :: events)) {bound : K}
    (hbound : ∀ y ∈ x :: events, time y ≤ bound) : time x + (events.map cost).sum ≤ bound := by
  induction events generalizing x with
  | nil => simpa using hbound x List.mem_cons_self
  | cons y events ih =>
    obtain ⟨hx, hy⟩ := List.pairwise_cons.mp h
    rw [List.map_cons, List.sum_cons, ← add_assoc]
    have hnext := hx y List.mem_cons_self
    have hrest := ih hy fun z hz => hbound z (List.mem_cons_of_mem x hz)
    exact (add_le_add_left hnext _).trans hrest

/-- **The cost of an interval**: at most its length and the cost of one of the events. -/
theorem sum_le (h : Spaced time cost events) {start length : K}
    (hin : ∀ y ∈ events, start ≤ time y ∧ time y ≤ start + length) :
    events = [] ∨ ∃ x ∈ events, (events.map cost).sum ≤ length + cost x := by
  cases events with
  | nil => exact .inl rfl
  | cons x events =>
    right
    refine ⟨x, List.mem_cons_self, ?_⟩
    have hsum := h.add_sum_le fun y hy => (hin y hy).2
    have hstart := (hin x List.mem_cons_self).1
    rw [List.map_cons, List.sum_cons, add_comm]
    refine add_le_add_left ?_ _
    exact le_of_add_le_add_left ((add_le_add_left hstart _).trans hsum)

end Spaced

end SentinelCpp.Lib
