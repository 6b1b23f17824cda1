import Mathlib.Data.List.Perm.Basic
import Mathlib.Order.Lattice

/-!
# Groups in the order of their keys

A list of keys with the values put under them, the keys in increasing order: the contents of an ordered
map of vectors.  `push` puts a value at the end of the group of its key.
-/

namespace SentinelCpp.Lib

/-- Keys with their groups. -/
abbrev Groups (κ β : Type*) := List (κ × List β)

namespace Groups

variable {κ β : Type*}

/-- The values in the order of their keys. -/
def values (g : Groups κ β) : List β := g.flatMap Prod.snd

@[simp] theorem values_nil : values ([] : Groups κ β) = [] := rfl

@[simp] theorem values_cons (e : κ × List β) (g : Groups κ β) :
    values (e :: g) = e.2 ++ values g := List.flatMap_cons

variable [LinearOrder κ]

/-- Put the value at the end of the group of its key, a new one if there is none. -/
def push : Groups κ β → κ → β → Groups κ β
  | [], k, v => [(k, [v])]
  | (j, vs) :: g, k, v =>
    if k < j then (k, [v]) :: (j, vs) :: g
    else if j < k then (j, vs) :: push g k v
    else (j, vs ++ [v]) :: g

/-- The keys increase. -/
def Sorted (g : Groups κ β) : Prop := g.Pairwise fun e e' => e.1 < e'.1

theorem sorted_nil : Sorted ([] : Groups κ β) := List.Pairwise.nil

/-- What holds of the old groups, and of a group of the new value alone or at the end, holds of the new
groups. -/
theorem forall_push {P : κ → List β → Prop} {g : Groups κ β} {k : κ} {v : β}
    (h : ∀ e ∈ g, P e.1 e.2) (hnew : P k [v]) (hold : ∀ vs, P k vs → P k (vs ++ [v])) :
    ∀ e ∈ push g k v, P e.1 e.2 := by
  induction g with
  | nil =>
    intro e he
    obtain rfl := List.mem_singleton.mp he
    exact hnew
  | cons e₀ g ih =>
    obtain ⟨j, vs⟩ := e₀
    have hj : P j vs := h (j, vs) List.mem_cons_self
    have hg : ∀ e ∈ g, P e.1 e.2 := fun e he => h e (List.mem_cons_of_mem _ he)
    intro e he
    rw [push] at he
    split_ifs at he with hlt hgt
    · rcases List.mem_cons.mp he with rfl | he
      · exact hnew
      · exact h e he
    · rcases List.mem_cons.mp he with rfl | he
      · exact hj
      · exact ih hg e he
    · obtain rfl : k = j := le_antisymm (not_lt.mp hgt) (not_lt.mp hlt)
      rcases List.mem_cons.mp he with rfl | he
      · exact hold vs hj
      · exact hg e he

/-- The keys stay in order. -/
theorem Sorted.push {g : Groups κ β} (h : Sorted g) (k : κ) (v : β) : Sorted (g.push k v) := by
  induction g with
  | nil => exact List.pairwise_singleton _ _
  | cons e₀ g ih =>
    obtain ⟨j, vs⟩ := e₀
    obtain ⟨hj, hg⟩ := List.pairwise_cons.mp h
    rw [Groups.push]
    split_ifs with hlt hgt
    · refine List.pairwise_cons.mpr ⟨fun e he => ?_, h⟩
      rcases List.mem_cons.mp he with rfl | he
      · exact hlt
      · exact lt_trans hlt (hj e he)
    · refine List.pairwise_cons.mpr ⟨fun e he => ?_, ih hg⟩
      exact forall_push (P := fun k' _ => j < k') hj hgt (fun _ h => h) e he
    · exact List.pairwise_cons.mpr ⟨hj, hg⟩

/-- One value is added. -/
theorem values_push (g : Groups κ β) (k : κ) (v : β) : (values (g.push k v)).Perm (v :: values g) := by
  induction g with
  | nil => exact List.Perm.refl _
  | cons e₀ g ih =>
    obtain ⟨j, vs⟩ := e₀
    rw [push]
    split_ifs with hlt hgt
    · exact List.Perm.refl _
    · rw [values_cons, values_cons]
      exact (ih.append_left vs).trans List.perm_middle
    · rw [values_cons, values_cons, List.append_assoc]
      exact List.perm_middle

section Fold

variable {α : Type*} (key : α → κ) (val : α → β)

theorem Sorted.foldl_push {g : Groups κ β} (h : Sorted g) (l : List α) :
    Sorted (l.foldl (fun g a => g.push (key a) (val a)) g) := by
  induction l generalizing g with
  | nil => exact h
  | cons a l ih => exact ih (h.push (key a) (val a))

theorem values_foldl_push (g : Groups κ β) (l : List α) :
    (values (l.foldl (fun g a => g.push (key a) (val a)) g)).Perm (values g ++ l.map val) := by
  induction l generalizing g with
  | nil => simp
  | cons a l ih =>
    rw [List.foldl_cons]
    have hrest := (values_push g (key a) (val a)).append_right (l.map val)
    exact (ih _).trans (hrest.trans List.perm_middle.symm)

theorem forall_foldl_push {P : κ → List β → Prop} {g : Groups κ β} {l : List α}
    (h : ∀ e ∈ g, P e.1 e.2) (hnew : ∀ a ∈ l, P (key a) [val a])
    (hold : ∀ a ∈ l, ∀ vs, P (key a) vs → P (key a) (vs ++ [val a])) :
    ∀ e ∈ l.foldl (fun g a => g.push (key a) (val a)) g, P e.1 e.2 := by
  induction l generalizing g with
  | nil => exact h
  | cons a l ih =>
    refine ih ?_ (fun b hb => hnew b (List.mem_cons_of_mem _ hb))
      (fun b hb => hold b (List.mem_cons_of_mem _ hb))
    exact forall_push h (hnew a List.mem_cons_self) (hold a List.mem_cons_self)

end Fold

end Groups

end SentinelCpp.Lib
