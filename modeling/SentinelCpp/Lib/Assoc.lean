import Mathlib.Data.List.Basic

/-!
# Association lists

Finite maps kept as lists of pairs in insertion order.  `find?` reads the first pair of a key,
`modify` applies a function to the values of one key, `pushTo` appends to the list stored under a
key.  `find?_groupBy` is the reading of a map built by pushing every element under its own key.
-/

namespace SentinelCpp.Lib

/-- A finite map as a list of pairs. -/
abbrev Assoc (K V : Type*) := List (K × V)

namespace Assoc

variable {K V α : Type*} [DecidableEq K]

def find? (m : Assoc K V) (k : K) : Option V :=
  match m with
  | [] => none
  | (k', v) :: m => if k' = k then some v else find? m k

/-- Apply `f` to the value of `k`. -/
def modify (m : Assoc K V) (k : K) (f : V → V) : Assoc K V :=
  m.map fun p => if p.1 = k then (p.1, f p.2) else p

def mapValues (m : Assoc K V) (f : V → V) : Assoc K V := m.map fun p => (p.1, f p.2)

/-- Append `a` to the list of `k`, starting a new list when `k` is absent. -/
def pushTo (m : Assoc K (List α)) (k : K) (a : α) : Assoc K (List α) :=
  if (m.find? k).isSome then m.modify k (fun l => l ++ [a]) else m ++ [(k, [a])]

/-- Add a value under a new key; a key that is there keeps its value. -/
def insertNew (m : Assoc K V) (k : K) (v : V) : Assoc K V :=
  if (m.find? k).isSome then m else m ++ [(k, v)]

/-- Give `k` the value `v`, in its place or at the end. -/
def set (m : Assoc K V) (k : K) (v : V) : Assoc K V :=
  if (m.find? k).isSome then m.modify k fun _ => v else m ++ [(k, v)]

/-- The elements of `l` grouped by key, each group in the order of `l`. -/
def groupBy (key : α → K) (l : List α) : Assoc K (List α) :=
  l.foldl (fun m a => pushTo m (key a) a) []

@[simp] theorem find?_nil (k : K) : find? ([] : Assoc K V) k = none := rfl

theorem find?_cons (p : K × V) (m : Assoc K V) (k : K) :
    find? (p :: m) k = if p.1 = k then some p.2 else find? m k := rfl

theorem find?_append (m m' : Assoc K V) (k : K) :
    find? (m ++ m') k = (find? m k).or (find? m' k) := by
  induction m with
  | nil => simp
  | cons p m ih =>
    rw [List.cons_append, find?_cons, find?_cons, ih]
    by_cases hk : p.1 = k <;> simp [hk]

/-- A new key at the end: it is found, and no other key changes. -/
theorem find?_concat {m : Assoc K V} {k : K} (h : m.find? k = none) (v : V) (j : K) :
    find? (m ++ [(k, v)]) j = if j = k then some v else find? m j := by
  rw [find?_append, find?_cons]
  by_cases hj : j = k
  · subst hj
    simp [h]
  · simp [hj, Ne.symm hj]

theorem find?_modify (m : Assoc K V) (k : K) (f : V → V) (j : K) :
    find? (m.modify k f) j = if j = k then (find? m j).map f else find? m j := by
  induction m with
  | nil => simp [modify]
  | cons p m ih =>
    rw [modify, List.map_cons, ← modify, find?_cons, find?_cons, ih]
    by_cases hp : p.1 = k
    · by_cases hj : j = k
      · simp [hp, hj]
      · simp [hp, hj, Ne.symm hj]
    · by_cases hpj : p.1 = j
      · have hj : j ≠ k := fun h => hp (hpj.trans h)
        simp [hpj, hj]
      · simp [hp, hpj]

@[simp] theorem find?_modify_self (m : Assoc K V) (k : K) (f : V → V) :
    find? (m.modify k f) k = (find? m k).map f := by simp [find?_modify]

theorem find?_modify_of_ne {j k : K} (h : j ≠ k) (m : Assoc K V) (f : V → V) :
    find? (m.modify k f) j = find? m j := by simp [find?_modify, h]

theorem find?_set (m : Assoc K V) (k : K) (v : V) (j : K) :
    find? (m.set k v) j = if j = k then some v else find? m j := by
  unfold set
  cases hk : m.find? k with
  | none => simpa using find?_concat hk v j
  | some v' =>
    rw [Option.isSome_some, if_pos rfl, find?_modify]
    split_ifs with hj
    · rw [hj, hk, Option.map_some]
    · rfl

/-- Keeping the pairs of some keys. -/
theorem find?_filter_key (m : Assoc K V) (p : K → Bool) (k : K) :
    find? (m.filter fun q => p q.1) k = if p k = true then find? m k else none := by
  induction m with
  | nil => simp
  | cons q m ih =>
    rw [List.filter_cons, find?_cons]
    by_cases hq : q.1 = k
    · subst hq
      by_cases hp : p q.1 = true
      · simp [hp, find?_cons]
      · rw [if_neg hp, ih, if_neg hp, if_neg hp]
    · rw [if_neg hq]
      by_cases hp : p q.1 = true
      · rw [if_pos hp, find?_cons, if_neg hq, ih]
      · rw [if_neg hp, ih]

/-- A map that keeps the keys. -/
theorem find?_map {W : Type*} (m : Assoc K V) (f : K → V → W) (k : K) :
    find? (m.map fun p => (p.1, f p.1 p.2)) k = (find? m k).map (f k) := by
  induction m with
  | nil => rfl
  | cons p m ih =>
    rw [List.map_cons, find?_cons, find?_cons, ih]
    by_cases hp : p.1 = k
    · subst hp
      rw [if_pos rfl, if_pos rfl, Option.map_some]
    · rw [if_neg hp, if_neg hp]

theorem find?_mapValues (m : Assoc K V) (f : V → V) (k : K) :
    find? (m.mapValues f) k = (find? m k).map f := find?_map m (fun _ => f) k

@[simp] theorem keys_modify (m : Assoc K V) (k : K) (f : V → V) :
    (m.modify k f).map Prod.fst = m.map Prod.fst := by
  rw [modify, List.map_map]
  refine List.map_congr_left fun p _ => ?_
  by_cases hp : p.1 = k <;> simp [hp]

theorem find?_eq_none {m : Assoc K V} {k : K} : m.find? k = none ↔ k ∉ m.map Prod.fst := by
  induction m with
  | nil => simp
  | cons p m ih =>
    rw [find?_cons]
    by_cases hp : p.1 = k
    · simp [hp]
    · simp [hp, ih, Ne.symm hp]

theorem find?_pushTo (m : Assoc K (List α)) (k : K) (a : α) (j : K) :
    find? (pushTo m k a) j = if j = k then some ((find? m k).getD [] ++ [a]) else find? m j := by
  unfold pushTo
  cases hk : find? m k with
  | none =>
    rw [if_neg (by simp), find?_concat hk]
    rfl
  | some l =>
    rw [if_pos (by simp), find?_modify]
    by_cases hj : j = k
    · subst hj
      simp [hk]
    · simp [hj]

theorem find?_foldl_pushTo (key : α → K) (l : List α) (m : Assoc K (List α)) (k : K) :
    find? (l.foldl (fun m a => pushTo m (key a) a) m) k =
      if l.filter (fun a => key a = k) = [] then find? m k
      else some ((find? m k).getD [] ++ l.filter (fun a => key a = k)) := by
  induction l generalizing m with
  | nil => simp
  | cons a l ih =>
    rw [List.foldl_cons, ih, find?_pushTo]
    by_cases ha : key a = k
    · subst ha
      by_cases hl : l.filter (fun b => key b = key a) = []
      · simp [hl]
      · simp [hl]
    · simp [ha, Ne.symm ha]

theorem nodup_keys_pushTo {m : Assoc K (List α)} (h : (m.map Prod.fst).Nodup) (k : K) (a : α) :
    ((pushTo m k a).map Prod.fst).Nodup := by
  unfold pushTo
  split_ifs with hk
  · rwa [keys_modify]
  · have hnot : k ∉ m.map Prod.fst := by simpa [find?_eq_none] using hk
    rw [List.map_append, List.nodup_append]
    refine ⟨h, by simp, fun j hj j' hj' => ?_⟩
    obtain rfl : j' = k := by simpa using hj'
    exact fun heq => hnot (heq ▸ hj)

/-- With every key once, the pairs of the list are those `find?` reads. -/
theorem mem_iff_find? {m : Assoc K V} (h : (m.map Prod.fst).Nodup) {k : K} {v : V} :
    (k, v) ∈ m ↔ find? m k = some v := by
  induction m with
  | nil => simp
  | cons p m ih =>
    obtain ⟨hp, hm⟩ := List.nodup_cons.mp h
    rw [List.mem_cons, ih hm, find?_cons]
    by_cases hk : p.1 = k
    · subst hk
      have hnone : find? m p.1 = none := find?_eq_none.mpr hp
      simp [hnone, Prod.ext_iff, eq_comm]
    · simp [hk, Prod.ext_iff, Ne.symm hk]

theorem find?_insertNew (m : Assoc K V) (k : K) (v : V) (j : K) :
    (insertNew m k v).find? j = if j = k then some ((m.find? k).getD v) else m.find? j := by
  unfold insertNew
  cases hk : m.find? k with
  | none => simpa using find?_concat hk v j
  | some v' =>
    rw [Option.isSome_some, if_pos rfl]
    split_ifs with hj
    · rw [hj, hk, Option.getD_some]
    · rfl

theorem mem_insertNew {m : Assoc K V} {k : K} {v : V} {p : K × V} (h : p ∈ insertNew m k v) :
    p ∈ m ∨ p = (k, v) := by
  unfold insertNew at h
  split_ifs at h with hk
  · exact .inl h
  · simpa using h

theorem length_insertNew_le (m : Assoc K V) (k : K) (v : V) :
    (m.insertNew k v).length ≤ m.length + 1 := by
  unfold insertNew
  split_ifs with hk
  · omega
  · simp

theorem keys_insertNew (m : Assoc K V) (k : K) (v : V) (j : K) :
    j ∈ (insertNew m k v).map Prod.fst ↔ j ∈ m.map Prod.fst ∨ j = k := by
  unfold insertNew
  split_ifs with hk
  · refine ⟨.inl, fun h => h.elim id ?_⟩
    rintro rfl
    by_contra hj
    rw [find?_eq_none.mpr hj] at hk
    exact Bool.noConfusion hk
  · simp

/-- Inserting the elements of `l` in turn, each under its own key: every pair comes from an element,
and every key of an element is there. -/
theorem nodup_insertNew {m : Assoc K V} (h : (m.map Prod.fst).Nodup) (k : K) (v : V) :
    ((insertNew m k v).map Prod.fst).Nodup := by
  unfold insertNew
  split_ifs with hk
  · exact h
  · have hk' : k ∉ m.map Prod.fst := find?_eq_none.mp (by simpa using hk)
    rw [List.map_append, List.nodup_append]
    refine ⟨h, by simp, fun a ha b hb => ?_⟩
    obtain rfl : b = k := by simpa using hb
    rintro rfl
    exact hk' ha

theorem foldl_insertNew (key : α → K) (f : α → V) (l : List α) (m : Assoc K V) :
    (∀ p ∈ l.foldl (fun m a => insertNew m (key a) (f a)) m, p ∈ m ∨ ∃ a ∈ l, p = (key a, f a)) ∧
      ∀ j, j ∈ (l.foldl (fun m a => insertNew m (key a) (f a)) m).map Prod.fst ↔
        j ∈ m.map Prod.fst ∨ ∃ a ∈ l, key a = j := by
  induction l generalizing m with
  | nil => simp
  | cons a l ih =>
    obtain ⟨h1, h2⟩ := ih (insertNew m (key a) (f a))
    refine ⟨fun p hp => ?_, fun j => ?_⟩
    · rcases h1 p hp with hp | ⟨a', ha', hp⟩
      · rcases mem_insertNew hp with hp | hp
        · exact .inl hp
        · exact .inr ⟨a, List.mem_cons_self, hp⟩
      · exact .inr ⟨a', List.mem_cons_of_mem _ ha', hp⟩
    · rw [List.foldl_cons, h2, keys_insertNew, List.exists_mem_cons_iff, or_assoc, eq_comm (a := j)]

/-- The group of a key is the elements with that key, or no entry when there is none. -/
theorem find?_groupBy (key : α → K) (l : List α) (k : K) :
    find? (groupBy key l) k =
      if l.filter (fun a => key a = k) = [] then none else some (l.filter fun a => key a = k) := by
  rw [groupBy, find?_foldl_pushTo]
  simp

end Assoc

end SentinelCpp.Lib
