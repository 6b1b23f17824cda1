import Mathlib.Data.List.Induction
import Mathlib.Data.List.Nodup
import Mathlib.Data.List.Pairwise
import Mathlib.Order.Basic
import SentinelCpp.Lib.Assoc

/-!
# A bounded map that drops the least recently used key

`LruMap K V capacity` keeps at most `capacity` keys with their values, the most recently used first.
`put` gives a key a value and makes it the most recently used one; when there is no room for a new key
the last one is dropped.  The keys are the first ones of `recency`, the order of the last uses.
-/

namespace SentinelCpp.Lib

variable {K V : Type*} [DecidableEq K]

/-! ### The order of the last uses -/

/-- The elements of a list of uses, each once, the last one used first. -/
def recency (uses : List K) : List K := uses.foldl (fun l k => k :: l.erase k) []

/-- There is a use of `x` that no use of `y` follows. -/
def UsedAfter (uses : List K) (x y : K) : Prop :=
  ∃ before after, uses = before ++ x :: after ∧ y ∉ after

theorem recency_concat (uses : List K) (k : K) :
    recency (uses ++ [k]) = k :: (recency uses).erase k := by
  unfold recency
  rw [List.foldl_append]
  rfl

theorem nodup_recency (uses : List K) : (recency uses).Nodup := by
  induction uses using List.reverseRecOn with
  | nil => exact List.nodup_nil
  | append_singleton uses k ih =>
    rw [recency_concat, List.nodup_cons]
    exact ⟨ih.not_mem_erase, ih.erase k⟩

/-- **The order of `recency`**: what stands before was used later. -/
theorem pairwise_recency (uses : List K) : (recency uses).Pairwise (UsedAfter uses) := by
  induction uses using List.reverseRecOn with
  | nil => exact List.Pairwise.nil
  | append_singleton uses k ih =>
    rw [recency_concat, List.pairwise_cons]
    refine ⟨fun y _ => ⟨uses, [], rfl, List.not_mem_nil⟩, ?_⟩
    refine (ih.sublist List.erase_sublist).imp_of_mem fun {x y} _ hy => ?_
    rintro ⟨before, after, rfl, hafter⟩
    refine ⟨before, after ++ [k], by simp, fun hmem => ?_⟩
    rcases List.mem_append.mp hmem with hmem | hmem
    · exact hafter hmem
    · exact ((nodup_recency _).mem_erase_iff.mp hy).1 (List.mem_singleton.mp hmem)

theorem take_erase (l : List K) (k : K) (n : ℕ) :
    ((l.take (n + 1)).erase k).take n = (l.erase k).take n := by
  induction l generalizing n with
  | nil => rfl
  | cons x l ih =>
    rw [List.take_succ_cons]
    by_cases hx : x = k
    · subst hx
      rw [List.erase_cons_head, List.erase_cons_head, List.take_take, Nat.min_self]
    · rw [List.erase_cons_tail (by simpa using hx), List.erase_cons_tail (by simpa using hx)]
      cases n with
      | zero => rfl
      | succ n => rw [List.take_succ_cons, List.take_succ_cons, ih]

/-- One more use, seen through the first `n` elements. -/
theorem take_recency_concat (uses : List K) (k : K) (n : ℕ) :
    (recency (uses ++ [k])).take n = (k :: ((recency uses).take n).erase k).take n := by
  rw [recency_concat]
  cases n with
  | zero => rfl
  | succ n => rw [List.take_succ_cons, List.take_succ_cons, take_erase]

/-! ### The map -/

/-- At most `capacity` keys with their values, the most recently used first. -/
structure LruMap (K V : Type*) (capacity : ℕ) where
  entries : List (K × V)
  nodup : (entries.map Prod.fst).Nodup
  length_le : entries.length ≤ capacity

namespace LruMap

variable {capacity : ℕ}

def empty : LruMap K V capacity := ⟨[], List.nodup_nil, Nat.zero_le capacity⟩

variable (m : LruMap K V capacity) (k : K) (v : V)

def keys : List K := m.entries.map Prod.fst

def lookup : Option V := Assoc.find? m.entries k

/-- The entries with `k` in front, as many as there is room for. -/
def putEntries (capacity : ℕ) (k : K) (v : V) (l : List (K × V)) : List (K × V) :=
  ((k, v) :: l.filter fun p => p.1 ≠ k).take capacity

theorem filter_keys {l : List (K × V)} (h : (l.map Prod.fst).Nodup) :
    (l.filter fun p => p.1 ≠ k).map Prod.fst = (l.map Prod.fst).erase k := by
  rw [h.erase_eq_filter, List.filter_map]
  congr 1
  refine List.filter_congr fun p _ => ?_
  by_cases hp : p.1 = k <;> simp [hp]

theorem keys_putEntries {l : List (K × V)} (h : (l.map Prod.fst).Nodup) :
    (putEntries capacity k v l).map Prod.fst =
      (k :: (l.map Prod.fst).erase k).take capacity := by
  rw [putEntries, List.map_take, List.map_cons, filter_keys k h]

theorem nodup_put : ((putEntries capacity k v m.entries).map Prod.fst).Nodup := by
  rw [keys_putEntries k v m.nodup]
  exact (List.nodup_cons.mpr ⟨m.nodup.not_mem_erase, m.nodup.erase k⟩).sublist (List.take_sublist _ _)

theorem length_put_le : (putEntries capacity k v m.entries).length ≤ capacity :=
  List.length_take_le _ _

/-- Give `k` the value `v` and make it the most recently used key. -/
def put : LruMap K V capacity :=
  ⟨putEntries capacity k v m.entries, nodup_put m k v, length_put_le m k v⟩

omit [DecidableEq K] in
theorem length_keys : m.keys.length = m.entries.length := List.length_map _

theorem keys_put : (m.put k v).keys = (k :: m.keys.erase k).take capacity :=
  keys_putEntries k v m.nodup

variable {m k}

theorem lookup_eq_none : m.lookup k = none ↔ k ∉ m.keys := Assoc.find?_eq_none

/-- A key that is there: no other key is dropped. -/
theorem put_entries_of_mem (hk : k ∈ m.keys) :
    (m.put k v).entries = (k, v) :: m.entries.filter fun p => p.1 ≠ k := by
  refine List.take_of_length_le ?_
  have hlen : (m.entries.filter fun p => p.1 ≠ k).length = m.keys.length - 1 := by
    rw [← List.length_erase_of_mem hk, keys, ← filter_keys k m.nodup, List.length_map]
  have hpos := List.length_pos_of_mem hk
  rw [List.length_cons, hlen]
  have := m.length_le
  rw [← m.length_keys] at this
  omega

theorem filter_of_not_mem (hk : k ∉ m.keys) : (m.entries.filter fun p => p.1 ≠ k) = m.entries := by
  refine List.filter_eq_self.mpr fun p hp => decide_eq_true ?_
  rintro rfl
  exact hk (List.mem_map_of_mem hp)

/-- A new key while there is room. -/
theorem put_entries_of_lt (hk : k ∉ m.keys) (hlt : m.entries.length < capacity) :
    (m.put k v).entries = (k, v) :: m.entries := by
  show putEntries capacity k v m.entries = _
  rw [putEntries, filter_of_not_mem hk]
  exact List.take_of_length_le hlt

theorem put_eq_cons (hpos : 0 < capacity) : ∃ l, (m.put k v).entries = (k, v) :: l := by
  cases capacity with
  | zero => exact absurd hpos (Nat.lt_irrefl 0)
  | succ n => exact ⟨_, rfl⟩

/-- **The key put** has its value. -/
theorem lookup_put_self (hpos : 0 < capacity) : (m.put k v).lookup k = some v := by
  obtain ⟨l, hl⟩ := put_eq_cons (m := m) (k := k) v hpos
  rw [lookup, hl, Assoc.find?_cons, if_pos rfl]

/-- **Every other key** keeps its value, unless it is the last one and has to make room for a new key. -/
theorem lookup_put_of_ne {j : K} (hj : j ≠ k) : (m.put k v).lookup j = m.lookup j ∨
    ((m.put k v).lookup j = none ∧ m.lookup k = none ∧ m.entries.length = capacity ∧
      m.keys.getLast? = some j) := by
  have hskip : ∀ l, Assoc.find? ((k, v) :: l) j = Assoc.find? l j := by
    intro l
    rw [Assoc.find?_cons, if_neg (Ne.symm hj)]
  by_cases hk : k ∈ m.keys
  · left
    rw [lookup, put_entries_of_mem v hk, hskip]
    have hfilter := Assoc.find?_filter_key m.entries (fun i => decide (i ≠ k)) j
    rwa [if_pos (decide_eq_true hj)] at hfilter
  · rcases Nat.lt_or_eq_of_le m.length_le with hlt | hfull
    · left
      rw [lookup, put_entries_of_lt v hk hlt, hskip]
      rfl
    · have hput : (m.put k v).lookup j =
          Assoc.find? (((k, v) :: m.entries).take capacity) j := by
        show Assoc.find? (putEntries capacity k v m.entries) j = _
        rw [putEntries, filter_of_not_mem hk]
      rcases List.eq_nil_or_concat m.entries with hnil | ⟨l, p, hl⟩
      · -- no room at all
        left
        rw [hput, lookup, hnil, ← hfull, hnil]
        rfl
      · rw [List.concat_eq_append] at hl
        have hdrop : ((k, v) :: m.entries).take capacity = (k, v) :: l := by
          rw [hl, ← hfull, hl, List.length_append, List.length_singleton, List.take_succ_cons,
            List.take_left]
        rw [hput, hdrop, hskip]
        by_cases hp : p.1 = j
        · -- the last key is dropped
          right
          have hnodup := m.nodup
          rw [hl, List.map_append, List.map_singleton, List.nodup_append] at hnodup
          have hnot : j ∉ l.map Prod.fst := by
            intro hmem
            exact hnodup.2.2 j hmem p.1 List.mem_cons_self hp.symm
          refine ⟨Assoc.find?_eq_none.mpr hnot, lookup_eq_none.mpr hk, hfull, ?_⟩
          rw [keys, hl, List.map_append, List.map_singleton, List.getLast?_concat, hp]
        · left
          rw [lookup, hl, Assoc.find?_append, Assoc.find?_cons, if_neg hp, Assoc.find?_nil, Option.or_none]

/-- The same, by the keys that are left. -/
theorem lookup_put (hpos : 0 < capacity) (j : K) : (m.put k v).lookup j =
    if j = k then some v else if j ∈ (m.put k v).keys then m.lookup j else none := by
  split_ifs with hj hmem
  · rw [hj]
    exact lookup_put_self v hpos
  · rcases lookup_put_of_ne (m := m) v hj with hsame | ⟨hnone, -⟩
    · exact hsame
    · exact absurd hmem (lookup_eq_none.mp hnone)
  · exact lookup_eq_none.mpr hmem

end LruMap

end SentinelCpp.Lib
