import Mathlib.Algebra.BigOperators.Group.List.Basic
import Mathlib.Algebra.Order.Ring.Int
import Mathlib.Data.List.Dedup
import Mathlib.Data.List.Perm.Basic
import Mathlib.Logic.Function.Basic
import SentinelCpp.Common
import SentinelCpp.Param.Any

/-!
# The bounded caches of counters

`ThreadSafeLRUCache` keeps counters in a hash map and their keys in a list from most to least
recently used; a new key beyond the capacity evicts the last one.  `ThreadSafeScalableCache` splits the
capacity over shards chosen by the top 16 bits of the key's hash.  Calls are sequential, so every
`try_lock` succeeds.  A key that equals nothing (not even itself) can be inserted but never found.
-/

namespace SentinelCpp.Param

/-- The comparison of a hash map: `equal` relates only identical keys, and relates a key to itself
when the key is `supported`. -/
class HashCompare (K : Type) where
  equal : K → K → Bool
  supported : K → Bool
  equal_iff : ∀ a b, equal a b = true ↔ a = b ∧ supported a = true

/-- `AnyCmp`. -/
instance : HashCompare AnyVal := ⟨AnyVal.equal, AnyVal.supported, fun _ _ => AnyVal.equal_iff⟩

open HashCompare

/-- `ThreadSafeLRUCache`: `list` has the keys of the nodes between head and tail, most recently used
first; `size` is the counter `m_size`; the values of the map are `atomic<int32_t>`. -/
structure LRUCache (K : Type) where
  maxSize : ℕ
  size : ℕ
  map : List (K × ℤ)
  list : List K

namespace LRUCache

variable {K : Type} [DecidableEq K] [HashCompare K]

/-- The constructor. -/
def mk' (maxSize : ℕ) : LRUCache K := { maxSize, size := 0, map := [], list := [] }

/-- `m_map->find(key)`. -/
def lookup (c : LRUCache K) (key : K) : Option ℤ :=
  (c.map.find? fun p => equal p.1 key).map Prod.snd

/-- `delink(node); pushFront(node)` for a node in the list. -/
def touch (c : LRUCache K) (key : K) : LRUCache K :=
  if key ∈ c.list then { c with list := key :: c.list.erase key } else c

/-- `find(ac, key)`. -/
def find (c : LRUCache K) (key : K) : LRUCache K × Option ℤ :=
  match c.lookup key with
  | none => (c, none)
  | some v => (c.touch key, some v)

/-- `evict(key)`: drop the least recently used key unless there is none or it equals `key`. -/
def evict (c : LRUCache K) (key : K) : LRUCache K :=
  match c.list.getLast? with
  | none => c
  | some moribund =>
    if equal moribund key then c
    else
      { c with
        list := c.list.dropLast
        map := c.map.filter fun p => !equal p.1 moribund }

/-- `insert(ac, key, value)` for a key that is not in the map. -/
def insert (c : LRUCache K) (key : K) (value : ℤ) : LRUCache K :=
  let c := { c with map := c.map ++ [(key, toInt32 value)] }
  let size := c.size
  let evictionDone := decide (size ≥ c.maxSize)
  let c := if evictionDone then c.evict key else c
  let c := { c with list := key :: c.list }
  let c := if evictionDone then c else { c with size := size + 1 }
  if size > c.maxSize then { c with size := size - 1 }.evict key else c

/-- `m_value->fetch_add(value)` on the pair found for `key`. -/
def fetchAdd (key : K) (value : ℤ) (p : K × ℤ) : K × ℤ :=
  if equal p.1 key then (p.1, toInt32 (p.2 + value)) else p

/-- `increase(key, value)`. -/
def increase (c : LRUCache K) (key : K) (value : ℤ) : LRUCache K :=
  match c.lookup key with
  | none => c.insert key value
  | some _ => { c with map := c.map.map (fetchAdd key value) }.touch key

/-- `clear()`. -/
def clear (c : LRUCache K) : LRUCache K := { c with size := 0, map := [], list := [] }

/-- The value of the counter of `key`, 0 when there is none. -/
def count (c : LRUCache K) (key : K) : ℤ := (c.lookup key).getD 0

/-! ### What the operations do to the counters -/

variable (c : LRUCache K) (k key : K)

omit [HashCompare K] in
@[simp] theorem touch_map : (c.touch key).map = c.map := by
  unfold touch
  split <;> rfl

omit [HashCompare K] in
@[simp] theorem touch_maxSize : (c.touch key).maxSize = c.maxSize := by
  unfold touch
  split <;> rfl

@[simp] theorem find_map : (c.find key).1.map = c.map := by
  unfold find
  cases c.lookup key <;> simp

@[simp] theorem find_snd : (c.find key).2 = c.lookup key := by
  unfold find
  cases c.lookup key <;> rfl

omit [DecidableEq K] in
theorem lookup_congr {c c' : LRUCache K} (h : c.map = c'.map) (k : K) : c.lookup k = c'.lookup k := by
  rw [lookup, lookup, h]

@[simp] theorem find_lookup : (c.find key).1.lookup k = c.lookup k := lookup_congr (find_map _ _) k

@[simp] theorem find_count : (c.find key).1.count k = c.count k := by simp [count]

omit [DecidableEq K] in
@[simp] theorem clear_lookup : c.clear.lookup k = none := rfl

omit [DecidableEq K] in
@[simp] theorem mk'_lookup (maxSize : ℕ) : (mk' maxSize : LRUCache K).lookup k = none := rfl

omit [DecidableEq K] in
theorem equal_false_of_ne {a b : K} (h : a ≠ b) : equal a b = false := by
  rw [Bool.eq_false_iff]
  exact fun he => h ((equal_iff a b).mp he).1

omit [DecidableEq K] in
theorem find?_filter_ne {m : List (K × ℤ)} {a k : K} :
    (m.filter fun p => !equal p.1 a).find? (fun p => equal p.1 k) =
      if equal a k then none else m.find? fun p => equal p.1 k := by
  induction m with
  | nil => simp
  | cons p m ih =>
    by_cases hpa : equal p.1 a = true
    · have hpa' := (equal_iff _ _).mp hpa
      rw [List.filter_cons_of_neg (by simp [hpa]), ih]
      by_cases hak : equal a k = true
      · simp [hak]
      · have hpk : equal p.1 k = false := by simpa [hpa'.1] using hak
        simp [hak, hpk]
    · rw [List.filter_cons_of_pos (by simp [hpa]), List.find?_cons, ih, List.find?_cons]
      by_cases hpk : equal p.1 k = true
      · have hak : equal a k = false := by
          rw [Bool.eq_false_iff]
          intro hak
          have h1 := (equal_iff _ _).mp hpk
          have h2 := (equal_iff _ _).mp hak
          exact hpa ((equal_iff _ _).mpr ⟨h1.1.trans h2.1.symm, h1.2⟩)
        simp [hpk, hak]
      · simp [hpk]

omit [DecidableEq K] in
/-- An eviction removes one key, never the one being inserted. -/
theorem evict_lookup : (c.evict key).lookup k = c.lookup k ∨
    ((c.evict key).lookup k = none ∧ equal k key = false) := by
  unfold evict
  cases hl : c.list.getLast? with
  | none => exact .inl rfl
  | some moribund =>
    dsimp only
    split_ifs with he
    · exact .inl rfl
    · rw [lookup, lookup, find?_filter_ne]
      by_cases hk : equal moribund k = true
      · right
        have hmk := (equal_iff _ _).mp hk
        rw [if_pos hk]
        refine ⟨rfl, ?_⟩
        rw [← hmk.1]
        simpa using he
      · left
        rw [if_neg hk]

omit [DecidableEq K] in
theorem find?_concat {m : List (K × ℤ)} {key k : K} {v : ℤ}
    (h : m.find? (fun p => equal p.1 key) = none) :
    (m ++ [(key, v)]).find? (fun p => equal p.1 k) =
      if equal key k then some (key, v) else m.find? fun p => equal p.1 k := by
  rw [List.find?_append]
  by_cases hk : equal key k = true
  · have hkk := ((equal_iff _ _).mp hk).1
    subst hkk
    rw [if_pos hk, h]
    simp [hk]
  · rw [if_neg hk]
    simp [hk]

omit [DecidableEq K] in
/-- Inserting a new key: it gets its value, and any other key keeps its own or is evicted. -/
theorem insert_lookup {v : ℤ} (h : c.lookup key = none) :
    (supported key = true → (c.insert key v).lookup key = some (toInt32 v)) ∧
      (k ≠ key → (c.insert key v).lookup k = c.lookup k ∨ (c.insert key v).lookup k = none) := by
  have h0 : ∀ k, (({ c with map := c.map ++ [(key, toInt32 v)] } : LRUCache K)).lookup k =
      if equal key k then some (toInt32 v) else c.lookup k := by
    intro k
    rw [lookup, find?_concat (by simpa [lookup] using h)]
    split_ifs <;> rfl
  -- both evictions spare the new key and only remove others
  have hev : ∀ (d : LRUCache K) (k : K), (equal k key = true → (d.evict key).lookup k = d.lookup k) ∧
      ((d.evict key).lookup k = d.lookup k ∨ (d.evict key).lookup k = none) := by
    intro d k
    rcases d.evict_lookup k key with he | ⟨he, hk⟩
    · exact ⟨fun _ => he, .inl he⟩
    · exact ⟨fun hk' => by simp [hk] at hk', .inr he⟩
  have hstep : ∀ k, (equal k key = true →
        (c.insert key v).lookup k = if equal key k then some (toInt32 v) else c.lookup k) ∧
      ((c.insert key v).lookup k = (if equal key k then some (toInt32 v) else c.lookup k) ∨
        (c.insert key v).lookup k = none) := by
    intro k
    rw [← h0 k]
    unfold insert
    dsimp only
    by_cases h1 : c.size ≥ c.maxSize
    · simp only [h1, decide_true, if_true]
      generalize ({ c with map := c.map ++ [(key, toInt32 v)] } : LRUCache K) = d
      have hd := hev d k
      have hl : ∀ l : List K, ({ d.evict key with list := l } : LRUCache K).lookup k =
          (d.evict key).lookup k := fun l => rfl
      split_ifs
      · have hd' := hev { d.evict key with size := c.size - 1, list := key :: (d.evict key).list } k
        have hs : ({ d.evict key with
            size := c.size - 1, list := key :: (d.evict key).list } : LRUCache K).lookup k =
              (d.evict key).lookup k := rfl
        rw [hs] at hd'
        refine ⟨fun hk => (hd'.1 hk).trans (hd.1 hk), ?_⟩
        rcases hd'.2 with he | he
        · rw [he]
          exact hd.2
        · exact .inr he
      · rw [hl]
        exact hd
    · simp only [h1, decide_false, Bool.false_eq_true, if_false]
      rw [if_neg (by omega)]
      exact ⟨fun _ => rfl, .inl rfl⟩
  refine ⟨fun hs => ?_, fun hk => ?_⟩
  · have hself : equal key key = true := (equal_iff _ _).mpr ⟨rfl, hs⟩
    rw [(hstep key).1 hself, if_pos hself]
  · have := (hstep k).2
    rwa [if_neg (by simp [equal_false_of_ne hk.symm])] at this

omit [DecidableEq K] in
theorem find?_map_fetchAdd {m : List (K × ℤ)} {key k : K} {v : ℤ} :
    (m.map (fetchAdd key v)).find? (fun p => equal p.1 k) =
      (m.find? fun p => equal p.1 k).map (fetchAdd key v) := by
  induction m with
  | nil => rfl
  | cons p m ih =>
    have hfst : (fetchAdd key v p).1 = p.1 := by
      unfold fetchAdd
      split <;> rfl
    rw [List.map_cons, List.find?_cons, List.find?_cons, ih, hfst]
    cases equal p.1 k <;> rfl

/-- **`increase`** adds to the counter of a supported key, a missing counter counting as 0; the counter
wraps. -/
theorem increase_count_self {v : ℤ} (hs : supported key = true) :
    (c.increase key v).count key = toInt32 (c.count key + v) := by
  unfold increase count
  cases h : c.lookup key with
  | none =>
    dsimp only
    rw [(c.insert_lookup key key h).1 hs]
    simp
  | some w =>
    dsimp only
    rw [lookup_congr (touch_map _ _), lookup, find?_map_fetchAdd]
    obtain ⟨p, hp, hw⟩ := Option.map_eq_some_iff.mp h
    have he : equal p.1 key = true := by simpa using List.find?_some hp
    rw [hp, Option.map_some, fetchAdd, if_pos he]
    simp [← hw]

/-- `increase` leaves every other counter as it is, or evicts it; it evicts only to make room for a
new key. -/
theorem increase_lookup_of_ne {v : ℤ} (hne : k ≠ key) :
    (c.increase key v).lookup k = c.lookup k ∨
      ((c.increase key v).lookup k = none ∧ c.lookup key = none) := by
  unfold increase
  cases h : c.lookup key with
  | none =>
    rcases (c.insert_lookup k key h (v := v)).2 hne with he | he
    · exact .inl he
    · exact .inr ⟨he, rfl⟩
  | some w =>
    left
    dsimp only
    rw [lookup_congr (touch_map _ _), lookup, find?_map_fetchAdd, lookup]
    cases hf : c.map.find? (fun p => equal p.1 k) with
    | none => rfl
    | some p =>
      have he : equal p.1 k = true := by simpa using List.find?_some hf
      have hpk : equal p.1 key = false := equal_false_of_ne (((equal_iff _ _).mp he).1 ▸ hne)
      simp [fetchAdd, hpk]

theorem increase_count_of_ne {v : ℤ} (hne : k ≠ key) :
    (c.increase key v).count k = c.count k ∨
      ((c.increase key v).count k = 0 ∧ c.lookup key = none) := by
  unfold count
  rcases c.increase_lookup_of_ne k key hne (v := v) with h | ⟨h, h'⟩
  · exact .inl (by rw [h])
  · exact .inr ⟨by rw [h]; rfl, h'⟩

/-- An addition that evicts no counter: each key that was found still is. -/
def KeepsCounters (value : ℤ) : Prop :=
  ∀ p ∈ c.map, supported p.1 = true → (c.increase key value).lookup p.1 ≠ none

instance (value : ℤ) : Decidable (c.KeepsCounters key value) :=
  inferInstanceAs (Decidable (∀ p ∈ c.map, _))

variable {c k key} in
/-- Such an addition is counted for its key, and no other counter changes. -/
theorem KeepsCounters.increase_count {v : ℤ} (h : c.KeepsCounters key v) (hk : supported k = true) :
    (c.increase key v).count k = if key = k then toInt32 (c.count k + v) else c.count k := by
  by_cases hkey : key = k
  · subst hkey
    rw [if_pos rfl, increase_count_self c key hk]
  rw [if_neg hkey]
  unfold count
  rcases increase_lookup_of_ne c k key (Ne.symm hkey) (v := v) with hsame | ⟨hlost, -⟩
  · rw [hsame]
  · -- a counter that is not found now was not there before
    cases hl : c.lookup k with
    | none => rw [hlost]
    | some w =>
      obtain ⟨p, hp, -⟩ := Option.map_eq_some_iff.mp hl
      have heq : equal p.1 k = true := by simpa using List.find?_some hp
      obtain ⟨rfl, hs⟩ := (equal_iff _ _).mp heq
      exact absurd hlost (h p (List.mem_of_find?_eq_some hp) hs)

/-! ### The capacity -/

@[simp] theorem find_maxSize : (c.find key).1.maxSize = c.maxSize := by
  unfold find
  cases c.lookup key <;> simp

omit [DecidableEq K] in
@[simp] theorem evict_maxSize : (c.evict key).maxSize = c.maxSize := by
  unfold evict
  cases c.list.getLast? with
  | none => rfl
  | some moribund =>
    dsimp only
    split_ifs <;> rfl

omit [DecidableEq K] in
@[simp] theorem insert_maxSize (v : ℤ) : (c.insert key v).maxSize = c.maxSize := by
  unfold insert
  dsimp only
  split_ifs <;> simp

@[simp] theorem increase_maxSize (v : ℤ) : (c.increase key v).maxSize = c.maxSize := by
  unfold increase
  cases c.lookup key <;> simp

/-! ### What an insertion does -/

section Insert

variable {c : LRUCache K} {key x : K} {value : ℤ} {l : List K}

omit [DecidableEq K] in
/-- Below capacity. -/
theorem insert_of_lt (hsize : c.size < c.maxSize) : c.insert key value =
    { c with map := c.map ++ [(key, toInt32 value)], list := key :: c.list, size := c.size + 1 } := by
  unfold insert
  have hfull : decide (c.size ≥ c.maxSize) = false := decide_eq_false (by omega)
  simp only [hfull, Bool.false_eq_true, if_false]
  rw [if_neg (by omega)]

omit [DecidableEq K] in
/-- At capacity, with nothing in the list. -/
theorem insert_of_nil (hsize : c.size = c.maxSize) (hl : c.list = []) : c.insert key value =
    { c with map := c.map ++ [(key, toInt32 value)], list := [key] } := by
  unfold insert
  have hfull : decide (c.size ≥ c.maxSize) = true := decide_eq_true (by omega)
  simp only [hfull, if_true, evict_maxSize]
  rw [if_neg (by omega)]
  simp [evict, hl]

omit [DecidableEq K] in
/-- At capacity: the last key of the list is taken off, and out of the map if it is found there. -/
theorem insert_of_concat (hsize : c.size = c.maxSize) (hl : c.list = l ++ [x])
    (hx : equal x key = false) : c.insert key value =
    { c with
      map := (c.map.filter fun p => !equal p.1 x) ++ [(key, toInt32 value)]
      list := key :: l } := by
  have hself : equal key x = false := by
    rw [Bool.eq_false_iff] at hx ⊢
    intro h
    obtain ⟨rfl, hs⟩ := (equal_iff _ _).mp h
    exact hx ((equal_iff _ _).mpr ⟨rfl, hs⟩)
  unfold insert
  have hfull : decide (c.size ≥ c.maxSize) = true := decide_eq_true (by omega)
  simp only [hfull, if_true, evict_maxSize]
  rw [if_neg (by omega)]
  simp [evict, hl, hx, hself]

end Insert

/-! ### No eviction while the keys fit -/

/-- The cache holds exactly the keys and totals of the additions `es`; the totals wrap. -/
structure Tracks (c : LRUCache K) (es : List (K × ℤ)) : Prop where
  nodup : c.list.Nodup
  mem_list : ∀ k, k ∈ c.list ↔ k ∈ es.map Prod.fst
  lookup : ∀ k, c.lookup k =
    if k ∈ es.map Prod.fst then some (toInt32 ((es.filter fun x => x.1 = k).map Prod.snd).sum)
    else none
  size : c.size = if c.maxSize = 0 then 0 else c.list.length

omit [DecidableEq K] in
theorem find?_isNone_iff {m : List (K × ℤ)} {k : K} :
    (m.find? fun p => equal p.1 k).map Prod.snd = none ↔
      m.find? (fun p => equal p.1 k) = none := by
  simp

theorem tracks_mk' (maxSize : ℕ) : Tracks (mk' maxSize : LRUCache K) [] :=
  ⟨by simp [mk'], by simp [mk'], by simp, by split <;> rfl⟩

theorem tracks_clear (c : LRUCache K) : Tracks c.clear [] :=
  ⟨by simp [clear], by simp [clear], by simp, by split <;> rfl⟩

theorem Tracks.touch {c : LRUCache K} {es : List (K × ℤ)} (h : c.Tracks es) (key : K) :
    (c.touch key).Tracks es := by
  have hmap : ∀ k, (c.touch key).lookup k = c.lookup k := lookup_congr (touch_map _ _)
  by_cases hk : key ∈ c.list
  · have hperm : (key :: c.list.erase key).Perm c.list := (List.perm_cons_erase hk).symm
    have heq : c.touch key = { c with list := key :: c.list.erase key } := if_pos hk
    refine ⟨?_, fun k => ?_, fun k => by rw [hmap, h.lookup], ?_⟩
    · rw [heq]
      exact hperm.nodup_iff.mpr h.nodup
    · rw [heq]
      exact hperm.mem_iff.trans (h.mem_list k)
    · have hlen := hperm.length_eq
      rw [heq]
      dsimp only
      rw [hlen]
      exact h.size
  · have heq : c.touch key = c := if_neg hk
    rw [heq]
    exact h

theorem Tracks.find {c : LRUCache K} {es : List (K × ℤ)} (h : c.Tracks es) (key : K) :
    (c.find key).1.Tracks es := by
  unfold LRUCache.find
  cases c.lookup key with
  | none => exact h
  | some v => exact h.touch key

omit [HashCompare K] in
theorem filter_concat_sum (es : List (K × ℤ)) (key k : K) (v : ℤ) :
    (((es ++ [(key, v)]).filter fun x => x.1 = k).map Prod.snd).sum =
      ((es.filter fun x => x.1 = k).map Prod.snd).sum + if key = k then v else 0 := by
  rw [List.filter_append, List.map_append, List.sum_append]
  by_cases h : key = k <;> simp [h]

omit [HashCompare K] in
theorem filter_of_not_mem {es : List (K × ℤ)} {k : K} (h : k ∉ es.map Prod.fst) :
    es.filter (fun x => decide (x.1 = k)) = [] := by
  refine List.filter_eq_nil_iff.mpr fun x hx => ?_
  simp only [decide_eq_true_eq]
  rintro rfl
  exact h (List.mem_map_of_mem hx)

section Tracks

variable {c : LRUCache K} {es : List (K × ℤ)} {key : K} {v : ℤ}

theorem Tracks.lookup_eq_none (h : c.Tracks es) : c.lookup key = none ↔ key ∉ es.map Prod.fst := by
  rw [h.lookup]
  split_ifs with hmem <;> simp [hmem]

/-- An addition to a counter. -/
theorem Tracks.fetchAdd (h : c.Tracks es) (hmem : key ∈ es.map Prod.fst) :
    Tracks { c with map := c.map.map (fetchAdd key v) } (es ++ [(key, v)]) := by
  have hkeys : ∀ k, k ∈ (es ++ [(key, v)]).map Prod.fst ↔ k ∈ es.map Prod.fst := by
    intro k
    simp only [List.map_append, List.map_cons, List.map_nil, List.mem_append, List.mem_singleton]
    exact ⟨fun hk => hk.elim id fun hk => hk ▸ hmem, .inl⟩
  refine ⟨h.nodup, fun k => (h.mem_list k).trans (hkeys k).symm, fun k => ?_, h.size⟩
  have hk := h.lookup k
  rw [LRUCache.lookup] at hk
  rw [LRUCache.lookup, find?_map_fetchAdd, filter_concat_sum]
  by_cases hkm : k ∈ es.map Prod.fst
  · rw [if_pos hkm] at hk
    rw [if_pos ((hkeys k).mpr hkm)]
    obtain ⟨p, hp, hpv⟩ := Option.map_eq_some_iff.mp hk
    have hpk : equal p.1 k = true := by simpa using List.find?_some hp
    have hpk' := ((equal_iff _ _).mp hpk).1
    rw [hp, Option.map_some, Option.map_some]
    by_cases hkk : key = k
    · subst hkk
      simp [LRUCache.fetchAdd, hpk, hpv]
    · have hne : equal p.1 key = false := equal_false_of_ne (hpk' ▸ Ne.symm hkk)
      simp [LRUCache.fetchAdd, hne, hpv, hkk]
  · rw [if_neg hkm, find?_isNone_iff] at hk
    rw [if_neg (fun hk' => hkm ((hkeys k).mp hk')), hk]
    rfl

/-- With room for it, or in an empty cache of capacity 0, a new key is put in front. -/
theorem Tracks.insert_eq (h : c.Tracks es) (hfit : c.list.length + 1 ≤ max 1 c.maxSize) :
    c.insert key v = { c with
      map := c.map ++ [(key, toInt32 v)]
      list := key :: c.list
      size := if c.maxSize = 0 then 0 else c.list.length + 1 } := by
  have hsz := h.size
  by_cases h0 : c.maxSize = 0
  · rw [if_pos h0] at hsz ⊢
    have hnil : c.list = [] := List.length_eq_zero_iff.mp (by omega)
    rw [insert_of_nil (hsz.trans h0.symm) hnil, hsz, hnil]
  · rw [if_neg h0] at hsz ⊢
    rw [insert_of_lt (by omega), hsz]

/-- The insertion of a new key. -/
theorem Tracks.insert (h : c.Tracks es) (hs : supported key = true) (hmem : key ∉ es.map Prod.fst)
    (hfit : c.list.length + 1 ≤ max 1 c.maxSize) : (c.insert key v).Tracks (es ++ [(key, v)]) := by
  have hnl : key ∉ c.list := fun hk => hmem ((h.mem_list key).mp hk)
  have hl := h.lookup_eq_none.mpr hmem
  rw [h.insert_eq hfit]
  refine ⟨List.nodup_cons.mpr ⟨hnl, h.nodup⟩, fun k => ?_, fun k => ?_, ?_⟩
  · rw [List.map_append, List.mem_append, List.mem_cons, h.mem_list k, or_comm]
    simp
  · rw [LRUCache.lookup, find?_concat (by simpa [LRUCache.lookup] using hl), filter_concat_sum]
    by_cases hkk : key = k
    · subst hkk
      have hself : equal key key = true := (equal_iff _ _).mpr ⟨rfl, hs⟩
      simp [hself, filter_of_not_mem hmem]
    · have hne : equal key k = false := equal_false_of_ne hkk
      have hk := h.lookup k
      rw [LRUCache.lookup] at hk
      simp only [hne, Bool.false_eq_true, if_false, hk, hkk, add_zero, List.map_append,
        List.map_cons, List.map_nil, List.mem_append, List.mem_singleton, Ne.symm hkk, or_false]
  · by_cases h0 : c.maxSize = 0 <;> simp [h0]

/-- **No eviction.**  An addition that leaves at most as many keys as fit (one fits even in a cache
of capacity 0) is counted exactly. -/
theorem Tracks.increase (h : c.Tracks es) (hs : supported key = true)
    (hfit : ((es ++ [(key, v)]).map Prod.fst).dedup.length ≤ max 1 c.maxSize) :
    (c.increase key v).Tracks (es ++ [(key, v)]) := by
  unfold LRUCache.increase
  cases hl : c.lookup key with
  | some w =>
    have hmem : key ∈ es.map Prod.fst := by
      by_contra hno
      rw [h.lookup_eq_none.mpr hno] at hl
      exact absurd hl (Option.some_ne_none w).symm
    exact (h.fetchAdd hmem).touch key
  | none =>
    have hmem := h.lookup_eq_none.mp hl
    have hnl : key ∉ c.list := fun hk => hmem ((h.mem_list key).mp hk)
    have hperm : ((es ++ [(key, v)]).map Prod.fst).dedup.Perm (key :: c.list) := by
      rw [List.perm_ext_iff_of_nodup (List.nodup_dedup _) (List.nodup_cons.mpr ⟨hnl, h.nodup⟩)]
      intro k
      rw [List.mem_dedup, List.map_append, List.mem_append, List.mem_cons, h.mem_list k, or_comm]
      simp
    rw [hperm.length_eq, List.length_cons] at hfit
    exact h.insert hs hmem hfit

theorem Tracks.count (h : c.Tracks es) (k : K) :
    c.count k = toInt32 ((es.filter fun x => x.1 = k).map Prod.snd).sum := by
  rw [LRUCache.count, h.lookup]
  split_ifs with hk
  · rfl
  · simp [filter_of_not_mem hk]

end Tracks

end LRUCache

/-! ### Shards -/

/-- `ThreadSafeScalableCache`; `hash` is the hash of the key type. -/
structure ScalableCache (K : Type) where
  hash : K → UInt64
  numShards : ℕ
  shards : ℕ → LRUCache K

namespace ScalableCache

variable {K : Type} [DecidableEq K] [HashCompare K]

/-- The capacity of shard `i`: an equal share, and for shard 0 also the remainder. -/
def shardSize (maxSize numShards i : ℕ) : ℕ :=
  maxSize / numShards + if i = 0 then maxSize % numShards else 0

/-- The constructor; `numShards` is the hardware concurrency. -/
def mk' (hash : K → UInt64) (numShards maxSize : ℕ) : ScalableCache K where
  hash := hash
  numShards := numShards
  shards := fun i => .mk' (shardSize maxSize numShards i)

/-- `getShard(key)`: `size_t` has 64 bits, so the hash is shifted by 48. -/
def getShard (c : ScalableCache K) (key : K) : ℕ := (c.hash key >>> 48).toNat % c.numShards

/-- An update of the shard of `key`. -/
def modifyShard (c : ScalableCache K) (key : K) (f : LRUCache K → LRUCache K) : ScalableCache K :=
  { c with shards := Function.update c.shards (c.getShard key) (f (c.shards (c.getShard key))) }

/-- `find(ac, key)`. -/
def find (c : ScalableCache K) (key : K) : ScalableCache K × Option ℤ :=
  (c.modifyShard key fun s => (s.find key).1, ((c.shards (c.getShard key)).find key).2)

/-- `increase(key, value)`. -/
def increase (c : ScalableCache K) (key : K) (value : ℤ) : ScalableCache K :=
  c.modifyShard key fun s => s.increase key value

/-- `clear()`. -/
def clear (c : ScalableCache K) : ScalableCache K := { c with shards := fun i => (c.shards i).clear }

/-- The value of the counter of `key`, 0 when there is none. -/
def count (c : ScalableCache K) (key : K) : ℤ := (c.shards (c.getShard key)).count key

variable (c : ScalableCache K) (k key : K)

omit [DecidableEq K] [HashCompare K] in
/-- One shard changes. -/
theorem modifyShard_shards (f : LRUCache K → LRUCache K) (i : ℕ) :
    (c.modifyShard key f).shards i = if i = c.getShard key then f (c.shards i) else c.shards i := by
  unfold modifyShard
  dsimp only
  by_cases hi : i = c.getShard key
  · rw [if_pos hi, hi, Function.update_self]
  · rw [if_neg hi, Function.update_of_ne hi]

@[simp] theorem getShard_find : (c.find key).1.getShard k = c.getShard k := rfl
@[simp] theorem getShard_increase (v : ℤ) : (c.increase key v).getShard k = c.getShard k := rfl

@[simp] theorem find_hash : (c.find key).1.hash = c.hash := rfl
@[simp] theorem find_numShards : (c.find key).1.numShards = c.numShards := rfl
@[simp] theorem increase_hash (v : ℤ) : (c.increase key v).hash = c.hash := rfl
@[simp] theorem increase_numShards (v : ℤ) : (c.increase key v).numShards = c.numShards := rfl

@[simp] theorem find_shards_maxSize (i : ℕ) :
    ((c.find key).1.shards i).maxSize = (c.shards i).maxSize := by
  rw [find, modifyShard_shards]
  split_ifs
  · rw [LRUCache.find_maxSize]
  · rfl

@[simp] theorem increase_shards_maxSize (v : ℤ) (i : ℕ) :
    ((c.increase key v).shards i).maxSize = (c.shards i).maxSize := by
  rw [increase, modifyShard_shards]
  split_ifs
  · rw [LRUCache.increase_maxSize]
  · rfl

@[simp] theorem find_snd_getD : (c.find key).2.getD 0 = c.count key := by
  simp [find, count, LRUCache.count]

omit [DecidableEq K] in
@[simp] theorem mk'_count (hash : K → UInt64) (numShards maxSize : ℕ) :
    (mk' hash numShards maxSize).count k = 0 := rfl

/-- A lookup changes no counter. -/
@[simp] theorem find_count : (c.find key).1.count k = c.count k := by
  unfold count
  rw [getShard_find, find, modifyShard_shards]
  split_ifs
  · rw [LRUCache.find_count]
  · rfl

/-- **`increase`** adds to the counter of a supported key. -/
theorem increase_count_self {v : ℤ} (hs : supported key = true) :
    (c.increase key v).count key = toInt32 (c.count key + v) := by
  simp [count, increase, modifyShard, getShard, LRUCache.increase_count_self _ _ hs]

/-- Every other counter stays, or is evicted to make room for a key that had no counter. -/
theorem increase_count_of_ne {v : ℤ} (hne : k ≠ key) :
    (c.increase key v).count k = c.count k ∨
      ((c.increase key v).count k = 0 ∧ c.count key = 0) := by
  unfold count
  rw [getShard_increase, increase, modifyShard_shards]
  split_ifs with h
  · rcases LRUCache.increase_count_of_ne (c.shards (c.getShard k)) k key hne (v := v) with
      he | ⟨he, hn⟩
    · exact .inl he
    · exact .inr ⟨he, by simp [LRUCache.count, ← h, hn]⟩
  · exact .inl rfl

/-- An addition that evicts no counter of its shard. -/
def KeepsCounters (value : ℤ) : Prop := (c.shards (c.getShard key)).KeepsCounters key value

instance (value : ℤ) : Decidable (c.KeepsCounters key value) :=
  inferInstanceAs (Decidable (LRUCache.KeepsCounters _ _ _))

variable {c k key} in
theorem KeepsCounters.increase_count {v : ℤ} (h : c.KeepsCounters key v) (hk : supported k = true) :
    (c.increase key v).count k = if key = k then toInt32 (c.count k + v) else c.count k := by
  unfold count
  rw [getShard_increase, increase, modifyShard_shards]
  split_ifs with hshard heq heq
  · rw [hshard, LRUCache.KeepsCounters.increase_count h hk, if_pos heq]
  · rw [hshard, LRUCache.KeepsCounters.increase_count h hk, if_neg heq]
  · exact absurd (by rw [heq]) hshard
  · rfl

/-! ### No eviction while the keys of each shard fit -/

/-- The additions that go to shard `i`. -/
def inShard (c : ScalableCache K) (i : ℕ) (es : List (K × ℤ)) : List (K × ℤ) :=
  es.filter fun x => c.getShard x.1 = i

@[simp] theorem inShard_find (i : ℕ) (es : List (K × ℤ)) :
    (c.find key).1.inShard i es = c.inShard i es := rfl
@[simp] theorem inShard_increase (i : ℕ) (v : ℤ) (es : List (K × ℤ)) :
    (c.increase key v).inShard i es = c.inShard i es := rfl

omit [DecidableEq K] [HashCompare K] in
theorem inShard_concat (i : ℕ) (v : ℤ) (es : List (K × ℤ)) :
    c.inShard i (es ++ [(key, v)]) =
      c.inShard i es ++ if c.getShard key = i then [(key, v)] else [] := by
  rw [inShard, List.filter_append, ← inShard]
  by_cases hi : c.getShard key = i <;> simp [hi]

/-- The keys of shard `i` fit: no more of them than its capacity, or only one. -/
def Fits (c : ScalableCache K) (i : ℕ) (es : List (K × ℤ)) : Prop :=
  ((c.inShard i es).map Prod.fst).dedup.length ≤ max 1 (c.shards i).maxSize

/-- Each shard has counted exactly its additions, provided its keys fit. -/
def Counts (c : ScalableCache K) (es : List (K × ℤ)) : Prop :=
  ∀ i, c.Fits i es → (c.shards i).Tracks (c.inShard i es)

theorem counts_mk' (hash : K → UInt64) (numShards maxSize : ℕ) :
    (mk' hash numShards maxSize).Counts [] :=
  fun _ _ => LRUCache.tracks_mk' _

theorem counts_clear (c : ScalableCache K) : c.clear.Counts [] :=
  fun _ _ => LRUCache.tracks_clear _

variable {c}

theorem Counts.find {es : List (K × ℤ)} (h : c.Counts es) (key : K) : (c.find key).1.Counts es := by
  intro i hfit
  have hfit' : c.Fits i es := by
    unfold Fits at hfit ⊢
    rw [find_shards_maxSize] at hfit
    exact hfit
  rw [inShard_find, ScalableCache.find, modifyShard_shards]
  split_ifs
  · exact (h i hfit').find key
  · exact h i hfit'

omit [HashCompare K] in
theorem dedup_length_le_of_subset {l l' : List K} (h : l ⊆ l') : l.dedup.length ≤ l'.dedup.length :=
  (List.subperm_of_subset (List.nodup_dedup l) fun _ ha =>
    List.mem_dedup.mpr (h (List.mem_dedup.mp ha))).length_le

theorem Counts.increase {es : List (K × ℤ)} (h : c.Counts es) {key : K} {v : ℤ}
    (hs : supported key = true) : (c.increase key v).Counts (es ++ [(key, v)]) := by
  intro i hfit
  unfold Fits at hfit
  rw [increase_shards_maxSize, inShard_increase, inShard_concat] at hfit
  rw [inShard_increase, inShard_concat]
  by_cases hi : c.getShard key = i
  · subst hi
    rw [if_pos rfl] at hfit ⊢
    have hsub : (c.inShard (c.getShard key) es).map Prod.fst ⊆
        (c.inShard (c.getShard key) es ++ [(key, v)]).map Prod.fst := by
      rw [List.map_append]
      exact List.subset_append_left _ _
    have hfit' : c.Fits (c.getShard key) es := Nat.le_trans (dedup_length_le_of_subset hsub) hfit
    rw [ScalableCache.increase, modifyShard_shards, if_pos rfl]
    exact (h _ hfit').increase hs hfit
  · rw [if_neg hi, List.append_nil] at hfit ⊢
    rw [ScalableCache.increase, modifyShard_shards, if_neg (Ne.symm hi)]
    exact h i hfit

/-- The counter of a key is its total, wrapped, when the keys of its shard fit. -/
theorem Counts.count {es : List (K × ℤ)} (h : c.Counts es) (key : K)
    (hfit : c.Fits (c.getShard key) es) :
    c.count key = toInt32 ((es.filter fun x => x.1 = key).map Prod.snd).sum := by
  rw [ScalableCache.count, (h _ hfit).count, inShard, List.filter_filter]
  congr 3
  refine List.filter_congr fun x _ => ?_
  by_cases hx : x.1 = key <;> simp [hx]

end ScalableCache

end SentinelCpp.Param
