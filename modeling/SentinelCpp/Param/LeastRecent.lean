import SentinelCpp.Lib.LruMap
import SentinelCpp.Param.CacheRuns

/-!
# The cache as a bounded map

With keys of the supported types the cache is a map that keeps the most recently used keys: `LruMap`
under the same calls returns the same, and its keys and values are those of the cache.  A key is used by
a call that inserts, increases or finds it; an insertion that is refused is not a use.
-/

namespace SentinelCpp.Param

open Lib HashCompare

variable {K : Type} [DecidableEq K] [HashCompare K] {capacity : ℕ}

/-! ### What the cache is for -/

/-- A call of the bounded map, whose values are of type `int32_t`. -/
def lruCall (m : LruMap K ℤ capacity) : CacheCall K → LruMap K ℤ capacity × CacheResult
  | .insert key value =>
    match m.lookup key with
    | none => (m.put key (toInt32 value), .inserted true)
    | some _ => (m, .inserted false)
  | .increase key value =>
    match m.lookup key with
    | none => (m.put key (toInt32 value), .increased false)
    | some old => (m.put key (toInt32 (old + value)), .increased true)
  | .find key =>
    match m.lookup key with
    | none => (m, .found none)
    | some value => (m.put key value, .found (some value))
  | .clear => (LruMap.empty, .cleared)

section Calls

variable {m : LruMap K ℤ capacity} {key : K}

omit [HashCompare K] in
theorem lruCall_insert_new (h : m.lookup key = none) (value : ℤ) :
    lruCall m (.insert key value) = (m.put key (toInt32 value), .inserted true) := by
  rw [lruCall, h]

omit [HashCompare K] in
theorem lruCall_insert_old {old : ℤ} (h : m.lookup key = some old) (value : ℤ) :
    lruCall m (.insert key value) = (m, .inserted false) := by
  rw [lruCall, h]

omit [HashCompare K] in
theorem lruCall_increase_new (h : m.lookup key = none) (value : ℤ) :
    lruCall m (.increase key value) = (m.put key (toInt32 value), .increased false) := by
  rw [lruCall, h]

omit [HashCompare K] in
theorem lruCall_increase_old {old : ℤ} (h : m.lookup key = some old) (value : ℤ) :
    lruCall m (.increase key value) = (m.put key (toInt32 (old + value)), .increased true) := by
  rw [lruCall, h]

omit [HashCompare K] in
theorem lruCall_find_none (h : m.lookup key = none) : lruCall m (.find key) = (m, .found none) := by
  rw [lruCall, h]

omit [HashCompare K] in
theorem lruCall_find_some {value : ℤ} (h : m.lookup key = some value) :
    lruCall m (.find key) = (m.put key value, .found (some value)) := by
  rw [lruCall, h]

end Calls

def lruStep (m : LruMap K ℤ capacity) (a : CacheCall K) :
    Option (LruMap K ℤ capacity × CacheResult) := some (lruCall m a)

/-- The key that a call uses, by what it returned. -/
def used : CacheCall K × CacheResult → Option K
  | (.insert key _, .inserted true) => some key
  | (.increase key _, _) => some key
  | (.find key, .found (some _)) => some key
  | _ => none

/-- The uses since the last `clear`. -/
def uses (tr : List (CacheCall K × CacheResult)) : List K :=
  tr.foldl (fun l a => if a.1 = .clear then [] else l ++ (used a).toList) []

/-! ### Caches of supported keys -/

namespace LRUCache

/-- All keys of the hash map are of the supported types. -/
def AllSupported (c : LRUCache K) : Prop := ∀ k ∈ c.mapKeys, supported k = true

section Supported

variable {c : LRUCache K} {key k : K} {value : ℤ}

omit [DecidableEq K] in
theorem list_supported (h : Linked c) (hs : c.AllSupported) : ∀ k ∈ c.list, supported k = true := by
  have hkeys : c.mapKeys.filter supported = c.mapKeys := List.filter_eq_self.mpr hs
  have hlength := h.perm.length_eq
  rw [hkeys, mapKeys, List.length_map] at hlength
  have hle := List.length_filter_le supported c.list
  have hall : (c.list.filter supported).length = c.list.length := Nat.le_antisymm hle (hlength ▸ h.le)
  exact List.length_filter_eq_length_iff.mp hall

omit [DecidableEq K] in
/-- **The list has every key of the hash map once**, and no other. -/
theorem list_perm (h : Linked c) (hs : c.AllSupported) : c.list.Nodup ∧ c.list.Perm c.mapKeys := by
  have hlist := List.filter_eq_self.mpr (list_supported h hs)
  have hkeys : c.mapKeys.filter supported = c.mapKeys := List.filter_eq_self.mpr hs
  have hnodup := h.nodup
  have hperm := h.perm
  rw [hlist] at hnodup hperm
  rw [hkeys] at hperm
  exact ⟨hnodup, hperm⟩

omit [DecidableEq K] in
theorem lookup_eq_none_iff_list (h : Linked c) (hs : c.AllSupported) :
    c.lookup k = none ↔ k ∉ c.list := by
  rw [lookup_eq_none_iff, (list_perm h hs).2.mem_iff]
  exact ⟨fun hno hk => hno (hs k hk) hk, fun hno _ => hno⟩

omit [DecidableEq K] in
theorem mem_mapKeys_insert (h : Linked c) (hnew : c.lookup key = none)
    (hk : k ∈ (c.insert key value).mapKeys) : k = key ∨ k ∈ c.mapKeys := by
  have hconcat : ∀ m : List (K × ℤ), k ∈ (m ++ [(key, toInt32 value)]).map Prod.fst →
      k = key ∨ k ∈ m.map Prod.fst := by
    intro m hm
    rw [List.map_append, List.mem_append, List.map_singleton, List.mem_singleton] at hm
    exact hm.symm
  rcases Nat.lt_or_eq_of_le h.size_le with hlt | heq
  · rw [insert_of_lt hlt] at hk
    exact hconcat _ hk
  · rcases List.eq_nil_or_concat c.list with hl | ⟨l, x, hl⟩
    · rw [insert_of_nil heq hl] at hk
      exact hconcat _ hk
    · rw [List.concat_eq_append] at hl
      rw [insert_of_concat heq hl (h.insert_of_concat hnew value heq hl).1] at hk
      refine (hconcat _ hk).imp_right fun hmem => ?_
      rw [Linked.mapKeys_filter] at hmem
      exact (List.mem_filter.mp hmem).1

/-- A new key goes to the front, and the last one is taken off when there is no room. -/
theorem list_insert (h : Linked c) (hs : c.AllSupported) (hpos : 0 < c.maxSize)
    (hnew : c.lookup key = none) :
    (c.insert key value).list = (key :: c.list.erase key).take c.maxSize := by
  have hnotin := (lookup_eq_none_iff_list h hs).mp hnew
  have hsize := h.size
  rw [if_neg (by omega)] at hsize
  rw [List.erase_of_not_mem hnotin]
  rcases Nat.lt_or_eq_of_le h.size_le with hlt | heq
  · rw [insert_of_lt hlt]
    exact (List.take_of_length_le (by rw [List.length_cons]; omega)).symm
  · rcases List.eq_nil_or_concat c.list with hl | ⟨l, x, hl⟩
    · rw [hl, List.length_nil] at hsize
      omega
    · rw [List.concat_eq_append] at hl
      have hmax : c.maxSize = l.length + 1 := by
        rw [← heq, hsize, hl, List.length_append, List.length_singleton]
      rw [insert_of_concat heq hl (h.insert_of_concat hnew value heq hl).1, hl, hmax,
        List.take_succ_cons, List.take_left]

/-- A key that is found goes to the front. -/
theorem list_touch (h : Linked c) (hpos : 0 < c.maxSize) (hmem : key ∈ c.list) :
    (c.touch key).list = (key :: c.list.erase key).take c.maxSize := by
  have hlength : (key :: c.list.erase key).length = c.list.length :=
    (List.perm_cons_erase hmem).symm.length_eq
  have hbound := h.bound
  rw [touch, if_pos hmem, List.take_of_length_le (by omega)]

end Supported

/-! ### The cache represents the map -/

/-- The cache has the keys of the map in its list, in the same order, and their values in its hash map. -/
structure Represents (c : LRUCache K) (m : LruMap K ℤ capacity) : Prop where
  linked : Linked c
  allSupported : c.AllSupported
  maxSize : c.maxSize = capacity
  list : c.list = m.keys
  lookup : ∀ k, c.lookup k = m.lookup k

namespace Represents

variable {c c' : LRUCache K} {m : LruMap K ℤ capacity} {key : K} {value : ℤ}

theorem start (capacity : ℕ) :
    Represents (LRUCache.mk' capacity : LRUCache K) (LruMap.empty : LruMap K ℤ capacity) where
  linked := Linked.mk' capacity
  allSupported := fun _ hk => absurd hk List.not_mem_nil
  maxSize := rfl
  list := rfl
  lookup := fun _ => rfl

theorem clear (h : Represents c m) : Represents c.clear (LruMap.empty : LruMap K ℤ capacity) where
  linked := Linked.clear c
  allSupported := fun _ hk => absurd hk List.not_mem_nil
  maxSize := h.maxSize
  list := rfl
  lookup := fun _ => rfl

/-- A key that gets a value and goes to the front. -/
theorem put (h : Represents c m) (hpos : 0 < capacity) (hlinked : Linked c')
    (hsupported : c'.AllSupported) (hmax : c'.maxSize = c.maxSize)
    (hlist : c'.list = (key :: c.list.erase key).take c.maxSize)
    (hself : c'.lookup key = some value)
    (hother : ∀ k, k ≠ key → c'.lookup k = c.lookup k ∨ c'.lookup k = none) :
    Represents c' (m.put key value) where
  linked := hlinked
  allSupported := hsupported
  maxSize := hmax.trans h.maxSize
  list := by rw [hlist, LruMap.keys_put, h.list, h.maxSize]
  lookup := fun k => by
    have hkeys : c'.list = (m.put key value).keys := by
      rw [hlist, LruMap.keys_put, h.list, h.maxSize]
    rw [LruMap.lookup_put value hpos]
    split_ifs with hk hmem
    · rw [hk]
      exact hself
    · rcases hother k hk with hsame | hnone
      · rw [hsame, h.lookup]
      · rw [← hkeys] at hmem
        exact absurd hmem ((lookup_eq_none_iff_list hlinked hsupported).mp hnone)
    · rw [← hkeys] at hmem
      exact (lookup_eq_none_iff_list hlinked hsupported).mpr hmem

/-- **An insertion** of a new key. -/
theorem insert (h : Represents c m) (hpos : 0 < capacity) (hkey : supported key = true)
    (hnew : c.lookup key = none) :
    Represents (c.insert key value) (m.put key (toInt32 value)) := by
  refine h.put hpos (h.linked.insert hnew) (fun k hk => ?_) (insert_maxSize c key value)
    (list_insert h.linked h.allSupported (h.maxSize ▸ hpos) hnew)
    ((insert_lookup c key key hnew).1 hkey) fun k hk => (insert_lookup c k key hnew).2 hk
  rcases mem_mapKeys_insert h.linked hnew hk with rfl | hk
  · exact hkey
  · exact h.allSupported k hk

/-- A key that is found is in the list. -/
theorem mem_list (h : Represents c m) {old : ℤ} (hfound : c.lookup key = some old) :
    key ∈ c.list := by
  by_contra hno
  rw [(lookup_eq_none_iff_list h.linked h.allSupported).mpr hno] at hfound
  exact absurd hfound.symm (Option.some_ne_none old)

/-- **A lookup** of a key that is there. -/
theorem find (h : Represents c m) (hpos : 0 < capacity) (hfound : c.lookup key = some value) :
    Represents (c.find key).1 (m.put key value) := by
  have hfind : (c.find key).1 = c.touch key := by rw [LRUCache.find, hfound]
  have hkeys : (c.touch key).mapKeys = c.mapKeys := by rw [mapKeys, touch_map, mapKeys]
  rw [hfind]
  refine h.put hpos (h.linked.touch key) (fun k hk => h.allSupported k (hkeys ▸ hk)) (by simp)
    (list_touch h.linked (h.maxSize ▸ hpos) (h.mem_list hfound)) ?_ fun k _ => .inl ?_
  · rw [lookup_congr (touch_map c key), hfound]
  · exact lookup_congr (touch_map c key) k

/-- **An addition** to a key that is there. -/
theorem increase (h : Represents c m) (hpos : 0 < capacity) {old : ℤ}
    (hfound : c.lookup key = some old) :
    Represents (c.increase key value) (m.put key (toInt32 (old + value))) := by
  have hkeys := mapKeys_increase hfound value
  have hlinked := h.linked.increase key value
  have hsupported : (c.increase key value).AllSupported :=
    fun k hk => h.allSupported k (hkeys ▸ hk)
  have hmem := h.mem_list hfound
  have hlist : (c.increase key value).list = (c.touch key).list := by
    rw [LRUCache.increase, hfound]
    unfold touch
    split_ifs <;> rfl
  have hkey : supported key = true := list_supported h.linked h.allSupported key hmem
  have hself : (c.increase key value).lookup key = some (toInt32 (old + value)) := by
    have hcount := c.increase_count_self key hkey (v := value)
    cases hnew : (c.increase key value).lookup key with
    | none =>
      -- the key is still in the list
      rw [lookup_eq_none_iff_list hlinked hsupported, (list_perm hlinked hsupported).2.mem_iff, hkeys,
        ← (list_perm h.linked h.allSupported).2.mem_iff] at hnew
      exact absurd hmem hnew
    | some w =>
      rw [count, count, hnew, hfound, Option.getD_some, Option.getD_some] at hcount
      rw [hcount]
  refine h.put hpos hlinked hsupported (increase_maxSize c key value) ?_ hself fun k hk => ?_
  · rw [hlist]
    exact list_touch h.linked (h.maxSize ▸ hpos) hmem
  · rcases increase_lookup_of_ne c k key hk (v := value) with hsame | ⟨-, hnone⟩
    · exact .inl hsame
    · rw [hnone] at hfound
      exact absurd hfound.symm (Option.some_ne_none old)

end Represents

/-! ### Runs -/

/-- The keys of the calls are of the supported types. -/
def Keyed (tr : List (CacheCall K × CacheResult)) : Prop :=
  ∀ a ∈ tr, ∀ k ∈ a.1.key?, supported k = true

section Runs

variable {c c' : LRUCache K} {m m' : LruMap K ℤ capacity} {a : CacheCall K × CacheResult}
  {tr : List (CacheCall K × CacheResult)}

/-- **One call** of the cache is the same call of the map. -/
theorem Represents.call (h : Represents c m) (hpos : 0 < capacity) (call : CacheCall K)
    (hkey : ∀ k ∈ call.key?, supported k = true) :
    (c.call call).2 = (lruCall m call).2 ∧ Represents (c.call call).1 (lruCall m call).1 := by
  cases call with
  | insert key value =>
    cases hfound : c.lookup key with
    | none =>
      have hc : c.tryInsert key value = (c.insert key value, true) := by rw [tryInsert, hfound]
      rw [lruCall_insert_new (h.lookup key ▸ hfound), LRUCache.call, hc]
      exact ⟨rfl, h.insert hpos (hkey key rfl) hfound⟩
    | some old =>
      have hc : c.tryInsert key value = (c, false) := by rw [tryInsert, hfound]
      rw [lruCall_insert_old (h.lookup key ▸ hfound), LRUCache.call, hc]
      exact ⟨rfl, h⟩
  | increase key value =>
    cases hfound : c.lookup key with
    | none =>
      have hc : c.increase key value = c.insert key value := by rw [LRUCache.increase, hfound]
      rw [lruCall_increase_new (h.lookup key ▸ hfound), LRUCache.call, hfound, hc]
      exact ⟨rfl, h.insert hpos (hkey key rfl) hfound⟩
    | some old =>
      rw [lruCall_increase_old (h.lookup key ▸ hfound), LRUCache.call, hfound]
      exact ⟨rfl, h.increase hpos hfound⟩
  | find key =>
    cases hfound : c.lookup key with
    | none =>
      have hc : c.find key = (c, none) := by rw [LRUCache.find, hfound]
      rw [lruCall_find_none (h.lookup key ▸ hfound), LRUCache.call, hc]
      exact ⟨rfl, h⟩
    | some value =>
      rw [lruCall_find_some (h.lookup key ▸ hfound), LRUCache.call, find_snd, hfound]
      exact ⟨rfl, h.find hpos hfound⟩
  | clear => exact ⟨rfl, h.clear⟩

/-- **Every run** of the cache is a run of the map. -/
theorem exists_run (hpos : 0 < capacity) (hrun : Run Steps (LRUCache.mk' capacity) tr c)
    (hkeyed : Keyed tr) : ∃ m : LruMap K ℤ capacity,
      Run (StepOf lruStep) LruMap.empty tr m ∧ Represents c m := by
  induction hrun with
  | nil => exact ⟨LruMap.empty, .nil, .start capacity⟩
  | @snoc tr s s' a _ hs ih =>
    obtain ⟨m, hm, hrep⟩ := ih fun b hb => hkeyed b (List.mem_append_left _ hb)
    obtain ⟨rfl, hresult⟩ := steps_iff.mp hs
    obtain ⟨heq, hrep'⟩ := hrep.call hpos a.1 (hkeyed a (by simp))
    refine ⟨_, hm.snoc (?_ : StepOf lruStep m a _), hrep'⟩
    unfold StepOf lruStep
    rw [hresult, heq]

end Runs

end LRUCache

/-! ### What the map does -/

section Map

variable {m m' : LruMap K ℤ capacity} {a : CacheCall K × CacheResult}
  {tr : List (CacheCall K × CacheResult)}

omit [HashCompare K] in
theorem lruStep_iff : StepOf lruStep m a m' ↔ m' = (lruCall m a.1).1 ∧ a.2 = (lruCall m a.1).2 := by
  rw [StepOf, lruStep, Option.some.injEq, Prod.ext_iff, eq_comm, and_congr_right_iff]
  exact fun _ => eq_comm

omit [HashCompare K] in
theorem uses_concat : uses (tr ++ [a]) = if a.1 = .clear then [] else uses tr ++ (used a).toList := by
  unfold uses
  rw [List.foldl_append]
  rfl

omit [HashCompare K] in
/-- A call puts the key it uses in front, and no other key. -/
theorem keys_lruCall (hs : StepOf lruStep m a m') : m'.keys =
    if a.1 = .clear then [] else
      match used a with
      | none => m.keys
      | some k => (k :: m.keys.erase k).take capacity := by
  obtain ⟨call, result⟩ := a
  obtain ⟨rfl, hresult⟩ := lruStep_iff.mp hs
  dsimp only at hresult
  subst hresult
  cases call with
  | insert key value =>
    cases hfound : m.lookup key with
    | none =>
      rw [lruCall_insert_new hfound]
      exact m.keys_put key (toInt32 value)
    | some old =>
      rw [lruCall_insert_old hfound]
      rfl
  | increase key value =>
    cases hfound : m.lookup key with
    | none =>
      rw [lruCall_increase_new hfound]
      exact m.keys_put key (toInt32 value)
    | some old =>
      rw [lruCall_increase_old hfound]
      exact m.keys_put key (toInt32 (old + value))
  | find key =>
    cases hfound : m.lookup key with
    | none =>
      rw [lruCall_find_none hfound]
      rfl
    | some value =>
      rw [lruCall_find_some hfound]
      exact m.keys_put key value
  | clear => rfl

omit [HashCompare K] in
/-- **The keys of the map** are the ones used last. -/
theorem keys_of_run (hrun : Run (StepOf lruStep) (LruMap.empty : LruMap K ℤ capacity) tr m) :
    m.keys = (recency (uses tr)).take capacity := by
  induction hrun with
  | nil => exact (List.take_nil).symm
  | snoc _ hs ih =>
    rw [keys_lruCall hs, uses_concat]
    split_ifs with hclear
    · exact (List.take_nil).symm
    · cases used _ with
      | none => rw [ih, Option.toList_none, List.append_nil]
      | some k => rw [ih, Option.toList_some, take_recency_concat]

end Map

/-! ### What the cache does -/

namespace LRUCache

/-- The list holds every key of the hash map once, in the order of the last uses, and the counter is their
number. -/
structure KeepsRecent (capacity : ℕ) (uses : List K) (c : LRUCache K) : Prop where
  nodup : c.list.Nodup
  keys : c.list.Perm c.mapKeys
  order : c.list.Pairwise (UsedAfter uses)
  recent : c.list = (recency uses).take capacity
  size : c.mapKeys.length = c.size
  size_le : c.size ≤ capacity

/-- What a call changes. -/
structure Effect (c : LRUCache K) (call : CacheCall K) (c' : LRUCache K) : Prop where
  /-- `increase` adds to the value of a key, as an `int32_t`, or stores the value given; -/
  increased : ∀ key value, call = .increase key value →
    c'.lookup key = some (toInt32 (((c.lookup key).map fun old => old + value).getD value))
  /-- `insert` stores the value of a key that is not there. -/
  inserted : ∀ key value, call = .insert key value →
    c'.lookup key = some ((c.lookup key).getD (toInt32 value))
  /-- The other keys keep their values or are dropped, -/
  kept : ∀ k, call.adds ≠ some k → c'.lookup k = c.lookup k ∨ c'.lookup k = none
  /-- all by `clear`, and the least recently used one when a new key comes at capacity. -/
  dropped : ∀ k, c.lookup k ≠ none → c'.lookup k = none → call = .clear ∨
    ((∃ key ∈ call.adds, c.lookup key = none) ∧ c.size = c.maxSize ∧ c.list.getLast? = some k)

section Effect

variable {c c' : LRUCache K} {m : LruMap K ℤ capacity} {key : K} {value : ℤ}

theorem Represents.size (h : Represents c m) (hpos : 0 < capacity) : c.size = m.entries.length := by
  have hsize := h.linked.size
  rw [h.maxSize, if_neg (by omega), h.list, m.length_keys] at hsize
  exact hsize

/-- A new key is put into the map. -/
theorem Represents.lookup_new (h : Represents c m) (hpos : 0 < capacity)
    (h' : Represents c' (m.put key value)) {k : K} (hk : k ≠ key) : c'.lookup k = c.lookup k ∨
      (c'.lookup k = none ∧ c.size = c.maxSize ∧ c.list.getLast? = some k) := by
  rw [h'.lookup, h.lookup]
  rcases LruMap.lookup_put_of_ne (m := m) value hk with hsame | ⟨hnone, -, hfull, hlast⟩
  · exact .inl hsame
  · rw [h.size hpos, h.maxSize, h.list]
    exact .inr ⟨hnone, hfull, hlast⟩

/-- A key that is there is put into the map. -/
theorem Represents.lookup_old (h : Represents c m) (hfound : c.lookup key ≠ none)
    (h' : Represents c' (m.put key value)) {k : K} (hk : k ≠ key) : c'.lookup k = c.lookup k := by
  rw [h'.lookup, h.lookup]
  rcases LruMap.lookup_put_of_ne (m := m) value hk with hsame | ⟨-, hnone, -⟩
  · exact hsame
  · rw [h.lookup] at hfound
    exact absurd hnone hfound

/-- A call with a new key. -/
theorem Represents.effect_new (h : Represents c m) (hpos : 0 < capacity) (hnew : c.lookup key = none)
    (h' : Represents c' (m.put key (toInt32 value))) {call : CacheCall K}
    (hcall : call = .insert key value ∨ call = .increase key value) : Effect c call c' := by
  have hself : c'.lookup key = some (toInt32 value) :=
    (h'.lookup key).trans (LruMap.lookup_put_self (toInt32 value) hpos)
  have hadds : call.adds = some key := by rcases hcall with rfl | rfl <;> rfl
  refine ⟨fun key' value' heq => ?_, fun key' value' heq => ?_, fun k hk => ?_, fun k hk hnone => .inr ?_⟩
  · rcases hcall with rfl | rfl
    · cases heq
    · cases heq
      rw [hself, hnew]
      rfl
  · rcases hcall with rfl | rfl
    · cases heq
      rw [hself, hnew]
      rfl
    · cases heq
  · have hne : k ≠ key := by
      rintro rfl
      exact hk hadds
    exact (h.lookup_new hpos h' hne).imp_right And.left
  · have hne : k ≠ key := by
      rintro rfl
      exact hk hnew
    rcases h.lookup_new hpos h' hne with hsame | ⟨-, hfull⟩
    · exact absurd (hsame.symm.trans hnone) hk
    · exact ⟨⟨key, hadds, hnew⟩, hfull⟩

omit [DecidableEq K] in
/-- A call that drops nothing. -/
theorem Effect.of_kept {call : CacheCall K} (hlost : ∀ k, c.lookup k ≠ none → c'.lookup k ≠ none)
    (hincrease : ∀ key value, call = .increase key value →
      c'.lookup key = some (toInt32 (((c.lookup key).map fun old => old + value).getD value)))
    (hinsert : ∀ key value, call = .insert key value →
      c'.lookup key = some ((c.lookup key).getD (toInt32 value)))
    (hkept : ∀ k, call.adds ≠ some k → c'.lookup k = c.lookup k) : Effect c call c' where
  increased := hincrease
  inserted := hinsert
  kept := fun k hk => .inl (hkept k hk)
  dropped := fun k hk hnone => absurd hnone (hlost k hk)

/-- **The effect of a call.** -/
theorem Represents.effect (h : Represents c m) (hpos : 0 < capacity) (call : CacheCall K)
    (hkey : ∀ k ∈ call.key?, supported k = true) : Effect c call (c.call call).1 := by
  obtain ⟨-, h'⟩ := h.call hpos call hkey
  cases call with
  | insert key value =>
    cases hfound : c.lookup key with
    | none =>
      rw [lruCall_insert_new (h.lookup key ▸ hfound)] at h'
      exact h.effect_new hpos hfound h' (.inl rfl)
    | some old =>
      rw [lruCall_insert_old (h.lookup key ▸ hfound)] at h'
      have hsame : ∀ k, (c.call (.insert key value)).1.lookup k = c.lookup k :=
        fun k => (h'.lookup k).trans (h.lookup k).symm
      refine .of_kept (fun k hk => by rwa [hsame]) (fun _ _ heq => by cases heq) ?_ fun k _ => hsame k
      intro key' value' heq
      cases heq
      rw [hsame, hfound]
      rfl
  | increase key value =>
    cases hfound : c.lookup key with
    | none =>
      rw [lruCall_increase_new (h.lookup key ▸ hfound)] at h'
      exact h.effect_new hpos hfound h' (.inr rfl)
    | some old =>
      rw [lruCall_increase_old (h.lookup key ▸ hfound)] at h'
      have hself := (h'.lookup key).trans (LruMap.lookup_put_self (toInt32 (old + value)) hpos)
      have hother : ∀ k, k ≠ key → _ := fun k => h.lookup_old (by rw [hfound]; exact Option.some_ne_none old) h'
      refine .of_kept (fun k hk => ?_) ?_ (fun _ _ heq => by cases heq) fun k hk => ?_
      · by_cases hkey' : k = key
        · rw [hkey', hself]
          exact Option.some_ne_none _
        · rwa [hother k hkey']
      · intro key' value' heq
        cases heq
        rw [hself, hfound]
        rfl
      · refine hother k ?_
        rintro rfl
        exact hk rfl
  | find key =>
    have hsame : ∀ k, (c.call (.find key)).1.lookup k = c.lookup k := fun k => find_lookup c k key
    refine .of_kept (fun k hk => by rwa [hsame]) ?_ ?_ fun k _ => hsame k
    · intro _ _ heq
      cases heq
    · intro _ _ heq
      cases heq
  | clear =>
    refine ⟨?_, ?_, fun k _ => .inr rfl, fun _ _ _ => .inl rfl⟩
    · intro _ _ heq
      cases heq
    · intro _ _ heq
      cases heq

end Effect

/-- **The cache refines a bounded map** that drops the least recently used key: every run of calls with
supported keys is a run of the map with the same results, keys and values; the list is in the order of the
last uses; and every call changes what it should. -/
theorem refines_lruMap {c : LRUCache K} {tr : List (CacheCall K × CacheResult)} (hpos : 0 < capacity)
    (hrun : Run Steps (LRUCache.mk' capacity) tr c) (hkeyed : Keyed tr) :
    (∃ m : LruMap K ℤ capacity, Run (StepOf lruStep) LruMap.empty tr m ∧ c.list = m.keys ∧
      ∀ k, c.lookup k = m.lookup k) ∧
    KeepsRecent capacity (uses tr) c ∧
    ∀ a c', Steps c a c' → (∀ k ∈ a.1.key?, supported k = true) → Effect c a.1 c' := by
  obtain ⟨m, hm, hrep⟩ := exists_run hpos hrun hkeyed
  have hkeys := keys_of_run hm
  obtain ⟨hnodup, hperm⟩ := list_perm hrep.linked hrep.allSupported
  refine ⟨⟨m, hm, hrep.list, hrep.lookup⟩, ⟨hnodup, hperm, ?_, hrep.list.trans hkeys, ?_, ?_⟩, ?_⟩
  · rw [hrep.list, hkeys]
    exact (pairwise_recency _).sublist (List.take_sublist _ _)
  · rw [hrep.size hpos, ← hperm.length_eq, hrep.list, m.length_keys]
  · rw [hrep.size hpos]
    exact m.length_le
  · intro a c' hs hkey
    obtain ⟨rfl, -⟩ := steps_iff.mp hs
    exact hrep.effect hpos a.1 hkey

/-- The third string takes the place of the first. -/
theorem refines_lruMap_example : ∃ c : LRUCache AnyVal,
    (∃ m : LruMap AnyVal ℤ 2, Run (StepOf lruStep) LruMap.empty
        [(.insert (.str "a") 1, .inserted true), (.increase (.str "b") 1, .increased false),
          (.insert (.str "c") 1, .inserted true)] m ∧ c.list = m.keys ∧
      ∀ k, c.lookup k = m.lookup k) ∧
    KeepsRecent 2 (uses [(.insert (.str "a") 1, .inserted true),
      (.increase (.str "b") 1, .increased false), (.insert (.str "c") 1, .inserted true)]) c ∧
    ∀ a c', Steps c a c' → (∀ k ∈ a.1.key?, supported k = true) → Effect c a.1 c' := by
  have hexecute : execute step (LRUCache.mk' 2 : LRUCache AnyVal)
      [.insert (.str "a") 1, .increase (.str "b") 1, .insert (.str "c") 1] =
      some ([(.insert (.str "a") 1, .inserted true), (.increase (.str "b") 1, .increased false),
          (.insert (.str "c") 1, .inserted true)],
        ⟨2, 2, [(.str "b", 1), (.str "c", 1)], [.str "c", .str "b"]⟩) := rfl
  refine ⟨_, refines_lruMap (by decide) (run_of_execute hexecute) ?_⟩
  simp [Keyed, CacheCall.key?, supported, AnyVal.supported]

/-- An insertion that is refused leaves the key where it is: the last call was for `"a"`, and `"b"` is in
front.  And an addition beyond the largest `int32_t` wraps. -/
theorem insert_refused_increase_wraps : (∃ c : LRUCache AnyVal, Run Steps (LRUCache.mk' 2)
    [(.insert (.str "a") 1, .inserted true), (.insert (.str "b") 1, .inserted true),
      (.insert (.str "a") 1, .inserted false)] c ∧
    c.list = [.str "b", .str "a"] ∧
    ¬ c.list.Pairwise (UsedAfter ([.insert (.str "a") 1, .insert (.str "b") 1,
      .insert (.str "a") 1].filterMap CacheCall.key?))) ∧
    ∃ c : LRUCache AnyVal, Run Steps (LRUCache.mk' 2)
      [(.increase (.str "a") 2147483647, .increased false), (.increase (.str "a") 1, .increased true),
        (.find (.str "a"), .found (some (-2147483648)))] c := by
  have hexecute : execute step (LRUCache.mk' 2 : LRUCache AnyVal)
      [.insert (.str "a") 1, .insert (.str "b") 1, .insert (.str "a") 1] =
      some ([(.insert (.str "a") 1, .inserted true), (.insert (.str "b") 1, .inserted true),
          (.insert (.str "a") 1, .inserted false)],
        ⟨2, 2, [(.str "a", 1), (.str "b", 1)], [.str "b", .str "a"]⟩) := rfl
  have hwrap : execute step (LRUCache.mk' 2 : LRUCache AnyVal)
      [.increase (.str "a") 2147483647, .increase (.str "a") 1, .find (.str "a")] =
      some ([(.increase (.str "a") 2147483647, .increased false),
          (.increase (.str "a") 1, .increased true),
          (.find (.str "a"), .found (some (-2147483648)))],
        ⟨2, 1, [(.str "a", -2147483648)], [.str "a"]⟩) := rfl
  refine ⟨⟨_, run_of_execute hexecute, rfl, fun hpairwise => ?_⟩, _, run_of_execute hwrap⟩
  obtain ⟨before, after, heq, hafter⟩ := (List.pairwise_cons.mp hpairwise).1 (.str "a") (by simp)
  -- the last call is for `"a"`
  have hlast := congrArg List.getLast? heq
  rcases List.eq_nil_or_concat after with rfl | ⟨l, x, rfl⟩
  · rw [List.getLast?_concat] at hlast
    exact absurd hlast (by decide)
  · rw [List.concat_eq_append, ← List.cons_append, ← List.append_assoc, List.getLast?_concat] at hlast
    have hx : AnyVal.str "a" = x := Option.some.inj hlast
    exact hafter (by simp [hx])

end LRUCache

end SentinelCpp.Param
