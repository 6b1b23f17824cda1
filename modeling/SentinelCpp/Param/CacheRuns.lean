import SentinelCpp.Lib.Run
import SentinelCpp.Param.Cache

/-!
# Runs of a cache

The list and the hash map of a `ThreadSafeLRUCache` change together as long as the key that is dropped can
be found again: `evict` takes the last key off the list and looks it up in the map.  A key that equals
nothing, not even itself, leaves the list and stays in the map.
-/

namespace SentinelCpp.Param

open Lib HashCompare

variable {K : Type} [HashCompare K]

/-- A call of the cache. -/
inductive CacheCall (K : Type)
  | insert (key : K) (value : ℤ)
  | increase (key : K) (value : ℤ)
  | find (key : K)
  | clear
  deriving DecidableEq

/-- What a call returns. -/
inductive CacheResult
  /-- Whether the key is new. -/
  | inserted (b : Bool)
  /-- Whether the key was there. -/
  | increased (b : Bool)
  | found (value : Option ℤ)
  | cleared
  deriving DecidableEq

/-- The key of the call. -/
def CacheCall.key? : CacheCall K → Option K
  | insert key _ | increase key _ | find key => some key
  | clear => none

/-- The key that the call adds when it is new. -/
def CacheCall.adds : CacheCall K → Option K
  | insert key _ | increase key _ => some key
  | find _ | clear => none

namespace LRUCache

/-! ### The list and the map -/

/-- The keys of the hash map. -/
def mapKeys (c : LRUCache K) : List K := c.map.map Prod.fst

theorem lookup_eq_none_iff {c : LRUCache K} {key : K} :
    c.lookup key = none ↔ (supported key = true → key ∉ c.mapKeys) := by
  unfold lookup mapKeys
  rw [Option.map_eq_none_iff, List.find?_eq_none]
  constructor
  · intro h hs hmem
    obtain ⟨p, hp, rfl⟩ := List.mem_map.mp hmem
    exact h p hp ((equal_iff _ _).mpr ⟨rfl, hs⟩)
  · intro h p hp hequal
    obtain ⟨rfl, hs⟩ := (equal_iff _ _).mp hequal
    exact h hs (List.mem_map_of_mem hp)

theorem mapKeys_fetchAdd (c : LRUCache K) (key : K) (value : ℤ) :
    mapKeys { c with map := c.map.map (fetchAdd key value) } = c.mapKeys := by
  unfold mapKeys
  rw [List.map_map]
  refine List.map_congr_left fun p _ => ?_
  show (fetchAdd key value p).1 = p.1
  unfold fetchAdd
  split <;> rfl

/-- **What links the list and the map**: the supported keys are the same, once each, and the list has as
many elements as the map, unless it is full and the map has lost track of some. -/
structure Linked (c : LRUCache K) : Prop where
  nodup : (c.list.filter supported).Nodup
  perm : (c.list.filter supported).Perm (c.mapKeys.filter supported)
  le : c.list.length ≤ c.map.length
  size : c.size = if c.maxSize = 0 then 0 else c.list.length
  bound : c.list.length ≤ max 1 c.maxSize
  full : c.map.length = c.list.length ∨ c.list.length = max 1 c.maxSize

namespace Linked

variable {c : LRUCache K} {key x : K} {l : List K} {value : ℤ}

theorem mk' (maxSize : ℕ) : Linked (LRUCache.mk' maxSize : LRUCache K) where
  nodup := List.nodup_nil
  perm := List.Perm.refl _
  le := le_rfl
  size := by split <;> rfl
  bound := Nat.zero_le _
  full := .inl rfl

theorem clear (c : LRUCache K) : Linked c.clear where
  nodup := List.nodup_nil
  perm := List.Perm.refl _
  le := le_rfl
  size := by split <;> rfl
  bound := Nat.zero_le _
  full := .inl rfl

theorem mem_list_iff (h : Linked c) (hs : supported key = true) : key ∈ c.list ↔ key ∈ c.mapKeys := by
  have hmem := h.perm.mem_iff (a := key)
  simpa [List.mem_filter, hs] using hmem

theorem size_le (h : Linked c) : c.size ≤ c.maxSize := by
  have hbound := h.bound
  rw [h.size]
  split_ifs <;> omega

/-- A change of the values, and of the order of the list. -/
theorem reorder {c' : LRUCache K} (h : Linked c) (hlist : c'.list.Perm c.list)
    (hmap : c'.mapKeys = c.mapKeys) (hsize : c'.size = c.size) (hmax : c'.maxSize = c.maxSize) :
    Linked c' := by
  have hlength : c'.list.length = c.list.length := hlist.length_eq
  have hmapLength : c'.map.length = c.map.length := by
    have heq := congrArg List.length hmap
    rwa [mapKeys, mapKeys, List.length_map, List.length_map] at heq
  refine ⟨(hlist.filter _).nodup_iff.mpr h.nodup, ?_, ?_, ?_, ?_, ?_⟩
  · rw [hmap]
    exact (hlist.filter _).trans h.perm
  · rw [hlength, hmapLength]
    exact h.le
  · rw [hsize, hmax, hlength]
    exact h.size
  · rw [hlength, hmax]
    exact h.bound
  · rw [hlength, hmapLength, hmax]
    exact h.full

/-- A key that is not found is put in front of the list, where it is new if it is supported. -/
theorem filter_cons_perm (key : K) {list keys : List K} (hnodup : (list.filter supported).Nodup)
    (hperm : (list.filter supported).Perm (keys.filter supported))
    (hnew : supported key = true → key ∉ list) :
    ((key :: list).filter supported).Nodup ∧
      ((key :: list).filter supported).Perm ((keys ++ [key]).filter supported) := by
  rw [List.filter_append]
  by_cases hs : supported key = true
  · rw [List.filter_cons_of_pos hs, List.filter_cons_of_pos hs, List.filter_nil]
    refine ⟨List.nodup_cons.mpr ⟨fun hmem => hnew hs (List.mem_filter.mp hmem).1, hnodup⟩, ?_⟩
    exact (hperm.cons key).trans (List.perm_append_singleton key _).symm
  · rw [List.filter_cons_of_neg hs, List.filter_cons_of_neg hs, List.filter_nil, List.append_nil]
    exact ⟨hnodup, hperm⟩

/-- An insertion while there is room. -/
theorem insert_of_lt (h : Linked c) (hnew : c.lookup key = none) (hsize : c.size < c.maxSize) :
    Linked (c.insert key value) := by
  have hnotin : supported key = true → key ∉ c.list := by
    intro hs hmem
    exact lookup_eq_none_iff.mp hnew hs ((h.mem_list_iff hs).mp hmem)
  obtain ⟨hnodup, hperm⟩ := filter_cons_perm key h.nodup h.perm hnotin
  rw [LRUCache.insert_of_lt hsize]
  have hsize' := h.size
  rw [if_neg (by omega)] at hsize'
  refine ⟨hnodup, ?_, ?_, ?_, ?_, ?_⟩
  · unfold mapKeys
    rw [List.map_append]
    exact hperm
  · have hle := h.le
    simp only [List.length_cons, List.length_append]
    omega
  · dsimp only
    rw [if_neg (by omega), hsize', List.length_cons]
  · simp only [List.length_cons]
    omega
  · have hfull := h.full
    simp only [List.length_cons, List.length_append, List.length_nil]
    omega

/-- An insertion at capacity 0 into an empty list. -/
theorem insert_of_nil (h : Linked c) (key : K) (value : ℤ) (hsize : c.size = c.maxSize)
    (hl : c.list = []) : Linked (c.insert key value) ∧ c.maxSize = 0 ∧
      (c.insert key value).map.length = c.map.length + 1 := by
  have hzero : c.maxSize = 0 := by
    have hsize' := h.size
    rw [hl, List.length_nil] at hsize'
    split_ifs at hsize' with h0
    · exact h0
    · omega
  have hlist := h.perm
  rw [hl, List.filter_nil] at hlist
  obtain ⟨hnodup, hperm⟩ := filter_cons_perm key (List.Pairwise.filter _ List.nodup_nil) hlist
    fun _ => List.not_mem_nil
  rw [LRUCache.insert_of_nil hsize hl]
  refine ⟨⟨hnodup, ?_, ?_, ?_, ?_, ?_⟩, hzero, ?_⟩
  · unfold mapKeys
    rw [List.map_append]
    exact hperm
  · simp only [List.length_cons, List.length_nil, List.length_append]
    omega
  · dsimp only
    rw [if_pos hzero, hsize, hzero]
  · simp only [List.length_cons, List.length_nil]
    omega
  · right
    simp only [List.length_cons, List.length_nil]
    omega
  · simp only [List.length_cons, List.length_nil, List.length_append]

/-! The last key is taken off. -/

section Last

theorem mapKeys_filter (c : LRUCache K) (x : K) :
    (c.map.filter fun p => !equal p.1 x).map Prod.fst = c.mapKeys.filter fun k => !equal k x := by
  rw [mapKeys, List.filter_map]
  rfl

theorem equal_eq_false {k x : K} (h : supported k = true → k ≠ x) : equal k x = false := by
  rw [Bool.eq_false_iff]
  intro hequal
  obtain ⟨hk, hs⟩ := (equal_iff _ _).mp hequal
  exact h hs hk

/-- The supported keys without the last one. -/
theorem last_perm (h : Linked c) (hl : c.list = l ++ [x]) :
    (l.filter supported).Nodup ∧ (l.filter supported).Perm
      ((c.mapKeys.filter fun k => !equal k x).filter supported) := by
  have hnodup := h.nodup
  have hperm := h.perm
  rw [hl, List.filter_append] at hnodup hperm
  have hleft : (l.filter supported).filter (fun k => !equal k x) = l.filter supported := by
    refine List.filter_eq_self.mpr fun k hk => ?_
    rw [equal_eq_false fun hs => ?_, Bool.not_false]
    rintro rfl
    -- it would be in the list twice
    exact (List.nodup_append.mp hnodup).2.2 k hk k (by simp [hs]) rfl
  have hright : ([x].filter supported).filter (fun k => !equal k x) = [] := by
    refine List.filter_eq_nil_iff.mpr fun k hk => ?_
    obtain ⟨hk, hs⟩ := List.mem_filter.mp hk
    rw [(equal_iff k x).mpr ⟨List.mem_singleton.mp hk, hs⟩]
    exact Bool.false_ne_true
  have hfilter := hperm.filter fun k => !equal k x
  rw [List.filter_append, hleft, hright, List.append_nil, List.filter_comm] at hfilter
  exact ⟨(List.nodup_append.mp hnodup).1, hfilter⟩

/-- The map loses one element if the last key is supported, and none otherwise. -/
theorem last_length (h : Linked c) (hl : c.list = l ++ [x]) :
    (c.map.filter fun p => !equal p.1 x).length + (if supported x = true then 1 else 0) =
      c.map.length := by
  classical
  have hkeys : (c.map.filter fun p => !equal p.1 x).length =
      c.mapKeys.countP fun k => !equal k x := by
    rw [List.countP_eq_length_filter, ← mapKeys_filter, List.length_map]
  have hlength : c.map.length = c.mapKeys.length := (List.length_map _).symm
  have hone : c.mapKeys.countP (fun k => equal k x) = if supported x = true then 1 else 0 := by
    split_ifs with hs
    · have hmem : x ∈ c.mapKeys.filter supported := by
        rw [← h.perm.mem_iff, hl, List.mem_filter]
        exact ⟨by simp, hs⟩
      rw [← List.count_eq_one_of_mem (h.perm.nodup_iff.mp h.nodup) hmem, List.count, List.countP_filter]
      refine List.countP_congr fun k _ => ?_
      rw [equal_iff, Bool.and_eq_true, beq_iff_eq]
    · refine List.countP_eq_zero.mpr fun k _ hequal => ?_
      obtain ⟨rfl, hs'⟩ := (equal_iff _ _).mp hequal
      exact hs hs'
  rw [hkeys, hlength, List.length_eq_countP_add_countP (fun k => equal k x), hone, Nat.add_comm]
  congr 1
  refine List.countP_congr fun k _ => ?_
  simp

end Last

/-- An insertion at capacity: the last key makes room in the list, and in the map if it is supported. -/
theorem insert_of_concat (h : Linked c) (hnew : c.lookup key = none) (value : ℤ)
    (hsize : c.size = c.maxSize) (hl : c.list = l ++ [x]) : equal x key = false ∧ Linked (c.insert key value) ∧
      (c.insert key value).map.length =
        c.map.length + if supported x = true then 0 else 1 := by
  have hnotin : supported key = true → key ∉ c.list := by
    intro hs hmem
    exact lookup_eq_none_iff.mp hnew hs ((h.mem_list_iff hs).mp hmem)
  have hx : equal x key = false := by
    refine equal_eq_false fun hs heq => ?_
    subst heq
    exact hnotin hs (by simp [hl])
  obtain ⟨hnodup, hperm⟩ := h.last_perm hl
  obtain ⟨hnodup', hperm'⟩ := filter_cons_perm key hnodup hperm fun hs hmem =>
    hnotin hs (by simp [hl, hmem])
  have hlength := h.last_length hl
  have hlist : c.list.length = l.length + 1 := by rw [hl, List.length_append, List.length_singleton]
  have hsize' := h.size
  have hle := h.le
  have hbound := h.bound
  have hfull := h.full
  have hlen : ((c.map.filter fun p => !equal p.1 x) ++ [(key, toInt32 value)]).length =
      c.map.length + if supported x = true then 0 else 1 := by
    rw [List.length_append, List.length_singleton, ← hlength]
    split_ifs <;> omega
  refine ⟨hx, ?_, ?_⟩
  · rw [LRUCache.insert_of_concat hsize hl hx]
    refine ⟨hnodup', ?_, ?_, ?_, ?_, ?_⟩
    · unfold mapKeys
      rw [List.map_append, mapKeys_filter]
      exact hperm'
    · dsimp only
      rw [hlen, List.length_cons]
      omega
    · dsimp only
      rw [List.length_cons, ← hlist]
      exact hsize'
    · dsimp only
      rw [List.length_cons, ← hlist]
      exact hbound
    · right
      dsimp only
      rw [List.length_cons]
      split_ifs at hsize' with h0 <;> omega
  · rw [LRUCache.insert_of_concat hsize hl hx]
    exact hlen

/-- Any insertion of a key that is not found. -/
theorem insert (h : Linked c) (hnew : c.lookup key = none) : Linked (c.insert key value) := by
  rcases Nat.lt_or_eq_of_le h.size_le with hlt | heq
  · exact h.insert_of_lt hnew hlt
  · rcases List.eq_nil_or_concat c.list with hl | ⟨l, x, hl⟩
    · exact (h.insert_of_nil key value heq hl).1
    · rw [List.concat_eq_append] at hl
      exact (h.insert_of_concat hnew value heq hl).2.1

/-- A map within its bound has lost track of no key. -/
theorem length_eq (h : Linked c) (hbound : c.map.length ≤ max 1 c.maxSize) :
    c.map.length = c.list.length := by
  rcases h.full with heq | hfull
  · exact heq
  · exact Nat.le_antisymm (hbound.trans_eq hfull.symm) h.le

end Linked

/-! ### Calls -/

variable [DecidableEq K]

/-- `insert(key, value)`: a key that is in the map is refused. -/
def tryInsert (c : LRUCache K) (key : K) (value : ℤ) : LRUCache K × Bool :=
  match c.lookup key with
  | none => (c.insert key value, true)
  | some _ => (c, false)

def call (c : LRUCache K) : CacheCall K → LRUCache K × CacheResult
  | .insert key value => ((c.tryInsert key value).1, .inserted (c.tryInsert key value).2)
  | .increase key value => (c.increase key value, .increased (c.lookup key).isSome)
  | .find key => ((c.find key).1, .found (c.find key).2)
  | .clear => (c.clear, .cleared)

def step (c : LRUCache K) (a : CacheCall K) : Option (LRUCache K × CacheResult) := some (c.call a)

/-- A sequential run of calls. -/
abbrev Steps : LRUCache K → CacheCall K × CacheResult → LRUCache K → Prop := StepOf step

theorem steps_iff {c c' : LRUCache K} {a : CacheCall K × CacheResult} :
    Steps c a c' ↔ c' = (c.call a.1).1 ∧ a.2 = (c.call a.1).2 := by
  rw [Steps, StepOf, step, Option.some.injEq, Prod.ext_iff, eq_comm, and_congr_right_iff]
  exact fun _ => eq_comm

namespace Linked

variable {c : LRUCache K}

theorem touch (h : Linked c) (key : K) : Linked (c.touch key) := by
  unfold LRUCache.touch
  split_ifs with hmem
  · exact h.reorder (List.perm_cons_erase hmem).symm rfl rfl rfl
  · exact h

theorem increase (h : Linked c) (key : K) (value : ℤ) : Linked (c.increase key value) := by
  unfold LRUCache.increase
  cases hnew : c.lookup key with
  | none => exact h.insert hnew
  | some v =>
    have hmap : Linked { c with map := c.map.map (fetchAdd key value) } :=
      h.reorder (List.Perm.refl _) (mapKeys_fetchAdd c key value) rfl rfl
    exact hmap.touch key

theorem find (h : Linked c) (key : K) : Linked (c.find key).1 := by
  unfold LRUCache.find
  cases c.lookup key with
  | none => exact h
  | some v => exact h.touch key

/-- **One call** keeps the link. -/
theorem step {c' : LRUCache K} {a : CacheCall K × CacheResult} (h : Linked c) (hs : Steps c a c') :
    Linked c' := by
  obtain ⟨rfl, -⟩ := steps_iff.mp hs
  cases a.1 with
  | insert key value =>
    show Linked (c.tryInsert key value).1
    unfold tryInsert
    cases hnew : c.lookup key with
    | none => exact h.insert hnew
    | some v => exact h
  | increase key value => exact h.increase key value
  | find key => exact h.find key
  | clear => exact Linked.clear c

/-- **Every run.** -/
theorem run {maxSize : ℕ} {tr : List (CacheCall K × CacheResult)}
    (hrun : Run Steps (LRUCache.mk' maxSize) tr c) : Linked c := by
  induction hrun with
  | nil => exact mk' maxSize
  | snoc _ hs ih => exact ih.step hs

end Linked

/-! ### The bound of the map -/

/-- The map holds no more elements than the cache is made for. -/
def Bounded (c : LRUCache K) : Prop := c.map.length ≤ max 1 c.maxSize

/-- A call that adds a new key to a full cache finds a key of a supported type to drop. -/
def FindsVictim (c : LRUCache K) (a : CacheCall K × CacheResult) : Prop :=
  ∀ key ∈ a.1.adds, c.lookup key = none → c.maxSize ≤ c.size →
    ∀ x ∈ c.list.getLast?, supported x = true

section Bound

variable {c c' : LRUCache K} {key : K} {value : ℤ} {a : CacheCall K × CacheResult}

omit [DecidableEq K] in
theorem insert_bounded_iff (h : Linked c) (hbounded : c.Bounded) (hnew : c.lookup key = none) :
    (c.insert key value).Bounded ↔
      (c.maxSize ≤ c.size → ∀ x ∈ c.list.getLast?, supported x = true) := by
  have hlength := h.length_eq hbounded
  have hbound := h.bound
  unfold Bounded
  rw [insert_maxSize]
  rcases Nat.lt_or_eq_of_le h.size_le with hlt | heq
  · have hsize := h.size
    rw [if_neg (by omega)] at hsize
    rw [insert_of_lt hlt, List.length_append, List.length_singleton]
    exact ⟨fun _ hfull => absurd hfull (by omega), fun _ => by omega⟩
  · rcases List.eq_nil_or_concat c.list with hl | ⟨l, x, hl⟩
    · obtain ⟨-, hzero, hmap⟩ := h.insert_of_nil key value heq hl
      rw [hmap, hlength, hl, List.length_nil]
      refine ⟨fun _ _ x hx => ?_, fun _ => by omega⟩
      simp at hx
    · rw [List.concat_eq_append] at hl
      obtain ⟨-, hlinked, hmap⟩ := h.insert_of_concat hnew value heq hl
      have hfull : c.list.length = max 1 c.maxSize := by
        have hsize := h.size
        have hpos : 0 < c.list.length := by simp [hl]
        split_ifs at hsize with h0 <;> omega
      rw [hmap, hlength, hfull, hl, List.getLast?_concat]
      constructor
      · intro hle _ y hy
        obtain rfl := Option.some.inj hy
        by_contra hs
        rw [if_neg hs] at hle
        omega
      · intro hsupported
        rw [if_pos (hsupported heq.ge x rfl), Nat.add_zero]

/-- A key that is found gets a new value; the keys stay. -/
theorem mapKeys_increase {v : ℤ} (hfound : c.lookup key = some v) (value : ℤ) :
    (c.increase key value).mapKeys = c.mapKeys := by
  rw [increase, hfound, mapKeys]
  dsimp only
  rw [touch_map]
  exact mapKeys_fetchAdd c key value

/-- **One step**: the bound is kept exactly when there is a key to drop. -/
theorem step_bounded_iff (h : Linked c) (hbounded : c.Bounded) (hs : Steps c a c') :
    c'.Bounded ↔ c.FindsVictim a := by
  obtain ⟨call, result⟩ := a
  obtain ⟨rfl, -⟩ := steps_iff.mp hs
  unfold FindsVictim
  cases call with
  | insert key value =>
    simp only [CacheCall.adds, Option.mem_some_iff, forall_eq']
    show (c.tryInsert key value).1.Bounded ↔ _
    unfold tryInsert
    cases hnew : c.lookup key with
    | none => exact (insert_bounded_iff h hbounded hnew).trans ⟨fun hf _ => hf, fun hf => hf rfl⟩
    | some v => exact ⟨fun _ hnone => absurd hnone (Option.some_ne_none v), fun _ => hbounded⟩
  | increase key value =>
    simp only [CacheCall.adds, Option.mem_some_iff, forall_eq']
    cases hnew : c.lookup key with
    | none =>
      have hcall : (c.call (.increase key value)).1 = c.insert key value := by
        show c.increase key value = _
        rw [increase, hnew]
      rw [hcall]
      exact (insert_bounded_iff h hbounded hnew).trans ⟨fun hf _ => hf, fun hf => hf rfl⟩
    | some v =>
      have hkept : (c.increase key value).Bounded := by
        have hlength := congrArg List.length (mapKeys_increase hnew value)
        unfold Bounded
        rw [increase_maxSize]
        simp only [mapKeys, List.length_map] at hlength
        rw [hlength]
        exact hbounded
      exact ⟨fun _ hnone => absurd hnone (Option.some_ne_none v), fun _ => hkept⟩
  | find key =>
    refine ⟨fun _ key hkey => absurd hkey (Option.not_mem_none key), fun _ => ?_⟩
    show (c.find key).1.map.length ≤ max 1 (c.find key).1.maxSize
    rw [find_map, find_maxSize]
    exact hbounded
  | clear =>
    exact ⟨fun _ key hkey => absurd hkey (Option.not_mem_none key), fun _ => Nat.zero_le _⟩

/-- **The map stays bounded exactly when every call finds a key to drop.** -/
theorem bounded_iff {maxSize : ℕ} {tr : List (CacheCall K × CacheResult)}
    (hrun : Run Steps (LRUCache.mk' maxSize) tr c) :
    Always Steps (LRUCache.mk' maxSize) (fun c => c.map.length ≤ max 1 c.maxSize) tr ↔
      EveryStep Steps (LRUCache.mk' maxSize) FindsVictim tr :=
  always_iff_everyStep stepOf_det (Nat.zero_le _)
    (fun _ _ _ _ _ hr hbounded hs => step_bounded_iff (.run hr) hbounded hs) hrun

end Bound

/-- A cache for one key and two strings: the first one is dropped. -/
theorem bounded_iff_strings :
    Always Steps (LRUCache.mk' 1 : LRUCache AnyVal) (fun c => c.map.length ≤ max 1 c.maxSize)
        [(.increase (.str "a") 1, .increased false), (.increase (.str "b") 1, .increased false)] ↔
      EveryStep Steps (LRUCache.mk' 1 : LRUCache AnyVal) FindsVictim
        [(.increase (.str "a") 1, .increased false), (.increase (.str "b") 1, .increased false)] := by
  obtain ⟨_, -, hrun⟩ := exists_run_of_outputs step (LRUCache.mk' 1 : LRUCache AnyVal)
    [.increase (.str "a") 1, .increase (.str "b") 1] [.increased false, .increased false] rfl
  exact bounded_iff hrun

/-- A cache for one key and the same pointer to characters twice: neither is found again. -/
theorem unbounded_pointers : ∃ c : LRUCache AnyVal, Run Steps (LRUCache.mk' 1)
    [(.increase (.other "PKc") 1, .increased false), (.increase (.other "PKc") 1, .increased false)] c ∧
    c.maxSize = 1 ∧ ¬ c.map.length ≤ max 1 c.maxSize := by
  have hexecute : execute step (LRUCache.mk' 1 : LRUCache AnyVal)
      [.increase (.other "PKc") 1, .increase (.other "PKc") 1] =
      some ([(.increase (.other "PKc") 1, .increased false),
          (.increase (.other "PKc") 1, .increased false)],
        ⟨1, 1, [(.other "PKc", 1), (.other "PKc", 1)], [.other "PKc"]⟩) := rfl
  exact ⟨_, run_of_execute hexecute, rfl, by decide⟩

end LRUCache

end SentinelCpp.Param
