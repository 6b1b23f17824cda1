import Mathlib.Data.List.Sort
import Mathlib.Data.Set.Card
import SentinelCpp.Lib.Ranking
import SentinelCpp.Param.CacheRuns
import SentinelCpp.Param.Metric

/-!
# The top values of a leap array

`GetTopValues` gathers the counters of all live buckets, sorts them and takes the first ones.  The
comparison puts the smallest counter first, and the counters that several buckets have for one value are
not added up.
-/

namespace SentinelCpp.Param

open Lib Stat HashCompare

/-! ### The code -/

/-- `ThreadSafeLRUCache::snapshotPairs`: the pairs put at the end. -/
def LRUCache.snapshotPairs {K : Type} [HashCompare K] (c : LRUCache K) : List (K × ℤ) :=
  -- a key that may have been delinked already is skipped
  c.list.filterMap fun key => (c.lookup key).map fun value => (key, value)

/-- `ThreadSafeScalableCache::snapshotPairs`. -/
def ScalableCache.snapshotPairs {K : Type} [HashCompare K] (c : ScalableCache K) : List (K × ℤ) :=
  (List.range c.numShards).flatMap fun i => (c.shards i).snapshotPairs

/-- `ParamBucket::GetPairSet(e, pairs)`. -/
def ParamBucket.getPairSet (b : ParamBucket) (e : ParamMetricEvent) (pairs : List (AnyVal × ℤ)) :
    List (AnyVal × ℤ) :=
  pairs ++ (b.counters e).snapshotPairs

/-- `std::sort` with `p0.second < p1.second`: the order of equal counts is unspecified. -/
structure StdSort where
  sort : List (AnyVal × ℤ) → List (AnyVal × ℤ)
  perm : ∀ pairs, (sort pairs).Perm pairs
  sorted : ∀ pairs, (sort pairs).Pairwise fun p0 p1 => ¬ p1.2 < p0.2

/-- Insertion sort, one possible sort. -/
def StdSort.insertion : StdSort where
  sort := List.insertionSort fun p0 p1 => p0.2 ≤ p1.2
  perm := List.perm_insertionSort _
  sorted pairs := by
    have htotal : Std.Total fun p0 p1 : AnyVal × ℤ => p0.2 ≤ p1.2 := ⟨fun p0 p1 => le_total p0.2 p1.2⟩
    have htrans : IsTrans (AnyVal × ℤ) fun p0 p1 => p0.2 ≤ p1.2 := ⟨fun _ _ _ => le_trans⟩
    exact (List.pairwise_insertionSort _ pairs).imp not_lt.mpr

namespace ParamLeapArray

/-- `GetTopValues(e, number)`. -/
def getTopValues (std : StdSort) (a : ParamLeapArray) (t : ℕ) (e : ParamMetricEvent) (number : ℤ) :
    ParamLeapArray × List (AnyVal × ℤ) :=
  let a := a.refresh t
  let pairs := (a.values t).foldl (fun pairs bucket => bucket.getPairSet e pairs) []
  let pairs := std.sort pairs
  let size := if toSizeT number < pairs.length then toSizeT number else pairs.length
  (a, pairs.take size)

/-- `GetTopPassValues(number)`. -/
def getTopPassValues (std : StdSort) (a : ParamLeapArray) (t : ℕ) (number : ℤ) :
    ParamLeapArray × List (AnyVal × ℤ) :=
  getTopValues std a t .pass number

/-- The calls that change an array. -/
inductive ArrayCall
  /-- `CurrentWindow()->Value()->Add(e, count, value)`. -/
  | add (e : ParamMetricEvent) (count : ℤ) (value : AnyVal)
  /-- `CurrentWindow()`, then `Get(e, value)` on each of `Values()`. -/
  | get (e : ParamMetricEvent) (value : AnyVal)
  | getTopValues (e : ParamMetricEvent) (number : ℤ)

/-- A call at a time. -/
def call (a : ParamLeapArray) : ℕ × ArrayCall → ParamLeapArray
  | (t, .add e count value) => a.updateCurrent t fun b => b.add e count value
  | (t, .get e value) => (a.refresh t).visitValues t fun b => (b.get e value).1
  | (t, .getTopValues _ _) => a.refresh t

/-- A run of calls. -/
def Calls (a : ParamLeapArray) (c : ℕ × ArrayCall) (a' : ParamLeapArray) : Prop := a' = a.call c

end ParamLeapArray

/-! ### The pairs of a cache -/

section Cache

variable {K : Type} [HashCompare K]

/-- The value of the counter of `key`, if there is one. -/
def ScalableCache.lookup (c : ScalableCache K) (key : K) : Option ℤ :=
  (c.shards (c.getShard key)).lookup key

/-- Each shard is linked and has the keys of its own. -/
structure ScalableCache.Linked (c : ScalableCache K) : Prop where
  numShards_pos : 0 < c.numShards
  shard : ∀ i, (c.shards i).Linked
  getShard : ∀ i, ∀ key ∈ (c.shards i).list, c.getShard key = i

namespace ScalableCache.Linked

variable {c : ScalableCache K}

theorem mk' (hash : K → UInt64) {numShards : ℕ} (hpos : 0 < numShards) (maxSize : ℕ) :
    Linked (ScalableCache.mk' hash numShards maxSize) :=
  ⟨hpos, fun _ => LRUCache.Linked.mk' _, fun _ _ hkey => absurd hkey List.not_mem_nil⟩

theorem clear (h : c.Linked) : Linked c.clear :=
  ⟨h.numShards_pos, fun _ => LRUCache.Linked.clear _, fun _ _ hkey => absurd hkey List.not_mem_nil⟩

/-- A change of the shard of `key` that puts no other key into its list. -/
theorem modifyShard [DecidableEq K] (h : c.Linked) {key : K} {f : LRUCache K → LRUCache K}
    (hf : ∀ s : LRUCache K, s.Linked → (f s).Linked)
    (hlist : ∀ (s : LRUCache K), ∀ k ∈ (f s).list, k = key ∨ k ∈ s.list) :
    Linked (c.modifyShard key f) := by
  refine ⟨h.numShards_pos, fun i => ?_, fun i k hk => ?_⟩
  · rw [modifyShard_shards]
    split_ifs
    · exact hf _ (h.shard i)
    · exact h.shard i
  · show c.getShard k = i
    rw [modifyShard_shards] at hk
    split_ifs at hk with hi
    · rcases hlist _ k hk with rfl | hk
      · exact hi.symm
      · exact h.getShard i k hk
    · exact h.getShard i k hk

end ScalableCache.Linked

/-! No call puts another key into the list. -/

namespace LRUCache

variable [DecidableEq K] {c : LRUCache K} {key k : K} {value : ℤ}

omit [HashCompare K] in
theorem mem_list_touch (h : k ∈ (c.touch key).list) : k ∈ c.list := by
  unfold touch at h
  split_ifs at h with hmem
  · exact (List.perm_cons_erase hmem).mem_iff.mpr h
  · exact h

omit [DecidableEq K] in
theorem mem_list_evict (h : k ∈ (c.evict key).list) : k ∈ c.list := by
  unfold evict at h
  split at h
  · exact h
  · split_ifs at h
    · exact h
    · exact List.mem_of_mem_dropLast h

omit [DecidableEq K] in
theorem mem_list_insert (h : k ∈ (c.insert key value).list) : k = key ∨ k ∈ c.list := by
  have hevict : ∀ k ∈ ({ c with map := c.map ++ [(key, toInt32 value)] }.evict key).list, k ∈ c.list := by
    intro k hk
    have hmem := mem_list_evict hk
    exact hmem
  have hcons : ∀ {l : List K}, (∀ k ∈ l, k ∈ c.list) → k ∈ key :: l → k = key ∨ k ∈ c.list :=
    fun hl hk => (List.mem_cons.mp hk).imp_right (hl k)
  unfold insert at h
  dsimp only at h
  split_ifs at h
  · have hmem := mem_list_evict h
    exact hcons hevict hmem
  · exact hcons hevict h
  · have hmem := mem_list_evict h
    exact hcons (fun k hk => hk) hmem
  · exact hcons (fun k hk => hk) h

theorem mem_list_increase (h : k ∈ (c.increase key value).list) : k = key ∨ k ∈ c.list := by
  unfold increase at h
  cases hl : c.lookup key with
  | none =>
    rw [hl] at h
    exact mem_list_insert h
  | some x =>
    rw [hl] at h
    have hmem := mem_list_touch h
    exact .inr hmem

theorem mem_list_find (h : k ∈ (c.find key).1.list) : k ∈ c.list := by
  unfold find at h
  cases hl : c.lookup key with
  | none =>
    rw [hl] at h
    exact h
  | some x =>
    rw [hl] at h
    exact mem_list_touch h

end LRUCache

end Cache

/-! ### Every bucket of an array that is used -/

namespace ParamBucket

variable {b : ParamBucket} {e : ParamMetricEvent} {v : AnyVal} {x : ℤ}

/-- The counter of a value. -/
def lookup (b : ParamBucket) (e : ParamMetricEvent) (v : AnyVal) : Option ℤ := (b.counters e).lookup v

theorem count_eq : b.count e v = (b.lookup e v).getD 0 := rfl

/-- The caches of all events are linked. -/
def Linked (b : ParamBucket) : Prop := ∀ e, (b.counters e).Linked

namespace Linked

theorem mk' (env : CacheEnv) (capacity : ℤ) : Linked (ParamBucket.mk' env capacity) :=
  fun _ => .mk' _ env.numShards_pos _

theorem reset (h : b.Linked) : b.reset.Linked := fun e => (h e).clear

theorem update (h : b.Linked) {c : ScalableCache AnyVal} (hc : c.Linked) :
    Linked ⟨Function.update b.counters e c⟩ := by
  intro e'
  show (Function.update b.counters e c e').Linked
  by_cases he : e' = e
  · subst he
    rw [Function.update_self]
    exact hc
  · rw [Function.update_of_ne he]
    exact h e'

theorem add (h : b.Linked) (e : ParamMetricEvent) (count : ℤ) (v : AnyVal) : (b.add e count v).Linked :=
  h.update ((h e).modifyShard (fun _ hs => hs.increase v count) fun _ _ => LRUCache.mem_list_increase)

theorem get (h : b.Linked) (e : ParamMetricEvent) (v : AnyVal) : (b.get e v).1.Linked :=
  h.update ((h e).modifyShard (fun _ hs => hs.find v) fun _ _ hk => .inr (LRUCache.mem_list_find hk))

end Linked

end ParamBucket

namespace ParamLeapArray

variable {a : ParamLeapArray} {t : ℕ} {e : ParamMetricEvent} {v w : AnyVal} {n : ℕ}

/-- The counters of the live buckets, in the order in which they are gathered. -/
def counters (a : ParamLeapArray) (t : ℕ) (e : ParamMetricEvent) : List (AnyVal × ℤ) :=
  (a.values t).flatMap fun b => (b.counters e).snapshotPairs

/-- A live bucket has a counter of the value. -/
def Counted (a : ParamLeapArray) (t : ℕ) (e : ParamMetricEvent) (v : AnyVal) : Prop :=
  ∃ b ∈ a.values t, (b.lookup e v).isSome = true

variable (h : a.EveryBucket ParamBucket.Linked)
include h

omit h

/-! ### When the top values are returned -/

end ParamLeapArray

end SentinelCpp.Param
