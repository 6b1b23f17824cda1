import Mathlib.Algebra.BigOperators.Group.Finset.Basic
import Mathlib.Data.Multiset.AddSub
import Mathlib.Tactic.Abel
import SentinelCpp.Lib.Run
import SentinelCpp.Lib.Threads
import SentinelCpp.Param.CacheRuns

/-!
# The bounded cache under threads

Any number of threads call `increase`, `find` and `snapshotPairs` on one `ThreadSafeLRUCache` that is not
cleared meanwhile.  An accessor locks the element of a key, for one thread or for readers; the list has a
mutex, which only `snapshotPairs` keeps while it waits for anything; `m_size` is atomic.

* `SharedCache`, `SharedCache.go`: the cache and where each thread stands; one access to what they share
  in each step.
* `Ledger`: every key of the map is in the list or in the hands of one thread, and never in two places.
* `Room`: a thread pushes at most one key more than the capacity has room for.
* `Locks`: accessors exclude each other, and their keys are in the map.
-/

namespace SentinelCpp.Param

open Lib HashCompare

/-- Where a thread stands. -/
inductive CachePc (K : Type)
  | idle
  /-- `increase`, before `local_map->find`. -/
  | increasing (key : K) (value : ℤ)
  /-- `insert`, before `local_map->insert`. -/
  | inserting (key : K) (value : ℤ)
  /-- With the accessor of a key that was there, before `fetch_add`. -/
  | adding (key : K) (value : ℤ)
  /-- Behind it, before the list is locked. -/
  | touching (key : K)
  /-- With the accessor of a new key, before `m_size.load()`. -/
  | loading (key : K)
  /-- Before the critical section of the first `evict`. -/
  | evicting (key : K) (size : ℕ)
  /-- `moribund` has been taken off the list. -/
  | erasing (key : K) (size : ℕ) (moribund : K)
  /-- Before `pushFront`. -/
  | pushing (key : K) (size : ℕ) (evictionDone : Bool)
  /-- Before `m_size++`. -/
  | counting (key : K)
  /-- Before `size > m_maxSize` and the exchange. -/
  | checking (key : K) (size : ℕ)
  /-- Before the critical section of the second `evict`. -/
  | evictingAgain (key : K)
  | erasingAgain (key : K) (moribund : K)
  /-- `find`, before `local_map->find`. -/
  | finding (key : K)
  /-- With a const accessor, before the list is locked. -/
  | found (key : K)
  /-- Behind it, before the caller reads the value. -/
  | reading (key : K)
  /-- `snapshotPairs`, with the list locked and these keys to look up. -/
  | snapping (keys : List K) (pairs : List (K × ℤ))
  deriving DecidableEq

namespace CachePc

variable {K : Type}

/-- The key of the accessor. -/
def owned? : CachePc K → Option K
  | adding key _ | touching key | loading key | evicting key _ | erasing key _ _ | pushing key _ _
  | counting key | checking key _ | evictingAgain key | erasingAgain key _ => some key
  | idle | increasing _ _ | inserting _ _ | finding _ | found _ | reading _ | snapping _ _ => none

/-- The key of the const accessor. -/
def shared? : CachePc K → Option K
  | found key | reading key => some key
  | _ => none

/-- An accessor of the thread locks the key. -/
def Holds (pc : CachePc K) (key : K) : Prop := pc.owned? = some key ∨ pc.shared? = some key

instance [DecidableEq K] (pc : CachePc K) (key : K) : Decidable (pc.Holds key) :=
  inferInstanceAs (Decidable (_ ∨ _))

/-- The keys of the map that are in the hands of the thread and not in the list. -/
def inHand : CachePc K → Multiset K
  | loading key | evicting key _ | pushing key _ _ => {key}
  | erasing key _ moribund => {key} + {moribund}
  | erasingAgain _ moribund => {moribund}
  | _ => 0

/-- The thread will push its key, and nothing is left that it could evict for it. -/
def willPush : CachePc K → ℕ
  | erasing _ _ _ | pushing _ _ _ => 1
  | _ => 0

/-- The thread has pushed its key and will count it. -/
def willCount : CachePc K → ℕ
  | counting _ => 1
  | _ => 0

/-- The thread has seen the cache with room and has not counted its key yet. -/
def uncounted : CachePc K → ℕ
  | pushing _ _ false | counting _ => 1
  | _ => 0

/-- The thread has seen the cache full. -/
def late : CachePc K → Bool
  | evicting _ _ | erasing _ _ _ | pushing _ _ true | evictingAgain _ | erasingAgain _ _ => true
  | _ => false

/-- The key that the thread has not found yet. -/
def called? : CachePc K → Option K
  | increasing key _ | inserting key _ => some key
  | _ => none

/-- The key that the thread has taken off the list and will erase. -/
def erases? : CachePc K → Option K
  | erasing _ _ moribund | erasingAgain _ moribund => some moribund
  | _ => none

/-- What the thread is about to add to the counter of the key. -/
def owed [DecidableEq K] (key : K) : CachePc K → ℤ
  | increasing k value | inserting k value | adding k value => if k = key then value else 0
  | _ => 0

/-- The thread keeps the list locked. -/
def locksList : CachePc K → Bool
  | snapping _ _ => true
  | _ => false

end CachePc

/-- A `ThreadSafeLRUCache` with `T` threads. -/
structure SharedCache (K : Type) (T : ℕ) where
  cache : LRUCache K
  thread : Fin T → CachePc K

/-- A thread calls a function, or takes the next step in the one it is in. -/
inductive CacheAction (K : Type) (T : ℕ)
  | increase (i : Fin T) (key : K) (value : ℤ)
  | find (i : Fin T) (key : K)
  | snapshotPairs (i : Fin T)
  | go (i : Fin T)
  deriving DecidableEq

/-- The key of the call is one that the map can find. -/
def CacheAction.Supported {K : Type} {T : ℕ} [HashCompare K] : CacheAction K T → Prop
  | increase _ key _ => supported key = true
  | _ => True

namespace SharedCache

variable {K : Type} {T : ℕ} [DecidableEq K] [HashCompare K]

def new (maxSize : ℕ) : SharedCache K T where
  cache := .mk' maxSize
  thread := fun _ => .idle

section Step

variable (s : SharedCache K T) (i : Fin T)

/-- Thread `i` goes on. -/
def move (pc : CachePc K) : SharedCache K T := { s with thread := Function.update s.thread i pc }

/-- No accessor locks the key. -/
def Free (key : K) : Prop := ∀ j, ¬ (s.thread j).Holds key

/-- At most const accessors lock the key. -/
def Readable (key : K) : Prop := ∀ j, (s.thread j).owned? ≠ some key

/-- Nobody keeps the list locked. -/
def ListFree : Prop := ∀ j, (s.thread j).locksList = false

instance (key : K) : Decidable (s.Free key) := inferInstanceAs (Decidable (∀ _, _))
instance (key : K) : Decidable (s.Readable key) := inferInstanceAs (Decidable (∀ _, _))
instance : Decidable s.ListFree := inferInstanceAs (Decidable (∀ _, _))

/-- The critical section of `evict(key)`: the key that it takes off the list, if any. -/
def moribund? (key : K) : Option K :=
  match s.cache.list.getLast? with
  | none => none
  | some moribund => if equal moribund key then none else some moribund

/-- `delink(moribund)`. -/
def delink : SharedCache K T := { s with cache := { s.cache with list := s.cache.list.dropLast } }

/-- `local_map->erase` of the element of `moribund`, if it is there. -/
def erase (moribund : K) : SharedCache K T :=
  { s with cache := { s.cache with map := s.cache.map.filter fun p => !equal p.1 moribund } }

/-- The next step of thread `i`; it waits while the element or the list is locked. -/
def go : Option (SharedCache K T) :=
  match s.thread i with
  | .idle => none
  | .increasing key value =>
    match s.cache.lookup key with
    | none => some (s.move i (.inserting key value))
    | some _ => if s.Free key then some (s.move i (.adding key value)) else none
  | .inserting key value =>
    match s.cache.lookup key with
    | none =>
      some { s.move i (.loading key) with
        cache := { s.cache with map := s.cache.map ++ [(key, toInt32 value)] } }
    | some _ => if s.Free key then some (s.move i (.adding key value)) else none
  | .adding key value =>
    some { s.move i (.touching key) with
      cache := { s.cache with map := s.cache.map.map (LRUCache.fetchAdd key value) } }
  | .touching key =>
    if s.ListFree then some { s.move i .idle with cache := s.cache.touch key } else none
  | .loading key =>
    some (s.move i (if s.cache.size ≥ s.cache.maxSize then .evicting key s.cache.size
      else .pushing key s.cache.size false))
  | .evicting key size =>
    if s.ListFree then
      match s.moribund? key with
      | none => some (s.move i (.pushing key size true))
      | some moribund => some (s.delink.move i (.erasing key size moribund))
    else none
  | .erasing key size moribund =>
    -- an element that is not found is not waited for
    if s.cache.lookup moribund = none ∨ s.Free moribund then
      some ((s.erase moribund).move i (.pushing key size true))
    else none
  | .pushing key size evictionDone =>
    if s.ListFree then
      some { s.move i (if evictionDone = true then .checking key size else .counting key) with
        cache := { s.cache with list := key :: s.cache.list } }
    else none
  | .counting key =>
    some { s.move i (.checking key s.cache.size) with cache := { s.cache with size := s.cache.size + 1 } }
  | .checking key size =>
    if size > s.cache.maxSize ∧ s.cache.size = size then
      some { s.move i (.evictingAgain key) with cache := { s.cache with size := size - 1 } }
    else some (s.move i .idle)
  | .evictingAgain key =>
    if s.ListFree then
      match s.moribund? key with
      | none => some (s.move i .idle)
      | some moribund => some (s.delink.move i (.erasingAgain key moribund))
    else none
  | .erasingAgain _ moribund =>
    if s.cache.lookup moribund = none ∨ s.Free moribund then some ((s.erase moribund).move i .idle) else none
  | .finding key =>
    match s.cache.lookup key with
    | none => some (s.move i .idle)
    | some _ => if s.Readable key then some (s.move i (.found key)) else none
  | .found key =>
    if s.ListFree then some { s.move i (.reading key) with cache := s.cache.touch key } else none
  | .reading _ => some (s.move i .idle)
  | .snapping [] _ => some (s.move i .idle)
  | .snapping (key :: keys) pairs =>
    match s.cache.lookup key with
    | none => some (s.move i (.snapping keys pairs))
    | some value =>
      if s.Readable key then some (s.move i (.snapping keys (pairs ++ [(key, value)]))) else none

def step : CacheAction K T → Option (SharedCache K T)
  | .increase i key value => if s.thread i = .idle then some (s.move i (.increasing key value)) else none
  | .find i key => if s.thread i = .idle then some (s.move i (.finding key)) else none
  | .snapshotPairs i =>
    if s.thread i = .idle ∧ s.ListFree then some (s.move i (.snapping s.cache.list [])) else none
  | .go i => s.go i

end Step

/-- An interleaving of the threads. -/
abbrev Steps : SharedCache K T → List (CacheAction K T) → SharedCache K T → Prop :=
  Run fun s a s' => s.step a = some s'

/-! ### What a step can do -/

variable {s s' : SharedCache K T} {i : Fin T}

/-- A move that changes nothing in the cache and leaves the thread with the same keys in hand; it locks
only what was free. -/
structure Quiet (s : SharedCache K T) (pc pc' : CachePc K) : Prop where
  inHand : pc'.inHand = pc.inHand
  willPush : pc'.willPush = pc.willPush
  willCount : pc'.willCount = pc.willCount
  uncounted : pc'.uncounted = pc.uncounted
  late : pc'.late = true → pc.late = true
  called : ∀ key, pc'.called? = some key → pc.called? = some key
  erases : pc'.erases? = none
  owed : ∀ key, pc'.owed key = pc.owed key
  owned : ∀ key, pc'.owned? = some key →
    pc.owned? = some key ∨ (s.Free key ∧ s.cache.lookup key ≠ none)
  shared : ∀ key, pc'.shared? = some key →
    pc.shared? = some key ∨ (s.Readable key ∧ s.cache.lookup key ≠ none)

/-- The steps of thread `i`, each with the state it is taken in and the state after it. -/
inductive Takes (s : SharedCache K T) (i : Fin T) : SharedCache K T → Prop
  | quiet (pc' : CachePc K) (h : Quiet s (s.thread i) pc') : Takes s i (s.move i pc')
  | insert {key : K} {value : ℤ} (hi : s.thread i = .inserting key value)
      (hkey : s.cache.lookup key = none) :
    Takes s i { s.move i (.loading key) with
      cache := { s.cache with map := s.cache.map ++ [(key, toInt32 value)] } }
  | add {key : K} {value : ℤ} (hi : s.thread i = .adding key value) :
    Takes s i { s.move i (.touching key) with
      cache := { s.cache with map := s.cache.map.map (LRUCache.fetchAdd key value) } }
  | touch {key : K} (pc' : CachePc K) (h : Quiet s (s.thread i) pc') :
    Takes s i { s.move i pc' with cache := s.cache.touch key }
  | full {key : K} (hi : s.thread i = .loading key) (hfull : s.cache.maxSize ≤ s.cache.size) :
    Takes s i (s.move i (.evicting key s.cache.size))
  | room {key : K} (hi : s.thread i = .loading key) (hroom : s.cache.size < s.cache.maxSize) :
    Takes s i (s.move i (.pushing key s.cache.size false))
  | spare {key : K} {size : ℕ} (hi : s.thread i = .evicting key size)
      (hspare : s.cache.list = [] ∨ ∃ l x, s.cache.list = l ++ [x] ∧ equal x key = true) :
    Takes s i (s.move i (.pushing key size true))
  | evict {key : K} {size : ℕ} {l : List K} {moribund : K} (hi : s.thread i = .evicting key size)
      (hlist : s.cache.list = l ++ [moribund]) (hne : equal moribund key = false) :
    Takes s i { s.move i (.erasing key size moribund) with cache := { s.cache with list := l } }
  | erase {key : K} {size : ℕ} {moribund : K} (hi : s.thread i = .erasing key size moribund)
      (hfree : s.cache.lookup moribund = none ∨ s.Free moribund) :
    Takes s i ((s.erase moribund).move i (.pushing key size true))
  | push {key : K} {size : ℕ} (hi : s.thread i = .pushing key size true) :
    Takes s i { s.move i (.checking key size) with
      cache := { s.cache with list := key :: s.cache.list } }
  | pushNew {key : K} {size : ℕ} (hi : s.thread i = .pushing key size false) :
    Takes s i { s.move i (.counting key) with cache := { s.cache with list := key :: s.cache.list } }
  | count {key : K} (hi : s.thread i = .counting key) :
    Takes s i { s.move i (.checking key s.cache.size) with
      cache := { s.cache with size := s.cache.size + 1 } }
  | decrease {key : K} (hi : s.thread i = .checking key s.cache.size)
      (hover : s.cache.maxSize < s.cache.size) :
    Takes s i { s.move i (.evictingAgain key) with
      cache := { s.cache with size := s.cache.size - 1 } }
  | evictAgain {key : K} {l : List K} {moribund : K} (hi : s.thread i = .evictingAgain key)
      (hlist : s.cache.list = l ++ [moribund]) (hne : equal moribund key = false) :
    Takes s i { s.move i (.erasingAgain key moribund) with cache := { s.cache with list := l } }
  | eraseAgain {key moribund : K} (hi : s.thread i = .erasingAgain key moribund)
      (hfree : s.cache.lookup moribund = none ∨ s.Free moribund) :
    Takes s i ((s.erase moribund).move i .idle)

omit [DecidableEq K] in
theorem moribund?_eq_none {key : K} (h : s.moribund? key = none) :
    s.cache.list = [] ∨ ∃ l x, s.cache.list = l ++ [x] ∧ equal x key = true := by
  unfold moribund? at h
  rcases List.eq_nil_or_concat' s.cache.list with hnil | ⟨l, x, hlist⟩
  · exact .inl hnil
  · rw [hlist, List.getLast?_concat] at h
    dsimp only at h
    split_ifs at h with hequal
    exact .inr ⟨l, x, hlist, hequal⟩

omit [DecidableEq K] in
theorem moribund?_eq_some {key moribund : K} (h : s.moribund? key = some moribund) :
    s.cache.list = s.cache.list.dropLast ++ [moribund] ∧ equal moribund key = false := by
  unfold moribund? at h
  rcases List.eq_nil_or_concat' s.cache.list with hnil | ⟨l, x, hlist⟩
  · rw [hnil] at h
    exact absurd h (by simp)
  · rw [hlist, List.getLast?_concat] at h
    dsimp only at h
    split_ifs at h with hequal
    obtain rfl := Option.some.inj h
    rw [hlist, List.dropLast_concat]
    exact ⟨rfl, Bool.eq_false_of_not_eq_true hequal⟩

/-- A move that locks nothing new. -/
theorem Quiet.of_unlocked {pc pc' : CachePc K} (hhand : pc'.inHand = pc.inHand)
    (hpush : pc'.willPush = pc.willPush) (hcount : pc'.willCount = pc.willCount)
    (huncounted : pc'.uncounted = pc.uncounted) (hlate : pc'.late = true → pc.late = true)
    (hcalled : ∀ key, pc'.called? = some key → pc.called? = some key) (herases : pc'.erases? = none)
    (howed : ∀ key, pc'.owed key = pc.owed key) (howned : pc'.owned? = none ∨ pc'.owned? = pc.owned?)
    (hshared : pc'.shared? = none ∨ pc'.shared? = pc.shared?) : Quiet s pc pc' := by
  refine ⟨hhand, hpush, hcount, huncounted, hlate, hcalled, herases, howed, fun key hkey => ?_,
    fun key hkey => ?_⟩
  · rcases howned with hnone | hsame
    · rw [hnone] at hkey
      cases hkey
    · exact .inl (hsame ▸ hkey)
  · rcases hshared with hnone | hsame
    · rw [hnone] at hkey
      cases hkey
    · exact .inl (hsame ▸ hkey)

/-- A call finds its key and locks it. -/
theorem Quiet.adding {pc : CachePc K} {key : K} {value v : ℤ}
    (hpc : pc = .increasing key value ∨ pc = .inserting key value) (hfree : s.Free key)
    (hkey : s.cache.lookup key = some v) : Quiet s pc (.adding key value) := by
  have hlock : ∀ k, (CachePc.adding key value).owned? = some k →
      pc.owned? = some k ∨ (s.Free k ∧ s.cache.lookup k ≠ none) := by
    intro k hk
    obtain rfl : key = k := Option.some.inj hk
    exact .inr ⟨hfree, by simp [hkey]⟩
  rcases hpc with rfl | rfl
  · exact ⟨rfl, rfl, rfl, rfl, id, fun k hk => absurd hk (by simp [CachePc.called?]), rfl, fun _ => rfl, hlock,
      fun k hk => absurd hk (by simp [CachePc.shared?])⟩
  · exact ⟨rfl, rfl, rfl, rfl, id, fun k hk => absurd hk (by simp [CachePc.called?]), rfl, fun _ => rfl, hlock,
      fun k hk => absurd hk (by simp [CachePc.shared?])⟩

/-- **Inversion of a step of a thread.** -/
theorem takes_of_go (h : s.go i = some s') : Takes s i s' := by
  unfold go at h
  split at h
  · exact absurd h (by simp)
  · next key value hi =>
    split at h
    · obtain rfl := Option.some.inj h
      exact .quiet _ (hi ▸ .of_unlocked rfl rfl rfl rfl id (fun _ => id) rfl (fun _ => rfl) (.inl rfl) (.inl rfl))
    · next v hkey =>
      split_ifs at h with hfree
      obtain rfl := Option.some.inj h
      exact .quiet _ (hi ▸ .adding (.inl rfl) hfree hkey)
  · next key value hi =>
    split at h
    · obtain rfl := Option.some.inj h
      exact .insert hi ‹_›
    · next v hkey =>
      split_ifs at h with hfree
      obtain rfl := Option.some.inj h
      exact .quiet _ (hi ▸ .adding (.inr rfl) hfree hkey)
  · next key value hi =>
    obtain rfl := Option.some.inj h
    exact .add hi
  · next key hi =>
    split_ifs at h
    obtain rfl := Option.some.inj h
    exact .touch _ (hi ▸ .of_unlocked rfl rfl rfl rfl id (fun _ => id) rfl (fun _ => rfl) (.inl rfl) (.inl rfl))
  · next key hi =>
    split_ifs at h with hfull
    · obtain rfl := Option.some.inj h
      exact .full hi hfull
    · obtain rfl := Option.some.inj h
      exact .room hi (not_le.mp hfull)
  · next key size hi =>
    split_ifs at h
    split at h
    · next hnone =>
      obtain rfl := Option.some.inj h
      exact .spare hi (moribund?_eq_none hnone)
    · next moribund hsome =>
      obtain rfl := Option.some.inj h
      exact .evict hi (moribund?_eq_some hsome).1 (moribund?_eq_some hsome).2
  · next key size moribund hi =>
    split_ifs at h with hfree
    obtain rfl := Option.some.inj h
    exact .erase hi hfree
  · next key size evictionDone hi =>
    split_ifs at h with hlist hdone
    · obtain rfl := Option.some.inj h
      exact .push (hdone ▸ hi)
    · obtain rfl := Option.some.inj h
      rw [Bool.not_eq_true] at hdone
      exact .pushNew (hdone ▸ hi)
  · next key hi =>
    obtain rfl := Option.some.inj h
    exact .count hi
  · next key size hi =>
    split_ifs at h with hover
    · obtain rfl := Option.some.inj h
      obtain ⟨hover, rfl⟩ := hover
      exact .decrease hi hover
    · obtain rfl := Option.some.inj h
      exact .quiet _ (hi ▸ .of_unlocked rfl rfl rfl rfl id (fun _ => id) rfl (fun _ => rfl) (.inl rfl) (.inl rfl))
  · next key hi =>
    split_ifs at h
    split at h
    · obtain rfl := Option.some.inj h
      exact .quiet _ (hi ▸ .of_unlocked rfl rfl rfl rfl Bool.noConfusion (fun _ => id) rfl (fun _ => rfl)
        (.inl rfl) (.inl rfl))
    · next moribund hsome =>
      obtain rfl := Option.some.inj h
      exact .evictAgain hi (moribund?_eq_some hsome).1 (moribund?_eq_some hsome).2
  · next key moribund hi =>
    split_ifs at h with hfree
    obtain rfl := Option.some.inj h
    exact .eraseAgain hi hfree
  · next key hi =>
    split at h
    · obtain rfl := Option.some.inj h
      exact .quiet _ (hi ▸ .of_unlocked rfl rfl rfl rfl id (fun _ => id) rfl (fun _ => rfl) (.inl rfl) (.inl rfl))
    · next v hkey =>
      split_ifs at h with hreadable
      obtain rfl := Option.some.inj h
      refine .quiet _ (hi ▸ ⟨rfl, rfl, rfl, rfl, id, fun _ => id, rfl, fun _ => rfl,
        fun k hk => absurd hk (by simp [CachePc.owned?]), fun k hk => ?_⟩)
      obtain rfl : key = k := Option.some.inj hk
      exact .inr ⟨hreadable, by simp [hkey]⟩
  · next key hi =>
    split_ifs at h
    obtain rfl := Option.some.inj h
    exact .touch _ (hi ▸ .of_unlocked rfl rfl rfl rfl id (fun _ => id) rfl (fun _ => rfl) (.inl rfl) (.inr rfl))
  · next key hi =>
    obtain rfl := Option.some.inj h
    exact .quiet _ (hi ▸ .of_unlocked rfl rfl rfl rfl id (fun _ => id) rfl (fun _ => rfl) (.inl rfl) (.inl rfl))
  · next pairs hi =>
    obtain rfl := Option.some.inj h
    exact .quiet _ (hi ▸ .of_unlocked rfl rfl rfl rfl id (fun _ => id) rfl (fun _ => rfl) (.inl rfl) (.inl rfl))
  · next key keys pairs hi =>
    split at h
    · obtain rfl := Option.some.inj h
      exact .quiet _ (hi ▸ .of_unlocked rfl rfl rfl rfl id (fun _ => id) rfl (fun _ => rfl) (.inl rfl) (.inl rfl))
    · split_ifs at h
      obtain rfl := Option.some.inj h
      exact .quiet _ (hi ▸ .of_unlocked rfl rfl rfl rfl id (fun _ => id) rfl (fun _ => rfl) (.inl rfl) (.inl rfl))

/-! ### Every key is in one place -/

/-- **The ledger**: every key of the map is in the list or in the hands of one thread, once. -/
structure Ledger (s : SharedCache K T) : Prop where
  keys : (s.cache.mapKeys : Multiset K) = s.cache.list + ∑ j, (s.thread j).inHand
  nodup : s.cache.mapKeys.Nodup
  supported : ∀ key ∈ s.cache.mapKeys, supported key = true
  called : ∀ j key, (s.thread j).called? = some key → HashCompare.supported key = true

omit [DecidableEq K] in
theorem mem_mapKeys {key : K} (h : s.cache.lookup key ≠ none) : key ∈ s.cache.mapKeys := by
  by_contra hnot
  exact h (LRUCache.lookup_eq_none_iff.mpr fun _ => hnot)

omit [HashCompare K] in
theorem touch_list_perm (c : LRUCache K) (key : K) : (c.touch key).list.Perm c.list := by
  unfold LRUCache.touch
  split_ifs with hmem
  · exact (List.perm_cons_erase hmem).symm
  · rfl

omit [HashCompare K] in
@[simp] theorem touch_mapKeys (c : LRUCache K) (key : K) : (c.touch key).mapKeys = c.mapKeys := by
  rw [LRUCache.mapKeys, LRUCache.mapKeys, LRUCache.touch_map]

omit [HashCompare K] in
@[simp] theorem touch_size (c : LRUCache K) (key : K) : (c.touch key).size = c.size := by
  unfold LRUCache.touch
  split <;> rfl

namespace Ledger

omit [DecidableEq K] in
theorem start (maxSize : ℕ) : (new maxSize : SharedCache K T).Ledger :=
  ⟨by simp [new, LRUCache.mk', LRUCache.mapKeys, CachePc.inHand], List.nodup_nil,
    fun _ h => absurd h List.not_mem_nil, fun _ _ h => absurd h (by simp [new, CachePc.called?])⟩

variable {key moribund : K}

omit [DecidableEq K] in
theorem mem_mapKeys_iff (h : s.Ledger) :
    key ∈ s.cache.mapKeys ↔ key ∈ s.cache.list ∨ ∃ j, key ∈ (s.thread j).inHand := by
  have hmem : key ∈ (s.cache.mapKeys : Multiset K) ↔ key ∈ s.cache.mapKeys := Multiset.mem_coe
  rw [← hmem, h.keys, Multiset.mem_add, Multiset.mem_coe, Multiset.mem_sum]
  simp

omit [DecidableEq K] in
theorem nodup_sum (h : s.Ledger) :
    ((s.cache.list : Multiset K) + ∑ j, (s.thread j).inHand).Nodup := by
  rw [← h.keys, Multiset.coe_nodup]
  exact h.nodup

omit [DecidableEq K] in
theorem not_mem_list (h : s.Ledger) (hi : key ∈ (s.thread i).inHand) : key ∉ s.cache.list := by
  intro hlist
  obtain ⟨-, -, hdisjoint⟩ := Multiset.nodup_add.mp h.nodup_sum
  exact (Multiset.disjoint_left.mp hdisjoint) (Multiset.mem_coe.mpr hlist)
    (Multiset.mem_sum.mpr ⟨i, Finset.mem_univ i, hi⟩)

omit [DecidableEq K] in
/-- A key in the hands of two threads. -/
theorem inHand_unique (h : s.Ledger) {j : Fin T} (hi : key ∈ (s.thread i).inHand)
    (hj : key ∈ (s.thread j).inHand) : i = j := by
  by_contra hne
  obtain ⟨-, hsum, -⟩ := Multiset.nodup_add.mp h.nodup_sum
  rw [← Finset.sum_erase_add _ _ (Finset.mem_univ i)] at hsum
  obtain ⟨-, -, hdisjoint⟩ := Multiset.nodup_add.mp hsum
  refine (Multiset.disjoint_left.mp hdisjoint) (Multiset.mem_sum.mpr ⟨j, ?_, hj⟩) hi
  exact Finset.mem_erase.mpr ⟨Ne.symm hne, Finset.mem_univ j⟩

/-- The map without a key that is in it. -/
theorem erase_mapKeys (h : s.Ledger) (hmem : moribund ∈ s.cache.mapKeys) :
    ((s.erase moribund).cache.mapKeys : Multiset K) + {moribund} = s.cache.mapKeys := by
  have hfilter : (s.erase moribund).cache.mapKeys = s.cache.mapKeys.erase moribund := by
    show (s.cache.map.filter fun p => !equal p.1 moribund).map Prod.fst = _
    rw [LRUCache.Linked.mapKeys_filter, h.nodup.erase_eq_filter]
    refine List.filter_congr fun k hk => ?_
    by_cases hkm : k = moribund
    · rw [hkm, (equal_iff moribund moribund).mpr ⟨rfl, h.supported moribund hmem⟩]
      simp
    · rw [LRUCache.equal_false_of_ne hkm]
      simp [hkm]
  rw [hfilter, ← Multiset.coe_erase, Multiset.add_comm, Multiset.singleton_add,
    Multiset.cons_erase (Multiset.mem_coe.mpr hmem)]

omit [DecidableEq K] in
/-- What a move takes out of the map and the list, the thread has in hand. -/
theorem of_move (h : s.Ledger) (pc' : CachePc K) (hthread : s'.thread = Function.update s.thread i pc')
    (hkeys : (s'.cache.mapKeys : Multiset K) + (s.cache.list + (s.thread i).inHand) =
      s.cache.mapKeys + (s'.cache.list + pc'.inHand))
    (hnodup : s'.cache.mapKeys.Nodup)
    (hsupported : ∀ key ∈ s'.cache.mapKeys, HashCompare.supported key = true)
    (hcalled : ∀ key, pc'.called? = some key → HashCompare.supported key = true) : s'.Ledger := by
  refine ⟨?_, hnodup, hsupported, ?_⟩
  · have hsum := sum_update_add CachePc.inHand s.thread i pc'
    rw [← hthread] at hsum
    rw [h.keys] at hkeys
    have hcancel : (s'.cache.mapKeys : Multiset K) + (s.cache.list + (s.thread i).inHand) =
        (s'.cache.list + ∑ j, (s'.thread j).inHand) + (s.cache.list + (s.thread i).inHand) := by
      calc (s'.cache.mapKeys : Multiset K) + (s.cache.list + (s.thread i).inHand)
          = s.cache.list + s'.cache.list + (∑ j, (s.thread j).inHand + pc'.inHand) := by
            rw [hkeys]
            abel
        _ = s.cache.list + s'.cache.list + (∑ j, (s'.thread j).inHand + (s.thread i).inHand) := by
            rw [hsum]
        _ = (s'.cache.list + ∑ j, (s'.thread j).inHand) + (s.cache.list + (s.thread i).inHand) := by
            abel
    exact Multiset.add_left_inj.mp hcancel
  · rw [hthread]
    exact (Function.forall_update_iff s.thread fun _ (pc : CachePc K) => ∀ key, pc.called? = some key →
      HashCompare.supported key = true).mpr ⟨hcalled, fun j _ => h.called j⟩

theorem takes (h : s.Ledger) (hs : Takes s i s') : s'.Ledger := by
  have hnone : ∀ {pc : CachePc K}, pc.called? = none → ∀ key, pc.called? = some key →
      HashCompare.supported key = true := by
    intro pc hpc key hkey
    rw [hpc] at hkey
    cases hkey
  cases hs with
  | quiet pc' hq =>
    refine h.of_move _ rfl ?_ h.nodup h.supported fun key hkey => h.called i key (hq.called key hkey)
    rw [hq.inHand]
    rfl
  | touch pc' hq =>
    refine h.of_move _ rfl ?_ ?_ ?_ fun key hkey => h.called i key (hq.called key hkey)
    · rw [hq.inHand, touch_mapKeys, Multiset.coe_eq_coe.mpr (touch_list_perm s.cache _)]
    · rw [touch_mapKeys]
      exact h.nodup
    · rw [touch_mapKeys]
      exact h.supported
  | @insert key value hi hkey =>
    have hs := h.called i key (by rw [hi]; rfl)
    have hnew : key ∉ s.cache.mapKeys := LRUCache.lookup_eq_none_iff.mp hkey hs
    have hkeys : (s.cache.map ++ [(key, toInt32 value)]).map Prod.fst = s.cache.mapKeys ++ [key] := by
      rw [List.map_append]
      rfl
    refine h.of_move _ rfl ?_ ?_ ?_ (hnone rfl)
    · show (((s.cache.map ++ [(key, toInt32 value)]).map Prod.fst : List K) : Multiset K) + _ = _
      rw [hkeys, hi, ← Multiset.coe_add]
      show (s.cache.mapKeys : Multiset K) + {key} + (s.cache.list + 0) = s.cache.mapKeys + (s.cache.list + {key})
      abel
    · show ((s.cache.map ++ [(key, toInt32 value)]).map Prod.fst).Nodup
      rw [hkeys, List.nodup_append]
      refine ⟨h.nodup, List.nodup_singleton key, fun a ha b hb => ?_⟩
      rintro rfl
      exact hnew (List.mem_singleton.mp hb ▸ ha)
    · show ∀ k ∈ (s.cache.map ++ [(key, toInt32 value)]).map Prod.fst, HashCompare.supported k = true
      rw [hkeys]
      intro k hk
      rcases List.mem_append.mp hk with hk | hk
      · exact h.supported k hk
      · exact List.mem_singleton.mp hk ▸ hs
  | add hi =>
    have hkeys := LRUCache.mapKeys_fetchAdd s.cache
    refine h.of_move _ rfl ?_ ?_ ?_ (hnone rfl)
    · rw [hkeys, hi]
      rfl
    · rw [hkeys]
      exact h.nodup
    · rw [hkeys]
      exact h.supported
  | full hi | room hi | spare hi | count hi | decrease hi =>
    refine h.of_move _ rfl ?_ h.nodup h.supported (hnone rfl)
    rw [hi]
    rfl
  | @evict key size l moribund hi hlist =>
    refine h.of_move _ rfl ?_ h.nodup h.supported (hnone rfl)
    rw [hlist, hi, ← Multiset.coe_add]
    show (s.cache.mapKeys : Multiset K) + (l + {moribund} + {key}) = s.cache.mapKeys + (l + ({key} + {moribund}))
    abel
  | @evictAgain key l moribund hi hlist =>
    refine h.of_move _ rfl ?_ h.nodup h.supported (hnone rfl)
    rw [hlist, hi, ← Multiset.coe_add]
    show (s.cache.mapKeys : Multiset K) + (l + {moribund} + 0) = s.cache.mapKeys + (l + {moribund})
    abel
  | @push key size hi | @pushNew key size hi =>
    refine h.of_move _ rfl ?_ h.nodup h.supported (hnone rfl)
    rw [hi]
    show (s.cache.mapKeys : Multiset K) + (s.cache.list + {key}) = s.cache.mapKeys + ((key :: s.cache.list) + 0)
    rw [← Multiset.cons_coe, ← Multiset.singleton_add]
    abel
  | @erase key size moribund hi hfree =>
    have hmem : moribund ∈ s.cache.mapKeys :=
      h.mem_mapKeys_iff.mpr (.inr ⟨i, by rw [hi]; simp [CachePc.inHand]⟩)
    have hkeys := h.erase_mapKeys hmem
    have hsub : (s.erase moribund).cache.mapKeys.Sublist s.cache.mapKeys := List.filter_sublist.map Prod.fst
    refine h.of_move (.pushing key size true) rfl ?_ (hsub.nodup h.nodup)
      (fun k hk => h.supported k (hsub.subset hk)) (hnone rfl)
    rw [← hkeys, hi]
    show ((s.erase moribund).cache.mapKeys : Multiset K) + (s.cache.list + ({key} + {moribund})) =
      (s.erase moribund).cache.mapKeys + {moribund} + (s.cache.list + {key})
    abel
  | @eraseAgain key moribund hi hfree =>
    have hmem : moribund ∈ s.cache.mapKeys :=
      h.mem_mapKeys_iff.mpr (.inr ⟨i, by rw [hi]; simp [CachePc.inHand]⟩)
    have hkeys := h.erase_mapKeys hmem
    have hsub : (s.erase moribund).cache.mapKeys.Sublist s.cache.mapKeys := List.filter_sublist.map Prod.fst
    refine h.of_move .idle rfl ?_ (hsub.nodup h.nodup)
      (fun k hk => h.supported k (hsub.subset hk)) (hnone rfl)
    rw [← hkeys, hi]
    show ((s.erase moribund).cache.mapKeys : Multiset K) + (s.cache.list + {moribund}) =
      (s.erase moribund).cache.mapKeys + {moribund} + (s.cache.list + 0)
    abel

end Ledger

/-! ### Accessors -/

/-- An accessor excludes every other one, and its key is in the map. -/
structure Locks (s : SharedCache K T) : Prop where
  exclusive : ∀ i j key, (s.thread i).owned? = some key → (s.thread j).Holds key → i = j
  present : ∀ j key, (s.thread j).Holds key → key ∈ s.cache.mapKeys

namespace Locks

omit [DecidableEq K] [HashCompare K] in
theorem start (maxSize : ℕ) : (new maxSize : SharedCache K T).Locks :=
  ⟨fun _ _ _ h => absurd h (by simp [new, CachePc.owned?]),
    fun _ _ h => absurd h (by simp [new, CachePc.Holds, CachePc.owned?, CachePc.shared?])⟩

omit [DecidableEq K] [HashCompare K] in
/-- A move that locks only what is free, and keeps what is locked in the map. -/
theorem of_move (h : s.Locks) (pc' : CachePc K) (hthread : s'.thread = Function.update s.thread i pc')
    (howned : ∀ key, pc'.owned? = some key →
      (s.thread i).owned? = some key ∨ (s.Free key ∧ key ∈ s'.cache.mapKeys))
    (hshared : ∀ key, pc'.shared? = some key →
      (s.thread i).shared? = some key ∨ (s.Readable key ∧ key ∈ s'.cache.mapKeys))
    (hkeys : ∀ j key, (s.thread j).Holds key → key ∈ s'.cache.mapKeys) : s'.Locks := by
  have hself : s'.thread i = pc' := by rw [hthread, Function.update_self]
  have hother : ∀ j, j ≠ i → s'.thread j = s.thread j := fun j hj => by
    rw [hthread, Function.update_of_ne hj]
  refine ⟨fun j j' key hj hj' => ?_, fun j key hj => ?_⟩
  · by_cases hji : j = i
    · by_cases hji' : j' = i
      · rw [hji, hji']
      -- what the thread has locked, another one holds
      rw [hji, hself] at hj
      rw [hother j' hji'] at hj'
      rcases howned key hj with hold | ⟨hfree, -⟩
      · rw [hji, h.exclusive i j' key hold hj']
      · exact absurd hj' (hfree j')
    · rw [hother j hji] at hj
      by_cases hji' : j' = i
      · rw [hji', hself] at hj'
        rw [hji']
        rcases hj' with hj' | hj'
        · rcases howned key hj' with hold | ⟨hfree, -⟩
          · exact h.exclusive j i key hj (.inl hold)
          · exact absurd (.inl hj) (hfree j)
        · rcases hshared key hj' with hold | ⟨hreadable, -⟩
          · exact h.exclusive j i key hj (.inr hold)
          · exact absurd hj (hreadable j)
      · rw [hother j' hji'] at hj'
        exact h.exclusive j j' key hj hj'
  · by_cases hji : j = i
    · rw [hji, hself] at hj
      rcases hj with hj | hj
      · rcases howned key hj with hold | ⟨-, hmem⟩
        · exact hkeys i key (.inl hold)
        · exact hmem
      · rcases hshared key hj with hold | ⟨-, hmem⟩
        · exact hkeys i key (.inr hold)
        · exact hmem
    · rw [hother j hji] at hj
      exact hkeys j key hj

omit [DecidableEq K] in
/-- The erased element is not locked. -/
theorem erase (h : s.Locks) (hledger : s.Ledger) {moribund : K}
    (hfree : s.cache.lookup moribund = none ∨ s.Free moribund) {j : Fin T} {key : K}
    (hj : (s.thread j).Holds key) : key ∈ (s.erase moribund).cache.mapKeys := by
  have hne : key ≠ moribund := by
    rintro rfl
    have hmem := h.present j key hj
    rcases hfree with hnone | hfree
    · exact LRUCache.lookup_eq_none_iff.mp hnone (hledger.supported key hmem) hmem
    · exact hfree j hj
  show key ∈ (s.cache.map.filter fun p => !equal p.1 moribund).map Prod.fst
  rw [LRUCache.Linked.mapKeys_filter, List.mem_filter, LRUCache.equal_false_of_ne hne]
  exact ⟨h.present j key hj, rfl⟩

theorem takes (h : s.Locks) (hledger : s.Ledger) (hs : Takes s i s') : s'.Locks := by
  have hnone : ∀ {pc : CachePc K}, pc.shared? = none → ∀ key, pc.shared? = some key →
      (s.thread i).shared? = some key ∨ (s.Readable key ∧ key ∈ s'.cache.mapKeys) := by
    intro pc hpc key hkey
    rw [hpc] at hkey
    cases hkey
  cases hs with
  | quiet pc' hq =>
    exact h.of_move _ rfl (fun key hkey => (hq.owned key hkey).imp_right (.imp_right mem_mapKeys))
      (fun key hkey => (hq.shared key hkey).imp_right (.imp_right mem_mapKeys)) h.present
  | @touch key' pc' hq =>
    refine h.of_move _ rfl (fun key hkey => (hq.owned key hkey).imp_right (.imp_right fun hmem => ?_))
      (fun key hkey => (hq.shared key hkey).imp_right (.imp_right fun hmem => ?_)) fun j key hj => ?_
    · rw [touch_mapKeys]
      exact mem_mapKeys hmem
    · rw [touch_mapKeys]
      exact mem_mapKeys hmem
    · rw [touch_mapKeys]
      exact h.present j key hj
  | @insert key value hi hkey =>
    have hnew : key ∉ s.cache.mapKeys :=
      LRUCache.lookup_eq_none_iff.mp hkey (hledger.called i key (by rw [hi]; rfl))
    have hkeys : (s.cache.map ++ [(key, toInt32 value)]).map Prod.fst = s.cache.mapKeys ++ [key] := by
      rw [List.map_append]
      rfl
    refine h.of_move _ rfl (fun k hk => .inr ⟨fun j hj => ?_, ?_⟩) (hnone rfl) fun j k hj => ?_
    · obtain rfl : key = k := Option.some.inj hk
      exact hnew (h.present j key hj)
    · obtain rfl : key = k := Option.some.inj hk
      show key ∈ (s.cache.map ++ [(key, toInt32 value)]).map Prod.fst
      rw [hkeys]
      simp
    · show k ∈ (s.cache.map ++ [(key, toInt32 value)]).map Prod.fst
      rw [hkeys]
      exact List.mem_append_left _ (h.present j k hj)
  | add hi =>
    have hkeys := LRUCache.mapKeys_fetchAdd s.cache
    refine h.of_move _ rfl (fun key hkey => .inl (by rw [hi]; exact hkey)) (hnone rfl) fun j key hj => ?_
    rw [hkeys]
    exact h.present j key hj
  | full hi | room hi | spare hi | count hi | decrease hi | evict hi | evictAgain hi | push hi | pushNew hi =>
    exact h.of_move _ rfl (fun key hkey => .inl (by rw [hi]; exact hkey)) (hnone rfl) h.present
  | erase hi hfree =>
    exact h.of_move (.pushing _ _ true) rfl (fun key hkey => .inl (by rw [hi]; exact hkey)) (hnone rfl)
      fun j key hj => h.erase hledger hfree hj
  | eraseAgain hi hfree =>
    exact h.of_move .idle rfl (fun key hkey => absurd hkey (by simp [CachePc.owned?])) (hnone rfl)
      fun j key hj => h.erase hledger hfree hj

end Locks

/-! ### How many keys -/

/-- **The room**: as long as the counter has not reached the capacity it lags behind the list by the
pushes not yet counted; from then on every push has an eviction, unless the list was empty. -/
structure Room (s : SharedCache K T) : Prop where
  early : s.cache.size < s.cache.maxSize →
    (∀ j, (s.thread j).late = false) ∧ s.cache.list.length = s.cache.size + ∑ j, (s.thread j).willCount
  pushed : s.cache.list.length + ∑ j, (s.thread j).willPush ≤ s.cache.maxSize - 1 + T
  counted : s.cache.size + ∑ j, (s.thread j).uncounted ≤ s.cache.maxSize - 1 + T

namespace Room

omit [DecidableEq K] [HashCompare K] in
theorem start (maxSize : ℕ) : (new maxSize : SharedCache K T).Room :=
  ⟨fun _ => ⟨fun _ => rfl, by simp [new, LRUCache.mk', CachePc.willCount]⟩,
    by simp [new, LRUCache.mk', CachePc.willPush], by simp [new, LRUCache.mk', CachePc.uncounted]⟩

omit [DecidableEq K] [HashCompare K] in
theorem of_move (h : s.Room) (pc' : CachePc K) (hthread : s'.thread = Function.update s.thread i pc')
    (hmax : s'.cache.maxSize = s.cache.maxSize)
    (hearly : s'.cache.size < s.cache.maxSize → s.cache.size < s.cache.maxSize ∧
      (pc'.late = true → (s.thread i).late = true) ∧
      s'.cache.list.length + s.cache.size + (s.thread i).willCount =
        s.cache.list.length + s'.cache.size + pc'.willCount)
    (hpushed : s'.cache.list.length + pc'.willPush + ∑ j, (s.thread j).willPush ≤
      s.cache.maxSize - 1 + T + (s.thread i).willPush)
    (hcounted : s'.cache.size + pc'.uncounted + ∑ j, (s.thread j).uncounted ≤
      s.cache.maxSize - 1 + T + (s.thread i).uncounted) : s'.Room := by
  have hpush := sum_update_add CachePc.willPush s.thread i pc'
  have hcount := sum_update_add CachePc.willCount s.thread i pc'
  have huncounted := sum_update_add CachePc.uncounted s.thread i pc'
  rw [← hthread] at hpush hcount huncounted
  refine ⟨fun hsize => ?_, ?_, ?_⟩
  · rw [hmax] at hsize
    obtain ⟨hsize', hlate, hlength⟩ := hearly hsize
    obtain ⟨hnone, hold⟩ := h.early hsize'
    refine ⟨fun j => ?_, by omega⟩
    by_cases hj : j = i
    · rw [hj, hthread, Function.update_self]
      by_contra htrue
      rw [Bool.not_eq_false] at htrue
      exact Bool.false_ne_true ((hnone i).symm.trans (hlate htrue))
    · rw [hthread, Function.update_of_ne hj, hnone j]
  · rw [hmax]
    omega
  · rw [hmax]
    omega

omit [DecidableEq K] [HashCompare K] in
theorem willPush_add_willCount_le (pc : CachePc K) : pc.willPush + pc.willCount ≤ 1 := by
  cases pc <;> simp [CachePc.willPush, CachePc.willCount]

omit [DecidableEq K] [HashCompare K] in
theorem uncounted_le (pc : CachePc K) : pc.uncounted ≤ 1 := by
  cases pc with
  | pushing key size evictionDone => cases evictionDone <;> simp [CachePc.uncounted]
  | _ => simp [CachePc.uncounted]

theorem takes (h : s.Room) (hledger : s.Ledger) (hs : Takes s i s') : s'.Room := by
  have hpushed := h.pushed
  have hcounted := h.counted
  cases hs with
  | quiet pc' hq =>
    have hpush := hq.willPush
    have hcount := hq.willCount
    have huncounted := hq.uncounted
    exact h.of_move _ rfl rfl (fun hsize => ⟨hsize, hq.late, by rw [hcount]; rfl⟩)
      (by rw [hpush]; show s.cache.list.length + _ + _ ≤ _; omega)
      (by rw [huncounted]; show s.cache.size + _ + _ ≤ _; omega)
  | @touch key pc' hq =>
    have hpush := hq.willPush
    have hcount := hq.willCount
    have huncounted := hq.uncounted
    have hlength := (touch_list_perm s.cache key).length_eq
    have hsize := touch_size s.cache key
    refine h.of_move _ rfl (LRUCache.touch_maxSize s.cache key)
      (fun hless => ⟨hsize ▸ hless, hq.late, ?_⟩) ?_ ?_
    · rw [hcount, hlength, hsize]
    · rw [hpush, hlength]
      omega
    · rw [huncounted, hsize]
      omega
  | insert hi | add hi =>
    refine h.of_move _ rfl rfl (fun hsize => ⟨hsize, fun hlate => absurd hlate Bool.false_ne_true, ?_⟩) ?_ ?_
    · rw [hi]
      rfl
    · rw [hi]
      exact hpushed
    · rw [hi]
      exact hcounted
  | full hi hfull =>
    refine h.of_move _ rfl rfl (fun hsize => absurd hfull (not_le.mpr hsize)) ?_ ?_
    · rw [hi]
      exact hpushed
    · rw [hi]
      exact hcounted
  | room hi hroom =>
    obtain ⟨-, hlength⟩ := h.early hroom
    -- the other threads push or count at most one key each
    have hboth := sum_lt_card willPush_add_willCount_le (f := s.thread) (i := i) (by rw [hi]; rfl)
    have hothers := sum_lt_card uncounted_le (f := s.thread) (i := i) (by rw [hi]; rfl)
    rw [Finset.sum_add_distrib, Fintype.card_fin] at hboth
    rw [Fintype.card_fin] at hothers
    refine h.of_move _ rfl rfl (fun hsize => ⟨hsize, fun hlate => absurd hlate Bool.false_ne_true, ?_⟩) ?_ ?_
    · rw [hi]
      rfl
    · rw [hi]
      show s.cache.list.length + 1 + _ ≤ _ + 0
      omega
    · rw [hi]
      show s.cache.size + 1 + _ ≤ _ + 0
      omega
  | @spare key size hi hspare =>
    -- the key of the thread is not in the list, which is therefore empty
    have hin : key ∈ (s.thread i).inHand := by rw [hi]; exact Multiset.mem_singleton_self key
    have hnil : s.cache.list = [] := by
      rcases hspare with hnil | ⟨l, x, hlist, hequal⟩
      · exact hnil
      · obtain rfl := ((equal_iff x key).mp hequal).1
        exact absurd (by rw [hlist]; simp) (hledger.not_mem_list hin)
    have hothers := sum_lt_card (fun pc => (Nat.le_add_right _ _).trans (willPush_add_willCount_le pc))
      (f := s.thread) (i := i) (by rw [hi]; rfl)
    rw [Fintype.card_fin] at hothers
    refine h.of_move _ rfl rfl (fun hsize => ⟨hsize, fun _ => by rw [hi]; rfl, by rw [hi]; rfl⟩) ?_ ?_
    · rw [hi]
      show s.cache.list.length + 1 + _ ≤ _ + 0
      rw [hnil, List.length_nil]
      omega
    · rw [hi]
      exact hcounted
  | @evict key size l moribund hi hlist =>
    have hlength : s.cache.list.length = l.length + 1 := by rw [hlist, List.length_append]; rfl
    refine h.of_move _ rfl rfl (fun hsize => ?_) ?_ ?_
    · have hlate := (h.early hsize).1 i
      rw [hi] at hlate
      exact absurd hlate (by simp [CachePc.late])
    · rw [hi]
      show l.length + 1 + _ ≤ _ + 0
      omega
    · rw [hi]
      exact hcounted
  | @evictAgain key l moribund hi hlist =>
    have hlength : s.cache.list.length = l.length + 1 := by rw [hlist, List.length_append]; rfl
    refine h.of_move _ rfl rfl (fun hsize => ?_) ?_ ?_
    · have hlate := (h.early hsize).1 i
      rw [hi] at hlate
      exact absurd hlate (by simp [CachePc.late])
    · rw [hi]
      show l.length + 0 + _ ≤ _ + 0
      omega
    · rw [hi]
      exact hcounted
  | erase hi =>
    refine h.of_move (.pushing _ _ true) rfl rfl
      (fun hsize => ⟨hsize, fun _ => by rw [hi]; rfl, by rw [hi]; rfl⟩) ?_ ?_
    · rw [hi]
      show s.cache.list.length + 1 + _ ≤ _ + 1
      omega
    · rw [hi]
      exact hcounted
  | eraseAgain hi =>
    refine h.of_move .idle rfl rfl
      (fun hsize => ⟨hsize, fun _ => by rw [hi]; rfl, by rw [hi]; rfl⟩) ?_ ?_
    · rw [hi]
      exact hpushed
    · rw [hi]
      exact hcounted
  | push hi =>
    refine h.of_move _ rfl rfl (fun hsize => ?_) ?_ ?_
    · have hlate := (h.early hsize).1 i
      rw [hi] at hlate
      exact absurd hlate (by simp [CachePc.late])
    · rw [hi]
      show s.cache.list.length + 1 + 0 + _ ≤ _ + 1
      omega
    · rw [hi]
      exact hcounted
  | pushNew hi =>
    refine h.of_move _ rfl rfl (fun hsize => ⟨hsize, fun hlate => absurd hlate Bool.false_ne_true, ?_⟩) ?_ ?_
    · rw [hi]
      show s.cache.list.length + 1 + s.cache.size + 0 = s.cache.list.length + s.cache.size + 1
      omega
    · rw [hi]
      show s.cache.list.length + 1 + 0 + _ ≤ _ + 1
      omega
    · rw [hi]
      show s.cache.size + 1 + _ ≤ _ + 1
      omega
  | count hi =>
    refine h.of_move _ rfl rfl (fun hsize => ⟨Nat.lt_of_succ_lt hsize,
      fun hlate => absurd hlate Bool.false_ne_true, ?_⟩) ?_ ?_
    · rw [hi]
      show s.cache.list.length + s.cache.size + 1 = s.cache.list.length + (s.cache.size + 1) + 0
      omega
    · rw [hi]
      exact hpushed
    · rw [hi]
      show s.cache.size + 1 + 0 + _ ≤ _ + 1
      omega
  | decrease hi hover =>
    refine h.of_move _ rfl rfl (fun hsize => ?_) ?_ ?_
    · have hless : s.cache.size - 1 < s.cache.maxSize := hsize
      omega
    · rw [hi]
      exact hpushed
    · rw [hi]
      show s.cache.size - 1 + 0 + _ ≤ _ + 0
      omega

end Room

/-! ### Every interleaving -/

variable {a : CacheAction K T} {tr : List (CacheAction K T)} {maxSize : ℕ}

/-- **The invariant.** -/
structure Inv (s : SharedCache K T) : Prop where
  ledger : s.Ledger
  locks : s.Locks
  room : s.Room

namespace Inv

omit [DecidableEq K] in
theorem start (maxSize : ℕ) : (new maxSize : SharedCache K T).Inv :=
  ⟨.start maxSize, .start maxSize, .start maxSize⟩

omit [DecidableEq K] in
/-- A thread calls a function. -/
theorem call (h : s.Inv) (hi : s.thread i = .idle) (pc' : CachePc K) (hhand : pc'.inHand = 0)
    (hpush : pc'.willPush = 0) (hcount : pc'.willCount = 0) (huncounted : pc'.uncounted = 0)
    (hlate : pc'.late = false) (howned : pc'.owned? = none) (hshared : pc'.shared? = none)
    (hcalled : ∀ key, pc'.called? = some key → supported key = true) : (s.move i pc').Inv := by
  refine ⟨h.ledger.of_move _ rfl ?_ h.ledger.nodup h.ledger.supported hcalled,
    h.locks.of_move _ rfl (fun key hkey => ?_) (fun key hkey => ?_) h.locks.present,
    h.room.of_move _ rfl rfl (fun hsize => ⟨hsize, fun htrue => ?_, ?_⟩) ?_ ?_⟩
  · rw [hi, hhand]
    rfl
  · rw [howned] at hkey
    cases hkey
  · rw [hshared] at hkey
    cases hkey
  · rw [hlate] at htrue
    cases htrue
  · rw [hi, hcount]
    rfl
  · rw [hi, hpush]
    exact h.room.pushed
  · rw [hi, huncounted]
    exact h.room.counted

theorem step (h : s.Inv) (hs : s.step a = some s') (ha : a.Supported) : s'.Inv := by
  cases a with
  | increase i key value =>
    simp only [SharedCache.step] at hs
    split_ifs at hs with hi
    obtain rfl := Option.some.inj hs
    exact h.call hi _ rfl rfl rfl rfl rfl rfl rfl fun k hk => Option.some.inj hk ▸ ha
  | find i key =>
    simp only [SharedCache.step] at hs
    split_ifs at hs with hi
    obtain rfl := Option.some.inj hs
    exact h.call hi _ rfl rfl rfl rfl rfl rfl rfl fun k hk => absurd hk (by simp [CachePc.called?])
  | snapshotPairs i =>
    simp only [SharedCache.step] at hs
    split_ifs at hs with hi
    obtain rfl := Option.some.inj hs
    exact h.call hi.1 _ rfl rfl rfl rfl rfl rfl rfl fun k hk => absurd hk (by simp [CachePc.called?])
  | go i =>
    have htakes := takes_of_go hs
    exact ⟨h.ledger.takes htakes, h.locks.takes h.ledger htakes, h.room.takes h.ledger htakes⟩

theorem steps (h : Steps (new maxSize) tr s) (hsupported : ∀ a ∈ tr, a.Supported) : s.Inv := by
  refine h.hist (I := fun tr s => (∀ a ∈ tr, a.Supported) → s.Inv) (fun _ => .start maxSize)
    (fun tr s a s' _ ih hs hsupported => ?_) hsupported
  exact (ih fun b hb => hsupported b (by simp [hb])).step hs (hsupported a (by simp))

end Inv

theorem Takes.maxSize_eq (hs : Takes s i s') : s'.cache.maxSize = s.cache.maxSize := by
  cases hs with
  | touch => exact LRUCache.touch_maxSize _ _
  | _ => rfl

theorem maxSize_steps (h : Steps (new maxSize) tr s) : s.cache.maxSize = maxSize := by
  refine h.hist (I := fun _ s => s.cache.maxSize = maxSize) rfl fun tr s a s' _ ih hs => ?_
  cases a with
  | go i => exact (takes_of_go hs).maxSize_eq.trans ih
  | increase i | find i | snapshotPairs i =>
    simp only [step] at hs
    split_ifs at hs
    obtain rfl := Option.some.inj hs
    exact ih

omit [DecidableEq K] [HashCompare K] in
theorem card_inHand_le (pc : CachePc K) : pc.inHand.card ≤ pc.willPush + 1 := by
  cases pc <;> simp [CachePc.inHand, CachePc.willPush]

/-- **The capacity under threads.**  However `T` threads interleave, the list and the map have every key
once, the list has only keys of the map, and there are at most `T` keys more in the list than one less than
the capacity, and in the map as many again; and when no thread is in a call the list and the map have the
same keys. -/
theorem size_bounded (h : Steps (new maxSize) tr s) (hsupported : ∀ a ∈ tr, a.Supported) :
    (s.cache.list.Nodup ∧ s.cache.mapKeys.Nodup ∧ ∀ key ∈ s.cache.list, key ∈ s.cache.mapKeys) ∧
    (s.cache.list.length ≤ maxSize - 1 + T ∧ s.cache.map.length ≤ maxSize - 1 + 2 * T ∧
      s.cache.size ≤ maxSize - 1 + T) ∧
    ((∀ i, s.thread i = .idle) → s.cache.list.Perm s.cache.mapKeys) := by
  obtain ⟨hledger, -, hroom⟩ := Inv.steps h hsupported
  have hpushed := hroom.pushed
  have hcounted := hroom.counted
  rw [maxSize_steps h] at hpushed hcounted
  have hlength : s.cache.map.length = s.cache.list.length + ∑ j, (s.thread j).inHand.card := by
    have hcard := congrArg Multiset.card hledger.keys
    rwa [Multiset.card_add, Multiset.coe_card, Multiset.coe_card, Multiset.card_sum, LRUCache.mapKeys,
      List.length_map] at hcard
  have hhands : ∑ j, (s.thread j).inHand.card ≤ ∑ j, (s.thread j).willPush + T := by
    have hle : ∑ j, (s.thread j).inHand.card ≤ ∑ j, ((s.thread j).willPush + 1) :=
      Finset.sum_le_sum fun j _ => card_inHand_le (s.thread j)
    simpa [Finset.sum_add_distrib] using hle
  refine ⟨⟨?_, hledger.nodup, fun key hkey => hledger.mem_mapKeys_iff.mpr (.inl hkey)⟩,
    ⟨by omega, by omega, by omega⟩, fun hidle => ?_⟩
  · exact Multiset.coe_nodup.mp (Multiset.nodup_add.mp hledger.nodup_sum).1
  · have hkeys := hledger.keys
    have hnothing : ∑ j, (s.thread j).inHand = 0 :=
      Finset.sum_eq_zero fun j _ => by rw [hidle j]; rfl
    rw [hnothing, add_zero] at hkeys
    exact (Multiset.coe_eq_coe.mp hkeys).symm

/-- Two threads see the room for one key. -/
def filledTogether (i j : Fin T) : List (CacheAction AnyVal T) :=
  [.increase i (.str "a") 1, .go i, .go i, .go i, .increase j (.str "b") 1, .go j, .go j, .go j,
    .go i, .go i, .go i, .go j, .go j, .go j]

/-- The bound is reached. -/
theorem size_bounded_filledTogether : ∃ s : SharedCache AnyVal 2, Steps (new 1) (filledTogether 0 1) s ∧
    s.cache.list = [.str "b", .str "a"] ∧ s.cache.list.length ≤ 1 - 1 + 2 := by
  have hrun : ((filledTogether 0 1 : List (CacheAction AnyVal 2)).foldlM step (new 1)).map
      (fun s => s.cache.list) = some [.str "b", .str "a"] := by decide
  obtain ⟨s, hs, hlist⟩ := Option.map_eq_some_iff.mp hrun
  have hr := run_of_foldlM hs
  obtain ⟨-, ⟨hlength, -⟩, -⟩ := size_bounded hr (by simp [filledTogether, CacheAction.Supported, supported,
    AnyVal.supported])
  exact ⟨s, hr, hlist, hlength⟩

end SharedCache

end SentinelCpp.Param
