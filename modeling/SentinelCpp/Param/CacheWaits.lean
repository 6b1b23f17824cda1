import Mathlib.Data.Fin.VecNotation
import Mathlib.Tactic.Linarith
import SentinelCpp.Param.CacheThreads

/-!
# Waiting and counting in the shared cache

A thread waits for the accessor of a key or for the list.  When no thread can go on, either
`snapshotPairs` has the list and waits for an accessor whose owner waits for the list, or two threads are
in the second eviction and the first waits for the accessor of the second (`stuck`); both happen.  As long
as a key is not evicted no `increase` of it is lost: its counter is the sum, wrapped to 32 bits
(`count_exact`).  A call that nobody disturbs is the
sequential `increase` (`alone`).
-/

namespace SentinelCpp.Param

/-- What a call adds to the counter of the key. -/
def CacheAction.amount {K : Type} {T : ℕ} [DecidableEq K] (key : K) : CacheAction K T → ℤ
  | increase _ k value => if k = key then value else 0
  | _ => 0

namespace SharedCache

open Lib HashCompare

variable {K : Type} {T : ℕ} [DecidableEq K] [HashCompare K] {s s' : SharedCache K T} {i : Fin T}
  {a : CacheAction K T} {tr : List (CacheAction K T)} {maxSize : ℕ}

/-! ### Who waits for whom -/

/-- A thread does not erase the key whose accessor it has. -/
def Distinct (s : SharedCache K T) : Prop :=
  ∀ j key moribund, (s.thread j).owned? = some key → (s.thread j).erases? = some moribund → key ≠ moribund

omit [DecidableEq K] [HashCompare K] in
theorem Distinct.of_move (h : s.Distinct) (pc' : CachePc K)
    (hthread : s'.thread = Function.update s.thread i pc')
    (hpc : ∀ key moribund, pc'.owned? = some key → pc'.erases? = some moribund → key ≠ moribund) :
    s'.Distinct := by
  unfold Distinct
  rw [hthread]
  exact (Function.forall_update_iff s.thread fun _ (pc : CachePc K) => ∀ key moribund,
    pc.owned? = some key → pc.erases? = some moribund → key ≠ moribund).mpr ⟨hpc, fun j _ => h j⟩

omit [DecidableEq K] in
/-- The keys of the list are keys that are found, so that `evict` recognises its own. -/
theorem ne_of_equal_eq_false {key moribund : K} (hledger : s.Ledger) (hmem : moribund ∈ s.cache.list)
    (hne : equal moribund key = false) : key ≠ moribund := by
  rintro rfl
  have hs := hledger.supported key (hledger.mem_mapKeys_iff.mpr (.inl hmem))
  rw [(equal_iff key key).mpr ⟨rfl, hs⟩] at hne
  exact Bool.noConfusion hne

theorem Distinct.takes (h : s.Distinct) (hledger : s.Ledger) (hs : Takes s i s') : s'.Distinct := by
  have hnone : ∀ {pc : CachePc K}, pc.erases? = none → ∀ key moribund, pc.owned? = some key →
      pc.erases? = some moribund → key ≠ moribund := by
    intro pc hpc key moribund _ herases
    rw [hpc] at herases
    cases herases
  cases hs with
  | quiet pc' hq | touch pc' hq => exact h.of_move _ rfl (hnone hq.erases)
  | insert | add | full | room | spare | push | pushNew | count | decrease => exact h.of_move _ rfl (hnone rfl)
  | erase => exact h.of_move (.pushing _ _ true) rfl (hnone rfl)
  | eraseAgain => exact h.of_move .idle rfl (hnone rfl)
  | @evict key size l moribund hi hlist hne | @evictAgain key l moribund hi hlist hne =>
    refine h.of_move _ rfl fun k m hk hm => ?_
    obtain rfl : key = k := Option.some.inj hk
    obtain rfl : moribund = m := Option.some.inj hm
    exact ne_of_equal_eq_false hledger (by rw [hlist]; simp) hne

theorem Distinct.steps (h : Steps (new maxSize) tr s) (hsupported : ∀ a ∈ tr, a.Supported) : s.Distinct := by
  refine h.hist (I := fun tr s => (∀ a ∈ tr, a.Supported) → s.Distinct)
    (fun _ j key m hk => absurd hk (by simp [new, CachePc.owned?])) (fun tr s a s' hrun ih hs hsupported => ?_)
    hsupported
  have hbefore : ∀ b ∈ tr, b.Supported := fun b hb => hsupported b (by simp [hb])
  cases a with
  | go i => exact (ih hbefore).takes (Inv.steps hrun hbefore).ledger (takes_of_go hs)
  | increase i key value | find i key | snapshotPairs i =>
    simp only [step] at hs
    split_ifs at hs
    obtain rfl := Option.some.inj hs
    exact (ih hbefore).of_move _ rfl fun k m hk => absurd hk (by simp [CachePc.owned?])

omit [DecidableEq K] [HashCompare K] in
theorem exists_holds {key : K} (h : ¬ s.Free key) : ∃ j, (s.thread j).Holds key := by
  by_contra hnone
  exact h fun j hj => hnone ⟨j, hj⟩

omit [DecidableEq K] [HashCompare K] in
theorem exists_owned {key : K} (h : ¬ s.Readable key) : ∃ j, (s.thread j).owned? = some key := by
  by_contra hnone
  exact h fun j hj => hnone ⟨j, hj⟩

/-- With the list free, a thread that cannot go on waits for a key that another one has locked; and it has
locked one itself only if it is about to erase that key. -/
theorem waits (hlist : s.ListFree) (hstuck : s.go i = none) (hi : s.thread i ≠ .idle) :
    ∃ key, (∃ j, (s.thread j).Holds key) ∧
      ∀ own, (s.thread i).Holds own → (s.thread i).erases? = some key := by
  unfold go at hstuck
  cases hpc : s.thread i with
  | idle => exact absurd hpc hi
  | increasing key value | inserting key value =>
    rw [hpc] at hstuck
    dsimp only at hstuck
    split at hstuck
    · exact absurd hstuck (by simp)
    · split_ifs at hstuck with hfree
      exact ⟨key, exists_holds hfree, fun own hown => absurd hown
        (by simp [CachePc.Holds, CachePc.owned?, CachePc.shared?])⟩
  | finding key =>
    rw [hpc] at hstuck
    dsimp only at hstuck
    split at hstuck
    · exact absurd hstuck (by simp)
    · split_ifs at hstuck with hreadable
      obtain ⟨j, hj⟩ := exists_owned hreadable
      exact ⟨key, ⟨j, .inl hj⟩, fun own hown => absurd hown
        (by simp [CachePc.Holds, CachePc.owned?, CachePc.shared?])⟩
  | erasing key size moribund | erasingAgain key moribund =>
    rw [hpc] at hstuck
    dsimp only at hstuck
    split_ifs at hstuck with hfree
    exact ⟨moribund, exists_holds fun h => hfree (.inr h), fun _ _ => rfl⟩
  | adding | loading | counting | reading =>
    rw [hpc] at hstuck
    exact absurd hstuck (by simp)
  | touching | pushing | found =>
    rw [hpc] at hstuck
    dsimp only at hstuck
    rw [if_pos hlist] at hstuck
    exact absurd hstuck (by simp)
  | evicting | evictingAgain =>
    rw [hpc] at hstuck
    dsimp only at hstuck
    rw [if_pos hlist] at hstuck
    split at hstuck <;> exact absurd hstuck (by simp)
  | checking =>
    rw [hpc] at hstuck
    dsimp only at hstuck
    split_ifs at hstuck
  | snapping =>
    have hfree := hlist i
    rw [hpc] at hfree
    exact absurd hfree (by simp [CachePc.locksList])

/-- The owner of a key that is about to be erased, when it cannot go on, is in its second eviction. -/
theorem owner_of_erased (hinv : s.Inv) (hdistinct : s.Distinct) (hlist : s.ListFree)
    (hstuck : ∀ j, s.go j = none) {j k : Fin T} {key : K} (hj : (s.thread j).erases? = some key)
    (hk : (s.thread k).Holds key) :
    j ≠ k ∧ ∃ moribund, s.thread k = .erasingAgain key moribund ∧ ∃ l, (s.thread l).Holds moribund := by
  have hactive : s.thread k ≠ .idle := by
    intro hidle
    rw [hidle] at hk
    exact absurd hk (by simp [CachePc.Holds, CachePc.owned?, CachePc.shared?])
  obtain ⟨moribund, hheld, herases⟩ := waits hlist (hstuck k) hactive
  have hmoribund := herases key hk
  have hown : (s.thread k).owned? = some key := by
    refine hk.resolve_right fun hshared => ?_
    cases hpc : s.thread k <;> rw [hpc] at hshared hmoribund <;>
      simp [CachePc.shared?, CachePc.erases?] at hshared hmoribund
  have hne : j ≠ k := by
    rintro rfl
    obtain rfl : key = moribund := Option.some.inj (hj.symm.trans hmoribund)
    exact hdistinct j key key hown hj rfl
  have hinHand : key ∈ (s.thread j).inHand := by
    cases hpc : s.thread j <;> rw [hpc] at hj <;> simp [CachePc.erases?] at hj
    · simp [CachePc.inHand, hj]
    · simp [CachePc.inHand, hj]
  refine ⟨hne, moribund, ?_, hheld⟩
  cases hpc : s.thread k with
  | erasing own size m =>
    -- the key would be in the hands of both
    rw [hpc] at hown
    obtain rfl : own = key := Option.some.inj hown
    exact absurd (hinv.ledger.inHand_unique hinHand (by rw [hpc]; simp [CachePc.inHand])) hne
  | erasingAgain own m =>
    rw [hpc] at hown hmoribund
    obtain rfl : own = key := Option.some.inj hown
    obtain rfl : m = moribund := Option.some.inj hmoribund
    rfl
  | _ =>
    rw [hpc] at hmoribund
    exact absurd hmoribund (by simp [CachePc.erases?])

/-- **The two ways to get stuck.**  When a thread is in a call and none can go on, then either
`snapshotPairs` has the list and waits for a key that a thread has locked, or two threads are in their
second eviction and the one is about to erase the key of the other. -/
theorem stuck (h : Steps (new maxSize) tr s) (hsupported : ∀ a ∈ tr, a.Supported)
    (hi : s.thread i ≠ .idle) (hstuck : ∀ j, s.go j = none) :
    (∃ j k key keys pairs, s.thread j = .snapping (key :: keys) pairs ∧
      (s.thread k).owned? = some key) ∨
    ∃ j k own key moribund, j ≠ k ∧ s.thread j = .erasingAgain own key ∧
      s.thread k = .erasingAgain key moribund := by
  have hinv := Inv.steps h hsupported
  have hdistinct := Distinct.steps h hsupported
  by_cases hlist : s.ListFree
  · refine .inr ?_
    obtain ⟨key₀, ⟨j₀, hj₀⟩, -⟩ := waits hlist (hstuck i) hi
    -- follow the owners: each is about to erase a key that the next one has locked
    have hactive : s.thread j₀ ≠ .idle := by
      intro hidle
      rw [hidle] at hj₀
      exact absurd hj₀ (by simp [CachePc.Holds, CachePc.owned?, CachePc.shared?])
    obtain ⟨key₁, ⟨j₁, hj₁⟩, herases⟩ := waits hlist (hstuck j₀) hactive
    obtain ⟨-, key₂, hpc₁, j₂, hj₂⟩ :=
      owner_of_erased hinv hdistinct hlist hstuck (herases key₀ hj₀) hj₁
    obtain ⟨hne, key₃, hpc₂, -⟩ :=
      owner_of_erased hinv hdistinct hlist hstuck (by rw [hpc₁]; rfl) hj₂
    exact ⟨j₁, j₂, key₁, key₂, key₃, hne, hpc₁, hpc₂⟩
  · refine .inl ?_
    obtain ⟨j, hj⟩ : ∃ j, (s.thread j).locksList = true := by
      by_contra hnone
      exact hlist fun j => Bool.eq_false_of_not_eq_true fun hj => hnone ⟨j, hj⟩
    have hgo := hstuck j
    unfold go at hgo
    cases hpc : s.thread j with
    | snapping keys pairs =>
      rw [hpc] at hgo
      cases keys with
      | nil => exact absurd hgo (by simp)
      | cons key keys =>
        dsimp only at hgo
        split at hgo
        · exact absurd hgo (by simp)
        · split_ifs at hgo with hreadable
          obtain ⟨k, hk⟩ := exists_owned hreadable
          exact ⟨j, k, key, keys, pairs, hpc, hk⟩
    | _ =>
      rw [hpc] at hj
      exact absurd hj (by simp [CachePc.locksList])

/-- `snapshotPairs` between the two halves of an `increase`. -/
def snapshotMeetsIncrease (i j : Fin T) : List (CacheAction AnyVal T) :=
  [.increase i (.str "a") 1, .go i, .go i, .go i, .go i, .go i, .go i, .increase j (.str "a") 1, .go j,
    .go j, .snapshotPairs i]

theorem stuck_snapshotMeetsIncrease : ∃ s : SharedCache AnyVal 2, Steps (new 1) (snapshotMeetsIncrease 0 1) s ∧
    ((∃ j k key keys pairs, s.thread j = .snapping (key :: keys) pairs ∧
      (s.thread k).owned? = some key) ∨
    ∃ j k own key moribund, j ≠ k ∧ s.thread j = .erasingAgain own key ∧
      s.thread k = .erasingAgain key moribund) := by
  have hrun : ((snapshotMeetsIncrease 0 1 : List (CacheAction AnyVal 2)).foldlM step (new 1)).map
      (fun s => (s.thread 0, (s.go 0).isNone, (s.go 1).isNone)) =
        some (.snapping [.str "a"] [], true, true) := by decide
  obtain ⟨s, hs, hend⟩ := Option.map_eq_some_iff.mp hrun
  simp only [Prod.mk.injEq, Option.isNone_iff_eq_none] at hend
  have hr := run_of_foldlM hs
  refine ⟨s, hr, stuck hr (by simp [snapshotMeetsIncrease, CacheAction.Supported, supported,
    AnyVal.supported]) (i := 0) (by simp [hend.1]) ?_⟩
  exact Fin.forall_fin_two.mpr hend.2

/-- Three threads overfill a cache for one key; then two of them evict again, and each takes the key of the
other. -/
example : (([.increase 0 (.str "x") 1, .go 0, .go 0, .go 0, .increase 1 (.str "y") 1, .go 1, .go 1, .go 1,
      .increase 2 (.str "z") 1, .go 2, .go 2, .go 2, .go 0, .go 0, .go 0, .go 1, .go 1, .go 1, .go 2, .go 2,
      .go 2, .increase 0 (.str "a") 1, .go 0, .go 0, .go 0, .go 0, .go 0, .go 0, .go 0,
      .increase 1 (.str "b") 1, .go 1, .go 1, .go 1, .go 1, .go 1, .go 1, .go 1,
      .find 2 (.str "z"), .go 2, .go 2, .go 2, .go 1, .go 0] :
        List (CacheAction AnyVal 3)).foldlM step (new 1)).map
      (fun s => (s.thread 0, s.thread 1, (s.go 0).isNone, (s.go 1).isNone)) =
    some (.erasingAgain (.str "a") (.str "b"), .erasingAgain (.str "b") (.str "a"), true, true) := by decide

/-! ### Counting -/

/-- A step that erases the key. -/
def Erases (key : K) (s : SharedCache K T) (a : CacheAction K T) : Prop :=
  ∃ i, a = .go i ∧ (s.thread i).erases? = some key

instance (key : K) (s : SharedCache K T) (a : CacheAction K T) : Decidable (Erases key s a) :=
  inferInstanceAs (Decidable (∃ _, _))

/-- What the counter of the key will have, with what threads are about to add to it. -/
def total (s : SharedCache K T) (key : K) : ℤ :=
  toInt32 (s.cache.count key + ∑ j, (s.thread j).owed key)

section Count

variable {key k : K} {value : ℤ}

omit [DecidableEq K] in
theorem lookup_ne_none (hkey : supported key = true) (hmem : key ∈ s.cache.mapKeys) :
    s.cache.lookup key ≠ none := fun hnone => LRUCache.lookup_eq_none_iff.mp hnone hkey hmem

theorem count_insert (hkey : supported key = true) (hk : s.cache.lookup k = none) :
    LRUCache.count { s.cache with map := s.cache.map ++ [(k, toInt32 value)] } key =
      if k = key then toInt32 (s.cache.count key + value) else s.cache.count key := by
  have hfind := Option.map_eq_none_iff.mp hk
  unfold LRUCache.count LRUCache.lookup
  dsimp only
  rw [LRUCache.find?_concat hfind]
  by_cases heq : k = key
  · subst heq
    rw [if_pos ((equal_iff k k).mpr ⟨rfl, hkey⟩), if_pos rfl, hfind]
    simp
  · rw [LRUCache.equal_false_of_ne heq, if_neg heq]
    simp

theorem count_fetchAdd (hkey : k = key → s.cache.lookup key ≠ none) :
    LRUCache.count { s.cache with map := s.cache.map.map (LRUCache.fetchAdd k value) } key =
      if k = key then toInt32 (s.cache.count key + value) else s.cache.count key := by
  unfold LRUCache.count LRUCache.lookup at *
  dsimp only
  rw [LRUCache.find?_map_fetchAdd]
  cases hfind : s.cache.map.find? (fun p => equal p.1 key) with
  | none =>
    have hne : k ≠ key := fun heq => hkey heq (by rw [hfind]; rfl)
    simp [hne]
  | some p =>
    have hequal : equal p.1 key = true := by simpa using List.find?_some hfind
    obtain ⟨hp, hs⟩ := (equal_iff _ _).mp hequal
    by_cases heq : k = key
    · subst heq
      simp [LRUCache.fetchAdd, hequal]
    · have hother : equal p.1 k = false := LRUCache.equal_false_of_ne fun h => heq (h.symm.trans hp)
      simp [LRUCache.fetchAdd, hother, heq]

omit [DecidableEq K] in
theorem count_erase (hne : k ≠ key) : (s.erase k).cache.count key = s.cache.count key := by
  unfold LRUCache.count LRUCache.lookup erase
  dsimp only
  rw [LRUCache.find?_filter_ne, LRUCache.equal_false_of_ne hne]
  rfl

omit [HashCompare K] in
theorem total_of_move [HashCompare K] (pc' : CachePc K)
    (hthread : s'.thread = Function.update s.thread i pc')
    (hcount : toInt32 (s'.cache.count key + pc'.owed key) =
      toInt32 (s.cache.count key + (s.thread i).owed key)) :
    s'.total key = s.total key := by
  have hsum := sum_update_add (CachePc.owed key) s.thread i pc'
  rw [← hthread] at hsum
  -- the other threads owe what they owed
  have hother : ∀ x : ℤ, toInt32 (s'.cache.count key + pc'.owed key + x) =
      toInt32 (s.cache.count key + (s.thread i).owed key + x) := by
    intro x
    rw [← toInt32_add_left, hcount, toInt32_add_left]
  have hrest := hother (∑ j, (s.thread j).owed key - (s.thread i).owed key)
  unfold total
  calc toInt32 (s'.cache.count key + ∑ j, (s'.thread j).owed key)
      = toInt32 (s'.cache.count key + pc'.owed key +
          (∑ j, (s.thread j).owed key - (s.thread i).owed key)) := by
        congr 1
        linarith
    _ = toInt32 (s.cache.count key + ∑ j, (s.thread j).owed key) := by
        rw [hrest]
        congr 1
        linarith

/-- A step of a thread changes what it owes into what the counter has. -/
theorem Takes.total_eq (hs : Takes s i s') (hinv : s.Inv) (hkey : supported key = true)
    (hkept : (s.thread i).erases? ≠ some key) : s'.total key = s.total key := by
  cases hs with
  | quiet pc' hq => exact total_of_move _ rfl (by rw [hq.owed]; rfl)
  | @touch k pc' hq =>
    refine total_of_move _ rfl ?_
    rw [hq.owed, LRUCache.count, LRUCache.lookup_congr (LRUCache.touch_map s.cache k) key]
    rfl
  | @insert k value hi hk =>
    refine total_of_move _ rfl ?_
    rw [count_insert hkey hk, hi]
    by_cases heq : k = key
    · simp [CachePc.owed, heq]
    · simp [CachePc.owed, heq]
  | @add k value hi =>
    have hpresent := hinv.locks.present i k (by rw [hi]; exact .inl rfl)
    refine total_of_move _ rfl ?_
    rw [count_fetchAdd fun heq => lookup_ne_none hkey (heq ▸ hpresent), hi]
    by_cases heq : k = key
    · simp [CachePc.owed, heq]
    · simp [CachePc.owed, heq]
  | full hi | room hi | spare hi | push hi | pushNew hi | count hi | decrease hi | evict hi | evictAgain hi =>
    refine total_of_move _ rfl ?_
    rw [hi]
    rfl
  | @erase k size m hi =>
    refine total_of_move (.pushing k size true) rfl ?_
    have hne : m ≠ key := fun heq => hkept (by rw [hi, heq]; rfl)
    rw [hi]
    exact congrArg (fun x => toInt32 (x + 0)) (count_erase hne)
  | @eraseAgain k m hi =>
    refine total_of_move .idle rfl ?_
    have hne : m ≠ key := fun heq => hkept (by rw [hi, heq]; rfl)
    rw [hi]
    exact congrArg (fun x => toInt32 (x + 0)) (count_erase hne)

/-- What the map stores is an `int`. -/
theorem stored_steps (h : Steps (new maxSize) tr s) : ∀ p ∈ s.cache.map, toInt32 p.2 = p.2 := by
  refine h.hist (I := fun _ s => ∀ p ∈ s.cache.map, toInt32 p.2 = p.2) (by simp [new, LRUCache.mk'])
    fun tr s a s' _ ih hs => ?_
  cases a with
  | increase i key value | find i key | snapshotPairs i =>
    simp only [step] at hs
    split_ifs at hs
    obtain rfl := Option.some.inj hs
    exact ih
  | go i =>
    cases takes_of_go hs with
    | insert =>
      intro p hp
      rcases List.mem_append.mp hp with hp | hp
      · exact ih p hp
      · rw [List.mem_singleton.mp hp]
        exact toInt32_toInt32 _
    | add =>
      intro p hp
      obtain ⟨q, hq, rfl⟩ := List.mem_map.mp hp
      unfold LRUCache.fetchAdd
      split
      · exact toInt32_toInt32 _
      · exact ih q hq
    | touch =>
      rw [LRUCache.touch_map]
      exact ih
    | erase | eraseAgain => exact fun p hp => ih p (List.mem_of_mem_filter hp)
    | _ => exact ih

theorem toInt32_count (h : Steps (new maxSize) tr s) : toInt32 (s.cache.count key) = s.cache.count key := by
  unfold LRUCache.count LRUCache.lookup
  cases hfind : s.cache.map.find? fun p => equal p.1 key with
  | none => rfl
  | some p => exact stored_steps h p (List.mem_of_find?_eq_some hfind)

/-- **No `increase` is lost.**  In every interleaving in which a key is not evicted, its counter with what
threads are about to add to it is what all calls have added, wrapped to an `int`; with no thread in a call
the counter alone is, and the sum itself when that is an `int`. -/
theorem count_exact (h : Steps (new maxSize) tr s) (hsupported : ∀ a ∈ tr, a.Supported)
    (hkey : supported key = true)
    (hkept : EveryStep (fun s a s' => s.step a = some s') (new maxSize : SharedCache K T)
      (fun s a => ¬ Erases key s a) tr) :
    let sum := (tr.map (CacheAction.amount key)).sum
    s.total key = toInt32 sum ∧ ((∀ j, s.thread j = .idle) → s.cache.count key = toInt32 sum ∧
      (-2 ^ 31 ≤ sum ∧ sum < 2 ^ 31 → s.cache.count key = sum)) := by
  have htotal : s.total key = toInt32 (tr.map (CacheAction.amount key)).sum := by
    refine h.hist (I := fun tr s => (∀ a ∈ tr, a.Supported) →
      EveryStep (fun s a s' => s.step a = some s') (new maxSize : SharedCache K T)
        (fun s a => ¬ Erases key s a) tr → s.total key = toInt32 (tr.map (CacheAction.amount key)).sum)
      (fun _ _ => ?_) (fun tr s a s' hrun ih hs hsupported hkept => ?_) hsupported hkept
    · simp [total, new, CachePc.owed, LRUCache.count]
    have hbefore : ∀ b ∈ tr, b.Supported := fun b hb => hsupported b (by simp [hb])
    have hold := ih hbefore (hkept.mono (List.prefix_append tr [a]))
    rw [List.map_append, List.sum_append, ← toInt32_add_left, ← hold]
    -- a call that adds nothing to the key
    have hnothing : CacheAction.amount key a = 0 → s'.total key = s.total key →
        s'.total key = toInt32 (s.total key + ([a].map (CacheAction.amount key)).sum) := by
      intro hzero hsame
      rw [hsame, List.map_singleton, List.sum_singleton, hzero, add_zero, total, toInt32_toInt32]
    cases a with
    | go i =>
      have hnot : (s.thread i).erases? ≠ some key := fun heq => hkept.last hrun ⟨i, rfl, heq⟩
      exact hnothing rfl ((takes_of_go hs).total_eq (Inv.steps hrun hbefore) hkey hnot)
    | increase i k value =>
      simp only [step] at hs
      split_ifs at hs with hi
      obtain rfl := Option.some.inj hs
      have hsum := sum_update_add (CachePc.owed key) s.thread i (.increasing k value)
      rw [hi] at hsum
      have howed : ∑ j, ((s.move i (.increasing k value)).thread j).owed key =
          ∑ j, (s.thread j).owed key + if k = key then value else 0 := (add_zero _).symm.trans hsum
      rw [total, total, howed, List.map_singleton, List.sum_singleton, toInt32_add_left, ← add_assoc]
      rfl
    | find i k =>
      simp only [step] at hs
      split_ifs at hs with hi
      obtain rfl := Option.some.inj hs
      exact hnothing rfl (total_of_move _ rfl (by rw [hi]; rfl))
    | snapshotPairs i =>
      simp only [step] at hs
      split_ifs at hs with hi
      obtain rfl := Option.some.inj hs
      exact hnothing rfl (total_of_move _ rfl (by rw [hi.1]; rfl))
  refine ⟨htotal, fun hidle => ?_⟩
  have hnothing : ∑ j, (s.thread j).owed key = 0 :=
    Finset.sum_eq_zero fun j _ => by rw [hidle j]; rfl
  have hcount : s.cache.count key = toInt32 (tr.map (CacheAction.amount key)).sum := by
    rw [← htotal, total, hnothing, add_zero, toInt32_count h]
  exact ⟨hcount, fun hfits => hcount.trans (toInt32_of_bounds hfits.1 hfits.2)⟩

end Count

/-- Two threads count one key together. -/
def countedTogether (i j : Fin T) : List (CacheAction AnyVal T) :=
  [.increase i (.str "a") 2, .go i, .increase j (.str "a") 3, .go j, .go i, .go i, .go i, .go i, .go i, .go j,
    .go j, .go j]

theorem count_exact_countedTogether : ∃ s : SharedCache AnyVal 2, Steps (new 1) (countedTogether 0 1) s ∧
    s.cache.count (.str "a") = 5 := by
  have hrun : ((countedTogether 0 1 : List (CacheAction AnyVal 2)).foldlM step (new 1)).map
      (fun s => (s.thread 0, s.thread 1)) = some (.idle, .idle) := by decide
  obtain ⟨s, hs, hend⟩ := Option.map_eq_some_iff.mp hrun
  obtain ⟨h0, h1⟩ := Prod.mk.inj hend
  have hr := run_of_foldlM hs
  have hpasses : passes step (fun s a => !decide (Erases (.str "a") s a)) (new 1 : SharedCache AnyVal 2)
      (countedTogether 0 1) = true := by decide
  have hkept := everyStep_of_passes hpasses
  have ha : supported (AnyVal.str "a") = true := rfl
  obtain ⟨-, hcount⟩ := count_exact hr (by simp [countedTogether, CacheAction.Supported, supported,
    AnyVal.supported]) ha (fun tr₁ s₁ a hp hr => by simpa using hkept tr₁ s₁ a hp hr)
  exact ⟨s, hr, (hcount (Fin.forall_fin_two.mpr ⟨h0, h1⟩)).2 (by decide)⟩

/-! ### A call that nobody disturbs -/

/-- Thread `i` takes steps. -/
abbrev Goes (i : Fin T) : SharedCache K T → SharedCache K T → Prop :=
  Relation.ReflTransGen fun s s' => s.go i = some s'

/-- The threads `f`, with thread `i` at `pc`. -/
def solo (f : Fin T → CachePc K) (i : Fin T) (c : LRUCache K) (pc : CachePc K) : SharedCache K T :=
  ⟨c, Function.update f i pc⟩

section Alone

variable {f : Fin T → CachePc K} {c : LRUCache K} {key moribund : K} {value : ℤ} {size : ℕ} {pc pc' : CachePc K}

omit [DecidableEq K] [HashCompare K] in
@[simp] theorem solo_cache : (solo f i c pc).cache = c := rfl

omit [DecidableEq K] [HashCompare K] in
@[simp] theorem solo_thread : (solo f i c pc).thread i = pc := by simp [solo]

omit [DecidableEq K] [HashCompare K] in
@[simp] theorem solo_move : (solo f i c pc).move i pc' = solo f i c pc' := by simp [solo, move]

omit [DecidableEq K] [HashCompare K] in
@[simp] theorem solo_with {c' : LRUCache K} : { solo f i c pc with cache := c' } = solo f i c' pc := rfl

omit [DecidableEq K] [HashCompare K] in
@[simp] theorem solo_delink :
    (solo f i c pc).delink = solo f i { c with list := c.list.dropLast } pc := rfl

omit [DecidableEq K] in
@[simp] theorem solo_erase : (solo f i c pc).erase moribund =
    solo f i { c with map := c.map.filter fun p => !equal p.1 moribund } pc := rfl

omit [DecidableEq K] [HashCompare K] in
/-- Nobody else locks a key. -/
theorem free_solo (hf : ∀ j, j ≠ i → f j = .idle) (hpc : ¬ pc.Holds key) : (solo f i c pc).Free key := by
  intro j
  by_cases hj : j = i
  · rw [hj, solo_thread]
    exact hpc
  · show ¬ (Function.update f i pc j).Holds key
    rw [Function.update_of_ne hj, hf j hj]
    simp [CachePc.Holds, CachePc.owned?, CachePc.shared?]

omit [DecidableEq K] [HashCompare K] in
theorem listFree_solo (hf : ∀ j, j ≠ i → f j = .idle) (hpc : pc.locksList = false) :
    (solo f i c pc).ListFree := by
  intro j
  by_cases hj : j = i
  · rw [hj, solo_thread]
    exact hpc
  · show (Function.update f i pc j).locksList = false
    rw [Function.update_of_ne hj, hf j hj]
    rfl

/-- The eviction for a new key: the list first, then the map. -/
theorem goes_evict (hf : ∀ j, j ≠ i → f j = .idle) (hkey : supported key = true) :
    Goes i (solo f i c (.evicting key size)) (solo f i (c.evict key) (.pushing key size true)) := by
  have hlist : (solo f i c (.evicting key size)).ListFree := listFree_solo hf rfl
  unfold LRUCache.evict
  cases hlast : c.list.getLast? with
  | none =>
    refine .single ?_
    simp [go, hlist, moribund?, hlast]
  | some moribund =>
    dsimp only
    by_cases hequal : equal moribund key = true
    · rw [if_pos hequal]
      refine .single ?_
      simp [go, hlist, moribund?, hlast, hequal]
    · rw [if_neg hequal]
      have hne : key ≠ moribund := by
        rintro rfl
        exact hequal ((equal_iff key key).mpr ⟨rfl, hkey⟩)
      have hfree : (solo f i { c with list := c.list.dropLast } (.erasing key size moribund)).Free moribund :=
        free_solo hf (by simp [CachePc.Holds, CachePc.owned?, CachePc.shared?, hne])
      refine .head (b := solo f i { c with list := c.list.dropLast } (.erasing key size moribund)) ?_ (.single ?_)
      · simp [go, hlist, moribund?, hlast, hequal]
      · simp [go, hfree]

/-- The second eviction. -/
theorem goes_evictAgain (hf : ∀ j, j ≠ i → f j = .idle) (hkey : supported key = true) :
    Goes i (solo f i c (.evictingAgain key)) (solo f i (c.evict key) .idle) := by
  have hlist : (solo f i c (.evictingAgain key)).ListFree := listFree_solo hf rfl
  unfold LRUCache.evict
  cases hlast : c.list.getLast? with
  | none =>
    refine .single ?_
    simp [go, hlist, moribund?, hlast]
  | some moribund =>
    dsimp only
    by_cases hequal : equal moribund key = true
    · rw [if_pos hequal]
      refine .single ?_
      simp [go, hlist, moribund?, hlast, hequal]
    · rw [if_neg hequal]
      have hne : key ≠ moribund := by
        rintro rfl
        exact hequal ((equal_iff key key).mpr ⟨rfl, hkey⟩)
      have hfree : (solo f i { c with list := c.list.dropLast } (.erasingAgain key moribund)).Free moribund :=
        free_solo hf (by simp [CachePc.Holds, CachePc.owned?, CachePc.shared?, hne])
      refine .head (b := solo f i { c with list := c.list.dropLast } (.erasingAgain key moribund)) ?_ (.single ?_)
      · simp [go, hlist, moribund?, hlast, hequal]
      · simp [go, hfree]

theorem go_push (hf : ∀ j, j ≠ i → f j = .idle) (evictionDone : Bool) :
    (solo f i c (.pushing key size evictionDone)).go i = some (solo f i { c with list := key :: c.list }
      (if evictionDone = true then .checking key size else .counting key)) := by
  have hlist : (solo f i c (.pushing key size evictionDone)).ListFree := listFree_solo hf rfl
  simp [go, hlist]

theorem goes_check (hf : ∀ j, j ≠ i → f j = .idle) (hkey : supported key = true)
    (hsize : size > c.maxSize → c.size = size) :
    Goes i (solo f i c (.checking key size))
      (solo f i (if size > c.maxSize then LRUCache.evict { c with size := size - 1 } key else c) .idle) := by
  by_cases hover : size > c.maxSize
  · rw [if_pos hover]
    exact .head (b := solo f i { c with size := size - 1 } (.evictingAgain key))
      (by simp [go, hover, hsize hover]) (goes_evictAgain hf hkey)
  · rw [if_neg hover]
    exact .single (by simp [go, hover])

omit [DecidableEq K] in
theorem evict_size : (c.evict key).size = c.size := by
  unfold LRUCache.evict
  split
  · rfl
  · split <;> rfl

/-- The insertion of a new key. -/
theorem goes_insert (hf : ∀ j, j ≠ i → f j = .idle) (hkey : supported key = true)
    (hnew : c.lookup key = none) :
    Goes i (solo f i c (.inserting key value)) (solo f i (c.insert key value) .idle) := by
  unfold LRUCache.insert
  refine .head (b := solo f i { c with map := c.map ++ [(key, toInt32 value)] } (.loading key))
    (by simp [go, hnew]) ?_
  by_cases hfull : c.size ≥ c.maxSize
  · simp only [hfull, decide_true, if_true]
    refine .head (b := solo f i { c with map := c.map ++ [(key, toInt32 value)] } (.evicting key c.size))
      (by simp [go, hfull]) ((goes_evict hf hkey).trans (.head (go_push hf true) ?_))
    exact goes_check hf hkey fun _ => evict_size
  · simp only [hfull, decide_false, Bool.false_eq_true, if_false]
    refine .head (b := solo f i { c with map := c.map ++ [(key, toInt32 value)] } (.pushing key c.size false))
      (by simp [go, hfull]) (.head (go_push hf false) (.head (by simp [go]; rfl) ?_))
    exact goes_check hf hkey fun hover => absurd (le_of_lt hover) hfull

/-- **Alone.**  A call of `increase` with no other thread in a call ends, with what the sequential
`increase` does. -/
theorem alone (hi : s.thread i = .increasing key value) (hothers : ∀ j, j ≠ i → s.thread j = .idle)
    (hkey : supported key = true) :
    Goes i s { s.move i .idle with cache := s.cache.increase key value } := by
  have hs : s = solo s.thread i s.cache (.increasing key value) := by
    rw [solo, ← hi, Function.update_eq_self]
  have hend : { s.move i .idle with cache := s.cache.increase key value } =
      solo s.thread i (s.cache.increase key value) .idle := rfl
  rw [hend]
  unfold LRUCache.increase
  cases hlookup : s.cache.lookup key with
  | none =>
    refine .head (b := solo s.thread i s.cache (.inserting key value)) ?_ (goes_insert hothers hkey hlookup)
    conv_lhs => rw [hs]
    simp [go, hlookup]
  | some v =>
    have hfree : (solo s.thread i s.cache (.increasing key value)).Free key :=
      free_solo hothers (by simp [CachePc.Holds, CachePc.owned?, CachePc.shared?])
    refine .head (b := solo s.thread i s.cache (.adding key value)) ?_ (.head (by simp [go]; rfl) (.single ?_))
    · conv_lhs => rw [hs]
      simp [go, hlookup, hfree]
    · have hlist : (solo s.thread i { s.cache with map := s.cache.map.map (LRUCache.fetchAdd key value) }
        (.touching key)).ListFree := listFree_solo hothers rfl
      simp [go, hlist]

end Alone

/-- A key for which another one is evicted. -/
theorem alone_evicts : Goes 0
    (⟨⟨1, 1, [(.str "x", 4)], [.str "x"]⟩, ![.increasing (.str "a") 1, .idle]⟩ : SharedCache AnyVal 2)
    ⟨⟨1, 1, [(.str "a", 1)], [.str "a"]⟩, ![.idle, .idle]⟩ := by
  have hcall : (⟨⟨1, 1, [(.str "x", 4)], [.str "x"]⟩,
      ![.increasing (.str "a") 1, .idle]⟩ : SharedCache AnyVal 2).thread 0 = .increasing (.str "a") 1 := rfl
  have hgoes := alone hcall (by decide) rfl
  have hthread : Function.update (![.increasing (.str "a") 1, .idle] : Fin 2 → CachePc AnyVal) 0 .idle =
      ![.idle, .idle] := funext (Fin.forall_fin_two.mpr ⟨rfl, rfl⟩)
  have hcache : LRUCache.increase (⟨1, 1, [(.str "x", 4)], [.str "x"]⟩ : LRUCache AnyVal) (.str "a") 1 =
      ⟨1, 1, [(.str "a", 1)], [.str "a"]⟩ := rfl
  rwa [hcache, move, hthread] at hgoes

end SharedCache

end SentinelCpp.Param
