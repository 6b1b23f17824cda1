import Mathlib.Algebra.BigOperators.Group.List.Basic
import Mathlib.Algebra.Order.BigOperators.Group.List
import Mathlib.Algebra.Order.Ring.Nat
import Mathlib.Data.List.Nodup
import Mathlib.Logic.Function.Basic
import Mathlib.Tactic.Ring
import SentinelCpp.Lib.Pointwise

/-!
# A ring of time buckets and the history it stands for

A ring has `n` slots; the bucket `k` (the times `t` with `t / b = k`) lives in slot `k % n`, and a
slot is reused by bucket `k + n`.  A slot that is never visited again keeps its old bucket.
`Holds n b rel slot h now` ties the slots to the history `h` of timed events: a slot holds the last
bucket of its class that was visited, and its value stands (`rel`) for the events of that bucket.
`Stores` says the same of visits in any order, where events of a bucket that is gone are not stored.
`Holds.values_cover` is what readers use: once the slot of the current time has been visited, the
slots that are not too old are exactly the buckets of the window, up to buckets without events.
-/

namespace SentinelCpp.Lib

variable {T E : Type*}

/-- Timed events, oldest first. -/
abbrev Hist (E : Type*) := List (ℕ × E)

/-- The events whose time lies in bucket `k`. -/
def inBucket (b k : ℕ) (h : Hist E) : List E := (h.filter (fun x => x.1 / b = k)).map Prod.snd

/-- Bucket `k` is one of the `n` buckets that end with the bucket of time `t`. -/
def InWindow (n b t k : ℕ) : Prop := k ≤ t / b ∧ t / b < k + n

instance (n b t k : ℕ) : Decidable (InWindow n b t k) := inferInstanceAs (Decidable (_ ∧ _))

/-- The events of the window that ends at time `t`. -/
def inWindow (n b t : ℕ) (h : Hist E) : List E :=
  (h.filter (fun x => InWindow n b t (x.1 / b))).map Prod.snd

/-- The buckets of the window that ends at time `t`, oldest first. -/
def windowBuckets (n b t : ℕ) : List ℕ := (List.range (t / b + 1)).filter (InWindow n b t)

@[simp] theorem inBucket_nil (b k : ℕ) : inBucket b k ([] : Hist E) = [] := rfl

theorem inBucket_append (b k : ℕ) (h h' : Hist E) :
    inBucket b k (h ++ h') = inBucket b k h ++ inBucket b k h' := by
  simp [inBucket]

theorem inBucket_concat (b k : ℕ) (h : Hist E) (t : ℕ) (e : E) :
    inBucket b k (h ++ [(t, e)]) = inBucket b k h ++ if t / b = k then [e] else [] := by
  by_cases hk : t / b = k <;> simp [inBucket, List.filter_append, hk]

theorem inBucket_append_at (b k : ℕ) (h : Hist E) (t : ℕ) (es : List E) :
    inBucket b k (h ++ es.map fun e => (t, e)) = inBucket b k h ++ if t / b = k then es else [] := by
  rw [inBucket_append]
  congr 1
  unfold inBucket
  by_cases hk : t / b = k
  · rw [if_pos hk, List.filter_eq_self.mpr (by simpa using fun _ _ => hk), List.map_map]
    exact List.map_id es
  · rw [if_neg hk, List.filter_eq_nil_iff.mpr (by simpa using fun _ _ => hk), List.map_nil]

theorem mem_inBucket {b k : ℕ} {h : Hist E} {e : E} :
    e ∈ inBucket b k h ↔ ∃ t, (t, e) ∈ h ∧ t / b = k := by
  simp [inBucket]

theorem inBucket_eq_nil {b k : ℕ} {h : Hist E} : inBucket b k h = [] ↔ ∀ x ∈ h, x.1 / b ≠ k := by
  simp [inBucket, List.filter_eq_nil_iff]

theorem mem_windowBuckets {n b t k : ℕ} : k ∈ windowBuckets n b t ↔ InWindow n b t k := by
  have hrange : InWindow n b t k → k < t / b + 1 := fun h => Nat.lt_succ_of_le h.1
  rw [windowBuckets, List.mem_filter, List.mem_range, decide_eq_true_eq]
  exact and_iff_right_of_imp hrange

theorem nodup_windowBuckets (n b t : ℕ) : (windowBuckets n b t).Nodup :=
  List.nodup_range.filter _

/-- A window has at most `n` buckets. -/
theorem length_windowBuckets_le (n b t : ℕ) : (windowBuckets n b t).length ≤ n := by
  have hsub : windowBuckets n b t ⊆ List.range' (t / b + 1 - n) n := by
    intro k hk
    obtain ⟨h1, h2⟩ := mem_windowBuckets.mp hk
    rw [List.mem_range'_1]
    omega
  have hlength := (List.subperm_of_subset (nodup_windowBuckets n b t) hsub).length_le
  rwa [List.length_range'] at hlength

/-- Two buckets of one window in the same slot are equal. -/
theorem eq_of_inWindow {n b t k k' : ℕ} (h : InWindow n b t k) (h' : InWindow n b t k')
    (hm : k % n = k' % n) : k = k' := by
  obtain ⟨h1, h2⟩ := h
  obtain ⟨h3, h4⟩ := h'
  have hd := Nat.div_add_mod k n
  have hd' := Nat.div_add_mod k' n
  have hq : k / n = k' / n := by
    by_contra hne
    rcases Nat.lt_or_gt_of_ne hne with hlt | hlt
    · have := Nat.mul_le_mul_left n (Nat.succ_le_of_lt hlt)
      rw [Nat.mul_succ] at this
      omega
    · have := Nat.mul_le_mul_left n (Nat.succ_le_of_lt hlt)
      rw [Nat.mul_succ] at this
      omega
  rw [hq, hm] at hd
  omega

/-- With one bucket, the window of time `t` is its bucket up to `t`. -/
theorem inWindow_one {b t : ℕ} {h : Hist E} (hb : 0 < b) (hpast : ∀ x ∈ h, x.1 ≤ t) :
    inWindow 1 b t h =
      (h.filter fun x => b * (t / b) ≤ x.1 ∧ x.1 ≤ t).map Prod.snd := by
  rw [inWindow]
  congr 1
  refine List.filter_congr fun x hx => decide_eq_decide.mpr ?_
  have hle := hpast x hx
  constructor
  · rintro ⟨-, hlt⟩
    have hdiv : t / b ≤ x.1 / b := Nat.le_of_lt_succ hlt
    rw [Nat.mul_comm]
    exact ⟨(Nat.le_div_iff_mul_le hb).mp hdiv, hle⟩
  · rintro ⟨hge, -⟩
    rw [Nat.mul_comm] at hge
    exact ⟨Nat.div_le_div_right hle, Nat.lt_succ_of_le ((Nat.le_div_iff_mul_le hb).mpr hge)⟩

/-! ## Summing over the buckets of a window -/

section Sum

variable {M : Type*} [AddCommMonoid M] (f : E → M)

theorem sum_inBucket_of_nodup {b : ℕ} {ks : List ℕ} (hks : ks.Nodup) (h : Hist E) :
    (ks.map (fun k => ((inBucket b k h).map f).sum)).sum =
      ((h.filter (fun x => x.1 / b ∈ ks)).map (fun x => f x.2)).sum := by
  induction h with
  | nil => simp
  | cons x h ih =>
    have hsplit : ∀ k, ((inBucket b k (x :: h)).map f).sum =
        (if k = x.1 / b then f x.2 else 0) + ((inBucket b k h).map f).sum := by
      intro k
      by_cases hk : x.1 / b = k
      · simp [inBucket, hk]
      · simp [inBucket, hk, Ne.symm hk]
    simp only [hsplit, List.sum_map_add, ih]
    have hone : (ks.map (fun k => if k = x.1 / b then f x.2 else 0)).sum =
        if x.1 / b ∈ ks then f x.2 else 0 := by
      clear ih hsplit
      induction ks with
      | nil => simp
      | cons k ks ihk =>
        obtain ⟨hk, hks⟩ := List.nodup_cons.mp hks
        rw [List.map_cons, List.sum_cons, ihk hks]
        by_cases hx : k = x.1 / b
        · subst hx
          simp [hk]
        · simp [hx, Ne.symm hx]
    rw [hone]
    by_cases hx : x.1 / b ∈ ks <;> simp [hx]

/-- Distinct buckets of the window that leave out no event add up to the whole window. -/
theorem sum_cover {n b t : ℕ} {h : Hist E} {ks : List ℕ} (hks : ks.Nodup)
    (hin : ∀ k ∈ ks, InWindow n b t k)
    (hout : ∀ k, InWindow n b t k → k ∉ ks → inBucket b k h = []) :
    (ks.map (fun k => ((inBucket b k h).map f).sum)).sum = ((inWindow n b t h).map f).sum := by
  rw [sum_inBucket_of_nodup f hks, inWindow, List.map_map]
  have heq : ∀ x ∈ h, decide (x.1 / b ∈ ks) = decide (InWindow n b t (x.1 / b)) := by
    intro x hx
    by_cases hm : x.1 / b ∈ ks
    · simp [hm, hin _ hm]
    · have hw : ¬ InWindow n b t (x.1 / b) :=
        fun hw => (inBucket_eq_nil.mp (hout _ hw hm)) x hx rfl
      simp [hm, hw]
  rw [List.filter_congr heq]
  rfl

/-- **The window against its buckets**: no bucket above a bound, no more than `n` times the bound. -/
theorem sum_inWindow_le [PartialOrder M] [IsOrderedAddMonoid M] {n b t : ℕ} {h : Hist E} {bound : M}
    (hbound : 0 ≤ bound)
    (hle : ∀ k, InWindow n b t k → ((inBucket b k h).map f).sum ≤ bound) :
    ((inWindow n b t h).map f).sum ≤ n • bound := by
  rw [← sum_cover f (nodup_windowBuckets n b t) (fun k hk => mem_windowBuckets.mp hk)
    fun k hk hout => absurd (mem_windowBuckets.mpr hk) hout]
  have hsum : ((windowBuckets n b t).map fun k => ((inBucket b k h).map f).sum).sum ≤
      (windowBuckets n b t).length • bound := by
    refine (List.sum_le_card_nsmul _ bound fun x hx => ?_).trans_eq (by rw [List.length_map])
    obtain ⟨k, hk, rfl⟩ := List.mem_map.mp hx
    exact hle k (mem_windowBuckets.mp hk)
  exact hsum.trans (nsmul_le_nsmul_left hbound (length_windowBuckets_le n b t))

end Sum

/-! ## Visits in any order -/

/-- The slots of the ring stand for the history `h`, in whatever order its times have come: a slot holds
the youngest of the buckets of its class that are `visited`, with all events of that bucket. -/
structure Stores (n b : ℕ) (rel : T → List E → Prop) (slot : ℕ → Option (ℕ × T)) (h : Hist E)
    (visited : ℕ → Prop) : Prop where
  empty : ∀ i, slot i = none → ∀ x ∈ h, x.1 / b % n ≠ i
  full : ∀ i s v, slot i = some (s, v) → ∃ k, s = k * b ∧ k % n = i ∧ visited k ∧
    rel v (inBucket b k h) ∧ ∀ x ∈ h, x.1 / b % n = i → x.1 / b ≤ k

namespace Stores

variable {n b : ℕ} {rel : T → List E → Prop} {slot : ℕ → Option (ℕ × T)} {h : Hist E}
  {visited visited' : ℕ → Prop} {t : ℕ}

theorem nil (n b : ℕ) (rel : T → List E → Prop) (visited : ℕ → Prop) :
    Stores n b rel (fun _ => none) ([] : Hist E) visited :=
  ⟨by simp, by simp⟩

theorem mono (hS : Stores n b rel slot h visited) (hle : ∀ k, visited k → visited' k) :
    Stores n b rel slot h visited' := by
  refine ⟨hS.empty, fun i s v hs => ?_⟩
  obtain ⟨k, h1, h2, h3, h4⟩ := hS.full i s v hs
  exact ⟨k, h1, h2, hle k h3, h4⟩

/-- Replacing the relation by one that holds of the buckets of this history. -/
theorem imp (rel' : T → List E → Prop) (hS : Stores n b rel slot h visited)
    (hrel : ∀ v k, rel v (inBucket b k h) → rel' v (inBucket b k h)) :
    Stores n b rel' slot h visited := by
  refine ⟨hS.empty, fun i s v hs => ?_⟩
  obtain ⟨k, h1, h2, h3, h4, h5⟩ := hS.full i s v hs
  exact ⟨k, h1, h2, h3, hrel v k h4, h5⟩

/-- One slot changes its value, and perhaps its bucket. -/
theorem update {h' : Hist E} {i s : ℕ} {v : T} (hS : Stores n b rel slot h visited)
    (hother : ∀ j, j ≠ i → ∀ k, k % n = j → inBucket b k h' = inBucket b k h)
    (hold : ∀ j, j ≠ i → ∀ x ∈ h', x.1 / b % n = j → x ∈ h)
    (hnew : ∃ k, s = k * b ∧ k % n = i ∧ visited k ∧ rel v (inBucket b k h') ∧
      ∀ x ∈ h', x.1 / b % n = i → x.1 / b ≤ k) :
    Stores n b rel (Function.update slot i (some (s, v))) h' visited := by
  refine ⟨fun j hj x hx hxj => ?_, fun j s' w hj => ?_⟩
  · by_cases hji : j = i
    · subst hji
      simp at hj
    · rw [Function.update_of_ne hji] at hj
      exact hS.empty j hj x (hold j hji x hx hxj) hxj
  · by_cases hji : j = i
    · subst hji
      simp only [Function.update_self, Option.some.injEq, Prod.mk.injEq] at hj
      obtain ⟨rfl, rfl⟩ := hj
      exact hnew
    · rw [Function.update_of_ne hji] at hj
      obtain ⟨k, h1, h2, h3, h4, h5⟩ := hS.full j s' w hj
      refine ⟨k, h1, h2, h3, ?_, fun x hx hxj => h5 x (hold j hji x hx hxj) hxj⟩
      rw [hother j hji k h2]
      exact h4

/-- Replacing a value by one that stands for the same events (a reader may reorder a bucket). -/
theorem replace (hS : Stores n b rel slot h visited) {i s : ℕ} {v v' : T} (hs : slot i = some (s, v))
    (hv : ∀ es, rel v es → rel v' es) :
    Stores n b rel (Function.update slot i (some (s, v'))) h visited := by
  obtain ⟨k, h1, h2, h3, h4, h5⟩ := hS.full i s v hs
  exact hS.update (fun _ _ _ _ => rfl) (fun _ _ _ hx _ => hx) ⟨k, h1, h2, h3, hv _ h4, h5⟩

/-- **Visit.**  A slot that is empty, or whose bucket is older than that of `t`, takes the bucket of `t`
with a value that stands for no event. -/
theorem visit (hS : Stores n b rel slot h visited) (ht : visited (t / b)) {v : T} (hv : rel v [])
    (hold : ∀ s w, slot (t / b % n) = some (s, w) → s < t / b * b) :
    Stores n b rel (Function.update slot (t / b % n) (some (t / b * b, v))) h visited := by
  have hlt : ∀ x ∈ h, x.1 / b % n = t / b % n → x.1 / b < t / b := by
    intro x hx hxi
    cases hs : slot (t / b % n) with
    | none => exact absurd hxi (hS.empty _ hs x hx)
    | some sw =>
      obtain ⟨s, w⟩ := sw
      obtain ⟨k, rfl, -, -, -, h5⟩ := hS.full _ s w hs
      have hk : k < t / b := Nat.lt_of_mul_lt_mul_right (hold _ _ hs)
      exact (h5 x hx hxi).trans_lt hk
  refine hS.update (fun _ _ _ _ => rfl) (fun _ _ _ hx _ => hx)
    ⟨t / b, rfl, rfl, ht, ?_, fun x hx hxi => (hlt x hx hxi).le⟩
  have hnil : inBucket b (t / b) h = [] :=
    inBucket_eq_nil.mpr fun x hx hxk => absurd (hlt x hx (by rw [hxk])) (by omega)
  rw [hnil]
  exact hv

/-- **Record.**  Events of time `t` are added to the value of its bucket. -/
theorem record (hS : Stores n b rel slot h visited) {v v' : T} {es : List E}
    (hs : slot (t / b % n) = some (t / b * b, v)) (hb : 0 < b)
    (hv : ∀ es', rel v es' → rel v' (es' ++ es)) :
    Stores n b rel (Function.update slot (t / b % n) (some (t / b * b, v')))
      (h ++ es.map fun e => (t, e)) visited := by
  obtain ⟨k, h1, h2, h3, h4, h5⟩ := hS.full _ _ _ hs
  obtain rfl : t / b = k := Nat.eq_of_mul_eq_mul_right hb h1
  refine hS.update (fun j hj k hk => ?_) (fun j hj x hx hxj => ?_)
    ⟨t / b, rfl, rfl, h3, ?_, fun x hx hxi => ?_⟩
  · have hne : t / b ≠ k := fun heq => hj (by rw [← hk, heq])
    rw [inBucket_append_at, if_neg hne, List.append_nil]
  · rcases List.mem_append.mp hx with hx | hx
    · exact hx
    · obtain ⟨e, -, rfl⟩ := List.mem_map.mp hx
      exact absurd hxj.symm hj
  · rw [inBucket_append_at, if_pos rfl]
    exact hv _ h4
  · rcases List.mem_append.mp hx with hx | hx
    · exact h5 x hx hxi
    · obtain ⟨e, -, rfl⟩ := List.mem_map.mp hx
      exact le_rfl

/-- **Skip.**  Events of a bucket that is older than the one in its slot are not stored. -/
theorem skip (hS : Stores n b rel slot h visited) {s : ℕ} {v : T} (hs : slot (t / b % n) = some (s, v))
    (hlt : t / b * b < s) (es : List E) :
    Stores n b rel slot (h ++ es.map fun e => (t, e)) visited := by
  have hold : ∀ x ∈ h ++ es.map fun e => (t, e), x ∈ h ∨ x.1 = t := by
    intro x hx
    rcases List.mem_append.mp hx with hx | hx
    · exact .inl hx
    · obtain ⟨e, -, rfl⟩ := List.mem_map.mp hx
      exact .inr rfl
  refine ⟨fun i hi x hx hxi => ?_, fun i s' w hi => ?_⟩
  · rcases hold x hx with hx | hx
    · exact hS.empty i hi x hx hxi
    · rw [hx] at hxi
      rw [← hxi, hs] at hi
      exact absurd hi (Option.some_ne_none _)
  · obtain ⟨k, h1, h2, h3, h4, h5⟩ := hS.full i s' w hi
    -- the bucket of `t` is none that a slot holds
    have hlate : t / b % n = i → t / b < k := by
      rintro rfl
      rw [hs, Option.some.injEq, Prod.mk.injEq] at hi
      rw [hi.1, h1] at hlt
      exact Nat.lt_of_mul_lt_mul_right hlt
    have hne : t / b ≠ k := by
      rintro rfl
      exact absurd (hlate h2) (Nat.lt_irrefl _)
    refine ⟨k, h1, h2, h3, ?_, fun x hx hxi => ?_⟩
    · rw [inBucket_append_at, if_neg hne, List.append_nil]
      exact h4
    · rcases hold x hx with hx | hx
      · exact h5 x hx hxi
      · rw [hx] at hxi ⊢
        exact (hlate hxi).le

end Stores

/-! ## The ring invariant -/

/-- The slots of the ring stand for the history `h`, read no later than `now`. -/
structure Holds (n b : ℕ) (rel : T → List E → Prop) (slot : ℕ → Option (ℕ × T)) (h : Hist E)
    (now : ℕ) : Prop where
  empty : ∀ i, slot i = none → ∀ x ∈ h, x.1 / b % n ≠ i
  full : ∀ i s v, slot i = some (s, v) → ∃ k, s = k * b ∧ k % n = i ∧ k ≤ now / b ∧
    rel v (inBucket b k h) ∧ ∀ x ∈ h, x.1 / b % n = i → x.1 / b ≤ k
  past : ∀ x ∈ h, x.1 ≤ now

/-- The values a reader at time `t` collects: the slots whose start is at most `n * b` old. -/
def ringValues (n b : ℕ) (slot : ℕ → Option (ℕ × T)) (t : ℕ) : List T :=
  (List.range n).filterMap fun i =>
    (slot i).bind fun sv => if n * b + sv.1 < t then none else some sv.2

namespace Holds

variable {n b : ℕ} {rel : T → List E → Prop} {slot : ℕ → Option (ℕ × T)} {h : Hist E} {now t : ℕ}

theorem nil (n b : ℕ) (rel : T → List E → Prop) (now : ℕ) :
    Holds n b rel (fun _ => none) ([] : Hist E) now :=
  ⟨by simp, by simp, by simp⟩

theorem stores (hH : Holds n b rel slot h now) : Stores n b rel slot h (· ≤ now / b) :=
  ⟨hH.empty, hH.full⟩

theorem of_stores (hS : Stores n b rel slot h (· ≤ now / b)) (hpast : ∀ x ∈ h, x.1 ≤ now) :
    Holds n b rel slot h now :=
  ⟨hS.empty, hS.full, hpast⟩

theorem later (hH : Holds n b rel slot h now) (hle : now ≤ t) : Holds n b rel slot h t :=
  of_stores (hH.stores.mono fun _ hk => hk.trans (Nat.div_le_div_right hle))
    fun x hx => (hH.past x hx).trans hle

/-- Replacing the relation by one that holds of the buckets of this history. -/
theorem imp (rel' : T → List E → Prop) (hH : Holds n b rel slot h now)
    (hrel : ∀ v k, rel v (inBucket b k h) → rel' v (inBucket b k h)) :
    Holds n b rel' slot h now :=
  of_stores (hH.stores.imp rel' hrel) hH.past

/-- Replacing a value by one that stands for the same events (a reader may reorder a bucket). -/
theorem replace (hH : Holds n b rel slot h now) {i s : ℕ} {v v' : T} (hs : slot i = some (s, v))
    (hv : ∀ es, rel v es → rel v' es) :
    Holds n b rel (Function.update slot i (some (s, v'))) h now :=
  of_stores (hH.stores.replace hs hv) hH.past

/-- **Visit.**  A slot that is empty, or whose bucket is older than the current one, takes the
current bucket with a value that stands for no event. -/
theorem visit (hH : Holds n b rel slot h now) {v : T} (hv : rel v [])
    (hold : ∀ s w, slot (now / b % n) = some (s, w) → s < now / b * b) :
    Holds n b rel (Function.update slot (now / b % n) (some (now / b * b, v))) h now :=
  of_stores (hH.stores.visit le_rfl hv hold) hH.past

/-- **Record.**  Adding an event of the current time to the value of the current bucket. -/
theorem record (hH : Holds n b rel slot h now) {v v' : T} {e : E}
    (hs : slot (now / b % n) = some (now / b * b, v)) (hb : 0 < b)
    (hv : ∀ es, rel v es → rel v' (es ++ [e])) :
    Holds n b rel (Function.update slot (now / b % n) (some (now / b * b, v'))) (h ++ [(now, e)])
      now := by
  refine of_stores (hH.stores.record hs hb hv) fun x hx => ?_
  rcases List.mem_append.mp hx with hx | hx
  · exact hH.past x hx
  · obtain rfl := List.mem_singleton.mp hx
    exact le_rfl

/-- **Forget.**  A ring of one slot whose current bucket stands for no event stands for the empty
history: there is no other bucket. -/
theorem forget (hH : Holds 1 b rel slot h now) {v : T} (hv : rel v []) :
    Holds 1 b rel (Function.update slot (now / b % 1) (some (now / b * b, v))) ([] : Hist E) now := by
  refine ⟨fun _ _ x hx => by simp at hx, fun i s w hi => ?_, fun x hx => by simp at hx⟩
  by_cases hji : i = now / b % 1
  · subst hji
    simp only [Function.update_self, Option.some.injEq, Prod.mk.injEq] at hi
    obtain ⟨rfl, rfl⟩ := hi
    exact ⟨now / b, rfl, rfl, le_rfl, hv, fun x hx => by simp at hx⟩
  · rw [Function.update_of_ne hji] at hi
    obtain ⟨k, -, hk, -⟩ := hH.full i s w hi
    omega

/-- A slot that is not too old holds a bucket of the window, provided the current slot has been
visited: only there can a bucket exactly one window old still pass the age test. -/
theorem inWindow_of_recent (hH : Holds n b rel slot h now) (hb : 0 < b) (hn : 0 < n)
    (hcur : ∃ v, slot (now / b % n) = some (now / b * b, v)) {i s : ℕ} {v : T}
    (hs : slot i = some (s, v)) (hrec : ¬ n * b + s < now) :
    ∃ k, s = k * b ∧ k % n = i ∧ InWindow n b now k ∧ rel v (inBucket b k h) := by
  obtain ⟨k, rfl, h2, h3, h4, -⟩ := hH.full i s v hs
  refine ⟨k, rfl, h2, ⟨h3, ?_⟩, h4⟩
  by_contra hlt
  have hle : k + n ≤ now / b := by omega
  have hdm := Nat.div_add_mod now b
  have hmul : (k + n) * b ≤ now / b * b := Nat.mul_le_mul_right b hle
  have hkn : (k + n) * b = n * b + k * b := by ring
  have hcomm : b * (now / b) = now / b * b := Nat.mul_comm _ _
  -- the age test leaves only the bucket exactly `n` buckets back, in the current slot
  have hEq : k + n = now / b := by
    have : (k + n) * b = now / b * b := by omega
    exact Nat.eq_of_mul_eq_mul_right hb this
  obtain ⟨w, hw⟩ := hcur
  have hi : i = now / b % n := by
    rw [← h2, ← hEq, Nat.add_mod_right]
  rw [hi, hw, Option.some.injEq, Prod.mk.injEq] at hs
  have hk : now / b = k := Nat.eq_of_mul_eq_mul_right hb hs.1
  omega

/-- A bucket of the window with an event is in its slot, and not too old. -/
theorem exists_slot (hH : Holds n b rel slot h now) (hb : 0 < b) {k : ℕ} (hk : InWindow n b now k)
    (hne : inBucket b k h ≠ []) :
    ∃ v, slot (k % n) = some (k * b, v) ∧ ¬ n * b + k * b < now := by
  obtain ⟨x, hx, hxk⟩ : ∃ x ∈ h, x.1 / b = k := by
    by_contra hno
    exact hne (inBucket_eq_nil.mpr fun x hx hxk => hno ⟨x, hx, hxk⟩)
  -- the slot of `k` holds some bucket, at least as young as `k` and not past the window
  cases hs : slot (k % n) with
  | none => exact absurd (by rw [hxk]) (hH.empty _ hs x hx)
  | some sv =>
    obtain ⟨s, v⟩ := sv
    obtain ⟨k', rfl, h2, h3, -, h5⟩ := hH.full _ s v hs
    have hkk' : k ≤ k' := hxk ▸ h5 x hx (by rw [hxk])
    obtain rfl : k' = k := eq_of_inWindow ⟨h3, by have := hk.2; omega⟩ hk h2
    refine ⟨v, rfl, ?_⟩
    have h6 : now / b + 1 ≤ k' + n := hk.2
    have h7 := Nat.mul_le_mul_right b h6
    have h8 := Nat.div_add_mod now b
    have h9 := Nat.mod_lt now hb
    have h10 : b * (now / b) = now / b * b := Nat.mul_comm _ _
    have h11 : (now / b + 1) * b = now / b * b + b := by ring
    have h12 : (k' + n) * b = n * b + k' * b := by ring
    omega

/-- **What a reader sees.**  After the current slot has been visited, the collected values stand for
distinct buckets of the window, and every bucket of the window left out has no event. -/
theorem values_cover (hH : Holds n b rel slot h now) (hb : 0 < b) (hn : 0 < n)
    (hcur : ∃ v, slot (now / b % n) = some (now / b * b, v)) :
    ∃ ks : List ℕ, List.Forall₂ (fun v k => rel v (inBucket b k h)) (ringValues n b slot now) ks ∧
      ks.Nodup ∧ (∀ k ∈ ks, InWindow n b now k) ∧
      ∀ k, InWindow n b now k → k ∉ ks → inBucket b k h = [] := by
  -- the bucket a slot contributes, read off its start
  let bucketAt : ℕ → Option ℕ := fun i =>
    (slot i).bind fun sv => if n * b + sv.1 < now then none else some (sv.1 / b)
  have hAt : ∀ i k, bucketAt i = some k →
      ∃ v, slot i = some (k * b, v) ∧ ¬ n * b + k * b < now ∧ k % n = i ∧ InWindow n b now k ∧
        rel v (inBucket b k h) := by
    intro i k hk
    simp only [bucketAt, Option.bind_eq_some_iff] at hk
    obtain ⟨⟨s, v⟩, hs, hk⟩ := hk
    split_ifs at hk with hrec
    obtain ⟨k', rfl, h2, h3, h4⟩ := hH.inWindow_of_recent hb hn hcur hs hrec
    rw [Option.some.injEq, Nat.mul_div_cancel _ hb] at hk
    subst hk
    exact ⟨v, hs, hrec, h2, h3, h4⟩
  refine ⟨(List.range n).filterMap bucketAt, ?_, ?_, ?_, ?_⟩
  · unfold ringValues
    induction List.range n with
    | nil => exact List.Forall₂.nil
    | cons i l ih =>
      cases hi : bucketAt i with
      | none =>
        have hv : ((slot i).bind fun sv => if n * b + sv.1 < now then none else some sv.2) =
            (none : Option T) := by
          cases hs : slot i with
          | none => rfl
          | some sv =>
            simp only [bucketAt, hs, Option.bind_some] at hi ⊢
            split_ifs at hi ⊢ with hrec
            rfl
        simpa [List.filterMap_cons, hi, hv] using ih
      | some k =>
        obtain ⟨v, hs, hrec, -, -, hr⟩ := hAt i k hi
        simp only [List.filterMap_cons, hi, hs, Option.bind_some, if_neg hrec]
        exact List.Forall₂.cons hr ih
  · refine List.Nodup.filterMap ?_ List.nodup_range
    intro i j k hi hj
    obtain ⟨-, -, -, h1, -⟩ := hAt i k hi
    obtain ⟨-, -, -, h2, -⟩ := hAt j k hj
    omega
  · intro k hk
    obtain ⟨i, -, hi⟩ := List.mem_filterMap.mp hk
    obtain ⟨-, -, -, -, h1, -⟩ := hAt i k hi
    exact h1
  · intro k hk hnot
    by_contra hne
    obtain ⟨v, hs, hrec⟩ := hH.exists_slot hb hk hne
    refine hnot (List.mem_filterMap.mpr ⟨k % n, List.mem_range.mpr (Nat.mod_lt _ hn), ?_⟩)
    simp only [bucketAt, hs, Option.bind_some, if_neg hrec, Nat.mul_div_cancel _ hb]

/-- The total over the values a reader collects is the total over the events of the window. -/
theorem sum_values {M : Type*} [AddCommMonoid M] {φ : T → M} {f : E → M}
    (hφ : ∀ v es, rel v es → φ v = (es.map f).sum) (hH : Holds n b rel slot h now) (hb : 0 < b)
    (hn : 0 < n) (hcur : ∃ v, slot (now / b % n) = some (now / b * b, v)) :
    ((ringValues n b slot now).map φ).sum = ((inWindow n b now h).map f).sum := by
  obtain ⟨ks, hall, hnd, hin, hout⟩ := hH.values_cover hb hn hcur
  have hmap : (ringValues n b slot now).map φ =
      ks.map (fun k => ((inBucket b k h).map f).sum) := by
    clear hnd hin hout
    generalize ringValues n b slot now = vs at hall
    induction hall with
    | nil => rfl
    | cons hr _ ih => rw [List.map_cons, List.map_cons, hφ _ _ hr, ih]
  rw [hmap, sum_cover f hnd hin hout]

end Holds

end SentinelCpp.Lib
