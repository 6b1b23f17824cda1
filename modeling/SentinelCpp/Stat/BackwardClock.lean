import SentinelCpp.Stat.SlidingWindow

/-!
# A clock that steps backwards

The times at which `CurrentWindow` is called need not be in order.  A call whose bucket is older than the
one in its slot gets a bucket outside the array, and its additions are lost with it; every other call
leaves its slot with the bucket of its time.  So the start of a slot only goes up, a slot holds all
additions that were made with its start, and no time later than all calls finds more in its window than
was added there.
-/

namespace SentinelCpp.Stat

open SentinelCpp.Lib

/-! ### Calls at any time -/

/-- `CurrentWindow(time)`, and then the additions to the bucket it returns. -/
structure BucketCall where
  time : ℕ
  additions : List MetricAdd

/-- The additions, one after the other. -/
def MetricBucket.addAll (es : List MetricAdd) (bucket : MetricBucket) : MetricBucket :=
  es.foldl (fun bucket e => e.apply bucket) bucket

namespace BucketCall

/-- What the call does to the array. -/
def apply (a : LeapArray MetricBucket) (c : BucketCall) : LeapArray MetricBucket :=
  a.updateCurrent c.time (MetricBucket.addAll c.additions)

/-- A `BucketLeapArray` of `n` buckets of `b` ms after the calls. -/
def after (n b : ℕ) (cs : List BucketCall) : LeapArray MetricBucket :=
  cs.foldl apply (.mk' n (n * b) .empty)

/-- All additions, with the times of their calls. -/
def history (cs : List BucketCall) : Hist MetricAdd :=
  cs.flatMap fun c => c.additions.map fun e => (c.time, e)

/-- The start of the bucket in a slot. -/
def startOf (a : LeapArray MetricBucket) (i : ℕ) : Option ℕ := (a.array i).map WindowWrap.bucketStart

/-- The calls whose bucket has this start. -/
def withStart (a : LeapArray MetricBucket) (start : ℕ) (cs : List BucketCall) : List BucketCall :=
  cs.filter fun c => a.calculateWindowStart c.time = start

/-- No slot's start is smaller in `a'` than in `a`. -/
def StartsLe (a a' : LeapArray MetricBucket) : Prop :=
  ∀ i s, startOf a i = some s → ∃ s', startOf a' i = some s' ∧ s ≤ s'

/-- With the call after `cs₁` slot `i` took this start, and the calls `cs₂` have left it. -/
structure Took (n b i start : ℕ) (cs₁ : List BucketCall) (c : BucketCall) (cs₂ : List BucketCall) :
    Prop where
  before : startOf (after n b cs₁) i ≠ some start
  since : ∀ cs, cs <+: cs₂ → startOf (after n b (cs₁ ++ c :: cs)) i = some start

/-- **What the calls leave behind**, whatever the order of their times. -/
structure Uncorrupted (n b : ℕ) (cs : List BucketCall) : Prop where
  placed : ∀ i w, (after n b cs).array i = some w → b ∣ w.bucketStart ∧ w.bucketStart / b % n = i
  later : ∀ cs', StartsLe (after n b cs) (after n b (cs ++ cs'))
  behind : ∀ c w, (after n b cs).array ((after n b cs).calculateTimeIdx c.time) = some w →
    (after n b cs).calculateWindowStart c.time < w.bucketStart →
    (after n b (cs ++ [c])).array = (after n b cs).array
  counted : ∀ i w, (after n b cs).array i = some w → ∃ cs₁ c cs₂, cs = cs₁ ++ c :: cs₂ ∧
    Took n b i w.bucketStart cs₁ c cs₂ ∧
    ∀ event, w.value.get event =
      (((withStart (after n b cs) w.bucketStart (c :: cs₂)).flatMap additions).map
        (MetricAdd.amount event)).sum
  total : ∀ t, (∀ c ∈ cs, c.time ≤ t) → ∀ event,
    ((((after n b cs).refresh t).values t).map fun bucket => bucket.get event).sum ≤
      ((inWindow n b t (history cs)).map (MetricAdd.amount event)).sum

end BucketCall

/-! ### One call -/

theorem BucketOf.addAll {v : MetricBucket} {es : List MetricAdd} (h : BucketOf v es)
    (es' : List MetricAdd) : BucketOf (v.addAll es') (es ++ es') := by
  induction es' generalizing v es with
  | nil => rwa [List.append_nil]
  | cons e es' ih =>
    have hone : BucketOf (e.apply v) (es ++ [e]) := by
      cases e with
      | add event n => exact h.add event n
      | addRt rt => exact h.addRt rt
    have hall := ih hone
    rw [List.append_assoc] at hall
    exact hall

namespace BucketCall

variable {n b : ℕ} {a : LeapArray MetricBucket} {c : BucketCall} {cs cs' : List BucketCall}

/-- **What a call can do**: its slot has the bucket of its time, or takes it in the place of none or of an
older one, and gets the additions; or the slot has a younger bucket, and nothing changes. -/
theorem apply_cases (hnew : a.newEmptyBucket = .empty) :
    (∃ v, (a.array (a.calculateTimeIdx c.time) = some ⟨a.calculateWindowStart c.time, v⟩ ∨
        (v = .empty ∧ ∀ old, a.array (a.calculateTimeIdx c.time) = some old →
          old.bucketStart < a.calculateWindowStart c.time)) ∧
      apply a c = a.setSlot (a.calculateTimeIdx c.time)
        ⟨a.calculateWindowStart c.time, v.addAll c.additions⟩) ∨
    (∃ old, a.array (a.calculateTimeIdx c.time) = some old ∧
      a.calculateWindowStart c.time < old.bucketStart ∧ apply a c = a) := by
  rcases a.updateCurrent_cases c.time (MetricBucket.addAll c.additions) with
    ⟨v, hv, hupdate⟩ | ⟨old, hold, hlt, hupdate⟩
  · refine .inl ⟨v, ?_, hupdate⟩
    rcases hv with hv | ⟨rfl, hnone⟩ | ⟨old, hold, hlt, rfl⟩
    · exact .inl hv
    · refine .inr ⟨hnew, fun old hold => ?_⟩
      rw [hnone] at hold
      cases hold
    · refine .inr ⟨rfl, fun old' hold' => ?_⟩
      rw [hold, Option.some.injEq] at hold'
      exact hold' ▸ hlt
  · exact .inr ⟨old, hold, hlt, hupdate⟩

/-- A call leaves the other slots alone. -/
theorem startOf_setSlot (i j : ℕ) (w : WindowWrap MetricBucket) :
    startOf (a.setSlot i w) j = if j = i then some w.bucketStart else startOf a j := by
  unfold startOf
  by_cases hj : j = i
  · rw [if_pos hj, hj, LeapArray.setSlot_array_self, Option.map_some]
  · rw [if_neg hj, LeapArray.setSlot_array_of_ne a hj]

/-- **No start goes down.** -/
theorem startsLe_apply (hnew : a.newEmptyBucket = .empty) : StartsLe a (apply a c) := by
  intro i s hs
  rcases apply_cases hnew (c := c) with ⟨v, hv, h⟩ | ⟨old, -, -, h⟩
  · rw [h, startOf_setSlot]
    split_ifs with hi
    · obtain ⟨w, hw, rfl⟩ := Option.map_eq_some_iff.mp hs
      refine ⟨_, rfl, ?_⟩
      rw [hi] at hw
      rcases hv with hv | ⟨-, hold⟩
      · rw [hv, Option.some.injEq] at hw
        rw [← hw]
      · exact (hold w hw).le
    · exact ⟨s, hs, le_rfl⟩
  · rw [h]
    exact ⟨s, hs, le_rfl⟩

/-- **One call** among calls at any times: what a slot holds are all additions of its bucket. -/
theorem stores_apply {h : Hist MetricAdd} {visited : ℕ → Prop} (hnew : a.newEmptyBucket = .empty)
    (hb : 0 < a.bucketLengthMs)
    (hS : Stores a.sampleCount a.bucketLengthMs BucketOf a.slots h visited)
    (hvisited : visited (c.time / a.bucketLengthMs)) :
    Stores a.sampleCount a.bucketLengthMs BucketOf (apply a c).slots
      (h ++ c.additions.map fun e => (c.time, e)) visited := by
  have hempty : BucketOf a.newEmptyBucket [] := by
    rw [hnew]
    exact bucketOf_empty
  exact LeapArray.stores_updateCurrent hS hb hvisited hempty (fun _ _ _ => bucketOf_empty)
    fun v es hv => hv.addAll c.additions

/-! ### Every run -/

theorem after_concat (n b : ℕ) (cs : List BucketCall) (c : BucketCall) :
    after n b (cs ++ [c]) = apply (after n b cs) c := by
  unfold after
  rw [List.foldl_append]
  rfl

theorem history_append (cs cs' : List BucketCall) : history (cs ++ cs') = history cs ++ history cs' :=
  List.flatMap_append

/-- The array as built, and what its slots hold. -/
structure Stored (n b : ℕ) (cs : List BucketCall) : Prop where
  count : (after n b cs).sampleCount = n
  interval : (after n b cs).intervalMs = n * b
  fresh : (after n b cs).newEmptyBucket = .empty
  stores : Stores n b BucketOf (after n b cs).slots (history cs) fun k => ∃ c ∈ cs, c.time / b = k

theorem Stored.bucketLengthMs (h : Stored n b cs) (hn : 0 < n) : (after n b cs).bucketLengthMs = b := by
  rw [LeapArray.bucketLengthMs, h.count, h.interval, Nat.mul_div_cancel_left b hn]

theorem stored (hn : 0 < n) (hb : 0 < b) (cs : List BucketCall) : Stored n b cs := by
  induction cs using List.reverseRecOn with
  | nil => exact ⟨rfl, rfl, rfl, .nil _ _ _ _⟩
  | append_singleton cs c ih =>
    have hlength := ih.bucketLengthMs hn
    have hvisited : Stores (after n b cs).sampleCount (after n b cs).bucketLengthMs BucketOf
        (after n b cs).slots (history cs) fun k => ∃ c' ∈ cs ++ [c], c'.time / b = k := by
      rw [hlength, ih.count]
      exact ih.stores.mono fun k ⟨c', hc', hk⟩ => ⟨c', List.mem_append_left _ hc', hk⟩
    have hstep := stores_apply (c := c) ih.fresh (by rw [hlength]; exact hb) hvisited
      ⟨c, by simp, by rw [hlength]⟩
    rw [hlength, ih.count] at hstep
    refine ⟨?_, ?_, ?_, ?_⟩
    · rw [after_concat, apply, LeapArray.updateCurrent_sampleCount, ih.count]
    · rw [after_concat, apply, LeapArray.updateCurrent_intervalMs, ih.interval]
    · rw [after_concat, apply, LeapArray.updateCurrent_newEmptyBucket, ih.fresh]
    · rw [after_concat, history_append]
      simpa [history] using hstep

/-- The starts of a run only go up. -/
theorem startsLe_after (hn : 0 < n) (hb : 0 < b) (cs cs' : List BucketCall) :
    StartsLe (after n b cs) (after n b (cs ++ cs')) := by
  induction cs' using List.reverseRecOn with
  | nil =>
    rw [List.append_nil]
    exact fun i s hs => ⟨s, hs, le_rfl⟩
  | append_singleton cs' c ih =>
    intro i s hs
    obtain ⟨s₁, hs₁, hle₁⟩ := ih i s hs
    obtain ⟨s₂, hs₂, hle₂⟩ := startsLe_apply (stored hn hb (cs ++ cs')).fresh i s₁ hs₁ (c := c)
    rw [← after_concat, List.append_assoc] at hs₂
    exact ⟨s₂, hs₂, hle₁.trans hle₂⟩

/-- Some call took the start that a slot has. -/
theorem exists_took {i start : ℕ} (h : startOf (after n b cs) i = some start) :
    ∃ cs₁ c cs₂, cs = cs₁ ++ c :: cs₂ ∧ Took n b i start cs₁ c cs₂ := by
  induction cs using List.reverseRecOn with
  | nil => exact absurd h.symm (Option.some_ne_none _)
  | append_singleton cs c ih =>
    by_cases hbefore : startOf (after n b cs) i = some start
    · obtain ⟨cs₁, c₁, cs₂, rfl, htook⟩ := ih hbefore
      refine ⟨cs₁, c₁, cs₂ ++ [c], by simp, htook.before, fun cs₃ hprefix => ?_⟩
      rcases List.prefix_concat_iff.mp hprefix with rfl | hprefix
      · simpa using h
      · exact htook.since cs₃ hprefix
    · refine ⟨cs, c, [], rfl, hbefore, fun cs₃ hprefix => ?_⟩
      obtain rfl := List.prefix_nil.mp hprefix
      exact h

/-- No addition was made to a bucket before a slot took its start. -/
theorem inBucket_before (hn : 0 < n) (hb : 0 < b) {cs₁ : List BucketCall} {k : ℕ}
    (hbefore : startOf (after n b cs₁) (k % n) ≠ some (k * b))
    (hafter : startOf (after n b (cs₁ ++ cs)) (k % n) = some (k * b)) :
    inBucket b k (history cs₁) = [] := by
  by_contra hne
  obtain ⟨e, he⟩ := List.exists_mem_of_ne_nil _ hne
  obtain ⟨t, ht, hk⟩ := mem_inBucket.mp he
  have hS := (stored hn hb cs₁).stores
  cases hslot : (after n b cs₁).slots (k % n) with
  | none => exact hS.empty _ hslot _ ht (by rw [hk])
  | some sv =>
    obtain ⟨s, v⟩ := sv
    obtain ⟨k', rfl, -, -, -, hyoung⟩ := hS.full _ s v hslot
    have hle : k ≤ k' := by
      have := hyoung _ ht (by rw [hk])
      rwa [hk] at this
    have hstart : startOf (after n b cs₁) (k % n) = some (k' * b) := by
      obtain ⟨w, hw, heq⟩ := Option.map_eq_some_iff.mp hslot
      rw [startOf, hw, Option.map_some, (Prod.mk.inj heq).1]
    -- the start has gone up to that of `k`, so it was already there
    obtain ⟨s', hs', hle'⟩ := startsLe_after hn hb cs₁ cs _ _ hstart
    rw [hafter, Option.some.injEq] at hs'
    have hge : k' ≤ k := Nat.le_of_mul_le_mul_right (hs' ▸ hle') hb
    exact hbefore (by rw [hstart, le_antisymm hge hle])

theorem inBucket_history (hb : 0 < b) (hlength : a.bucketLengthMs = b) (k : ℕ) (cs : List BucketCall) :
    inBucket b k (history cs) = (withStart a (k * b) cs).flatMap additions := by
  induction cs with
  | nil => rfl
  | cons c cs ih =>
    have hcons : history (c :: cs) = (c.additions.map fun e => (c.time, e)) ++ history cs :=
      List.flatMap_cons
    have hhead : inBucket b k (c.additions.map fun e => (c.time, e)) =
        if c.time / b = k then c.additions else [] := inBucket_append_at b k [] c.time c.additions
    have hstart : a.calculateWindowStart c.time = k * b ↔ c.time / b = k := by
      rw [LeapArray.calculateWindowStart_eq, hlength]
      exact ⟨Nat.eq_of_mul_eq_mul_right hb, congrArg (· * b)⟩
    rw [hcons, inBucket_append, ih, hhead]
    unfold withStart
    rw [List.filter_cons]
    by_cases hk : c.time / b = k
    · rw [if_pos hk, if_pos (decide_eq_true (hstart.mpr hk)), List.flatMap_cons]
    · rw [if_neg hk, if_neg (by simpa using mt hstart.mp hk), List.nil_append]

/-- At a time not before any call, the window holds exactly what was added in it. -/
theorem sum_values_eq (hn : 0 < n) (hb : 0 < b) {t : ℕ} (hlater : ∀ c ∈ cs, c.time ≤ t)
    (event : MetricEvent) :
    ((((after n b cs).refresh t).values t).map fun bucket => bucket.get event).sum =
      ((inWindow n b t (history cs)).map (MetricAdd.amount event)).sum := by
  have h := stored hn hb cs
  have hlength := h.bucketLengthMs hn
  have hpast : ∀ x ∈ history cs, x.1 ≤ t := by
    intro x hx
    obtain ⟨c, hc, hx⟩ := List.mem_flatMap.mp hx
    obtain ⟨e, -, rfl⟩ := List.mem_map.mp hx
    exact hlater c hc
  have hstands : (after n b cs).Stands BucketOf (history cs) t := by
    unfold LeapArray.Stands
    rw [hlength, h.count]
    refine .of_stores (h.stores.mono ?_) hpast
    rintro k ⟨c, hc, rfl⟩
    exact Nat.div_le_div_right (hlater c hc)
  obtain ⟨hstands', hvisited, -⟩ := hstands.currentWindow le_rfl (by rw [h.fresh]; exact bucketOf_empty)
    fun _ _ _ => bucketOf_empty
  have hcount : ((after n b cs).refresh t).sampleCount = n := by
    rw [LeapArray.refresh_sampleCount, h.count]
  have hinterval : ((after n b cs).refresh t).intervalMs = n * b := by
    rw [LeapArray.refresh_intervalMs, h.interval]
  have hlength' : ((after n b cs).refresh t).bucketLengthMs = b := by
    rw [LeapArray.bucketLengthMs, hcount, hinterval, Nat.mul_div_cancel_left b hn]
  have hwell : ((after n b cs).refresh t).WellFormed := by
    refine ⟨?_, ?_, ?_⟩
    · rw [hcount]
      exact hn
    · rw [hlength']
      exact hb
    · rw [hcount, hinterval, hlength']
  rw [hstands'.sum_values (fun v es hv => hv.1 event) hwell hvisited, hcount, hlength']

/-- **A clock that steps backwards does not corrupt the array.** -/
theorem uncorrupted (hn : 0 < n) (hb : 0 < b) (cs : List BucketCall) : Uncorrupted n b cs := by
  have h := stored hn hb cs
  have hlength := h.bucketLengthMs hn
  have hfull : ∀ i w, (after n b cs).array i = some w → ∃ k, w.bucketStart = k * b ∧ k % n = i ∧
      BucketOf w.value (inBucket b k (history cs)) := by
    intro i w hw
    obtain ⟨k, hk, hi, -, hbucket, -⟩ := h.stores.full i w.bucketStart w.value
      (congrArg (Option.map fun w : WindowWrap MetricBucket => (w.bucketStart, w.value)) hw)
    exact ⟨k, hk, hi, hbucket⟩
  refine ⟨fun i w hw => ?_, startsLe_after hn hb cs, fun c w hw hlt => ?_, fun i w hw => ?_,
    fun t ht event => (sum_values_eq hn hb ht event).le⟩
  · obtain ⟨k, hk, hi, -⟩ := hfull i w hw
    rw [hk, Nat.mul_div_cancel k hb]
    exact ⟨Dvd.intro_left k rfl, hi⟩
  · rw [after_concat]
    rcases apply_cases h.fresh (c := c) with ⟨v, hv, -⟩ | ⟨old, -, -, happly⟩
    · exfalso
      rcases hv with hv | ⟨-, hold⟩
      · rw [hv, Option.some.injEq] at hw
        rw [← hw] at hlt
        exact Nat.lt_irrefl _ hlt
      · exact Nat.lt_asymm hlt (hold w hw)
    · rw [happly]
  · obtain ⟨k, hk, rfl, hcounters, -⟩ := hfull i w hw
    have hstart : startOf (after n b cs) (k % n) = some (k * b) := by
      rw [startOf, hw, Option.map_some, hk]
    rw [hk]
    obtain ⟨cs₁, c, cs₂, rfl, htook⟩ := exists_took hstart
    refine ⟨cs₁, c, cs₂, rfl, htook, fun event => ?_⟩
    rw [hcounters event, history_append, inBucket_append, inBucket_before hn hb htook.before hstart,
      List.nil_append, inBucket_history hb hlength]

/-- A call whose bucket has been replaced two buckets later. -/
theorem uncorrupted_backwards :
    Uncorrupted 2 500 [⟨2100, [.add .pass 1]⟩, ⟨1050, [.add .pass 3]⟩, ⟨600, [.addRt 7]⟩] :=
  uncorrupted (by decide) (by decide) _

end BucketCall

end SentinelCpp.Stat
