import SentinelCpp.Lib.Window

/-!
# The leap array

`LeapArray<T>` is a ring of `sample_count` bucket slots.  `CurrentWindow(t)` finds the slot of `t`,
creating its bucket, resetting a stale one, or, when `t` lies before the slot's bucket, handing out a
detached bucket that is not part of the array.  Calls are sequential, so `try_lock` succeeds and the
`while (true)` loop returns in its first round.  Times are readings of the millisecond clock and
never negative, so the `time_millis < 0` branches are not modelled; neither is the overflow of the
`int64_t` counters in the buckets.
-/

namespace SentinelCpp.Stat

open SentinelCpp.Lib

/-- `WindowWrap<T>`; `bucket_length_ms_` is the one of the array it belongs to. -/
structure WindowWrap (T : Type) where
  bucketStart : ℕ
  value : T

/-- The `Reset()` method of a bucket type. -/
class Resettable (T : Type) where
  reset : T → T

/-- `LeapArray<T>`: `newEmptyBucket` is what the virtual `NewEmptyBucket` builds (no subclass uses
the time it is given). -/
structure LeapArray (T : Type) where
  sampleCount : ℕ
  intervalMs : ℕ
  newEmptyBucket : T
  array : ℕ → Option (WindowWrap T)

/-- What `CurrentWindow` hands out: a slot of the array, or a bucket outside it. -/
inductive WindowRef (T : Type)
  | slot (idx : ℕ)
  | detached (w : WindowWrap T)

namespace LeapArray

variable {T E : Type}

/-- The constructor: all slots are null. -/
def mk' (sampleCount intervalMs : ℕ) (newEmptyBucket : T) : LeapArray T :=
  { sampleCount, intervalMs, newEmptyBucket, array := fun _ => none }

def bucketLengthMs (a : LeapArray T) : ℕ := a.intervalMs / a.sampleCount

def calculateTimeIdx (a : LeapArray T) (timeMillis : ℕ) : ℕ :=
  timeMillis / a.bucketLengthMs % a.sampleCount

def calculateWindowStart (a : LeapArray T) (timeMillis : ℕ) : ℕ :=
  timeMillis - timeMillis % a.bucketLengthMs

def isBucketDeprecated (a : LeapArray T) (timeMillis : ℕ) (w : WindowWrap T) : Bool :=
  decide ((timeMillis : ℤ) - w.bucketStart > a.intervalMs)

def setSlot (a : LeapArray T) (idx : ℕ) (w : WindowWrap T) : LeapArray T :=
  { a with array := fun i => if i = idx then some w else a.array i }

/-- `CurrentWindow(time_millis)`. -/
def currentWindow [Resettable T] (a : LeapArray T) (timeMillis : ℕ) :
    LeapArray T × WindowRef T :=
  let idx := a.calculateTimeIdx timeMillis
  let bucketStart := a.calculateWindowStart timeMillis
  match a.array idx with
  | none => (a.setSlot idx ⟨bucketStart, a.newEmptyBucket⟩, .slot idx)
  | some old =>
    if bucketStart = old.bucketStart then (a, .slot idx)
    else if bucketStart > old.bucketStart then
      -- ResetWindowTo: new start, counters reset in place
      (a.setSlot idx ⟨bucketStart, Resettable.reset old.value⟩, .slot idx)
    else
      -- the provided time is already behind
      (a, .detached ⟨bucketStart, a.newEmptyBucket⟩)

/-- An update through the handle `CurrentWindow` returned; a detached bucket is dropped with it. -/
def modify (a : LeapArray T) (ref : WindowRef T) (f : T → T) : LeapArray T :=
  match ref with
  | .slot idx =>
    match a.array idx with
    | some w => a.setSlot idx { w with value := f w.value }
    | none => a
  | .detached _ => a

/-- `CurrentWindow(t)->Value()->f()`. -/
def updateCurrent [Resettable T] (a : LeapArray T) (t : ℕ) (f : T → T) : LeapArray T :=
  let r := a.currentWindow t
  r.1.modify r.2 f

/-- `CurrentWindow(t)` called for its effect on the array only. -/
def refresh [Resettable T] (a : LeapArray T) (t : ℕ) : LeapArray T := (a.currentWindow t).1

/-- The value that `CurrentWindow(t)` hands out when it is one of a slot. -/
def currentValue? [Resettable T] (a : LeapArray T) (t : ℕ) : Option T :=
  ((a.refresh t).array (a.calculateTimeIdx t)).map WindowWrap.value

/-- `Buckets(time_millis)`. -/
def buckets (a : LeapArray T) (timeMillis : ℕ) : List (WindowWrap T) :=
  (List.range a.sampleCount).filterMap fun i =>
    match a.array i with
    | none => none
    | some w => if a.isBucketDeprecated timeMillis w then none else some w

/-- `Values(time_millis)`. -/
def values (a : LeapArray T) (timeMillis : ℕ) : List T :=
  (a.buckets timeMillis).map WindowWrap.value

/-- `f` applied to each value that `Values(time_millis)` returns, for reads that change the bucket. -/
def visitValues (a : LeapArray T) (timeMillis : ℕ) (f : T → T) : LeapArray T :=
  { a with
    array := fun i => (a.array i).map fun w =>
      if i < a.sampleCount ∧ a.isBucketDeprecated timeMillis w = false then
        { w with value := f w.value }
      else w }

/-! ### The array as a ring -/

/-- The shape `interval = N * b` with `N, b ≥ 1` that makes the buckets of equal length. -/
structure WellFormed (a : LeapArray T) : Prop where
  count_pos : 0 < a.sampleCount
  length_pos : 0 < a.bucketLengthMs
  interval_eq : a.intervalMs = a.sampleCount * a.bucketLengthMs

/-- The slots as the ring library sees them. -/
def slots (a : LeapArray T) : ℕ → Option (ℕ × T) :=
  fun i => (a.array i).map fun w => (w.bucketStart, w.value)

/-- The array stands for the history `h` of events, last used at time `now`. -/
def Stands (a : LeapArray T) (rel : T → List E → Prop) (h : Hist E) (now : ℕ) : Prop :=
  Holds a.sampleCount a.bucketLengthMs rel a.slots h now

/-- The slot of time `t` holds the bucket of `t`. -/
def Visited (a : LeapArray T) (t : ℕ) : Prop :=
  ∃ v, a.array (a.calculateTimeIdx t) = some ⟨a.calculateWindowStart t, v⟩

theorem WellFormed.of_eq {a a' : LeapArray T} (h : a.WellFormed)
    (hn : a'.sampleCount = a.sampleCount) (hi : a'.intervalMs = a.intervalMs) : a'.WellFormed := by
  have hb : a'.bucketLengthMs = a.bucketLengthMs := by rw [bucketLengthMs, hn, hi]; rfl
  exact ⟨hn ▸ h.count_pos, hb ▸ h.length_pos, by rw [hn, hi, hb]; exact h.interval_eq⟩

@[simp] theorem setSlot_array_self (a : LeapArray T) (i : ℕ) (w : WindowWrap T) :
    (a.setSlot i w).array i = some w := if_pos rfl

theorem setSlot_array_of_ne (a : LeapArray T) {i j : ℕ} (h : j ≠ i) (w : WindowWrap T) :
    (a.setSlot i w).array j = a.array j := if_neg h

theorem slots_setSlot (a : LeapArray T) (i : ℕ) (w : WindowWrap T) :
    (a.setSlot i w).slots = Function.update a.slots i (some (w.bucketStart, w.value)) := by
  funext j
  by_cases hj : j = i
  · subst hj
    simp [slots]
  · simp [slots, setSlot_array_of_ne a hj, hj]

theorem setSlot_setSlot (a : LeapArray T) (i : ℕ) (w w' : WindowWrap T) :
    (a.setSlot i w).setSlot i w' = a.setSlot i w' := by
  refine congrArg (LeapArray.mk _ _ _) (funext fun j => ?_)
  by_cases hj : j = i
  · rw [if_pos hj, if_pos hj]
  · rw [if_neg hj, if_neg hj, setSlot_array_of_ne a hj]

theorem calculateWindowStart_eq (a : LeapArray T) (t : ℕ) :
    a.calculateWindowStart t = t / a.bucketLengthMs * a.bucketLengthMs := by
  have := Nat.div_add_mod t a.bucketLengthMs
  rw [Nat.mul_comm] at this
  unfold calculateWindowStart
  omega

/-- The three things a call of `CurrentWindow` can do to the array. -/
theorem currentWindow_cases [Resettable T] (a : LeapArray T) (t : ℕ) :
    (a.array (a.calculateTimeIdx t) = none ∧
      a.currentWindow t = (a.setSlot (a.calculateTimeIdx t)
        ⟨a.calculateWindowStart t, a.newEmptyBucket⟩, .slot (a.calculateTimeIdx t))) ∨
    (∃ v, a.array (a.calculateTimeIdx t) = some ⟨a.calculateWindowStart t, v⟩ ∧
      a.currentWindow t = (a, .slot (a.calculateTimeIdx t))) ∨
    (∃ old, a.array (a.calculateTimeIdx t) = some old ∧
      old.bucketStart < a.calculateWindowStart t ∧
      a.currentWindow t = (a.setSlot (a.calculateTimeIdx t)
        ⟨a.calculateWindowStart t, Resettable.reset old.value⟩, .slot (a.calculateTimeIdx t))) ∨
    (∃ old, a.array (a.calculateTimeIdx t) = some old ∧
      a.calculateWindowStart t < old.bucketStart ∧
      a.currentWindow t = (a, .detached ⟨a.calculateWindowStart t, a.newEmptyBucket⟩)) := by
  dsimp only [currentWindow]
  cases hs : a.array (a.calculateTimeIdx t) with
  | none => exact .inl ⟨rfl, rfl⟩
  | some old =>
    obtain ⟨s, v⟩ := old
    dsimp only
    rcases Nat.lt_trichotomy s (a.calculateWindowStart t) with hlt | rfl | hgt
    · refine .inr (.inr (.inl ⟨_, rfl, hlt, ?_⟩))
      rw [if_neg (by omega), if_pos hlt]
    · exact .inr (.inl ⟨v, rfl, by rw [if_pos rfl]⟩)
    · refine .inr (.inr (.inr ⟨_, rfl, hgt, ?_⟩))
      rw [if_neg (by omega), if_neg (by omega)]

@[simp] theorem modify_sampleCount (a : LeapArray T) (ref : WindowRef T) (f : T → T) :
    (a.modify ref f).sampleCount = a.sampleCount := by
  unfold modify
  split
  · split <;> rfl
  · rfl

@[simp] theorem modify_intervalMs (a : LeapArray T) (ref : WindowRef T) (f : T → T) :
    (a.modify ref f).intervalMs = a.intervalMs := by
  unfold modify
  split
  · split <;> rfl
  · rfl

@[simp] theorem modify_newEmptyBucket (a : LeapArray T) (ref : WindowRef T) (f : T → T) :
    (a.modify ref f).newEmptyBucket = a.newEmptyBucket := by
  unfold modify
  split
  · split <;> rfl
  · rfl

section Shape

variable [Resettable T] (a : LeapArray T) (t : ℕ)

@[simp] theorem currentWindow_sampleCount :
    (a.currentWindow t).1.sampleCount = a.sampleCount := by
  rcases a.currentWindow_cases t with ⟨-, h⟩ | ⟨_, -, h⟩ | ⟨_, -, -, h⟩ | ⟨_, -, -, h⟩ <;>
    rw [h] <;> rfl

@[simp] theorem currentWindow_intervalMs : (a.currentWindow t).1.intervalMs = a.intervalMs := by
  rcases a.currentWindow_cases t with ⟨-, h⟩ | ⟨_, -, h⟩ | ⟨_, -, -, h⟩ | ⟨_, -, -, h⟩ <;>
    rw [h] <;> rfl

@[simp] theorem currentWindow_newEmptyBucket :
    (a.currentWindow t).1.newEmptyBucket = a.newEmptyBucket := by
  rcases a.currentWindow_cases t with ⟨-, h⟩ | ⟨_, -, h⟩ | ⟨_, -, -, h⟩ | ⟨_, -, -, h⟩ <;>
    rw [h] <;> rfl

@[simp] theorem refresh_sampleCount : (a.refresh t).sampleCount = a.sampleCount :=
  a.currentWindow_sampleCount t
@[simp] theorem refresh_intervalMs : (a.refresh t).intervalMs = a.intervalMs :=
  a.currentWindow_intervalMs t
@[simp] theorem refresh_newEmptyBucket : (a.refresh t).newEmptyBucket = a.newEmptyBucket :=
  a.currentWindow_newEmptyBucket t

@[simp] theorem updateCurrent_sampleCount (f : T → T) :
    (a.updateCurrent t f).sampleCount = a.sampleCount := by
  simp [updateCurrent]
@[simp] theorem updateCurrent_intervalMs (f : T → T) :
    (a.updateCurrent t f).intervalMs = a.intervalMs := by
  simp [updateCurrent]
@[simp] theorem updateCurrent_newEmptyBucket (f : T → T) :
    (a.updateCurrent t f).newEmptyBucket = a.newEmptyBucket := by
  simp [updateCurrent]

end Shape

/-- A slot that holds the bucket of `t` is left alone by `CurrentWindow(t)`. -/
theorem currentWindow_of_visited [Resettable T] {a : LeapArray T} {t : ℕ} (h : a.Visited t) :
    a.currentWindow t = (a, .slot (a.calculateTimeIdx t)) := by
  obtain ⟨v, hv⟩ := h
  unfold currentWindow
  simp [hv]

theorem Visited.updateCurrent_eq [Resettable T] {a : LeapArray T} {t : ℕ} {v : T}
    (h : a.array (a.calculateTimeIdx t) = some ⟨a.calculateWindowStart t, v⟩) (f : T → T) :
    a.updateCurrent t f =
      a.setSlot (a.calculateTimeIdx t) ⟨a.calculateWindowStart t, f v⟩ := by
  simp [updateCurrent, currentWindow_of_visited ⟨v, h⟩, modify, h]

theorem Visited.setSlot {a : LeapArray T} {t : ℕ} (v : T) :
    (a.setSlot (a.calculateTimeIdx t) ⟨a.calculateWindowStart t, v⟩).Visited t :=
  ⟨v, setSlot_array_self a _ _⟩

/-- Refreshing first changes nothing about an update at the same time. -/
theorem updateCurrent_refresh [Resettable T] (a : LeapArray T) (t : ℕ) (f : T → T) :
    (a.refresh t).updateCurrent t f = a.updateCurrent t f := by
  rcases a.currentWindow_cases t with ⟨-, h⟩ | ⟨v, hv, h⟩ | ⟨old, -, -, h⟩ | ⟨old, ho, hlt, h⟩
  · rw [refresh, h, updateCurrent, updateCurrent, h, currentWindow_of_visited (Visited.setSlot _)]
    rfl
  · rw [refresh, h]
  · rw [refresh, h, updateCurrent, updateCurrent, h, currentWindow_of_visited (Visited.setSlot _)]
    rfl
  · rw [refresh, h]

theorem refresh_refresh [Resettable T] (a : LeapArray T) (t : ℕ) :
    (a.refresh t).refresh t = a.refresh t := by
  rcases a.currentWindow_cases t with ⟨-, h⟩ | ⟨v, hv, h⟩ | ⟨old, -, -, h⟩ | ⟨old, ho, hlt, h⟩
  · rw [refresh, refresh, h, currentWindow_of_visited (Visited.setSlot _)]
  · rw [refresh, refresh, h, h]
  · rw [refresh, refresh, h, currentWindow_of_visited (Visited.setSlot _)]
  · rw [refresh, refresh, h, h]

/-- **What an update can do**: the slot of `t` has the bucket of `t`, or takes it in the place of none or
of an older one, and the value is updated; or the slot has a younger bucket, and nothing changes. -/
theorem updateCurrent_cases [Resettable T] (a : LeapArray T) (t : ℕ) (f : T → T) :
    (∃ v, (a.array (a.calculateTimeIdx t) = some ⟨a.calculateWindowStart t, v⟩ ∨
        (v = a.newEmptyBucket ∧ a.array (a.calculateTimeIdx t) = none) ∨
        ∃ old, a.array (a.calculateTimeIdx t) = some old ∧
          old.bucketStart < a.calculateWindowStart t ∧ v = Resettable.reset old.value) ∧
      a.updateCurrent t f =
        a.setSlot (a.calculateTimeIdx t) ⟨a.calculateWindowStart t, f v⟩) ∨
    (∃ old, a.array (a.calculateTimeIdx t) = some old ∧ a.calculateWindowStart t < old.bucketStart ∧
      a.updateCurrent t f = a) := by
  have htaken : ∀ {v}, a.currentWindow t = (a.setSlot (a.calculateTimeIdx t)
      ⟨a.calculateWindowStart t, v⟩, .slot (a.calculateTimeIdx t)) → a.updateCurrent t f =
        a.setSlot (a.calculateTimeIdx t) ⟨a.calculateWindowStart t, f v⟩ := by
    intro v h
    have hslot : (a.setSlot (a.calculateTimeIdx t) ⟨a.calculateWindowStart t, v⟩).array
        (a.calculateTimeIdx t) = some ⟨a.calculateWindowStart t, v⟩ := setSlot_array_self _ _ _
    rw [updateCurrent, h]
    dsimp only [modify]
    rw [hslot]
    exact setSlot_setSlot a _ _ _
  rcases a.currentWindow_cases t with ⟨hnone, h⟩ | ⟨v, hv, h⟩ | ⟨old, ho, hlt, h⟩ | ⟨old, ho, hlt, h⟩
  · exact .inl ⟨_, .inr (.inl ⟨rfl, hnone⟩), htaken h⟩
  · exact .inl ⟨v, .inl hv, Visited.updateCurrent_eq hv f⟩
  · exact .inl ⟨_, .inr (.inr ⟨old, ho, hlt, rfl⟩), htaken h⟩
  · refine .inr ⟨old, ho, hlt, ?_⟩
    rw [updateCurrent, h]
    rfl

/-- An update that changes no value is a call for its effect. -/
theorem updateCurrent_id [Resettable T] (a : LeapArray T) (t : ℕ) :
    a.updateCurrent t id = a.refresh t := by
  have hmodify : ∀ (a : LeapArray T) (i : ℕ), a.modify (.slot i) id = a := by
    intro a i
    unfold modify
    dsimp only
    cases hw : a.array i with
    | none => rfl
    | some w =>
      refine congrArg (LeapArray.mk _ _ _) (funext fun j => ?_)
      by_cases hj : j = i
      · rw [if_pos hj, hj, hw]
        rfl
      · rw [if_neg hj]
  unfold updateCurrent refresh
  rcases a.currentWindow_cases t with ⟨-, h⟩ | ⟨v, -, h⟩ | ⟨old, -, -, h⟩ | ⟨old, -, -, h⟩
  · rw [h]
    exact hmodify _ _
  · rw [h]
    exact hmodify _ _
  · rw [h]
    exact hmodify _ _
  · rw [h]
    rfl

/-! ### Visiting the values -/

section Visit

variable (a : LeapArray T) (t : ℕ) (f : T → T)

@[simp] theorem visitValues_sampleCount : (a.visitValues t f).sampleCount = a.sampleCount := rfl
@[simp] theorem visitValues_intervalMs : (a.visitValues t f).intervalMs = a.intervalMs := rfl
@[simp] theorem visitValues_newEmptyBucket :
    (a.visitValues t f).newEmptyBucket = a.newEmptyBucket := rfl

/-- A visit changes the values in place. -/
theorem values_visitValues : (a.visitValues t f).values t = (a.values t).map f := by
  unfold values buckets
  rw [List.map_filterMap, List.map_filterMap, List.map_filterMap]
  refine List.filterMap_congr fun i hi => ?_
  have hi' : i < a.sampleCount := List.mem_range.mp hi
  simp only [visitValues]
  cases a.array i with
  | none => rfl
  | some w =>
    have hdep : ∀ w' : WindowWrap T, w'.bucketStart = w.bucketStart →
        (a.visitValues t f).isBucketDeprecated t w' = a.isBucketDeprecated t w := by
      intro w' hw'
      unfold isBucketDeprecated
      rw [hw']
      rfl
    cases hd : a.isBucketDeprecated t w with
    | true =>
      have h1 := (hdep w rfl).trans hd
      simp only [visitValues] at h1
      simp [hd, h1]
    | false =>
      have h1 := (hdep { w with value := f w.value } rfl).trans hd
      simp only [visitValues] at h1
      simp [hd, hi', h1]

/-- After `CurrentWindow(t)`, a visit leaves nothing for another `CurrentWindow(t)` to do. -/
theorem refresh_visitValues_refresh [Resettable T] :
    ((a.refresh t).visitValues t f).refresh t = (a.refresh t).visitValues t f := by
  have hslot : ∃ old, (a.refresh t).array (a.calculateTimeIdx t) = some old ∧
      a.calculateWindowStart t ≤ old.bucketStart := by
    rcases a.currentWindow_cases t with ⟨-, h⟩ | ⟨v, hv, h⟩ | ⟨old, -, -, h⟩ | ⟨old, ho, hlt, h⟩
    · exact ⟨_, by rw [refresh, h]; exact setSlot_array_self a _ _, le_rfl⟩
    · exact ⟨_, by rw [refresh, h]; exact hv, le_rfl⟩
    · exact ⟨_, by rw [refresh, h]; exact setSlot_array_self a _ _, le_rfl⟩
    · exact ⟨_, by rw [refresh, h]; exact ho, hlt.le⟩
  obtain ⟨old, ho, hle⟩ := hslot
  have hidx : ((a.refresh t).visitValues t f).calculateTimeIdx t = a.calculateTimeIdx t := by
    simp [calculateTimeIdx, bucketLengthMs]
  have hstart : ((a.refresh t).visitValues t f).calculateWindowStart t = a.calculateWindowStart t := by
    simp [calculateWindowStart, bucketLengthMs]
  obtain ⟨w, hw, hws⟩ : ∃ w, ((a.refresh t).visitValues t f).array (a.calculateTimeIdx t) = some w ∧
      w.bucketStart = old.bucketStart := by
    simp only [visitValues, ho, Option.map_some]
    refine ⟨_, rfl, ?_⟩
    split_ifs <;> rfl
  generalize (a.refresh t).visitValues t f = d at hidx hstart hw ⊢
  rcases d.currentWindow_cases t with ⟨h1, -⟩ | ⟨v, -, h⟩ | ⟨old', h1, h2, -⟩ | ⟨_, -, -, h⟩
  · rw [hidx, hw] at h1
    exact absurd h1 (by simp)
  · rw [refresh, h]
  · rw [hidx, hw, Option.some.injEq] at h1
    subst h1
    rw [hstart, hws] at h2
    omega
  · rw [refresh, h]

end Visit

/-! ### Operations at the current time keep the ring invariant -/

section Stands

variable {rel : T → List E → Prop} {a : LeapArray T} {h : Hist E} {now t : ℕ}

/-- **An update at any time**: what a slot holds are all events of its bucket. -/
theorem stores_updateCurrent [Resettable T] {visited : ℕ → Prop} {f : T → T} {es' : List E}
    (hS : Stores a.sampleCount a.bucketLengthMs rel a.slots h visited) (hb : 0 < a.bucketLengthMs)
    (hvisited : visited (t / a.bucketLengthMs)) (hnew : rel a.newEmptyBucket [])
    (hreset : ∀ v es, rel v es → rel (Resettable.reset v) [])
    (hf : ∀ v es, rel v es → rel (f v) (es ++ es')) :
    Stores a.sampleCount a.bucketLengthMs rel (a.updateCurrent t f).slots
      (h ++ es'.map fun e => (t, e)) visited := by
  have hslot : ∀ {w}, a.array (a.calculateTimeIdx t) = some w →
      a.slots (t / a.bucketLengthMs % a.sampleCount) = some (w.bucketStart, w.value) :=
    fun hw => congrArg (Option.map fun w : WindowWrap T => (w.bucketStart, w.value)) hw
  -- the slot is taken with a value that stands for no event, and then updated
  have htake : ∀ v, rel v [] → (∀ s w, a.slots (t / a.bucketLengthMs % a.sampleCount) = some (s, w) →
      s < t / a.bucketLengthMs * a.bucketLengthMs) →
      Stores a.sampleCount a.bucketLengthMs rel
        (Function.update a.slots (t / a.bucketLengthMs % a.sampleCount)
          (some (t / a.bucketLengthMs * a.bucketLengthMs, f v)))
        (h ++ es'.map fun e => (t, e)) visited := by
    intro v hv hold
    have htaken := (hS.visit hvisited hv hold).record (Function.update_self _ _ _) hb (hf v)
    rwa [Function.update_idem] at htaken
  rcases a.updateCurrent_cases t f with ⟨v, hv, hupdate⟩ | ⟨old, hold, hlt, hupdate⟩
  · rw [hupdate, slots_setSlot]
    dsimp only
    rw [calculateWindowStart_eq] at hv ⊢
    rcases hv with hv | ⟨rfl, hnone⟩ | ⟨old, hold, hlt, rfl⟩
    · exact hS.record (hslot hv) hb (hf v)
    · refine htake _ hnew fun s w hs => ?_
      have hempty : a.slots (t / a.bucketLengthMs % a.sampleCount) = none :=
        congrArg (Option.map fun w : WindowWrap T => (w.bucketStart, w.value)) hnone
      rw [hempty] at hs
      cases hs
    · obtain ⟨k, -, -, -, hold', -⟩ := hS.full _ _ _ (hslot hold)
      refine htake _ (hreset _ _ hold') fun s w hs => ?_
      rw [hslot hold, Option.some.injEq, Prod.mk.injEq] at hs
      exact hs.1 ▸ hlt
  · rw [hupdate]
    rw [calculateWindowStart_eq] at hlt
    exact hS.skip (hslot hold) hlt es'

theorem stands_mk' (n i : ℕ) (v : T) : (mk' n i v).Stands rel ([] : Hist E) now :=
  Holds.nil _ _ _ _

theorem Stands.later (hS : a.Stands rel h now) (hle : now ≤ t) : a.Stands rel h t :=
  Holds.later hS hle

theorem Stands.imp (rel' : T → List E → Prop) (hS : a.Stands rel h now)
    (hrel : ∀ v k, rel v (inBucket a.bucketLengthMs k h) → rel' v (inBucket a.bucketLengthMs k h)) :
    a.Stands rel' h now :=
  Holds.imp rel' hS hrel

theorem Visited.slot_eq (hv : a.Visited t) :
    ∃ v, a.slots (t / a.bucketLengthMs % a.sampleCount) =
      some (t / a.bucketLengthMs * a.bucketLengthMs, v) := by
  obtain ⟨v, hv⟩ := hv
  refine ⟨v, ?_⟩
  rw [← calculateWindowStart_eq]
  exact congrArg (Option.map fun w : WindowWrap T => (w.bucketStart, w.value)) hv

/-- **Refresh.**  At a time not before the last use, `CurrentWindow` hands out the slot of that time
and the array stands for the same history. -/
theorem Stands.currentWindow [Resettable T] (hS : a.Stands rel h now) (hle : now ≤ t)
    (hnew : rel a.newEmptyBucket []) (hreset : ∀ v es, rel v es → rel (Resettable.reset v) []) :
    (a.refresh t).Stands rel h t ∧ (a.refresh t).Visited t ∧
      a.currentWindow t = (a.refresh t, .slot (a.calculateTimeIdx t)) := by
  have hS' : a.Stands rel h t := hS.later hle
  have hvisit : ∀ v, rel v [] → (∀ s w, a.slots (a.calculateTimeIdx t) = some (s, w) →
      s < a.calculateWindowStart t) →
      (a.setSlot (a.calculateTimeIdx t) ⟨a.calculateWindowStart t, v⟩).Stands rel h t := by
    intro v hv hold
    unfold Stands
    rw [slots_setSlot]
    simp only [calculateWindowStart_eq] at hold ⊢
    exact Holds.visit hS' hv hold
  rcases a.currentWindow_cases t with ⟨hnone, heq⟩ | ⟨v, hv, heq⟩ | ⟨old, ho, hlt, heq⟩ |
    ⟨old, ho, hlt, heq⟩
  · refine ⟨?_, ?_, by rw [refresh, heq]⟩ <;> rw [refresh, heq]
    · exact hvisit _ hnew fun s w hs => by simp [slots, hnone] at hs
    · exact Visited.setSlot _
  · refine ⟨?_, ?_, by rw [refresh, heq]⟩ <;> rw [refresh, heq]
    · exact hS'
    · exact ⟨v, hv⟩
  · refine ⟨?_, ?_, by rw [refresh, heq]⟩ <;> rw [refresh, heq]
    · obtain ⟨k, -, -, -, hr, -⟩ := hS'.full (a.calculateTimeIdx t) old.bucketStart old.value
        (by simp [slots, ho])
      refine hvisit _ (hreset _ _ hr) fun s w hs => ?_
      simp only [slots, ho, Option.map_some, Option.some.injEq, Prod.mk.injEq] at hs
      omega
    · exact Visited.setSlot _
  · -- a slot never holds a bucket later than the last use
    exfalso
    obtain ⟨k, hk, -, hle', -, -⟩ := hS'.full (a.calculateTimeIdx t) old.bucketStart old.value
        (by simp [slots, ho])
    have hmul := Nat.mul_le_mul_right a.bucketLengthMs hle'
    rw [calculateWindowStart_eq] at hlt
    omega

/-- **Record.**  An update of the current bucket that stands for one more event. -/
theorem Stands.record_current [Resettable T] (hS : a.Stands rel h now) (hle : now ≤ t)
    (hb : 0 < a.bucketLengthMs) (hnew : rel a.newEmptyBucket [])
    (hreset : ∀ v es, rel v es → rel (Resettable.reset v) []) {f : T → T} {e : E}
    (hf : ∀ v, a.currentValue? t = some v → ∀ es, rel v es → rel (f v) (es ++ [e])) :
    (a.updateCurrent t f).Stands rel (h ++ [(t, e)]) t ∧ (a.updateCurrent t f).Visited t := by
  obtain ⟨hS', ⟨v, hv⟩, -⟩ := hS.currentWindow hle hnew hreset
  have hcurrent : a.currentValue? t = some v := by
    have hidx : (a.refresh t).calculateTimeIdx t = a.calculateTimeIdx t := by
      simp [calculateTimeIdx, bucketLengthMs]
    rw [currentValue?, ← hidx, hv]
    rfl
  rw [← updateCurrent_refresh, Visited.updateCurrent_eq hv]
  refine ⟨?_, Visited.setSlot _⟩
  have hb' : (a.refresh t).bucketLengthMs = a.bucketLengthMs := by
    simp [bucketLengthMs]
  unfold Stands at hS' ⊢
  rw [slots_setSlot]
  simp only [calculateWindowStart_eq] at hv ⊢
  refine Holds.record hS' (v := v) ?_ (by rw [hb']; exact hb) fun es => hf v hcurrent es
  exact congrArg (Option.map fun w : WindowWrap T => (w.bucketStart, w.value)) hv

/-- The same for an update that stands for the event whatever the bucket is. -/
theorem Stands.record [Resettable T] (hS : a.Stands rel h now) (hle : now ≤ t)
    (hb : 0 < a.bucketLengthMs) (hnew : rel a.newEmptyBucket [])
    (hreset : ∀ v es, rel v es → rel (Resettable.reset v) []) {f : T → T} {e : E}
    (hf : ∀ v es, rel v es → rel (f v) (es ++ [e])) :
    (a.updateCurrent t f).Stands rel (h ++ [(t, e)]) t ∧ (a.updateCurrent t f).Visited t :=
  hS.record_current hle hb hnew hreset fun v _ => hf v

/-- An update of the current bucket that stands for the same events. -/
theorem Stands.adjust [Resettable T] (hS : a.Stands rel h now) (hle : now ≤ t)
    (hnew : rel a.newEmptyBucket []) (hreset : ∀ v es, rel v es → rel (Resettable.reset v) [])
    {f : T → T} (hf : ∀ v es, rel v es → rel (f v) es) :
    (a.updateCurrent t f).Stands rel h t ∧ (a.updateCurrent t f).Visited t := by
  obtain ⟨hS', ⟨v, hv⟩, -⟩ := hS.currentWindow hle hnew hreset
  rw [← updateCurrent_refresh, Visited.updateCurrent_eq hv]
  refine ⟨?_, Visited.setSlot _⟩
  unfold Stands at hS' ⊢
  rw [slots_setSlot]
  refine Holds.replace hS' ?_ fun es => hf v es
  exact congrArg (Option.map fun w : WindowWrap T => (w.bucketStart, w.value)) hv

/-- **An update at a time up to `now`**, before or after the last use. -/
theorem Stands.updateCurrent [Resettable T] {f : T → T} {es' : List E} (hS : a.Stands rel h now)
    (hle : t ≤ now) (hb : 0 < a.bucketLengthMs) (hnew : rel a.newEmptyBucket [])
    (hreset : ∀ v es, rel v es → rel (Resettable.reset v) [])
    (hf : ∀ v es, rel v es → rel (f v) (es ++ es')) :
    (a.updateCurrent t f).Stands rel (h ++ es'.map fun e => (t, e)) now := by
  have hlength : (a.updateCurrent t f).bucketLengthMs = a.bucketLengthMs := by
    simp [bucketLengthMs]
  unfold Stands at hS ⊢
  rw [hlength, updateCurrent_sampleCount]
  refine .of_stores (stores_updateCurrent hS.stores hb (Nat.div_le_div_right hle) hnew hreset hf) ?_
  intro x hx
  rcases List.mem_append.mp hx with hx | hx
  · exact hS.past x hx
  · obtain ⟨e, -, rfl⟩ := List.mem_map.mp hx
    exact hle

/-- `CurrentWindow` at such a time. -/
theorem Stands.refresh [Resettable T] (hS : a.Stands rel h now) (hle : t ≤ now)
    (hb : 0 < a.bucketLengthMs) (hnew : rel a.newEmptyBucket [])
    (hreset : ∀ v es, rel v es → rel (Resettable.reset v) []) : (a.refresh t).Stands rel h now := by
  have hupdate : (a.updateCurrent t id).Stands rel (h ++ ([] : List E).map fun e => (t, e)) now :=
    hS.updateCurrent hle hb hnew hreset fun v es hv => by rwa [List.append_nil]
  rwa [updateCurrent_id, List.map_nil, List.append_nil] at hupdate

/-- **Forget.**  An update of the only slot, to a value that stands for no event, forgets the history. -/
theorem Stands.forget [Resettable T] (hS : a.Stands rel h now) (hle : now ≤ t)
    (hone : a.sampleCount = 1) (hnew : rel a.newEmptyBucket [])
    (hreset : ∀ v es, rel v es → rel (Resettable.reset v) []) {f : T → T} (hf : ∀ v, rel (f v) []) :
    (a.updateCurrent t f).Stands rel ([] : Hist E) t := by
  obtain ⟨hS', ⟨v, hv⟩, -⟩ := hS.currentWindow hle hnew hreset
  rw [← updateCurrent_refresh, Visited.updateCurrent_eq hv]
  have hone' : (a.refresh t).sampleCount = 1 := by rw [refresh_sampleCount, hone]
  unfold Stands at hS' ⊢
  rw [slots_setSlot]
  simp only [calculateTimeIdx, calculateWindowStart_eq, setSlot, bucketLengthMs, hone'] at hS' ⊢
  exact Holds.forget hS' (hf v)

/-- A visit that stands for no event. -/
theorem Stands.visitValues (hS : a.Stands rel h now) {f : T → T}
    (hf : ∀ v es, rel v es → rel (f v) es) : (a.visitValues t f).Stands rel h now := by
  have hslots : ∀ i, (a.visitValues t f).slots i = a.slots i ∨
      ∃ s v, a.slots i = some (s, v) ∧ (a.visitValues t f).slots i = some (s, f v) := by
    intro i
    simp only [slots, LeapArray.visitValues]
    cases a.array i with
    | none => exact .inl rfl
    | some w =>
      by_cases hc : i < a.sampleCount ∧ a.isBucketDeprecated t w = false
      · exact .inr ⟨w.bucketStart, w.value, rfl, by simp [hc]⟩
      · exact .inl (by simp [hc])
  refine ⟨fun i hi => ?_, fun i s v hi => ?_, hS.past⟩
  · rcases hslots i with hs | ⟨s, v, -, hs⟩
    · exact hS.empty i (hs ▸ hi)
    · rw [hs] at hi
      exact absurd hi (by simp)
  · rcases hslots i with hs | ⟨s', v', hs', hs⟩
    · exact hS.full i s v (hs ▸ hi)
    · rw [hs, Option.some.injEq, Prod.mk.injEq] at hi
      obtain ⟨rfl, rfl⟩ := hi
      obtain ⟨k, h1, h2, h3, h4, h5⟩ := hS.full i s' v' hs'
      exact ⟨k, h1, h2, h3, hf _ _ h4, h5⟩

theorem WellFormed.isBucketDeprecated_iff (hw : a.WellFormed) (t : ℕ) (w : WindowWrap T) :
    a.isBucketDeprecated t w = true ↔ a.sampleCount * a.bucketLengthMs + w.bucketStart < t := by
  rw [isBucketDeprecated, ← hw.interval_eq, decide_eq_true_eq]
  omega

theorem values_eq_ringValues (hw : a.WellFormed) (t : ℕ) :
    a.values t = ringValues a.sampleCount a.bucketLengthMs a.slots t := by
  unfold values buckets ringValues
  rw [List.map_filterMap]
  refine List.filterMap_congr fun i _ => ?_
  unfold slots
  cases a.array i with
  | none => rfl
  | some w =>
    have hiff := hw.isBucketDeprecated_iff t w
    by_cases hd : a.sampleCount * a.bucketLengthMs + w.bucketStart < t <;> simp [hiff, hd]

theorem mem_buckets {w : WindowWrap T} :
    w ∈ a.buckets t ↔
      ∃ i < a.sampleCount, a.array i = some w ∧ a.isBucketDeprecated t w = false := by
  simp only [buckets, List.mem_filterMap, List.mem_range]
  refine exists_congr fun i => and_congr_right fun _ => ?_
  cases a.array i with
  | none => simp
  | some w' =>
    dsimp only
    split_ifs with hd
    · simp only [Option.some.injEq, false_iff, not_and]
      rintro rfl
      simp [hd]
    · simp only [Option.some.injEq, iff_self_and]
      rintro rfl
      simpa using hd

/-- What `Buckets(t)` returns after `CurrentWindow(t)`: buckets of the window with what they stand
for, and every bucket of the window with an event. -/
theorem Stands.buckets_spec (hS : a.Stands rel h t) (hw : a.WellFormed) (hv : a.Visited t) :
    (∀ w ∈ a.buckets t, ∃ k, w.bucketStart = k * a.bucketLengthMs ∧
      InWindow a.sampleCount a.bucketLengthMs t k ∧ rel w.value (inBucket a.bucketLengthMs k h)) ∧
    ∀ k, InWindow a.sampleCount a.bucketLengthMs t k → inBucket a.bucketLengthMs k h ≠ [] →
      ∃ w ∈ a.buckets t, w.bucketStart = k * a.bucketLengthMs := by
  constructor
  · intro w hmem
    obtain ⟨i, -, hi, hd⟩ := mem_buckets.mp hmem
    have hs : a.slots i = some (w.bucketStart, w.value) := by simp [slots, hi]
    have hrec : ¬ a.sampleCount * a.bucketLengthMs + w.bucketStart < t := by
      rw [← hw.isBucketDeprecated_iff, hd]
      exact Bool.false_ne_true
    obtain ⟨k, h1, -, h3, h4⟩ :=
      hS.inWindow_of_recent hw.length_pos hw.count_pos hv.slot_eq hs hrec
    exact ⟨k, h1, h3, h4⟩
  · intro k hk hne
    obtain ⟨v, hs, hrec⟩ := hS.exists_slot hw.length_pos hk hne
    obtain ⟨w, hi, heq⟩ := Option.map_eq_some_iff.mp hs
    rw [Prod.mk.injEq] at heq
    refine ⟨w, mem_buckets.mpr ⟨_, Nat.mod_lt _ hw.count_pos, hi, ?_⟩, heq.1⟩
    rw [← Bool.not_eq_true, hw.isBucketDeprecated_iff, heq.1]
    exact hrec

/-- What `Values(t)` returns after `CurrentWindow(t)`: distinct buckets of the window, and no event
of the window is in a bucket left out. -/
theorem Stands.values_cover (hS : a.Stands rel h t) (hw : a.WellFormed) (hv : a.Visited t) :
    ∃ ks : List ℕ, List.Forall₂ (fun v k => rel v (inBucket a.bucketLengthMs k h)) (a.values t) ks ∧
      ks.Nodup ∧ (∀ k ∈ ks, InWindow a.sampleCount a.bucketLengthMs t k) ∧
      ∀ k, InWindow a.sampleCount a.bucketLengthMs t k → k ∉ ks →
        inBucket a.bucketLengthMs k h = [] := by
  rw [values_eq_ringValues hw]
  exact Holds.values_cover hS hw.length_pos hw.count_pos hv.slot_eq

/-- Totals over `Values(t)` are totals over the events of the window. -/
theorem Stands.sum_values {M : Type} [AddCommMonoid M] {φ : T → M} {f : E → M}
    (hφ : ∀ v es, rel v es → φ v = (es.map f).sum) (hS : a.Stands rel h t) (hw : a.WellFormed)
    (hv : a.Visited t) :
    ((a.values t).map φ).sum =
      ((inWindow a.sampleCount a.bucketLengthMs t h).map f).sum := by
  rw [values_eq_ringValues hw]
  exact Holds.sum_values hφ hS hw.length_pos hw.count_pos hv.slot_eq

end Stands

/-! ### A property of every bucket -/

/-- The property holds of the buckets of all slots, live or not, and of an empty one. -/
structure EveryBucket (a : LeapArray T) (P : T → Prop) : Prop where
  empty : P a.newEmptyBucket
  slot : ∀ i w, a.array i = some w → P w.value

namespace EveryBucket

variable {a : LeapArray T} {P : T → Prop} {f : T → T} {w : WindowWrap T}

theorem mk' (sampleCount intervalMs : ℕ) {empty : T} (h : P empty) :
    (LeapArray.mk' sampleCount intervalMs empty).EveryBucket P :=
  ⟨h, fun _ _ hw => absurd hw.symm (Option.some_ne_none _)⟩

theorem setSlot (h : a.EveryBucket P) (idx : ℕ) (hw : P w.value) :
    (a.setSlot idx w).EveryBucket P := by
  refine ⟨h.empty, fun i w' hi => ?_⟩
  by_cases hidx : i = idx
  · subst hidx
    have hself : (a.setSlot i w).array i = some w := setSlot_array_self a i w
    rw [hself, Option.some.injEq] at hi
    exact hi ▸ hw
  · have hother : (a.setSlot idx w).array i = a.array i := setSlot_array_of_ne a hidx w
    rw [hother] at hi
    exact h.slot i w' hi

theorem refresh [Resettable T] (h : a.EveryBucket P) (hreset : ∀ v, P v → P (Resettable.reset v))
    (t : ℕ) : (a.refresh t).EveryBucket P := by
  unfold LeapArray.refresh
  rcases a.currentWindow_cases t with ⟨-, heq⟩ | ⟨v, -, heq⟩ | ⟨old, ho, -, heq⟩ | ⟨old, -, -, heq⟩
  · rw [heq]
    exact h.setSlot _ h.empty
  · rw [heq]
    exact h
  · rw [heq]
    exact h.setSlot _ (hreset _ (h.slot _ _ ho))
  · rw [heq]
    exact h

theorem modify (h : a.EveryBucket P) (hf : ∀ v, P v → P (f v)) (ref : WindowRef T) :
    (a.modify ref f).EveryBucket P := by
  unfold LeapArray.modify
  cases ref with
  | detached w => exact h
  | slot idx =>
    dsimp only
    cases hw : a.array idx with
    | none => exact h
    | some w => exact h.setSlot idx (hf _ (h.slot idx w hw))

theorem updateCurrent [Resettable T] (h : a.EveryBucket P)
    (hreset : ∀ v, P v → P (Resettable.reset v)) (hf : ∀ v, P v → P (f v)) (t : ℕ) :
    (a.updateCurrent t f).EveryBucket P :=
  (h.refresh hreset t).modify hf _

theorem visitValues (h : a.EveryBucket P) (hf : ∀ v, P v → P (f v)) (t : ℕ) :
    (a.visitValues t f).EveryBucket P := by
  refine ⟨h.empty, fun i w hi => ?_⟩
  obtain ⟨w', hw', rfl⟩ := Option.map_eq_some_iff.mp hi
  have hP := h.slot i w' hw'
  split_ifs
  · exact hf _ hP
  · exact hP

end EveryBucket

/-! ### Arrays of other values -/

section MapValue

variable {T' : Type} (g : T → T') (a : LeapArray T) (t : ℕ)

/-- The array with every value replaced by its image. -/
def mapValue : LeapArray T' where
  sampleCount := a.sampleCount
  intervalMs := a.intervalMs
  newEmptyBucket := g a.newEmptyBucket
  array := fun i => (a.array i).map fun w => ⟨w.bucketStart, g w.value⟩

theorem mapValue_setSlot (i : ℕ) (w : WindowWrap T) :
    (a.setSlot i w).mapValue g = (a.mapValue g).setSlot i ⟨w.bucketStart, g w.value⟩ := by
  refine congrArg (LeapArray.mk _ _ _) (funext fun j => ?_)
  by_cases hj : j = i
  · rw [if_pos hj, hj, setSlot_array_self]
    rfl
  · rw [if_neg hj, setSlot_array_of_ne a hj]
    rfl

/-- An update of the current bucket commutes with the image. -/
theorem mapValue_updateCurrent [Resettable T] [Resettable T'] {f : T → T} {f' : T' → T'}
    (hreset : ∀ v : T, g (Resettable.reset v) = Resettable.reset (g v)) (hf : ∀ v, g (f v) = f' (g v)) :
    (a.updateCurrent t f).mapValue g = (a.mapValue g).updateCurrent t f' := by
  have hidx : (a.mapValue g).calculateTimeIdx t = a.calculateTimeIdx t := rfl
  have hstart : (a.mapValue g).calculateWindowStart t = a.calculateWindowStart t := rfl
  have hslot : (a.mapValue g).array (a.calculateTimeIdx t) =
      (a.array (a.calculateTimeIdx t)).map fun w => ⟨w.bucketStart, g w.value⟩ := rfl
  -- a slot that has been taken is updated in place
  have htaken : ∀ v : T, ((a.setSlot (a.calculateTimeIdx t) ⟨a.calculateWindowStart t, v⟩).modify
      (.slot (a.calculateTimeIdx t)) f).mapValue g =
      ((a.mapValue g).setSlot (a.calculateTimeIdx t) ⟨a.calculateWindowStart t, g v⟩).modify
        (.slot (a.calculateTimeIdx t)) f' := by
    intro v
    have h₁ : (a.setSlot (a.calculateTimeIdx t) ⟨a.calculateWindowStart t, v⟩).array
        (a.calculateTimeIdx t) = some ⟨a.calculateWindowStart t, v⟩ := setSlot_array_self _ _ _
    have h₂ : ((a.mapValue g).setSlot (a.calculateTimeIdx t) ⟨a.calculateWindowStart t, g v⟩).array
        (a.calculateTimeIdx t) = some ⟨a.calculateWindowStart t, g v⟩ := setSlot_array_self _ _ _
    unfold modify
    dsimp only
    rw [h₁, h₂]
    dsimp only
    rw [setSlot_setSlot, setSlot_setSlot, mapValue_setSlot, hf]
  unfold updateCurrent
  rcases a.currentWindow_cases t with ⟨hnone, h⟩ | ⟨v, hv, h⟩ | ⟨old, ho, hlt, h⟩ | ⟨old, ho, hlt, h⟩
  · have h' : (a.mapValue g).currentWindow t = ((a.mapValue g).setSlot (a.calculateTimeIdx t)
        ⟨a.calculateWindowStart t, g a.newEmptyBucket⟩, .slot (a.calculateTimeIdx t)) := by
      unfold currentWindow
      dsimp only
      rw [hidx, hstart, hslot, hnone]
      rfl
    rw [h, h']
    exact htaken _
  · have hv' : (a.mapValue g).array ((a.mapValue g).calculateTimeIdx t) =
        some ⟨(a.mapValue g).calculateWindowStart t, g v⟩ := by
      rw [hidx, hslot, hv]
      rfl
    have hset := Visited.updateCurrent_eq hv' f'
    have hset' := Visited.updateCurrent_eq hv f
    unfold updateCurrent at hset hset'
    rw [hset, hset', mapValue_setSlot, hf]
    rfl
  · have h' : (a.mapValue g).currentWindow t = ((a.mapValue g).setSlot (a.calculateTimeIdx t)
        ⟨a.calculateWindowStart t, g (Resettable.reset old.value)⟩, .slot (a.calculateTimeIdx t)) := by
      unfold currentWindow
      dsimp only
      rw [hidx, hstart, hslot, ho, hreset]
      dsimp only [Option.map_some]
      rw [if_neg (by omega), if_pos hlt]
    rw [h, h']
    exact htaken _
  · have h' : (a.mapValue g).currentWindow t =
        (a.mapValue g, .detached ⟨a.calculateWindowStart t, g a.newEmptyBucket⟩) := by
      unfold currentWindow
      dsimp only
      rw [hidx, hstart, hslot, ho]
      dsimp only [Option.map_some]
      rw [if_neg (by omega), if_neg (by omega)]
      rfl
    rw [h, h']
    rfl

theorem values_mapValue : (a.mapValue g).values t = (a.values t).map g := by
  unfold values buckets
  rw [List.map_filterMap, List.map_map, List.map_filterMap]
  refine List.filterMap_congr fun i _ => ?_
  simp only [mapValue]
  cases a.array i with
  | none => rfl
  | some w =>
    have hdep : (a.mapValue g).isBucketDeprecated t ⟨w.bucketStart, g w.value⟩ =
        a.isBucketDeprecated t w := rfl
    simp only [mapValue] at hdep
    simp only [Option.map_some, hdep]
    split_ifs <;> rfl

end MapValue

end LeapArray

end SentinelCpp.Stat
