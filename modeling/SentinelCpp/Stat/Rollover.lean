import Mathlib.Algebra.BigOperators.Group.Finset.Piecewise
import Mathlib.Algebra.Order.BigOperators.Group.Finset
import SentinelCpp.Lib.Run
import SentinelCpp.Stat.SlidingWindow

/-!
# Threads at the rollover of a bucket

`CurrentWindow(t)` and the addition that follows it, as the atomic steps of threads on one leap array.
A slot that is null is filled under the lock after looking at it again; a slot with an older bucket is
reset under the lock without looking again, and the new start is published before the counters are
cleared.  An addition is lost exactly when the counters are cleared after it.
-/

namespace SentinelCpp.Stat.Rollover

open Lib

/-- The threads, the time each calls `CurrentWindow` with and the addition it makes. -/
structure Calls where
  threads : ℕ
  time : ℕ → ℕ
  addition : ℕ → MetricAdd

/-- What a thread does next. -/
inductive Pc
  /-- Reads the slot and the start of its bucket. -/
  | read
  /-- Has read a null slot. -/
  | tryLockNew
  /-- Holds the lock: looks at the slot again and fills it. -/
  | checkNew
  /-- Has read an older bucket. -/
  | tryLockReset
  /-- Holds the lock: `ResetTo(start_time)`. -/
  | resetStart
  /-- Holds the lock: `Value()->Reset()`. -/
  | resetCounters
  /-- Holds the lock, with or without a bucket to return. -/
  | unlock (found : Bool)
  /-- `CurrentWindow` has returned the bucket of the slot. -/
  | add
  /-- `CurrentWindow` has returned a bucket outside the array. -/
  | addDetached
  | done
  deriving DecidableEq

/-- The array, the holder of `mtx_` and the threads.  A slot that has a bucket keeps that object, so the
bucket a thread has read or returned is named by its slot. -/
structure Machine where
  array : LeapArray MetricBucket
  owner : Option ℕ
  pc : ℕ → Pc

namespace Machine

def start (a : LeapArray MetricBucket) : Machine where
  array := a
  owner := none
  pc := fun _ => .read

variable (s : Machine) (i : ℕ)

/-- The thread goes on at `p`. -/
def goto (p : Pc) : Machine := { s with pc := Function.update s.pc i p }

/-- `try_lock`; on failure the loop starts over. -/
def tryLock (p : Pc) : Machine :=
  match s.owner with
  | none => { s with owner := some i }.goto i p
  | some _ => s.goto i .read

/-- A write through the pointer to the bucket of a slot. -/
def onBucket (idx : ℕ) (f : WindowWrap MetricBucket → WindowWrap MetricBucket) : Machine :=
  match s.array.array idx with
  | none => s
  | some w => { s with array := s.array.setSlot idx (f w) }

theorem onBucket_of_some {s : Machine} {idx : ℕ} {w : WindowWrap MetricBucket}
    (hw : s.array.array idx = some w) (f : WindowWrap MetricBucket → WindowWrap MetricBucket) :
    s.onBucket idx f = { s with array := s.array.setSlot idx (f w) } := by
  rw [onBucket, hw]

/-- The next step of thread `i`. -/
def step (c : Calls) : Option Machine :=
  let idx := s.array.calculateTimeIdx (c.time i)
  let bucketStart := s.array.calculateWindowStart (c.time i)
  if i < c.threads then
    match s.pc i with
    | .read =>
      match s.array.array idx with
      | none => some (s.goto i .tryLockNew)
      | some old =>
        if bucketStart = old.bucketStart then some (s.goto i .add)
        else if bucketStart > old.bucketStart then some (s.goto i .tryLockReset)
        else some (s.goto i .addDetached)
    | .tryLockNew => some (s.tryLock i .checkNew)
    | .checkNew =>
      match s.array.array idx with
      | none =>
        some ({ s with array := s.array.setSlot idx ⟨bucketStart, s.array.newEmptyBucket⟩ }.goto i
          (.unlock true))
      | some _ => some (s.goto i (.unlock false))
    | .tryLockReset => some (s.tryLock i .resetStart)
    | .resetStart =>
      some ((s.onBucket idx fun w => { w with bucketStart := bucketStart }).goto i .resetCounters)
    | .resetCounters =>
      some ((s.onBucket idx fun w => { w with value := Resettable.reset w.value }).goto i
        (.unlock true))
    | .unlock found => some ({ s with owner := none }.goto i (if found then .add else .read))
    | .add =>
      some ((s.onBucket idx fun w => { w with value := (c.addition i).apply w.value }).goto i .done)
    | .addDetached => some (s.goto i .done)
    | .done => none
  else none

end Machine

/-- An interleaving of the threads; a label is the thread that takes the step. -/
abbrev Steps (c : Calls) : Machine → List ℕ → Machine → Prop :=
  Run fun s i s' => s.step i c = some s'

theorem step_det (c : Calls) (s : Machine) (i : ℕ) (s₁ s₂ : Machine) (h₁ : s.step i c = some s₁)
    (h₂ : s.step i c = some s₂) : s₁ = s₂ :=
  Option.some.inj (h₁.symm.trans h₂)

/-! ### A thread on its own -/

section Alone

variable {c : Calls} {i : ℕ} {s : Machine}

@[simp] theorem Machine.goto_pc (s : Machine) (i : ℕ) (p : Pc) : (s.goto i p).pc i = p :=
  Function.update_self ..
@[simp] theorem Machine.goto_array (s : Machine) (i : ℕ) (p : Pc) : (s.goto i p).array = s.array := rfl
@[simp] theorem Machine.goto_owner (s : Machine) (i : ℕ) (p : Pc) : (s.goto i p).owner = s.owner := rfl

/-- Thread `i` takes its steps while the others wait. -/
def Alone (c : Calls) (i : ℕ) : Machine → Machine → Prop :=
  Relation.ReflTransGen fun s s' => s.step i c = some s'

/-- Where a thread stands when `CurrentWindow` has returned. -/
def returned : WindowRef MetricBucket → Pc
  | .slot _ => .add
  | .detached _ => .addDetached

/-- `CurrentWindow` of a thread that nobody disturbs. -/
theorem currentWindow_alone (hi : i < c.threads) (hpc : s.pc i = .read) (hfree : s.owner = none) :
    ∃ s₁, Alone c i s s₁ ∧ s₁.owner = none ∧ s₁.array = (s.array.currentWindow (c.time i)).1 ∧
      s₁.pc i = returned (s.array.currentWindow (c.time i)).2 := by
  rcases s.array.currentWindow_cases (c.time i) with ⟨hnone, heq⟩ | ⟨v, hv, heq⟩ |
    ⟨old, hold, hlt, heq⟩ | ⟨old, hold, hlt, heq⟩
  · -- null: lock, fill, unlock
    let s₁ := s.goto i .tryLockNew
    let s₂ := { s₁ with owner := some i }.goto i .checkNew
    let s₃ := { s₂ with array := (s.array.currentWindow (c.time i)).1 }.goto i (.unlock true)
    let s₄ := { s₃ with owner := none }.goto i .add
    have h₁ : s.step i c = some s₁ := by simp [Machine.step, hi, hpc, hnone, s₁]
    have h₂ : s₁.step i c = some s₂ := by simp [Machine.step, hi, Machine.tryLock, hfree, s₁, s₂]
    have h₃ : s₂.step i c = some s₃ := by simp [Machine.step, hi, hnone, s₁, s₂, s₃, heq]
    have h₄ : s₃.step i c = some s₄ := by simp [Machine.step, hi, s₃, s₄]
    refine ⟨s₄, .head h₁ (.head h₂ (.head h₃ (.single h₄))), rfl, rfl, ?_⟩
    rw [heq]
    exact Machine.goto_pc ..
  · have h₁ : s.step i c = some (s.goto i .add) := by simp [Machine.step, hi, hpc, hv]
    refine ⟨s.goto i .add, .single h₁, hfree, ?_, ?_⟩
    · rw [heq]
      rfl
    · rw [heq]
      exact Machine.goto_pc ..
  · -- older: lock, publish the start, clear, unlock
    let idx := s.array.calculateTimeIdx (c.time i)
    let bucketStart := s.array.calculateWindowStart (c.time i)
    let s₁ := s.goto i .tryLockReset
    let s₂ := { s₁ with owner := some i }.goto i .resetStart
    let s₃ := { s₂ with array := s.array.setSlot idx { old with bucketStart := bucketStart } }.goto i
      .resetCounters
    let s₄ := { s₃ with array := (s.array.currentWindow (c.time i)).1 }.goto i (.unlock true)
    let s₅ := { s₄ with owner := none }.goto i .add
    have h₁ : s.step i c = some s₁ := by
      simp [Machine.step, hi, hpc, hold, hlt, hlt.ne', s₁]
    have h₂ : s₁.step i c = some s₂ := by simp [Machine.step, hi, Machine.tryLock, hfree, s₁, s₂]
    have h₃ : s₂.step i c = some s₃ := by
      simp [Machine.step, hi, Machine.onBucket, hold, s₁, s₂, s₃, idx, bucketStart]
    have h₄ : s₃.step i c = some s₄ := by
      have hslot : s₃.array.array (s₃.array.calculateTimeIdx (c.time i)) =
          some { old with bucketStart := bucketStart } := LeapArray.setSlot_array_self ..
      have hidx : s₃.array.calculateTimeIdx (c.time i) = idx := rfl
      have hwin : (s.array.currentWindow (c.time i)).1 =
          s₃.array.setSlot idx ⟨bucketStart, Resettable.reset old.value⟩ := by
        rw [heq]
        exact (LeapArray.setSlot_setSlot ..).symm
      have hpc₃ : s₃.pc i = .resetCounters := Machine.goto_pc ..
      rw [Machine.step]
      simp only [hi, if_true, hpc₃]
      rw [Machine.onBucket_of_some hslot, hidx]
      simp only [s₄, hwin]
    have h₅ : s₄.step i c = some s₅ := by simp [Machine.step, hi, s₄, s₅]
    refine ⟨s₅, .head h₁ (.head h₂ (.head h₃ (.head h₄ (.single h₅)))), rfl, rfl, ?_⟩
    rw [heq]
    exact Machine.goto_pc ..
  · have h₁ : s.step i c = some (s.goto i .addDetached) := by
      simp [Machine.step, hi, hpc, hold, hlt.not_gt, hlt.ne]
    refine ⟨s.goto i .addDetached, .single h₁, hfree, ?_, ?_⟩
    · rw [heq]
      rfl
    · rw [heq]
      exact Machine.goto_pc ..

theorem onBucket_array (s : Machine) (idx : ℕ) (f : MetricBucket → MetricBucket) :
    (s.onBucket idx fun w => { w with value := f w.value }).array =
      s.array.modify (.slot idx) f := by
  unfold Machine.onBucket LeapArray.modify
  cases hs : s.array.array idx with
  | none => simp only [hs]
  | some w => simp only [hs]

theorem onBucket_owner (s : Machine) (idx : ℕ)
    (f : WindowWrap MetricBucket → WindowWrap MetricBucket) :
    (s.onBucket idx f).owner = s.owner := by
  unfold Machine.onBucket
  cases s.array.array idx <;> rfl

/-- **Without interference** `CurrentWindow(t)` and the addition are the sequential ones. -/
theorem updateCurrent_alone (hi : i < c.threads) (hpc : s.pc i = .read) (hfree : s.owner = none) :
    ∃ s', Alone c i s s' ∧ s'.pc i = .done ∧ s'.owner = none ∧
      s'.array = s.array.updateCurrent (c.time i) (c.addition i).apply := by
  obtain ⟨s₁, halone, hfree₁, harr, hpc₁⟩ := currentWindow_alone hi hpc hfree
  have href : (s.array.currentWindow (c.time i)).2 = .slot (s.array.calculateTimeIdx (c.time i)) ∨
      ∃ w, (s.array.currentWindow (c.time i)).2 = .detached w := by
    rcases s.array.currentWindow_cases (c.time i) with ⟨-, heq⟩ | ⟨v, -, heq⟩ | ⟨old, -, -, heq⟩ |
      ⟨old, -, -, heq⟩
    all_goals rw [heq]
    · exact .inl rfl
    · exact .inl rfl
    · exact .inl rfl
    · exact .inr ⟨_, rfl⟩
  have hidx : s₁.array.calculateTimeIdx (c.time i) = s.array.calculateTimeIdx (c.time i) := by
    rw [harr]
    simp [LeapArray.calculateTimeIdx, LeapArray.bucketLengthMs]
  rw [LeapArray.updateCurrent, ← harr]
  rcases href with href | ⟨w, href⟩
  · rw [href] at hpc₁ ⊢
    refine ⟨(s₁.onBucket (s.array.calculateTimeIdx (c.time i))
      fun w => { w with value := (c.addition i).apply w.value }).goto i .done,
      halone.tail ?_, Machine.goto_pc .., ?_, ?_⟩
    · simp [Machine.step, hi, hpc₁, returned, hidx]
    · rw [Machine.goto_owner, onBucket_owner, hfree₁]
    · rw [Machine.goto_array, onBucket_array]
  · rw [href] at hpc₁ ⊢
    refine ⟨s₁.goto i .done, halone.tail ?_, Machine.goto_pc .., hfree₁, rfl⟩
    simp [Machine.step, hi, hpc₁, returned]

end Alone

/-! ### What is counted -/

/-- The counter of `event` in the bucket with index `k`, 0 if its slot does not hold that bucket. -/
def count (a : LeapArray MetricBucket) (k : ℕ) (event : MetricEvent) : ℤ :=
  match a.array (k % a.sampleCount) with
  | none => 0
  | some w => if w.bucketStart = k * a.bucketLengthMs then w.value.get event else 0

/-- The additions made so far. -/
def added (c : Calls) (s : Machine) (event : MetricEvent) : ℤ :=
  ∑ i ∈ Finset.range c.threads, if s.pc i = .done then (c.addition i).amount event else 0

/-- All additions of the calls. -/
def total (c : Calls) (event : MetricEvent) : ℤ :=
  ∑ i ∈ Finset.range c.threads, (c.addition i).amount event

/-- All threads have finished. -/
def Finished (c : Calls) (s : Machine) : Prop := ∀ i < c.threads, s.pc i = .done

/-- A thread that clears the counters finds no addition made before. -/
def ClearsNothing (c : Calls) (s : Machine) (i : ℕ) : Prop :=
  s.pc i = .resetCounters → ∀ event, added c s event = 0

/-! ### What every interleaving keeps -/

/-- `CurrentWindow` is past the point where the slot holds the current bucket. -/
def Pc.past : Pc → Bool
  | .resetCounters | .unlock true | .add | .done => true
  | _ => false

/-- The thread is on its way to reset a bucket. -/
def Pc.resets : Pc → Bool
  | .tryLockReset | .resetStart | .resetCounters => true
  | _ => false

/-- All calls are for bucket `k`, and the slot of that bucket is null, older or current. -/
structure OneBucket (c : Calls) (a : LeapArray MetricBucket) (k : ℕ) : Prop where
  empty : a.newEmptyBucket = .empty
  times : ∀ i < c.threads, c.time i / a.bucketLengthMs = k
  lap : ∀ w, a.array (k % a.sampleCount) = some w → w.bucketStart ≤ k * a.bucketLengthMs

/-- The array was made with the sizes of `a`. -/
structure SameShape (a a' : LeapArray MetricBucket) : Prop where
  sampleCount : a'.sampleCount = a.sampleCount
  intervalMs : a'.intervalMs = a.intervalMs
  newEmptyBucket : a'.newEmptyBucket = a.newEmptyBucket

/-- The slot of bucket `k` holds that bucket. -/
def Current (a : LeapArray MetricBucket) (k : ℕ) (s : Machine) : Prop :=
  ∃ w, s.array.array (k % a.sampleCount) = some w ∧ w.bucketStart = k * a.bucketLengthMs

structure Inv (c : Calls) (a : LeapArray MetricBucket) (k : ℕ) (s : Machine) : Prop where
  shape : SameShape a s.array
  lap : ∀ w, s.array.array (k % a.sampleCount) = some w → w.bucketStart ≤ k * a.bucketLengthMs
  past : ∀ i, (s.pc i).past = true → Current a k s
  fresh : ¬ Current a k s → ∀ event, count a k event = 0
  resets : ∀ i, (s.pc i).resets = true →
    s.array.array (k % a.sampleCount) ≠ none ∧ ∀ event, count a k event = 0
  inArray : ∀ i, s.pc i ≠ .addDetached

section Inv

variable {c : Calls} {a : LeapArray MetricBucket} {k i : ℕ} {s s' : Machine}

theorem SameShape.bucketLengthMs {a' : LeapArray MetricBucket} (h : SameShape a a') :
    a'.bucketLengthMs = a.bucketLengthMs := by
  rw [LeapArray.bucketLengthMs, h.sampleCount, h.intervalMs]
  rfl

theorem inv_start (h : OneBucket c a k) : Inv c a k (.start a) := by
  refine ⟨⟨rfl, rfl, rfl⟩, h.lap, fun i hi => ?_, fun hcur event => ?_, fun i hi => ?_, fun i => ?_⟩
  · simp [Machine.start, Pc.past] at hi
  · unfold count
    cases hs : a.array (k % a.sampleCount) with
    | none => rfl
    | some w => exact if_neg fun hw => hcur ⟨w, hs, hw⟩
  · simp [Machine.start, Pc.resets] at hi
  · simp [Machine.start]

theorem Inv.calculateTimeIdx (hI : Inv c a k s) (h : OneBucket c a k) (hi : i < c.threads) :
    s.array.calculateTimeIdx (c.time i) = k % a.sampleCount := by
  rw [LeapArray.calculateTimeIdx, hI.shape.bucketLengthMs, hI.shape.sampleCount, h.times i hi]

theorem Inv.calculateWindowStart (hI : Inv c a k s) (h : OneBucket c a k) (hi : i < c.threads) :
    s.array.calculateWindowStart (c.time i) = k * a.bucketLengthMs := by
  rw [LeapArray.calculateWindowStart_eq, hI.shape.bucketLengthMs, h.times i hi]

/-- A step that writes no slot. -/
theorem Inv.goto (hI : Inv c a k s) {p : Pc} (o : Option ℕ) (hpast : p.past = true → Current a k s)
    (hresets : p.resets = true →
      s.array.array (k % a.sampleCount) ≠ none ∧ ∀ event, count a k event = 0)
    (hp : p ≠ .addDetached) : Inv c a k ({ s with owner := o }.goto i p) := by
  have hpc : ∀ j, ({ s with owner := o }.goto i p).pc j = if j = i then p else s.pc j :=
    Function.update_apply s.pc i p
  refine ⟨hI.shape, hI.lap, fun j hj => ?_, hI.fresh, fun j hj => ?_, fun j => ?_⟩
  · rw [hpc] at hj
    split_ifs at hj with hji
    · exact hpast hj
    · exact hI.past j hj
  · rw [hpc] at hj
    split_ifs at hj with hji
    · exact hresets hj
    · exact hI.resets j hj
  · rw [hpc]
    split_ifs with hji
    · exact hp
    · exact hI.inArray j

/-- A write that leaves the current bucket in the slot. -/
theorem Inv.write (hI : Inv c a k s) {w : WindowWrap MetricBucket}
    (hw : w.bucketStart = k * a.bucketLengthMs) :
    Inv c a k { s with array := s.array.setSlot (k % a.sampleCount) w } ∧
      Current a k { s with array := s.array.setSlot (k % a.sampleCount) w } := by
  have hslot : (s.array.setSlot (k % a.sampleCount) w).array (k % a.sampleCount) = some w :=
    LeapArray.setSlot_array_self ..
  have hcur : Current a k { s with array := s.array.setSlot (k % a.sampleCount) w } := ⟨w, hslot, hw⟩
  refine ⟨⟨⟨hI.shape.sampleCount, hI.shape.intervalMs, hI.shape.newEmptyBucket⟩, ?_, ?_, ?_, ?_,
    hI.inArray⟩, hcur⟩
  · intro w' hw'
    obtain rfl := Option.some.inj (hslot.symm.trans hw')
    exact hw.le
  · exact fun _ _ => hcur
  · exact fun hno => absurd hcur hno
  · intro j hj
    exact ⟨by rw [hslot]; simp, (hI.resets j hj).2⟩

/-- A step that writes no slot and makes no addition. -/
structure Quiet (c : Calls) (a : LeapArray MetricBucket) (k i : ℕ) (s s' : Machine) : Prop where
  origin : s.pc i ≠ .resetCounters ∧ s.pc i ≠ .done
  moves : ∃ p o, s' = { s with owner := o }.goto i p ∧ p ≠ .done ∧ p ≠ .addDetached ∧
    (p.past = true → Current a k s) ∧
    (p.resets = true → s.array.array (k % a.sampleCount) ≠ none ∧ ∀ event, count a k event = 0)

/-- The bucket of the slot after a write, and where the writer goes on. -/
def wrote (a : LeapArray MetricBucket) (k i : ℕ) (s : Machine) (w : WindowWrap MetricBucket) (p : Pc) :
    Machine :=
  { s with array := s.array.setSlot (k % a.sampleCount) w }.goto i p

theorem Inv.quiet_tryLock (hI : Inv c a k s) {p : Pc} (hpc : s.pc i ≠ .resetCounters ∧ s.pc i ≠ .done)
    (hp : p ≠ .done ∧ p ≠ .addDetached ∧ p.past = false)
    (hresets : p.resets = true → (s.pc i).resets = true) : Quiet c a k i s (s.tryLock i p) := by
  refine ⟨hpc, ?_⟩
  unfold Machine.tryLock
  cases s.owner with
  | none =>
    refine ⟨p, some i, rfl, hp.1, hp.2.1, fun h => ?_, fun h => hI.resets i (hresets h)⟩
    rw [hp.2.2] at h
    exact absurd h Bool.false_ne_true
  | some j => exact ⟨.read, s.owner, rfl, by simp, by simp, by simp [Pc.past], by simp [Pc.resets]⟩

/-- **Inversion of a step**: quiet, the slot filled, the new start published, the counters cleared, or
an addition made. -/
theorem Inv.step_cases (hI : Inv c a k s) (h : OneBucket c a k) (hs : s.step i c = some s') :
    i < c.threads ∧
    (Quiet c a k i s s' ∨
      (s.pc i = .checkNew ∧ s.array.array (k % a.sampleCount) = none ∧
        s' = wrote a k i s ⟨k * a.bucketLengthMs, .empty⟩ (.unlock true)) ∨
      (∃ w, s.pc i = .resetStart ∧ s.array.array (k % a.sampleCount) = some w ∧
        s' = wrote a k i s { w with bucketStart := k * a.bucketLengthMs } .resetCounters) ∨
      (∃ w, s.pc i = .resetCounters ∧ s.array.array (k % a.sampleCount) = some w ∧
        w.bucketStart = k * a.bucketLengthMs ∧
        s' = wrote a k i s { w with value := .empty } (.unlock true)) ∨
      (∃ w, s.pc i = .add ∧ s.array.array (k % a.sampleCount) = some w ∧
        w.bucketStart = k * a.bucketLengthMs ∧
        s' = wrote a k i s { w with value := (c.addition i).apply w.value } .done)) := by
  unfold Machine.step at hs
  dsimp only at hs
  split_ifs at hs with hi
  rw [hI.calculateTimeIdx h hi, hI.calculateWindowStart h hi] at hs
  refine ⟨hi, ?_⟩
  have hcur : ∀ {p : Pc}, s.pc i = p → p.past = true → Current a k s := by
    rintro p rfl hp
    exact hI.past i hp
  cases hpc : s.pc i with
  | read =>
    left
    have hfrom : s.pc i ≠ .resetCounters ∧ s.pc i ≠ .done := by rw [hpc]; simp
    rw [hpc] at hs
    refine ⟨hfrom, ?_⟩
    cases hslot : s.array.array (k % a.sampleCount) with
    | none =>
      rw [hslot] at hs
      exact ⟨.tryLockNew, s.owner, (Option.some.inj hs).symm, by simp, by simp, by simp [Pc.past],
        by simp [Pc.resets]⟩
    | some w =>
      rw [hslot] at hs
      dsimp only at hs
      have hlap := hI.lap w hslot
      split_ifs at hs with heq hgt
      · exact ⟨.add, s.owner, (Option.some.inj hs).symm, by simp, by simp,
          fun _ => ⟨w, hslot, heq.symm⟩, by simp [Pc.resets]⟩
      · have hno : ¬ Current a k s := by
          rintro ⟨w', hw', hstart⟩
          obtain rfl := Option.some.inj (hslot.symm.trans hw')
          exact heq hstart.symm
        exact ⟨.tryLockReset, s.owner, (Option.some.inj hs).symm, by simp, by simp, by simp [Pc.past],
          fun _ => ⟨by simp, hI.fresh hno⟩⟩
      · omega
  | tryLockNew =>
    left
    rw [hpc] at hs
    obtain rfl := Option.some.inj hs
    exact hI.quiet_tryLock (by rw [hpc]; simp) ⟨by simp, by simp, rfl⟩ (by simp [Pc.resets])
  | checkNew =>
    rw [hpc] at hs
    cases hslot : s.array.array (k % a.sampleCount) with
    | none =>
      right; left
      rw [hslot, hI.shape.newEmptyBucket, h.empty] at hs
      exact ⟨rfl, rfl, (Option.some.inj hs).symm⟩
    | some w =>
      left
      rw [hslot] at hs
      exact ⟨by rw [hpc]; simp, .unlock false, s.owner, (Option.some.inj hs).symm, by simp, by simp,
        by simp [Pc.past], by simp [Pc.resets]⟩
  | tryLockReset =>
    left
    rw [hpc] at hs
    obtain rfl := Option.some.inj hs
    exact hI.quiet_tryLock (by rw [hpc]; simp) ⟨by simp, by simp, rfl⟩ fun _ => by rw [hpc]; rfl
  | resetStart =>
    right; right; left
    rw [hpc] at hs
    dsimp only at hs
    obtain ⟨w, hw⟩ := Option.ne_none_iff_exists'.mp (hI.resets i (by rw [hpc]; rfl)).1
    rw [Machine.onBucket_of_some hw] at hs
    exact ⟨w, rfl, hw, (Option.some.inj hs).symm⟩
  | resetCounters =>
    right; right; right; left
    rw [hpc] at hs
    dsimp only at hs
    obtain ⟨w, hw, hstart⟩ := hcur hpc rfl
    rw [Machine.onBucket_of_some hw] at hs
    exact ⟨w, rfl, hw, hstart, (Option.some.inj hs).symm⟩
  | unlock found =>
    left
    rw [hpc] at hs
    refine ⟨by rw [hpc]; simp, if found then .add else .read, none, (Option.some.inj hs).symm, ?_⟩
    cases found with
    | true => exact ⟨by simp, by simp, fun _ => hcur hpc rfl, by simp [Pc.resets]⟩
    | false => exact ⟨by simp, by simp, by simp [Pc.past], by simp [Pc.resets]⟩
  | add =>
    right; right; right; right
    rw [hpc] at hs
    dsimp only at hs
    obtain ⟨w, hw, hstart⟩ := hcur hpc rfl
    rw [Machine.onBucket_of_some hw] at hs
    exact ⟨w, rfl, hw, hstart, (Option.some.inj hs).symm⟩
  | addDetached => exact absurd hpc (hI.inArray i)
  | done => simp [hpc] at hs

/-- A write that leaves the current bucket in the slot, after which the writer goes on. -/
theorem Inv.of_wrote (hI : Inv c a k s) {w : WindowWrap MetricBucket} {p : Pc}
    (hw : w.bucketStart = k * a.bucketLengthMs)
    (hresets : p.resets = true → ∀ event, count a k event = 0) (hp : p ≠ .addDetached) :
    Inv c a k (wrote a k i s w p) := by
  obtain ⟨hI', hcur⟩ := hI.write hw
  refine hI'.goto s.owner (fun _ => hcur) (fun h => ⟨?_, hresets h⟩) hp
  obtain ⟨w', hw', -⟩ := hcur
  rw [hw']
  simp

theorem Inv.step (hI : Inv c a k s) (h : OneBucket c a k) (hs : s.step i c = some s') :
    Inv c a k s' := by
  obtain ⟨-, hq | ⟨-, -, rfl⟩ | ⟨w, hpc, -, rfl⟩ | ⟨w, hpc, -, hstart, rfl⟩ |
    ⟨w, -, -, hstart, rfl⟩⟩ := hI.step_cases h hs
  · obtain ⟨p, o, rfl, -, hp, hpast, hresets⟩ := hq.moves
    exact hI.goto o hpast hresets hp
  · exact hI.of_wrote rfl (by simp [Pc.resets]) (by simp)
  · exact hI.of_wrote rfl (fun _ => (hI.resets i (by rw [hpc]; rfl)).2) (by simp)
  · exact hI.of_wrote hstart (by simp [Pc.resets]) (by simp)
  · exact hI.of_wrote hstart (by simp [Pc.resets]) (by simp)

theorem inv_run (h : OneBucket c a k) {tr : List ℕ} (hr : Steps c (.start a) tr s) : Inv c a k s :=
  Run.hist (I := fun _ s => Inv c a k s) (inv_start h) (fun _ _ _ _ _ hI hs => hI.step h hs) hr

/-! ### Counts and additions -/

theorem Inv.count_eq (hI : Inv c a k s) {w : WindowWrap MetricBucket}
    (hw : s.array.array (k % a.sampleCount) = some w) (hstart : w.bucketStart = k * a.bucketLengthMs)
    (event : MetricEvent) : count s.array k event = w.value.get event := by
  rw [count, hI.shape.sampleCount, hw, hI.shape.bucketLengthMs]
  exact if_pos hstart

theorem Inv.count_wrote (hI : Inv c a k s) {start : ℕ} (v : MetricBucket) {p : Pc}
    (hw : start = k * a.bucketLengthMs) (event : MetricEvent) :
    count (wrote a k i s ⟨start, v⟩ p).array k event = v.get event := by
  obtain ⟨hI', -⟩ := hI.write (w := ⟨start, v⟩) hw
  exact hI'.count_eq (LeapArray.setSlot_array_self ..) hw event

theorem added_goto (s : Machine) (o : Option ℕ) {p : Pc} (hi : s.pc i ≠ .done) (hp : p ≠ .done)
    (event : MetricEvent) : added c ({ s with owner := o }.goto i p) event = added c s event := by
  refine Finset.sum_congr rfl fun j _ => ?_
  simp only [Machine.goto, Function.update_apply]
  by_cases hj : j = i
  · subst hj
    rw [if_pos rfl, if_neg hp, if_neg hi]
  · rw [if_neg hj]

theorem added_wrote (s : Machine) (w : WindowWrap MetricBucket) {p : Pc} (hi : s.pc i ≠ .done)
    (hp : p ≠ .done) (event : MetricEvent) :
    added c (wrote a k i s w p) event = added c s event :=
  added_goto { s with array := s.array.setSlot (k % a.sampleCount) w } s.owner hi hp event

theorem added_wrote_done (s : Machine) (w : WindowWrap MetricBucket) (hi : i < c.threads)
    (hni : s.pc i ≠ .done) (event : MetricEvent) :
    added c (wrote a k i s w .done) event = added c s event + (c.addition i).amount event := by
  have hsplit : ∀ j ∈ Finset.range c.threads,
      (if (wrote a k i s w .done).pc j = .done then (c.addition j).amount event else 0) =
        (if s.pc j = .done then (c.addition j).amount event else 0) +
          if j = i then (c.addition i).amount event else 0 := by
    intro j _
    simp only [wrote, Machine.goto, Function.update_apply]
    by_cases hj : j = i
    · subst hj
      rw [if_pos rfl, if_pos rfl, if_neg hni, if_pos rfl, zero_add]
    · rw [if_neg hj, if_neg hj, add_zero]
  rw [added, Finset.sum_congr rfl hsplit, Finset.sum_add_distrib, Finset.sum_ite_eq',
    if_pos (Finset.mem_range.mpr hi)]
  rfl

theorem Inv.added_of_not_current (hI : Inv c a k s) (hcur : ¬ Current a k s) (event : MetricEvent) :
    added c s event = 0 := by
  refine Finset.sum_eq_zero fun j _ => if_neg fun hj => hcur (hI.past j ?_)
  rw [hj]
  rfl

theorem added_of_finished (hf : Finished c s) (event : MetricEvent) :
    added c s event = total c event :=
  Finset.sum_congr rfl fun j hj => if_pos (hf j (Finset.mem_range.mp hj))

/-! ### No update is lost -/

/-- The bucket has counted every addition made, unless a thread is about to clear it. -/
def Exact (c : Calls) (a : LeapArray MetricBucket) (k : ℕ) (s : Machine) : Prop :=
  (∃ j < c.threads, s.pc j = .resetCounters) ∨
    ∀ event, count s.array k event = count a k event + added c s event

theorem pending_of_update {p : Pc} (hpc : s'.pc = Function.update s.pc i p)
    (hi : s.pc i ≠ .resetCounters) (h : ∃ j < c.threads, s.pc j = .resetCounters) :
    ∃ j < c.threads, s'.pc j = .resetCounters := by
  obtain ⟨j, hlt, hj⟩ := h
  refine ⟨j, hlt, ?_⟩
  rw [hpc, Function.update_of_ne, hj]
  rintro rfl
  exact hi hj

/-- **One step** that clears nothing keeps the count exact. -/
theorem Exact.step (hE : Exact c a k s) (hI : Inv c a k s) (h : OneBucket c a k)
    (hs : s.step i c = some s') (hC : ClearsNothing c s i) : Exact c a k s' := by
  obtain ⟨hi, hq | ⟨hpc, hslot, rfl⟩ | ⟨w, hpc, -, rfl⟩ | ⟨w, hpc, -, hstart, rfl⟩ |
    ⟨w, hpc, hw, hstart, rfl⟩⟩ := hI.step_cases h hs
  · obtain ⟨hnot, hndone⟩ := hq.origin
    obtain ⟨p, o, rfl, hp, -⟩ := hq.moves
    rcases hE with hE | hE
    · exact .inl (pending_of_update rfl hnot hE)
    · refine .inr fun event => ?_
      rw [added_goto s o hndone hp]
      exact hE event
  · -- the slot was null: no thread has added, and the new bucket has counted nothing
    have hcur : ¬ Current a k s := by
      rintro ⟨w, hw, -⟩
      rw [hslot] at hw
      simp at hw
    refine .inr fun event => ?_
    rw [hI.count_wrote _ rfl, added_wrote s _ (by rw [hpc]; simp) (by simp),
      hI.added_of_not_current hcur, hI.fresh hcur]
    rfl
  · exact .inl ⟨i, hi, Function.update_self ..⟩
  · refine .inr fun event => ?_
    rw [hI.count_wrote _ hstart, added_wrote s _ (by rw [hpc]; simp) (by simp), hC hpc,
      (hI.resets i (by rw [hpc]; rfl)).2]
    rfl
  · rcases hE with hE | hE
    · exact .inl (pending_of_update rfl (by rw [hpc]; simp) hE)
    · refine .inr fun event => ?_
      rw [hI.count_wrote _ hstart, MetricAdd.get_apply, ← hI.count_eq hw hstart, hE,
        added_wrote_done s _ hi (by rw [hpc]; simp), add_assoc]

/-- The bucket misses at least `d` of what was added to the counter of `event`. -/
structure Short (c : Calls) (a : LeapArray MetricBucket) (k : ℕ) (event : MetricEvent) (d : ℤ)
    (s : Machine) : Prop where
  pos : 0 < d
  le_added : d ≤ added c s event
  missing : count s.array k event + d ≤ count a k event + added c s event

/-- What is missing stays missing: no addition takes anything away. -/
theorem Short.step {event : MetricEvent} {d : ℤ} (hS : Short c a k event d s) (hI : Inv c a k s)
    (h : OneBucket c a k) (hnonneg : ∀ i < c.threads, 0 ≤ (c.addition i).amount event)
    (hs : s.step i c = some s') : Short c a k event d s' := by
  have hcur : Current a k s := by
    by_contra hno
    have := hI.added_of_not_current hno event
    have := hS.pos
    have := hS.le_added
    omega
  obtain ⟨wc, hwc, hstartc⟩ := hcur
  obtain ⟨hi, hq | ⟨-, hslot, -⟩ | ⟨w, hpc, hw, rfl⟩ | ⟨w, hpc, -, hstart, rfl⟩ |
    ⟨w, hpc, hw, hstart, rfl⟩⟩ := hI.step_cases h hs
  · obtain ⟨-, hndone⟩ := hq.origin
    obtain ⟨p, o, rfl, hp, -⟩ := hq.moves
    refine ⟨hS.pos, ?_, ?_⟩
    · rw [added_goto s o hndone hp]
      exact hS.le_added
    · rw [added_goto s o hndone hp]
      exact hS.missing
  · rw [hwc] at hslot
    simp at hslot
  · -- the start that is published is the one the bucket has
    obtain rfl := Option.some.inj (hwc.symm.trans hw)
    have hndone : s.pc i ≠ .done := by rw [hpc]; simp
    refine ⟨hS.pos, ?_, ?_⟩
    · rw [added_wrote s _ hndone (by simp)]
      exact hS.le_added
    · rw [hI.count_wrote _ rfl, added_wrote s _ hndone (by simp), ← hI.count_eq hwc hstartc]
      exact hS.missing
  · have hndone : s.pc i ≠ .done := by rw [hpc]; simp
    refine ⟨hS.pos, ?_, ?_⟩
    · rw [added_wrote s _ hndone (by simp)]
      exact hS.le_added
    · have hzero : MetricBucket.empty.get event = 0 := rfl
      have := hS.le_added
      rw [hI.count_wrote _ hstart, added_wrote s _ hndone (by simp),
        (hI.resets i (by rw [hpc]; rfl)).2, hzero]
      omega
  · have hamount := hnonneg i hi
    have hle := hS.le_added
    have hmissing := hS.missing
    rw [hI.count_eq hw hstart] at hmissing
    refine ⟨hS.pos, ?_, ?_⟩
    · rw [added_wrote_done s _ hi (by rw [hpc]; simp)]
      omega
    · rw [hI.count_wrote _ hstart, MetricAdd.get_apply,
        added_wrote_done s _ hi (by rw [hpc]; simp)]
      omega

/-- Clearing the counters after an addition leaves the bucket short of it. -/
theorem short_of_clears (hI : Inv c a k s) (h : OneBucket c a k)
    (hnonneg : ∀ i < c.threads, ∀ event, 0 ≤ (c.addition i).amount event)
    (hs : s.step i c = some s') (hC : ¬ ClearsNothing c s i) :
    ∃ event, Short c a k event (added c s event) s' := by
  unfold ClearsNothing at hC
  push Not at hC
  obtain ⟨hpc, event, hne⟩ := hC
  have hpos : 0 < added c s event := by
    refine lt_of_le_of_ne (Finset.sum_nonneg fun j hj => ?_) (Ne.symm hne)
    split_ifs
    · exact hnonneg j (Finset.mem_range.mp hj) event
    · exact le_rfl
  have hndone : s.pc i ≠ .done := by rw [hpc]; simp
  obtain ⟨-, hq | ⟨hpc', -⟩ | ⟨w, hpc', -⟩ | ⟨w, -, -, hstart, rfl⟩ | ⟨w, hpc', -⟩⟩ :=
    hI.step_cases h hs
  · exact absurd hpc hq.origin.1
  · exact absurd (hpc.symm.trans hpc') (by simp)
  · exact absurd (hpc.symm.trans hpc') (by simp)
  · have hzero : MetricBucket.empty.get event = 0 := rfl
    refine ⟨event, hpos, ?_, ?_⟩
    · rw [added_wrote s _ hndone (by simp)]
    · rw [hI.count_wrote _ hstart, added_wrote s _ hndone (by simp),
        (hI.resets i (by rw [hpc]; rfl)).2, hzero]
  · exact absurd (hpc.symm.trans hpc') (by simp)

end Inv

section Runs

variable {c : Calls} {a : LeapArray MetricBucket} {k : ℕ} {s : Machine} {tr : List ℕ}

/-- The bucket counts what it counted at the start and all additions. -/
def Counted (c : Calls) (a : LeapArray MetricBucket) (k : ℕ) (s : Machine) : Prop :=
  ∀ event, count s.array k event = count a k event + total c event

theorem exact_start : Exact c a k (.start a) := by
  refine .inr fun event => ?_
  have hnone : added c (.start a) event = 0 :=
    Finset.sum_eq_zero fun j _ => if_neg (by simp [Machine.start])
  rw [hnone, add_zero]
  rfl

theorem exact_run (h : OneBucket c a k) (hr : Steps c (.start a) tr s)
    (hC : EveryStep (fun s i s' => s.step i c = some s') (.start a) (ClearsNothing c) tr) :
    Exact c a k s := by
  refine Run.hist (I := fun tr s => EveryStep (fun s i s' => s.step i c = some s') (.start a)
    (ClearsNothing c) tr → Exact c a k s) (fun _ => exact_start) ?_ hr hC
  intro tr s i s' hr hE hs hC
  exact (hE (hC.mono (List.prefix_append _ _))).step (inv_run h hr) h hs (hC.last hr)

/-- Either no step of the run cleared an addition, or the bucket is short of one. -/
theorem clearsNothing_or_short (h : OneBucket c a k)
    (hnonneg : ∀ i < c.threads, ∀ event, 0 ≤ (c.addition i).amount event)
    (hr : Steps c (.start a) tr s) :
    EveryStep (fun s i s' => s.step i c = some s') (.start a) (ClearsNothing c) tr ∨
      ∃ event d, Short c a k event d s := by
  refine Run.hist (I := fun tr s => EveryStep (fun s i s' => s.step i c = some s') (.start a)
    (ClearsNothing c) tr ∨ ∃ event d, Short c a k event d s) (.inl everyStep_nil) ?_ hr
  intro tr s i s' hr hI hs
  have hinv := inv_run h hr
  rcases hI with hall | ⟨event, d, hS⟩
  · by_cases hC : ClearsNothing c s i
    · exact .inl (everyStep_concat (step_det c) hall hr hC)
    · obtain ⟨event, hS⟩ := short_of_clears hinv h hnonneg hs hC
      exact .inr ⟨event, _, hS⟩
  · exact .inr ⟨event, d, hS.step hinv h (fun i hi => hnonneg i hi event) hs⟩

/-- **Rollover.**  When all threads have finished, the bucket has counted all additions if the counters
were cleared only while no addition was in them; and, where no addition is negative, only then. -/
theorem rollover_counted (h : OneBucket c a k) (hr : Steps c (.start a) tr s) (hf : Finished c s) :
    (EveryStep (fun s i s' => s.step i c = some s') (.start a) (ClearsNothing c) tr →
        Counted c a k s) ∧
      ((∀ i < c.threads, ∀ event, 0 ≤ (c.addition i).amount event) → Counted c a k s →
        EveryStep (fun s i s' => s.step i c = some s') (.start a) (ClearsNothing c) tr) := by
  constructor
  · intro hC event
    rcases exact_run h hr hC with ⟨j, hj, hpc⟩ | hE
    · exact absurd ((hf j hj).symm.trans hpc) (by simp)
    · rw [hE, added_of_finished hf]
  · intro hnonneg hcounted
    rcases clearsNothing_or_short h hnonneg hr with hall | ⟨event, d, hS⟩
    · exact hall
    · have hpos := hS.pos
      have hmissing := hS.missing
      rw [hcounted event, added_of_finished hf] at hmissing
      omega

/-- Two threads, each adding one pass at the time of bucket 2, on an array of two buckets whose slot 0
holds bucket 0 with five passes. -/
def twoCalls : Calls where
  threads := 2
  time := fun _ => 1000
  addition := fun _ => .add .pass 1

def staleArray : LeapArray MetricBucket :=
  (LeapArray.mk' 2 1000 MetricBucket.empty).setSlot 0 ⟨0, MetricBucket.empty.add .pass 5⟩

/-- Thread 0 publishes the new start, thread 1 adds to the bucket, thread 0 clears it and adds. -/
def addedBeforeClearing : List ℕ := [0, 0, 0, 1, 1, 0, 0, 0]

/-- Thread 0 resets the bucket before thread 1 reads the slot. -/
def clearedFirst : List ℕ := [0, 0, 0, 0, 0, 1, 1, 0]

/-- The state after these steps. -/
def after (trace : List ℕ) : Option Machine :=
  trace.foldlM (fun s i => s.step i twoCalls) (.start staleArray)

theorem oneBucket_twoCalls : OneBucket twoCalls staleArray 2 := by
  have htime : twoCalls.time 0 / staleArray.bucketLengthMs = 2 := by decide
  refine ⟨rfl, fun i _ => htime, fun w hw => ?_⟩
  have hslot : staleArray.array (2 % staleArray.sampleCount) =
      some ⟨0, MetricBucket.empty.add .pass 5⟩ := rfl
  obtain rfl := Option.some.inj (hslot.symm.trans hw)
  exact Nat.zero_le _

/-- A trace that ends with both threads finished and this many passes in bucket 2. -/
theorem exists_finished (trace : List ℕ) (n : ℤ) (hdone : (after trace).map (fun s =>
      (s.pc 0, s.pc 1, count s.array 2 .pass)) = some (.done, .done, n)) :
    ∃ s, Steps twoCalls (.start staleArray) trace s ∧ Finished twoCalls s ∧
      count s.array 2 .pass = n := by
  obtain ⟨s, hs, heq⟩ := Option.map_eq_some_iff.mp hdone
  simp only [Prod.mk.injEq] at heq
  refine ⟨s, run_of_foldlM hs, fun i hi => ?_, heq.2.2⟩
  have hcases : i = 0 ∨ i = 1 := by
    have : i < 2 := hi
    omega
  rcases hcases with rfl | rfl
  · exact heq.1
  · exact heq.2.1

/-- The pass of thread 1 is lost: both threads have finished, and the bucket counts one. -/
theorem rollover_fails : OneBucket twoCalls staleArray 2 ∧
    ∃ s, Steps twoCalls (.start staleArray) addedBeforeClearing s ∧ Finished twoCalls s ∧
      count s.array 2 .pass = 1 ∧ total twoCalls .pass = 2 ∧ ¬ Counted twoCalls staleArray 2 s := by
  obtain ⟨s, hr, hf, hcount⟩ := exists_finished addedBeforeClearing 1 (by decide)
  have htotal : total twoCalls .pass = 2 := by decide
  have hstart : count staleArray 2 .pass = 0 := by decide
  refine ⟨oneBucket_twoCalls, s, hr, hf, hcount, htotal, fun h => ?_⟩
  have hall := h .pass
  rw [hcount, hstart, htotal] at hall
  omega

theorem rollover_counted_example :
    ∃ s, Steps twoCalls (.start staleArray) clearedFirst s ∧ count s.array 2 .pass = 2 ∧
      (EveryStep (fun s i s' => s.step i twoCalls = some s') (.start staleArray)
          (ClearsNothing twoCalls) clearedFirst → Counted twoCalls staleArray 2 s) ∧
      ((∀ i < twoCalls.threads, ∀ event, 0 ≤ (twoCalls.addition i).amount event) →
        Counted twoCalls staleArray 2 s →
        EveryStep (fun s i s' => s.step i twoCalls = some s') (.start staleArray)
          (ClearsNothing twoCalls) clearedFirst) := by
  obtain ⟨s, hr, hf, hcount⟩ := exists_finished clearedFirst 2 (by decide)
  exact ⟨s, hr, hcount, rollover_counted oneBucket_twoCalls hr hf⟩

end Runs

end SentinelCpp.Stat.Rollover
