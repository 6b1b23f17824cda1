import SentinelCpp.CircuitBreaker.Breaker
import SentinelCpp.Lib.Run

/-!
# Threads on one circuit breaker

`TryPass` and `RecordComplete` as the sequences of atomic steps the threads take on a shared breaker:
loads and compare-and-swaps of the state, updates and loads of the counters, reads of the clock, the
read and the write of the retry time.  The compare-and-swap into Open publishes the state before the
retry time is written; `period`, `openedAt`, `reading` and `stored` record that gap.  Finding the window
of the current time is one step.
-/

namespace SentinelCpp.CircuitBreaker.Interleaving

open Lib Stat

/-- Where a thread stands: what it does next, with the values it has read. -/
inductive Pc
  | idle
  -- `TryPass`
  | tpLoad
  | tpClock
  | tpRetry (now : ℕ)
  | tpCas (now : ℕ) (seen : Option ℕ)
  -- `RecordComplete` and `RecordAndHandleStateChange`
  | rcWindow (bad : Bool)
  | rcBad (bad : Bool) (ref : WindowRef RequestCounter)
  | rcTotal (bad : Bool) (ref : WindowRef RequestCounter)
  | rcIsOpen (bad : Bool)
  | rcIsHalfOpen (bad : Bool)
  | rcValues
  | rcSumBad (slots : List ℕ) (badCount totalCount : ℤ)
  | rcSumTotal (slot : ℕ) (slots : List ℕ) (badCount totalCount : ℤ)
  | rcLoad
  -- `FromCloseToOpen`, `FromHalfOpenToOpen` with `UpdateNextRetryTimestamp`
  | casCloseToOpen
  | casHalfOpenToOpen
  | retryClock
  | retryStore (now : ℕ)
  -- `FromHalfOpenToClose` with `Reset`
  | casHalfOpenToClose
  | resetWindow
  | resetBad (ref : WindowRef RequestCounter)
  | resetTotal (ref : WindowRef RequestCounter)

/-- The shared breaker, the clock and the threads.  History: `period` counts the entries into Open, of
which the last was at `openedAt`; `reading` is the clock value its retry time is computed from, `stored`
tells whether that retry time has been written. -/
structure Machine where
  breaker : AbstractCircuitBreaker
  clock : ℕ
  pc : ℕ → Pc
  period : ℕ
  openedAt : ℕ
  reading : Option ℕ
  stored : Bool

/-- A breaker just made, all threads idle. -/
def Machine.init (rule : Rule) (cls : BreakerClass) (clock : ℕ) : Machine where
  breaker := .mk' rule cls
  clock := clock
  pc := fun _ => .idle
  period := 0
  openedAt := 0
  reading := none
  stored := false

inductive Action
  /-- Time passes. -/
  | tick (ms : ℕ)
  /-- The idle thread calls `TryPass`. -/
  | tryPass (i : ℕ)
  /-- The idle thread calls `RecordComplete(rt, error)`. -/
  | recordComplete (i : ℕ) (rt : ℤ) (error : String)
  /-- The thread takes its next step. -/
  | next (i : ℕ)

namespace Machine

variable (s : Machine) (i : ℕ)

/-- The completion counts against the breaker. -/
def isBad (b : AbstractCircuitBreaker) (rt : ℤ) (error : String) : Bool :=
  match b.cls with
  | .errorCircuitBreaker => error ≠ ""
  | .responseTimeCircuitBreaker => rt > b.rule.maxAllowedRt

/-- The value compared with the threshold. -/
def curValue (b : AbstractCircuitBreaker) (badCount totalCount : ℤ) : ℚ :=
  match b.cls with
  | .errorCircuitBreaker =>
    if b.rule.strategy = .kErrorRatio then (badCount : ℚ) * 1 / totalCount else badCount
  | .responseTimeCircuitBreaker => (badCount : ℚ) * 1 / totalCount

/-- The thread goes on at `p`. -/
def goto (p : Pc) : Machine := { s with pc := Function.update s.pc i p }

/-- The breaker after a write. -/
def write (b : AbstractCircuitBreaker) : Machine := { s with breaker := b }

/-- A write of the counters. -/
def count (f : LeapArray RequestCounter → LeapArray RequestCounter) : Machine :=
  s.write { s.breaker with slidingCounter := f s.breaker.slidingCounter }

/-- `compare_exchange_strong` from `expected` to `desired`. -/
def cas (expected desired : State) : Option Machine :=
  if s.breaker.currentState = expected then
    some (s.write { s.breaker with currentState := desired })
  else none

/-- A successful swap into Open begins a period. -/
def enterOpen : Machine :=
  { s with period := s.period + 1, openedAt := s.clock, reading := none, stored := false }

/-- The counter in a slot of the window. -/
def counterAt (slot : ℕ) : RequestCounter :=
  ((s.breaker.slidingCounter.array slot).map WindowWrap.value).getD ⟨0, 0⟩

/-- The slots `Values()` returns at `t`. -/
def validSlots (a : LeapArray RequestCounter) (t : ℕ) : List ℕ :=
  (List.range a.sampleCount).filter fun i =>
    (a.array i).any fun w => !a.isBucketDeprecated t w

/-- The next step of thread `i`, with what `TryPass` returns if it returns. -/
def next : Option (Machine × Option Bool) :=
  match s.pc i with
  | .idle => none
  | .tpLoad =>
    match s.breaker.currentState with
    | .kClosed => some (s.goto i .idle, some true)
    | .kOpen => some (s.goto i .tpClock, none)
    | .kHalfOpen => some (s.goto i .idle, some false)
  | .tpClock => some (s.goto i (.tpRetry s.clock), none)
  | .tpRetry now =>
    if (now : ℤ) ≥ s.breaker.nextRetryTimestamp then
      some (s.goto i (.tpCas now (if s.stored then some s.period else none)), none)
    else some (s.goto i .idle, some false)
  | .tpCas _ _ =>
    match s.cas .kOpen .kHalfOpen with
    | some s => some (s.goto i .idle, some true)
    | none => some (s.goto i .idle, some false)
  | .rcWindow bad =>
    let r := s.breaker.slidingCounter.currentWindow s.clock
    some ((s.count fun _ => r.1).goto i (.rcBad bad r.2), none)
  | .rcBad bad ref =>
    let add (c : RequestCounter) : RequestCounter := if bad then { c with bad := c.bad + 1 } else c
    some ((s.count fun a => a.modify ref add).goto i (.rcTotal bad ref), none)
  | .rcTotal bad ref =>
    let add (c : RequestCounter) : RequestCounter := { c with total := c.total + 1 }
    some ((s.count fun a => a.modify ref add).goto i (.rcIsOpen bad), none)
  | .rcIsOpen bad =>
    if s.breaker.currentState = .kOpen then some (s.goto i .idle, none)
    else some (s.goto i (.rcIsHalfOpen bad), none)
  | .rcIsHalfOpen bad =>
    if s.breaker.currentState = .kHalfOpen then
      some (s.goto i (if bad then .casHalfOpenToOpen else .casHalfOpenToClose), none)
    else some (s.goto i .rcValues, none)
  | .rcValues =>
    some (s.goto i (.rcSumBad (validSlots s.breaker.slidingCounter s.clock) 0 0), none)
  | .rcSumBad [] badCount totalCount =>
    if totalCount < s.breaker.rule.minRequestAmount then some (s.goto i .idle, none)
    else if curValue s.breaker badCount totalCount > s.breaker.rule.threshold then
      some (s.goto i .rcLoad, none)
    else some (s.goto i .idle, none)
  | .rcSumBad (slot :: slots) badCount totalCount =>
    some (s.goto i (.rcSumTotal slot slots (badCount + (s.counterAt slot).bad) totalCount), none)
  | .rcSumTotal slot slots badCount totalCount =>
    some (s.goto i (.rcSumBad slots badCount (totalCount + (s.counterAt slot).total)), none)
  | .rcLoad =>
    match s.breaker.currentState with
    | .kClosed => some (s.goto i .casCloseToOpen, none)
    | .kHalfOpen => some (s.goto i .casHalfOpenToOpen, none)
    | .kOpen => some (s.goto i .idle, none)
  | .casCloseToOpen =>
    match s.cas .kClosed .kOpen with
    | some s => some (s.enterOpen.goto i .retryClock, none)
    | none => some (s.goto i .idle, none)
  | .casHalfOpenToOpen =>
    match s.cas .kHalfOpen .kOpen with
    | some s => some (s.enterOpen.goto i .retryClock, none)
    | none => some (s.goto i .idle, none)
  | .retryClock => some ({ s with reading := some s.clock }.goto i (.retryStore s.clock), none)
  | .retryStore now =>
    some (({ s with stored := true }.write
      { s.breaker with nextRetryTimestamp := now + s.breaker.retryTimeoutMs }).goto i .idle, none)
  | .casHalfOpenToClose =>
    match s.cas .kHalfOpen .kClosed with
    | some s => some (s.goto i .resetWindow, none)
    | none => some (s.goto i .idle, none)
  | .resetWindow =>
    let r := s.breaker.slidingCounter.currentWindow s.clock
    some ((s.count fun _ => r.1).goto i (.resetBad r.2), none)
  | .resetBad ref =>
    some ((s.count fun a => a.modify ref fun c => { c with bad := 0 }).goto i (.resetTotal ref), none)
  | .resetTotal ref =>
    some ((s.count fun a => a.modify ref fun c => { c with total := 0 }).goto i .idle, none)

/-- One step of the machine; a thread makes one call at a time. -/
def step : Action → Option (Machine × Option Bool)
  | .tick ms => some ({ s with clock := s.clock + ms }, none)
  | .tryPass i =>
    match s.pc i with
    | .idle => some (s.goto i .tpLoad, none)
    | _ => none
  | .recordComplete i rt error =>
    match s.pc i with
    | .idle => some (s.goto i (.rcWindow (isBad s.breaker rt error)), none)
    | _ => none
  | .next i => s.next i

end Machine

/-- An action with what `TryPass` returned. -/
abbrev Label := Action × Option Bool

/-- An interleaving of the threads. -/
abbrev Steps : Machine → List Label → Machine → Prop := Run (StepOf Machine.step)

/-! ### A thread on its own

Without interference the steps of a call amount to the sequential `TryPass` and `RecordComplete`. -/

/-- Thread `i` takes steps and returns nothing yet; the other threads wait. -/
def Alone (i : ℕ) : Machine → Machine → Prop :=
  Relation.ReflTransGen fun s s' => s.next i = some (s', none)

section Alone

variable {s : Machine} {i : ℕ}

@[simp] theorem Machine.goto_pc_self (s : Machine) (i : ℕ) (p : Pc) : (s.goto i p).pc i = p := by
  show Function.update s.pc i p i = p
  exact Function.update_self ..

theorem Machine.goto_pc_of_ne {i j : ℕ} (h : j ≠ i) (s : Machine) (p : Pc) :
    (s.goto i p).pc j = s.pc j := by
  show Function.update s.pc i p j = s.pc j
  exact Function.update_of_ne h ..

@[simp] theorem Machine.goto_breaker (s : Machine) (i : ℕ) (p : Pc) :
    (s.goto i p).breaker = s.breaker := rfl
@[simp] theorem Machine.goto_clock (s : Machine) (i : ℕ) (p : Pc) : (s.goto i p).clock = s.clock := rfl

theorem Alone.step {s s₁ s₂ : Machine} (h : s.next i = some (s₁, none)) (h' : Alone i s₁ s₂) :
    Alone i s s₂ :=
  .head h h'

/-- An Open breaker: the thread has read the clock. -/
theorem alone_tpClock (hi : s.pc i = .tpLoad) (hst : s.breaker.currentState = .kOpen) :
    Alone i s ((s.goto i .tpClock).goto i (.tpRetry s.clock)) := by
  have h₁ : s.next i = some (s.goto i .tpClock, none) := by simp [Machine.next, hi, hst]
  have h₂ : (s.goto i .tpClock).next i =
      some ((s.goto i .tpClock).goto i (.tpRetry s.clock), none) := by simp [Machine.next]
  exact .step h₁ (.step h₂ .refl)

/-- **`TryPass` alone** is the sequential one. -/
theorem tryPass_alone (hi : s.pc i = .tpLoad) : ∃ s₁ s₂, Alone i s s₁ ∧
    s₁.next i = some (s₂, some (s.breaker.tryPass s.clock).2) ∧
    s₂.breaker = (s.breaker.tryPass s.clock).1 ∧ s₂.pc i = .idle := by
  rcases s.breaker.tryPass_cases s.clock with ⟨hst, h⟩ | ⟨hst, ha, h⟩ | ⟨hst, ha, h⟩ | ⟨hst, h⟩
  · refine ⟨s, s.goto i .idle, .refl, ?_, ?_, s.goto_pc_self i _⟩
    · simp [Machine.next, hi, hst, h]
    · rw [h, Machine.goto_breaker]
  · have hnow : s.breaker.nextRetryTimestamp ≤ s.clock := by
      simpa [AbstractCircuitBreaker.retryTimeoutArrived] using ha
    let s₁ := (s.goto i .tpClock).goto i (.tpRetry s.clock)
    let s₂ := s₁.goto i (.tpCas s.clock (if s₁.stored then some s₁.period else none))
    refine ⟨s₂, (s₂.write { s₂.breaker with currentState := .kHalfOpen }).goto i .idle,
      (alone_tpClock hi hst).tail ?_, ?_, ?_, Machine.goto_pc_self _ i _⟩
    · simp [s₁, s₂, Machine.next, hnow]
    · simp [s₁, s₂, Machine.next, Machine.cas, hst, h]
    · rw [h]
      rfl
  · have hnow : ¬ s.breaker.nextRetryTimestamp ≤ s.clock := by
      simpa [AbstractCircuitBreaker.retryTimeoutArrived] using ha
    let s₁ := (s.goto i .tpClock).goto i (.tpRetry s.clock)
    refine ⟨s₁, s₁.goto i .idle, alone_tpClock hi hst, ?_, ?_, Machine.goto_pc_self _ i _⟩
    · simp [s₁, Machine.next, hnow, h]
    · rw [h]
      rfl
  · refine ⟨s, s.goto i .idle, .refl, ?_, ?_, s.goto_pc_self i _⟩
    · simp [Machine.next, hi, hst, h]
    · rw [h, Machine.goto_breaker]

theorem modify_modify (a : LeapArray RequestCounter) (ref : WindowRef RequestCounter)
    (f g : RequestCounter → RequestCounter) :
    (a.modify ref f).modify ref g = a.modify ref fun c => g (f c) := by
  cases ref with
  | detached w => rfl
  | slot idx =>
    cases hs : a.array idx with
    | none => simp [LeapArray.modify, hs]
    | some w => simp [LeapArray.modify, hs, LeapArray.setSlot_setSlot]

/-- One more completion, as `RecordComplete` counts it. -/
def addCompletion (bad : Bool) (c : RequestCounter) : RequestCounter :=
  { bad := if bad then c.bad + 1 else c.bad, total := c.total + 1 }

/-- Both classes count the completion and then look at the state. -/
theorem recordComplete_eq (b : AbstractCircuitBreaker) (t : ℕ) (rt : ℤ) (error : String) :
    b.recordComplete t rt error =
      ({ b with slidingCounter := b.slidingCounter.updateCurrent t
                  (addCompletion (Machine.isBad b rt error)) }
        : AbstractCircuitBreaker).recordAndHandleStateChange t (Machine.isBad b rt error)
          (Machine.curValue b) := by
  obtain hc | hc : b.cls = .errorCircuitBreaker ∨ b.cls = .responseTimeCircuitBreaker := by
    cases b.cls <;> simp
  · have hrec : b.recordComplete t rt error = b.errorRecordComplete t error := by
      rw [AbstractCircuitBreaker.recordComplete, hc]
    have hbad : Machine.isBad b rt error = decide (error ≠ "") := by rw [Machine.isBad, hc]
    have hcur : Machine.curValue b = fun (errCount totalCount : ℤ) =>
        if b.rule.strategy = .kErrorRatio then (errCount : ℚ) * 1 / totalCount else errCount := by
      funext x y
      rw [Machine.curValue, hc]
    rw [hrec, hbad, hcur]
    rfl
  · have hrec : b.recordComplete t rt error = b.rtRecordComplete t rt := by
      rw [AbstractCircuitBreaker.recordComplete, hc]
    have hbad : Machine.isBad b rt error = decide (rt > b.rule.maxAllowedRt) := by
      rw [Machine.isBad, hc]
    have hcur : Machine.curValue b =
        fun (slowCount totalCount : ℤ) => (slowCount : ℚ) * 1 / totalCount := by
      funext x y
      rw [Machine.curValue, hc]
    rw [hrec, hbad, hcur]
    rfl

/-- Finding the window and counting the completion. -/
theorem alone_count {bad : Bool} (hi : s.pc i = .rcWindow bad) : ∃ s', Alone i s s' ∧
    s'.pc i = .rcIsOpen bad ∧ s'.clock = s.clock ∧
    s'.breaker = { s.breaker with
      slidingCounter := s.breaker.slidingCounter.updateCurrent s.clock (addCompletion bad) } := by
  let r := s.breaker.slidingCounter.currentWindow s.clock
  let addBad (c : RequestCounter) : RequestCounter := if bad then { c with bad := c.bad + 1 } else c
  let addTotal (c : RequestCounter) : RequestCounter := { c with total := c.total + 1 }
  let s₁ := (s.count fun _ => r.1).goto i (.rcBad bad r.2)
  let s₂ := (s₁.count fun a => a.modify r.2 addBad).goto i (.rcTotal bad r.2)
  let s₃ := (s₂.count fun a => a.modify r.2 addTotal).goto i (.rcIsOpen bad)
  have h₁ : s.next i = some (s₁, none) := by simp [s₁, r, Machine.next, hi]
  have h₂ : s₁.next i = some (s₂, none) := by simp [s₁, s₂, addBad, Machine.next]
  have h₃ : s₂.next i = some (s₃, none) := by simp [s₂, s₃, addTotal, Machine.next]
  refine ⟨s₃, .step h₁ (.step h₂ (.step h₃ .refl)), Machine.goto_pc_self _ i _, rfl, ?_⟩
  have hadd : (fun c : RequestCounter => addTotal (addBad c)) = addCompletion bad := by
    funext c
    cases bad <;> rfl
  show { s.breaker with slidingCounter := (r.1.modify r.2 addBad).modify r.2 addTotal } = _
  rw [modify_modify, hadd]
  rfl

/-- The loop over the counters of `Values()`. -/
theorem alone_sum {slots : List ℕ} {badCount totalCount : ℤ}
    (hi : s.pc i = .rcSumBad slots badCount totalCount) : ∃ s', Alone i s s' ∧
    s'.pc i = .rcSumBad [] (badCount + ((slots.map s.counterAt).map RequestCounter.bad).sum)
      (totalCount + ((slots.map s.counterAt).map RequestCounter.total).sum) ∧
    s'.clock = s.clock ∧ s'.breaker = s.breaker := by
  induction slots generalizing s badCount totalCount with
  | nil => exact ⟨s, .refl, by simpa using hi, rfl, rfl⟩
  | cons slot slots ih =>
    let s₁ := s.goto i (.rcSumTotal slot slots (badCount + (s.counterAt slot).bad) totalCount)
    let s₂ := s₁.goto i (.rcSumBad slots (badCount + (s.counterAt slot).bad)
      (totalCount + (s.counterAt slot).total))
    obtain ⟨s', hs', hpc, hclock, hb⟩ := ih (s := s₂) (Machine.goto_pc_self _ i _)
    have h₁ : s.next i = some (s₁, none) := by simp [s₁, Machine.next, hi]
    have h₂ : s₁.next i = some (s₂, none) := by simp [s₁, s₂, Machine.next, Machine.counterAt]
    have hsame : s₂.counterAt = s.counterAt := rfl
    refine ⟨s', .step h₁ (.step h₂ hs'), ?_, hclock, hb⟩
    rw [hpc, hsame]
    simp only [List.map_cons, List.sum_cons, Int.add_assoc]

theorem map_counterAt_validSlots (s : Machine) (t : ℕ) :
    (Machine.validSlots s.breaker.slidingCounter t).map s.counterAt =
      s.breaker.slidingCounter.values t := by
  unfold Machine.validSlots LeapArray.values LeapArray.buckets
  induction List.range s.breaker.slidingCounter.sampleCount with
  | nil => rfl
  | cons slot slots ih =>
    cases hs : s.breaker.slidingCounter.array slot with
    | none => simpa [hs] using ih
    | some w =>
      by_cases hd : s.breaker.slidingCounter.isBucketDeprecated t w = true
      · simpa [hs, hd] using ih
      · simpa [hs, hd, Machine.counterAt] using ih

/-- A swap into Open, then the retry time. -/
theorem alone_open {expected : State} (hst : s.breaker.currentState = expected)
    (hnext : s.next i = match s.cas expected .kOpen with
      | some s => some (s.enterOpen.goto i .retryClock, none)
      | none => some (s.goto i .idle, none)) : ∃ s', Alone i s s' ∧ s'.pc i = .idle ∧
    s'.breaker = { s.breaker with currentState := .kOpen }.updateNextRetryTimestamp s.clock := by
  let s₁ := ((s.write { s.breaker with currentState := .kOpen }).enterOpen).goto i .retryClock
  let s₂ := { s₁ with reading := some s₁.clock }.goto i (.retryStore s₁.clock)
  let s₃ := ({ s₂ with stored := true }.write
    { s₂.breaker with nextRetryTimestamp := s₁.clock + s₂.breaker.retryTimeoutMs }).goto i .idle
  have h₁ : s.next i = some (s₁, none) := by
    rw [hnext]
    simp [s₁, Machine.cas, hst]
  have h₂ : s₁.next i = some (s₂, none) := by simp [s₁, s₂, Machine.next]
  have h₃ : s₂.next i = some (s₃, none) := by simp [s₂, s₃, Machine.next]
  exact ⟨s₃, .step h₁ (.step h₂ (.step h₃ .refl)), Machine.goto_pc_self _ i _, rfl⟩

/-- The swap into Closed, then the reset of the current bucket. -/
theorem alone_close (hi : s.pc i = .casHalfOpenToClose)
    (hst : s.breaker.currentState = .kHalfOpen) : ∃ s', Alone i s s' ∧ s'.pc i = .idle ∧
    s'.breaker = { s.breaker with currentState := .kClosed }.reset s.clock := by
  let r := s.breaker.slidingCounter.currentWindow s.clock
  let s₁ := (s.write { s.breaker with currentState := .kClosed }).goto i .resetWindow
  let s₂ := (s₁.count fun _ => r.1).goto i (.resetBad r.2)
  let s₃ := (s₂.count fun a => a.modify r.2 fun c => { c with bad := 0 }).goto i (.resetTotal r.2)
  let s₄ := (s₃.count fun a => a.modify r.2 fun c => { c with total := 0 }).goto i .idle
  have h₁ : s.next i = some (s₁, none) := by simp [s₁, Machine.next, Machine.cas, hi, hst]
  have h₂ : s₁.next i = some (s₂, none) := by simp [s₁, s₂, r, Machine.next, Machine.write]
  have h₃ : s₂.next i = some (s₃, none) := by simp [s₂, s₃, Machine.next]
  have h₄ : s₃.next i = some (s₄, none) := by simp [s₃, s₄, Machine.next]
  refine ⟨s₄, .step h₁ (.step h₂ (.step h₃ (.step h₄ .refl))), Machine.goto_pc_self _ i _, ?_⟩
  show { s.breaker with
    currentState := .kClosed
    slidingCounter := (r.1.modify r.2 fun c => { c with bad := 0 }).modify r.2 fun c =>
      { c with total := 0 } } = _
  rw [modify_modify]
  rfl

/-- `RecordAndHandleStateChange`. -/
theorem alone_handle {bad : Bool} (hi : s.pc i = .rcIsOpen bad) : ∃ s', Alone i s s' ∧
    s'.pc i = .idle ∧ s'.breaker =
      s.breaker.recordAndHandleStateChange s.clock bad (Machine.curValue s.breaker) := by
  unfold AbstractCircuitBreaker.recordAndHandleStateChange
  let s₁ := s.goto i (.rcIsHalfOpen bad)
  cases hst : s.breaker.currentState with
  | kOpen =>
    have h₁ : s.next i = some (s.goto i .idle, none) := by simp [Machine.next, hi, hst]
    exact ⟨s.goto i .idle, .step h₁ .refl, s.goto_pc_self i _, rfl⟩
  | kHalfOpen =>
    have h₁ : s.next i = some (s₁, none) := by simp [s₁, Machine.next, hi, hst]
    cases bad with
    | true =>
      let s₂ := s₁.goto i .casHalfOpenToOpen
      have h₂ : s₁.next i = some (s₂, none) := by simp [s₁, s₂, Machine.next, hst]
      have hst₂ : s₂.breaker.currentState = .kHalfOpen := hst
      obtain ⟨s', hs', hpc, hb⟩ := alone_open (s := s₂) (i := i) hst₂ (by simp [s₂, Machine.next])
      refine ⟨s', .step h₁ (.step h₂ hs'), hpc, ?_⟩
      simp only [if_true, AbstractCircuitBreaker.fromHalfOpenToOpen, hst]
      exact hb
    | false =>
      let s₂ := s₁.goto i .casHalfOpenToClose
      have h₂ : s₁.next i = some (s₂, none) := by simp [s₁, s₂, Machine.next, hst]
      obtain ⟨s', hs', hpc, hb⟩ := alone_close (s := s₂) (i := i) (Machine.goto_pc_self _ i _) hst
      refine ⟨s', .step h₁ (.step h₂ hs'), hpc, ?_⟩
      simp only [Bool.false_eq_true, if_false, AbstractCircuitBreaker.fromHalfOpenToClose, hst, if_true]
      exact hb
  | kClosed =>
    let s₂ := s₁.goto i .rcValues
    let s₃ := s₂.goto i (.rcSumBad (Machine.validSlots s.breaker.slidingCounter s.clock) 0 0)
    have h₁ : s.next i = some (s₁, none) := by simp [s₁, Machine.next, hi, hst]
    have h₂ : s₁.next i = some (s₂, none) := by simp [s₁, s₂, Machine.next, hst]
    have h₃ : s₂.next i = some (s₃, none) := by simp [s₁, s₂, s₃, Machine.next]
    obtain ⟨s₄, h₄, hpc₄, hclock₄, hb₄⟩ := alone_sum (s := s₃) (i := i) (Machine.goto_pc_self _ i _)
    have hsame : s₃.counterAt = s.counterAt := rfl
    rw [hsame, map_counterAt_validSlots, zero_add, zero_add] at hpc₄
    have hb₄' : s₄.breaker = s.breaker := hb₄
    have hpath : Alone i s s₄ := .step h₁ (.step h₂ (.step h₃ h₄))
    dsimp only
    split_ifs with htotal hcur
    · refine ⟨s₄.goto i .idle, hpath.tail ?_, Machine.goto_pc_self _ i _, hb₄'⟩
      simp [Machine.next, hpc₄, hb₄', htotal]
    · let s₅ := s₄.goto i .rcLoad
      let s₆ := s₅.goto i .casCloseToOpen
      have h₅ : s₄.next i = some (s₅, none) := by
        simp [s₅, Machine.next, hpc₄, hb₄', htotal, hcur]
      have h₆ : s₅.next i = some (s₆, none) := by simp [s₅, s₆, Machine.next, hb₄', hst]
      have hst₆ : s₆.breaker.currentState = .kClosed := by
        show s₄.breaker.currentState = .kClosed
        rw [hb₄', hst]
      obtain ⟨s', hs', hpc, hb⟩ := alone_open (s := s₆) (i := i) hst₆ (by simp [s₆, Machine.next])
      refine ⟨s', (hpath.tail h₅).tail h₆ |>.trans hs', hpc, ?_⟩
      have hclock : s₆.clock = s.clock := hclock₄
      have hb₆ : s₆.breaker = s.breaker := hb₄'
      rw [hb, hclock, hb₆]
      simp only [AbstractCircuitBreaker.fromCloseToOpen, hst, if_true]
    · refine ⟨s₄.goto i .idle, hpath.tail ?_, Machine.goto_pc_self _ i _, hb₄'⟩
      simp [Machine.next, hpc₄, hb₄', htotal, hcur]

/-- **`RecordComplete` alone** is the sequential one. -/
theorem recordComplete_alone {rt : ℤ} {error : String}
    (hi : s.pc i = .rcWindow (Machine.isBad s.breaker rt error)) : ∃ s', Alone i s s' ∧
    s'.pc i = .idle ∧ s'.breaker = s.breaker.recordComplete s.clock rt error := by
  obtain ⟨s₁, h₁, hpc₁, hclock₁, hb₁⟩ := alone_count hi
  obtain ⟨s₂, h₂, hpc₂, hb₂⟩ := alone_handle hpc₁
  refine ⟨s₂, h₁.trans h₂, hpc₂, ?_⟩
  rw [hb₂, hclock₁, hb₁]
  exact (recordComplete_eq s.breaker s.clock rt error).symm

end Alone

/-! ### What a step can do -/

/-- The thread has swapped the state to Open and not yet written the retry time. -/
def Pc.pending : Pc → Bool
  | .retryClock | .retryStore _ => true
  | _ => false

/-- The thread neither does that nor is it about to swap Open for HalfOpen. -/
def Pc.calm : Pc → Bool
  | .tpCas _ _ | .retryClock | .retryStore _ => false
  | _ => true

/-- Only counters, the clock and the threads differ. -/
structure SameProtocol (s s' : Machine) : Prop where
  currentState : s'.breaker.currentState = s.breaker.currentState
  nextRetryTimestamp : s'.breaker.nextRetryTimestamp = s.breaker.nextRetryTimestamp
  retryTimeoutMs : s'.breaker.retryTimeoutMs = s.breaker.retryTimeoutMs
  period : s'.period = s.period
  openedAt : s'.openedAt = s.openedAt
  reading : s'.reading = s.reading
  stored : s'.stored = s.stored

/-- The effect of a step on what matters for the retry time. -/
inductive Effect (s : Machine) : Label → Machine → Prop
  | quiet {a : Label} {s' : Machine} (hsame : SameProtocol s s') (hclock : s.clock ≤ s'.clock)
      (hpc : ∀ j, s'.pc j = s.pc j ∨ (s'.pc j).calm = true ∧ (s.pc j).pending = false)
      (hres : ∀ i now seen, a.1 = .next i → s.pc i = .tpCas now seen → a.2 ≠ some true) :
      Effect s a s'
  | check {i now : ℕ} (hpc : s.pc i = .tpRetry now)
      (hnow : (now : ℤ) ≥ s.breaker.nextRetryTimestamp) :
      Effect s (.next i, none) (s.goto i (.tpCas now (if s.stored then some s.period else none)))
  | probe {i now : ℕ} {seen : Option ℕ} (hpc : s.pc i = .tpCas now seen)
      (hst : s.breaker.currentState = .kOpen) :
      Effect s (.next i, some true)
        ((s.write { s.breaker with currentState := .kHalfOpen }).goto i .idle)
  | enterOpen {i : ℕ} (hpc : (s.pc i).calm = true) (hst : s.breaker.currentState ≠ .kOpen) :
      Effect s (.next i, none)
        ((s.write { s.breaker with currentState := .kOpen }).enterOpen.goto i .retryClock)
  | readClock {i : ℕ} (hpc : s.pc i = .retryClock) :
      Effect s (.next i, none) ({ s with reading := some s.clock }.goto i (.retryStore s.clock))
  | store {i now : ℕ} (hpc : s.pc i = .retryStore now) :
      Effect s (.next i, none)
        (({ s with stored := true }.write
          { s.breaker with nextRetryTimestamp := now + s.breaker.retryTimeoutMs }).goto i .idle)
  | close {i : ℕ} (hpc : (s.pc i).calm = true) (hst : s.breaker.currentState = .kHalfOpen) :
      Effect s (.next i, none)
        ((s.write { s.breaker with currentState := .kClosed }).goto i .resetWindow)

section Effect

variable {s s' : Machine} {i : ℕ} {o : Option Bool}

theorem SameProtocol.refl (s : Machine) : SameProtocol s s := ⟨rfl, rfl, rfl, rfl, rfl, rfl, rfl⟩

theorem sameProtocol_count (s : Machine) (f : LeapArray RequestCounter → LeapArray RequestCounter) :
    SameProtocol s (s.count f) := ⟨rfl, rfl, rfl, rfl, rfl, rfl, rfl⟩

/-- A calm thread stays calm: from `s`, up to the counters, it goes to another calm place. -/
theorem Effect.of_calm {a : Action} {p : Pc} {s₁ : Machine} (hsame : SameProtocol s s₁)
    (hclock : s₁.clock = s.clock) (hpc : s₁.pc = s.pc) (hi : (s.pc i).calm = true)
    (hp : p.calm = true) (ha : ∀ j, a = .next j → j = i) : Effect s (a, o) (s₁.goto i p) := by
  refine .quiet ⟨hsame.1, hsame.2, hsame.3, hsame.4, hsame.5, hsame.6, hsame.7⟩ hclock.ge ?_ ?_
  · intro j
    by_cases hj : j = i
    · subst hj
      refine .inr ⟨by rw [Machine.goto_pc_self, hp], ?_⟩
      cases hpc : s.pc j <;> simp [hpc, Pc.calm, Pc.pending] at hi ⊢
    · exact .inl (by rw [Machine.goto_pc_of_ne hj, hpc])
  · intro j now seen hj hcas
    obtain rfl := ha j hj
    rw [hcas] at hi
    exact absurd hi (by simp [Pc.calm])

theorem cas_eq_some {expected desired : State} {s₁ : Machine} (h : s.cas expected desired = some s₁) :
    s.breaker.currentState = expected ∧
      s₁ = s.write { s.breaker with currentState := desired } := by
  unfold Machine.cas at h
  split_ifs at h with hst
  exact ⟨hst, (Option.some.inj h).symm⟩

/-- The swap that begins an Open period, from a state other than Open. -/
theorem effect_casToOpen {expected : State} (hne : expected ≠ .kOpen) (hcalm : (s.pc i).calm = true)
    (h : (match s.cas expected .kOpen with
      | some s => some (s.enterOpen.goto i .retryClock, none)
      | none => some (s.goto i .idle, none)) = some (s', o)) : Effect s (.next i, o) s' := by
  cases hc : s.cas expected .kOpen with
  | none =>
    simp only [hc, Option.some.injEq, Prod.mk.injEq] at h
    obtain ⟨rfl, rfl⟩ := h
    exact .of_calm (.refl s) rfl rfl hcalm rfl fun j hj => by cases hj; rfl
  | some s₁ =>
    simp only [hc, Option.some.injEq, Prod.mk.injEq] at h
    obtain ⟨rfl, rfl⟩ := h
    obtain ⟨hst, rfl⟩ := cas_eq_some hc
    exact .enterOpen hcalm (hst ▸ hne)

theorem next_effect (h : s.next i = some (s', o)) : Effect s (.next i, o) s' := by
  have hcount : ∀ {p : Pc} {o : Option Bool} (f : LeapArray RequestCounter → LeapArray RequestCounter),
      (s.pc i).calm = true → p.calm = true → Effect s (.next i, o) ((s.count f).goto i p) :=
    fun f hi hp => .of_calm (sameProtocol_count s f) rfl rfl hi hp fun j hj => by cases hj; rfl
  have hgoto : ∀ {p : Pc} {o : Option Bool}, (s.pc i).calm = true → p.calm = true →
      Effect s (.next i, o) (s.goto i p) :=
    fun hi hp => .of_calm (.refl s) rfl rfl hi hp fun j hj => by cases hj; rfl
  unfold Machine.next at h
  cases hpc : s.pc i with
  | idle => simp [hpc] at h
  | tpCas now seen =>
    simp only [hpc] at h
    cases hc : s.cas .kOpen .kHalfOpen with
    | some s₁ =>
      simp only [hc, Option.some.injEq, Prod.mk.injEq] at h
      obtain ⟨rfl, rfl⟩ := h
      obtain ⟨hst, rfl⟩ := cas_eq_some hc
      exact .probe hpc hst
    | none =>
      simp only [hc, Option.some.injEq, Prod.mk.injEq] at h
      obtain ⟨rfl, rfl⟩ := h
      refine .quiet ⟨rfl, rfl, rfl, rfl, rfl, rfl, rfl⟩ le_rfl (fun j => ?_) (by simp)
      by_cases hj : j = i
      · subst hj
        exact .inr ⟨by simp [Pc.calm], by rw [hpc]; rfl⟩
      · exact .inl (Machine.goto_pc_of_ne hj s _)
  | retryClock =>
    simp only [hpc, Option.some.injEq, Prod.mk.injEq] at h
    obtain ⟨rfl, rfl⟩ := h
    exact .readClock hpc
  | retryStore now =>
    simp only [hpc, Option.some.injEq, Prod.mk.injEq] at h
    obtain ⟨rfl, rfl⟩ := h
    exact .store hpc
  | tpRetry now =>
    simp only [hpc] at h
    by_cases hnow : (now : ℤ) ≥ s.breaker.nextRetryTimestamp
    · rw [if_pos hnow, Option.some.injEq, Prod.mk.injEq] at h
      obtain ⟨rfl, rfl⟩ := h
      exact .check hpc hnow
    · rw [if_neg hnow, Option.some.injEq, Prod.mk.injEq] at h
      obtain ⟨rfl, rfl⟩ := h
      exact hgoto (by rw [hpc]; rfl) rfl
  | casCloseToOpen =>
    simp only [hpc] at h
    exact effect_casToOpen (by simp) (by rw [hpc]; rfl) h
  | casHalfOpenToOpen =>
    simp only [hpc] at h
    exact effect_casToOpen (by simp) (by rw [hpc]; rfl) h
  | casHalfOpenToClose =>
    simp only [hpc] at h
    cases hc : s.cas .kHalfOpen .kClosed with
    | some s₁ =>
      simp only [hc, Option.some.injEq, Prod.mk.injEq] at h
      obtain ⟨rfl, rfl⟩ := h
      obtain ⟨hst, rfl⟩ := cas_eq_some hc
      exact .close (by rw [hpc]; rfl) hst
    | none =>
      simp only [hc, Option.some.injEq, Prod.mk.injEq] at h
      obtain ⟨rfl, rfl⟩ := h
      exact hgoto (by rw [hpc]; rfl) rfl
  | rcIsHalfOpen bad =>
    have hcalm : (if bad then Pc.casHalfOpenToOpen else .casHalfOpenToClose).calm = true := by
      cases bad <;> rfl
    simp only [hpc] at h
    by_cases hst : s.breaker.currentState = .kHalfOpen
    · rw [if_pos hst, Option.some.injEq, Prod.mk.injEq] at h
      obtain ⟨rfl, rfl⟩ := h
      exact hgoto (by rw [hpc]; rfl) hcalm
    · rw [if_neg hst, Option.some.injEq, Prod.mk.injEq] at h
      obtain ⟨rfl, rfl⟩ := h
      exact hgoto (by rw [hpc]; rfl) rfl
  | tpLoad | rcLoad =>
    simp only [hpc] at h
    cases hst : s.breaker.currentState <;>
      simp only [hst, Option.some.injEq, Prod.mk.injEq] at h <;> obtain ⟨rfl, rfl⟩ := h <;>
      exact hgoto (by rw [hpc]; rfl) rfl
  | rcIsOpen bad =>
    simp only [hpc] at h
    split_ifs at h <;> simp only [Option.some.injEq, Prod.mk.injEq] at h <;>
      obtain ⟨rfl, rfl⟩ := h <;> exact hgoto (by rw [hpc]; rfl) rfl
  | rcSumBad slots badCount totalCount =>
    cases slots with
    | nil =>
      simp only [hpc] at h
      split_ifs at h <;> simp only [Option.some.injEq, Prod.mk.injEq] at h <;>
        obtain ⟨rfl, rfl⟩ := h <;> exact hgoto (by rw [hpc]; rfl) rfl
    | cons slot slots =>
      simp only [hpc, Option.some.injEq, Prod.mk.injEq] at h
      obtain ⟨rfl, rfl⟩ := h
      exact hgoto (by rw [hpc]; rfl) rfl
  | rcWindow | rcBad | rcTotal | resetWindow | resetBad | resetTotal =>
    simp only [hpc, Option.some.injEq, Prod.mk.injEq] at h
    obtain ⟨rfl, rfl⟩ := h
    exact hcount _ (by rw [hpc]; rfl) rfl
  | tpClock | rcValues | rcSumTotal =>
    simp only [hpc, Option.some.injEq, Prod.mk.injEq] at h
    obtain ⟨rfl, rfl⟩ := h
    exact hgoto (by rw [hpc]; rfl) rfl

theorem step_effect {a : Label} (h : StepOf Machine.step s a s') : Effect s a s' := by
  obtain ⟨a, o⟩ := a
  have hcall : ∀ {i : ℕ} {p : Pc}, (∀ j, a = .next j → j = i) → s.pc i = .idle →
      p.calm = true → Effect s (a, o) (s.goto i p) :=
    fun ha hi hp => .of_calm (.refl s) rfl rfl (by rw [hi]; rfl) hp ha
  cases a with
  | tick ms =>
    simp only [StepOf, Machine.step, Option.some.injEq, Prod.mk.injEq] at h
    obtain ⟨rfl, rfl⟩ := h
    exact .quiet ⟨rfl, rfl, rfl, rfl, rfl, rfl, rfl⟩ (Nat.le_add_right _ _) (fun j => .inl rfl)
      (fun i now seen ha => by cases ha)
  | tryPass i =>
    simp only [StepOf, Machine.step] at h
    cases hi : s.pc i <;> simp only [hi, Option.some.injEq, Prod.mk.injEq, reduceCtorEq] at h
    obtain ⟨rfl, rfl⟩ := h
    exact hcall (fun j hj => by cases hj) hi rfl
  | recordComplete i rt error =>
    simp only [StepOf, Machine.step] at h
    cases hi : s.pc i <;> simp only [hi, Option.some.injEq, Prod.mk.injEq, reduceCtorEq] at h
    obtain ⟨rfl, rfl⟩ := h
    exact hcall (fun j hj => by cases hj) hi rfl
  | next i => exact next_effect h

end Effect

/-! ### The property and the condition -/

/-- A `TryPass` that swaps Open for HalfOpen read the clock no earlier than the retry timeout after the
breaker entered Open, and after the reading its retry time was computed from. -/
def CoolsDown (s : Machine) (a : Label) : Prop :=
  ∀ i now seen, a.1 = .next i → s.pc i = .tpCas now seen → a.2 = some true →
    (now : ℤ) ≥ s.openedAt + s.breaker.retryTimeoutMs ∧
      ∀ r, s.reading = some r → (now : ℤ) ≥ r + s.breaker.retryTimeoutMs

/-- A `TryPass` that swaps Open for HalfOpen read the retry time in the Open period it ends, and after
the retry time of that period was written. -/
def freshCheck (s : Machine) (a : Label) : Bool :=
  match a.1 with
  | .next i =>
    match s.pc i with
    | .tpCas _ seen => s.breaker.currentState ≠ .kOpen || seen = some s.period
    | _ => true
  | _ => true

/-- The retry time belongs to the last Open period once it is stored; until then the breaker is Open and
one thread is about to store it; a check made in the current period is right. -/
structure Inv (s : Machine) : Prop where
  retry : s.stored = true → ∃ r, s.reading = some r ∧ s.openedAt ≤ r ∧
    s.breaker.nextRetryTimestamp = r + s.breaker.retryTimeoutMs
  pending : ∀ i, (s.pc i).pending = true → s.breaker.currentState = .kOpen ∧ s.stored = false
  unique : ∀ i j, (s.pc i).pending = true → (s.pc j).pending = true → i = j
  computed : ∀ i now, s.pc i = .retryStore now → s.reading = some now ∧ s.openedAt ≤ now
  clock : s.openedAt ≤ s.clock
  seen : ∀ i now p, s.pc i = .tpCas now (some p) → p ≤ s.period ∧
    (p = s.period → s.stored = true ∧ (now : ℤ) ≥ s.breaker.nextRetryTimestamp)

section Inv

variable {s s' : Machine} {a : Label}

theorem inv_init (rule : Rule) (cls : BreakerClass) (clock : ℕ) : Inv (.init rule cls clock) where
  retry := by simp [Machine.init]
  pending := by simp [Machine.init, Pc.pending]
  unique := by simp [Machine.init, Pc.pending]
  computed := by simp [Machine.init]
  clock := Nat.zero_le clock
  seen := by simp [Machine.init]

theorem seen_of_freshCheck {o : Option Bool} {i now : ℕ} {seen : Option ℕ}
    (hC : freshCheck s (.next i, o) = true) (hpc : s.pc i = .tpCas now seen)
    (hst : s.breaker.currentState = .kOpen) : seen = some s.period := by
  simpa [freshCheck, hpc, hst] using hC

theorem Pc.pending_of_calm {p : Pc} (h : p.calm = true) : p.pending = false := by
  cases p <;> simp [Pc.calm, Pc.pending] at h ⊢

/-- The threads but `i` are where they were. -/
theorem Machine.goto_pc_cases (s : Machine) (i : ℕ) (p : Pc) (j : ℕ) :
    (j = i ∧ (s.goto i p).pc j = p) ∨ (j ≠ i ∧ (s.goto i p).pc j = s.pc j) := by
  by_cases hj : j = i
  · subst hj
    exact .inl ⟨rfl, s.goto_pc_self j p⟩
  · exact .inr ⟨hj, s.goto_pc_of_ne hj p⟩

/-- Steps that change nothing the invariant speaks about, but for the place of calm threads. -/
theorem Inv.quiet (hI : Inv s) (hsame : SameProtocol s s') (hclock : s.clock ≤ s'.clock)
    (hpc : ∀ j, s'.pc j = s.pc j ∨ (s'.pc j).calm = true ∧ (s.pc j).pending = false) : Inv s' := by
  have hpend : ∀ j, (s'.pc j).pending = true → s'.pc j = s.pc j := by
    intro j hj
    rcases hpc j with h | ⟨hcalm, -⟩
    · exact h
    · rw [Pc.pending_of_calm hcalm] at hj
      cases hj
  have hcas : ∀ j now seen, s'.pc j = .tpCas now seen → s.pc j = .tpCas now seen := by
    intro j now seen hj
    rcases hpc j with h | ⟨hcalm, -⟩
    · exact h.symm.trans hj
    · rw [hj] at hcalm
      cases hcalm
  constructor
  · rw [hsame.stored, hsame.reading, hsame.openedAt, hsame.nextRetryTimestamp, hsame.retryTimeoutMs]
    exact hI.retry
  · intro j hj
    rw [hsame.currentState, hsame.stored]
    exact hI.pending j (hpend j hj ▸ hj)
  · intro j k hj hk
    exact hI.unique j k (hpend j hj ▸ hj) (hpend k hk ▸ hk)
  · intro j now hj
    rw [hsame.reading, hsame.openedAt]
    exact hI.computed j now ((hpend j (by rw [hj]; rfl)).symm.trans hj)
  · rw [hsame.openedAt]
    exact hI.clock.trans hclock
  · intro j now p hj
    rw [hsame.period, hsame.stored, hsame.nextRetryTimestamp]
    exact hI.seen j now p (hcas j now _ hj)

/-- A step after which no thread is about to store a retry time. -/
theorem Inv.of_no_pending (hI : Inv s) (hno : ∀ j, (s.pc j).pending = false) {i : ℕ} {p : Pc}
    (hp : p.calm = true) (st : State) :
    Inv ((s.write { s.breaker with currentState := st }).goto i p) := by
  have hpend : ∀ j,
      (((s.write { s.breaker with currentState := st }).goto i p).pc j).pending = false := by
    intro j
    rcases Machine.goto_pc_cases (s.write { s.breaker with currentState := st }) i p j with
      ⟨-, h⟩ | ⟨-, h⟩
    · rw [h, Pc.pending_of_calm hp]
    · rw [h]
      exact hno j
  refine ⟨hI.retry, fun j hj => ?_, fun j k hj => ?_, fun j now hj => ?_, hI.clock,
    fun j now q hj => ?_⟩
  · rw [hpend j] at hj
    cases hj
  · rw [hpend j] at hj
    cases hj
  · have h := hpend j
    rw [hj] at h
    cases h
  · rcases Machine.goto_pc_cases (s.write { s.breaker with currentState := st }) i p j with
      ⟨-, h⟩ | ⟨-, h⟩
    · rw [h] at hj
      rw [hj] at hp
      cases hp
    · exact hI.seen j now q (h.symm.trans hj)

/-- While the breaker is not Open, or its retry time is stored, no thread is about to store one. -/
theorem Inv.no_pending (hI : Inv s) (h : s.breaker.currentState ≠ .kOpen ∨ s.stored = true) (j : ℕ) :
    (s.pc j).pending = false := by
  cases hj : (s.pc j).pending with
  | false => rfl
  | true =>
    obtain ⟨hopen, hst⟩ := hI.pending j hj
    rcases h with h | h
    · exact absurd hopen h
    · rw [hst] at h
      cases h

theorem Inv.check (hI : Inv s) {i now : ℕ}
    (hnow : (now : ℤ) ≥ s.breaker.nextRetryTimestamp) (hpc : s.pc i = .tpRetry now) :
    Inv (s.goto i (.tpCas now (if s.stored then some s.period else none))) := by
  have hpend : ∀ j, ((s.goto i (.tpCas now (if s.stored then some s.period else none))).pc j).pending =
      (s.pc j).pending := by
    intro j
    rcases s.goto_pc_cases i (.tpCas now (if s.stored then some s.period else none)) j with
      ⟨rfl, h⟩ | ⟨-, h⟩
    · rw [h, hpc]
      rfl
    · rw [h]
  refine ⟨hI.retry, fun j hj => hI.pending j (hpend j ▸ hj),
    fun j k hj hk => hI.unique j k (hpend j ▸ hj) (hpend k ▸ hk), fun j r hj => ?_, hI.clock,
    fun j r p hj => ?_⟩
  · rcases s.goto_pc_cases i (.tpCas now (if s.stored then some s.period else none)) j with
      ⟨-, h⟩ | ⟨-, h⟩
    · cases h.symm.trans hj
    · exact hI.computed j r (h.symm.trans hj)
  · rcases s.goto_pc_cases i (.tpCas now (if s.stored then some s.period else none)) j with
      ⟨-, h⟩ | ⟨-, h⟩
    · obtain ⟨rfl, hseen⟩ : now = r ∧ (if s.stored then some s.period else none) = some p := by
        simpa using h.symm.trans hj
      split_ifs at hseen with hst
      obtain rfl : s.period = p := by simpa using hseen
      exact ⟨le_rfl, fun _ => ⟨hst, hnow⟩⟩
    · exact hI.seen j r p (h.symm.trans hj)

theorem Inv.enterOpen (hI : Inv s) (hst : s.breaker.currentState ≠ .kOpen) (i : ℕ) :
    Inv ((s.write { s.breaker with currentState := .kOpen }).enterOpen.goto i .retryClock) := by
  have hno := hI.no_pending (.inl hst)
  have hcases := Machine.goto_pc_cases
    (s.write { s.breaker with currentState := .kOpen }).enterOpen i .retryClock
  -- only the thread that swapped the state
  have honly : ∀ j, (((s.write { s.breaker with currentState := .kOpen }).enterOpen.goto i
      .retryClock).pc j).pending = true → j = i := by
    intro j hj
    rcases hcases j with ⟨rfl, -⟩ | ⟨-, h⟩
    · rfl
    · rw [h] at hj
      cases (hno j).symm.trans hj
  refine ⟨fun h => Bool.noConfusion h, fun _ _ => ⟨rfl, rfl⟩,
    fun j k hj hk => (honly j hj).trans (honly k hk).symm, fun j now hj => ?_, le_rfl,
    fun j now p hj => ?_⟩
  · rcases hcases j with ⟨-, h⟩ | ⟨-, h⟩
    · cases h.symm.trans hj
    · have hpend := hno j
      rw [show s.pc j = .retryStore now from h.symm.trans hj] at hpend
      cases hpend
  · rcases hcases j with ⟨-, h⟩ | ⟨-, h⟩
    · cases h.symm.trans hj
    · have hle : p ≤ s.period := (hI.seen j now p (h.symm.trans hj)).1
      refine ⟨Nat.le_succ_of_le hle, fun heq => ?_⟩
      have heq' : p = s.period + 1 := heq
      omega

theorem Inv.readClock (hI : Inv s) {i : ℕ} (hpc : s.pc i = .retryClock) :
    Inv ({ s with reading := some s.clock }.goto i (.retryStore s.clock)) := by
  obtain ⟨hopen, hst⟩ := hI.pending i (by rw [hpc]; rfl)
  have hcases := Machine.goto_pc_cases { s with reading := some s.clock } i (.retryStore s.clock)
  have hpend : ∀ j, (({ s with reading := some s.clock }.goto i
      (.retryStore s.clock)).pc j).pending = true → (s.pc j).pending = true := by
    intro j hj
    rcases hcases j with ⟨rfl, -⟩ | ⟨-, h⟩
    · rw [hpc]
      rfl
    · rwa [h] at hj
  refine ⟨fun h => ?_, fun j hj => hI.pending j (hpend j hj),
    fun j k hj hk => hI.unique j k (hpend j hj) (hpend k hk), fun j now hj => ?_, hI.clock,
    fun j now p hj => ?_⟩
  · cases hst.symm.trans h
  · rcases hcases j with ⟨-, h⟩ | ⟨hne, h⟩
    · obtain rfl : s.clock = now := by simpa using h.symm.trans hj
      exact ⟨rfl, hI.clock⟩
    · have hj' : s.pc j = .retryStore now := h.symm.trans hj
      exact absurd (hI.unique j i (by rw [hj']; rfl) (by rw [hpc]; rfl)) hne
  · rcases hcases j with ⟨-, h⟩ | ⟨-, h⟩
    · cases h.symm.trans hj
    · exact hI.seen j now p (h.symm.trans hj)

theorem Inv.store (hI : Inv s) {i now : ℕ} (hpc : s.pc i = .retryStore now) :
    Inv (({ s with stored := true }.write
      { s.breaker with nextRetryTimestamp := now + s.breaker.retryTimeoutMs }).goto i .idle) := by
  obtain ⟨hopen, hst⟩ := hI.pending i (by rw [hpc]; rfl)
  have hcases := Machine.goto_pc_cases ({ s with stored := true }.write
    { s.breaker with nextRetryTimestamp := now + s.breaker.retryTimeoutMs }) i .idle
  have hno : ∀ j, ((({ s with stored := true }.write
      { s.breaker with nextRetryTimestamp := now + s.breaker.retryTimeoutMs }).goto i
        .idle).pc j).pending = false := by
    intro j
    rcases hcases j with ⟨-, h⟩ | ⟨hne, h⟩
    · rw [h]
      rfl
    · cases hj : (s.pc j).pending with
      | false =>
        rw [h]
        exact hj
      | true => exact absurd (hI.unique j i hj (by rw [hpc]; rfl)) hne
  obtain ⟨hreading, hle⟩ := hI.computed i now hpc
  refine ⟨fun _ => ⟨now, hreading, hle, rfl⟩, fun j hj => ?_, fun j k hj => ?_, fun j r hj => ?_,
    hI.clock, fun j r p hj => ?_⟩
  · cases (hno j).symm.trans hj
  · cases (hno j).symm.trans hj
  · have h := hno j
    rw [hj] at h
    cases h
  · rcases hcases j with ⟨-, h⟩ | ⟨-, h⟩
    · cases h.symm.trans hj
    · -- a check of this period would have found the retry time stored
      obtain ⟨hp, hp'⟩ := hI.seen j r p (h.symm.trans hj)
      refine ⟨hp, fun heq => ?_⟩
      cases hst.symm.trans (hp' heq).1

/-- **One step.** -/
theorem Inv.step (hI : Inv s) (hC : freshCheck s a = true) (h : Effect s a s') : Inv s' := by
  cases h with
  | quiet hsame hclock hpc _ => exact hI.quiet hsame hclock hpc
  | check hpc hnow => exact hI.check hnow hpc
  | @probe i now seen hpc hst =>
    obtain rfl := seen_of_freshCheck hC hpc hst
    have hstored : s.stored = true := ((hI.seen i now _ hpc).2 rfl).1
    exact hI.of_no_pending (hI.no_pending (.inr hstored)) rfl _
  | enterOpen _ hst => exact hI.enterOpen hst _
  | readClock hpc => exact hI.readClock hpc
  | store hpc => exact hI.store hpc
  | close _ hst => exact hI.of_no_pending (hI.no_pending (.inl (by simp [hst]))) rfl _

/-- A fresh check lets nothing pass early. -/
theorem Inv.coolsDown (hI : Inv s) (hC : freshCheck s a = true) (h : Effect s a s') : CoolsDown s a := by
  intro i now seen ha hpc hres
  have hst : s.breaker.currentState = .kOpen := by
    cases h with
    | quiet _ _ _ hquiet => exact absurd hres (hquiet i now seen ha hpc)
    | probe _ hst => exact hst
    | _ => simp at hres
  obtain ⟨a, o⟩ := a
  obtain rfl : a = .next i := ha
  obtain rfl := seen_of_freshCheck hC hpc hst
  obtain ⟨hstored, hnow⟩ := (hI.seen i now _ hpc).2 rfl
  obtain ⟨r, hr, hle, hnext⟩ := hI.retry hstored
  rw [hnext] at hnow
  refine ⟨by omega, fun r' hr' => ?_⟩
  obtain rfl : r = r' := by simpa using hr.symm.trans hr'
  exact hnow

end Inv

/-! ### Runs -/

section Runs

variable {rule : Rule} {cls : BreakerClass} {clock : ℕ} {tr : List Label} {s : Machine}

theorem inv_run (hC : EveryStep (StepOf Machine.step) (.init rule cls clock)
    (fun s a => freshCheck s a = true) tr) (h : Steps (.init rule cls clock) tr s) : Inv s := by
  revert hC
  refine Run.hist (I := fun tr s => EveryStep (StepOf Machine.step) (.init rule cls clock)
    (fun s a => freshCheck s a = true) tr → Inv s) (fun _ => inv_init rule cls clock) ?_ h
  intro tr s a s' hr ih hstep hC
  exact (ih (hC.mono (List.prefix_append _ _))).step (hC.last hr) (step_effect hstep)

/-- **The cool-down under interleaving.**  For a breaker just made and any number of threads: in every
run in which each `TryPass` that swaps Open for HalfOpen has read the retry time in that Open period
after it was written, no `TryPass` passes before the retry timeout is over. -/
theorem coolsDown_of_freshCheck (h : Steps (.init rule cls clock) tr s)
    (hC : EveryStep (StepOf Machine.step) (.init rule cls clock) (fun s a => freshCheck s a = true) tr) :
    EveryStep (StepOf Machine.step) (.init rule cls clock) CoolsDown tr := by
  intro tr₁ s₁ a hp hr
  obtain ⟨s₂, hs, -⟩ := h.step_of_prefix stepOf_det hp hr
  have hI : Inv s₁ := inv_run (hC.mono ((List.prefix_append _ _).trans hp)) hr
  exact hI.coolsDown (hC tr₁ s₁ a hp hr) (step_effect hs)

/-- An error-ratio rule that opens at the first error and retries after 1 s. -/
def opensAtFirstError : Rule :=
  { resource := "r", strategy := .kErrorRatio, retryTimeoutSec := 1, minRequestAmount := 1 }

/-- Thread 0 completes with an error, up to and including its swap into Open. -/
def failingCompletion : List Action :=
  .recordComplete 0 0 "error" :: List.replicate 11 (.next 0)

/-- Thread 1 calls `TryPass`. -/
def tryPassByOther : List Action := .tryPass 1 :: List.replicate 4 (.next 1)

/-- Thread 1 runs between the swap and the write of the retry time: it finds the retry time of the
construction, 0, and passes at the very time the breaker opened. -/
theorem coolsDown_fails : ∃ s s' tr a,
    Steps (.init opensAtFirstError .errorCircuitBreaker 5000) (tr ++ [a]) s' ∧
    Steps (.init opensAtFirstError .errorCircuitBreaker 5000) tr s ∧
    (tr ++ [a]).map Prod.fst = failingCompletion ++ tryPassByOther ∧ a.2 = some true ∧
    s.breaker.retryTimeoutMs = 1000 ∧ s.openedAt = 5000 ∧ s.clock = 5000 ∧
    ¬ EveryStep (StepOf Machine.step) (.init opensAtFirstError .errorCircuitBreaker 5000) CoolsDown
      (tr ++ [a]) := by
  have hx : (execute Machine.step (.init opensAtFirstError .errorCircuitBreaker 5000)
      ((failingCompletion ++ tryPassByOther).take 16)).bind (fun r =>
        (Machine.step r.2 (.next 1)).map fun r' => (r'.2, r.2.breaker.retryTimeoutMs, r.2.openedAt,
          r.2.clock, match r.2.pc 1 with | .tpCas now _ => now | _ => 0)) =
      some (some true, 1000, 5000, 5000, 5000) := by
    decide +kernel
  obtain ⟨⟨tr, s⟩, hr, hx⟩ := Option.bind_eq_some_iff.mp hx
  obtain ⟨⟨s', o⟩, hs, heq⟩ := Option.map_eq_some_iff.mp hx
  simp only [Prod.mk.injEq] at heq
  obtain ⟨rfl, htimeout, hopened, hclock, hnow⟩ := heq
  have hstep : StepOf Machine.step s (.next 1, some true) s' := hs
  refine ⟨s, s', tr, (.next 1, some true), (run_of_execute hr).snoc hstep, run_of_execute hr, ?_, rfl,
    htimeout, hopened, hclock, fun hD => ?_⟩
  · rw [List.map_append, execute_inputs hr]
    rfl
  · cases hpc : s.pc 1 with
    | tpCas now seen =>
      obtain ⟨hle, -⟩ := hD.last (run_of_execute hr) 1 now seen rfl hpc rfl
      simp only [hpc] at hnow
      rw [htimeout, hopened, hnow] at hle
      omega
    | _ => simp [hpc] at hnow

/-- A run with a cool-down that is kept: the retry time is written before thread 1 looks at it, and it
looks again after 1 s. -/
def patientTryPass : List Action :=
  failingCompletion ++ [.next 0, .next 0, .tryPass 1, .next 1, .next 1, .next 1, .tick 1000] ++
    tryPassByOther

/-- The law at this run, in which the last call passes. -/
theorem coolsDown_of_freshCheck_example : ∃ tr,
    tr.map Prod.fst = patientTryPass ∧
    EveryStep (StepOf Machine.step) (.init opensAtFirstError .errorCircuitBreaker 5000) CoolsDown tr := by
  have hchecks : checks Machine.step freshCheck (.init opensAtFirstError .errorCircuitBreaker 5000)
      patientTryPass = true := by
    decide +kernel
  obtain ⟨tr, s, htr, hr, hC⟩ := exists_run_of_checks hchecks
  exact ⟨tr, htr, coolsDown_of_freshCheck hr hC⟩

end Runs

end SentinelCpp.CircuitBreaker.Interleaving
