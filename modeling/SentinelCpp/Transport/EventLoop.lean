import SentinelCpp.Lib.Progress

/-!
# The thread of the event loop

Any number of threads hand tasks to the loop thread: `RunTask` puts the task in the list under a mutex
and then writes to a socket that wakes the loop.  The loop waits until the socket or another event is
ready, reads one message, takes the whole list and runs it.  `Stop` sets a flag and wakes the loop in the
same way.

* `EventLoop`, `EventLoop.step`: the list, the socket, the flag and where each thread stands; a step for
  each access to what they share.
* `Inv`: what every interleaving keeps; a task never waits without a message on its way, unless it was
  handed over before the loop thread made its socket.
* `rank`: how many steps of the loop thread a task is away from being run.
-/

namespace SentinelCpp.Transport

open Lib

variable {τ : Type*}

/-- Where the loop thread stands. -/
inductive LoopPc (τ : Type*)
  /-- There is none yet. -/
  | absent
  /-- Before `InitEventBase`. -/
  | init
  /-- Before `stoped_.store(false)`. -/
  | dispatching
  /-- Before `stoped_.load()`. -/
  | checking
  /-- In `event_base_loop`, with nothing ready yet. -/
  | polling
  /-- In the callback of the socket. -/
  | reading
  /-- Before the critical section of `DoPendingTasks`. -/
  | swapping
  /-- With these tasks left to run. -/
  | running (functors : List τ)
  /-- The thread function has returned. -/
  | exited
  /-- The thread has been joined. -/
  | joined
  deriving DecidableEq

/-- Where a thread that calls `RunTask` stands. -/
inductive ClientPc
  | idle
  /-- Before `Wakeup`. -/
  | waking
  deriving DecidableEq

/-- Where the thread that calls `Start` and `Stop` stands. -/
inductive OwnerPc
  | idle
  /-- In `start_future.get()`. -/
  | starting
  /-- `Stop` has found the flag unset. -/
  | stopping
  /-- `Stop` has set it and not yet woken the loop. -/
  | waking
  /-- In `thd_->join()`. -/
  | joining
  deriving DecidableEq

/-- The tasks left to run of those that the loop has taken. -/
def LoopPc.functors : LoopPc τ → List τ
  | running functors => functors
  | _ => []

/-- `EventLoopThread` with its threads; `wakeups` counts the messages in the socket.  History: the tasks
put in the list and those taken from it and run, the tasks run directly, and how many had been put in
the list when the socket was made. -/
structure EventLoop (τ : Type*) where
  pendingTasks : List τ
  wakeups : ℕ
  stoped : Bool
  loop : LoopPc τ
  client : ℕ → ClientPc
  owner : OwnerPc
  submitted : List τ
  ran : List τ
  direct : List τ
  born : ℕ

inductive LoopAction (τ : Type*)
  /-- `Start` creates the thread. -/
  | start
  /-- `InitEventBase` and the promise. -/
  | init (ok : Bool)
  /-- `Start` returns. -/
  | started
  /-- `Dispatch` clears the flag. -/
  | dispatch
  /-- The loop reads the flag. -/
  | check
  /-- `event_base_loop` goes on; `other` says that another event is ready. -/
  | poll (other : Bool)
  /-- `OnWakeupFdCallback` reads one message. -/
  | read
  /-- The critical section of `DoPendingTasks`. -/
  | swap
  /-- The next task of those taken is run. -/
  | run
  /-- The round is over. -/
  | again
  /-- A task or a callback on the loop thread calls `RunTask`. -/
  | runDirect (task : τ)
  /-- The critical section of `RunTask`, on client `i`. -/
  | append (i : ℕ) (task : τ)
  /-- `Wakeup` on client `i`. -/
  | wakeup (i : ℕ)
  /-- `Stop` reads the flag. -/
  | stopLoad
  /-- `Stop` sets it. -/
  | stopStore
  /-- `Stop` wakes the loop. -/
  | stopWakeup
  /-- `join` returns. -/
  | join
  deriving DecidableEq

namespace EventLoop

/-- An `EventLoopThread` just constructed. -/
def new : EventLoop τ where
  pendingTasks := []
  wakeups := 0
  stoped := true
  loop := .absent
  client := fun _ => .idle
  owner := .idle
  submitted := []
  ran := []
  direct := []
  born := 0

variable (capacity : ℕ) (s : EventLoop τ)

/-- `Wakeup()`: a write to the socket, which does nothing when it is full. -/
def wake : EventLoop τ := { s with wakeups := if s.wakeups < capacity then s.wakeups + 1 else s.wakeups }

def step : LoopAction τ → Option (EventLoop τ)
  | .start =>
    match s.owner, s.loop with
    | .idle, .absent | .idle, .joined => some { s with loop := .init, owner := .starting }
    | _, _ => none
  | .init ok =>
    match s.loop with
    | .init =>
      if ok = true then
        some { s with wakeups := 0, loop := .dispatching, born := s.submitted.length }
      else some { s with loop := .exited }
    | _ => none
  | .started =>
    match s.owner, s.loop with
    | .starting, .init => none
    | .starting, _ => some { s with owner := .idle }
    | _, _ => none
  | .dispatch =>
    match s.loop with
    | .dispatching => some { s with stoped := false, loop := .checking }
    | _ => none
  | .check =>
    match s.loop with
    | .checking => some { s with loop := if s.stoped = true then .exited else .polling }
    | _ => none
  | .poll other =>
    match s.loop with
    | .polling =>
      if 0 < s.wakeups then some { s with loop := .reading }
      else if other = true then some { s with loop := .swapping }
      else none
    | _ => none
  | .read =>
    match s.loop with
    | .reading => some { s with wakeups := s.wakeups - 1, loop := .swapping }
    | _ => none
  | .swap =>
    match s.loop with
    | .swapping => some { s with pendingTasks := [], loop := .running s.pendingTasks }
    | _ => none
  | .run =>
    match s.loop with
    | .running (task :: functors) => some { s with loop := .running functors, ran := s.ran ++ [task] }
    | _ => none
  | .again =>
    match s.loop with
    | .running [] => some { s with loop := .checking }
    | _ => none
  | .runDirect task =>
    match s.loop with
    | .polling | .reading | .running _ => some { s with direct := s.direct ++ [task] }
    | _ => none
  | .append i task =>
    match s.loop with
    | .absent => none
    | _ =>
      if s.client i = .idle then
        some { s with
          pendingTasks := s.pendingTasks ++ [task]
          client := Function.update s.client i .waking
          submitted := s.submitted ++ [task] }
      else none
  | .wakeup i =>
    if s.client i = .waking then
      some { s.wake capacity with client := Function.update s.client i .idle }
    else none
  | .stopLoad =>
    if s.owner = .idle then some (if s.stoped = true then s else { s with owner := .stopping })
    else none
  | .stopStore =>
    if s.owner = .stopping then some { s with stoped := true, owner := .waking } else none
  | .stopWakeup =>
    if s.owner = .waking then some { s.wake capacity with owner := .joining } else none
  | .join =>
    match s.owner, s.loop with
    | .joining, .exited => some { s with loop := .joined, owner := .idle }
    | _, _ => none

/-- An interleaving of the threads. -/
abbrev Steps (capacity : ℕ) : EventLoop τ → List (LoopAction τ) → EventLoop τ → Prop :=
  Run fun s a s' => s.step capacity a = some s'

/-! ### What a step can do -/

/-- The steps, one by one, each with the state it is taken in and the state after it. -/
inductive Takes (capacity : ℕ) (s : EventLoop τ) : LoopAction τ → EventLoop τ → Prop
  | start (howner : s.owner = .idle) (hloop : s.loop = .absent ∨ s.loop = .joined) :
    Takes capacity s .start { s with loop := .init, owner := .starting }
  | initialised (hloop : s.loop = .init) :
    Takes capacity s (.init true)
      { s with wakeups := 0, loop := .dispatching, born := s.submitted.length }
  | failed (hloop : s.loop = .init) : Takes capacity s (.init false) { s with loop := .exited }
  | started (howner : s.owner = .starting) (hloop : s.loop ≠ .init) :
    Takes capacity s .started { s with owner := .idle }
  | dispatch (hloop : s.loop = .dispatching) :
    Takes capacity s .dispatch { s with stoped := false, loop := .checking }
  | leave (hloop : s.loop = .checking) (hstoped : s.stoped = true) :
    Takes capacity s .check { s with loop := .exited }
  | stay (hloop : s.loop = .checking) (hstoped : s.stoped = false) :
    Takes capacity s .check { s with loop := .polling }
  | awake (other : Bool) (hloop : s.loop = .polling) (hwake : 0 < s.wakeups) :
    Takes capacity s (.poll other) { s with loop := .reading }
  | other (hloop : s.loop = .polling) (hwake : s.wakeups = 0) :
    Takes capacity s (.poll true) { s with loop := .swapping }
  | read (hloop : s.loop = .reading) :
    Takes capacity s .read { s with wakeups := s.wakeups - 1, loop := .swapping }
  | swap (hloop : s.loop = .swapping) :
    Takes capacity s .swap { s with pendingTasks := [], loop := .running s.pendingTasks }
  | run {task : τ} {functors : List τ} (hloop : s.loop = .running (task :: functors)) :
    Takes capacity s .run { s with loop := .running functors, ran := s.ran ++ [task] }
  | again (hloop : s.loop = .running []) : Takes capacity s .again { s with loop := .checking }
  | runDirect (task : τ) (hloop : s.loop = .polling ∨ s.loop = .reading ∨ ∃ fs, s.loop = .running fs) :
    Takes capacity s (.runDirect task) { s with direct := s.direct ++ [task] }
  | append (i : ℕ) (task : τ) (hclient : s.client i = .idle) (hloop : s.loop ≠ .absent) :
    Takes capacity s (.append i task)
      { s with
        pendingTasks := s.pendingTasks ++ [task]
        client := Function.update s.client i .waking
        submitted := s.submitted ++ [task] }
  | wakeup (i : ℕ) (hclient : s.client i = .waking) :
    Takes capacity s (.wakeup i) { s.wake capacity with client := Function.update s.client i .idle }
  | notRunning (howner : s.owner = .idle) (hstoped : s.stoped = true) : Takes capacity s .stopLoad s
  | stopLoad (howner : s.owner = .idle) (hstoped : s.stoped = false) :
    Takes capacity s .stopLoad { s with owner := .stopping }
  | stopStore (howner : s.owner = .stopping) :
    Takes capacity s .stopStore { s with stoped := true, owner := .waking }
  | stopWakeup (howner : s.owner = .waking) :
    Takes capacity s .stopWakeup { s.wake capacity with owner := .joining }
  | join (howner : s.owner = .joining) (hloop : s.loop = .exited) :
    Takes capacity s .join { s with loop := .joined, owner := .idle }

variable {capacity : ℕ} {s s' : EventLoop τ} {a : LoopAction τ}

/-- **Inversion of a step.** -/
theorem takes_of_step (h : s.step capacity a = some s') : Takes capacity s a s' := by
  cases a with
  | start =>
    simp only [step] at h
    split at h
    · obtain rfl := Option.some.inj h
      exact .start ‹_› (.inl ‹_›)
    · obtain rfl := Option.some.inj h
      exact .start ‹_› (.inr ‹_›)
    · exact absurd h (by simp)
  | init ok =>
    simp only [step] at h
    split at h
    · split_ifs at h with hok
      · obtain rfl := Option.some.inj h
        rw [hok]
        exact .initialised ‹_›
      · obtain rfl := Option.some.inj h
        rw [Bool.not_eq_true] at hok
        rw [hok]
        exact .failed ‹_›
    · exact absurd h (by simp)
  | started =>
    simp only [step] at h
    split at h
    · exact absurd h (by simp)
    · obtain rfl := Option.some.inj h
      exact .started ‹_› (by assumption)
    · exact absurd h (by simp)
  | dispatch =>
    simp only [step] at h
    split at h
    · obtain rfl := Option.some.inj h
      exact .dispatch ‹_›
    · exact absurd h (by simp)
  | check =>
    simp only [step] at h
    split at h
    · obtain rfl := Option.some.inj h
      split_ifs with hstoped
      · exact .leave ‹_› hstoped
      · exact .stay ‹_› (by simpa using hstoped)
    · exact absurd h (by simp)
  | poll other =>
    simp only [step] at h
    split at h
    · split_ifs at h with hwake hother
      · obtain rfl := Option.some.inj h
        exact .awake other ‹_› hwake
      · obtain rfl := Option.some.inj h
        rw [hother]
        exact .other ‹_› (by omega)
    · exact absurd h (by simp)
  | read =>
    simp only [step] at h
    split at h
    · obtain rfl := Option.some.inj h
      exact .read ‹_›
    · exact absurd h (by simp)
  | swap =>
    simp only [step] at h
    split at h
    · obtain rfl := Option.some.inj h
      exact .swap ‹_›
    · exact absurd h (by simp)
  | run =>
    simp only [step] at h
    split at h
    · obtain rfl := Option.some.inj h
      exact .run ‹_›
    · exact absurd h (by simp)
  | again =>
    simp only [step] at h
    split at h
    · obtain rfl := Option.some.inj h
      exact .again ‹_›
    · exact absurd h (by simp)
  | runDirect task =>
    simp only [step] at h
    split at h
    · obtain rfl := Option.some.inj h
      exact .runDirect task (.inl ‹_›)
    · obtain rfl := Option.some.inj h
      exact .runDirect task (.inr (.inl ‹_›))
    · obtain rfl := Option.some.inj h
      exact .runDirect task (.inr (.inr ⟨_, ‹_›⟩))
    · exact absurd h (by simp)
  | append i task =>
    simp only [step] at h
    split at h
    · exact absurd h (by simp)
    · split_ifs at h with hclient
      obtain rfl := Option.some.inj h
      exact .append i task hclient (by assumption)
  | wakeup i =>
    simp only [step] at h
    split_ifs at h with hclient
    obtain rfl := Option.some.inj h
    exact .wakeup i hclient
  | stopLoad =>
    simp only [step] at h
    split_ifs at h with howner hstoped
    · obtain rfl := Option.some.inj h
      exact .notRunning howner hstoped
    · obtain rfl := Option.some.inj h
      exact .stopLoad howner (by simpa using hstoped)
  | stopStore =>
    simp only [step] at h
    split_ifs at h with howner
    obtain rfl := Option.some.inj h
    exact .stopStore howner
  | stopWakeup =>
    simp only [step] at h
    split_ifs at h with howner
    obtain rfl := Option.some.inj h
    exact .stopWakeup howner
  | join =>
    simp only [step] at h
    split at h
    · obtain rfl := Option.some.inj h
      exact .join ‹_› ‹_›
    · exact absurd h (by simp)

/-! ### The tasks -/

/-- The tasks handed over have been run, are taken, or wait in the list, in this order. -/
def Fifo (s : EventLoop τ) : Prop := s.ran ++ s.loop.functors ++ s.pendingTasks = s.submitted

theorem Fifo.takes (hI : Fifo s) (h : Takes capacity s a s') : Fifo s' := by
  unfold Fifo at hI ⊢
  cases h with
  | start _ hloop =>
    have hfunctors : s.loop.functors = [] := by rcases hloop with h | h <;> rw [h] <;> rfl
    rw [hfunctors] at hI
    exact hI
  | initialised hloop | failed hloop | dispatch hloop | leave hloop | stay hloop | awake _ hloop
  | other hloop | read hloop | again hloop =>
    rw [hloop] at hI
    exact hI
  | swap hloop =>
    rw [hloop] at hI
    show s.ran ++ s.pendingTasks ++ [] = s.submitted
    rw [List.append_nil, ← hI]
    simp [LoopPc.functors]
  | @run task functors hloop =>
    rw [hloop] at hI
    show s.ran ++ [task] ++ functors ++ s.pendingTasks = s.submitted
    rw [← hI]
    simp [LoopPc.functors]
  | append i task =>
    show s.ran ++ s.loop.functors ++ (s.pendingTasks ++ [task]) = s.submitted ++ [task]
    rw [← hI, List.append_assoc _ s.pendingTasks]
  | join _ hloop =>
    rw [hloop] at hI
    exact hI
  | started | runDirect | wakeup | notRunning | stopLoad | stopStore | stopWakeup => exact hI

/-! ### The messages -/

/-- A task handed over since the socket was made does not wait without a message in the socket or on its
way, or the loop about to take it. -/
structure Woken (s : EventLoop τ) : Prop where
  born_le : s.born ≤ s.submitted.length
  woken : s.pendingTasks ≠ [] → s.born < s.submitted.length →
    0 < s.wakeups ∨ (∃ i, s.client i = .waking) ∨ s.loop = .swapping
  reading : s.loop = .reading → 0 < s.wakeups

/-- The socket is never empty after a write, even one that finds it full. -/
theorem wakeups_wake_pos (hcap : 0 < capacity) (s : EventLoop τ) : 0 < (s.wake capacity).wakeups := by
  show 0 < if s.wakeups < capacity then s.wakeups + 1 else s.wakeups
  split_ifs <;> omega

/-- The loop goes on to a place where it neither reads nor takes the list, with no message less. -/
theorem Woken.move (hI : Woken s) (hswap : s.loop ≠ .swapping) (hpending : s'.pendingTasks = s.pendingTasks)
    (hsubmitted : s'.submitted = s.submitted) (hborn : s'.born = s.born) (hclient : s'.client = s.client)
    (hwakeups : s'.wakeups = s.wakeups) (hreading : s'.loop = .reading → 0 < s'.wakeups) : Woken s' := by
  refine ⟨?_, fun hne hlt => ?_, hreading⟩
  · rw [hborn, hsubmitted]
    exact hI.born_le
  · rw [hpending] at hne
    rw [hborn, hsubmitted] at hlt
    rw [hwakeups, hclient]
    rcases hI.woken hne hlt with h | h | h
    · exact .inl h
    · exact .inr (.inl h)
    · exact absurd h hswap

theorem Woken.takes (hcap : 0 < capacity) (hI : Woken s) (h : Takes capacity s a s') : Woken s' := by
  cases h with
  | start _ hloop =>
    refine hI.move ?_ rfl rfl rfl rfl rfl (by simp)
    rcases hloop with h | h <;> simp [h]
  | initialised => exact ⟨le_rfl, fun _ hlt => absurd hlt (lt_irrefl _), by simp⟩
  | failed hloop | dispatch hloop | leave hloop | stay hloop | run hloop | again hloop | join _ hloop =>
    exact hI.move (by simp [hloop]) rfl rfl rfl rfl rfl (by simp)
  | awake _ hloop hwake => exact hI.move (by simp [hloop]) rfl rfl rfl rfl rfl fun _ => hwake
  | other | read => exact ⟨hI.born_le, fun _ _ => .inr (.inr rfl), by simp⟩
  | swap => exact ⟨hI.born_le, fun hne => absurd rfl hne, by simp⟩
  | append i task =>
    refine ⟨?_, fun _ _ => .inr (.inl ⟨i, Function.update_self ..⟩), hI.reading⟩
    show s.born ≤ (s.submitted ++ [task]).length
    rw [List.length_append]
    exact hI.born_le.trans (Nat.le_add_right _ _)
  | wakeup i =>
    exact ⟨hI.born_le, fun _ _ => .inl (wakeups_wake_pos hcap s), fun _ => wakeups_wake_pos hcap s⟩
  | stopWakeup =>
    exact ⟨hI.born_le, fun _ _ => .inl (wakeups_wake_pos hcap s), fun _ => wakeups_wake_pos hcap s⟩
  | started | runDirect | notRunning | stopLoad | stopStore => exact ⟨hI.born_le, hI.woken, hI.reading⟩

/-! ### The flag -/

/-- In the `while` of `Dispatch`. -/
def InDispatch : LoopPc τ → Prop
  | .checking | .polling | .reading | .swapping | .running _ => True
  | _ => False

/-- The flag is unset only in the loop, and `Stop` sets it there; then its message reaches the loop. -/
structure Flagged (s : EventLoop τ) : Prop where
  flag : s.stoped = false → InDispatch s.loop
  alive : s.owner ≠ .idle → s.owner ≠ .starting → InDispatch s.loop ∨ s.loop = .exited
  stopped : InDispatch s.loop → s.stoped = true → s.owner = .waking ∨ s.owner = .joining
  stores : s.owner = .waking ∨ s.owner = .joining → s.stoped = true
  woken : s.owner = .joining → s.loop = .polling → 0 < s.wakeups

/-- The loop stays in its `while` and does not begin to wait. -/
theorem Flagged.move (hI : Flagged s) (hloop : InDispatch s.loop) (hstoped : s'.stoped = s.stoped)
    (howner : s'.owner = s.owner) (hloop' : InDispatch s'.loop) (hwait : s'.loop ≠ .polling) :
    Flagged s' := by
  refine ⟨fun _ => hloop', fun _ _ => .inl hloop', fun _ h => ?_, fun h => ?_, fun _ h => absurd h hwait⟩
  · rw [howner]
    exact hI.stopped hloop (hstoped ▸ h)
  · rw [hstoped]
    exact hI.stores (howner ▸ h)

theorem Flagged.takes (hcap : 0 < capacity) (hI : Flagged s) (h : Takes capacity s a s') :
    Flagged s' := by
  cases h with
  | start _ hloop =>
    have hnot : ¬ InDispatch s.loop := by rcases hloop with h | h <;> rw [h] <;> exact id
    exact ⟨fun h => absurd (hI.flag h) hnot, fun _ h => absurd rfl h, fun h => h.elim, by simp, by simp⟩
  | initialised hloop | failed hloop =>
    have hnot : ¬ InDispatch s.loop := by rw [hloop]; exact id
    refine ⟨fun h => absurd (hI.flag h) hnot, fun h1 h2 => ?_, fun h => h.elim, hI.stores, by simp⟩
    rcases hI.alive h1 h2 with h | h
    · exact absurd h hnot
    · rw [hloop] at h
      exact absurd h (by simp)
  | started =>
    exact ⟨hI.flag, fun h => absurd rfl h, fun h1 h2 => absurd (hI.stopped h1 h2) (by simp_all), by simp,
      by simp⟩
  | dispatch hloop =>
    refine ⟨fun _ => trivial, fun _ _ => .inl trivial, by simp, fun h => ?_, by simp⟩
    have hnot := hI.alive (by rcases h with h | h <;> simp_all) (by rcases h with h | h <;> simp_all)
    rw [hloop] at hnot
    exact hnot.elim False.elim (by simp)
  | leave _ hstoped => exact ⟨by simp [hstoped], fun _ _ => .inr rfl, fun h => h.elim, hI.stores, by simp⟩
  | stay _ hstoped =>
    refine ⟨fun _ => trivial, fun _ _ => .inl trivial, by simp [hstoped], hI.stores, fun h => ?_⟩
    have hset := hI.stores (.inr h)
    rw [hstoped] at hset
    exact absurd hset (by simp)
  | awake _ hloop | other hloop | read hloop | swap hloop | run hloop | again hloop =>
    exact hI.move (by rw [hloop]; trivial) rfl rfl trivial (by simp)
  | runDirect | append | notRunning => exact ⟨hI.flag, hI.alive, hI.stopped, hI.stores, hI.woken⟩
  | wakeup => exact ⟨hI.flag, hI.alive, hI.stopped, hI.stores, fun _ _ => wakeups_wake_pos hcap s⟩
  | stopLoad howner hstoped =>
    exact ⟨hI.flag, fun _ _ => .inl (hI.flag hstoped), by simp [hstoped], by simp, by simp⟩
  | stopStore howner =>
    exact ⟨by simp, fun _ _ => hI.alive (by simp [howner]) (by simp [howner]), fun _ _ => .inl rfl,
      fun _ => rfl, by simp⟩
  | stopWakeup howner =>
    exact ⟨hI.flag, fun _ _ => hI.alive (by simp [howner]) (by simp [howner]), fun _ _ => .inr rfl,
      fun _ => hI.stores (.inl howner), fun _ _ => wakeups_wake_pos hcap s⟩
  | join howner =>
    have hset := hI.stores (.inr howner)
    exact ⟨by simp [hset], by simp, fun h => h.elim, by simp, by simp⟩

/-- **The invariant.** -/
structure Inv (s : EventLoop τ) : Prop where
  fifo : Fifo s
  woken : Woken s
  flagged : Flagged s

theorem inv_new : Inv (new : EventLoop τ) := by
  refine ⟨rfl, ⟨le_rfl, ?_, ?_⟩, ⟨?_, ?_, ?_, ?_, ?_⟩⟩ <;> simp [new, InDispatch]

theorem Inv.step (hcap : 0 < capacity) (hI : Inv s) (h : s.step capacity a = some s') : Inv s' :=
  ⟨hI.fifo.takes (takes_of_step h), hI.woken.takes hcap (takes_of_step h),
    hI.flagged.takes hcap (takes_of_step h)⟩

theorem Inv.run (hcap : 0 < capacity) {tr : List (LoopAction τ)} (hI : Inv s)
    (hr : Steps capacity s tr s') : Inv s' :=
  hr.hist (I := fun _ s => Inv s) hI fun _ _ _ _ _ hI hs => hI.step hcap hs

/-! ### Every task is run -/

/-- The steps of the loop thread in `Dispatch`. -/
def isLoopStep : LoopAction τ → Bool
  | .dispatch | .check | .poll _ | .read | .swap | .run | .again => true
  | _ => false

/-- The loop thread is in `Dispatch` or about to be, and nobody has stopped it. -/
def Serving (s : EventLoop τ) : Prop :=
  s.loop = .dispatching ∨ InDispatch s.loop ∧ s.stoped = false

/-- How many steps of the loop thread away are the first `n` tasks from being run. -/
def rank (n : ℕ) (s : EventLoop τ) : ℕ :=
  let need := n - s.ran.length
  if need = 0 then 0
  else match s.loop with
    | .running functors => if need ≤ functors.length then need else need + 5
    | .dispatching => need + 5
    | .checking => need + 4
    | .polling => need + 3
    | .reading => need + 2
    | .swapping => need + 1
    | _ => need + 6

theorem rank_le (n : ℕ) (hs : Serving s) : rank n s ≤ n - s.ran.length + 5 := by
  unfold rank
  dsimp only
  split_ifs with hneed
  · omega
  · rcases hs with hloop | ⟨hloop, -⟩
    · simp [hloop]
    · cases hpc : s.loop with
      | running functors =>
        dsimp only
        split_ifs <;> omega
      | checking | polling | reading | swapping => simp
      | absent | init | dispatching | exited | joined =>
        exact absurd hloop (by rw [hpc]; exact id)

/-- Only the place of the loop thread and the tasks it has run matter. -/
theorem rank_congr {n : ℕ} (hloop : s'.loop = s.loop) (hran : s'.ran = s.ran) : rank n s' = rank n s := by
  unfold rank
  rw [hloop, hran]

/-- As long as nobody stops the loop, its steps bring the first `n` tasks nearer, and no other step takes
them further away. -/
theorem rank_takes {n : ℕ} (hI : Inv s) (hn : n ≤ s.submitted.length) (hs : Serving s)
    (ha : a ≠ .stopStore) (h : Takes capacity s a s') :
    Serving s' ∧ rank n s' ≤ rank n s ∧ (isLoopStep a = true → rank n s ≠ 0 → rank n s' < rank n s) := by
  have hlength : s.ran.length + s.loop.functors.length + s.pendingTasks.length = s.submitted.length := by
    rw [← hI.fifo]
    simp [Nat.add_assoc]
  have hsame : ∀ {s' : EventLoop τ}, s'.loop = s.loop → s'.ran = s.ran → isLoopStep a = false →
      rank n s' ≤ rank n s ∧ (isLoopStep a = true → rank n s ≠ 0 → rank n s' < rank n s) := by
    intro s' hloop hran hkind
    refine ⟨(rank_congr hloop hran).le, fun h => ?_⟩
    rw [hkind] at h
    exact absurd h (by simp)
  have hin : s.loop ≠ .dispatching → s.stoped = false := fun hne =>
    (hs.resolve_left hne).2
  cases h with
  | start _ hloop =>
    rcases hs with h | ⟨h, -⟩ <;> rcases hloop with h' | h' <;> rw [h'] at h
    · exact absurd h (by simp)
    · exact absurd h (by simp)
    · exact h.elim
    · exact h.elim
  | initialised hloop | failed hloop | join _ hloop =>
    rcases hs with h | ⟨h, -⟩ <;> rw [hloop] at h
    · exact absurd h (by simp)
    · exact h.elim
  | dispatch hloop =>
    refine ⟨.inr ⟨trivial, rfl⟩, ?_⟩
    simp only [rank, hloop]
    split_ifs <;> omega
  | leave hloop hstoped =>
    have hunset := hin (by simp [hloop])
    rw [hstoped] at hunset
    exact absurd hunset (by simp)
  | stay hloop hstoped =>
    refine ⟨.inr ⟨trivial, hstoped⟩, ?_⟩
    simp only [rank, hloop]
    split_ifs <;> omega
  | awake _ hloop | other hloop | read hloop =>
    refine ⟨.inr ⟨trivial, hin (by simp [hloop])⟩, ?_⟩
    simp only [rank, hloop]
    split_ifs <;> omega
  | swap hloop =>
    -- all tasks handed over are among those taken now
    refine ⟨.inr ⟨trivial, hin (by simp [hloop])⟩, ?_⟩
    have hfunctors : s.loop.functors = [] := by
      rw [hloop]
      rfl
    rw [hfunctors, List.length_nil] at hlength
    simp only [rank, hloop]
    split_ifs <;> omega
  | run hloop =>
    refine ⟨.inr ⟨trivial, hin (by simp [hloop])⟩, ?_⟩
    simp only [rank, hloop, List.length_append, List.length_cons, List.length_nil]
    split_ifs <;> omega
  | again hloop =>
    refine ⟨.inr ⟨trivial, hin (by simp [hloop])⟩, ?_⟩
    simp only [rank, hloop, List.length_nil]
    split_ifs <;> omega
  | started | runDirect | append | wakeup | stopWakeup => exact ⟨hs, hsame rfl rfl rfl⟩
  | notRunning => exact ⟨hs, hsame rfl rfl rfl⟩
  | stopLoad => exact ⟨hs, hsame rfl rfl rfl⟩
  | stopStore => exact absurd rfl ha

/-- What has been handed over stays so. -/
theorem submitted_takes (h : Takes capacity s a s') : s.submitted <+: s'.submitted := by
  cases h with
  | append => exact List.prefix_append _ _
  | _ => exact List.prefix_rfl

/-- **Every task is run, once and in order.**  In every interleaving the tasks handed over from other
threads have been run, are taken, or wait in the list, in the order in which they were handed over.  As
long as nobody stops a loop that is in `Dispatch` or about to be, it has run all that had been handed
over after five steps of its own more than there were tasks left. -/
theorem tasks_served {capacity : ℕ} (hcap : 0 < capacity) {s : EventLoop τ} {tr : List (LoopAction τ)}
    (hr : Steps capacity new tr s) :
    s.ran ++ s.loop.functors ++ s.pendingTasks = s.submitted ∧
      ∀ tr' s', Serving s → Steps capacity s tr' s' → (∀ a ∈ tr', a ≠ .stopStore) →
        s.loop.functors.length + s.pendingTasks.length + 5 ≤ tr'.countP isLoopStep →
          s.submitted <+: s'.ran := by
  have hI := inv_new.run hcap hr
  refine ⟨hI.fifo, fun tr' s' hs hr' hstop hmany => ?_⟩
  have hlength : s.ran.length + s.loop.functors.length + s.pendingTasks.length = s.submitted.length := by
    rw [← hI.fifo]
    simp [Nat.add_assoc]
  have hrank := rank_le s.submitted.length hs
  have hcount := hr'.countdown (I := fun u => Inv u ∧ Serving u ∧ s.submitted <+: u.submitted)
    (r := rank s.submitted.length) (p := isLoopStep) ⟨hI, hs, List.prefix_rfl⟩
    (fun u a u' ⟨hu, hserving, hbegins⟩ ha h => by
      have hspec := rank_takes hu hbegins.length_le hserving ha (takes_of_step h)
      exact ⟨⟨hu.step hcap h, hspec.1, hbegins.trans (submitted_takes (takes_of_step h))⟩, hspec.2⟩)
    hstop
  obtain ⟨⟨hI', -, hbegins⟩, hend⟩ := hcount
  have hzero : rank s.submitted.length s' = 0 := by omega
  have hle : s.submitted.length ≤ s'.ran.length := by
    by_contra hlt
    have hneed : s.submitted.length - s'.ran.length ≠ 0 := by omega
    unfold rank at hzero
    dsimp only at hzero
    rw [if_neg hneed] at hzero
    split at hzero
    · split_ifs at hzero
      omega
    all_goals omega
  have hran : s'.ran <+: s'.submitted := by
    rw [← hI'.fifo, List.append_assoc]
    exact List.prefix_append _ _
  exact List.prefix_of_prefix_length_le hbegins hran hle

/-- One task is handed over and run. -/
theorem tasks_served_one :
    ∃ s s' : EventLoop String,
      Steps 1 new [.start, .init true, .started, .dispatch, .append 0 "task", .wakeup 0] s ∧
      Steps 1 s [.check, .poll false, .read, .swap, .run, .again] s' ∧ s.submitted <+: s'.ran ∧
      s'.ran = ["task"] := by
  have hfirst : (([.start, .init true, .started, .dispatch, .append 0 "task", .wakeup 0] :
      List (LoopAction String)).foldlM (step 1) new).map (fun s => (s.loop, s.stoped, s.pendingTasks,
        (([.check, .poll false, .read, .swap, .run, .again] : List (LoopAction String)).foldlM
          (step 1) s).map fun s' => s'.ran)) =
      some (.checking, false, ["task"], some ["task"]) := by decide
  obtain ⟨s, hs, hend⟩ := Option.map_eq_some_iff.mp hfirst
  simp only [Prod.mk.injEq] at hend
  obtain ⟨hloop, hstoped, hpending, hsecond⟩ := hend
  obtain ⟨s', hs', hran⟩ := Option.map_eq_some_iff.mp hsecond
  have hr := run_of_foldlM hs
  have hr' := run_of_foldlM hs'
  obtain ⟨-, hserved⟩ := tasks_served Nat.one_pos hr
  have hserving : Serving s := .inr ⟨by rw [hloop]; trivial, hstoped⟩
  exact ⟨s, s', hr, hr', hserved _ _ hserving hr' (by decide) (by rw [hloop, hpending]; decide), hran⟩

/-- **No message is lost.**  In every interleaving: when the loop waits and its socket is empty, and no
thread is about to write to it, then no task waits that was handed over since the socket was made; in
every other state of a loop that nobody has stopped its next step can be taken. -/
theorem no_lost_wakeup {capacity : ℕ} (hcap : 0 < capacity) {s : EventLoop τ} {tr : List (LoopAction τ)}
    (hr : Steps capacity new tr s) (hs : Serving s) :
    (∃ a s', isLoopStep a = true ∧ a ≠ .poll true ∧ s.step capacity a = some s') ∨
      s.loop = .polling ∧ s.wakeups = 0 ∧
        ((∃ i, s.client i = .waking) ∨ s.pendingTasks = [] ∨ s.submitted.length = s.born) := by
  have hI := inv_new.run hcap hr
  cases hloop : s.loop with
  | dispatching => exact .inl ⟨.dispatch, _, rfl, by simp, by simp only [step, hloop]; rfl⟩
  | checking => exact .inl ⟨.check, _, rfl, by simp, by simp only [step, hloop]; rfl⟩
  | reading => exact .inl ⟨.read, _, rfl, by simp, by simp only [step, hloop]; rfl⟩
  | swapping => exact .inl ⟨.swap, _, rfl, by simp, by simp only [step, hloop]; rfl⟩
  | running functors =>
    cases functors with
    | nil => exact .inl ⟨.again, _, rfl, by simp, by simp only [step, hloop]; rfl⟩
    | cons task functors => exact .inl ⟨.run, _, rfl, by simp, by simp only [step, hloop]; rfl⟩
  | polling =>
    by_cases hwake : 0 < s.wakeups
    · exact .inl ⟨.poll false, _, rfl, by simp, by simp only [step, hloop, if_pos hwake]; rfl⟩
    · refine .inr ⟨rfl, by omega, ?_⟩
      by_cases hpending : s.pendingTasks = []
      · exact .inr (.inl hpending)
      · have hborn := hI.woken.born_le
        by_cases hnew : s.born < s.submitted.length
        · rcases hI.woken.woken hpending hnew with h | h | h
          · exact absurd h hwake
          · exact .inl h
          · rw [hloop] at h
            exact absurd h (by simp)
        · exact .inr (.inr (by omega))
  | absent | init | exited | joined =>
    rcases hs with h | ⟨h, -⟩ <;> rw [hloop] at h
    · exact absurd h (by simp)
    · exact h.elim

theorem no_lost_wakeup_polling :
    ∃ s : EventLoop String, Steps 1 new [.start, .init true, .started, .dispatch, .append 0 "task", .check] s ∧
      s.pendingTasks = ["task"] ∧ s.wakeups = 0 ∧ ∃ i, s.client i = .waking := by
  have hrun : (([.start, .init true, .started, .dispatch, .append 0 "task", .check] :
      List (LoopAction String)).foldlM (step 1) new).map (fun s => (s.loop, s.stoped, s.pendingTasks,
        s.wakeups, s.submitted, s.born)) = some (.polling, false, ["task"], 0, ["task"], 0) := by decide
  obtain ⟨s, hs, hend⟩ := Option.map_eq_some_iff.mp hrun
  simp only [Prod.mk.injEq] at hend
  obtain ⟨hloop, hstoped, hpending, hwakeups, hsubmitted, hborn⟩ := hend
  have hr := run_of_foldlM hs
  refine ⟨s, hr, hpending, hwakeups, ?_⟩
  rcases no_lost_wakeup Nat.one_pos hr (.inr ⟨by rw [hloop]; trivial, hstoped⟩) with
    ⟨a, s', hkind, hpoll, hstep⟩ | ⟨-, -, h | h | h⟩
  · cases takes_of_step hstep <;> simp_all [isLoopStep]
  · exact h
  · rw [hpending] at h
    exact absurd h (by simp)
  · rw [hsubmitted, hborn] at h
    exact absurd h (by simp)

/-- A task handed over after `Stop` waits in the loop of the next `Start`, which has a new socket. -/
example : (([.start, .init true, .started, .dispatch, .stopLoad, .stopStore, .stopWakeup, .check, .join,
    .append 0 "task", .wakeup 0, .start, .init true, .started, .dispatch, .check] :
      List (LoopAction String)).foldlM (step 1) new).map (fun s => (s.loop, s.wakeups, s.pendingTasks)) =
    some (.polling, 0, ["task"]) := by decide

/-! ### `Stop` -/

/-- The steps of the loop thread but those that run a task. -/
def isTurn : LoopAction τ → Bool
  | .dispatch | .check | .poll _ | .read | .swap | .again => true
  | _ => false

/-- How many turns the loop takes until it leaves, once the flag is set. -/
def turnsLeft : LoopPc τ → ℕ
  | .polling => 5
  | .reading => 4
  | .swapping => 3
  | .running _ => 2
  | .checking => 1
  | _ => 0

/-- `Stop` has set the flag. -/
def Stopping (s : EventLoop τ) : Prop := s.owner = .waking ∨ s.owner = .joining

theorem turnsLeft_takes (hI : Inv s) (hs : Stopping s) (ha : a ≠ .join) (h : Takes capacity s a s') :
    Stopping s' ∧ turnsLeft s'.loop ≤ turnsLeft s.loop ∧
      (isTurn a = true → turnsLeft s.loop ≠ 0 → turnsLeft s'.loop < turnsLeft s.loop) := by
  have halive : InDispatch s.loop ∨ s.loop = .exited :=
    hI.flagged.alive (by rcases hs with h | h <;> simp [h]) (by rcases hs with h | h <;> simp [h])
  have hset := hI.flagged.stores hs
  cases h with
  | start howner | stopLoad howner | notRunning howner =>
    rcases hs with h | h <;> rw [howner] at h <;> exact absurd h (by simp)
  | started howner | stopStore howner =>
    rcases hs with h | h <;> rw [howner] at h <;> exact absurd h (by simp)
  | initialised hloop | failed hloop | dispatch hloop =>
    rw [hloop] at halive
    exact halive.elim False.elim (by simp)
  | stay _ hstoped =>
    rw [hset] at hstoped
    exact absurd hstoped (by simp)
  | leave hloop | awake _ hloop | other hloop | read hloop | swap hloop | again hloop =>
    exact ⟨hs, by simp [hloop, turnsLeft], by simp [hloop, turnsLeft]⟩
  | run hloop => exact ⟨hs, by simp [hloop, turnsLeft], by simp [isTurn]⟩
  | runDirect | append | wakeup => exact ⟨hs, le_rfl, by simp [isTurn]⟩
  | stopWakeup => exact ⟨.inr rfl, le_rfl, by simp [isTurn]⟩
  | join => exact absurd rfl ha

/-- **`Stop` returns.**  Once it has set the flag, the loop thread leaves its loop within five turns
besides the tasks that it runs; and until it has left, `Stop` or the loop thread itself can take its
next step. -/
theorem stop_returns {capacity : ℕ} (hcap : 0 < capacity) {s s' : EventLoop τ}
    {tr tr' : List (LoopAction τ)} (hr : Steps capacity new tr s) (hs : Stopping s)
    (hr' : Steps capacity s tr' s') (hjoin : ∀ a ∈ tr', a ≠ .join) :
    (5 ≤ tr'.countP isTurn → s'.loop = .exited) ∧
      ∃ a s'', (a = .stopWakeup ∨ a = .join ∨ isLoopStep a = true ∧ a ≠ .poll true) ∧
        s'.step capacity a = some s'' := by
  have hI := inv_new.run hcap hr
  have hcount := hr'.countdown (I := fun u => Inv u ∧ Stopping u) (r := fun u => turnsLeft u.loop)
    (p := isTurn) ⟨hI, hs⟩
    (fun u a u' ⟨hu, hstopping⟩ ha h => by
      have hspec := turnsLeft_takes hu hstopping ha (takes_of_step h)
      exact ⟨⟨hu.step hcap h, hspec.1⟩, hspec.2⟩)
    hjoin
  obtain ⟨⟨hI', hs'⟩, hend⟩ := hcount
  have hfive : turnsLeft s.loop ≤ 5 := by cases s.loop <;> simp [turnsLeft]
  have halive : InDispatch s'.loop ∨ s'.loop = .exited :=
    hI'.flagged.alive (by rcases hs' with h | h <;> simp [h]) (by rcases hs' with h | h <;> simp [h])
  constructor
  · intro hmany
    refine halive.resolve_left fun hin => ?_
    have hpos : turnsLeft s'.loop ≠ 0 := by
      cases hpc : s'.loop with
      | checking | polling | reading | swapping | running => simp [turnsLeft]
      | absent | init | dispatching | exited | joined =>
        exact absurd hin (by rw [hpc]; exact id)
    omega
  · rcases hs' with howner | howner
    · exact ⟨.stopWakeup, _, .inl rfl, by simp only [step, if_pos howner]; rfl⟩
    · cases hloop : s'.loop with
      | exited => exact ⟨.join, _, .inr (.inl rfl), by simp only [step, howner, hloop]; rfl⟩
      | checking => exact ⟨.check, _, .inr (.inr ⟨rfl, by simp⟩), by simp only [step, hloop]; rfl⟩
      | reading => exact ⟨.read, _, .inr (.inr ⟨rfl, by simp⟩), by simp only [step, hloop]; rfl⟩
      | swapping => exact ⟨.swap, _, .inr (.inr ⟨rfl, by simp⟩), by simp only [step, hloop]; rfl⟩
      | running functors =>
        cases functors with
        | nil => exact ⟨.again, _, .inr (.inr ⟨rfl, by simp⟩), by simp only [step, hloop]; rfl⟩
        | cons task functors => exact ⟨.run, _, .inr (.inr ⟨rfl, by simp⟩), by simp only [step, hloop]; rfl⟩
      | polling =>
        have hwake := hI'.flagged.woken howner hloop
        exact ⟨.poll false, _, .inr (.inr ⟨rfl, by simp⟩), by
          simp only [step, hloop, if_pos hwake]; rfl⟩
      | absent | init | dispatching | joined =>
        rw [hloop] at halive
        exact halive.elim False.elim (by simp)

/-- `Stop` finds the loop waiting. -/
theorem stop_returns_polling :
    ∃ s s' : EventLoop String,
      Steps 1 new [.start, .init true, .started, .dispatch, .check, .stopLoad, .stopStore] s ∧
      Steps 1 s [.stopWakeup, .poll false, .read, .swap, .again, .check] s' ∧ s'.loop = .exited := by
  have hfirst : (([.start, .init true, .started, .dispatch, .check, .stopLoad, .stopStore] :
      List (LoopAction String)).foldlM (step 1) new).map (fun s => (s.owner,
        (([.stopWakeup, .poll false, .read, .swap, .again, .check] : List (LoopAction String)).foldlM
          (step 1) s).map fun s' => s'.owner)) = some (.waking, some .joining) := by decide
  obtain ⟨s, hs, hend⟩ := Option.map_eq_some_iff.mp hfirst
  simp only [Prod.mk.injEq] at hend
  obtain ⟨howner, hsecond⟩ := hend
  obtain ⟨s', hs', -⟩ := Option.map_eq_some_iff.mp hsecond
  have hr := run_of_foldlM hs
  have hr' := run_of_foldlM hs'
  obtain ⟨hexit, -⟩ := stop_returns Nat.one_pos hr (.inl howner) hr' (by decide)
  exact ⟨s, s', hr, hr', hexit (by decide)⟩

/-- `Stop` right after `Start` may find the flag still set and returns; the loop goes on. -/
example : (([.start, .init true, .started, .stopLoad, .dispatch, .check] :
      List (LoopAction String)).foldlM (step 1) new).map (fun s => (s.loop, s.owner)) =
    some (.polling, .idle) := by decide

end EventLoop

end SentinelCpp.Transport
