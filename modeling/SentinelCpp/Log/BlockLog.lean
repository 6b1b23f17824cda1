import SentinelCpp.Lib.Assoc
import SentinelCpp.Lib.Run
import SentinelCpp.Lib.Text

/-!
# The block log

`BlockLogTask` logs blocked requests once a second.  Any number of threads call `Log`, which stamps the
record of the key under a reader lock when there is one, and otherwise adds a record under the writer
lock; a thread of its own writes, with the writer lock, a line for each record with a block since its
last write, and clears the map.

* `BlockLog`, `BlockLog.step`: the map, the lock, the lines and where each thread stands; a step for each
  access to what they share.
* `Inv`: what every interleaving keeps; nobody else holds the lock while the map changes its keys.
* `Covered`: the key waits for the current round or the next one, or its line has been written.
* `Due`: a line belongs to a `Log` that took effect after the line before it for the same key.
-/

namespace SentinelCpp.Log

open Lib

structure BlockLogRecord where
  lastWrite : ℤ
  lastBlock : ℤ
  deriving DecidableEq

/-- What a round hands to the logger: the time and the key. -/
structure BlockLine where
  time : ℤ
  key : Text
  deriving DecidableEq

/-- Where a thread that calls `Log` stands. -/
inductive LogPc
  | idle
  /-- Before the reader lock. -/
  | called (key : Text)
  /-- With the reader lock, before `find`. -/
  | reading (key : Text)
  /-- With the reader lock and the record, before the clock. -/
  | found (key : Text)
  /-- With the reader lock and a time for the record. -/
  | stamping (key : Text) (now : ℤ)
  /-- The key was not there: before the writer lock. -/
  | missed (key : Text)
  /-- With the writer lock, before `emplace`. -/
  | emplacing (key : Text)
  deriving DecidableEq

/-- Where the thread that writes the lines stands. -/
inductive RoundPc
  /-- There is none, or the last one has been joined. -/
  | absent
  /-- Before `started()`. -/
  | checking
  /-- Before the writer lock. -/
  | locking
  /-- With the writer lock and these keys to visit. -/
  | visiting (keys : List Text)
  | sleeping
  /-- The thread function has returned. -/
  | exited
  deriving DecidableEq

/-- Who holds the writer lock. -/
inductive WriterLock
  | free
  | round
  | client (i : ℕ)
  deriving DecidableEq

/-- `BlockLogTask` with its threads and the lines of the log; `logger` says whether `logger_` was made. -/
structure BlockLog where
  logger : Bool
  started : Bool
  stopping : Bool
  round : RoundPc
  client : ℕ → LogPc
  readers : List ℕ
  writer : WriterLock
  map : Assoc Text BlockLogRecord
  lines : List BlockLine

inductive BlockLogAction
  /-- `Start`. -/
  | start
  /-- `Stop` clears the flag. -/
  | stop
  /-- `join` returns. -/
  | join
  /-- The loop reads the flag. -/
  | check
  /-- The round takes the writer lock; the map will be visited in this order. -/
  | lock (order : List Text)
  /-- The next record of the map is visited. -/
  | visit (now : ℤ)
  /-- `map_.clear()`, and the lock is given back. -/
  | clear
  /-- The loop wakes up. -/
  | wake
  /-- Thread `i` calls `Log`. -/
  | log (i : ℕ) (resource cause : Text)
  /-- It takes the reader lock. -/
  | read (i : ℕ)
  /-- It looks for the key. -/
  | find (i : ℕ)
  /-- It reads the clock. -/
  | stamp (i : ℕ) (now : ℤ)
  /-- It stores the time, gives the lock back and returns. -/
  | store (i : ℕ)
  /-- It takes the writer lock. -/
  | write (i : ℕ)
  /-- It adds the record, unless there is one by now, gives the lock back and returns. -/
  | emplace (i : ℕ) (now : ℤ)
  deriving DecidableEq

namespace BlockLog

/-- A `BlockLogTask` just constructed. -/
def new (logger : Bool) : BlockLog where
  logger := logger
  started := false
  stopping := false
  round := .absent
  client := fun _ => .idle
  readers := []
  writer := .free
  map := []
  lines := []

/-- The key of a blocked request. -/
def logKey (resource cause : Text) : Text := resource ++ '|' :: cause

variable (s : BlockLog)

/-- Thread `i` goes on. -/
def at' (i : ℕ) (pc : LogPc) : BlockLog := { s with client := Function.update s.client i pc }

@[simp] theorem at'_lines (i : ℕ) (pc : LogPc) : (s.at' i pc).lines = s.lines := rfl

/-- The visit of a record: a line if it has a block since its last write. -/
def visitRecord (key : Text) (r : BlockLogRecord) (now : ℤ) : BlockLog :=
  if 0 < r.lastBlock - r.lastWrite then
    { s with
      lines := s.lines ++ [⟨now, key⟩]
      map := s.map.modify key fun r => { r with lastWrite := now } }
  else s

def step : BlockLogAction → Option BlockLog
  | .start =>
    if s.stopping = true then none
    else if s.logger = false ∨ s.started = true then some s
    else if s.round = .absent then some { s with started := true, round := .checking }
    else none
  | .stop =>
    if s.stopping = true ∨ s.round = .absent then none
    else some { s with started := false, stopping := true }
  | .join =>
    if s.stopping = true ∧ s.round = .exited then some { s with stopping := false, round := .absent }
    else none
  | .check =>
    if s.round = .checking then some { s with round := if s.started = true then .locking else .exited }
    else none
  | .lock order =>
    if s.round = .locking ∧ s.readers = [] ∧ s.writer = .free ∧ order.Perm (s.map.map Prod.fst) then
      some { s with round := .visiting order, writer := .round }
    else none
  | .visit now =>
    match s.round with
    | .visiting (key :: keys) =>
      (s.map.find? key).map fun r => { s.visitRecord key r now with round := .visiting keys }
    | _ => none
  | .clear =>
    if s.round = .visiting [] then some { s with map := [], round := .sleeping, writer := .free } else none
  | .wake => if s.round = .sleeping then some { s with round := .checking } else none
  | .log i resource cause =>
    if s.client i = .idle then
      some (if s.logger = false then s else s.at' i (.called (logKey resource cause)))
    else none
  | .read i =>
    match s.client i with
    | .called key =>
      if s.writer = .free then some { s.at' i (.reading key) with readers := i :: s.readers } else none
    | _ => none
  | .find i =>
    match s.client i with
    | .reading key =>
      some (if (s.map.find? key).isSome then s.at' i (.found key)
        else { s.at' i (.missed key) with readers := s.readers.erase i })
    | _ => none
  | .stamp i now =>
    match s.client i with
    | .found key => some (s.at' i (.stamping key now))
    | _ => none
  | .store i =>
    match s.client i with
    | .stamping key now =>
      some { s.at' i .idle with
        map := s.map.modify key fun r => { r with lastBlock := now }
        readers := s.readers.erase i }
    | _ => none
  | .write i =>
    match s.client i with
    | .missed key =>
      if s.readers = [] ∧ s.writer = .free then
        some { s.at' i (.emplacing key) with writer := .client i }
      else none
    | _ => none
  | .emplace i now =>
    match s.client i with
    | .emplacing key =>
      some { s.at' i .idle with map := s.map.insertNew key ⟨0, now⟩, writer := .free }
    | _ => none

/-- An interleaving of the threads. -/
abbrev Steps : BlockLog → List BlockLogAction → BlockLog → Prop := Run fun s a s' => s.step a = some s'

/-! ### What a step can do -/

end BlockLog

/-- The keys that the current round has still to visit. -/
def RoundPc.keys? : RoundPc → Option (List Text)
  | visiting keys => some keys
  | _ => none

/-- The clock is past the epoch. -/
def BlockLogAction.Dated : BlockLogAction → Prop
  | .stamp _ now | .emplace _ now => 0 < now
  | _ => True

/-- The time that the thread is about to store is past the epoch. -/
def LogPc.Dated : LogPc → Prop
  | stamping _ now => 0 < now
  | _ => True

/-- The key of the call, until it takes effect. -/
def LogPc.key? : LogPc → Option Text
  | idle => none
  | called key | reading key | found key | stamping key _ | missed key | emplacing key => some key

namespace BlockLog

/-- The steps, each with the state it is taken in and the state after it; `quiet` are those that change
neither the map nor the lock nor the lines. -/
inductive Takes (s : BlockLog) : BlockLogAction → BlockLog → Prop
  | quiet {a : BlockLogAction} (ha : a ≠ .clear) (started stopping : Bool) (round : RoundPc)
      (hround : round.keys? = s.round.keys?) :
    Takes s a { s with started := started, stopping := stopping, round := round }
  | lock (order : List Text) (hround : s.round = .locking) (hreaders : s.readers = [])
      (hwriter : s.writer = .free) (horder : order.Perm (s.map.map Prod.fst)) :
    Takes s (.lock order) { s with round := .visiting order, writer := .round }
  | visit (now : ℤ) {key : Text} {keys : List Text} {r : BlockLogRecord}
      (hround : s.round = .visiting (key :: keys)) (hr : s.map.find? key = some r) :
    Takes s (.visit now) { s.visitRecord key r now with round := .visiting keys }
  | clear (hround : s.round = .visiting []) :
    Takes s .clear { s with map := [], round := .sleeping, writer := .free }
  | log (i : ℕ) (resource cause : Text) (hi : s.client i = .idle) :
    Takes s (.log i resource cause) (s.at' i (.called (logKey resource cause)))
  | read (i : ℕ) {key : Text} (hi : s.client i = .called key) (hwriter : s.writer = .free) :
    Takes s (.read i) { s.at' i (.reading key) with readers := i :: s.readers }
  | found (i : ℕ) {key : Text} (hi : s.client i = .reading key) (hkey : (s.map.find? key).isSome) :
    Takes s (.find i) (s.at' i (.found key))
  | missed (i : ℕ) {key : Text} (hi : s.client i = .reading key) (hkey : s.map.find? key = none) :
    Takes s (.find i) { s.at' i (.missed key) with readers := s.readers.erase i }
  | stamp (i : ℕ) (now : ℤ) {key : Text} (hi : s.client i = .found key) :
    Takes s (.stamp i now) (s.at' i (.stamping key now))
  | store (i : ℕ) {key : Text} {now : ℤ} (hi : s.client i = .stamping key now) :
    Takes s (.store i) { s.at' i .idle with
      map := s.map.modify key fun r => { r with lastBlock := now }
      readers := s.readers.erase i }
  | write (i : ℕ) {key : Text} (hi : s.client i = .missed key) (hreaders : s.readers = [])
      (hwriter : s.writer = .free) :
    Takes s (.write i) { s.at' i (.emplacing key) with writer := .client i }
  | emplace (i : ℕ) (now : ℤ) {key : Text} (hi : s.client i = .emplacing key) :
    Takes s (.emplace i now) { s.at' i .idle with map := s.map.insertNew key ⟨0, now⟩, writer := .free }

variable {s s' : BlockLog} {a : BlockLogAction}

/-- **Inversion of a step.** -/
theorem takes_of_step (h : s.step a = some s') : Takes s a s' := by
  cases a with
  | start =>
    simp only [step] at h
    split_ifs at h with hstopping hstarted hround
    · obtain rfl := Option.some.inj h
      exact .quiet (by simp) s.started s.stopping s.round rfl
    · obtain rfl := Option.some.inj h
      exact .quiet (by simp) true s.stopping .checking (by rw [hround]; rfl)
  | stop =>
    simp only [step] at h
    split_ifs at h
    obtain rfl := Option.some.inj h
    exact .quiet (by simp) false true s.round rfl
  | join =>
    simp only [step] at h
    split_ifs at h with hround
    obtain rfl := Option.some.inj h
    exact .quiet (by simp) s.started false .absent (by rw [hround.2]; rfl)
  | check =>
    simp only [step] at h
    split_ifs at h with hround hstarted
    · obtain rfl := Option.some.inj h
      exact .quiet (by simp) s.started s.stopping .locking (by rw [hround]; rfl)
    · obtain rfl := Option.some.inj h
      exact .quiet (by simp) s.started s.stopping .exited (by rw [hround]; rfl)
  | lock order =>
    simp only [step] at h
    split_ifs at h with hlock
    obtain rfl := Option.some.inj h
    exact .lock order hlock.1 hlock.2.1 hlock.2.2.1 hlock.2.2.2
  | visit now =>
    simp only [step] at h
    split at h
    · obtain ⟨r, hr, rfl⟩ := Option.map_eq_some_iff.mp h
      exact .visit now ‹_› hr
    · exact absurd h (by simp)
  | clear =>
    simp only [step] at h
    split_ifs at h with hround
    obtain rfl := Option.some.inj h
    exact .clear hround
  | wake =>
    simp only [step] at h
    split_ifs at h with hround
    obtain rfl := Option.some.inj h
    exact .quiet (by simp) s.started s.stopping .checking (by rw [hround]; rfl)
  | log i resource cause =>
    simp only [step] at h
    split_ifs at h with hi hlogger
    · obtain rfl := Option.some.inj h
      exact .quiet (by simp) s.started s.stopping s.round rfl
    · obtain rfl := Option.some.inj h
      exact .log i resource cause hi
  | read i =>
    simp only [step] at h
    split at h
    · split_ifs at h with hwriter
      obtain rfl := Option.some.inj h
      exact .read i ‹_› hwriter
    · exact absurd h (by simp)
  | find i =>
    simp only [step] at h
    split at h
    · split_ifs at h with hkey
      · obtain rfl := Option.some.inj h
        exact .found i ‹_› hkey
      · obtain rfl := Option.some.inj h
        exact .missed i ‹_› (by simpa using hkey)
    · exact absurd h (by simp)
  | stamp i now =>
    simp only [step] at h
    split at h
    · obtain rfl := Option.some.inj h
      exact .stamp i now ‹_›
    · exact absurd h (by simp)
  | store i =>
    simp only [step] at h
    split at h
    · obtain rfl := Option.some.inj h
      exact .store i ‹_›
    · exact absurd h (by simp)
  | write i =>
    simp only [step] at h
    split at h
    · split_ifs at h with hlock
      obtain rfl := Option.some.inj h
      exact .write i ‹_› hlock.1 hlock.2
    · exact absurd h (by simp)
  | emplace i now =>
    simp only [step] at h
    split at h
    · obtain rfl := Option.some.inj h
      exact .emplace i now ‹_›
    · exact absurd h (by simp)

/-! ### The lock -/

/-- What holds of thread `i` while it stands at `pc`. -/
def ClientOk (s : BlockLog) (i : ℕ) : LogPc → Prop
  | .idle | .called _ | .missed _ => True
  | .reading _ => i ∈ s.readers
  | .found key | .stamping key _ => i ∈ s.readers ∧ (s.map.find? key).isSome
  | .emplacing _ => s.writer = .client i

/-- **The invariant**: the threads hold what they think they hold, readers and a writer exclude each
other, and a round visits every key of the map once. -/
structure Inv (s : BlockLog) : Prop where
  client : ∀ i, s.ClientOk i (s.client i)
  round : ∀ keys, s.round.keys? = some keys → s.writer = .round ∧ keys.Nodup
  exclusive : s.writer ≠ .free → s.readers = []
  nodup : (s.map.map Prod.fst).Nodup

/-- A thread keeps what it holds. -/
theorem ClientOk.mono {i : ℕ} {pc : LogPc} (h : s.ClientOk i pc) (hreaders : i ∈ s.readers → i ∈ s'.readers)
    (hmap : i ∈ s.readers → ∀ key, (s.map.find? key).isSome → (s'.map.find? key).isSome)
    (hwriter : s.writer = .client i → s'.writer = .client i) : s'.ClientOk i pc := by
  cases pc with
  | idle | called | missed => trivial
  | reading => exact hreaders h
  | found key | stamping key => exact ⟨hreaders h.1, hmap h.1 key h.2⟩
  | emplacing => exact hwriter h

@[simp] theorem isSome_modify {m : Assoc Text BlockLogRecord} (k key : Text)
    (f : BlockLogRecord → BlockLogRecord) :
    ((m.modify k f).find? key).isSome = (m.find? key).isSome := by
  rw [Assoc.find?_modify]
  split_ifs <;> simp

theorem isSome_insertNew {m : Assoc Text BlockLogRecord} {key : Text} (k : Text) (r : BlockLogRecord)
    (h : (m.find? key).isSome) : ((m.insertNew k r).find? key).isSome := by
  rw [Assoc.find?_insertNew]
  split_ifs
  · rfl
  · exact h

section Visit

variable (key : Text) (r : BlockLogRecord) (now : ℤ)

@[simp] theorem visitRecord_client : (s.visitRecord key r now).client = s.client := by
  unfold visitRecord
  split_ifs <;> rfl

@[simp] theorem visitRecord_readers : (s.visitRecord key r now).readers = s.readers := by
  unfold visitRecord
  split_ifs <;> rfl

@[simp] theorem visitRecord_writer : (s.visitRecord key r now).writer = s.writer := by
  unfold visitRecord
  split_ifs <;> rfl

@[simp] theorem visitRecord_keys : (s.visitRecord key r now).map.map Prod.fst = s.map.map Prod.fst := by
  unfold visitRecord
  split_ifs
  · exact Assoc.keys_modify s.map key fun r => { r with lastWrite := now }
  · rfl

@[simp] theorem visitRecord_isSome (k : Text) :
    ((s.visitRecord key r now).map.find? k).isSome = (s.map.find? k).isSome := by
  unfold visitRecord
  split_ifs
  · exact isSome_modify key k fun r => { r with lastWrite := now }
  · rfl

end Visit

namespace Inv

theorem start (logger : Bool) : (new logger).Inv :=
  ⟨fun _ => trivial, fun _ h => absurd h (by simp [new, RoundPc.keys?]), fun h => absurd rfl h,
    List.nodup_nil⟩

/-- While a thread reads or writes the map, no round is under way. -/
theorem keys?_eq_none (h : s.Inv) {i : ℕ} (hi : i ∈ s.readers ∨ s.writer = .client i) :
    s.round.keys? = none := by
  by_contra hsome
  obtain ⟨keys, hkeys⟩ := Option.ne_none_iff_exists'.mp hsome
  have hwriter := (h.round keys hkeys).1
  rcases hi with hi | hi
  · rw [h.exclusive (by simp [hwriter])] at hi
    exact absurd hi List.not_mem_nil
  · rw [hwriter] at hi
    cases hi

theorem takes (h : s.Inv) (hs : Takes s a s') : s'.Inv := by
  cases hs with
  | quiet _ _ _ round hround =>
    exact ⟨fun i => (h.client i).mono id (fun _ _ => id) id, fun keys hkeys => h.round keys (hround ▸ hkeys),
      h.exclusive, h.nodup⟩
  | lock order hround hreaders hwriter horder =>
    refine ⟨fun i => (h.client i).mono id (fun _ _ => id) fun hi => ?_, fun keys hkeys => ?_,
      fun _ => hreaders, h.nodup⟩
    · rw [hwriter] at hi
      cases hi
    · obtain rfl : order = keys := Option.some.inj hkeys
      exact ⟨rfl, horder.nodup_iff.mpr h.nodup⟩
  | visit now hround hr =>
    obtain ⟨hwriter, hnodup⟩ := h.round _ (by rw [hround]; rfl)
    refine ⟨fun i => ?_, fun keys hkeys => ?_, ?_, ?_⟩
    · show ClientOk _ i ((s.visitRecord _ _ now).client i)
      rw [visitRecord_client]
      exact (h.client i).mono (by simp) (by simp) (by simp)
    · obtain rfl := Option.some.inj hkeys
      exact ⟨by simpa using hwriter, hnodup.of_cons⟩
    · simpa using h.exclusive
    · simpa using h.nodup
  | clear hround =>
    obtain ⟨hwriter, -⟩ := h.round [] (by rw [hround]; rfl)
    have hreaders := h.exclusive (by simp [hwriter])
    refine ⟨fun i => (h.client i).mono id (fun hi => ?_) fun hi => ?_, fun keys hkeys => ?_,
      fun hfree => absurd rfl hfree, List.nodup_nil⟩
    · exact absurd (hreaders ▸ hi) List.not_mem_nil
    · rw [hwriter] at hi
      cases hi
    · exact absurd hkeys (by simp [RoundPc.keys?])
  | log i resource cause =>
    refine ⟨(Function.forall_update_iff _ _).mpr ⟨trivial, fun j _ => ?_⟩, h.round, h.exclusive, h.nodup⟩
    exact (h.client j).mono id (fun _ _ => id) id
  | read i hi hwriter =>
    refine ⟨(Function.forall_update_iff _ _).mpr ⟨List.mem_cons_self, fun j _ => ?_⟩, h.round,
      fun hfree => absurd hwriter hfree, h.nodup⟩
    exact (h.client j).mono (List.mem_cons_of_mem i) (fun _ _ => id) id
  | found i hi hkey =>
    have hread : i ∈ s.readers := by simpa [hi, ClientOk] using h.client i
    refine ⟨(Function.forall_update_iff _ _).mpr ⟨⟨hread, hkey⟩, fun j _ => ?_⟩, h.round, h.exclusive,
      h.nodup⟩
    exact (h.client j).mono id (fun _ _ => id) id
  | missed i hi =>
    have hread : i ∈ s.readers := by simpa [hi, ClientOk] using h.client i
    refine ⟨(Function.forall_update_iff _ _).mpr ⟨trivial, fun j hj => ?_⟩, h.round, fun hfree => ?_,
      h.nodup⟩
    · exact (h.client j).mono (fun hmem => (List.mem_erase_of_ne hj).mpr hmem) (fun _ _ => id) id
    · rw [h.exclusive hfree] at hread
      exact absurd hread List.not_mem_nil
  | stamp i now hi =>
    have hfound := h.client i
    rw [hi] at hfound
    refine ⟨(Function.forall_update_iff _ _).mpr ⟨hfound, fun j _ => ?_⟩, h.round, h.exclusive, h.nodup⟩
    exact (h.client j).mono id (fun _ _ => id) id
  | store i hi =>
    have hfound := h.client i
    rw [hi] at hfound
    refine ⟨(Function.forall_update_iff _ _).mpr ⟨trivial, fun j hj => ?_⟩, h.round, fun hfree => ?_, ?_⟩
    · exact (h.client j).mono (fun hmem => (List.mem_erase_of_ne hj).mpr hmem) (by simp) id
    · have hread := hfound.1
      rw [h.exclusive hfree] at hread
      exact absurd hread List.not_mem_nil
    · simpa using h.nodup
  | write i hi hreaders hwriter =>
    refine ⟨(Function.forall_update_iff _ _).mpr ⟨rfl, fun j _ => ?_⟩, fun keys hkeys => ?_,
      fun _ => hreaders, h.nodup⟩
    · refine (h.client j).mono id (fun _ _ => id) fun hj => ?_
      rw [hwriter] at hj
      cases hj
    · have hround := (h.round keys hkeys).1
      rw [hwriter] at hround
      cases hround
  | emplace i now hi =>
    have hwriter := h.client i
    rw [hi] at hwriter
    have hreaders := h.exclusive (by simp [show s.writer = .client i from hwriter])
    refine ⟨(Function.forall_update_iff _ _).mpr ⟨trivial, fun j hj => ?_⟩, fun keys hkeys => ?_,
      fun hfree => absurd rfl hfree, Assoc.nodup_insertNew h.nodup _ _⟩
    · refine (h.client j).mono id (fun _ _ => isSome_insertNew _ _) fun hwriter' => ?_
      rw [show s.writer = .client i from hwriter] at hwriter'
      exact absurd (WriterLock.client.inj hwriter').symm hj
    · have hnone := h.keys?_eq_none (.inr hwriter)
      exact absurd (hnone.symm.trans hkeys) (by simp)

theorem steps {logger : Bool} {tr : List BlockLogAction} (h : Steps (new logger) tr s) : s.Inv :=
  h.hist (I := fun _ s => s.Inv) (.start logger) fun _ _ _ _ _ ih hs => ih.takes (takes_of_step hs)

end Inv

/-! ### Keys that wait for their line -/

/-- The key has a record that the current round has not visited yet. -/
def Pending (s : BlockLog) (key : Text) : Prop :=
  (s.map.find? key).isSome ∧ ∀ keys, s.round.keys? = some keys → key ∈ keys

theorem visitRecord_lines (key : Text) (r : BlockLogRecord) (now : ℤ) :
    (s.visitRecord key r now).lines =
      s.lines ++ if 0 < r.lastBlock - r.lastWrite then [⟨now, key⟩] else [] := by
  unfold visitRecord
  split_ifs <;> simp

/-- A `Log` of the key takes effect. -/
def Effect (s : BlockLog) (key : Text) (a : BlockLogAction) : Prop :=
  (∃ i now, s.client i = .stamping key now ∧ a = .store i) ∨
    ∃ i now, s.client i = .emplacing key ∧ a = .emplace i now

theorem Inv.keys?_of_effect {key : Text} (h : s.Inv) (he : s.Effect key a) : s.round.keys? = none := by
  rcases he with ⟨i, now, hi, -⟩ | ⟨i, now, hi, -⟩
  · have hfound := h.client i
    rw [hi] at hfound
    exact h.keys?_eq_none (.inl hfound.1)
  · have hwriter := h.client i
    rw [hi] at hwriter
    exact h.keys?_eq_none (.inr hwriter)

/-- **What a step writes, and what comes to wait**: a line is of a key that waited and waits no longer,
and a key that waits waited before or is logged in this step. -/
theorem Takes.pending (hs : Takes s a s') (h : s.Inv) :
    ∃ new, s'.lines = s.lines ++ new ∧ (∀ l ∈ new, new = [l] ∧ s.Pending l.key) ∧
      ∀ key, s'.Pending key → (s.Pending key ∧ ∀ l ∈ new, l.key ≠ key) ∨ (new = [] ∧ s.Effect key a) := by
  cases hs with
  | quiet _ _ _ round hround =>
    refine ⟨[], by simp, by simp, fun key hkey => .inl ⟨⟨hkey.1, fun keys hkeys => ?_⟩, by simp⟩⟩
    exact hkey.2 keys (hround ▸ hkeys)
  | lock order hround =>
    refine ⟨[], by simp, by simp, fun key hkey => .inl ⟨⟨hkey.1, fun keys hkeys => ?_⟩, by simp⟩⟩
    rw [hround] at hkeys
    cases hkeys
  | @visit now key keys r hround hr =>
    have hkeys : s.round.keys? = some (key :: keys) := by rw [hround]; rfl
    have hnodup := (h.round _ hkeys).2
    refine ⟨_, visitRecord_lines key r now, fun l hl => ?_, fun k hk => .inl ⟨⟨?_, fun ks hks => ?_⟩, ?_⟩⟩
    · split_ifs at hl ⊢ with hwrite
      · obtain rfl := List.mem_singleton.mp hl
        refine ⟨rfl, by simp [hr], fun ks hks => ?_⟩
        obtain rfl := Option.some.inj (hkeys.symm.trans hks)
        exact List.mem_cons_self
      · exact absurd hl List.not_mem_nil
    · simpa using hk.1
    · obtain rfl := Option.some.inj (hkeys.symm.trans hks)
      exact List.mem_cons_of_mem key (hk.2 keys rfl)
    · intro l hl
      split_ifs at hl
      · obtain rfl := List.mem_singleton.mp hl
        rintro rfl
        exact (List.nodup_cons.mp hnodup).1 (hk.2 keys rfl)
      · exact absurd hl List.not_mem_nil
  | clear =>
    refine ⟨[], by simp, by simp, fun key hkey => absurd hkey.1 (by simp)⟩
  | log | read | found | missed | stamp | write =>
    exact ⟨[], by simp, by simp, fun key hkey => .inl ⟨hkey, by simp⟩⟩
  | @store i key now hi =>
    refine ⟨[], by simp, by simp, fun k hk => .inl ⟨⟨?_, hk.2⟩, by simp⟩⟩
    simpa using hk.1
  | @emplace i now key hi =>
    refine ⟨[], by simp, by simp, fun k hk => ?_⟩
    by_cases hkey : k = key
    · subst hkey
      exact .inr ⟨rfl, .inr ⟨i, now, hi, rfl⟩⟩
    · have hsome : ((s.map.insertNew key ⟨0, now⟩).find? k).isSome := hk.1
      rw [Assoc.find?_insertNew, if_neg hkey] at hsome
      exact .inl ⟨⟨hsome, hk.2⟩, by simp⟩

/-! ### Every line is due -/

/-- At some point of the run, with the lines `A` written and no round under way, a `Log` of the key took
effect. -/
def LoggedAt (logger : Bool) (tr : List BlockLogAction) (key : Text) (A : List BlockLine) : Prop :=
  ∃ tr₁ a s₁, tr₁ ++ [a] <+: tr ∧ Steps (new logger) tr₁ s₁ ∧ s₁.Effect key a ∧ s₁.lines = A ∧
    s₁.round.keys? = none

/-- A `Log` of the key has taken effect since the last line for it. -/
def LoggedSince (logger : Bool) (tr : List BlockLogAction) (key : Text) (lines : List BlockLine) : Prop :=
  ∃ A A', lines = A ++ A' ∧ (∀ l ∈ A', l.key ≠ key) ∧ LoggedAt logger tr key A

theorem LoggedSince.mono {logger : Bool} {tr tr' : List BlockLogAction} {key : Text}
    {lines : List BlockLine} (h : LoggedSince logger tr key lines) (htr : tr <+: tr') :
    LoggedSince logger tr' key lines := by
  obtain ⟨A, A', hlines, hnone, tr₁, a, s₁, hbegins, hat⟩ := h
  exact ⟨A, A', hlines, hnone, tr₁, a, s₁, hbegins.trans htr, hat⟩

/-- What waits has been logged since its last line, and so had every line when it was written. -/
structure Due (logger : Bool) (tr : List BlockLogAction) (s : BlockLog) : Prop where
  pending : ∀ key, s.Pending key → LoggedSince logger tr key s.lines
  lines : ∀ A l B, s.lines = A ++ l :: B → LoggedSince logger tr l.key A

theorem Due.takes {logger : Bool} {tr : List BlockLogAction} (hrun : Steps (new logger) tr s)
    (h : Due logger tr s) (hs : Takes s a s') : Due logger (tr ++ [a]) s' := by
  have hinv := Inv.steps hrun
  obtain ⟨new, hnew, hlines, hpending⟩ := hs.pending hinv
  have hbegins : tr <+: tr ++ [a] := List.prefix_append tr [a]
  refine ⟨fun key hkey => ?_, fun A l B hl => ?_⟩
  · rw [hnew]
    rcases hpending key hkey with ⟨hold, hne⟩ | ⟨rfl, heffect⟩
    · obtain ⟨A, A', hA, hnone, hat⟩ := (h.pending key hold).mono hbegins
      refine ⟨A, A' ++ new, by rw [hA, List.append_assoc], fun l hl => ?_, hat⟩
      exact (List.mem_append.mp hl).elim (hnone l) (hne l)
    · -- logged in this very step
      rw [List.append_nil]
      exact ⟨s.lines, [], by simp, by simp, tr, a, s, List.prefix_rfl, hrun, heffect, rfl,
        hinv.keys?_of_effect heffect⟩
  · rw [hnew] at hl
    rcases List.append_eq_append_iff.mp hl with ⟨C, hA, hC⟩ | ⟨C, hA, hC⟩
    · obtain ⟨hone, hwaits⟩ := hlines l (by simp [hC])
      have hnil : C = [] := by
        rw [hone] at hC
        cases C with
        | nil => rfl
        | cons c C => simp at hC
      rw [hA, hnil, List.append_nil]
      exact (h.pending l.key hwaits).mono hbegins
    · cases C with
      | nil =>
        rw [List.nil_append] at hC
        obtain ⟨-, hwaits⟩ := hlines l (by simp [← hC])
        rw [show A = s.lines by simpa using hA.symm]
        exact (h.pending l.key hwaits).mono hbegins
      | cons c C =>
        obtain ⟨rfl, -⟩ := List.cons.inj hC
        exact (h.lines A l C hA).mono hbegins

theorem Due.steps {logger : Bool} {tr : List BlockLogAction} (h : Steps (new logger) tr s) :
    Due logger tr s := by
  refine h.hist (I := fun tr s => Due logger tr s) ⟨fun key hkey => ?_, fun A l B hl => ?_⟩
    fun _ _ _ _ hrun ih hs => ih.takes hrun (takes_of_step hs)
  · exact absurd hkey.1 (by simp [new])
  · exact absurd hl (by simp [new])

/-! ### No block is lost -/

/-- A record has a block, and a write only if the current round has visited it. -/
structure Unwritten (s : BlockLog) : Prop where
  records : ∀ key r, s.map.find? key = some r → 0 < r.lastBlock ∧
    (r.lastWrite = 0 ∨ ∃ keys, s.round.keys? = some keys ∧ key ∉ keys)
  stamps : ∀ i, (s.client i).Dated

theorem Unwritten.visit (h : s.Unwritten) {key : Text} {keys : List Text} (now : ℤ) {r : BlockLogRecord}
    (hinv : s.Inv) (hround : s.round = .visiting (key :: keys)) :
    Unwritten { s.visitRecord key r now with round := .visiting keys } := by
  have hkeys : s.round.keys? = some (key :: keys) := by rw [hround]; rfl
  have hnodup := List.nodup_cons.mp (hinv.round _ hkeys).2
  have hold : ∀ k r', s.map.find? k = some r' → 0 < r'.lastBlock ∧ (r'.lastWrite = 0 ∨ k ∉ keys) := by
    intro k r' hk
    obtain ⟨hblock, hwrite | ⟨ks, hks, hnot⟩⟩ := h.records k r' hk
    · exact ⟨hblock, .inl hwrite⟩
    · obtain rfl := Option.some.inj (hkeys.symm.trans hks)
      exact ⟨hblock, .inr fun hmem => hnot (List.mem_cons_of_mem key hmem)⟩
  refine ⟨fun k r' hk => ?_, fun i => ?_⟩
  · have hk' : (s.visitRecord key r now).map.find? k = some r' := hk
    suffices 0 < r'.lastBlock ∧ (r'.lastWrite = 0 ∨ k ∉ keys) from
      ⟨this.1, this.2.imp id fun hnot => ⟨keys, rfl, hnot⟩⟩
    unfold visitRecord at hk'
    split_ifs at hk'
    · have hfind : (s.map.modify key fun r => { r with lastWrite := now }).find? k = some r' := hk'
      rw [Assoc.find?_modify] at hfind
      split_ifs at hfind with heq
      · obtain ⟨r₀, hr₀, rfl⟩ := Option.map_eq_some_iff.mp hfind
        exact ⟨(hold k r₀ hr₀).1, .inr (heq ▸ hnodup.1)⟩
      · exact hold k r' hfind
    · exact hold k r' hk'
  · show ((s.visitRecord key r now).client i).Dated
    rw [visitRecord_client]
    exact h.stamps i

theorem Unwritten.takes (h : s.Unwritten) (hinv : s.Inv) (hs : Takes s a s') (ha : a.Dated) :
    s'.Unwritten := by
  cases hs with
  | quiet _ _ _ round hround =>
    refine ⟨fun key r hr => ?_, h.stamps⟩
    obtain ⟨hblock, hwrite⟩ := h.records key r hr
    exact ⟨hblock, hwrite.imp id fun ⟨keys, hkeys, hnot⟩ => ⟨keys, hround.trans hkeys, hnot⟩⟩
  | lock order hround =>
    refine ⟨fun key r hr => ?_, h.stamps⟩
    obtain ⟨hblock, hwrite | ⟨keys, hkeys, -⟩⟩ := h.records key r hr
    · exact ⟨hblock, .inl hwrite⟩
    · rw [hround] at hkeys
      cases hkeys
  | visit now hround hr => exact h.visit now hinv hround
  | clear => exact ⟨fun key r hr => absurd hr (by simp), h.stamps⟩
  | log | read | found | missed | write =>
    exact ⟨h.records, (Function.forall_update_iff _ _).mpr ⟨trivial, fun j _ => h.stamps j⟩⟩
  | stamp i now => exact ⟨h.records, (Function.forall_update_iff _ _).mpr ⟨ha, fun j _ => h.stamps j⟩⟩
  | @store i key now hi =>
    have hnow := h.stamps i
    rw [hi] at hnow
    refine ⟨fun k r hr => ?_, (Function.forall_update_iff _ _).mpr ⟨trivial, fun j _ => h.stamps j⟩⟩
    have hfind : (s.map.modify key fun r => { r with lastBlock := now }).find? k = some r := hr
    rw [Assoc.find?_modify] at hfind
    split_ifs at hfind
    · obtain ⟨r₀, hr₀, rfl⟩ := Option.map_eq_some_iff.mp hfind
      exact ⟨hnow, (h.records k r₀ hr₀).2⟩
    · exact h.records k r hfind
  | @emplace i now key hi =>
    refine ⟨fun k r hr => ?_, (Function.forall_update_iff _ _).mpr ⟨trivial, fun j _ => h.stamps j⟩⟩
    have hfind : (s.map.insertNew key ⟨0, now⟩).find? k = some r := hr
    rw [Assoc.find?_insertNew] at hfind
    split_ifs at hfind with hk
    · obtain rfl := Option.some.inj hfind
      cases hkey : s.map.find? key with
      | none => exact ⟨ha, .inl rfl⟩
      | some r₀ =>
        rw [hk]
        exact h.records key r₀ hkey
    · exact h.records k r hfind

theorem Unwritten.start (logger : Bool) : (new logger).Unwritten :=
  ⟨fun _ _ h => absurd h (by simp [new]), fun _ => trivial⟩

/-- A key that waits goes on waiting or gets its line. -/
theorem Takes.served (hs : Takes s a s') (h : s.Unwritten) {key : Text}
    (hkey : s.Pending key) :
    ∃ new, s'.lines = s.lines ++ new ∧ ((s'.Pending key ∧ a ≠ .clear) ∨ ∃ l ∈ new, l.key = key) := by
  cases hs with
  | quiet ha _ _ round hround =>
    exact ⟨[], by simp, .inl ⟨⟨hkey.1, fun keys hkeys => hkey.2 keys (hround ▸ hkeys)⟩, ha⟩⟩
  | lock order hround hreaders hwriter horder =>
    refine ⟨[], by simp, .inl ⟨⟨hkey.1, fun keys hkeys => ?_⟩, by simp⟩⟩
    obtain rfl : order = keys := Option.some.inj hkeys
    refine horder.mem_iff.mpr ?_
    by_contra hnot
    have hsome := hkey.1
    rw [Assoc.find?_eq_none.mpr hnot] at hsome
    exact Bool.noConfusion hsome
  | @visit now k keys r hround hr =>
    have hkeys : s.round.keys? = some (k :: keys) := by rw [hround]; rfl
    refine ⟨_, visitRecord_lines k r now, ?_⟩
    by_cases heq : key = k
    · -- its record has a block and no write
      subst heq
      obtain ⟨hblock, hwrite | ⟨ks, hks, hnot⟩⟩ := h.records key r hr
      · rw [if_pos (by omega)]
        exact .inr ⟨_, List.mem_cons_self, rfl⟩
      · exact absurd (hkey.2 ks hks) hnot
    · refine .inl ⟨⟨by simpa using hkey.1, fun ks hks => ?_⟩, by simp⟩
      obtain rfl : keys = ks := Option.some.inj hks
      exact (List.mem_cons.mp (hkey.2 _ hkeys)).resolve_left heq
  | clear hround => exact absurd (hkey.2 [] (by rw [hround]; rfl)) List.not_mem_nil
  | log | read | found | missed | stamp | write => exact ⟨[], by simp, .inl ⟨hkey, by simp⟩⟩
  | store => exact ⟨[], by simp, .inl ⟨⟨by simpa using hkey.1, hkey.2⟩, by simp⟩⟩
  | emplace =>
    exact ⟨[], by simp, .inl ⟨⟨isSome_insertNew _ _ hkey.1, hkey.2⟩, by simp⟩⟩

/-- A call stays under way until its key waits. -/
theorem Takes.underWay (hs : Takes s a s') (hinv : s.Inv) {i : ℕ} {key : Text}
    (hi : (s.client i).key? = some key) : (s'.client i).key? = some key ∨ s'.Pending key := by
  -- another thread's step leaves it where it is
  have hmove : ∀ (j : ℕ) (pc : LogPc), (j = i → pc.key? = some key) →
      (Function.update s.client j pc i).key? = some key := by
    intro j pc hpc
    by_cases hj : i = j
    · subst hj
      rw [Function.update_self]
      exact hpc rfl
    · rw [Function.update_of_ne hj]
      exact hi
  have hown : ∀ {j : ℕ} {pc : LogPc}, s.client j = pc → j = i → pc.key? = some key := by
    rintro j pc rfl rfl
    exact hi
  cases hs with
  | quiet | lock | clear => exact .inl hi
  | visit =>
    refine .inl ?_
    show ((visitRecord s _ _ _).client i).key? = some key
    rw [visitRecord_client]
    exact hi
  | log j _ _ hj => exact .inl (hmove j _ fun heq => absurd (hown hj heq) (by simp [LogPc.key?]))
  | read j hj | found j hj | missed j hj | stamp j _ hj | write j hj =>
    have hsame := hown hj
    exact .inl (hmove j _ hsame)
  | @store j k now hj =>
    by_cases heq : j = i
    · obtain rfl : k = key := Option.some.inj (hown hj heq)
      have hfound := hinv.client j
      rw [hj] at hfound
      refine .inr ⟨by simpa using hfound.2, fun keys hkeys => ?_⟩
      exact absurd ((hinv.keys?_eq_none (.inl hfound.1)).symm.trans hkeys) (by simp)
    · exact .inl (hmove j _ fun h => absurd h heq)
  | @emplace j now k hj =>
    by_cases heq : j = i
    · obtain rfl : k = key := Option.some.inj (hown hj heq)
      have hwriter := hinv.client j
      rw [hj] at hwriter
      refine .inr ⟨?_, fun keys hkeys => ?_⟩
      · show ((s.map.insertNew k ⟨0, now⟩).find? k).isSome
        rw [Assoc.find?_insertNew, if_pos rfl]
        rfl
      · exact absurd ((hinv.keys?_eq_none (.inr hwriter)).symm.trans hkeys) (by simp)
    · exact .inl (hmove j _ fun h => absurd h heq)

/-- Behind the lines `A` there is one for the key. -/
def WrittenSince (s : BlockLog) (A : List BlockLine) (key : Text) : Prop :=
  ∃ B, s.lines = A ++ B ∧ ∃ l ∈ B, l.key = key

/-- The key waits for its line, or it has been written behind the lines `A`. -/
def Covered (s : BlockLog) (A : List BlockLine) (key : Text) : Prop :=
  (A <+: s.lines ∧ s.Pending key) ∨ s.WrittenSince A key

theorem Takes.lines_grow (hs : Takes s a s') (hinv : s.Inv) : s.lines <+: s'.lines := by
  obtain ⟨new, hnew, -⟩ := hs.pending hinv
  exact ⟨new, hnew.symm⟩

theorem WrittenSince.takes {A : List BlockLine} {key : Text} (h : s.WrittenSince A key) (hinv : s.Inv)
    (hs : Takes s a s') : s'.WrittenSince A key := by
  obtain ⟨B, hB, l, hl, hkey⟩ := h
  obtain ⟨new, hnew⟩ := hs.lines_grow hinv
  exact ⟨B ++ new, by rw [← hnew, hB, List.append_assoc], l, List.mem_append_left _ hl, hkey⟩

/-- What is covered stays so, and the end of a round finds it written. -/
theorem Covered.takes {A : List BlockLine} {key : Text} (h : s.Covered A key) (hinv : s.Inv)
    (hu : s.Unwritten) (hs : Takes s a s') :
    s'.Covered A key ∧ (a = .clear → s'.WrittenSince A key) := by
  rcases h with ⟨⟨B, hB⟩, hkey⟩ | hwritten
  · obtain ⟨new, hnew, ⟨hkey', ha⟩ | ⟨l, hl, hlkey⟩⟩ := hs.served hu hkey
    · exact ⟨.inl ⟨⟨B ++ new, by rw [hnew, ← hB, List.append_assoc]⟩, hkey'⟩, fun heq => absurd heq ha⟩
    · have hsince : s'.WrittenSince A key :=
        ⟨B ++ new, by rw [hnew, ← hB, List.append_assoc], l, List.mem_append_right _ hl, hlkey⟩
      exact ⟨.inr hsince, fun _ => hsince⟩
  · exact ⟨.inr (hwritten.takes hinv hs), fun _ => hwritten.takes hinv hs⟩

section Runs

variable {tr : List BlockLogAction} {A : List BlockLine} {key : Text} {i : ℕ}

theorem sound_steps (hinv : s.Inv) (hu : s.Unwritten) (h : Steps s tr s') (hdated : ∀ a ∈ tr, a.Dated) :
    s'.Inv ∧ s'.Unwritten := by
  refine h.hist (I := fun tr s' => (∀ a ∈ tr, a.Dated) → s'.Inv ∧ s'.Unwritten) (fun _ => ⟨hinv, hu⟩)
    (fun tr s₁ a s₂ _ ih hs hdated => ?_) hdated
  obtain ⟨hinv₁, hu₁⟩ := ih fun b hb => hdated b (by simp [hb])
  exact ⟨hinv₁.takes (takes_of_step hs), hu₁.takes hinv₁ (takes_of_step hs) (hdated a (by simp))⟩

theorem Covered.steps (hc : s.Covered A key) (hinv : s.Inv) (hu : s.Unwritten) (h : Steps s tr s')
    (hdated : ∀ a ∈ tr, a.Dated) :
    s'.Covered A key ∧ (.clear ∈ tr → s'.WrittenSince A key) := by
  refine h.hist (I := fun tr s' => (∀ a ∈ tr, a.Dated) →
    s'.Covered A key ∧ (.clear ∈ tr → s'.WrittenSince A key))
    (fun _ => ⟨hc, fun hmem => absurd hmem List.not_mem_nil⟩) (fun tr s₁ a s₂ hrun ih hs hdated => ?_) hdated
  have hbefore : ∀ b ∈ tr, b.Dated := fun b hb => hdated b (by simp [hb])
  obtain ⟨hinv₁, hu₁⟩ := sound_steps hinv hu hrun hbefore
  obtain ⟨hcovered, hcleared⟩ := ih hbefore
  obtain ⟨hcovered', hcleared'⟩ := hcovered.takes hinv₁ hu₁ (takes_of_step hs)
  refine ⟨hcovered', fun hmem => ?_⟩
  rcases List.mem_append.mp hmem with hmem | hmem
  · exact (hcleared hmem).takes hinv₁ (takes_of_step hs)
  · exact hcleared' (List.mem_singleton.mp hmem).symm

/-- A call that has returned is covered. -/
theorem covered_of_returned (hi : (s.client i).key? = some key) (hinv : s.Inv) (hu : s.Unwritten)
    (h : Steps s tr s') (hdated : ∀ a ∈ tr, a.Dated) (hidle : s'.client i = .idle) :
    s'.Covered s.lines key := by
  have hboth := h.hist (I := fun tr s' => (∀ a ∈ tr, a.Dated) →
    (s.lines <+: s'.lines ∧ (s'.client i).key? = some key) ∨ s'.Covered s.lines key)
    (fun _ => .inl ⟨List.prefix_rfl, hi⟩) (fun tr s₁ a s₂ hrun ih hs hdated => ?_) hdated
  · rcases hboth with ⟨-, hkey⟩ | hcovered
    · rw [hidle] at hkey
      cases hkey
    · exact hcovered
  have hbefore : ∀ b ∈ tr, b.Dated := fun b hb => hdated b (by simp [hb])
  obtain ⟨hinv₁, hu₁⟩ := sound_steps hinv hu hrun hbefore
  rcases ih hbefore with ⟨hbegins, hkey⟩ | hcovered
  · have hbegins' := hbegins.trans ((takes_of_step hs).lines_grow hinv₁)
    rcases (takes_of_step hs).underWay hinv₁ hkey with hkey' | hpending
    · exact .inl ⟨hbegins', hkey'⟩
    · exact .inr (.inl ⟨hbegins', hpending⟩)
  · exact .inr (hcovered.takes hinv₁ hu₁ (takes_of_step hs)).1

theorem Takes.logger_eq (hs : Takes s a s') : s'.logger = s.logger := by
  cases hs with
  | visit =>
    show (visitRecord s _ _ _).logger = s.logger
    unfold visitRecord
    split_ifs <;> rfl
  | _ => rfl

theorem logger_steps {logger : Bool} (h : Steps (new logger) tr s) : s.logger = logger :=
  h.hist (I := fun _ s => s.logger = logger) rfl fun _ _ _ _ _ ih hs => (takes_of_step hs).logger_eq.trans ih

end Runs

/-! ### The block log -/

section BlockLog

variable {tr₁ tr₂ tr₃ : List BlockLogAction} {s₁ s₂ s₃ : BlockLog} {i : ℕ} {resource cause : Text}

/-- **No block is lost.**  In every interleaving with a clock past the epoch, once a call of `Log` has
returned its key waits for the current round or the next one, or a line for it has been written since the
call began; and the end of a round finds it written. -/
theorem blocks_logged (h₁ : Steps (new true) (tr₁ ++ [.log i resource cause]) s₁) (h₂ : Steps s₁ tr₂ s₂)
    (h₃ : Steps s₂ tr₃ s₃) (hdated : ∀ a ∈ tr₁ ++ tr₂ ++ tr₃, a.Dated) (hidle : s₂.client i = .idle) :
    s₂.Covered s₁.lines (logKey resource cause) ∧
      (.clear ∈ tr₃ → s₃.WrittenSince s₁.lines (logKey resource cause)) := by
  obtain ⟨s₀, h₀, hlog⟩ := h₁.of_snoc
  have hcalled : s₁.client i = .called (logKey resource cause) := by
    have hlogger := logger_steps h₀
    simp only [step, hlogger, Bool.true_eq_false, if_false] at hlog
    split_ifs at hlog with hi
    obtain rfl := Option.some.inj hlog
    exact Function.update_self i _ s₀.client
  have hdated₁ : ∀ a ∈ tr₁ ++ [.log i resource cause], a.Dated := by
    intro a ha
    rcases List.mem_append.mp ha with ha | ha
    · exact hdated a (by simp [ha])
    · rw [List.mem_singleton.mp ha]
      trivial
  obtain ⟨hinv₁, hu₁⟩ := sound_steps (.start true) (.start true) h₁ hdated₁
  have hdated₂ : ∀ a ∈ tr₂, a.Dated := fun a ha => hdated a (by simp [ha])
  obtain ⟨hinv₂, hu₂⟩ := sound_steps hinv₁ hu₁ h₂ hdated₂
  have hcovered := covered_of_returned (by rw [hcalled]; rfl) hinv₁ hu₁ h₂ hdated₂ hidle
  exact ⟨hcovered, (hcovered.steps hinv₂ hu₂ h₃ fun a ha => hdated a (by simp [ha])).2⟩

/-- One call, and the round after it. -/
theorem blocks_logged_round : ∃ s₁ s₂ s₃,
    Steps (new true) ([.start] ++ [.log 0 ['r'] ['c']]) s₁ ∧
    Steps s₁ [.read 0, .find 0, .write 0, .emplace 0 1000] s₂ ∧
    Steps s₂ [.check, .lock [['r', '|', 'c']], .visit 1500, .clear] s₃ ∧
    s₃.WrittenSince s₁.lines ['r', '|', 'c'] := by
  have hrun : ((([.start, .log 0 ['r'] ['c']] : List BlockLogAction).foldlM step (new true)).bind fun s₁ =>
      (([.read 0, .find 0, .write 0, .emplace 0 1000] : List BlockLogAction).foldlM step s₁).bind fun s₂ =>
      (([.check, .lock [['r', '|', 'c']], .visit 1500, .clear] : List BlockLogAction).foldlM step s₂).map
        fun _ => s₂.client 0) = some .idle := by decide
  obtain ⟨s₁, h₁, hrest⟩ := Option.bind_eq_some_iff.mp hrun
  obtain ⟨s₂, h₂, hrest⟩ := Option.bind_eq_some_iff.mp hrest
  obtain ⟨s₃, h₃, hidle⟩ := Option.map_eq_some_iff.mp hrest
  have hr₁ := run_of_foldlM h₁
  have hr₂ := run_of_foldlM h₂
  have hr₃ := run_of_foldlM h₃
  have hdated : ∀ a ∈ ([.start] : List BlockLogAction) ++ [.read 0, .find 0, .write 0, .emplace 0 1000] ++
      [.check, .lock [['r', '|', 'c']], .visit 1500, .clear], a.Dated := by simp [BlockLogAction.Dated]
  obtain ⟨-, hwritten⟩ := blocks_logged hr₁ hr₂ hr₃ hdated hidle
  exact ⟨s₁, s₂, s₃, hr₁, hr₂, hr₃, hwritten (by simp)⟩

/-- **A line for each block, no more**: in every interleaving, between two lines for one key, and before
the first, a `Log` of this key has taken effect, while no round was under way. -/
theorem line_due {logger : Bool} {tr : List BlockLogAction} (h : Steps (new logger) tr s)
    {A B : List BlockLine} {l : BlockLine} (hl : s.lines = A ++ l :: B) :
    LoggedSince logger tr l.key A := (Due.steps h).lines A l B hl

/-- Two calls in two rounds. -/
def twoRounds : List BlockLogAction :=
  [.start, .log 0 ['r'] ['c'], .read 0, .find 0, .write 0, .emplace 0 1000, .check,
    .lock [['r', '|', 'c']], .visit 1500, .clear, .log 0 ['r'] ['c'], .read 0, .find 0, .write 0,
    .emplace 0 2000, .wake, .check, .lock [['r', '|', 'c']], .visit 2500, .clear]

theorem line_due_twoRounds : ∃ s, Steps (new true) twoRounds s ∧
    s.lines = [⟨1500, ['r', '|', 'c']⟩, ⟨2500, ['r', '|', 'c']⟩] ∧
    LoggedSince true twoRounds ['r', '|', 'c'] [⟨1500, ['r', '|', 'c']⟩] := by
  have hrun : (twoRounds.foldlM step (new true)).map lines =
      some [⟨1500, ['r', '|', 'c']⟩, ⟨2500, ['r', '|', 'c']⟩] := by decide
  obtain ⟨s, hs, hlines⟩ := Option.map_eq_some_iff.mp hrun
  have hr := run_of_foldlM hs
  exact ⟨s, hr, hlines, line_due hr (A := [⟨1500, ['r', '|', 'c']⟩]) (B := []) hlines⟩

/-- What was logged after the last round is not written when the task stops. -/
example : (([.start, .check, .lock [], .clear, .log 0 ['r'] ['c'], .read 0, .find 0, .write 0,
      .emplace 0 1000, .stop, .wake, .check, .join] : List BlockLogAction).foldlM step (new true)).map
      (fun s => (s.lines, s.map.map Prod.fst)) = some ([], [['r', '|', 'c']]) := by decide

end BlockLog

end BlockLog

end SentinelCpp.Log
