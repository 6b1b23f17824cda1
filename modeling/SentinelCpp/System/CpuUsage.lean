import Mathlib.Algebra.Field.Rat
import Mathlib.Algebra.Order.Field.Basic
import Mathlib.Algebra.Order.Ring.Rat
import SentinelCpp.Lib.Text
import SentinelCpp.Lib.TwoSlots

/-!
# Processor usage

`SystemStatusListener` reads the counters of the `cpu` line of `/proc/stat` once a round and stores the
share of active time between two snapshots, of which `p2` should be the newer.  The null pointers that
a round may dereference are explicit: `none` is a crash of the listener thread.
-/

namespace SentinelCpp.System

open SentinelCpp.Lib

inductive CpuStates
  | S_USER
  | S_NICE
  | S_SYSTEM
  | S_IDLE
  | S_IOWAIT
  | S_IRQ
  | S_SOFTIRQ
  | S_STEAL
  | S_GUEST
  | S_GUEST_NICE
  deriving DecidableEq, Repr

/-- The states in the order of the columns, `NUM_CPU_STATES` of them. -/
def cpuStates : List CpuStates :=
  [.S_USER, .S_NICE, .S_SYSTEM, .S_IDLE, .S_IOWAIT, .S_IRQ, .S_SOFTIRQ, .S_STEAL, .S_GUEST,
    .S_GUEST_NICE]

/-- The counters of a `cpu` line; sums and differences of the `int64_t` values do not overflow here. -/
abbrev Times := CpuStates → ℤ

/-- `GetIdleTime`. -/
def Times.getIdleTime (times : Times) : ℤ := times .S_IDLE + times .S_IOWAIT

/-- `GetActiveTime`. -/
def Times.getActiveTime (times : Times) : ℤ :=
  times .S_USER + times .S_NICE + times .S_SYSTEM + times .S_IRQ + times .S_SOFTIRQ +
    times .S_STEAL + times .S_GUEST + times .S_GUEST_NICE

/-- `CpuUsageInfo`; `make_unique` fills it with zeros. -/
structure CpuUsageInfo where
  cpu : Text := []
  times : Times := fun _ => 0

def STR_CPU : Text := ['c', 'p', 'u']

/-- `SystemStatusListener` without the load: whether `file_stat_` has failed, the two snapshots and
`cur_cpu_usage_`, which is `none` after a division by zero (not a number, or infinite). -/
structure SystemStatusListener where
  fileStatFailed : Bool := false
  usageInfoP1 : Option CpuUsageInfo := none
  usageInfoP2 : Option CpuUsageInfo := none
  curCpuUsage : Option ℚ := some (-1)

namespace SystemStatusListener

/-- The constructor; the pointers stay null if `/proc/stat` cannot be opened. -/
def new (isOpen : Bool) : SystemStatusListener :=
  if isOpen then { usageInfoP1 := some {}, usageInfoP2 := some {} } else { fileStatFailed := true }

/-- `ss >> usage_info_p2_->times[i]` for the states in order. -/
def extractTimes : List CpuStates → Times → IStream → Times
  | [], times, _ => times
  | i :: states, times, ss =>
    let r := ss.extractInt (times i)
    extractTimes states (Function.update times i r.1) r.2

/-- The reads from the line into a snapshot. -/
def extract (line : Text) (info : CpuUsageInfo) : CpuUsageInfo :=
  let r := IStream.extractWord ⟨line, 0, false, false⟩ info.cpu
  { cpu := r.1, times := extractTimes cpuStates info.times r.2 }

/-- `ReadCpuUsageFromProc`: `none` is a `seekg` that fails, `some s` the contents of `/proc/stat`.  The
`getline` of an empty file fails, and `seekg` after it. -/
def readCpuUsageFromProc (l : SystemStatusListener) (proc : Option Text) : SystemStatusListener :=
  match l.fileStatFailed, proc with
  | false, some contents =>
    let l := { l with fileStatFailed := contents.isEmpty }
    let line := contents.takeWhile (· ≠ '\n')
    if line.take STR_CPU.length ≠ STR_CPU then l
    else { l with usageInfoP2 := l.usageInfoP2.map (extract line) }
  | _, _ => { l with fileStatFailed := true, usageInfoP1 := none, usageInfoP2 := none }

/-- `1.f * active_time / total_time`, as a rational number: the `float` is not rounded. -/
def quotient (active total : ℤ) : Option ℚ := if total = 0 then none else some (active / total)

/-- The usage from the snapshot `p1` to `p2`. -/
def usage (p1 p2 : Times) : Option ℚ :=
  let activeTime := p2.getActiveTime - p1.getActiveTime
  let idleTime := p2.getIdleTime - p1.getIdleTime
  quotient activeTime (activeTime + idleTime)

/-- `UpdateCpuUsage`. -/
def updateCpuUsage (l : SystemStatusListener) (proc : Option Text) : Option SystemStatusListener :=
  match l.usageInfoP1, l.usageInfoP2 with
  | some p1, some p2 =>
    let l := readCpuUsageFromProc { l with usageInfoP1 := some p2, usageInfoP2 := some p1 } proc
    match l.usageInfoP1, l.usageInfoP2 with
    | some p1, some p2 => some { l with curCpuUsage := usage p1.times p2.times }
    | _, _ => none
  | _, _ => some l

/-! ### What the kernel prints -/

/-- Nothing is read from a stream that has ended or failed. -/
theorem extractTimes_done {ss : IStream} (h : ss.eof = true ∨ ss.fail = true) (states : List CpuStates)
    (times : Times) : extractTimes states times ss = times := by
  induction states generalizing ss with
  | nil => rfl
  | cons i states ih =>
    have hread : ss.extractInt (times i) = (times i, { ss with fail := true }) := by
      rcases h with h | h
      · exact IStream.extractInt_of_eof _ h
      · rw [IStream.extractInt_of_fail _ h, ← h]
    rw [extractTimes, hread, Function.update_eq_self]
    exact ih (.inr rfl)

theorem extractTimes_end (before : Text) {space : Text} (hspace : space.all isSpace = true)
    (states : List CpuStates) (times : Times) :
    extractTimes states times ⟨before ++ space, before.length, false, false⟩ = times := by
  cases states with
  | nil => rfl
  | cons i states =>
    rw [extractTimes, IStream.extractInt_end _ hspace, Function.update_eq_self]
    exact extractTimes_done (.inl rfl) _ _

/-- The columns of the states, as the kernel prints them. -/
def columnsText (states : List CpuStates) (times : Times) : Text :=
  states.flatMap fun i => ' ' :: decimal (times i)

/-- The columns are read back; the states without a column keep their value. -/
theorem extractTimes_columnsText (before : Text) {space : Text} (hspace : space.all isSpace = true)
    (states beyond : List CpuStates) (times old : Times) (hbeyond : ∀ i ∉ states, old i = times i) :
    extractTimes (states ++ beyond) old
      ⟨before ++ (space ++ columnsText states times), before.length, false, false⟩ = times := by
  induction states generalizing before space old with
  | nil =>
    show extractTimes beyond old ⟨before ++ (space ++ []), before.length, false, false⟩ = times
    rw [List.append_nil, extractTimes_end before hspace]
    funext i
    exact hbeyond i List.not_mem_nil
  | cons i states ih =>
    have hnext : ∀ j ∉ states, Function.update old i (times i) j = times j := by
      intro j hj
      by_cases hji : j = i
      · rw [hji, Function.update_self]
      · rw [Function.update_of_ne hji]
        exact hbeyond j (by simp [hji, hj])
    have hspace' : (space ++ [' ']).all isSpace = true := by
      rw [List.all_append, hspace]
      rfl
    have htext : space ++ columnsText (i :: states) times =
        space ++ [' '] ++ (decimal (times i) ++ columnsText states times) := by
      simp [columnsText]
    rw [htext, List.cons_append, extractTimes]
    cases states with
    | nil =>
      -- the last column: the stream sees the end of the line
      rw [columnsText, List.flatMap_nil, List.append_nil,
        IStream.extractInt_last before (times i) (old i) hspace', extractTimes_done (.inl rfl)]
      funext j
      exact hnext j List.not_mem_nil
    | cons k states =>
      have hcolumns : columnsText (k :: states) times =
          ' ' :: (decimal (times k) ++ columnsText states times) := rfl
      have hlength : before.length + ((space ++ [' ']).length + (decimal (times i)).length) =
          (before ++ (space ++ [' '] ++ decimal (times i))).length := by
        simp only [List.length_append]
      rw [hcolumns, IStream.extractInt_decimal before _ (times i) (old i) hspace' rfl, hlength,
        ← hcolumns, ← List.append_assoc (space ++ [' ']), ← List.append_assoc before]
      exact @ih _ [] rfl _ hnext

end SystemStatusListener

open SystemStatusListener

/-- The `cpu` line with the first so many columns, a line break, and the rest of the file. -/
def statText (columns : ℕ) (times : Times) (rest : Text) : Text :=
  STR_CPU ++ ' ' :: columnsText (cpuStates.take columns) times ++ '\n' :: rest

/-- What a round finds in the file: a `cpu` line, or a first line that is none. -/
inductive Shows (columns : ℕ) : Option Text → Option Times → Prop
  | cpu (times : Times) (rest : Text) (hbeyond : ∀ i ∉ cpuStates.take columns, times i = 0) :
      Shows columns (some (statText columns times rest)) (some times)
  | other (text : Text) (hne : text ≠ [])
      (hcpu : (text.takeWhile (· ≠ '\n')).take STR_CPU.length ≠ STR_CPU) :
      Shows columns (some text) none

theorem takeWhile_statText (columns : ℕ) (times : Times) (rest : Text) :
    (statText columns times rest).takeWhile (· ≠ '\n') =
      STR_CPU ++ ' ' :: columnsText (cpuStates.take columns) times := by
  have hline : ∀ c ∈ STR_CPU ++ ' ' :: columnsText (cpuStates.take columns) times,
      decide (c ≠ '\n') = true := by
    intro c hc
    rw [decide_eq_true_eq]
    rintro rfl
    rw [List.mem_append, List.mem_cons, columnsText, List.mem_flatMap] at hc
    obtain hc | hc | ⟨i, -, hc⟩ := hc
    · exact absurd hc (by decide)
    · exact absurd hc (by decide)
    · rcases List.mem_cons.mp hc with hc | hc
      · exact absurd hc (by decide)
      · exact not_mem_decimal (by decide) (by decide) _ hc
  rw [statText, List.takeWhile_append_of_pos hline, List.takeWhile_cons]
  simp

/-- **A `cpu` line is read back**: the snapshot holds its columns. -/
theorem extract_statText {columns : ℕ} {times : Times} {info : CpuUsageInfo}
    (hbeyond : ∀ i ∉ cpuStates.take columns, info.times i = times i) :
    (extract (STR_CPU ++ ' ' :: columnsText (cpuStates.take columns) times) info).times = times := by
  have hword := @IStream.extractWord_append STR_CPU ' ' (columnsText (cpuStates.take columns) times)
    info.cpu (by simp [STR_CPU]) (by simp [STR_CPU, isSpace]) rfl
  have hread := @extractTimes_columnsText STR_CPU [' '] rfl (cpuStates.take columns)
    (cpuStates.drop columns) times info.times hbeyond
  rw [List.take_append_drop] at hread
  rw [extract, hword]
  exact hread

/-! ### One round -/

/-- The snapshot that a round writes over, after the contents of the file. -/
def overwritten (contents : Text) (info : CpuUsageInfo) : CpuUsageInfo :=
  let line := contents.takeWhile (· ≠ '\n')
  if line.take STR_CPU.length ≠ STR_CPU then info else extract line info

variable {columns : ℕ} {l : SystemStatusListener} {slots : Times × Times} {p1 p2 : CpuUsageInfo}

/-- A round that can read swaps the snapshots, writes over the second and stores the usage. -/
theorem updateCpuUsage_some (hfailed : l.fileStatFailed = false) (h1 : l.usageInfoP1 = some p1)
    (h2 : l.usageInfoP2 = some p2) (contents : Text) :
    updateCpuUsage l (some contents) =
      some ⟨contents.isEmpty, some p2, some (overwritten contents p1),
        usage p2.times (overwritten contents p1).times⟩ := by
  obtain ⟨failed, p1, p2, cur⟩ := l
  obtain rfl : failed = false := hfailed
  obtain rfl := h1
  obtain rfl := h2
  unfold updateCpuUsage readCpuUsageFromProc overwritten
  dsimp only
  split_ifs <;> rfl

/-- A round that cannot go to the beginning of the file resets the pointers and follows them. -/
theorem updateCpuUsage_none (h1 : l.usageInfoP1 = some p1) (h2 : l.usageInfoP2 = some p2)
    {proc : Option Text} (h : l.fileStatFailed = true ∨ proc = none) :
    updateCpuUsage l proc = none := by
  obtain ⟨failed, p1, p2, cur⟩ := l
  obtain rfl := h1
  obtain rfl := h2
  rcases h with h | rfl
  · obtain rfl : failed = true := h
    rfl
  · cases failed <;> rfl

/-- A listener that can go on: the file has not failed and the two snapshots hold the given times. -/
structure Holds (columns : ℕ) (l : SystemStatusListener) (slots : Times × Times) : Prop where
  failed : l.fileStatFailed = false
  p1 : ∃ info, l.usageInfoP1 = some info ∧ info.times = slots.1
  p2 : ∃ info, l.usageInfoP2 = some info ∧ info.times = slots.2
  beyond : ∀ i ∉ cpuStates.take columns, slots.1 i = 0 ∧ slots.2 i = 0

/-- The times of the snapshots in the beginning. -/
def zeros : Times := fun _ => 0

theorem holds_new (columns : ℕ) : Holds columns (new true) (zeros, zeros) :=
  ⟨rfl, ⟨{}, rfl, rfl⟩, ⟨{}, rfl, rfl⟩, fun _ _ => ⟨rfl, rfl⟩⟩

/-- **One round**: a `cpu` line is a sample; any other line only swaps the snapshots. -/
theorem Holds.updateCpuUsage (h : Holds columns l slots) {text : Option Text} {r : Option Times}
    (hshows : Shows columns text r) :
    ∃ l', l.updateCpuUsage text = some l' ∧ Holds columns l' (TwoSlots.round slots r) ∧
      l'.curCpuUsage = usage (TwoSlots.round slots r).1 (TwoSlots.round slots r).2 := by
  obtain ⟨hfailed, ⟨i1, hi1, ht1⟩, ⟨i2, hi2, ht2⟩, hbeyond⟩ := h
  cases hshows with
  | cpu times rest htimes =>
    have hread : (overwritten (statText columns times rest) i1).times = times := by
      have hcpu : (STR_CPU ++ ' ' :: columnsText (cpuStates.take columns) times).take
          STR_CPU.length = STR_CPU := List.take_left
      rw [overwritten, takeWhile_statText, if_neg (not_not_intro hcpu)]
      refine extract_statText fun i hi => ?_
      rw [ht1, (hbeyond i hi).1, htimes i hi]
    refine ⟨_, updateCpuUsage_some hfailed hi1 hi2 _, ⟨rfl, ⟨i2, rfl, ht2⟩, ⟨_, rfl, hread⟩,
      fun i hi => ⟨(hbeyond i hi).2, htimes i hi⟩⟩, ?_⟩
    show usage i2.times _ = usage slots.2 times
    rw [hread, ht2]
  | other text hne hcpu =>
    have hread : overwritten text i1 = i1 := if_pos hcpu
    refine ⟨_, updateCpuUsage_some hfailed hi1 hi2 _,
      ⟨List.isEmpty_eq_false_iff.mpr hne, ⟨i2, rfl, ht2⟩, ⟨i1, congrArg some hread, ht1⟩,
        fun i hi => ⟨(hbeyond i hi).2, (hbeyond i hi).1⟩⟩, ?_⟩
    show usage i2.times (overwritten text i1).times = usage slots.2 slots.1
    rw [hread, ht1, ht2]

/-! ### Runs of rounds -/

/-- The rounds act on the snapshots as on two slots that change places. -/
theorem Holds.rounds (h : Holds columns l slots) {texts : List (Option Text)}
    {rounds : List (Option Times)} (hshows : List.Forall₂ (Shows columns) texts rounds) :
    ∃ l', texts.foldlM SystemStatusListener.updateCpuUsage l = some l' ∧
      Holds columns l' (TwoSlots.slots slots rounds) ∧
      (rounds ≠ [] → l'.curCpuUsage = usage (TwoSlots.slots slots rounds).1
        (TwoSlots.slots slots rounds).2) := by
  induction hshows generalizing l slots with
  | nil => exact ⟨l, rfl, h, fun hne => absurd rfl hne⟩
  | @cons text r texts rounds hfirst hrest ih =>
    obtain ⟨l₁, hstep, hholds, hcur⟩ := h.updateCpuUsage hfirst
    obtain ⟨l', hrun, hholds', hcur'⟩ := ih hholds
    refine ⟨l', by rw [List.foldlM_cons, hstep]; exact hrun, hholds', fun _ => ?_⟩
    cases rounds with
    | nil =>
      cases hrest
      obtain rfl : l₁ = l' := by simpa using hrun
      exact hcur
    | cons r' rounds => exact hcur' (List.cons_ne_nil _ _)

/-- The counters have gone on from one snapshot to the next. -/
def GoesOn (a b : Times) : Prop :=
  a.getActiveTime ≤ b.getActiveTime ∧ a.getIdleTime ≤ b.getIdleTime ∧
    a.getActiveTime + a.getIdleTime < b.getActiveTime + b.getIdleTime

instance (a b : Times) : Decidable (GoesOn a b) := inferInstanceAs (Decidable (_ ∧ _))

/-- Between snapshots that go on, the usage is a share. -/
theorem usage_of_goesOn {a b : Times} (h : GoesOn a b) : ∃ q, usage a b = some q ∧ 0 ≤ q ∧ q ≤ 1 := by
  obtain ⟨hactive, hidle, htotal⟩ := h
  have hpos : 0 < b.getActiveTime - a.getActiveTime + (b.getIdleTime - a.getIdleTime) := by omega
  refine ⟨_, if_neg hpos.ne', ?_, ?_⟩
  · refine div_nonneg ?_ ?_
    · exact_mod_cast sub_nonneg.mpr hactive
    · exact_mod_cast hpos.le
  · rw [div_le_one (by exact_mod_cast hpos)]
    have hle := sub_nonneg.mpr hidle
    exact_mod_cast (by omega : b.getActiveTime - a.getActiveTime ≤
      b.getActiveTime - a.getActiveTime + (b.getIdleTime - a.getIdleTime))

/-- The usage does not depend on the order of the snapshots. -/
theorem usage_comm (a b : Times) : usage a b = usage b a := by
  unfold usage quotient
  have hneg : a.getActiveTime - b.getActiveTime + (a.getIdleTime - b.getIdleTime) =
      -(b.getActiveTime - a.getActiveTime + (b.getIdleTime - a.getIdleTime)) := by omega
  dsimp only
  rw [hneg, ← neg_sub b.getActiveTime]
  simp only [neg_eq_zero, Int.cast_neg, neg_div_neg_eq]

/-- **The usage is the share of active time between the last `cpu` line and an earlier one** (or the
zeros of the beginning): it stays between 0 and 1 whatever lines come in between, as long as the counters
go on. -/
theorem usage_measured {texts : List (Option Text)} {rounds : List (Option Times)} {pre : List Times}
    {b : Times} (hshows : List.Forall₂ (Shows columns) texts rounds)
    (hcpu : rounds.filterMap id = pre ++ [b]) (hgo : ∀ a ∈ zeros :: pre, GoesOn a b) :
    ∃ l q, texts.foldlM SystemStatusListener.updateCpuUsage (new true) = some l ∧
      l.curCpuUsage = some q ∧ 0 ≤ q ∧ q ≤ 1 ∧ ∃ a ∈ zeros :: pre, usage a b = some q := by
  obtain ⟨l, hrun, -, hcur⟩ := (holds_new columns).rounds hshows
  have hne : rounds ≠ [] := by
    rintro rfl
    simp at hcpu
  obtain ⟨a, ha, hslots⟩ := TwoSlots.slots_cases zeros hcpu
  obtain ⟨q, hq, hnonneg, hle⟩ := usage_of_goesOn (hgo a ha)
  refine ⟨l, q, hrun, ?_, hnonneg, hle, a, ha, hq⟩
  rw [hcur hne, ← hq]
  rcases hslots with hslots | hslots
  · rw [hslots]
  · rw [hslots, usage_comm]

/-- A machine that has spent its time in user mode and idle only, on a kernel with four columns. -/
def userAndIdle (user idle : ℤ) : Times
  | .S_USER => user
  | .S_IDLE => idle
  | _ => 0

theorem shows_userAndIdle (user idle : ℤ) :
    Shows 4 (some (statText 4 (userAndIdle user idle) [])) (some (userAndIdle user idle)) := by
  refine .cpu _ _ fun i hi => ?_
  cases i with
  | S_USER | S_IDLE => exact absurd (by decide) hi
  | _ => rfl

theorem usage_measured_spike :
    ∃ l q, [some (statText 4 (userAndIdle 10 90) []), some ['i', 'n', 't', 'r'],
        some (statText 4 (userAndIdle 40 100) [])].foldlM SystemStatusListener.updateCpuUsage
          (new true) = some l ∧
      l.curCpuUsage = some q ∧ 0 ≤ q ∧ q ≤ 1 ∧
      ∃ a ∈ [zeros, userAndIdle 10 90], usage a (userAndIdle 40 100) = some q :=
  @usage_measured _ _ [some (userAndIdle 10 90), none, some (userAndIdle 40 100)] _ _
    (.cons (shows_userAndIdle _ _) (.cons (.other _ (by decide) (by decide))
      (.cons (shows_userAndIdle _ _) .nil))) rfl (by decide)

/-- **A `cpu` line after `n` other lines**: with `n` even it is measured against the `cpu` line before them;
with `n` odd against the snapshot that this one was measured against, however old that is. -/
theorem usage_after_gap {texts texts' : List (Option Text)} {rounds : List (Option Times)}
    {a b : Times} {n : ℕ} (hshows : List.Forall₂ (Shows columns) texts (rounds ++ [some a]))
    (hshows' : List.Forall₂ (Shows columns) texts' (List.replicate n none ++ [some b])) :
    ∃ p ∈ zeros :: rounds.filterMap id, ∃ l l',
      texts.foldlM SystemStatusListener.updateCpuUsage (new true) = some l ∧
      l.curCpuUsage = usage p a ∧
      texts'.foldlM SystemStatusListener.updateCpuUsage l = some l' ∧
      l'.curCpuUsage = usage (if Even n then a else p) b := by
  obtain ⟨l, hrun, hholds, hcur⟩ := (holds_new columns).rounds hshows
  obtain ⟨l', hrun', -, hcur'⟩ := hholds.rounds hshows'
  have hslots : TwoSlots.slots (zeros, zeros) (rounds ++ [some a]) =
      ((TwoSlots.slots (zeros, zeros) rounds).2, a) := TwoSlots.slots_append _ _ _
  refine ⟨_, (TwoSlots.slots_mem zeros rounds).2, l, l', hrun, ?_, hrun', ?_⟩
  · rw [hcur (by simp), hslots]
  · rw [hcur' (by simp), hslots, TwoSlots.slots_gap]

theorem usage_after_gap_odd :
    ∃ p ∈ [zeros], ∃ l l',
      [some (statText 4 (userAndIdle 10 90) [])].foldlM SystemStatusListener.updateCpuUsage
        (new true) = some l ∧
      l.curCpuUsage = usage p (userAndIdle 10 90) ∧
      [some ['i', 'n', 't', 'r'], some (statText 4 (userAndIdle 40 100) [])].foldlM
        SystemStatusListener.updateCpuUsage l = some l' ∧
      l'.curCpuUsage = usage (if Even 1 then userAndIdle 10 90 else p) (userAndIdle 40 100) :=
  @usage_after_gap _ _ _ [] _ _ _ (.cons (shows_userAndIdle _ _) .nil)
    (.cons (.other _ (by decide) (by decide)) (.cons (shows_userAndIdle _ _) .nil))

/-- While the pointers are not null, the next rounds crash from the first that cannot go to the beginning. -/
theorem foldlM_eq_none_iff (texts : List (Option Text)) (h1 : l.usageInfoP1 = some p1)
    (h2 : l.usageInfoP2 = some p2) :
    texts.foldlM SystemStatusListener.updateCpuUsage l = none ↔
      (l.fileStatFailed = true ∧ texts ≠ []) ∨ none ∈ texts ∨ some [] ∈ texts.dropLast := by
  induction texts generalizing l p1 p2 with
  | nil => simp
  | cons text texts ih =>
    rw [List.foldlM_cons]
    by_cases hfailed : l.fileStatFailed = true
    · rw [updateCpuUsage_none h1 h2 (.inl hfailed)]
      simp [hfailed]
    · rw [Bool.not_eq_true] at hfailed
      cases text with
      | none =>
        rw [updateCpuUsage_none h1 h2 (.inr rfl)]
        simp
      | some contents =>
        rw [updateCpuUsage_some hfailed h1 h2 contents]
        show texts.foldlM _ _ = none ↔ _
        rw [ih rfl rfl]
        cases texts with
        | nil => simp [hfailed]
        | cons text texts =>
          have hempty : (some [] = some contents) ↔ contents.isEmpty = true := by
            rw [Option.some.injEq, List.isEmpty_iff, eq_comm]
          rw [List.dropLast_cons_cons (x := some contents), List.mem_cons (b := some contents),
            List.mem_cons (b := some contents), hempty, hfailed]
          simp only [ne_eq, reduceCtorEq, not_false_eq_true, and_true, false_or,
            Bool.false_eq_true]
          exact or_left_comm

/-- **When the listener crashes**: as soon as it cannot go to the beginning of `/proc/stat`, which is so
after a round in which the file was empty; and never if the file could not be opened. -/
theorem crashes_iff (isOpen : Bool) (texts : List (Option Text)) :
    texts.foldlM SystemStatusListener.updateCpuUsage (new isOpen) = none ↔
      isOpen = true ∧ (none ∈ texts ∨ some [] ∈ texts.dropLast) := by
  cases isOpen with
  | false =>
    have hnull : texts.foldlM SystemStatusListener.updateCpuUsage (new false) = some (new false) := by
      induction texts with
      | nil => rfl
      | cons text texts ih => exact ih
    rw [hnull]
    simp
  | true =>
    rw [foldlM_eq_none_iff texts rfl rfl]
    simp [new]

end SentinelCpp.System
