import SentinelCpp.Slot.Ledger
import SentinelCpp.Stat.Kept

/-!
# Conservation of entries

Whatever is loaded, switched or exited twice on the way, and whatever the clock does, the windows of the
node of every resource and of the entry node have counted exactly what the ledger posts for them, and their
number of calls in progress is the number of outstanding calls.  A change of the configuration gives the
nodes of the resources new second-level windows, which count from then on; the entry node keeps its own.
-/

namespace SentinelCpp

open Lib Stat

/-! ### What is counted -/

/-- The account a recorded event belongs to; exceptions are kept apart. -/
def account : NodeEvent → Option Account
  | .pass count => some (.pass count)
  | .block count => some (.block count)
  | .complete _ _ count => some (.complete count)
  | .exception _ => none

/-- The addition an account makes to a window. -/
def metricAdd : Account → MetricAdd
  | .pass count => .add .pass count
  | .block count => .add .block count
  | .complete count => .add .complete count

/-- The postings as additions. -/
def posted (ps : List (ℕ × Account)) : Hist MetricAdd := ps.map fun x => (x.1, metricAdd x.2)

/-- The total of an event in the 60 seconds that end with the second of `t`. -/
def lastMinute (h : Hist MetricAdd) (event : MetricEvent) (t : ℕ) : ℤ :=
  ((inWindow 60 1000 t h).map (MetricAdd.amount event)).sum

/-- The same for the second-level window of a configuration. -/
def lastWindow (c : StatConfig) (h : Hist MetricAdd) (event : MetricEvent) (t : ℕ) : ℤ :=
  ((inWindow c.sampleCount (c.intervalMs / c.sampleCount) t h).map (MetricAdd.amount event)).sum

theorem posted_append (ps ps' : List (ℕ × Account)) : posted (ps ++ ps') = posted ps ++ posted ps' :=
  List.map_append

/-- What an event does to each window of its node. -/
def recordWindow (m : SlidingWindowMetric) (t : ℕ) : NodeEvent → SlidingWindowMetric
  | .pass count => m.addPass count t
  | .block count => m.addBlock count t
  | .exception count => m.addException count t
  | .complete rt error count =>
    let m := (m.addComplete count t).addRt rt t
    if error ≠ "" then m.addException count t else m

theorem record_windows (n : StatisticNode) (t : ℕ) (e : NodeEvent) :
    (e.record n t).rollingCounterSecond = recordWindow n.rollingCounterSecond t e ∧
      (e.record n t).rollingCounterMinute = recordWindow n.rollingCounterMinute t e := by
  cases e with
  | pass count => exact ⟨rfl, rfl⟩
  | block count => exact ⟨rfl, rfl⟩
  | exception count => exact ⟨rfl, rfl⟩
  | complete rt error count =>
    unfold NodeEvent.record recordWindow
    dsimp only
    split_ifs <;> exact ⟨rfl, rfl⟩

/-- **Each event** is counted as what its account posts. -/
theorem keeps_recordWindow {n b now t : ℕ} {m : SlidingWindowMetric} {ps : List (ℕ × Account)}
    (h : m.Keeps n b (posted ps) now) (hle : t ≤ now) (e : NodeEvent) :
    (recordWindow m t e).Keeps n b (posted (ps ++ ((account e).map fun a => (t, a)).toList)) now := by
  rw [posted_append]
  cases e with
  | pass count => exact h.addEvent hle .pass count
  | block count => exact h.addEvent hle .block count
  | exception count =>
    have hnone : posted ((account (.exception count)).map fun a => (t, a)).toList = [] := rfl
    rw [hnone, List.append_nil]
    exact h.addException hle count
  | complete rt error count =>
    have hcomplete := (h.addEvent hle .complete count).addRt hle rt
    unfold recordWindow
    dsimp only
    split_ifs
    · exact hcomplete.addException hle count
    · exact hcomplete

/-! ### A node and its accounts -/

/-- The windows of the node have counted the postings, the one of the second level those of `recent`, and
`live` calls are in progress; a node that does not exist yet has nothing to count. -/
structure Conserves (c : StatConfig) (node : Option StatisticNode) (recent all : List (ℕ × Account))
    (live now : ℕ) : Prop where
  second : ∀ n, node = some n →
    n.rollingCounterSecond.Keeps c.sampleCount (c.intervalMs / c.sampleCount) (posted recent) now
  minute : ∀ n, node = some n → n.rollingCounterMinute.Keeps 60 1000 (posted all) now
  threads : (node.map StatisticNode.curThreadNum).getD 0 = UInt32.ofNat live
  absent : node = none → recent = [] ∧ all = [] ∧ live = 0

namespace Conserves

variable {c : StatConfig} {node node' : Option StatisticNode} {recent all : List (ℕ × Account)}
  {live now t : ℕ}

/-- A new node. -/
theorem new (hc : c.Valid) (now : ℕ) : Conserves c (some (.mk' c)) [] [] 0 now where
  second := fun n hn => by
    obtain rfl := Option.some.inj hn
    exact .ofConfig hc now
  minute := fun n hn => by
    obtain rfl := Option.some.inj hn
    exact .mk' (by decide) (by decide) now
  threads := rfl
  absent := fun h => absurd h (Option.some_ne_none _)

theorem grown (h : Conserves c node recent all live now) (hc : c.Valid)
    (hg : node' = node ∨ (node = none ∧ node' = some (.mk' c))) :
    Conserves c node' recent all live now := by
  rcases hg with rfl | ⟨hnone, rfl⟩
  · exact h
  · obtain ⟨rfl, rfl, rfl⟩ := h.absent hnone
    exact .new hc now

theorem read (h : Conserves c node recent all live now) (hle : t ≤ now)
    (hr : Option.Rel (StatisticNode.ReadAt t) node node') : Conserves c node' recent all live now := by
  cases hr with
  | none => exact h
  | @some n n' hr =>
    rcases hr with rfl | rfl
    · exact h
    · refine ⟨?_, ?_, h.threads, fun hnone => absurd hnone (Option.some_ne_none _)⟩
      · intro n' hn'
        obtain rfl := Option.some.inj hn'
        exact (h.second n rfl).refresh hle
      · intro n' hn'
        obtain rfl := Option.some.inj hn'
        exact h.minute n rfl

/-- A reset leaves the second-level window of the new configuration empty. -/
theorem reset (h : Conserves c node recent all live now) {c' : StatConfig} (hc : c'.Valid) :
    Conserves c' (node.map fun n => n.reset c') [] all live now := by
  refine ⟨fun n hn => ?_, fun n hn => ?_, ?_, fun hnone => ?_⟩
  · obtain ⟨n₀, -, rfl⟩ := Option.map_eq_some_iff.mp hn
    exact .ofConfig hc now
  · obtain ⟨n₀, hn₀, rfl⟩ := Option.map_eq_some_iff.mp hn
    exact h.minute n₀ hn₀
  · rw [Option.map_map]
    exact h.threads
  · exact ⟨rfl, (h.absent (Option.map_eq_none_iff.mp hnone)).2⟩

/-- Recording one event on an existing node. -/
theorem record (h : Conserves c node recent all live now) (hne : node ≠ none) (hle : t ≤ now)
    (e : NodeEvent) {live' : ℕ} (hlive : e.threads (UInt32.ofNat live) = UInt32.ofNat live') :
    Conserves c (node.map fun n => e.record n t)
      (recent ++ ((account e).map fun a => (t, a)).toList)
      (all ++ ((account e).map fun a => (t, a)).toList) live' now := by
  refine ⟨fun n hn => ?_, fun n hn => ?_, ?_, fun hnone => ?_⟩
  · obtain ⟨n₀, hn₀, rfl⟩ := Option.map_eq_some_iff.mp hn
    rw [(record_windows n₀ t e).1]
    exact keeps_recordWindow (h.second n₀ hn₀) hle e
  · obtain ⟨n₀, hn₀, rfl⟩ := Option.map_eq_some_iff.mp hn
    rw [(record_windows n₀ t e).2]
    exact keeps_recordWindow (h.minute n₀ hn₀) hle e
  · obtain ⟨n, rfl⟩ := Option.ne_none_iff_exists'.mp hne
    have hthreads : n.curThreadNum = UInt32.ofNat live := h.threads
    show (e.record n t).curThreadNum = UInt32.ofNat live'
    rw [NodeEvent.record_curThreadNum, hthreads, hlive]
  · exact absurd (Option.map_eq_none_iff.mp hnone) hne

/-- An exception belongs to no account. -/
theorem exception (h : Conserves c node recent all live now) (hle : t ≤ now) (count : ℤ) :
    Conserves c (node.map fun n => (NodeEvent.exception count).record n t) recent all live now := by
  cases hnode : node with
  | none =>
    rw [hnode] at h
    exact h
  | some n =>
    have hrecord := h.record (hnode ▸ Option.some_ne_none n) hle (.exception count) rfl
    rw [hnode] at hrecord
    simpa [account] using hrecord

end Conserves

/-! ### The ledger's side -/

namespace Ledger

/-- The postings that satisfy `p`, without the first `start` of all, with their times. -/
def postingsSince (l : Ledger) (start : ℕ) (p : String → EntryType → Bool) : List (ℕ × Account) :=
  ((l.postings.drop start).filter fun x => p x.resource x.entryType).map fun x => (x.time, x.account)

/-- The postings that satisfy `p`, with their times. -/
def postingsOn (l : Ledger) (p : String → EntryType → Bool) : List (ℕ × Account) :=
  (l.postings.filter fun x => p x.resource x.entryType).map fun x => (x.time, x.account)

/-- The outstanding calls that satisfy `p`. -/
def liveOn (l : Ledger) (p : String → EntryType → Bool) : ℕ :=
  l.live fun c => p c.resource c.entryType

variable {l l' : Ledger} {t start : ℕ} {c : Call} {o : Outcome} (p : String → EntryType → Bool)

theorem postingsSince_of_length_le (h : l.postings.length ≤ start) : l.postingsSince start p = [] := by
  rw [postingsSince, List.drop_eq_nil_of_le h]
  rfl

/-- One more posting. -/
theorem postingsSince_append (hstart : start ≤ l.postings.length) {x : Posting}
    (h : l'.postings = l.postings ++ [x]) : l'.postingsSince start p =
      l.postingsSince start p ++ if p x.resource x.entryType then [(x.time, x.account)] else [] := by
  rw [postingsSince, h, List.drop_append_of_le_length hstart, List.filter_append, List.map_append]
  cases hp : p x.resource x.entryType <;> simp [postingsSince, hp]

theorem postingsOn_append {x : Posting} (h : l'.postings = l.postings ++ [x]) : l'.postingsOn p =
    l.postingsOn p ++ if p x.resource x.entryType then [(x.time, x.account)] else [] :=
  postingsSince_append p (Nat.zero_le _) h

theorem step_passed (hact : l.activated = true) :
    (l.step ((t, .entry c), .passed)).postings =
      l.postings ++ [⟨t, c.resource, c.entryType, .pass c.count⟩] ∧
    (l.step ((t, .entry c), .passed)).liveOn p = l.liveOn p +
      if p c.resource c.entryType then 1 else 0 := by
  simp only [Ledger.step, hact, if_true, liveOn, live, List.countP_append, List.countP_singleton,
    Bool.true_and, and_self]

theorem step_blocked (hact : l.activated = true) (reason : String) :
    (l.step ((t, .entry c), .blocked reason)).postings =
      l.postings ++ [⟨t, c.resource, c.entryType, .block c.count⟩] ∧
    (l.step ((t, .entry c), .blocked reason)).liveOn p = l.liveOn p := by
  simp only [Ledger.step, hact, if_true, liveOn, live, and_self]

theorem step_notActivated (hact : l.activated = false) :
    (l.step ((t, .entry c), o)).postings = l.postings ∧
    (l.step ((t, .entry c), o)).liveOn p = l.liveOn p := by
  simp [Ledger.step, hact, liveOn, live]

/-- The exit of an outstanding call. -/
theorem step_exited {id : ℕ} (count : ℤ) (hid : l.calls[id]? = some (c, true)) :
    (l.step ((t, .exit (some id) count), o)).postings =
      l.postings ++ [⟨t, c.resource, c.entryType, .complete count⟩] ∧
    l.liveOn p = (l.step ((t, .exit (some id) count), o)).liveOn p +
      if p c.resource c.entryType then 1 else 0 := by
  obtain ⟨hlt, hget⟩ := List.getElem?_eq_some_iff.mp hid
  have hpos : p c.resource c.entryType = true →
      0 < l.calls.countP fun x => x.2 && p x.1.resource x.1.entryType := by
    intro hp
    exact List.countP_pos_iff.mpr ⟨_, List.getElem_mem hlt, by simp [hget, hp]⟩
  simp only [Ledger.step, hid, liveOn, live, List.countP_set hlt, hget, Bool.false_and,
    Bool.true_and, true_and]
  cases hp : p c.resource c.entryType with
  | false => simp
  | true =>
    have := hpos hp
    simp
    omega

end Ledger

/-! ### The configuration -/

/-- The configuration of the statistics, and how much had been posted when it was last changed. -/
structure Era where
  config : StatConfig := {}
  start : ℕ := 0

namespace Era

/-- A call, when `posted` postings have been made. -/
def step (e : Era) (posted : ℕ) (op : Op) : Era :=
  if (op.newConfig e.config).2 then ⟨(op.newConfig e.config).1, posted⟩ else e

/-- What the second-level window of a node goes by; the entry node is never reset. -/
def of (e : Era) : NodeRef → Era
  | .entryNode => {}
  | _ => e

end Era

/-- The ledger and the configuration after a run. -/
def ledgerAndEra (tr : List Label) : Ledger × Era :=
  tr.foldl (fun s a => (s.1.step a, s.2.step s.1.postings.length a.1.2)) ({}, {})

def era (tr : List Label) : Era := (ledgerAndEra tr).2

theorem ledgerAndEra_fst (tr : List Label) : (ledgerAndEra tr).1 = ledger tr := by
  induction tr using List.reverseRecOn with
  | nil => rfl
  | append_singleton tr a ih =>
    rw [ledger_concat, ← ih, ledgerAndEra, List.foldl_append]
    rfl

theorem era_concat (tr : List Label) (a : Label) :
    era (tr ++ [a]) = (era tr).step (ledger tr).postings.length a.1.2 := by
  rw [← ledgerAndEra_fst, era, ledgerAndEra, List.foldl_append]
  rfl

/-! ### Every step conserves -/

/-- What the postings and the outstanding calls of a node are selected by: its resource, or inbound
traffic for the entry node. -/
def belongsTo (ref : NodeRef) (resource : String) (type : EntryType) : Bool :=
  match ref with
  | .cluster r => resource = r
  | .entryNode => type = .IN
  | .tag _ _ => false

/-- A node of a resource or the entry node. -/
def IsMainNode (ref : NodeRef) : Prop := ∀ r tag, ref ≠ .tag r tag

theorem countedOn_iff {ref : NodeRef} (href : IsMainNode ref) {resource : String} {type : EntryType}
    {tagNode : Option NodeRef} (htag : IsTagNode tagNode) :
    World.countedOn resource type tagNode ref ↔ belongsTo ref resource type = true := by
  have hno : tagNode ≠ some ref := by
    intro h
    obtain ⟨r, tag, rfl⟩ := htag ref h
    exact href r tag rfl
  unfold World.countedOn belongsTo entryNodeFor
  cases ref with
  | cluster r =>
    by_cases htype : type = .IN <;> simp [hno, htype, eq_comm]
  | entryNode =>
    by_cases htype : type = .IN <;> simp [hno, htype]
  | tag r g => exact absurd rfl (href r g)

/-- The main nodes conserve, given a ledger and a configuration. -/
structure NodesConserve (w : World) (l : Ledger) (e : Era) (now : ℕ) : Prop where
  config : w.config = e.config
  valid : e.config.Valid
  start_le : e.start ≤ l.postings.length
  node : ∀ ref, IsMainNode ref →
    Conserves (e.of ref).config (w.storage.node? ref) (l.postingsSince (e.of ref).start (belongsTo ref))
      (l.postingsOn (belongsTo ref)) (l.liveOn (belongsTo ref)) now

namespace NodesConserve

variable {env : Env} {w w' w₁ : World} {l l' : Ledger} {e : Era} {t now : ℕ}

theorem start_of_le (h : NodesConserve w l e now) (ref : NodeRef) :
    (e.of ref).start ≤ l.postings.length := by
  cases ref with
  | entryNode => exact Nat.zero_le _
  | cluster r | tag r g => exact h.start_le

/-- The nodes and the books have not changed. -/
theorem of_same (h : NodesConserve w l e now) (hconfig : w'.config = w.config)
    (hnode : ∀ ref, IsMainNode ref → w'.storage.node? ref = w.storage.node? ref)
    (hpostings : l'.postings = l.postings) (hlive : ∀ p, l'.liveOn p = l.liveOn p) :
    NodesConserve w' l' e now := by
  refine ⟨hconfig.trans h.config, h.valid, hpostings ▸ h.start_le, fun ref href => ?_⟩
  have hsince : l'.postingsSince (e.of ref).start (belongsTo ref) =
      l.postingsSince (e.of ref).start (belongsTo ref) := by
    rw [Ledger.postingsSince, hpostings]
    rfl
  have hon : l'.postingsOn (belongsTo ref) = l.postingsOn (belongsTo ref) := by
    rw [Ledger.postingsOn, hpostings]
    rfl
  rw [hnode ref href, hsince, hon, hlive]
  exact h.node ref href

/-- The state the statistics of a call are recorded in: nodes have been added and read. -/
theorem checked (h : NodesConserve w l e now) (hle : t ≤ now) {c : Call} {res : TokenResult}
    (hcheck : (w.built env c).ruleCheck env t c = some (w₁, res)) :
    NodesConserve w₁ l e now ∧ ∀ ref, IsMainNode ref → belongsTo ref c.resource c.entryType = true →
      w₁.storage.node? ref ≠ none := by
  have hread := (World.ruleCheck_spec hcheck).storage
  refine ⟨⟨(World.config_ruleCheck hcheck).trans h.config, h.valid, h.start_le, fun ref href => ?_⟩, ?_⟩
  · refine Conserves.read ?_ hle (hread.1 ref)
    have hgrown := World.grown_builtNodes env c w ref
    cases ref with
    | entryNode =>
      rcases hgrown with hsame | ⟨hnone, -⟩
      · exact (h.node .entryNode href).grown StatConfig.valid_default (.inl hsame)
      · exact absurd hnone (Option.some_ne_none _)
    | cluster r =>
      rw [h.config] at hgrown
      exact (h.node (.cluster r) href).grown h.valid hgrown
    | tag r g => exact absurd rfl (href r g)
  · intro ref href hb
    refine World.node?_ne_none_of_ruleCheck hcheck ?_
    cases ref with
    | cluster r =>
      simp only [belongsTo, decide_eq_true_eq] at hb
      subst hb
      exact World.builtNodes_cluster
    | entryNode => simp [ResourceNodeStorage.node?]
    | tag r g => exact absurd rfl (href r g)

/-- One more posting, counted on the nodes it belongs to. -/
theorem posting (h : NodesConserve w l e now) (hle : t ≤ now) (event : NodeEvent) {x : Posting}
    (hx : x.time = t) (hpostings : l'.postings = l.postings ++ [x]) (hconfig : w'.config = w.config)
    (haccount : account event = some x.account)
    (hnode : ∀ ref, IsMainNode ref → w'.storage.node? ref =
      if belongsTo ref x.resource x.entryType = true then
        (w.storage.node? ref).map fun n => event.record n t
      else w.storage.node? ref)
    (hex : ∀ ref, IsMainNode ref → belongsTo ref x.resource x.entryType = true →
      w.storage.node? ref ≠ none)
    (hlive : ∀ ref, IsMainNode ref → belongsTo ref x.resource x.entryType = true →
      event.threads (UInt32.ofNat (l.liveOn (belongsTo ref))) =
        UInt32.ofNat (l'.liveOn (belongsTo ref)))
    (hlive' : ∀ ref, IsMainNode ref → ¬ belongsTo ref x.resource x.entryType = true →
      l'.liveOn (belongsTo ref) = l.liveOn (belongsTo ref)) :
    NodesConserve w' l' e now := by
  refine ⟨hconfig.trans h.config, h.valid, ?_, fun ref href => ?_⟩
  · rw [hpostings, List.length_append]
    exact h.start_le.trans (Nat.le_add_right _ _)
  · rw [hnode ref href, Ledger.postingsSince_append _ (h.start_of_le ref) hpostings,
      Ledger.postingsOn_append _ hpostings]
    by_cases hb : belongsTo ref x.resource x.entryType = true
    · rw [if_pos hb, if_pos hb, hx]
      have hrecord := (h.node ref href).record (hex ref href hb) hle event (hlive ref href hb)
      rw [haccount] at hrecord
      exact hrecord
    · rw [if_neg hb, if_neg hb, List.append_nil, List.append_nil, hlive' ref href hb]
      exact h.node ref href

end NodesConserve

theorem ofNat_succ (n : ℕ) : UInt32.ofNat (n + 1) = UInt32.ofNat n + 1 := by
  rw [UInt32.ofNat_add]
  rfl

theorem node?_setConfig_of_unchanged {w : World} {r : StatConfig × Bool} (h : r.2 = false)
    (ref : NodeRef) : (w.setConfig r).storage.node? ref = w.storage.node? ref := by
  unfold World.setConfig
  rw [h]
  rfl

/-- A change of the configuration resets the nodes of the resources. -/
theorem node?_setConfig_cluster {w : World} {r : StatConfig × Bool} (h : r.2 = true)
    (resource : String) : (w.setConfig r).storage.node? (.cluster resource) =
      (w.storage.node? (.cluster resource)).map fun n => n.reset r.1 := by
  unfold World.setConfig
  rw [if_pos h]
  exact node?_resetClusterNodes w.storage r.1 (.cluster resource)

/-- And no other node. -/
theorem node?_setConfig_entryNode {w : World} {r : StatConfig × Bool} :
    (w.setConfig r).storage.node? .entryNode = w.storage.node? .entryNode := by
  unfold World.setConfig
  split_ifs <;> rfl

/-- A node is left alone or gets a new second-level window. -/
theorem node?_setConfig (w : World) (r : StatConfig × Bool) (ref : NodeRef) :
    (w.setConfig r).storage.node? ref = w.storage.node? ref ∨
      (w.setConfig r).storage.node? ref = (w.storage.node? ref).map fun n => n.reset r.1 := by
  cases hr : r.2 with
  | false => exact .inl (node?_setConfig_of_unchanged hr ref)
  | true =>
    cases ref with
    | cluster resource => exact .inr (node?_setConfig_cluster hr resource)
    | entryNode => exact .inl node?_setConfig_entryNode
    | tag resource tag =>
      left
      unfold World.setConfig
      rw [if_pos hr]
      exact node?_resetClusterNodes w.storage r.1 (.tag resource tag)

section Step

variable {env : Env} {w w' : World} {l : Ledger} {e : Era} {t now : ℕ}

/-- A change of the configuration, or an attempt. -/
theorem NodesConserve.setConfig (h : NodesConserve w l e now) (op : Op) :
    NodesConserve (w.setConfig (op.newConfig w.config)) l (e.step l.postings.length op) now := by
  have hconfig : (w.setConfig (op.newConfig w.config)).config = (op.newConfig w.config).1 := by
    unfold World.setConfig
    split_ifs <;> rfl
  unfold Era.step
  rw [← h.config]
  rcases op.newConfig_cases w.config with ⟨hsame, hval⟩ | ⟨hchanged, -⟩
  · rw [if_neg (by rw [hsame]; exact Bool.false_ne_true)]
    exact h.of_same (hconfig.trans hval) (fun ref _ => node?_setConfig_of_unchanged hsame ref) rfl
      fun _ => rfl
  · have hvalid : (op.newConfig w.config).1.Valid := op.newConfig_valid (h.config ▸ h.valid)
    rw [if_pos hchanged]
    refine ⟨hconfig, hvalid, le_rfl, fun ref href => ?_⟩
    cases ref with
    | entryNode =>
      rw [node?_setConfig_entryNode]
      exact h.node .entryNode href
    | cluster r =>
      rw [node?_setConfig_cluster hchanged]
      show Conserves (op.newConfig w.config).1 _ (l.postingsSince l.postings.length _) _ _ now
      rw [Ledger.postingsSince_of_length_le _ le_rfl]
      exact (h.node (.cluster r) href).reset hvalid
    | tag r g => exact absurd rfl (href r g)

/-- A call that leaves the configuration alone leaves the era. -/
theorem Era.step_of_unchanged (e : Era) (posted : ℕ) {op : Op} (h : ∀ c, op.newConfig c = (c, false)) :
    e.step posted op = e := by
  rw [Era.step, h]
  rfl

/-- **Each step conserves.** -/
theorem NodesConserve.step (hB : Books env w l) (h : NodesConserve w l e now) (hle : t ≤ now) {op : Op}
    {o : Outcome} (hE : Effect env t w op o w') :
    NodesConserve w' (l.step ((t, op), o)) (e.step l.postings.length op) now := by
  cases hE with
  | @notActivated c hact =>
    rw [e.step_of_unchanged _ fun _ => rfl]
    have hbooks := Ledger.step_notActivated (l := l) (t := t) (c := c) (o := .notActivated)
    exact h.of_same rfl (fun _ _ => rfl) (hbooks (fun _ _ => true) (hB.activated ▸ hact)).1
      fun p => (hbooks p (hB.activated ▸ hact)).2
  | @passed c w₁ hact hcheck =>
    rw [e.step_of_unchanged _ fun _ => rfl]
    obtain ⟨h₁, hex⟩ := h.checked hle hcheck
    have htag := ((hB.built c).checked hcheck).isTagNode c.context
    have hbooks := fun p => Ledger.step_passed (l := l) (t := t) (c := c) p (hB.activated ▸ hact)
    refine h₁.posting hle (.pass c.count) rfl (hbooks fun _ _ => true).1 rfl rfl
      (fun ref href => ?_) hex (fun ref _ hb => ?_) fun ref _ hb => ?_
    · dsimp only
      rw [World.recordPass_node? htag]
      simp only [countedOn_iff href htag]
    · rw [(hbooks (belongsTo ref)).2, if_pos hb]
      exact (ofNat_succ _).symm
    · rw [(hbooks (belongsTo ref)).2, if_neg hb, Nat.add_zero]
  | @blocked c w₁ reason hact hcheck =>
    rw [e.step_of_unchanged _ fun _ => rfl]
    obtain ⟨h₁, hex⟩ := h.checked hle hcheck
    have htag := ((hB.built c).checked hcheck).isTagNode c.context
    have hbooks := fun p => Ledger.step_blocked (l := l) (t := t) (c := c) p (hB.activated ▸ hact) reason
    refine h₁.posting hle (.block c.count) rfl (hbooks fun _ _ => true).1 rfl rfl
      (fun ref href => ?_) hex (fun ref _ _ => ?_) fun ref _ _ => (hbooks (belongsTo ref)).2
    · rw [World.recordBlock_node? htag]
      simp only [countedOn_iff href htag]
    · rw [(hbooks (belongsTo ref)).2]
      rfl
  | @exited id e' count hid hlive =>
    rw [e.step_of_unchanged _ fun _ => rfl]
    obtain ⟨⟨c, b⟩, hcall, hx⟩ := exists_of_getElem?_left hB.entries hid
    have hb : b = true := by simpa [hlive] using hx.exited
    subst hb
    have htag := hB.isTagNode e'.context
    have hbooks := fun p => Ledger.step_exited (t := t) (o := .exited true) p count hcall
    have hconfig : (w.recordExit t count id e' (.cluster e'.resource)).config = w.config := by
      simp [World.recordExit, statisticSlotExit, Entry.hasBlockError]
    refine h.posting hle (.complete (toInt32 ((t : ℤ) - e'.createTime)) e'.error count) rfl
      (hbooks fun _ _ => true).1 hconfig rfl (fun ref href => ?_) (fun ref href hb hnone => ?_)
      (fun ref _ hb => ?_) fun ref _ hb => ?_
    · rw [World.recordExit_node? htag]
      simp only [countedOn_iff href htag, hx.resource, hx.entryType]
    · -- the call is outstanding, so its nodes have it in progress
      have hlive := (hbooks (belongsTo ref)).2
      have hzero := ((h.node ref href).absent hnone).2.2
      rw [if_pos hb] at hlive
      omega
    · have hlive := (hbooks (belongsTo ref)).2
      rw [if_pos hb] at hlive
      rw [hlive, ofNat_succ]
      exact UInt32.add_sub_cancel _ _
    · have hlive := (hbooks (belongsTo ref)).2
      rw [if_neg hb, Nat.add_zero] at hlive
      exact hlive.symm
  | @exitedBefore id e' count hid hlive =>
    obtain ⟨⟨c, b⟩, hcall, hx⟩ := exists_of_getElem?_left hB.entries hid
    have hb : b = false := by simpa [hlive] using hx.exited
    subst hb
    rw [Ledger.step_of_exited hcall, e.step_of_unchanged _ fun _ => rfl]
    exact h
  | exitBlocked =>
    rw [e.step_of_unchanged _ fun _ => rfl]
    exact h
  | setError hid =>
    rw [e.step_of_unchanged _ fun _ => rfl]
    exact h.of_same rfl (fun _ _ => rfl) rfl fun _ => rfl
  | @trace id e' count hid =>
    rw [Ledger.step_of_other _ _ _ (by simp) (by simp) (by simp), e.step_of_unchanged _ fun _ => rfl]
    refine ⟨h.config, h.valid, h.start_le, fun ref href => ?_⟩
    dsimp only
    rw [node?_recordFor]
    split_ifs
    · exact (h.node ref href).exception hle count
    · exact h.node ref href
  | config r hw' hop hop' hop'' _ hnew =>
    rw [Ledger.step_of_other _ _ _ hop hop' hop'', hw', hnew]
    exact h.setConfig op
  | setActivated =>
    rw [e.step_of_unchanged _ fun _ => rfl]
    exact h.of_same rfl (fun _ _ => rfl) rfl fun _ => rfl
  | rules hw' hcb hop hop' hop'' hexit hnew =>
    rw [Ledger.step_of_other _ _ _ hop hop' hop'', e.step_of_unchanged _ hnew, hw']
    exact h.of_same rfl (fun _ _ => rfl) rfl fun _ => rfl

end Step

/-- The nodes of every run. -/
theorem nodesConserve_run {env : Env} {tr : List Label} {w : World} {now : ℕ}
    (h : World.Steps env (.start env) tr w) (hnow : ∀ x ∈ tr, x.1.1 ≤ now) :
    NodesConserve w (ledger tr) (era tr) now := by
  refine Run.hist (I := fun tr w => (∀ x ∈ tr, x.1.1 ≤ now) → NodesConserve w (ledger tr) (era tr) now)
    ?_ ?_ h hnow
  · refine fun _ => ⟨rfl, StatConfig.valid_default, le_rfl, fun ref href => ?_⟩
    cases ref with
    | cluster r =>
      refine ⟨fun n hn => ?_, fun n hn => ?_, rfl, fun _ => ⟨rfl, rfl, rfl⟩⟩ <;> cases hn
    | entryNode => exact .new StatConfig.valid_default now
    | tag r g => exact absurd rfl (href r g)
  · rintro tr w ⟨⟨t, op⟩, o⟩ w' hr hN hstep hnow
    have hbefore := hN fun x hx => hnow x (List.mem_append_left _ hx)
    rw [ledger_concat, era_concat]
    have hB := books_run hr
    exact hbefore.step hB (hnow ((t, op), o) (by simp)) (step_effect hB hstep)

/-! ### The totals -/

/-- The node conserves, and its totals of passes, blocks and completions at any time from `now` on are those
of the postings: over the last minute of all postings, and over the second-level window of the recent ones. -/
structure Conserved (c : StatConfig) (node : Option StatisticNode) (recent all : List (ℕ × Account))
    (live now : ℕ) : Prop extends Conserves c node recent all live now where
  inMinute : ∀ n, node = some n → ∀ t, now ≤ t → ∀ event, event.CountsCalls →
    (n.rollingCounterMinute.getSum event t).2 = lastMinute (posted all) event t
  inSecond : ∀ n, node = some n → ∀ t, now ≤ t → ∀ event, event.CountsCalls →
    (n.rollingCounterSecond.getSum event t).2 = lastWindow c (posted recent) event t

theorem Conserves.conserved {c : StatConfig} {node : Option StatisticNode}
    {recent all : List (ℕ × Account)} {live now : ℕ} (h : Conserves c node recent all live now) :
    Conserved c node recent all live now where
  toConserves := h
  inMinute := fun n hn _ ht _ hevent => (h.minute n hn).getSum_eq ht hevent
  inSecond := fun n hn _ ht _ hevent => (h.second n hn).getSum_eq ht hevent

/-- **Conservation of entries.**  After every run, whatever its times, the node of each resource has counted
the postings of its resource, once each, and has as many calls in progress as there are outstanding calls
of the resource; the entry node does the same for the inbound calls.  The ledger posts each activated
call as passed or blocked, and the exit of a call at most once. -/
theorem entries_conserved {env : Env} {tr : List Label} {w : World} {now : ℕ}
    (h : World.Steps env (.start env) tr w) (hnow : ∀ x ∈ tr, x.1.1 ≤ now) :
    (∀ resource, Conserved (era tr).config (w.storage.node? (.cluster resource))
      ((ledger tr).postingsSince (era tr).start fun r _ => r = resource)
      ((ledger tr).postingsOn fun r _ => r = resource)
      ((ledger tr).liveOn fun r _ => r = resource) now) ∧
    Conserved {} (some w.storage.entryNode) ((ledger tr).postingsOn fun _ type => type = .IN)
      ((ledger tr).postingsOn fun _ type => type = .IN)
      ((ledger tr).liveOn fun _ type => type = .IN) now := by
  have hN := nodesConserve_run h hnow
  refine ⟨fun resource => ?_, ?_⟩
  · exact (hN.node (.cluster resource) (by simp [IsMainNode])).conserved
  · exact (hN.node .entryNode (by simp [IsMainNode])).conserved

/-- An inbound call of weight 2 that is exited twice: one pass, one completion, nothing in progress. -/
theorem entries_conserved_example : ∃ w tr n, World.Steps (.simple "") (.start (.simple "")) tr w ∧
    tr.map Prod.snd = [.passed, .exited true, .exited false] ∧
    w.storage.node? (.cluster "r") = some n ∧ n.curThreadNum = 0 ∧
    (n.rollingCounterMinute.getSum .pass 9).2 = 2 ∧ (n.rollingCounterMinute.getSum .complete 9).2 = 1 ∧
    (n.rollingCounterMinute.getSum .block 9).2 = 0 ∧
    (w.storage.entryNode.rollingCounterSecond.getSum .pass 9).2 = 2 := by
  obtain ⟨w, -, hrun⟩ := exists_run_of_outputs (World.step (.simple "")) (.start (.simple ""))
    [(0, .entry ⟨0, "r", .IN, 2, []⟩), (7, .exit (some 0) 1), (9, .exit (some 0) 1)]
    [.passed, .exited true, .exited false] (by decide)
  obtain ⟨hr, hin⟩ := @entries_conserved _ _ _ 9 hrun (by decide)
  obtain ⟨n, hn⟩ : ∃ n, w.storage.node? (.cluster "r") = some n := by
    refine Option.ne_none_iff_exists'.mp fun hnone => ?_
    exact absurd ((hr "r").absent hnone).2.1 (by decide)
  have hthreads := (hr "r").threads
  rw [hn] at hthreads
  have htotal := (hr "r").inMinute n hn 9 le_rfl
  refine ⟨w, _, n, hrun, rfl, hn, hthreads, ?_, ?_, ?_, ?_⟩
  · exact (htotal .pass (.inl rfl)).trans (by decide)
  · exact (htotal .complete (.inr (.inr rfl))).trans (by decide)
  · exact (htotal .block (.inr (.inl rfl))).trans (by decide)
  · exact (hin.inSecond _ rfl 9 le_rfl .pass (.inl rfl)).trans (by decide)

end SentinelCpp
