import SentinelCpp.Slot.Chain
import SentinelCpp.Stat.Counted

/-!
# Chains of any shape

A chain of rule checkers that do anything, of `StatisticSlot`s, `CompleteStatSlot`s and `LogSlot`s.
`runChain` goes through it as `DefaultSlotChainImpl::Entry` does (`chainEntry_toSlot`) and notes at each
slot whether it ran, with the states before and after and the result.  A block found by a checker reaches
every slot behind it.
-/

namespace SentinelCpp

open Lib Stat

/-- A rule checker: any `Entry` and `Exit`.  The context of an entry is set when the entry is made. -/
structure RuleChecker where
  entry : Env → ℕ → Call → ChainState → ChainState × TokenResult
  exit : ℕ → ℤ → List Param.AnyVal → World × Entry → World × Entry
  entry_context : ∀ env t c s, (entry env t c s).1.entry.context = s.entry.context

theorem TokenResult.isBlocked_iff {token : TokenResult} :
    token.isBlocked = true ↔ ∃ reason, token = .blocked reason := by
  cases token <;> simp [isBlocked]

/-- The last token result of the context of the call. -/
def ChainState.lastTokenResult (s : ChainState) (c : Call) : Option TokenResult :=
  (s.world.contexts c.context).lastTokenResult

section

variable (env : Env) {t : ℕ} {c : Call} {s : ChainState}

theorem statisticSlotEntry_blocked {reason : String} (h : s.lastTokenResult c = some (.blocked reason)) :
    statisticSlotEntry env t c s = some (onBlock t c reason s) := by
  unfold ChainState.lastTokenResult at h
  rw [statisticSlotEntry, h]

theorem statisticSlotEntry_pass {token : TokenResult} (h : s.lastTokenResult c = some token)
    (hpass : token.isBlocked = false) : statisticSlotEntry env t c s =
      if Param.addPassFaults s.world.metricMap c.resource c.params then none
      else some (onPass t c s) := by
  unfold ChainState.lastTokenResult at h
  rw [statisticSlotEntry, h]
  cases token with
  | ok | shouldWait _ => rfl
  | blocked reason => exact Bool.noConfusion hpass

variable {env} in
theorem statisticSlotEntry_context {r : ChainState × TokenResult}
    (h : statisticSlotEntry env t c s = some r) : r.1.entry.context = s.entry.context := by
  unfold statisticSlotEntry at h
  split at h
  · obtain rfl := Option.some.inj h
    rfl
  · split_ifs at h
    obtain rfl := Option.some.inj h
    rfl

end

/-! ### What `StatisticSlot` records -/

/-- The nodes a call is counted on: the one the slots hand on, the one of the tag and, for inbound traffic,
the entry node. -/
def ChainState.countedNodes (s : ChainState) (c : Call) : List NodeRef :=
  s.node.toList ++ (s.world.contexts c.context).tagNode.toList ++ (entryNodeFor c.entryType).toList

section

variable {t : ℕ} {c : Call} {s : ChainState} {event : MetricEvent} {count : ℤ} {d : ℕ} {e : NodeEvent}

theorem counted_recordFor (he : ∀ n, StatisticNode.Counted t event count d n (e.record n t))
    (node : Option NodeRef) (st : ResourceNodeStorage) :
    ResourceNodeStorage.Counted t event count d node.toList st (recordFor node t e st) := by
  cases node with
  | none => exact .refl t event count d st
  | some ref => exact .modifyNode he ref

/-- A pass is counted on every node of the call, which is in progress there from now on. -/
theorem counted_onPass : ResourceNodeStorage.Counted t .pass c.count 1 (s.countedNodes c)
    s.world.storage (onPass t c s).1.world.storage := by
  have hnode := counted_recordFor (StatisticNode.Counted.pass t c.count)
  refine (((hnode s.node _).trans (hnode (entryNodeFor c.entryType) _)).trans
    (hnode (s.world.contexts c.context).tagNode _)).perm ?_
  rw [ChainState.countedNodes, List.append_assoc, List.append_assoc]
  exact List.Perm.append_left _ List.perm_append_comm

/-- A block is counted on every node of the call, and is in progress nowhere. -/
theorem counted_onBlock (reason : String) :
    ResourceNodeStorage.Counted t .block c.count 0 (s.countedNodes c)
      s.world.storage (onBlock t c reason s).1.world.storage := by
  have hnode := counted_recordFor (StatisticNode.Counted.block t c.count)
  exact ((hnode s.node _).trans (hnode (s.world.contexts c.context).tagNode _)).trans
    (hnode (entryNodeFor c.entryType) _)

end

/-! ### The chain -/

/-- The slots of a chain. -/
inductive ChainSlot
  | ruleChecker (checker : RuleChecker)
  | statisticSlot
  | completeStatSlot
  | logSlot

namespace ChainSlot

def toSlot : ChainSlot → Slot
  | ruleChecker checker =>
    ⟨.ruleCheckerSlot, fun env t c s => some (checker.entry env t c s), checker.exit⟩
  | statisticSlot => ⟨.statsSlot, statisticSlotEntry, statisticSlotExit⟩
  | completeStatSlot => ⟨.statsSlot, lastTokenResultEntry, completeStatSlotExit⟩
  | logSlot => ⟨.statsSlot, lastTokenResultEntry, noExit⟩

/-- Derives from `StatsSlot`. -/
def IsStats : ChainSlot → Prop
  | ruleChecker _ => False
  | _ => True

end ChainSlot

/-- A run of a slot; without an outcome the process has died in it. -/
structure Visit where
  before : ChainState
  outcome : Option (ChainState × TokenResult)

/-- A slot of the chain, and its run unless it was passed over. -/
structure Visited where
  slot : ChainSlot
  visit : Option Visit

/-- The loop of `DefaultSlotChainImpl::Entry` with a note of every slot it comes to. -/
def runChain (env : Env) (t : ℕ) (c : Call) :
    List ChainSlot → TokenResult → ChainState → List Visited × Option (ChainState × TokenResult)
  | [], token, s => ([], some (s, token))
  | slot :: slots, token, s =>
    match slot.toSlot.isContinue token s with
    | (s, false) =>
      let r := runChain env t c slots token s
      (⟨slot, none⟩ :: r.1, r.2)
    | (s, true) =>
      match slot.toSlot.entry env t c s with
      | none => ([⟨slot, some ⟨s, none⟩⟩], none)
      | some (s', token) =>
        let r := runChain env t c slots token s'
        (⟨slot, some ⟨s, some (s', token)⟩⟩ :: r.1, r.2)

section

variable {env : Env} {t : ℕ} {c : Call}

/-- **The notes change nothing.** -/
theorem chainEntry_toSlot (slots : List ChainSlot) (token : TokenResult) (s : ChainState) :
    chainEntry env t c (slots.map ChainSlot.toSlot) token s = (runChain env t c slots token s).2 := by
  induction slots generalizing token s with
  | nil => rfl
  | cons slot slots ih =>
    rw [List.map_cons, chainEntry, runChain]
    rcases slot.toSlot.isContinue token s with ⟨s', _ | _⟩
    · exact ih token s'
    · dsimp only
      rcases slot.toSlot.entry env t c s' with _ | ⟨s'', token'⟩
      · rfl
      · exact ih token' s''

/-- A run that comes to its end has come to every slot. -/
theorem runChain_slots (slots : List ChainSlot) (token : TokenResult) (s : ChainState)
    (h : (runChain env t c slots token s).2 ≠ none) :
    (runChain env t c slots token s).1.map Visited.slot = slots := by
  induction slots generalizing token s with
  | nil => rfl
  | cons slot slots ih =>
    revert h
    rw [runChain]
    rcases slot.toSlot.isContinue token s with ⟨s', _ | _⟩
    · exact fun h => congrArg (slot :: ·) (ih token s' h)
    · dsimp only
      rcases slot.toSlot.entry env t c s' with _ | ⟨s'', token'⟩
      · exact fun h => absurd rfl h
      · exact fun h => congrArg (slot :: ·) (ih token' s'' h)

end

/-! ### What is noted of a block -/

namespace Visited

/-- A rule checker that blocks. -/
def Blocks (p : Visited) (reason : String) : Prop :=
  (∃ checker, p.slot = .ruleChecker checker) ∧
    ∃ v s', p.visit = some v ∧ v.outcome = some (s', .blocked reason)

/-- A block has been recorded: the block counters of the nodes of the call have gone up by its count, the
pass counters and the numbers of calls in progress have not, and no argument has been counted. -/
structure RecordsBlock (t : ℕ) (c : Call) (reason : String) (v : Visit) (s' : ChainState) : Prop where
  outcome : v.outcome = some (s', .blocked reason)
  counted : ResourceNodeStorage.Counted t .block c.count 0 (v.before.countedNodes c)
    v.before.world.storage s'.world.storage
  metricMap : s'.world.metricMap = v.before.world.metricMap
  blockError : s'.entry.blockError = reason

/-- A pass has been recorded: the pass counters of the nodes of the call have gone up by its count, the
block counters have not, and one more call is in progress; the entry is not marked as blocked. -/
structure RecordsPass (t : ℕ) (c : Call) (v : Visit) (s' : ChainState) : Prop where
  outcome : v.outcome = some (s', .ok)
  counted : ResourceNodeStorage.Counted t .pass c.count 1 (v.before.countedNodes c)
    v.before.world.storage s'.world.storage
  blockError : s'.entry.blockError = v.before.entry.blockError

/-- The slot has died of a pass: the length of a bucket that counts an argument is zero. -/
structure Dies (c : Call) (v : Visit) : Prop where
  outcome : v.outcome = none
  faults : Param.addPassFaults v.before.world.metricMap c.resource c.params = true

/-- What a slot behind a block does: a checker does not run, a statistics slot sees the block, and
`StatisticSlot` records it and no pass. -/
structure Behind (t : ℕ) (c : Call) (reason : String) (p : Visited) : Prop where
  checker : ∀ checker, p.slot = .ruleChecker checker → p.visit = none
  seen : p.slot.IsStats → ∃ v, p.visit = some v ∧ v.before.lastTokenResult c = some (.blocked reason)
  recorded : p.slot = .statisticSlot → ∃ v s', p.visit = some v ∧ RecordsBlock t c reason v s' ∧
    ¬ RecordsPass t c v s'

/-- What `StatisticSlot` does ahead of a block. -/
def Passes (t : ℕ) (c : Call) (p : Visited) : Prop :=
  ∃ v, p.visit = some v ∧ (Dies c v ∨ ∃ s', RecordsPass t c v s' ∧ ∀ reason, ¬ RecordsBlock t c reason v s')

variable {t : ℕ} {c : Call} {v : Visit} {s' : ChainState}

/-- A pass is not a block. -/
theorem RecordsPass.not_recordsBlock (h : RecordsPass t c v s') (reason : String) :
    ¬ RecordsBlock t c reason v s' := by
  intro hblock
  have hresult := h.outcome.symm.trans hblock.outcome
  rw [Option.some.injEq, Prod.mk.injEq] at hresult
  exact TokenResult.noConfusion hresult.2

end Visited

/-- **How a block propagates.**  The first checker that blocks decides the result, and every slot behind it
is told; when no checker blocks, no `StatisticSlot` records a block.  Nothing but a pass can end the run
before its end. -/
structure Propagates (t : ℕ) (c : Call) (visits : List Visited)
    (final : Option (ChainState × TokenResult)) : Prop where
  returns : final = none → ∃ q ∈ visits, q.slot = .statisticSlot ∧ ∃ v, q.visit = some v ∧ Visited.Dies c v
  first : ∀ pre p post reason, visits = pre ++ p :: post → p.Blocks reason →
    (∀ q ∈ pre, ∀ reason', ¬ q.Blocks reason') →
    (∃ s', final = some (s', .blocked reason)) ∧ ∀ q ∈ post, q.Behind t c reason
  none : (∀ q ∈ visits, ∀ reason, ¬ q.Blocks reason) →
    ∀ q ∈ visits, q.slot = .statisticSlot → q.Passes t c

namespace Propagates

variable {t : ℕ} {c : Call} {visits : List Visited} {final : Option (ChainState × TokenResult)}
  {p : Visited}

theorem nil {r : ChainState × TokenResult} : Propagates t c [] (some r) where
  first := fun pre p post reason h => by simp at h
  none := fun _ q hq => absurd hq List.not_mem_nil
  returns := fun h => absurd h (Option.some_ne_none _)

/-- A slot in front that does not block. -/
theorem cons (h : Propagates t c visits final) (hp : ∀ reason, ¬ p.Blocks reason)
    (hpass : p.slot = .statisticSlot → p.Passes t c) : Propagates t c (p :: visits) final where
  first := fun pre q post reason heq hq hfirst => by
    cases pre with
    | nil =>
      obtain ⟨rfl, -⟩ := List.cons.inj heq
      exact absurd hq (hp reason)
    | cons p' pre =>
      obtain ⟨-, heq⟩ := List.cons.inj heq
      exact h.first pre q post reason heq hq fun q' hq' => hfirst q' (List.mem_cons_of_mem _ hq')
  none := fun hnone q hq hslot => by
    rcases List.mem_cons.mp hq with rfl | hq
    · exact hpass hslot
    · exact h.none (fun q' hq' => hnone q' (List.mem_cons_of_mem _ hq')) q hq hslot
  returns := fun hnone => by
    obtain ⟨q, hq, hdies⟩ := h.returns hnone
    exact ⟨q, List.mem_cons_of_mem _ hq, hdies⟩

/-- A checker in front that blocks. -/
theorem cons_blocks {reason : String} {s' : ChainState} (hp : p.Blocks reason)
    (hbehind : ∀ q ∈ visits, q.Behind t c reason) :
    Propagates t c (p :: visits) (some (s', .blocked reason)) where
  first := fun pre q post reason' heq hq hfirst => by
    cases pre with
    | nil =>
      obtain ⟨rfl, rfl⟩ := List.cons.inj heq
      obtain ⟨v, s₁, hv, hresult⟩ := hp.2
      obtain ⟨v', s₂, hv', hresult'⟩ := hq.2
      obtain rfl : v = v' := Option.some.inj (hv.symm.trans hv')
      have hsame := Option.some.inj (hresult.symm.trans hresult')
      obtain rfl : reason = reason' := TokenResult.blocked.inj (Prod.mk.inj hsame).2
      exact ⟨⟨s', rfl⟩, hbehind⟩
    | cons p' pre =>
      obtain ⟨rfl, -⟩ := List.cons.inj heq
      exact absurd hp (hfirst _ List.mem_cons_self reason)
  none := fun hnone => absurd hp (hnone p List.mem_cons_self reason)
  returns := fun h => absurd h (Option.some_ne_none _)

/-- A `StatisticSlot` in front that dies. -/
theorem dies {v : Visit} (hslot : p.slot = .statisticSlot) (hv : p.visit = some v)
    (hdies : Visited.Dies c v) : Propagates t c [p] .none where
  first := fun pre q post reason heq hq _ => by
    have hmem : q ∈ [p] := heq ▸ List.mem_append_right pre List.mem_cons_self
    obtain rfl := List.mem_singleton.mp hmem
    obtain ⟨⟨checker, hchecker⟩, -⟩ := hq
    rw [hslot] at hchecker
    cases hchecker
  none := fun _ q hq _ => List.mem_singleton.mp hq ▸ ⟨v, hv, .inl hdies⟩
  returns := fun _ => ⟨p, List.mem_cons_self, hslot, v, hv, hdies⟩

end Propagates

section

variable {env : Env} {t : ℕ} {c : Call} {s : ChainState}

/-- `StatsSlot::IsContinue` hands the result on through the context. -/
theorem isContinue_stats {slot : ChainSlot} (hstats : slot.IsStats) (token : TokenResult)
    (hs : s.entry.context = c.context) : ∃ s', slot.toSlot.isContinue token s = (s', true) ∧
      s'.lastTokenResult c = some token ∧ s'.entry.context = c.context := by
  have htype : slot.toSlot.type = .statsSlot := by
    cases slot with
    | ruleChecker checker => exact absurd hstats id
    | statisticSlot | completeStatSlot | logSlot => rfl
  unfold Slot.isContinue
  rw [htype]
  refine ⟨_, rfl, ?_, hs⟩
  unfold ChainState.lastTokenResult World.modifyContext
  dsimp only
  rw [hs, Function.update_self]

/-- A slot keeps the context of the entry. -/
theorem toSlot_context {slot : ChainSlot} {r : ChainState × TokenResult}
    (h : slot.toSlot.entry env t c s = some r) : r.1.entry.context = s.entry.context := by
  cases slot with
  | ruleChecker checker =>
    obtain rfl := Option.some.inj h
    exact checker.entry_context env t c s
  | statisticSlot => exact @statisticSlotEntry_context env t c s r h
  | completeStatSlot | logSlot =>
    obtain rfl := Option.some.inj h
    rfl

theorem lastTokenResultEntry_eq (env : Env) (t : ℕ) {token : TokenResult}
    (hseen : s.lastTokenResult c = some token) :
    lastTokenResultEntry env t c s = some (s, token) := by
  show some (s, (s.lastTokenResult c).getD .ok) = _
  rw [hseen, Option.getD_some]

/-- Behind a block a statistics slot returns, hands the block on, and `StatisticSlot` records it. -/
theorem toSlot_blocked {slot : ChainSlot} (hstats : slot.IsStats) {reason : String}
    (hseen : s.lastTokenResult c = some (.blocked reason)) :
    ∃ s', slot.toSlot.entry env t c s = some (s', .blocked reason) ∧
      (slot = .statisticSlot →
        Visited.RecordsBlock t c reason ⟨s, some (s', .blocked reason)⟩ s') := by
  cases slot with
  | ruleChecker checker => exact absurd hstats id
  | statisticSlot =>
    exact ⟨_, statisticSlotEntry_blocked env hseen, fun _ => ⟨rfl, counted_onBlock reason, rfl, rfl⟩⟩
  | completeStatSlot | logSlot =>
    exact ⟨s, lastTokenResultEntry_eq env t hseen, fun h => ChainSlot.noConfusion h⟩

/-- Behind a block: the run comes to its end, the block is the result, and every slot is behind it. -/
theorem runChain_blocked (slots : List ChainSlot) {reason : String} (hs : s.entry.context = c.context) :
    (∃ s', (runChain env t c slots (.blocked reason) s).2 = some (s', .blocked reason)) ∧
      ∀ p ∈ (runChain env t c slots (.blocked reason) s).1, p.Behind t c reason := by
  induction slots generalizing s with
  | nil => exact ⟨⟨s, rfl⟩, fun p hp => absurd hp List.not_mem_nil⟩
  | cons slot slots ih =>
    rw [runChain]
    by_cases hstats : slot.IsStats
    · obtain ⟨s', hcontinue, hseen, hs'⟩ := isContinue_stats hstats (.blocked reason) hs
      obtain ⟨s'', hentry, hrecords⟩ := @toSlot_blocked env t c s' slot hstats reason hseen
      rw [hcontinue]
      dsimp only
      rw [hentry]
      obtain ⟨hfinal, hbehind⟩ := ih ((toSlot_context hentry).trans hs')
      refine ⟨hfinal, List.forall_mem_cons.mpr ⟨?_, hbehind⟩⟩
      refine ⟨fun checker hslot => ?_, fun _ => ⟨_, rfl, hseen⟩, fun hslot => ?_⟩
      · obtain rfl : slot = .ruleChecker checker := hslot
        exact absurd hstats id
      · exact ⟨_, s'', rfl, hrecords hslot, fun hpass => hpass.not_recordsBlock reason (hrecords hslot)⟩
    · cases slot with
      | ruleChecker checker =>
        obtain ⟨hfinal, hbehind⟩ := ih hs
        refine ⟨hfinal, List.forall_mem_cons.mpr ⟨?_, hbehind⟩⟩
        exact ⟨fun _ _ => rfl, fun h => absurd h hstats, fun h => ChainSlot.noConfusion h⟩
      | statisticSlot | completeStatSlot | logSlot => exact absurd trivial hstats

/-- Ahead of a block a statistics slot hands on a result that is not one, and `StatisticSlot` records a
pass, or dies of it. -/
theorem toSlot_pass {slot : ChainSlot} (hstats : slot.IsStats) {token : TokenResult}
    (htoken : token.isBlocked = false) (hseen : s.lastTokenResult c = some token) :
    (∃ s' token', slot.toSlot.entry env t c s = some (s', token') ∧ token'.isBlocked = false ∧
      (slot = .statisticSlot → Visited.RecordsPass t c ⟨s, some (s', token')⟩ s')) ∨
    (slot = .statisticSlot ∧ slot.toSlot.entry env t c s = none ∧ Visited.Dies c ⟨s, none⟩) := by
  cases slot with
  | ruleChecker checker => exact absurd hstats id
  | statisticSlot =>
    have hentry := statisticSlotEntry_pass env (t := t) hseen htoken
    by_cases hfaults : Param.addPassFaults s.world.metricMap c.resource c.params = true
    · rw [if_pos hfaults] at hentry
      exact .inr ⟨rfl, hentry, rfl, hfaults⟩
    · rw [if_neg hfaults] at hentry
      exact .inl ⟨_, _, hentry, rfl, fun _ => ⟨rfl, counted_onPass, rfl⟩⟩
  | completeStatSlot | logSlot =>
    exact .inl ⟨s, token, lastTokenResultEntry_eq env t hseen, htoken, fun h => ChainSlot.noConfusion h⟩

/-- The slots in turn. -/
theorem runChain_propagates (slots : List ChainSlot) {token : TokenResult}
    (htoken : token.isBlocked = false) (hs : s.entry.context = c.context) :
    Propagates t c (runChain env t c slots token s).1 (runChain env t c slots token s).2 := by
  induction slots generalizing token s with
  | nil => exact .nil
  | cons slot slots ih =>
    rw [runChain]
    by_cases hstats : slot.IsStats
    · obtain ⟨s', hcontinue, hseen, hs'⟩ := isContinue_stats hstats token hs
      have hchecker : ∀ v reason, ¬ (⟨slot, v⟩ : Visited).Blocks reason := by
        rintro v reason ⟨⟨checker, hslot⟩, -⟩
        obtain rfl : slot = .ruleChecker checker := hslot
        exact hstats
      rw [hcontinue]
      dsimp only
      rcases @toSlot_pass env t c s' slot hstats token htoken hseen with
        ⟨s'', token', hentry, hnext, hrecords⟩ | ⟨hslot, hentry, hdies⟩
      · rw [hentry]
        refine (ih hnext ((toSlot_context hentry).trans hs')).cons (hchecker _) fun hslot => ?_
        exact ⟨_, rfl, .inr ⟨s'', hrecords hslot, (hrecords hslot).not_recordsBlock⟩⟩
      · rw [hentry]
        exact .dies hslot rfl hdies
    · cases slot with
      | statisticSlot | completeStatSlot | logSlot => exact absurd trivial hstats
      | ruleChecker checker =>
        have hslot : ChainSlot.ruleChecker checker ≠ .statisticSlot := ChainSlot.noConfusion
        by_cases hok : token = .ok
        · have hcontinue : (ChainSlot.ruleChecker checker).toSlot.isContinue token s = (s, true) := by
            rw [hok]
            rfl
          have hentry : (ChainSlot.ruleChecker checker).toSlot.entry env t c s =
              some (checker.entry env t c s) := rfl
          rw [hcontinue]
          dsimp only
          rw [hentry]
          dsimp only
          have hs' : (checker.entry env t c s).1.entry.context = c.context :=
            (checker.entry_context env t c s).trans hs
          by_cases hblocked : (checker.entry env t c s).2.isBlocked = true
          · obtain ⟨reason, hreason⟩ := TokenResult.isBlocked_iff.mp hblocked
            obtain ⟨⟨s', hfinal⟩, hbehind⟩ := @runChain_blocked env t c _ slots reason hs'
            rw [hreason, hfinal]
            exact .cons_blocks ⟨⟨checker, rfl⟩, _, _, rfl, rfl⟩ hbehind
          · refine (ih (Bool.eq_false_of_not_eq_true hblocked) hs').cons (fun reason hblocks => ?_)
              fun h => absurd h hslot
            obtain ⟨-, v, s', hv, hreason⟩ := hblocks
            obtain rfl := Option.some.inj hv
            have hresult := congrArg Prod.snd (Option.some.inj hreason)
            exact absurd (TokenResult.isBlocked_iff.mpr ⟨reason, hresult⟩) hblocked
        · -- passed over
          have hcontinue : (ChainSlot.ruleChecker checker).toSlot.isContinue token s = (s, false) := by
            show (s, decide (token = .ok)) = _
            rw [decide_eq_false hok]
          rw [hcontinue]
          refine (ih htoken hs).cons (fun reason hblocks => ?_) fun h => absurd h hslot
          obtain ⟨-, v, s', hv, -⟩ := hblocks
          exact absurd hv.symm (Option.some_ne_none v)

/-- **A block propagates through any chain**, whatever its checkers do. -/
theorem block_propagates (slots : List ChainSlot) (hs : s.entry.context = c.context) :
    let r := runChain env t c slots .ok s
    chainEntry env t c (slots.map ChainSlot.toSlot) .ok s = r.2 ∧
      (r.2 ≠ none → r.1.map Visited.slot = slots) ∧ Propagates t c r.1 r.2 :=
  ⟨chainEntry_toSlot slots .ok s, runChain_slots slots .ok s, runChain_propagates slots rfl hs⟩

end

/-- A checker that blocks everything. -/
def blockAll : RuleChecker where
  entry := fun _ _ _ s => (s, .blocked "test")
  exit := noExit
  entry_context := fun _ _ _ _ => rfl

/-- An inbound call of weight 3 that one checker blocks ahead of two statistics slots: the entry node
counts a block of 3 and no pass, and nothing is in progress. -/
theorem block_propagates_example :
    let env := Env.simple ""
    let call : Call := ⟨0, "test_resource", .IN, 3, []⟩
    let entry : Entry :=
      { resource := "test_resource", entryType := .IN, context := 0, createTime := 0 }
    let slots := [.ruleChecker blockAll, .statisticSlot, .logSlot]
    let r := runChain env 0 call slots .ok ⟨World.start env, entry, none⟩
    (chainEntry env 0 call (slots.map ChainSlot.toSlot) .ok ⟨World.start env, entry, none⟩ = r.2 ∧
      (r.2 ≠ none → r.1.map Visited.slot = slots) ∧ Propagates 0 call r.1 r.2) ∧
    r.2.map (fun x => (x.2, (x.1.world.storage.entryNode.blockCountInMinute 0).2,
      (x.1.world.storage.entryNode.passCountInMinute 0).2, x.1.world.storage.entryNode.curThreadNum)) =
        some (.blocked "test", 3, 0, 0) :=
  ⟨block_propagates _ rfl, by decide⟩

end SentinelCpp
