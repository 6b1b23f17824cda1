import SentinelCpp.Transport.Watching

/-!
# What the cluster nodes show

The window of one minute of a node has counted what the ledger of the calls has posted for its resource.
So a request for the cluster nodes shows the postings of the last minute and the calls in progress.
-/

namespace SentinelCpp.Transport

open Lib Stat

variable {env : Env} {order : IterationOrder (String × ClusterNode)} {t now : ℕ} {w w₁ : World}

/-! ### What is shown -/

/-- The postings of a resource. -/
def postingsOf (l : Ledger) (resource : String) : List (ℕ × Account) :=
  l.postingsOn (belongsTo (.cluster resource))

/-- Only resources that something has been posted for have a node. -/
def NodesPosted (w : World) (l : Ledger) : Prop :=
  ∀ resource, w.storage.node? (.cluster resource) ≠ none → postingsOf l resource ≠ []

/-- The node builder leaves the other resources alone. -/
theorem node?_builtNodes_of_ne (env : Env) (c : Call) {resource : String} (hne : resource ≠ c.resource) :
    (w.builtNodes env c).1.node? (.cluster resource) = w.storage.node? (.cluster resource) := by
  have hcluster : (w.storage.getOrCreateClusterNode w.config c.resource).node? (.cluster resource) =
      w.storage.node? (.cluster resource) := by
    rw [node?_getOrCreateClusterNode, if_neg (by simpa using hne)]
  unfold World.builtNodes tagNodeFor
  dsimp only
  split_ifs
  · cases (w.storage.getOrCreateClusterNode w.config c.resource).getClusterNode c.resource with
    | none => exact hcluster
    | some n =>
      rw [← hcluster]
      simp only [ResourceNodeStorage.node?, ResourceNodeStorage.getClusterNode]
      rw [Assoc.find?_modify_of_ne hne]
  · exact hcluster

theorem node?_ne_none_of_map {o : Option StatisticNode} {f : StatisticNode → StatisticNode}
    (h : o.map f ≠ none) : o ≠ none := by
  rintro rfl
  exact h rfl

/-- The checks of a call build no node of another resource. -/
theorem node?_checked_of_ne {c : Call} {res : TokenResult} {resource : String}
    (hcheck : (w.built env c).ruleCheck env t c = some (w₁, res)) (hne : resource ≠ c.resource)
    (hex : w₁.storage.node? (.cluster resource) ≠ none) : w.storage.node? (.cluster resource) ≠ none := by
  have hread : Option.Rel (StatisticNode.ReadAt t) ((w.builtNodes env c).1.node? (.cluster resource))
      (w₁.storage.node? (.cluster resource)) := (World.ruleCheck_spec hcheck).storage.1 _
  rw [node?_builtNodes_of_ne env c hne] at hread
  intro hnone
  rw [hnone] at hread
  generalize w₁.storage.node? (.cluster resource) = o at hread hex
  cases hread
  exact hex rfl

/-- Postings are only added, and a node is new where something is posted. -/
theorem NodesPosted.grow {l l' : Ledger} (h : NodesPosted w l) {x : Posting}
    (hpostings : l'.postings = l.postings ++ [x])
    (hnode : ∀ resource, resource ≠ x.resource → w₁.storage.node? (.cluster resource) ≠ none →
      w.storage.node? (.cluster resource) ≠ none) : NodesPosted w₁ l' := by
  intro resource hex
  unfold postingsOf
  rw [Ledger.postingsOn_append _ hpostings]
  by_cases hr : resource = x.resource
  · simp [belongsTo, hr]
  · exact List.append_ne_nil_of_left_ne_nil (h resource (hnode resource hr hex)) _

/-- Nothing is posted, and no node is built. -/
theorem NodesPosted.same {l l' : Ledger} (h : NodesPosted w l) (hpostings : l'.postings = l.postings)
    (hnode : ∀ resource, w₁.storage.node? (.cluster resource) ≠ none →
      w.storage.node? (.cluster resource) ≠ none) : NodesPosted w₁ l' := by
  intro resource hex
  unfold postingsOf
  rw [Ledger.postingsOn, hpostings]
  exact h resource (hnode resource hex)

/-- **Each call** posts for the node it builds. -/
theorem NodesPosted.step {l : Ledger} (hB : Books env w l) (h : NodesPosted w l) {op : Op} {o : Outcome}
    (hE : Effect env t w op o w₁) : NodesPosted w₁ (l.step ((t, op), o)) := by
  cases hE with
  | notActivated hact =>
    exact h.same (Ledger.step_notActivated (fun _ _ => true) (hB.activated ▸ hact)).1 fun _ hex => hex
  | @passed c w₂ hact hcheck =>
    have htag := ((hB.built c).checked hcheck).isTagNode c.context
    refine h.grow (Ledger.step_passed (fun _ _ => true) (hB.activated ▸ hact)).1 fun resource hr hex => ?_
    dsimp only at hex
    rw [World.recordPass_node? htag] at hex
    split_ifs at hex
    · exact node?_checked_of_ne hcheck hr (node?_ne_none_of_map hex)
    · exact node?_checked_of_ne hcheck hr hex
  | @blocked c w₂ reason hact hcheck =>
    have htag := ((hB.built c).checked hcheck).isTagNode c.context
    refine h.grow (Ledger.step_blocked (fun _ _ => true) (hB.activated ▸ hact) reason).1
      fun resource hr hex => ?_
    rw [World.recordBlock_node? htag] at hex
    split_ifs at hex
    · exact node?_checked_of_ne hcheck hr (node?_ne_none_of_map hex)
    · exact node?_checked_of_ne hcheck hr hex
  | @exited id e count hid hlive =>
    obtain ⟨⟨c, b⟩, hcall, hx⟩ := exists_of_getElem?_left hB.entries hid
    have hb : b = true := by simpa [hlive] using hx.exited
    subst hb
    refine h.grow (Ledger.step_exited (fun _ _ => true) count hcall).1 fun resource _ hex => ?_
    rw [World.recordExit_node? (hB.isTagNode e.context)] at hex
    split_ifs at hex
    · exact node?_ne_none_of_map hex
    · exact hex
  | @exitedBefore id e count hid hlive =>
    obtain ⟨⟨c, b⟩, hcall, hx⟩ := exists_of_getElem?_left hB.entries hid
    have hb : b = false := by simpa [hlive] using hx.exited
    subst hb
    rw [Ledger.step_of_exited hcall]
    exact h
  | exitBlocked | setError | setActivated => exact h
  | @trace id e count hid =>
    rw [Ledger.step_of_other _ _ _ (by simp) (by simp) (by simp)]
    refine h.same rfl fun resource hex => ?_
    dsimp only at hex
    rw [node?_recordFor] at hex
    split_ifs at hex
    · exact node?_ne_none_of_map hex
    · exact hex
  | config r hw' hop hop' hop'' =>
    rw [Ledger.step_of_other _ _ _ hop hop' hop'', hw']
    refine h.same rfl fun resource hex => ?_
    rcases node?_setConfig w r (.cluster resource) with hsame | hreset
    · exact hsame ▸ hex
    · exact node?_ne_none_of_map (hreset ▸ hex)
  | rules hw' hcb hop hop' hop'' =>
    rw [Ledger.step_of_other _ _ _ hop hop' hop'', hw']
    exact h

theorem nodesPosted_run {tr : List Label} (hr : World.Steps env (.start env) tr w) :
    NodesPosted w (ledger tr) := by
  refine Run.hist (I := fun tr w => NodesPosted w (ledger tr)) (fun _ hex => absurd rfl hex) ?_ hr
  rintro tr w ⟨⟨t, op⟩, o⟩ w' hr hN hstep
  rw [ledger_concat]
  have hB := books_run hr
  exact hN.step hB (step_effect hB hstep)

/-- A resource has a node once something has been posted for it. -/
theorem node?_eq_none_iff {tr : List Label} (hr : World.Steps env (.start env) tr w)
    (hnow : ∀ x ∈ tr, x.1.1 ≤ now) (resource : String) :
    w.storage.node? (.cluster resource) = none ↔ postingsOf (ledger tr) resource = [] := by
  have hnode := (nodesConserve_run hr hnow).node (.cluster resource) (by simp [IsMainNode])
  refine ⟨fun hnone => (hnode.absent hnone).2.1, fun hnil => ?_⟩
  by_contra hex
  exact nodesPosted_run hr resource hex hnil

/-- What the view of a resource should show, from the postings alone. -/
structure ShowsPostings (l : Ledger) (t : ℕ) (vo : StatisticNodeVO) : Prop where
  threadNum : vo.threadNum = toInt32 (l.liveOn (belongsTo (.cluster vo.resource)))
  pass : vo.passPerMin = lastMinute (posted (postingsOf l vo.resource)) .pass t
  block : vo.blockPerMin = lastMinute (posted (postingsOf l vo.resource)) .block t
  total : vo.totalPerMin = vo.passPerMin + vo.blockPerMin
  timestamp : vo.timestamp = t

theorem toInt32_ofNat (k : ℕ) : toInt32 ((UInt32.ofNat k).toNat : ℤ) = toInt32 k := by
  unfold toInt32
  rw [UInt32.toNat_ofNat', Int.natCast_emod]
  exact Int.emod_bmod k (2 ^ 32)

/-- The view of a node that reads like one that has counted the postings. -/
theorem showsPostings_viewOf {l : Ledger} {resource : String} {n n' : StatisticNode}
    (halike : n.Alike t n')
    (hminute : n'.rollingCounterMinute.Keeps 60 1000 (posted (postingsOf l resource)) t)
    (hthreads : n'.curThreadNum = UInt32.ofNat (l.liveOn (belongsTo (.cluster resource)))) :
    ShowsPostings l t (viewOf t resource n) := by
  have hcount : ∀ event : MetricEvent, event.CountsCalls → (n.countInMinute event t).2 =
      lastMinute (posted (postingsOf l resource)) event t := by
    intro event hevent
    rw [halike.countInMinute le_rfl]
    exact hminute.getSum_eq le_rfl hevent
  refine ⟨?_, hcount .pass (.inl rfl), hcount .block (.inr (.inl rfl)), rfl, rfl⟩
  unfold viewOf
  dsimp only
  rw [halike.threads, hthreads, toInt32_ofNat]

/-- **The command shows what the calls have posted.**  In every run of calls and requests at times that do
not decrease, an answer has one view for each resource that a call has been posted for, with type
`notZero` for those that passed or blocked something in the last minute; each view has the passes and
blocks of the last minute and the calls in progress, as the ledger of the calls has them. -/
theorem shown_postings {tr : List Served} {type : Text} {vec : List StatisticNodeVO}
    (h : Run (StepOf (serve env order)) (.start env)
      (tr ++ [((t, .fetchClusterNode type), .shown vec)]) w)
    (hmono : InOrder (tr ++ [((t, .fetchClusterNode type), .shown vec)])) :
    (vec.map StatisticNodeVO.resource).Nodup ∧
      (∀ vo ∈ vec, ShowsPostings (ledger (callsOf tr)) t vo) ∧
      ∀ resource, (∃ vo ∈ vec, vo.resource = resource) ↔
        postingsOf (ledger (callsOf tr)) resource ≠ [] ∧
          (type = kNotZero → 0 < lastMinute (posted (postingsOf (ledger (callsOf tr)) resource)) .pass t +
            lastMinute (posted (postingsOf (ledger (callsOf tr)) resource)) .block t) := by
  obtain ⟨hmono', hbefore⟩ := hmono.of_concat
  obtain ⟨w₀, hr, hs⟩ := h.of_snoc
  obtain ⟨hsound, w', hr', halike⟩ := calls_run hr hmono' hbefore
  have hvec : (showNodes order t type w₀.storage).2 = vec := by
    have hreply : Reply.shown (showNodes order t type w₀.storage).2 = .shown vec := by
      have hsome : some (({ w₀ with storage := (showNodes order t type w₀.storage).1 } : World),
          Reply.shown (showNodes order t type w₀.storage).2) = some (w, .shown vec) := hs
      rw [Option.some.injEq, Prod.mk.injEq] at hsome
      exact hsome.2
    exact Reply.shown.inj hreply
  obtain ⟨-, hnodup, hmem⟩ := showNodes_spec order t type hsound.keys
  rw [hvec] at hnodup hmem
  obtain ⟨-, hcallsBefore⟩ := callsOf_inOrder hmono' hbefore
  obtain ⟨st', rfl, hst⟩ := halike
  have hnodes := nodesConserve_run hr' hcallsBefore
  have hview : ∀ resource n, w₀.storage.node? (.cluster resource) = some n →
      ShowsPostings (ledger (callsOf tr)) t (viewOf t resource n) := by
    intro resource n hn
    obtain ⟨n', hn', hnode⟩ := hst.node?_some hn
    have hconserves := hnodes.node (.cluster resource) (by simp [IsMainNode])
    have hthreads := hconserves.threads
    dsimp only at hthreads
    rw [hn'] at hthreads
    exact showsPostings_viewOf hnode (hconserves.minute n' hn') hthreads
  have htotal : ∀ resource n, w₀.storage.node? (.cluster resource) = some n →
      (n.totalCountInMinute t).2 =
        lastMinute (posted (postingsOf (ledger (callsOf tr)) resource)) .pass t +
          lastMinute (posted (postingsOf (ledger (callsOf tr)) resource)) .block t := by
    intro resource n hn
    have hshows := hview resource n hn
    rw [StatisticNode.totalCountInMinute_eq]
    exact congrArg₂ (· + ·) hshows.pass hshows.block
  refine ⟨hnodup, fun vo hvo => ?_, fun resource => ⟨?_, ?_⟩⟩
  · obtain ⟨r, n, hn, -, rfl⟩ := (hmem vo).mp hvo
    exact hview r n hn
  · rintro ⟨vo, hvo, rfl⟩
    obtain ⟨r, n, hn, hzero, rfl⟩ := (hmem vo).mp hvo
    refine ⟨fun hnil => ?_, fun htype => ?_⟩
    · obtain ⟨n', hn', -⟩ := hst.node?_some hn
      have hnone : st'.node? (.cluster r) = none := (node?_eq_none_iff hr' hcallsBefore r).mpr hnil
      rw [hn'] at hnone
      cases hnone
    · by_contra hle
      refine hzero ⟨htype, ?_⟩
      rw [htotal r n hn]
      exact not_lt.mp hle
  · rintro ⟨hne, hpos⟩
    cases hn : w₀.storage.node? (.cluster resource) with
    | none => exact absurd ((node?_eq_none_iff hr' hcallsBefore resource).mp (hst.node?_none hn)) hne
    | some n =>
      refine ⟨viewOf t resource n, (hmem _).mpr ⟨resource, n, hn, fun hzero => ?_, rfl⟩, rfl⟩
      have hlt := hpos hzero.1
      rw [← htotal resource n hn] at hlt
      exact absurd hzero.2 (not_le.mpr hlt)

theorem shown_postings_inProgress : ∃ w,
    Run (StepOf (serve (.simple "") (.insertion _))) (.start (.simple ""))
      ([((0, .call (.entry ⟨0, "r", .IN, 2, []⟩)), .outcome .passed)] ++
        [((5, .fetchClusterNode kNotZero), .shown [viewInProgress])]) w ∧
    postingsOf (ledger [((0, .entry ⟨0, "r", .IN, 2, []⟩), .passed)]) "r" ≠ [] ∧
    ShowsPostings (ledger [((0, .entry ⟨0, "r", .IN, 2, []⟩), .passed)]) 5 viewInProgress := by
  obtain ⟨w, -, hrun⟩ := exists_run_of_outputs (serve (.simple "") (.insertion _)) (.start (.simple ""))
    [(0, .call (.entry ⟨0, "r", .IN, 2, []⟩)), (5, .fetchClusterNode kNotZero)]
    [.outcome .passed, .shown [viewInProgress]] (by decide +kernel)
  have h : Run (StepOf (serve (.simple "") (.insertion _))) (.start (.simple ""))
      ([((0, .call (.entry ⟨0, "r", .IN, 2, []⟩)), .outcome .passed)] ++
        [((5, .fetchClusterNode kNotZero), .shown [viewInProgress])]) w := hrun
  obtain ⟨-, hviews, hresources⟩ := shown_postings h (by decide)
  exact ⟨w, h, ((hresources "r").mp ⟨viewInProgress, List.mem_cons_self, rfl⟩).1,
    hviews _ List.mem_cons_self⟩

end SentinelCpp.Transport
