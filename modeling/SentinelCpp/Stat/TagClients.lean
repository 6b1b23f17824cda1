import SentinelCpp.Lib.Run
import SentinelCpp.Stat.Node

/-!
# Clients of one cluster node

`GetOrCreateTagNode` looks the tag up in one critical section and, when it is absent, creates its node
in another.  Any number of clients interleave these sections.  `insert` keeps the node that is there,
but the client returns the one it made: a tag gets two nodes exactly when a client creates a node for a
tag that another client has created since it looked.
-/

namespace SentinelCpp.Stat.TagClients

open Lib

/-- Where a client stands: between calls, or past a lookup that found nothing. -/
inductive Pc
  | idle
  | absent (tag : String)
  deriving DecidableEq

/-- The map of the cluster node, nodes by number, and the clients.  History: what the calls returned for
their tags. -/
structure Clients where
  tagNodeMap : Assoc String ℕ
  created : ℕ
  pc : ℕ → Pc
  returned : List (String × Option ℕ)

inductive Action
  /-- The reader section of `GetTagNode(tag)`, with which client `i` begins a call. -/
  | lookUp (i : ℕ) (tag : String)
  /-- The writer section of `GetOrCreateTagNode`. -/
  | create (i : ℕ)
  deriving DecidableEq

namespace Clients

/-- A cluster node just made. -/
def start : Clients where
  tagNodeMap := []
  created := 0
  pc := fun _ => .idle
  returned := []

variable (s : Clients) (i : ℕ)

/-- The client goes on at `p`. -/
def goto (p : Pc) : Clients := { s with pc := Function.update s.pc i p }

/-- The call for `tag` returns. -/
def ret (tag : String) (node : Option ℕ) : Clients :=
  { s with returned := s.returned ++ [(tag, node)] }.goto i .idle

/-- `make_shared` and `insert`, which leaves a tag that is there alone. -/
def insertNode (tag : String) : Clients :=
  { s with tagNodeMap := s.tagNodeMap.insertNew tag s.created, created := s.created + 1 }

def step : Action → Option Clients
  | .lookUp i tag =>
    if s.pc i = .idle then
      match s.tagNodeMap.find? tag with
      | some node => some (s.ret i tag (some node))
      | none => some (s.goto i (.absent tag))
    else none
  | .create i =>
    match s.pc i with
    | .idle => none
    | .absent tag =>
      if s.tagNodeMap.length > Constants.kMaxTagSize then some (s.ret i tag none)
      else some ((s.insertNode tag).ret i tag (some s.created))

end Clients

/-- An interleaving of the clients. -/
abbrev Steps : Clients → List Action → Clients → Prop := Run fun s a s' => s.step a = some s'

/-- **Inversion of a step**: a hit, a miss, a full map, or a node made. -/
theorem step_cases {s s' : Clients} {a : Action} (h : s.step a = some s') :
    (∃ i tag node, a = .lookUp i tag ∧ s.tagNodeMap.find? tag = some node ∧
      s' = s.ret i tag (some node)) ∨
    (∃ i tag, a = .lookUp i tag ∧ s.tagNodeMap.find? tag = none ∧ s' = s.goto i (.absent tag)) ∨
    (∃ i tag, a = .create i ∧ s.pc i = .absent tag ∧
      Constants.kMaxTagSize < s.tagNodeMap.length ∧ s' = s.ret i tag none) ∨
    (∃ i tag, a = .create i ∧ s.pc i = .absent tag ∧
      s.tagNodeMap.length ≤ Constants.kMaxTagSize ∧
      s' = (s.insertNode tag).ret i tag (some s.created)) := by
  cases a with
  | lookUp i tag =>
    rw [Clients.step] at h
    split_ifs at h with hi
    cases hf : s.tagNodeMap.find? tag with
    | some node =>
      rw [hf] at h
      exact .inl ⟨i, tag, node, rfl, hf, (Option.some.inj h).symm⟩
    | none =>
      rw [hf] at h
      exact .inr (.inl ⟨i, tag, rfl, hf, (Option.some.inj h).symm⟩)
  | create i =>
    rw [Clients.step] at h
    cases hi : s.pc i with
    | idle => simp [hi] at h
    | absent tag =>
      rw [hi] at h
      dsimp only at h
      split_ifs at h with hfull
      · exact .inr (.inr (.inl ⟨i, tag, rfl, hi, hfull, (Option.some.inj h).symm⟩))
      · exact .inr (.inr (.inr ⟨i, tag, rfl, hi, not_lt.mp hfull, (Option.some.inj h).symm⟩))

theorem step_det (s : Clients) (a : Action) (s₁ s₂ : Clients) (h₁ : s.step a = some s₁)
    (h₂ : s.step a = some s₂) : s₁ = s₂ :=
  Option.some.inj (h₁.symm.trans h₂)

/-! ### What every interleaving keeps -/

/-- The nodes of the map are among those made, and the map is never larger than one past the limit. -/
structure Inv (s : Clients) : Prop where
  made : ∀ tag node, s.tagNodeMap.find? tag = some node → node < s.created
  bounded : s.tagNodeMap.length ≤ Constants.kMaxTagSize + 1

theorem inv_start : Inv .start := by
  refine ⟨fun tag node h => ?_, Nat.zero_le _⟩
  simp [Clients.start] at h

theorem Inv.step {s s' : Clients} {a : Action} (hi : Inv s) (h : s.step a = some s') : Inv s' := by
  rcases step_cases h with ⟨i, tag, node, -, -, rfl⟩ | ⟨i, tag, -, -, rfl⟩ | ⟨i, tag, -, -, -, rfl⟩ |
    ⟨i, tag, -, -, hroom, rfl⟩
  · exact ⟨hi.made, hi.bounded⟩
  · exact ⟨hi.made, hi.bounded⟩
  · exact ⟨hi.made, hi.bounded⟩
  · refine ⟨fun g node hg => ?_, ?_⟩
    · have hg' : (s.tagNodeMap.insertNew tag s.created).find? g = some node := hg
      show node < s.created + 1
      rw [Assoc.find?_insertNew] at hg'
      split_ifs at hg' with htag
      · cases hf : s.tagNodeMap.find? tag with
        | none =>
          rw [hf, Option.getD_none, Option.some.injEq] at hg'
          omega
        | some node' =>
          rw [hf, Option.getD_some, Option.some.injEq] at hg'
          have := hi.made tag node' hf
          omega
      · exact Nat.lt_succ_of_lt (hi.made g node hg')
    · show (s.tagNodeMap.insertNew tag s.created).length ≤ Constants.kMaxTagSize + 1
      have := Assoc.length_insertNew_le s.tagNodeMap tag s.created
      omega

theorem inv_run {s : Clients} {tr : List Action} (hr : Steps .start tr s) : Inv s :=
  Run.hist (I := fun _ s => Inv s) inv_start (fun _ _ _ _ _ hi hs => hi.step hs) hr

/-! ### One node for each tag -/

/-- Calls of one tag that return a node return the same one, the one in the map; and the map has at most
one tag more than the limit. -/
structure OneNodePerTag (s : Clients) : Prop where
  same : ∀ tag node node', (tag, some node) ∈ s.returned → (tag, some node') ∈ s.returned →
    node = node'
  stored : ∀ tag node, (tag, some node) ∈ s.returned → s.tagNodeMap.find? tag = some node
  bounded : s.tagNodeMap.length ≤ Constants.kMaxTagSize + 1

/-- A writer section finds its tag still absent, or the map full. -/
def CreatesAbsent (s : Clients) : Action → Prop
  | .lookUp _ _ => True
  | .create i => ∀ tag, s.pc i = .absent tag →
    s.tagNodeMap.find? tag = none ∨ Constants.kMaxTagSize < s.tagNodeMap.length

theorem oneNodePerTag_of_stored {s : Clients}
    (hstored : ∀ tag node, (tag, some node) ∈ s.returned → s.tagNodeMap.find? tag = some node)
    (hbounded : s.tagNodeMap.length ≤ Constants.kMaxTagSize + 1) : OneNodePerTag s := by
  refine ⟨fun tag node node' h h' => ?_, hstored, hbounded⟩
  exact Option.some.inj ((hstored tag node h).symm.trans (hstored tag node' h'))

theorem oneNodePerTag_start : OneNodePerTag .start := by
  refine oneNodePerTag_of_stored (fun tag node h => ?_) (Nat.zero_le _)
  simp [Clients.start] at h

/-- **One step** keeps the property exactly when it meets the condition. -/
theorem OneNodePerTag.step_iff {s s' : Clients} {a : Action} (hi : Inv s) (hP : OneNodePerTag s)
    (h : s.step a = some s') : OneNodePerTag s' ↔ CreatesAbsent s a := by
  have hi' := hi.step h
  rcases step_cases h with ⟨i, tag, node, rfl, hf, rfl⟩ | ⟨i, tag, rfl, -, rfl⟩ |
    ⟨i, tag, rfl, hpc, hfull, rfl⟩ | ⟨i, tag, rfl, hpc, hroom, rfl⟩
  · refine iff_of_true (oneNodePerTag_of_stored (fun g n hg => ?_) hP.bounded) trivial
    rcases List.mem_append.mp hg with hg | hg
    · exact hP.stored g n hg
    · obtain ⟨rfl, rfl⟩ : g = tag ∧ n = node := by simpa using hg
      exact hf
  · exact iff_of_true ⟨hP.same, hP.stored, hP.bounded⟩ trivial
  · refine iff_of_true (oneNodePerTag_of_stored (fun g n hg => ?_) hP.bounded)
      fun _ _ => .inr hfull
    rcases List.mem_append.mp hg with hg | hg
    · exact hP.stored g n hg
    · simp at hg
  · have hfind : ∀ g, ((s.insertNode tag).ret i tag (some s.created)).tagNodeMap.find? g =
        if g = tag then some ((s.tagNodeMap.find? tag).getD s.created)
        else s.tagNodeMap.find? g := s.tagNodeMap.find?_insertNew tag s.created
    constructor
    · -- the node returned is the one just made, so the map must have taken it
      rintro hP' tag' hpc'
      obtain rfl : tag = tag' := Pc.absent.inj (hpc.symm.trans hpc')
      have hnew := hP'.stored tag s.created (List.mem_append_right _ (List.mem_singleton.mpr rfl))
      rw [hfind, if_pos rfl] at hnew
      cases hf : s.tagNodeMap.find? tag with
      | none => exact .inl rfl
      | some node =>
        rw [hf, Option.getD_some, Option.some.injEq] at hnew
        have := hi.made tag node hf
        omega
    · intro hC
      have hf : s.tagNodeMap.find? tag = none := (hC tag hpc).resolve_right (not_lt.mpr hroom)
      refine oneNodePerTag_of_stored (fun g n hg => ?_) hi'.bounded
      rw [hfind]
      rcases List.mem_append.mp hg with hg | hg
      · have hstored := hP.stored g n hg
        have hne : g ≠ tag := by
          rintro rfl
          rw [hf] at hstored
          simp at hstored
        rw [if_neg hne, hstored]
      · obtain ⟨rfl, rfl⟩ : g = tag ∧ n = s.created := by simpa using hg
        rw [if_pos rfl, hf, Option.getD_none]

/-- **One node for each tag.**  In an interleaving of any clients, the property holds in every state
exactly when every writer section finds its tag still absent or the map full. -/
theorem oneNodePerTag_iff {tr : List Action} {s : Clients} (hr : Steps .start tr s) :
    Always (fun s a s' => Clients.step s a = some s') .start OneNodePerTag tr ↔
      EveryStep (fun s a s' => Clients.step s a = some s') .start CreatesAbsent tr :=
  always_iff_everyStep step_det oneNodePerTag_start
    (fun _ _ _ _ _ hr hP hs => hP.step_iff (inv_run hr) hs) hr

/-- Two clients that both look before either creates. -/
def bothLookFirst : List Action :=
  [.lookUp 0 "mobile", .lookUp 1 "mobile", .create 0, .create 1]

/-- Two clients that look one after the other. -/
def lookInTurn : List Action :=
  [.lookUp 0 "mobile", .create 0, .lookUp 1 "mobile"]

/-- The state after these sections. -/
def after (actions : List Action) : Option Clients := actions.foldlM Clients.step .start

/-- The two clients of `bothLookFirst` get two nodes for one tag. -/
theorem oneNodePerTag_fails : ∃ s, Steps .start bothLookFirst s ∧
    s.returned = [("mobile", some 0), ("mobile", some 1)] ∧ ¬ OneNodePerTag s := by
  have hsome : (after bothLookFirst).isSome = true := by decide
  have hret : (after bothLookFirst).map Clients.returned =
      some [("mobile", some 0), ("mobile", some 1)] := by decide
  obtain ⟨s, hs⟩ := Option.isSome_iff_exists.mp hsome
  rw [hs, Option.map_some, Option.some.injEq] at hret
  refine ⟨s, run_of_foldlM hs, hret, fun h => ?_⟩
  have hsame := h.same "mobile" 0 1 (by simp [hret]) (by simp [hret])
  omega

theorem oneNodePerTag_iff_example : ∃ s, Steps .start lookInTurn s ∧
    (Always (fun s a s' => Clients.step s a = some s') .start OneNodePerTag lookInTurn ↔
      EveryStep (fun s a s' => Clients.step s a = some s') .start CreatesAbsent lookInTurn) := by
  have hsome : (after lookInTurn).isSome = true := by decide
  obtain ⟨s, hs⟩ := Option.isSome_iff_exists.mp hsome
  exact ⟨s, run_of_foldlM hs, oneNodePerTag_iff (run_of_foldlM hs)⟩

/-! ### A client on its own -/

/-- **The two sections without interference** are `GetOrCreateTagNode`: the same tags in the map
afterwards, and a node returned in the same cases. -/
theorem getOrCreateTagNode_alone {s : Clients} {i : ℕ} (hi : s.pc i = .idle) (tag : String)
    (n : ClusterNode) (c : StatConfig) (hn : n.tagNodeMap.map Prod.fst = s.tagNodeMap.map Prod.fst) :
    ∃ s', (s.step (.lookUp i tag) = some s' ∨
        ∃ s₁, s.step (.lookUp i tag) = some s₁ ∧ s₁.step (.create i) = some s') ∧
      s'.tagNodeMap.map Prod.fst = (n.getOrCreateTagNode c tag).1.tagNodeMap.map Prod.fst ∧
      ∃ node, s'.returned = s.returned ++ [(tag, node)] ∧
        node.isSome = (n.getOrCreateTagNode c tag).2 := by
  have hlen : n.tagNodeMap.length = s.tagNodeMap.length := by
    simpa using congrArg List.length hn
  have hmem : n.tagNodeMap.find? tag = none ↔ s.tagNodeMap.find? tag = none := by
    rw [Assoc.find?_eq_none, Assoc.find?_eq_none, hn]
  unfold ClusterNode.getOrCreateTagNode ClusterNode.getTagNode
  cases hf : s.tagNodeMap.find? tag with
  | some node =>
    cases hf' : n.tagNodeMap.find? tag with
    | none =>
      rw [hmem.mp hf'] at hf
      exact absurd hf (by simp)
    | some node' =>
      refine ⟨s.ret i tag (some node), .inl ?_, hn.symm, some node, rfl, rfl⟩
      simp [Clients.step, hi, hf]
  | none =>
    rw [hmem.mpr hf]
    dsimp only
    have hlook : s.step (.lookUp i tag) = some (s.goto i (.absent tag)) := by
      simp [Clients.step, hi, hf]
    have hpc : (s.goto i (.absent tag)).pc i = .absent tag := Function.update_self ..
    rw [hlen]
    split_ifs with hfull
    · refine ⟨(s.goto i (.absent tag)).ret i tag none, .inr ⟨_, hlook, ?_⟩, hn.symm, none, rfl, rfl⟩
      rw [Clients.step, hpc]
      exact if_pos hfull
    · refine ⟨((s.goto i (.absent tag)).insertNode tag).ret i tag (some s.created),
        .inr ⟨_, hlook, ?_⟩, ?_, some s.created, rfl, rfl⟩
      · rw [Clients.step, hpc]
        exact if_neg hfull
      · show (s.tagNodeMap.insertNew tag s.created).map Prod.fst = _
        rw [Assoc.insertNew, hf]
        simp [hn]

end SentinelCpp.Stat.TagClients
