import SentinelCpp.Lib.Run
import SentinelCpp.Stat.Node

/-!
# Clients of the node storage

`GetOrCreateClusterNode` looks the resource up in a reader section and, when it is absent, looks again and
creates its node in one writer section; `GetNodeMap` copies the map in a reader section.  However clients
interleave these sections and what they record on the nodes they were given, a resource has one node, which
has all that was recorded for the resource, and a copy of the map shows that node ever after.
-/

namespace SentinelCpp.Stat.NodeClients

open Lib

variable {β : Type}

/-- Where a client stands. -/
inductive Pc
  | idle
  /-- Past a lookup that found nothing. -/
  | absent (resource : String)
  /-- With the node the call has returned. -/
  | holds (resource : String) (node : ℕ)
  deriving DecidableEq

/-- The node map with nodes by number, what has been recorded on each node, and the clients.  History: the
copies of the map that were given out. -/
structure Clients (β : Type) where
  nodeMap : Assoc String ℕ
  created : ℕ
  recorded : ℕ → List β
  pc : ℕ → Pc
  copies : List (Assoc String ℕ)

inductive Action (β : Type)
  /-- The reader section of `GetClusterNode`, with which client `i` begins a call. -/
  | lookUp (i : ℕ) (resource : String)
  /-- The writer section of `GetOrCreateClusterNode`. -/
  | create (i : ℕ)
  /-- Something recorded for the resource, on the node of client `i`. -/
  | record (i : ℕ) (resource : String) (x : β)
  | leave (i : ℕ)
  /-- `GetNodeMap`. -/
  | copy

namespace Clients

def start : Clients β where
  nodeMap := []
  created := 0
  recorded := fun _ => []
  pc := fun _ => .idle
  copies := []

variable (s : Clients β) (i : ℕ)

def goto (p : Pc) : Clients β := { s with pc := Function.update s.pc i p }

def step : Action β → Option (Clients β)
  | .lookUp i resource =>
    if s.pc i = .idle then
      match s.nodeMap.find? resource with
      | some node => some (s.goto i (.holds resource node))
      | none => some (s.goto i (.absent resource))
    else none
  | .create i =>
    match s.pc i with
    | .absent resource =>
      match s.nodeMap.find? resource with
      | some node => some (s.goto i (.holds resource node))
      | none =>
        some ({ s with
          nodeMap := s.nodeMap ++ [(resource, s.created)]
          created := s.created + 1 }.goto i (.holds resource s.created))
    | _ => none
  | .record i resource x =>
    match s.pc i with
    | .holds r node =>
      if r = resource then
        some { s with recorded := Function.update s.recorded node (s.recorded node ++ [x]) }
      else none
    | _ => none
  | .leave i =>
    match s.pc i with
    | .holds _ _ => some (s.goto i .idle)
    | _ => none
  | .copy => some { s with copies := s.copies ++ [s.nodeMap] }

end Clients

abbrev Steps : Clients β → List (Action β) → Clients β → Prop := Run fun s a s' => s.step a = some s'

/-! ### What a step can do -/

/-- The ways a step changes the state. -/
inductive Effect (s : Clients β) : Action β → Clients β → Prop
  | found {i : ℕ} {resource : String} {node : ℕ} {a : Action β}
      (ha : a = .lookUp i resource ∨ a = .create i) (hfind : s.nodeMap.find? resource = some node) :
    Effect s a (s.goto i (.holds resource node))
  | missed {i : ℕ} {resource : String} (hfind : s.nodeMap.find? resource = none) :
    Effect s (.lookUp i resource) (s.goto i (.absent resource))
  | created {i : ℕ} {resource : String} (hfind : s.nodeMap.find? resource = none) :
    Effect s (.create i) ({ s with
      nodeMap := s.nodeMap ++ [(resource, s.created)]
      created := s.created + 1 }.goto i (.holds resource s.created))
  | recorded {i : ℕ} {resource : String} {node : ℕ} {x : β} (hpc : s.pc i = .holds resource node) :
    Effect s (.record i resource x)
      { s with recorded := Function.update s.recorded node (s.recorded node ++ [x]) }
  | left {i : ℕ} : Effect s (.leave i) (s.goto i .idle)
  | copied : Effect s .copy { s with copies := s.copies ++ [s.nodeMap] }

theorem step_effect {s s' : Clients β} {a : Action β} (h : s.step a = some s') : Effect s a s' := by
  cases a with
  | lookUp i resource =>
    rw [Clients.step] at h
    split_ifs at h
    cases hfind : s.nodeMap.find? resource with
    | some node =>
      rw [hfind] at h
      exact Option.some.inj h ▸ .found (.inl rfl) hfind
    | none =>
      rw [hfind] at h
      exact Option.some.inj h ▸ .missed hfind
  | create i =>
    rw [Clients.step] at h
    cases hpc : s.pc i with
    | idle | holds r node => simp [hpc] at h
    | absent resource =>
      rw [hpc] at h
      dsimp only at h
      cases hfind : s.nodeMap.find? resource with
      | some node =>
        rw [hfind] at h
        exact Option.some.inj h ▸ .found (.inr rfl) hfind
      | none =>
        rw [hfind] at h
        exact Option.some.inj h ▸ .created hfind
  | record i resource x =>
    rw [Clients.step] at h
    cases hpc : s.pc i with
    | idle | absent r => simp [hpc] at h
    | holds r node =>
      rw [hpc] at h
      dsimp only at h
      split_ifs at h with hr
      subst hr
      exact Option.some.inj h ▸ .recorded hpc
  | leave i =>
    rw [Clients.step] at h
    cases hpc : s.pc i with
    | idle | absent r => simp [hpc] at h
    | holds r node =>
      rw [hpc] at h
      exact Option.some.inj h ▸ .left
  | copy => exact Option.some.inj h ▸ .copied

/-! ### One node for each resource -/

/-- What has been recorded for a resource. -/
def recordsOf (tr : List (Action β)) (resource : String) : List β :=
  tr.filterMap fun
    | .record _ r x => if r = resource then some x else none
    | _ => none

theorem recordsOf_concat (tr : List (Action β)) (a : Action β) (resource : String) :
    recordsOf (tr ++ [a]) resource = recordsOf tr resource ++ recordsOf [a] resource :=
  List.filterMap_append

/-- The map has each resource once and each node that was made once; clients have the node of the map, and it
has what was recorded for its resource; the map has grown from each of its copies. -/
structure OneNode (tr : List (Action β)) (s : Clients β) : Prop where
  resources : (s.nodeMap.map Prod.fst).Nodup
  nodes : s.nodeMap.map Prod.snd = List.range s.created
  held : ∀ i resource node, s.pc i = .holds resource node → s.nodeMap.find? resource = some node
  recorded : ∀ resource node, s.nodeMap.find? resource = some node →
    s.recorded node = recordsOf tr resource
  unseen : ∀ resource, s.nodeMap.find? resource = none → recordsOf tr resource = []
  unmade : ∀ node, s.created ≤ node → s.recorded node = []
  copies : ∀ m ∈ s.copies, m <+: s.nodeMap

namespace OneNode

variable {tr : List (Action β)} {s s' : Clients β}

theorem start : OneNode ([] : List (Action β)) .start where
  resources := List.nodup_nil
  nodes := rfl
  held := by
    intro i resource node h
    cases h
  recorded := by
    intro resource node h
    cases h
  unseen := fun _ _ => rfl
  unmade := fun _ _ => rfl
  copies := by
    intro m hm
    cases hm

theorem node_lt (h : OneNode tr s) {resource : String} {node : ℕ}
    (hfind : s.nodeMap.find? resource = some node) : node < s.created := by
  have hmem := (Assoc.mem_iff_find? h.resources).mpr hfind
  have hnode : node ∈ s.nodeMap.map Prod.snd := List.mem_map_of_mem hmem
  rw [h.nodes] at hnode
  exact List.mem_range.mp hnode

/-- Different resources have different nodes. -/
theorem resource_eq (h : OneNode tr s) {r r' : String} {node : ℕ}
    (hr : s.nodeMap.find? r = some node) (hr' : s.nodeMap.find? r' = some node) : r = r' := by
  have hmem := (Assoc.mem_iff_find? h.resources).mpr hr
  have hmem' := (Assoc.mem_iff_find? h.resources).mpr hr'
  have hnodup : (s.nodeMap.map Prod.snd).Nodup := h.nodes ▸ List.nodup_range
  exact congrArg Prod.fst (List.inj_on_of_nodup_map hnodup hmem hmem' rfl)

theorem find?_of_copy (h : OneNode tr s) {m : Assoc String ℕ} (hm : m ∈ s.copies) {resource : String}
    {node : ℕ} (hfind : m.find? resource = some node) : s.nodeMap.find? resource = some node := by
  obtain ⟨grown, hgrown⟩ := h.copies m hm
  rw [← hgrown, Assoc.find?_append, hfind]
  rfl

/-- A step that records nothing. -/
theorem silent (h : OneNode tr s) {a : Action β} (ha : ∀ resource, recordsOf [a] resource = []) :
    OneNode (tr ++ [a]) s := by
  have hsame : ∀ resource, recordsOf (tr ++ [a]) resource = recordsOf tr resource := by
    intro resource
    rw [recordsOf_concat, ha, List.append_nil]
  refine ⟨h.resources, h.nodes, h.held, fun resource node hfind => ?_, fun resource hfind => ?_,
    h.unmade, h.copies⟩
  · rw [hsame]
    exact h.recorded resource node hfind
  · rw [hsame]
    exact h.unseen resource hfind

/-- A client that goes on, with the node of the map when it has one. -/
theorem goto (h : OneNode tr s) (i : ℕ) {p : Pc}
    (hp : ∀ resource node, p = .holds resource node → s.nodeMap.find? resource = some node) :
    OneNode tr (s.goto i p) where
  resources := h.resources
  nodes := h.nodes
  held := by
    intro j resource node hpc
    show s.nodeMap.find? resource = some node
    replace hpc : Function.update s.pc i p j = .holds resource node := hpc
    by_cases hj : j = i
    · subst hj
      rw [Function.update_self] at hpc
      exact hp resource node hpc
    · rw [Function.update_of_ne hj] at hpc
      exact h.held j resource node hpc
  recorded := h.recorded
  unseen := h.unseen
  unmade := h.unmade
  copies := h.copies

/-- The node made for a resource that has none. -/
theorem insert (h : OneNode tr s) {resource : String} (hfind : s.nodeMap.find? resource = none) :
    OneNode tr
      { s with nodeMap := s.nodeMap ++ [(resource, s.created)], created := s.created + 1 } where
  resources := by
    rw [List.map_append, List.nodup_append]
    refine ⟨h.resources, List.nodup_singleton _, ?_⟩
    rintro r hr _ hr' rfl
    obtain rfl : r = resource := List.mem_singleton.mp hr'
    exact Assoc.find?_eq_none.mp hfind hr
  nodes := by
    rw [List.map_append, h.nodes, List.range_succ]
    rfl
  held := by
    intro i r node hpc
    have hheld := h.held i r node hpc
    show Assoc.find? (s.nodeMap ++ [(resource, s.created)]) r = some node
    rw [Assoc.find?_append, hheld]
    rfl
  recorded := by
    intro r node hr
    rw [Assoc.find?_concat hfind] at hr
    split_ifs at hr with heq
    · rw [Option.some.injEq] at hr
      subst heq hr
      rw [h.unseen _ hfind]
      exact h.unmade s.created le_rfl
    · exact h.recorded r node hr
  unseen := by
    intro r hr
    rw [Assoc.find?_concat hfind] at hr
    split_ifs at hr with heq
    exact h.unseen r hr
  unmade := by
    intro node hnode
    exact h.unmade node (Nat.le_of_succ_le hnode)
  copies := fun m hm => (h.copies m hm).trans (List.prefix_append _ _)

theorem copy (h : OneNode tr s) : OneNode tr { s with copies := s.copies ++ [s.nodeMap] } where
  resources := h.resources
  nodes := h.nodes
  held := h.held
  recorded := h.recorded
  unseen := h.unseen
  unmade := h.unmade
  copies := by
    intro m hm
    rcases List.mem_append.mp hm with hm | hm
    · exact h.copies m hm
    · obtain rfl : m = s.nodeMap := List.mem_singleton.mp hm
      exact List.prefix_refl _

theorem record (h : OneNode tr s) {i : ℕ} {resource : String} {node : ℕ} (x : β)
    (hpc : s.pc i = .holds resource node) :
    OneNode (tr ++ [.record i resource x])
      { s with recorded := Function.update s.recorded node (s.recorded node ++ [x]) } where
  resources := h.resources
  nodes := h.nodes
  held := h.held
  recorded := by
    have hheld := h.held i resource node hpc
    intro r n hfind
    show Function.update s.recorded node (s.recorded node ++ [x]) n = _
    rw [recordsOf_concat]
    by_cases hr : r = resource
    · subst hr
      obtain rfl : node = n := Option.some.inj (hheld.symm.trans hfind)
      rw [Function.update_self, h.recorded r node hfind]
      simp [recordsOf]
    · have hn : n ≠ node := by
        rintro rfl
        exact hr (h.resource_eq hfind hheld)
      rw [Function.update_of_ne hn, h.recorded r n hfind]
      simp [recordsOf, Ne.symm hr]
  unseen := by
    intro r hfind
    have hr : resource ≠ r := by
      rintro rfl
      rw [h.held i _ node hpc] at hfind
      cases hfind
    rw [recordsOf_concat, h.unseen r hfind]
    simp [recordsOf, hr]
  unmade := by
    intro n hn
    have hlt := h.node_lt (h.held i resource node hpc)
    have hne : n ≠ node := by
      replace hn : s.created ≤ n := hn
      omega
    show Function.update s.recorded node (s.recorded node ++ [x]) n = []
    rw [Function.update_of_ne hne]
    exact h.unmade n hn
  copies := h.copies

/-- **Each step** keeps one node for each resource. -/
theorem step (h : OneNode tr s) {a : Action β} (hs : s.step a = some s') : OneNode (tr ++ [a]) s' := by
  have hnone : ∀ (p : Pc), (∀ resource node, p ≠ .holds resource node) → ∀ resource node,
      p = .holds resource node → s.nodeMap.find? resource = some node := by
    intro p hp resource node heq
    exact absurd heq (hp resource node)
  cases step_effect hs with
  | @found i resource node a ha hfind =>
    refine (h.silent fun r => ?_).goto i fun r n heq => ?_
    · rcases ha with rfl | rfl <;> rfl
    · rw [Pc.holds.injEq] at heq
      rw [← heq.1, ← heq.2]
      exact hfind
  | missed hfind => exact (h.silent fun _ => rfl).goto _ (hnone _ (by intro r n; simp))
  | left => exact (h.silent fun _ => rfl).goto _ (hnone _ (by intro r n; simp))
  | @created i resource hfind =>
    refine ((h.silent fun _ => rfl).insert hfind).goto i fun r n heq => ?_
    rw [Pc.holds.injEq] at heq
    rw [← heq.1, ← heq.2]
    exact (Assoc.find?_concat hfind _ _).trans (if_pos rfl)
  | recorded hpc => exact h.record _ hpc
  | copied => exact (h.silent fun _ => rfl).copy

theorem run {tr : List (Action β)} {s : Clients β} (hr : Steps .start tr s) : OneNode tr s :=
  Run.hist (I := OneNode) start (fun _ _ _ _ _ h hs => h.step hs) hr

end OneNode

/-- What a state shows for the records of a trace: the map and each copy of it have, for a resource, the one
node with all that was recorded for it, by whichever client; a resource with records is in the map; different
resources have different nodes; and as many nodes were made as there are resources. -/
structure Shows (tr : List (Action β)) (s : Clients β) : Prop where
  node : ∀ m, m = s.nodeMap ∨ m ∈ s.copies → ∀ resource node, m.find? resource = some node →
    s.recorded node = recordsOf tr resource
  present : ∀ resource, recordsOf tr resource ≠ [] → (s.nodeMap.find? resource).isSome
  distinct : ∀ r r' node, s.nodeMap.find? r = some node → s.nodeMap.find? r' = some node → r = r'
  resources : (s.nodeMap.map Prod.fst).Nodup
  created : s.created = s.nodeMap.length

/-- **One node for each resource.**  In every interleaving of any clients, all that was recorded for a
resource is on the node that the map and every earlier copy of it show. -/
theorem shows_run {tr : List (Action β)} {s : Clients β} (hr : Steps .start tr s) : Shows tr s := by
  have h := OneNode.run hr
  refine ⟨fun m hm resource node hfind => ?_, fun resource hne => ?_, fun r r' node => h.resource_eq,
    h.resources, ?_⟩
  · rcases hm with rfl | hm
    · exact h.recorded resource node hfind
    · exact h.recorded resource node (h.find?_of_copy hm hfind)
  · rw [Option.isSome_iff_ne_none]
    intro hnone
    exact hne (h.unseen resource hnone)
  · have hlen := congrArg List.length h.nodes
    rw [List.length_map, List.length_range] at hlen
    exact hlen.symm

/-- Two clients that both look before either creates, and a third that finds the node. -/
def threeClients : List (Action ℕ) :=
  [.lookUp 0 "GET:/foo", .lookUp 1 "GET:/foo", .create 0, .copy, .create 1, .record 0 "GET:/foo" 1,
    .lookUp 2 "GET:/foo", .record 1 "GET:/foo" 2, .leave 0, .record 2 "GET:/foo" 3]

theorem shows_run_threeClients :
    ∃ s, Steps .start threeClients s ∧ Shows threeClients s ∧ s.created = 1 ∧ s.recorded 0 = [1, 2, 3] := by
  have hsome : (threeClients.foldlM Clients.step .start).isSome = true := by decide
  obtain ⟨s, hs⟩ := Option.isSome_iff_exists.mp hsome
  have hview : (threeClients.foldlM Clients.step .start).map (fun s => (s.created, s.recorded 0)) =
      some (1, [1, 2, 3]) := by decide
  rw [hs, Option.map_some, Option.some.injEq, Prod.mk.injEq] at hview
  exact ⟨s, run_of_foldlM hs, shows_run (run_of_foldlM hs), hview⟩

/-! ### A client on its own -/

/-- **The two sections without interference** are `GetOrCreateClusterNode`: the same resources in the map
afterwards, and the client has the node of its resource. -/
theorem getOrCreateClusterNode_alone {s : Clients β} {i : ℕ} (hi : s.pc i = .idle) (resource : String)
    (st : ResourceNodeStorage) (c : StatConfig)
    (hst : st.nodeMap.map Prod.fst = s.nodeMap.map Prod.fst) :
    ∃ s', (s.step (.lookUp i resource) = some s' ∨
        ∃ s₁, s.step (.lookUp i resource) = some s₁ ∧ s₁.step (.create i) = some s') ∧
      s'.nodeMap.map Prod.fst = (st.getOrCreateClusterNode c resource).nodeMap.map Prod.fst ∧
      ∃ node, s'.pc i = .holds resource node ∧ s'.nodeMap.find? resource = some node := by
  have hmem : st.nodeMap.find? resource = none ↔ s.nodeMap.find? resource = none := by
    rw [Assoc.find?_eq_none, Assoc.find?_eq_none, hst]
  unfold ResourceNodeStorage.getOrCreateClusterNode ResourceNodeStorage.getClusterNode
  cases hfind : s.nodeMap.find? resource with
  | some node =>
    cases hfind' : st.nodeMap.find? resource with
    | none =>
      rw [hmem.mp hfind'] at hfind
      cases hfind
    | some n =>
      refine ⟨s.goto i (.holds resource node), .inl ?_, hst.symm, node, Function.update_self .., hfind⟩
      simp [Clients.step, hi, hfind]
  | none =>
    rw [hmem.mpr hfind]
    have hlook : s.step (.lookUp i resource) = some (s.goto i (.absent resource)) := by
      simp [Clients.step, hi, hfind]
    have hpc : (s.goto i (.absent resource)).pc i = .absent resource := Function.update_self ..
    have hcreate : (s.goto i (.absent resource)).step (.create i) =
        some ({ s.goto i (.absent resource) with
          nodeMap := s.nodeMap ++ [(resource, s.created)]
          created := s.created + 1 }.goto i (.holds resource s.created)) := by
      rw [Clients.step, hpc]
      show (match s.nodeMap.find? resource with | some node => _ | none => _) = _
      rw [hfind]
      rfl
    refine ⟨_, .inr ⟨_, hlook, hcreate⟩, ?_, s.created, Function.update_self .., ?_⟩
    · show (s.nodeMap ++ [(resource, s.created)]).map Prod.fst = _
      simp [hst]
    · exact (Assoc.find?_concat hfind _ _).trans (if_pos rfl)

end SentinelCpp.Stat.NodeClients
