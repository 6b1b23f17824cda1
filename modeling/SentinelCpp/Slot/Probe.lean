import SentinelCpp.Slot.HalfOpen

/-!
# Who ends a HalfOpen period

Calls of `CheckerSlot::Entry` and `CompleteStatSlot::Exit` for overlapping entries of one resource with
one breaker.  A completion does not say which entry it belongs to, so the first one after the probe was
let through ends the period.  It is the probe's own exactly when no entry admitted before the probe
exits in the period.
-/

namespace SentinelCpp

open Lib CircuitBreaker

/-- A call of one of the two slots.  `rt` and `error` are what the entry carries when it exits. -/
inductive SlotCall
  | entry (c : Call)
  | exit (id : ℕ) (rt : ℤ) (error : String)

/-- The library, and the entry whose own `TryPass` moved the breaker to HalfOpen last. -/
structure Probed where
  world : World
  probe : Option ℕ

namespace Probed

/-- The state of the breaker of a resource. -/
def breakerState (w : World) (resource : String) : Option State :=
  (w.circuitBreaker.maps.getCircuitBreakers resource).head?.bind fun id =>
    (w.circuitBreaker.maps.breakers[id]?).map AbstractCircuitBreaker.currentState

/-- The entry after its check; a rejected one has a block error. -/
def checked (e : Entry) : TokenResult → Entry
  | .blocked reason => { e with blockError := reason }
  | _ => e

/-- One call.  An entry exits once, and only if it was made. -/
def step (env : Env) (s : Probed) (op : ℕ × SlotCall) : Option (Probed × TokenResult) :=
  match op.2 with
  | .entry c =>
    match checkerSlotEntry env op.1 c ⟨s.world, World.admittedEntry op.1 c, none⟩ with
    | none => none
    | some (r, token) =>
      some ({ world := { r.world with entries := r.world.entries ++ [checked r.entry token] }
              probe := if breakerState s.world c.resource = some .kOpen ∧
                  breakerState r.world c.resource = some .kHalfOpen
                then some s.world.entries.length else s.probe }, token)
  | .exit id rt error =>
    match s.world.entries[id]? with
    | none => none
    | some e =>
      if e.exited then none
      else
        let r := completeStatSlotExit op.1 1 [] (s.world, { e with rt, error })
        some ({ s with world := { r.1 with
          entries := s.world.entries.set id { r.2 with exited := true } } }, .ok)

/-- A call of a run with what it returned. -/
abbrev Label := (ℕ × SlotCall) × TokenResult

/-- A sequential run of calls of the two slots. -/
abbrev Steps (env : Env) : Probed → List Label → Probed → Prop := Run (StepOf (Probed.step env))

end Probed

/-! ### The property and the condition -/

open Probed

/-- Whether each entry was rejected, in the order they were made. -/
def blocks (w : World) : List Bool := w.entries.map Entry.hasBlockError

/-- `p` was admitted and every entry made after it was rejected. -/
def LastAdmitted (w : World) (p : ℕ) : Prop :=
  (blocks w)[p]? = some false ∧ ∀ j, p < j → (blocks w)[j]? ≠ some false

/-- The breaker was HalfOpen before the step and is not after it. -/
def LeavesHalfOpen (resource : String) (s s' : Probed) : Prop :=
  breakerState s.world resource = some .kHalfOpen ∧ breakerState s'.world resource ≠ some .kHalfOpen

/-- The step exits an entry that was admitted. -/
def CompletesAdmitted (s : Probed) (a : Probed.Label) : Prop :=
  ∃ id rt error, a.1.2 = .exit id rt error ∧ (blocks s.world)[id]? = some false

/-- The breaker leaves HalfOpen exactly when it is HalfOpen and an admitted entry exits. -/
def EndedByCompletion (env : Env) (resource : String) (s : Probed) (a : Probed.Label) : Prop :=
  ∀ s', StepOf (Probed.step env) s a s' → (LeavesHalfOpen resource s s' ↔
    breakerState s.world resource = some .kHalfOpen ∧ CompletesAdmitted s a)

/-- If the breaker leaves HalfOpen, its probe exits. -/
def DecidedByProbe (env : Env) (resource : String) (s : Probed) (a : Probed.Label) : Prop :=
  ∀ s', StepOf (Probed.step env) s a s' → LeavesHalfOpen resource s s' →
    ∃ id rt error, a.1.2 = .exit id rt error ∧ s.probe = some id

/-- While the breaker is HalfOpen no admitted entry exits but the one admitted last. -/
def NoLateExit (resource : String) (s : Probed) (a : Probed.Label) : Prop :=
  ∀ id rt error, a.1.2 = .exit id rt error → breakerState s.world resource = some .kHalfOpen →
    (blocks s.world)[id]? = some false → LastAdmitted s.world id

/-! ### One breaker -/

/-- The resource has this breaker and no other. -/
structure Serves (w : World) (resource : String) (id : ℕ) (cb : AbstractCircuitBreaker) : Prop where
  ids : w.circuitBreaker.maps.getCircuitBreakers resource = [id]
  get : w.circuitBreaker.maps.breakers[id]? = some cb

section Serves

variable {w : World} {resource : String} {id t : ℕ} {cb : AbstractCircuitBreaker}

theorem Serves.breakerState (h : Serves w resource id cb) :
    breakerState w resource = some cb.currentState := by
  rw [Probed.breakerState, h.ids, List.head?_cons, Option.bind_some, h.get, Option.map_some]

theorem Serves.halfOpen_iff (h : Serves w resource id cb) :
    Probed.breakerState w resource = some .kHalfOpen ↔ cb.currentState = .kHalfOpen := by
  rw [h.breakerState, Option.some.injEq]

/-- The only breaker decides the check. -/
theorem Serves.checkerEntry (h : Serves w resource id cb) :
    w.circuitBreaker.maps.checkerEntry t resource =
      ({ w.circuitBreaker.maps with
          breakers := w.circuitBreaker.maps.breakers.set id (cb.tryPass t).1 },
        if (cb.tryPass t).2 then .ok else .blocked "DegradeException") := by
  rw [CircuitBreakerMaps.checkerEntry, h.ids, CircuitBreakerMaps.tryPassAll, h.get]
  dsimp only
  rcases cb.tryPass t with ⟨cb', _ | _⟩
  · rfl
  · rfl

theorem Serves.completeStatExit (h : Serves w resource id cb) (rt : ℤ) (error : String) :
    w.circuitBreaker.maps.completeStatExit t resource rt error =
      { w.circuitBreaker.maps with
          breakers := w.circuitBreaker.maps.breakers.set id (cb.recordComplete t rt error) } := by
  rw [CircuitBreakerMaps.completeStatExit, h.ids, CircuitBreakerMaps.recordCompleteAll,
    List.foldl_cons, List.foldl_nil, List.modify_eq_set_getElem?, h.get]
  rfl

/-- A new state of the breaker is found where the old one was. -/
theorem Serves.set (h : Serves w resource id cb) {w' : World} {cb' : AbstractCircuitBreaker}
    (hmaps : w'.circuitBreaker.maps = { w.circuitBreaker.maps with
      breakers := w.circuitBreaker.maps.breakers.set id cb' }) : Serves w' resource id cb' := by
  refine ⟨?_, ?_⟩
  · rw [hmaps]
    exact h.ids
  · rw [hmaps]
    exact List.getElem?_set_self (List.getElem?_eq_some_iff.mp h.get).1

end Serves

/-! ### What a call can do -/

section Step

variable {env : Env} {resource : String} {s s' : Probed} {id t : ℕ} {cb : AbstractCircuitBreaker}
  {o : TokenResult}

/-- A check: the breaker takes the step of `TryPass`, the new entry is admitted if it passed, and it is
the probe if the breaker was ready for one. -/
theorem step_entry {c : Call} (hs : Serves s.world resource id cb) (hc : c.resource = resource)
    (h : Probed.step env s (t, .entry c) = some (s', o)) :
    Serves s'.world resource id (cb.tryPass t).1 ∧
      blocks s'.world = blocks s.world ++ [!(cb.tryPass t).2] ∧
      s'.probe = if cb.probes t then some (blocks s.world).length else s.probe := by
  subst hc
  simp only [Probed.step, checkerSlotEntry, hs.checkerEntry, Option.some.injEq, Prod.mk.injEq] at h
  obtain ⟨rfl, -⟩ := h
  have hserves : ∀ (w' : World), w'.circuitBreaker.maps = { s.world.circuitBreaker.maps with
      breakers := s.world.circuitBreaker.maps.breakers.set id (cb.tryPass t).1 } →
      Serves w' c.resource id (cb.tryPass t).1 := fun w' h => hs.set h
  refine ⟨hserves _ rfl, ?_, ?_⟩
  · simp only [blocks, List.map_append, List.map_cons, List.map_nil]
    congr 2
    cases (cb.tryPass t).2
    · rfl
    · rfl
  · dsimp only
    rw [hs.breakerState, (hserves _ rfl).breakerState, blocks, List.length_map]
    refine if_congr ?_ rfl rfl
    rcases cb.tryPass_cases t with ⟨hst, h⟩ | ⟨hst, ha, h⟩ | ⟨hst, ha, h⟩ | ⟨hst, h⟩
    · simp [AbstractCircuitBreaker.probes, h, hst]
    · simp [AbstractCircuitBreaker.probes, h, hst, ha]
    · simp [AbstractCircuitBreaker.probes, h, hst, ha]
    · simp [AbstractCircuitBreaker.probes, h, hst]

/-- An exit: the breaker counts the completion unless the entry was rejected. -/
theorem step_exit {i : ℕ} {rt : ℤ} {error : String} (hs : Serves s.world resource id cb)
    (hres : ∀ e ∈ s.world.entries, e.resource = resource)
    (h : Probed.step env s (t, .exit i rt error) = some (s', o)) :
    blocks s'.world = blocks s.world ∧ s'.probe = s.probe ∧
      ((blocks s.world)[i]? = some true ∧ Serves s'.world resource id cb ∨
        (blocks s.world)[i]? = some false ∧
          ∃ rt', Serves s'.world resource id (cb.recordComplete t rt' error)) := by
  simp only [Probed.step] at h
  cases he : s.world.entries[i]? with
  | none => simp [he] at h
  | some e =>
    have hblock : (blocks s.world)[i]? = some e.hasBlockError := by
      rw [blocks, List.getElem?_map, he, Option.map_some]
    have hsame : ∀ e' : Entry, e'.hasBlockError = e.hasBlockError →
        (s.world.entries.set i e').map Entry.hasBlockError = blocks s.world := by
      intro e' he'
      obtain ⟨hlt, hget⟩ := List.getElem?_eq_some_iff.mp hblock
      rw [List.map_set, he', ← hget]
      exact List.set_getElem_self hlt
    simp only [he] at h
    by_cases hx : e.exited = true
    · simp [hx] at h
    · rw [if_neg hx, Option.some.injEq, Prod.mk.injEq] at h
      obtain ⟨rfl, -⟩ := h
      have hmem : e.resource = resource := hres e (List.mem_of_getElem? he)
      unfold completeStatSlotExit
      dsimp only
      by_cases hb : e.hasBlockError = true
      · have hb' : Entry.hasBlockError { e with rt := rt, error := error } = true := hb
        rw [if_pos hb']
        exact ⟨hsame _ rfl, rfl, .inl ⟨hblock.trans (by rw [hb]), hs.ids, hs.get⟩⟩
      · have hb' : ¬ Entry.hasBlockError { e with rt := rt, error := error } = true := hb
        rw [if_neg hb']
        refine ⟨hsame _ rfl, rfl, .inr ⟨hblock.trans (by rw [Bool.not_eq_true] at hb; rw [hb]), ?_⟩⟩
        subst hmem
        exact ⟨_, hs.set (hs.completeStatExit _ _)⟩

end Step

/-! ### Runs -/

/-- What holds in every state of a run: the breaker of the resource, and while it is HalfOpen its probe
is the entry admitted last. -/
structure ProbeInv (resource : String) (id : ℕ) (s : Probed) : Prop where
  serves : ∃ cb, Serves s.world resource id cb
  resources : ∀ e ∈ s.world.entries, e.resource = resource
  probe : breakerState s.world resource = some .kHalfOpen →
    ∃ p, s.probe = some p ∧ LastAdmitted s.world p

section Run

variable {env : Env} {resource : String} {s s' : Probed} {id t : ℕ} {o : TokenResult}

/-- There is only one entry admitted last. -/
theorem LastAdmitted.unique {w : World} {p q : ℕ} (hp : LastAdmitted w p) (hq : LastAdmitted w q) :
    p = q := by
  rcases Nat.lt_trichotomy p q with h | h | h
  · exact absurd hq.1 (hp.2 q h)
  · exact h
  · exact absurd hp.1 (hq.2 p h)

theorem LastAdmitted.of_blocks {w w' : World} {p : ℕ} (hp : LastAdmitted w p)
    (h : blocks w' = blocks w) : LastAdmitted w' p := by
  rw [LastAdmitted, h]
  exact hp

/-- A rejected entry does not change which one was admitted last. -/
theorem LastAdmitted.concat_blocked {w w' : World} {p : ℕ} (hp : LastAdmitted w p)
    (h : blocks w' = blocks w ++ [true]) : LastAdmitted w' p := by
  obtain ⟨hget, hlast⟩ := hp
  have hlt : p < (blocks w).length := (List.getElem?_eq_some_iff.mp hget).1
  refine ⟨by rw [h, List.getElem?_append_left hlt, hget], fun j hj hj' => ?_⟩
  rw [h] at hj'
  rcases Nat.lt_or_ge j (blocks w).length with hjl | hjl
  · rw [List.getElem?_append_left hjl] at hj'
    exact hlast j hj hj'
  · rw [List.getElem?_append_right hjl] at hj'
    have hmem := List.mem_of_getElem? hj'
    simp at hmem

theorem lastAdmitted_concat {w w' : World} (h : blocks w' = blocks w ++ [false]) :
    LastAdmitted w' (blocks w).length := by
  refine ⟨by simp [h], fun j hj hj' => ?_⟩
  rw [h] at hj'
  have hlt := (List.getElem?_eq_some_iff.mp hj').1
  rw [List.length_append, List.length_singleton] at hlt
  omega

/-- All entries are on the resource. -/
theorem resources_step {op : SlotCall} (hres : ∀ e ∈ s.world.entries, e.resource = resource)
    (hc : ∀ c, op = .entry c → c.resource = resource)
    (h : Probed.step env s (t, op) = some (s', o)) : ∀ e ∈ s'.world.entries, e.resource = resource := by
  cases op with
  | entry c =>
    simp only [Probed.step, checkerSlotEntry, Option.some.injEq, Prod.mk.injEq] at h
    obtain ⟨rfl, -⟩ := h
    intro e he
    rcases List.mem_append.mp he with he | he
    · exact hres e he
    · obtain rfl := List.mem_singleton.mp he
      rw [← hc c rfl]
      unfold checked
      split <;> rfl
  | exit i rt error =>
    simp only [Probed.step] at h
    cases hi : s.world.entries[i]? with
    | none => simp [hi] at h
    | some e₀ =>
      have h₀ : e₀.resource = resource := hres e₀ (List.mem_of_getElem? hi)
      simp only [hi] at h
      split_ifs at h with hx
      rw [Option.some.injEq, Prod.mk.injEq] at h
      obtain ⟨rfl, -⟩ := h
      intro e he
      rcases List.mem_or_eq_of_mem_set he with he | rfl
      · exact hres e he
      · rw [← h₀]
        unfold completeStatSlotExit
        dsimp only
        split_ifs <;> rfl

/-- **One step.** -/
theorem ProbeInv.step (hI : ProbeInv resource id s) {op : SlotCall}
    (hc : ∀ c, op = .entry c → c.resource = resource)
    (h : Probed.step env s (t, op) = some (s', o)) : ProbeInv resource id s' := by
  obtain ⟨⟨cb, hs⟩, hres, hprobe⟩ := hI
  have hres' := resources_step hres hc h
  cases op with
  | entry c =>
    obtain ⟨hs', hblocks, hp'⟩ := step_entry hs (hc c rfl) h
    refine ⟨⟨_, hs'⟩, hres', fun hhalf => ?_⟩
    rw [hs'.halfOpen_iff] at hhalf
    rw [hp']
    rcases cb.tryPass_cases t with ⟨hst, htp⟩ | ⟨hst, ha, htp⟩ | ⟨hst, -, htp⟩ | ⟨hst, htp⟩
    · rw [htp, hst] at hhalf
      cases hhalf
    · -- the new entry is the probe
      have hpr : cb.probes t = true := by simp [AbstractCircuitBreaker.probes, hst, ha]
      rw [htp] at hblocks
      exact ⟨_, if_pos hpr, lastAdmitted_concat hblocks⟩
    · rw [htp, hst] at hhalf
      cases hhalf
    · have hpr : ¬ cb.probes t = true := by simp [AbstractCircuitBreaker.probes, hst]
      rw [htp] at hblocks
      obtain ⟨p, hp, hlast⟩ := hprobe (hs.halfOpen_iff.mpr hst)
      exact ⟨p, (if_neg hpr).trans hp, hlast.concat_blocked hblocks⟩
  | exit i rt error =>
    obtain ⟨hblocks, hp', ⟨-, hs'⟩ | ⟨-, rt', hs'⟩⟩ := step_exit hs hres h
    · refine ⟨⟨_, hs'⟩, hres', fun hhalf => ?_⟩
      obtain ⟨p, hp, hlast⟩ := hprobe (hs.halfOpen_iff.mpr (hs'.halfOpen_iff.mp hhalf))
      exact ⟨p, hp'.trans hp, hlast.of_blocks hblocks⟩
    · refine ⟨⟨_, hs'⟩, hres', fun hhalf => ?_⟩
      exact absurd (hs'.halfOpen_iff.mp hhalf) (cb.recordComplete_ne_halfOpen t rt' error)

/-- In such a state the last admitted entry is the probe, and any completion ends the period. -/
theorem ProbeInv.endedByCompletion (hI : ProbeInv resource id s) {a : Probed.Label}
    (hc : ∀ c, a.1.2 = .entry c → c.resource = resource) : EndedByCompletion env resource s a := by
  obtain ⟨⟨t, op⟩, o⟩ := a
  intro s' hstep
  obtain ⟨cb, hs⟩ := hI.serves
  cases op with
  | entry c =>
    obtain ⟨hs', -, -⟩ := step_entry hs (hc c rfl) hstep
    refine iff_of_false ?_ ?_
    · rintro ⟨hhalf, hhalf'⟩
      rw [hs.halfOpen_iff] at hhalf
      rw [ne_eq, hs'.halfOpen_iff] at hhalf'
      rcases cb.tryPass_cases t with ⟨hst, -⟩ | ⟨hst, -, -⟩ | ⟨hst, -, -⟩ | ⟨-, htp⟩
      · cases hst.symm.trans hhalf
      · cases hst.symm.trans hhalf
      · cases hst.symm.trans hhalf
      · rw [htp] at hhalf'
        exact hhalf' hhalf
    · rintro ⟨-, i, rt, error, hop, -⟩
      cases hop
  | exit i rt error =>
    obtain ⟨-, -, ⟨hblock, hs'⟩ | ⟨hadm, rt', hs'⟩⟩ := step_exit hs hI.resources hstep
    · refine iff_of_false ?_ ?_
      · rintro ⟨hhalf, hhalf'⟩
        exact hhalf' (hs'.halfOpen_iff.mpr (hs.halfOpen_iff.mp hhalf))
      · rintro ⟨-, j, rt'', error', hop, hadm⟩
        cases hop
        cases hblock.symm.trans hadm
    · have hne : breakerState s'.world resource ≠ some .kHalfOpen := fun hhalf =>
        cb.recordComplete_ne_halfOpen t rt' error (hs'.halfOpen_iff.mp hhalf)
      exact ⟨fun h => ⟨h.1, i, rt, error, rfl, hadm⟩, fun h => ⟨h.1, hne⟩⟩

theorem ProbeInv.decided_iff (hI : ProbeInv resource id s) {a : Probed.Label}
    (hc : ∀ c, a.1.2 = .entry c → c.resource = resource) (h : StepOf (Probed.step env) s a s') :
    DecidedByProbe env resource s a ↔ NoLateExit resource s a := by
  have hended : EndedByCompletion env resource s a := hI.endedByCompletion hc
  constructor
  · intro hD i rt error hop hhalf hadm
    obtain ⟨p, hp, hlast⟩ := hI.probe hhalf
    obtain ⟨j, rt', error', hop', hj⟩ := hD s' h ((hended s' h).mpr ⟨hhalf, i, rt, error, hop, hadm⟩)
    obtain ⟨rfl, -, -⟩ : i = j ∧ rt = rt' ∧ error = error' := by simpa using hop.symm.trans hop'
    obtain rfl : p = i := by simpa using hp.symm.trans hj
    exact hlast
  · intro hC s'' h'' hleave
    obtain ⟨hhalf, i, rt, error, hop, hadm⟩ := (hended s'' h'').mp hleave
    obtain ⟨p, hp, hlast⟩ := hI.probe hhalf
    exact ⟨i, rt, error, hop, hp.trans (congrArg some (hlast.unique (hC i rt error hop hhalf hadm)))⟩

theorem probeInv_loaded {rules : List CircuitBreaker.Rule}
    (hone : (World.loaded env rules).circuitBreaker.maps.getCircuitBreakers resource = [id]) :
    ProbeInv resource id ⟨World.loaded env rules, none⟩ := by
  have hvalid : (World.loaded env rules).circuitBreaker.maps.Valid := by
    rcases loaded_maps env rules with h | h
    · rw [h]
      exact CircuitBreakerMaps.valid_initial
    · rw [h]
      exact CircuitBreakerMaps.configUpdate_valid CircuitBreakerMaps.valid_initial rules
  have hid : id ∈ (World.loaded env rules).circuitBreaker.maps.getCircuitBreakers resource := by
    rw [hone]
    exact List.mem_singleton_self id
  obtain ⟨cb, hcb, -⟩ := hvalid.ids resource id hid
  have hs : Serves (World.loaded env rules) resource id cb := ⟨hone, hcb⟩
  refine ⟨⟨cb, hs⟩, by simp [World.loaded, World.start], fun hhalf => ?_⟩
  -- a HalfOpen breaker would have an entry to wait for
  obtain ⟨e, he, -⟩ :=
    halfOpenServed_loaded env rules resource id hid ⟨cb, hcb, hs.halfOpen_iff.mp hhalf⟩
  simp [World.loaded, World.start] at he

theorem probeInv_run {rules : List CircuitBreaker.Rule} {tr : List Probed.Label}
    (hone : (World.loaded env rules).circuitBreaker.maps.getCircuitBreakers resource = [id])
    (hres : ∀ a ∈ tr, ∀ c, a.1.2 = .entry c → c.resource = resource)
    (h : Probed.Steps env ⟨World.loaded env rules, none⟩ tr s) : ProbeInv resource id s := by
  revert hres
  refine Run.hist (I := fun tr s => (∀ a ∈ tr, ∀ c, a.1.2 = .entry c → c.resource = resource) →
    ProbeInv resource id s) (fun _ => probeInv_loaded hone) ?_ h
  rintro tr s ⟨⟨t, op⟩, o⟩ s' - ih hstep hres
  have hI := ih fun a ha => hres a (List.mem_append_left _ ha)
  exact hI.step (hres ((t, op), o) (by simp)) hstep

/-- **Who decides.**  After the rules were loaded, in every run of entries and exits on a resource with
one breaker: the breaker leaves HalfOpen at the first exit of an admitted entry, whichever it is; it is
always the exit of the probe if and only if no admitted entry but the last one exits while the breaker
is HalfOpen. -/
theorem decidedByProbe_iff {rules : List CircuitBreaker.Rule} {tr : List Probed.Label}
    (hone : (World.loaded env rules).circuitBreaker.maps.getCircuitBreakers resource = [id])
    (hres : ∀ a ∈ tr, ∀ c, a.1.2 = .entry c → c.resource = resource)
    (h : Probed.Steps env ⟨World.loaded env rules, none⟩ tr s) :
    EveryStep (StepOf (Probed.step env)) ⟨World.loaded env rules, none⟩
        (EndedByCompletion env resource) tr ∧
      (EveryStep (StepOf (Probed.step env)) ⟨World.loaded env rules, none⟩
          (DecidedByProbe env resource) tr ↔
        EveryStep (StepOf (Probed.step env)) ⟨World.loaded env rules, none⟩ (NoLateExit resource) tr) := by
  have hstep : ∀ tr₁ s₁ a, tr₁ ++ [a] <+: tr →
      Probed.Steps env ⟨World.loaded env rules, none⟩ tr₁ s₁ → ProbeInv resource id s₁ ∧
        (∀ c, a.1.2 = .entry c → c.resource = resource) ∧
        ∃ s₂, StepOf (Probed.step env) s₁ a s₂ := by
    intro tr₁ s₁ a hp hr
    have hres₁ : ∀ b ∈ tr₁ ++ [a], ∀ c, b.1.2 = .entry c → c.resource = resource :=
      fun b hb => hres b (hp.subset hb)
    obtain ⟨s₂, hs, -⟩ := h.step_of_prefix stepOf_det hp hr
    exact ⟨probeInv_run hone (fun b hb => hres₁ b (List.mem_append_left _ hb)) hr, hres₁ a (by simp),
      s₂, hs⟩
  refine ⟨fun tr₁ s₁ a hp hr => ?_, fun hD tr₁ s₁ a hp hr => ?_, fun hC tr₁ s₁ a hp hr => ?_⟩
  · obtain ⟨hI, hc, -⟩ := hstep tr₁ s₁ a hp hr
    exact hI.endedByCompletion hc
  · obtain ⟨hI, hc, s₂, hs⟩ := hstep tr₁ s₁ a hp hr
    exact (hI.decided_iff hc hs).mp (hD tr₁ s₁ a hp hr)
  · obtain ⟨hI, hc, s₂, hs⟩ := hstep tr₁ s₁ a hp hr
    exact (hI.decided_iff hc hs).mpr (hC tr₁ s₁ a hp hr)

/-- An error-ratio rule on "r" that opens at the first error and retries after 1 s. -/
def firstErrorOpens : List CircuitBreaker.Rule :=
  [{ resource := "r", strategy := .kErrorRatio, retryTimeoutSec := 1, minRequestAmount := 1 }]

/-- A slow entry and a failing one; the probe is admitted after 1 s, then the slow entry exits. -/
def slowEntryExitsLate : List (ℕ × SlotCall) :=
  [(0, .entry ⟨0, "r", .IN, 1, []⟩), (0, .entry ⟨0, "r", .IN, 1, []⟩), (0, .exit 1 0 "error"),
    (1000, .entry ⟨0, "r", .IN, 1, []⟩), (1000, .exit 0 1000 "")]

/-- The slow entry, admitted while the breaker was Closed, closes it; the probe is entry 2. -/
theorem decidedByProbe_fails : ∃ s s' tr a,
    Probed.Steps (.simple "") ⟨World.loaded (.simple "") firstErrorOpens, none⟩ (tr ++ [a]) s' ∧
    Probed.Steps (.simple "") ⟨World.loaded (.simple "") firstErrorOpens, none⟩ tr s ∧
    (tr ++ [a]).map Prod.fst = slowEntryExitsLate ∧ s.probe = some 2 ∧
    LeavesHalfOpen "r" s s' ∧ breakerState s'.world "r" = some .kClosed ∧
    ¬ EveryStep (StepOf (Probed.step (.simple ""))) ⟨World.loaded (.simple "") firstErrorOpens, none⟩
      (DecidedByProbe (.simple "") "r") (tr ++ [a]) := by
  have hx : (execute (Probed.step (.simple "")) ⟨World.loaded (.simple "") firstErrorOpens, none⟩
      (slowEntryExitsLate.take 4)).bind (fun r => (Probed.step (.simple "") r.2
        (1000, .exit 0 1000 "")).map fun r' => (r.2.probe, breakerState r.2.world "r",
          breakerState r'.1.world "r")) =
      some (some 2, some .kHalfOpen, some .kClosed) := by
    decide +kernel
  obtain ⟨⟨tr, s⟩, hr, hx⟩ := Option.bind_eq_some_iff.mp hx
  obtain ⟨⟨s', o⟩, hs, heq⟩ := Option.map_eq_some_iff.mp hx
  simp only [Prod.mk.injEq] at heq
  obtain ⟨hprobe, hhalf, hclosed⟩ := heq
  have hstep : StepOf (Probed.step (.simple "")) s ((1000, .exit 0 1000 ""), o) s' := hs
  have hleave : LeavesHalfOpen "r" s s' := ⟨hhalf, by rw [hclosed]; decide⟩
  refine ⟨s, s', tr, ((1000, .exit 0 1000 ""), o), (run_of_execute hr).snoc hstep, run_of_execute hr, ?_,
    hprobe, hleave, hclosed, fun hD => ?_⟩
  · rw [List.map_append, execute_inputs hr]
    rfl
  · obtain ⟨id, rt, error, hop, hid⟩ := hD.last (run_of_execute hr) s' hstep hleave
    cases hop
    cases hprobe.symm.trans hid

/-- The law at the same calls. -/
theorem decidedByProbe_iff_example : ∃ s tr,
    Probed.Steps (.simple "") ⟨World.loaded (.simple "") firstErrorOpens, none⟩ tr s ∧
    tr.map Prod.fst = slowEntryExitsLate ∧
    EveryStep (StepOf (Probed.step (.simple ""))) ⟨World.loaded (.simple "") firstErrorOpens, none⟩
        (EndedByCompletion (.simple "") "r") tr ∧
      (EveryStep (StepOf (Probed.step (.simple ""))) ⟨World.loaded (.simple "") firstErrorOpens, none⟩
          (DecidedByProbe (.simple "") "r") tr ↔
        EveryStep (StepOf (Probed.step (.simple "")))
          ⟨World.loaded (.simple "") firstErrorOpens, none⟩ (NoLateExit "r") tr) := by
  obtain ⟨s, hx, hr⟩ := exists_run_of_outputs (Probed.step (.simple ""))
    ⟨World.loaded (.simple "") firstErrorOpens, none⟩ slowEntryExitsLate [.ok, .ok, .ok, .ok, .ok]
    (by decide +kernel)
  have hone : (World.loaded (.simple "") firstErrorOpens).circuitBreaker.maps.getCircuitBreakers "r" =
      [0] := by decide
  refine ⟨s, _, hr, execute_inputs hx, decidedByProbe_iff hone ?_ hr⟩
  intro a ha c hop
  have hmem := List.mem_map_of_mem (f := Prod.fst) ha
  rw [execute_inputs hx] at hmem
  simp only [slowEntryExitsLate, List.mem_cons, List.not_mem_nil, or_false] at hmem
  rcases hmem with h | h | h | h | h <;> rw [h] at hop <;> cases hop <;> rfl

end Run

end SentinelCpp
