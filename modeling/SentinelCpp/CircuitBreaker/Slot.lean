import SentinelCpp.CircuitBreaker.RuleManager

/-!
# The circuit-breaker slots

`CheckerSlot` asks the breakers of the resource one after the other and stops at the first that
rejects; a breaker it has moved to HalfOpen before that stays HalfOpen.  `CompleteStatSlot` tells
every breaker of the resource about a completion.
-/

namespace SentinelCpp.CircuitBreaker

namespace CircuitBreakerMaps

/-- The loop of `CheckerSlot::Entry`. -/
def tryPassAll (t : ℕ) : List ℕ → List AbstractCircuitBreaker → List AbstractCircuitBreaker × Bool
  | [], breakers => (breakers, true)
  | id :: ids, breakers =>
    match breakers[id]? with
    | none => tryPassAll t ids breakers
    | some cb =>
      match cb.tryPass t with
      | (cb, true) => tryPassAll t ids (breakers.set id cb)
      | (cb, false) => (breakers.set id cb, false)

/-- `CheckerSlot::Entry`. -/
def checkerEntry (m : CircuitBreakerMaps) (t : ℕ) (resource : String) :
    CircuitBreakerMaps × TokenResult :=
  match tryPassAll t (m.getCircuitBreakers resource) m.breakers with
  | (breakers, true) => ({ m with breakers }, .ok)
  | (breakers, false) => ({ m with breakers }, .blocked "DegradeException")

/-- The loop of `CompleteStatSlot::Exit`. -/
def recordCompleteAll (t : ℕ) (rt : ℤ) (error : String) (ids : List ℕ)
    (breakers : List AbstractCircuitBreaker) : List AbstractCircuitBreaker :=
  ids.foldl (fun breakers id => breakers.modify id fun cb => cb.recordComplete t rt error) breakers

/-- `CompleteStatSlot::Exit`, for an entry without block error. -/
def completeStatExit (m : CircuitBreakerMaps) (t : ℕ) (resource : String) (rt : ℤ) (error : String) :
    CircuitBreakerMaps :=
  { m with breakers := recordCompleteAll t rt error (m.getCircuitBreakers resource) m.breakers }

end CircuitBreakerMaps

/-! ### Probes -/

namespace AbstractCircuitBreaker

variable (b : AbstractCircuitBreaker) (t : ℕ)

/-- `TryPass` would move the breaker to HalfOpen. -/
def probes : Bool := b.currentState = .kOpen && b.retryTimeoutArrived t

/-- `TryPass` would reject the entry. -/
def rejects : Bool :=
  b.currentState = .kHalfOpen || (b.currentState = .kOpen && !b.retryTimeoutArrived t)

variable {b t}

theorem tryPass_of_rejects (h : b.rejects t = true) : b.tryPass t = (b, false) := by
  rcases b.tryPass_cases t with ⟨hs, -⟩ | ⟨hs, ha, -⟩ | ⟨-, -, hp⟩ | ⟨-, hp⟩
  · simp [rejects, hs] at h
  · simp [rejects, hs, ha] at h
  · exact hp
  · exact hp

theorem tryPass_of_probes (h : b.probes t = true) :
    b.tryPass t = ({ b with currentState := .kHalfOpen }, true) := by
  rcases b.tryPass_cases t with ⟨hs, -⟩ | ⟨-, -, hp⟩ | ⟨-, ha, -⟩ | ⟨hs, -⟩
  · simp [probes, hs] at h
  · exact hp
  · simp [probes, ha] at h
  · simp [probes, hs] at h

theorem tryPass_of_closed (hr : b.rejects t = false) (hp : b.probes t = false) :
    b.tryPass t = (b, true) := by
  rcases b.tryPass_cases t with ⟨-, h⟩ | ⟨hs, ha, -⟩ | ⟨hs, ha, -⟩ | ⟨hs, -⟩
  · exact h
  · simp [probes, hs, ha] at hp
  · simp [rejects, hs, ha] at hr
  · simp [rejects, hs] at hr

theorem tryPass_snd : (b.tryPass t).2 = !b.rejects t := by
  cases hr : b.rejects t with
  | true => rw [tryPass_of_rejects hr, Bool.not_true]
  | false =>
    cases hp : b.probes t with
    | true => rw [tryPass_of_probes hp, Bool.not_false]
    | false => rw [tryPass_of_closed hr hp, Bool.not_false]

end AbstractCircuitBreaker

namespace CircuitBreakerMaps

variable {t : ℕ} {ids : List ℕ} {breakers : List AbstractCircuitBreaker}

/-- The breakers `ids`, in order. -/
def select (breakers : List AbstractCircuitBreaker) (ids : List ℕ) : List AbstractCircuitBreaker :=
  ids.filterMap fun id => breakers[id]?

/-- Some breaker would go HalfOpen before another one rejects the entry. -/
def wastesProbe (m : CircuitBreakerMaps) (t : ℕ) (resource : String) : Bool :=
  let cbs := select m.breakers (m.getCircuitBreakers resource)
  cbs.any (fun cb => cb.rejects t) &&
    (cbs.takeWhile fun cb => !cb.rejects t).any fun cb => cb.probes t

theorem select_cons {id : ℕ} {cb : AbstractCircuitBreaker} (h : breakers[id]? = some cb)
    (ids : List ℕ) : select breakers (id :: ids) = cb :: select breakers ids := by
  simp [select, h]

/-- Changing a breaker does not matter to a list that does not name it. -/
theorem select_set {id : ℕ} (h : id ∉ ids) (cb : AbstractCircuitBreaker) :
    select (breakers.set id cb) ids = select breakers ids := by
  refine List.filterMap_congr fun j hj => ?_
  have hne : id ≠ j := fun heq => h (heq ▸ hj)
  rw [List.getElem?_set_ne hne]

theorem tryPassAll_of_not_mem {j : ℕ} (h : j ∉ ids) :
    (tryPassAll t ids breakers).1[j]? = breakers[j]? := by
  induction ids generalizing breakers with
  | nil => rfl
  | cons id ids ih =>
    rw [List.mem_cons, not_or] at h
    obtain ⟨hne, hmem⟩ := h
    rw [tryPassAll]
    cases hcb : breakers[id]? with
    | none => exact ih hmem
    | some cb =>
      dsimp only
      rcases cb.tryPass t with ⟨cb', _ | _⟩
      · exact List.getElem?_set_ne (Ne.symm hne)
      · exact (ih hmem).trans (List.getElem?_set_ne (Ne.symm hne))

/-- The entry passes when no breaker rejects it. -/
theorem tryPassAll_snd (hnd : ids.Nodup) : (tryPassAll t ids breakers).2 =
    !(select breakers ids).any fun cb => cb.rejects t := by
  induction ids generalizing breakers with
  | nil => rfl
  | cons id ids ih =>
    obtain ⟨hid, hnd⟩ := List.nodup_cons.mp hnd
    rw [tryPassAll]
    cases hcb : breakers[id]? with
    | none => simpa [select, hcb] using ih hnd
    | some cb =>
      rw [select_cons hcb, List.any_cons]
      have hsnd : (cb.tryPass t).2 = !cb.rejects t := AbstractCircuitBreaker.tryPass_snd
      rcases h : cb.tryPass t with ⟨cb', _ | _⟩
      · rw [h, Bool.false_eq, Bool.not_eq_false'] at hsnd
        simp only [h, hsnd, Bool.true_or, Bool.not_true]
      · rw [h, Bool.true_eq, Bool.not_eq_true'] at hsnd
        simp only [h, hsnd, Bool.false_or]
        rw [ih hnd, select_set hid]

/-- Without a probe before the first rejection nothing changes. -/
theorem tryPassAll_of_no_probe (hnd : ids.Nodup)
    (h : ((select breakers ids).takeWhile fun cb => !cb.rejects t).any (fun cb => cb.probes t) =
      false) : (tryPassAll t ids breakers).1 = breakers := by
  induction ids with
  | nil => rfl
  | cons id ids ih =>
    obtain ⟨hid, hnd⟩ := List.nodup_cons.mp hnd
    rw [tryPassAll]
    cases hcb : breakers[id]? with
    | none => exact ih hnd (by simpa [select, hcb] using h)
    | some cb =>
      have hsame : breakers.set id cb = breakers := by
        obtain ⟨hlt, hget⟩ := List.getElem?_eq_some_iff.mp hcb
        rw [← hget, List.set_getElem_self]
      rw [select_cons hcb, List.takeWhile_cons] at h
      cases hr : cb.rejects t with
      | true =>
        dsimp only
        rw [AbstractCircuitBreaker.tryPass_of_rejects hr]
        exact hsame
      | false =>
        simp only [hr, Bool.not_false, if_true, List.any_cons, Bool.or_eq_false_iff] at h
        dsimp only
        rw [AbstractCircuitBreaker.tryPass_of_closed hr h.1]
        dsimp only
        rw [hsame]
        exact ih hnd h.2

/-- A probe before the first rejection leaves its breaker HalfOpen. -/
theorem tryPassAll_of_probe (hnd : ids.Nodup)
    (h : ((select breakers ids).takeWhile fun cb => !cb.rejects t).any (fun cb => cb.probes t) =
      true) : ∃ (id : ℕ) (cb cb' : AbstractCircuitBreaker), breakers[id]? = some cb ∧ cb.currentState = .kOpen ∧
        (tryPassAll t ids breakers).1[id]? = some cb' ∧ cb'.currentState = .kHalfOpen := by
  induction ids generalizing breakers with
  | nil => simp [select] at h
  | cons id ids ih =>
    obtain ⟨hid, hnd⟩ := List.nodup_cons.mp hnd
    rw [tryPassAll]
    cases hcb : breakers[id]? with
    | none => exact ih hnd (by simpa [select, hcb] using h)
    | some cb =>
      obtain ⟨hlt, hget⟩ := List.getElem?_eq_some_iff.mp hcb
      rw [select_cons hcb, List.takeWhile_cons] at h
      cases hr : cb.rejects t with
      | true => simp [hr] at h
      | false =>
        simp only [hr, Bool.not_false, if_true, List.any_cons, Bool.or_eq_true] at h
        dsimp only
        by_cases hp : cb.probes t = true
        · rw [AbstractCircuitBreaker.tryPass_of_probes hp]
          refine ⟨id, cb, { cb with currentState := .kHalfOpen }, hcb, ?_, ?_, rfl⟩
          · simp only [AbstractCircuitBreaker.probes, Bool.and_eq_true, decide_eq_true_eq] at hp
            exact hp.1
          · rw [tryPassAll_of_not_mem hid, List.getElem?_set_self hlt]
        · rw [AbstractCircuitBreaker.tryPass_of_closed hr (by simpa using hp)]
          dsimp only
          rw [← hget, List.set_getElem_self]
          exact ih hnd (h.resolve_left hp)

/-- A completed breaker is not HalfOpen; the others are as before. -/
theorem recordCompleteAll_halfOpen {rt : ℤ} {error : String} {j : ℕ} {cb : AbstractCircuitBreaker}
    (h : (recordCompleteAll t rt error ids breakers)[j]? = some cb)
    (hs : cb.currentState = .kHalfOpen) : j ∉ ids ∧ breakers[j]? = some cb := by
  unfold recordCompleteAll at h
  induction ids generalizing breakers with
  | nil => exact ⟨by simp, h⟩
  | cons id ids ih =>
    obtain ⟨hmem, hcb⟩ := ih h
    rw [List.getElem?_modify] at hcb
    obtain ⟨cb₀, hcb₀, rfl⟩ := Option.map_eq_some_iff.mp hcb
    by_cases heq : id = j
    · rw [if_pos heq] at hs
      exact absurd hs (AbstractCircuitBreaker.recordComplete_ne_halfOpen _ _ _ _)
    · rw [if_neg heq]
      refine ⟨?_, hcb₀⟩
      rw [List.mem_cons, not_or]
      exact ⟨Ne.symm heq, hmem⟩

end CircuitBreakerMaps

end SentinelCpp.CircuitBreaker
