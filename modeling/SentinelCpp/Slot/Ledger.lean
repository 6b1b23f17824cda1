import SentinelCpp.Slot.Nodes

/-!
# The ledger of calls

The ledger is what the library is for, without slots, nodes or rules: which calls were handed out and
are still outstanding, and what each call posts to the books of its resource.  It reads only the calls
of a run and whether an entry came back blocked.  `Books` relates the state of the library to it, and
`Effect` lists what a step can do to the state.
-/

namespace SentinelCpp

open Lib Stat Property

/-! ### The abstract ledger -/

/-- What a call posts: its own count as passed or blocked, or the count of its exit. -/
inductive Account
  | pass (count : ℤ)
  | block (count : ℤ)
  | complete (count : ℤ)
  deriving DecidableEq

structure Posting where
  time : ℕ
  resource : String
  entryType : EntryType
  account : Account
  deriving DecidableEq

/-- The calls handed out, each with whether it is outstanding, and the postings so far. -/
structure Ledger where
  activated : Bool := true
  calls : List (Call × Bool) := []
  postings : List Posting := []

/-- One call of the library and whether it came back blocked. -/
def Ledger.step (l : Ledger) (a : Label) : Ledger :=
  match a with
  | ((t, .entry c), o) =>
    if l.activated then
      match o with
      | .blocked _ =>
        { l with postings := l.postings ++ [⟨t, c.resource, c.entryType, .block c.count⟩] }
      | _ =>
        { l with
          calls := l.calls ++ [(c, true)]
          postings := l.postings ++ [⟨t, c.resource, c.entryType, .pass c.count⟩] }
    else { l with calls := l.calls ++ [(c, false)] }
  | ((t, .exit (some id) count), _) =>
    match l.calls[id]? with
    | some (c, true) =>
      { l with
        calls := l.calls.set id (c, false)
        postings := l.postings ++ [⟨t, c.resource, c.entryType, .complete count⟩] }
    | _ => l
  | ((_, .setActivated b), _) => { l with activated := b }
  | _ => l

/-- The ledger after a run. -/
def ledger (tr : List Label) : Ledger := tr.foldl Ledger.step {}

theorem ledger_concat (tr : List Label) (a : Label) : ledger (tr ++ [a]) = (ledger tr).step a := by
  simp [ledger]

/-- The number of outstanding calls that satisfy `p`. -/
def Ledger.live (l : Ledger) (p : Call → Bool) : ℕ := l.calls.countP fun x => x.2 && p x.1

/-! ### The state against the ledger -/

/-- The entry object stands for the call, outstanding or not. -/
structure EntryOf (e : Entry) (x : Call × Bool) : Prop where
  resource : e.resource = x.1.resource
  entryType : e.entryType = x.1.entryType
  context : e.context = x.1.context
  exited : e.exited = !x.2
  params : x.2 = true → e.params = x.1.params
  curNode : x.2 = true → e.curNode = some (.cluster x.1.resource)
  blockError : e.blockError = ""

/-- The state agrees with the ledger, and contexts point to tag nodes of their own tag. -/
structure Books (env : Env) (w : World) (l : Ledger) : Prop where
  activated : w.activated = l.activated
  entries : List.Forall₂ EntryOf w.entries l.calls
  tagNode : ∀ ctx ref, (w.contexts ctx).tagNode = some ref →
    ∃ r, ref = .tag r (env.contextTag ctx) ∧ env.contextTag ctx ≠ ""

/-! ### What a step can do -/

/-- What the call makes of a configuration of the statistics, and whether it changes it. -/
def Op.newConfig (c : StatConfig) : Op → StatConfig × Bool
  | .updateSampleCount n => c.updateSampleCount n
  | .updateInterval ms => c.updateInterval ms
  | _ => (c, false)

theorem Op.newConfig_valid (op : Op) {c : StatConfig} (h : c.Valid) : (op.newConfig c).1.Valid := by
  cases op with
  | updateSampleCount n => exact h.updateSampleCount n
  | updateInterval ms => exact h.updateInterval ms
  | _ => exact h

/-- The call changes the configuration or leaves it as it is. -/
theorem Op.newConfig_cases (op : Op) (c : StatConfig) :
    ((op.newConfig c).2 = false ∧ (op.newConfig c).1 = c) ∨
      ((op.newConfig c).2 = true ∧ (op.newConfig c).1 ≠ c) := by
  cases op with
  | updateSampleCount n =>
    simp only [newConfig, StatConfig.updateSampleCount]
    split_ifs with h1 h2
    · exact .inl ⟨rfl, rfl⟩
    · exact .inl ⟨rfl, rfl⟩
    · refine .inr ⟨rfl, fun heq => h1 ?_⟩
      have hcount : n.toNat = c.sampleCount := congrArg StatConfig.sampleCount heq
      omega
  | updateInterval ms =>
    simp only [newConfig, StatConfig.updateInterval]
    split_ifs with h1 h2
    · exact .inl ⟨rfl, rfl⟩
    · exact .inl ⟨rfl, rfl⟩
    · refine .inr ⟨rfl, fun heq => h1 ?_⟩
      have hinterval : ms.toNat = c.intervalMs := congrArg StatConfig.intervalMs heq
      omega
  | _ => exact .inl ⟨rfl, rfl⟩

/-- The ways a step changes the state. -/
inductive Effect (env : Env) (t : ℕ) (w : World) : Op → Outcome → World → Prop
  | notActivated {c : Call} (hact : w.activated = false) :
    Effect env t w (.entry c) .notActivated { w with entries := w.entries ++
      [⟨c.resource, c.entryType, c.context, t, true, -1, "", "", none, []⟩] }
  | passed {c : Call} {w₁ : World} (hact : w.activated = true)
      (hcheck : (w.built env c).ruleCheck env t c = some (w₁, .ok)) :
    Effect env t w (.entry c) .passed
      { w₁.recordPass t c with entries := w₁.entries ++ [World.admittedEntry t c] }
  | blocked {c : Call} {w₁ : World} {reason : String} (hact : w.activated = true)
      (hcheck : (w.built env c).ruleCheck env t c = some (w₁, .blocked reason)) :
    Effect env t w (.entry c) (.blocked reason) (w₁.recordBlock t c reason)
  | exited {id : ℕ} {e : Entry} {count : ℤ} (hid : w.entries[id]? = some e)
      (hlive : e.exited = false) :
    Effect env t w (.exit (some id) count) (.exited true)
      (w.recordExit t count id e (.cluster e.resource))
  | exitedBefore {id : ℕ} {e : Entry} {count : ℤ} (hid : w.entries[id]? = some e)
      (hlive : e.exited = true) : Effect env t w (.exit (some id) count) (.exited false) w
  | exitBlocked {count : ℤ} : Effect env t w (.exit none count) (.exited false) w
  | setError {id : ℕ} {e : Entry} {err : String} (hid : w.entries[id]? = some e) :
    Effect env t w (.setError (some id) err) .done
      { w with entries := w.entries.set id { e with error := err } }
  | trace {id : ℕ} {e : Entry} {count : ℤ} (hid : w.entries[id]? = some e) :
    Effect env t w (.trace (some id) count) .done
      { w with storage := recordFor e.curNode t (.exception count) w.storage }
  | config {op : Op} {w' : World} (r : StatConfig × Bool) (hw' : w' = w.setConfig r)
      (hop : ∀ c, op ≠ .entry c) (hop' : ∀ id count, op ≠ .exit (some id) count)
      (hop'' : ∀ b, op ≠ .setActivated b)
      (hconfig : (∃ n, op = .updateSampleCount n) ∨ ∃ ms, op = .updateInterval ms)
      (hnew : r = op.newConfig w.config) :
      Effect env t w op .done w'
  | setActivated {b : Bool} : Effect env t w (.setActivated b) .done { w with activated := b }
  | rules {op : Op} {w' : World}
      (hw' : w' = { w with
        flow := w'.flow
        system := w'.system
        param := w'.param
        circuitBreaker := w'.circuitBreaker
        status := w'.status })
      (hcb : (∀ o, op ≠ .breakerRules o) → w'.circuitBreaker = w.circuitBreaker)
      (hop : ∀ c, op ≠ .entry c) (hop' : ∀ id count, op ≠ .exit (some id) count)
      (hop'' : ∀ b, op ≠ .setActivated b) (hexit : ∀ result count, op ≠ .exit result count)
      (hnew : ∀ c, op.newConfig c = (c, false)) :
      Effect env t w op .done w'

/-- **Inversion of a step**, in a state that agrees with some ledger. -/
theorem step_effect {env : Env} {w w' : World} {l : Ledger} (hB : Books env w l) {t : ℕ} {op : Op}
    {o : Outcome} (h : w.step env (t, op) = some (w', o)) : Effect env t w op o w' := by
  unfold World.step at h
  cases op with
  | entry c =>
    dsimp only at h
    cases hact : w.activated with
    | false =>
      rw [World.entry_of_not_activated hact, Option.some.injEq, Prod.mk.injEq] at h
      obtain ⟨rfl, rfl⟩ := h
      exact .notActivated hact
    | true =>
      rw [World.entry_eq hact] at h
      cases hcheck : (w.built env c).ruleCheck env t c with
      | none => simp [hcheck] at h
      | some r =>
        obtain ⟨w₁, token⟩ := r
        rw [hcheck] at h
        rcases (World.ruleCheck_spec hcheck).result with rfl | ⟨reason, -, rfl⟩
        · dsimp only at h
          split_ifs at h
          rw [Option.some.injEq, Prod.mk.injEq] at h
          obtain ⟨rfl, rfl⟩ := h
          exact .passed hact hcheck
        · rw [Option.some.injEq, Prod.mk.injEq] at h
          obtain ⟨rfl, rfl⟩ := h
          exact .blocked hact hcheck
  | exit result count =>
    cases result with
    | none =>
      simp only [World.exit, Option.some.injEq, Prod.mk.injEq] at h
      obtain ⟨rfl, rfl⟩ := h
      exact .exitBlocked
    | some id =>
      dsimp only at h
      cases hid : w.entries[id]? with
      | none => simp [World.exit, hid] at h
      | some e =>
        cases hlive : e.exited with
        | true =>
          rw [World.exit_of_exited hid hlive, Option.some.injEq, Prod.mk.injEq] at h
          obtain ⟨rfl, rfl⟩ := h
          exact .exitedBefore hid hlive
        | false =>
          obtain ⟨x, -, hx⟩ := Lib.exists_of_mem_left hB.entries (List.mem_of_getElem? hid)
          have hx2 : x.2 = true := by
            have := hx.exited
            rw [hlive] at this
            simpa using this.symm
          have hnode := hx.curNode hx2
          rw [← hx.resource] at hnode
          rw [World.exit_eq hid hlive hnode hx.blockError, Option.some.injEq, Prod.mk.injEq] at h
          obtain ⟨rfl, rfl⟩ := h
          exact .exited hid hlive
  | setError result err =>
    cases result with
    | none =>
      simp only [World.setError, Option.some.injEq, Prod.mk.injEq] at h
      obtain ⟨rfl, rfl⟩ := h
      exact .rules rfl (fun _ => rfl) (by simp) (by simp) (by simp) (by simp) fun _ => rfl
    | some id =>
      cases hid : w.entries[id]? with
      | none => simp [World.setError, hid] at h
      | some e =>
        simp only [World.setError, hid, Option.some.injEq, Prod.mk.injEq] at h
        obtain ⟨rfl, rfl⟩ := h
        exact .setError hid
  | trace result count =>
    cases result with
    | none =>
      simp only [World.trace, Option.some.injEq, Prod.mk.injEq] at h
      obtain ⟨rfl, rfl⟩ := h
      exact .rules rfl (fun _ => rfl) (by simp) (by simp) (by simp) (by simp) fun _ => rfl
    | some id =>
      cases hid : w.entries[id]? with
      | none => simp [World.trace, hid] at h
      | some e =>
        simp only [World.trace, hid] at h
        split_ifs at h
        · rw [Option.some.injEq, Prod.mk.injEq] at h
          obtain ⟨rfl, rfl⟩ := h
          exact .rules rfl (fun _ => rfl) (by simp) (by simp) (by simp) (by simp) fun _ => rfl
        · rw [Option.some.injEq, Prod.mk.injEq] at h
          obtain ⟨rfl, rfl⟩ := h
          exact .trace hid
  | setActivated b =>
    rw [Option.some.injEq, Prod.mk.injEq] at h
    obtain ⟨rfl, rfl⟩ := h
    exact .setActivated
  | updateSampleCount n | updateInterval n =>
    rw [Option.some.injEq, Prod.mk.injEq] at h
    obtain ⟨rfl, rfl⟩ := h
    exact .config _ rfl (by simp) (by simp) (by simp) (by simp) rfl
  | flowRules op | systemRules op | paramRules op | systemStatus op =>
    rw [Option.some.injEq, Prod.mk.injEq] at h
    obtain ⟨rfl, rfl⟩ := h
    exact .rules rfl (fun _ => rfl) (by simp) (by simp) (by simp) (by simp) fun _ => rfl
  | breakerRules op =>
    rw [Option.some.injEq, Prod.mk.injEq] at h
    obtain ⟨rfl, rfl⟩ := h
    exact .rules rfl (fun hne => absurd rfl (hne op)) (by simp) (by simp) (by simp) (by simp) fun _ => rfl

/-! ### Every run keeps the books -/

theorem Books.isTagNode {env : Env} {w : World} {l : Ledger} (hB : Books env w l) (ctx : ℕ) :
    IsTagNode (w.contexts ctx).tagNode := by
  intro ref h
  obtain ⟨r, rfl, -⟩ := hB.tagNode ctx ref h
  exact ⟨r, _, rfl⟩

theorem books_start (env : Env) : Books env (World.start env) {} :=
  ⟨rfl, .nil, by simp [World.start]⟩

/-- The pointer the node builder leaves is one to a tag node of the context's own tag. -/
theorem Books.builtTagNode {env : Env} {w : World} {l : Ledger} (hB : Books env w l) {c : Call}
    {ref : NodeRef} (h : (w.builtNodes env c).2 = some ref) :
    ref = .tag c.resource (env.contextTag c.context) ∧ env.contextTag c.context ≠ "" := by
  rcases World.builtNodes_tagNode env c w with
    ⟨htag, hsame⟩ | ⟨htag, hnone | ⟨hsome, -⟩⟩
  · rw [hsame] at h
    obtain ⟨-, -, hne⟩ := hB.tagNode _ _ h
    exact absurd htag hne
  · rw [hnone] at h
    exact absurd h (by simp)
  · rw [hsome, Option.some.injEq] at h
    exact ⟨h.symm, htag⟩

theorem Books.built {env : Env} {w : World} {l : Ledger} (hB : Books env w l) (c : Call) :
    Books env (w.built env c) l := by
  refine ⟨hB.activated, hB.entries, fun ctx ref h => ?_⟩
  rw [World.built_tagNode] at h
  split_ifs at h with hctx
  · subst hctx
    exact ⟨_, hB.builtTagNode h⟩
  · exact hB.tagNode ctx ref h

theorem Books.checked {env : Env} {w w₁ : World} {l : Ledger} (hB : Books env w l) {t : ℕ} {c : Call}
    {res : TokenResult} (h : w.ruleCheck env t c = some (w₁, res)) : Books env w₁ l := by
  have heq := (World.ruleCheck_spec h).world_eq
  refine ⟨?_, ?_, fun ctx ref => ?_⟩ <;> rw [heq]
  · exact hB.activated
  · exact hB.entries
  · exact hB.tagNode ctx ref

/-- Calls that neither hand out nor return an entry leave the ledger alone. -/
theorem Ledger.step_of_other (l : Ledger) (t : ℕ) (o : Outcome) {op : Op}
    (hop : ∀ c, op ≠ .entry c) (hop' : ∀ id count, op ≠ .exit (some id) count)
    (hop'' : ∀ b, op ≠ .setActivated b) : l.step ((t, op), o) = l := by
  cases op with
  | entry c => exact absurd rfl (hop c)
  | exit result count =>
    cases result with
    | none => rfl
    | some id => exact absurd rfl (hop' id count)
  | setActivated b => exact absurd rfl (hop'' b)
  | _ => rfl

theorem Ledger.step_of_exited {l : Ledger} {t id : ℕ} {count : ℤ} {o : Outcome} {c : Call}
    (h : l.calls[id]? = some (c, false)) : l.step ((t, .exit (some id) count), o) = l := by
  simp [Ledger.step, h]

/-- **Each step keeps the books.** -/
theorem Books.step {env : Env} {w w' : World} {l : Ledger} (hB : Books env w l) {t : ℕ} {op : Op}
    {o : Outcome} (h : Effect env t w op o w') : Books env w' (l.step ((t, op), o)) := by
  cases h with
  | notActivated hact =>
    have hl : l.activated = false := hB.activated ▸ hact
    simp only [Ledger.step, hl, Bool.false_eq_true, if_false]
    exact ⟨hact, forall₂_concat hB.entries
      ⟨rfl, rfl, rfl, rfl, by simp, by simp, rfl⟩, hB.tagNode⟩
  | @passed c w₁ hact hcheck =>
    have hl : l.activated = true := hB.activated ▸ hact
    have hB₁ := (hB.built c).checked hcheck
    simp only [Ledger.step, hl, if_true]
    refine ⟨hB₁.activated.trans hl, forall₂_concat hB₁.entries
      ⟨rfl, rfl, rfl, rfl, fun _ => rfl, fun _ => rfl, rfl⟩, fun ctx ref => ?_⟩
    dsimp only
    rw [World.recordPass_tagNode]
    exact hB₁.tagNode ctx ref
  | @blocked c w₁ reason hact hcheck =>
    have hl : l.activated = true := hB.activated ▸ hact
    have hB₁ := (hB.built c).checked hcheck
    simp only [Ledger.step, hl, if_true]
    refine ⟨hB₁.activated.trans hl, hB₁.entries, fun ctx ref => ?_⟩
    rw [World.recordBlock_tagNode]
    exact hB₁.tagNode ctx ref
  | @exited id e count hid hlive =>
    obtain ⟨⟨c, b⟩, hl, hx⟩ := exists_of_getElem?_left hB.entries hid
    have hb : b = true := by simpa [hlive] using hx.exited
    subst hb
    simp only [Ledger.step, hl]
    obtain ⟨hact, hctx⟩ : (w.recordExit t count id e (.cluster e.resource)).activated =
        w.activated ∧ (w.recordExit t count id e (.cluster e.resource)).contexts = w.contexts :=
      World.recordExit_world
    refine ⟨hact.trans hB.activated, ?_, by rw [hctx]; exact hB.tagNode⟩
    rw [World.recordExit_entries]
    exact forall₂_set hB.entries id
      ⟨hx.resource, hx.entryType, hx.context, rfl, by simp, by simp, hx.blockError⟩
  | @exitedBefore id e count hid hlive =>
    obtain ⟨⟨c, b⟩, hl, hx⟩ := exists_of_getElem?_left hB.entries hid
    have hb : b = false := by simpa [hlive] using hx.exited
    subst hb
    rw [Ledger.step_of_exited hl]
    exact hB
  | exitBlocked => exact hB
  | @setError id e err hid =>
    refine ⟨hB.activated, forall₂_set_left hB.entries fun x hx => ?_, hB.tagNode⟩
    obtain ⟨y, hy, he⟩ := exists_of_getElem?_left hB.entries hid
    obtain rfl : x = y := by
      rw [hx] at hy
      exact Option.some.inj hy
    exact ⟨he.resource, he.entryType, he.context, he.exited, he.params, he.curNode, he.blockError⟩
  | trace hid => exact ⟨hB.activated, hB.entries, hB.tagNode⟩
  | config r hw' hop hop' hop'' =>
    rw [Ledger.step_of_other _ _ _ hop hop' hop'', hw']
    unfold World.setConfig
    split_ifs <;> exact ⟨hB.activated, hB.entries, hB.tagNode⟩
  | setActivated => exact ⟨rfl, hB.entries, hB.tagNode⟩
  | rules hw' hcb hop hop' hop'' =>
    rw [Ledger.step_of_other _ _ _ hop hop' hop'', hw']
    exact ⟨hB.activated, hB.entries, hB.tagNode⟩

/-- The books of every run from a state without entries. -/
theorem books_run_of {env : Env} {tr : List Label} {w₀ w : World} (h0 : Books env w₀ {})
    (h : World.Steps env w₀ tr w) : Books env w (ledger tr) := by
  refine Run.hist (I := fun tr w => Books env w (ledger tr)) h0 ?_ h
  rintro tr w ⟨⟨t, op⟩, o⟩ w' - hB hstep
  rw [ledger_concat]
  exact hB.step (step_effect hB hstep)

theorem books_run {env : Env} {tr : List Label} {w : World}
    (h : World.Steps env (World.start env) tr w) : Books env w (ledger tr) :=
  books_run_of (books_start env) h

/-! ### Outstanding entries in the state -/

namespace World

/-- The number of entries that were admitted and not exited yet, among those that satisfy `p`. -/
def live (w : World) (p : Entry → Bool) : ℕ := w.entries.countP fun e => !e.exited && p e

variable {w w' : World} (p : Entry → Bool)

theorem live_of_concat {e : Entry} (h : w'.entries = w.entries ++ [e]) :
    w'.live p = w.live p + if !e.exited && p e then 1 else 0 := by
  rw [live, h, List.countP_append, List.countP_singleton, live]

theorem live_of_admitted {t : ℕ} {c : Call} (h : w'.entries = w.entries ++ [admittedEntry t c]) :
    w'.live p = w.live p + if p (admittedEntry t c) then 1 else 0 := by
  rw [live_of_concat p h]
  rfl

section RuleCheck

variable {env : Env} {t : ℕ} {c : Call} {w₁ : World} {res : TokenResult}
  (hcheck : (w.built env c).ruleCheck env t c = some (w₁, res))

include hcheck

theorem live_ruleCheck : w₁.live p = w.live p := by
  rw [live, live, entries_ruleCheck hcheck]

/-- An admitted call adds its entry. -/
theorem live_recordPass :
    World.live { w₁.recordPass t c with entries := w₁.entries ++ [admittedEntry t c] } p =
      w.live p + if p (admittedEntry t c) then 1 else 0 :=
  live_of_admitted p (congrArg (· ++ [admittedEntry t c]) (entries_ruleCheck hcheck))

theorem live_recordBlock (reason : String) : (w₁.recordBlock t c reason).live p = w.live p := by
  rw [live, recordBlock_entries, ← live, live_ruleCheck p hcheck]

end RuleCheck

/-- An outstanding entry counts. -/
theorem live_pos {id : ℕ} {e : Entry} (hid : w.entries[id]? = some e) (hlive : e.exited = false)
    (hp : p e = true) : 0 < w.live p :=
  List.countP_pos_iff.mpr ⟨e, List.mem_of_getElem? hid, by simp [hlive, hp]⟩

theorem live_of_set_exited {id : ℕ} {e e' : Entry} (hid : w.entries[id]? = some e)
    (h : w'.entries = w.entries.set id e') (hlive : e.exited = false) (he' : e'.exited = true) :
    w.live p = w'.live p + if p e then 1 else 0 := by
  obtain ⟨hlt, hget⟩ := List.getElem?_eq_some_iff.mp hid
  rw [live, live, h, List.countP_set hlt, hget]
  cases hp : p e with
  | false => simp [he']
  | true =>
    have hpos := live_pos p hid hlive hp
    simp only [live] at hpos
    simp [he', hlive]
    omega

theorem live_of_set_same {id : ℕ} {e e' : Entry} (hid : w.entries[id]? = some e)
    (h : w'.entries = w.entries.set id e') (hexited : e'.exited = e.exited) (hp : p e' = p e) :
    w'.live p = w.live p := by
  obtain ⟨hlt, hget⟩ := List.getElem?_eq_some_iff.mp hid
  rw [live, h, List.countP_set hlt, hget, hexited, hp, live]
  cases hc : (!e.exited && p e) with
  | false => simp
  | true =>
    have hpos : 0 < w.entries.countP fun e => !e.exited && p e :=
      List.countP_pos_iff.mpr ⟨e, List.mem_of_getElem? hid, hc⟩
    simp
    omega

end World

end SentinelCpp
