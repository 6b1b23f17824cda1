import SentinelCpp.Common
import Mathlib.Logic.Function.Basic

/-!
# Dynamic properties and the rule managers that listen to them

A `DynamicSentinelProperty` keeps the last value it was given and a set of listeners by name; it
drops an update equal to the last value.  Each rule manager is a listener of its current property:
`LoadRules` updates that property, `RegisterToProperty` moves the listener to another one without
telling it the value already there.  What a manager does with a delivered list is its `ManagerKind`;
the bookkeeping is the same for all four.
-/

namespace SentinelCpp.Property

/-- `DynamicSentinelProperty<T>`; a listener is known by its name, the key of `listeners_`. -/
structure DynamicSentinelProperty (T : Type) where
  lastValue : T
  listeners : List String

namespace DynamicSentinelProperty

variable {T : Type} (p : DynamicSentinelProperty T)

/-- `AddListener`: `emplace` keeps an existing listener of the same name. -/
def addListener (name : String) : DynamicSentinelProperty T :=
  if name ∈ p.listeners then p else { p with listeners := p.listeners ++ [name] }

/-- `RemoveListener`. -/
def removeListener (name : String) : DynamicSentinelProperty T :=
  { p with listeners := p.listeners.filter (fun l => l ≠ name) }

end DynamicSentinelProperty

/-- What is particular to one rule manager: the name of its listener, its maps at start-up, and what
`ConfigUpdate` does to them. -/
structure ManagerKind (R V : Type) where
  listenerName : String
  initial : V
  configUpdate : V → List R → V

/-- A rule manager with the properties of its rule type (by identity) and its rule maps. -/
structure RuleManager (R V : Type) where
  properties : ℕ → DynamicSentinelProperty (List R)
  curProperty : ℕ
  maps : V

namespace RuleManager

variable {R V W : Type} [BEq R] (k : ManagerKind R V) (m : RuleManager R V)

/-- The constructor: property 0 is the manager's own and has its listener; the others are new. -/
def start : RuleManager R V where
  properties := fun p => ⟨[], if p = 0 then [k.listenerName] else []⟩
  curProperty := 0
  maps := k.initial

/-- `UpdateValue(value)` on property `p`. -/
def updateValue (p : ℕ) (value : List R) : RuleManager R V × Bool :=
  if (m.properties p).lastValue == value then (m, false)
  else
    ({ m with
        properties :=
          Function.update m.properties p { m.properties p with lastValue := value }
        maps := (m.properties p).listeners.foldl
          (fun v name => if name = k.listenerName then k.configUpdate v value else v) m.maps },
      true)

/-- `LoadRules(rules)`. -/
def loadRules (rules : List R) : RuleManager R V × Bool :=
  m.updateValue k m.curProperty rules

/-- `RegisterToProperty(property)`; a null property is ignored. -/
def registerToProperty (property : Option ℕ) : RuleManager R V :=
  match property with
  | none => m
  | some p =>
    let properties := Function.update m.properties m.curProperty
      ((m.properties m.curProperty).removeListener k.listenerName)
    { m with
      properties := Function.update properties p ((properties p).addListener k.listenerName)
      curProperty := p }

/-! ### Histories -/

end RuleManager

/-- A call on a rule manager or on one of the properties. -/
inductive ManagerOp (R : Type)
  | loadRules (rules : List R)
  | registerToProperty (property : Option ℕ)
  | updateValue (p : ℕ) (value : List R)

namespace RuleManager

variable {R V W : Type} [BEq R] (k : ManagerKind R V) (m : RuleManager R V)

def apply (op : ManagerOp R) : RuleManager R V :=
  match op with
  | .loadRules rules => (m.loadRules k rules).1
  | .registerToProperty property => m.registerToProperty k property
  | .updateValue p value => (m.updateValue k p value).1

def run (ops : List (ManagerOp R)) : RuleManager R V := ops.foldl (apply k) m

/-- The list the call hands to the manager's `ConfigUpdate`, if any: the property changes its value
and has the listener. -/
def delivers (op : ManagerOp R) : Option (List R) :=
  let via (p : ℕ) (value : List R) : Option (List R) :=
    if (m.properties p).lastValue == value then none
    else if k.listenerName ∈ (m.properties p).listeners then some value else none
  match op with
  | .loadRules rules => via m.curProperty rules
  | .registerToProperty _ => none
  | .updateValue p value => via p value

/-- The last list handed to `ConfigUpdate` in a history from `m`; `d` before the first one. -/
def delivered (k : ManagerKind R V) (m : RuleManager R V) (ops : List (ManagerOp R))
    (d : List R) : List R :=
  match ops with
  | [] => d
  | op :: ops => delivered k (m.apply k op) ops ((m.delivers k op).getD d)

/-- The listener sits on the current property, once, and on no other. -/
def Attached : Prop :=
  ∀ p, (m.properties p).listeners = if p = m.curProperty then [k.listenerName] else []

variable {k m}

omit [BEq R] in
theorem attached_start : (start k : RuleManager R V).Attached k := fun _ => rfl

theorem Attached.updateValue (h : m.Attached k) (p : ℕ) (value : List R) :
    (m.updateValue k p value).1.Attached k := by
  intro q
  unfold RuleManager.updateValue
  split
  · exact h q
  · by_cases hq : q = p
    · subst hq
      simpa using h q
    · simpa [Function.update_of_ne hq] using h q

omit [BEq R] in
theorem Attached.registerToProperty (h : m.Attached k) (property : Option ℕ) :
    (m.registerToProperty k property).Attached k := by
  cases property with
  | none => exact h
  | some p =>
    intro q
    have hcur := h m.curProperty
    rw [if_pos rfl] at hcur
    by_cases hqp : q = p
    · subst hqp
      by_cases hqc : q = m.curProperty
      · subst hqc
        simp [RuleManager.registerToProperty, DynamicSentinelProperty.addListener,
          DynamicSentinelProperty.removeListener, hcur]
      · have hq := h q
        rw [if_neg hqc] at hq
        simp [RuleManager.registerToProperty, DynamicSentinelProperty.addListener,
          Function.update_of_ne hqc, hq]
    · by_cases hqc : q = m.curProperty
      · subst hqc
        simp [RuleManager.registerToProperty, hqp, DynamicSentinelProperty.removeListener, hcur]
      · have hq := h q
        rw [if_neg hqc] at hq
        simp [RuleManager.registerToProperty, hqp, Function.update_of_ne hqc, hq]

theorem Attached.apply (h : m.Attached k) (op : ManagerOp R) : (m.apply k op).Attached k := by
  cases op with
  | loadRules rules => exact h.updateValue _ _
  | registerToProperty property => exact h.registerToProperty _
  | updateValue p value => exact h.updateValue _ _

/-- An update reaches the maps exactly when it is delivered. -/
theorem Attached.updateValue_maps (h : m.Attached k) (p : ℕ) (value : List R) :
    (m.updateValue k p value).1.maps =
      match m.delivers k (.updateValue p value) with
      | some l => k.configUpdate m.maps l
      | none => m.maps := by
  unfold RuleManager.updateValue delivers
  dsimp only
  cases (m.properties p).lastValue == value with
  | true => rfl
  | false =>
    rw [h p]
    by_cases hp : p = m.curProperty <;> simp [hp]

theorem Attached.apply_maps (h : m.Attached k) (op : ManagerOp R) :
    (m.apply k op).maps =
      match m.delivers k op with
      | some l => k.configUpdate m.maps l
      | none => m.maps := by
  cases op with
  | loadRules rules => exact h.updateValue_maps _ _
  | registerToProperty property => cases property <;> rfl
  | updateValue p value => exact h.updateValue_maps _ _

/-! ### What is enforced -/

/-- The rules in force, read off the maps by `view`, depend on the last delivered list only. -/
structure Enforces (k : ManagerKind R V) (Inv : V → Prop) (view : V → W)
    (effective : List R → W) : Prop where
  inv_initial : Inv k.initial
  view_initial : view k.initial = effective []
  inv_configUpdate : ∀ v l, Inv v → Inv (k.configUpdate v l)
  view_configUpdate : ∀ v l, Inv v → view (k.configUpdate v l) = effective l

variable {Inv : V → Prop} {view : V → W} {effective : List R → W}

omit [BEq R] in
/-- A manager whose update forgets the old maps needs no invariant. -/
theorem Enforces.of_forgets (hinitial : view k.initial = effective [])
    (hupdate : ∀ v l, view (k.configUpdate v l) = effective l) :
    Enforces k (fun _ => True) view effective where
  inv_initial := trivial
  view_initial := hinitial
  inv_configUpdate := fun _ _ _ => trivial
  view_configUpdate := fun v l _ => hupdate v l

theorem view_apply (hE : Enforces k Inv view effective) (hA : m.Attached k) (hI : Inv m.maps)
    {d : List R} (hv : view m.maps = effective d) (op : ManagerOp R) :
    Inv (m.apply k op).maps ∧
      view (m.apply k op).maps = effective ((m.delivers k op).getD d) := by
  rw [hA.apply_maps]
  cases m.delivers k op with
  | none => exact ⟨hI, hv⟩
  | some l => exact ⟨hE.inv_configUpdate _ _ hI, hE.view_configUpdate _ _ hI⟩

/-- After any history the rules in force are those of the last delivered list. -/
theorem view_run (hE : Enforces k Inv view effective) (ops : List (ManagerOp R)) {d : List R}
    (hA : m.Attached k) (hI : Inv m.maps) (hv : view m.maps = effective d) :
    (m.run k ops).Attached k ∧ Inv (m.run k ops).maps ∧
      view (m.run k ops).maps = effective (delivered k m ops d) := by
  induction ops generalizing m d with
  | nil => exact ⟨hA, hI, hv⟩
  | cons op ops ih =>
    obtain ⟨hI', hv'⟩ := view_apply hE hA hI hv op
    exact ih (hA.apply op) hI' hv'

/-- Loading a list that is not suppressed puts exactly that list in force. -/
theorem view_loadRules (hE : Enforces k Inv view effective) (hA : m.Attached k) (hI : Inv m.maps)
    {rules : List R} (hne : ((m.properties m.curProperty).lastValue == rules) = false) :
    view (m.loadRules k rules).1.maps = effective rules := by
  have hmaps := hA.updateValue_maps m.curProperty rules
  have hcur := hA m.curProperty
  rw [if_pos rfl] at hcur
  simp only [delivers, hne, hcur, List.mem_singleton, if_true] at hmaps
  rw [loadRules, hmaps]
  exact hE.view_configUpdate _ _ hI

/-- A freshly started manager enforces whatever it is loaded with first. -/
theorem view_start_loadRules (hE : Enforces k Inv view effective) (rules : List R) :
    view ((start k).loadRules k rules).1.maps = effective rules := by
  cases hb : ([] : List R) == rules with
  | false => exact view_loadRules hE attached_start hE.inv_initial hb
  | true =>
    cases rules with
    | nil => simpa [loadRules, updateValue, start] using hE.view_initial
    | cons r rules => simp at hb

/-- After the history `ops`, loading `rules` leaves in force what a fresh manager would enforce. -/
def Enforced (k : ManagerKind R V) (view : V → W) (ops : List (ManagerOp R)) (rules : List R) :
    Prop :=
  view (((start k).run k ops).loadRules k rules).1.maps =
    view ((start k).loadRules k rules).1.maps

/-- The current property holds a different list, or the list last delivered to the manager has the
effect of `rules` already. -/
def TakesEffect (k : ManagerKind R V) (effective : List R → W) (ops : List (ManagerOp R))
    (rules : List R) : Prop :=
  let m := (start k).run k ops
  ((m.properties m.curProperty).lastValue == rules) = false ∨
    effective (delivered k (start k) ops []) = effective rules

/-- **When `LoadRules` takes effect.** -/
theorem enforced_iff (hE : Enforces k Inv view effective) (ops : List (ManagerOp R))
    (rules : List R) : Enforced k view ops rules ↔ TakesEffect k effective ops rules := by
  obtain ⟨hA, hI, hv⟩ := view_run (m := start k) hE ops attached_start hE.inv_initial hE.view_initial
  unfold Enforced TakesEffect
  rw [view_start_loadRules hE]
  dsimp only
  cases hb : (((start k).run k ops).properties
      ((start k).run k ops).curProperty).lastValue == rules with
  | false => simpa using view_loadRules hE hA hI hb
  | true =>
    have hsame : (((start k).run k ops).loadRules k rules).1 = (start k).run k ops := by
      simp [loadRules, updateValue, hb]
    rw [hsame, hv]
    simp

end RuleManager

end SentinelCpp.Property
