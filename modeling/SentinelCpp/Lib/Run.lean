import Mathlib.Data.List.Infix

/-!
# Runs of a labelled step relation

`Run R s₀ tr s`: the labels `tr`, taken in order from `s₀`, lead to `s`.  Invariants are proved once
per step (`Run.hist`).  `Always P tr` and `EveryStep C tr` speak about the states and the
steps on the way; `always_iff_everyStep` reduces "the property holds throughout exactly when every
step meets the condition" to one statement about a single step.
-/

namespace SentinelCpp.Lib

variable {σ α : Type*}

/-- The run with labels `tr` leads from `s₀` to the indexed state. -/
inductive Run (R : σ → α → σ → Prop) (s₀ : σ) : List α → σ → Prop
  | nil : Run R s₀ [] s₀
  | snoc {tr : List α} {s s' : σ} {a : α} (h : Run R s₀ tr s) (hs : R s a s') :
      Run R s₀ (tr ++ [a]) s'

variable {R : σ → α → σ → Prop} {s₀ s s' : σ} {tr : List α} {a : α}

namespace Run

/-- **History rule**: an invariant that relates the labels so far to the state. -/
theorem hist {I : List α → σ → Prop} (h0 : I [] s₀)
    (hstep : ∀ tr s a s', Run R s₀ tr s → I tr s → R s a s' → I (tr ++ [a]) s')
    (h : Run R s₀ tr s) : I tr s := by
  induction h with
  | nil => exact h0
  | snoc h hs ih => exact hstep _ _ _ _ h ih hs

theorem eq_of_nil (h : Run R s₀ [] s) : s = s₀ := by
  generalize htr : ([] : List α) = tr at h
  cases h with
  | nil => rfl
  | snoc _ _ => simp at htr

theorem of_snoc (h : Run R s₀ (tr ++ [a]) s') : ∃ s, Run R s₀ tr s ∧ R s a s' := by
  generalize htr : tr ++ [a] = tr' at h
  cases h with
  | nil => simp at htr
  | snoc h hs =>
    obtain ⟨rfl, hab⟩ := List.append_inj' htr rfl
    obtain rfl : a = _ := by simpa using hab
    exact ⟨_, h, hs⟩

theorem trans {s₁ : σ} {tr' : List α} (h : Run R s₀ tr s) (h' : Run R s tr' s₁) :
    Run R s₀ (tr ++ tr') s₁ := by
  induction h' with
  | nil => simpa using h
  | snoc _ hs ih => simpa using ih.snoc hs

/-- A functional step relation gives every label sequence at most one final state. -/
theorem unique (hdet : ∀ s a s₁ s₂, R s a s₁ → R s a s₂ → s₁ = s₂) {s₁ s₂ : σ}
    (h₁ : Run R s₀ tr s₁) (h₂ : Run R s₀ tr s₂) : s₁ = s₂ := by
  induction h₁ generalizing s₂ with
  | nil => exact h₂.eq_of_nil.symm
  | snoc _ hs ih =>
    obtain ⟨t, ht, hs'⟩ := h₂.of_snoc
    obtain rfl := ih ht
    exact hdet _ _ _ _ hs hs'

/-- Every prefix of a run is a run. -/
theorem of_prefix (h : Run R s₀ tr s) {tr₁ : List α} (hp : tr₁ <+: tr) :
    ∃ s₁, Run R s₀ tr₁ s₁ := by
  induction h with
  | nil =>
    obtain rfl := List.prefix_nil.mp hp
    exact ⟨s₀, .nil⟩
  | snoc h hs ih =>
    rcases List.prefix_concat_iff.mp hp with rfl | hp
    · exact ⟨_, h.snoc hs⟩
    · exact ih hp

/-- The step a run takes from the state that a prefix of its labels leads to. -/
theorem step_of_prefix (hdet : ∀ s a s₁ s₂, R s a s₁ → R s a s₂ → s₁ = s₂) (h : Run R s₀ tr s)
    {tr₁ : List α} {s₁ : σ} (hp : tr₁ ++ [a] <+: tr) (h₁ : Run R s₀ tr₁ s₁) :
    ∃ s₂, R s₁ a s₂ ∧ Run R s₀ (tr₁ ++ [a]) s₂ := by
  obtain ⟨s₂, h₂⟩ := h.of_prefix hp
  obtain ⟨s₁', h₁', hs⟩ := h₂.of_snoc
  obtain rfl := h₁.unique hdet h₁'
  exact ⟨s₂, hs, h₂⟩

end Run

/-! ### Executable steps -/

/-- Folding a partial step function over the labels gives a run. -/
theorem run_of_foldlM {step : σ → α → Option σ} (h : tr.foldlM step s₀ = some s) :
    Run (fun s a s' => step s a = some s') s₀ tr s := by
  induction tr generalizing s₀ with
  | nil =>
    obtain rfl : s₀ = s := by simpa using h
    exact .nil
  | cons a tr ih =>
    rw [List.foldlM_cons] at h
    obtain ⟨s₁, h₁, h₂⟩ := Option.bind_eq_some_iff.mp h
    exact (Run.nil.snoc (R := fun s a s' => step s a = some s') h₁).trans (ih h₂)

section StepOf

variable {ι ω : Type*}

/-- The relation of a step that is a partial function of an input; a label is the input with the
output of the step. -/
def StepOf (step : σ → ι → Option (σ × ω)) (s : σ) (a : ι × ω) (s' : σ) : Prop :=
  step s a.1 = some (s', a.2)

variable {step : σ → ι → Option (σ × ω)}

theorem stepOf_det (s : σ) (a : ι × ω) (s₁ s₂ : σ) (h₁ : StepOf step s a s₁)
    (h₂ : StepOf step s a s₂) : s₁ = s₂ := by
  have h := h₁.symm.trans h₂
  rw [Option.some.injEq, Prod.mk.injEq] at h
  exact h.1

/-- Take the inputs in order; the labels of the steps and the state after them. -/
def execute (step : σ → ι → Option (σ × ω)) (s : σ) : List ι → Option (List (ι × ω) × σ)
  | [] => some ([], s)
  | i :: is =>
    match step s i with
    | none => none
    | some (s', o) => (execute step s' is).map fun r => ((i, o) :: r.1, r.2)

/-- An execution is a run. -/
theorem run_of_execute {s : σ} {is : List ι} {tr : List (ι × ω)} {s' : σ}
    (h : execute step s is = some (tr, s')) : Run (StepOf step) s tr s' := by
  induction is generalizing s tr with
  | nil =>
    rw [execute, Option.some.injEq, Prod.mk.injEq] at h
    obtain ⟨rfl, rfl⟩ := h
    exact .nil
  | cons i is ih =>
    rw [execute] at h
    cases hs : step s i with
    | none => simp [hs] at h
    | some r =>
      obtain ⟨s₁, o⟩ := r
      rw [hs] at h
      obtain ⟨r, hr, heq⟩ := Option.map_eq_some_iff.mp h
      rw [Prod.mk.injEq] at heq
      obtain ⟨rfl, rfl⟩ := heq
      exact (Run.nil.snoc (a := (i, o)) hs).trans (ih hr)

/-- The labels of an execution are those of a run. -/
theorem exists_run_of_execute {s : σ} (is : List ι) {tr : List (ι × ω)}
    (h : (execute step s is).map Prod.fst = some tr) : ∃ s', Run (StepOf step) s tr s' := by
  obtain ⟨r, hr, rfl⟩ := Option.map_eq_some_iff.mp h
  exact ⟨r.2, run_of_execute hr⟩

theorem execute_inputs {s : σ} {is : List ι} {tr : List (ι × ω)} {s' : σ}
    (h : execute step s is = some (tr, s')) : tr.map Prod.fst = is := by
  induction is generalizing s tr with
  | nil =>
    rw [execute, Option.some.injEq, Prod.mk.injEq] at h
    rw [← h.1, List.map_nil]
  | cons i is ih =>
    rw [execute] at h
    cases hs : step s i with
    | none => simp [hs] at h
    | some r =>
      rw [hs] at h
      obtain ⟨r', hr, heq⟩ := Option.map_eq_some_iff.mp h
      rw [Prod.mk.injEq] at heq
      obtain ⟨rfl, rfl⟩ := heq
      rw [List.map_cons, ih hr]

/-- A run is known from its inputs and the outputs of its execution. -/
theorem exists_run_of_outputs (step : σ → ι → Option (σ × ω)) (s : σ) (is : List ι) (os : List ω)
    (h : (execute step s is).map (fun r => r.1.map Prod.snd) = some os) :
    ∃ s', execute step s is = some (is.zip os, s') ∧ Run (StepOf step) s (is.zip os) s' := by
  obtain ⟨⟨tr, s'⟩, hr, rfl⟩ := Option.map_eq_some_iff.mp h
  have hzip : is.zip (tr.map Prod.snd) = tr := by
    rw [← execute_inputs hr]
    exact (List.zip_of_prod rfl rfl).symm
  rw [hzip]
  exact ⟨s', hr, run_of_execute hr⟩

/-- The inputs determine a run: its labels and its last state. -/
theorem Run.eq_of_inputs {s₀ s s' : σ} {tr tr' : List (ι × ω)} (h : Run (StepOf step) s₀ tr s)
    (h' : Run (StepOf step) s₀ tr' s') (hin : tr.map Prod.fst = tr'.map Prod.fst) :
    tr = tr' ∧ s = s' := by
  induction h generalizing tr' s' with
  | nil =>
    obtain rfl : tr' = [] := by simpa using hin.symm
    exact ⟨rfl, h'.eq_of_nil.symm⟩
  | @snoc tr s s₁ a h hs ih =>
    rcases List.eq_nil_or_concat tr' with rfl | ⟨tr', a', rfl⟩
    · simp at hin
    · rw [List.concat_eq_append] at h' hin ⊢
      rw [List.map_append, List.map_append] at hin
      obtain ⟨hin, ha⟩ := List.append_inj' hin rfl
      obtain ⟨s₂, h', hs'⟩ := h'.of_snoc
      obtain ⟨rfl, rfl⟩ := ih h' hin
      have hinput : a.1 = a'.1 := by simpa using ha
      have houtput : some (s₁, a.2) = some (s', a'.2) := by
        rw [← (hs : step s a.1 = some (s₁, a.2)), ← (hs' : step s a'.1 = some (s', a'.2)), hinput]
      rw [Option.some.injEq, Prod.mk.injEq] at houtput
      rw [Prod.ext hinput houtput.2]
      exact ⟨rfl, houtput.1⟩

end StepOf

/-- Every state visited by the labels `tr` satisfies `P`. -/
def Always (R : σ → α → σ → Prop) (s₀ : σ) (P : σ → Prop) (tr : List α) : Prop :=
  ∀ tr₁ s₁, tr₁ <+: tr → Run R s₀ tr₁ s₁ → P s₁

/-- Every step taken along `tr` satisfies `C` in the state before it. -/
def EveryStep (R : σ → α → σ → Prop) (s₀ : σ) (C : σ → α → Prop) (tr : List α) : Prop :=
  ∀ tr₁ s₁ a, tr₁ ++ [a] <+: tr → Run R s₀ tr₁ s₁ → C s₁ a

variable {P : σ → Prop} {C D : σ → α → Prop}

theorem EveryStep.mono {tr₁ : List α} (h : EveryStep R s₀ C tr) (hp : tr₁ <+: tr) :
    EveryStep R s₀ C tr₁ :=
  fun tr₂ s₂ a h₂ => h tr₂ s₂ a (h₂.trans hp)

theorem Always.last (h : Always R s₀ P tr) (hr : Run R s₀ tr s) : P s :=
  h tr s (List.prefix_refl _) hr

theorem EveryStep.last (h : EveryStep R s₀ C (tr ++ [a])) (hr : Run R s₀ tr s) : C s a :=
  h tr s a (List.prefix_refl _) hr

theorem everyStep_nil : EveryStep R s₀ C [] := by
  intro tr₁ s₁ a h
  simp at h

theorem everyStep_concat (hdet : ∀ s a s₁ s₂, R s a s₁ → R s a s₂ → s₁ = s₂)
    (h : EveryStep R s₀ C tr) (hr : Run R s₀ tr s) (hC : C s a) : EveryStep R s₀ C (tr ++ [a]) := by
  intro tr₁ s₁ b hp hr₁
  rcases List.prefix_concat_iff.mp hp with heq | hp
  · obtain ⟨rfl, hba⟩ := List.append_inj' heq rfl
    obtain rfl : b = a := by simpa using hba
    exact hr.unique hdet hr₁ ▸ hC
  · exact h tr₁ s₁ b hp hr₁

theorem Run.of_cons (h : Run R s₀ (a :: tr) s') : ∃ s, R s₀ a s ∧ Run R s tr s' := by
  induction tr using List.reverseRecOn generalizing s' with
  | nil =>
    have h' : Run R s₀ ([] ++ [a]) s' := h
    obtain ⟨s, h, hs⟩ := h'.of_snoc
    obtain rfl := h.eq_of_nil
    exact ⟨s', hs, .nil⟩
  | append_singleton tr b ih =>
    have h' : Run R s₀ ((a :: tr) ++ [b]) s' := h
    obtain ⟨s, h, hs⟩ := h'.of_snoc
    obtain ⟨s₁, ha, htr⟩ := ih h
    exact ⟨s₁, ha, htr.snoc hs⟩

theorem everyStep_cons (ha : R s₀ a s) (hdet : ∀ s a s₁ s₂, R s a s₁ → R s a s₂ → s₁ = s₂)
    (hC : C s₀ a) (h : EveryStep R s C tr) : EveryStep R s₀ C (a :: tr) := by
  rintro tr₁ s₁ b hp hr
  cases tr₁ with
  | nil =>
    obtain rfl : b = a := by simpa using hp
    exact hr.eq_of_nil ▸ hC
  | cons c tr₁ =>
    rw [List.cons_append, List.cons_prefix_cons] at hp
    obtain ⟨rfl, hp⟩ := hp
    obtain ⟨s₂, hc, hr⟩ := hr.of_cons
    obtain rfl := hdet _ _ _ _ ha hc
    exact h tr₁ s₁ b hp hr

/-- **Exactness of a step condition.**  If `P` holds initially and, from a state of the run with `P`, a
step leads to `P` and is itself good (`D`) exactly when it meets `C`, then `P` holds throughout the run
and all its steps are good exactly when every step meets `C`. -/
theorem always_and_everyStep_iff (hdet : ∀ s a s₁ s₂, R s a s₁ → R s a s₂ → s₁ = s₂) (h0 : P s₀)
    (hstep : ∀ tr₁ s a s', tr₁ ++ [a] <+: tr → Run R s₀ tr₁ s → P s → R s a s' →
      ((P s' ∧ D s a) ↔ C s a))
    (hr : Run R s₀ tr s) : (Always R s₀ P tr ∧ EveryStep R s₀ D tr) ↔ EveryStep R s₀ C tr := by
  constructor
  · rintro ⟨hP, hD⟩ tr₁ s₁ a hp hr₁
    obtain ⟨s₂, hs, hr₂⟩ := hr.step_of_prefix hdet hp hr₁
    have h1 : P s₁ := hP _ _ ((List.prefix_append _ _).trans hp) hr₁
    exact (hstep _ _ _ _ hp hr₁ h1 hs).mp ⟨hP _ _ hp hr₂, hD _ _ _ hp hr₁⟩
  · intro hC
    have hP : Always R s₀ P tr := by
      intro tr₁ s₁ hp hr₁
      induction hr₁ with
      | nil => exact h0
      | snoc hr₂ hs ih =>
        have hP := ih ((List.prefix_append _ _).trans hp)
        exact ((hstep _ _ _ _ hp hr₂ hP hs).mpr (hC _ _ _ hp hr₂)).1
    refine ⟨hP, fun tr₁ s₁ a hp hr₁ => ?_⟩
    obtain ⟨s₂, hs, hr₂⟩ := hr.step_of_prefix hdet hp hr₁
    have h1 : P s₁ := hP _ _ ((List.prefix_append _ _).trans hp) hr₁
    exact ((hstep _ _ _ _ hp hr₁ h1 hs).mpr (hC _ _ _ hp hr₁)).2

/-- The same for a property of states alone. -/
theorem always_iff_everyStep (hdet : ∀ s a s₁ s₂, R s a s₁ → R s a s₂ → s₁ = s₂) (h0 : P s₀)
    (hstep : ∀ tr₁ s a s', tr₁ ++ [a] <+: tr → Run R s₀ tr₁ s → P s → R s a s' → (P s' ↔ C s a))
    (hr : Run R s₀ tr s) : Always R s₀ P tr ↔ EveryStep R s₀ C tr := by
  have h := always_and_everyStep_iff (D := fun _ _ => True) hdet h0
    (fun tr₁ s a s' hp hr hP hs => (and_iff_left trivial).trans (hstep tr₁ s a s' hp hr hP hs)) hr
  exact (and_iff_left fun _ _ _ _ _ => trivial).symm.trans h

/-- Along the steps that can be taken, the test passes. -/
def passes (step : σ → α → Option σ) (test : σ → α → Bool) : σ → List α → Bool
  | _, [] => true
  | s, a :: tr =>
    test s a && match step s a with
      | none => true
      | some s' => passes step test s' tr

theorem everyStep_of_passes {step : σ → α → Option σ} {test : σ → α → Bool}
    (h : passes step test s₀ tr = true) :
    EveryStep (fun s a s' => step s a = some s') s₀ (fun s a => test s a = true) tr := by
  induction tr generalizing s₀ with
  | nil => exact everyStep_nil
  | cons a tr ih =>
    rw [passes, Bool.and_eq_true] at h
    obtain ⟨htest, hrest⟩ := h
    rintro tr₁ s₁ b hp hr
    cases tr₁ with
    | nil =>
      obtain rfl : b = a := by simpa using hp
      exact hr.eq_of_nil ▸ htest
    | cons c tr₁ =>
      rw [List.cons_append, List.cons_prefix_cons] at hp
      obtain ⟨rfl, hp⟩ := hp
      obtain ⟨s₂, hc, hr⟩ := hr.of_cons
      rw [hc] at hrest
      exact ih hrest tr₁ s₁ b hp hr

section Checks

variable {ι ω : Type*} {step : σ → ι → Option (σ × ω)}

/-- The execution exists and every step of it passes the test. -/
def checks (step : σ → ι → Option (σ × ω)) (test : σ → ι × ω → Bool) (s : σ) : List ι → Bool
  | [] => true
  | i :: is =>
    match step s i with
    | none => false
    | some (s', o) => test s (i, o) && checks step test s' is

/-- An execution whose steps pass the test is a run whose steps do. -/
theorem exists_run_of_checks {test : σ → ι × ω → Bool} {s : σ} {is : List ι}
    (h : checks step test s is = true) : ∃ tr s', tr.map Prod.fst = is ∧ Run (StepOf step) s tr s' ∧
      EveryStep (StepOf step) s (fun s a => test s a = true) tr := by
  induction is generalizing s with
  | nil => exact ⟨[], s, rfl, .nil, everyStep_nil⟩
  | cons i is ih =>
    rw [checks] at h
    cases hs : step s i with
    | none => simp [hs] at h
    | some r =>
      obtain ⟨s₁, o⟩ := r
      simp only [hs, Bool.and_eq_true] at h
      obtain ⟨tr, s', htr, hr, hall⟩ := ih h.2
      have hs' : StepOf step s (i, o) s₁ := hs
      exact ⟨(i, o) :: tr, s', by rw [List.map_cons, htr], (Run.nil.snoc hs').trans hr,
        everyStep_cons hs' stepOf_det h.1 hall⟩

end Checks

end SentinelCpp.Lib
