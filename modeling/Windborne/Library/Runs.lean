import Mathlib.Logic.Relation

/-!
# Runs of a labelled step relation

A run is a finite sequence of labelled steps. The invariant rules below package the one
induction over runs: a property that holds at the start and is kept by every step holds
in every state reached. `Guarded` restricts a step relation to the steps that meet a
condition on the state and the label, for results about the runs in which every step
meets it.
-/

namespace Windborne.Library

variable {σ τ ℓ κ : Type*}

/-- `Run step s tr t`: the labels `tr`, oldest first, lead from `s` to `t`. -/
inductive Run (step : σ → ℓ → σ → Prop) (s : σ) : List ℓ → σ → Prop
  | refl : Run step s [] s
  | snoc {tr : List ℓ} {t u : σ} {a : ℓ} (prior : Run step s tr t) (last : step t a u) :
      Run step s (tr ++ [a]) u

/-- Some run leads from `s` to `t`. -/
def Reachable (step : σ → ℓ → σ → Prop) (s t : σ) : Prop := ∃ tr, Run step s tr t

/-- The steps of `step` whose source state and label meet `guard`. -/
def Guarded (step : σ → ℓ → σ → Prop) (guard : σ → ℓ → Prop) (s : σ) (a : ℓ) (t : σ) : Prop :=
  step s a t ∧ guard s a

/-- The steps of `step` into states that satisfy `P`. -/
def Keeping (step : σ → ℓ → σ → Prop) (P : σ → Prop) (s : σ) (a : ℓ) (t : σ) : Prop :=
  step s a t ∧ P t

/-- The steps of `step` that are as `good` asks. -/
def Meeting (step good : σ → ℓ → σ → Prop) (s : σ) (a : ℓ) (t : σ) : Prop :=
  step s a t ∧ good s a t

/-- The step function without the steps that fail. -/
def okStep {ε : Type*} (step : σ → ℓ → Option (Except ε σ)) (s : σ) (a : ℓ) : Option σ :=
  match step s a with
  | some (.ok t) => some t
  | _ => none

theorem okStep_eq_some {ε : Type*} {step : σ → ℓ → Option (Except ε σ)} {s t : σ} {a : ℓ} :
    okStep step s a = some t ↔ step s a = some (.ok t) := by
  unfold okStep
  split
  · rename_i u hStep
    simp [hStep]
  · rename_i hNot
    simp only [reduceCtorEq, false_iff]
    exact hNot t

namespace Run

variable {step : σ → ℓ → σ → Prop} {s t u : σ} {tr : List ℓ}

/-- **Invariant rule.** -/
theorem invariant {I : σ → Prop} (hStart : I s)
    (hStep : ∀ t a u, I t → step t a u → I u) (h : Run step s tr t) : I t := by
  induction h with
  | refl => exact hStart
  | snoc prior last ih => exact hStep _ _ _ ih last

theorem mono {step' : σ → ℓ → σ → Prop} (hSub : ∀ s a t, step s a t → step' s a t)
    (h : Run step s tr t) : Run step' s tr t := by
  induction h with
  | refl => exact .refl
  | snoc prior last ih => exact .snoc ih (hSub _ _ _ last)

/-- **Simulation rule.** -/
theorem simulate {step' : τ → ℓ → τ → Prop} {I : σ → Prop} {f : σ → τ} (hStart : I s)
    (hStep : ∀ t a u, I t → step t a u → I u ∧ step' (f t) a (f u)) (h : Run step s tr t) :
    I t ∧ Run step' (f s) tr (f t) := by
  induction h with
  | refl => exact ⟨hStart, .refl⟩
  | snoc prior last ih =>
    obtain ⟨hKept, hMatch⟩ := hStep _ _ _ ih.1 last
    exact ⟨hKept, .snoc ih.2 hMatch⟩

/-- **Simulation rule** for steps that are several steps of the simulating relation, or none. -/
theorem simulate_steps {R : τ → τ → Prop} {I : σ → Prop} {f : σ → τ} (hStart : I s)
    (hStep : ∀ t a u, I t → step t a u → I u ∧ Relation.ReflTransGen R (f t) (f u))
    (h : Run step s tr t) : I t ∧ Relation.ReflTransGen R (f s) (f t) := by
  induction h with
  | refl => exact ⟨hStart, .refl⟩
  | snoc prior last ih =>
    obtain ⟨hKept, hSteps⟩ := hStep _ _ _ ih.1 last
    exact ⟨hKept, ih.2.trans hSteps⟩

/-- **Exact conditions.** When the guarded steps keep an invariant that implies `P` and every
other step leaves `P`, the runs that stay in `P` are the runs of guarded steps. -/
theorem keeping_iff_guarded {guard : σ → ℓ → Prop} {I P : σ → Prop} (hStart : I s)
    (hKeep : ∀ t a u, I t → step t a u → guard t a → I u) (hGood : ∀ t, I t → P t)
    (hBad : ∀ t a u, I t → step t a u → P u → guard t a) :
    Run (Keeping step P) s tr t ↔ Run (Guarded step guard) s tr t := by
  have hInv : ∀ {tr t}, Run (Guarded step guard) s tr t → I t := fun h =>
    h.invariant hStart fun t a u hI hStep => hKeep t a u hI hStep.1 hStep.2
  constructor
  · intro h
    induction h with
    | refl => exact .refl
    | snoc prior last ih => exact .snoc ih ⟨last.1, hBad _ _ _ (hInv ih) last.1 last.2⟩
  · intro h
    induction h with
    | refl => exact .refl
    | snoc prior last ih =>
      exact .snoc ih ⟨last.1, hGood _ (hKeep _ _ _ (hInv prior) last.1 last.2)⟩

/-- **Exact conditions on steps.** When the guard says which steps from a state of the invariant
are good, and good steps keep the invariant, the runs of good steps are the runs of guarded
steps. -/
theorem meeting_iff_guarded {guard : σ → ℓ → Prop} {I : σ → Prop} {good : σ → ℓ → σ → Prop}
    (hStart : I s) (hKeep : ∀ t a u, I t → step t a u → guard t a → I u)
    (hExact : ∀ t a u, I t → step t a u → (good t a u ↔ guard t a)) :
    Run (Meeting step good) s tr t ↔ Run (Guarded step guard) s tr t := by
  have hInv : ∀ {tr t}, Run (Guarded step guard) s tr t → I t := fun h =>
    h.invariant hStart fun t a u hI hStep => hKeep t a u hI hStep.1 hStep.2
  constructor
  · intro h
    induction h with
    | refl => exact .refl
    | snoc prior last ih => exact .snoc ih ⟨last.1, (hExact _ _ _ (hInv ih) last.1).mp last.2⟩
  · intro h
    induction h with
    | refl => exact .refl
    | snoc prior last ih =>
      exact .snoc ih ⟨last.1, (hExact _ _ _ (hInv prior) last.1).mpr last.2⟩

theorem single {a : ℓ} (h : step s a t) : Run step s [a] t := by
  simpa using Run.snoc .refl h

theorem append {tr' : List ℓ} (h : Run step s tr t) (g : Run step t tr' u) :
    Run step s (tr ++ tr') u := by
  induction g with
  | refl => simpa using h
  | snoc prior last ih =>
    rw [← List.append_assoc]
    exact .snoc ih last

theorem eq_of_nil (h : Run step s [] t) : s = t := by
  generalize hTrace : [] = labels at h
  cases h with
  | refl => rfl
  | snoc prior last => exact absurd hTrace.symm (List.append_ne_nil_of_right_ne_nil _ (by simp))

theorem uncons {a : ℓ} (h : Run step s (a :: tr) t) : ∃ u, step s a u ∧ Run step u tr t := by
  generalize hTrace : a :: tr = labels at h
  induction h generalizing tr with
  | refl => cases hTrace
  | @snoc prefixed t u b prior last ih =>
    cases prefixed with
    | nil =>
      cases hTrace
      rw [prior.eq_of_nil]
      exact ⟨u, last, .refl⟩
    | cons c rest =>
      cases hTrace
      obtain ⟨v, hFirst, hRest⟩ := ih rfl
      exact ⟨v, hFirst, .snoc hRest last⟩

/-- A schedule of a step function that does not get stuck is a run. -/
theorem of_foldlM {next : σ → ℓ → Option σ} (h : tr.foldlM next s = some t) :
    Run (fun s a t => next s a = some t) s tr t := by
  induction tr generalizing s with
  | nil =>
    cases h
    exact .refl
  | cons a tr ih =>
    rw [List.foldlM_cons] at h
    obtain ⟨u, hFirst, hRest⟩ := Option.bind_eq_some_iff.mp h
    exact append (single hFirst) (ih hRest)

theorem guarded_of_foldlM {next : σ → ℓ → Option σ} {guard : σ → ℓ → Prop}
    [∀ s a, Decidable (guard s a)]
    (h : tr.foldlM (fun s a => if guard s a then next s a else none) s = some t) :
    Run (Guarded (fun s a t => next s a = some t) guard) s tr t := by
  apply (of_foldlM h).mono
  intro s a t hNext
  by_cases hGuard : guard s a
  · rw [if_pos hGuard] at hNext
    exact ⟨hNext, hGuard⟩
  · rw [if_neg hGuard] at hNext
    cases hNext

theorem of_okStep {ε : Type*} {next : σ → ℓ → Option (Except ε σ)}
    (h : tr.foldlM (okStep next) s = some t) :
    Run (fun s a t => next s a = some (.ok t)) s tr t :=
  (of_foldlM h).mono fun _ _ _ hNext => okStep_eq_some.mp hNext

/-- A schedule that does not get stuck and all of whose steps meet `guard`. -/
theorem guarded_of_okStep {ε : Type*} {next : σ → ℓ → Option (Except ε σ)} {guard : σ → ℓ → Prop}
    [∀ s a, Decidable (guard s a)]
    (h : tr.foldlM (fun s a => if guard s a then okStep next s a else none) s = some t) :
    Run (Guarded (fun s a t => next s a = some (.ok t)) guard) s tr t :=
  (guarded_of_foldlM h).mono fun _ _ _ hNext => ⟨okStep_eq_some.mp hNext.1, hNext.2⟩

theorem keeping_of_filter {ε : Type*} {next : σ → ℓ → Option (Except ε σ)} {P : σ → Bool} {a : ℓ}
    (h : (okStep next s a).filter P = some t) :
    Keeping (fun s a t => next s a = some (.ok t)) (fun s => P s = true) s a t := by
  obtain ⟨hOk, hP⟩ := Option.filter_eq_some_iff.mp h
  exact ⟨okStep_eq_some.mp hOk, hP⟩

/-- A schedule that does not get stuck and stays in `P`. -/
theorem keeping_of_okStep {ε : Type*} {next : σ → ℓ → Option (Except ε σ)} {P : σ → Bool}
    (h : tr.foldlM (fun s a => (okStep next s a).filter P) s = some t) :
    Run (Keeping (fun s a t => next s a = some (.ok t)) fun s => P s = true) s tr t :=
  (of_foldlM h).mono fun _ _ _ hNext => keeping_of_filter hNext

end Run

end Windborne.Library
