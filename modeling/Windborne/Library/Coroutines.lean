import Mathlib.Data.Set.Basic
import Windborne.Library.Runs

/-!
# Coroutines in a shared memory

One of several coroutines runs and the others are suspended. Each of these has left in memory what
it will go on with. As long as the others spare it, it is found there whenever, and in whatever
order, they are resumed.
-/

namespace Windborne.Library.Coroutines

variable {τ α β γ : Type*}

/-- What a suspended coroutine goes on with: the addresses that it relies on, and the memory when
it was suspended. -/
structure Context (α β γ : Type*) where
  value : γ
  keep : Set α
  mem : α → β

structure State (τ α β γ : Type*) where
  current : τ
  mem : α → β
  saved : τ → Option (Context α β γ)

/-- `mem` has what the suspended coroutines rely on. -/
def State.Spares (s : State τ α β γ) (mem : α → β) : Prop :=
  ∀ t k, s.saved t = some k → ∀ a ∈ k.keep, mem a = s.mem a

/-- The coroutine that runs is not suspended, and memory has what the others left there. -/
structure State.Intact (s : State τ α β γ) : Prop where
  current : s.saved s.current = none
  mem : ∀ t k, s.saved t = some k → ∀ a ∈ k.keep, s.mem a = k.mem a

theorem intact_of_saved_eq_none {s : State τ α β γ} (h : ∀ t, s.saved t = none) : s.Intact where
  current := h s.current
  mem t k hSaved := by
    rw [h t] at hSaved
    cases hSaved

inductive Label (τ : Type*) where
  | own
  | create (t : τ)
  | resume (t : τ)
  | discard (t : τ)

section Steps

variable [DecidableEq τ]

/-- A coroutine writes to memory, creates another or resumes another. One that is suspended can be
given up. -/
inductive Step (s : State τ α β γ) : Label τ → State τ α β γ → Prop
  | own (mem : α → β) (hSpares : s.Spares mem) : Step s .own { s with mem }
  | create (t : τ) (k : Context α β γ) (hNew : s.saved t = none) (hOther : t ≠ s.current)
      (hSpares : s.Spares k.mem) :
      Step s (.create t) { s with mem := k.mem, saved := Function.update s.saved t (some k) }
  | resume (t : τ) (k k' : Context α β γ) (hSaved : s.saved t = some k')
      (hSpares : s.Spares k.mem) :
      Step s (.resume t) {
        current := t
        mem := k.mem
        saved := Function.update (Function.update s.saved s.current (some k)) t none }
  | discard (t : τ) : Step s (.discard t) { s with saved := Function.update s.saved t none }

variable {s s' : State τ α β γ} {t : τ} {k : Context α β γ} {l : Label τ} {tr : List (Label τ)}

/-- A context is added. -/
theorem State.Intact.add (hMem : ∀ t k, s.saved t = some k → ∀ a ∈ k.keep, s.mem a = k.mem a)
    (hSpares : s.Spares k.mem) {t u : τ} {k' : Context α β γ}
    (hSaved : Function.update s.saved t (some k) u = some k') {a : α} (ha : a ∈ k'.keep) :
    k.mem a = k'.mem a := by
  rcases eq_or_ne u t with rfl | hOther
  · rw [Function.update_self] at hSaved
    cases hSaved
    rfl
  · rw [Function.update_of_ne hOther] at hSaved
    rw [hSpares u k' hSaved a ha, hMem u k' hSaved a ha]

theorem State.Intact.step (hIntact : s.Intact) (h : Step s l s') : s'.Intact := by
  obtain ⟨hCurrent, hMem⟩ := hIntact
  cases h with
  | own mem hSpares =>
    refine ⟨hCurrent, ?_⟩
    intro t k hSaved a ha
    exact (hSpares t k hSaved a ha).trans (hMem t k hSaved a ha)
  | create t k hNew hOther hSpares =>
    refine ⟨?_, fun u k' hSaved a ha => State.Intact.add hMem hSpares hSaved ha⟩
    exact (Function.update_of_ne hOther.symm ..).trans hCurrent
  | resume t k k' hSaved hSpares =>
    refine ⟨Function.update_self .., ?_⟩
    intro u k'' hSaved' a ha
    dsimp only at hSaved'
    rcases eq_or_ne u t with rfl | hOther
    · rw [Function.update_self] at hSaved'
      cases hSaved'
    · rw [Function.update_of_ne hOther] at hSaved'
      exact State.Intact.add hMem hSpares hSaved' ha
  | discard t =>
    have hKept : ∀ u k', Function.update s.saved t none u = some k' → s.saved u = some k' := by
      intro u k' hSaved
      rcases eq_or_ne u t with rfl | hOther
      · rw [Function.update_self] at hSaved
        cases hSaved
      · rwa [Function.update_of_ne hOther] at hSaved
    refine ⟨?_, fun u k' hSaved a ha => hMem u k' (hKept u k' hSaved) a ha⟩
    cases hNew : Function.update s.saved t none s.current with
    | none => exact hNew
    | some k' =>
      rw [hKept _ _ hNew] at hCurrent
      cases hCurrent

/-- A context is there until its coroutine is resumed or given up. -/
theorem Step.saved (hIntact : s.Intact) (hSaved : s.saved t = some k) (hResume : l ≠ .resume t)
    (hDiscard : l ≠ .discard t) (h : Step s l s') : s'.saved t = some k := by
  cases h with
  | own => exact hSaved
  | create u k' hNew =>
    have hOther : t ≠ u := by
      rintro rfl
      rw [hNew] at hSaved
      cases hSaved
    exact (Function.update_of_ne hOther ..).trans hSaved
  | resume u k' k'' =>
    have hOther : t ≠ u := fun h => hResume (congrArg Label.resume h.symm)
    have hCurrent : t ≠ s.current := by
      rintro rfl
      rw [hIntact.current] at hSaved
      cases hSaved
    dsimp only
    rw [Function.update_of_ne hOther, Function.update_of_ne hCurrent, hSaved]
  | discard u =>
    have hOther : t ≠ u := fun h => hDiscard (congrArg Label.discard h.symm)
    exact (Function.update_of_ne hOther ..).trans hSaved

theorem State.Intact.run (hIntact : s.Intact) (h : Run Step s tr s') : s'.Intact :=
  h.invariant hIntact fun _ _ _ hI hStep => hI.step hStep

/-- **Suspension.** What a coroutine has left is there when it is resumed. -/
theorem saved_of_run (hIntact : s.Intact) (hSaved : s.saved t = some k) (h : Run Step s tr s')
    (hResume : .resume t ∉ tr) (hDiscard : .discard t ∉ tr) :
    s'.saved t = some k ∧ ∀ a ∈ k.keep, s'.mem a = k.mem a := by
  have hStill : s'.Intact ∧ s'.saved t = some k := by
    induction h with
    | refl => exact ⟨hIntact, hSaved⟩
    | @snoc tr u v l prior last ih =>
      rw [List.mem_append, List.mem_singleton, not_or] at hResume hDiscard
      obtain ⟨hPrior, hThere⟩ := ih hResume.1 hDiscard.1
      exact ⟨hPrior.step last,
        last.saved hPrior hThere (Ne.symm hResume.2) (Ne.symm hDiscard.2)⟩
  exact ⟨hStill.2, hStill.1.mem t k hStill.2⟩

end Steps

end Windborne.Library.Coroutines
