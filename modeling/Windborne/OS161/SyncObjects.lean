import Windborne.OS161.StoplightLocks
import Windborne.OS161.SynchSafety

/-!
# Semaphores and locks for those who use them

A semaphore is a count, and a lock has a holder or is free. Whoever implements them lets a thread
that runs count down what is positive, count up, take what is free and release what it holds, and
nothing else changes them. Waiting is the business of the implementation: here a thread that would
have to wait does nothing. The semaphores and locks of `Synch` are such an implementation, and so
are the locks of the stoplight, on which a vehicle blocks instead of sleeping.
-/

namespace Windborne.OS161

open Library

structure Objects (τ ς κ : Type) where
  count : ς → Int
  holder : κ → Option τ

namespace Objects

variable {τ ς κ : Type} [DecidableEq ς] [DecidableEq κ] {o o' : Objects τ ς κ} {t u : τ}

/-- What thread `t` does to the objects. -/
inductive Use (o : Objects τ ς κ) (t : τ) : Objects τ ς κ → Prop
  | down {i : ς} (h : 0 < o.count i) :
      Use o t { o with count := Function.update o.count i (o.count i - 1) }
  | up {i : ς} (h : 0 < int32 (o.count i + 1)) :
      Use o t { o with count := Function.update o.count i (int32 (o.count i + 1)) }
  | acquire {l : κ} (h : o.holder l = none) :
      Use o t { o with holder := Function.update o.holder l (some t) }
  | release {l : κ} (h : o.holder l = some t) :
      Use o t { o with holder := Function.update o.holder l none }

/-- The thread that runs uses an object, or none is used. -/
def Uses (o : Objects τ ς κ) (running : Option τ) (o' : Objects τ ς κ) : Prop :=
  o' = o ∨ ∃ t, running = some t ∧ Use o t o'

/-- A count does not get negative. -/
theorem Use.nonneg (h : Use o t o') {i : ς} (hNonneg : 0 ≤ o.count i) : 0 ≤ o'.count i := by
  cases h with
  | @down j hPos =>
    by_cases hi : i = j
    · subst hi
      simp only [Function.update_self]
      omega
    · simpa only [Function.update_of_ne hi] using hNonneg
  | @up j hPos =>
    by_cases hi : i = j
    · subst hi
      simp only [Function.update_self]
      omega
    · simpa only [Function.update_of_ne hi] using hNonneg
  | acquire | release => exact hNonneg

/-- What one thread holds no other thread takes or releases. -/
theorem Use.holder (h : Use o t o') {l : κ} (hHeld : o.holder l = some u) (hNe : u ≠ t) :
    o'.holder l = some u := by
  cases h with
  | down | up => exact hHeld
  | @acquire k hFree =>
    have hlk : l ≠ k := by
      rintro rfl
      rw [hHeld] at hFree
      cases hFree
    simpa only [Function.update_of_ne hlk] using hHeld
  | @release k hMine =>
    have hlk : l ≠ k := by
      rintro rfl
      exact hNe (Option.some_inj.mp (hHeld.symm.trans hMine))
    simpa only [Function.update_of_ne hlk] using hHeld

end Objects

/-- The steps keep the invariant `I`, and what they do to the objects `f s` of a state is done by
the thread that runs. -/
structure Implements {σ ℓ τ ς κ : Type} [DecidableEq ς] [DecidableEq κ] (step : σ → ℓ → σ → Prop)
    (I : σ → Prop) (f : σ → Objects τ ς κ) (running : σ → ℓ → Option τ) : Prop where
  keeps {s t : σ} {a : ℓ} (h : I s) (hStep : step s a t) : I t
  uses {s t : σ} {a : ℓ} (h : I s) (hStep : step s a t) : (f s).Uses (running s a) (f t)

namespace Implements

variable {σ ℓ τ ς κ : Type} [DecidableEq ς] [DecidableEq κ] {step : σ → ℓ → σ → Prop}
  {I : σ → Prop} {f : σ → Objects τ ς κ} {running : σ → ℓ → Option τ} {s t : σ} {tr : List ℓ}

/-- **Counts stay natural numbers.** -/
theorem nonneg (hImpl : Implements step I f running) (hStart : I s) {i : ς}
    (hNonneg : 0 ≤ (f s).count i) (h : Run step s tr t) : 0 ≤ (f t).count i := by
  have hInv := h.invariant (I := fun s => I s ∧ 0 ≤ (f s).count i) ⟨hStart, hNonneg⟩ ?_
  · exact hInv.2
  rintro t a u ⟨hI, hNonneg⟩ hStep
  refine ⟨hImpl.keeps hI hStep, ?_⟩
  rcases hImpl.uses hI hStep with hSame | ⟨v, -, hUse⟩
  · rwa [hSame]
  · exact hUse.nonneg hNonneg

/-- **Mutual exclusion**: a thread has what it holds for as long as it does not run. -/
theorem holder (hImpl : Implements step I f running) (hStart : I s) {l : κ} {u : τ}
    (hHeld : (f s).holder l = some u)
    (h : Run (Guarded step fun s a => running s a ≠ some u) s tr t) :
    (f t).holder l = some u := by
  have hInv := h.invariant (I := fun s => I s ∧ (f s).holder l = some u) ⟨hStart, hHeld⟩ ?_
  · exact hInv.2
  rintro t a v ⟨hI, hHeld⟩ ⟨hStep, hOther⟩
  refine ⟨hImpl.keeps hI hStep, ?_⟩
  rcases hImpl.uses hI hStep with hSame | ⟨w, hRunning, hUse⟩
  · rwa [hSame]
  · apply hUse.holder hHeld
    rintro rfl
    exact hOther hRunning

end Implements

/-- Who holds a lock. The field `holder` stays as it is when the lock is released. -/
def Lock.owner {τ : Type} (l : Lock τ) : Option τ := if l.held = 0 then none else l.holder

theorem owner_update {τ κ : Type} [DecidableEq κ] (lock : κ → Lock τ) (l : κ) (x : Lock τ) :
    (fun k => (Function.update lock l x k).owner) =
      Function.update (fun k => (lock k).owner) l x.owner := by
  funext k
  exact Function.apply_update (fun _ => Lock.owner) lock l x k

/-! ## The thread system -/

namespace Synch

variable {τ ς κ α : Type} [DecidableEq τ] [DecidableEq ς] [DecidableEq κ] [DecidableEq α]
  {s s' : Synch τ ς κ α} {c : ThreadConfig (SynchAddr ς κ α)} {t : τ}

def objects (s : Synch τ ς κ α) : Objects τ ς κ where
  count := s.count
  holder l := (s.lock l).owner

omit [DecidableEq τ] [DecidableEq ς] [DecidableEq α] in
/-- A lock that changes hands. -/
theorem objects_lock (s : Synch τ ς κ α) (sys : ThreadSystem τ (SynchAddr ς κ α)) (l : κ)
    (x : Lock τ) (pc : τ → SynchPc ς κ) (log : List (SynchEvent τ ς κ)) :
    ({ s with sys, lock := Function.update s.lock l x, pc, log } : Synch τ ς κ α).objects =
      { s.objects with holder := Function.update s.objects.holder l x.owner } := by
  unfold objects
  rw [owner_update]

omit [DecidableEq τ] in
theorem uses_V {i : ς} (h : s.V c t i = .ok s') : s.objects.Use t s'.objects := by
  unfold V at h
  dsimp only at h
  split at h
  · cases h
  · rename_i hPos
    obtain ⟨sys, -, hRest⟩ := bind_eq_ok.mp h
    cases hRest
    exact .up (Int.not_le.mp hPos)

theorem uses_lockRelease {l : κ} (h : s.lockRelease c t l = .ok s') :
    s.objects.Uses (some t) s'.objects := by
  unfold lockRelease at h
  dsimp only at h
  split at h
  · rename_i hMine
    obtain ⟨sys, -, hRest⟩ := bind_eq_ok.mp h
    cases hRest
    have hOwner : s.objects.holder l = some t := by
      obtain ⟨hHolder, hHeld⟩ := (lockDoIHold_eq_one s t l).mp hMine.2
      simp [objects, Lock.owner, hHolder, hHeld]
    refine .inr ⟨t, rfl, ?_⟩
    rw [objects_lock]
    exact .release hOwner
  · cases h
    exact .inl rfl

theorem uses_exec {f : SynchCall ς κ} (h : s.exec c t f = .ok s') :
    s.objects.Uses (some t) s'.objects := by
  cases f with
  | P i =>
    simp only [exec, P] at h
    split at h
    · cases h
    · cases h
      exact .inl rfl
  | V i => exact .inr ⟨t, rfl, uses_V h⟩
  | lockAcquire l | lockDoIHold l =>
    cases h
    exact .inl rfl
  | lockRelease l => exact uses_lockRelease h

omit [DecidableEq α] in
theorem uses_loopP {i : ς} {spl : Nat} (h : s.loopP t i spl = .ok s') :
    s.objects.Uses (some t) s'.objects := by
  unfold loopP at h
  split at h
  · obtain ⟨sys, -, hRest⟩ := bind_eq_ok.mp h
    cases hRest
    exact .inl rfl
  split at h
  · cases h
  · rename_i hPos
    cases h
    exact .inr ⟨t, rfl, .down (Int.not_le.mp hPos)⟩

omit [DecidableEq α] in
theorem uses_loopAcquire {l : κ} {spl : Nat} (h : s.loopAcquire t l spl = .ok s') :
    s.objects.Uses (some t) s'.objects := by
  unfold loopAcquire at h
  split at h
  · obtain ⟨sys, -, hRest⟩ := bind_eq_ok.mp h
    cases hRest
    exact .inl rfl
  · rename_i hFree
    cases h
    have hOwner : s.objects.holder l = none := if_pos (not_not.mp hFree)
    refine .inr ⟨t, rfl, ?_⟩
    rw [objects_lock]
    exact .acquire hOwner

/-- **The semaphores and locks of `synch.c`**. -/
theorem implements (c : ThreadConfig (SynchAddr ς κ α)) :
    Implements (Step c) (fun _ => True) (objects (τ := τ)) fun s _ => s.sys.curthread where
  keeps _ _ := trivial
  uses {s s' a} _ hStep := by
    unfold Step step at hStep
    cases a with
    | sys a =>
      dsimp only at hStep
      split at hStep
      · obtain ⟨x, -, hMap⟩ := Option.map_eq_some_iff.mp hStep
        cases x with
        | error e => cases hMap
        | ok sys =>
          cases hMap
          exact .inl rfl
      · cases hStep
    | call f =>
      obtain ⟨t, hCur, hRest⟩ := Option.bind_eq_some_iff.mp hStep
      rw [hCur]
      split at hRest
      · exact uses_exec (Option.some.inj hRest)
      · cases hRest
    | loop =>
      obtain ⟨t, hCur, hRest⟩ := Option.bind_eq_some_iff.mp hStep
      rw [hCur]
      split at hRest
      · cases hRest
      · exact uses_loopP (Option.some.inj hRest)
      · exact uses_loopAcquire (Option.some.inj hRest)

end Synch

/-! ## The stoplight -/

namespace Stoplight

variable {V : Type} [DecidableEq V] {vs : Vehicles V} {s t : State V} {v : V}

/-- There are no semaphores. -/
def objects (s : State V) : Objects V Empty StoplightLock where
  count := Empty.elim
  holder := s.holder

omit [DecidableEq V] in
theorem objects_eq {holder : StoplightLock → Option V} (hHolder : t.holder = holder) :
    objects t = { objects s with holder } := by
  unfold objects
  rw [hHolder]

/-- **The locks of the stoplight** are locks. -/
theorem implements (vs : Vehicles V) :
    Implements (Step vs) (fun _ => True) objects fun _ v => some v where
  keeps _ _ := trivial
  uses {s t v} _ hStep := by
    obtain ⟨p, -, ⟨hHolder, -⟩ | ⟨l, hFree, hHolder, -⟩ | ⟨l, hHolder, -⟩⟩ := step_cases hStep
    · exact .inl (objects_eq (s := s) hHolder)
    · have hFree' : (objects s).holder l = none := hFree
      refine .inr ⟨v, rfl, ?_⟩
      rw [objects_eq (s := s) hHolder]
      exact .acquire hFree'
    · split at hHolder
      · rename_i hMine
        have hMine' : (objects s).holder l = some v := hMine
        refine .inr ⟨v, rfl, ?_⟩
        rw [objects_eq (s := s) hHolder]
        exact .release hMine'
      · exact .inl (objects_eq (s := s) hHolder)

end Stoplight

end Windborne.OS161
