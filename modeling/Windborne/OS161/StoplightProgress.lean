import Mathlib.Data.Fintype.Basic
import Windborne.OS161.StoplightLocks

/-!
# When the stoplight cannot deadlock

Two things go wrong in `stoplight.c`. Left turns take the next section while they hold the
first, so three of them close a cycle over the sections. And a truck lock is released only
by a holder that finds the counter at zero; a car that entered the lane meanwhile keeps the
counter above zero, so the holder leaves with the lock and every later vehicle that tries
to take it waits for ever. `Safe` rules out the step that makes each of them inevitable, and
runs of safe steps never deadlock.
-/

namespace Windborne.OS161.Stoplight

open Library

variable {V : Type} {vs : Vehicles V} {s t : State V} {v w : V}

/-! ## Safe steps -/

/-- Some left turn from the route holds its first section and not yet its next one. -/
def HoldsOnlyFirst (vs : Vehicles V) (s : State V) (r : Route) : Prop :=
  ∃ w, vs.direction w = r ∧ vs.turn w = .left ∧ 5 ≤ (s.pc w).line ∧ (s.pc w).line ≤ 10

/-- The condition on a step: no left turn takes the last of three sections whose other two
are held by left turns waiting to go on; no vehicle queues at a truck lock whose holder has
passed its release; and no holder passes its release, with cars in the lane, while a vehicle
queues at the lock. -/
structure Safe (vs : Vehicles V) (s : State V) (v : V) : Prop where
  section_ : s.pc v = .acquireFirst → vs.turn v = .left →
    ¬ (HoldsOnlyFirst vs s (vs.direction v).succ ∧
      HoldsOnlyFirst vs s (vs.direction v).succ.succ)
  queue : s.pc v = .testPositive → 0 < s.cars (vs.direction v) →
    ∀ h, s.holder (.tl (vs.direction v)) = some h → (s.pc h).line ≤ Pc.releaseTruck.line
  keep : s.pc v = .testZero → s.cars (vs.direction v) ≠ 0 →
    s.holder (.tl (vs.direction v)) = some v →
    ∀ w, vs.direction w = vs.direction v → s.pc w ≠ .acquireTruck

section Decidable

variable [Fintype V]

instance (vs : Vehicles V) (s : State V) (r : Route) : Decidable (HoldsOnlyFirst vs s r) :=
  inferInstanceAs (Decidable (∃ _, _))

instance [DecidableEq V] (vs : Vehicles V) (s : State V) (v : V) : Decidable (Safe vs s v) :=
  if hSection : s.pc v = .acquireFirst → vs.turn v = .left →
      ¬ (HoldsOnlyFirst vs s (vs.direction v).succ ∧
        HoldsOnlyFirst vs s (vs.direction v).succ.succ) then
    if hQueue : s.pc v = .testPositive → 0 < s.cars (vs.direction v) →
        ∀ h, s.holder (.tl (vs.direction v)) = some h →
          (s.pc h).line ≤ Pc.releaseTruck.line then
      if hKeep : s.pc v = .testZero → s.cars (vs.direction v) ≠ 0 →
          s.holder (.tl (vs.direction v)) = some v →
          ∀ w, vs.direction w = vs.direction v → s.pc w ≠ .acquireTruck then
        .isTrue ⟨hSection, hQueue, hKeep⟩
      else .isFalse fun h => hKeep h.keep
    else .isFalse fun h => hQueue h.queue
  else .isFalse fun h => hSection h.section_

end Decidable

/-- No cycle over the sections, and nobody queues at a lock that is never released. -/
structure Clear (vs : Vehicles V) (s : State V) : Prop where
  noCycle : ¬ ∀ r, HoldsOnlyFirst vs s r
  noStranded : ∀ w h, s.pc w = .acquireTruck → s.holder (.tl (vs.direction w)) = some h →
    (s.pc h).line ≤ 8

theorem clear_init (vs : Vehicles V) : Clear vs init where
  noCycle hAll := by
    obtain ⟨w, -, -, hLine, -⟩ := hAll .A
    have hStart : ((init : State V).pc w).line = 0 := rfl
    omega
  noStranded w h hw := by cases hw

/-- The line tells the statement, except for what a store remembers. -/
theorem eq_of_line {p q : Pc} (h : p.line = q.line) (h1 : q.line ≠ 1) (h6 : q.line ≠ 6) :
    p = q := by
  cases q <;> cases p <;> first | rfl | exact absurd rfl h1 | exact absurd rfl h6 | cases h

theorem route_cases (r r' : Route) : r' = r ∨ r' = r.succ ∨ r' = r.succ.succ := by
  cases r <;> cases r' <;> decide

theorem succ_ne (r : Route) : r.succ ≠ r ∧ r.succ.succ ≠ r := by
  cases r <;> decide

/-! ## Safe steps keep the intersection clear -/

variable [DecidableEq V]

theorem holdsOnlyFirst_step {r : Route} (hStep : Step vs s v t) (h : HoldsOnlyFirst vs t r) :
    HoldsOnlyFirst vs s r ∨
      (r = vs.direction v ∧ s.pc v = .acquireFirst ∧ vs.turn v = .left) := by
  obtain ⟨p, hPc, hEffect⟩ := step_cases hStep
  obtain ⟨w, hRoute, hLeft, hLow, hHigh⟩ := h
  rw [hPc] at hLow hHigh
  by_cases hw : w = v
  · subst hw
    rw [Function.update_self] at hLow hHigh
    have hLe := line_le_of_effect hEffect
    by_cases hBefore : 5 ≤ (s.pc w).line
    · exact Or.inl ⟨w, hRoute, hLeft, hBefore, Nat.le_trans hLe hHigh⟩
    · refine Or.inr ⟨hRoute.symm, ?_, hLeft⟩
      refine eq_of_line ?_ (by decide) (by decide)
      show (s.pc w).line = 4
      unfold Effect Quiet Acquires Releases at hEffect
      grind
  · rw [Function.update_of_ne hw] at hLow hHigh
    exact Or.inl ⟨w, hRoute, hLeft, hLow, hHigh⟩

theorem Clear.noCycle_step (h : Clear vs s) (hSafe : Safe vs s v) (hStep : Step vs s v t) :
    ¬ ∀ r, HoldsOnlyFirst vs t r := by
  intro hAll
  by_cases hTakes : s.pc v = .acquireFirst ∧ vs.turn v = .left
  · -- `v` may have closed the cycle, but the other two sections were held before
    obtain ⟨hSucc, hSucc2⟩ := succ_ne (vs.direction v)
    apply hSafe.section_ hTakes.1 hTakes.2
    constructor
    · exact (holdsOnlyFirst_step hStep (hAll _)).resolve_right fun hEq => hSucc hEq.1
    · exact (holdsOnlyFirst_step hStep (hAll _)).resolve_right fun hEq => hSucc2 hEq.1
  · apply h.noCycle
    intro r
    exact (holdsOnlyFirst_step hStep (hAll r)).resolve_right fun hEq => hTakes hEq.2

/-- A step that takes the holder of the truck lock past its release either releases the lock
or leaves with cars in the lane. -/
theorem passes_release {p : Pc} {r : Route} (hEffect : Effect vs s t v p)
    (hRoute : vs.direction v = r) (hHeld : s.holder (.tl r) = some v)
    (hBefore : (s.pc v).line ≤ 8) (hAfter : 8 < p.line) :
    t.holder (.tl r) = none ∨ (s.pc v = .testZero ∧ s.cars r ≠ 0) := by
  subst hRoute
  rcases hEffect with ⟨-, hQuiet⟩ | ⟨l, -, -, hAcquires⟩ | ⟨l, hHolder, hReleases⟩
  · have hLine : (s.pc v).line = 7 ∧ s.cars (vs.direction v) ≠ 0 := by
      unfold Quiet at hQuiet
      omega
    exact Or.inr ⟨eq_of_line hLine.1 (by decide) (by decide), hLine.2⟩
  · unfold Acquires at hAcquires
    omega
  · have hl : l = .tl (vs.direction v) := by
      unfold Releases at hReleases
      rcases hReleases with h | h | h | h
      · exact h.1
      all_goals omega
    subst hl
    rw [if_pos hHeld] at hHolder
    rw [hHolder, Function.update_self]
    exact Or.inl rfl

theorem Clear.noStranded_step (hCons : Consistent vs s) (h : Clear vs s) (hSafe : Safe vs s v)
    (hStep : Step vs s v t) {w h' : V} (hw : t.pc w = .acquireTruck)
    (hHeld : t.holder (.tl (vs.direction w)) = some h') : (t.pc h').line ≤ 8 := by
  obtain ⟨p, hPc, hEffect⟩ := step_cases hStep
  rw [hPc] at hw ⊢
  rcases holder_of_effect hEffect hHeld with hBefore | ⟨rfl, hAcquires⟩
  · obtain ⟨hRoute, hLine⟩ := hCons.truck _ _ hBefore
    by_cases hwv : w = v
    · -- `v` has just queued
      subst hwv
      rw [Function.update_self] at hw
      have hQueue : s.pc w = .testPositive ∧ 0 < s.cars (vs.direction w) := by
        have hThree : p.line = 3 := congrArg Pc.line hw
        have hTwo : (s.pc w).line = 2 ∧ 0 < s.cars (vs.direction w) := by
          unfold Effect Quiet Acquires Releases at hEffect
          grind
        exact ⟨eq_of_line hTwo.1 (by decide) (by decide), hTwo.2⟩
      have hNe : h' ≠ w := by
        rintro rfl
        rw [hQueue.1] at hLine
        exact absurd hLine (by decide)
      rw [Function.update_of_ne hNe]
      exact hSafe.queue hQueue.1 hQueue.2 h' hBefore
    · rw [Function.update_of_ne hwv] at hw
      have hOld := h.noStranded w h' hw hBefore
      by_cases hv : h' = v
      · subst hv
        rw [Function.update_self]
        by_contra hPast
        rcases passes_release hEffect hRoute hBefore hOld (by omega) with hNone | ⟨hZero, hCars⟩
        · rw [hHeld] at hNone
          cases hNone
        · rw [← hRoute] at hCars hBefore
          exact hSafe.keep hZero hCars hBefore w hRoute.symm hw
      · rwa [Function.update_of_ne hv]
  · rw [Function.update_self]
    unfold Acquires at hAcquires
    grind

theorem Clear.step (hCons : Consistent vs s) (h : Clear vs s) (hSafe : Safe vs s v)
    (hStep : Step vs s v t) : Clear vs t where
  noCycle := h.noCycle_step hSafe hStep
  noStranded _ _ hw hHeld := h.noStranded_step hCons hSafe hStep hw hHeld

/-! ## A clear intersection makes progress -/

/-- A blocked vehicle stands at one of three statements, in front of a held lock. -/
theorem blocked_cases (h : Blocked vs s v) :
    (s.pc v = .acquireTruck ∧ ∃ h, s.holder (.tl (vs.direction v)) = some h) ∨
      (s.pc v = .acquireFirst ∧ ∃ h, s.holder (.sec (firstSection (vs.direction v))) = some h) ∨
      (s.pc v = .acquireNext ∧ ∃ h, s.holder (.sec (nextSection (vs.direction v))) = some h) := by
  obtain ⟨hUnfinished, hNone⟩ := h
  have hHeld : ∀ {l p}, lockAcquire s v l p = none → ∃ h, s.holder l = some h := by
    intro l p hAcquire
    unfold lockAcquire at hAcquire
    split at hAcquire
    · cases hAcquire
    · rename_i hNotFree
      exact Option.ne_none_iff_exists'.mp hNotFree
  unfold Stoplight.step at hNone
  cases hpc : s.pc v with
  | acquireTruck =>
    rw [hpc] at hNone
    exact Or.inl ⟨rfl, hHeld hNone⟩
  | acquireFirst =>
    rw [hpc] at hNone
    exact Or.inr (Or.inl ⟨rfl, hHeld hNone⟩)
  | acquireNext =>
    rw [hpc] at hNone
    exact Or.inr (Or.inr ⟨rfl, hHeld hNone⟩)
  | done => exact absurd hpc hUnfinished
  | start | enterFirst | releaseFirst =>
    rw [hpc] at hNone
    dsimp only at hNone
    split at hNone <;> cases hNone
  | _ =>
    rw [hpc] at hNone
    cases hNone

theorem blocked_line (h : Blocked vs s v) :
    (s.pc v).line = 3 ∨ (s.pc v).line = 4 ∨ (s.pc v).line = 10 := by
  rcases blocked_cases h with ⟨hpc, -⟩ | ⟨hpc, -⟩ | ⟨hpc, -⟩ <;> rw [hpc]
  · exact Or.inl rfl
  · exact Or.inr (Or.inl rfl)
  · exact Or.inr (Or.inr rfl)

section AllBlocked

variable (hCons : Consistent vs s) (hAll : ∀ v, Unfinished s v → Blocked vs s v)

include hCons hAll

/-- When everyone is blocked, a held section is the first one of a left turn that waits for
its next one. -/
theorem section_holder {x : Section} (h : s.holder (.sec x) = some v) :
    x = firstSection (vs.direction v) ∧ s.pc v = .acquireNext ∧ vs.turn v = .left := by
  have hHolds := (hCons.sections x v).mp h
  have hUnfinished : Unfinished s v := by
    intro hDone
    have hLast : (s.pc v).line = 16 := congrArg Pc.line hDone
    unfold HoldsSection at hHolds
    omega
  have hLine := blocked_line (hAll v hUnfinished)
  have hTen : (s.pc v).line = 10 := by
    unfold HoldsSection at hHolds
    omega
  refine ⟨?_, ?_, hCons.left v (Or.inl hTen)⟩
  · unfold HoldsSection at hHolds
    rcases hHolds with ⟨-, -, hx⟩ | ⟨-, hLow, -, -⟩
    · exact hx
    · omega
  · cases hpc : s.pc v <;> rw [hpc] at hTen <;> first | rfl | cases hTen

/-- A left turn that waits for its next section waits for another such turn. -/
theorem waits_for_succ (hv : Unfinished s v) (hpc : s.pc v = .acquireNext) :
    ∃ w, vs.direction w = (vs.direction v).succ ∧ s.pc w = .acquireNext ∧
      vs.turn w = .left := by
  rcases blocked_cases (hAll v hv) with ⟨h, -⟩ | ⟨h, -⟩ | ⟨-, w, hw⟩
  · rw [hpc] at h
    cases h
  · rw [hpc] at h
    cases h
  · obtain ⟨hx, hNext, hLeft⟩ := section_holder hCons hAll hw
    rw [← firstSection_succ] at hx
    exact ⟨w, (firstSection_injective hx).symm, hNext, hLeft⟩

/-- When everyone is blocked and someone is not done, somebody waits for a next section. -/
theorem exists_acquireNext (hClear : Clear vs s) (hv : Unfinished s v) :
    ∃ w, s.pc w = .acquireNext ∧ vs.turn w = .left := by
  have hFirst : ∀ u, s.pc u = .acquireFirst → ∃ w, s.pc w = .acquireNext ∧ vs.turn w = .left := by
    intro u hu
    have hUnfinished : Unfinished s u := by
      intro hDone
      rw [hu] at hDone
      cases hDone
    rcases blocked_cases (hAll u hUnfinished) with ⟨h, -⟩ | ⟨-, w, hw⟩ | ⟨h, -⟩
    · rw [hu] at h
      cases h
    · exact ⟨w, (section_holder hCons hAll hw).2⟩
    · rw [hu] at h
      cases h
  rcases blocked_cases (hAll v hv) with ⟨hpc, w, hw⟩ | ⟨hpc, -⟩ | ⟨hpc, w, hw⟩
  · -- the holder of the truck lock has not released it, so it waits for a section
    have hLow := (hCons.truck _ _ hw).2
    have hHigh := hClear.noStranded v w hpc hw
    have hUnfinished : Unfinished s w := by
      intro hDone
      rw [hDone] at hHigh
      exact absurd hHigh (by decide)
    have hLine := blocked_line (hAll w hUnfinished)
    have hFour : (s.pc w).line = 4 := by omega
    exact hFirst w (eq_of_line hFour (by decide) (by decide))
  · exact hFirst v hpc
  · exact ⟨w, (section_holder hCons hAll hw).2⟩

end AllBlocked

theorem progress (hCons : Consistent vs s) (hClear : Clear vs s) (h : ∃ v, Unfinished s v) :
    ∃ v, Unfinished s v ∧ ¬ Blocked vs s v := by
  by_contra hNone
  have hAll : ∀ v, Unfinished s v → Blocked vs s v := by
    intro v hv
    by_contra hNot
    exact hNone ⟨v, hv, hNot⟩
  have hUnfinished : ∀ {w}, s.pc w = .acquireNext → Unfinished s w := by
    intro w hw hDone
    rw [hw] at hDone
    cases hDone
  have hOnly : ∀ {w}, s.pc w = .acquireNext → vs.turn w = .left →
      HoldsOnlyFirst vs s (vs.direction w) := by
    intro w hw hLeft
    refine ⟨w, rfl, hLeft, ?_, ?_⟩ <;> rw [hw] <;> decide
  obtain ⟨v, hv⟩ := h
  obtain ⟨a, ha, haLeft⟩ := exists_acquireNext hCons hAll hClear hv
  obtain ⟨b, hbRoute, hb, hbLeft⟩ := waits_for_succ hCons hAll (hUnfinished ha) ha
  obtain ⟨c, hcRoute, hc, hcLeft⟩ := waits_for_succ hCons hAll (hUnfinished hb) hb
  apply hClear.noCycle
  intro r
  rcases route_cases (vs.direction a) r with rfl | rfl | rfl
  · exact hOnly ha haLeft
  · rw [← hbRoute]
    exact hOnly hb hbLeft
  · rw [← hbRoute, ← hcRoute]
    exact hOnly hc hcLeft

/-- Runs of safe steps never deadlock. -/
theorem safe_deadlock_free (vs : Vehicles V) {tr : List V}
    (h : Run (Guarded (Step vs) (Safe vs)) init tr s) (hUnfinished : ∃ v, Unfinished s v) :
    ∃ v, Unfinished s v ∧ ¬ Blocked vs s v := by
  have hInv : Consistent vs s ∧ Clear vs s := by
    refine h.invariant (I := fun s => Consistent vs s ∧ Clear vs s)
      ⟨consistent_init vs, clear_init vs⟩ ?_
    rintro t v u ⟨hCons, hClear⟩ ⟨hStep, hSafe⟩
    exact ⟨hCons.step hStep, hClear.step hCons hSafe hStep⟩
  exact progress hInv.1 hInv.2 hUnfinished

/-! ## A run that deadlocks -/

/-- Two cars from route A that turn right. -/
def twoRightTurns : Vehicles Bool where
  direction _ := .A
  turn _ := .right
  type _ := .car

/-- The first car has crossed, and the second one has the locks. -/
theorem safe_deadlock_free_twoRightTurns : ∃ s, s.pc false = .done ∧
    s.holder (.tl .A) = some true ∧ s.holder (.sec .AB) = some true ∧
      ∃ v, Unfinished s v ∧ ¬ Blocked twoRightTurns s v := by
  let tr := List.replicate 12 false ++ List.replicate 5 true
  have hRun : Run (Guarded (Step twoRightTurns) (Safe twoRightTurns)) init tr _ :=
    Run.guarded_of_foldlM rfl
  exact ⟨_, rfl, rfl, rfl, safe_deadlock_free twoRightTurns hRun ⟨true, nofun⟩⟩

/-- The second car counts itself before the first one counts itself off. -/
def overlap : List Bool :=
  [false, false, false, false, true, true, true, false, false, false, false, false, false, false]

/-- The first car has left with `tlA`, and the second one waits for it. -/
theorem overlap_deadlocks : ∃ s, Run (Step twoRightTurns) init overlap s ∧
    s.pc false = .done ∧ s.pc true = .acquireTruck ∧ s.holder (.tl .A) = some false :=
  ⟨_, Run.of_foldlM rfl, rfl, rfl, rfl⟩

theorem not_forall_deadlock_free :
    ¬ ∀ (V : Type) [DecidableEq V] (vs : Vehicles V) (s : State V),
      Reachable (Step vs) init s → (∃ v, Unfinished s v) →
      ∃ v, Unfinished s v ∧ ¬ Blocked vs s v := by
  intro hAll
  obtain ⟨s, hRun, hDone, hWaits, hHeld⟩ := overlap_deadlocks
  have hUnfinished : Unfinished s true := by
    intro h
    rw [hWaits] at h
    cases h
  obtain ⟨v, hv, hNot⟩ := hAll Bool twoRightTurns s ⟨overlap, hRun⟩ ⟨true, hUnfinished⟩
  cases v with
  | false => exact hv hDone
  | true =>
    refine hNot ⟨hUnfinished, ?_⟩
    unfold step
    rw [hWaits]
    show lockAcquire s true (.tl .A) .acquireFirst = none
    rw [lockAcquire, hHeld, if_neg (Option.some_ne_none false)]

end Windborne.OS161.Stoplight
