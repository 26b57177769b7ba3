import Mathlib.Algebra.BigOperators.Group.Finset.Piecewise
import Mathlib.Algebra.BigOperators.Ring.Finset
import Mathlib.Algebra.Order.BigOperators.Group.Finset
import Windborne.OS161.StoplightProgress

/-!
# The counters of the stoplight

`carsA`, `carsB` and `carsC` are counted up by cars only and counted down by every vehicle.
Until the first truck counts itself down, each counter is the number of cars waiting on its
route, and a truck lock whose holder has passed its release keeps a car of that route
waiting. So nothing is held and nothing is counted when no vehicle is on its way. From the
first truck on, a counter is too small by the number of trucks that have counted themselves
down.
-/

namespace Windborne.OS161.Stoplight

open Library

variable {V : Type} {vs : Vehicles V} {s t : State V} {v w : V}

/-! ## Atomic counter updates -/

/-- A car that has started on the route and has not yet entered its first section. -/
def WaitingCar (vs : Vehicles V) (s : State V) (r : Route) (v : V) : Prop :=
  vs.direction v = r ∧ vs.type v = .car ∧ 2 ≤ (s.pc v).line ∧ (s.pc v).line ≤ 5

instance (vs : Vehicles V) (s : State V) (r : Route) : DecidablePred (WaitingCar vs s r) :=
  fun _ => inferInstanceAs (Decidable (_ ∧ _ ∧ _ ∧ _))

/-- What a vehicle on a line has added to the counter of a route. -/
def tally (vs : Vehicles V) (r : Route) (v : V) (line : Nat) : Int :=
  if vs.direction v = r then
    match vs.type v with
    | .car => if 2 ≤ line ∧ line ≤ 5 then 1 else 0
    | .truck => if 7 ≤ line then -1 else 0
  else 0

/-- What the counters and the locks are meant to say. -/
structure Quiescence [Fintype V] (vs : Vehicles V) (s : State V) : Prop where
  nonneg : ∀ r, 0 ≤ s.cars r
  counted : ∀ r, s.cars r = ((Finset.univ.filter (WaitingCar vs s r)).card : Int)
  quiet : (∀ v, s.pc v = .start ∨ s.pc v = .done) →
    (∀ l, s.holder l = none) ∧ ∀ r, s.cars r = 0

variable [DecidableEq V]

/-- A step in which a counter is stored as soon as it is loaded. -/
def atomicStep (vs : Vehicles V) (s : State V) (v : V) : Option (State V) := do
  let t ← step vs s v
  match t.pc v with
  | .storeIncrement _ | .storeDecrement _ => step vs t v
  | _ => some t

def AtomicStep (vs : Vehicles V) (s : State V) (v : V) (t : State V) : Prop :=
  atomicStep vs s v = some t

/-- No vehicle is between a load and its store. -/
def Loaded (s : State V) : Prop := ∀ v, (s.pc v).line ≠ 1 ∧ (s.pc v).line ≠ 6

theorem lockAcquire_cars {l : StoplightLock} {p : Pc} (h : lockAcquire s v l p = some t) :
    t.cars = s.cars := by
  unfold lockAcquire at h
  split at h
  · cases h
    rfl
  · cases h

theorem lockRelease_cars (s : State V) (v : V) (l : StoplightLock) (p : Pc) :
    (lockRelease s v l p).cars = s.cars := by
  unfold lockRelease
  split <;> rfl

/-- The effect of a statement that is no load and no store. -/
def Uncounted (vs : Vehicles V) (s t : State V) (v : V) : Prop :=
  t.cars = s.cars ∧ (t.pc v).line ≠ 1 ∧ (t.pc v).line ≠ 6 ∧
    ∀ r, tally vs r v (t.pc v).line = tally vs r v (s.pc v).line

theorem uncounted_of_step (h : Step vs s v t) (hStart : s.pc v = .start → vs.type v = .truck)
    (hStore : (s.pc v).line ≠ 1 ∧ (s.pc v).line ≠ 6) (hLoad : s.pc v ≠ .loadDecrement) :
    Uncounted vs s t v := by
  unfold Step step at h
  unfold Uncounted tally
  cases hpc : s.pc v with
  | start =>
    have hTruck := hStart hpc
    rw [hpc, hTruck] at h
    cases h
    simp [State.goto, Pc.line, hTruck]
  | storeIncrement n => exact absurd (congrArg Pc.line hpc) hStore.1
  | storeDecrement n => exact absurd (congrArg Pc.line hpc) hStore.2
  | loadDecrement => exact absurd hpc hLoad
  | testPositive | testZero =>
    rw [hpc] at h
    dsimp only at h
    split_ifs at h <;> cases h <;> simp [State.goto, Pc.line]
  | acquireTruck | acquireFirst | acquireNext =>
    rw [hpc] at h
    obtain ⟨-, hPc, -⟩ := lockAcquire_cases h
    simp [lockAcquire_cars h, hPc, Pc.line]
  | releaseTruck | releaseNext =>
    rw [hpc] at h
    cases h
    simp [lockRelease_cars, lockRelease_pc, Pc.line]
  | releaseFirst =>
    rw [hpc] at h
    cases hTurn : vs.turn v <;> rw [hTurn] at h <;> cases h <;>
      simp [lockRelease_cars, lockRelease_pc, Pc.line]
  | enterFirst =>
    rw [hpc] at h
    cases hTurn : vs.turn v <;> rw [hTurn] at h <;> cases h <;> simp [State.goto, Pc.line]
  | leaveFirst | enterNext | leaveNext =>
    rw [hpc] at h
    cases h
    simp [State.goto, Pc.line]
  | done =>
    rw [hpc] at h
    cases h

/-- **Inversion.** An atomic step is a step that leaves the counters alone, or it counts a
car in, or it counts a vehicle out. -/
theorem atomicStep_cases (h : AtomicStep vs s v t) (hLoaded : Loaded s) :
    (Step vs s v t ∧ t.cars = s.cars ∧ Loaded t ∧
        ∀ r, tally vs r v (t.pc v).line = tally vs r v (s.pc v).line) ∨
      (s.pc v = .start ∧ vs.type v = .car ∧ t.pc = Function.update s.pc v .testPositive ∧
        t.holder = s.holder ∧
        t.cars = Function.update s.cars (vs.direction v) (s.cars (vs.direction v) + 1)) ∨
      (s.pc v = .loadDecrement ∧ t.pc = Function.update s.pc v .testZero ∧
        t.holder = s.holder ∧
        t.cars = Function.update s.cars (vs.direction v) (s.cars (vs.direction v) - 1)) := by
  unfold AtomicStep atomicStep at h
  obtain ⟨u, hFirst, hRest⟩ := Option.bind_eq_some_iff.mp h
  by_cases hCounts : (s.pc v = .start ∧ vs.type v = .car) ∨ s.pc v = .loadDecrement
  · right
    unfold step at hFirst
    rcases hCounts with ⟨hpc, hCar⟩ | hpc
    · rw [hpc, hCar] at hFirst
      cases hFirst
      simp only [State.goto, step, Function.update_self, State.setCars] at hRest
      cases hRest
      exact Or.inl ⟨hpc, hCar, Function.update_idem .., rfl, rfl⟩
    · rw [hpc] at hFirst
      cases hFirst
      simp only [State.goto, step, Function.update_self, State.setCars] at hRest
      cases hRest
      exact Or.inr ⟨hpc, Function.update_idem .., rfl, rfl⟩
  · left
    rw [not_or] at hCounts
    have hStart : s.pc v = .start → vs.type v = .truck := by
      intro hpc
      cases hType : vs.type v with
      | car => exact absurd ⟨hpc, hType⟩ hCounts.1
      | truck => rfl
    obtain ⟨hCars, h1, h6, hTally⟩ := uncounted_of_step hFirst hStart (hLoaded v) hCounts.2
    have hSame : t = u := by
      split at hRest
      · rename_i hpc
        exact absurd (congrArg Pc.line hpc) h1
      · rename_i hpc
        exact absurd (congrArg Pc.line hpc) h6
      · exact (Option.some.inj hRest).symm
    subst hSame
    refine ⟨hFirst, hCars, ?_, hTally⟩
    intro w
    obtain ⟨p, hPc, -⟩ := step_cases hFirst
    by_cases hw : w = v
    · subst hw
      exact ⟨h1, h6⟩
    · rw [hPc, Function.update_of_ne hw]
      exact hLoaded w

/-! ## The balance of a counter -/

/-- A truck that has counted itself down, though it never counted itself up. -/
def CountedTruck (vs : Vehicles V) (s : State V) (r : Route) (v : V) : Prop :=
  vs.direction v = r ∧ vs.type v = .truck ∧ 7 ≤ (s.pc v).line

instance (vs : Vehicles V) (s : State V) (r : Route) : DecidablePred (CountedTruck vs s r) :=
  fun _ => inferInstanceAs (Decidable (_ ∧ _ ∧ _))

variable [Fintype V]

omit [DecidableEq V] [Fintype V] in
theorem tally_eq (vs : Vehicles V) (s : State V) (r : Route) (v : V) :
    tally vs r v (s.pc v).line =
      (if WaitingCar vs s r v then 1 else 0) - (if CountedTruck vs s r v then 1 else 0) := by
  unfold tally WaitingCar CountedTruck
  have hType : vs.type v = .car ∨ vs.type v = .truck := by cases vs.type v <;> simp
  by_cases hRoute : vs.direction v = r
  · rcases hType with hType | hType
    · simp [hRoute, hType]
    · by_cases hPast : 7 ≤ (s.pc v).line <;> simp [hRoute, hType, hPast]
  · simp [hRoute]

theorem sum_tally_update (r : Route) (pc : V → Pc) (v : V) (p : Pc) :
    ∑ w, tally vs r w (Function.update pc v p w).line =
      ∑ w, tally vs r w (pc w).line + (tally vs r v p.line - tally vs r v (pc v).line) := by
  have hApply : ∀ w, tally vs r w (Function.update pc v p w).line =
      Function.update (fun w => tally vs r w (pc w).line) v (tally vs r v p.line) w :=
    Function.apply_update (fun w q => tally vs r w q.line) pc v p
  simp only [hApply]
  rw [Finset.sum_update_of_mem (Finset.mem_univ v), Finset.sdiff_singleton_eq_erase]
  have hSplit := Finset.add_sum_erase Finset.univ (fun w => tally vs r w (pc w).line)
    (Finset.mem_univ v)
  omega

/-- Each counter is what the vehicles of its route have added to it. -/
structure Balanced (vs : Vehicles V) (s : State V) : Prop where
  loaded : Loaded s
  balance : ∀ r, s.cars r = ∑ v, tally vs r v (s.pc v).line

omit [DecidableEq V] in
theorem balanced_init (vs : Vehicles V) : Balanced vs init where
  loaded v := by simp [init, Pc.line]
  balance r := by
    have hZero : ∀ v, tally vs r v ((init : State V).pc v).line = 0 := by
      intro v
      rw [tally_eq]
      simp [WaitingCar, CountedTruck, init, Pc.line]
    rw [Finset.sum_congr rfl fun v _ => hZero v, Finset.sum_const_zero]
    rfl

/-- A vehicle moves on and changes the counter of its route by what its tally changes by. -/
theorem Balanced.of_update {p : Pc} {d : Int} (h : Balanced vs s)
    (hPc : t.pc = Function.update s.pc v p) (hLine : p.line ≠ 1 ∧ p.line ≠ 6)
    (hCars : t.cars = Function.update s.cars (vs.direction v) (s.cars (vs.direction v) + d))
    (hTally : tally vs (vs.direction v) v p.line -
      tally vs (vs.direction v) v (s.pc v).line = d) : Balanced vs t where
  loaded w := by
    rw [hPc]
    by_cases hw : w = v
    · subst hw
      rwa [Function.update_self]
    · rw [Function.update_of_ne hw]
      exact h.loaded w
  balance r := by
    rw [hCars, hPc, sum_tally_update, ← h.balance]
    by_cases hr : r = vs.direction v
    · subst hr
      rw [Function.update_self, hTally]
    · rw [Function.update_of_ne hr]
      simp [tally, Ne.symm hr]

theorem Balanced.step (h : Balanced vs s) (hStep : AtomicStep vs s v t) : Balanced vs t := by
  rcases atomicStep_cases hStep h.loaded with ⟨hSmall, hCars, hLoaded, hTally⟩ |
    ⟨hpc, hCar, hPc, -, hCars⟩ | ⟨hpc, hPc, -, hCars⟩
  · refine ⟨hLoaded, fun r => ?_⟩
    obtain ⟨p, hPc, -⟩ := step_cases hSmall
    have hSame := hTally r
    rw [hPc, Function.update_self] at hSame
    rw [hCars, h.balance, hPc, sum_tally_update, hSame]
    omega
  · refine h.of_update hPc (by simp [Pc.line]) hCars ?_
    simp [tally, hpc, hCar, Pc.line]
  · refine h.of_update hPc (by simp [Pc.line]) hCars ?_
    rw [hpc]
    cases hType : vs.type v <;> simp [tally, hType, Pc.line]

omit [DecidableEq V] in
theorem Balanced.cars_eq (h : Balanced vs s) (r : Route) :
    s.cars r = ((Finset.univ.filter (WaitingCar vs s r)).card : Int) -
      (Finset.univ.filter (CountedTruck vs s r)).card := by
  rw [h.balance, Finset.natCast_card_filter, Finset.natCast_card_filter,
    ← Finset.sum_sub_distrib]
  exact Finset.sum_congr rfl fun v _ => tally_eq vs s r v

/-! ## Truck locks without counted trucks -/

omit [Fintype V] in
theorem AtomicStep.run (h : AtomicStep vs s v t) : ∃ tr, Run (Step vs) s tr t := by
  unfold AtomicStep atomicStep at h
  obtain ⟨u, hFirst, hRest⟩ := Option.bind_eq_some_iff.mp h
  split at hRest
  · exact ⟨_, .snoc (.single hFirst) hRest⟩
  · exact ⟨_, .snoc (.single hFirst) hRest⟩
  · cases hRest
    exact ⟨_, .single hFirst⟩

omit [Fintype V] in
theorem Consistent.atomicStep (h : Consistent vs s) (hStep : AtomicStep vs s v t) :
    Consistent vs t := by
  obtain ⟨tr, hRun⟩ := hStep.run
  exact hRun.invariant h fun _ _ _ hInv hSmall => hInv.step hSmall

/-- A car that has counted itself in and has not taken its truck lock. -/
def QueuedCar (vs : Vehicles V) (s : State V) (r : Route) (v : V) : Prop :=
  vs.direction v = r ∧ vs.type v = .car ∧ 2 ≤ (s.pc v).line ∧ (s.pc v).line ≤ 3

/-- No truck has counted itself down, every car takes the truck lock of its route, and a
holder that has passed its release keeps a car queued. -/
structure Tidy (vs : Vehicles V) (s : State V) : Prop where
  trucks : ∀ v, vs.type v = .truck → (s.pc v).line ≤ 5
  taken : ∀ v, vs.type v = .car → 4 ≤ (s.pc v).line → (s.pc v).line ≤ 8 →
    s.holder (.tl (vs.direction v)) = some v
  kept : ∀ r v, s.holder (.tl r) = some v → 9 ≤ (s.pc v).line → ∃ w, QueuedCar vs s r w

/-- The condition on a step: it is not a truck that counts itself down. -/
def CountsCars (vs : Vehicles V) (s : State V) (v : V) : Prop :=
  vs.type v = .truck → s.pc v ≠ .loadDecrement

instance (vs : Vehicles V) (s : State V) (v : V) : Decidable (CountsCars vs s v) :=
  inferInstanceAs (Decidable (_ → _))

omit [DecidableEq V] [Fintype V] in
theorem tidy_init (vs : Vehicles V) : Tidy vs init where
  trucks v _ := by simp [init, Pc.line]
  taken v _ h := by simp [init, Pc.line] at h
  kept r v h := by cases h

omit [DecidableEq V] in
theorem Balanced.cars_eq_waiting (h : Balanced vs s)
    (hTrucks : ∀ v, vs.type v = .truck → (s.pc v).line ≤ 5) (r : Route) :
    s.cars r = ((Finset.univ.filter (WaitingCar vs s r)).card : Int) := by
  have hNone : Finset.univ.filter (CountedTruck vs s r) = ∅ := by
    ext v
    simp only [CountedTruck, Finset.mem_filter, Finset.mem_univ, true_and, Finset.notMem_empty,
      iff_false, not_and]
    intro _ hType hLine
    have := hTrucks v hType
    omega
  rw [h.cars_eq, hNone, Finset.card_empty]
  omega

omit [DecidableEq V] in
theorem Tidy.cars_pos (h : Tidy vs s) (hBal : Balanced vs s) {r : Route} :
    0 < s.cars r ↔ ∃ w, WaitingCar vs s r w := by
  rw [hBal.cars_eq_waiting h.trucks, Int.natCast_pos, Finset.card_pos]
  simp [Finset.Nonempty]

omit [DecidableEq V] in
theorem Tidy.cars_ne_zero (h : Tidy vs s) (hBal : Balanced vs s) {r : Route}
    (hCars : s.cars r ≠ 0) : ∃ w, WaitingCar vs s r w := by
  rw [← h.cars_pos hBal]
  have hNonneg : 0 ≤ s.cars r := by
    rw [hBal.cars_eq_waiting h.trucks]
    omega
  omega

omit [Fintype V] in
theorem Tidy.trucks_step (h : Tidy vs s) (hLoaded : Loaded s) (hStep : AtomicStep vs s v t)
    (hCounts : CountsCars vs s v) (hw : vs.type w = .truck) : (t.pc w).line ≤ 5 := by
  have hBefore := h.trucks w hw
  rcases atomicStep_cases hStep hLoaded with ⟨hSmall, -, -, -⟩ | ⟨-, hCar, hPc, -, -⟩ |
    ⟨hpc, hPc, -, -⟩
  · obtain ⟨p, hPc, hEffect⟩ := step_cases hSmall
    rw [hPc]
    by_cases hwv : w = v
    · subst hwv
      rw [Function.update_self]
      have hNe : (s.pc w).line ≠ 5 := by
        intro hFive
        exact hCounts hw (eq_of_line hFive (by decide) (by decide))
      unfold Effect Quiet Acquires Releases at hEffect
      grind
    · rwa [Function.update_of_ne hwv]
  · have hwv : w ≠ v := by
      rintro rfl
      rw [hCar] at hw
      cases hw
    rwa [hPc, Function.update_of_ne hwv]
  · have hwv : w ≠ v := by
      rintro rfl
      exact hCounts hw hpc
    rwa [hPc, Function.update_of_ne hwv]

omit [Fintype V] in
/-- A held lock is only lost by a release of its holder. -/
theorem holder_kept {p : Pc} {l : StoplightLock} (hEffect : Effect vs s t v p)
    (hHeld : s.holder l = some w) (hRelease : w = v → ¬ Releases vs v (s.pc v).line p.line l) :
    t.holder l = some w := by
  rcases hEffect with ⟨hHolder, -⟩ | ⟨l', hFree, hHolder, -⟩ | ⟨l', hHolder, hReleases⟩
  · rwa [hHolder]
  · have hl : l ≠ l' := by
      rintro rfl
      rw [hHeld] at hFree
      cases hFree
    rwa [hHolder, Function.update_of_ne hl]
  · rw [hHolder]
    split_ifs with hMine
    · have hl : l ≠ l' := by
        rintro rfl
        rw [hHeld] at hMine
        exact hRelease (Option.some.inj hMine) hReleases
      rwa [Function.update_of_ne hl]
    · exact hHeld

omit [Fintype V] in
/-- A car that finds its own count goes to the truck lock. -/
theorem line_of_queues (hSmall : Step vs s v t) (hLine : (s.pc v).line = 2)
    (hCars : 0 < s.cars (vs.direction v)) : (t.pc v).line = 3 := by
  have hpc : s.pc v = .testPositive := eq_of_line hLine (by decide) (by decide)
  unfold Step Stoplight.step at hSmall
  rw [hpc] at hSmall
  cases hSmall
  simp [hCars, State.goto, Pc.line]

theorem Tidy.taken_step (h : Tidy vs s) (hBal : Balanced vs s) (hStep : AtomicStep vs s v t)
    (hCar : vs.type w = .car) (hLow : 4 ≤ (t.pc w).line) (hHigh : (t.pc w).line ≤ 8) :
    t.holder (.tl (vs.direction w)) = some w := by
  rcases atomicStep_cases hStep hBal.loaded with ⟨hSmall, -, -, -⟩ | ⟨-, -, hPc, hHolder, -⟩ |
    ⟨hpc, hPc, hHolder, -⟩
  · obtain ⟨p, hPc, hEffect⟩ := step_cases hSmall
    by_cases hwv : w = v
    · subst hwv
      have hLine : t.pc w = p := by rw [hPc, Function.update_self]
      by_cases hFour : 4 ≤ (s.pc w).line
      · have hLe := line_le_of_effect hEffect
        refine holder_kept hEffect (h.taken w hCar hFour ?_) ?_
        · rw [← hLine] at hLe
          omega
        · intro _ hReleases
          rw [← hLine] at hReleases
          unfold Releases at hReleases
          grind
      · have hQueues : (s.pc w).line = 2 → (t.pc w).line = 3 := by
          intro hTwo
          refine line_of_queues hSmall hTwo ((h.cars_pos hBal).mpr ⟨w, rfl, hCar, ?_, ?_⟩) <;> omega
        rcases hEffect with ⟨-, hQuiet⟩ | ⟨l, -, hHolder, hAcquires⟩ | ⟨l, -, hReleases⟩
        · rw [← hLine] at hQuiet
          unfold Quiet at hQuiet
          omega
        · have hl : l = .tl (vs.direction w) := by
            unfold Acquires at hAcquires
            rcases hAcquires with ⟨hl, -⟩ | ⟨-, hFive, -⟩ | ⟨-, hTen, -⟩
            · exact hl
            · omega
            · omega
          rw [hHolder, hl, Function.update_self]
        · unfold Releases at hReleases
          omega
    · rw [hPc, Function.update_of_ne hwv] at hLow hHigh
      exact holder_kept hEffect (h.taken w hCar hLow hHigh) fun hEq => absurd hEq hwv
  · have hwv : w ≠ v := by
      rintro rfl
      simp [hPc, Pc.line] at hLow
    rw [hPc, Function.update_of_ne hwv] at hLow hHigh
    rw [hHolder]
    exact h.taken w hCar hLow hHigh
  · rw [hHolder]
    by_cases hwv : w = v
    · subst hwv
      apply h.taken w hCar <;> simp [hpc, Pc.line]
    · rw [hPc, Function.update_of_ne hwv] at hLow hHigh
      exact h.taken w hCar hLow hHigh

omit [Fintype V] in
theorem QueuedCar.of_ne {p : Pc} {r : Route} (h : QueuedCar vs s r w)
    (hPc : t.pc = Function.update s.pc v p) (hNe : w ≠ v) : QueuedCar vs t r w := by
  unfold QueuedCar
  rw [hPc, Function.update_of_ne hNe]
  exact h

/-- A car queued at a truck lock stays queued while the lock is held. -/
theorem Tidy.queued_step (h : Tidy vs s) (hBal : Balanced vs s) {r : Route}
    (hSmall : Step vs s v t) (hQueued : QueuedCar vs s r w) {u : V}
    (hHeld : s.holder (.tl r) = some u) : QueuedCar vs t r w := by
  obtain ⟨p, hPc, hEffect⟩ := step_cases hSmall
  by_cases hwv : w = v
  · subst hwv
    obtain ⟨hRoute, hCar, hLow, hHigh⟩ := hQueued
    by_cases hTwo : (s.pc w).line = 2
    · have hCars : 0 < s.cars (vs.direction w) :=
        (h.cars_pos hBal).mpr ⟨w, rfl, hCar, by omega, by omega⟩
      have hThree := line_of_queues hSmall hTwo hCars
      exact ⟨hRoute, hCar, by omega, by omega⟩
    · -- it waits for the lock
      have hpc : s.pc w = .acquireTruck := by
        refine eq_of_line (?_ : (s.pc w).line = 3) (by decide) (by decide)
        omega
      unfold Step Stoplight.step at hSmall
      rw [hpc] at hSmall
      obtain ⟨hFree, -, -⟩ := lockAcquire_cases hSmall
      rw [hRoute, hHeld] at hFree
      cases hFree
  · exact hQueued.of_ne hPc hwv

theorem Tidy.kept_step (h : Tidy vs s) (hCons : Consistent vs s) (hBal : Balanced vs s)
    (hStep : AtomicStep vs s v t) {r : Route} {u : V} (hHeld : t.holder (.tl r) = some u)
    (hPast : 9 ≤ (t.pc u).line) : ∃ w, QueuedCar vs t r w := by
  rcases atomicStep_cases hStep hBal.loaded with ⟨hSmall, -, -, -⟩ |
    ⟨hpc, -, hPc, hHolder, -⟩ | ⟨hpc, hPc, hHolder, -⟩
  · obtain ⟨p, hPc, hEffect⟩ := step_cases hSmall
    rcases holder_of_effect hEffect hHeld with hBefore | ⟨rfl, hAcquires⟩
    · by_cases hWas : 9 ≤ (s.pc u).line
      · obtain ⟨w, hQueued⟩ := h.kept r u hBefore hWas
        exact ⟨w, h.queued_step hBal hSmall hQueued hBefore⟩
      · -- the holder passes its release with cars in the lane
        have huv : u = v := by
          by_contra hNe
          rw [hPc, Function.update_of_ne hNe] at hPast
          exact hWas hPast
        subst huv
        rw [hPc, Function.update_self] at hPast
        have hRoute := (hCons.truck r u hBefore).1
        rcases passes_release hEffect hRoute hBefore (by omega) (by omega) with
          hNone | ⟨hZero, hCars⟩
        · rw [hHeld] at hNone
          cases hNone
        · obtain ⟨w, hwRoute, hCar, hLow, hHigh⟩ := h.cars_ne_zero hBal hCars
          have hwu : w ≠ u := by
            rintro rfl
            simp [hZero, Pc.line] at hHigh
          have hThree : (s.pc w).line ≤ 3 := by
            by_contra hFour
            have hMine := h.taken w hCar (by omega) (by omega)
            rw [hwRoute, hBefore] at hMine
            exact hwu (Option.some.inj hMine).symm
          exact ⟨w, QueuedCar.of_ne ⟨hwRoute, hCar, hLow, hThree⟩ hPc hwu⟩
    · rw [hPc, Function.update_self] at hPast
      unfold Acquires at hAcquires
      grind
  all_goals
    rw [hHolder] at hHeld
    have huv : u ≠ v := by
      rintro rfl
      simp [hPc, Pc.line] at hPast
    rw [hPc, Function.update_of_ne huv] at hPast
    obtain ⟨w, hQueued⟩ := h.kept r u hHeld hPast
    have hwv : w ≠ v := by
      rintro rfl
      have hLines := hQueued.2.2
      simp [hpc, Pc.line] at hLines
    exact ⟨w, hQueued.of_ne hPc hwv⟩

theorem Tidy.step (h : Tidy vs s) (hCons : Consistent vs s) (hBal : Balanced vs s)
    (hStep : AtomicStep vs s v t) (hCounts : CountsCars vs s v) : Tidy vs t where
  trucks _ hw := h.trucks_step hBal.loaded hStep hCounts hw
  taken _ hCar hLow hHigh := h.taken_step hBal hStep hCar hLow hHigh
  kept _ _ hHeld hPast := h.kept_step hCons hBal hStep hHeld hPast

/-! ## Quiescence -/

omit [DecidableEq V] in
theorem quiescence_of_tidy (hCons : Consistent vs s) (hBal : Balanced vs s) (h : Tidy vs s) :
    Quiescence vs s where
  nonneg r := by
    rw [hBal.cars_eq_waiting h.trucks]
    omega
  counted := hBal.cars_eq_waiting h.trucks
  quiet hAll := by
    have hLine : ∀ v, (s.pc v).line = 0 ∨ (s.pc v).line = 16 := by
      intro v
      rcases hAll v with hv | hv <;> simp [hv, Pc.line]
    constructor
    · intro l
      rw [← Option.not_isSome_iff_eq_none, Option.isSome_iff_exists]
      rintro ⟨v, hv⟩
      cases l with
      | tl r =>
        have hFour := (hCons.truck r v hv).2
        have hDone := hLine v
        obtain ⟨w, -, -, hLow, hHigh⟩ := h.kept r v hv (by omega)
        have := hLine w
        omega
      | sec x =>
        have hHolds := (hCons.sections x v).mp hv
        have := hLine v
        unfold HoldsSection at hHolds
        omega
    · intro r
      by_contra hCars
      obtain ⟨w, -, -, hLow, hHigh⟩ := h.cars_ne_zero hBal hCars
      have := hLine w
      omega

omit [Fintype V] in
theorem line_le_of_atomicStep (hStep : AtomicStep vs s v t) (hLoaded : Loaded s) (w : V) :
    (s.pc w).line ≤ (t.pc w).line := by
  obtain ⟨p, hPc, hLe⟩ : ∃ p, t.pc = Function.update s.pc v p ∧ (s.pc v).line ≤ p.line := by
    rcases atomicStep_cases hStep hLoaded with ⟨hSmall, -⟩ | ⟨hpc, -, hPc, -⟩ | ⟨hpc, hPc, -⟩
    · obtain ⟨p, hPc, hEffect⟩ := step_cases hSmall
      exact ⟨p, hPc, line_le_of_effect hEffect⟩
    · exact ⟨_, hPc, by simp [hpc, Pc.line]⟩
    · exact ⟨_, hPc, by simp [hpc, Pc.line]⟩
  rw [hPc]
  by_cases hwv : w = v
  · subst hwv
    rwa [Function.update_self]
  · rw [Function.update_of_ne hwv]

theorem balanced_of_run {tr : List V} (h : Run (AtomicStep vs) init tr s) : Balanced vs s :=
  h.invariant (balanced_init vs) fun _ _ _ hInv hStep => hInv.step hStep

/-- A truck that has counted itself down never leaves that part of the text again. -/
theorem guarded_of_trucks {tr : List V} (h : Run (AtomicStep vs) init tr s)
    (hTrucks : ∀ v, vs.type v = .truck → (s.pc v).line ≤ 5) :
    Run (Guarded (AtomicStep vs) (CountsCars vs)) init tr s := by
  induction h with
  | refl => exact .refl
  | @snoc tr t u v prior last ih =>
    have hLoaded := (balanced_of_run prior).loaded
    have hLe := line_le_of_atomicStep last hLoaded
    refine .snoc (ih fun w hw => Nat.le_trans (hLe w) (hTrucks w hw)) ⟨last, ?_⟩
    intro hTruck hpc
    have hLine := hTrucks v hTruck
    rcases atomicStep_cases last hLoaded with ⟨hSmall, -⟩ | ⟨hStart, -⟩ | ⟨-, hPc, -⟩
    · obtain ⟨p, hPc, hEffect⟩ := step_cases hSmall
      rw [hPc, Function.update_self] at hLine
      have hFive : (t.pc v).line = 5 := congrArg Pc.line hpc
      unfold Effect Quiet Acquires Releases at hEffect
      omega
    · rw [hpc] at hStart
      cases hStart
    · simp [hPc, Pc.line] at hLine

/-- The counters and the locks say what they are meant to say in exactly the states that are
reached before any truck counts itself down. -/
theorem quiescence_iff (vs : Vehicles V) {tr : List V} (h : Run (AtomicStep vs) init tr s) :
    Quiescence vs s ↔ Run (Guarded (AtomicStep vs) (CountsCars vs)) init tr s := by
  constructor
  · intro hQuiet
    have hBal := balanced_of_run h
    refine guarded_of_trucks h ?_
    intro v hTruck
    by_contra hPast
    have hv : CountedTruck vs s (vs.direction v) v := by
      have hSix := (hBal.loaded v).2
      exact ⟨rfl, hTruck, by omega⟩
    have hPos : 0 < (Finset.univ.filter (CountedTruck vs s (vs.direction v))).card :=
      Finset.card_pos.mpr ⟨v, by simpa using hv⟩
    have hCounted := hQuiet.counted (vs.direction v)
    rw [hBal.cars_eq] at hCounted
    omega
  · intro hRun
    have hInv : Consistent vs s ∧ Balanced vs s ∧ Tidy vs s := by
      refine hRun.invariant (I := fun s => Consistent vs s ∧ Balanced vs s ∧ Tidy vs s)
        ⟨consistent_init vs, balanced_init vs, tidy_init vs⟩ ?_
      rintro t v u ⟨hCons, hBal, hTidy⟩ ⟨hStep, hCounts⟩
      exact ⟨hCons.atomicStep hStep, hBal.step hStep, hTidy.step hCons hBal hStep hCounts⟩
    exact quiescence_of_tidy hInv.1 hInv.2.1 hInv.2.2

/-- Two cars cross one after the other, and everything is free again. -/
theorem quiescence_iff_twoRightTurns :
    ∃ s, s.pc false = .done ∧ s.pc true = .done ∧ Quiescence twoRightTurns s := by
  let tr := List.replicate 10 false ++ List.replicate 10 true
  have hRun : Run (Guarded (AtomicStep twoRightTurns) (CountsCars twoRightTurns)) init tr _ :=
    Run.guarded_of_foldlM rfl
  exact ⟨_, rfl, rfl,
    (quiescence_iff twoRightTurns (hRun.mono fun _ _ _ hStep => hStep.1)).mpr hRun⟩

/-- A single truck from route A. -/
def oneTruck : Vehicles Unit where
  direction _ := .A
  turn _ := .right
  type _ := .truck

theorem not_forall_quiescence :
    ¬ ∀ (V : Type) [DecidableEq V] [Fintype V] (vs : Vehicles V) (s : State V),
      Reachable (AtomicStep vs) init s → Quiescence vs s := by
  intro hAll
  obtain ⟨s, hRun, hCars⟩ : ∃ s, Run (AtomicStep oneTruck) init (List.replicate 4 ()) s ∧
      s.cars .A = -1 := ⟨_, Run.of_foldlM rfl, rfl⟩
  have hNonneg := (hAll Unit oneTruck s ⟨_, hRun⟩).nonneg .A
  omega

end Windborne.OS161.Stoplight
