import Mathlib.Tactic.SplitIfs
import Windborne.OS161.Stoplight

/-!
# Who holds the locks of the stoplight

`step_cases` says once what a step can do to the locks. From it follows, for every
interleaving, that the sections are held by exactly the vehicles whose next statement lies
between the acquire and the release, and that a truck lock is held by a vehicle of its own
route that has acquired it.
-/

namespace Windborne.OS161.Stoplight

open Library

variable {V : Type} {vs : Vehicles V} {s t : State V} {v w : V}

/-! ## Lines and locks -/

/-- Steps between the lines `a` and `b` that leave the locks alone. -/
def Quiet (vs : Vehicles V) (s : State V) (v : V) (a b : Nat) : Prop :=
  (a < b ∧ b ≤ 2) ∨ (a = 2 ∧ b = 3 ∧ 0 < s.cars (vs.direction v)) ∨ (a = 2 ∧ b = 4) ∨
    (5 ≤ a ∧ a < b ∧ b ≤ 8) ∨ (a = 7 ∧ b = 9 ∧ s.cars (vs.direction v) ≠ 0) ∨
    (a = 9 ∧ b = 10 ∧ vs.turn v = .left) ∨ (a = 9 ∧ b = 11 ∧ vs.turn v = .right) ∨
    (a = 11 ∧ b = 12) ∨ (13 ≤ a ∧ a < b ∧ b ≤ 15)

def Acquires (vs : Vehicles V) (v : V) (a b : Nat) (l : StoplightLock) : Prop :=
  (l = .tl (vs.direction v) ∧ a = 3 ∧ b = 4) ∨
    (l = .sec (firstSection (vs.direction v)) ∧ a = 4 ∧ b = 5) ∨
    (l = .sec (nextSection (vs.direction v)) ∧ a = 10 ∧ b = 11)

def Releases (vs : Vehicles V) (v : V) (a b : Nat) (l : StoplightLock) : Prop :=
  (l = .tl (vs.direction v) ∧ a = 8 ∧ b = 9) ∨
    (l = .sec (firstSection (vs.direction v)) ∧ a = 12 ∧ b = 13 ∧ vs.turn v = .left) ∨
    (l = .sec (firstSection (vs.direction v)) ∧ a = 12 ∧ b = 16 ∧ vs.turn v = .right) ∨
    (l = .sec (nextSection (vs.direction v)) ∧ a = 15 ∧ b = 16)

/-- The lines between the acquire and the release of a section. -/
def HoldsSection (vs : Vehicles V) (v : V) (line : Nat) (x : Section) : Prop :=
  (5 ≤ line ∧ line ≤ 12 ∧ x = firstSection (vs.direction v)) ∨
    (vs.turn v = .left ∧ 11 ≤ line ∧ line ≤ 15 ∧ x = nextSection (vs.direction v))

theorem firstSection_ne_nextSection (r : Route) : firstSection r ≠ nextSection r := by
  cases r <;> decide

theorem firstSection_succ (r : Route) : firstSection r.succ = nextSection r := by
  cases r <;> rfl

theorem firstSection_injective {r r' : Route} (h : firstSection r = firstSection r') :
    r = r' := by
  cases r <;> cases r' <;> first | rfl | cases h

theorem holdsSection_of_quiet {a b : Nat} {x : Section} (h : Quiet vs s v a b) :
    HoldsSection vs v b x ↔ HoldsSection vs v a x := by
  unfold HoldsSection
  unfold Quiet at h
  grind

theorem holdsSection_of_acquires {a b : Nat} {x : Section} {l : StoplightLock}
    (h : Acquires vs v a b l) (hLeft : a = 10 → vs.turn v = .left) :
    HoldsSection vs v b x ↔ HoldsSection vs v a x ∨ l = .sec x := by
  unfold HoldsSection
  unfold Acquires at h
  grind

theorem holdsSection_of_releases {a b : Nat} {x : Section} {l : StoplightLock}
    (h : Releases vs v a b l) (hLeft : 13 ≤ a → a ≤ 15 → vs.turn v = .left) :
    (HoldsSection vs v b x ↔ HoldsSection vs v a x ∧ l ≠ .sec x) ∧
      (l = .sec x → HoldsSection vs v a x) := by
  have hNe := firstSection_ne_nextSection (vs.direction v)
  unfold HoldsSection
  unfold Releases at h
  grind

/-! ## Inversion -/

variable [DecidableEq V]

/-- The effect of a step of `v` to the statement `p`. -/
def Effect (vs : Vehicles V) (s t : State V) (v : V) (p : Pc) : Prop :=
  (t.holder = s.holder ∧ Quiet vs s v (s.pc v).line p.line) ∨
    (∃ l, s.holder l = none ∧ t.holder = Function.update s.holder l (some v) ∧
      Acquires vs v (s.pc v).line p.line l) ∨
    ∃ l, (t.holder = if s.holder l = some v then Function.update s.holder l none
      else s.holder) ∧ Releases vs v (s.pc v).line p.line l

theorem lockAcquire_cases {l : StoplightLock} {p : Pc} (h : lockAcquire s v l p = some t) :
    s.holder l = none ∧ t.pc = Function.update s.pc v p ∧
      t.holder = Function.update s.holder l (some v) := by
  unfold lockAcquire at h
  split at h
  · rename_i hFree
    cases h
    exact ⟨hFree, rfl, rfl⟩
  · cases h

theorem lockRelease_pc (s : State V) (v : V) (l : StoplightLock) (p : Pc) :
    (lockRelease s v l p).pc = Function.update s.pc v p := by
  unfold lockRelease
  split <;> rfl

theorem lockRelease_holder (s : State V) (v : V) (l : StoplightLock) (p : Pc) :
    (lockRelease s v l p).holder =
      if s.holder l = some v then Function.update s.holder l none else s.holder := by
  unfold lockRelease
  split <;> rfl

/-- **Inversion.** A step moves only its own vehicle, and its effect is one of the above. -/
theorem step_cases (h : Step vs s v t) :
    ∃ p, t.pc = Function.update s.pc v p ∧ Effect vs s t v p := by
  unfold Step step at h
  unfold Effect Quiet Acquires Releases
  cases hpc : s.pc v with
  | start =>
    rw [hpc] at h
    cases hType : vs.type v with
    | car =>
      rw [hType] at h
      cases h
      exact ⟨_, rfl, Or.inl ⟨rfl, by simp [Pc.line]⟩⟩
    | truck =>
      rw [hType] at h
      cases h
      exact ⟨_, rfl, Or.inl ⟨rfl, by simp [Pc.line]⟩⟩
  | testPositive =>
    rw [hpc] at h
    cases h
    refine ⟨_, rfl, Or.inl ⟨rfl, ?_⟩⟩
    split_ifs with hCars
    · simp [Pc.line, hCars]
    · simp [Pc.line]
  | acquireTruck =>
    rw [hpc] at h
    obtain ⟨hFree, hPc, hHolder⟩ := lockAcquire_cases h
    exact ⟨_, hPc, Or.inr (Or.inl ⟨_, hFree, hHolder, Or.inl ⟨rfl, rfl, rfl⟩⟩)⟩
  | acquireFirst =>
    rw [hpc] at h
    obtain ⟨hFree, hPc, hHolder⟩ := lockAcquire_cases h
    exact ⟨_, hPc, Or.inr (Or.inl ⟨_, hFree, hHolder, Or.inr (Or.inl ⟨rfl, rfl, rfl⟩)⟩)⟩
  | testZero =>
    rw [hpc] at h
    cases h
    refine ⟨_, rfl, Or.inl ⟨rfl, ?_⟩⟩
    split_ifs with hCars
    · simp [Pc.line]
    · simp [Pc.line, hCars]
  | releaseTruck =>
    rw [hpc] at h
    cases h
    exact ⟨_, lockRelease_pc .., Or.inr (Or.inr ⟨_, lockRelease_holder .., by simp [Pc.line]⟩)⟩
  | enterFirst =>
    rw [hpc] at h
    cases hTurn : vs.turn v with
    | left =>
      rw [hTurn] at h
      cases h
      exact ⟨_, rfl, Or.inl ⟨rfl, by simp [Pc.line]⟩⟩
    | right =>
      rw [hTurn] at h
      cases h
      exact ⟨_, rfl, Or.inl ⟨rfl, by simp [Pc.line]⟩⟩
  | acquireNext =>
    rw [hpc] at h
    obtain ⟨hFree, hPc, hHolder⟩ := lockAcquire_cases h
    exact ⟨_, hPc, Or.inr (Or.inl ⟨_, hFree, hHolder, Or.inr (Or.inr ⟨rfl, rfl, rfl⟩)⟩)⟩
  | releaseFirst =>
    rw [hpc] at h
    cases hTurn : vs.turn v with
    | left =>
      rw [hTurn] at h
      cases h
      exact ⟨_, lockRelease_pc .., Or.inr (Or.inr ⟨_, lockRelease_holder ..,
        Or.inr (Or.inl ⟨rfl, rfl, rfl, rfl⟩)⟩)⟩
    | right =>
      rw [hTurn] at h
      cases h
      exact ⟨_, lockRelease_pc .., Or.inr (Or.inr ⟨_, lockRelease_holder ..,
        Or.inr (Or.inr (Or.inl ⟨rfl, rfl, rfl, rfl⟩))⟩)⟩
  | releaseNext =>
    rw [hpc] at h
    cases h
    exact ⟨_, lockRelease_pc .., Or.inr (Or.inr ⟨_, lockRelease_holder ..,
      Or.inr (Or.inr (Or.inr ⟨rfl, rfl, rfl⟩))⟩)⟩
  | storeIncrement _ | loadDecrement | storeDecrement _ | leaveFirst | enterNext | leaveNext =>
    rw [hpc] at h
    cases h
    exact ⟨_, rfl, Or.inl ⟨rfl, by simp [Pc.line]⟩⟩
  | done =>
    rw [hpc] at h
    cases h

theorem holder_of_effect {p : Pc} {l : StoplightLock} (h : Effect vs s t v p)
    (hHeld : t.holder l = some w) :
    s.holder l = some w ∨ (w = v ∧ Acquires vs v (s.pc v).line p.line l) := by
  rcases h with ⟨hHolder, -⟩ | ⟨l', -, hHolder, hAcquires⟩ | ⟨l', hHolder, -⟩
  · rw [hHolder] at hHeld
    exact Or.inl hHeld
  · rw [hHolder] at hHeld
    by_cases hl : l = l'
    · subst hl
      rw [Function.update_self] at hHeld
      exact Or.inr ⟨(Option.some.inj hHeld).symm, hAcquires⟩
    · rw [Function.update_of_ne hl] at hHeld
      exact Or.inl hHeld
  · rw [hHolder] at hHeld
    split at hHeld
    · by_cases hl : l = l'
      · subst hl
        rw [Function.update_self] at hHeld
        cases hHeld
      · rw [Function.update_of_ne hl] at hHeld
        exact Or.inl hHeld
    · exact Or.inl hHeld

theorem line_le_of_effect {p : Pc} (h : Effect vs s t v p) : (s.pc v).line ≤ p.line := by
  unfold Effect Quiet Acquires Releases at h
  grind

/-! ## The locks in every reachable state -/

/-- What holds in every reachable state, whatever the order of the steps. -/
structure Consistent (vs : Vehicles V) (s : State V) : Prop where
  left : ∀ w, (s.pc w).line = 10 ∨ (13 ≤ (s.pc w).line ∧ (s.pc w).line ≤ 15) →
    vs.turn w = .left
  sections : ∀ x w, s.holder (.sec x) = some w ↔ HoldsSection vs w (s.pc w).line x
  truck : ∀ r w, s.holder (.tl r) = some w → vs.direction w = r ∧ 4 ≤ (s.pc w).line

omit [DecidableEq V] in
theorem consistent_init (vs : Vehicles V) : Consistent vs init where
  left w h := by
    have hLine : ((init : State V).pc w).line = 0 := rfl
    omega
  sections x w := by
    have hLine : ((init : State V).pc w).line = 0 := rfl
    refine iff_of_false (by simp [init]) ?_
    rw [hLine]
    rintro (⟨h, -⟩ | ⟨-, h, -⟩) <;> omega
  truck r w h := by cases h

theorem Consistent.sections_step (h : Consistent vs s) (hStep : Step vs s v t) (x : Section)
    (w : V) : t.holder (.sec x) = some w ↔ HoldsSection vs w (t.pc w).line x := by
  obtain ⟨p, hPc, hEffect⟩ := step_cases hStep
  have hBefore := h.sections x
  rw [hPc]
  rcases hEffect with ⟨hHolder, hQuiet⟩ | ⟨l, hFree, hHolder, hAcquires⟩ |
    ⟨l, hHolder, hReleases⟩
  · rw [hHolder, hBefore]
    by_cases hw : w = v
    · subst hw
      rw [Function.update_self, holdsSection_of_quiet hQuiet]
    · rw [Function.update_of_ne hw]
  · have hHolds := holdsSection_of_acquires (x := x) hAcquires fun hTen => h.left v (Or.inl hTen)
    rw [hHolder]
    by_cases hl : l = .sec x
    · -- the section was free, and now it belongs to `v`
      subst hl
      rw [Function.update_self]
      by_cases hw : w = v
      · subst hw
        rw [Function.update_self]
        exact iff_of_true rfl (hHolds.mpr (Or.inr rfl))
      · rw [Function.update_of_ne hw, ← hBefore, hFree]
        exact iff_of_false (fun hv => hw (Option.some.inj hv).symm) (Option.some_ne_none w).symm
    · rw [Function.update_of_ne (Ne.symm hl), hBefore]
      by_cases hw : w = v
      · subst hw
        rw [Function.update_self, hHolds, or_iff_left hl]
      · rw [Function.update_of_ne hw]
  · obtain ⟨hHolds, hHeld⟩ := holdsSection_of_releases (x := x) hReleases
      fun h13 h15 => h.left v (Or.inr ⟨h13, h15⟩)
    rw [hHolder]
    by_cases hl : l = .sec x
    · have hMine : s.holder (.sec x) = some v := (hBefore v).mpr (hHeld hl)
      subst hl
      rw [if_pos hMine, Function.update_self]
      refine iff_of_false (Option.some_ne_none w).symm ?_
      by_cases hw : w = v
      · subst hw
        rw [Function.update_self, hHolds]
        exact fun hBoth => hBoth.2 rfl
      · rw [Function.update_of_ne hw, ← hBefore, hMine]
        exact fun hv => hw (Option.some.inj hv).symm
    · have hSame : (if s.holder l = some v then Function.update s.holder l none
          else s.holder) (.sec x) = s.holder (.sec x) := by
        split
        · exact Function.update_of_ne (Ne.symm hl) _ _
        · rfl
      rw [hSame, hBefore]
      by_cases hw : w = v
      · subst hw
        rw [Function.update_self, hHolds, and_iff_left hl]
      · rw [Function.update_of_ne hw]

theorem Consistent.step (h : Consistent vs s) (hStep : Step vs s v t) : Consistent vs t where
  left w hw := by
    obtain ⟨p, hPc, hEffect⟩ := step_cases hStep
    rw [hPc] at hw
    by_cases hv : w = v
    · subst hv
      rw [Function.update_self] at hw
      have hBefore := h.left w
      unfold Effect Quiet Acquires Releases at hEffect
      grind
    · rw [Function.update_of_ne hv] at hw
      exact h.left w hw
  sections := h.sections_step hStep
  truck r w hw := by
    obtain ⟨p, hPc, hEffect⟩ := step_cases hStep
    rw [hPc]
    rcases holder_of_effect hEffect hw with hHeld | ⟨rfl, hAcquires⟩
    · obtain ⟨hRoute, hLine⟩ := h.truck r w hHeld
      refine ⟨hRoute, ?_⟩
      by_cases hv : w = v
      · subst hv
        rw [Function.update_self]
        exact Nat.le_trans hLine (line_le_of_effect hEffect)
      · rwa [Function.update_of_ne hv]
    · rw [Function.update_self]
      unfold Acquires at hAcquires
      grind

theorem consistent_of_run {tr : List V} (h : Run (Step vs) init tr s) : Consistent vs s :=
  h.invariant (consistent_init vs) fun _ _ _ hInv hStep => hInv.step hStep

/-! ## Mutual exclusion -/

/-- The lines from `message_enter` for a section to `message_leave` for it. -/
def Inside (vs : Vehicles V) (s : State V) (v : V) (x : Section) : Prop :=
  (x = firstSection (vs.direction v) ∧ 9 ≤ (s.pc v).line ∧ (s.pc v).line ≤ 11) ∨
    (x = nextSection (vs.direction v) ∧ 13 ≤ (s.pc v).line ∧ (s.pc v).line ≤ 14)

/-- The sections that a vehicle enters. -/
def OnPath (vs : Vehicles V) (v : V) (x : Section) : Prop :=
  x = firstSection (vs.direction v) ∨ (vs.turn v = .left ∧ x = nextSection (vs.direction v))

/-- The lines from the first `message_enter` of a vehicle to its last `message_leave`. -/
def Crossing (vs : Vehicles V) (s : State V) (v : V) : Prop :=
  9 ≤ (s.pc v).line ∧
    match vs.turn v with
    | .left => (s.pc v).line ≤ 14
    | .right => (s.pc v).line ≤ 11

omit [DecidableEq V] in
theorem Consistent.holder_of_inside (h : Consistent vs s) {x : Section} (hIn : Inside vs s v x) :
    s.holder (.sec x) = some v := by
  rw [h.sections x v]
  rcases hIn with ⟨hx, hLow, hHigh⟩ | ⟨hx, hLow, hHigh⟩
  · exact Or.inl ⟨by omega, by omega, hx⟩
  · exact Or.inr ⟨h.left v (Or.inr ⟨hLow, by omega⟩), by omega, by omega, hx⟩

omit [DecidableEq V] in
theorem Consistent.holds_of_crossing (h : Consistent vs s) (hCross : Crossing vs s v) :
    ∃ x, OnPath vs v x ∧ s.holder (.sec x) = some v := by
  obtain ⟨hLow, hHigh⟩ := hCross
  by_cases hFirst : (s.pc v).line ≤ 12
  · refine ⟨firstSection (vs.direction v), Or.inl rfl, ?_⟩
    exact (h.sections _ v).mpr (Or.inl ⟨by omega, hFirst, rfl⟩)
  · cases hTurn : vs.turn v with
    | left =>
      rw [hTurn] at hHigh
      dsimp only at hHigh
      refine ⟨nextSection (vs.direction v), Or.inr ⟨hTurn, rfl⟩, ?_⟩
      exact (h.sections _ v).mpr (Or.inr ⟨hTurn, by omega, by omega, rfl⟩)
    | right =>
      rw [hTurn] at hHigh
      dsimp only at hHigh
      omega

/-- In every interleaving at most one vehicle is in a section, and a vehicle on its way
through the intersection always holds the lock of a section of its path. -/
theorem mutual_exclusion (vs : Vehicles V) {tr : List V} (h : Run (Step vs) init tr s) :
    (∀ x v w, Inside vs s v x → Inside vs s w x → v = w) ∧
      ∀ v, Crossing vs s v → ∃ x, OnPath vs v x ∧ s.holder (.sec x) = some v := by
  have hCons := consistent_of_run h
  constructor
  · intro x v w hv hw
    have hSame := (hCons.holder_of_inside hv).symm.trans (hCons.holder_of_inside hw)
    exact Option.some.inj hSame
  · intro v hv
    exact hCons.holds_of_crossing hv

/-- Two left turns from route A, a car and a truck. -/
def carAndTruck : Vehicles Bool where
  direction _ := .A
  turn _ := .left
  type v := if v then .truck else .car

/-- The car enters AB while the truck waits for `lockAB`. -/
theorem mutual_exclusion_carAndTruck :
    ∃ s, s.pc false = .acquireNext ∧ s.pc true = .acquireFirst ∧
      (∀ x v w, Inside carAndTruck s v x → Inside carAndTruck s w x → v = w) ∧
      ∀ v, Crossing carAndTruck s v → ∃ x, OnPath carAndTruck v x ∧ s.holder (.sec x) = some v :=
  ⟨_, rfl, rfl, mutual_exclusion carAndTruck
    (show Run _ _ (List.replicate 10 false ++ [true, true]) _
      from Run.of_foldlM rfl)⟩

end Windborne.OS161.Stoplight
