import Windborne.Mancala.Evaluation

/-!
# The capture bonus and the captures

A move captures when its last stone falls into a pit of the mover that was empty, or, after
exactly one lap, back into the pit that was sown. `evaluate` gives its bonus for end pits that
hold one stone before the move. No move is of both kinds, so the bonus is right only where the
two totals happen to be the same.
-/

namespace Windborne.Mancala

open Library

/-- The stones that the move of pit `x` takes by the big-win rule: by how much the rule raises
the mover's mancala. -/
def takenStones (R : Rules) (st : State) (x : Nat) : Int :=
  match stateFromMove R st x, stateFromMove (R.withBigWin false) st x with
  | .ok (some won), .ok (some kept) =>
    entry won.board (mancalaPit R st.turn) - entry kept.board (mancalaPit R st.turn)
  | _, _ => 0

/-- The amount added in the big-win loop is what the moves take, with the sign of the mover. -/
def BonusMatches (R : Rules) (st : State) (maxPlayer : Int) : Prop :=
  ∀ start, bigWinLoop R st maxPlayer start =
    .ok (start + bonusSign st maxPlayer * ((List.range R.numPits).map (takenStones R st)).sum)

/-- What pit `x` captures, from the board before the move: it is sown for exactly one lap, or
for less and into an empty pit. On the way round it has added a stone to those opposite. -/
def captured (R : Rules) (st : State) (x : Nat) : Int :=
  let stones := (stonesIn R st x).toNat
  if 0 < stones ∧ landing R st x < R.numPits ∧
      (stones = lap R ∨ stones < lap R ∧ entry st.board (landingPos R st x) = 0) then
    entry st.board (pitOpposite R (landingPos R st x)) + if lap R ≤ x + stones then 1 else 0
  else 0

def capturedTotal (R : Rules) (st : State) : Int :=
  ((List.range R.numPits).map (captured R st)).sum

variable {R : Rules} {st : State} {x : Nat}

/-! ## What a move captures -/

theorem ownPit_landingPos_iff (hst : WellFormed R st) (x : Nat) :
    OwnPit R st.turn (landingPos R st x) ↔ landing R st x < R.numPits := by
  have hSides := leftPit_cases R hst.turn
  have hRing := landingPos_cases hst x
  have hLess := landing_lt R st x
  have hLap : lap R = 2 * R.numPits + 1 := rfl
  unfold boardSize at hRing
  unfold OwnPit
  rw [mancalaPit_eq]
  omega

/-- The distance of the last stone, as a number from 1 to a whole lap. -/
theorem landingPos_eq_atDistance (hst : WellFormed R st) (hx : x < R.numPits) {d : Nat}
    (hd : d ≡ (stonesIn R st x).toNat [MOD lap R]) :
    landingPos R st x = atDistance R st x d := by
  rw [← stopPos_eq_landingPos hst hx, stopPos_eq hst hx, atDistance, atDistance,
    ringPos_eq_iff hst.turn]
  exact ((Nat.mod_modEq _ _).trans hd.symm).add_left x

/-- The pit of the last stone holds one stone just if the sowing takes one lap, or less and
the pit was empty. -/
theorem entry_landingPos_eq_one_iff (hst : WellFormed R st) (hx : x < R.numPits)
    {sown : List Int} (h : Dealt R st x sown) (hs : 0 < (stonesIn R st x).toNat) :
    entry sown (landingPos R st x) = 1 ↔ (stonesIn R st x).toNat = lap R ∨
      (stonesIn R st x).toNat < lap R ∧ entry st.board (landingPos R st x) = 0 := by
  have hBoard := entry_nonneg hst.nonneg (landingPos R st x)
  have hMod := Nat.mod_lt (stonesIn R st x).toNat (lap_pos R)
  by_cases hFull : (stonesIn R st x).toNat % lap R = 0
  · have hAt : landingPos R st x = atDistance R st x (lap R) :=
      landingPos_eq_atDistance hst hx (by rw [Nat.ModEq, Nat.mod_self, hFull])
    have hRing := h.ring (lap R) (lap_pos R) le_rfl
    rw [← hAt, if_pos rfl, dealt, hFull, if_neg (by omega)] at hRing
    generalize (stonesIn R st x).toNat = stones at *
    have hMul : lap R * (stones / lap R) = stones :=
      Nat.mul_div_cancel' (Nat.dvd_of_mod_eq_zero hFull)
    constructor
    · intro hOne
      left
      have hQuot : stones / lap R = 1 := by omega
      rw [← hMul, hQuot, Nat.mul_one]
    · rintro (hLap | ⟨hLess, -⟩)
      · rw [hRing, hLap, Nat.div_self (lap_pos R)]
        rfl
      · rw [Nat.mod_eq_of_lt hLess] at hFull
        omega
  · have hAt : landingPos R st x = atDistance R st x ((stonesIn R st x).toNat % lap R) :=
      landingPos_eq_atDistance hst hx (Nat.mod_modEq _ _)
    have hRing := h.ring _ (by omega) hMod.le
    rw [← hAt, if_neg hMod.ne, dealt, if_pos le_rfl] at hRing
    generalize (stonesIn R st x).toNat = stones at *
    constructor
    · intro hOne
      generalize hQuot : stones / lap R = quot at hRing
      have hNone : quot = 0 := by omega
      exact Or.inr ⟨Nat.lt_of_div_eq_zero (lap_pos R) (hQuot.trans hNone), by omega⟩
    · rintro (hLap | ⟨hLess, hEmpty⟩)
      · rw [hLap, Nat.mod_self] at hFull
        exact absurd rfl hFull
      · rw [hRing, hEmpty, Nat.div_eq_of_lt hLess]
        rfl

/-- The pit opposite is on the way of the move just if this goes past the end of a lap. -/
theorem entry_opposite (hst : WellFormed R st) (hx : x < R.numPits) {sown : List Int}
    (h : Dealt R st x sown) (hOwn : landing R st x < R.numPits)
    (hStones : (stonesIn R st x).toNat ≤ lap R) :
    entry sown (pitOpposite R (landingPos R st x)) =
      entry st.board (pitOpposite R (landingPos R st x)) +
        if lap R ≤ x + (stonesIn R st x).toNat then 1 else 0 := by
  have hLap : lap R = 2 * R.numPits + 1 := rfl
  have hAt : pitOpposite R (landingPos R st x) =
      atDistance R st x (2 * R.numPits - landing R st x - x) := by
    have hSides := leftPit_cases R hst.turn
    have hRing := landingPos_cases hst x
    have hFar : x + (2 * R.numPits - landing R st x - x) = 2 * R.numPits - landing R st x := by
      omega
    have hMod : (2 * R.numPits - landing R st x) % lap R = 2 * R.numPits - landing R st x :=
      Nat.mod_eq_of_lt (by omega)
    have hOpposite := ringPos_cases (R := R) hst.turn (2 * R.numPits - landing R st x)
    rw [atDistance, hFar]
    rw [hMod] at hOpposite
    unfold boardSize at hRing hOpposite
    unfold pitOpposite
    omega
  have hRing := h.ring (2 * R.numPits - landing R st x - x) (by omega) (by omega)
  rw [← hAt, if_neg (by omega)] at hRing
  rw [hRing, dealt]
  congr 1
  have hLanding : landing R st x = (x + (stonesIn R st x).toNat) % lap R := rfl
  generalize (stonesIn R st x).toNat = stones at *
  rcases hStones.eq_or_lt with hFull | hLess
  · rw [hFull, Nat.mod_self, Nat.div_self (lap_pos R), if_neg (by omega), if_pos (by omega)]
    rfl
  · rw [Nat.mod_eq_of_lt hLess, Nat.div_eq_of_lt hLess]
    by_cases hPast : lap R ≤ x + stones
    · rw [Nat.mod_eq_sub_mod hPast, Nat.mod_eq_of_lt (by omega)] at hLanding
      rw [if_pos hPast, if_pos (by omega)]
      rfl
    · rw [Nat.mod_eq_of_lt (by omega)] at hLanding
      rw [if_neg hPast, if_neg (by omega)]
      rfl

/-- With the rule on a move takes what is captured. -/
theorem takenStones_eq_captured (hst : WellFormed R st) (hRule : R.bigWinRule = true)
    (hx : x < R.numPits) : takenStones R st x = captured R st x := by
  unfold takenStones captured
  dsimp only
  rcases stateFromMove_cases hst (Int.natCast_nonneg x) (by exact_mod_cast hx) with
    ⟨hEmpty, hNone⟩ | ⟨hPos, -⟩
  · rw [hNone, hEmpty]
    rfl
  · obtain ⟨sown, hSown, -, hOff, board, hWon, hTaken, hKept⟩ :=
      stateFromMove_withBigWin hst hx hPos
    rw [stopPos_eq_landingPos hst hx] at hTaken hKept
    rw [withBigWin_self hRule] at hWon
    have hDealt := hSown.dealt hst hx
    have hStones : 0 < (stonesIn R st x).toNat := by omega
    have hOne := entry_landingPos_eq_one_iff hst hx hDealt hStones
    have hOwn := ownPit_landingPos_iff hst x
    rw [hWon, hOff]
    dsimp only
    by_cases hCapture : OwnPit R st.turn (landingPos R st x) ∧
        entry sown (landingPos R st x) = 1
    · have hLess := hOwn.mp hCapture.1
      have hPart := hOne.mp hCapture.2
      have hMost : (stonesIn R st x).toNat ≤ lap R := by omega
      rw [if_pos ⟨hStones, hLess, hPart⟩, (hTaken hCapture).entries, if_pos rfl,
        entry_opposite hst hx hDealt hLess hMost]
      ring
    · have hNot : ¬(0 < (stonesIn R st x).toNat ∧ landing R st x < R.numPits ∧
          ((stonesIn R st x).toNat = lap R ∨
            (stonesIn R st x).toNat < lap R ∧ entry st.board (landingPos R st x) = 0)) :=
        fun h => hCapture ⟨hOwn.mpr h.2.1, hOne.mpr h.2.2⟩
      rw [if_neg hNot, hKept hCapture, sub_self]

/-- Without the rule it takes nothing. -/
theorem takenStones_eq_zero (hRule : R.bigWinRule = false) (x : Nat) :
    takenStones R st x = 0 := by
  unfold takenStones
  rw [withBigWin_self hRule]
  split
  · rename_i hWon hKept
    rw [hWon] at hKept
    cases hKept
    exact sub_self _
  · rfl

theorem sum_takenStones_of_off (st : State) (hRule : R.bigWinRule = false) :
    ((List.range R.numPits).map (takenStones R st)).sum = 0 := by
  apply List.sum_eq_zero
  intro v hv
  obtain ⟨x, -, rfl⟩ := List.mem_map.mp hv
  exact takenStones_eq_zero hRule x

theorem sum_takenStones_of_on (hst : WellFormed R st) (hRule : R.bigWinRule = true) :
    ((List.range R.numPits).map (takenStones R st)).sum = capturedTotal R st := by
  unfold capturedTotal
  congr 1
  apply List.map_congr_left
  intro x hx
  exact takenStones_eq_captured hst hRule (List.mem_range.mp hx)

/-! ## When the bonus is right -/

/-- A pit that captures is not predicted: before the move its end pit is empty, or is the pit
itself with a whole lap of stones. -/
theorem predicted_eq_zero (hst : WellFormed R st) (hx : x < R.numPits)
    (h : captured R st x ≠ 0) : predicted R st x = 0 := by
  have hHow : (stonesIn R st x).toNat = lap R ∨
      (stonesIn R st x).toNat < lap R ∧ entry st.board (landingPos R st x) = 0 := by
    by_contra hNot
    exact h (if_neg fun hAll => hNot hAll.2.2)
  apply if_neg
  rintro ⟨-, hOne⟩
  rcases hHow with hFull | ⟨-, hEmpty⟩
  · have hAt : landingPos R st x = startPos R st x := by
      rw [← atDistance_lap hst hx]
      exact landingPos_eq_atDistance hst hx (by rw [hFull])
    rw [hAt] at hOne
    have hStones : stonesIn R st x = 1 := hOne
    have hPits := R.numPits_pos
    rw [hStones] at hFull
    unfold lap at hFull
    omega
  · omega

/-- The prediction for a single pit is right just if there is nothing to predict. -/
theorem predicted_eq_captured_iff (hst : WellFormed R st) (hx : x < R.numPits) :
    predicted R st x = captured R st x ↔ predicted R st x = 0 ∧ captured R st x = 0 := by
  constructor
  · intro hEq
    by_cases hCaptured : captured R st x = 0
    · exact ⟨hEq.trans hCaptured, hCaptured⟩
    · exact absurd (hEq.symm.trans (predicted_eq_zero hst hx hCaptured)) hCaptured
  · rintro ⟨hPredicted, hCaptured⟩
    rw [hPredicted, hCaptured]

theorem bonusSign_cancel (st : State) (maxPlayer : Int) {a b : Int} :
    bonusSign st maxPlayer * a = bonusSign st maxPlayer * b ↔ a = b := by
  unfold bonusSign
  split <;> omega

/-- **The capture bonus** is right when the rule is off, and with the rule just where player 2
ends in no mancala with one stone and the predicted captures are as many as the real ones. -/
theorem bonusMatches_iff (hst : WellFormed R st) (maxPlayer : Int) :
    BonusMatches R st maxPlayer ↔
      (R.bigWinRule = true → ¬Overruns R st ∧ predictedTotal R st = capturedTotal R st) := by
  unfold BonusMatches
  cases hRule : R.bigWinRule with
  | false =>
    have hNot : ¬Overruns R st := fun h => Bool.false_ne_true (hRule.symm.trans h.1)
    rw [sum_takenStones_of_off st hRule, mul_zero]
    refine iff_of_true (fun start => ?_) (fun h => absurd h Bool.false_ne_true)
    rw [bigWinLoop_ok hst maxPlayer start hNot, hRule]
    rfl
  | true =>
    rw [sum_takenStones_of_on hst hRule]
    simp only [forall_const]
    constructor
    · intro h
      have hNot : ¬Overruns R st := by
        intro hOverruns
        obtain ⟨e, he⟩ := bigWinLoop_error hst maxPlayer 0 hOverruns
        rw [h 0] at he
        cases he
      refine ⟨hNot, ?_⟩
      have hLoop := bigWinLoop_ok hst maxPlayer 0 hNot
      rw [h 0, hRule, if_pos rfl] at hLoop
      have hEq := add_left_cancel (Except.ok.inj hLoop)
      exact ((bonusSign_cancel st maxPlayer).mp hEq).symm
    · rintro ⟨hNot, hEq⟩ start
      rw [bigWinLoop_ok hst maxPlayer start hNot, hRule, if_pos rfl, hEq]

/-- The move of one lap takes three stones, and there is no bonus for it. -/
theorem bonus_misses_lap : gameOverp lapRules lapState = .ok false ∧
    bigWinLoop lapRules lapState player1 0 = .ok 0 ∧ takenStones lapRules lapState 0 = 3 ∧
      ¬BonusMatches lapRules lapState player1 := by
  refine ⟨by decide, by decide, by decide, fun h => ?_⟩
  exact absurd (h 0) (by decide)

/-- At the start of the default game there is nothing to take. -/
theorem bonusMatches_iff_default :
    BonusMatches defaultRules (initState defaultRules player1) player1 := by
  apply (bonusMatches_iff (by decide) player1).mpr
  intro _
  refine ⟨?_, by decide⟩
  rintro ⟨-, x, -, hTurn, -⟩
  exact absurd hTurn (by decide)

end Windborne.Mancala
