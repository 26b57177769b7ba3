import Mathlib.Algebra.BigOperators.Ring.List
import Windborne.Mancala.Conservation
import Windborne.Mancala.EndPit

/-!
# The evaluation and its capture bonus

`evaluate` fails on two kinds of states that are not over. When the maximising player is ahead
it reads a variable that does not exist. With the big-win rule it looks for the pit opposite the
end pit also when that is the mover's mancala, and there is none for player 2. The bonus for
captures is computed from the board before the move, on which a pit that the move will capture
with is empty, but it is given for pits that hold one stone.
-/

namespace Windborne.Mancala

open Library

/-! ## Where pits end -/

/-- The place in the mover's ring where the last stone of pit `x` falls. -/
def landing (R : Rules) (st : State) (x : Nat) : Nat := (x + (stonesIn R st x).toNat) % lap R

/-- The position there. -/
def landingPos (R : Rules) (st : State) (x : Nat) : Int := ringPos R st.turn (landing R st x)

/-- Player 2 ends in the mancala while it holds one stone. -/
def OverrunsAt (R : Rules) (st : State) (x : Nat) : Prop :=
  st.turn = player2 ∧ landing R st x = R.numPits ∧ entry st.board (mancalaPit R player2) = 1

/-- The big-win loop reads outside the board. -/
def Overruns (R : Rules) (st : State) : Prop :=
  R.bigWinRule = true ∧ ∃ x, x < R.numPits ∧ OverrunsAt R st x

/-- What the big-win loop counts for pit `x`: the stones opposite the end pit, if this holds
one stone and is not below the mover's first pit. -/
def predicted (R : Rules) (st : State) (x : Nat) : Int :=
  if leftPit R st.turn ≤ landingPos R st x ∧ entry st.board (landingPos R st x) = 1 then
    entry st.board (pitOpposite R (landingPos R st x))
  else 0

/-- The sign of a bonus. -/
def bonusSign (st : State) (maxPlayer : Int) : Int := if maxPlayer = st.turn then 1 else -1

variable {R : Rules} {st : State} {x : Nat}

theorem stopPos_eq_landingPos (hst : WellFormed R st) (hx : x < R.numPits) :
    stopPos R st x = landingPos R st x := by
  unfold stopPos landingPos landing
  rw [ringPos_mod, startPos_eq_ringPos hst hx, lastPos_ringPos hst.turn]

theorem endPit_eq_landingPos (hst : WellFormed R st) (hx : x < R.numPits) :
    endPit R st x = .ok (landingPos R st x) := by
  rw [← stopPos_eq_landingPos hst hx]
  exact endPit_eq hst (Int.natCast_nonneg x) (by exact_mod_cast hx)

theorem landing_lt (R : Rules) (st : State) (x : Nat) : landing R st x < lap R :=
  Nat.mod_lt _ (lap_pos R)

theorem landingPos_sowable (hst : WellFormed R st) (hx : x < R.numPits) :
    Sowable R (mancalaPit R (otherPlayer st.turn)) (landingPos R st x) := by
  rw [← stopPos_eq_landingPos hst hx]
  exact lastPos_sowable _ (ownPit_sowable hst.turn
    (startPos_ownPit st (Int.natCast_nonneg x) (by exact_mod_cast hx)))

theorem landingPos_cases (hst : WellFormed R st) (x : Nat) :
    (leftPit R st.turn + landing R st x < boardSize R ∧
      landingPos R st x = leftPit R st.turn + landing R st x) ∨
    (boardSize R ≤ leftPit R st.turn + landing R st x ∧
      landingPos R st x = leftPit R st.turn + landing R st x - boardSize R) := by
  have hRing := ringPos_cases (R := R) hst.turn (landing R st x)
  rw [Nat.mod_eq_of_lt (landing_lt R st x)] at hRing
  exact hRing

/-- The mancala of player 2 is the only end pit with nothing opposite. -/
theorem pitOpposite_neg_iff (hst : WellFormed R st) (x : Nat) :
    pitOpposite R (landingPos R st x) < 0 ↔ st.turn = player2 ∧ landing R st x = R.numPits := by
  have hRing := landingPos_cases hst x
  have hLess := landing_lt R st x
  have hLap : lap R = 2 * R.numPits + 1 := rfl
  unfold boardSize at hRing
  unfold pitOpposite
  rcases hst.turn with hTurn | hTurn
  · rw [hTurn] at hRing ⊢
    have hLeft : leftPit R player1 = 0 := rfl
    have hNot : ¬player1 = player2 := by decide
    simp only [hNot, false_and, iff_false]
    omega
  · rw [hTurn] at hRing ⊢
    have hLeft : leftPit R player2 = 1 + R.numPits := rfl
    simp only [true_and]
    omega

/-! ## The rounds of the loops -/

theorem goAgainRound_eq (hst : WellFormed R st) (maxPlayer acc : Int) (hx : x < R.numPits) :
    goAgainRound R st maxPlayer acc x = .ok (acc +
      if landingPos R st x = mancalaPit R st.turn then 2 * bonusSign st maxPlayer else 0) := by
  unfold goAgainRound bonusSign
  rw [endPit_eq_landingPos hst hx, ok_bind]
  split_ifs
  · rfl
  · rfl
  · rw [add_zero]
    rfl

theorem bigWinRound_eq (hst : WellFormed R st) (maxPlayer acc : Int) (hx : x < R.numPits) :
    bigWinRound R st maxPlayer acc x =
      if leftPit R st.turn ≤ landingPos R st x ∧ entry st.board (landingPos R st x) = 1 then do
        let stones ← svref st.board (pitOpposite R (landingPos R st x))
        if stones > 0 then return acc + bonusSign st maxPlayer * stones else return acc
      else .ok acc := by
  obtain ⟨h0, hSize, -⟩ := landingPos_sowable hst hx
  have hEnd := endPit_eq_landingPos hst hx
  generalize landingPos R st x = last at *
  unfold bigWinRound bonusSign
  simp only [hEnd, ok_bind, svref_ok h0 (hst.length ▸ hSize)]
  by_cases hLow : leftPit R st.turn ≤ last
  · rw [if_pos hLow]
    by_cases hOne : entry st.board last = 1
    · rw [if_pos hOne, if_pos ⟨hLow, hOne⟩]
      congr 1
      funext stones
      split_ifs <;> simp [sub_eq_add_neg]
    · rw [if_neg hOne, if_neg fun h => hOne h.2]
      rfl
  · rw [if_neg hLow, if_neg fun h => hLow h.1]
    rfl

theorem landingPos_of_overrunsAt (h : OverrunsAt R st x) :
    landingPos R st x = mancalaPit R player2 := by
  unfold landingPos
  rw [h.1, h.2.1]
  exact ringPos_mancala (Or.inr rfl)

/-- Every other round adds what is predicted. -/
theorem bigWinRound_ok (hst : WellFormed R st) (maxPlayer acc : Int) (hx : x < R.numPits)
    (hNot : ¬OverrunsAt R st x) :
    bigWinRound R st maxPlayer acc x = .ok (acc + bonusSign st maxPlayer * predicted R st x) := by
  rw [bigWinRound_eq hst maxPlayer acc hx, predicted]
  by_cases hOne : leftPit R st.turn ≤ landingPos R st x ∧ entry st.board (landingPos R st x) = 1
  · obtain ⟨h0, -, -⟩ := landingPos_sowable hst hx
    have hNonneg : 0 ≤ pitOpposite R (landingPos R st x) := by
      by_contra hNeg
      obtain ⟨hTurn, hLanding⟩ := (pitOpposite_neg_iff hst x).mp (not_le.mp hNeg)
      apply hNot
      refine ⟨hTurn, hLanding, ?_⟩
      rw [← hOne.2, landingPos, hTurn, hLanding, ringPos_mancala (Or.inr rfl)]
    have hRoom : pitOpposite R (landingPos R st x) < st.board.length := by
      rw [hst.length]
      unfold pitOpposite boardSize
      omega
    have hStones := entry_nonneg hst.nonneg (pitOpposite R (landingPos R st x))
    rw [if_pos hOne, if_pos hOne, svref_ok hNonneg hRoom, ok_bind]
    split
    · rfl
    · rename_i hNone
      rw [le_antisymm (not_lt.mp hNone) hStones, mul_zero, add_zero]
      rfl
  · rw [if_neg hOne, if_neg hOne, mul_zero, add_zero]

theorem bigWinRound_error (hst : WellFormed R st) (maxPlayer acc : Int) (hx : x < R.numPits)
    (h : OverrunsAt R st x) : ∃ e, bigWinRound R st maxPlayer acc x = .error e := by
  have hNeg := (pitOpposite_neg_iff hst x).mpr ⟨h.1, h.2.1⟩
  have hOne : leftPit R st.turn ≤ landingPos R st x ∧ entry st.board (landingPos R st x) = 1 := by
    rw [landingPos_of_overrunsAt h, h.1, mancalaPit_eq]
    constructor
    · omega
    · rw [← mancalaPit_eq]
      exact h.2.2
  have hRead : svref st.board (pitOpposite R (landingPos R st x)) =
      .error (.invalidIndex (pitOpposite R (landingPos R st x))) := if_neg (not_le.mpr hNeg)
  rw [bigWinRound_eq hst maxPlayer acc hx, if_pos hOne, hRead]
  exact ⟨_, rfl⟩

/-! ## The loops -/

/-- The go-again loop of `evaluate`, from the score that it starts with. -/
def goAgainLoop (R : Rules) (st : State) (maxPlayer heuristicScore : Int) : Result Int :=
  if R.goAgainRule then
    (List.range R.numPits).foldlM (goAgainRound R st maxPlayer) heuristicScore
  else pure heuristicScore

/-- The big-win loop of `evaluate`, from the score that it starts with. -/
def bigWinLoop (R : Rules) (st : State) (maxPlayer heuristicScore : Int) : Result Int :=
  if R.bigWinRule then
    (List.range R.numPits).foldlM (bigWinRound R st maxPlayer) heuristicScore
  else pure heuristicScore

theorem evaluate_eq_loops (R : Rules) (st : State) (maxPlayer : Int) :
    evaluate R st maxPlayer = (do
      let heuristicScore ← score R st (some maxPlayer)
      if ← gameOverp R st then
        if (← score R st (some maxPlayer)) > 0 then return maxWins else return minWins
      else
        let heuristicScore ← goAgainLoop R st maxPlayer heuristicScore
        let heuristicScore ← bigWinLoop R st maxPlayer heuristicScore
        let stones ← sideTotal R st none
        if (← score R st (some maxPlayer)) > 0 then
          let _stones ← (List.range R.numPits).foldlM (aheadRound st) stones
          return heuristicScore
        else return heuristicScore) := by
  unfold evaluate goAgainLoop bigWinLoop
  by_cases hGoAgain : R.goAgainRule = true
  · by_cases hBigWin : R.bigWinRule = true
    · simp only [hGoAgain, hBigWin, if_true]
    · simp only [hGoAgain, hBigWin, if_true]
      rfl
  · by_cases hBigWin : R.bigWinRule = true
    · simp only [hGoAgain, hBigWin, if_true]
      rfl
    · simp only [hGoAgain, hBigWin]
      rfl

/-- All that the loop counts. -/
def predictedTotal (R : Rules) (st : State) : Int :=
  ((List.range R.numPits).map (predicted R st)).sum

theorem bigWinLoop_ok (hst : WellFormed R st) (maxPlayer start : Int) (hNot : ¬Overruns R st) :
    bigWinLoop R st maxPlayer start = .ok (start +
      if R.bigWinRule then bonusSign st maxPlayer * predictedTotal R st else 0) := by
  unfold bigWinLoop
  by_cases hRule : R.bigWinRule = true
  · have hRounds : ∀ x ∈ List.range R.numPits, ∀ acc, bigWinRound R st maxPlayer acc x =
        .ok (acc + bonusSign st maxPlayer * predicted R st x) := by
      intro x hx acc
      have hLess := List.mem_range.mp hx
      exact bigWinRound_ok hst maxPlayer acc hLess fun hAt => hNot ⟨hRule, x, hLess, hAt⟩
    rw [if_pos hRule, if_pos hRule, foldlM_add hRounds, List.sum_map_mul_left]
    rfl
  · rw [if_neg hRule, if_neg hRule, add_zero]
    rfl

theorem bigWinLoop_error (hst : WellFormed R st) (maxPlayer start : Int) (h : Overruns R st) :
    ∃ e, bigWinLoop R st maxPlayer start = .error e := by
  obtain ⟨hRule, x, hx, hAt⟩ := h
  unfold bigWinLoop
  rw [if_pos hRule]
  exact foldlM_error (List.mem_range.mpr hx)
    (fun acc => bigWinRound_error hst maxPlayer acc hx hAt) start

theorem goAgainLoop_ok (hst : WellFormed R st) (maxPlayer start : Int) :
    ∃ v, goAgainLoop R st maxPlayer start = .ok v := by
  have hRounds : ∀ x ∈ List.range R.numPits, ∀ acc, goAgainRound R st maxPlayer acc x = .ok (acc +
      if landingPos R st x = mancalaPit R st.turn then 2 * bonusSign st maxPlayer else 0) :=
    fun x hx acc => goAgainRound_eq hst maxPlayer acc (List.mem_range.mp hx)
  unfold goAgainLoop
  split
  · exact ⟨_, foldlM_add hRounds start⟩
  · exact ⟨start, rfl⟩

theorem sideTotal_ok (hst : WellFormed R st) (player : Option Int) :
    ∃ v, sideTotal R st player = .ok v := by
  refine ⟨_, foldlM_add (g := fun (i : Nat) => entry st.board i) ?_ 0⟩
  intro i hi total
  have hLess := List.mem_range.mp hi
  have hSize : (i : Int) < st.board.length := by
    rw [hst.length]
    unfold boardSize
    omega
  rw [svref_ok (Int.natCast_nonneg i) hSize]
  rfl

theorem aheadLoop_error (R : Rules) (st : State) (stones : Int) :
    ∃ e, (List.range R.numPits).foldlM (aheadRound st) stones = .error e := by
  have hRound : ∀ acc, ∃ e, aheadRound st acc 0 = .error e := fun _ => ⟨_, rfl⟩
  exact foldlM_error (List.mem_range.mpr R.numPits_pos) hRound stones

/-! ## When the evaluation is safe -/

/-- The stones that a player is ahead. -/
def lead (R : Rules) (st : State) (player : Int) : Int :=
  entry st.board (mancalaPit R player) - entry st.board (mancalaPit R (otherPlayer player))

theorem evaluate_eq (hst : WellFormed R st) {maxPlayer : Int}
    (hMax : maxPlayer = player1 ∨ maxPlayer = player2) (hOver : gameOver R st = false) :
    ∃ start stones, evaluate R st maxPlayer = (do
      let heuristicScore ← bigWinLoop R st maxPlayer start
      if lead R st maxPlayer > 0 then
        let _stones ← (List.range R.numPits).foldlM (aheadRound st) stones
        return heuristicScore
      else return heuristicScore) := by
  obtain ⟨start, hStart⟩ := goAgainLoop_ok hst maxPlayer (lead R st maxPlayer)
  obtain ⟨stones, hStones⟩ := sideTotal_ok hst none
  refine ⟨start, stones, ?_⟩
  have hScore : score R st (some maxPlayer) = .ok (lead R st maxPlayer) := score_spec hst hMax
  rw [evaluate_eq_loops, hScore, gameOverp_spec hst, hOver]
  simp only [ok_bind, hStart, hStones, Bool.false_eq_true, if_false]

/-- **The evaluation is safe** on the states that are over, and where the maximising player is
not ahead and player 2 ends in no mancala with one stone. -/
theorem evaluate_safe_iff (R : Rules) {first maxPlayer : Int} {ns : List Int} {st : State}
    (hFirst : first = player1 ∨ first = player2)
    (hMax : maxPlayer = player1 ∨ maxPlayer = player2)
    (hRun : Run (Move R) (initState R first) ns st) :
    (∃ v, evaluate R st maxPlayer = .ok v) ↔
      gameOver R st = true ∨ lead R st maxPlayer ≤ 0 ∧ ¬Overruns R st := by
  have hst := (wellFormed_of_run R hFirst hRun).1
  cases hOver : gameOver R st with
  | true =>
    have hScore : score R st (some maxPlayer) = .ok (lead R st maxPlayer) := score_spec hst hMax
    rw [evaluate_eq_loops, hScore, gameOverp_spec hst, hOver]
    simp only [ok_bind, if_true, true_or, iff_true]
    split
    · exact ⟨_, rfl⟩
    · exact ⟨_, rfl⟩
  | false =>
    obtain ⟨start, stones, hEq⟩ := evaluate_eq hst hMax hOver
    rw [hEq]
    simp only [Bool.false_eq_true, false_or]
    constructor
    · rintro ⟨v, hv⟩
      obtain ⟨heuristicScore, hLoop, hRest⟩ := bind_eq_ok.mp hv
      constructor
      · by_contra hAhead
        rw [if_pos (not_le.mp hAhead)] at hRest
        obtain ⟨total, hFold, -⟩ := bind_eq_ok.mp hRest
        obtain ⟨e, he⟩ := aheadLoop_error R st stones
        rw [he] at hFold
        cases hFold
      · intro hOverruns
        obtain ⟨e, he⟩ := bigWinLoop_error hst maxPlayer start hOverruns
        rw [he] at hLoop
        cases hLoop
    · rintro ⟨hLead, hNot⟩
      rw [bigWinLoop_ok hst maxPlayer start hNot, ok_bind, if_neg (not_lt.mpr hLead)]
      exact ⟨_, rfl⟩

/-- One pit with one stone a side, and no extra rules. -/
def plainRules : Rules where
  numPits := 1
  initialStonesPerPit := 1
  goAgainRule := false
  bigWinRule := false
  numPits_pos := Nat.one_pos

/-- After the first move player 1 is ahead, and the evaluation for player 1 fails. -/
theorem evaluate_reads_unbound : ∃ st,
    Run (Move plainRules) (initState plainRules player1) [0] st ∧
      gameOverp plainRules st = .ok false ∧
      evaluate plainRules st player1 = .error (.unboundVariable "s") :=
  ⟨⟨[0, 1, 1, 0], player2⟩, Run.single ⟨by decide, by decide, by decide⟩, by decide, by decide⟩

/-- At the start of the default game nobody is ahead. -/
theorem evaluate_safe_iff_default :
    ∃ v, evaluate defaultRules (initState defaultRules player1) player1 = .ok v := by
  apply (evaluate_safe_iff defaultRules (Or.inl rfl) (Or.inl rfl) .refl).mpr
  right
  refine ⟨by decide, ?_⟩
  rintro ⟨-, x, -, hTurn, -⟩
  exact absurd hTurn (by decide)

end Windborne.Mancala
