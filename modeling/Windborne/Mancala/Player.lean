import Windborne.Mancala.AlphaBeta

/-!
# The computer player of `Nick-Wilfong.lisp`

`evaluate` and `computer-make-move`, errors included: `evaluate` reads the variable `s`,
which is bound nowhere, when the game is not over and the maximising player is ahead.
`print` has no counterpart.
-/

namespace Windborne.Mancala

/-! ## Helpers of the evaluation -/

/-- The position reached by sowing pit `pit` of the player to move. -/
def endPit (R : Rules) (st : State) (pit : Int) : Result Int := do
  let (curPos, skipMancala) :=
    if st.turn = player1 then (pit + leftPit R player1, mancalaPit R player2)
    else (pit + leftPit R player2, mancalaPit R player1)
  let numstones ← svref st.board curPos
  if numstones = 0 then return curPos
  else
    let board ← setSvref st.board curPos 0
    let (_, curPos) ← sow R skipMancala numstones.toNat board curPos
    return curPos

/-- The loop starts at position 0 for either player. -/
def sideTotal (R : Rules) (st : State) (_player : Option Int) : Result Int :=
  (List.range R.numPits).foldlM (fun total (i : Nat) => do return total + (← svref st.board i)) 0

/-- One round of the go-again loop. -/
def goAgainRound (R : Rules) (st : State) (maxPlayer heuristicScore : Int) (x : Nat) :
    Result Int := do
  if (← endPit R st x) = mancalaPit R st.turn then
    if maxPlayer = st.turn then return heuristicScore + 2 else return heuristicScore - 2
  else return heuristicScore

/-- One round of the big-win loop. The source's upper bound on the end pit compares nothing
and always holds, so the mover's mancala is let through. -/
def bigWinRound (R : Rules) (st : State) (maxPlayer heuristicScore : Int) (x : Nat) :
    Result Int := do
  if (← endPit R st x) ≥ leftPit R st.turn then
    if (← svref st.board (← endPit R st x)) = 1 then
      let stones ← svref st.board (pitOpposite R (← endPit R st x))
      if stones > 0 then
        if maxPlayer = st.turn then return heuristicScore + stones
        else return heuristicScore - stones
      else return heuristicScore
    else return heuristicScore
  else return heuristicScore

/-- One round of the last loop, which reads the unbound variable `s`. -/
def aheadRound (st : State) (stones : Int) (_x : Nat) : Result Int := do
  let s ← .error (.unboundVariable "s")
  return stones + (← svref st.board s)

/-! ## The evaluation -/

def evaluate (R : Rules) (st : State) (maxPlayer : Int) : Result Int := do
  let heuristicScore ← score R st (some maxPlayer)
  if ← gameOverp R st then
    if (← score R st (some maxPlayer)) > 0 then return maxWins else return minWins
  else
    let heuristicScore ←
      if R.goAgainRule then
        (List.range R.numPits).foldlM (goAgainRound R st maxPlayer) heuristicScore
      else pure heuristicScore
    let heuristicScore ←
      if R.bigWinRule then
        (List.range R.numPits).foldlM (bigWinRound R st maxPlayer) heuristicScore
      else pure heuristicScore
    let stones ← sideTotal R st none
    if (← score R st (some maxPlayer)) > 0 then
      let _stones ← (List.range R.numPits).foldlM (aheadRound st) stones
      return heuristicScore
    else return heuristicScore

/-! ## The move -/

/-- The `dolist` over the moves, with the best state and the best score so far. -/
def bestLoop (search : State → Result Int) :
    List State → Option State → Int → Result (Option State)
  | [], bestState, _ => return bestState
  | c :: childs, bestState, bestScore => do
    let curScore ← search c
    if curScore > bestScore then bestLoop search childs (some c) curScore
    else bestLoop search childs bestState bestScore

/-- `computer-make-move` with the evaluation function as a parameter. -/
def computerMakeMoveWith (R : Rules) (evaluate : State → Int → Result Int) (st : State)
    (maxDepth : Int) : Result (Option State) := do
  let childs ← moves R st
  if ← gameOverp R st then return none
  else
    bestLoop (fun c => alphaBeta c 0 maxDepth st.turn (moves R) (gameOverp R) evaluate
      minWins maxWins) childs none minWins

def computerMakeMove (R : Rules) (st : State) (maxDepth : Int) : Result (Option State) :=
  computerMakeMoveWith R (evaluate R) st maxDepth

end Windborne.Mancala
