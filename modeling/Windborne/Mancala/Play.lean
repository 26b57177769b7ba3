import Windborne.Mancala.Engine

/-!
# The game loops `play-game` and `tournament`

A move function gets the state and an environment of its own, such as the terminal the
human types on, and answers with a new state, with `none` for NIL, or with an error. The
loops are given fuel; running out of it is the outer `none`.
-/

namespace Windborne.Mancala

variable {ω : Type}

abbrev MoveFunc (ω : Type) := State → ω → Result (Option State × ω)

/-- The loop shared by `play-game` and `tournament`. It leaves at the first NIL. -/
def playLoop (move1 move2 : MoveFunc ω) : Nat → State → ω → Option (Result (State × ω))
  | 0, _, _ => none
  | fuel + 1, st, env =>
    match if st.turn = player1 then move1 st env else move2 st env with
    | .error e => some (.error e)
    | .ok (some newState, env) => playLoop move1 move2 fuel newState env
    | .ok (none, env) => some (.ok (st, env))

/-- The message that `play-game` prints at the end. -/
inductive Outcome where
  | humanWins (difference : Int)
  | computerWins (difference : Int)
  | draw
  deriving DecidableEq, Repr

def announce (R : Rules) (st : State) : Result Outcome := do
  let human ← score R st (some player1)
  if human > 0 then return .humanWins human
  else
    let computer ← score R st (some player2)
    if computer > 0 then return .computerWins computer else return .draw

def playGame (R : Rules) (humanMakeMove : MoveFunc ω) (maxDepth : Int)
    (computerMoveFunc : State → Int → ω → Result (Option State × ω)) (humanGoesFirst : Bool)
    (fuel : Nat) (env : ω) : Option (Result Outcome) := do
  let first := if humanGoesFirst then player1 else player2
  match ← playLoop humanMakeMove (fun st => computerMoveFunc st maxDepth) fuel
      (initState R first) env with
  | .error e => return .error e
  | .ok (st, _) => return announce R st

def tournament (R : Rules) (depth1 depth2 : Int)
    (func1 func2 : State → Int → ω → Result (Option State × ω)) (fuel : Nat) (env : ω) :
    Option (Result Int) := do
  let move1 : MoveFunc ω := fun st => func1 st depth1
  let move2 : MoveFunc ω := fun st => func2 st depth2
  match ← playLoop move1 move2 fuel (initState R player1) env with
  | .error e => return .error e
  | .ok (st, env) =>
    match score R st (some player1) with
    | .error e => return .error e
    | .ok total =>
      match ← playLoop move1 move2 fuel (initState R player2) env with
      | .error e => return .error e
      | .ok (st, _) => return do return total + (← score R st (some player1))

/-- Every state that the function answers with is a member of `moves`. -/
def ReturnsMoves (R : Rules) (move : MoveFunc ω) : Prop :=
  ∀ st env st' env', move st env = .ok (some st', env') →
    ∃ bag, moves R st = .ok bag ∧ st' ∈ bag

/-- The player to move asks its own function, so a loop asks one that returns moves. -/
theorem ReturnsMoves.alternate {R : Rules} {move1 move2 : MoveFunc ω} (h1 : ReturnsMoves R move1)
    (h2 : ReturnsMoves R move2) :
    ReturnsMoves R fun st env => if st.turn = player1 then move1 st env else move2 st env := by
  intro st env st' env' hMove
  dsimp only at hMove
  split at hMove
  · exact h1 st env st' env' hMove
  · exact h2 st env st' env' hMove

end Windborne.Mancala
