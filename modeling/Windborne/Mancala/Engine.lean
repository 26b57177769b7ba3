import Mathlib.Data.Int.Basic

/-!
# The Mancala rules of `mancala.lisp`

Boards are simple vectors of integers, read and written by `svref`. An index outside the
vector signals an error, so a successful result also says that every index used on the
way was inside the board. `Rules` collects the four parameters of a game. The variables
are the parameters `*num-pits*` (at least one), `*initial-stones-per-pit*`,
`*go-again-rule*` and `*big-win-rule*`; the printing functions have no counterpart.
-/

namespace Windborne.Mancala

/-! ## Lisp vectors -/

/-- The errors that the modelled functions can signal. -/
inductive LispError where
  | invalidIndex (index : Int)
  | unboundVariable (name : String)
  deriving DecidableEq, Repr

abbrev Result := Except LispError

def svref (board : List Int) (index : Int) : Result Int :=
  if 0 ≤ index then
    match board[index.toNat]? with
    | some stones => .ok stones
    | none => .error (.invalidIndex index)
  else .error (.invalidIndex index)

/-- `(setf (svref board index) value)`, returning the changed copy. -/
def setSvref (board : List Int) (index value : Int) : Result (List Int) :=
  if 0 ≤ index ∧ index.toNat < board.length then .ok (board.set index.toNat value)
  else .error (.invalidIndex index)

/-! ## Constants and parameters -/

def player1 : Int := 0

def player2 : Int := 1

def maxWins : Int := 10000

def minWins : Int := -10000

/-- The parameters of a game. -/
structure Rules where
  numPits : Nat
  initialStonesPerPit : Nat
  goAgainRule : Bool
  bigWinRule : Bool
  numPits_pos : 0 < numPits

/-- The values of the `defparameter` forms. -/
def defaultRules : Rules where
  numPits := 6
  initialStonesPerPit := 4
  goAgainRule := true
  bigWinRule := true
  numPits_pos := by decide

/-! ## Board positions -/

def mancalaPit (R : Rules) (player : Int) : Int :=
  if player = player1 then R.numPits else 1 + 2 * R.numPits

def leftPit (R : Rules) (player : Int) : Int :=
  if player = player1 then 0 else 1 + R.numPits

/-- Not meant for mancala pits: at the mancala of player 2 it is `-1`. -/
def pitOpposite (R : Rules) (pit : Int) : Int := 2 * R.numPits - pit

def boardSize (R : Rules) : Int := 2 + 2 * R.numPits

def playerOwner (R : Rules) (pit : Int) : Int := pit.tdiv (1 + R.numPits)

def otherPlayer (player : Int) : Int := 1 - player

/-! ## Game states -/

structure State where
  board : List Int
  turn : Int
  deriving DecidableEq, Repr

def gameOverp (R : Rules) (st : State) : Result Bool :=
  let initialPit := leftPit R st.turn
  (List.range R.numPits).allM fun (x : Nat) => do return (← svref st.board (x + initialPit)) == 0

/-- `none` is the missing optional argument. -/
def score (R : Rules) (st : State) (player : Option Int) : Result Int := do
  let leftPlayer := match player with
    | none => st.turn
    | some player => if player = player1 then player1 else player2
  let mine ← svref st.board (mancalaPit R leftPlayer)
  let theirs ← svref st.board (mancalaPit R (otherPlayer leftPlayer))
  return mine - theirs

def initState (R : Rules) (firstPlayer : Int) : State where
  board := (List.range (boardSize R).toNat).map fun (x : Nat) =>
    if (x : Int) ≠ mancalaPit R player2 ∧ (x : Int) ≠ mancalaPit R player1 then
      (R.initialStonesPerPit : Int)
    else 0
  turn := firstPlayer

/-! ## Moves -/

/-- The position sown from, the skipped mancala and the mover's own mancala. -/
def pitIndices (R : Rules) (playerTurn n : Int) : Int × Int × Int :=
  if playerTurn = player1 then
    (n + leftPit R player1, mancalaPit R player2, mancalaPit R player1)
  else
    (n + leftPit R player2, mancalaPit R player1, mancalaPit R player2)

/-- One step of the sowing loop: the next position, after the skip test and then the wrap
test. -/
def advance (R : Rules) (skipMancala curPos : Int) : Int :=
  let curPos := curPos + 1
  let curPos := if curPos = skipMancala then curPos + 1 else curPos
  if curPos = boardSize R then 0 else curPos

/-- The sowing loop over the stones in hand. -/
def sow (R : Rules) (skipMancala : Int) : Nat → List Int → Int → Result (List Int × Int)
  | 0, board, curPos => return (board, curPos)
  | stones + 1, board, curPos => do
    let curPos := advance R skipMancala curPos
    let board ← setSvref board curPos ((← svref board curPos) + 1)
    sow R skipMancala stones board curPos

/-- The big win: the opposite stones go to the mover's mancala. -/
def bigWin (R : Rules) (board : List Int) (curPos playerTurn myMancala : Int) :
    Result (List Int) := do
  if R.bigWinRule ∧ playerOwner R curPos = playerTurn then
    if (← svref board curPos) = 1 ∧ curPos ≠ myMancala then
      let oppositePit := pitOpposite R curPos
      let board ← setSvref board myMancala
        ((← svref board myMancala) + (← svref board oppositePit))
      setSvref board oppositePit 0
    else return board
  else return board

/-- The state after sowing pit `n` of the player to move; `none` for an empty pit. -/
def stateFromMove (R : Rules) (st : State) (n : Int) : Result (Option State) := do
  let playerTurn := st.turn
  let (curPos, skipMancala, myMancala) := pitIndices R playerTurn n
  let numstones ← svref st.board curPos
  if numstones = 0 then return none
  else
    let board ← setSvref st.board curPos 0
    let (board, curPos) ← sow R skipMancala numstones.toNat board curPos
    let board ← bigWin R board curPos playerTurn myMancala
    return some
      { board := board
        turn := if R.goAgainRule ∧ curPos = myMancala then playerTurn else 1 - playerTurn }

/-- The successors of a state, the last pit's first, as `push` leaves them. -/
def moves (R : Rules) (st : State) : Result (List State) :=
  (List.range R.numPits).foldlM
    (fun bag (x : Nat) => do
      match ← stateFromMove R st x with
      | some move => return move :: bag
      | none => return bag) []

/-! ## Well-formed states -/

/-- A board of the right length with no negative count, and one of the two players to
move. -/
structure WellFormed (R : Rules) (st : State) : Prop where
  length : (st.board.length : Int) = boardSize R
  nonneg : ∀ stones ∈ st.board, 0 ≤ stones
  turn : st.turn = player1 ∨ st.turn = player2

instance (R : Rules) (st : State) : Decidable (WellFormed R st) :=
  decidable_of_iff
    ((st.board.length : Int) = boardSize R ∧ (∀ stones ∈ st.board, 0 ≤ stones) ∧
      (st.turn = player1 ∨ st.turn = player2))
    ⟨fun h => ⟨h.1, h.2.1, h.2.2⟩, fun h => ⟨h.length, h.nonneg, h.turn⟩⟩

end Windborne.Mancala
