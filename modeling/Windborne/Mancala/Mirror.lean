import Mathlib.Data.List.Rotate
import Windborne.Mancala.Conservation

/-!
# Both sides of the board

Swapping the players turns the board by half a round and passes the turn. The rules are the
same from both sides, although the sowing loop skips and wraps at different places: what a
move does to a swapped state is the swap of what it does.
-/

namespace Windborne.Mancala

open Library

/-- The same position with the players in each other's place. -/
def swapPlayers (R : Rules) (st : State) : State where
  board := st.board.rotate (R.numPits + 1)
  turn := otherPlayer st.turn

/-- Where a position is after the swap. -/
def across (R : Rules) (i : Int) : Int :=
  if i < 1 + R.numPits then i + (1 + R.numPits) else i - (1 + R.numPits)

/-! ## Positions -/

theorem across_inj {R : Rules} {i j : Int} (hi0 : 0 ≤ i) (hi : i < boardSize R) (hj0 : 0 ≤ j)
    (hj : j < boardSize R) : across R i = across R j ↔ i = j := by
  unfold across
  unfold boardSize at hi hj
  split_ifs <;> omega

theorem across_leftPit {R : Rules} {player n : Int} (h : player = player1 ∨ player = player2)
    (h0 : 0 ≤ n) (hn : n ≤ R.numPits) :
    across R (n + leftPit R player) = n + leftPit R (otherPlayer player) := by
  have hSides := leftPit_cases R h
  unfold across
  split_ifs <;> omega

theorem across_mancalaPit {R : Rules} {player : Int} (h : player = player1 ∨ player = player2) :
    across R (mancalaPit R player) = mancalaPit R (otherPlayer player) := by
  rw [mancalaPit_eq, mancalaPit_eq, add_comm, across_leftPit h (Int.natCast_nonneg _) le_rfl,
    add_comm]

theorem across_advance {R : Rules} {player cur : Int}
    (h : player = player1 ∨ player = player2) (h0 : 0 ≤ cur) (hCur : cur < boardSize R) :
    advance R (mancalaPit R (otherPlayer player)) (across R cur) =
      across R (advance R (mancalaPit R player) cur) := by
  have hSides := leftPit_cases R h
  have hp := R.numPits_pos
  unfold boardSize at hCur
  unfold advance across boardSize
  rw [mancalaPit_eq, mancalaPit_eq R player]
  dsimp only
  split_ifs <;> omega

theorem ownPit_across {R : Rules} {player i : Int} (h : player = player1 ∨ player = player2)
    (h0 : 0 ≤ i) (hi : i < boardSize R) :
    OwnPit R (otherPlayer player) (across R i) ↔ OwnPit R player i := by
  have hSides := leftPit_cases R h
  unfold boardSize at hi
  unfold OwnPit across
  rw [mancalaPit_eq, mancalaPit_eq R player]
  split_ifs <;> omega

theorem pitOpposite_across {R : Rules} {player i : Int}
    (h : player = player1 ∨ player = player2) (hi : OwnPit R player i) :
    pitOpposite R (across R i) = across R (pitOpposite R i) := by
  have hSides := leftPit_cases R h
  unfold OwnPit at hi
  rw [mancalaPit_eq] at hi
  unfold pitOpposite across
  split_ifs <;> omega

/-- The path of a swapped move. -/
theorem path_across {R : Rules} {player : Int} (h : player = player1 ∨ player = player2)
    (stones : Nat) {cur : Int} (h0 : 0 ≤ cur) (hCur : cur < boardSize R) :
    path R (mancalaPit R (otherPlayer player)) stones (across R cur) =
      (path R (mancalaPit R player) stones cur).map (across R) := by
  induction stones generalizing cur with
  | zero => rfl
  | succ stones ih =>
    obtain ⟨hNext0, hNext, -⟩ := advance_sowable player h0 hCur
    rw [path, path, List.map_cons, across_advance h h0 hCur, ih hNext0 hNext]

theorem lastPos_across {R : Rules} {player : Int} (h : player = player1 ∨ player = player2)
    (stones : Nat) {cur : Int} (h0 : 0 ≤ cur) (hCur : cur < boardSize R) :
    lastPos R (mancalaPit R (otherPlayer player)) stones (across R cur) =
      across R (lastPos R (mancalaPit R player) stones cur) := by
  unfold lastPos
  rw [path_across h stones h0 hCur, List.getLastD_map]

/-! ## Boards -/

theorem weigh_rotate {R : Rules} (w : Int → Int) {board : List Int}
    (hLength : (board.length : Int) = boardSize R) :
    weigh w 0 (board.rotate (R.numPits + 1)) = weigh (fun i => w (across R i)) 0 board := by
  unfold boardSize at hLength
  have hLow : (board.take (R.numPits + 1)).length = R.numPits + 1 := by
    rw [List.length_take]
    omega
  have hHigh : (board.drop (R.numPits + 1)).length = R.numPits + 1 := by
    rw [List.length_drop]
    omega
  rw [List.rotate_eq_drop_append_take (by omega), weigh_append, hHigh]
  conv_rhs => rw [← List.take_append_drop (R.numPits + 1) board, weigh_append, hLow]
  rw [add_comm]
  congr 1
  · apply weigh_congr
    intro i hi
    rw [hLow] at hi
    unfold across
    rw [if_pos (by omega)]
    congr 1
    push_cast
    ring
  · apply weigh_congr
    intro i hi
    unfold across
    rw [if_neg (by push_cast; omega)]
    congr 1
    push_cast
    ring

theorem entry_rotate {R : Rules} {board : List Int} {i : Int}
    (hLength : (board.length : Int) = boardSize R) (h0 : 0 ≤ i) (hi : i < boardSize R) :
    entry (board.rotate (R.numPits + 1)) (across R i) = entry board i := by
  unfold entry
  rw [weigh_rotate _ hLength]
  apply weigh_congr
  intro j hj
  have hSame := across_inj (R := R) (i := 0 + (j : Int)) (by omega) (by omega) h0 hi
  unfold pick
  simp only [hSame]

theorem WellFormed.swapPlayers {R : Rules} {st : State} (h : WellFormed R st) :
    WellFormed R (swapPlayers R st) where
  length := by
    show ((st.board.rotate (R.numPits + 1)).length : Int) = boardSize R
    rw [List.length_rotate]
    exact h.length
  nonneg v hv := h.nonneg v (List.mem_rotate.mp hv)
  turn := otherPlayer_turn h.turn

/-! ## Moves -/

section

variable {R : Rules} {st st' : State} {n : Int}

theorem startPos_swap (hst : WellFormed R st) (h0 : 0 ≤ n) (hn : n < R.numPits) :
    startPos R (swapPlayers R st) n = across R (startPos R st n) :=
  (across_leftPit hst.turn h0 hn.le).symm

theorem stonesIn_swap (hst : WellFormed R st) (h0 : 0 ≤ n) (hn : n < R.numPits) :
    stonesIn R (swapPlayers R st) n = stonesIn R st n := by
  obtain ⟨hs0, hs, -⟩ := ownPit_sowable hst.turn (startPos_ownPit st h0 hn)
  unfold stonesIn
  rw [startPos_swap hst h0 hn]
  exact entry_rotate hst.length hs0 hs

theorem visited_swap (hst : WellFormed R st) (h0 : 0 ≤ n) (hn : n < R.numPits) :
    visited R (swapPlayers R st) n = (visited R st n).map (across R) := by
  obtain ⟨hs0, hs, -⟩ := ownPit_sowable hst.turn (startPos_ownPit st h0 hn)
  unfold visited
  rw [startPos_swap hst h0 hn, stonesIn_swap hst h0 hn]
  exact path_across (otherPlayer_turn hst.turn) _ hs0 hs

theorem stopPos_swap (hst : WellFormed R st) (h0 : 0 ≤ n) (hn : n < R.numPits) :
    stopPos R (swapPlayers R st) n = across R (stopPos R st n) := by
  obtain ⟨hs0, hs, -⟩ := ownPit_sowable hst.turn (startPos_ownPit st h0 hn)
  unfold stopPos
  rw [startPos_swap hst h0 hn, stonesIn_swap hst h0 hn]
  exact lastPos_across (otherPlayer_turn hst.turn) _ hs0 hs

theorem stopPos_sowable (hst : WellFormed R st) (h0 : 0 ≤ n) (hn : n < R.numPits) :
    Sowable R (mancalaPit R (otherPlayer st.turn)) (stopPos R st n) :=
  lastPos_sowable _ (ownPit_sowable hst.turn (startPos_ownPit st h0 hn))

theorem Sown.swapPlayers {sown : List Int} (h : Sown R st n sown) (hst : WellFormed R st)
    (h0 : 0 ≤ n) (hn : n < R.numPits) :
    Sown R (swapPlayers R st) n (sown.rotate (R.numPits + 1)) where
  length := by
    rw [List.length_rotate]
    exact h.length
  nonneg v hv := h.nonneg v (List.mem_rotate.mp hv)
  weigh w := by
    have hBoard : Library.weigh w 0 (Mancala.swapPlayers R st).board =
        Library.weigh (fun i => w (across R i)) 0 st.board := weigh_rotate w hst.length
    rw [weigh_rotate w h.length, h.weigh, hBoard, stonesIn_swap hst h0 hn, startPos_swap hst h0 hn,
      visited_swap hst h0 hn, List.map_map]
    rfl

theorem captures_swap {sown : List Int} (hPlayer : st.turn = player1 ∨ st.turn = player2)
    (hLength : (sown.length : Int) = boardSize R) {last : Int} (h0 : 0 ≤ last)
    (hLast : last < boardSize R) :
    Captures R (otherPlayer st.turn) (sown.rotate (R.numPits + 1)) (across R last) ↔
      Captures R st.turn sown last := by
  unfold Captures
  rw [ownPit_across hPlayer h0 hLast, entry_rotate hLength h0 hLast]

/-- **A swapped move.** -/
theorem Moved.swapPlayers (h : Moved R st n st') (hst : WellFormed R st) (h0 : 0 ≤ n)
    (hn : n < R.numPits) : Moved R (swapPlayers R st) n (swapPlayers R st') where
  wellFormed := h.wellFormed.swapPlayers
  turn := by
    obtain ⟨hs0, hs, -⟩ := stopPos_sowable hst h0 hn
    obtain ⟨hm0, hm, -⟩ := mancalaPit_sowable R hst.turn
    have hMine : stopPos R (Mancala.swapPlayers R st) n =
        mancalaPit R (Mancala.swapPlayers R st).turn ↔ stopPos R st n = mancalaPit R st.turn := by
      rw [stopPos_swap hst h0 hn]
      show _ = mancalaPit R (otherPlayer st.turn) ↔ _
      rw [← across_mancalaPit hst.turn, across_inj hs0 hs hm0 hm]
    simp only [hMine]
    show otherPlayer st'.turn = if _ then otherPlayer st.turn else 1 - otherPlayer st.turn
    rw [h.turn]
    split_ifs
    · rfl
    · rfl
  board := by
    obtain ⟨hs0, hs, -⟩ := stopPos_sowable hst h0 hn
    obtain ⟨sown, hSown, hBoard⟩ := h.board
    refine ⟨sown.rotate (R.numPits + 1), hSown.swapPlayers hst h0 hn, ?_⟩
    rw [stopPos_swap hst h0 hn]
    show (¬Captures R (otherPlayer st.turn) _ _ ∧ st'.board.rotate _ = _) ∨
      (Captures R (otherPlayer st.turn) _ _ ∧ ∀ w, _)
    rw [captures_swap hst.turn hSown.length hs0 hs]
    rcases hBoard with ⟨hNot, hEq⟩ | ⟨hCap, hWeigh⟩
    · left
      rw [hEq]
      exact ⟨hNot, rfl⟩
    · right
      refine ⟨hCap, fun w => ?_⟩
      obtain ⟨ho0, ho, -⟩ :=
        ownPit_sowable (otherPlayer_turn hst.turn) (pitOpposite_ownPit hst.turn hCap.2.1)
      show Library.weigh w 0 (st'.board.rotate _) =
        _ + _ * (w (mancalaPit R (otherPlayer st.turn)) - _)
      rw [weigh_rotate w h.wellFormed.length, hWeigh, weigh_rotate w hSown.length,
        pitOpposite_across hst.turn hCap.2.1, entry_rotate hSown.length ho0 ho,
        across_mancalaPit hst.turn]

/-- A move has one result. -/
theorem Moved.unique {st'' : State} (h : Moved R st n st') (h' : Moved R st n st'') :
    st' = st'' := by
  obtain ⟨sown, hSown, hBoard⟩ := h.board
  obtain ⟨sown', hSown', hBoard'⟩ := h'.board
  have hSame : sown = sown' := by
    apply eq_of_weigh
    · exact Int.natCast_inj.mp (hSown.length.trans hSown'.length.symm)
    · intro w
      rw [hSown.weigh, hSown'.weigh]
  subst hSame
  have hBoards : st'.board = st''.board := by
    rcases hBoard with ⟨hNot, hEq⟩ | ⟨hCap, hWeigh⟩
    · rcases hBoard' with ⟨-, hEq'⟩ | ⟨hCap', -⟩
      · exact hEq.trans hEq'.symm
      · exact absurd hCap' hNot
    · rcases hBoard' with ⟨hNot', -⟩ | ⟨-, hWeigh'⟩
      · exact absurd hCap hNot'
      · apply eq_of_weigh
        · exact Int.natCast_inj.mp (h.wellFormed.length.trans h'.wellFormed.length.symm)
        · intro w
          rw [hWeigh, hWeigh']
  have hTurns : st'.turn = st''.turn := by rw [h.turn, h'.turn]
  cases st'
  cases st''
  cases hBoards
  cases hTurns
  rfl

/-- **The rules are the same from both sides.** -/
theorem stateFromMove_swap (hst : WellFormed R st) (h0 : 0 ≤ n) (hn : n < R.numPits) :
    stateFromMove R (swapPlayers R st) n =
      (stateFromMove R st n).map (Option.map (swapPlayers R)) := by
  have hStones := stonesIn_swap hst h0 hn
  rcases stateFromMove_cases hst h0 hn with ⟨hZero, hNone⟩ | ⟨hPos, st', hSome, hMoved⟩
  · rw [hNone]
    rcases stateFromMove_cases hst.swapPlayers h0 hn with ⟨-, hNone'⟩ | ⟨hPos', -⟩
    · exact hNone'
    · omega
  · rw [hSome]
    rcases stateFromMove_cases hst.swapPlayers h0 hn with ⟨hZero', -⟩ | ⟨-, st'', hSome', hMoved'⟩
    · omega
    · rw [hSome', hMoved'.unique (hMoved.swapPlayers hst h0 hn)]
      rfl

theorem successors_swap (hst : WellFormed R st) :
    successors R (swapPlayers R st) = (successors R st).map (swapPlayers R) := by
  unfold successors
  rw [List.map_reverse, List.map_filterMap]
  congr 1
  apply List.filterMap_congr
  intro x hx
  have hMove := stateFromMove_swap hst (Int.natCast_nonneg x)
    (by exact_mod_cast List.mem_range.mp hx)
  unfold successor
  rw [hMove]
  cases stateFromMove R st x with
  | error e => rfl
  | ok result => rfl

theorem moves_swap (hst : WellFormed R st) :
    moves R (swapPlayers R st) = (moves R st).map (List.map (swapPlayers R)) := by
  rw [moves_spec hst, moves_spec hst.swapPlayers, successors_swap hst]
  rfl

/-- The game is over for both at the same time. -/
theorem gameOver_swap (hst : WellFormed R st) :
    gameOver R (swapPlayers R st) = gameOver R st := by
  rw [Bool.eq_iff_iff, gameOver_iff hst.swapPlayers, gameOver_iff hst, successors_swap hst,
    List.map_eq_nil_iff]

/-- The mancalas change places. -/
theorem entry_mancalaPit_swap (hst : WellFormed R st) {player : Int}
    (hPlayer : player = player1 ∨ player = player2) :
    entry (swapPlayers R st).board (mancalaPit R (otherPlayer player)) =
      entry st.board (mancalaPit R player) := by
  obtain ⟨h0, hSize, -⟩ := mancalaPit_sowable R hPlayer
  rw [← across_mancalaPit hPlayer]
  exact entry_rotate hst.length h0 hSize

theorem score_swapPlayers (hst : WellFormed R st) {player : Int}
    (hPlayer : player = player1 ∨ player = player2) :
    score R (swapPlayers R st) (some (otherPlayer player)) = score R st (some player) := by
  have hOther := otherPlayer_turn hPlayer
  rw [score_spec hst.swapPlayers hOther, score_spec hst hPlayer, entry_mancalaPit_swap hst hPlayer,
    entry_mancalaPit_swap hst hOther]

/-- **Both players play the same game.** -/
theorem engine_symmetric (hst : WellFormed R st) :
    (∀ n : Nat, n < R.numPits → stateFromMove R (swapPlayers R st) n =
        (stateFromMove R st n).map (Option.map (swapPlayers R))) ∧
      moves R (swapPlayers R st) = (moves R st).map (List.map (swapPlayers R)) ∧
      gameOverp R (swapPlayers R st) = gameOverp R st ∧
      ∀ player, player = player1 ∨ player = player2 →
        score R (swapPlayers R st) (some (otherPlayer player)) = score R st (some player) := by
  refine ⟨?_, moves_swap hst, ?_, fun player hPlayer => score_swapPlayers hst hPlayer⟩
  · intro n hn
    exact stateFromMove_swap hst (Int.natCast_nonneg n) (by exact_mod_cast hn)
  · rw [gameOverp_spec hst, gameOverp_spec hst.swapPlayers, gameOver_swap hst]

end

/-- In the first state of the default game the players are in the same position. -/
theorem engine_symmetric_default :
    moves defaultRules (swapPlayers defaultRules (initState defaultRules player1)) =
      (moves defaultRules (initState defaultRules player1)).map
        (List.map (swapPlayers defaultRules)) := by
  have hst : WellFormed defaultRules (initState defaultRules player1) := by decide
  exact (engine_symmetric hst).2.1

end Windborne.Mancala
