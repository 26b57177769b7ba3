import Windborne.Mancala.Laps
import Windborne.Mancala.Player

/-!
# The end pit and the move

`end-pit` has its own copy of the sowing loop of `state-from-move`. On a well-formed state the
two run over the same positions, so the end pit is where the move drops its last stone, and with
the go-again rule it tells whether the mover goes again.
-/

namespace Windborne.Mancala

open Library

/-- The rest of `state-from-move`, after the sowing loop. -/
def afterSowing (R : Rules) (st : State) (sown : List Int) (curPos : Int) :
    Result (Option State) := do
  let board ← bigWin R sown curPos st.turn (mancalaPit R st.turn)
  return some
    { board := board
      turn := if R.goAgainRule ∧ curPos = mancalaPit R st.turn then st.turn else 1 - st.turn }

variable {R : Rules} {st : State} {x : Int}

/-- The read, the write and the loop that both functions begin with. -/
theorem sowing_run (hst : WellFormed R st) (h0 : 0 ≤ x) (hx : x < R.numPits) :
    svref st.board (x + leftPit R st.turn) = .ok (stonesIn R st x) ∧
    setSvref st.board (x + leftPit R st.turn) 0 =
      .ok (st.board.set (startPos R st x).toNat 0) ∧
    ∃ sown, sow R (mancalaPit R (otherPlayer st.turn)) (stonesIn R st x).toNat
      (st.board.set (startPos R st x).toNat 0) (x + leftPit R st.turn) =
        .ok (sown, stopPos R st x) := by
  obtain ⟨hs0, hs, -⟩ := ownPit_sowable hst.turn (startPos_ownPit st h0 hx)
  obtain ⟨sown, hRun, -⟩ := sow_sown hst hs0 hs
  exact ⟨svref_ok hs0 (hst.length ▸ hs), setSvref_ok hs0 (hst.length ▸ hs) 0, sown, hRun⟩

/-- An empty pit is its own end pit. -/
theorem stopPos_of_empty (h : stonesIn R st x = 0) : stopPos R st x = startPos R st x := by
  unfold stopPos
  rw [h]
  rfl

theorem endPit_eq (hst : WellFormed R st) (h0 : 0 ≤ x) (hx : x < R.numPits) :
    endPit R st x = .ok (stopPos R st x) := by
  obtain ⟨hRead, hWrite, sown, hRun⟩ := sowing_run hst h0 hx
  have hBegin : (if st.turn = player1 then (x + leftPit R player1, mancalaPit R player2)
      else (x + leftPit R player2, mancalaPit R player1)) =
        (x + leftPit R st.turn, mancalaPit R (otherPlayer st.turn)) := by
    rcases hst.turn with hTurn | hTurn <;> rw [hTurn] <;> rfl
  unfold endPit
  rw [hBegin]
  simp only [hRead, ok_bind]
  by_cases hEmpty : stonesIn R st x = 0
  · rw [if_pos hEmpty, stopPos_of_empty hEmpty]
    rfl
  · rw [if_neg hEmpty]
    simp only [hWrite, hRun, ok_bind, pure_eq_ok]

/-- Where the move drops its last stone. -/
theorem stateFromMove_eq_afterSowing (hst : WellFormed R st) (h0 : 0 ≤ x) (hx : x < R.numPits)
    (hStones : stonesIn R st x ≠ 0) :
    ∃ sown, sow R (mancalaPit R (otherPlayer st.turn)) (stonesIn R st x).toNat
        (st.board.set (startPos R st x).toNat 0) (startPos R st x) =
          .ok (sown, stopPos R st x) ∧
      stateFromMove R st x = afterSowing R st sown (stopPos R st x) := by
  obtain ⟨hRead, hWrite, sown, hRun⟩ := sowing_run hst h0 hx
  refine ⟨sown, hRun, ?_⟩
  simp only [stateFromMove, pitIndices_eq R hst.turn, hRead, ok_bind, if_neg hStones, hWrite, hRun]
  rfl

theorem startPos_ne_mancalaPit (h0 : 0 ≤ x) (hx : x < R.numPits) :
    startPos R st x ≠ mancalaPit R st.turn :=
  (startPos_ownPit st h0 hx).2.ne

/-- The mover goes again just if the last stone falls into the mancala. -/
theorem Moved.turn_eq_iff {st' : State} (h : Moved R st x st') (hGoAgain : R.goAgainRule = true) :
    st'.turn = st.turn ↔ stopPos R st x = mancalaPit R st.turn := by
  rw [h.turn]
  split
  · rename_i hAgain
    exact iff_of_true rfl hAgain.2
  · rename_i hOther
    apply iff_of_false
    · omega
    · exact fun hStop => hOther ⟨hGoAgain, hStop⟩

/-- **The end pit agrees with the move.** -/
theorem endPit_agrees (hst : WellFormed R st) (h0 : 0 ≤ x) (hx : x < R.numPits) :
    ∃ last, endPit R st x = .ok last ∧
      (R.goAgainRule = true → (last = mancalaPit R st.turn ↔
        ∃ st', stateFromMove R st x = .ok (some st') ∧ st'.turn = st.turn)) ∧
      (stonesIn R st x ≠ 0 →
        ∃ sown, sow R (mancalaPit R (otherPlayer st.turn)) (stonesIn R st x).toNat
            (st.board.set (startPos R st x).toNat 0) (startPos R st x) = .ok (sown, last) ∧
          stateFromMove R st x = afterSowing R st sown last) := by
  refine ⟨stopPos R st x, endPit_eq hst h0 hx, ?_, stateFromMove_eq_afterSowing hst h0 hx⟩
  intro hGoAgain
  rcases stateFromMove_cases hst h0 hx with ⟨hEmpty, hNone⟩ | ⟨-, st', hSome, hMoved⟩
  · rw [stopPos_of_empty hEmpty, hNone]
    apply iff_of_false (startPos_ne_mancalaPit h0 hx)
    rintro ⟨st', hSome, -⟩
    cases hSome
  · rw [← hMoved.turn_eq_iff hGoAgain, hSome]
    constructor
    · intro hTurn
      exact ⟨st', rfl, hTurn⟩
    · rintro ⟨st'', hSame, hTurn⟩
      cases hSame
      exact hTurn

/-- The third pit holds the stones that it takes to the mancala. -/
theorem endPit_agrees_third :
    ∃ last, endPit defaultRules (initState defaultRules player1) 2 = .ok last ∧
      (last = mancalaPit defaultRules player1 ↔
        ∃ st', stateFromMove defaultRules (initState defaultRules player1) 2 = .ok (some st') ∧
          st'.turn = player1) := by
  have hst : WellFormed defaultRules (initState defaultRules player1) := by decide
  obtain ⟨last, hEnd, hAgain, -⟩ := endPit_agrees (x := 2) hst (by decide) (by decide)
  exact ⟨last, hEnd, hAgain rfl⟩

end Windborne.Mancala
