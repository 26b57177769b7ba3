import Mathlib.Algebra.Order.BigOperators.Group.List
import Windborne.Library.Runs
import Windborne.Mancala.Move

/-!
# Conservation of stones

A move keeps the total, leaves the opponent's mancala as it is and never takes from the
mover's own. By induction over the moves played, every state reached from `initState` is
well formed and holds the stones the game began with.
-/

namespace Windborne.Mancala

open Library

/-- Sowing a legal pit of the player to move. -/
def Move (R : Rules) (st : State) (n : Int) (st' : State) : Prop :=
  0 ≤ n ∧ n < R.numPits ∧ stateFromMove R st n = .ok (some st')

theorem Move.moved {R : Rules} {st st' : State} {n : Int} (h : Move R st n st')
    (hst : WellFormed R st) : Moved R st n st' :=
  (moved_of_stateFromMove hst h.1 h.2.1 h.2.2).2

/-! ## The effect of a move on a weighted sum -/

/-- One equation for every weight: the stones leave the start, one falls on each visited
position, and the captured ones go from a pit of the opponent to the mover's mancala. -/
theorem Moved.weigh {R : Rules} {st st' : State} {n : Int} (hst : WellFormed R st)
    (h : Moved R st n st') :
    ∃ captured opp, 0 ≤ captured ∧ OwnPit R (otherPlayer st.turn) opp ∧
      ∀ w, Library.weigh w 0 st'.board = Library.weigh w 0 st.board -
        stonesIn R st n * w (startPos R st n) + ((visited R st n).map w).sum +
          captured * (w (mancalaPit R st.turn) - w opp) := by
  obtain ⟨sown, hSown, ⟨-, hBoard⟩ | ⟨hCap, hBoard⟩⟩ := h.board
  · refine ⟨0, leftPit R (otherPlayer st.turn), le_rfl, ?_, fun w => ?_⟩
    · have := R.numPits_pos
      unfold OwnPit
      rw [mancalaPit_eq]
      omega
    · rw [hBoard, hSown.weigh w]
      ring
  · refine ⟨entry sown (pitOpposite R (stopPos R st n)), pitOpposite R (stopPos R st n),
      entry_nonneg hSown.nonneg _, pitOpposite_ownPit hst.turn hCap.2.1, fun w => ?_⟩
    rw [hBoard, hSown.weigh w]

theorem sum_map_one (xs : List Int) : (xs.map fun _ => (1 : Int)).sum = xs.length := by
  simp

/-- Every stone in hand is sown. -/
theorem visited_length {R : Rules} {st : State} (hst : WellFormed R st) (n : Int) :
    ((visited R st n).length : Int) = stonesIn R st n := by
  rw [visited, path_length]
  exact Int.toNat_of_nonneg (entry_nonneg hst.nonneg _)

theorem Moved.sum {R : Rules} {st st' : State} {n : Int} (hst : WellFormed R st)
    (h : Moved R st n st') : st'.board.sum = st.board.sum := by
  obtain ⟨captured, opp, -, -, hWeigh⟩ := h.weigh hst
  have hAll := hWeigh fun _ => 1
  rw [weigh_one, weigh_one, sum_map_one, visited_length hst] at hAll
  rw [hAll]
  ring

theorem visited_sowable {R : Rules} {st : State} {n : Int} (hst : WellFormed R st) (h0 : 0 ≤ n)
    (h : n < R.numPits) :
    ∀ i ∈ visited R st n, Sowable R (mancalaPit R (otherPlayer st.turn)) i := by
  obtain ⟨hs0, hs, -⟩ := ownPit_sowable hst.turn (startPos_ownPit st h0 h)
  exact path_sowable _ hs0 hs

theorem ownPit_ne_mancalaPit {R : Rules} {player p i : Int}
    (hPlayer : player = player1 ∨ player = player2) (hp : p = player ∨ p = otherPlayer player)
    (hi : OwnPit R player i) : i ≠ mancalaPit R p := by
  have hSides := leftPit_cases R hPlayer
  unfold OwnPit at hi
  rw [mancalaPit_eq] at hi ⊢
  rcases hp with rfl | rfl <;> omega

theorem otherPlayer_otherPlayer (player : Int) : otherPlayer (otherPlayer player) = player := by
  unfold otherPlayer
  omega

/-- The opponent's mancala is not touched. -/
theorem Moved.entry_other {R : Rules} {st st' : State} {n : Int} (hst : WellFormed R st)
    (h0 : 0 ≤ n) (hn : n < R.numPits) (h : Moved R st n st') :
    entry st'.board (mancalaPit R (otherPlayer st.turn)) =
      entry st.board (mancalaPit R (otherPlayer st.turn)) := by
  obtain ⟨captured, opp, -, hOpp, hWeigh⟩ := h.weigh hst
  have hStart := ownPit_ne_mancalaPit hst.turn (Or.inr rfl) (startPos_ownPit st h0 hn)
  have hMine := (mancalaPit_sowable R hst.turn).2.2
  have hOppNe := ownPit_ne_mancalaPit (otherPlayer_turn hst.turn) (Or.inl rfl) hOpp
  have hVisited : ((visited R st n).map (pick (mancalaPit R (otherPlayer st.turn)))).sum = 0 := by
    apply List.sum_eq_zero
    intro x hx
    obtain ⟨i, hi, rfl⟩ := List.mem_map.mp hx
    exact pick_ne (visited_sowable hst h0 hn i hi).2.2
  rw [entry, hWeigh, hVisited, pick_ne hStart, pick_ne hMine, pick_ne hOppNe]
  simp [entry]

/-- What the mover's mancala gains: the stones sown into it and the captured ones. -/
theorem Moved.entry_mine {R : Rules} {st st' : State} {n : Int} (hst : WellFormed R st)
    (h0 : 0 ≤ n) (hn : n < R.numPits) (h : Moved R st n st') :
    ∃ captured opp, 0 ≤ captured ∧ OwnPit R (otherPlayer st.turn) opp ∧
      entry st'.board (mancalaPit R st.turn) = entry st.board (mancalaPit R st.turn) +
        ((visited R st n).map (pick (mancalaPit R st.turn))).sum + captured ∧
      ∀ w, Library.weigh w 0 st'.board = Library.weigh w 0 st.board -
        stonesIn R st n * w (startPos R st n) + ((visited R st n).map w).sum +
          captured * (w (mancalaPit R st.turn) - w opp) := by
  obtain ⟨captured, opp, hCap, hOpp, hWeigh⟩ := h.weigh hst
  refine ⟨captured, opp, hCap, hOpp, ?_, hWeigh⟩
  have hStart := ownPit_ne_mancalaPit hst.turn (Or.inl rfl) (startPos_ownPit st h0 hn)
  have hOppNe : opp ≠ mancalaPit R st.turn :=
    ownPit_ne_mancalaPit (otherPlayer_turn hst.turn)
      (Or.inr (otherPlayer_otherPlayer st.turn).symm) hOpp
  rw [entry, hWeigh, pick_ne hStart, pick_self, pick_ne hOppNe]
  unfold entry
  ring

theorem sum_pick_nonneg (j : Int) (xs : List Int) : 0 ≤ (xs.map (pick j)).sum := by
  apply List.sum_nonneg
  intro x hx
  obtain ⟨i, -, rfl⟩ := List.mem_map.mp hx
  exact pick_nonneg j i

theorem Moved.entry_mine_le {R : Rules} {st st' : State} {n : Int} (hst : WellFormed R st)
    (h0 : 0 ≤ n) (hn : n < R.numPits) (h : Moved R st n st') :
    entry st.board (mancalaPit R st.turn) ≤ entry st'.board (mancalaPit R st.turn) := by
  obtain ⟨captured, -, hCap, -, hMine, -⟩ := h.entry_mine hst h0 hn
  have := sum_pick_nonneg (mancalaPit R st.turn) (visited R st n)
  omega

/-! ## The first state -/

theorem initState_sum (R : Rules) (first : Int) :
    (initState R first).board.sum = 2 * R.numPits * R.initialStonesPerPit := by
  have hSize : (boardSize R).toNat = R.numPits + 1 + R.numPits + 1 := by
    unfold boardSize
    omega
  have hLow : ∀ x ∈ List.range R.numPits,
      (if (x : Int) ≠ mancalaPit R player2 ∧ (x : Int) ≠ mancalaPit R player1 then
        (R.initialStonesPerPit : Int) else 0) = R.initialStonesPerPit := by
    intro x hx
    have hx := List.mem_range.mp hx
    apply if_pos
    rw [mancalaPit_eq, mancalaPit_eq R player1]
    simp only [leftPit, player1, player2]
    constructor <;> simp <;> omega
  have hHigh : ∀ x ∈ List.range R.numPits,
      (if ((R.numPits + 1 + x : Nat) : Int) ≠ mancalaPit R player2 ∧
          ((R.numPits + 1 + x : Nat) : Int) ≠ mancalaPit R player1 then
        (R.initialStonesPerPit : Int) else 0) = R.initialStonesPerPit := by
    intro x hx
    have hx := List.mem_range.mp hx
    apply if_pos
    rw [mancalaPit_eq, mancalaPit_eq R player1]
    simp only [leftPit, player1, player2]
    constructor <;> simp <;> omega
  have hMancala1 : mancalaPit R player1 = (R.numPits : Int) := rfl
  have hMancala2 : mancalaPit R player2 = ((R.numPits + 1 + R.numPits : Nat) : Int) := by
    simp only [mancalaPit, player1, player2]
    simp
    omega
  rw [initState, hSize, List.range_succ, List.range_add, List.range_succ]
  simp only [List.map_append, List.map_map, Function.comp_def, List.map_singleton,
    List.sum_append, List.sum_singleton]
  rw [List.map_congr_left hLow, List.map_congr_left hHigh, List.map_const', List.length_range,
    List.sum_replicate, if_neg fun h => h.2 hMancala1.symm, if_neg fun h => h.1 hMancala2.symm]
  simp only [nsmul_eq_mul]
  ring

theorem initState_wellFormed (R : Rules) {first : Int} (h : first = player1 ∨ first = player2) :
    WellFormed R (initState R first) := by
  refine ⟨?_, ?_, h⟩
  · simp only [initState, List.length_map, List.length_range]
    unfold boardSize
    omega
  · intro v hv
    obtain ⟨x, -, rfl⟩ := List.mem_map.mp hv
    split
    · exact Int.natCast_nonneg _
    · exact le_rfl

/-! ## Plays from the first state -/

/-- All states of a play are well formed and have all the stones. -/
theorem wellFormed_of_run (R : Rules) {first : Int} (hFirst : first = player1 ∨ first = player2)
    {ns : List Int} {st : State} (hRun : Run (Move R) (initState R first) ns st) :
    WellFormed R st ∧ st.board.sum = 2 * R.numPits * R.initialStonesPerPit := by
  refine hRun.invariant (I := fun st => WellFormed R st ∧
    st.board.sum = 2 * R.numPits * R.initialStonesPerPit)
    ⟨initState_wellFormed R hFirst, initState_sum R first⟩ ?_
  rintro t n u ⟨hWell, hSum⟩ hMove
  have hMoved := hMove.moved hWell
  exact ⟨hMoved.wellFormed, (hMoved.sum hWell).trans hSum⟩

/-- **States of a play.** Every sequence of legal moves from the first state leads to a
well-formed state with all its stones. There, sowing any pit of the mover signals no error,
so all board indices it uses are inside the board; the opponent's mancala keeps its stones
and the mover's loses none. -/
theorem play_invariants (R : Rules) {first : Int} (hFirst : first = player1 ∨ first = player2)
    {ns : List Int} {st : State} (hRun : Run (Move R) (initState R first) ns st) :
    WellFormed R st ∧ st.board.sum = 2 * R.numPits * R.initialStonesPerPit ∧
      ∀ n : Int, 0 ≤ n → n < R.numPits →
        ∃ result, stateFromMove R st n = .ok result ∧ ∀ st', result = some st' →
          svref st'.board (mancalaPit R (otherPlayer st.turn)) =
              svref st.board (mancalaPit R (otherPlayer st.turn)) ∧
            ∃ before after, svref st.board (mancalaPit R st.turn) = .ok before ∧
              svref st'.board (mancalaPit R st.turn) = .ok after ∧ before ≤ after := by
  obtain ⟨hst, hSum⟩ := wellFormed_of_run R hFirst hRun
  refine ⟨hst, hSum, fun n h0 hn => ⟨_, stateFromMove_eq_successor hst h0 hn, ?_⟩⟩
  intro st' hSucc
  have hMoved : Moved R st n st' := by
    refine Move.moved ⟨h0, hn, ?_⟩ hst
    rw [stateFromMove_eq_successor hst h0 hn, hSucc]
  have hLength' := hMoved.wellFormed.length
  have hOther := mancalaPit_sowable R (otherPlayer_turn hst.turn)
  have hMine := mancalaPit_sowable R hst.turn
  constructor
  · rw [svref_ok hOther.1 (hLength' ▸ hOther.2.1), svref_ok hOther.1 (hst.length ▸ hOther.2.1),
      hMoved.entry_other hst h0 hn]
  · exact ⟨_, _, svref_ok hMine.1 (hst.length ▸ hMine.2.1),
      svref_ok hMine.1 (hLength' ▸ hMine.2.1), hMoved.entry_mine_le hst h0 hn⟩

/-- The default game after the first player has sown pit 2 and moves again. -/
theorem play_invariants_default :
    WellFormed defaultRules ⟨[4, 4, 0, 5, 5, 5, 1, 4, 4, 4, 4, 4, 4, 0], 0⟩ :=
  (play_invariants defaultRules (Or.inl rfl)
    (Run.single (a := 2) ⟨by decide, by decide, by decide⟩)).1

end Windborne.Mancala
