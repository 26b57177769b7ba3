import Windborne.Mancala.Move

/-!
# The human player

`human-make-move` asks for a pit until `valid-movep` accepts it. The test gets the position on
the board, but with the bound of a pit number. The two are the same for player 1. For player 2
the positions below the bound are the pits of player 1, which are typed as negative numbers.
-/

namespace Windborne.Mancala

open Library

def validMovep (R : Rules) (st : State) (move : Int) : Result Bool :=
  if 0 ≤ move ∧ move < R.numPits then do return (← svref st.board move) != 0 else return false

/-- The loop over what the user types; `none` while it still waits. What is left of the input
comes back with the answer. -/
def promptLoop (R : Rules) (st : State) :
    List Int → Option (Result (Option State × List Int))
  | [] => none
  | userMove :: input =>
    match validMovep R st (leftPit R st.turn + userMove) with
    | .error e => some (.error e)
    | .ok true => some do return (← stateFromMove R st userMove, input)
    | .ok false => promptLoop R st input

def humanMakeMove (R : Rules) (st : State) (input : List Int) :
    Option (Result (Option State × List Int)) :=
  match moves R st with
  | .error e => some (.error e)
  | .ok [] => some (.ok (none, input))
  | .ok (_ :: _) => promptLoop R st input

/-! ## Legal and accepted input -/

/-- A pit of the player to move that holds stones. -/
def Legal (R : Rules) (st : State) (u : Int) : Prop :=
  0 ≤ u ∧ u < R.numPits ∧ stonesIn R st u ≠ 0

/-- The user is not asked again after `u`: whatever is typed next stays unread. -/
def AcceptedWith (R : Rules) (st : State) (u : Int) (answer : Option State) : Prop :=
  ∀ input, humanMakeMove R st (u :: input) = some (.ok (answer, input))

/-- The number is accepted just if it is a legal pit, and the answer is the successor by it. -/
def AcceptsLegal (R : Rules) (st : State) (u : Int) : Prop :=
  ((∃ answer, AcceptedWith R st u answer) ↔ Legal R st u) ∧
    ∀ answer, AcceptedWith R st u answer →
      ∃ st', answer = some st' ∧ stateFromMove R st u = .ok (some st') ∧
        ∃ bag, moves R st = .ok bag ∧ st' ∈ bag

/-- Counted from the left pit of the player to move, the number leads to a pit of player 1 that
holds stones. -/
def HitsPlayer1 (R : Rules) (st : State) (u : Int) : Prop :=
  0 ≤ startPos R st u ∧ startPos R st u < R.numPits ∧ stonesIn R st u ≠ 0

variable {R : Rules} {st : State} {u : Int}

theorem hitsPlayer1_iff_legal (h : st.turn = player1) :
    HitsPlayer1 R st u ↔ Legal R st u := by
  have hStart : startPos R st u = u := by
    unfold startPos
    rw [h]
    exact add_zero u
  unfold HitsPlayer1 Legal
  rw [hStart]

/-- The pits of player 1 are not those of player 2. -/
theorem not_hitsPlayer1_of_legal (h : st.turn = player2) (hLegal : Legal R st u) :
    ¬HitsPlayer1 R st u := by
  rintro ⟨-, hLow, -⟩
  have hLeft : leftPit R player2 = 1 + R.numPits := rfl
  unfold startPos at hLow
  rw [h, hLeft] at hLow
  have hNonneg := hLegal.1
  omega

/-! ## The test -/

theorem validMovep_of_hits (hst : WellFormed R st) (h : HitsPlayer1 R st u) :
    validMovep R st (leftPit R st.turn + u) = .ok true := by
  obtain ⟨h0, hLow, hStones⟩ := h
  have hSize : startPos R st u < st.board.length := by
    rw [hst.length]
    unfold boardSize
    omega
  have hPos : leftPit R st.turn + u = startPos R st u := add_comm _ _
  unfold validMovep
  rw [hPos, if_pos ⟨h0, hLow⟩, svref_ok h0 hSize, ok_bind]
  have hNonzero : (entry st.board (startPos R st u) != 0) = true := bne_iff_ne.mpr hStones
  rw [hNonzero]
  rfl

theorem validMovep_of_misses (hst : WellFormed R st) (h : ¬HitsPlayer1 R st u) :
    validMovep R st (leftPit R st.turn + u) = .ok false := by
  have hPos : leftPit R st.turn + u = startPos R st u := add_comm _ _
  unfold validMovep
  rw [hPos]
  by_cases hLow : 0 ≤ startPos R st u ∧ startPos R st u < R.numPits
  · have hSize : startPos R st u < st.board.length := by
      rw [hst.length]
      unfold boardSize
      omega
    have hEmpty : stonesIn R st u = 0 := by
      by_contra hStones
      exact h ⟨hLow.1, hLow.2, hStones⟩
    have hZero : (entry st.board (startPos R st u) != 0) = false := by
      rw [bne_eq_false_iff_eq]
      exact hEmpty
    rw [if_pos hLow, svref_ok hLow.1 hSize, ok_bind, hZero]
    rfl
  · rw [if_neg hLow]
    rfl

/-- A position that passes the test can be sown. -/
theorem stateFromMove_of_hits (hst : WellFormed R st) (h : HitsPlayer1 R st u) :
    ∃ st', stateFromMove R st u = .ok (some st') := by
  obtain ⟨h0, hLow, hStones⟩ := h
  have hStart : Sowable R (mancalaPit R (otherPlayer st.turn)) (startPos R st u) := by
    have hMancala := mancalaPit_cases R (otherPlayer st.turn)
    unfold Sowable boardSize
    omega
  rcases stateFromMove_cases_of_sowable hst hStart with ⟨hEmpty, -⟩ | ⟨-, st', hMove, -⟩
  · exact absurd hEmpty hStones
  · exact ⟨st', hMove⟩

/-! ## The loop -/

/-- With a legal move there is a prompt. -/
theorem humanMakeMove_eq (hst : WellFormed R st) (hMove : ∃ n, Legal R st n) (input : List Int) :
    humanMakeMove R st input = promptLoop R st input := by
  obtain ⟨n, h0, hn, hStones⟩ := hMove
  rcases stateFromMove_cases hst h0 hn with ⟨hEmpty, -⟩ | ⟨-, st', hSome, -⟩
  · exact absurd hEmpty hStones
  · have hMem : st' ∈ successors R st := (mem_successors hst).mpr ⟨n, h0, hn, hSome⟩
    unfold humanMakeMove
    rw [moves_spec hst]
    cases hBag : successors R st with
    | nil =>
      rw [hBag] at hMem
      cases hMem
    | cons first bag => rfl

theorem promptLoop_of_hits (hst : WellFormed R st) (h : HitsPlayer1 R st u) {st' : State}
    (hMove : stateFromMove R st u = .ok (some st')) (input : List Int) :
    promptLoop R st (u :: input) = some (.ok (some st', input)) := by
  rw [promptLoop, validMovep_of_hits hst h]
  dsimp only
  rw [hMove]
  rfl

theorem promptLoop_of_misses (hst : WellFormed R st) (h : ¬HitsPlayer1 R st u)
    (input : List Int) : promptLoop R st (u :: input) = promptLoop R st input := by
  rw [promptLoop, validMovep_of_misses hst h]

/-- What is accepted, whoever is to move. -/
theorem acceptedWith_iff (hst : WellFormed R st) (hMove : ∃ n, Legal R st n)
    (answer : Option State) : AcceptedWith R st u answer ↔
      HitsPlayer1 R st u ∧ stateFromMove R st u = .ok answer ∧ answer ≠ none := by
  unfold AcceptedWith
  simp only [humanMakeMove_eq hst hMove]
  by_cases hHits : HitsPlayer1 R st u
  · obtain ⟨st', hSome⟩ := stateFromMove_of_hits hst hHits
    simp only [promptLoop_of_hits hst hHits hSome, hSome]
    constructor
    · intro h
      cases h []
      exact ⟨hHits, rfl, Option.some_ne_none st'⟩
    · rintro ⟨-, hAnswer, -⟩ input
      cases hAnswer
      rfl
  · apply iff_of_false
    · intro h
      have hWaits := h []
      rw [promptLoop_of_misses hst hHits] at hWaits
      cases hWaits
    · exact fun h => hHits h.1

/-- **The human player's moves.** Exactly the legal moves are accepted from player 1, and from
player 2 no legal move. -/
theorem human_make_move_iff (hst : WellFormed R st) (hMove : ∃ n, Legal R st n) (u : Int) :
    AcceptsLegal R st u ↔
      st.turn = player1 ∨ (¬Legal R st u ∧ ¬HitsPlayer1 R st u) := by
  have hAccepted : (∃ answer, AcceptedWith R st u answer) ↔ HitsPlayer1 R st u := by
    simp only [acceptedWith_iff hst hMove]
    constructor
    · rintro ⟨answer, hHits, -⟩
      exact hHits
    · intro hHits
      obtain ⟨st', hSome⟩ := stateFromMove_of_hits hst hHits
      exact ⟨some st', hHits, hSome, Option.some_ne_none st'⟩
  unfold AcceptsLegal
  rw [hAccepted]
  constructor
  · rintro ⟨hSame, -⟩
    rcases hst.turn with hTurn | hTurn
    · exact Or.inl hTurn
    · have hNotLegal : ¬Legal R st u := fun hLegal =>
        not_hitsPlayer1_of_legal hTurn hLegal (hSame.mpr hLegal)
      exact Or.inr ⟨hNotLegal, fun hHits => hNotLegal (hSame.mp hHits)⟩
  · rintro (hTurn | ⟨hNotLegal, hMisses⟩)
    · refine ⟨hitsPlayer1_iff_legal hTurn, ?_⟩
      intro answer hAnswer
      obtain ⟨hHits, hRun, hSome⟩ := (acceptedWith_iff hst hMove answer).mp hAnswer
      obtain ⟨st', rfl⟩ := Option.ne_none_iff_exists'.mp hSome
      obtain ⟨h0, hLess, -⟩ := (hitsPlayer1_iff_legal hTurn).mp hHits
      exact ⟨st', rfl, hRun, _, moves_spec hst,
        (mem_successors hst).mpr ⟨u, h0, hLess, hRun⟩⟩
    · refine ⟨iff_of_false hMisses hNotLegal, ?_⟩
      intro answer hAnswer
      exact absurd ((acceptedWith_iff hst hMove answer).mp hAnswer).1 hMisses

/-- Player 2 is asked again after the legal pit 0, and can sow the last pit of player 1. -/
theorem player2_cannot_move :
    Legal defaultRules (initState defaultRules player2) 0 ∧
      humanMakeMove defaultRules (initState defaultRules player2) [0] = none ∧
      ¬AcceptsLegal defaultRules (initState defaultRules player2) 0 ∧
      ∃ st', humanMakeMove defaultRules (initState defaultRules player2) [-2] =
          some (.ok (some st', [])) ∧
        ∀ bag, moves defaultRules (initState defaultRules player2) = .ok bag → st' ∉ bag := by
  have hLegal : Legal defaultRules (initState defaultRules player2) 0 :=
    ⟨by decide, by decide, by decide⟩
  have hAsked : humanMakeMove defaultRules (initState defaultRules player2) [0] = none := by
    decide
  refine ⟨hLegal, hAsked, ?_, ⟨[4, 4, 4, 4, 4, 0, 0, 5, 5, 5, 5, 4, 4, 0], player1⟩,
    by decide, ?_⟩
  · rintro ⟨hSame, -⟩
    obtain ⟨answer, hAnswer⟩ := hSame.mpr hLegal
    have hNone := hAnswer []
    rw [hAsked] at hNone
    cases hNone
  · intro bag hBag
    rw [moves_ok hBag]
    decide

/-- Player 1 sows the third pit. -/
theorem human_make_move_iff_third :
    AcceptsLegal defaultRules (initState defaultRules player1) 2 := by
  have hLegal : Legal defaultRules (initState defaultRules player1) 2 :=
    ⟨by decide, by decide, by decide⟩
  exact (human_make_move_iff (by decide) ⟨2, hLegal⟩ 2).mpr (Or.inl rfl)

end Windborne.Mancala
