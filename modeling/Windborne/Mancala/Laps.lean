import Mathlib.Data.Int.CardIntervalMod
import Windborne.Mancala.Move

/-!
# Sowing in closed form

The positions that a sower passes form a ring: all but the mancala of the opponent, in the
order of the board. The sowing loop goes round this ring, so a position at distance `d` gets a
stone once for every full lap, and once more when the last lap reaches it.
-/

namespace Windborne.Mancala

open Library

/-! ## The ring -/

/-- The number of positions that a sower passes on the way round the board. -/
def lap (R : Rules) : Nat := 2 * R.numPits + 1

/-- Position `k` of the ring of `player`, counted from the left pit. -/
def ringPos (R : Rules) (player : Int) (k : Nat) : Int :=
  (leftPit R player + (k % lap R : Nat)) % boardSize R

section

variable {R : Rules} {player : Int}

theorem lap_pos (R : Rules) : 0 < lap R := Nat.succ_pos _

/-- The ring goes up from the left pit and past the end of the board to position 0. -/
theorem ringPos_cases (hPlayer : player = player1 ∨ player = player2) (k : Nat) :
    (leftPit R player + (k % lap R : Nat) < boardSize R ∧
      ringPos R player k = leftPit R player + (k % lap R : Nat)) ∨
    (boardSize R ≤ leftPit R player + (k % lap R : Nat) ∧
      ringPos R player k = leftPit R player + (k % lap R : Nat) - boardSize R) := by
  have hSides := leftPit_cases R hPlayer
  have hMod := Nat.mod_lt k (lap_pos R)
  unfold ringPos lap at *
  generalize k % (2 * R.numPits + 1) = m at *
  by_cases h : leftPit R player + m < boardSize R
  · left
    exact ⟨h, Int.emod_eq_of_lt (by omega) h⟩
  · right
    refine ⟨by omega, ?_⟩
    rw [← Int.sub_emod_right]
    apply Int.emod_eq_of_lt
    · omega
    · unfold boardSize
      omega

theorem ringPos_mod (k : Nat) : ringPos R player (k % lap R) = ringPos R player k := by
  unfold ringPos
  rw [Nat.mod_mod]

theorem ringPos_ownPit (hPlayer : player = player1 ∨ player = player2) {n : Nat}
    (hn : n < R.numPits) : ringPos R player n = n + leftPit R player := by
  have hMod : n % lap R = n := Nat.mod_eq_of_lt (by unfold lap; omega)
  have hSides := leftPit_cases R hPlayer
  have hRing := ringPos_cases (R := R) hPlayer n
  unfold boardSize at hRing
  rw [hMod] at hRing
  omega

theorem ringPos_mancala (hPlayer : player = player1 ∨ player = player2) :
    ringPos R player R.numPits = mancalaPit R player := by
  have hMod : R.numPits % lap R = R.numPits := Nat.mod_eq_of_lt (by unfold lap; omega)
  have hSides := leftPit_cases R hPlayer
  have hRing := ringPos_cases (R := R) hPlayer R.numPits
  unfold boardSize at hRing
  rw [hMod] at hRing
  rw [mancalaPit_eq]
  omega

theorem ringPos_eq_iff (hPlayer : player = player1 ∨ player = player2) (j k : Nat) :
    ringPos R player j = ringPos R player k ↔ j ≡ k [MOD lap R] := by
  have hj := Nat.mod_lt j (lap_pos R)
  have hk := Nat.mod_lt k (lap_pos R)
  have hSides := leftPit_cases R hPlayer
  have hRingJ := ringPos_cases (R := R) hPlayer j
  have hRingK := ringPos_cases (R := R) hPlayer k
  unfold Nat.ModEq
  unfold boardSize at hRingJ hRingK
  have hLap : lap R = 2 * R.numPits + 1 := rfl
  omega

theorem succ_mod_lap (R : Rules) (k : Nat) :
    (k + 1) % lap R = if k % lap R + 1 = lap R then 0 else k % lap R + 1 := by
  have hk := Nat.mod_lt k (lap_pos R)
  rw [← Nat.mod_add_mod]
  split
  · rename_i hEnd
    rw [hEnd, Nat.mod_self]
  · exact Nat.mod_eq_of_lt (by omega)

/-- The step of the sowing loop goes to the next position of the ring. -/
theorem advance_ringPos (hPlayer : player = player1 ∨ player = player2) (k : Nat) :
    advance R (mancalaPit R (otherPlayer player)) (ringPos R player k) =
      ringPos R player (k + 1) := by
  have hPits := R.numPits_pos
  have hk := Nat.mod_lt k (lap_pos R)
  have hSides := leftPit_cases R hPlayer
  have hRing := ringPos_cases (R := R) hPlayer k
  have hNext := ringPos_cases (R := R) hPlayer (k + 1)
  have hSucc := succ_mod_lap R k
  have hLap : lap R = 2 * R.numPits + 1 := rfl
  have hSize : boardSize R = 2 + 2 * R.numPits := rfl
  unfold advance
  rw [mancalaPit_eq]
  dsimp only
  generalize ringPos R player k = pos at *
  generalize ringPos R player (k + 1) = next at *
  generalize (k + 1) % lap R = m' at *
  generalize k % lap R = m at *
  by_cases hSkip : pos + 1 = leftPit R (otherPlayer player) + R.numPits
  · rw [if_pos hSkip]
    split at hSucc <;> split <;> omega
  · rw [if_neg hSkip]
    split at hSucc <;> split <;> omega

/-- The way of the loop, from position `k` of the ring on. -/
theorem path_ringPos (hPlayer : player = player1 ∨ player = player2) (stones k : Nat) :
    path R (mancalaPit R (otherPlayer player)) stones (ringPos R player k) =
      (List.range stones).map fun j => ringPos R player (k + j + 1) := by
  induction stones generalizing k with
  | zero => rfl
  | succ stones ih =>
    rw [path, advance_ringPos hPlayer, ih, List.range_succ_eq_map, List.map_cons, List.map_map]
    congr 1
    apply List.map_congr_left
    intro j _
    dsimp only [Function.comp_apply]
    congr 1
    omega

theorem lastPos_ringPos (hPlayer : player = player1 ∨ player = player2) (stones k : Nat) :
    lastPos R (mancalaPit R (otherPlayer player)) stones (ringPos R player k) =
      ringPos R player (k + stones) := by
  induction stones generalizing k with
  | zero => rfl
  | succ stones ih =>
    rw [lastPos_succ, advance_ringPos hPlayer, ih]
    congr 1
    omega

/-! ## Dealing -/

/-- What the position at distance `d` gets from so many stones. -/
def dealt (R : Rules) (stones d : Nat) : Nat :=
  stones / lap R + if d ≤ stones % lap R then 1 else 0

theorem sum_pick_range (p : Nat → Prop) [DecidablePred p] (n : Nat) :
    ((List.range n).map fun j => if p j then (1 : Int) else 0).sum = Nat.count p n := by
  induction n with
  | zero => rfl
  | succ n ih =>
    rw [List.range_succ, List.map_append, List.sum_append, ih, Nat.count_succ]
    simp

/-- The stones that the loop drops at distance `d` from where it starts. -/
theorem dealt_eq_sum (hPlayer : player = player1 ∨ player = player2) (stones k : Nat) {d : Nat}
    (hd : 1 ≤ d) (hLap : d ≤ lap R) :
    ((path R (mancalaPit R (otherPlayer player)) stones (ringPos R player k)).map
      (pick (ringPos R player (k + d)))).sum = dealt R stones d := by
  obtain ⟨e, rfl⟩ : ∃ e, d = e + 1 := ⟨d - 1, by omega⟩
  have hPick : ∀ j, pick (ringPos R player (k + (e + 1))) (ringPos R player (k + j + 1)) =
      if j ≡ e [MOD lap R] then 1 else 0 := by
    intro j
    have hMod : k + j + 1 ≡ k + (e + 1) [MOD lap R] ↔ j ≡ e [MOD lap R] := by
      have hShift : ∀ i, k + (i + 1) = k + 1 + i := fun i => by omega
      rw [Nat.add_assoc k j 1, hShift j, hShift e]
      exact ⟨Nat.ModEq.add_left_cancel' _, Nat.ModEq.add_left _⟩
    unfold pick
    simp only [ringPos_eq_iff hPlayer, hMod]
  rw [path_ringPos hPlayer, List.map_map]
  have hSum := sum_pick_range (fun j => j ≡ e [MOD lap R]) stones
  rw [Nat.count_modEq_card _ (lap_pos R), Nat.mod_eq_of_lt hLap] at hSum
  unfold dealt
  rw [Function.comp_def]
  simp only [hPick, hSum]
  rfl

end

/-! ## The board after a move -/

/-- The same game with the big-win rule on or off. -/
def Rules.withBigWin (R : Rules) (rule : Bool) : Rules := { R with bigWinRule := rule }

theorem withBigWin_self {R : Rules} {rule : Bool} (h : R.bigWinRule = rule) :
    R.withBigWin rule = R := by
  unfold Rules.withBigWin
  rw [← h]

theorem WellFormed.withBigWin {R : Rules} {st : State} (h : WellFormed R st) (rule : Bool) :
    WellFormed (R.withBigWin rule) st := ⟨h.length, h.nonneg, h.turn⟩

/-- The way of the loop does not depend on the rule. -/
theorem path_withBigWin (R : Rules) (rule : Bool) (skip : Int) (stones : Nat) (cur : Int) :
    path (R.withBigWin rule) skip stones cur = path R skip stones cur := by
  induction stones generalizing cur with
  | zero => rfl
  | succ stones ih => exact congrArg _ (ih _)

theorem stopPos_withBigWin (R : Rules) (rule : Bool) (st : State) (n : Int) :
    stopPos (R.withBigWin rule) st n = stopPos R st n := by
  unfold stopPos lastPos
  rw [path_withBigWin]
  rfl

theorem sown_of_withBigWin {R : Rules} {rule : Bool} {st : State} {n : Int} {sown : List Int}
    (h : Sown (R.withBigWin rule) st n sown) : Sown R st n sown where
  length := h.length
  nonneg := h.nonneg
  weigh w := by
    have hWay : visited (R.withBigWin rule) st n = visited R st n := path_withBigWin R rule _ _ _
    rw [h.weigh, hWay]
    rfl

/-- The position at distance `d` from the mover's pit `n`, going round the ring. -/
def atDistance (R : Rules) (st : State) (n d : Nat) : Int := ringPos R st.turn (n + d)

/-- The board after dealing the stones of pit `n` round the ring. -/
structure Dealt (R : Rules) (st : State) (n : Nat) (sown : List Int) : Prop where
  length : sown.length = st.board.length
  ring (d : Nat) (hd : 1 ≤ d) (hLap : d ≤ lap R) : entry sown (atDistance R st n d) =
    (if d = lap R then 0 else entry st.board (atDistance R st n d)) +
      dealt R (stonesIn R st n).toNat d
  skipped : entry sown (mancalaPit R (otherPlayer st.turn)) =
    entry st.board (mancalaPit R (otherPlayer st.turn))

/-- The stones opposite `last` have gone to the mover's mancala. -/
structure TakenOpposite (R : Rules) (player last : Int) (sown board : List Int) : Prop where
  length : board.length = sown.length
  entries (i : Int) : entry board i =
    if i = mancalaPit R player then entry sown i + entry sown (pitOpposite R last)
    else if i = pitOpposite R last then 0
    else entry sown i

variable {R : Rules} {st : State} {n : Nat}

theorem startPos_eq_ringPos (hst : WellFormed R st) (hn : n < R.numPits) :
    startPos R st n = ringPos R st.turn n :=
  (ringPos_ownPit hst.turn hn).symm

theorem atDistance_lap (hst : WellFormed R st) (hn : n < R.numPits) :
    atDistance R st n (lap R) = startPos R st n := by
  rw [startPos_eq_ringPos hst hn, atDistance, ringPos_eq_iff hst.turn]
  exact Nat.add_mod_right n (lap R)

/-- Only the end of the lap is the pit sown from. -/
theorem atDistance_eq_start (hst : WellFormed R st) (hn : n < R.numPits) {d : Nat} (hd : 1 ≤ d)
    (hLap : d ≤ lap R) : startPos R st n = atDistance R st n d ↔ d = lap R := by
  constructor
  · intro h
    rw [← atDistance_lap hst hn, atDistance, atDistance, ringPos_eq_iff hst.turn] at h
    have hMod := Nat.ModEq.add_left_cancel' n h
    unfold Nat.ModEq at hMod
    rw [Nat.mod_self] at hMod
    have hDvd := Nat.dvd_of_mod_eq_zero hMod.symm
    exact Nat.le_antisymm hLap (Nat.le_of_dvd hd hDvd)
  · rintro rfl
    exact (atDistance_lap hst hn).symm

/-- The last stone falls at the distance that is left of the last lap. -/
theorem stopPos_eq (hst : WellFormed R st) (hn : n < R.numPits) :
    stopPos R st n = atDistance R st n ((stonesIn R st n).toNat % lap R) := by
  unfold stopPos atDistance
  rw [startPos_eq_ringPos hst hn, lastPos_ringPos hst.turn, ringPos_eq_iff hst.turn]
  exact (Nat.mod_modEq _ _).symm.add_left n

/-- Every way to sow pit `n` deals its stones round the ring. -/
theorem Sown.dealt (hst : WellFormed R st) (hn : n < R.numPits) {sown : List Int}
    (h : Sown R st n sown) : Dealt R st n sown where
  length := by
    have hLength := h.length
    have hBoard := hst.length
    omega
  ring d hd hLap := by
    have hSum := dealt_eq_sum hst.turn (stonesIn R st n).toNat n hd hLap
    rw [← startPos_eq_ringPos hst hn] at hSum
    have hWeigh := h.weigh (pick (atDistance R st n d))
    have hStart := atDistance_eq_start hst hn hd hLap
    unfold visited at hWeigh
    rw [entry, hWeigh, atDistance, hSum, ← atDistance]
    by_cases hEnd : d = lap R
    · rw [if_pos hEnd, hStart.mpr hEnd, pick_self, stonesIn, hStart.mpr hEnd, entry]
      ring
    · rw [if_neg hEnd, pick_ne fun hSame => hEnd (hStart.mp hSame), entry]
      ring
  skipped := by
    obtain ⟨h0, hSize, hSkip⟩ := ownPit_sowable hst.turn
      (startPos_ownPit st (Int.natCast_nonneg n) (by exact_mod_cast hn))
    have hWay : ((visited R st n).map (pick (mancalaPit R (otherPlayer st.turn)))).sum = 0 := by
      apply List.sum_eq_zero
      intro v hv
      obtain ⟨i, hi, rfl⟩ := List.mem_map.mp hv
      exact pick_ne (path_sowable _ h0 hSize i hi).2.2
    rw [entry, h.weigh, hWay, pick_ne hSkip, entry]
    ring

theorem Sown.unique {sown sown' : List Int} (h : Sown R st n sown) (h' : Sown R st n sown') :
    sown' = sown := by
  apply eq_of_weigh
  · have hLength := h.length
    have hLength' := h'.length
    omega
  · intro w
    rw [h.weigh, h'.weigh]

theorem takenOpposite_of_weigh {player last : Int} {sown board : List Int}
    (hPlayer : player = player1 ∨ player = player2) (hLast : OwnPit R player last)
    (hLength : board.length = sown.length)
    (h : ∀ w, weigh w 0 board = weigh w 0 sown +
      entry sown (pitOpposite R last) * (w (mancalaPit R player) - w (pitOpposite R last))) :
    TakenOpposite R player last sown board where
  length := hLength
  entries i := by
    have hNe : mancalaPit R player ≠ pitOpposite R last := by
      have hSides := leftPit_cases R hPlayer
      have hOpp := pitOpposite_ownPit hPlayer hLast
      unfold OwnPit at hOpp
      rw [mancalaPit_eq] at hOpp ⊢
      omega
    have hEntry : entry board i = entry sown i + entry sown (pitOpposite R last) *
        (pick i (mancalaPit R player) - pick i (pitOpposite R last)) := h (pick i)
    rw [hEntry]
    by_cases hMine : i = mancalaPit R player
    · rw [if_pos hMine, hMine, pick_self, pick_ne hNe.symm]
      ring
    · rw [if_neg hMine, pick_ne fun hSame => hMine hSame.symm]
      by_cases hOpp : i = pitOpposite R last
      · rw [if_pos hOpp, hOpp, pick_self]
        ring
      · rw [if_neg hOpp, pick_ne fun hSame => hOpp hSame.symm]
        ring

/-- The player to move after the last stone fell at `last`. -/
def turnAfter (R : Rules) (st : State) (last : Int) : Int :=
  if R.goAgainRule = true ∧ last = mancalaPit R st.turn then st.turn else 1 - st.turn

/-- What the move makes of the sown board, whether the rule is off or on. -/
theorem stateFromMove_sown (bigWin : Bool) (hst : WellFormed R st) (hn : n < R.numPits)
    (hs : 0 < stonesIn R st n) {sown : List Int} (hSown : Sown R st n sown) :
    ∃ board, stateFromMove (R.withBigWin bigWin) st n =
        .ok (some ⟨board, turnAfter R st (stopPos R st n)⟩) ∧
      (bigWin = true ∧ OwnPit R st.turn (stopPos R st n) ∧ entry sown (stopPos R st n) = 1 →
        TakenOpposite R st.turn (stopPos R st n) sown board) ∧
      (¬(bigWin = true ∧ OwnPit R st.turn (stopPos R st n) ∧ entry sown (stopPos R st n) = 1) →
        board = sown) := by
  obtain ⟨st', hMove, hMoved⟩ := stateFromMove_of_pos (hst.withBigWin bigWin)
    (Int.natCast_nonneg n) (by exact_mod_cast hn) hs
  obtain ⟨sown', hSown', hBoard⟩ := hMoved.board
  cases hSown.unique (sown_of_withBigWin hSown')
  rw [stopPos_withBigWin] at hBoard
  have hTurn : st'.turn = turnAfter R st (stopPos R st n) := by
    rw [hMoved.turn, stopPos_withBigWin]
    rfl
  refine ⟨st'.board, ?_, ?_, ?_⟩
  · rw [hMove, ← hTurn]
  · intro hCaptures
    rcases hBoard with ⟨hKept, -⟩ | ⟨-, hTaken⟩
    · exact absurd hCaptures hKept
    · have hLength' := hMoved.wellFormed.length
      have hLength := hSown.length
      exact takenOpposite_of_weigh hst.turn hCaptures.2.1
        (by exact_mod_cast hLength'.trans hLength.symm) hTaken
  · intro hKept
    rcases hBoard with ⟨-, hSame⟩ | ⟨hCaptures, -⟩
    · exact hSame
    · exact absurd hCaptures hKept

/-- The move with the rule off and on: one sown board, from which a capture takes the stones
opposite. -/
theorem stateFromMove_withBigWin (hst : WellFormed R st) (hn : n < R.numPits)
    (hs : 0 < stonesIn R st n) :
    ∃ sown, Sown R st n sown ∧
      sow R (mancalaPit R (otherPlayer st.turn)) (stonesIn R st n).toNat
        (st.board.set (startPos R st n).toNat 0) (startPos R st n) =
          .ok (sown, stopPos R st n) ∧
      stateFromMove (R.withBigWin false) st n =
        .ok (some ⟨sown, turnAfter R st (stopPos R st n)⟩) ∧
      ∃ board, stateFromMove (R.withBigWin true) st n =
          .ok (some ⟨board, turnAfter R st (stopPos R st n)⟩) ∧
        (OwnPit R st.turn (stopPos R st n) ∧ entry sown (stopPos R st n) = 1 →
          TakenOpposite R st.turn (stopPos R st n) sown board) ∧
        (¬(OwnPit R st.turn (stopPos R st n) ∧ entry sown (stopPos R st n) = 1) →
          board = sown) := by
  obtain ⟨hs0, hSize, -⟩ := ownPit_sowable hst.turn
    (startPos_ownPit st (Int.natCast_nonneg n) (by exact_mod_cast hn))
  obtain ⟨sown, hRun, hSown⟩ := sow_sown hst hs0 hSize
  obtain ⟨off, hOff, -, hSame⟩ := stateFromMove_sown false hst hn hs hSown
  obtain ⟨on, hOn, hTaken, hKept⟩ := stateFromMove_sown true hst hn hs hSown
  cases hSame fun hCaptures => Bool.false_ne_true hCaptures.1
  refine ⟨sown, hSown, hRun, hOff, on, hOn, ?_, ?_⟩
  · intro hCaptures
    exact hTaken ⟨rfl, hCaptures⟩
  · intro hNot
    exact hKept fun hCaptures => hNot hCaptures.2

/-- **Sowing in closed form.** -/
theorem sowing_closed_form (hst : WellFormed R st) (hn : n < R.numPits)
    (hs : 0 < stonesIn R st n) :
    let last := atDistance R st n ((stonesIn R st n).toNat % lap R)
    ∃ sown, Dealt R st n sown ∧
      sow R (mancalaPit R (otherPlayer st.turn)) (stonesIn R st n).toNat
        (st.board.set (startPos R st n).toNat 0) (startPos R st n) = .ok (sown, last) ∧
      stateFromMove (R.withBigWin false) st n = .ok (some ⟨sown, turnAfter R st last⟩) ∧
      ∃ board, stateFromMove (R.withBigWin true) st n =
          .ok (some ⟨board, turnAfter R st last⟩) ∧
        (OwnPit R st.turn last ∧ entry sown last = 1 →
          TakenOpposite R st.turn last sown board) ∧
        (¬(OwnPit R st.turn last ∧ entry sown last = 1) → board = sown) := by
  dsimp only
  rw [← stopPos_eq hst hn]
  obtain ⟨sown, hSown, hMoves⟩ := stateFromMove_withBigWin hst hn hs
  exact ⟨sown, hSown.dealt hst hn, hMoves⟩

/-- One pit a side, and a move that goes once round the board. -/
def lapRules : Rules where
  numPits := 1
  initialStonesPerPit := 3
  goAgainRule := true
  bigWinRule := true
  numPits_pos := by decide

def lapState : State := ⟨[3, 0, 2, 0], player1⟩

/-- The last stone falls back into the pit, which takes the three stones opposite. -/
theorem sowing_closed_form_lap :
    ∃ sown, Dealt lapRules lapState 0 sown ∧ ∃ board,
      stateFromMove (lapRules.withBigWin true) lapState 0 = .ok (some ⟨board, player2⟩) ∧
      TakenOpposite lapRules player1 0 sown board := by
  have hst : WellFormed lapRules lapState := by decide
  obtain ⟨sown, hDealt, hRun, -, board, hMove, hTaken, -⟩ :=
    sowing_closed_form (n := 0) hst (by decide) (by decide)
  refine ⟨sown, hDealt, board, hMove, hTaken ⟨⟨by decide, by decide⟩, ?_⟩⟩
  cases hRun
  decide

end Windborne.Mancala
