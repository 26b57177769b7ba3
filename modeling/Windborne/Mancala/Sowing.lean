import Windborne.Library.Results
import Windborne.Library.Weigh
import Windborne.Mancala.Engine

/-!
# The sowing loop and the two sides of the board

The sowing loop visits the positions `path` and adds one stone at each of them. Its effect
is stated once, for every weight on the positions (`sow_spec`); totals, single pits and
potentials are instances. The second half of the file describes the sides of the board:
the pits of a player, the mancala after them, and the pits opposite.
-/

namespace Windborne.Mancala

open Library

/-! ## Reading and writing inside the board -/

/-- The stones at an index of the board. -/
def entry (board : List Int) (i : Int) : Int := weigh (pick i) 0 board

theorem entry_eq_getElem {board : List Int} {i : Int} (h0 : 0 ≤ i) (h : i.toNat < board.length) :
    entry board i = board[i.toNat] := by
  have hi : (0 : Int) + (i.toNat : Int) = i := by omega
  have := weigh_pick 0 board i.toNat h
  rwa [hi] at this

theorem svref_ok {board : List Int} {i : Int} (h0 : 0 ≤ i) (h : i < board.length) :
    svref board i = .ok (entry board i) := by
  have hi : i.toNat < board.length := by omega
  rw [entry_eq_getElem h0 hi]
  simp only [svref, h0, if_true, List.getElem?_eq_getElem hi]

theorem entry_of_svref {board : List Int} {i v : Int} (h : svref board i = .ok v) :
    v = entry board i := by
  unfold svref at h
  split at h
  · rename_i h0
    split at h
    · rename_i stones hGet
      obtain ⟨hi, hEq⟩ := List.getElem?_eq_some_iff.mp hGet
      cases h
      rw [entry_eq_getElem h0 hi, hEq]
    · cases h
  · cases h

theorem setSvref_ok {board : List Int} {i : Int} (h0 : 0 ≤ i) (h : i < board.length) (v : Int) :
    setSvref board i v = .ok (board.set i.toNat v) :=
  if_pos ⟨h0, by omega⟩

theorem weigh_write (w : Int → Int) {board : List Int} {i : Int} (h0 : 0 ≤ i)
    (h : i < board.length) (v : Int) :
    weigh w 0 (board.set i.toNat v) = weigh w 0 board + w i * (v - entry board i) := by
  have hi : i.toNat < board.length := by omega
  rw [weigh_set w 0 board i.toNat v hi, entry_eq_getElem h0 hi]
  have : (0 : Int) + (i.toNat : Int) = i := by omega
  rw [this]

theorem entry_nonneg {board : List Int} (h : ∀ v ∈ board, 0 ≤ v) (i : Int) :
    0 ≤ entry board i :=
  weigh_nonneg (pick_nonneg i) 0 h

theorem set_nonneg {board : List Int} (h : ∀ v ∈ board, 0 ≤ v) (i : Nat) {x : Int} (hx : 0 ≤ x) :
    ∀ v ∈ board.set i x, 0 ≤ v := by
  intro v hv
  rcases List.mem_or_eq_of_mem_set hv with hv | rfl
  · exact h v hv
  · exact hx

/-! ## The path of the sowing loop -/

/-- The positions visited by the loop, in order. -/
def path (R : Rules) (skipMancala : Int) : Nat → Int → List Int
  | 0, _ => []
  | stones + 1, curPos =>
    advance R skipMancala curPos :: path R skipMancala stones (advance R skipMancala curPos)

/-- The position where the loop stops. -/
def lastPos (R : Rules) (skipMancala : Int) (stones : Nat) (curPos : Int) : Int :=
  (path R skipMancala stones curPos).getLastD curPos

theorem lastPos_succ (R : Rules) (skip : Int) (stones : Nat) (cur : Int) :
    lastPos R skip (stones + 1) cur = lastPos R skip stones (advance R skip cur) :=
  List.getLastD_cons ..

/-- A position that is not the mancala the sower skips. -/
def Sowable (R : Rules) (skipMancala i : Int) : Prop :=
  0 ≤ i ∧ i < boardSize R ∧ i ≠ skipMancala

theorem mancalaPit_cases (R : Rules) (player : Int) :
    mancalaPit R player = R.numPits ∨ mancalaPit R player = 1 + 2 * R.numPits := by
  unfold mancalaPit
  split
  · exact Or.inl rfl
  · exact Or.inr rfl

theorem advance_sowable {R : Rules} (player : Int) {cur : Int} (h0 : 0 ≤ cur)
    (h : cur < boardSize R) :
    Sowable R (mancalaPit R player) (advance R (mancalaPit R player) cur) := by
  have hp := R.numPits_pos
  have hm := mancalaPit_cases R player
  unfold Sowable advance boardSize at *
  dsimp only
  split_ifs <;> omega

theorem path_sowable {R : Rules} {player : Int} (stones : Nat) {cur : Int} (h0 : 0 ≤ cur)
    (h : cur < boardSize R) :
    ∀ i ∈ path R (mancalaPit R player) stones cur, Sowable R (mancalaPit R player) i := by
  induction stones generalizing cur with
  | zero => simp [path]
  | succ stones ih =>
    have hNext := advance_sowable player h0 h
    intro i hi
    rcases List.mem_cons.mp hi with rfl | hi
    · exact hNext
    · exact ih hNext.1 hNext.2.1 i hi

theorem lastPos_sowable {R : Rules} {player : Int} (stones : Nat) {cur : Int}
    (h : Sowable R (mancalaPit R player) cur) :
    Sowable R (mancalaPit R player) (lastPos R (mancalaPit R player) stones cur) := by
  induction stones generalizing cur with
  | zero => exact h
  | succ stones ih =>
    rw [lastPos_succ]
    exact ih (advance_sowable player h.1 h.2.1)

theorem path_length (R : Rules) (skip : Int) (stones : Nat) (cur : Int) :
    (path R skip stones cur).length = stones := by
  induction stones generalizing cur with
  | zero => rfl
  | succ stones ih => simp [path, ih]

/-- **The sowing loop.** It never leaves the board, stops at the end of its path and adds
one stone at each position of the path. -/
theorem sow_spec {R : Rules} (player : Int) (stones : Nat) {board : List Int} {cur : Int}
    (hLength : (board.length : Int) = boardSize R) (hNonneg : ∀ v ∈ board, 0 ≤ v)
    (h0 : 0 ≤ cur) (h : cur < boardSize R) :
    ∃ sown, sow R (mancalaPit R player) stones board cur =
        .ok (sown, lastPos R (mancalaPit R player) stones cur) ∧
      (sown.length : Int) = boardSize R ∧ (∀ v ∈ sown, 0 ≤ v) ∧
      ∀ w, weigh w 0 sown =
        weigh w 0 board + ((path R (mancalaPit R player) stones cur).map w).sum := by
  induction stones generalizing board cur with
  | zero => exact ⟨board, rfl, hLength, hNonneg, by simp [path]⟩
  | succ stones ih =>
    obtain ⟨hn0, hn, -⟩ := advance_sowable player h0 h
    generalize hNext : advance R (mancalaPit R player) cur = next at hn0 hn
    have hEntry := entry_nonneg hNonneg next
    obtain ⟨sown, hRun, hLen, hPos, hWeigh⟩ :=
      @ih (board.set next.toNat (entry board next + 1)) next (by simpa using hLength)
        (set_nonneg hNonneg _ (by omega)) hn0 hn
    refine ⟨sown, ?_, hLen, hPos, ?_⟩
    · rw [sow, lastPos_succ, hNext]
      simp only [svref_ok hn0 (hLength ▸ hn), setSvref_ok hn0 (hLength ▸ hn), ok_bind]
      exact hRun
    · intro w
      rw [hWeigh, weigh_write w hn0 (hLength ▸ hn), path, hNext, List.map_cons, List.sum_cons]
      ring

/-! ## The two sides of the board -/

theorem otherPlayer_turn {player : Int} (h : player = player1 ∨ player = player2) :
    otherPlayer player = player1 ∨ otherPlayer player = player2 := by
  rcases h with rfl | rfl
  · exact Or.inr rfl
  · exact Or.inl rfl

theorem pitIndices_eq (R : Rules) {player : Int} (h : player = player1 ∨ player = player2)
    (n : Int) : pitIndices R player n =
      (n + leftPit R player, mancalaPit R (otherPlayer player), mancalaPit R player) := by
  rcases h with rfl | rfl <;> rfl

/-- The pits of a player lie between `left-pit` and the mancala. -/
def OwnPit (R : Rules) (player i : Int) : Prop :=
  leftPit R player ≤ i ∧ i < mancalaPit R player

theorem mancalaPit_eq (R : Rules) (player : Int) :
    mancalaPit R player = leftPit R player + R.numPits := by
  unfold mancalaPit leftPit
  split <;> omega

theorem leftPit_cases (R : Rules) {player : Int} (h : player = player1 ∨ player = player2) :
    (leftPit R player = 0 ∧ leftPit R (otherPlayer player) = 1 + R.numPits) ∨
      (leftPit R player = 1 + R.numPits ∧ leftPit R (otherPlayer player) = 0) := by
  rcases h with rfl | rfl
  · exact Or.inl ⟨rfl, rfl⟩
  · exact Or.inr ⟨rfl, rfl⟩

theorem ownPit_sowable {R : Rules} {player i : Int} (h : player = player1 ∨ player = player2)
    (hi : OwnPit R player i) : Sowable R (mancalaPit R (otherPlayer player)) i := by
  have hl := leftPit_cases R h
  unfold OwnPit Sowable boardSize at *
  rw [mancalaPit_eq] at hi ⊢
  omega

theorem mancalaPit_sowable (R : Rules) {player : Int} (h : player = player1 ∨ player = player2) :
    Sowable R (mancalaPit R (otherPlayer player)) (mancalaPit R player) := by
  have hl := leftPit_cases R h
  have hp := R.numPits_pos
  unfold Sowable boardSize
  rw [mancalaPit_eq, mancalaPit_eq R (otherPlayer player)]
  omega

theorem playerOwner_eq_iff {R : Rules} {player i : Int} (h : player = player1 ∨ player = player2)
    (h0 : 0 ≤ i) (hi : i < boardSize R) :
    playerOwner R i = player ↔ leftPit R player ≤ i ∧ i ≤ mancalaPit R player := by
  have hPos : (0 : Int) < 1 + R.numPits := by omega
  unfold boardSize at hi
  rw [mancalaPit_eq]
  unfold playerOwner
  rw [Int.tdiv_eq_ediv_of_nonneg h0]
  by_cases hLow : i < 1 + R.numPits
  · rw [Int.ediv_eq_zero_of_lt h0 hLow]
    rcases h with rfl | rfl <;> simp [leftPit, player1, player2] <;> omega
  · have hq : i / (1 + (R.numPits : Int)) = 1 := by
      apply le_antisymm
      · exact Int.lt_add_one_iff.mp (Int.ediv_lt_of_lt_mul hPos (by omega))
      · exact Int.le_ediv_of_mul_le hPos (by omega)
    rw [hq]
    rcases h with rfl | rfl <;> simp [leftPit, player1, player2] <;> omega

/-- The pit opposite a player's pit belongs to the other player. -/
theorem pitOpposite_ownPit {R : Rules} {player i : Int}
    (h : player = player1 ∨ player = player2) (hi : OwnPit R player i) :
    OwnPit R (otherPlayer player) (pitOpposite R i) := by
  have hl := leftPit_cases R h
  unfold OwnPit pitOpposite at *
  rw [mancalaPit_eq] at hi ⊢
  omega

end Windborne.Mancala
