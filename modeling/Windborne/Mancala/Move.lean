import Windborne.Mancala.Sowing

/-!
# What a move does

`Moved` collects what a successful `stateFromMove` does to a well-formed state, and
`stateFromMove_cases` says that a pit of the mover is either empty, with result `none`, or
yields a well-formed successor; no index error occurs on the way. `moves_spec` and
`gameOverp_spec` describe the list of successors and the end of the game by the pits of
the mover.
-/

namespace Windborne.Mancala

open Library

/-! ## The big win -/

/-- The last stone fell into an empty pit of the mover's own. -/
def Captures (R : Rules) (player : Int) (sown : List Int) (last : Int) : Prop :=
  R.bigWinRule = true ∧ OwnPit R player last ∧ entry sown last = 1

theorem bigWin_keep {R : Rules} {player last : Int} {sown : List Int}
    (hPlayer : player = player1 ∨ player = player2) (hLength : (sown.length : Int) = boardSize R)
    (h0 : 0 ≤ last) (h : last < boardSize R) (hNot : ¬ Captures R player sown last) :
    bigWin R sown last player (mancalaPit R player) = .ok sown := by
  unfold bigWin
  split
  · rename_i hOwn
    have hSide := (playerOwner_eq_iff hPlayer h0 h).mp hOwn.2
    simp only [svref_ok h0 (hLength ▸ h), ok_bind]
    rw [if_neg, pure_eq_ok]
    rintro ⟨hOne, hMine⟩
    exact hNot ⟨hOwn.1, ⟨hSide.1, lt_of_le_of_ne hSide.2 hMine⟩, hOne⟩
  · rfl

theorem bigWin_capture {R : Rules} {player last : Int} {sown : List Int}
    (hPlayer : player = player1 ∨ player = player2) (hLength : (sown.length : Int) = boardSize R)
    (hNonneg : ∀ v ∈ sown, 0 ≤ v) (hCap : Captures R player sown last) :
    ∃ board, bigWin R sown last player (mancalaPit R player) = .ok board ∧
      (board.length : Int) = boardSize R ∧ (∀ v ∈ board, 0 ≤ v) ∧
      ∀ w, weigh w 0 board = weigh w 0 sown +
        entry sown (pitOpposite R last) * (w (mancalaPit R player) - w (pitOpposite R last)) := by
  obtain ⟨hRule, hOwn, hOne⟩ := hCap
  obtain ⟨hl0, hl, -⟩ := ownPit_sowable hPlayer hOwn
  obtain ⟨hm0, hm, -⟩ := mancalaPit_sowable R hPlayer
  have hOpp := pitOpposite_ownPit hPlayer hOwn
  obtain ⟨ho0, ho, -⟩ := ownPit_sowable (otherPlayer_turn hPlayer) hOpp
  have hOwner := (playerOwner_eq_iff hPlayer hl0 hl).mpr ⟨hOwn.1, hOwn.2.le⟩
  have hNe : mancalaPit R player ≠ pitOpposite R last := by
    have hSides := leftPit_cases R hPlayer
    unfold OwnPit at hOpp
    rw [mancalaPit_eq] at hOpp ⊢
    omega
  generalize hMy : mancalaPit R player = my at *
  generalize hOp : pitOpposite R last = opp at *
  have hMine := entry_nonneg hNonneg my
  have hTheirs := entry_nonneg hNonneg opp
  let mid := sown.set my.toNat (entry sown my + entry sown opp)
  have hMid : (mid.length : Int) = boardSize R := by simpa [mid] using hLength
  have hMidOpp : entry mid opp = entry sown opp := by
    rw [entry, weigh_write _ hm0 (hLength ▸ hm), pick_ne hNe]
    simp [entry]
  refine ⟨mid.set opp.toNat 0, ?_, ?_, ?_, ?_⟩
  · unfold bigWin
    rw [if_pos ⟨hRule, hOwner⟩]
    simp only [svref_ok hl0 (hLength ▸ hl), ok_bind, hOne, hOp]
    rw [if_pos ⟨trivial, hMy ▸ hOwn.2.ne⟩]
    simp only [svref_ok hm0 (hLength ▸ hm), svref_ok ho0 (hLength ▸ ho),
      setSvref_ok hm0 (hLength ▸ hm), ok_bind]
    exact setSvref_ok ho0 (hMid ▸ ho) 0
  · simpa using hMid
  · exact set_nonneg (set_nonneg hNonneg _ (add_nonneg hMine hTheirs)) _ le_rfl
  · intro w
    rw [weigh_write w ho0 (hMid ▸ ho), hMidOpp, weigh_write w hm0 (hLength ▸ hm)]
    ring

/-! ## One move -/

/-- The position of the mover's pit `n`. -/
def startPos (R : Rules) (st : State) (n : Int) : Int := n + leftPit R st.turn

/-- The stones in the mover's pit `n`. -/
def stonesIn (R : Rules) (st : State) (n : Int) : Int := entry st.board (startPos R st n)

/-- The positions that get a stone when pit `n` is sown. -/
def visited (R : Rules) (st : State) (n : Int) : List Int :=
  path R (mancalaPit R (otherPlayer st.turn)) (stonesIn R st n).toNat (startPos R st n)

/-- The position of the last stone. -/
def stopPos (R : Rules) (st : State) (n : Int) : Int :=
  lastPos R (mancalaPit R (otherPlayer st.turn)) (stonesIn R st n).toNat (startPos R st n)

/-- The board after sowing pit `n`, before the big win. -/
structure Sown (R : Rules) (st : State) (n : Int) (sown : List Int) : Prop where
  length : (sown.length : Int) = boardSize R
  nonneg : ∀ v ∈ sown, 0 ≤ v
  weigh : ∀ w, weigh w 0 sown = weigh w 0 st.board - stonesIn R st n * w (startPos R st n) +
    ((visited R st n).map w).sum

/-- The effect of the move `n`. -/
structure Moved (R : Rules) (st : State) (n : Int) (st' : State) : Prop where
  wellFormed : WellFormed R st'
  turn : st'.turn = if R.goAgainRule = true ∧ stopPos R st n = mancalaPit R st.turn then st.turn
    else 1 - st.turn
  board : ∃ sown, Sown R st n sown ∧
    ((¬ Captures R st.turn sown (stopPos R st n) ∧ st'.board = sown) ∨
      (Captures R st.turn sown (stopPos R st n) ∧
        ∀ w, Library.weigh w 0 st'.board = Library.weigh w 0 sown +
          entry sown (pitOpposite R (stopPos R st n)) *
            (w (mancalaPit R st.turn) - w (pitOpposite R (stopPos R st n)))))

theorem startPos_ownPit {R : Rules} (st : State) {n : Int} (h0 : 0 ≤ n) (h : n < R.numPits) :
    OwnPit R st.turn (startPos R st n) := by
  unfold OwnPit startPos
  rw [mancalaPit_eq]
  omega

/-- The sowing loop on the emptied board. -/
theorem sow_sown {R : Rules} {st : State} {n : Int} (hst : WellFormed R st)
    (h0 : 0 ≤ startPos R st n) (h : startPos R st n < boardSize R) :
    ∃ sown, sow R (mancalaPit R (otherPlayer st.turn)) (stonesIn R st n).toNat
        (st.board.set (startPos R st n).toNat 0) (startPos R st n) =
          .ok (sown, stopPos R st n) ∧ Sown R st n sown := by
  obtain ⟨sown, hRun, hLength, hNonneg, hWeigh⟩ :=
    @sow_spec R (otherPlayer st.turn) (stonesIn R st n).toNat
      (st.board.set (startPos R st n).toNat 0) (startPos R st n) (by simpa using hst.length)
      (set_nonneg hst.nonneg _ le_rfl) h0 h
  refine ⟨sown, hRun, hLength, hNonneg, fun w => ?_⟩
  rw [hWeigh, weigh_write w h0 (hst.length ▸ h)]
  unfold visited stonesIn
  ring

/-- Sowing works from every position but the skipped mancala: an empty one gives `none`, every
other one a well-formed state. -/
theorem stateFromMove_cases_of_sowable {R : Rules} {st : State} {n : Int} (hst : WellFormed R st)
    (hStart : Sowable R (mancalaPit R (otherPlayer st.turn)) (startPos R st n)) :
    (stonesIn R st n = 0 ∧ stateFromMove R st n = .ok none) ∨
      (0 < stonesIn R st n ∧ ∃ st', stateFromMove R st n = .ok (some st') ∧ Moved R st n st') := by
  have hLength := hst.length
  obtain ⟨hs0, hs, hskip⟩ := hStart
  have hRead : svref st.board (n + leftPit R st.turn) = .ok (stonesIn R st n) :=
    svref_ok hs0 (hLength ▸ hs)
  rcases (entry_nonneg hst.nonneg (startPos R st n)).eq_or_lt with hZero | hPos
  · refine Or.inl ⟨hZero.symm, ?_⟩
    have hNone : stonesIn R st n = 0 := hZero.symm
    simp only [stateFromMove, pitIndices_eq R hst.turn, hRead, ok_bind, hNone, if_true, pure_eq_ok]
  · refine Or.inr ⟨hPos, ?_⟩
    have hSome : stonesIn R st n ≠ 0 := hPos.ne'
    -- the emptied board, the sown board and the board after a big win
    obtain ⟨sown, hRun, hSown⟩ := sow_sown hst hs0 hs
    have hLen := hSown.length
    have hNonneg := hSown.nonneg
    have hStop := lastPos_sowable (stonesIn R st n).toNat ⟨hs0, hs, hskip⟩
    have hTurn : ∀ c : Prop, [Decidable c] →
        (if c then st.turn else 1 - st.turn) = player1 ∨
          (if c then st.turn else 1 - st.turn) = player2 := by
      intro c _
      split
      · exact hst.turn
      · exact otherPlayer_turn hst.turn
    have hWrite : setSvref st.board (n + leftPit R st.turn) 0 =
        .ok (st.board.set (startPos R st n).toNat 0) := setSvref_ok hs0 (hLength ▸ hs) 0
    have hFinish : ∀ board, bigWin R sown (stopPos R st n) st.turn (mancalaPit R st.turn) =
        .ok board → stateFromMove R st n = .ok (some
          ⟨board, if R.goAgainRule = true ∧ stopPos R st n = mancalaPit R st.turn then st.turn
            else 1 - st.turn⟩) := by
      intro board hBoard
      have hRun' : sow R (mancalaPit R (otherPlayer st.turn)) (stonesIn R st n).toNat
          (st.board.set (startPos R st n).toNat 0) (n + leftPit R st.turn) =
            .ok (sown, stopPos R st n) := hRun
      simp only [stateFromMove, pitIndices_eq R hst.turn, hRead, ok_bind, hSome, if_false, hWrite,
        hRun', hBoard, pure_eq_ok]
    by_cases hCap : Captures R st.turn sown (stopPos R st n)
    · obtain ⟨board, hBoard, hBLen, hBNonneg, hBWeigh⟩ :=
        bigWin_capture hst.turn hLen hNonneg hCap
      exact ⟨_, hFinish board hBoard, ⟨hBLen, hBNonneg, hTurn _⟩, rfl,
        sown, hSown, Or.inr ⟨hCap, hBWeigh⟩⟩
    · exact ⟨_, hFinish sown (bigWin_keep hst.turn hLen hStop.1 hStop.2.1 hCap),
        ⟨hLen, hNonneg, hTurn _⟩, rfl, sown, hSown, Or.inl ⟨hCap, rfl⟩⟩

/-- **One move.** On a well-formed state an empty pit gives `none`, and every other pit of
the mover a well-formed successor. -/
theorem stateFromMove_cases {R : Rules} {st : State} {n : Int} (hst : WellFormed R st)
    (h0 : 0 ≤ n) (h : n < R.numPits) :
    (stonesIn R st n = 0 ∧ stateFromMove R st n = .ok none) ∨
      (0 < stonesIn R st n ∧ ∃ st', stateFromMove R st n = .ok (some st') ∧ Moved R st n st') :=
  stateFromMove_cases_of_sowable hst (ownPit_sowable hst.turn (startPos_ownPit st h0 h))

theorem stateFromMove_of_pos {R : Rules} {st : State} {n : Int} (hst : WellFormed R st)
    (h0 : 0 ≤ n) (h : n < R.numPits) (hPos : 0 < stonesIn R st n) :
    ∃ st', stateFromMove R st n = .ok (some st') ∧ Moved R st n st' := by
  rcases stateFromMove_cases hst h0 h with ⟨hZero, -⟩ | ⟨-, hMove⟩
  · exact absurd hZero hPos.ne'
  · exact hMove

/-- A successful move is a `Moved` step. -/
theorem moved_of_stateFromMove {R : Rules} {st st' : State} {n : Int} (hst : WellFormed R st)
    (h0 : 0 ≤ n) (h : n < R.numPits) (hMove : stateFromMove R st n = .ok (some st')) :
    0 < stonesIn R st n ∧ Moved R st n st' := by
  rcases stateFromMove_cases hst h0 h with ⟨-, hNone⟩ | ⟨hPos, st'', hRun, hMoved⟩
  · rw [hNone] at hMove
    cases hMove
  · rw [hRun] at hMove
    cases hMove
    exact ⟨hPos, hMoved⟩

/-! ## The successors of a state -/

/-- The successor by pit `n`, if there is one. -/
def successor (R : Rules) (st : State) (n : Int) : Option State :=
  match stateFromMove R st n with
  | .ok result => result
  | .error _ => none

theorem stateFromMove_eq_successor {R : Rules} {st : State} {n : Int} (hst : WellFormed R st)
    (h0 : 0 ≤ n) (h : n < R.numPits) : stateFromMove R st n = .ok (successor R st n) := by
  unfold successor
  rcases stateFromMove_cases hst h0 h with ⟨-, hRun⟩ | ⟨-, st', hRun, -⟩ <;> rw [hRun]

theorem foldlM_push (xs : List Nat) {f : Nat → Result (Option State)} {g : Nat → Option State}
    (hf : ∀ x ∈ xs, f x = .ok (g x)) (bag : List State) :
    xs.foldlM (fun bag x => do
        match ← f x with
        | some move => return move :: bag
        | none => return bag) bag = (.ok ((xs.filterMap g).reverse ++ bag) : Result _) := by
  induction xs generalizing bag with
  | nil => rfl
  | cons x xs ih =>
    have hRest := fun bag => ih (fun y hy => hf y (List.mem_cons_of_mem _ hy)) bag
    rw [List.foldlM_cons, hf x List.mem_cons_self, ok_bind]
    cases hx : g x with
    | none => simpa [hx] using hRest bag
    | some move => simpa [hx] using hRest (move :: bag)

theorem foldlM_push_ok {xs : List Nat} {f : Nat → Result (Option State)} {bag result : List State}
    (h : xs.foldlM (fun bag x => do
        match ← f x with
        | some move => return move :: bag
        | none => return bag) bag = .ok result) : ∀ x ∈ xs, ∃ r, f x = .ok r := by
  induction xs generalizing bag with
  | nil => simp
  | cons x xs ih =>
    rw [List.foldlM_cons] at h
    obtain ⟨bag', hFirst, hRest⟩ := bind_eq_ok.mp h
    obtain ⟨r, hRun, -⟩ := bind_eq_ok.mp hFirst
    intro y hy
    rcases List.mem_cons.mp hy with rfl | hTail
    · exact ⟨r, hRun⟩
    · exact ih hRest y hTail

/-- The successors of a well-formed state, in the order of `moves`. -/
def successors (R : Rules) (st : State) : List State :=
  ((List.range R.numPits).filterMap fun (x : Nat) => successor R st x).reverse

theorem moves_spec {R : Rules} {st : State} (hst : WellFormed R st) :
    moves R st = .ok (successors R st) := by
  have h := foldlM_push (List.range R.numPits) (f := fun (x : Nat) => stateFromMove R st x)
    (g := fun (x : Nat) => successor R st x)
    (fun x hx => stateFromMove_eq_successor hst (Int.natCast_nonneg x)
      (by simpa using List.mem_range.mp hx)) []
  rw [List.append_nil] at h
  exact h

/-- Where `moves` returns a list, no pit signals an error. -/
theorem stateFromMove_of_moves {R : Rules} {st : State} {bag : List State}
    (h : moves R st = .ok bag) {x : Nat} (hx : x < R.numPits) :
    stateFromMove R st x = .ok (successor R st x) := by
  have hAll : ∀ x ∈ List.range R.numPits, ∃ r, stateFromMove R st (x : Nat) = .ok r :=
    foldlM_push_ok h
  obtain ⟨r, hr⟩ := hAll x (List.mem_range.mpr hx)
  rw [successor, hr]

theorem moves_ok {R : Rules} {st : State} {bag : List State} (h : moves R st = .ok bag) :
    bag = successors R st := by
  have hPush := foldlM_push (List.range R.numPits) (f := fun (x : Nat) => stateFromMove R st x)
    (g := fun (x : Nat) => successor R st x)
    (fun x hx => stateFromMove_of_moves h (List.mem_range.mp hx)) []
  rw [List.append_nil] at hPush
  exact Except.ok.inj (h.symm.trans hPush)

theorem mem_successors {R : Rules} {st st' : State} (hst : WellFormed R st) :
    st' ∈ successors R st ↔
      ∃ n : Int, 0 ≤ n ∧ n < R.numPits ∧ stateFromMove R st n = .ok (some st') := by
  simp only [successors, List.mem_reverse, List.mem_filterMap, List.mem_range]
  constructor
  · rintro ⟨x, hx, hSucc⟩
    refine ⟨x, Int.natCast_nonneg x, by exact_mod_cast hx, ?_⟩
    rw [stateFromMove_eq_successor hst (Int.natCast_nonneg x) (by exact_mod_cast hx), hSucc]
  · rintro ⟨n, h0, h, hRun⟩
    lift n to Nat using h0
    exact ⟨n, by exact_mod_cast h, by simp only [successor, hRun]⟩

theorem successor_wellFormed {R : Rules} {st st' : State} (hst : WellFormed R st)
    (h : st' ∈ successors R st) : WellFormed R st' := by
  obtain ⟨n, h0, hn, hRun⟩ := (mem_successors hst).mp h
  exact (moved_of_stateFromMove hst h0 hn hRun).2.wellFormed

theorem allM_ok {xs : List Nat} {f : Nat → Result Bool} {g : Nat → Bool}
    (hf : ∀ x ∈ xs, f x = .ok (g x)) : xs.allM f = (.ok (xs.all g) : Result Bool) := by
  induction xs with
  | nil => rfl
  | cons x xs ih =>
    rw [List.allM, hf x List.mem_cons_self, ok_bind, List.all_cons]
    cases g x with
    | false => rfl
    | true => simpa using ih fun y hy => hf y (List.mem_cons_of_mem _ hy)

/-- Where `allM` returns, it stopped at a `false` or went through. -/
theorem allM_cases {xs : List Nat} {f : Nat → Result Bool} {b : Bool}
    (h : xs.allM f = .ok b) :
    (b = true ∧ ∀ x ∈ xs, f x = .ok true) ∨ (b = false ∧ ∃ x ∈ xs, f x = .ok false) := by
  induction xs with
  | nil =>
    cases h
    exact Or.inl ⟨rfl, by simp⟩
  | cons x xs ih =>
    rw [List.allM] at h
    obtain ⟨c, hc, h⟩ := bind_eq_ok.mp h
    cases c with
    | false =>
      cases h
      exact Or.inr ⟨rfl, x, List.mem_cons_self, hc⟩
    | true =>
      rcases ih h with ⟨hb, hAll⟩ | ⟨hb, y, hy, hFalse⟩
      · exact Or.inl ⟨hb, by simpa using ⟨hc, hAll⟩⟩
      · exact Or.inr ⟨hb, y, List.mem_cons_of_mem _ hy, hFalse⟩

/-- Every pit of the mover is empty. -/
def gameOver (R : Rules) (st : State) : Bool :=
  (List.range R.numPits).all fun (x : Nat) => stonesIn R st x == 0

theorem gameOverp_spec {R : Rules} {st : State} (hst : WellFormed R st) :
    gameOverp R st = .ok (gameOver R st) := by
  apply allM_ok
  intro x hx
  have hPit := startPos_ownPit st (Int.natCast_nonneg x)
    (by exact_mod_cast List.mem_range.mp hx : (x : Int) < R.numPits)
  obtain ⟨h0, h, -⟩ := ownPit_sowable hst.turn hPit
  have hRead : svref st.board (x + leftPit R st.turn) = .ok (stonesIn R st x) :=
    svref_ok h0 (hst.length ▸ h)
  rw [hRead]
  rfl

theorem stonesIn_of_svref {R : Rules} {st : State} {x : Nat} {b : Bool}
    (h : (do return (← svref st.board (x + leftPit R st.turn)) == 0 : Result Bool) = .ok b) :
    svref st.board (x + leftPit R st.turn) = .ok (stonesIn R st x) ∧
      b = (stonesIn R st x == 0) := by
  obtain ⟨v, hv, hb⟩ := bind_eq_ok.mp h
  have hEntry : v = stonesIn R st x := entry_of_svref hv
  cases hb
  rw [hv, hEntry]
  exact ⟨rfl, rfl⟩

/-- Where the test returns an answer, it is the right one. -/
theorem gameOverp_ok {R : Rules} {st : State} {b : Bool} (h : gameOverp R st = .ok b) :
    b = gameOver R st := by
  rcases allM_cases h with ⟨rfl, hAll⟩ | ⟨rfl, x, hx, hFalse⟩
  · symm
    rw [gameOver, List.all_eq_true]
    intro x hx
    exact (stonesIn_of_svref (hAll x hx)).2.symm
  · symm
    rw [gameOver, List.all_eq_false]
    exact ⟨x, hx, by rw [← (stonesIn_of_svref hFalse).2]; simp⟩

/-- The difference of the mancalas. -/
theorem score_spec {R : Rules} {st : State} {player : Int} (hst : WellFormed R st)
    (hPlayer : player = player1 ∨ player = player2) :
    score R st (some player) = .ok (entry st.board (mancalaPit R player) -
      entry st.board (mancalaPit R (otherPlayer player))) := by
  obtain ⟨hm0, hm, -⟩ := mancalaPit_sowable R hPlayer
  obtain ⟨ho0, ho, -⟩ := mancalaPit_sowable R (otherPlayer_turn hPlayer)
  have hSame : (if player = player1 then player1 else player2) = player := by
    rcases hPlayer with rfl | rfl <;> rfl
  unfold score
  simp only [hSame, svref_ok hm0 (hst.length ▸ hm), svref_ok ho0 (hst.length ▸ ho), ok_bind]
  rfl

theorem pitIndices_fst (R : Rules) (playerTurn n : Int) :
    (pitIndices R playerTurn n).1 = n + leftPit R playerTurn := by
  unfold pitIndices
  split
  · rename_i hTurn
    rw [hTurn]
  · rename_i hTurn
    rw [leftPit, leftPit, if_neg hTurn, if_neg (by decide)]

/-- A pit that holds stones gives a successor or an error. -/
theorem stateFromMove_ne_none {R : Rules} {st : State} {n v : Int} {result : Option State}
    (hRead : svref st.board (n + leftPit R st.turn) = .ok v) (hv : v ≠ 0)
    (h : stateFromMove R st n = .ok result) : result ≠ none := by
  unfold stateFromMove at h
  simp only [pitIndices_fst, hRead, ok_bind, if_neg hv] at h
  obtain ⟨board, -, h⟩ := bind_eq_ok.mp h
  obtain ⟨⟨sown, curPos⟩, -, h⟩ := bind_eq_ok.mp h
  obtain ⟨won, -, h⟩ := bind_eq_ok.mp h
  cases h
  exact Option.some_ne_none _

/-- A state that is found not to be over has a move. -/
theorem moves_ne_nil {R : Rules} {st : State} {bag : List State} (h : moves R st = .ok bag)
    (hOver : gameOverp R st = .ok false) : bag ≠ [] := by
  rcases allM_cases hOver with ⟨hTrue, -⟩ | ⟨-, x, hx, hFalse⟩
  · cases hTrue
  · obtain ⟨hRead, hStones⟩ := stonesIn_of_svref hFalse
    have hSome := stateFromMove_ne_none hRead (by simpa using hStones.symm)
      (stateFromMove_of_moves h (List.mem_range.mp hx))
    rw [moves_ok h, successors, Ne, List.reverse_eq_nil_iff, List.filterMap_eq_nil_iff]
    exact fun hNil => hSome (hNil x hx)

/-- The game is over exactly when there is no successor. -/
theorem gameOver_iff {R : Rules} {st : State} (hst : WellFormed R st) :
    gameOver R st = true ↔ successors R st = [] := by
  simp only [gameOver, List.all_eq_true, List.mem_range, beq_iff_eq, successors,
    List.reverse_eq_nil_iff, List.filterMap_eq_nil_iff]
  refine forall₂_congr fun x hx => ?_
  have hRun := stateFromMove_eq_successor hst (Int.natCast_nonneg x) (by exact_mod_cast hx)
  rcases stateFromMove_cases hst (Int.natCast_nonneg x) (by exact_mod_cast hx) with
    ⟨hZero, hNone⟩ | ⟨hPos, st', hSome, -⟩
  · rw [hNone] at hRun
    exact iff_of_true hZero (Except.ok.inj hRun).symm
  · rw [hSome] at hRun
    refine iff_of_false hPos.ne' ?_
    rw [← Except.ok.inj hRun]
    exact Option.some_ne_none st'

end Windborne.Mancala
