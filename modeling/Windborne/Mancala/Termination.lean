import Mathlib.Data.Prod.Lex
import Mathlib.Order.WellFounded
import Mathlib.Tactic.Linarith
import Windborne.Mancala.Conservation
import Windborne.Mancala.Play

/-!
# Every play is finite

The measure has two parts. The first is the number of stones in the pits: it drops when a
stone reaches the mover's mancala, and no move raises it. A move that leaves the mover's
mancala alone never leaves the mover's own side and captures nothing, so each of its stones
comes nearer to that mancala; the second part, the sum of the distances of all stones to the
mancala of their side, drops.
-/

namespace Windborne.Mancala

open Library

/-! ## The measure -/

/-- Weight one on every pit, zero on the mancalas. -/
def inPit (R : Rules) (i : Int) : Int :=
  1 - pick (mancalaPit R player1) i - pick (mancalaPit R player2) i

/-- The distance of a position to the mancala of its side. -/
def distance (R : Rules) (i : Int) : Int :=
  if i ≤ mancalaPit R player1 then max 0 (mancalaPit R player1 - i)
  else max 0 (mancalaPit R player2 - i)

def stonesInPits (R : Rules) (st : State) : Int := weigh (inPit R) 0 st.board

def totalDistance (R : Rules) (st : State) : Int := weigh (distance R) 0 st.board

theorem inPit_nonneg (R : Rules) (i : Int) : 0 ≤ inPit R i := by
  have hp := R.numPits_pos
  have hNe : mancalaPit R player1 ≠ mancalaPit R player2 := by
    rw [mancalaPit_eq, mancalaPit_eq R player2]
    simp only [leftPit, player1, player2]
    simp
    omega
  unfold inPit pick
  split_ifs <;> omega

theorem distance_nonneg (R : Rules) (i : Int) : 0 ≤ distance R i := by
  unfold distance
  split
  · exact le_max_left _ _
  · exact le_max_left _ _

theorem stonesInPits_eq (R : Rules) (st : State) :
    stonesInPits R st = st.board.sum - entry st.board (mancalaPit R player1) -
      entry st.board (mancalaPit R player2) := by
  have h1 := weigh_sub (fun i => 1 - pick (mancalaPit R player1) i)
    (pick (mancalaPit R player2)) 0 st.board
  have h2 := weigh_sub (fun _ => 1) (pick (mancalaPit R player1)) 0 st.board
  rw [h2, weigh_one] at h1
  exact h1

theorem stonesInPits_eq_of_turn (R : Rules) {player : Int} (st : State)
    (h : player = player1 ∨ player = player2) :
    stonesInPits R st = st.board.sum - entry st.board (mancalaPit R player) -
      entry st.board (mancalaPit R (otherPlayer player)) := by
  rw [stonesInPits_eq]
  rcases h with rfl | rfl
  · rfl
  · exact sub_right_comm ..

/-! ## Moves that stay on the mover's side -/

theorem advance_ownPit {R : Rules} {player cur : Int}
    (h : player = player1 ∨ player = player2) (hc : OwnPit R player cur) :
    advance R (mancalaPit R (otherPlayer player)) cur = cur + 1 := by
  have hSides := leftPit_cases R h
  have hp := R.numPits_pos
  unfold OwnPit at hc
  unfold advance boardSize
  rw [mancalaPit_eq] at hc ⊢
  dsimp only
  rw [if_neg (by omega), if_neg (by omega)]

/-- A path that misses the mover's mancala stays in the mover's pits, ahead of its start. -/
theorem path_ahead {R : Rules} {player : Int} (h : player = player1 ∨ player = player2)
    (stones : Nat) {cur : Int} (hc : OwnPit R player cur)
    (hMiss : mancalaPit R player ∉ path R (mancalaPit R (otherPlayer player)) stones cur) :
    ∀ i ∈ path R (mancalaPit R (otherPlayer player)) stones cur,
      OwnPit R player i ∧ cur < i := by
  induction stones generalizing cur with
  | zero => simp [path]
  | succ stones ih =>
    rw [path, advance_ownPit h hc, List.mem_cons, not_or] at hMiss
    have hNext : OwnPit R player (cur + 1) := by
      have := hMiss.1
      unfold OwnPit at hc ⊢
      omega
    intro i hi
    rw [path, advance_ownPit h hc] at hi
    rcases List.mem_cons.mp hi with rfl | hi
    · exact ⟨hNext, by omega⟩
    · obtain ⟨hOwn, hLt⟩ := ih hNext hMiss.2 i hi
      exact ⟨hOwn, by omega⟩

theorem distance_lt {R : Rules} {player i j : Int} (h : player = player1 ∨ player = player2)
    (hi : OwnPit R player i) (hj : OwnPit R player j) (hij : i < j) :
    distance R j < distance R i := by
  have hp := R.numPits_pos
  have h1 : mancalaPit R player1 = R.numPits := rfl
  have h2 : mancalaPit R player2 = 1 + 2 * R.numPits := rfl
  have hSides := leftPit_cases R h
  unfold OwnPit at hi hj
  rw [mancalaPit_eq] at hi hj
  unfold distance
  rw [h1, h2]
  split_ifs <;> omega

theorem sum_map_le {xs : List Int} {w : Int → Int} {bound : Int} (h : ∀ i ∈ xs, w i ≤ bound) :
    (xs.map w).sum ≤ xs.length * bound := by
  induction xs with
  | nil => simp
  | cons x xs ih =>
    have hHead := h x List.mem_cons_self
    have hTail := ih fun i hi => h i (List.mem_cons_of_mem _ hi)
    simp only [List.map_cons, List.sum_cons, List.length_cons]
    push_cast
    linarith

/-! ## The measure drops -/

/-- **Step lemma.** Every move lowers the measure lexicographically. -/
theorem Move.measure_lt {R : Rules} {st st' : State} {n : Int} (hst : WellFormed R st)
    (h : Move R st n st') :
    stonesInPits R st' < stonesInPits R st ∨
      (stonesInPits R st' = stonesInPits R st ∧ totalDistance R st' < totalDistance R st) := by
  obtain ⟨h0, hn, hRun⟩ := h
  obtain ⟨hPos, hMoved⟩ := moved_of_stateFromMove hst h0 hn hRun
  obtain ⟨captured, opp, hCap, hOpp, hMine, hWeigh⟩ := hMoved.entry_mine hst h0 hn
  have hOther := hMoved.entry_other hst h0 hn
  have hSum := hMoved.sum hst
  have hSown := sum_pick_nonneg (mancalaPit R st.turn) (visited R st n)
  have hBefore := stonesInPits_eq_of_turn R st hst.turn
  have hAfter := stonesInPits_eq_of_turn R st' hst.turn
  by_cases hGain : 0 < ((visited R st n).map (pick (mancalaPit R st.turn))).sum + captured
  · exact Or.inl (by omega)
  · -- nothing reaches the mover's mancala: the sown stones stay on the mover's side
    refine Or.inr ⟨by omega, ?_⟩
    have hNone : captured = 0 := by omega
    have hOwn := startPos_ownPit st h0 hn
    have hMiss : mancalaPit R st.turn ∉ visited R st n := by
      intro hMem
      have hOne : 1 ≤ ((visited R st n).map (pick (mancalaPit R st.turn))).sum := by
        apply List.single_le_sum
        · intro x hx
          obtain ⟨i, -, rfl⟩ := List.mem_map.mp hx
          exact pick_nonneg _ i
        · exact List.mem_map.mpr ⟨_, hMem, pick_self _⟩
      omega
    have hAhead := path_ahead hst.turn _ hOwn hMiss
    have hNearer : ((visited R st n).map (distance R)).sum ≤
        (visited R st n).length * (distance R (startPos R st n) - 1) := by
      apply sum_map_le
      intro i hi
      have := distance_lt hst.turn hOwn (hAhead i hi).1 (hAhead i hi).2
      omega
    have hEq := hWeigh (distance R)
    rw [hNone, zero_mul, add_zero] at hEq
    rw [visited_length hst, mul_sub, mul_one] at hNearer
    unfold totalDistance
    omega

/-- The measure as a pair of natural numbers. -/
def measurePair (R : Rules) (st : State) : Nat ×ₗ Nat :=
  toLex ((stonesInPits R st).toNat, (totalDistance R st).toNat)

theorem Move.measurePair_lt {R : Rules} {st st' : State} {n : Int} (hst : WellFormed R st)
    (h : Move R st n st') : measurePair R st' < measurePair R st := by
  have hStones := fun {t : State} (ht : WellFormed R t) =>
    weigh_nonneg (inPit_nonneg R) 0 ht.nonneg
  have hDist := fun {t : State} (ht : WellFormed R t) =>
    weigh_nonneg (distance_nonneg R) 0 ht.nonneg
  have hst' := (h.moved hst).wellFormed
  have h1 : 0 ≤ stonesInPits R st := hStones hst
  have h2 : 0 ≤ stonesInPits R st' := hStones hst'
  have h3 : 0 ≤ totalDistance R st := hDist hst
  have h4 : 0 ≤ totalDistance R st' := hDist hst'
  rw [measurePair, measurePair, Prod.Lex.toLex_lt_toLex]
  rcases h.measure_lt hst with hLt | ⟨hEq, hLt⟩
  · exact Or.inl (show _ < _ by omega)
  · exact Or.inr ⟨show _ = _ by omega, show _ < _ by omega⟩

/-! ## No infinite play -/

theorem no_infinite_play {R : Rules} {f : Nat → State} (h0 : WellFormed R (f 0)) :
    ¬ ∀ i, ∃ n, Move R (f i) n (f (i + 1)) := by
  intro hStep
  have hWell : ∀ i, WellFormed R (f i) := by
    intro i
    induction i with
    | zero => exact h0
    | succ i ih =>
      obtain ⟨n, hn⟩ := hStep i
      exact (hn.moved ih).wellFormed
  obtain ⟨i, hi⟩ := WellFounded.not_rel_apply_succ (r := (· < ·)) fun i => measurePair R (f i)
  obtain ⟨n, hn⟩ := hStep i
  exact hi (hn.measurePair_lt (hWell i))

/-! ## The game loops end -/

/-- With enough fuel the run returns, and more fuel does not change the result. -/
def Ends {α : Type} (run : Nat → Option α) : Prop :=
  ∃ fuel result, ∀ more, fuel ≤ more → run more = some result

theorem playLoop_mono {ω : Type} {move1 move2 : MoveFunc ω} {fuel more : Nat} {st : State}
    {env : ω} {result : Result (State × ω)} (hle : fuel ≤ more)
    (h : playLoop move1 move2 fuel st env = some result) :
    playLoop move1 move2 more st env = some result := by
  induction fuel generalizing more st env with
  | zero => cases h
  | succ fuel ih =>
    obtain ⟨more, rfl⟩ : ∃ k, more = k + 1 := ⟨more - 1, by omega⟩
    rw [playLoop] at h ⊢
    split
    · rename_i hMove
      rwa [hMove] at h
    · rename_i hMove
      rw [hMove] at h
      exact ih (by omega) h
    · rename_i hMove
      rwa [hMove] at h

/-- The loop ends where the player to move gets a successor of a well-formed state. -/
theorem playLoop_ends_of {ω : Type} {R : Rules} {move1 move2 : MoveFunc ω}
    (hNext : ∀ st env st' env', WellFormed R st →
      (if st.turn = player1 then move1 st env else move2 st env) = .ok (some st', env') →
        st' ∈ successors R st)
    {st : State} (hst : WellFormed R st) (env : ω) :
    Ends fun fuel => playLoop move1 move2 fuel st env := by
  suffices h : ∃ fuel result, playLoop move1 move2 fuel st env = some result by
    obtain ⟨fuel, result, hRun⟩ := h
    exact ⟨fuel, result, fun more hle => playLoop_mono hle hRun⟩
  induction hm : measurePair R st using WellFoundedLT.induction generalizing st env with
  | ind m ih =>
    subst hm
    rcases hMove : (if st.turn = player1 then move1 st env else move2 st env) with
      e | ⟨_ | st', env'⟩
    · exact ⟨1, .error e, by simp [playLoop, hMove]⟩
    · exact ⟨1, .ok (st, env'), by simp [playLoop, hMove]⟩
    · have hMember := hNext st env st' env' hst hMove
      obtain ⟨n, hn⟩ := (mem_successors hst).mp hMember
      obtain ⟨fuel, result, hFuel⟩ := ih (measurePair R st') (Move.measurePair_lt hst hn)
        (successor_wellFormed hst hMember) env' rfl
      exact ⟨fuel + 1, result, by simpa [playLoop, hMove] using hFuel⟩

/-- The loop ends from every well-formed state. -/
theorem playLoop_ends {ω : Type} {R : Rules} {move1 move2 : MoveFunc ω}
    (h1 : ReturnsMoves R move1) (h2 : ReturnsMoves R move2) {st : State}
    (hst : WellFormed R st) (env : ω) :
    Ends fun fuel => playLoop move1 move2 fuel st env := by
  refine playLoop_ends_of ?_ hst env
  intro st env st' env' hst hMove
  obtain ⟨bag, hBag, hMem⟩ := h1.alternate h2 st env st' env' hMove
  rw [moves_spec hst] at hBag
  exact Except.ok.inj hBag ▸ hMem

theorem playGame_ends {ω : Type} {R : Rules} {human : MoveFunc ω} {maxDepth : Int}
    {computer : State → Int → ω → Result (Option State × ω)} (h1 : ReturnsMoves R human)
    (h2 : ReturnsMoves R fun st => computer st maxDepth) (humanGoesFirst : Bool) (env : ω) :
    Ends fun fuel => playGame R human maxDepth computer humanGoesFirst fuel env := by
  have hFirst : (if humanGoesFirst then player1 else player2) = player1 ∨
      (if humanGoesFirst then player1 else player2) = player2 := by
    cases humanGoesFirst
    · exact Or.inr rfl
    · exact Or.inl rfl
  obtain ⟨fuel, result, hFuel⟩ := playLoop_ends h1 h2 (initState_wellFormed R hFirst) env
  rcases result with e | ⟨st, env'⟩
  · exact ⟨fuel, .error e, fun more hle => by simp [playGame, hFuel more hle]⟩
  · exact ⟨fuel, announce R st, fun more hle => by simp [playGame, hFuel more hle]⟩

theorem tournament_ends {ω : Type} {R : Rules} {depth1 depth2 : Int}
    {func1 func2 : State → Int → ω → Result (Option State × ω)}
    (h1 : ReturnsMoves R fun st => func1 st depth1)
    (h2 : ReturnsMoves R fun st => func2 st depth2) (env : ω) :
    Ends fun fuel => tournament R depth1 depth2 func1 func2 fuel env := by
  obtain ⟨fuel1, result1, hFirst⟩ :=
    playLoop_ends h1 h2 (initState_wellFormed R (Or.inl rfl : player1 = player1 ∨ _)) env
  rcases result1 with e | ⟨st, env'⟩
  · exact ⟨fuel1, .error e, fun more hle => by simp [tournament, hFirst more hle]⟩
  · cases hScore : score R st (some player1) with
    | error e =>
      exact ⟨fuel1, .error e, fun more hle => by simp [tournament, hFirst more hle, hScore]⟩
    | ok total =>
      -- the second game starts in the environment that the first one leaves
      obtain ⟨fuel2, result2, hSecond⟩ :=
        playLoop_ends h1 h2 (initState_wellFormed R (Or.inr rfl : player2 = player1 ∨ _)) env'
      have hFuel := fun more (hle : max fuel1 fuel2 ≤ more) =>
        And.intro (hFirst more (le_of_max_le_left hle)) (hSecond more (le_of_max_le_right hle))
      rcases result2 with e | ⟨st2, env2⟩
      · exact ⟨max fuel1 fuel2, .error e, fun more hle => by
          simp [tournament, (hFuel more hle).1, (hFuel more hle).2, hScore]⟩
      · exact ⟨max fuel1 fuel2, do return total + (← score R st2 (some player1)),
          fun more hle => by simp [tournament, (hFuel more hle).1, (hFuel more hle).2, hScore]⟩

/-- No play goes on for ever: neither by `state-from-move`, nor in the two game loops. -/
theorem plays_finite (R : Rules) {ω : Type} {human : MoveFunc ω} {maxDepth depth1 depth2 : Int}
    {computer func1 func2 : State → Int → ω → Result (Option State × ω)}
    (hHuman : ReturnsMoves R human) (hComputer : ReturnsMoves R fun st => computer st maxDepth)
    (h1 : ReturnsMoves R fun st => func1 st depth1)
    (h2 : ReturnsMoves R fun st => func2 st depth2) :
    (∀ f : Nat → State, WellFormed R (f 0) → ¬ ∀ i, ∃ n, Move R (f i) n (f (i + 1))) ∧
      (∀ humanGoesFirst env,
        Ends fun fuel => playGame R human maxDepth computer humanGoesFirst fuel env) ∧
      ∀ env, Ends fun fuel => tournament R depth1 depth2 func1 func2 fuel env := by
  refine ⟨?_, ?_, ?_⟩
  · intro f h0
    exact no_infinite_play h0
  · intro humanGoesFirst env
    exact playGame_ends hHuman hComputer humanGoesFirst env
  · intro env
    exact tournament_ends h1 h2 env

/-- The move function that takes the first member of `moves`. -/
def firstMove (R : Rules) : MoveFunc Unit := fun st env => do
  let bag ← moves R st
  return (bag.head?, env)

theorem firstMove_returnsMoves (R : Rules) : ReturnsMoves R (firstMove R) := by
  intro st env st' env' h
  obtain ⟨bag, hBag, hAnswer⟩ := bind_eq_ok.mp h
  obtain ⟨hHead, -⟩ := Prod.mk.inj (Except.ok.inj hAnswer)
  exact ⟨bag, hBag, List.mem_of_mem_head? hHead⟩

theorem plays_finite_firstMove :
    (∀ f : Nat → State, WellFormed defaultRules (f 0) →
        ¬ ∀ i, ∃ n, Move defaultRules (f i) n (f (i + 1))) ∧
      (∀ humanGoesFirst env, Ends fun fuel => playGame defaultRules (firstMove defaultRules) 4
        (fun st _ => firstMove defaultRules st) humanGoesFirst fuel env) ∧
      ∀ env, Ends fun fuel => tournament defaultRules 4 4 (fun st _ => firstMove defaultRules st)
        (fun st _ => firstMove defaultRules st) fuel env :=
  plays_finite defaultRules (firstMove_returnsMoves _) (firstMove_returnsMoves _)
    (firstMove_returnsMoves _) (firstMove_returnsMoves _)

end Windborne.Mancala
