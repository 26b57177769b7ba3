import Windborne.Mancala.Move
import Windborne.Mancala.Play
import Windborne.Mancala.Player

/-!
# When `computer-make-move` finds a move

The running best score starts at `*min-wins*` and only a greater score replaces it. So the
computer answers NIL also when every line that it searches evaluates to `*min-wins*` or
less. The exact condition is one of forcing: the mover needs a move after which a position
that is worth more can be forced within the depth.
-/

namespace Windborne.Mancala

open Library

/-! ## Promising positions -/

/-- A position whose evaluation exceeds `*min-wins*`. -/
def Promising (R : Rules) (player : Int) (p : State) : Prop :=
  ∃ v, evaluate R p player = .ok v ∧ minWins < v

/-- The evaluation, with `*min-wins*` for the positions on which it fails. -/
def lineValue (R : Rules) (player : Int) (p : State) : Int :=
  match evaluate R p player with
  | .ok v => v
  | .error _ => minWins

theorem minWins_lt_lineValue_iff (R : Rules) (player : Int) (p : State) :
    minWins < lineValue R player p ↔ Promising R player p := by
  unfold lineValue Promising
  cases evaluate R p player with
  | ok v => simp
  | error e => simp

/-- The tree that the computer searches for `player`. -/
def gameTree (R : Rules) (player : Int) : GameTree State :=
  searchTree player (successors R) (gameOver R)

theorem gameTree_live (R : Rules) (player : Int) : (gameTree R player).Live (WellFormed R) where
  expand_ne_nil s hs hOver := by
    intro hNil
    have hTrue : gameOver R s = true := (gameOver_iff hs).mpr hNil
    exact Bool.false_ne_true (hOver.symm.trans hTrue)
  closed s hs _ hc := successor_wellFormed hs hc

/-- The condition under which the computer finds a move: some move leads to a state from
which the mover can force a promising position, within `maxDepth` further moves. -/
def HasPromisingLine (R : Rules) (st : State) (maxDepth : Int) : Prop :=
  ∃ c ∈ successors R st,
    (gameTree R st.turn).CanForce (Promising R st.turn) maxDepth.toNat c

/-! ## The search of one line -/

/-- The score that the computer gives a line exceeds `*min-wins*` exactly when a promising
position can be forced from it. -/
theorem alphaBeta_gt_minWins_iff {R : Rules} {c : State} {maxDepth player r : Int}
    (hc : WellFormed R c)
    (h : alphaBeta c 0 maxDepth player (moves R) (gameOverp R) (evaluate R) minWins maxWins =
      .ok r) :
    minWins < r ↔ (gameTree R player).CanForce (Promising R player) maxDepth.toNat c := by
  have hClamp := alphaBeta_ok (evaluate R) (lineValue R player) (fun _ _ => moves_ok)
    (fun _ _ => gameOverp_ok) (fun _ _ => moves_ne_nil)
    (fun s v hv => by unfold lineValue; rw [hv]) _ rfl c minWins maxWins r (by decide) h
  rw [lt_iff_of_clamp_eq (by decide) hClamp, Int.sub_zero]
  rw [show searchTree player (successors R) (gameOver R) = gameTree R player from rfl,
    GameTree.lt_minimax_iff (gameTree_live R player) _ _ _ hc]
  have hGood : (fun p => minWins < lineValue R player p) = Promising R player := by
    ext p
    exact minWins_lt_lineValue_iff R player p
  rw [hGood]

/-! ## The loop over the moves -/

theorem bestLoop_ok {search : State → Result Int} {childs : List State} {best : Option State}
    {score : Int} {result : Option State} (h : bestLoop search childs best score = .ok result) :
    (result = best ∧ ∀ c ∈ childs, ∃ r, search c = .ok r ∧ r ≤ score) ∨
      ∃ c ∈ childs, result = some c ∧ ∃ r, search c = .ok r ∧ score < r := by
  induction childs generalizing best score with
  | nil =>
    cases h
    exact Or.inl ⟨rfl, by simp⟩
  | cons c childs ih =>
    obtain ⟨r, hRun, h⟩ := bind_eq_ok.mp h
    by_cases hBetter : r > score
    · rw [if_pos hBetter] at h
      rcases ih h with ⟨rfl, -⟩ | ⟨c', hc', hResult, r', hRun', hLt⟩
      · exact Or.inr ⟨c, List.mem_cons_self, rfl, r, hRun, hBetter⟩
      · exact Or.inr ⟨c', List.mem_cons_of_mem _ hc', hResult, r', hRun', hBetter.trans hLt⟩
    · rw [if_neg hBetter] at h
      rcases ih h with ⟨rfl, hAll⟩ | ⟨c', hc', hSome⟩
      · refine Or.inl ⟨rfl, ?_⟩
        intro c' hc'
        rcases List.mem_cons.mp hc' with rfl | hTail
        · exact ⟨r, hRun, not_lt.mp hBetter⟩
        · exact hAll c' hTail
      · exact Or.inr ⟨c', List.mem_cons_of_mem _ hc', hSome⟩

/-- **What one call answers.** -/
theorem computerMakeMove_ok {R : Rules} {st : State} {maxDepth : Int} {result : Option State}
    (hst : WellFormed R st) (h : computerMakeMove R st maxDepth = .ok result) :
    (result = none ∧ ¬ HasPromisingLine R st maxDepth) ∨
      (gameOver R st = false ∧ HasPromisingLine R st maxDepth ∧
        ∃ c ∈ successors R st, result = some c) := by
  unfold computerMakeMove computerMakeMoveWith at h
  rw [moves_spec hst, gameOverp_spec hst, ok_bind, ok_bind] at h
  cases hOver : gameOver R st with
  | true =>
    rw [hOver, if_pos rfl] at h
    cases h
    refine Or.inl ⟨rfl, ?_⟩
    rintro ⟨c, hc, -⟩
    rw [(gameOver_iff hst).mp hOver] at hc
    cases hc
  | false =>
    rw [hOver, if_neg Bool.false_ne_true] at h
    rcases bestLoop_ok h with ⟨hNone, hAll⟩ | ⟨c, hc, hSome, r, hRun, hLt⟩
    · refine Or.inl ⟨hNone, ?_⟩
      rintro ⟨c, hc, hForce⟩
      obtain ⟨r, hRun, hLe⟩ := hAll c hc
      exact absurd ((alphaBeta_gt_minWins_iff (successor_wellFormed hst hc) hRun).mpr hForce)
        (not_lt.mpr hLe)
    · have hForce := (alphaBeta_gt_minWins_iff (successor_wellFormed hst hc) hRun).mp hLt
      exact Or.inr ⟨rfl, ⟨c, hc, hForce⟩, c, hc, hSome⟩

/-! ## The contract of `computer-make-move` -/

/-- NIL exactly at the end of the game, and otherwise one of the moves; so a game loop that
stops on the answer stops where no legal move is left. -/
structure MeetsContract (R : Rules) (st : State) (result : Option State) : Prop where
  none_iff : result = none ↔ gameOverp R st = .ok true
  mem_moves : ∀ c, result = some c → ∃ bag, moves R st = .ok bag ∧ c ∈ bag
  stops : result = none → moves R st = .ok []

theorem gameOverp_iff {R : Rules} {st : State} (hst : WellFormed R st) :
    gameOverp R st = .ok true ↔ gameOver R st = true := by
  rw [gameOverp_spec hst, Except.ok.injEq]

theorem moves_eq_nil_iff {R : Rules} {st : State} (hst : WellFormed R st) :
    moves R st = .ok [] ↔ gameOverp R st = .ok true := by
  rw [gameOverp_iff hst, gameOver_iff hst, moves_spec hst, Except.ok.injEq]

/-- The computer as a move function of the game loops. -/
def computerMove {ω : Type} (R : Rules) (maxDepth : Int) : MoveFunc ω := fun st env => do
  return (← computerMakeMove R st maxDepth, env)

theorem computerMove_returnsMoves {ω : Type} (R : Rules) (maxDepth : Int) :
    ReturnsMoves R (computerMove R maxDepth : MoveFunc ω) := by
  intro st env st' env' h
  obtain ⟨result, hRun, hAnswer⟩ := bind_eq_ok.mp h
  cases hAnswer
  obtain ⟨bag, hBag, hRun⟩ := bind_eq_ok.mp hRun
  obtain ⟨isOver, -, hRun⟩ := bind_eq_ok.mp hRun
  refine ⟨bag, hBag, ?_⟩
  cases isOver with
  | true => cases hRun
  | false =>
    rcases bestLoop_ok hRun with ⟨hNone, -⟩ | ⟨c, hc, hSome, -⟩
    · cases hNone
    · cases hSome
      exact hc

/-- A loop stops in a well-formed state, on a NIL of the player to move there. -/
theorem playLoop_stops {ω : Type} {R : Rules} {move1 move2 : MoveFunc ω}
    (h1 : ReturnsMoves R move1) (h2 : ReturnsMoves R move2) {fuel : Nat} {st st' : State}
    {env env' : ω} (hst : WellFormed R st)
    (h : playLoop move1 move2 fuel st env = some (.ok (st', env'))) :
    WellFormed R st' ∧
      ∃ env, (if st'.turn = player1 then move1 else move2) st' env = .ok (none, env') := by
  induction fuel generalizing st env with
  | zero => cases h
  | succ fuel ih =>
    rw [playLoop] at h
    cases hMove : (if st.turn = player1 then move1 st env else move2 st env) with
    | error e =>
      rw [hMove] at h
      cases h
    | ok answer =>
      rw [hMove] at h
      obtain ⟨_ | next, nextEnv⟩ := answer
      · cases h
        refine ⟨hst, env, ?_⟩
        rw [← hMove]
        split <;> rfl
      · obtain ⟨bag, hBag, hMem⟩ := h1.alternate h2 st env next nextEnv hMove
        rw [moves_spec hst] at hBag
        exact ih (successor_wellFormed hst (Except.ok.inj hBag ▸ hMem)) h

/-- The computer meets its contract in exactly the states in which the game is over or a
promising line exists; and a game loop that stops on the computer's answer stops without a
legal move left in exactly these states. -/
theorem computerMakeMove_contract_iff (R : Rules) :
    (∀ st maxDepth result, WellFormed R st → computerMakeMove R st maxDepth = .ok result →
      (MeetsContract R st result ↔
        gameOverp R st = .ok true ∨ HasPromisingLine R st maxDepth)) ∧
    ∀ (ω : Type) (move1 move2 : MoveFunc ω), ReturnsMoves R move1 → ReturnsMoves R move2 →
      ∀ fuel st env st' env' maxDepth, WellFormed R st →
        playLoop move1 move2 fuel st env = some (.ok (st', env')) →
        (if st'.turn = player1 then move1 else move2) = computerMove R maxDepth →
        (moves R st' = .ok [] ↔
          gameOverp R st' = .ok true ∨ HasPromisingLine R st' maxDepth) := by
  constructor
  · intro st maxDepth result hst hRun
    rcases computerMakeMove_ok hst hRun with
      ⟨rfl, hNot⟩ | ⟨hGoesOn, hLine, c, hc, rfl⟩
    · constructor
      · intro hMeets
        exact Or.inl (hMeets.none_iff.mp rfl)
      · intro hCond
        have hOver := hCond.resolve_right hNot
        exact ⟨iff_of_true rfl hOver, fun c hc => (nomatch hc),
          fun _ => (moves_eq_nil_iff hst).mpr hOver⟩
    · refine iff_of_true ⟨?_, ?_, ?_⟩ (Or.inr hLine)
      · rw [gameOverp_iff hst, hGoesOn]
        simp
      · intro c' hc'
        cases hc'
        exact ⟨_, moves_spec hst, hc⟩
      · intro hNone
        cases hNone
  · intro ω move1 move2 h1 h2 fuel st env st' env' maxDepth hst hLoop hComputer
    obtain ⟨hst', env0, hNone⟩ := playLoop_stops h1 h2 hst hLoop
    rw [hComputer] at hNone
    rw [moves_eq_nil_iff hst']
    obtain ⟨result, hRun, hAnswer⟩ := bind_eq_ok.mp hNone
    cases hAnswer
    rcases computerMakeMove_ok hst' hRun with ⟨-, hNot⟩ | ⟨-, -, c, -, hSome⟩
    · exact ⟨Or.inl, fun hCond => hCond.resolve_right hNot⟩
    · cases hSome

/-- One move is left, and it ends the game with 24 stones each. -/
def lastMoveDraws : State := ⟨[0, 0, 0, 0, 0, 1, 23, 0, 0, 0, 0, 0, 0, 24], player1⟩

theorem computerMakeMove_lastMoveDraws :
    computerMakeMove defaultRules lastMoveDraws 0 = .ok none := by
  decide +kernel

theorem computerMakeMove_contract_iff_lastMoveDraws :
    (MeetsContract defaultRules lastMoveDraws none ↔
        gameOverp defaultRules lastMoveDraws = .ok true ∨
          HasPromisingLine defaultRules lastMoveDraws 0) ∧
      (moves defaultRules lastMoveDraws = .ok [] ↔
        gameOverp defaultRules lastMoveDraws = .ok true ∨
          HasPromisingLine defaultRules lastMoveDraws 0) :=
  ⟨(computerMakeMove_contract_iff defaultRules).1 _ _ _ (by decide)
      computerMakeMove_lastMoveDraws,
    (computerMakeMove_contract_iff defaultRules).2 Unit (computerMove defaultRules 0)
      (computerMove defaultRules 0) (computerMove_returnsMoves _ _)
      (computerMove_returnsMoves _ _) 1 lastMoveDraws () lastMoveDraws () 0 (by decide)
      (by rw [playLoop, computerMove, computerMakeMove_lastMoveDraws]; rfl) rfl⟩

/-- The computer answers NIL although a legal move is left. -/
theorem not_forall_meetsContract :
    ¬ ∀ (R : Rules) (st : State) (maxDepth : Int) (result : Option State), WellFormed R st →
      computerMakeMove R st maxDepth = .ok result → MeetsContract R st result := by
  intro hAll
  have hMeets := hAll defaultRules lastMoveDraws 0 none (by decide)
    computerMakeMove_lastMoveDraws
  have hOver : gameOverp defaultRules lastMoveDraws = .ok false := by decide
  rw [hMeets.none_iff.mp rfl] at hOver
  cases hOver

end Windborne.Mancala
