import Mathlib
import Windborne.Mancala.ComputerMove

/-!
# Which move `computer-make-move` returns

With an evaluator that does not fail and keeps within `*min-wins*` and `*max-wins*`, every
line is searched with the full window, so its score is the plain minimax value. The running
best score then keeps the first of the best moves, whatever the state is: an index error
would have kept `computer-make-move` from returning.
-/

namespace Windborne.Mancala

open Library

/-- The plain value of a position for the player, to the given depth. -/
def plainValue (R : Rules) (evaluate : State → Int → Int) (player maxDepth : Int) (c : State) :
    Int :=
  (gameTree R player).minimax (fun s => evaluate s player) maxDepth.toNat c

/-! ## The score of a line -/

section Window

variable {search : State → Int → Int → Result Int}

theorem maxLoop_mem_window {a b w : Int} {childs : List State} (hab : a ≤ b)
    (h : maxLoop search b childs a = .ok w) : a ≤ w ∧ w ≤ b := by
  induction childs generalizing a with
  | nil =>
    cases h
    exact ⟨le_rfl, hab⟩
  | cons c childs ih =>
    obtain ⟨r, -, h⟩ := bind_eq_ok.mp h
    dsimp only at h
    split at h
    · cases h
      exact ⟨hab, le_rfl⟩
    · have hWindow := ih (by omega) h
      omega

theorem minLoop_mem_window {a b w : Int} {childs : List State} (hab : a ≤ b)
    (h : minLoop search a childs b = .ok w) : a ≤ w ∧ w ≤ b := by
  induction childs generalizing b with
  | nil =>
    cases h
    exact ⟨hab, le_rfl⟩
  | cons c childs ih =>
    obtain ⟨r, -, h⟩ := bind_eq_ok.mp h
    dsimp only at h
    split at h
    · cases h
      exact ⟨le_rfl, hab⟩
    · have hWindow := ih (by omega) h
      omega

end Window

/-- The search keeps to its window where the evaluations do. -/
theorem alphaBeta_mem_window {expand : State → Result (List State)}
    {terminal : State → Result Bool} {evaluate : State → Int → Result Int} {s : State}
    {d maxDepth player a b r : Int} (hab : a ≤ b)
    (hRange : ∀ v, evaluate s player = .ok v → a ≤ v ∧ v ≤ b)
    (h : alphaBeta s d maxDepth player expand terminal evaluate a b = .ok r) :
    a ≤ r ∧ r ≤ b := by
  rw [alphaBeta] at h
  obtain ⟨childs, -, h⟩ := bind_eq_ok.mp h
  obtain ⟨isTerminal, -, h⟩ := bind_eq_ok.mp h
  split at h
  · exact hRange r h
  · split at h
    · exact maxLoop_mem_window hab h
    · exact minLoop_mem_window hab h

variable {R : Rules} {evaluate : State → Int → Int}

/-- The score that the computer gives a line is its plain value. -/
theorem alphaBeta_eq_plainValue
    (hRange : ∀ s player, minWins ≤ evaluate s player ∧ evaluate s player ≤ maxWins)
    {c : State} {maxDepth player r : Int}
    (h : alphaBeta c 0 maxDepth player (moves R) (gameOverp R)
      (fun s player => .ok (evaluate s player)) minWins maxWins = .ok r) :
    r = plainValue R evaluate player maxDepth c := by
  have hWindow : minWins ≤ maxWins := by decide
  let evaluateM : State → Int → Result Int := fun s player => .ok (evaluate s player)
  have hClamp := alphaBeta_ok evaluateM (fun s => evaluate s player) (fun _ _ => moves_ok)
    (fun _ _ => gameOverp_ok) (fun _ _ => moves_ne_nil)
    (fun _ _ hv => Except.ok.inj hv) _ rfl c minWins maxWins r hWindow h
  have hEvaluate : ∀ v, evaluateM c player = .ok v → minWins ≤ v ∧ v ≤ maxWins := by
    intro v hv
    cases hv
    exact hRange c player
  obtain ⟨hLow, hHigh⟩ := alphaBeta_mem_window hWindow hEvaluate h
  obtain ⟨hLow', hHigh'⟩ := GameTree.minimax_mem_bounds (G := gameTree R player)
    (fun s => hRange s player) maxDepth.toNat c
  rw [clamp, clamp, min_eq_left hHigh, max_eq_right hLow, Int.sub_zero] at hClamp
  rw [hClamp]
  exact (congrArg _ (min_eq_left hHigh')).trans (max_eq_right hLow')

/-! ## The first of the best -/

section BestLoop

variable {search : State → Result Int} {value : State → Int}

/-- With a best state so far, the loop goes on as the first maximum does. -/
theorem bestLoop_some {childs : List State} {best : State} {result : Option State}
    (hSearch : ∀ c r, search c = .ok r → r = value c)
    (h : bestLoop search childs (some best) (value best) = .ok result) :
    childs.foldl (List.argAux fun b c => value c < value b) (some best) = result := by
  induction childs generalizing best with
  | nil => exact Except.ok.inj h
  | cons c childs ih =>
    obtain ⟨r, hRun, h⟩ := bind_eq_ok.mp h
    have hr := hSearch c r hRun
    subst hr
    rw [List.foldl_cons]
    by_cases hBetter : value best < value c
    · rw [if_pos hBetter] at h
      simpa [List.argAux, hBetter] using ih h
    · rw [if_neg hBetter] at h
      simpa [List.argAux, hBetter] using ih h

/-- Before the loop has found a state, the first maximum so far is not above the score. -/
theorem bestLoop_none {childs : List State} {best : Option State} {score : Int} {c : State}
    (hSearch : ∀ c r, search c = .ok r → r = value c) (hBest : ∀ b ∈ best, value b ≤ score)
    (h : bestLoop search childs none score = .ok (some c)) :
    childs.foldl (List.argAux fun b c => value c < value b) best = some c := by
  induction childs generalizing best with
  | nil => cases h
  | cons x childs ih =>
    obtain ⟨r, hRun, h⟩ := bind_eq_ok.mp h
    have hr := hSearch x r hRun
    subst hr
    rw [List.foldl_cons]
    by_cases hBetter : value x > score
    · rw [if_pos hBetter] at h
      have hStep : List.argAux (fun b c => value c < value b) best x = some x := by
        cases best with
        | none => rfl
        | some b =>
          have hLe := hBest b rfl
          exact if_pos (by omega)
      rw [hStep]
      exact bestLoop_some hSearch h
    · rw [if_neg hBetter] at h
      refine ih ?_ h
      intro b hb
      cases best with
      | none =>
        cases hb
        omega
      | some b' =>
        have hLe := hBest b' rfl
        simp only [List.argAux] at hb
        split at hb
        · cases hb
          omega
        · cases hb
          exact hLe

end BestLoop

/-- A state that `computer-make-move` returns is the first of the moves whose plain value for
the mover is maximal. -/
theorem computerMakeMove_eq_argmax (R : Rules) (evaluate : State → Int → Int)
    (hRange : ∀ s player, minWins ≤ evaluate s player ∧ evaluate s player ≤ maxWins)
    {st c : State} {maxDepth : Int}
    (h : computerMakeMoveWith R (fun s player => .ok (evaluate s player)) st maxDepth =
      .ok (some c)) :
    ∃ childs, moves R st = .ok childs ∧
      childs.argmax (plainValue R evaluate st.turn maxDepth) = some c := by
  obtain ⟨childs, hChilds, h⟩ := bind_eq_ok.mp h
  obtain ⟨isOver, -, h⟩ := bind_eq_ok.mp h
  refine ⟨childs, hChilds, ?_⟩
  cases isOver with
  | true => cases h
  | false =>
    exact bestLoop_none (fun _ _ hRun => alphaBeta_eq_plainValue hRange hRun)
      (fun b hb => (nomatch hb)) h

/-- The stones in the player's mancala, kept within the range of scores. -/
def stored (s : State) (player : Int) : Int :=
  clamp minWins maxWins (entry s.board (mancalaPit defaultRules player))

theorem stored_mem_range (s : State) (player : Int) :
    minWins ≤ stored s player ∧ stored s player ≤ maxWins := by
  unfold stored clamp minWins maxWins
  omega

/-- From the start the third pit, which moves again, is the first of the best. -/
theorem computerMakeMove_eq_argmax_thirdPit :
    ∃ childs, moves defaultRules (initState defaultRules player1) = .ok childs ∧
      childs.argmax (plainValue defaultRules stored (initState defaultRules player1).turn 1) =
        some ⟨[4, 4, 0, 5, 5, 5, 1, 4, 4, 4, 4, 4, 4, 0], player1⟩ :=
  computerMakeMove_eq_argmax defaultRules stored stored_mem_range (by decide +kernel)

end Windborne.Mancala
