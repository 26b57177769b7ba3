import Mathlib.Tactic.SplitIfs
import Windborne.Library.GameTree
import Windborne.Mancala.Sowing

/-!
# The search `alpha-beta`

The three functions that the search is given may signal errors. The correctness theorem is
therefore a partial one: any number that the search returns is right up to the window,
against an arbitrary value for the positions whose evaluation fails. When the functions
do not fail, the search does not fail either.
-/

namespace Windborne.Mancala

open Library

/-! ## The two loops -/

/-- The `dolist` of a max level. It leaves with `b` as soon as `a` reaches `b`. -/
def maxLoop (search : State → Int → Int → Result Int) (b : Int) :
    List State → Int → Result Int
  | [], a => return a
  | c :: childs, a => do
    let a := max a (← search c a b)
    if a ≥ b then return b else maxLoop search b childs a

/-- The `dolist` of a min level. It leaves with `a` as soon as `b` reaches `a`. -/
def minLoop (search : State → Int → Int → Result Int) (a : Int) :
    List State → Int → Result Int
  | [], b => return b
  | c :: childs, b => do
    let b := min b (← search c a b)
    if a ≥ b then return a else minLoop search a childs b

def alphaBeta (s : State) (d maxDepth maxPlayer : Int) (expand : State → Result (List State))
    (terminal : State → Result Bool) (evaluate : State → Int → Result Int) (a b : Int) :
    Result Int := do
  let childs ← expand s
  let isTerminal ← terminal s
  if isTerminal = true ∨ d ≥ maxDepth then evaluate s maxPlayer
  else if maxPlayer = s.turn then
    maxLoop (fun c a b =>
      alphaBeta c (d + 1) maxDepth maxPlayer expand terminal evaluate a b) b childs a
  else
    minLoop (fun c a b =>
      alphaBeta c (d + 1) maxDepth maxPlayer expand terminal evaluate a b) a childs b
termination_by (maxDepth - d).toNat

/-- The tree that the search walks when `expand` and `terminal` do not fail. -/
def searchTree (maxPlayer : Int) (expand : State → List State) (terminal : State → Bool) :
    GameTree State where
  expand := expand
  terminal := terminal
  isMax s := maxPlayer = s.turn

/-! ## One level -/

section Level

variable {search : State → Int → Int → Result Int} {value : State → Int}

/-- A child search that is right up to every window with the given bounds. -/
def RightUpToWindow (search : State → Int → Int → Result Int) (value : State → Int)
    (c : State) : Prop :=
  ∀ a b r, a ≤ b → search c a b = .ok r → clamp a b r = clamp a b (value c)

theorem maxLoop_ok {a b w : Int} {childs : List State} (hab : a ≤ b)
    (hSearch : ∀ c ∈ childs, RightUpToWindow search value c)
    (h : maxLoop search b childs a = .ok w) :
    w = min b ((childs.map value).foldl max a) := by
  induction childs generalizing a with
  | nil =>
    cases h
    exact (min_eq_right hab).symm
  | cons c childs ih =>
    obtain ⟨r, hRun, h⟩ := bind_eq_ok.mp h
    have hClamp := hSearch c List.mem_cons_self a b r hab hRun
    dsimp only at h
    rw [List.map_cons, List.foldl_cons]
    by_cases hCut : b ≤ max a r
    · rw [if_pos hCut] at h
      cases h
      rw [le_max_iff_of_clamp_eq hab hClamp] at hCut
      exact (min_eq_left (hCut.trans (le_foldl_max _ _))).symm
    · rw [if_neg hCut] at h
      have hLt := not_le.mp hCut
      rw [← max_eq_of_clamp_eq hab hClamp hLt]
      exact ih hLt.le (fun c hc => hSearch c (List.mem_cons_of_mem _ hc)) h

theorem minLoop_ok {a b w : Int} {childs : List State} (hab : a ≤ b)
    (hSearch : ∀ c ∈ childs, RightUpToWindow search value c)
    (h : minLoop search a childs b = .ok w) :
    w = max a ((childs.map value).foldl min b) := by
  induction childs generalizing b with
  | nil =>
    cases h
    exact (max_eq_right hab).symm
  | cons c childs ih =>
    obtain ⟨r, hRun, h⟩ := bind_eq_ok.mp h
    have hClamp := hSearch c List.mem_cons_self a b r hab hRun
    dsimp only at h
    rw [List.map_cons, List.foldl_cons]
    by_cases hCut : min b r ≤ a
    · rw [if_pos hCut] at h
      cases h
      rw [min_le_iff_of_clamp_eq hClamp] at hCut
      exact (max_eq_left ((foldl_min_le _ _).trans hCut)).symm
    · rw [if_neg hCut] at h
      have hLt := not_le.mp hCut
      rw [← min_eq_of_clamp_eq hClamp hLt]
      exact ih hLt.le (fun c hc => hSearch c (List.mem_cons_of_mem _ hc)) h

theorem maxLoop_total (b : Int) (childs : List State) (a : Int)
    (hSearch : ∀ c ∈ childs, ∀ a b, ∃ r, search c a b = .ok r) :
    ∃ w, maxLoop search b childs a = .ok w := by
  induction childs generalizing a with
  | nil => exact ⟨a, rfl⟩
  | cons c childs ih =>
    obtain ⟨r, hr⟩ := hSearch c List.mem_cons_self a b
    rw [maxLoop, hr, ok_bind]
    dsimp only
    split
    · exact ⟨b, rfl⟩
    · exact ih _ fun c hc => hSearch c (List.mem_cons_of_mem _ hc)

theorem minLoop_total (a : Int) (childs : List State) (b : Int)
    (hSearch : ∀ c ∈ childs, ∀ a b, ∃ r, search c a b = .ok r) :
    ∃ w, minLoop search a childs b = .ok w := by
  induction childs generalizing b with
  | nil => exact ⟨b, rfl⟩
  | cons c childs ih =>
    obtain ⟨r, hr⟩ := hSearch c List.mem_cons_self a b
    rw [minLoop, hr, ok_bind]
    dsimp only
    split
    · exact ⟨a, rfl⟩
    · exact ih _ fun c hc => hSearch c (List.mem_cons_of_mem _ hc)

end Level

/-! ## All levels -/

section Search

variable {maxDepth maxPlayer : Int} {expandM : State → Result (List State)}
  {terminalM : State → Result Bool} (evaluate : State → Int → Result Int)
  {expand : State → List State} {terminal : State → Bool} {P : State → Prop}

/-- A search at depth `d` is right up to the window, for every value function that agrees
with the evaluations that do not fail, when the tree agrees with the successors and the ends
that are found without an error. -/
theorem alphaBeta_ok (value : State → Int)
    (hExpand : ∀ s childs, expandM s = .ok childs → childs = expand s)
    (hTerminal : ∀ s isTerminal, terminalM s = .ok isTerminal → isTerminal = terminal s)
    (hLive : ∀ s childs, expandM s = .ok childs → terminalM s = .ok false → childs ≠ [])
    (hValue : ∀ s v, evaluate s maxPlayer = .ok v → value s = v)
    (n : Nat) {d : Int} (hn : n = (maxDepth - d).toNat) (s : State) :
    RightUpToWindow
      (fun s a b => alphaBeta s d maxDepth maxPlayer expandM terminalM evaluate a b)
      ((searchTree maxPlayer expand terminal).minimax value n) s := by
  induction n generalizing d s with
  | zero =>
    intro a b r hab h
    dsimp only at h
    rw [alphaBeta] at h
    obtain ⟨childs, -, h⟩ := bind_eq_ok.mp h
    obtain ⟨isTerminal, -, h⟩ := bind_eq_ok.mp h
    rw [if_pos (Or.inr (by omega))] at h
    rw [GameTree.minimax, hValue s r h]
  | succ n ih =>
    intro a b r hab h
    dsimp only at h
    rw [alphaBeta] at h
    obtain ⟨childs, hChilds, h⟩ := bind_eq_ok.mp h
    obtain ⟨isTerminal, hOver, h⟩ := bind_eq_ok.mp h
    have hEqChilds := hExpand s childs hChilds
    have hEqOver := hTerminal s isTerminal hOver
    have hChild := fun c (_ : c ∈ childs) => ih (d := d + 1) (by omega) c
    cases isTerminal with
    | true =>
      rw [if_pos (Or.inl rfl)] at h
      rw [GameTree.minimax_terminal value hEqOver.symm, hValue s r h]
    | false =>
      rw [if_neg (not_or.mpr ⟨by simp, by omega⟩)] at h
      have hNe := hLive s childs hChilds hOver
      by_cases hMax : maxPlayer = s.turn
      · rw [if_pos hMax] at h
        obtain ⟨m, hm⟩ :=
          GameTree.exists_max ((searchTree maxPlayer expand terminal).minimax value n) hNe
        have hw := maxLoop_ok hab hChild h
        rw [foldl_max_eq hm, ← clamp_eq_min hab] at hw
        rw [hEqChilds] at hm
        rw [GameTree.minimax_max hEqOver.symm (decide_eq_true hMax) hm, hw, clamp_clamp]
      · rw [if_neg hMax] at h
        obtain ⟨m, hm⟩ :=
          GameTree.exists_min ((searchTree maxPlayer expand terminal).minimax value n) hNe
        have hw : r = max a (_ : Int) := minLoop_ok hab hChild h
        rw [foldl_min_eq hm, min_comm, ← clamp] at hw
        rw [hEqChilds] at hm
        rw [GameTree.minimax_min hEqOver.symm (decide_eq_false hMax) hm, hw, clamp_clamp]

/-- Inside the closed set `P`, a search whose evaluations do not fail returns a number. -/
theorem alphaBeta_total (hClosed : ∀ s, P s → ∀ c ∈ expand s, P c)
    (hExpand : ∀ s, P s → expandM s = .ok (expand s))
    (hTerminal : ∀ s, P s → terminalM s = .ok (terminal s))
    (hEval : ∀ s, P s → ∃ v, evaluate s maxPlayer = .ok v)
    (n : Nat) {d : Int} (hn : n = (maxDepth - d).toNat) {s : State} (hs : P s) (a b : Int) :
    ∃ r, alphaBeta s d maxDepth maxPlayer expandM terminalM evaluate a b = .ok r := by
  induction n generalizing d s a b with
  | zero =>
    rw [alphaBeta, hExpand s hs, hTerminal s hs, ok_bind, ok_bind, if_pos (by omega)]
    exact hEval s hs
  | succ n ih =>
    rw [alphaBeta, hExpand s hs, hTerminal s hs, ok_bind, ok_bind]
    have hChild := fun c hc => ih (d := d + 1) (by omega) (hClosed s hs c hc)
    split_ifs
    · exact hEval s hs
    · exact maxLoop_total b _ a hChild
    · exact minLoop_total a _ b hChild

end Search

/-- For every window, `alpha-beta` is the depth-limited minimax value up to clamping. -/
theorem alphaBeta_eq_minimax (expand : State → List State) (terminal : State → Bool)
    (evaluate : State → Int → Int) (s : State) (d maxDepth maxPlayer : Int) {a b : Int}
    (hChild : ∀ s, terminal s = false → expand s ≠ []) (hab : a ≤ b) :
    ∃ r, alphaBeta s d maxDepth maxPlayer (fun s => .ok (expand s)) (fun s => .ok (terminal s))
        (fun s player => .ok (evaluate s player)) a b = .ok r ∧
      clamp a b r = clamp a b ((searchTree maxPlayer expand terminal).minimax
        (fun s => evaluate s maxPlayer) (maxDepth - d).toNat s) := by
  let evaluateM : State → Int → Result Int := fun s player => .ok (evaluate s player)
  obtain ⟨r, hr⟩ := alphaBeta_total (P := fun _ => True) evaluateM (fun _ _ _ _ => trivial)
    (fun _ _ => rfl) (fun _ _ => rfl) (fun s _ => ⟨_, rfl⟩) _ rfl trivial a b
  refine ⟨r, hr, ?_⟩
  refine alphaBeta_ok evaluateM (fun s => evaluate s maxPlayer) ?_ ?_ ?_ ?_ _ rfl s a b r hab hr
  · intro s childs h
    exact (Except.ok.inj h).symm
  · intro s isTerminal h
    exact (Except.ok.inj h).symm
  · intro s childs hChilds hOver
    cases hChilds
    exact hChild s (Except.ok.inj hOver)
  · intro s v h
    exact Except.ok.inj h

/-- A tree in which the mover drops one of the first two counts and may move again. -/
def dropTwo (s : State) : List State :=
  [{ board := s.board.tail, turn := s.turn },
    { board := s.board.eraseIdx 1, turn := otherPlayer s.turn }]

theorem alphaBeta_eq_minimax_dropTwo :
    ∃ r, alphaBeta ⟨[3, 1, 4, 1, 5], 0⟩ 0 3 0 (fun s => .ok (dropTwo s))
        (fun s => .ok s.board.isEmpty) (fun s _ => .ok s.board.sum) 2 9 = .ok r ∧
      clamp 2 9 r = clamp 2 9 ((searchTree 0 dropTwo fun s => s.board.isEmpty).minimax
        (fun s => s.board.sum) (3 - 0 : Int).toNat ⟨[3, 1, 4, 1, 5], 0⟩) :=
  alphaBeta_eq_minimax dropTwo (fun s => s.board.isEmpty) (fun s _ => s.board.sum)
    ⟨[3, 1, 4, 1, 5], 0⟩ 0 3 0 (fun s _ => List.cons_ne_nil _ _) (by decide)

end Windborne.Mancala
