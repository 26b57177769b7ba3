import Windborne.Mancala.Mirror
import Windborne.Mancala.Termination

/-!
# The tournament is fair

Each game of a tournament is, with the players in each other's place, a game of the
tournament in which the two strategies have changed sides. The score is taken for player 1,
so it changes its sign.
-/

namespace Windborne.Mancala

open Library

variable {ω : Type}

/-- A deterministic move function, which leaves its environment alone. -/
def deterministic (func : State → Int → Result (Option State)) (st : State) (depth : Int)
    (env : ω) : Result (Option State × ω) := do
  let newState ← func st depth
  return (newState, env)

/-- On well-formed states the strategy answers with a legal successor, or with NIL exactly when
the game is over, and it plays the same from both sides. -/
structure Fair (R : Rules) (strategy : State → Result (Option State)) : Prop where
  legal : ∀ st, WellFormed R st → ∃ answer, strategy st = .ok answer ∧
    (answer = none ↔ gameOverp R st = .ok true) ∧
      ∀ st' ∈ answer, ∃ bag, moves R st = .ok bag ∧ st' ∈ bag
  swap : ∀ st, WellFormed R st →
    strategy (swapPlayers R st) = (strategy st).map (Option.map (swapPlayers R))

/-! ## The score -/

theorem score_swap {R : Rules} {st : State} (hst : WellFormed R st) :
    score R (swapPlayers R st) (some player1) =
      (score R st (some player1)).map fun total => -total := by
  have hOther : score R (swapPlayers R st) (some player1) = score R st (some player2) :=
    score_swapPlayers hst (Or.inr rfl)
  rw [hOther, score_spec hst (Or.inr rfl), score_spec hst (Or.inl rfl)]
  show Except.ok (entry st.board (mancalaPit R player2) - entry st.board (mancalaPit R player1)) =
    Except.ok (-(entry st.board (mancalaPit R player1) - entry st.board (mancalaPit R player2)))
  rw [neg_sub]

/-! ## The first state -/

theorem initState_swap (R : Rules) (first : Int) :
    swapPlayers R (initState R first) = initState R (otherPlayer first) := by
  unfold swapPlayers initState
  congr 1
  apply List.ext_getElem
  · rw [List.length_rotate]
  · intro i hi hi'
    have hSize : (boardSize R).toNat = R.numPits + 1 + (R.numPits + 1) := by
      unfold boardSize
      omega
    simp only [List.length_map, List.length_range] at hi'
    rw [List.getElem_rotate]
    simp only [List.length_map, List.length_range, List.getElem_map, List.getElem_range]
    have hMod : (i + (R.numPits + 1)) % (boardSize R).toNat =
        if i < R.numPits + 1 then i + (R.numPits + 1) else i - (R.numPits + 1) := by
      rw [hSize] at hi' ⊢
      split_ifs
      · exact Nat.mod_eq_of_lt (by omega)
      · rw [Nat.mod_eq_sub_mod (by omega), Nat.mod_eq_of_lt (by omega)]
        omega
    have hMancala1 : mancalaPit R player1 = R.numPits := rfl
    have hMancala2 : mancalaPit R player2 = 1 + 2 * R.numPits := rfl
    rw [hMod, hMancala1, hMancala2]
    split_ifs <;> first | rfl | omega

/-! ## Games -/

section

variable {R : Rules} {func1 func2 : State → Int → Result (Option State)} {depth1 depth2 : Int}

/-- The successor that the player to move chooses. -/
theorem Fair.cases {strategy : State → Result (Option State)} (h : Fair R strategy) {st : State}
    (hst : WellFormed R st) :
    strategy st = .ok none ∨ ∃ st', strategy st = .ok (some st') ∧ st' ∈ successors R st := by
  obtain ⟨answer, hAnswer, -, hLegal⟩ := h.legal st hst
  cases answer with
  | none => exact Or.inl hAnswer
  | some st' =>
    right
    obtain ⟨bag, hBag, hMem⟩ := hLegal st' rfl
    rw [moves_spec hst] at hBag
    exact ⟨st', hAnswer, Except.ok.inj hBag ▸ hMem⟩

/-- The function that the loop asks in a state. -/
def asked (func1 func2 : State → Int → Result (Option State)) (depth1 depth2 : Int) (st : State) :
    Result (Option State) :=
  if st.turn = player1 then func1 st depth1 else func2 st depth2

theorem asked_cases (h1 : Fair R fun st => func1 st depth1) (h2 : Fair R fun st => func2 st depth2)
    {st : State} (hst : WellFormed R st) :
    asked func1 func2 depth1 depth2 st = .ok none ∨
      ∃ st', asked func1 func2 depth1 depth2 st = .ok (some st') ∧ st' ∈ successors R st := by
  unfold asked
  split_ifs
  · exact h1.cases hst
  · exact h2.cases hst

/-- After a swap the other player asks the same function. -/
theorem asked_swap (h1 : Fair R fun st => func1 st depth1) (h2 : Fair R fun st => func2 st depth2)
    {st : State} (hst : WellFormed R st) :
    asked func2 func1 depth2 depth1 (swapPlayers R st) =
      (asked func1 func2 depth1 depth2 st).map (Option.map (swapPlayers R)) := by
  have hTurn : (swapPlayers R st).turn = otherPlayer st.turn := rfl
  unfold asked
  rw [hTurn]
  rcases hst.turn with hFirst | hSecond
  · rw [hFirst, if_pos rfl, if_neg (by decide)]
    exact h1.swap st hst
  · rw [hSecond, if_pos (by decide : otherPlayer player2 = player1),
      if_neg (by decide : ¬player2 = player1)]
    exact h2.swap st hst

theorem playLoop_succ (fuel : Nat) (st : State) (env : ω) :
    playLoop (fun st => deterministic func1 st depth1) (fun st => deterministic func2 st depth2)
        (fuel + 1) st env =
      match asked func1 func2 depth1 depth2 st with
      | .error e => some (.error e)
      | .ok (some newState) => playLoop (fun st => deterministic func1 st depth1)
          (fun st => deterministic func2 st depth2) fuel newState env
      | .ok none => some (.ok (st, env)) := by
  rw [playLoop]
  unfold asked deterministic
  split_ifs
  · rcases func1 st depth1 with e | ⟨_ | newState⟩
    · rfl
    · rfl
    · rfl
  · rcases func2 st depth2 with e | ⟨_ | newState⟩
    · rfl
    · rfl
    · rfl

/-- **One game and its mirror image.** They end in mirrored states. -/
theorem playLoop_swap (h1 : Fair R fun st => func1 st depth1)
    (h2 : Fair R fun st => func2 st depth2) {fuel : Nat} {st : State} (hst : WellFormed R st)
    {env : ω} {result : Result (State × ω)}
    (h : playLoop (fun st => deterministic func1 st depth1)
      (fun st => deterministic func2 st depth2) fuel st env = some result) :
    ∃ last, WellFormed R last ∧ result = .ok (last, env) ∧
      playLoop (fun st => deterministic func2 st depth2)
        (fun st => deterministic func1 st depth1) fuel (swapPlayers R st) env =
          some (.ok (swapPlayers R last, env)) := by
  induction fuel generalizing st with
  | zero => cases h
  | succ fuel ih =>
    have hSwap := asked_swap h1 h2 hst
    rw [playLoop_succ] at h
    rw [playLoop_succ, hSwap]
    rcases asked_cases h1 h2 hst with hNone | ⟨st', hSome, hMember⟩
    · rw [hNone] at h ⊢
      cases h
      exact ⟨st, hst, rfl, rfl⟩
    · rw [hSome] at h ⊢
      exact ih (successor_wellFormed hst hMember) h

/-- Each game ends, and so does its mirror image. -/
theorem game_swap (h1 : Fair R fun st => func1 st depth1) (h2 : Fair R fun st => func2 st depth2)
    {first : Int} (hFirst : first = player1 ∨ first = player2) (env : ω) :
    ∃ fuel last, WellFormed R last ∧ ∀ more, fuel ≤ more →
      playLoop (fun st => deterministic func1 st depth1)
        (fun st => deterministic func2 st depth2) more (initState R first) env =
          some (.ok (last, env)) ∧
      playLoop (fun st => deterministic func2 st depth2)
        (fun st => deterministic func1 st depth1) more (initState R (otherPlayer first)) env =
          some (.ok (swapPlayers R last, env)) := by
  have hInit := initState_wellFormed R hFirst
  have hEnds : Ends fun fuel => playLoop (fun st => deterministic func1 st depth1)
      (fun st => deterministic func2 st depth2) fuel (initState R first) env := by
    apply playLoop_ends_of (R := R) _ hInit
    intro st env st' env' hst hMove
    have hAsked : asked func1 func2 depth1 depth2 st = .ok (some st') := by
      unfold asked
      unfold deterministic at hMove
      split_ifs at hMove ⊢
      · obtain ⟨answer, hAnswer, hPure⟩ := bind_eq_ok.mp hMove
        cases hPure
        exact hAnswer
      · obtain ⟨answer, hAnswer, hPure⟩ := bind_eq_ok.mp hMove
        cases hPure
        exact hAnswer
    rcases asked_cases h1 h2 hst with hNone | ⟨st'', hSome, hMember⟩
    · rw [hNone] at hAsked
      cases hAsked
    · rw [hSome] at hAsked
      cases hAsked
      exact hMember
  obtain ⟨fuel, result, hRun⟩ := hEnds
  obtain ⟨last, hLast, rfl, -⟩ := playLoop_swap h1 h2 hInit (hRun fuel le_rfl)
  refine ⟨fuel, last, hLast, fun more hle => ⟨hRun more hle, ?_⟩⟩
  obtain ⟨last', -, hSame, hMirror⟩ := playLoop_swap h1 h2 hInit (hRun more hle)
  cases hSame
  rw [← initState_swap]
  exact hMirror

/-- **The tournament is fair.** When the strategies change sides, the result changes its sign;
so a strategy gets nothing against itself. -/
theorem tournament_fair (h1 : Fair R fun st => func1 st depth1)
    (h2 : Fair R fun st => func2 st depth2) (env : ω) :
    ∃ fuel total, (∀ more, fuel ≤ more →
      tournament R depth1 depth2 (deterministic func1) (deterministic func2) more env =
          some (.ok total) ∧
        tournament R depth2 depth1 (deterministic func2) (deterministic func1) more env =
          some (.ok (-total))) ∧
      (func1 = func2 → depth1 = depth2 → total = 0) := by
  obtain ⟨fuel, last, hLast, hGame⟩ := game_swap h1 h2 (Or.inl rfl : player1 = player1 ∨ _) env
  obtain ⟨fuel', last', hLast', hGame'⟩ :=
    game_swap h1 h2 (Or.inr rfl : player2 = player1 ∨ _) env
  obtain ⟨total, hTotal⟩ : ∃ total, score R last (some player1) = .ok total :=
    ⟨_, score_spec hLast (Or.inl rfl)⟩
  obtain ⟨total', hTotal'⟩ : ∃ total, score R last' (some player1) = .ok total :=
    ⟨_, score_spec hLast' (Or.inl rfl)⟩
  have hMirror := score_swap hLast
  have hMirror' := score_swap hLast'
  rw [hTotal] at hMirror
  rw [hTotal'] at hMirror'
  have hBoth : ∀ more, max fuel fuel' ≤ more →
      tournament R depth1 depth2 (deterministic func1) (deterministic func2) more env =
          some (.ok (total + total')) ∧
        tournament R depth2 depth1 (deterministic func2) (deterministic func1) more env =
          some (.ok (-(total + total'))) := by
    intro more hle
    obtain ⟨hFirst, hSecond⟩ := hGame more (le_of_max_le_left hle)
    obtain ⟨hFirst', hSecond'⟩ := hGame' more (le_of_max_le_right hle)
    have hOther : initState R (otherPlayer player2) = initState R player1 := rfl
    have hOther' : initState R (otherPlayer player1) = initState R player2 := rfl
    rw [hOther] at hSecond'
    rw [hOther'] at hSecond
    constructor
    · simp [tournament, hFirst, hFirst', hTotal, hTotal']
    · simp [tournament, hSecond, hSecond', hMirror, hMirror', Except.map]
  refine ⟨max fuel fuel', total + total', hBoth, ?_⟩
  rintro rfl rfl
  obtain ⟨hOne, hOther⟩ := hBoth _ le_rfl
  have hSame : total + total' = -(total + total') := by
    rw [hOne] at hOther
    exact Except.ok.inj (Option.some.inj hOther)
  omega

end

/-! ## Two strategies -/

/-- The strategy that takes from `moves` what `pick` picks. -/
def pickSuccessor (pick : List State → Option State) (R : Rules) (st : State) (_depth : Int) :
    Result (Option State) := do
  let bag ← moves R st
  return pick bag

theorem pickSuccessor_fair {pick : List State → Option State} (R : Rules) (depth : Int)
    (hNone : ∀ bag, pick bag = none ↔ bag = []) (hMem : ∀ bag, ∀ st ∈ pick bag, st ∈ bag)
    (hMap : ∀ f bag, pick (bag.map f) = (pick bag).map f) :
    Fair R fun st => pickSuccessor pick R st depth where
  legal st hst := by
    refine ⟨pick (successors R st), ?_, ?_, ?_⟩
    · rw [pickSuccessor, moves_spec hst]
      rfl
    · rw [hNone, gameOverp_spec hst, ← gameOver_iff hst]
      exact ⟨fun h => by rw [h], fun h => Except.ok.inj h⟩
    · intro st' hPick
      exact ⟨_, moves_spec hst, hMem _ st' hPick⟩
  swap st hst := by
    rw [pickSuccessor, pickSuccessor, moves_swap hst, moves_spec hst]
    show Except.ok (pick ((successors R st).map _)) = Except.ok ((pick (successors R st)).map _)
    rw [hMap]

def firstSuccessor : Rules → State → Int → Result (Option State) := pickSuccessor List.head?

def lastSuccessor : Rules → State → Int → Result (Option State) := pickSuccessor List.getLast?

theorem firstSuccessor_fair (R : Rules) (depth : Int) :
    Fair R fun st => firstSuccessor R st depth :=
  pickSuccessor_fair R depth (fun _ => List.head?_eq_none_iff)
    (fun _ _ hHead => List.mem_of_mem_head? hHead) fun _ _ => List.head?_map

theorem lastSuccessor_fair (R : Rules) (depth : Int) :
    Fair R fun st => lastSuccessor R st depth :=
  pickSuccessor_fair R depth (fun _ => List.getLast?_eq_none_iff)
    (fun _ _ hLast => List.mem_of_mem_getLast? hLast) fun _ _ => List.getLast?_map

/-- More fuel does not change the result. -/
theorem tournament_mono {R : Rules} {depth1 depth2 : Int}
    {func1 func2 : State → Int → ω → Result (Option State × ω)} {fuel more : Nat} {env : ω}
    {result : Result Int} (hle : fuel ≤ more)
    (h : tournament R depth1 depth2 func1 func2 fuel env = some result) :
    tournament R depth1 depth2 func1 func2 more env = some result := by
  unfold tournament at h ⊢
  obtain ⟨first, hFirst, hRest⟩ := Option.bind_eq_some_iff.mp h
  refine Option.bind_eq_some_iff.mpr ⟨first, playLoop_mono hle hFirst, ?_⟩
  rcases first with e | ⟨st, env'⟩
  · exact hRest
  · dsimp only at hRest ⊢
    cases hScore : score R st (some player1) with
    | error e =>
      rw [hScore] at hRest
      exact hRest
    | ok total =>
      rw [hScore] at hRest
      obtain ⟨second, hSecond, hResult⟩ := Option.bind_eq_some_iff.mp hRest
      exact Option.bind_eq_some_iff.mpr ⟨second, playLoop_mono hle hSecond, hResult⟩

set_option maxRecDepth 10000 in
/-- In the default game the last move wins by 7 stones against the first one, from either side. -/
theorem tournament_fair_firstSuccessor : ∃ fuel, ∀ more, fuel ≤ more →
    tournament defaultRules 4 4 (deterministic (firstSuccessor defaultRules))
        (deterministic (lastSuccessor defaultRules)) more () = some (.ok (-7)) ∧
      tournament defaultRules 4 4 (deterministic (lastSuccessor defaultRules))
        (deterministic (firstSuccessor defaultRules)) more () = some (.ok 7) := by
  have hGames : tournament defaultRules 4 4 (deterministic (firstSuccessor defaultRules))
      (deterministic (lastSuccessor defaultRules)) 54 () = some (.ok (-7)) := rfl
  obtain ⟨fuel, total, hBoth, -⟩ := tournament_fair (firstSuccessor_fair defaultRules 4)
    (lastSuccessor_fair defaultRules 4) ()
  have hTotal : total = -7 := by
    have hMore := tournament_mono (le_max_right fuel 54) hGames
    rw [(hBoth _ (le_max_left fuel 54)).1] at hMore
    exact Except.ok.inj (Option.some.inj hMore)
  rw [hTotal] at hBoth
  exact ⟨fuel, hBoth⟩

end Windborne.Mancala
