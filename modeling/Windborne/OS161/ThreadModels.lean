import Windborne.OS161.Preallocation
import Windborne.OS161.SynchSafety

/-!
# One board for all models of the thread system

`ThreadSystem` runs from one point at which another caller may come in to the next, and `Synch`
puts semaphores and locks on top of it; the `Kernel` has stacks and takes one statement at a
time. They are models of the same functions, and all of them move threads only by the moves of
the board. So in every run of any of them every thread is in one place at most, and `numthreads`
counts those that are not dead.
-/

namespace Windborne.OS161

open Library

/-! ## The kernel -/

namespace Kernel

variable {c : KernelConfig} {s t : Kernel}

/-- The places of the threads. -/
def board (s : Kernel) : Board Word := s.tally.toBoard

theorem moves_of_tally {b : Bool} (h : TallyStep s.tally b t.tally) : s.board.Moves t.board := by
  rcases Tally.board_of_step h with hSame | hMove
  · rw [board, board, hSame]
    exact .refl
  · exact .single hMove

/-- **Step lemma.** -/
theorem moves_step (h : s.Placed) {a : KernelAction} (hStep : Step c s a t) :
    s.board.Moves t.board := moves_of_tally (tally_step h hStep)

/-- **The kernel plays by the moves.** -/
theorem moves_of_run {me : Word} {initialCount : Word → Int} {tlb : List TlbEntry}
    {space : Word → AddrSpace} {tr : List KernelAction}
    (h : Run (Step c) (boot c me initialCount tlb space) tr s) :
    (Board.first me).Moves s.board :=
  (h.simulate_steps (I := Placed) (f := board) (placed_boot c me initialCount tlb space)
    fun _ _ _ hPlaced hStep => ⟨hPlaced.step hStep, moves_step hPlaced hStep⟩).2

theorem sound_of_run {me : Word} {initialCount : Word → Int} {tlb : List TlbEntry}
    {space : Word → AddrSpace} {tr : List KernelAction}
    (h : Run (Step c) (boot c me initialCount tlb space) tr s) : s.board.Sound :=
  (Board.sound_first me).moves (moves_of_run h)

end Kernel

/-! ## The thread system -/

namespace ThreadSystem

variable {τ α : Type} {s t : ThreadSystem τ α}

/-- The places of the threads. -/
def board (s : ThreadSystem τ α) : Board τ where
  current := s.curthread
  ready := s.runqueue
  asleep := s.sleepers
  dead := s.zombies
  numthreads := s.numthreads

/-- `x` fails, or threads have moved from `b` to where they are now. -/
def Moving (b : Board τ) (x : Except Assertion (ThreadSystem τ α)) : Prop :=
  Post x (fun t => b.Moves t.board) fun _ => True

theorem board_leaveInterrupt (s : ThreadSystem τ α) (trap : Option Trap) :
    (s.leaveInterrupt trap).board = s.board := by
  cases trap with
  | none => rfl
  | some trap => rfl

variable [DecidableEq τ] [DecidableEq α]

omit [DecidableEq τ] in
theorem moves_threadWakeup (addr : α) (s : ThreadSystem τ α) :
    Post (s.threadWakeup addr)
      (fun t => s.board.Moves t.board ∧ t.curthread = s.curthread) fun _ => True := by
  by_cases hSpl : s.curspl = 0
  · rw [threadWakeup, if_pos hSpl]
    exact .error trivial
  rw [threadWakeup_eq addr s hSpl]
  refine .ok ⟨?_, rfl⟩
  have hWake := Board.moves_wake (fun t => decide ((s.thread t).tSleepaddr = some addr)) s.board
  simpa only [board, decide_not] using hWake

omit [DecidableEq α] in
theorem board_mdSwitch (s : ThreadSystem τ α) (old nu : τ) :
    (s.mdSwitch old nu).board = s.board := by
  unfold mdSwitch
  split
  · rfl
  · rfl

omit [DecidableEq α] in
theorem board_exorciseLoop (s : ThreadSystem τ α) (zombies : List τ) :
    Post (s.exorciseLoop zombies) (fun t => t.board = s.board) fun _ => True := by
  induction zombies generalizing s with
  | nil => exact .ok rfl
  | cons z zombies ih =>
    unfold exorciseLoop threadDestroy
    split
    · exact .error trivial
    split
    · exact .error trivial
    split
    · exact .error trivial
    · exact ih _

omit [DecidableEq α] in
theorem moves_exorcise (hCur : s.curthread ≠ none) :
    Post s.exorcise (fun t => s.board.Moves t.board) fun _ => True := by
  unfold exorcise
  split
  · exact .error trivial
  refine (board_exorciseLoop s s.zombies).bind fun t hSame => .ok ?_
  show s.board.Moves { t.board with dead := [] }
  rw [hSame]
  exact .single (.reap hCur)

omit [DecidableEq α] in
theorem moves_resume (hCur : s.curthread ≠ none) (t : τ) : Moving s.board (s.resume t) := by
  unfold resume
  split
  · exact .ok .refl
  · refine (moves_exorcise hCur).bind fun u hMoves => .ok ?_
    rw [board_leaveInterrupt]
    exact hMoves
  · exact (moves_exorcise hCur).bind fun u hMoves => .ok hMoves
  · exact (moves_exorcise hCur).bind fun u hMoves => .error trivial

omit [DecidableEq α] in
theorem moves_scheduler (hCur : s.curthread = none) : Moving s.board s.scheduler := by
  unfold scheduler
  split
  · exact .error trivial
  split
  · rename_i next runqueue cur hQueue hSwitching
    have hDispatch : s.board.Move { s.board with current := some next, ready := runqueue } :=
      .dispatch hCur hQueue
    refine (moves_resume ?_ next).mono fun u hMoves => ?_
    · rw [(mdSwitch_keeps _ cur next next).1]
      exact Option.some_ne_none next
    · rw [board_mdSwitch] at hMoves
      exact .head hDispatch hMoves
  · exact .ok .refl

omit [DecidableEq α] in
/-- `mi_switch` for a thread that stays alive. -/
theorem moves_miSwitch {nextstate : ThreadState} (hState : nextstate ≠ .zomb) (frame : Frame) :
    Moving s.board (s.miSwitch nextstate frame) := by
  unfold miSwitch
  split
  · exact .error trivial
  rename_i hSpl
  split
  · exact .ok .refl
  rename_i cur hCur
  cases nextstate with
  | ready =>
    have hYield : s.board.Move _ := .yield hCur
    rw [stash, makeRunnable, if_neg (show (s.giveUp cur frame).curspl ≠ 0 from hSpl), ok_bind]
    exact (moves_scheduler rfl).mono fun u hMoves => .head hYield hMoves
  | sleep =>
    have hSleep : s.board.Move _ := .sleep hCur
    rw [stash, ok_bind]
    exact (moves_scheduler rfl).mono fun u hMoves => .head hSleep hMoves
  | zomb => exact absurd rfl hState

omit [DecidableEq α] in
theorem moves_threadExit (c : ThreadConfig α) {t : τ} (hCur : s.curthread = some t) :
    Moving s.board (s.threadExit c t) := by
  unfold threadExit
  dsimp only
  split
  · exact .error trivial
  rename_i hNum
  have hExit : s.board.Move _ := .exit hCur hNum
  unfold miSwitch
  split
  · exact .error trivial
  split
  · rename_i hNone
    rw [show s.curthread = none from hNone] at hCur
    cases hCur
  · rename_i cur hSome
    have hEq : some cur = some t := hSome.symm.trans hCur
    cases hEq
    rw [stash, ok_bind]
    exact (moves_scheduler rfl).mono fun u hMoves => .head hExit hMoves

omit [DecidableEq α] in
theorem moves_threadYield (c : ThreadConfig α) (s : ThreadSystem τ α) (trap : Option Trap) :
    Post (s.threadYield c trap) (fun t => s.board.Moves t.board ∧
      (s.curthread = none → t.curthread = none)) fun _ => True := by
  cases hCur : s.curthread with
  | none =>
    rw [threadYield_idle c s trap hCur]
    refine .ok ⟨?_, fun _ => ?_⟩
    · rw [board_leaveInterrupt]
      exact .refl
    · have hBoard := congrArg Board.current (board_leaveInterrupt s trap)
      exact hBoard.trans hCur
  | some cur =>
    unfold threadYield
    dsimp only
    rw [show (s.splhigh c).2.curthread = some cur from hCur]
    exact (moves_miSwitch (by simp) _).mono fun u hMoves =>
      ⟨hMoves, fun hNone => absurd hNone (Option.some_ne_none cur)⟩

omit [DecidableEq α] in
theorem moves_threadSleep (addr : α) (s : ThreadSystem τ α) (t : τ) :
    Moving s.board (s.threadSleep addr t) := by
  unfold threadSleep
  split
  · exact .error trivial
  · exact moves_miSwitch (by simp) _

theorem moves_timerInterrupt (c : ThreadConfig α) (s : ThreadSystem τ α) :
    Post (s.timerInterrupt c) (fun t => s.board.Moves t.board ∧
      (s.curthread = none → t.curthread = none)) fun _ => True := by
  have hTick : Post ((s.enterInterrupt c).2.lboltTick c)
      (fun t => s.board.Moves t.board ∧ t.curthread = s.curthread) fun _ => True := by
    unfold lboltTick
    dsimp only
    split
    · exact moves_threadWakeup c.lbolt _
    · exact .ok ⟨.refl, rfl⟩
  refine hTick.bind fun u hu => (moves_threadYield c u _).mono fun v hv => ?_
  exact ⟨hu.1.trans hv.1, fun hCur => hv.2 (hu.2.trans hCur)⟩

omit [DecidableEq τ] in
theorem moves_deviceInterrupt (c : ThreadConfig α) (addr : α) (s : ThreadSystem τ α) :
    Post (s.deviceInterrupt c addr)
      (fun t => s.board.Moves t.board ∧ t.curthread = s.curthread) fun _ => True := by
  refine (moves_threadWakeup addr (s.enterInterrupt c).2).bind fun u hu => .ok ?_
  exact hu

theorem moves_freeCall {c : ThreadConfig α} {cur : τ} (hCur : s.curthread = some cur)
    {a : ThreadAction τ α} {x : Except Assertion (ThreadSystem τ α)}
    (hCall : s.freeCall c cur a = some x) : Moving s.board x := by
  cases a with
  | splx newspl | setVmspace as | setCwd dir =>
    cases hCall
    exact .ok .refl
  | threadYield =>
    cases hCall
    exact (moves_threadYield c s none).mono fun _ => And.left
  | threadSleep addr =>
    cases hCall
    exact moves_threadSleep addr s cur
  | threadWakeup addr =>
    cases hCall
    exact (moves_threadWakeup addr s).mono fun _ => And.left
  | threadExit =>
    cases hCall
    exact moves_threadExit c hCur
  | threadCreate newguy =>
    simp only [freeCall] at hCall
    split at hCall
    · cases hCall
    · cases hCall
      exact .ok .refl
  | threadFork | timer | device addr => cases hCall

variable {Φ : α → Prop}

omit [DecidableEq α] in
theorem moves_threadFork (h : s.Placed Φ) (c : ThreadConfig α) {cur newguy : τ}
    (hCur : s.curthread = some cur) (hNewguy : (s.thread cur).newguy = some newguy) :
    Moving s.board (s.threadFork c cur newguy) := by
  have hMem : cur ∈ s.placed := by simp [placed, hCur]
  have hUnplaced := (h.newguys cur hMem newguy hNewguy).unplaced
  have hSome : s.board.current ≠ none := Option.ne_none_iff_exists'.mpr ⟨cur, hCur⟩
  have hStart : s.board.Move _ := .start hSome hUnplaced
  rw [threadFork_eq]
  exact .ok (.single hStart)

theorem moves_call (h : s.Placed Φ) {c : ThreadConfig α} {cur : τ}
    (hCur : s.curthread = some cur) {a : ThreadAction τ α}
    {x : Except Assertion (ThreadSystem τ α)} (hCall : s.call c cur a = some x) :
    Moving s.board x := by
  unfold call at hCall
  split at hCall
  · exact moves_freeCall hCur hCall
  · rename_i newguy hNewguy
    cases hCall
    exact moves_threadFork h c hCur hNewguy
  · cases hCall

/-- **Step lemma.** -/
theorem moves_step (h : s.Inv Φ) {c : ThreadConfig α} {a : ThreadAction τ α}
    {x : Except Assertion (ThreadSystem τ α)} (hStep : s.step c a = some x) :
    Moving s.board x := by
  unfold step at hStep
  split at hStep
  · rename_i hCur
    cases hStep
    refine (moves_timerInterrupt c s).bind fun u hu => ?_
    exact (moves_scheduler (hu.2 hCur)).mono fun v hMoves => hu.1.trans hMoves
  · rename_i addr hCur
    cases hStep
    refine (moves_deviceInterrupt c addr s).bind fun u hu => ?_
    exact (moves_scheduler (hu.2.trans hCur)).mono fun v hMoves => hu.1.trans hMoves
  · cases hStep
  · split at hStep
    · cases hStep
      exact (moves_timerInterrupt c s).mono fun _ => And.left
    · cases hStep
  · split at hStep
    · cases hStep
      exact (moves_deviceInterrupt c _ s).mono fun _ => And.left
    · cases hStep
  · rename_i hCur _ _
    exact moves_call h.placed hCur hStep

/-- **So does the thread system.** -/
theorem moves_of_run {c : ThreadConfig α} {me : τ} {tr : List (ThreadAction τ α)}
    (h : Run (Step c) (threadBootstrap c me) tr s) : (Board.first me).Moves s.board :=
  (h.simulate_steps (I := Inv fun _ => True) (f := board) (inv_threadBootstrap c me)
    fun _ _ t hInv hStep => ⟨hInv.step (fun _ _ => trivial) (x := .ok t) hStep,
      moves_step hInv (x := .ok t) hStep⟩).2

theorem sound_of_run {c : ThreadConfig α} {me : τ} {tr : List (ThreadAction τ α)}
    (h : Run (Step c) (threadBootstrap c me) tr s) : s.board.Sound :=
  (Board.sound_first me).moves (moves_of_run h)

end ThreadSystem

/-! ## Semaphores and locks -/

namespace Synch

variable {τ ς κ α : Type} [DecidableEq τ] [DecidableEq ς] [DecidableEq κ] [DecidableEq α]
  {s s' : Synch τ ς κ α} {c : ThreadConfig (SynchAddr ς κ α)} {t : τ}

omit [DecidableEq τ] in
theorem moves_V {i : ς} (h : s.V c t i = .ok s') : s.sys.board.Moves s'.sys.board := by
  unfold V at h
  dsimp only at h
  split at h
  · cases h
  · obtain ⟨sys, hWakeup, hRest⟩ := bind_eq_ok.mp h
    cases hRest
    exact ((ThreadSystem.moves_threadWakeup _ _).of_eq_ok hWakeup).1

theorem moves_lockRelease {l : κ} (h : s.lockRelease c t l = .ok s') :
    s.sys.board.Moves s'.sys.board := by
  unfold lockRelease at h
  dsimp only at h
  split at h
  · obtain ⟨sys, hWakeup, hRest⟩ := bind_eq_ok.mp h
    cases hRest
    exact ((ThreadSystem.moves_threadWakeup _ _).of_eq_ok hWakeup).1
  · cases h
    exact .refl

theorem moves_exec {f : SynchCall ς κ} (h : s.exec c t f = .ok s') :
    s.sys.board.Moves s'.sys.board := by
  cases f with
  | P i =>
    simp only [exec, P] at h
    split at h
    · cases h
    · cases h
      exact .refl
  | V i => exact moves_V h
  | lockAcquire l | lockDoIHold l =>
    cases h
    exact .refl
  | lockRelease l => exact moves_lockRelease h

omit [DecidableEq κ] [DecidableEq α] in
theorem moves_loopP {i : ς} {spl : Nat} (h : s.loopP t i spl = .ok s') :
    s.sys.board.Moves s'.sys.board := by
  unfold loopP at h
  split at h
  · obtain ⟨sys, hSleep, hRest⟩ := bind_eq_ok.mp h
    cases hRest
    exact (ThreadSystem.moves_threadSleep _ _ _).of_eq_ok hSleep
  split at h
  · cases h
  · cases h
    exact .refl

omit [DecidableEq ς] [DecidableEq α] in
theorem moves_loopAcquire {l : κ} {spl : Nat} (h : s.loopAcquire t l spl = .ok s') :
    s.sys.board.Moves s'.sys.board := by
  unfold loopAcquire at h
  split at h
  · obtain ⟨sys, hSleep, hRest⟩ := bind_eq_ok.mp h
    cases hRest
    exact (ThreadSystem.moves_threadSleep _ _ _).of_eq_ok hSleep
  · cases h
    exact .refl

/-- **Step lemma.** -/
theorem moves_step (h : s.Inv) {a : SynchAction τ ς κ α} (hStep : Step c s a s') :
    s.sys.board.Moves s'.sys.board := by
  unfold Step step at hStep
  cases a with
  | sys a =>
    dsimp only at hStep
    split at hStep
    · obtain ⟨x, hSys, hMap⟩ := Option.map_eq_some_iff.mp hStep
      cases x with
      | error e => cases hMap
      | ok sys =>
        cases hMap
        exact ThreadSystem.moves_step h.sys (x := .ok sys) hSys
    · cases hStep
  | call f =>
    obtain ⟨t, -, hRest⟩ := Option.bind_eq_some_iff.mp hStep
    split at hRest
    · exact moves_exec (Option.some.inj hRest)
    · cases hRest
  | loop =>
    obtain ⟨t, -, hRest⟩ := Option.bind_eq_some_iff.mp hStep
    split at hRest
    · cases hRest
    · exact moves_loopP (Option.some.inj hRest)
    · exact moves_loopAcquire (Option.some.inj hRest)

/-- **And with semaphores and locks.** -/
theorem moves_of_run {me : τ} {initialCount : ς → Int} {tr : List (SynchAction τ ς κ α)}
    (h : Run (Step c) (boot c me initialCount) tr s) : (Board.first me).Moves s.sys.board :=
  (h.simulate_steps (I := Inv) (f := fun s => s.sys.board) (inv_boot c me initialCount)
    fun _ _ _ hInv hStep => ⟨hInv.step hStep, moves_step hInv hStep⟩).2

theorem sound_of_run {me : τ} {initialCount : ς → Int} {tr : List (SynchAction τ ς κ α)}
    (h : Run (Step c) (boot c me initialCount) tr s) : s.sys.board.Sound :=
  (Board.sound_first me).moves (moves_of_run h)

end Synch

end Windborne.OS161
