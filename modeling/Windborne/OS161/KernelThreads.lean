import Mathlib.Data.List.Count
import Mathlib.Data.List.Nodup
import Mathlib.Data.List.Perm.Basic
import Windborne.Library.Results
import Windborne.Library.Runs
import Windborne.OS161.KernelFlow

/-!
# Where the threads of the kernel are

A thread whose stack the processor is on is the current thread, unless it waits in the
scheduler: then there is none. Every other thread is in one of the lists. Few functions move
threads; for the others one lemma says that they leave all of this alone.
-/

namespace Windborne.OS161

open Library

namespace Kernel

/-- How often a stack is in the scheduler. -/
def waiting (stack : List Call) : Nat := stack.countP fun f => f.code = .scheduler

@[simp]
theorem waiting_nil : waiting [] = 0 := rfl

@[simp]
theorem waiting_cons (e : Nat) (code : Code) (rest : List Call) :
    waiting (⟨e, code⟩ :: rest) = waiting rest + if code = .scheduler then 1 else 0 := by
  simp [waiting, List.countP_cons]

/-- A step that moves no thread. -/
structure Quiet (s t : Kernel) : Prop where
  places : t.places = s.places
  stack : ∃ stack, t.stack = Function.update s.stack s.running stack ∧
    waiting stack = waiting (s.stack s.running)

variable {c : KernelConfig} {s s' t : Kernel} {e : Nat} {code code' after callee : Code}
  {rest : List Call} {o : Choice}

theorem Quiet.running (h : Quiet s t) : t.running = s.running :=
  congrArg (fun p => p.2.1) h.places

/-! ## Steps that move no thread -/

section Quiet

variable (hStack : s.stack s.running = ⟨e, code⟩ :: rest) (hPlaces : s'.places = s.places)
  (hStacks : s'.stack = s.stack) (hOld : code ≠ .scheduler)

include hStack hPlaces hStacks hOld

theorem quiet_become (hNew : code' ≠ .scheduler) : Quiet s (s'.become code') where
  places := hPlaces
  stack := by
    have hRunning : s'.running = s.running := congrArg (fun p => p.2.1) hPlaces
    refine ⟨⟨e, code'⟩ :: rest, ?_, ?_⟩
    · simp only [become, setStack, hStacks, hRunning, hStack]
    · rw [hStack, waiting_cons, waiting_cons, if_neg hOld, if_neg hNew]

theorem quiet_call (hAfter : after ≠ .scheduler) (hCallee : callee ≠ .scheduler) :
    Quiet s (s'.call after callee) where
  places := hPlaces
  stack := by
    have hRunning : s'.running = s.running := congrArg (fun p => p.2.1) hPlaces
    refine ⟨⟨s'.curspl, callee⟩ :: ⟨e, after⟩ :: rest, ?_, ?_⟩
    · simp only [call, setStack, hStacks, hRunning, hStack]
    · simp only [hStack, waiting_cons, if_neg hOld, if_neg hAfter, if_neg hCallee]

theorem quiet_ret {answer : Code → Code}
    (hAnswer : ∀ code, answer code = .scheduler ↔ code = .scheduler) :
    Quiet s (s'.ret answer) where
  places := hPlaces
  stack := by
    have hRunning : s'.running = s.running := congrArg (fun p => p.2.1) hPlaces
    cases rest with
    | nil =>
      refine ⟨[], ?_, ?_⟩
      · simp only [ret, setStack, hStacks, hRunning, hStack]
      · rw [hStack, waiting_cons, if_neg hOld]
        rfl
    | cons f rest =>
      refine ⟨⟨f.entry, answer f.code⟩ :: rest, ?_, ?_⟩
      · simp only [ret, setStack, hStacks, hRunning, hStack]
      · obtain ⟨entry, fcode⟩ := f
        simp only [hStack, waiting_cons, if_neg hOld, hAnswer, Nat.add_zero]

end Quiet

theorem answered_scheduler (ans : Bool) (code : Code) :
    code.answered ans = .scheduler ↔ code = .scheduler := by
  cases code with
  | releaseHeld l spl => cases ans <;> simp [Code.answered]
  | faulted iskern savespl => cases ans <;> simp [Code.answered]
  | _ => simp [Code.answered]

theorem saving_scheduler (oldspl : Nat) (code : Code) :
    code.saving oldspl = .scheduler ↔ code = .scheduler := by
  cases code <;> simp [Code.saving]

theorem quiet_activateCurrent (hStack : s.stack s.running = ⟨e, code⟩ :: rest)
    (hOld : code ≠ .scheduler) (hAfter : after ≠ .scheduler)
    (h : s.activateCurrent after = .ok t) : Quiet s t := by
  obtain ⟨cur, -, ⟨-, rfl⟩ | ⟨-, rfl⟩⟩ := activateCurrent_ok h
  · exact quiet_become hStack (by rfl) (by rfl) hOld hAfter
  · exact quiet_call hStack (by rfl) (by rfl) hOld hAfter nofun

section

variable {l l' : Nat} (hMoves : ¬code.Moves)

include hMoves

/-- Only a function that moves threads goes to the scheduler, and nothing comes back to it. -/
theorem ne_scheduler_goTo (hFlow : Flow c code l (.goTo code') l') : code' ≠ .scheduler := by
  cases hFlow with
  | _ => nofun

theorem ne_scheduler_call (hFlow : Flow c code l (.call after callee) l') :
    after ≠ .scheduler ∧ callee ≠ .scheduler := by
  cases hFlow with
  | threadYield | threadSleep | threadExit => exact absurd trivial hMoves
  | @probesDone func => cases func <;> exact ⟨nofun, nofun⟩
  | outsideCall f => cases f <;> exact ⟨nofun, nofun⟩
  | _ => exact ⟨nofun, nofun⟩

omit hMoves in
theorem scheduler_ret {answer : Code → Code} (hFlow : Flow c code l (.ret answer) l') (d : Code) :
    answer d = .scheduler ↔ d = .scheduler := by
  cases hFlow with
  | splxOff | splxOn => exact saving_scheduler _ d
  | ret | vmFaultFailed => exact answered_scheduler _ d
  | trapDone | interrupted | outsideRet => exact Iff.rfl

/-- **Everything else.** -/
theorem Acts.quiet (h : Acts c code s t) (hStack : s.stack s.running = ⟨e, code⟩ :: rest) :
    Quiet s t := by
  obtain ⟨s', E, hPrepares, hFlow, rfl⟩ := h
  have hOld := Code.ne_scheduler_of_not_moves hMoves
  cases E with
  | goTo code' =>
    have hNew := ne_scheduler_goTo hMoves hFlow
    exact quiet_become hStack hPrepares.places hPrepares.stack hOld hNew
  | call after callee =>
    obtain ⟨hAfter, hCallee⟩ := ne_scheduler_call hMoves hFlow
    exact quiet_call hStack hPrepares.places hPrepares.stack hOld hAfter hCallee
  | ret answer =>
    exact quiet_ret hStack hPrepares.places hPrepares.stack hOld (scheduler_ret hFlow)

end

/-! ## What the others do -/

theorem add_eq_ok {guys l : List Word} {room : Nat} {memory : Bool} {guy : Word} :
    add guys room memory guy = .ok l ↔
      (guys.length < room ∨ memory = true) ∧ l = guys ++ [guy] := by
  unfold add
  split_ifs with hRoom
  · simp [hRoom, eq_comm]
  · simp [hRoom]

theorem makeRunnable_ok {guy : Word} {memory : Bool} (h : s.makeRunnable guy memory = .ok t) :
    s.curspl ≠ 0 ∧ (s.runqueue.length < s.runqueueRoom ∨ memory = true) ∧
      t = { s with runqueue := s.runqueue ++ [guy] } := by
  unfold makeRunnable at h
  split_ifs at h with hSpl
  obtain ⟨runqueue, hAdd, hPure⟩ := bind_eq_ok.mp h
  cases hPure
  obtain ⟨hRoom, rfl⟩ := add_eq_ok.mp hAdd
  exact ⟨hSpl, hRoom, rfl⟩

/-- The list that `mi_switch` puts a thread on has room for it, or memory was found. -/
theorem stash_ok {cur : Word} {memory : Bool} {nextstate : ThreadState}
    (h : s.stash cur memory nextstate = .ok t) :
    match nextstate with
    | .ready => (s.runqueue.length < s.runqueueRoom ∨ memory = true) ∧
        t = { s with runqueue := s.runqueue ++ [cur] }
    | .sleep => (s.sleepers.length < s.sleepersRoom ∨ memory = true) ∧
        t = { s with sleepers := s.sleepers ++ [cur] }
    | .zomb => (s.zombies.length < s.zombiesRoom ∨ memory = true) ∧
        t = { s with zombies := s.zombies ++ [cur], exits := s.exits + 1 } := by
  cases nextstate with
  | ready => exact (makeRunnable_ok h).2
  | sleep =>
    obtain ⟨sleepers, hAdd, hPure⟩ := bind_eq_ok.mp h
    cases hPure
    obtain ⟨hRoom, rfl⟩ := add_eq_ok.mp hAdd
    exact ⟨hRoom, rfl⟩
  | zomb =>
    obtain ⟨zombies, hAdd, hPure⟩ := bind_eq_ok.mp h
    cases hPure
    obtain ⟨hRoom, rfl⟩ := add_eq_ok.mp hAdd
    exact ⟨hRoom, rfl⟩

theorem miSwitch_ok {nextstate : ThreadState} {memory : Bool}
    (h : s.miSwitch nextstate after memory = .ok t) :
    s.curspl ≠ 0 ∧ (s.curthread = none ∧ t = s.become after ∨ ∃ cur u, s.curthread = some cur ∧
      { s with curthread := none }.stash cur memory nextstate = .ok u ∧
        t = u.call after .scheduler) := by
  unfold miSwitch at h
  split_ifs at h with hSpl
  refine ⟨hSpl, ?_⟩
  split at h
  · rename_i hCur
    cases h
    exact Or.inl ⟨hCur, rfl⟩
  · rename_i cur hCur
    obtain ⟨u, hStash, hPure⟩ := bind_eq_ok.mp h
    cases hPure
    exact Or.inr ⟨cur, u, hCur, hStash, rfl⟩

/-- What `exorcise` leaves of the given zombies. -/
def withoutZombies (s : Kernel) (zombies : List Word) : Kernel :=
  { s with
    thread := fun z => if z ∈ zombies then { s.thread z with parent := none } else s.thread z
    allocated := fun z => if z ∈ zombies then false else s.allocated z }

theorem threadDestroy_ok {z : Word} (h : s.threadDestroy z = .ok t) :
    s.curthread ≠ some z ∧ t = s.withoutZombies [z] := by
  unfold threadDestroy at h
  split_ifs at h with hCur hVmspace
  cases h
  refine ⟨hCur, ?_⟩
  simp only [withoutZombies, setThread, List.mem_singleton, Kernel.mk.injEq, true_and, and_true]
  refine ⟨?_, ?_⟩
  · ext u : 1
    by_cases hu : u = z
    · simp [hu]
    · simp [hu]
  · ext u : 1
    by_cases hu : u = z
    · simp [hu]
    · simp [hu]

theorem withoutZombies_cons (s : Kernel) (z : Word) (zombies : List Word) :
    (s.withoutZombies [z]).withoutZombies zombies = s.withoutZombies (z :: zombies) := by
  simp only [withoutZombies, List.mem_cons, List.not_mem_nil, or_false, Kernel.mk.injEq,
    true_and, and_true]
  refine ⟨?_, ?_⟩
  · ext u : 1
    by_cases hu : u = z <;> by_cases hz : u ∈ zombies <;> simp [hu, hz]
  · ext u : 1
    by_cases hu : u = z <;> by_cases hz : u ∈ zombies <;> simp [hu, hz]

theorem exorciseLoop_ok {zombies : List Word} (h : s.exorciseLoop zombies = .ok t) :
    (∀ z ∈ zombies, s.curthread ≠ some z) ∧ t = s.withoutZombies zombies := by
  induction zombies generalizing s with
  | nil =>
    cases h
    refine ⟨by simp, ?_⟩
    simp [withoutZombies]
  | cons z zombies ih =>
    unfold exorciseLoop at h
    split_ifs at h with hCur
    obtain ⟨u, hDestroy, hRest⟩ := bind_eq_ok.mp h
    obtain ⟨hNe, rfl⟩ := threadDestroy_ok hDestroy
    obtain ⟨hNone, rfl⟩ := ih hRest
    refine ⟨?_, withoutZombies_cons s z zombies⟩
    intro z' hz'
    rcases List.mem_cons.mp hz' with rfl | hz'
    · exact hNe
    · exact hNone z' hz'

theorem exorcise_ok (h : s.exorcise = .ok t) :
    s.curspl ≠ 0 ∧ (∀ z ∈ s.zombies, s.curthread ≠ some z) ∧
      t = { s.withoutZombies s.zombies with zombies := [], exits := 0 } := by
  unfold exorcise at h
  split_ifs at h with hSpl
  obtain ⟨u, hLoop, hPure⟩ := bind_eq_ok.mp h
  cases hPure
  obtain ⟨hNone, rfl⟩ := exorciseLoop_ok hLoop
  exact ⟨hSpl, hNone, rfl⟩

theorem switched_ok (h : s.switched = .ok t) :
    ∃ u, s.exorcise = .ok u ∧ u.activateCurrent (.ret false) = .ok t := bind_eq_ok.mp h

theorem scheduler_ok (h : s.scheduler = .ok t) :
    s.curspl ≠ 0 ∧ (s.runqueue = [] ∧ t = s ∨ ∃ next runqueue, s.runqueue = next :: runqueue ∧
      t = ({ s with curthread := some next, runqueue }.become .switched).mdSwitch next) := by
  unfold scheduler at h
  split_ifs at h with hSpl
  refine ⟨hSpl, ?_⟩
  split at h
  · rename_i hQueue
    cases h
    exact Or.inl ⟨hQueue, rfl⟩
  · rename_i next runqueue hQueue
    cases h
    exact Or.inr ⟨next, runqueue, hQueue, rfl⟩

theorem threadSleep_ok {addr : Word} {memory : Bool} (h : s.threadSleep addr memory = .ok t) :
    ∃ cur, s.inInterrupt = 0 ∧ s.curthread = some cur ∧
      (s.setThread cur fun th => { th with tSleepaddr := some addr }).miSwitch
        .sleep .slept memory = .ok t := by
  unfold threadSleep at h
  split_ifs at h with hIn
  split at h
  · cases h
  · rename_i cur hCur
    exact ⟨cur, by simpa using hIn, hCur, h⟩

theorem threadExit_ok {memory : Bool} (h : s.threadExit c memory = .ok t) :
    ∃ cur, s.curthread = some cur ∧ s.numthreads ≠ 0 ∧
      { { s with curspl := c.splHigh }.setThread cur fun th => { th with tVmspace := none } with
        numthreads := s.numthreads - 1 }.miSwitch .zomb .exited memory = .ok t := by
  unfold threadExit at h
  split at h
  · cases h
  · rename_i cur hCur
    dsimp only at h
    split_ifs at h with hNum
    exact ⟨cur, hCur, hNum, h⟩

theorem wakeupLoop_ok {addr : Word} {i : Nat} {memory : Bool}
    (h : s.wakeupLoop addr i memory = .ok t) :
    t = s.become (.ret false) ∨ t = s.become (.wakeupLoop addr (i + 1)) ∨
      ∃ guy, s.sleepers[i]? = some guy ∧ (s.runqueue.length < s.runqueueRoom ∨ memory = true) ∧
        t = { s with sleepers := s.sleepers.eraseIdx i, runqueue := s.runqueue ++ [guy] } := by
  unfold wakeupLoop at h
  split at h
  · cases h
    exact Or.inl rfl
  · rename_i guy hGuy
    split_ifs at h with hAddr
    · obtain ⟨-, hRoom, rfl⟩ := makeRunnable_ok h
      exact Or.inr (Or.inr ⟨guy, hGuy, hRoom, rfl⟩)
    · cases h
      exact Or.inr (Or.inl rfl)

theorem fptInitialize_eq (s : Kernel) :
    ∃ table, s.fptInitialize = { s with fullProcessTable := table } ∧
      ∀ i p, table i = some p → s.fullProcessTable i = some p := by
  unfold fptInitialize
  split
  · exact ⟨fun _ => none, rfl, fun _ _ h => nomatch h⟩
  · exact ⟨s.fullProcessTable, rfl, fun _ _ h => h⟩

/-- Preallocating only makes room. -/
theorem preallocate_eq (s : Kernel) (outcome : ForkOutcome) :
    ∃ sleepersRoom zombiesRoom runqueueRoom, s.preallocate outcome =
        { s with sleepersRoom, zombiesRoom, runqueueRoom } ∧
      s.sleepersRoom ≤ sleepersRoom ∧ s.zombiesRoom ≤ zombiesRoom ∧
        s.runqueueRoom ≤ runqueueRoom := by
  have hMax := fun n => Nat.le_max_left n (s.numthreads + 1)
  cases outcome with
  | noThread | noStack | noSleepers =>
    exact ⟨_, _, _, rfl, Nat.le_refl _, Nat.le_refl _, Nat.le_refl _⟩
  | noZombies => exact ⟨_, _, _, rfl, hMax _, Nat.le_refl _, Nat.le_refl _⟩
  | noScheduler => exact ⟨_, _, _, rfl, hMax _, hMax _, Nat.le_refl _⟩
  | notRunnable => exact ⟨_, _, _, rfl, hMax _, hMax _, hMax _⟩
  | started newguy => exact ⟨_, _, _, rfl, hMax _, hMax _, hMax _⟩

theorem threadFork_ok {func : ThreadFunc} {outcome : ForkOutcome}
    (h : s.threadFork c func outcome = some (.ok t)) :
    s.curthread ≠ none ∧ (t = s.become (.ret false) ∨ t = s.fptInitialize.become (.ret false) ∨
      t = (s.preallocated c outcome).become (.restore s.curspl false) ∨
      ∃ newguy, outcome = .started newguy ∧ s.allocated newguy = false ∧ newguy ≠ 0 ∧
        t = ((s.preallocated c outcome).start c newguy func).become (.restore s.curspl true)) := by
  unfold threadFork at h
  by_cases hCur : s.curthread = none
  · rw [if_pos hCur] at h
    cases h
  rw [if_neg hCur] at h
  refine ⟨hCur, ?_⟩
  cases outcome with
  | noThread =>
    cases h
    exact Or.inl rfl
  | noStack =>
    cases h
    exact Or.inr (Or.inl rfl)
  | noSleepers | noZombies | noScheduler =>
    cases h
    exact Or.inr (Or.inr (Or.inl rfl))
  | notRunnable =>
    dsimp only at h
    split_ifs at h
    cases h
    exact Or.inr (Or.inr (Or.inl rfl))
  | started newguy =>
    dsimp only at h
    split_ifs at h with hFree
    cases h
    rw [not_or, Bool.not_eq_true] at hFree
    exact Or.inr (Or.inr (Or.inr ⟨newguy, rfl, hFree.1, hFree.2, rfl⟩))

/-! ## Places -/

/-- The invariant of the places. -/
structure Placed (s : Kernel) : Prop where
  nodup : s.placed.Nodup
  allocated : ∀ t ∈ s.placed, s.allocated t = true
  running : s.running ∈ s.placed
  home : s.curthread = some s.running ∧ waiting (s.stack s.running) = 0 ∨
    s.curthread = none ∧ waiting (s.stack s.running) = 1
  away : ∀ t, t ≠ s.running → waiting (s.stack t) = 0

theorem Placed.curthread (h : s.Placed) {cur : Word} (hCur : s.curthread = some cur) :
    cur = s.running ∧ waiting (s.stack s.running) = 0 := by
  rcases h.home with ⟨hHome, hWaiting⟩ | ⟨hNone, -⟩
  · rw [hCur] at hHome
    exact ⟨Option.some_inj.mp hHome, hWaiting⟩
  · rw [hCur] at hNone
    cases hNone

/-- A step on the stack of the running thread that moves threads from place to place. -/
theorem Placed.move (h : s.Placed) {stack : List Call} (hPlaced : t.placed.Perm s.placed)
    (hAllocated : t.allocated = s.allocated) (hRunning : t.running = s.running)
    (hStack : t.stack = Function.update s.stack s.running stack)
    (hHome : t.curthread = some t.running ∧ waiting stack = 0 ∨
      t.curthread = none ∧ waiting stack = 1) : t.Placed where
  nodup := hPlaced.nodup_iff.mpr h.nodup
  allocated u hu := by
    rw [hAllocated]
    exact h.allocated u (hPlaced.mem_iff.mp hu)
  running := by
    rw [hRunning]
    exact hPlaced.mem_iff.mpr h.running
  home := by
    rwa [hStack, hRunning, Function.update_self, ← hRunning]
  away u hu := by
    rw [hRunning] at hu
    rw [hStack, Function.update_of_ne hu]
    exact h.away u hu

theorem Quiet.placed (hQuiet : Quiet s t) (h : s.Placed) : t.Placed := by
  obtain ⟨stack, hStack, hWaiting⟩ := hQuiet.stack
  have hPlaces := hQuiet.places
  simp only [Kernel.places, Prod.mk.injEq] at hPlaces
  obtain ⟨hCur, hRunning, hQueue, hSleepers, hZombies, -, -, hAllocated, -⟩ := hPlaces
  refine h.move ?_ hAllocated hRunning hStack ?_
  · simp only [Kernel.placed, hCur, hQueue, hSleepers, hZombies]
    exact List.Perm.refl _
  · rw [hCur, hRunning, hWaiting]
    exact h.home

theorem Placed.goTo (h : s.Placed) (hStack : s.stack s.running = ⟨e, code⟩ :: rest)
    (hOld : code ≠ .scheduler) (hNew : code' ≠ .scheduler) : (s.become code').Placed :=
  (quiet_become hStack rfl rfl hOld hNew).placed h

/-! ## Steps -/

theorem stash_placed {cur : Word} {memory : Bool} {nextstate : ThreadState}
    (h : { s with curthread := none }.stash cur memory nextstate = .ok t) :
    t.curthread = none ∧ t.running = s.running ∧ t.allocated = s.allocated ∧ t.stack = s.stack ∧
      t.placed.Perm (cur :: (s.runqueue ++ (s.sleepers ++ s.zombies))) := by
  have hOk := stash_ok h
  cases nextstate with
  | ready =>
    obtain ⟨-, rfl⟩ := hOk
    refine ⟨rfl, rfl, rfl, rfl, ?_⟩
    rw [List.perm_iff_count]
    intro u
    simp only [placed, Option.toList_none, List.count_append, List.count_cons, List.count_nil]
    omega
  | sleep =>
    obtain ⟨-, rfl⟩ := hOk
    refine ⟨rfl, rfl, rfl, rfl, ?_⟩
    rw [List.perm_iff_count]
    intro u
    simp only [placed, Option.toList_none, List.count_append, List.count_cons, List.count_nil]
    omega
  | zomb =>
    obtain ⟨-, rfl⟩ := hOk
    refine ⟨rfl, rfl, rfl, rfl, ?_⟩
    rw [List.perm_iff_count]
    intro u
    simp only [placed, Option.toList_none, List.count_append, List.count_cons, List.count_nil]
    omega

theorem Placed.miSwitch (h : s.Placed) (hStack : s.stack s.running = ⟨e, code⟩ :: rest)
    (hSame : s'.curthread = s.curthread ∧ s'.running = s.running ∧ s'.runqueue = s.runqueue ∧
      s'.sleepers = s.sleepers ∧ s'.zombies = s.zombies ∧ s'.allocated = s.allocated ∧
      s'.stack = s.stack)
    {nextstate : ThreadState} {memory : Bool} (hOld : code ≠ .scheduler)
    (hAfter : after ≠ .scheduler) (hSwitch : s'.miSwitch nextstate after memory = .ok t) :
    t.Placed := by
  obtain ⟨hCurthread, hRunning, hQueue, hSleepers, hZombies, hAllocated, hStacks⟩ := hSame
  obtain ⟨-, ⟨hNone, rfl⟩ | ⟨cur, u, hCur, hStash, rfl⟩⟩ := miSwitch_ok hSwitch
  · -- in the idle loop, where `mi_switch` returns at once
    have hWaiting : waiting (⟨e, after⟩ :: rest) = waiting (s.stack s.running) := by
      rw [hStack, waiting_cons, waiting_cons, if_neg hOld, if_neg hAfter]
    refine h.move ?_ hAllocated hRunning
      (show _ = Function.update s.stack s.running (⟨e, after⟩ :: rest) from ?_) ?_
    · show (s'.curthread.toList ++ (s'.runqueue ++ (s'.sleepers ++ s'.zombies))).Perm s.placed
      rw [hCurthread, hQueue, hSleepers, hZombies]
      exact List.Perm.refl _
    · simp only [become, setStack, hStacks, hRunning, hStack]
    · show s'.curthread = some s'.running ∧ _ ∨ s'.curthread = none ∧ _
      rw [hWaiting, hCurthread, hRunning]
      exact h.home
  · rw [hCurthread] at hCur
    obtain ⟨rfl, hWaiting⟩ := h.curthread hCur
    rw [hStack, waiting_cons, if_neg hOld, Nat.add_zero] at hWaiting
    have hCalled : waiting (⟨u.curspl, .scheduler⟩ :: ⟨e, after⟩ :: rest) = 1 := by
      simp [hWaiting, hAfter]
    obtain ⟨hNone, hRunning', hAllocated', hStacks', hPerm⟩ := stash_placed hStash
    have hPlaced : s.placed = s.running :: (s.runqueue ++ (s.sleepers ++ s.zombies)) := by
      simp [placed, hCur]
    rw [hQueue, hSleepers, hZombies, ← hPlaced] at hPerm
    refine h.move hPerm (hAllocated'.trans hAllocated) (hRunning'.trans hRunning) ?_
      (Or.inr ⟨hNone, hCalled⟩)
    simp only [call, setStack, hStacks', hRunning', hStacks, hRunning, hStack]

theorem Placed.wakeup (h : s.Placed) {i : Nat} {guy : Word} (hGuy : s.sleepers[i]? = some guy) :
    { s with sleepers := s.sleepers.eraseIdx i, runqueue := s.runqueue ++ [guy] }.Placed := by
  have hPerm : (guy :: s.sleepers.eraseIdx i).Perm s.sleepers := by
    obtain ⟨hi, rfl⟩ := List.getElem?_eq_some_iff.mp hGuy
    exact List.getElem_cons_eraseIdx_perm hi
  refine h.move ?_ rfl rfl (Function.update_eq_self s.running s.stack).symm h.home
  show (s.curthread.toList ++ (s.runqueue ++ [guy] ++ (s.sleepers.eraseIdx i ++ s.zombies))).Perm _
  apply List.Perm.append_left
  rw [List.append_assoc]
  apply List.Perm.append_left
  exact hPerm.append_right s.zombies

theorem Placed.start (h : s.Placed) {newguy : Word} {func : ThreadFunc}
    (hNew : s.allocated newguy = false) : (s.start c newguy func).Placed := by
  have hUnplaced : newguy ∉ s.placed := by
    intro hIn
    rw [h.allocated newguy hIn] at hNew
    cases hNew
  have hNe : newguy ≠ s.running := fun hEq => hUnplaced (hEq ▸ h.running)
  have hPerm : (s.start c newguy func).placed.Perm (newguy :: s.placed) := by
    show (s.curthread.toList ++ (s.runqueue ++ [newguy] ++ (s.sleepers ++ s.zombies))).Perm _
    rw [List.append_assoc, ← List.append_assoc]
    exact List.perm_middle.trans (by simp [placed])
  constructor
  · rw [hPerm.nodup_iff, List.nodup_cons]
    exact ⟨hUnplaced, h.nodup⟩
  · intro t ht
    show Function.update s.allocated newguy true t = true
    rcases List.mem_cons.mp (hPerm.mem_iff.mp ht) with rfl | hOld
    · exact Function.update_self ..
    · rw [Function.update_of_ne]
      · exact h.allocated t hOld
      · rintro rfl
        exact hUnplaced hOld
  · exact hPerm.mem_iff.mpr (List.mem_cons_of_mem _ h.running)
  · show s.curthread = _ ∧ waiting (Function.update s.stack newguy _ s.running) = 0 ∨
      s.curthread = none ∧ waiting (Function.update s.stack newguy _ s.running) = 1
    rw [Function.update_of_ne hNe.symm]
    exact h.home
  · intro t ht
    show waiting (Function.update s.stack newguy (newStack c func) t) = 0
    by_cases hEq : t = newguy
    · rw [hEq, Function.update_self]
      simp [newStack]
    · rw [Function.update_of_ne hEq]
      exact h.away t ht

theorem Placed.exorcise (h : s.Placed) (hCur : s.curthread = some s.running)
    (hOk : s.exorcise = .ok t) : t.Placed ∧ t.curthread = some t.running ∧
      t.stack = s.stack ∧ t.running = s.running := by
  obtain ⟨-, hNone, rfl⟩ := exorcise_ok hOk
  refine ⟨?_, hCur, rfl, rfl⟩
  have hSplit : s.placed = s.curthread.toList ++ (s.runqueue ++ s.sleepers) ++ s.zombies := by
    simp [placed]
  have hNodup := h.nodup
  rw [hSplit, List.nodup_append] at hNodup
  obtain ⟨hKept, -, hApart⟩ := hNodup
  have hPlaced : ({ s.withoutZombies s.zombies with zombies := [], exits := 0 } : Kernel).placed =
      s.curthread.toList ++ (s.runqueue ++ s.sleepers) := by
    simp [placed, withoutZombies]
  constructor
  · rwa [hPlaced]
  · intro t ht
    rw [hPlaced] at ht
    show (if t ∈ s.zombies then false else s.allocated t) = true
    rw [if_neg fun hz => hApart t ht t hz rfl]
    apply h.allocated
    rw [hSplit]
    exact List.mem_append_left _ ht
  · rw [hPlaced, hCur]
    exact List.mem_cons_self
  · exact h.home
  · exact h.away

/-- A switch: the next thread runs, and the old one is left on its side of it. -/
theorem mdSwitch_eq (s : Kernel) (nu : Word) : ∃ thread inInterrupt,
    s.mdSwitch nu = { s with thread, inInterrupt, running := nu } := by
  unfold mdSwitch
  split
  · rename_i hSame
    subst hSame
    exact ⟨_, _, rfl⟩
  · exact ⟨_, _, rfl⟩

theorem Placed.scheduler (h : s.Placed) (hStack : s.stack s.running = ⟨e, .scheduler⟩ :: rest)
    (hOk : s.scheduler = .ok t) : t.Placed := by
  obtain ⟨-, ⟨-, rfl⟩ | ⟨next, runqueue, hQueue, rfl⟩⟩ := scheduler_ok hOk
  · exact h
  have hWaiting : s.curthread = none ∧ waiting rest = 0 := by
    have hHome := h.home
    rw [hStack, waiting_cons, if_pos rfl] at hHome
    rcases hHome with ⟨-, hZero⟩ | ⟨hNone, hOne⟩
    · omega
    · exact ⟨hNone, by omega⟩
  obtain ⟨hCur, hRest⟩ := hWaiting
  obtain ⟨thread, inInterrupt, hSwitch⟩ :=
    mdSwitch_eq ({ s with curthread := some next, runqueue }.become .switched) next
  rw [hSwitch]
  generalize hNew : ({ { s with curthread := some next, runqueue }.become .switched with
    thread, inInterrupt, running := next } : Kernel) = t
  have hStacks : t.stack = Function.update s.stack s.running (⟨e, .switched⟩ :: rest) := by
    subst hNew
    simp only [become, setStack, hStack]
  have hAway : ∀ u, waiting (t.stack u) = 0 := by
    intro u
    rw [hStacks]
    by_cases hu : u = s.running
    · rw [hu, Function.update_self]
      simp [hRest]
    · rw [Function.update_of_ne hu]
      exact h.away u hu
  have hPerm : t.placed.Perm s.placed := by
    subst hNew
    simp only [placed, become, setStack, hQueue, hCur]
    exact List.Perm.refl _
  have hRunning : t.running = next := by
    subst hNew
    rfl
  have hNext : t.curthread = some next := by
    subst hNew
    rfl
  constructor
  · rw [hPerm.nodup_iff]
    exact h.nodup
  · intro u hu
    have hAllocated : t.allocated = s.allocated := by
      subst hNew
      rfl
    rw [hAllocated]
    exact h.allocated u (hPerm.mem_iff.mp hu)
  · simp [placed, hNext, hRunning]
  · exact Or.inl ⟨by rw [hNext, hRunning], hAway _⟩
  · exact fun u _ => hAway u

/-- What code outside does moves no thread. -/
theorem outside_quiet {saved : List Nat} {a : OutsideAction}
    (hStack : s.stack s.running = ⟨e, .outside saved⟩ :: rest)
    (h : s.outside c saved a = some t) : Quiet s t := by
  have hSame : ∀ u : Kernel, u.places = s.places → u.stack = s.stack → Quiet s u :=
    fun u hPlaces hStacks => ⟨hPlaces, _, by rw [hStacks, Function.update_eq_self], rfl⟩
  cases a with
  | splhigh =>
    cases h
    exact quiet_become hStack (by rfl) (by rfl) nofun nofun
  | splx newspl =>
    simp only [outside] at h
    split_ifs at h
    cases h
    exact quiet_call hStack (by rfl) (by rfl) nofun nofun nofun
  | call f =>
    cases h
    exact quiet_call hStack (by rfl) (by rfl) nofun nofun (by cases f <;> nofun)
  | setVmspace as =>
    simp only [outside, Option.map_eq_some_iff] at h
    obtain ⟨cur, -, rfl⟩ := h
    exact hSame _ rfl rfl
  | writeSpace p as =>
    simp only [outside] at h
    split_ifs at h
    cases h
    exact hSame _ rfl rfl
  | setNumprocesses n =>
    cases h
    exact hSame _ rfl rfl
  | clearEntry i =>
    cases h
    exact hSame _ rfl rfl
  | clearParent u =>
    cases h
    exact hSame _ rfl rfl
  | usermode =>
    simp only [outside] at h
    split_ifs at h
    cases h
    exact quiet_become hStack (by rfl) (by rfl) nofun nofun
  | ret =>
    simp only [outside] at h
    split_ifs at h
    cases h
    exact quiet_ret hStack (by rfl) (by rfl) nofun fun _ => Iff.rfl

/-- Neither do the ways into `mips_trap`. -/
theorem enterTrap_quiet (c : KernelConfig) (s : Kernel) (kind : TrapKind) (iskern : Bool) :
    Quiet s (s.enterTrap c kind iskern) where
  places := rfl
  stack := ⟨_, rfl, by simp⟩

theorem enterInterrupt_quiet (c : KernelConfig) (s : Kernel) {handler : Code}
    (hHandler : handler ≠ .scheduler) : Quiet s (s.enterInterrupt c handler) where
  places := rfl
  stack := ⟨_, rfl, by simp [hHandler]⟩

/-- What a step is: a statement of a function that moves threads, or a quiet one. -/
theorem step_cases {a : KernelAction} (h : Step c s a t) : Quiet s t ∨
    ∃ o e code rest, a = .run o ∧ s.stack s.running = ⟨e, code⟩ :: rest ∧ code.Moves ∧
      s.exec c o code = some (.ok t) := by
  unfold Step step at h
  cases a with
  | run o =>
    dsimp only at h
    split at h
    · rename_i f rest hStack
      obtain ⟨e, code⟩ := f
      by_cases hMoves : code.Moves
      · exact Or.inr ⟨o, e, code, rest, rfl, hStack, hMoves, h⟩
      · exact Or.inl ((exec_acts hMoves h).quiet hMoves hStack)
    · cases h
  | outside a =>
    dsimp only at h
    split at h
    · rename_i hStack
      obtain ⟨u, hOutside, hEq⟩ := Option.map_eq_some_iff.mp h
      cases hEq
      exact Or.inl (outside_quiet hStack hOutside)
    · cases h
  | trap kind =>
    dsimp only at h
    split at h
    · cases h
      exact Or.inl (enterTrap_quiet ..)
    · split_ifs at h
      cases h
      exact Or.inl (enterTrap_quiet ..)
    · cases h
  | timer =>
    dsimp only at h
    split_ifs at h
    cases h
    exact Or.inl (enterInterrupt_quiet c s nofun)
  | device =>
    dsimp only at h
    split_ifs at h
    cases h
    exact Or.inl (enterInterrupt_quiet c s nofun)

/-- **Step lemma.** -/
theorem Placed.step (h : s.Placed) {a : KernelAction} (hStep : Step c s a t) : t.Placed := by
  obtain hQuiet | ⟨o, e, code, rest, -, hStack, hMoves, hExec⟩ := step_cases hStep
  · exact hQuiet.placed h
  cases code with
  | threadYield =>
    simp only [exec, Option.some.injEq] at hExec
    refine Placed.miSwitch h hStack ?_ ?_ ?_ hExec
    · exact ⟨rfl, rfl, rfl, rfl, rfl, rfl, rfl⟩
    · simp
    · simp
  | threadSleep addr =>
    simp only [exec, Option.some.injEq] at hExec
    obtain ⟨cur, -, -, hSwitch⟩ := threadSleep_ok hExec
    refine Placed.miSwitch h hStack ?_ ?_ ?_ hSwitch
    · exact ⟨rfl, rfl, rfl, rfl, rfl, rfl, rfl⟩
    · simp
    · simp
  | threadExit =>
    simp only [exec, Option.some.injEq] at hExec
    obtain ⟨cur, -, -, hSwitch⟩ := threadExit_ok hExec
    refine Placed.miSwitch h hStack ?_ ?_ ?_ hSwitch
    · exact ⟨rfl, rfl, rfl, rfl, rfl, rfl, rfl⟩
    · simp
    · simp
  | wakeupLoop addr i =>
    simp only [exec, Option.some.injEq] at hExec
    obtain rfl | rfl | ⟨guy, hGuy, -, rfl⟩ := wakeupLoop_ok hExec
    · exact h.goTo hStack (by simp) (by simp)
    · exact h.goTo hStack (by simp) (by simp)
    · exact h.wakeup hGuy
  | threadFork func =>
    simp only [exec] at hExec
    obtain ⟨-, hCases⟩ := threadFork_ok hExec
    obtain ⟨table, hTable, -⟩ := fptInitialize_eq s
    obtain ⟨sleepersRoom, zombiesRoom, runqueueRoom, hRoom, -⟩ :=
      preallocate_eq s.fptInitialize o.fork
    have hHigh : s.preallocated c o.fork = { s with
        fullProcessTable := table, sleepersRoom, zombiesRoom, runqueueRoom
        curspl := c.splHigh } := by
      rw [preallocated, hRoom, hTable]
    have hHighPlaced : (s.preallocated c o.fork).Placed := by
      rw [hHigh]
      exact h.move (List.Perm.refl _) rfl rfl (Function.update_eq_self _ _).symm h.home
    have hHighStack : (s.preallocated c o.fork).stack (s.preallocated c o.fork).running =
        ⟨e, .threadFork func⟩ :: rest := by
      rw [hHigh]
      exact hStack
    rcases hCases with rfl | rfl | rfl | ⟨newguy, -, hNew, -, rfl⟩
    · exact h.goTo hStack (by simp) (by simp)
    · rw [hTable]
      refine Placed.goTo ?_ hStack (by simp) (by simp)
      exact h.move (List.Perm.refl _) rfl rfl (Function.update_eq_self _ _).symm h.home
    · exact hHighPlaced.goTo hHighStack (by simp) (by simp)
    · have hNewHigh : (s.preallocated c o.fork).allocated newguy = false := by
        rw [hHigh]
        exact hNew
      have hStartStack : ((s.preallocated c o.fork).start c newguy func).stack
          (s.preallocated c o.fork).running = ⟨e, .threadFork func⟩ :: rest := by
        rw [← hHighStack]
        apply Function.update_of_ne
        intro hEq
        rw [← hEq, hHighPlaced.allocated _ hHighPlaced.running] at hNewHigh
        cases hNewHigh
      exact (hHighPlaced.start hNewHigh).goTo hStartStack (by simp) (by simp)
  | scheduler =>
    simp only [exec, Option.some.injEq] at hExec
    exact h.scheduler hStack hExec
  | switched =>
    simp only [exec, Option.some.injEq] at hExec
    obtain ⟨u, hExorcise, hActivate⟩ := switched_ok hExec
    obtain ⟨cur, hCur, -⟩ := activateCurrent_ok hActivate
    have hBefore : s.curthread = some cur := by
      obtain ⟨-, -, rfl⟩ := exorcise_ok hExorcise
      exact hCur
    obtain ⟨rfl, -⟩ := h.curthread hBefore
    obtain ⟨hPlaced, -, hStacks, hRunning⟩ := h.exorcise hBefore hExorcise
    have hStack' : u.stack u.running = ⟨e, .switched⟩ :: rest := by
      rw [hStacks, hRunning, hStack]
    exact (quiet_activateCurrent hStack' (by simp) (by simp) hActivate).placed hPlaced
  | _ => cases hMoves

theorem placed_boot (c : KernelConfig) (me : Word) (initialCount : Word → Int)
    (tlb : List TlbEntry) (space : Word → AddrSpace) :
    (boot c me initialCount tlb space).Placed where
  nodup := by simp [placed, boot]
  allocated := by simp [placed, boot]
  running := by simp [placed, boot]
  home := by simp [boot]
  away t ht := by
    have hNe : t ≠ me := ht
    simp [boot, hNe, newStack]

end Kernel

end Windborne.OS161
