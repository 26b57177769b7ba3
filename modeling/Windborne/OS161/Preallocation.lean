import Windborne.OS161.KernelFailures
import Windborne.OS161.ThreadBoard

/-!
# When preallocation suffices

`thread_fork` makes room for one more thread than there are in `sleepers`, `zombies` and the
run queue. That is enough for the sleepers and the run queue, whose threads `numthreads`
counts. It does not count the zombies, and only a thread that comes back from `mi_switch`
takes them away: a chain of threads of which each starts the next one and exits fills
`zombies` without end. The argument is about the places and their room only, so it is made on a
`Tally`, which is a board with room.
-/

namespace Windborne.OS161

open Library

/-- The board, and the room for the threads in the places. -/
structure Tally extends Board Word where
  sleepersRoom : Nat
  zombiesRoom : Nat
  runqueueRoom : Nat
  forked : Bool
  exits : Nat

/-- What a step does to the places; the flag marks the exit of a thread. -/
inductive TallyStep (n : Tally) : Bool → Tally → Prop
  | quiet : TallyStep n false n
  | yield {t : Word} (h : n.current = some t) :
      TallyStep n false { n with current := none, ready := n.ready ++ [t] }
  | sleep {t : Word} (h : n.current = some t) :
      TallyStep n false { n with current := none, asleep := n.asleep ++ [t] }
  | exit {t : Word} (h : n.current = some t) (hNum : n.numthreads ≠ 0) : TallyStep n true { n with
      current := none, dead := n.dead ++ [t], numthreads := n.numthreads - 1
      exits := n.exits + 1 }
  | wake {i : Nat} {t : Word} (h : n.asleep[i]? = some t) : TallyStep n false { n with
      asleep := n.asleep.eraseIdx i, ready := n.ready ++ [t] }
  | dispatch {t : Word} {rest : List Word} (h : n.current = none) (hReady : n.ready = t :: rest) :
      TallyStep n false { n with current := some t, ready := rest }
  | reap (h : n.current ≠ none) : TallyStep n false { n with dead := [], exits := 0 }
  | room {i j k : Nat} (hSleepers : n.sleepersRoom ≤ i) (hZombies : n.zombiesRoom ≤ j)
      (hQueue : n.runqueueRoom ≤ k) : TallyStep n false { n with
      sleepersRoom := i, zombiesRoom := j, runqueueRoom := k }
  | start {newguy : Word} (h : n.current ≠ none) (hNew : newguy ∉ n.placed) :
      TallyStep n false { n with
        sleepersRoom := max n.sleepersRoom (n.numthreads + 1)
        zombiesRoom := max n.zombiesRoom (n.numthreads + 1)
        runqueueRoom := max n.runqueueRoom (n.numthreads + 1)
        ready := n.ready ++ [newguy], numthreads := n.numthreads + 1, forked := true }

namespace Tally

/-- The arrays and the queue are within the room that `thread_fork` has made. -/
def Fits (n : Tally) : Prop :=
  n.forked = true → n.asleep.length ≤ n.sleepersRoom ∧ n.dead.length ≤ n.zombiesRoom ∧
    n.ready.length ≤ n.runqueueRoom

/-- What `numthreads` counts and what it does not. -/
structure Ok (n : Tally) : Prop where
  sound : n.toBoard.Sound
  exits : n.dead.length = n.exits
  rooms : n.forked = true → n.numthreads ≤ n.sleepersRoom ∧ n.numthreads ≤ n.runqueueRoom
  reaped : n.forked = true → n.exits ≤ n.zombiesRoom
  single : n.forked = false → n.placed.length = 1

variable {n m : Tally} {b : Bool}

/-- A step is a move on the board, or leaves it alone. -/
theorem board_of_step (h : TallyStep n b m) :
    m.toBoard = n.toBoard ∨ n.toBoard.Move m.toBoard := by
  cases h with
  | quiet | room => exact .inl rfl
  | yield h => exact .inr (.yield h)
  | sleep h => exact .inr (.sleep h)
  | exit h hNum => exact .inr (.exit h hNum)
  | wake h => exact .inr (.wake h)
  | dispatch h hReady => exact .inr (.dispatch h hReady)
  | reap h => exact .inr (.reap h)
  | start h hNew => exact .inr (.start h hNew)

theorem Ok.fits (h : n.Ok) : n.Fits := by
  intro hForked
  have hRooms := h.rooms hForked
  have hReaped := h.reaped hForked
  have hCount := h.sound.counted
  have hExits := h.exits
  omega

/-- The invariant is kept as long as the zombies of the exits have room. -/
theorem Ok.step (h : n.Ok) (hStep : TallyStep n b m)
    (hExit : b = true → n.forked = true → n.exits < n.zombiesRoom) : m.Ok := by
  have hSound : m.toBoard.Sound := by
    rcases board_of_step hStep with hSame | hMove
    · rw [hSame]
      exact h.sound
    · exact h.sound.move hMove
  have hLength := Board.length_placed n.toBoard
  obtain ⟨⟨-, hCount⟩, hExits, hRooms, hReaped, hSingle⟩ := h
  cases hStep with
  | quiet => exact ⟨hSound, hExits, hRooms, hReaped, hSingle⟩
  | yield h =>
    refine ⟨hSound, hExits, hRooms, hReaped, ?_⟩
    grind [Board.length_placed]
  | sleep h =>
    refine ⟨hSound, hExits, hRooms, hReaped, ?_⟩
    grind [Board.length_placed]
  | exit h hNum =>
    have hRoom := hExit rfl
    refine ⟨hSound, ?_, ?_, ?_, ?_⟩
    all_goals grind [Board.length_placed]
  | wake h =>
    refine ⟨hSound, hExits, hRooms, hReaped, ?_⟩
    grind [Board.length_placed]
  | dispatch h hReady =>
    refine ⟨hSound, hExits, hRooms, hReaped, ?_⟩
    grind [Board.length_placed]
  | reap h =>
    obtain ⟨cur, hCur⟩ := Option.ne_none_iff_exists'.mp h
    refine ⟨hSound, rfl, hRooms, ?_, ?_⟩
    all_goals grind [Board.length_placed]
  | room hSleepers hZombies hQueue =>
    refine ⟨hSound, hExits, ?_, ?_, hSingle⟩
    all_goals grind
  | start h =>
    refine ⟨hSound, hExits, ?_, ?_, ?_⟩
    all_goals grind [Board.length_placed]

/-- An exit without room for its zombie leaves the room. -/
theorem Fits.exit (hExits : n.dead.length = n.exits) (hStep : TallyStep n true m) (hFits : m.Fits)
    (hForked : n.forked = true) : n.exits < n.zombiesRoom := by
  cases hStep with
  | exit h hNum =>
    have hRoom := (hFits hForked).2.1
    dsimp only at hRoom
    rw [List.length_append, List.length_singleton] at hRoom
    omega

end Tally

namespace Kernel

variable {c : KernelConfig} {s s' t : Kernel} {e : Nat} {code code' after callee : Code}
  {rest : List Call} {o : Choice}

/-- The board of the kernel, and the room that `thread_fork` has made. -/
def tally (s : Kernel) : Tally where
  current := s.curthread
  ready := s.runqueue
  asleep := s.sleepers
  dead := s.zombies
  numthreads := s.numthreads
  sleepersRoom := s.sleepersRoom
  zombiesRoom := s.zombiesRoom
  runqueueRoom := s.runqueueRoom
  forked := s.forked
  exits := s.exits

/-- The innermost activation is about to exit its thread. -/
def Exiting (s : Kernel) : KernelAction → Bool
  | .run _ =>
    match s.stack s.running with
    | ⟨_, .threadExit⟩ :: _ => true
    | _ => false
  | _ => false

/-- The condition on a step: when a thread exits, fewer threads have exited since the last
`exorcise` than the largest number that `thread_fork` has made room for. -/
def ReapedInTime (s : Kernel) (a : KernelAction) : Prop :=
  s.Exiting a = true → s.forked = true → s.exits < s.zombiesRoom

instance (s : Kernel) (a : KernelAction) : Decidable (s.ReapedInTime a) :=
  inferInstanceAs (Decidable (_ → _ → _))

/-! ## What the functions do to the places -/

theorem Quiet.tally (hQuiet : Quiet s t) : t.tally = s.tally := by
  have hPlaces := hQuiet.places
  simp only [Kernel.places, Prod.mk.injEq] at hPlaces
  obtain ⟨hCur, -, hQueue, hSleepers, hZombies, hNum, ⟨hRoom, hRoom', hRoom''⟩, -, hForked,
    hExits⟩ := hPlaces
  simp only [Kernel.tally, hCur, hQueue, hSleepers, hZombies, hNum, hRoom, hRoom', hRoom'',
    hForked, hExits]

/-- `mi_switch` for a thread that stays alive. -/
theorem tally_miSwitch {nextstate : ThreadState} {memory : Bool} (hState : nextstate ≠ .zomb)
    (hSwitch : s.miSwitch nextstate after memory = .ok t) : TallyStep s.tally false t.tally := by
  obtain ⟨-, ⟨-, rfl⟩ | ⟨cur, u, hCur, hStash, rfl⟩⟩ := miSwitch_ok hSwitch
  · exact .quiet
  have hOk := stash_ok hStash
  cases nextstate with
  | ready =>
    obtain ⟨-, rfl⟩ := hOk
    exact TallyStep.yield (n := s.tally) hCur
  | sleep =>
    obtain ⟨-, rfl⟩ := hOk
    exact TallyStep.sleep (n := s.tally) hCur
  | zomb => exact absurd rfl hState

theorem tally_threadExit {memory : Bool} (hExit : s.threadExit c memory = .ok t) :
    TallyStep s.tally true t.tally := by
  obtain ⟨cur, hCur, hNum, hSwitch⟩ := threadExit_ok hExit
  obtain ⟨-, ⟨hNone, -⟩ | ⟨cur', u, hCur', hStash, rfl⟩⟩ := miSwitch_ok hSwitch
  · rw [show s.curthread = none from hNone] at hCur
    cases hCur
  obtain ⟨-, rfl⟩ := stash_ok hStash
  exact TallyStep.exit (n := s.tally) hCur' hNum

theorem tally_scheduler (h : s.Placed) (hStack : s.stack s.running = ⟨e, .scheduler⟩ :: rest)
    (hOk : s.scheduler = .ok t) : TallyStep s.tally false t.tally := by
  obtain ⟨-, ⟨-, rfl⟩ | ⟨next, runqueue, hQueue, rfl⟩⟩ := scheduler_ok hOk
  · exact .quiet
  have hNone : s.curthread = none := by
    rcases h.home with ⟨-, hWaiting⟩ | ⟨hNone, -⟩
    · rw [hStack, waiting_cons, if_pos rfl] at hWaiting
      omega
    · exact hNone
  obtain ⟨thread, inInterrupt, hSwitch⟩ :=
    mdSwitch_eq ({ s with curthread := some next, runqueue }.become .switched) next
  rw [hSwitch]
  exact TallyStep.dispatch (n := s.tally) hNone hQueue

theorem tally_switched (hOk : s.switched = .ok t) : TallyStep s.tally false t.tally := by
  obtain ⟨u, hExorcise, hActivate⟩ := switched_ok hOk
  obtain ⟨-, -, rfl⟩ := exorcise_ok hExorcise
  obtain ⟨cur, hCur, hCases⟩ := activateCurrent_ok hActivate
  have hSome : s.tally.current ≠ none := Option.ne_none_iff_exists'.mpr ⟨cur, hCur⟩
  rcases hCases with ⟨-, rfl⟩ | ⟨-, rfl⟩
  · exact TallyStep.reap hSome
  · exact TallyStep.reap hSome

theorem tally_threadFork (h : s.Placed) {func : ThreadFunc} {outcome : ForkOutcome}
    (hOk : s.threadFork c func outcome = some (.ok t)) : TallyStep s.tally false t.tally := by
  obtain ⟨hCur, hCases⟩ := threadFork_ok hOk
  obtain ⟨table, hTable, -⟩ := fptInitialize_eq s
  rcases hCases with rfl | rfl | rfl | ⟨newguy, rfl, hNew, -, rfl⟩
  · exact .quiet
  · rw [hTable]
    exact .quiet
  · obtain ⟨i, j, k, hRoom, hi, hj, hk⟩ := preallocate_eq s.fptInitialize outcome
    rw [preallocated, hRoom, hTable]
    rw [hTable] at hi hj hk
    exact .room hi hj hk
  · have hUnplaced : newguy ∉ s.tally.placed := by
      intro hIn
      rw [h.allocated newguy hIn] at hNew
      cases hNew
    rw [preallocated, preallocate, hTable]
    exact TallyStep.start (n := s.tally) hCur hUnplaced

theorem exiting_iff {a : KernelAction} : s.Exiting a = true ↔
    ∃ o e rest, a = .run o ∧ s.stack s.running = ⟨e, .threadExit⟩ :: rest := by
  cases a with
  | run o =>
    dsimp only [Exiting]
    split
    · rename_i e rest hStack
      simp [hStack]
    · rename_i hNot
      simp only [Bool.false_eq_true, false_iff]
      intro hExiting
      obtain ⟨_, e, rest, -, hStack⟩ := hExiting
      exact hNot e rest hStack
  | _ => simp [Exiting]

/-- **The places in a step.** -/
theorem tally_step (h : s.Placed) {a : KernelAction} (hStep : Step c s a t) :
    TallyStep s.tally (s.Exiting a) t.tally := by
  by_cases hExit : s.Exiting a = true
  · rw [hExit]
    obtain ⟨o, e, rest, rfl, hStack⟩ := exiting_iff.mp hExit
    simp only [Step, step, hStack, exec, Option.some.injEq] at hStep
    exact tally_threadExit hStep
  have hFalse : s.Exiting a = false := by simpa using hExit
  rw [hFalse]
  obtain hQuiet | ⟨o, e, code, rest, rfl, hStack, hMoves, hExec⟩ := step_cases hStep
  · rw [hQuiet.tally]
    exact .quiet
  cases code with
  | threadYield =>
    simp only [exec, Option.some.injEq] at hExec
    exact tally_miSwitch (s := { s with curspl := c.splHigh }) (by simp) hExec
  | threadSleep addr =>
    simp only [exec, Option.some.injEq] at hExec
    obtain ⟨cur, -, -, hSwitch⟩ := threadSleep_ok hExec
    exact tally_miSwitch (s := s.setThread cur fun th => { th with tSleepaddr := some addr })
      (by simp) hSwitch
  | threadExit => exact absurd (exiting_iff.mpr ⟨o, e, rest, rfl, hStack⟩) hExit
  | wakeupLoop addr i =>
    simp only [exec, Option.some.injEq] at hExec
    obtain rfl | rfl | ⟨guy, hGuy, -, rfl⟩ := wakeupLoop_ok hExec
    · exact .quiet
    · exact .quiet
    · exact TallyStep.wake (n := s.tally) hGuy
  | threadFork func => exact tally_threadFork h hExec
  | scheduler =>
    simp only [exec, Option.some.injEq] at hExec
    exact tally_scheduler h hStack hExec
  | switched =>
    simp only [exec, Option.some.injEq] at hExec
    exact tally_switched hExec
  | _ => cases hMoves

/-! ## Runs -/

/-- No more threads in an array or in the run queue than `thread_fork` has made room for. -/
def WithinRoom (s : Kernel) : Prop :=
  s.forked = true → s.sleepers.length ≤ s.sleepersRoom ∧ s.zombies.length ≤ s.zombiesRoom ∧
    s.runqueue.length ≤ s.runqueueRoom

/-- The invariant of the runs in which the zombies are reaped in time. -/
structure Counted (s : Kernel) : Prop where
  placed : s.Placed
  tally : s.tally.Ok

theorem counted_boot (c : KernelConfig) (me : Word) (initialCount : Word → Int)
    (tlb : List TlbEntry) (space : Word → AddrSpace) :
    (boot c me initialCount tlb space).Counted where
  placed := placed_boot c me initialCount tlb space
  tally := ⟨Board.sound_first me, rfl, nofun, nofun, fun _ => rfl⟩

/-- **Step lemma.** -/
theorem Counted.step (h : s.Counted) {a : KernelAction} (hStep : Step c s a t)
    (hReaped : s.ReapedInTime a) : t.Counted where
  placed := h.placed.step hStep
  tally := h.tally.step (tally_step h.placed hStep) hReaped

/-- **No addition fails.** -/
theorem Counted.not_addFailed (h : s.Counted) {a : KernelAction} (hForked : s.forked = true)
    (hReaped : s.ReapedInTime a) : s.step c a ≠ some (.error .addFailed) := by
  intro hError
  have hRooms := h.tally.rooms hForked
  have hCount := h.tally.sound.counted
  have hExits := h.tally.exits
  simp only [Kernel.tally] at hRooms hCount hExits
  have hOne : s.curthread ≠ none → s.curthread.toList.length = 1 := by
    intro hCur
    obtain ⟨cur, hSome⟩ := Option.ne_none_iff_exists'.mp hCur
    simp [hSome]
  obtain ⟨o, e, code, rest, rfl, hStack, hStops⟩ := step_error hError
  cases hStops with
  | yieldFull hCur hFull =>
    have hLength := hOne hCur
    dsimp only [Full] at hFull
    omega
  | sleepFull hCur hFull =>
    have hLength := hOne hCur
    dsimp only [Full] at hFull
    omega
  | exitFull hCur hFull =>
    have hRoom := hReaped (exiting_iff.mpr ⟨o, e, rest, rfl, hStack⟩) hForked
    dsimp only [Full] at hFull
    omega
  | wakeupFull hSleepers hFull =>
    have hPos := List.length_pos_iff.mpr hSleepers
    dsimp only [Full] at hFull
    omega
  | other hAdd hIn => exact hAdd rfl

/-- **When preallocation suffices**: the runs that stay within the room are those in which
every exit finds the zombies reaped in time, and in these no addition ever fails. -/
theorem preallocation_suffices_iff (c : KernelConfig) (me : Word) (initialCount : Word → Int)
    (tlb : List TlbEntry) (space : Word → AddrSpace) (tr : List KernelAction) (s : Kernel) :
    (Run (Keeping (Step c) WithinRoom) (boot c me initialCount tlb space) tr s ↔
      Run (Guarded (Step c) ReapedInTime) (boot c me initialCount tlb space) tr s) ∧
    (Run (Guarded (Step c) ReapedInTime) (boot c me initialCount tlb space) tr s →
      ∀ a, s.forked = true → s.ReapedInTime a → s.step c a ≠ some (.error .addFailed)) := by
  have hBoot := counted_boot c me initialCount tlb space
  constructor
  · apply Run.keeping_iff_guarded (I := Counted) hBoot
    · exact fun _ _ _ h hStep hReaped => h.step hStep hReaped
    · exact fun _ h => h.tally.fits
    · intro t a u h hStep hFits hExit
      have hTally := tally_step h.placed hStep
      rw [hExit] at hTally
      exact Tally.Fits.exit (m := u.tally) h.tally.exits hTally hFits
  · intro h a hForked hReaped
    have hCounted := h.invariant (I := Counted) hBoot fun _ _ _ hInv hStep =>
      hInv.step hStep.1 hStep.2
    exact hCounted.not_addFailed hForked hReaped

/-! ## A chain of threads -/

/-- A thread that code outside starts, and which goes on in code outside. -/
def forkSteps (newguy : Word) : List KernelAction :=
  [.outside (.call (.threadFork .outside)), .run { fork := .started newguy }, .run {}, .run {}]

/-- From `mi_threadstart` to the thread's function. -/
def startSteps : List KernelAction := [.run {}, .run {}, .run {}, .run {}, .run {}]

/-- `thread_exit`, and the scheduler. -/
def exitSteps : List KernelAction :=
  [.outside (.call .threadExit), .run { memory := true }, .run {}]

/-- `thread_yield` by the only thread that is ready: `mi_switch` comes back in it, and takes the
zombies away. -/
def yieldSteps : List KernelAction :=
  .outside (.call .threadYield) :: List.replicate 7 (.run {})

/-- Threads 2, 3 and 4 each start the next one and exit, while the first thread sleeps. -/
def threeExits : List KernelAction :=
  forkSteps 2 ++ [.outside (.call (.threadSleep 9)), .run {}, .run {}] ++
    startSteps ++ forkSteps 3 ++ [.run {}] ++ exitSteps ++
    startSteps ++ forkSteps 4 ++ [.run {}] ++ exitSteps ++
    startSteps ++ forkSteps 5 ++ [.run {}] ++ exitSteps

/-- Thread 5 comes back from `mi_switch` before it exits: four exits, and one zombie. -/
theorem preallocation_suffices_yield : ∃ s,
    Run (Keeping (Step sampleConfig) WithinRoom) (boot sampleConfig 1 (fun _ => 0) [] fun _ =>
      asCreate) (threeExits ++ startSteps ++ yieldSteps ++ exitSteps) s ∧
      s.zombies = [5] ∧ s.zombiesRoom = 3 := by
  have hEnd : ((threeExits ++ startSteps ++ yieldSteps ++ exitSteps).foldlM
      (fun s a => if ReapedInTime s a then okStep (step sampleConfig) s a else none)
      (boot sampleConfig 1 (fun _ => 0) [] fun _ => asCreate)).map (fun s =>
        (s.zombies, s.zombiesRoom)) = some ([5], 3) := by
    decide +kernel
  obtain ⟨s, hs, hFields⟩ := Option.map_eq_some_iff.mp hEnd
  have hRun := (preallocation_suffices_iff _ _ _ _ _ _ s).1.mpr (Run.guarded_of_okStep hs)
  exact ⟨s, hRun, (Prod.mk.injEq ..).mp hFields⟩

/-- The chain in which thread 5 exits at once. -/
def chainSteps : List KernelAction := threeExits ++ startSteps ++ exitSteps

/-- Four zombies, and room for three. -/
theorem not_forall_withinRoom : ¬∀ (c : KernelConfig) (me : Word) (initialCount : Word → Int)
    (tlb : List TlbEntry) (space : Word → AddrSpace) (tr : List KernelAction) (s : Kernel),
    Run (Step c) (boot c me initialCount tlb space) tr s → s.WithinRoom := by
  intro hAll
  have hEnd : (chainSteps.foldlM (okStep (step sampleConfig))
      (boot sampleConfig 1 (fun _ => 0) [] fun _ => asCreate)).map (fun s =>
        (s.forked, s.zombies, s.zombiesRoom)) = some (true, [2, 3, 4, 5], 3) := by
    decide +kernel
  obtain ⟨s, hs, hFields⟩ := Option.map_eq_some_iff.mp hEnd
  simp only [Prod.mk.injEq] at hFields
  obtain ⟨hForked, hZombies, hRoom⟩ := hFields
  have hWithin := (hAll _ _ _ _ _ _ s (Run.of_okStep hs) hForked).2.1
  rw [hZombies, hRoom] at hWithin
  simp at hWithin

end Kernel

end Windborne.OS161
