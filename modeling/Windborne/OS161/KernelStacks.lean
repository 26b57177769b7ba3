import Windborne.OS161.KernelThreads

/-!
# The stacks of the kernel

Every step but a switch follows the control flow on the stack of the running thread, and leaves
the stacks of the other threads alone.
-/

namespace Windborne.OS161

open Library

namespace Kernel

variable {c : KernelConfig} {s s' t : Kernel} {e : Nat} {code code' after callee : Code}
  {rest : List Call} {o : Choice}

/-- A step with the effect `E` on the stack of the running thread. The stack of another thread
stays as it is, or is that of a new thread. -/
structure Advances (c : KernelConfig) (s t : Kernel) (E : Effect Code) : Prop where
  running : t.running = s.running
  stack : t.stack s.running = E.apply t.curspl (s.stack s.running)
  others : ∀ u, u ≠ s.running → t.stack u = s.stack u ∧
    (t.thread u).pcbIninterrupt = (s.thread u).pcbIninterrupt ∨
      (∃ func, t.stack u = newStack c func) ∧ (t.thread u).pcbIninterrupt = 0

section

variable (hStacks : s'.stack = s.stack) (hRunning : s'.running = s.running)
  (hPcb : ∀ u, (s'.thread u).pcbIninterrupt = (s.thread u).pcbIninterrupt)

include hStacks hRunning hPcb

theorem advances_setStack {stack : List Call} {E : Effect Code}
    (hStack : stack = E.apply s'.curspl (s.stack s.running)) :
    Advances c s (s'.setStack stack) E where
  running := hRunning
  stack := by
    show (s'.setStack stack).stack s.running = E.apply s'.curspl (s.stack s.running)
    rw [← hStack]
    simp only [setStack, hRunning, Function.update_self]
  others u hu := by
    refine Or.inl ⟨?_, hPcb u⟩
    simp only [setStack, hStacks, hRunning]
    exact Function.update_of_ne hu ..

theorem advances_become : Advances c s (s'.become code) (.goTo code) := by
  apply advances_setStack hStacks hRunning hPcb
  rw [hStacks, hRunning]
  cases s.stack s.running with
  | nil => rfl
  | cons f rest => rfl

theorem advances_call : Advances c s (s'.call after callee) (.call after callee) := by
  apply advances_setStack hStacks hRunning hPcb
  rw [hStacks, hRunning]
  cases s.stack s.running with
  | nil => rfl
  | cons f rest => rfl

theorem advances_ret {answer : Code → Code} : Advances c s (s'.ret answer) (.ret answer) := by
  apply advances_setStack hStacks hRunning hPcb
  rw [hStacks, hRunning]
  cases s.stack s.running with
  | nil => rfl
  | cons f rest =>
    cases rest with
    | nil => rfl
    | cons f' rest => rfl

end

/-- A step that leaves the stacks alone. -/
theorem advances_stay (hStack : s.stack s.running = ⟨e, code⟩ :: rest) (hStacks : t.stack = s.stack)
    (hRunning : t.running = s.running)
    (hPcb : ∀ u, (t.thread u).pcbIninterrupt = (s.thread u).pcbIninterrupt) :
    Advances c s t (.goTo code) where
  running := hRunning
  stack := by
    rw [hStacks, hStack]
    rfl
  others u _ := Or.inl ⟨by rw [hStacks], hPcb u⟩

theorem flow_miSwitch {nextstate : ThreadState} {memory : Bool}
    (h : s'.miSwitch nextstate after memory = .ok t) (hStacks : s'.stack = s.stack)
    (hRunning : s'.running = s.running)
    (hPcb : ∀ u, (s'.thread u).pcbIninterrupt = (s.thread u).pcbIninterrupt) :
    s'.curspl ≠ 0 ∧ t.curspl = s'.curspl ∧ t.inInterrupt = s'.inInterrupt ∧
      (Advances c s t (.goTo after) ∨ Advances c s t (.call after .scheduler)) := by
  obtain ⟨hSpl, ⟨-, rfl⟩ | ⟨cur, u, -, hStash, rfl⟩⟩ := miSwitch_ok h
  · exact ⟨hSpl, rfl, rfl, Or.inl (advances_become hStacks hRunning hPcb)⟩
  · have hOk := stash_ok hStash
    cases nextstate with
    | ready | sleep | zomb =>
      obtain ⟨-, rfl⟩ := hOk
      exact ⟨hSpl, rfl, rfl, Or.inr (advances_call hStacks hRunning hPcb)⟩

theorem flow_threadFork {func : ThreadFunc} {outcome : ForkOutcome} (hPlaced : s.Placed)
    (hStack : s.stack s.running = ⟨e, .threadFork func⟩ :: rest)
    (h : s.threadFork c func outcome = some (.ok t)) :
    t.inInterrupt = s.inInterrupt ∧ (t.curspl = s.curspl ∧ Advances c s t (.goTo (.ret false)) ∨
      t.curspl = c.splHigh ∧ ∃ ans, Advances c s t (.goTo (.restore s.curspl ans))) := by
  obtain ⟨-, hCases⟩ := threadFork_ok h
  obtain ⟨table, hTable, -⟩ := fptInitialize_eq s
  obtain ⟨i, j, k, hRoom, -⟩ := preallocate_eq s.fptInitialize outcome
  rcases hCases with rfl | rfl | rfl | ⟨newguy, -, hNew, -, rfl⟩
  · exact ⟨rfl, Or.inl ⟨rfl, advances_become (by rfl) (by rfl) fun _ => by rfl⟩⟩
  · rw [hTable]
    exact ⟨rfl, Or.inl ⟨rfl, advances_become (by rfl) (by rfl) fun _ => by rfl⟩⟩
  · rw [preallocated, hRoom, hTable]
    exact ⟨rfl, Or.inr ⟨rfl, _, advances_become (by rfl) (by rfl) fun _ => by rfl⟩⟩
  · rw [preallocated, hRoom, hTable]
    refine ⟨rfl, Or.inr ⟨rfl, true, rfl, ?_, ?_⟩⟩
    · have hNe : s.running ≠ newguy := by
        intro hEq
        rw [← hEq, hPlaced.allocated _ hPlaced.running] at hNew
        cases hNew
      simp only [become, setStack, start, Function.update_self, Function.update_of_ne hNe, hStack]
      rfl
    · intro u hu
      simp only [become, setStack, start, Function.update_of_ne hu]
      by_cases hEq : u = newguy
      · subst hEq
        rw [Function.update_self, Function.update_self]
        exact Or.inr ⟨⟨func, rfl⟩, rfl⟩
      · rw [Function.update_of_ne hEq, Function.update_of_ne hEq]
        exact Or.inl ⟨rfl, rfl⟩

theorem Acts.advances (h : Acts c code s t) : ∃ E, Flow c code s.curspl E t.curspl ∧
    Advances c s t E ∧ t.inInterrupt = code.inInterrupt s.inInterrupt := by
  obtain ⟨s', E, ⟨hPlaces, hStack, hIn, hPcb, -⟩, hFlow, rfl⟩ := h
  have hRunning : s'.running = s.running := congrArg (fun p => p.2.1) hPlaces
  cases E with
  | goTo code' => exact ⟨_, hFlow, advances_become hStack hRunning hPcb, hIn⟩
  | call after callee => exact ⟨_, hFlow, advances_call hStack hRunning hPcb, hIn⟩
  | ret answer => exact ⟨_, hFlow, advances_ret hStack hRunning hPcb, hIn⟩

/-- **Everything but a switch follows the flow.** -/
theorem exec_flow (hPlaced : s.Placed) (hStack : s.stack s.running = ⟨e, code⟩ :: rest)
    (hCode : code ≠ .scheduler) (h : s.exec c o code = some (.ok t)) :
    ∃ E, Flow c code s.curspl E t.curspl ∧ Advances c s t E ∧
      t.inInterrupt = code.inInterrupt s.inInterrupt := by
  by_cases hMoves : code.Moves
  · cases code with
    | scheduler => exact absurd rfl hCode
    | threadYield =>
      simp only [exec, Option.some.injEq] at h
      obtain ⟨-, hSpl, hIn, hAdvances⟩ :=
        flow_miSwitch (c := c) (s := s) h (by rfl) (by rfl) fun _ => by rfl
      rw [hSpl]
      rcases hAdvances with hAdvances | hAdvances
      · exact ⟨_, .yieldIdle, hAdvances, hIn⟩
      · exact ⟨_, .threadYield, hAdvances, hIn⟩
    | threadSleep addr =>
      simp only [exec, Option.some.injEq] at h
      obtain ⟨cur, -, -, hSwitch⟩ := threadSleep_ok h
      obtain ⟨hOff, hSpl, hIn, hAdvances⟩ :=
        flow_miSwitch (c := c) (s := s) hSwitch (by rfl) (by rfl) (pcb_setThread _ fun _ => rfl)
      rw [hSpl]
      rcases hAdvances with hAdvances | hAdvances
      · exact ⟨_, .sleepIdle, hAdvances, hIn⟩
      · exact ⟨_, .threadSleep hOff, hAdvances, hIn⟩
    | wakeupLoop addr i =>
      simp only [exec, Option.some.injEq] at h
      obtain rfl | rfl | ⟨guy, -, -, rfl⟩ := wakeupLoop_ok h
      · exact ⟨_, .wakeupDone, advances_become (by rfl) (by rfl) fun _ => by rfl, rfl⟩
      · exact ⟨_, .wakeupNext, advances_become (by rfl) (by rfl) fun _ => by rfl, rfl⟩
      · exact ⟨_, .wakeupAgain, advances_stay hStack (by rfl) (by rfl) fun _ => by rfl, rfl⟩
    | threadExit =>
      simp only [exec, Option.some.injEq] at h
      obtain ⟨cur, -, -, hSwitch⟩ := threadExit_ok h
      have hPcb := pcb_setThread (s := s) cur (f := fun th => { th with tVmspace := none })
        fun _ => rfl
      obtain ⟨-, hSpl, hIn, hAdvances⟩ :=
        flow_miSwitch (c := c) (s := s) hSwitch (by rfl) (by rfl) hPcb
      rw [hSpl]
      rcases hAdvances with hAdvances | hAdvances
      · exact ⟨_, .exitIdle, hAdvances, hIn⟩
      · exact ⟨_, .threadExit, hAdvances, hIn⟩
    | threadFork func =>
      obtain ⟨hIn, ⟨hSpl, hAdvances⟩ | ⟨hSpl, ans, hAdvances⟩⟩ := flow_threadFork hPlaced hStack h
      · rw [hSpl]
        exact ⟨_, .forkFailed, hAdvances, hIn⟩
      · rw [hSpl]
        exact ⟨_, .threadFork, hAdvances, hIn⟩
    | switched =>
      simp only [exec, Option.some.injEq] at h
      obtain ⟨u, hExorcise, hActivate⟩ := switched_ok h
      obtain ⟨-, -, rfl⟩ := exorcise_ok hExorcise
      have hPcb : ∀ g, ((s.withoutZombies s.zombies).thread g).pcbIninterrupt =
          (s.thread g).pcbIninterrupt := by
        intro g
        simp only [withoutZombies]
        split_ifs
        · rfl
        · rfl
      obtain ⟨cur, -, ⟨-, rfl⟩ | ⟨-, rfl⟩⟩ := activateCurrent_ok hActivate
      · exact ⟨_, .switched, advances_become (by rfl) (by rfl) hPcb, rfl⟩
      · exact ⟨_, .switchedActivate, advances_call (by rfl) (by rfl) hPcb, rfl⟩
    | _ => cases hMoves
  · exact (exec_acts hMoves h).advances

/-- Code outside follows it, too. -/
theorem outside_flow {saved : List Nat} {b : OutsideAction}
    (hStack : s.stack s.running = ⟨e, .outside saved⟩ :: rest)
    (h : s.outside c saved b = some t) : ∃ E, Flow c (.outside saved) s.curspl E t.curspl ∧
      Advances c s t E ∧ t.inInterrupt = s.inInterrupt ∧
        (E = .goTo .enterUser → s.inInterrupt = 0) := by
  cases b with
  | splhigh =>
    cases h
    exact ⟨_, .splhigh, advances_become (by rfl) (by rfl) fun _ => by rfl, rfl, by simp⟩
  | splx newspl =>
    simp only [outside] at h
    split_ifs at h with hSaved
    cases h
    exact ⟨_, .outsideSplx hSaved, advances_call (by rfl) (by rfl) fun _ => by rfl, rfl, by simp⟩
  | call f =>
    cases h
    exact ⟨_, .outsideCall f, advances_call (by rfl) (by rfl) fun _ => by rfl, rfl, by simp⟩
  | setVmspace as =>
    obtain ⟨cur, -, rfl⟩ := Option.map_eq_some_iff.mp h
    have hPcb := pcb_setThread (s := s) cur
      (f := fun th => { th with tVmspace := as, stale := true }) fun _ => rfl
    exact ⟨_, .outsideStep, advances_stay hStack rfl rfl hPcb, rfl, by simp⟩
  | writeSpace p as =>
    simp only [outside] at h
    split_ifs at h
    cases h
    exact ⟨_, .outsideStep, advances_stay hStack rfl rfl fun _ => rfl, rfl, by simp⟩
  | setNumprocesses n =>
    cases h
    exact ⟨_, .outsideStep, advances_stay hStack rfl rfl fun _ => rfl, rfl, by simp⟩
  | clearEntry i =>
    cases h
    exact ⟨_, .outsideStep, advances_stay hStack rfl rfl fun _ => rfl, rfl, by simp⟩
  | clearParent u =>
    cases h
    have hPcb := pcb_setThread (s := s) u (f := fun th => { th with parent := none })
      fun _ => rfl
    exact ⟨_, .outsideStep, advances_stay hStack rfl rfl hPcb, rfl, by simp⟩
  | usermode =>
    simp only [outside] at h
    split_ifs at h with hIn
    cases h
    exact ⟨_, .usermode, advances_become (by rfl) (by rfl) fun _ => by rfl, rfl, fun _ => hIn⟩
  | ret =>
    simp only [outside] at h
    split_ifs at h
    cases h
    exact ⟨_, .outsideRet, advances_ret (by rfl) (by rfl) fun _ => by rfl, rfl, by simp⟩

/-- A switch changes `in_interrupt` by hand, unless the old thread is the next one. -/
theorem scheduler_stacks (hStack : s.stack s.running = ⟨e, .scheduler⟩ :: rest)
    (h : s.scheduler = .ok t) : t = s ∨ t.curspl = s.curspl ∧
      t.stack = Function.update s.stack s.running (⟨e, .switched⟩ :: rest) ∧
      (t.running = s.running ∧ t.inInterrupt = s.inInterrupt ∧ t.thread = s.thread ∨
        t.running ≠ s.running ∧ t.inInterrupt = (s.thread t.running).pcbIninterrupt ∧
          t.thread = (s.setThread s.running
            fun th => { th with pcbIninterrupt := s.inInterrupt }).thread) := by
  obtain ⟨-, ⟨-, rfl⟩ | ⟨next, runqueue, -, rfl⟩⟩ := scheduler_ok h
  · exact Or.inl rfl
  right
  have hStacks : ({ s with curthread := some next, runqueue }.become .switched).stack =
      Function.update s.stack s.running (⟨e, .switched⟩ :: rest) := by
    simp only [become, setStack, hStack]
  unfold mdSwitch
  split
  · rename_i hSame
    exact ⟨rfl, hStacks, Or.inl ⟨rfl, rfl, rfl⟩⟩
  · rename_i hNe
    refine ⟨rfl, hStacks, Or.inr ⟨Ne.symm hNe, ?_, rfl⟩⟩
    have hThread : next ≠ s.running := Ne.symm hNe
    simp only [setThread, become, setStack, Function.update_of_ne hThread]

/-- **The stacks of a step**: it follows the flow, or is a trap, an interrupt or a step of the
scheduler. -/
theorem step_flow (hPlaced : s.Placed) {a : KernelAction} (h : Step c s a t) :
    (∃ e code rest E, s.stack s.running = ⟨e, code⟩ :: rest ∧
      Flow c code s.curspl E t.curspl ∧ Advances c s t E ∧
        t.inInterrupt = code.inInterrupt s.inInterrupt ∧
          (∀ saved, code = .outside saved → E = .goTo .enterUser → s.inInterrupt = 0)) ∨
    (∃ kind iskern e code rest, t = s.enterTrap c kind iskern ∧
      s.stack s.running = ⟨e, code⟩ :: rest ∧ (code = .user ∨ ∃ saved, code = .outside saved)) ∨
    (∃ handler, (handler = .hardclock ∨ handler = .outside []) ∧ s.Interruptible ∧
      t = s.enterInterrupt c handler) ∨
    ∃ e rest, s.stack s.running = ⟨e, .scheduler⟩ :: rest ∧ s.scheduler = .ok t := by
  unfold Step step at h
  cases a with
  | run o =>
    dsimp only at h
    split at h
    · rename_i f rest hStack
      obtain ⟨e, code⟩ := f
      by_cases hCode : code = .scheduler
      · subst hCode
        simp only [exec, Option.some.injEq] at h
        exact Or.inr (Or.inr (Or.inr ⟨e, rest, hStack, h⟩))
      · obtain ⟨E, hFlow, hAdvances, hIn⟩ := exec_flow hPlaced hStack hCode h
        refine Or.inl ⟨e, code, rest, E, hStack, hFlow, hAdvances, hIn, ?_⟩
        intro saved hOutside
        subst hOutside
        cases h
    · cases h
  | outside b =>
    dsimp only at h
    split at h
    · rename_i e saved rest hStack
      obtain ⟨u, hOutside, hEq⟩ := Option.map_eq_some_iff.mp h
      cases hEq
      obtain ⟨E, hFlow, hAdvances, hIn, hUser⟩ := outside_flow hStack hOutside
      exact Or.inl ⟨e, _, rest, E, hStack, hFlow, hAdvances, hIn, fun _ _ => hUser⟩
    · cases h
  | trap kind =>
    dsimp only at h
    split at h
    · rename_i hStack
      cases h
      exact Or.inr (Or.inl ⟨kind, false, _, _, _, rfl, hStack, Or.inl rfl⟩)
    · rename_i hStack
      split_ifs at h
      cases h
      exact Or.inr (Or.inl ⟨kind, true, _, _, _, rfl, hStack, Or.inr ⟨_, rfl⟩⟩)
    · cases h
  | timer =>
    dsimp only at h
    split_ifs at h with hOn
    cases h
    exact Or.inr (Or.inr (Or.inl ⟨_, Or.inl rfl, hOn, rfl⟩))
  | device =>
    dsimp only at h
    split_ifs at h with hOn
    cases h
    exact Or.inr (Or.inr (Or.inl ⟨_, Or.inr rfl, hOn, rfl⟩))

end Kernel

end Windborne.OS161
