import Windborne.OS161.KernelThreads

/-!
# What steps write

Thread structures, the process table, the TLB and the address spaces. Most functions write to
none of them.
-/

namespace Windborne.OS161

open Library

namespace Kernel

variable {c : KernelConfig} {s s' t u : Kernel} {e : Nat} {code code' after callee : Code}
  {rest : List Call} {o : Choice}

/-- **What is left alone.** -/
theorem Acts.untouched (h : Acts c code s t) (hWrites : ¬code.Writes) : Untouched s t := by
  obtain ⟨s', E, hPrepares, -, rfl⟩ := h
  have hBefore := hPrepares.untouched hWrites
  cases E with
  | goTo code' => exact hBefore.trans untouched_become
  | call after callee => exact hBefore.trans untouched_call
  | ret answer => exact hBefore.trans untouched_ret

theorem untouched_activateCurrent (h : s.activateCurrent after = .ok t) : Untouched s t := by
  obtain ⟨cur, -, ⟨-, rfl⟩ | ⟨-, rfl⟩⟩ := activateCurrent_ok h
  · exact untouched_become
  · exact untouched_call

/-! ## Functions that move threads -/

theorem untouched_stash {cur : Word} {memory : Bool} {nextstate : ThreadState}
    (h : s.stash cur memory nextstate = .ok t) : Untouched s t := by
  have hOk := stash_ok h
  cases nextstate with
  | ready | sleep | zomb =>
    obtain ⟨-, rfl⟩ := hOk
    exact ⟨rfl, rfl, rfl, rfl⟩

theorem untouched_miSwitch {nextstate : ThreadState} {memory : Bool}
    (h : s.miSwitch nextstate after memory = .ok t) : Untouched s t := by
  obtain ⟨-, ⟨-, rfl⟩ | ⟨cur, u, -, hStash, rfl⟩⟩ := miSwitch_ok h
  · exact untouched_become
  · have hBefore := untouched_stash hStash
    exact ⟨hBefore.thread, hBefore.table, hBefore.tlb, hBefore.space⟩

theorem untouched_threadYield {memory : Bool} (h : s.threadYield c memory = .ok t) :
    Untouched s t := by
  have hSwitch := untouched_miSwitch h
  exact ⟨hSwitch.thread, hSwitch.table, hSwitch.tlb, hSwitch.space⟩

theorem untouched_wakeupLoop {addr : Word} {i : Nat} {memory : Bool}
    (h : s.wakeupLoop addr i memory = .ok t) : Untouched s t := by
  obtain rfl | rfl | ⟨guy, -, -, rfl⟩ := wakeupLoop_ok h
  · exact untouched_become
  · exact untouched_become
  · exact ⟨rfl, rfl, rfl, rfl⟩

theorem untouched_threadSleep {addr : Word} {memory : Bool}
    (h : s.threadSleep addr memory = .ok t) : ∃ cur, s.curthread = some cur ∧
      Untouched (s.setThread cur fun th => { th with tSleepaddr := some addr }) t := by
  obtain ⟨cur, -, hCur, hSwitch⟩ := threadSleep_ok h
  exact ⟨cur, hCur, untouched_miSwitch hSwitch⟩

theorem untouched_threadExit {memory : Bool} (h : s.threadExit c memory = .ok t) :
    ∃ cur, s.curthread = some cur ∧
      Untouched (s.setThread cur fun th => { th with tVmspace := none }) t := by
  obtain ⟨cur, hCur, -, hSwitch⟩ := threadExit_ok h
  have hBefore := untouched_miSwitch hSwitch
  exact ⟨cur, hCur, hBefore.thread, hBefore.table, hBefore.tlb, hBefore.space⟩

/-- `thread_fork` writes to the new structure only. -/
theorem threadFork_memory (hPlaced : s.Placed) {func : ThreadFunc} {outcome : ForkOutcome}
    (h : s.threadFork c func outcome = some (.ok t)) :
    t.tlb = s.tlb ∧ t.space = s.space ∧ t.thread s.running = s.thread s.running := by
  obtain ⟨-, hCases⟩ := threadFork_ok h
  obtain ⟨table, hTable, -⟩ := fptInitialize_eq s
  obtain ⟨i, j, k, hRoom, -⟩ := preallocate_eq s.fptInitialize outcome
  rcases hCases with rfl | rfl | rfl | ⟨newguy, -, hNew, -, rfl⟩
  · exact ⟨rfl, rfl, rfl⟩
  · rw [hTable]
    exact ⟨rfl, rfl, rfl⟩
  · rw [preallocated, hRoom, hTable]
    exact ⟨rfl, rfl, rfl⟩
  · rw [preallocated, hRoom, hTable]
    refine ⟨rfl, rfl, ?_⟩
    have hNe : s.running ≠ newguy := by
      intro hEq
      rw [← hEq, hPlaced.allocated _ hPlaced.running] at hNew
      cases hNew
    simp only [become, setStack, start, Function.update_of_ne hNe]

/-- A switch writes to the structure of the old thread only. -/
theorem untouched_mdSwitch (s : Kernel) (nu : Word) : ∃ pcbIninterrupt,
    Untouched (s.setThread s.running fun th => { th with pcbIninterrupt }) (s.mdSwitch nu) := by
  unfold mdSwitch
  split
  · refine ⟨(s.thread s.running).pcbIninterrupt, ?_, rfl, rfl, rfl⟩
    exact (Function.update_eq_self s.running s.thread).symm
  · exact ⟨s.inInterrupt, rfl, rfl, rfl, rfl⟩

theorem untouched_switched (h : s.switched = .ok t) :
    Untouched (s.withoutZombies s.zombies) t := by
  obtain ⟨u, hExorcise, hActivate⟩ := switched_ok h
  obtain ⟨-, -, rfl⟩ := exorcise_ok hExorcise
  have hAfter := untouched_activateCurrent hActivate
  exact ⟨hAfter.thread, hAfter.table, hAfter.tlb, hAfter.space⟩

/-- `vm_fault` writes to the TLB only. -/
theorem vmFault_memory {faulttype : FaultType} {vaddr : Word}
    (h : s.vmFault c faulttype vaddr = .ok t) :
    ∃ cur errno cpu, s.curthread = some cur ∧
      OS161.vmFault c.toMachineConstants ⟨c.splHigh, s.tlb⟩ ((s.thread cur).tVmspace.map s.space)
        faulttype vaddr = .ok (errno, cpu) ∧ Untouched { s with tlb := cpu.tlb } t := by
  obtain ⟨cur, errno, cpu, hCur, hFault, rfl | rfl⟩ := vmFault_ok h
  · exact ⟨cur, errno, cpu, hCur, hFault, rfl, rfl, rfl, rfl⟩
  · exact ⟨cur, errno, cpu, hCur, hFault, rfl, rfl, rfl, rfl⟩

/-! ## Steps -/

/-- What can write in a step: a function that moves threads, one that writes, or code
outside. -/
theorem step_untouched {a : KernelAction} (h : Step c s a t) : Untouched s t ∧ Quiet s t ∨
    (∃ o e code rest, a = .run o ∧ s.stack s.running = ⟨e, code⟩ :: rest ∧
      (code.Moves ∨ code.Writes ∧ Quiet s t) ∧ s.exec c o code = some (.ok t)) ∨
    ∃ b e saved rest, a = .outside b ∧ s.stack s.running = ⟨e, .outside saved⟩ :: rest ∧
      s.outside c saved b = some t ∧ Quiet s t := by
  obtain hQuiet | ⟨o, e, code, rest, rfl, hStack, hMoves, hExec⟩ := step_cases h
  · unfold Step step at h
    cases a with
    | run o =>
      dsimp only at h
      split at h
      · rename_i f rest hStack
        obtain ⟨e, code⟩ := f
        by_cases hMoves : code.Moves
        · exact Or.inr (Or.inl ⟨o, e, code, rest, rfl, hStack, Or.inl hMoves, h⟩)
        by_cases hWrites : code.Writes
        · exact Or.inr (Or.inl ⟨o, e, code, rest, rfl, hStack, Or.inr ⟨hWrites, hQuiet⟩, h⟩)
        · exact Or.inl ⟨(exec_acts hMoves h).untouched hWrites, hQuiet⟩
      · cases h
    | outside b =>
      dsimp only at h
      split at h
      · rename_i e saved rest hStack
        obtain ⟨u, hOutside, hEq⟩ := Option.map_eq_some_iff.mp h
        cases hEq
        exact Or.inr (Or.inr ⟨b, e, saved, rest, rfl, hStack, hOutside, hQuiet⟩)
      · cases h
    | trap kind =>
      dsimp only at h
      split at h
      · cases h
        exact Or.inl ⟨⟨rfl, rfl, rfl, rfl⟩, hQuiet⟩
      · split_ifs at h
        cases h
        exact Or.inl ⟨⟨rfl, rfl, rfl, rfl⟩, hQuiet⟩
      · cases h
    | timer =>
      dsimp only at h
      split_ifs at h
      cases h
      exact Or.inl ⟨⟨rfl, rfl, rfl, rfl⟩, hQuiet⟩
    | device =>
      dsimp only at h
      split_ifs at h
      cases h
      exact Or.inl ⟨⟨rfl, rfl, rfl, rfl⟩, hQuiet⟩
  · exact Or.inr (Or.inl ⟨o, e, code, rest, rfl, hStack, Or.inl hMoves, hExec⟩)

end Kernel

end Windborne.OS161
