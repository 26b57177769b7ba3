import Windborne.OS161.KernelThreads

/-!
# Where a run can end

Which assertions a function makes. Two of them matter later on, with the states in which they
fail: an addition to an array or the run queue that needs memory, and the assertions of `P` and
`thread_sleep` that they are not called from an interrupt handler.
-/

namespace Windborne.OS161

open Library

namespace Kernel

variable {c : KernelConfig} {s s' t : Kernel} {e : Nat} {code after : Code} {rest : List Call}
  {o : Choice} {x : Halt}

/-- The list for the threads of a state is full. -/
def Full (s : Kernel) : ThreadState → Prop
  | .ready => s.runqueueRoom ≤ s.runqueue.length
  | .sleep => s.sleepersRoom ≤ s.sleepers.length
  | .zomb => s.zombiesRoom ≤ s.zombies.length

/-- Why a run ends at `code`. An addition fails at a full list, to which the current thread or a
sleeper goes. -/
inductive Stops (s : Kernel) : Code → Halt → Prop
  | yieldFull (hCur : s.curthread ≠ none) (hFull : s.Full .ready) :
      Stops s .threadYield .addFailed
  | sleepFull {addr : Word} (hCur : s.curthread ≠ none) (hFull : s.Full .sleep) :
      Stops s (.threadSleep addr) .addFailed
  | exitFull (hCur : s.curthread ≠ none) (hFull : s.Full .zomb) : Stops s .threadExit .addFailed
  | wakeupFull {addr : Word} {i : Nat} (hSleepers : s.sleepers ≠ []) (hFull : s.Full .ready) :
      Stops s (.wakeupLoop addr i) .addFailed
  | sleepInInterrupt {addr : Word} (hIn : s.inInterrupt ≠ 0) :
      Stops s (.threadSleep addr) .inInterrupt
  | pInInterrupt {sem : Word} (hIn : s.inInterrupt ≠ 0) : Stops s (.P sem) .inInterrupt
  | other {code : Code} {x : Halt} (hAdd : x ≠ .addFailed) (hIn : x ≠ .inInterrupt) :
      Stops s code x

/-! ## The functions -/

theorem add_error {guys : List Word} {room : Nat} {memory : Bool} {guy : Word}
    (h : add guys room memory guy = .error x) : x = .addFailed ∧ room ≤ guys.length := by
  unfold add at h
  split_ifs at h with hRoom
  cases h
  rw [not_or] at hRoom
  exact ⟨rfl, Nat.le_of_not_lt hRoom.1⟩

theorem makeRunnable_error {guy : Word} {memory : Bool}
    (h : s.makeRunnable guy memory = .error x) :
    x = .curspl ∨ x = .addFailed ∧ s.runqueueRoom ≤ s.runqueue.length := by
  unfold makeRunnable at h
  split_ifs at h
  · cases h
    exact Or.inl rfl
  right
  cases hAdd : add s.runqueue s.runqueueRoom memory guy with
  | ok runqueue => simp [hAdd] at h
  | error y =>
    simp only [hAdd] at h
    cases h
    exact add_error hAdd

theorem stash_error {cur : Word} {memory : Bool} {nextstate : ThreadState}
    (h : s.stash cur memory nextstate = .error x) :
    x = .curspl ∨ x = .addFailed ∧ s.Full nextstate := by
  cases nextstate with
  | ready => exact makeRunnable_error h
  | sleep =>
    right
    cases hAdd : add s.sleepers s.sleepersRoom memory cur with
    | ok guys => simp [stash, hAdd] at h
    | error y =>
      simp only [stash, hAdd] at h
      cases h
      exact add_error hAdd
  | zomb =>
    right
    cases hAdd : add s.zombies s.zombiesRoom memory cur with
    | ok guys => simp [stash, hAdd] at h
    | error y =>
      simp only [stash, hAdd] at h
      cases h
      exact add_error hAdd

/-- `mi_switch` runs out of memory only when the list has no room. -/
theorem miSwitch_error {nextstate : ThreadState} {memory : Bool}
    (h : s.miSwitch nextstate after memory = .error x) :
    x = .curspl ∨ x = .addFailed ∧ s.curthread ≠ none ∧ s.Full nextstate := by
  unfold miSwitch at h
  by_cases hSpl : s.curspl = 0
  · rw [if_pos hSpl] at h
    cases h
    exact Or.inl rfl
  rw [if_neg hSpl] at h
  split at h
  · cases h
  · rename_i cur hCur
    cases hStash : { s with curthread := none }.stash cur memory nextstate with
    | ok u => simp [hStash] at h
    | error y =>
      simp only [hStash] at h
      cases h
      rcases stash_error hStash with hSpl | ⟨hAdd, hFull⟩
      · exact Or.inl hSpl
      · refine Or.inr ⟨hAdd, by simp [hCur], ?_⟩
        cases nextstate with
        | ready | sleep | zomb => exact hFull

theorem activateCurrent_error (h : s.activateCurrent after = .error x) : x = .nullPointer := by
  unfold activateCurrent at h
  split at h
  · cases h
    rfl
  · split_ifs at h

theorem threadDestroy_error {z : Word} (h : s.threadDestroy z = .error x) :
    x = .destroyCurthread ∨ x = .destroyVmspace := by
  unfold threadDestroy at h
  split_ifs at h
  · cases h
    exact Or.inl rfl
  · cases h
    exact Or.inr rfl

theorem exorciseLoop_error {zombies : List Word} (h : s.exorciseLoop zombies = .error x) :
    x = .exorciseCurthread ∨ x = .destroyCurthread ∨ x = .destroyVmspace := by
  induction zombies generalizing s with
  | nil => cases h
  | cons z zombies ih =>
    unfold exorciseLoop at h
    split_ifs at h with hCur
    · cases h
      exact Or.inl rfl
    cases hDestroy : s.threadDestroy z with
    | error y =>
      simp only [hDestroy] at h
      cases h
      exact Or.inr (threadDestroy_error hDestroy)
    | ok u =>
      rw [hDestroy] at h
      exact ih h

theorem switched_error (h : s.switched = .error x) : x ≠ .addFailed ∧ x ≠ .inInterrupt := by
  unfold switched at h
  cases hExorcise : s.exorcise with
  | ok u =>
    rw [hExorcise] at h
    rw [activateCurrent_error h]
    exact ⟨nofun, nofun⟩
  | error y =>
    simp only [hExorcise] at h
    cases h
    unfold exorcise at hExorcise
    split_ifs at hExorcise
    · cases hExorcise
      exact ⟨nofun, nofun⟩
    cases hLoop : s.exorciseLoop s.zombies with
    | ok u => simp [hLoop] at hExorcise
    | error y =>
      simp only [hLoop] at hExorcise
      cases hExorcise
      rcases exorciseLoop_error hLoop with rfl | rfl | rfl
      · exact ⟨nofun, nofun⟩
      · exact ⟨nofun, nofun⟩
      · exact ⟨nofun, nofun⟩

theorem assign_error {f : KernelThread → KernelThread} (h : s.assign f after = .error x) :
    x = .nullPointer := by
  unfold assign at h
  split at h
  · cases h
    rfl
  · cases h

theorem threadFork_error {func : ThreadFunc} {outcome : ForkOutcome}
    (h : s.threadFork c func outcome = some (.error x)) : x = .nullPointer := by
  unfold threadFork at h
  by_cases hCur : s.curthread = none
  · rw [if_pos hCur] at h
    cases h
    rfl
  rw [if_neg hCur] at h
  cases outcome with
  | notRunnable | started =>
    dsimp only at h
    split_ifs at h
    cases h
  | _ => cases h

theorem checkLock_error {l : Word} (h : s.checkLock l s' = .error x) : x = .nullPointer := by
  unfold checkLock at h
  split_ifs at h
  cases h
  rfl

theorem wakeupLoop_error {addr : Word} {i : Nat} {memory : Bool}
    (h : s.wakeupLoop addr i memory = .error x) :
    x = .curspl ∨ x = .addFailed ∧ s.sleepers ≠ [] ∧ s.Full .ready := by
  unfold wakeupLoop at h
  split at h
  · cases h
  · rename_i guy hGuy
    split_ifs at h
    rcases makeRunnable_error h with hSpl | ⟨hAdd, hFull⟩
    · exact Or.inl hSpl
    · refine Or.inr ⟨hAdd, ?_, hFull⟩
      intro hNil
      simp [hNil] at hGuy

/-! ## Statements and steps -/

theorem stops_nullPointer (h : x = .nullPointer) : s.Stops code x := by
  subst h
  exact .other nofun nofun

theorem exec_error (h : s.exec c o code = some (.error x)) : s.Stops code x := by
  cases code with
  | threadYield =>
    simp only [exec, Option.some.injEq] at h
    obtain rfl | ⟨rfl, hCur, hFull⟩ := miSwitch_error h
    · exact .other (by simp) (by simp)
    · exact .yieldFull hCur hFull
  | threadSleep addr =>
    simp only [exec, threadSleep, Option.some.injEq] at h
    split_ifs at h with hIn
    · cases h
      exact .sleepInInterrupt hIn
    split at h
    · cases h
      exact .other (by simp) (by simp)
    · obtain rfl | ⟨rfl, hCur, hFull⟩ := miSwitch_error h
      · exact .other (by simp) (by simp)
      · exact .sleepFull hCur hFull
  | threadExit =>
    simp only [exec, threadExit, Option.some.injEq] at h
    split at h
    · cases h
      exact .other (by simp) (by simp)
    · split_ifs at h
      · cases h
        exact .other (by simp) (by simp)
      obtain rfl | ⟨rfl, hCur, hFull⟩ := miSwitch_error h
      · exact .other (by simp) (by simp)
      · exact .exitFull hCur hFull
  | wakeupLoop addr i =>
    simp only [exec, Option.some.injEq] at h
    obtain rfl | ⟨rfl, hSleepers, hFull⟩ := wakeupLoop_error h
    · exact .other (by simp) (by simp)
    · exact .wakeupFull hSleepers hFull
  | P sem =>
    simp only [exec, P, Option.some.injEq] at h
    split_ifs at h with hSem hIn
    · cases h
      exact .other (by simp) (by simp)
    · cases h
      exact .pInInterrupt hIn
  | threadFork func =>
    simp only [exec] at h
    exact stops_nullPointer (threadFork_error h)
  | switched =>
    simp only [exec, Option.some.injEq] at h
    obtain ⟨hAdd, hIn⟩ := switched_error h
    exact .other hAdd hIn
  | scheduler =>
    simp only [exec, scheduler, Option.some.injEq] at h
    split_ifs at h
    · cases h
      exact .other (by simp) (by simp)
    · split at h
      · cases h
      · cases h
  | threadstart func =>
    simp only [exec, Option.some.injEq] at h
    exact stops_nullPointer (activateCurrent_error h)
  | slept | forkVmspace | forkPid | forkParent =>
    simp only [exec, Option.some.injEq] at h
    exact stops_nullPointer (assign_error h)
  | lockAcquire | lockRelease | lockDoIHold =>
    simp only [exec, Option.some.injEq] at h
    exact stops_nullPointer (checkLock_error h)
  | pLoop sem spl =>
    simp only [exec, pLoop, Option.some.injEq] at h
    split_ifs at h
    cases h
    exact .other (by simp) (by simp)
  | V sem =>
    simp only [exec, V, Option.some.injEq] at h
    split_ifs at h
    · cases h
      exact .other (by simp) (by simp)
    · cases h
      exact .other (by simp) (by simp)
  | threadWakeup addr =>
    simp only [exec, threadWakeup, Option.some.injEq] at h
    split_ifs at h
    cases h
    exact .other (by simp) (by simp)
  | exited =>
    cases h
    exact .other (by simp) (by simp)
  | vmFault faulttype vaddr =>
    simp only [exec, vmFault, Option.some.injEq] at h
    split at h
    · cases h
      exact .other (by simp) (by simp)
    · split at h
      · cases h
        exact .other (by simp) (by simp)
      · split_ifs at h
  | trap kind iskern savespl =>
    cases kind with
    | syscall =>
      simp only [exec, trap, Option.some.injEq] at h
      split_ifs at h
      cases h
      exact .other (by simp) (by simp)
    | fault faulttype vaddr => cases h
    | fatal => cases h
  | sysDone savespl =>
    simp only [exec, sysDone, Option.some.injEq] at h
    split_ifs at h
    cases h
    exact .other (by simp) (by simp)
  | fatal iskern savespl =>
    simp only [exec, fatal, Option.some.injEq] at h
    split_ifs at h
    cases h
    exact .other (by simp) (by simp)
  | forkTable =>
    simp only [exec, forkTable, Option.some.injEq] at h
    split at h
    · cases h
      exact .other (by simp) (by simp)
    · cases h
  | _ => cases h

/-- Only the kernel's own statements end a run. -/
theorem step_error {a : KernelAction} (h : s.step c a = some (.error x)) :
    ∃ o e code rest, a = .run o ∧ s.stack s.running = ⟨e, code⟩ :: rest ∧ s.Stops code x := by
  cases a with
  | run o =>
    dsimp only [step] at h
    split at h
    · rename_i f rest hStack
      obtain ⟨e, code⟩ := f
      exact ⟨o, e, code, rest, rfl, hStack, exec_error h⟩
    · cases h
  | outside a =>
    dsimp only [step] at h
    split at h
    · obtain ⟨u, -, hEq⟩ := Option.map_eq_some_iff.mp h
      cases hEq
    · cases h
  | trap kind =>
    dsimp only [step] at h
    split at h
    · cases h
    · split_ifs at h
      cases h
    · cases h
  | timer =>
    dsimp only [step] at h
    split_ifs at h
    cases h
  | device =>
    dsimp only [step] at h
    split_ifs at h
    cases h

end Kernel

end Windborne.OS161
