import Windborne.OS161.InterruptLevels
import Windborne.OS161.SyncObjects

/-!
# The semaphores and locks of the kernel

With stacks, `lock_release` asks `lock_do_i_hold` and frees the lock some statements after the
answer. The lock is still the thread's own then, because no interrupt comes in on the way. And a
thread that takes a lock is the current thread: `lock_acquire` stops an interrupt handler that has
come in on the idle loop. So the kernel implements semaphores and locks, too.
-/

namespace Windborne.OS161

open Library

/-- The functions that change a semaphore or a lock. -/
def Code.Synchronizes : Code → Prop
  | .pLoop _ _ | .V _ | .acquireLoop _ _ | .releaseFree _ _ => True
  | _ => False

/-- In `lock_release`, after it has found the lock held. -/
def Code.Releases : Code → Prop
  | .releaseHeld _ _ | .releaseFree _ _ => True
  | _ => False

/-- In the loop of `lock_acquire`. -/
def Code.Acquires : Code → Prop
  | .acquireLoop _ _ => True
  | _ => False

/-- User code, and the code outside these files. -/
def Code.Elsewhere : Code → Prop
  | .user | .outside _ => True
  | _ => False

namespace Kernel

variable {c : KernelConfig} {s t : Kernel} {e l l' : Nat} {code code' after callee : Code}
  {rest : List Call} {o : Choice}

def objects (s : Kernel) : Objects Word Word Word where
  count := s.count
  holder l := (s.lock l).owner

/-! ## Statements that change no object -/

theorem objects_miSwitch {nextstate : ThreadState} {memory : Bool}
    (h : s.miSwitch nextstate after memory = .ok t) : t.objects = s.objects := by
  obtain ⟨-, ⟨-, rfl⟩ | ⟨cur, u, -, hStash, rfl⟩⟩ := miSwitch_ok h
  · rfl
  · have hOk := stash_ok hStash
    cases nextstate with
    | ready | sleep | zomb =>
      obtain ⟨-, rfl⟩ := hOk
      rfl

theorem objects_threadFork {func : ThreadFunc} {outcome : ForkOutcome}
    (h : s.threadFork c func outcome = some (.ok t)) : t.objects = s.objects := by
  obtain ⟨-, hCases⟩ := threadFork_ok h
  obtain ⟨table, hTable, -⟩ := fptInitialize_eq s
  obtain ⟨i, j, k, hRoom, -⟩ := preallocate_eq s.fptInitialize outcome
  rcases hCases with rfl | rfl | rfl | ⟨newguy, -, -, -, rfl⟩
  · rfl
  · rw [hTable]
    rfl
  · rw [preallocated, hRoom, hTable]
    rfl
  · rw [preallocated, hRoom, hTable]
    rfl

theorem objects_assign {f : KernelThread → KernelThread} (h : s.assign f after = .ok t) :
    t.objects = s.objects := by
  obtain ⟨cur, -, rfl⟩ := assign_ok h
  rfl

theorem objects_activateCurrent (h : s.activateCurrent after = .ok t) : t.objects = s.objects := by
  obtain ⟨cur, -, ⟨-, rfl⟩ | ⟨-, rfl⟩⟩ := activateCurrent_ok h
  · rfl
  · rfl

/-- Most statements change none. -/
theorem objects_exec (hCode : ¬code.Synchronizes) (h : s.exec c o code = some (.ok t)) :
    t.objects = s.objects := by
  cases code with
  | user | outside | releaseHeld | faulted | exited => cases h
  | pLoop | V | acquireLoop | releaseFree => exact absurd trivial hCode
  | splxOn | restoreOn | ret | threadEnable | afterFunc | clocksleep | hardclockYield | asActivate
  | trapDone | interrupted | enterUser =>
    cases h
    rfl
  | splx newspl =>
    cases h
    unfold splx
    split_ifs
    · rfl
    · rfl
  | restore spl ans =>
    cases h
    unfold restore
    split_ifs
    · rfl
    · rfl
  | P sem =>
    simp only [exec, P, Option.some.injEq] at h
    split_ifs at h
    cases h
    rfl
  | lockAcquire l | lockDoIHold l =>
    simp only [exec, Option.some.injEq] at h
    obtain rfl := checkLock_ok h
    rfl
  | lockRelease l =>
    simp only [exec, Option.some.injEq] at h
    obtain rfl := checkLock_ok h
    split_ifs
    · rfl
    · rfl
  | threadYield =>
    simp only [exec, Option.some.injEq] at h
    exact (objects_miSwitch h).trans rfl
  | threadSleep addr =>
    simp only [exec, Option.some.injEq] at h
    obtain ⟨cur, -, -, hSwitch⟩ := threadSleep_ok h
    exact (objects_miSwitch hSwitch).trans rfl
  | threadExit =>
    simp only [exec, Option.some.injEq] at h
    obtain ⟨cur, -, -, hSwitch⟩ := threadExit_ok h
    exact (objects_miSwitch hSwitch).trans rfl
  | slept | forkVmspace | forkPid | forkParent =>
    simp only [exec, Option.some.injEq] at h
    exact objects_assign h
  | threadWakeup addr =>
    simp only [exec, threadWakeup, Option.some.injEq] at h
    split_ifs at h
    cases h
    rfl
  | wakeupLoop addr i =>
    simp only [exec, Option.some.injEq] at h
    obtain rfl | rfl | ⟨guy, -, -, rfl⟩ := wakeupLoop_ok h
    · rfl
    · rfl
    · rfl
  | threadFork func => exact objects_threadFork h
  | scheduler =>
    simp only [exec, Option.some.injEq] at h
    obtain ⟨-, ⟨-, rfl⟩ | ⟨next, runqueue, -, rfl⟩⟩ := scheduler_ok h
    · rfl
    · obtain ⟨thread, inInterrupt, hSwitch⟩ :=
        mdSwitch_eq ({ s with curthread := some next, runqueue }.become .switched) next
      rw [hSwitch]
      rfl
  | switched =>
    simp only [exec, Option.some.injEq] at h
    obtain ⟨u, hExorcise, hActivate⟩ := switched_ok h
    obtain ⟨-, -, rfl⟩ := exorcise_ok hExorcise
    exact (objects_activateCurrent hActivate).trans rfl
  | threadstart func =>
    simp only [exec, Option.some.injEq] at h
    exact objects_activateCurrent h
  | threadProbes func n =>
    cases h
    cases n with
    | zero | succ n => rfl
  | clockLoop numSecs spl =>
    cases h
    unfold clockLoop
    split_ifs
    · rfl
    · rfl
  | hardclock =>
    cases h
    unfold hardclock
    split_ifs
    · rfl
    · rfl
  | vmFault faulttype vaddr =>
    simp only [exec, Option.some.injEq] at h
    obtain ⟨cur, errno, cpu, -, -, rfl | rfl⟩ := vmFault_ok h
    · rfl
    · rfl
  | trap kind iskern savespl =>
    simp only [exec, Option.some.injEq] at h
    cases kind with
    | syscall =>
      unfold trap at h
      split_ifs at h
      cases h
      rfl
    | fault | fatal =>
      cases h
      rfl
  | sysDone savespl =>
    simp only [exec, sysDone, Option.some.injEq] at h
    split_ifs at h
    cases h
    rfl
  | fatal iskern savespl =>
    simp only [exec, fatal, Option.some.injEq] at h
    split_ifs at h
    · cases h
      rfl
    · cases h
      rfl
  | forkTable =>
    simp only [exec, Option.some.injEq] at h
    obtain ⟨cur, -, rfl⟩ := forkTable_ok h
    rfl

/-! ## Nobody is in the middle of a release -/

def Released (stack : List Call) : Prop := ∀ f ∈ stack, ¬f.code.Releases

theorem released_cons : Released (⟨e, code⟩ :: rest) ↔ ¬code.Releases ∧ Released rest :=
  List.forall_mem_cons

theorem released_nil : Released [] := List.forall_mem_nil _

theorem released_newStack (c : KernelConfig) (func : ThreadFunc) : Released (newStack c func) :=
  released_cons.mpr ⟨id, released_nil⟩

theorem releases_goTo (hFlow : Flow c code l (.goTo code') l') : ¬code'.Releases := by
  cases hFlow with
  | _ => exact id

theorem releases_call (hFlow : Flow c code l (.call after callee) l')
    (hCode : ∀ k, code ≠ .lockRelease k) : ¬after.Releases ∧ ¬callee.Releases := by
  cases hFlow with
  | lockRelease => exact absurd rfl (hCode _)
  | @probesDone func =>
    cases func with
    | outside | mdForkentry => exact ⟨id, id⟩
  | outsideCall f =>
    cases f with
    | _ => exact ⟨id, id⟩
  | _ => exact ⟨id, id⟩

theorem releases_ret {answer : Code → Code} (hFlow : Flow c code l (.ret answer) l') {d : Code}
    (h : ¬d.Releases) : ¬(answer d).Releases := by
  cases hFlow with
  | splxOff | splxOn =>
    cases d with
    | releaseHeld | releaseFree => exact absurd trivial h
    | _ => exact id
  | @ret ans =>
    cases d with
    | releaseHeld | releaseFree => exact absurd trivial h
    | faulted iskern savespl =>
      cases ans with
      | false | true => exact id
    | _ => exact id
  | vmFaultFailed =>
    cases d with
    | releaseHeld | releaseFree => exact absurd trivial h
    | _ => exact id
  | trapDone | interrupted | outsideRet => exact h

/-- Only `lock_release` gets there. -/
theorem released_flow {E : Effect Code} (hFlow : Flow c code l E l')
    (hCode : ∀ k, code ≠ .lockRelease k) (h : Released (⟨e, code⟩ :: rest)) :
    Released (E.apply l' (⟨e, code⟩ :: rest)) := by
  obtain ⟨-, hRest⟩ := released_cons.mp h
  cases E with
  | goTo code' => exact released_cons.mpr ⟨releases_goTo hFlow, hRest⟩
  | call after callee =>
    obtain ⟨hAfter, hCallee⟩ := releases_call hFlow hCode
    exact released_cons.mpr ⟨hCallee, released_cons.mpr ⟨hAfter, hRest⟩⟩
  | ret answer =>
    cases rest with
    | nil => exact released_nil
    | cons f rest =>
      obtain ⟨hOld, hRest⟩ := released_cons.mp hRest
      exact released_cons.mpr ⟨releases_ret hFlow hOld, hRest⟩

/-! ## Nobody takes a lock on the idle loop -/

/-- An activation in the loop of `lock_acquire` has no activation of the scheduler below. -/
def Alone : List Call → Prop
  | [] => True
  | f :: rest => (f.code.Acquires → waiting rest = 0) ∧ Alone rest

theorem alone_cons (hTop : ¬code.Acquires) (h : Alone rest) : Alone (⟨e, code⟩ :: rest) :=
  ⟨fun hAcquires => absurd hAcquires hTop, h⟩

theorem alone_of_waiting {stack : List Call} (h : waiting stack = 0) : Alone stack := by
  induction stack with
  | nil => exact trivial
  | cons f rest ih =>
    obtain ⟨e, code⟩ := f
    rw [waiting_cons, Nat.add_eq_zero_iff] at h
    exact ⟨fun _ => h.1, ih h.1⟩

theorem acquires_goTo (hFlow : Flow c code l (.goTo code') l')
    (hCode : ∀ k, code ≠ .lockAcquire k) : ¬code'.Acquires := by
  cases hFlow with
  | lockAcquire => exact absurd rfl (hCode _)
  | _ => exact id

theorem acquires_call (hFlow : Flow c code l (.call after callee) l') :
    (after.Acquires → code.Acquires) ∧ ¬callee.Acquires := by
  cases hFlow with
  | @probesDone func =>
    cases func with
    | outside | mdForkentry => exact ⟨id, id⟩
  | outsideCall f =>
    cases f with
    | _ => exact ⟨id, id⟩
  | _ => exact ⟨id, id⟩

theorem acquires_ret {answer : Code → Code} (hFlow : Flow c code l (.ret answer) l') {d : Code}
    (h : (answer d).Acquires) : d.Acquires := by
  cases hFlow with
  | splxOff | splxOn =>
    cases d with
    | _ => exact h
  | @ret ans =>
    cases d with
    | releaseHeld | faulted =>
      cases ans with
      | false | true => cases h
    | _ => exact h
  | vmFaultFailed =>
    cases d with
    | _ => exact h
  | trapDone | interrupted | outsideRet => exact h

theorem alone_flow {E : Effect Code} (hFlow : Flow c code l E l')
    (hCode : ∀ k, code ≠ .lockAcquire k) (h : Alone (⟨e, code⟩ :: rest)) :
    Alone (E.apply l' (⟨e, code⟩ :: rest)) := by
  obtain ⟨hTop, hRest⟩ := h
  cases E with
  | goTo code' => exact alone_cons (acquires_goTo hFlow hCode) hRest
  | call after callee =>
    obtain ⟨hAfter, hCallee⟩ := acquires_call hFlow
    exact alone_cons hCallee ⟨fun hAcquires => hTop (hAfter hAcquires), hRest⟩
  | ret answer =>
    cases rest with
    | nil => exact trivial
    | cons f rest => exact ⟨fun hAcquires => hRest.1 (acquires_ret hFlow hAcquires), hRest.2⟩

/-! ## In the middle of a release -/

/-- On the way from `lock_do_i_hold` to the release, a thread that has been told that it holds the
lock does hold it. -/
inductive Releasing (holds : Word → Prop) : List Call → Prop
  | released {stack : List Call} (h : Released stack) : Releasing holds stack
  | asks {e e' spl : Nat} {l : Word} {rest : List Call} (h : Released rest) :
      Releasing holds (⟨e, .lockDoIHold l⟩ :: ⟨e', .releaseHeld l spl⟩ :: rest)
  | answers {e e' spl spl' : Nat} {ans : Bool} {l : Word} {rest : List Call} (hSpl : spl ≠ 0)
      (hHolds : ans = true → holds l) (h : Released rest) :
      Releasing holds (⟨e, .restore spl ans⟩ :: ⟨e', .releaseHeld l spl'⟩ :: rest)
  | answered {e e' spl : Nat} {ans : Bool} {l : Word} {rest : List Call}
      (hHolds : ans = true → holds l) (h : Released rest) :
      Releasing holds (⟨e, .ret ans⟩ :: ⟨e', .releaseHeld l spl⟩ :: rest)
  | frees {e spl : Nat} {l : Word} {rest : List Call} (hHolds : holds l) (h : Released rest) :
      Releasing holds (⟨e, .releaseFree l spl⟩ :: rest)

/-- The running thread holds the lock. -/
def Holds (s : Kernel) (l : Word) : Prop := s.objects.holder l = some s.running

/-- The invariant of the locks. -/
structure Locking (c : KernelConfig) (s : Kernel) : Prop where
  placed : s.Placed
  disciplined : Disciplined c s
  releasing : Releasing s.Holds (s.stack s.running)
  others : ∀ u, u ≠ s.running → Released (s.stack u)
  alone : Alone (s.stack s.running)

/-- In the kernel's own code, a step is the next statement or an interrupt. -/
theorem step_code {a : KernelAction} (hStep : Step c s a t)
    (hStack : s.stack s.running = ⟨e, code⟩ :: rest) (hKernel : ¬code.Elsewhere) :
    (∃ o, s.exec c o code = some (.ok t)) ∨ s.Interruptible ∧
      ∃ handler, (handler = .hardclock ∨ handler = .outside []) ∧
        t = s.enterInterrupt c handler := by
  unfold Step step at hStep
  cases a with
  | run o =>
    rw [hStack] at hStep
    exact .inl ⟨o, hStep⟩
  | outside a =>
    dsimp only at hStep
    split at hStep
    · rename_i hTop
      rw [hStack, List.cons.injEq, Activation.mk.injEq] at hTop
      exact absurd (hTop.1.2 ▸ trivial) hKernel
    · cases hStep
  | trap kind =>
    dsimp only at hStep
    split at hStep
    · rename_i hTop
      rw [hStack, List.cons.injEq, Activation.mk.injEq] at hTop
      exact absurd (hTop.1.2 ▸ trivial) hKernel
    · rename_i hTop
      rw [hStack, List.cons.injEq, Activation.mk.injEq] at hTop
      exact absurd (hTop.1.2 ▸ trivial) hKernel
    · cases hStep
  | timer =>
    dsimp only at hStep
    split_ifs at hStep with hOn
    cases hStep
    exact .inr ⟨hOn, _, .inl rfl, rfl⟩
  | device =>
    dsimp only at hStep
    split_ifs at hStep with hOn
    cases hStep
    exact .inr ⟨hOn, _, .inr rfl, rfl⟩

/-- While no interrupt can come in, it is the next statement. -/
theorem step_run {a : KernelAction} (hStep : Step c s a t)
    (hStack : s.stack s.running = ⟨e, code⟩ :: rest) (hKernel : ¬code.Elsewhere)
    (hOff : ¬s.Interruptible) :
    ∃ o, s.exec c o code = some (.ok t) :=
  (step_code hStep hStack hKernel).resolve_right fun hOn => hOff hOn.1

theorem not_interruptible (hSpl : s.curspl = c.splHigh)
    (hWindow : s.window (s.stack s.running) = false) : ¬s.Interruptible := by
  rintro (hZero | hOpen)
  · have hPos := c.splHigh_pos
    omega
  · rw [hWindow] at hOpen
    cases hOpen

/-- What `lock_release` calls is called at `SPL_HIGH`. -/
theorem Disciplined.entry_releaseHeld (h : Disciplined c s) {e' spl : Nat} {k : Word}
    (hStack : s.stack s.running = ⟨e, code⟩ :: ⟨e', .releaseHeld k spl⟩ :: rest) :
    e = c.splHigh := by
  have hBalanced := h.running
  rw [hStack] at hBalanced
  have hLeaves : (levelSpec c).leaves code e e := ⟨hBalanced.inside.1, fun _ => rfl⟩
  exact (hBalanced.pop hLeaves).inside.2.2.2

theorem checkLock_curthread {k : Word} {s' : Kernel} (h : s.checkLock k s' = .ok t) :
    s.curthread ≠ none := by
  unfold checkLock at h
  split_ifs at h with hCheck
  exact fun hNone => hCheck (.inr hNone)

/-- The step of a thread that is not in the middle of a release. -/
theorem Locking.released_step (h : Locking c s) {a : KernelAction} (hStep : Step c s a t)
    (hReleased : Released (s.stack s.running)) : Releasing t.Holds (t.stack t.running) := by
  obtain ⟨e, code, rest, E, hStack, hFlow, hAdvances, -⟩ | ⟨kind, iskern, -, -, -, rfl, -⟩ |
    ⟨handler, hHandler, -, rfl⟩ | ⟨e, rest, hStack, hOk⟩ := step_flow h.placed hStep
  · rw [hStack] at hReleased
    rw [hAdvances.running, hAdvances.stack, hStack]
    by_cases hRelease : ∃ k, code = .lockRelease k
    · obtain ⟨k, rfl⟩ := hRelease
      have hRest := (released_cons.mp hReleased).2
      generalize t.curspl = level at hFlow ⊢
      cases hFlow with
      | lockRelease => exact .asks hRest
      | releaseNothing => exact .released (released_cons.mpr ⟨id, hRest⟩)
    · exact .released (released_flow hFlow (not_exists.mp hRelease) hReleased)
  · simp only [enterTrap, setStack, Function.update_self]
    exact .released (released_cons.mpr ⟨id, released_cons.mpr ⟨id, hReleased⟩⟩)
  · have hNot : ¬handler.Releases := by
      rcases hHandler with rfl | rfl
      · exact id
      · exact id
    simp only [enterInterrupt, setStack, Function.update_self]
    refine .released (released_cons.mpr ⟨hNot, ?_⟩)
    exact released_cons.mpr ⟨id, released_cons.mpr ⟨id, hReleased⟩⟩
  · obtain rfl | ⟨-, hStacks, ⟨hRunning, -⟩ | ⟨hNe, -⟩⟩ := scheduler_stacks hStack hOk
    · exact .released hReleased
    · rw [hStack] at hReleased
      rw [hStacks, hRunning, Function.update_self]
      exact .released (released_cons.mpr ⟨id, (released_cons.mp hReleased).2⟩)
    · rw [hStacks, Function.update_of_ne hNe]
      exact .released (h.others t.running hNe)

theorem Locking.releasing_step (h : Locking c s) {a : KernelAction} (hStep : Step c s a t) :
    Releasing t.Holds (t.stack t.running) := by
  have hReleasing := h.releasing
  generalize hStack : s.stack s.running = stack at hReleasing
  have hBalanced := h.disciplined.running
  rw [hStack] at hBalanced
  cases hReleasing with
  | released hReleased =>
    rw [← hStack] at hReleased
    exact h.released_step hStep hReleased
  | @asks e e' spl k rest hRest =>
    have hEntry := h.disciplined.entry_releaseHeld hStack
    have hSpl : s.curspl = c.splHigh := hBalanced.inside.2.2.trans hEntry
    obtain ⟨o, hExec⟩ := step_run hStep hStack id
      (not_interruptible hSpl (by rw [hStack]; rfl))
    simp only [exec, Option.some.injEq] at hExec
    obtain ⟨cur, hCur⟩ := Option.ne_none_iff_exists'.mp (checkLock_curthread hExec)
    have hMe := (h.placed.curthread hCur).1
    obtain rfl := checkLock_ok hExec
    have hOn : s.curspl ≠ 0 := by
      have hPos := c.splHigh_pos
      omega
    simp only [become, setStack, hStack, Function.update_self]
    refine .answers hOn ?_ hRest
    intro hAns
    obtain ⟨hHolder, hHeld⟩ := of_decide_eq_true hAns
    have hNot : (s.lock k).held ≠ 0 := by omega
    show (s.lock k).owner = some s.running
    rw [Lock.owner, if_neg hNot, hHolder, hCur, hMe]
  | @answers e e' spl spl' ans k rest hSpl hHolds hRest =>
    obtain ⟨o, hExec⟩ := step_run hStep hStack id
      (not_interruptible hBalanced.inside.2.2.2 (by rw [hStack]; rfl))
    simp only [exec, restore, Option.some.injEq, if_neg hSpl] at hExec
    cases hExec
    simp only [become, setStack, hStack, Function.update_self]
    exact .answered hHolds hRest
  | @answered e e' spl ans k rest hHolds hRest =>
    have hEntry := h.disciplined.entry_releaseHeld hStack
    have hSpl : s.curspl = c.splHigh := hBalanced.inside.2.2.trans hEntry
    obtain ⟨o, hExec⟩ := step_run hStep hStack id
      (not_interruptible hSpl (by rw [hStack]; rfl))
    simp only [exec, Option.some.injEq] at hExec
    cases hExec
    simp only [ret, setStack, hStack, Function.update_self]
    cases ans with
    | false => exact .released (released_cons.mpr ⟨id, hRest⟩)
    | true => exact .frees (hHolds rfl) hRest
  | @frees e spl k rest hHolds hRest =>
    obtain ⟨o, hExec⟩ := step_run hStep hStack id
      (not_interruptible hBalanced.inside.2.2.2 (by rw [hStack]; rfl))
    simp only [exec, Option.some.injEq] at hExec
    cases hExec
    simp only [releaseFree, call, setStack, hStack, Function.update_self]
    exact .released (released_cons.mpr ⟨id, released_cons.mpr ⟨id, hRest⟩⟩)

/-- Nobody gives up the processor in the middle of a release. -/
theorem Locking.others_step (h : Locking c s) {a : KernelAction} (hStep : Step c s a t) (u : Word)
    (hu : u ≠ t.running) : Released (t.stack u) := by
  obtain ⟨e, code, rest, E, hStack, hFlow, hAdvances, -⟩ | ⟨kind, iskern, -, -, -, rfl, -⟩ |
    ⟨handler, hHandler, -, rfl⟩ | ⟨e, rest, hStack, hOk⟩ := step_flow h.placed hStep
  · rw [hAdvances.running] at hu
    rcases hAdvances.others u hu with ⟨hSame, -⟩ | ⟨⟨func, hNew⟩, -⟩
    · rw [hSame]
      exact h.others u hu
    · rw [hNew]
      exact released_newStack c func
  · have hNe : u ≠ s.running := hu
    simp only [enterTrap, setStack, Function.update_of_ne hNe]
    exact h.others u hNe
  · have hNe : u ≠ s.running := hu
    simp only [enterInterrupt, setStack, Function.update_of_ne hNe]
    exact h.others u hNe
  · obtain rfl | ⟨-, hStacks, -⟩ := scheduler_stacks hStack hOk
    · exact h.others u hu
    rw [hStacks]
    by_cases hEq : u = s.running
    · have hReleasing := h.releasing
      rw [hStack] at hReleasing
      cases hReleasing with
      | released hReleased =>
        rw [hEq, Function.update_self]
        exact released_cons.mpr ⟨id, (released_cons.mp hReleased).2⟩
    · rw [Function.update_of_ne hEq]
      exact h.others u hEq

theorem alone_enterInterrupt (h : Alone (s.stack s.running)) {handler : Code}
    (hHandler : handler = .hardclock ∨ handler = .outside []) :
    Alone ((s.enterInterrupt c handler).stack (s.enterInterrupt c handler).running) := by
  have hNot : ¬handler.Acquires := by
    rcases hHandler with rfl | rfl
    · exact id
    · exact id
  simp only [enterInterrupt, setStack, Function.update_self]
  exact alone_cons hNot (alone_cons id (alone_cons id h))

/-- `lock_acquire` gets into its loop in the current thread only. -/
theorem Locking.alone_step (h : Locking c s) {a : KernelAction} (hStep : Step c s a t) :
    Alone (t.stack t.running) := by
  have hAlone := h.alone
  obtain ⟨e, code, rest, E, hStack, hFlow, hAdvances, -⟩ | ⟨kind, iskern, -, -, -, rfl, -⟩ |
    ⟨handler, hHandler, -, rfl⟩ | ⟨e, rest, hStack, hOk⟩ := step_flow h.placed hStep
  · by_cases hAcquire : ∃ k, code = .lockAcquire k
    · obtain ⟨k, rfl⟩ := hAcquire
      obtain ⟨o, hExec⟩ | ⟨-, handler, hHandler, rfl⟩ := step_code hStep hStack id
      · simp only [exec, Option.some.injEq] at hExec
        obtain ⟨cur, hCur⟩ := Option.ne_none_iff_exists'.mp (checkLock_curthread hExec)
        have hNone := (h.placed.curthread hCur).2
        rw [hStack] at hNone hAlone
        obtain rfl := checkLock_ok hExec
        simp only [become, setStack, hStack, Function.update_self]
        exact ⟨fun _ => by rw [waiting_cons] at hNone; omega, hAlone.2⟩
      · exact alone_enterInterrupt hAlone hHandler
    · rw [hStack] at hAlone
      rw [hAdvances.running, hAdvances.stack, hStack]
      exact alone_flow hFlow (not_exists.mp hAcquire) hAlone
  · simp only [enterTrap, setStack, Function.update_self]
    exact alone_cons id (alone_cons id hAlone)
  · exact alone_enterInterrupt hAlone hHandler
  · have hPlaced := h.placed.step hStep
    obtain ⟨-, ⟨-, rfl⟩ | ⟨next, runqueue, -, hSwitch⟩⟩ := scheduler_ok hOk
    · exact hAlone
    · have hCur : t.curthread = some next := by
        obtain ⟨thread, inInterrupt, hEq⟩ :=
          mdSwitch_eq ({ s with curthread := some next, runqueue }.become .switched) next
        rw [hSwitch, hEq]
        rfl
      exact alone_of_waiting (hPlaced.curthread hCur).2

/-- **Step lemma.** -/
theorem Locking.step (h : Locking c s) {a : KernelAction} (hStep : Step c s a t) :
    Locking c t where
  placed := h.placed.step hStep
  disciplined := h.disciplined.step h.placed hStep
  releasing := h.releasing_step hStep
  others := h.others_step hStep
  alone := h.alone_step hStep

theorem locking_boot (c : KernelConfig) (me : Word) (initialCount : Word → Int)
    (tlb : List TlbEntry) (space : Word → AddrSpace) :
    Locking c (boot c me initialCount tlb space) where
  placed := placed_boot c me initialCount tlb space
  disciplined := disciplined_boot c me initialCount tlb space
  releasing := by
    have hReleased : Released [⟨c.splHigh, .outside []⟩] := released_cons.mpr ⟨id, released_nil⟩
    simpa [boot] using Releasing.released hReleased
  others u hu := by
    have hNe : u ≠ me := hu
    simpa [boot, hNe] using released_newStack c .outside
  alone := by
    have hAlone : Alone [⟨c.splHigh, .outside []⟩] := alone_cons id trivial
    simpa [boot] using hAlone

/-! ## What a step does to the objects -/

theorem Releasing.holds {holds : Word → Prop} {spl : Nat} {k : Word}
    (h : Releasing holds (⟨e, .releaseFree k spl⟩ :: rest)) : holds k := by
  cases h with
  | released hReleased => exact absurd trivial (released_cons.mp hReleased).1
  | frees hHolds => exact hHolds

/-- A lock that changes hands. -/
theorem objects_lock (s : Kernel) (k : Word) (x : Lock Word) :
    ({ s with lock := Function.update s.lock k x } : Kernel).objects =
      { s.objects with holder := Function.update s.objects.holder k x.owner } := by
  unfold objects
  rw [owner_update]

theorem Locking.curthread_acquireLoop (h : Locking c s) {k : Word} {spl : Nat}
    (hStack : s.stack s.running = ⟨e, .acquireLoop k spl⟩ :: rest) :
    s.curthread = some s.running := by
  have hAlone := h.alone
  rw [hStack] at hAlone
  have hBelow : waiting rest = 0 := hAlone.1 trivial
  rcases h.placed.home with ⟨hCur, -⟩ | ⟨-, hIdle⟩
  · exact hCur
  · rw [hStack, waiting_cons, hBelow] at hIdle
    cases hIdle

/-- Code outside changes none but through the functions above. -/
theorem objects_outside {saved : List Nat} {b : OutsideAction}
    (h : s.outside c saved b = some t) : t.objects = s.objects := by
  cases b with
  | splhigh | call | setNumprocesses | clearEntry | clearParent =>
    cases h
    rfl
  | splx | writeSpace | usermode | ret =>
    simp only [outside] at h
    split_ifs at h
    cases h
    rfl
  | setVmspace as =>
    obtain ⟨cur, -, rfl⟩ := Option.map_eq_some_iff.mp h
    rfl

theorem Locking.uses_exec (h : Locking c s) (hStack : s.stack s.running = ⟨e, code⟩ :: rest)
    (hExec : s.exec c o code = some (.ok t)) : s.objects.Uses (some s.running) t.objects := by
  by_cases hCode : code.Synchronizes
  · cases code with
    | pLoop sem spl =>
      simp only [exec, pLoop, Option.some.injEq] at hExec
      split_ifs at hExec with hZero hNeg
      · cases hExec
        exact .inl rfl
      · cases hExec
        exact .inr ⟨_, rfl, .down (Int.not_le.mp hNeg)⟩
    | V sem =>
      simp only [exec, V, Option.some.injEq] at hExec
      split_ifs at hExec with hNull hNeg
      cases hExec
      exact .inr ⟨_, rfl, .up (Int.not_le.mp hNeg)⟩
    | acquireLoop k spl =>
      cases hExec
      unfold acquireLoop
      split_ifs with hHeld
      · exact .inl rfl
      · have hFree : s.objects.holder k = none := if_pos (not_not.mp hHeld)
        have hCur := h.curthread_acquireLoop hStack
        refine .inr ⟨_, rfl, ?_⟩
        show s.objects.Use s.running ({ s with
          lock := Function.update s.lock k { held := 1, holder := s.curthread } } : Kernel).objects
        rw [objects_lock, hCur]
        exact .acquire hFree
    | releaseFree k spl =>
      have hReleasing := h.releasing
      rw [hStack] at hReleasing
      cases hExec
      refine .inr ⟨_, rfl, ?_⟩
      show s.objects.Use s.running ({ s with
        lock := Function.update s.lock k { s.lock k with held := 0 } } : Kernel).objects
      rw [objects_lock]
      exact .release hReleasing.holds
    | _ => cases hCode
  · exact .inl (objects_exec hCode hExec)

/-- **The kernel implements semaphores and locks.** -/
theorem implements (c : KernelConfig) :
    Implements (Step c) (Locking c) objects fun s _ => some s.running where
  keeps h hStep := h.step hStep
  uses {s t a} h hStep := by
    unfold Step Kernel.step at hStep
    cases a with
    | run o =>
      dsimp only at hStep
      split at hStep
      · rename_i hStack
        exact h.uses_exec hStack hStep
      · cases hStep
    | outside a =>
      dsimp only at hStep
      split at hStep
      · obtain ⟨u, hOutside, hEq⟩ := Option.map_eq_some_iff.mp hStep
        cases hEq
        exact .inl (objects_outside hOutside)
      · cases hStep
    | trap kind =>
      dsimp only at hStep
      split at hStep
      · cases hStep
        exact .inl rfl
      · split_ifs at hStep
        cases hStep
        exact .inl rfl
      · cases hStep
    | timer | device =>
      dsimp only at hStep
      split_ifs at hStep
      cases hStep
      exact .inl rfl

variable {me : Word} {initialCount : Word → Int} {tlb : List TlbEntry} {space : Word → AddrSpace}
  {tr : List KernelAction}

theorem locking_of_run (h : Run (Step c) (boot c me initialCount tlb space) tr s) :
    Locking c s :=
  h.invariant (locking_boot c me initialCount tlb space) fun _ _ _ hInv hStep => hInv.step hStep

/-- **Mutual exclusion.** A lock stays with its holder until the holder runs again. -/
theorem owner_of_run (h : Run (Step c) (boot c me initialCount tlb space) tr s) {u k : Word}
    (hOwner : (s.lock k).owner = some u) {tr' : List KernelAction}
    (hOthers : Run (Guarded (Step c) fun s _ => some s.running ≠ some u) s tr' t) :
    (t.lock k).owner = some u :=
  (implements c).holder (locking_of_run h) (f := objects) hOwner hOthers

/-- A semaphore that starts with no negative count never gets one. -/
theorem count_of_run (h : Run (Step c) (boot c me initialCount tlb space) tr s) {sem : Word}
    (hStart : 0 ≤ initialCount sem) : 0 ≤ s.count sem :=
  (implements c).nonneg (locking_boot c me initialCount tlb space) (f := objects) hStart h

end Kernel

end Windborne.OS161
