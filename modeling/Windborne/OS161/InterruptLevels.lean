import Windborne.OS161.KernelFailures
import Windborne.OS161.KernelStacks

/-!
# Interrupt levels and `in_interrupt`

`curspl` is one variable for all threads, and a thread that comes back from a switch finds it
as it was before. This is so because every stack that waits at a switch waits at `SPL_HIGH`,
and because every function keeps what it has saved on its own stack. `levelSpec` says for each
point of the code at which level it can be; the control flow is sound for it.
-/

namespace Windborne.OS161

open Library

/-- The levels that are in use. -/
def KernelConfig.Level (c : KernelConfig) (l : Nat) : Prop := l = 0 ∨ l = c.splHigh

/-- The functions that come back at the level at which they were called. -/
def Code.Keeps : Code → Prop
  | .user | .outside _ | .splx _ | .splxOn _ | .threadExit | .exited | .threadstart _
  | .threadEnable _ | .threadProbes _ _ | .afterFunc | .vmFault _ _ | .interrupted _
  | .forkVmspace _ _ | .forkPid _ _ | .forkParent _ | .forkTable | .enterUser => False
  | _ => True

/-- The level `l` at a point of a function that was called at `e`, and what the function has
saved there. -/
def Code.At (c : KernelConfig) (e l : Nat) : Code → Prop
  | .outside saved => ∀ spl ∈ saved, c.Level spl
  | .splx newspl | .splxOn newspl => c.Level newspl
  | .restore spl _ | .restoreOn spl _ | .pLoop _ spl | .acquireLoop _ spl | .releaseHeld _ spl
  | .releaseFree _ spl | .clockLoop _ spl => spl = e ∧ l = c.splHigh
  | .ret _ | .P _ | .V _ | .lockAcquire _ | .lockRelease _ | .lockDoIHold _ | .threadYield
  | .threadSleep _ | .slept | .threadWakeup _ | .wakeupLoop _ _ | .threadFork _ | .clocksleep _
  | .threadExit | .hardclock | .hardclockYield | .asActivate | .vmFault _ _ => l = e
  | .scheduler | .switched | .threadstart _ => l = c.splHigh ∧ e = c.splHigh
  | .trap _ _ savespl | .sysDone savespl | .faulted _ savespl | .fatal _ savespl
  | .trapDone savespl => savespl = e
  | .user | .exited | .threadEnable _ | .threadProbes _ _ | .afterFunc | .interrupted _
  | .forkVmspace _ _ | .forkPid _ _ | .forkParent _ | .forkTable | .enterUser => True

def levelSpec (c : KernelConfig) : LevelSpec Code Nat where
  inside code e l := c.Level e ∧ c.Level l ∧ code.At c e l
  leaves code e l := c.Level l ∧ (code.Keeps → l = e)

variable {c : KernelConfig} {e l l' : Nat} {code after callee : Code}

theorem level_zero (c : KernelConfig) : c.Level 0 := Or.inl rfl

theorem level_splHigh (c : KernelConfig) : c.Level c.splHigh := Or.inr rfl

/-! ## The control flow is sound -/

/-- A function that keeps its level goes on to code that keeps it. -/
theorem leaves_of_keeps {code' : Code} (hKeeps : code.Keeps → code'.Keeps) (m : Nat)
    (h : (levelSpec c).leaves code' e m) : (levelSpec c).leaves code e m :=
  ⟨h.1, fun hCode => h.2 (hKeeps hCode)⟩

theorem keeps_goTo {code' : Code} (hFlow : Flow c code l (.goTo code') l') (h : code.Keeps) :
    code'.Keeps := by
  cases hFlow with
  | _ => first | exact trivial | cases h

theorem keeps_call (hFlow : Flow c code l (.call after callee) l') (h : code.Keeps) :
    after.Keeps := by
  cases hFlow with
  | _ => first | exact trivial | cases h

theorem keeps_saving (oldspl : Nat) (h : code.Keeps) : (code.saving oldspl).Keeps := by
  cases code with
  | outside saved => cases h
  | _ => exact h

theorem keeps_answered (ans : Bool) (h : code.Keeps) : (code.answered ans).Keeps := by
  cases code with
  | releaseHeld | faulted =>
    cases ans with
    | false | true => exact trivial
  | _ => exact h

theorem inside_goTo {code' : Code} (hFlow : Flow c code l (.goTo code') l')
    (h : (levelSpec c).inside code e l) : (levelSpec c).inside code' e l' := by
  obtain ⟨hEntry, hLevel, hAt⟩ := h
  refine ⟨hEntry, ?_⟩
  cases hFlow with
  | splx | restore | pDone | acquireDone | clockDone | sleepIdle | slept | threadWakeup
  | wakeupNext | wakeupAgain | wakeupDone | forkFailed | hardclock | fatal | sysDone
  | badfaultfunc | outsideStep =>
    exact ⟨hLevel, hAt⟩
  | restoreOff | restoreOn =>
    have hBack := hAt.1
    subst hBack
    exact ⟨hEntry, rfl⟩
  | P | lockAcquire | clocksleep | releaseNothing | lockDoIHold | yieldIdle | threadFork
  | asActivate | vmFault =>
    exact ⟨level_splHigh c, hAt, rfl⟩
  | switched => exact ⟨hLevel, hAt.1.trans hAt.2.symm⟩
  | threadstart | forkVmspace | forkPid | forkParent | usermode => exact ⟨hLevel, trivial⟩
  | exitIdle => exact ⟨level_splHigh c, trivial⟩
  | enterUser => exact ⟨level_zero c, trivial⟩
  | splhigh => exact ⟨level_splHigh c, List.forall_mem_cons.mpr ⟨hLevel, hAt⟩⟩

/-- Where a function starts. -/
theorem inside_call (hFlow : Flow c code l (.call after callee) l')
    (h : (levelSpec c).inside code e l) : (levelSpec c).inside callee l' l' := by
  obtain ⟨-, hLevel, hAt⟩ := h
  have hHigh := level_splHigh c
  cases hFlow with
  | pSleep | acquireSleep | clockSleep | releaseFree | switchedActivate | threadstartActivate
  | threadProbes | afterFunc | hardclockWakeup | hardclockYield | fault | killCurthread
  | forkTable =>
    exact ⟨hLevel, hLevel, rfl⟩
  | V | lockRelease => exact ⟨hHigh, hHigh, rfl⟩
  | threadYield | threadExit => exact ⟨hHigh, hHigh, rfl, rfl⟩
  | threadSleep hSpl =>
    have hEq : l = c.splHigh := hLevel.resolve_left hSpl
    exact ⟨hLevel, hLevel, hEq, hEq⟩
  | threadEnable => exact ⟨hLevel, hLevel, level_zero c⟩
  | @probesDone func =>
    cases func with
    | outside => exact ⟨hLevel, hLevel, nofun⟩
    | mdForkentry => exact ⟨hLevel, hLevel, trivial⟩
  | syscall => exact ⟨hLevel, hLevel, nofun⟩
  | outsideSplx hSaved =>
    refine ⟨hLevel, hLevel, ?_⟩
    rcases hSaved with rfl | hSaved
    · exact level_zero c
    · exact hAt _ hSaved
  | outsideCall f =>
    cases f with
    | _ => exact ⟨hLevel, hLevel, rfl⟩

/-- Where its caller goes on. -/
theorem inside_back (hFlow : Flow c code l (.call after callee) l')
    (h : (levelSpec c).inside code e l) {m : Nat} (hLeaves : (levelSpec c).leaves callee l' m) :
    (levelSpec c).inside after e m := by
  obtain ⟨hEntry, hLevel, hAt⟩ := h
  obtain ⟨hBack, hKept⟩ := hLeaves
  refine ⟨hEntry, hBack, ?_⟩
  cases hFlow with
  | pSleep | acquireSleep | clockSleep | releaseFree =>
    exact ⟨hAt.1, (hKept trivial).trans hAt.2⟩
  | V | lockRelease | threadYield => exact ⟨hAt, hKept trivial⟩
  | threadSleep | hardclockWakeup | hardclockYield => exact (hKept trivial).trans hAt
  | switchedActivate => exact (hKept trivial).trans (hAt.1.trans hAt.2.symm)
  | threadExit | threadstartActivate | threadEnable | threadProbes | probesDone | afterFunc
  | forkTable => exact trivial
  | syscall | fault | killCurthread | outsideSplx | outsideCall => exact hAt

theorem inside_saving {f : Nat} (hOld : c.Level l) (h : (levelSpec c).inside code f l') :
    (levelSpec c).inside (code.saving l) f l' := by
  obtain ⟨hEntry, hLevel, hAt⟩ := h
  refine ⟨hEntry, hLevel, ?_⟩
  cases code with
  | outside saved => exact List.forall_mem_cons.mpr ⟨hOld, hAt⟩
  | _ => exact hAt

theorem inside_answered {f : Nat} (ans : Bool) (h : (levelSpec c).inside code f l) :
    (levelSpec c).inside (code.answered ans) f l := by
  obtain ⟨hEntry, hLevel, hAt⟩ := h
  refine ⟨hEntry, hLevel, ?_⟩
  cases code with
  | releaseHeld | faulted =>
    cases ans with
    | false | true => exact hAt
  | _ => exact hAt

theorem levelSpec_sound (c : KernelConfig) : (levelSpec c).Sound (Flow c) where
  goTo hFlow h := ⟨inside_goTo hFlow h, leaves_of_keeps (keeps_goTo hFlow)⟩
  call hFlow h := ⟨inside_call hFlow h, fun _ => inside_back hFlow h,
    leaves_of_keeps (keeps_call hFlow)⟩
  ret hFlow h := by
    obtain ⟨hEntry, hLevel, hAt⟩ := h
    cases hFlow with
    | splxOff | splxOn =>
      refine ⟨⟨hAt, nofun⟩, fun d f hInside => ?_⟩
      exact ⟨inside_saving hLevel hInside, leaves_of_keeps (keeps_saving _)⟩
    | ret =>
      refine ⟨⟨hLevel, fun _ => hAt⟩, fun d f hInside => ?_⟩
      exact ⟨inside_answered _ hInside, leaves_of_keeps (keeps_answered _)⟩
    | vmFaultFailed =>
      refine ⟨⟨level_splHigh c, nofun⟩, fun d f hInside => ?_⟩
      exact ⟨inside_answered _ hInside, leaves_of_keeps (keeps_answered _)⟩
    | trapDone =>
      have hBack : _ = _ := hAt
      subst hBack
      exact ⟨⟨hEntry, fun _ => rfl⟩, fun d f hInside => ⟨hInside, fun _ hm => hm⟩⟩
    | interrupted | outsideRet =>
      exact ⟨⟨hLevel, nofun⟩, fun d f hInside => ⟨hInside, fun _ hm => hm⟩⟩

theorem level_of_flow {E : Effect Code} (hFlow : Flow c code l E l')
    (h : (levelSpec c).inside code e l) : c.Level l' := by
  cases E with
  | goTo code' => exact (inside_goTo hFlow h).2.1
  | call after callee => exact (inside_call hFlow h).2.1
  | ret answer => exact ((levelSpec_sound c).ret hFlow h).1.1

namespace Kernel

variable {s t : Kernel} {rest : List Call}

/-! ## Levels in all states -/

structure Disciplined (c : KernelConfig) (s : Kernel) : Prop where
  running : Balanced (levelSpec c) (s.stack s.running) s.curspl
  others : ∀ u, u ≠ s.running → Balanced (levelSpec c) (s.stack u) c.splHigh
  level : c.Level s.curspl

theorem balanced_newStack (c : KernelConfig) (func : ThreadFunc) :
    Balanced (levelSpec c) (newStack c func) c.splHigh := by
  refine ⟨⟨level_splHigh c, level_splHigh c, rfl, rfl⟩, ?_⟩
  intro m _
  exact trivial

/-- A trap on top of a stack. -/
theorem balanced_trap {stack : List Call} {kind : TrapKind} {iskern : Bool} (hLevel : c.Level l)
    (h : Balanced (levelSpec c) stack l) : Balanced (levelSpec c)
      (⟨c.splHigh, .splx l⟩ :: ⟨l, .trap kind iskern l⟩ :: stack) c.splHigh := by
  refine Balanced.push ⟨level_splHigh c, level_splHigh c, hLevel⟩ ?_
  intro m hm
  refine Balanced.push ⟨hLevel, hm.1, rfl⟩ ?_
  intro n hn
  rwa [hn.2 trivial]

/-- An interrupt on top of a stack. -/
theorem balanced_interrupt {stack : List Call} {handler : Code} {oldIn : Nat}
    (hHandler : handler = .hardclock ∨ handler = .outside []) (hLevel : c.Level l)
    (h : Balanced (levelSpec c) stack l) : Balanced (levelSpec c)
      (⟨c.splHigh, handler⟩ :: ⟨c.splHigh, .interrupted oldIn⟩ :: ⟨l, .trapDone l⟩ :: stack)
      c.splHigh := by
  have hInside : (levelSpec c).inside handler c.splHigh c.splHigh := by
    refine ⟨level_splHigh c, level_splHigh c, ?_⟩
    rcases hHandler with rfl | rfl
    · exact rfl
    · nofun
  refine Balanced.push hInside ?_
  intro m hm
  refine Balanced.push ⟨level_splHigh c, hm.1, trivial⟩ ?_
  intro n hn
  refine Balanced.push ⟨hLevel, hn.1, rfl⟩ ?_
  intro k hk
  rwa [hk.2 trivial]

/-- A step on the stack of the running thread. -/
theorem Disciplined.setStack (h : Disciplined c s) {stack : List Call}
    (hStack : t.stack = Function.update s.stack s.running stack) (hRunning : t.running = s.running)
    (hBalanced : Balanced (levelSpec c) stack t.curspl) (hLevel : c.Level t.curspl) :
    Disciplined c t where
  running := by rwa [hRunning, hStack, Function.update_self]
  others u hu := by
    rw [hRunning] at hu
    rw [hStack, Function.update_of_ne hu]
    exact h.others u hu
  level := hLevel

/-- **Step lemma.** -/
theorem Disciplined.step (h : Disciplined c s) (hPlaced : s.Placed) {a : KernelAction}
    (hStep : Step c s a t) : Disciplined c t := by
  obtain ⟨e, code, rest, E, hStack, hFlow, hAdvances, -⟩ | ⟨kind, iskern, -, -, -, rfl, -⟩ |
    ⟨handler, hHandler, -, rfl⟩ | ⟨e, rest, hStack, hOk⟩ := step_flow hPlaced hStep
  · have hBalanced := h.running
    rw [hStack] at hBalanced
    constructor
    · rw [hAdvances.running, hAdvances.stack, hStack]
      exact hBalanced.effect (levelSpec_sound c) hFlow
    · intro u hu
      rw [hAdvances.running] at hu
      rcases hAdvances.others u hu with ⟨hSame, -⟩ | ⟨⟨func, hNew⟩, -⟩
      · rw [hSame]
        exact h.others u hu
      · rw [hNew]
        exact balanced_newStack c func
    · exact level_of_flow hFlow hBalanced.inside
  · exact h.setStack rfl rfl (balanced_trap h.level h.running) (level_splHigh c)
  · exact h.setStack rfl rfl (balanced_interrupt hHandler h.level h.running) (level_splHigh c)
  · obtain rfl | ⟨hSpl, hStacks, -⟩ := scheduler_stacks hStack hOk
    · exact h
    have hBalanced := h.running
    rw [hStack] at hBalanced
    have hHigh : s.curspl = c.splHigh := hBalanced.inside.2.2.1
    have hAll : ∀ u, Balanced (levelSpec c) (t.stack u) c.splHigh := by
      intro u
      rw [hStacks]
      by_cases hu : u = s.running
      · rw [hu, Function.update_self, ← hHigh]
        exact hBalanced.goTo hBalanced.inside fun _ hm => hm
      · rw [Function.update_of_ne hu]
        exact h.others u hu
    constructor
    · rw [hSpl, hHigh]
      exact hAll t.running
    · exact fun u _ => hAll u
    · rw [hSpl]
      exact h.level

/-! ## `in_interrupt` in all states -/

/-- What a call of `mips_interrupt` has saved. -/
def oldIn : Code → Option Nat
  | .interrupted oldIn => some oldIn
  | _ => none

/-- What the calls of `mips_interrupt` on a stack have saved, the innermost first. -/
def interrupts (stack : List Call) : List Nat := stack.filterMap fun f => oldIn f.code

/-- The value of `in_interrupt` over such calls. -/
def mark (saved : List Nat) : Nat := if saved = [] then 0 else 1

def Nested : List Nat → Prop
  | [] => True
  | old :: saved => old = mark saved ∧ Nested saved

/-- `in_interrupt` goes with the stack. -/
def Marked (inInterrupt : Nat) (stack : List Call) : Prop :=
  inInterrupt = mark (interrupts stack) ∧ Nested (interrupts stack)

structure InterruptsMarked (s : Kernel) : Prop where
  running : Marked s.inInterrupt (s.stack s.running)
  others : ∀ u, u ≠ s.running → Marked (s.thread u).pcbIninterrupt (s.stack u)

theorem interrupts_cons (e : Nat) (code : Code) (rest : List Call) :
    interrupts (⟨e, code⟩ :: rest) = (oldIn code).toList ++ interrupts rest := by
  unfold interrupts
  rw [List.filterMap_cons]
  cases h : oldIn code with
  | none => rfl
  | some old => rfl

theorem oldIn_goTo {code' : Code} (hFlow : Flow c code l (.goTo code') l') :
    oldIn code' = none := by
  cases hFlow with
  | _ => exact rfl

theorem oldIn_call (hFlow : Flow c code l (.call after callee) l') :
    oldIn after = none ∧ oldIn callee = none := by
  cases hFlow with
  | @probesDone func =>
    cases func with
    | outside | mdForkentry => exact ⟨rfl, rfl⟩
  | outsideCall f =>
    cases f with
    | _ => exact ⟨rfl, rfl⟩
  | _ => exact ⟨rfl, rfl⟩

theorem oldIn_ret {answer : Code → Code} (hFlow : Flow c code l (.ret answer) l') (d : Code) :
    oldIn (answer d) = oldIn d := by
  cases hFlow with
  | splxOff | splxOn =>
    cases d with
    | _ => exact rfl
  | @ret ans =>
    cases ans with
    | false | true =>
      cases d with
      | _ => exact rfl
  | vmFaultFailed =>
    cases d with
    | _ => exact rfl
  | trapDone | interrupted | outsideRet => exact rfl

/-- A function does not leave an interrupt but by coming back from `mips_interrupt`. -/
theorem interrupts_flow {E : Effect Code} (hFlow : Flow c code l E l') (e : Nat)
    (rest : List Call) : interrupts (E.apply l' (⟨e, code⟩ :: rest)) = interrupts rest := by
  cases E with
  | goTo code' =>
    show interrupts (⟨e, code'⟩ :: rest) = _
    rw [interrupts_cons, oldIn_goTo hFlow]
    rfl
  | call after callee =>
    obtain ⟨hAfter, hCallee⟩ := oldIn_call hFlow
    show interrupts (⟨l', callee⟩ :: ⟨e, after⟩ :: rest) = _
    rw [interrupts_cons, interrupts_cons, hAfter, hCallee]
    rfl
  | ret answer =>
    cases rest with
    | nil => rfl
    | cons f rest =>
      show interrupts (⟨f.entry, answer f.code⟩ :: rest) = interrupts (⟨f.entry, f.code⟩ :: rest)
      rw [interrupts_cons, interrupts_cons, oldIn_ret hFlow]

/-- A statement changes `in_interrupt` as it changes the stack. -/
theorem Marked.flow {inInterrupt : Nat} {E : Effect Code}
    (h : Marked inInterrupt (⟨e, code⟩ :: rest)) (hFlow : Flow c code l E l') :
    Marked (code.inInterrupt inInterrupt) (E.apply l' (⟨e, code⟩ :: rest)) := by
  unfold Marked
  rw [interrupts_flow hFlow]
  unfold Marked at h
  rw [interrupts_cons] at h
  cases code with
  | interrupted old => exact h.2
  | _ => exact h

/-- **Step lemma.** -/
theorem InterruptsMarked.step (h : s.InterruptsMarked) (hPlaced : s.Placed) {a : KernelAction}
    (hStep : Step c s a t) : t.InterruptsMarked := by
  obtain ⟨e, code, rest, E, hStack, hFlow, hAdvances, hIn, -⟩ | ⟨kind, iskern, -, -, -, rfl, -⟩ |
    ⟨handler, hHandler, -, rfl⟩ | ⟨e, rest, hStack, hOk⟩ := step_flow hPlaced hStep
  · have hMarked := h.running
    rw [hStack] at hMarked
    constructor
    · rw [hAdvances.running, hAdvances.stack, hStack, hIn]
      exact hMarked.flow hFlow
    · intro u hu
      rw [hAdvances.running] at hu
      rcases hAdvances.others u hu with ⟨hSame, hPcb⟩ | ⟨⟨func, hNew⟩, hPcb⟩
      · rw [hSame, hPcb]
        exact h.others u hu
      · rw [hNew, hPcb]
        exact ⟨rfl, trivial⟩
  · constructor
    · simp only [enterTrap, setStack, Function.update_self]
      exact h.running
    · intro u hu
      have hNe : u ≠ s.running := hu
      simp only [enterTrap, setStack, Function.update_of_ne hNe]
      exact h.others u hu
  · constructor
    · simp only [enterInterrupt, setStack, Function.update_self]
      have hOld : oldIn handler = none := by
        rcases hHandler with rfl | rfl
        · rfl
        · rfl
      unfold Marked
      rw [interrupts_cons, interrupts_cons, interrupts_cons, hOld]
      exact ⟨rfl, h.running⟩
    · intro u hu
      have hNe : u ≠ s.running := hu
      simp only [enterInterrupt, setStack, Function.update_of_ne hNe]
      exact h.others u hu
  · obtain rfl | ⟨-, hStacks, hCases⟩ := scheduler_stacks hStack hOk
    · exact h
    have hMarked := h.running
    have hOld : Marked s.inInterrupt (t.stack s.running) := by
      rw [hStacks, Function.update_self]
      unfold Marked at hMarked ⊢
      rw [hStack, interrupts_cons] at hMarked
      rw [interrupts_cons]
      exact hMarked
    have hOther : ∀ u, u ≠ s.running → Marked (s.thread u).pcbIninterrupt (t.stack u) := by
      intro u hu
      rw [hStacks, Function.update_of_ne hu]
      exact h.others u hu
    rcases hCases with ⟨hRunning, hIn, hThread⟩ | ⟨hNe, hIn, hThread⟩
    · constructor
      · rw [hRunning, hIn]
        exact hOld
      · intro u hu
        rw [hRunning] at hu
        rw [hThread]
        exact hOther u hu
    · constructor
      · rw [hIn]
        exact hOther t.running hNe
      · intro u _
        rw [hThread]
        by_cases hEq : u = s.running
        · subst hEq
          simp only [setThread, Function.update_self]
          exact hOld
        · simp only [setThread, Function.update_of_ne hEq]
          exact hOther u hEq

/-- Some activation of the running thread is in `mips_interrupt`. -/
def InInterrupt (s : Kernel) : Prop :=
  ∃ f ∈ s.stack s.running, ∃ old, f.code = .interrupted old

theorem InterruptsMarked.inInterrupt_iff (h : s.InterruptsMarked) :
    s.inInterrupt ≠ 0 ↔ s.InInterrupt := by
  have hSome : ∀ code old, oldIn code = some old ↔ code = .interrupted old := by
    intro code old
    cases code with
    | _ => simp [oldIn]
  have hMem : s.InInterrupt ↔ interrupts (s.stack s.running) ≠ [] := by
    unfold InInterrupt interrupts
    simp only [ne_eq, List.filterMap_eq_nil_iff, hSome, Option.eq_none_iff_forall_ne_some,
      not_forall, not_not, exists_prop]
  rw [hMem, h.running.1]
  unfold mark
  split_ifs with hNone
  · simp [hNone]
  · simp [hNone]

/-! ## Calls that come back -/

/-- A call that stays on a stack keeps its level. -/
theorem entries_step (hPlaced : s.Placed) {a : KernelAction} (hStep : Step c s a t) (u : Word) :
    entries (t.stack u) <+: entries (s.stack u) ∨ entries (s.stack u) <+: entries (t.stack u) ∨
      ∃ func, t.stack u = newStack c func := by
  have hSame : t.stack u = s.stack u → entries (t.stack u) <+: entries (s.stack u) := by
    intro hEq
    exact hEq ▸ List.prefix_refl _
  by_cases hu : u = s.running
  · subst hu
    obtain ⟨e, code, rest, E, hStack, hFlow, hAdvances, -⟩ | ⟨kind, iskern, -, -, -, rfl, -⟩ |
      ⟨handler, hHandler, -, rfl⟩ | ⟨e, rest, hStack, hOk⟩ := step_flow hPlaced hStep
    · rw [hAdvances.stack]
      exact (entries_apply E _ _).imp_right Or.inl
    · right
      left
      simp only [enterTrap, setStack, Function.update_self, entries_cons, List.append_assoc]
      exact List.prefix_append _ _
    · right
      left
      simp only [enterInterrupt, setStack, Function.update_self, entries_cons, List.append_assoc]
      exact List.prefix_append _ _
    · left
      obtain rfl | ⟨-, hStacks, -⟩ := scheduler_stacks hStack hOk
      · exact List.prefix_refl _
      · simp only [hStacks, Function.update_self, hStack, entries_cons, List.prefix_refl]
  · obtain ⟨e, code, rest, E, hStack, hFlow, hAdvances, -⟩ | ⟨kind, iskern, -, -, -, rfl, -⟩ |
      ⟨handler, hHandler, -, rfl⟩ | ⟨e, rest, hStack, hOk⟩ := step_flow hPlaced hStep
    · rcases hAdvances.others u hu with ⟨hEq, -⟩ | ⟨hNew, -⟩
      · exact Or.inl (hSame hEq)
      · exact Or.inr (Or.inr hNew)
    · exact Or.inl (hSame (Function.update_of_ne hu ..))
    · exact Or.inl (hSame (Function.update_of_ne hu ..))
    · obtain rfl | ⟨-, hStacks, -⟩ := scheduler_stacks hStack hOk
      · exact Or.inl (List.prefix_refl _)
      · exact Or.inl (hSame (by rw [hStacks, Function.update_of_ne hu]))

/-- The levels of the calls from the second on stay for as long as the calls do. -/
theorem entry_of_run {r : Word} {n : Nat} {tr : List KernelAction} (hPlaced : s.Placed)
    (hCalled : n + 1 < (s.stack r).length)
    (h : Run (Keeping (Step c) fun u => n + 1 < (u.stack r).length) s tr t) :
    (entries (t.stack r))[n + 1]? = (entries (s.stack r))[n + 1]? := by
  have hInv := h.invariant (I := fun u => u.Placed ∧ n + 1 < (u.stack r).length ∧
      (entries (u.stack r))[n + 1]? = (entries (s.stack r))[n + 1]?) ⟨hPlaced, hCalled, rfl⟩ ?_
  · exact hInv.2.2
  intro u a v hInv hStep
  obtain ⟨hPlaced, hLength, hEntry⟩ := hInv
  obtain ⟨hStep, hLater⟩ := hStep
  refine ⟨hPlaced.step hStep, hLater, ?_⟩
  rcases entries_step hPlaced hStep r with hPrefix | hPrefix | ⟨func, hNew⟩
  · rw [entries_getElem? (Or.inl hPrefix) hLength hLater, hEntry]
  · rw [entries_getElem? (Or.inr hPrefix) hLength hLater, hEntry]
  · rw [hNew] at hLater
    simp [newStack] at hLater

theorem entries_getElem?_innermost (f : Call) (rest : List Call) :
    (entries (f :: rest))[rest.length]? = some f.entry := by
  rw [entries_cons]
  have hLength : (entries rest).length = rest.length := by simp [entries]
  rw [← hLength]
  exact List.getElem?_concat_length

/-! ## Interrupt discipline -/

theorem disciplined_boot (c : KernelConfig) (me : Word) (initialCount : Word → Int)
    (tlb : List TlbEntry) (space : Word → AddrSpace) :
    Disciplined c (boot c me initialCount tlb space) where
  running := by
    have hBalanced : Balanced (levelSpec c) [⟨c.splHigh, .outside []⟩] c.splHigh :=
      ⟨⟨level_splHigh c, level_splHigh c, nofun⟩, fun _ _ => trivial⟩
    simpa [boot] using hBalanced
  others u hu := by
    have hNe : u ≠ me := hu
    simpa [boot, hNe] using balanced_newStack c .outside
  level := level_splHigh c

theorem interruptsMarked_boot (c : KernelConfig) (me : Word) (initialCount : Word → Int)
    (tlb : List TlbEntry) (space : Word → AddrSpace) :
    (boot c me initialCount tlb space).InterruptsMarked where
  running := by
    have hMarked : Marked 0 [⟨c.splHigh, .outside []⟩] := ⟨rfl, trivial⟩
    simpa [boot] using hMarked
  others u hu := by
    have hNe : u ≠ me := hu
    have hMarked : Marked 0 (newStack c .outside) := ⟨rfl, trivial⟩
    simpa [boot, hNe, newThread] using hMarked

/-- Where a function has just been called, the level is that of the call. -/
theorem Disciplined.called (h : Disciplined c s) {f : KernelFunc}
    (hStack : s.stack s.running = ⟨e, f.code⟩ :: rest) : s.curspl = e := by
  have hBalanced := h.running
  rw [hStack] at hBalanced
  have hAt := hBalanced.inside.2.2
  cases f with
  | _ => exact hAt

/-- **Interrupt discipline.** A switch is at `SPL_HIGH`; a call that comes back does so at the
level at which it was called, whatever has run in the meantime; and `in_interrupt` tells whether
the running thread is in an interrupt, so that it stops `P` and `thread_sleep` only there. -/
theorem interrupt_discipline {me : Word} {initialCount : Word → Int} {tlb : List TlbEntry}
    {space : Word → AddrSpace} {tr : List KernelAction}
    (h : Run (Step c) (boot c me initialCount tlb space) tr s) :
    (∀ e rest, s.stack s.running = ⟨e, .scheduler⟩ :: rest → s.curspl = c.splHigh) ∧
    (∀ (f : KernelFunc) e caller rest, s.stack s.running = ⟨e, f.code⟩ :: caller :: rest →
      ∀ tr' t,
        Run (Keeping (Step c) fun u => rest.length + 1 < (u.stack s.running).length) s tr' t →
        t.running = s.running → ∀ e' ans rest', t.stack t.running = ⟨e', .ret ans⟩ :: rest' →
          rest'.length = rest.length + 1 → t.curspl = s.curspl) ∧
    (s.inInterrupt ≠ 0 ↔ s.InInterrupt) ∧
    ∀ a, s.step c a = some (.error .inInterrupt) → s.InInterrupt := by
  have hBoth : ∀ {tr s}, Run (Step c) (boot c me initialCount tlb space) tr s →
      s.Placed ∧ Disciplined c s ∧ s.InterruptsMarked := by
    intro tr s h
    apply h.invariant
    · exact ⟨placed_boot .., disciplined_boot .., interruptsMarked_boot ..⟩
    · intro t a u hInv hStep
      exact ⟨hInv.1.step hStep, hInv.2.1.step hInv.1 hStep, hInv.2.2.step hInv.1 hStep⟩
  obtain ⟨hPlaced, hDisciplined, hMarked⟩ := hBoth h
  refine ⟨?_, ?_, hMarked.inInterrupt_iff, ?_⟩
  · intro e rest hStack
    have hBalanced := hDisciplined.running
    rw [hStack] at hBalanced
    exact hBalanced.inside.2.2.1
  · intro f e caller rest hStack tr' t hRun hSame e' ans rest' hRet hLength
    have hAfter := (hBoth (h.append (hRun.mono fun _ _ _ hStep => hStep.1))).2.1.running
    rw [hRet] at hAfter
    have hEntry := entry_of_run hPlaced (by simp [hStack]) hRun
    rw [hSame] at hRet
    rw [hStack, hRet, ← hLength, entries_getElem?_innermost, hLength] at hEntry
    have hCalled : (entries (⟨e, f.code⟩ :: caller :: rest : List Call))[rest.length + 1]? =
        some e := entries_getElem?_innermost ⟨e, f.code⟩ (caller :: rest)
    rw [hCalled] at hEntry
    rw [hDisciplined.called hStack, ← Option.some_inj.mp hEntry]
    exact hAfter.inside.2.2
  · intro a hError
    obtain ⟨o, e, code, rest, -, -, hStops⟩ := step_error hError
    rw [← hMarked.inInterrupt_iff]
    cases hStops with
    | sleepInInterrupt hIn => exact hIn
    | pInInterrupt hIn => exact hIn
    | other hAdd hIn => exact absurd rfl hIn

def ready : KernelAction := .run { memory := true }

/-- A thread turns interrupts on and forks another one, up to a call of `thread_yield`. -/
def upToYield : List KernelAction :=
  [.outside (.splx 0), ready, ready, .outside (.call (.threadFork .outside)),
    .run { memory := true, fork := .started 2 }, ready, ready, ready,
    .outside (.call .threadYield)]

/-- The other thread starts and yields, until the call comes back. -/
def duringYield : List KernelAction :=
  [ready, ready, ready, ready, ready, ready, ready, .outside (.call .threadYield), ready, ready,
    ready, ready, ready, ready]

/-- A timer interrupt comes in while the processor idles, because the only thread sleeps. And a call
of `thread_yield` with interrupts on comes back with interrupts on, after another thread has run. -/
theorem interrupt_discipline_idle :
    (∃ s : Kernel, s.curthread = none ∧ s.sleepers = [1] ∧ s.inInterrupt = 1 ∧ s.InInterrupt) ∧
    ∃ s t : Kernel, s.stack 1 = [⟨0, .threadYield⟩, ⟨15, .outside [15]⟩] ∧ s.curspl = 0 ∧
      t.stack 1 = [⟨0, .ret false⟩, ⟨15, .outside [15]⟩] ∧ t.runqueue = [2] ∧ t.curspl = 0 := by
  constructor
  · have hEnd : ([.outside (.call (.threadSleep 9)), .run { memory := true }, .timer].foldlM
        (okStep (step sampleConfig)) (boot sampleConfig 1 (fun _ => 0) [] fun _ => asCreate)).map
          (fun s => (s.curthread, s.sleepers, s.inInterrupt)) = some (none, [1], 1) := by
      decide +kernel
    obtain ⟨s, hs, hFields⟩ := Option.map_eq_some_iff.mp hEnd
    simp only [Prod.mk.injEq] at hFields
    obtain ⟨hCur, hSleepers, hIn⟩ := hFields
    obtain ⟨-, -, hIff, -⟩ := interrupt_discipline (Run.of_okStep hs)
    exact ⟨s, hCur, hSleepers, hIn, hIff.mp (by simp [hIn])⟩
  · have hEnds : (upToYield.foldlM (okStep (step sampleConfig))
        (boot sampleConfig 1 (fun _ => 0) [] fun _ => asCreate)).bind (fun s =>
          (duringYield.foldlM (fun u a => (okStep (step sampleConfig) u a).filter fun u =>
            0 + 1 < (u.stack 1).length) s).map fun t =>
              ((s.stack 1, s.curspl, s.running), (t.stack 1, t.runqueue, t.running))) =
        some (([⟨0, .threadYield⟩, ⟨15, .outside [15]⟩], 0, 1),
          ([⟨0, .ret false⟩, ⟨15, .outside [15]⟩], [2], 1)) := by
      decide +kernel
    obtain ⟨s, hs, hLater⟩ := Option.bind_eq_some_iff.mp hEnds
    obtain ⟨t, ht, hFields⟩ := Option.map_eq_some_iff.mp hLater
    simp only [Prod.mk.injEq] at hFields
    obtain ⟨⟨hStack, hLevel, hRunning⟩, hAfter, hQueue, hBack⟩ := hFields
    obtain ⟨-, hReturns, -⟩ := interrupt_discipline (Run.of_okStep hs)
    rw [hRunning] at hReturns
    have hRun := (Run.keeping_of_okStep ht).mono fun _ _ _ hStep =>
      And.imp_right of_decide_eq_true hStep
    have hSame := hReturns .threadYield 0 ⟨15, .outside [15]⟩ [] hStack _ t hRun hBack 0 false
      [⟨15, .outside [15]⟩] (by rw [hBack, hAfter]) rfl
    exact ⟨s, t, hStack, hLevel, hAfter, hQueue, hSame.trans hLevel⟩

end Kernel

end Windborne.OS161
