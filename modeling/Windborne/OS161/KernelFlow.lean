import Mathlib.Tactic.SplitIfs
import Windborne.Library.Results
import Windborne.OS161.Kernel

/-!
# The control flow of the kernel

What an activation does next depends on the state of the kernel; here is only where it can go,
which functions it can call and at which level it comes back. Few functions move threads, and
few write to the memory. For the others one lemma says what a statement does: at most it changes
counters and locks, and then it follows the flow on the stack of the running thread.
-/

namespace Windborne.OS161

open Library

/-- The functions that move threads. -/
def Code.Moves : Code → Prop
  | .threadYield | .threadSleep _ | .wakeupLoop _ _ | .threadExit | .threadFork _ | .scheduler
  | .switched => True
  | _ => False

theorem Code.ne_scheduler_of_not_moves {code : Code} (h : ¬code.Moves) : code ≠ .scheduler := by
  rintro rfl
  exact h trivial

/-- The functions that write to thread structures, the process table or the TLB, apart from
those that move threads. -/
def Code.Writes : Code → Prop
  | .slept | .asActivate | .vmFault _ _ | .forkVmspace _ _ | .forkPid _ _ | .forkParent _
  | .forkTable => True
  | _ => False

/-- `Flow c code l E l'`: at `code` with level `l`, the effect `E` can come next, and `l'` is the
level after it. -/
inductive Flow (c : KernelConfig) : Code → Nat → Effect Code → Nat → Prop
  | splx {newspl l : Nat} : Flow c (.splx newspl) l (.goTo (.splxOn newspl)) l
  | splxOff {newspl l : Nat} : Flow c (.splx newspl) l (.ret (Code.saving l)) newspl
  | splxOn {newspl l : Nat} : Flow c (.splxOn newspl) l (.ret (Code.saving l)) newspl
  | restore {spl l : Nat} {ans : Bool} :
      Flow c (.restore spl ans) l (.goTo (.restoreOn spl ans)) l
  | restoreOff {spl l : Nat} {ans : Bool} : Flow c (.restore spl ans) l (.goTo (.ret ans)) spl
  | restoreOn {spl l : Nat} {ans : Bool} : Flow c (.restoreOn spl ans) l (.goTo (.ret ans)) spl
  | ret {ans : Bool} {l : Nat} : Flow c (.ret ans) l (.ret (Code.answered ans)) l
  | P {sem : Word} {l : Nat} : Flow c (.P sem) l (.goTo (.pLoop sem l)) c.splHigh
  | pSleep {sem : Word} {spl l : Nat} :
      Flow c (.pLoop sem spl) l (.call (.pLoop sem spl) (.threadSleep sem)) l
  | pDone {sem : Word} {spl l : Nat} :
      Flow c (.pLoop sem spl) l (.goTo (.restore spl false)) l
  | V {sem : Word} {l : Nat} :
      Flow c (.V sem) l (.call (.restore l false) (.threadWakeup sem)) c.splHigh
  | lockAcquire {k : Word} {l : Nat} :
      Flow c (.lockAcquire k) l (.goTo (.acquireLoop k l)) c.splHigh
  | acquireSleep {k : Word} {spl l : Nat} :
      Flow c (.acquireLoop k spl) l (.call (.acquireLoop k spl) (.threadSleep k)) l
  | acquireDone {k : Word} {spl l : Nat} :
      Flow c (.acquireLoop k spl) l (.goTo (.restore spl false)) l
  | lockRelease {k : Word} {l : Nat} :
      Flow c (.lockRelease k) l (.call (.releaseHeld k l) (.lockDoIHold k)) c.splHigh
  | releaseNothing {k : Word} {l : Nat} :
      Flow c (.lockRelease k) l (.goTo (.restore l false)) c.splHigh
  | releaseFree {k : Word} {spl l : Nat} :
      Flow c (.releaseFree k spl) l (.call (.restore spl false) (.threadWakeup k)) l
  | lockDoIHold {k : Word} {l : Nat} {ans : Bool} :
      Flow c (.lockDoIHold k) l (.goTo (.restore l ans)) c.splHigh
  | threadYield {l : Nat} : Flow c .threadYield l (.call (.restore l false) .scheduler) c.splHigh
  | yieldIdle {l : Nat} : Flow c .threadYield l (.goTo (.restore l false)) c.splHigh
  | threadSleep {addr : Word} {l : Nat} (hSpl : l ≠ 0) :
      Flow c (.threadSleep addr) l (.call .slept .scheduler) l
  | sleepIdle {addr : Word} {l : Nat} : Flow c (.threadSleep addr) l (.goTo .slept) l
  | slept {l : Nat} : Flow c .slept l (.goTo (.ret false)) l
  | threadWakeup {addr : Word} {l : Nat} :
      Flow c (.threadWakeup addr) l (.goTo (.wakeupLoop addr 0)) l
  | wakeupNext {addr : Word} {i l : Nat} :
      Flow c (.wakeupLoop addr i) l (.goTo (.wakeupLoop addr (i + 1))) l
  | wakeupAgain {addr : Word} {i l : Nat} :
      Flow c (.wakeupLoop addr i) l (.goTo (.wakeupLoop addr i)) l
  | wakeupDone {addr : Word} {i l : Nat} : Flow c (.wakeupLoop addr i) l (.goTo (.ret false)) l
  | threadExit {l : Nat} : Flow c .threadExit l (.call .exited .scheduler) c.splHigh
  | exitIdle {l : Nat} : Flow c .threadExit l (.goTo .exited) c.splHigh
  | forkFailed {func : ThreadFunc} {l : Nat} : Flow c (.threadFork func) l (.goTo (.ret false)) l
  | threadFork {func : ThreadFunc} {l : Nat} {ans : Bool} :
      Flow c (.threadFork func) l (.goTo (.restore l ans)) c.splHigh
  | switched {l : Nat} : Flow c .switched l (.goTo (.ret false)) l
  | switchedActivate {l : Nat} : Flow c .switched l (.call (.ret false) .asActivate) l
  | threadstart {func : ThreadFunc} {l : Nat} :
      Flow c (.threadstart func) l (.goTo (.threadEnable func)) l
  | threadstartActivate {func : ThreadFunc} {l : Nat} :
      Flow c (.threadstart func) l (.call (.threadEnable func) .asActivate) l
  | threadEnable {func : ThreadFunc} {n l : Nat} :
      Flow c (.threadEnable func) l (.call (.threadProbes func n) (.splx 0)) l
  | threadProbes {func : ThreadFunc} {n l : Nat} :
      Flow c (.threadProbes func (n + 1)) l (.call (.threadProbes func n) .threadYield) l
  | probesDone {func : ThreadFunc} {l : Nat} :
      Flow c (.threadProbes func 0) l (.call .afterFunc func.code) l
  | afterFunc {l : Nat} : Flow c .afterFunc l (.call .afterFunc .threadExit) l
  | clocksleep {numSecs : Int} {l : Nat} :
      Flow c (.clocksleep numSecs) l (.goTo (.clockLoop numSecs l)) c.splHigh
  | clockSleep {numSecs : Int} {spl l : Nat} : Flow c (.clockLoop numSecs spl) l
      (.call (.clockLoop (numSecs - 1) spl) (.threadSleep c.lbolt)) l
  | clockDone {numSecs : Int} {spl l : Nat} :
      Flow c (.clockLoop numSecs spl) l (.goTo (.restore spl false)) l
  | hardclock {l : Nat} : Flow c .hardclock l (.goTo .hardclockYield) l
  | hardclockWakeup {l : Nat} :
      Flow c .hardclock l (.call .hardclockYield (.threadWakeup c.lbolt)) l
  | hardclockYield {l : Nat} : Flow c .hardclockYield l (.call (.ret false) .threadYield) l
  | asActivate {l : Nat} : Flow c .asActivate l (.goTo (.restore l false)) c.splHigh
  | vmFault {faulttype : FaultType} {vaddr : Word} {l : Nat} {ans : Bool} :
      Flow c (.vmFault faulttype vaddr) l (.goTo (.restore l ans)) c.splHigh
  | vmFaultFailed {faulttype : FaultType} {vaddr : Word} {l : Nat} :
      Flow c (.vmFault faulttype vaddr) l (.ret (Code.answered false)) c.splHigh
  | syscall {iskern : Bool} {savespl l : Nat} : Flow c (.trap .syscall iskern savespl) l
      (.call (.sysDone savespl) (.outside [])) l
  | fault {faulttype : FaultType} {vaddr : Word} {iskern : Bool} {savespl l : Nat} :
      Flow c (.trap (.fault faulttype vaddr) iskern savespl) l
        (.call (.faulted iskern savespl) (.vmFault faulttype vaddr)) l
  | fatal {iskern : Bool} {savespl l : Nat} :
      Flow c (.trap .fatal iskern savespl) l (.goTo (.fatal iskern savespl)) l
  | sysDone {savespl l : Nat} : Flow c (.sysDone savespl) l (.goTo (.trapDone savespl)) l
  | killCurthread {iskern : Bool} {savespl l : Nat} : Flow c (.fatal iskern savespl) l
      (.call (.fatal iskern savespl) .threadExit) l
  | badfaultfunc {iskern : Bool} {savespl l : Nat} :
      Flow c (.fatal iskern savespl) l (.goTo (.trapDone savespl)) l
  | trapDone {savespl l : Nat} : Flow c (.trapDone savespl) l (.ret id) savespl
  | interrupted {oldIn l : Nat} : Flow c (.interrupted oldIn) l (.ret id) l
  | forkVmspace {data1 : Word} {newpid l : Nat} :
      Flow c (.forkVmspace data1 newpid) l (.goTo (.forkPid data1 newpid)) l
  | forkPid {data1 : Word} {newpid l : Nat} :
      Flow c (.forkPid data1 newpid) l (.goTo (.forkParent data1)) l
  | forkParent {data1 : Word} {l : Nat} : Flow c (.forkParent data1) l (.goTo .forkTable) l
  | forkTable {l : Nat} : Flow c .forkTable l (.call .enterUser .asActivate) l
  | enterUser {l : Nat} : Flow c .enterUser l (.goTo .user) 0
  | splhigh {saved : List Nat} {l : Nat} :
      Flow c (.outside saved) l (.goTo (.outside (l :: saved))) c.splHigh
  | outsideStep {saved : List Nat} {l : Nat} :
      Flow c (.outside saved) l (.goTo (.outside saved)) l
  | outsideSplx {saved : List Nat} {newspl l : Nat} (hSaved : newspl = 0 ∨ newspl ∈ saved) :
      Flow c (.outside saved) l (.call (.outside saved) (.splx newspl)) l
  | outsideCall {saved : List Nat} {l : Nat} (f : KernelFunc) :
      Flow c (.outside saved) l (.call (.outside saved) f.code) l
  | usermode {saved : List Nat} {l : Nat} : Flow c (.outside saved) l (.goTo .enterUser) l
  | outsideRet {saved : List Nat} {l : Nat} : Flow c (.outside saved) l (.ret id) l

/-- The value of `in_interrupt` after a statement. -/
def Code.inInterrupt (before : Nat) : Code → Nat
  | .interrupted oldIn => oldIn
  | _ => before

namespace Kernel

/-- The places of the threads, and what `thread_fork` has made sure of. -/
def places (s : Kernel) :=
  (s.curthread, s.running, s.runqueue, s.sleepers, s.zombies, s.numthreads,
    (s.sleepersRoom, s.zombiesRoom, s.runqueueRoom), s.allocated, s.forked, s.exits)

/-- A step that writes neither to thread structures nor to the process table, the TLB or the
address spaces. -/
structure Untouched (s t : Kernel) : Prop where
  thread : t.thread = s.thread
  table : t.fullProcessTable = s.fullProcessTable
  tlb : t.tlb = s.tlb
  space : t.space = s.space

variable {c : KernelConfig} {s s' t u : Kernel} {code code' after callee : Code} {o : Choice}

theorem untouched_become : Untouched s (s.become code) := ⟨rfl, rfl, rfl, rfl⟩

theorem untouched_call : Untouched s (s.call after callee) := ⟨rfl, rfl, rfl, rfl⟩

theorem untouched_ret {answer : Code → Code} : Untouched s (s.ret answer) := ⟨rfl, rfl, rfl, rfl⟩

theorem Untouched.trans (h : Untouched s t) (h' : Untouched t u) : Untouched s u :=
  ⟨h'.thread.trans h.thread, h'.table.trans h.table, h'.tlb.trans h.tlb, h'.space.trans h.space⟩

/-! ## What a statement does -/

/-- The effect on the stack of the running thread. -/
def perform (s : Kernel) : Effect Code → Kernel
  | .goTo code => s.become code
  | .call after callee => s.call after callee
  | .ret answer => s.ret answer

/-- What a statement at `code` that moves no thread does apart from its effect on the stack. -/
structure Prepares (code : Code) (s s' : Kernel) : Prop where
  places : s'.places = s.places
  stack : s'.stack = s.stack
  inInterrupt : s'.inInterrupt = code.inInterrupt s.inInterrupt
  pcb : ∀ u, (s'.thread u).pcbIninterrupt = (s.thread u).pcbIninterrupt
  untouched : ¬code.Writes → Untouched s s'

/-- A statement that moves no thread follows the flow. -/
def Acts (c : KernelConfig) (code : Code) (s t : Kernel) : Prop :=
  ∃ s' E, Prepares code s s' ∧ Flow c code s.curspl E s'.curspl ∧ t = s'.perform E

/-- Everything but the level, `in_interrupt`, counters and locks. -/
def kept (s : Kernel) := (s.places, s.stack, s.thread, s.fullProcessTable, s.tlb, s.space)

theorem prepares_of_kept (hKept : s'.kept = s.kept)
    (hIn : s'.inInterrupt = code.inInterrupt s.inInterrupt) : Prepares code s s' := by
  simp only [kept, Prod.mk.injEq] at hKept
  obtain ⟨hPlaces, hStack, hThread, hTable, hTlb, hSpace⟩ := hKept
  refine ⟨hPlaces, hStack, hIn, ?_, fun _ => ⟨hThread, hTable, hTlb, hSpace⟩⟩
  intro u
  rw [hThread]

namespace Prepares

variable (h : Prepares code s s')

include h

theorem become (hFlow : Flow c code s.curspl (.goTo code') s'.curspl) :
    Acts c code s (s'.become code') :=
  ⟨s', _, h, hFlow, rfl⟩

theorem call (hFlow : Flow c code s.curspl (.call after callee) s'.curspl) :
    Acts c code s (s'.call after callee) :=
  ⟨s', _, h, hFlow, rfl⟩

theorem ret {answer : Code → Code} (hFlow : Flow c code s.curspl (.ret answer) s'.curspl) :
    Acts c code s (s'.ret answer) :=
  ⟨s', _, h, hFlow, rfl⟩

end Prepares

section

variable (hKept : s'.kept = s.kept) (hIn : s'.inInterrupt = code.inInterrupt s.inInterrupt)

include hKept hIn

theorem acts_become (hFlow : Flow c code s.curspl (.goTo code') s'.curspl) :
    Acts c code s (s'.become code') :=
  (prepares_of_kept hKept hIn).become hFlow

theorem acts_call (hFlow : Flow c code s.curspl (.call after callee) s'.curspl) :
    Acts c code s (s'.call after callee) :=
  (prepares_of_kept hKept hIn).call hFlow

theorem acts_ret {answer : Code → Code} (hFlow : Flow c code s.curspl (.ret answer) s'.curspl) :
    Acts c code s (s'.ret answer) :=
  (prepares_of_kept hKept hIn).ret hFlow

end

theorem pcb_setThread (cur : Word) {f : KernelThread → KernelThread}
    (hPcb : ∀ th, (f th).pcbIninterrupt = th.pcbIninterrupt) (u : Word) :
    ((s.setThread cur f).thread u).pcbIninterrupt = (s.thread u).pcbIninterrupt := by
  simp only [setThread]
  by_cases hu : u = cur
  · subst hu
    rw [Function.update_self, hPcb]
  · rw [Function.update_of_ne hu]

theorem assign_ok {f : KernelThread → KernelThread} (h : s.assign f after = .ok t) :
    ∃ cur, s.curthread = some cur ∧ t = (s.setThread cur f).become after := by
  unfold assign at h
  split at h
  · cases h
  · rename_i cur hCur
    cases h
    exact ⟨cur, hCur, rfl⟩

theorem acts_assign {f : KernelThread → KernelThread} (h : s.assign f after = .ok t)
    (hWrites : code.Writes) (hFlow : Flow c code s.curspl (.goTo after) s.curspl)
    (hIn : s.inInterrupt = code.inInterrupt s.inInterrupt)
    (hPcb : ∀ th, (f th).pcbIninterrupt = th.pcbIninterrupt) : Acts c code s t := by
  obtain ⟨cur, -, rfl⟩ := assign_ok h
  have hPrepares : Prepares code s (s.setThread cur f) :=
    ⟨rfl, rfl, hIn, pcb_setThread cur hPcb, absurd hWrites⟩
  exact hPrepares.become hFlow

theorem activateCurrent_ok (h : s.activateCurrent after = .ok t) :
    ∃ cur, s.curthread = some cur ∧ ((s.thread cur).tVmspace = none ∧ t = s.become after ∨
      (s.thread cur).tVmspace ≠ none ∧ t = s.call after .asActivate) := by
  unfold activateCurrent at h
  split at h
  · cases h
  · rename_i cur hCur
    refine ⟨cur, hCur, ?_⟩
    split_ifs at h with hVmspace
    · cases h
      exact Or.inl ⟨hVmspace, rfl⟩
    · cases h
      exact Or.inr ⟨hVmspace, rfl⟩

theorem checkLock_ok {l : Word} (h : s.checkLock l s' = .ok t) : t = s' := by
  unfold checkLock at h
  split_ifs at h
  cases h
  rfl

theorem forkTable_ok (h : s.forkTable = .ok t) : ∃ cur, s.curthread = some cur ∧
    t = ({ s with fullProcessTable :=
      Function.update s.fullProcessTable (s.thread cur).pid (some cur) }).call
        .enterUser .asActivate := by
  unfold forkTable at h
  split at h
  · cases h
  · rename_i cur hCur
    cases h
    exact ⟨cur, hCur, rfl⟩

/-- `vm_fault` writes to the TLB what the function without a kernel around it does. -/
theorem vmFault_ok {faulttype : FaultType} {vaddr : Word}
    (h : s.vmFault c faulttype vaddr = .ok t) :
    ∃ cur errno cpu, s.curthread = some cur ∧
      OS161.vmFault c.toMachineConstants ⟨c.splHigh, s.tlb⟩ ((s.thread cur).tVmspace.map s.space)
        faulttype vaddr = .ok (errno, cpu) ∧
      (t = { s with curspl := c.splHigh, tlb := cpu.tlb }.ret (Code.answered false) ∨
        t = { s with curspl := c.splHigh, tlb := cpu.tlb }.become
          (.restore s.curspl (errno = Errno.ok))) := by
  unfold vmFault at h
  split at h
  · cases h
  · rename_i cur hCur
    dsimp only at h
    split at h
    · cases h
    · rename_i errno cpu hFault
      refine ⟨cur, errno, cpu, hCur, hFault, ?_⟩
      split_ifs at h
      · cases h
        exact Or.inl rfl
      · cases h
        exact Or.inr rfl

/-- **What a statement does** that moves no thread. -/
theorem exec_acts (hMoves : ¬code.Moves) (h : s.exec c o code = some (.ok t)) :
    Acts c code s t := by
  cases code with
  | user | outside | releaseHeld | faulted | exited => cases h
  | threadYield | threadSleep | wakeupLoop | threadExit | threadFork | scheduler | switched =>
    exact absurd trivial hMoves
  | splx newspl =>
    cases h
    unfold splx
    split_ifs
    · exact acts_become (by rfl) (by rfl) .splx
    · exact acts_ret (by rfl) (by rfl) .splxOff
  | splxOn newspl =>
    cases h
    exact acts_ret (by rfl) (by rfl) .splxOn
  | restore spl ans =>
    cases h
    unfold restore
    split_ifs
    · exact acts_become (by rfl) (by rfl) .restore
    · exact acts_become (by rfl) (by rfl) .restoreOff
  | restoreOn spl ans =>
    cases h
    exact acts_become (by rfl) (by rfl) .restoreOn
  | ret ans =>
    cases h
    exact acts_ret (by rfl) (by rfl) .ret
  | P sem =>
    simp only [exec, P, Option.some.injEq] at h
    split_ifs at h
    cases h
    exact acts_become (by rfl) (by rfl) .P
  | pLoop sem spl =>
    simp only [exec, pLoop, Option.some.injEq] at h
    split_ifs at h
    · cases h
      exact acts_call (by rfl) (by rfl) .pSleep
    · cases h
      exact acts_become (by rfl) (by rfl) .pDone
  | V sem =>
    simp only [exec, V, Option.some.injEq] at h
    split_ifs at h
    cases h
    exact acts_call (by rfl) (by rfl) .V
  | lockAcquire l =>
    simp only [exec, Option.some.injEq] at h
    obtain rfl := checkLock_ok h
    exact acts_become (by rfl) (by rfl) .lockAcquire
  | acquireLoop l spl =>
    cases h
    unfold acquireLoop
    split_ifs
    · exact acts_call (by rfl) (by rfl) .acquireSleep
    · exact acts_become (by rfl) (by rfl) .acquireDone
  | lockRelease l =>
    simp only [exec, Option.some.injEq] at h
    obtain rfl := checkLock_ok h
    split_ifs
    · exact acts_call (by rfl) (by rfl) .lockRelease
    · exact acts_become (by rfl) (by rfl) .releaseNothing
  | releaseFree l spl =>
    cases h
    exact acts_call (by rfl) (by rfl) .releaseFree
  | lockDoIHold l =>
    simp only [exec, Option.some.injEq] at h
    obtain rfl := checkLock_ok h
    exact acts_become (by rfl) (by rfl) .lockDoIHold
  | slept =>
    simp only [exec, Option.some.injEq] at h
    exact acts_assign h trivial .slept rfl fun _ => rfl
  | threadWakeup addr =>
    simp only [exec, threadWakeup, Option.some.injEq] at h
    split_ifs at h
    cases h
    exact acts_become (by rfl) (by rfl) .threadWakeup
  | threadstart func =>
    simp only [exec, Option.some.injEq] at h
    obtain ⟨cur, -, ⟨-, rfl⟩ | ⟨-, rfl⟩⟩ := activateCurrent_ok h
    · exact acts_become (by rfl) (by rfl) .threadstart
    · exact acts_call (by rfl) (by rfl) .threadstartActivate
  | threadEnable func =>
    cases h
    exact acts_call (by rfl) (by rfl) .threadEnable
  | threadProbes func n =>
    cases h
    cases n with
    | zero => exact acts_call (by rfl) (by rfl) .probesDone
    | succ n => exact acts_call (by rfl) (by rfl) .threadProbes
  | afterFunc =>
    cases h
    exact acts_call (by rfl) (by rfl) .afterFunc
  | clocksleep numSecs =>
    cases h
    exact acts_become (by rfl) (by rfl) .clocksleep
  | clockLoop numSecs spl =>
    cases h
    unfold clockLoop
    split_ifs
    · exact acts_call (by rfl) (by rfl) .clockSleep
    · exact acts_become (by rfl) (by rfl) .clockDone
  | hardclock =>
    cases h
    unfold hardclock
    split_ifs
    · exact acts_call (by rfl) (by rfl) .hardclockWakeup
    · exact acts_become (by rfl) (by rfl) .hardclock
  | hardclockYield =>
    cases h
    exact acts_call (by rfl) (by rfl) .hardclockYield
  | asActivate =>
    cases h
    have hPcb := pcb_setThread (s := s) s.running (f := fun th => { th with stale := false })
      fun _ => rfl
    refine Prepares.become ?_ .asActivate
    exact ⟨rfl, rfl, rfl, hPcb, absurd trivial⟩
  | vmFault faulttype vaddr =>
    simp only [exec, Option.some.injEq] at h
    obtain ⟨cur, errno, cpu, -, -, rfl | rfl⟩ := vmFault_ok h
    · refine Prepares.ret ?_ .vmFaultFailed
      exact ⟨rfl, rfl, rfl, fun _ => rfl, absurd trivial⟩
    · refine Prepares.become ?_ .vmFault
      exact ⟨rfl, rfl, rfl, fun _ => rfl, absurd trivial⟩
  | trap kind iskern savespl =>
    simp only [exec, Option.some.injEq] at h
    cases kind with
    | syscall =>
      unfold trap at h
      split_ifs at h
      cases h
      exact acts_call (by rfl) (by rfl) .syscall
    | fault faulttype vaddr =>
      cases h
      exact acts_call (by rfl) (by rfl) .fault
    | fatal =>
      cases h
      exact acts_become (by rfl) (by rfl) .fatal
  | sysDone savespl =>
    simp only [exec, sysDone, Option.some.injEq] at h
    split_ifs at h
    cases h
    exact acts_become (by rfl) (by rfl) .sysDone
  | fatal iskern savespl =>
    simp only [exec, fatal, Option.some.injEq] at h
    split_ifs at h
    · cases h
      exact acts_call (by rfl) (by rfl) .killCurthread
    · cases h
      exact acts_become (by rfl) (by rfl) .badfaultfunc
  | trapDone savespl =>
    cases h
    exact acts_ret (by rfl) (by rfl) .trapDone
  | interrupted oldIn =>
    cases h
    exact acts_ret (by rfl) (by rfl) .interrupted
  | forkVmspace data1 newpid =>
    simp only [exec, Option.some.injEq] at h
    exact acts_assign h trivial .forkVmspace rfl fun _ => rfl
  | forkPid data1 newpid =>
    simp only [exec, Option.some.injEq] at h
    exact acts_assign h trivial .forkPid rfl fun _ => rfl
  | forkParent data1 =>
    simp only [exec, Option.some.injEq] at h
    exact acts_assign h trivial .forkParent rfl fun _ => rfl
  | forkTable =>
    simp only [exec, Option.some.injEq] at h
    obtain ⟨cur, -, rfl⟩ := forkTable_ok h
    refine Prepares.call ?_ .forkTable
    exact ⟨rfl, rfl, rfl, fun _ => rfl, absurd trivial⟩
  | enterUser =>
    cases h
    exact acts_become (by rfl) (by rfl) .enterUser

end Kernel

end Windborne.OS161
