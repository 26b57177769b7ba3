import Mathlib.Logic.Function.Basic
import Windborne.Library.Results

/-!
# The thread system

`thread.c`, `scheduler.c`, `hardclock.c` and the parts of `spl.c`, `pcb.c`, `trap.c` and
`interrupt.c` that they run through, on one processor. A step runs from one point at which
another caller or an interrupt may come in to the next. A context switch leaves the thread
that gave up the processor with a `Frame`, which says how it goes on when it runs again.

Arrays and queues are lists that do not run out of memory, and stacks do not overflow. Thread
structures live at addresses `τ`, which `kmalloc` takes from those not in use; `α` is the type
of sleep addresses. An assertion that fails ends the run.
-/

namespace Windborne.OS161

open Library

/-- The address of `lbolt`, `HZ`, and `SPL_HIGH` of the absent `machine/spl.h`. -/
structure ThreadConfig (α : Type) where
  lbolt : α
  hz : Nat
  splHigh : Nat
  splHigh_pos : 0 < splHigh

inductive ThreadState where
  | ready
  | sleep
  | zomb
  deriving DecidableEq

/-- The assertions and the panic that a step can run into. -/
inductive Assertion where
  | curspl
  | inInterrupt
  | numthreads
  | exorciseCurthread
  | destroyCurthread
  | destroyVmspace
  | destroyCwd
  | backFromTheDead
  | semCount
  deriving DecidableEq

/-- What `mips_trap` and `mips_interrupt` save on the stack: `savespl` and `old_in`. -/
structure Trap where
  savespl : Nat
  oldIn : Nat
  deriving DecidableEq

/-- Where a thread goes on after `mips_switch`: a new thread in `mi_threadstart`, an old one in
the function that called `mi_switch`, and with `trap` from there in an interrupt handler. -/
inductive Frame where
  | threadstart
  | yield (spl : Nat) (trap : Option Trap)
  | sleep
  | exit
  deriving DecidableEq

/-- A thread structure and what is on the stack of the thread: the frame it goes on with, and
`newguy` while it is inside `thread_fork`. -/
structure Thread (τ α : Type) where
  tSleepaddr : Option α
  tVmspace : Option Nat
  tCwd : Option Nat
  pcbIninterrupt : Nat
  frame : Frame
  newguy : Option τ
  deriving DecidableEq

/-- What has happened to threads. -/
inductive ThreadEvent (τ : Type) where
  | started (t : τ)
  | destroyed (t : τ)
  | readied (t : τ)
  | dispatched (t : τ)
  | preallocated (nthreads : Nat)
  deriving DecidableEq

inductive ThreadAction (τ α : Type) where
  | splx (newspl : Nat)
  | threadYield
  | threadSleep (addr : α)
  | threadWakeup (addr : α)
  | threadExit
  | threadCreate (newguy : τ)
  | threadFork
  | setVmspace (as : Option Nat)
  | setCwd (dir : Option Nat)
  | timer
  | device (addr : α)

/-- The globals of the thread system and the memory of its threads. `switching` is the local
variable `cur` of a `mi_switch` that waits in the scheduler; `log` is the history, newest
first. -/
structure ThreadSystem (τ α : Type) where
  curthread : Option τ
  sleepers : List τ
  zombies : List τ
  runqueue : List τ
  numthreads : Nat
  lboltCounter : Nat
  curspl : Nat
  inInterrupt : Nat
  switching : Option τ
  thread : τ → Thread τ α
  allocated : τ → Bool
  log : List (ThreadEvent τ)

namespace ThreadSystem

variable {τ α : Type}

/-! ## Interrupt level -/

def splx (s : ThreadSystem τ α) (newspl : Nat) : Nat × ThreadSystem τ α :=
  (s.curspl, { s with curspl := newspl })

def splhigh (c : ThreadConfig α) (s : ThreadSystem τ α) : Nat × ThreadSystem τ α :=
  s.splx c.splHigh

def spl0 (s : ThreadSystem τ α) : Nat × ThreadSystem τ α := s.splx 0

/-- The way into an interrupt handler. -/
def enterInterrupt (c : ThreadConfig α) (s : ThreadSystem τ α) : Trap × ThreadSystem τ α :=
  (⟨s.curspl, s.inInterrupt⟩, { s with curspl := c.splHigh, inInterrupt := 1 })

/-- The way back, for code that was entered through a trap. -/
def leaveInterrupt (s : ThreadSystem τ α) : Option Trap → ThreadSystem τ α
  | none => s
  | some trap => { s with curspl := trap.savespl, inInterrupt := trap.oldIn }

/-! ## Lists -/

def makeRunnable (s : ThreadSystem τ α) (t : τ) : Except Assertion (ThreadSystem τ α) :=
  if s.curspl = 0 then .error .curspl
  else .ok { s with runqueue := s.runqueue ++ [t], log := .readied t :: s.log }

variable [DecidableEq τ] [DecidableEq α]

/-- Assignments to the structure or the stack of a thread. -/
def setThread (s : ThreadSystem τ α) (t : τ) (f : Thread τ α → Thread τ α) :
    ThreadSystem τ α :=
  { s with thread := Function.update s.thread t (f (s.thread t)) }

/-- The loop of `thread_wakeup` at index `i`. After `array_remove` it looks at the same index
again. The assertion in `make_runnable` is the one made before the loop. -/
def wakeupLoop (addr : α) (s : ThreadSystem τ α) (i : Nat) : ThreadSystem τ α :=
  if h : i < s.sleepers.length then
    let t := s.sleepers[i]
    if (s.thread t).tSleepaddr = some addr then
      wakeupLoop addr { s with
        sleepers := s.sleepers.eraseIdx i
        runqueue := s.runqueue ++ [t]
        log := .readied t :: s.log } i
    else wakeupLoop addr s (i + 1)
  else s
termination_by s.sleepers.length - i
decreasing_by
  · simp only [List.length_eraseIdx_of_lt h]
    omega
  · omega

def threadWakeup (addr : α) (s : ThreadSystem τ α) : Except Assertion (ThreadSystem τ α) :=
  if s.curspl = 0 then .error .curspl else .ok (wakeupLoop addr s 0)

def threadDestroy (s : ThreadSystem τ α) (t : τ) : Except Assertion (ThreadSystem τ α) :=
  if s.curthread = some t then .error .destroyCurthread
  else if (s.thread t).tVmspace ≠ none then .error .destroyVmspace
  else if (s.thread t).tCwd ≠ none then .error .destroyCwd
  else .ok { s with
    allocated := Function.update s.allocated t false, log := .destroyed t :: s.log }

/-- The loop of `exorcise` over the zombies. -/
def exorciseLoop (s : ThreadSystem τ α) : List τ → Except Assertion (ThreadSystem τ α)
  | [] => .ok s
  | z :: zombies =>
    if s.curthread = some z then .error .exorciseCurthread
    else do
      let s ← s.threadDestroy z
      s.exorciseLoop zombies

def exorcise (s : ThreadSystem τ α) : Except Assertion (ThreadSystem τ α) :=
  if s.curspl = 0 then .error .curspl
  else do
    let s ← s.exorciseLoop s.zombies
    return { s with zombies := [] }

/-! ## Context switches -/

def mdSwitch (s : ThreadSystem τ α) (old nu : τ) : ThreadSystem τ α :=
  if old = nu then s
  else
    let s := s.setThread old fun th => { th with pcbIninterrupt := s.inInterrupt }
    { s with inInterrupt := (s.thread nu).pcbIninterrupt }

/-- The code after the switch, in thread `t`, up to the end of the function that called
`mi_switch`, or up to the code that an interrupt had interrupted. -/
def resume (s : ThreadSystem τ α) (t : τ) : Except Assertion (ThreadSystem τ α) :=
  match (s.thread t).frame with
  | .threadstart => return s.spl0.2
  | .yield spl trap => do
    let s ← s.exorcise
    return (s.splx spl).2.leaveInterrupt trap
  | .sleep => do
    let s ← s.exorcise
    return s.setThread t fun th => { th with tSleepaddr := none }
  | .exit => do
    let _ ← s.exorcise
    throw .backFromTheDead

/-- The head of the loop in `scheduler`, and the rest of `mi_switch` when a thread is ready.
With none ready the processor idles: the result has no current thread. -/
def scheduler (s : ThreadSystem τ α) : Except Assertion (ThreadSystem τ α) :=
  if s.curspl = 0 then .error .curspl
  else
    match s.runqueue, s.switching with
    | next :: runqueue, some cur =>
      let s := { s with
        curthread := some next, runqueue, switching := none, log := .dispatched next :: s.log }
      (s.mdSwitch cur next).resume next
    | _, _ => .ok s

/-- The first part of `mi_switch`. `frame` says where the thread goes on afterwards. -/
def giveUp (s : ThreadSystem τ α) (cur : τ) (frame : Frame) : ThreadSystem τ α :=
  { s.setThread cur (fun th => { th with frame }) with curthread := none, switching := some cur }

/-- The thread goes on whatever list it is supposed to go on. -/
def stash (s : ThreadSystem τ α) (cur : τ) :
    ThreadState → Except Assertion (ThreadSystem τ α)
  | .ready => s.makeRunnable cur
  | .sleep => .ok { s with sleepers := s.sleepers ++ [cur] }
  | .zomb => .ok { s with zombies := s.zombies ++ [cur] }

def miSwitch (s : ThreadSystem τ α) (nextstate : ThreadState) (frame : Frame) :
    Except Assertion (ThreadSystem τ α) :=
  if s.curspl = 0 then .error .curspl
  else
    match s.curthread with
    | none => .ok s
    | some cur => do
      let s ← (s.giveUp cur frame).stash cur nextstate
      s.scheduler

/-- `trap` is there when the caller is an interrupt handler. -/
def threadYield (c : ThreadConfig α) (s : ThreadSystem τ α) (trap : Option Trap) :
    Except Assertion (ThreadSystem τ α) := do
  let (spl, s) := s.splhigh c
  match s.curthread with
  | none =>
    let s ← s.miSwitch .ready (.yield spl trap)
    return (s.splx spl).2.leaveInterrupt trap
  | some _ => s.miSwitch .ready (.yield spl trap)

def threadSleep (addr : α) (s : ThreadSystem τ α) (t : τ) :
    Except Assertion (ThreadSystem τ α) :=
  if s.inInterrupt ≠ 0 then .error .inInterrupt
  else (s.setThread t fun th => { th with tSleepaddr := some addr }).miSwitch .sleep .sleep

def threadExit (c : ThreadConfig α) (s : ThreadSystem τ α) (t : τ) :
    Except Assertion (ThreadSystem τ α) :=
  let s := (s.splhigh c).2
  let s := s.setThread t fun th => { th with tVmspace := none, tCwd := none }
  if s.numthreads = 0 then .error .numthreads
  else
    let s := { s with numthreads := s.numthreads - 1 }
    s.miSwitch .zomb .exit

/-! ## Forking -/

/-- `thread_fork` in thread `t` up to its `splhigh`. -/
def threadCreate (s : ThreadSystem τ α) (t newguy : τ) : ThreadSystem τ α :=
  let s := { s with allocated := Function.update s.allocated newguy true }
  let s := s.setThread newguy fun _ =>
    { tSleepaddr := none, tVmspace := none, tCwd := (s.thread t).tCwd, pcbIninterrupt := 0,
      frame := .threadstart, newguy := none }
  s.setThread t fun th => { th with newguy := some newguy }

/-- The rest of `thread_fork`. -/
def threadFork (c : ThreadConfig α) (s : ThreadSystem τ α) (t newguy : τ) :
    Except Assertion (ThreadSystem τ α) := do
  let (spl, s) := s.splhigh c
  let s := { s with log := .started newguy :: .preallocated (s.numthreads + 1) :: s.log }
  let s ← s.makeRunnable newguy
  let s := { s with numthreads := s.numthreads + 1 }
  return (s.splx spl).2.setThread t fun th => { th with newguy := none }

/-! ## Interrupts -/

/-- The first part of `hardclock`. -/
def lboltTick (c : ThreadConfig α) (s : ThreadSystem τ α) :
    Except Assertion (ThreadSystem τ α) :=
  let s := { s with lboltCounter := s.lboltCounter + 1 }
  if s.lboltCounter ≥ c.hz then
    let s := { s with lboltCounter := 0 }
    s.threadWakeup c.lbolt
  else .ok s

def hardclock (c : ThreadConfig α) (s : ThreadSystem τ α) (trap : Option Trap) :
    Except Assertion (ThreadSystem τ α) := do
  let s ← s.lboltTick c
  s.threadYield c trap

def timerInterrupt (c : ThreadConfig α) (s : ThreadSystem τ α) :
    Except Assertion (ThreadSystem τ α) :=
  let (trap, s) := s.enterInterrupt c
  s.hardclock c (some trap)

/-- An interrupt of a device whose handler wakes the sleepers at `addr`. -/
def deviceInterrupt (c : ThreadConfig α) (addr : α) (s : ThreadSystem τ α) :
    Except Assertion (ThreadSystem τ α) := do
  let (trap, s) := s.enterInterrupt c
  let s ← s.threadWakeup addr
  return s.leaveInterrupt (some trap)

/-! ## Runs -/

/-- The state after `thread_bootstrap`. -/
def threadBootstrap (c : ThreadConfig α) (me : τ) : ThreadSystem τ α where
  curthread := some me
  sleepers := []
  zombies := []
  runqueue := []
  numthreads := 1
  lboltCounter := 0
  curspl := c.splHigh
  inInterrupt := 0
  switching := none
  thread _ :=
    { tSleepaddr := none, tVmspace := none, tCwd := none, pcbIninterrupt := 0,
      frame := .threadstart, newguy := none }
  allocated t := t = me
  log := [.started me]

/-- A call that the current thread `t` makes outside `thread_fork`. -/
def freeCall (c : ThreadConfig α) (s : ThreadSystem τ α) (t : τ) :
    ThreadAction τ α → Option (Except Assertion (ThreadSystem τ α))
  | .splx newspl => some (.ok (s.splx newspl).2)
  | .threadYield => some (s.threadYield c none)
  | .threadSleep addr => some (s.threadSleep addr t)
  | .threadWakeup addr => some (s.threadWakeup addr)
  | .threadExit => some (s.threadExit c t)
  | .threadCreate newguy =>
    if s.allocated newguy then none else some (.ok (s.threadCreate t newguy))
  | .setVmspace as => some (.ok (s.setThread t fun th => { th with tVmspace := as }))
  | .setCwd dir => some (.ok (s.setThread t fun th => { th with tCwd := dir }))
  | _ => none

/-- A call that the current thread `t` makes. Inside `thread_fork` it makes no other. -/
def call (c : ThreadConfig α) (s : ThreadSystem τ α) (t : τ) (a : ThreadAction τ α) :
    Option (Except Assertion (ThreadSystem τ α)) :=
  match (s.thread t).newguy, a with
  | none, a => s.freeCall c t a
  | some newguy, .threadFork => some (s.threadFork c t newguy)
  | some _, _ => none

/-- One step; `none` when the action cannot happen. Interrupts come in while the interrupt
level is 0 and in the idle loop, which then looks at the run queue again. -/
def step (c : ThreadConfig α) (s : ThreadSystem τ α) (a : ThreadAction τ α) :
    Option (Except Assertion (ThreadSystem τ α)) :=
  match s.curthread, a with
  | none, .timer => some (s.timerInterrupt c >>= scheduler)
  | none, .device addr => some (s.deviceInterrupt c addr >>= scheduler)
  | none, _ => none
  | some _, .timer => if s.curspl = 0 then some (s.timerInterrupt c) else none
  | some _, .device addr => if s.curspl = 0 then some (s.deviceInterrupt c addr) else none
  | some t, a => s.call c t a

def Step (c : ThreadConfig α) (s : ThreadSystem τ α) (a : ThreadAction τ α)
    (t : ThreadSystem τ α) : Prop := s.step c a = some (.ok t)

end ThreadSystem

end Windborne.OS161
