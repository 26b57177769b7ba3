import Windborne.Library.CallStack
import Windborne.OS161.DumbVm
import Windborne.OS161.Synch

/-!
# The kernel with its stacks

The thread system once more, with what is on the kernel stacks. Every thread has a stack of
activations, and a step is one statement of the innermost one, or what stands together between
two points at which an interrupt can come in. So the states in the middle of a call are states
of the model: where `mi_switch` waits in the scheduler, where `splx` has turned interrupts on
and not yet set `curspl`, where `thread_wakeup` has moved some of the sleepers.

Code that is not here (the kernel's other functions, system calls, device handlers) stands as
`outside`: it calls the functions below, raises the interrupt level and restores saved ones.
Thread structures, address spaces, semaphores and locks live at machine addresses, and `NULL`
is `none`. An assertion that fails or a panic ends the run.
-/

namespace Windborne.OS161

open Library

/-- `HZ`, `lbolt` and the constants of the machine headers. -/
structure KernelConfig extends MachineConstants where
  lbolt : Word
  hz : Nat
  tlbhiInvalid : Nat → Word
  tlbloInvalid : Word
  optSynchprobs : Bool
  splHigh_pos : 0 < splHigh
  tlblo_invalid : tlbloInvalid &&& tlbloValid = 0

/-- A pointer to something at a machine address. -/
def pointer (address : Word) : Option Word := if address = 0 then none else some address

/-- What ends a run. -/
inductive Halt where
  | curspl
  | inInterrupt
  | numthreads
  | exorciseCurthread
  | destroyCurthread
  | destroyVmspace
  | addFailed
  | backFromTheDead
  | semCount
  | nullPointer
  | syscallSpl
  | panic
  deriving DecidableEq

/-! ## Code -/

/-- The function that a new thread starts in. -/
inductive ThreadFunc where
  | outside
  | mdForkentry (data1 : Word) (newpid : Nat)
  deriving DecidableEq

inductive TrapKind where
  | syscall
  | fault (faulttype : FaultType) (vaddr : Word)
  | fatal
  deriving DecidableEq

/-- Where an activation stands. `restore spl` is the `splx(spl)` at the end of a function, with
what the function returns, and `ret` the return itself. -/
inductive Code where
  | user
  | outside (saved : List Nat)
  | splx (newspl : Nat)
  | splxOn (newspl : Nat)
  | restore (spl : Nat) (ans : Bool)
  | restoreOn (spl : Nat) (ans : Bool)
  | ret (ans : Bool)
  | P (sem : Word)
  | pLoop (sem : Word) (spl : Nat)
  | V (sem : Word)
  | lockAcquire (l : Word)
  | acquireLoop (l : Word) (spl : Nat)
  | lockRelease (l : Word)
  | releaseHeld (l : Word) (spl : Nat)
  | releaseFree (l : Word) (spl : Nat)
  | lockDoIHold (l : Word)
  | threadYield
  | threadSleep (addr : Word)
  | slept
  | threadWakeup (addr : Word)
  | wakeupLoop (addr : Word) (i : Nat)
  | threadExit
  | exited
  | threadFork (func : ThreadFunc)
  | scheduler
  | switched
  | threadstart (func : ThreadFunc)
  | threadEnable (func : ThreadFunc)
  | threadProbes (func : ThreadFunc) (n : Nat)
  | afterFunc
  | clocksleep (numSecs : Int)
  | clockLoop (numSecs : Int) (spl : Nat)
  | hardclock
  | hardclockYield
  | asActivate
  | vmFault (faulttype : FaultType) (vaddr : Word)
  | trap (kind : TrapKind) (iskern : Bool) (savespl : Nat)
  | sysDone (savespl : Nat)
  | faulted (iskern : Bool) (savespl : Nat)
  | fatal (iskern : Bool) (savespl : Nat)
  | trapDone (savespl : Nat)
  | interrupted (oldIn : Nat)
  | forkVmspace (data1 : Word) (newpid : Nat)
  | forkPid (data1 : Word) (newpid : Nat)
  | forkParent (data1 : Word)
  | forkTable
  | enterUser
  deriving DecidableEq

/-- The code of a caller when the called function has returned `ans`. -/
def Code.answered (ans : Bool) : Code → Code
  | .releaseHeld l spl => if ans then .releaseFree l spl else .restore spl false
  | .faulted iskern savespl => if ans then .trapDone savespl else .fatal iskern savespl
  | code => code

/-- Code outside keeps the level that `splx` returns. -/
def Code.saving (oldspl : Nat) : Code → Code
  | .outside saved => .outside (oldspl :: saved)
  | code => code

def ThreadFunc.code : ThreadFunc → Code
  | .outside => .outside []
  | .mdForkentry data1 newpid => .forkVmspace data1 newpid

/-- A call, with the interrupt level at the call. -/
abbrev Call := Activation Code Nat

/-- The functions that code outside calls. -/
inductive KernelFunc where
  | P (sem : Word)
  | V (sem : Word)
  | lockAcquire (l : Word)
  | lockRelease (l : Word)
  | lockDoIHold (l : Word)
  | threadYield
  | threadSleep (addr : Word)
  | threadWakeup (addr : Word)
  | threadExit
  | threadFork (func : ThreadFunc)
  | clocksleep (numSecs : Int)
  | asActivate

def KernelFunc.code : KernelFunc → Code
  | .P sem => .P sem
  | .V sem => .V sem
  | .lockAcquire l => .lockAcquire l
  | .lockRelease l => .lockRelease l
  | .lockDoIHold l => .lockDoIHold l
  | .threadYield => .threadYield
  | .threadSleep addr => .threadSleep addr
  | .threadWakeup addr => .threadWakeup addr
  | .threadExit => .threadExit
  | .threadFork func => .threadFork func
  | .clocksleep numSecs => .clocksleep numSecs
  | .asActivate => .asActivate

/-! ## States -/

/-- A thread structure. `stale` is a ghost: code outside has replaced `t_vmspace`, and
`as_activate` has not been called since. -/
structure KernelThread where
  tSleepaddr : Option Word
  tVmspace : Option Word
  pid : Nat
  parent : Option Word
  pcbIninterrupt : Nat
  stale : Bool
  deriving DecidableEq

/-- What `thread_create` and `md_initpcb` write. -/
def newThread : KernelThread :=
  { tSleepaddr := none, tVmspace := none, pid := 0, parent := none, pcbIninterrupt := 0,
    stale := false }

/-- The stack that `md_initpcb` sets up. -/
def newStack (c : KernelConfig) (func : ThreadFunc) : List Call := [⟨c.splHigh, .threadstart func⟩]

/-- `running` is the thread on whose stack the processor is. Of the arrays and the queue only
the `room` is known that `thread_fork` has made sure of. `forked` and `exits` are ghosts: a
`thread_fork` has succeeded; how many threads have exited since the last `exorcise`. -/
structure Kernel where
  curthread : Option Word
  running : Word
  curspl : Nat
  inInterrupt : Nat
  sleepers : List Word
  zombies : List Word
  runqueue : List Word
  sleepersRoom : Nat
  zombiesRoom : Nat
  runqueueRoom : Nat
  numthreads : Nat
  lboltCounter : Nat
  numprocesses : Nat
  fullProcessTable : Nat → Option Word
  count : Word → Int
  lock : Word → Lock Word
  tlb : List TlbEntry
  space : Word → AddrSpace
  thread : Word → KernelThread
  stack : Word → List Call
  allocated : Word → Bool
  forked : Bool
  exits : Nat

/-- How a `thread_fork` goes. -/
inductive ForkOutcome where
  | noThread
  | noStack
  | noSleepers
  | noZombies
  | noScheduler
  | notRunnable
  | started (newguy : Word)

/-- What a statement depends on apart from the state: whether `kmalloc` has memory for an array
that has to grow, how a `thread_fork` goes, the random number of `mi_threadstart`, and whether
`pcb_badfaultfunc` is set. -/
structure Choice where
  memory : Bool := false
  fork : ForkOutcome := .noThread
  probes : Nat := 0
  badfaultfunc : Bool := false

/-- What code outside does by itself. -/
inductive OutsideAction where
  | splhigh
  | splx (newspl : Nat)
  | call (f : KernelFunc)
  | setVmspace (as : Option Word)
  | writeSpace (p : Word) (as : AddrSpace)
  | setNumprocesses (n : Nat)
  | clearEntry (i : Nat)
  | clearParent (t : Word)
  | usermode
  | ret

inductive KernelAction where
  | run (o : Choice)
  | outside (a : OutsideAction)
  | trap (kind : TrapKind)
  | timer
  | device

namespace Kernel

/-- All threads that are in some place. -/
def placed (s : Kernel) : List Word :=
  s.curthread.toList ++ (s.runqueue ++ (s.sleepers ++ s.zombies))

/-! ## Stacks -/

def setStack (s : Kernel) (stack : List Call) : Kernel :=
  { s with stack := Function.update s.stack s.running stack }

/-- The innermost activation goes to `code`. -/
def become (s : Kernel) (code : Code) : Kernel :=
  s.setStack (match s.stack s.running with
    | [] => []
    | f :: rest => ⟨f.entry, code⟩ :: rest)

/-- The innermost activation calls a function, and goes on at `after`. -/
def call (s : Kernel) (after callee : Code) : Kernel :=
  s.setStack (match s.stack s.running with
    | [] => []
    | f :: rest => ⟨s.curspl, callee⟩ :: ⟨f.entry, after⟩ :: rest)

/-- The innermost activation comes back, and `answer` tells its caller. -/
def ret (s : Kernel) (answer : Code → Code) : Kernel :=
  s.setStack (match s.stack s.running with
    | _ :: f :: rest => ⟨f.entry, answer f.code⟩ :: rest
    | _ => [])

def setThread (s : Kernel) (t : Word) (f : KernelThread → KernelThread) : Kernel :=
  { s with thread := Function.update s.thread t (f (s.thread t)) }

/-! ## Interrupt level -/

/-- Interrupts are turned on before `curspl` is set. -/
def splx (s : Kernel) (newspl : Nat) : Kernel :=
  if newspl = 0 then s.become (.splxOn newspl)
  else { s with curspl := newspl }.ret (Code.saving s.curspl)

def splxOn (s : Kernel) (newspl : Nat) : Kernel :=
  { s with curspl := newspl }.ret (Code.saving s.curspl)

def restore (s : Kernel) (spl : Nat) (ans : Bool) : Kernel :=
  if spl = 0 then s.become (.restoreOn spl ans) else { s with curspl := spl }.become (.ret ans)

def restoreOn (s : Kernel) (spl : Nat) (ans : Bool) : Kernel :=
  { s with curspl := spl }.become (.ret ans)

/-! ## `thread.c` -/

/-- `array_add` and `q_addtail`, which do not fail while there is room. -/
def add (guys : List Word) (room : Nat) (memory : Bool) (guy : Word) :
    Except Halt (List Word) :=
  if guys.length < room ∨ memory = true then .ok (guys ++ [guy]) else .error .addFailed

def makeRunnable (s : Kernel) (t : Word) (memory : Bool) : Except Halt Kernel :=
  if s.curspl = 0 then .error .curspl
  else do
    let runqueue ← add s.runqueue s.runqueueRoom memory t
    return { s with runqueue }

def threadDestroy (s : Kernel) (z : Word) : Except Halt Kernel :=
  if s.curthread = some z then .error .destroyCurthread
  else if (s.thread z).tVmspace ≠ none then .error .destroyVmspace
  else
    let s := s.setThread z fun th => { th with parent := none }
    .ok { s with allocated := Function.update s.allocated z false }

def exorciseLoop (s : Kernel) : List Word → Except Halt Kernel
  | [] => .ok s
  | z :: zombies =>
    if s.curthread = some z then .error .exorciseCurthread
    else do
      let s ← s.threadDestroy z
      s.exorciseLoop zombies

def exorcise (s : Kernel) : Except Halt Kernel :=
  if s.curspl = 0 then .error .curspl
  else do
    let s ← s.exorciseLoop s.zombies
    return { s with zombies := [], exits := 0 }

def stash (s : Kernel) (cur : Word) (memory : Bool) : ThreadState → Except Halt Kernel
  | .ready => s.makeRunnable cur memory
  | .sleep => do
    let sleepers ← add s.sleepers s.sleepersRoom memory cur
    return { s with sleepers }
  | .zomb => do
    let zombies ← add s.zombies s.zombiesRoom memory cur
    return { s with zombies, exits := s.exits + 1 }

/-- `mi_switch` up to the scheduler. It returns at once while there is no current thread. -/
def miSwitch (s : Kernel) (nextstate : ThreadState) (after : Code) (memory : Bool) :
    Except Halt Kernel :=
  if s.curspl = 0 then .error .curspl
  else
    match s.curthread with
    | none => .ok (s.become after)
    | some cur => do
      let s ← { s with curthread := none }.stash cur memory nextstate
      return s.call after .scheduler

def mdSwitch (s : Kernel) (nu : Word) : Kernel :=
  if s.running = nu then s
  else
    let s := s.setThread s.running fun th => { th with pcbIninterrupt := s.inInterrupt }
    { s with inInterrupt := (s.thread nu).pcbIninterrupt, running := nu }

/-- The scheduler, and the way from there to the other side of the switch. With an empty run
queue it idles. -/
def scheduler (s : Kernel) : Except Halt Kernel :=
  if s.curspl = 0 then .error .curspl
  else
    match s.runqueue with
    | [] => .ok s
    | next :: runqueue =>
      .ok (({ s with curthread := some next, runqueue }.become .switched).mdSwitch next)

/-- `as_activate` for the current thread, if it has an address space. -/
def activateCurrent (s : Kernel) (after : Code) : Except Halt Kernel :=
  match s.curthread with
  | none => .error .nullPointer
  | some t =>
    if (s.thread t).tVmspace = none then .ok (s.become after) else .ok (s.call after .asActivate)

/-- The rest of `mi_switch`. -/
def switched (s : Kernel) : Except Halt Kernel := do
  let s ← s.exorcise
  s.activateCurrent (.ret false)

def threadYield (c : KernelConfig) (s : Kernel) (memory : Bool) : Except Halt Kernel :=
  { s with curspl := c.splHigh }.miSwitch .ready (.restore s.curspl false) memory

def threadSleep (s : Kernel) (addr : Word) (memory : Bool) : Except Halt Kernel :=
  if s.inInterrupt ≠ 0 then .error .inInterrupt
  else
    match s.curthread with
    | none => .error .nullPointer
    | some t =>
      (s.setThread t fun th => { th with tSleepaddr := some addr }).miSwitch .sleep .slept memory

/-- An assignment to a field of `curthread`. -/
def assign (s : Kernel) (f : KernelThread → KernelThread) (after : Code) : Except Halt Kernel :=
  match s.curthread with
  | none => .error .nullPointer
  | some t => .ok ((s.setThread t f).become after)

def slept (s : Kernel) : Except Halt Kernel :=
  s.assign (fun th => { th with tSleepaddr := none }) (.ret false)

def threadWakeup (s : Kernel) (addr : Word) : Except Halt Kernel :=
  if s.curspl = 0 then .error .curspl else .ok (s.become (.wakeupLoop addr 0))

/-- One round of the loop. After `array_remove` it looks at the same index again. -/
def wakeupLoop (s : Kernel) (addr : Word) (i : Nat) (memory : Bool) : Except Halt Kernel :=
  match s.sleepers[i]? with
  | none => .ok (s.become (.ret false))
  | some t =>
    if (s.thread t).tSleepaddr = some addr then
      { s with sleepers := s.sleepers.eraseIdx i }.makeRunnable t memory
    else .ok (s.become (.wakeupLoop addr (i + 1)))

def threadExit (c : KernelConfig) (s : Kernel) (memory : Bool) : Except Halt Kernel :=
  match s.curthread with
  | none => .error .nullPointer
  | some t =>
    let s := { s with curspl := c.splHigh }
    let s := s.setThread t fun th => { th with tVmspace := none }
    if s.numthreads = 0 then .error .numthreads
    else { s with numthreads := s.numthreads - 1 }.miSwitch .zomb .exited memory

/-- The call of `fptInitialize` in `thread_create`. -/
def fptInitialize (s : Kernel) : Kernel :=
  if s.numprocesses = 0 then { s with fullProcessTable := fun _ => none } else s

/-- The preallocations of `thread_fork` up to the first that fails. -/
def preallocate (s : Kernel) : ForkOutcome → Kernel
  | .noThread | .noStack | .noSleepers => s
  | .noZombies => { s with sleepersRoom := max s.sleepersRoom (s.numthreads + 1) }
  | .noScheduler => { s with
      sleepersRoom := max s.sleepersRoom (s.numthreads + 1)
      zombiesRoom := max s.zombiesRoom (s.numthreads + 1) }
  | .notRunnable | .started _ => { s with
      sleepersRoom := max s.sleepersRoom (s.numthreads + 1)
      zombiesRoom := max s.zombiesRoom (s.numthreads + 1)
      runqueueRoom := max s.runqueueRoom (s.numthreads + 1) }

/-- Where `thread_fork` has turned interrupts off and made room for another thread. -/
def preallocated (c : KernelConfig) (s : Kernel) (outcome : ForkOutcome) : Kernel :=
  { s.fptInitialize.preallocate outcome with curspl := c.splHigh }

/-- The new thread and its place in the run queue. -/
def start (c : KernelConfig) (s : Kernel) (newguy : Word) (func : ThreadFunc) : Kernel :=
  { s with
    thread := Function.update s.thread newguy newThread
    stack := Function.update s.stack newguy (newStack c func)
    allocated := Function.update s.allocated newguy true
    runqueue := s.runqueue ++ [newguy]
    numthreads := s.numthreads + 1
    forked := true }

/-- `thread_fork` up to its `splx`. What it does with the new structure before that is private
to it. `kmalloc` finds a structure that is not in use, and `make_runnable` does not fail while
there is room. -/
def threadFork (c : KernelConfig) (s : Kernel) (func : ThreadFunc) (outcome : ForkOutcome) :
    Option (Except Halt Kernel) :=
  if s.curthread = none then some (.error .nullPointer)
  else
    match outcome with
    | .noThread => some (.ok (s.become (.ret false)))
    | .noStack => some (.ok (s.fptInitialize.become (.ret false)))
    | .noSleepers | .noZombies | .noScheduler =>
      some (.ok ((s.preallocated c outcome).become (.restore s.curspl false)))
    | .notRunnable =>
      let high := s.preallocated c outcome
      if high.runqueue.length < high.runqueueRoom then none
      else some (.ok (high.become (.restore s.curspl false)))
    | .started newguy =>
      if s.allocated newguy = true ∨ newguy = 0 then none
      else
        let started := (s.preallocated c outcome).start c newguy func
        some (.ok (started.become (.restore s.curspl true)))

/-! ## New threads -/

def threadEnable (c : KernelConfig) (s : Kernel) (func : ThreadFunc) (probes : Nat) : Kernel :=
  s.call (.threadProbes func (if c.optSynchprobs then min probes 320 else 0)) (.splx 0)

def threadProbes (s : Kernel) (func : ThreadFunc) : Nat → Kernel
  | 0 => s.call .afterFunc func.code
  | n + 1 => s.call (.threadProbes func n) .threadYield

/-! ## `md_forkentry` -/

def forkVmspace (s : Kernel) (data1 : Word) (newpid : Nat) : Except Halt Kernel :=
  s.assign (fun th => { th with tVmspace := pointer (data1 + 1) }) (.forkPid data1 newpid)

def forkPid (s : Kernel) (data1 : Word) (newpid : Nat) : Except Halt Kernel :=
  s.assign (fun th => { th with pid := newpid }) (.forkParent data1)

def forkParent (s : Kernel) (data1 : Word) : Except Halt Kernel :=
  s.assign (fun th => { th with parent := pointer (data1 + 2) }) .forkTable

def forkTable (s : Kernel) : Except Halt Kernel :=
  match s.curthread with
  | none => .error .nullPointer
  | some t =>
    let fullProcessTable := Function.update s.fullProcessTable (s.thread t).pid (some t)
    .ok ({ s with fullProcessTable }.call .enterUser .asActivate)

/-- `mips_usermode` leaves the level at 0. -/
def enterUser (s : Kernel) : Kernel := { s with curspl := 0 }.become .user

/-! ## `synch.c` -/

def P (c : KernelConfig) (s : Kernel) (sem : Word) : Except Halt Kernel :=
  if sem = 0 then .error .nullPointer
  else if s.inInterrupt ≠ 0 then .error .inInterrupt
  else .ok ({ s with curspl := c.splHigh }.become (.pLoop sem s.curspl))

def pLoop (s : Kernel) (sem : Word) (spl : Nat) : Except Halt Kernel :=
  if s.count sem = 0 then .ok (s.call (.pLoop sem spl) (.threadSleep sem))
  else if s.count sem ≤ 0 then .error .semCount
  else
    let count := Function.update s.count sem (s.count sem - 1)
    .ok ({ s with count }.become (.restore spl false))

def V (c : KernelConfig) (s : Kernel) (sem : Word) : Except Halt Kernel :=
  if sem = 0 then .error .nullPointer
  else if int32 (s.count sem + 1) ≤ 0 then .error .semCount
  else
    let count := Function.update s.count sem (int32 (s.count sem + 1))
    .ok ({ s with curspl := c.splHigh, count }.call (.restore s.curspl false) (.threadWakeup sem))

/-- The assertion of the lock functions. -/
def checkLock (s : Kernel) (l : Word) (next : Kernel) : Except Halt Kernel :=
  if l = 0 ∨ s.curthread = none then .error .nullPointer else .ok next

def lockAcquire (c : KernelConfig) (s : Kernel) (l : Word) : Except Halt Kernel :=
  s.checkLock l ({ s with curspl := c.splHigh }.become (.acquireLoop l s.curspl))

def acquireLoop (s : Kernel) (l : Word) (spl : Nat) : Kernel :=
  if (s.lock l).held ≠ 0 then s.call (.acquireLoop l spl) (.threadSleep l)
  else
    let lock := Function.update s.lock l { held := 1, holder := s.curthread }
    { s with lock }.become (.restore spl false)

def lockRelease (c : KernelConfig) (s : Kernel) (l : Word) : Except Halt Kernel :=
  let high := { s with curspl := c.splHigh }
  s.checkLock l (if (s.lock l).held = 1 then high.call (.releaseHeld l s.curspl) (.lockDoIHold l)
    else high.become (.restore s.curspl false))

def releaseFree (s : Kernel) (l : Word) (spl : Nat) : Kernel :=
  let lock := Function.update s.lock l { s.lock l with held := 0 }
  { s with lock }.call (.restore spl false) (.threadWakeup l)

def lockDoIHold (c : KernelConfig) (s : Kernel) (l : Word) : Except Halt Kernel :=
  s.checkLock l ({ s with curspl := c.splHigh }.become
    (.restore s.curspl ((s.lock l).holder = s.curthread ∧ (s.lock l).held = 1)))

/-! ## `hardclock.c` -/

def hardclock (c : KernelConfig) (s : Kernel) : Kernel :=
  if s.lboltCounter + 1 ≥ c.hz then
    { s with lboltCounter := 0 }.call .hardclockYield (.threadWakeup c.lbolt)
  else { s with lboltCounter := s.lboltCounter + 1 }.become .hardclockYield

def clocksleep (c : KernelConfig) (s : Kernel) (numSecs : Int) : Kernel :=
  { s with curspl := c.splHigh }.become (.clockLoop numSecs s.curspl)

def clockLoop (c : KernelConfig) (s : Kernel) (numSecs : Int) (spl : Nat) : Kernel :=
  if numSecs > 0 then s.call (.clockLoop (numSecs - 1) spl) (.threadSleep c.lbolt)
  else s.become (.restore spl false)

/-! ## `dumbvm.c` -/

def flush (c : KernelConfig) (tlb : List TlbEntry) : List TlbEntry :=
  tlb.mapIdx fun i _ => ⟨c.tlbhiInvalid i, c.tlbloInvalid⟩

def asActivate (c : KernelConfig) (s : Kernel) : Kernel :=
  let s' := s.setThread s.running fun th => { th with stale := false }
  { s' with curspl := c.splHigh, tlb := flush c s.tlb }.become (.restore s.curspl false)

/-- `vm_fault` between `splhigh` and `splx`, which it leaves out when there is no address
space. -/
def vmFault (c : KernelConfig) (s : Kernel) (faulttype : FaultType) (vaddr : Word) :
    Except Halt Kernel :=
  match s.curthread with
  | none => .error .nullPointer
  | some t =>
    let as := (s.thread t).tVmspace.map s.space
    match OS161.vmFault c.toMachineConstants ⟨c.splHigh, s.tlb⟩ as faulttype vaddr with
    | .error _ => .error .panic
    | .ok (errno, cpu) =>
      let s' := { s with curspl := c.splHigh, tlb := cpu.tlb }
      if (faulttype = .read ∨ faulttype = .write) ∧ as = none then
        .ok (s'.ret (Code.answered false))
      else .ok (s'.become (.restore s.curspl (errno = .ok)))

/-! ## `trap.c` and `interrupt.c` -/

/-- `mips_trap` for everything but an interrupt, up to its `splx`. -/
def enterTrap (c : KernelConfig) (s : Kernel) (kind : TrapKind) (iskern : Bool) : Kernel :=
  { s with curspl := c.splHigh }.setStack
    (⟨c.splHigh, .splx s.curspl⟩ :: ⟨s.curspl, .trap kind iskern s.curspl⟩ :: s.stack s.running)

/-- `mips_trap` and `mips_interrupt` up to the handler. -/
def enterInterrupt (c : KernelConfig) (s : Kernel) (handler : Code) : Kernel :=
  { s with curspl := c.splHigh, inInterrupt := 1 }.setStack
    (⟨c.splHigh, handler⟩ :: ⟨c.splHigh, .interrupted s.inInterrupt⟩ ::
      ⟨s.curspl, .trapDone s.curspl⟩ :: s.stack s.running)

def trap (s : Kernel) (iskern : Bool) (savespl : Nat) : TrapKind → Except Halt Kernel
  | .syscall =>
    if s.curspl ≠ 0 then .error .syscallSpl else .ok (s.call (.sysDone savespl) (.outside []))
  | .fault faulttype vaddr => .ok (s.call (.faulted iskern savespl) (.vmFault faulttype vaddr))
  | .fatal => .ok (s.become (.fatal iskern savespl))

def sysDone (s : Kernel) (savespl : Nat) : Except Halt Kernel :=
  if s.curspl ≠ 0 then .error .syscallSpl else .ok (s.become (.trapDone savespl))

/-- `kill_curthread`, or what is left to do about a fault in the kernel. -/
def fatal (s : Kernel) (iskern : Bool) (savespl : Nat) (badfaultfunc : Bool) :
    Except Halt Kernel :=
  if iskern = false then .ok (s.call (.fatal iskern savespl) .threadExit)
  else if badfaultfunc = true ∧ s.curthread ≠ none then .ok (s.become (.trapDone savespl))
  else .error .panic

/-! ## Steps -/

/-- The next statement of the innermost activation; `none` where it waits for an answer, and
where the code is not the kernel's own. -/
def exec (c : KernelConfig) (s : Kernel) (o : Choice) : Code → Option (Except Halt Kernel)
  | .user | .outside _ | .releaseHeld _ _ | .faulted _ _ => none
  | .splx newspl => some (.ok (s.splx newspl))
  | .splxOn newspl => some (.ok (s.splxOn newspl))
  | .restore spl ans => some (.ok (s.restore spl ans))
  | .restoreOn spl ans => some (.ok (s.restoreOn spl ans))
  | .ret ans => some (.ok (s.ret (Code.answered ans)))
  | .P sem => some (s.P c sem)
  | .pLoop sem spl => some (s.pLoop sem spl)
  | .V sem => some (s.V c sem)
  | .lockAcquire l => some (s.lockAcquire c l)
  | .acquireLoop l spl => some (.ok (s.acquireLoop l spl))
  | .lockRelease l => some (s.lockRelease c l)
  | .releaseFree l spl => some (.ok (s.releaseFree l spl))
  | .lockDoIHold l => some (s.lockDoIHold c l)
  | .threadYield => some (s.threadYield c o.memory)
  | .threadSleep addr => some (s.threadSleep addr o.memory)
  | .slept => some s.slept
  | .threadWakeup addr => some (s.threadWakeup addr)
  | .wakeupLoop addr i => some (s.wakeupLoop addr i o.memory)
  | .threadExit => some (s.threadExit c o.memory)
  | .exited => some (.error .backFromTheDead)
  | .threadFork func => s.threadFork c func o.fork
  | .scheduler => some s.scheduler
  | .switched => some s.switched
  | .threadstart func => some (s.activateCurrent (.threadEnable func))
  | .threadEnable func => some (.ok (s.threadEnable c func o.probes))
  | .threadProbes func n => some (.ok (s.threadProbes func n))
  | .afterFunc => some (.ok (s.call .afterFunc .threadExit))
  | .clocksleep numSecs => some (.ok (s.clocksleep c numSecs))
  | .clockLoop numSecs spl => some (.ok (s.clockLoop c numSecs spl))
  | .hardclock => some (.ok (s.hardclock c))
  | .hardclockYield => some (.ok (s.call (.ret false) .threadYield))
  | .asActivate => some (.ok (s.asActivate c))
  | .vmFault faulttype vaddr => some (s.vmFault c faulttype vaddr)
  | .trap kind iskern savespl => some (s.trap iskern savespl kind)
  | .sysDone savespl => some (s.sysDone savespl)
  | .fatal iskern savespl => some (s.fatal iskern savespl o.badfaultfunc)
  | .trapDone savespl => some (.ok ({ s with curspl := savespl }.ret id))
  | .interrupted oldIn => some (.ok ({ s with inInterrupt := oldIn }.ret id))
  | .forkVmspace data1 newpid => some (s.forkVmspace data1 newpid)
  | .forkPid data1 newpid => some (s.forkPid data1 newpid)
  | .forkParent data1 => some (s.forkParent data1)
  | .forkTable => some s.forkTable
  | .enterUser => some (.ok s.enterUser)

/-- Memory that may be written as an address space: it is not one that is set up, or no thread
has it as its own. -/
def Writable (s : Kernel) (p : Word) : Prop :=
  ¬SetUp (s.space p) ∨ ∀ t ∈ s.placed, (s.thread t).tVmspace ≠ some p

instance (s : Kernel) (p : Word) : Decidable (s.Writable p) := inferInstanceAs (Decidable (_ ∨ _))

/-- Code outside restores levels that it has saved, or 0. It does not create process pointers
other than through `md_forkentry`, and does not go to user mode from an interrupt handler. -/
def outside (c : KernelConfig) (s : Kernel) (saved : List Nat) : OutsideAction → Option Kernel
  | .splhigh => some ({ s with curspl := c.splHigh }.become (.outside (s.curspl :: saved)))
  | .splx newspl =>
    if newspl = 0 ∨ newspl ∈ saved then some (s.call (.outside saved) (.splx newspl)) else none
  | .call f => some (s.call (.outside saved) f.code)
  | .setVmspace as =>
    s.curthread.map fun t => s.setThread t fun th => { th with tVmspace := as, stale := true }
  | .writeSpace p as =>
    if s.Writable p then some { s with space := Function.update s.space p as } else none
  | .setNumprocesses n => some { s with numprocesses := n }
  | .clearEntry i =>
    some { s with fullProcessTable := Function.update s.fullProcessTable i none }
  | .clearParent t => some (s.setThread t fun th => { th with parent := none })
  | .usermode => if s.inInterrupt = 0 then some (s.become .enterUser) else none
  | .ret => if (s.stack s.running).length ≤ 1 then none else some (s.ret id)

/-- Where interrupts are on above level 0: in `splx`, and in the idle loop. -/
def window (s : Kernel) : List Call → Bool
  | ⟨_, .splxOn _⟩ :: _ | ⟨_, .restoreOn _ _⟩ :: _ => true
  | ⟨_, .scheduler⟩ :: _ => s.runqueue.isEmpty
  | _ => false

def Interruptible (s : Kernel) : Prop := s.curspl = 0 ∨ s.window (s.stack s.running) = true

instance (s : Kernel) : Decidable s.Interruptible := inferInstanceAs (Decidable (_ ∨ _))

/-- One step; `none` when the action cannot happen. Traps come from user mode, and from code
outside that touches user memory. -/
def step (c : KernelConfig) (s : Kernel) : KernelAction → Option (Except Halt Kernel)
  | .run o =>
    match s.stack s.running with
    | f :: _ => s.exec c o f.code
    | [] => none
  | .outside a =>
    match s.stack s.running with
    | ⟨_, .outside saved⟩ :: _ => (s.outside c saved a).map .ok
    | _ => none
  | .trap kind =>
    match s.stack s.running with
    | ⟨_, .user⟩ :: _ => some (.ok (s.enterTrap c kind false))
    | ⟨_, .outside _⟩ :: _ =>
      if kind = .syscall then none else some (.ok (s.enterTrap c kind true))
    | _ => none
  | .timer => if s.Interruptible then some (.ok (s.enterInterrupt c .hardclock)) else none
  | .device => if s.Interruptible then some (.ok (s.enterInterrupt c (.outside []))) else none

def Step (c : KernelConfig) (s : Kernel) (a : KernelAction) (t : Kernel) : Prop :=
  s.step c a = some (.ok t)

/-- The state after `thread_bootstrap`. The TLB and the memory are as they happen to be. -/
def boot (c : KernelConfig) (me : Word) (initialCount : Word → Int) (tlb : List TlbEntry)
    (space : Word → AddrSpace) : Kernel where
  curthread := some me
  running := me
  curspl := c.splHigh
  inInterrupt := 0
  sleepers := []
  zombies := []
  runqueue := []
  sleepersRoom := 0
  zombiesRoom := 0
  runqueueRoom := 0
  numthreads := 1
  lboltCounter := 0
  numprocesses := 0
  fullProcessTable _ := none
  count := initialCount
  lock _ := { holder := none, held := 0 }
  tlb := tlb
  space := space
  thread _ := newThread
  stack t := if t = me then [⟨c.splHigh, .outside []⟩] else newStack c .outside
  allocated t := t = me
  forked := false
  exits := 0

end Kernel

/-- A machine to run examples on. -/
def sampleConfig : KernelConfig where
  userstack := 0x80000000
  tlbloDirty := 0x400
  tlbloValid := 0x200
  splHigh := 15
  lbolt := 0x1000
  hz := 100
  tlbhiInvalid i := (0x80000 + BitVec.ofNat 32 i) <<< 12
  tlbloInvalid := 0
  optSynchprobs := false
  splHigh_pos := by decide
  tlblo_invalid := by decide

end Windborne.OS161
