import Mathlib.Algebra.Group.Nat.Defs
import Windborne.Library.Runs
import Windborne.OS161.ThreadSystem

/-!
# Semaphores and locks

`P` and `V`, `lock_acquire`, `lock_release` and `lock_do_i_hold` of `synch.c`, called by the
threads of the thread system. What stands between `splhigh` and `splx` without a sleep is one
step. A thread that gives up the processor inside `P` or `lock_acquire` stands at the head of
the `while` loop there, and looks at its condition again when it runs again.

No thread exits, and apart from semaphores and locks threads may sleep at other addresses.
-/

namespace Windborne.OS161

open Library

/-- Sleep addresses: semaphores and locks are objects at distinct addresses. -/
inductive SynchAddr (ς κ α : Type) where
  | sem (i : ς)
  | lock (l : κ)
  | other (a : α)
  deriving DecidableEq

structure Lock (τ : Type) where
  holder : Option τ
  held : Nat

/-- Where a thread stands: outside, or at the head of the loop of `P` or `lock_acquire`, with
the interrupt level that it came with. -/
inductive SynchPc (ς κ : Type) where
  | user
  | inP (sem : ς) (spl : Nat)
  | inAcquire (lock : κ) (spl : Nat)
  deriving DecidableEq

/-- Calls that have come through: `released` is a release that freed the lock. -/
inductive SynchEvent (τ ς κ : Type) where
  | acquired (t : τ) (l : κ)
  | released (t : τ) (l : κ)
  | down (t : τ) (i : ς)
  | up (t : τ) (i : ς)

structure Synch (τ ς κ α : Type) where
  sys : ThreadSystem τ (SynchAddr ς κ α)
  count : ς → Int
  lock : κ → Lock τ
  pc : τ → SynchPc ς κ
  log : List (SynchEvent τ ς κ)

/-- A C `int`. -/
def int32 (x : Int) : Int := Int.bmod x (2 ^ 32)

inductive SynchCall (ς κ : Type) where
  | P (i : ς)
  | V (i : ς)
  | lockAcquire (l : κ)
  | lockRelease (l : κ)
  | lockDoIHold (l : κ)

inductive SynchAction (τ ς κ α : Type) where
  | sys (a : ThreadAction τ (SynchAddr ς κ α))
  | call (f : SynchCall ς κ)
  | loop

namespace Synch

variable {τ ς κ α : Type} [DecidableEq τ] [DecidableEq ς] [DecidableEq κ] [DecidableEq α]

/-! ## Semaphores -/

/-- `P` up to its loop. -/
def P (c : ThreadConfig (SynchAddr ς κ α)) (s : Synch τ ς κ α) (t : τ) (i : ς) :
    Except Assertion (Synch τ ς κ α) :=
  if s.sys.inInterrupt ≠ 0 then .error .inInterrupt
  else
    let (spl, sys) := s.sys.splhigh c
    .ok { s with sys, pc := Function.update s.pc t (.inP i spl) }

/-- The loop of `P`, and what comes after it. -/
def loopP (s : Synch τ ς κ α) (t : τ) (i : ς) (spl : Nat) :
    Except Assertion (Synch τ ς κ α) :=
  if s.count i = 0 then do
    let sys ← s.sys.threadSleep (.sem i) t
    return { s with sys }
  else if s.count i ≤ 0 then .error .semCount
  else .ok { s with
    sys := (s.sys.splx spl).2
    count := Function.update s.count i (s.count i - 1)
    pc := Function.update s.pc t .user
    log := .down t i :: s.log }

def V (c : ThreadConfig (SynchAddr ς κ α)) (s : Synch τ ς κ α) (t : τ) (i : ς) :
    Except Assertion (Synch τ ς κ α) :=
  let (spl, sys) := s.sys.splhigh c
  let count := int32 (s.count i + 1)
  if count ≤ 0 then .error .semCount
  else do
    let sys ← sys.threadWakeup (.sem i)
    return { s with
      sys := (sys.splx spl).2, count := Function.update s.count i count
      log := .up t i :: s.log }

/-! ## Locks -/

/-- `lock_acquire` up to its loop. -/
def lockAcquire (c : ThreadConfig (SynchAddr ς κ α)) (s : Synch τ ς κ α) (t : τ) (l : κ) :
    Except Assertion (Synch τ ς κ α) :=
  let (spl, sys) := s.sys.splhigh c
  .ok { s with sys, pc := Function.update s.pc t (.inAcquire l spl) }

/-- The loop of `lock_acquire`, and what comes after it. -/
def loopAcquire (s : Synch τ ς κ α) (t : τ) (l : κ) (spl : Nat) :
    Except Assertion (Synch τ ς κ α) :=
  if (s.lock l).held ≠ 0 then do
    let sys ← s.sys.threadSleep (.lock l) t
    return { s with sys }
  else .ok { s with
    sys := (s.sys.splx spl).2
    lock := Function.update s.lock l { held := 1, holder := some t }
    pc := Function.update s.pc t .user
    log := .acquired t l :: s.log }

/-- What `lock_do_i_hold` returns to thread `t`. -/
def lockDoIHold (s : Synch τ ς κ α) (t : τ) (l : κ) : Nat :=
  if (s.lock l).holder = some t ∧ (s.lock l).held = 1 then 1 else 0

def lockRelease (c : ThreadConfig (SynchAddr ς κ α)) (s : Synch τ ς κ α) (t : τ) (l : κ) :
    Except Assertion (Synch τ ς κ α) :=
  let (spl, sys) := s.sys.splhigh c
  if (s.lock l).held = 1 ∧ s.lockDoIHold t l = 1 then do
    let sys ← sys.threadWakeup (.lock l)
    return { s with
      sys := (sys.splx spl).2
      lock := Function.update s.lock l { s.lock l with held := 0 }
      log := .released t l :: s.log }
  else .ok { s with sys := (sys.splx spl).2 }

/-! ## Runs -/

/-- Semaphores as `sem_create` makes them and free locks, in a thread system that has just
been booted. -/
def boot (c : ThreadConfig (SynchAddr ς κ α)) (me : τ) (initialCount : ς → Int) :
    Synch τ ς κ α where
  sys := .threadBootstrap c me
  count := initialCount
  lock _ := { holder := none, held := 0 }
  pc _ := .user
  log := []

/-- A call of thread `t`. -/
def exec (c : ThreadConfig (SynchAddr ς κ α)) (s : Synch τ ς κ α) (t : τ) :
    SynchCall ς κ → Except Assertion (Synch τ ς κ α)
  | .P i => s.P c t i
  | .V i => s.V c t i
  | .lockAcquire l => s.lockAcquire c t l
  | .lockRelease l => s.lockRelease c t l
  | .lockDoIHold _ => .ok s

/-- The steps of the thread system that are allowed when the current thread stands at `pc`. -/
def Allowed (pc : SynchPc ς κ) : ThreadAction τ (SynchAddr ς κ α) → Prop
  | .timer => True
  | .device (.other _) => True
  | .threadSleep (.other _) => pc = .user
  | .threadWakeup (.other _) => pc = .user
  | .device _ => False
  | .threadSleep _ => False
  | .threadWakeup _ => False
  | .threadExit => False
  | _ => pc = .user

instance (pc : SynchPc ς κ) (a : ThreadAction τ (SynchAddr ς κ α)) : Decidable (Allowed pc a) := by
  unfold Allowed
  split <;> infer_instance

/-- One step; `none` when the action cannot happen. -/
def step (c : ThreadConfig (SynchAddr ς κ α)) (s : Synch τ ς κ α) :
    SynchAction τ ς κ α → Option (Except Assertion (Synch τ ς κ α))
  | .sys a =>
    if Allowed ((s.sys.curthread.map s.pc).getD .user) a then
      (s.sys.step c a).map fun x => x.map fun sys => { s with sys }
    else none
  | .call f => do
    let t ← s.sys.curthread
    if s.pc t = .user ∧ (s.sys.thread t).newguy = none then some (s.exec c t f) else none
  | .loop => do
    let t ← s.sys.curthread
    match s.pc t with
    | .user => none
    | .inP i spl => some (s.loopP t i spl)
    | .inAcquire l spl => some (s.loopAcquire t l spl)

def Step (c : ThreadConfig (SynchAddr ς κ α)) (s : Synch τ ς κ α) (a : SynchAction τ ς κ α)
    (t : Synch τ ς κ α) : Prop := s.step c a = some (.ok t)

end Synch

end Windborne.OS161
