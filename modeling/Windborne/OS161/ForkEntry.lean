import Windborne.OS161.Kernel
import Windborne.OS161.Syscall

/-!
# The child of a fork

`md_forkentry` and `mips_usermode`: how the child gets into user mode, next to how its parent
comes back from the same system call. `sys_fork` is not here; it has put a copy of the parent's
trapframe on the heap, at `data1`. The three words that are read from `data1` are `data1` itself
and the two addresses after it, and `=+ 4` assigns the number 4.
-/

namespace Windborne.OS161

/-- The fields of a thread structure that `md_forkentry` writes. -/
structure ForkThread where
  tVmspace : Word
  pid : Word
  parent : Word
  deriving DecidableEq

/-- The kernel as the child finds it: the trapframes on the heap, what `kfree` was called with
(the newest first), and what `as_activate` and `mips_usermode` change. -/
structure ForkState (ρ : Type) where
  curthread : Word
  thread : Word → ForkThread
  fullProcessTable : Word → Option Word
  heap : Word → Option (Trapframe ρ)
  freed : List Word
  tlb : List TlbEntry
  curspl : Nat

namespace ForkState

variable {ρ : Type}

/-- An assignment to a field of `curthread`. -/
def assign (s : ForkState ρ) (f : ForkThread → ForkThread) : ForkState ρ :=
  { s with thread := Function.update s.thread s.curthread (f (s.thread s.curthread)) }

def kfree (s : ForkState ρ) (block : Word) : ForkState ρ :=
  { s with heap := Function.update s.heap block none, freed := block :: s.freed }

/-- The address space that it is called with is not looked at. -/
def asActivate (c : KernelConfig) (s : ForkState ρ) (_as : Word) : ForkState ρ :=
  { s with tlb := Kernel.flush c s.tlb }

/-- The way into user mode with the registers of a trapframe on the thread's own stack. -/
def mipsUsermode (s : ForkState ρ) (tf : Trapframe ρ) : Trapframe ρ × ForkState ρ :=
  (tf, { s with curspl := 0 })

def mdForkentry (c : KernelConfig) (s : ForkState ρ) (data1 newpid : Word) :
    Except SyscallHalt (Trapframe ρ × ForkState ρ) :=
  let data0 := data1
  let data1' := data1 + 1
  let data2 := data1 + 2
  match s.heap data0 with
  | none => .error .badAddress
  | some childTf =>
    let s := s.assign fun th => { th with tVmspace := data1' }
    let s := s.assign fun th => { th with pid := newpid }
    let s := s.assign fun th => { th with parent := data2 }
    let s := { s with
      fullProcessTable := Function.update s.fullProcessTable (s.thread s.curthread).pid
        (some s.curthread) }
    let childTf := { childTf with tfV0 := 0 }
    let childTf := { childTf with tfA3 := 0 }
    let childTf := { childTf with tfEpc := 4 }
    let s := s.kfree data0
    let s := s.kfree data1
    let s := s.asActivate c (s.thread s.curthread).tVmspace
    .ok (s.mipsUsermode childTf)

end ForkState

/-- A trap for `SYS_fork` from which the parent comes back with success. -/
structure ForkReturns {ρ σ : Type} (sys : SyscallTable ρ σ) (stack : Register) (m : Machine σ)
    (tf parent : Trapframe ρ) : Prop where
  callno : tf.tfV0 = Callno.fork.number
  returns : ∃ locals m', mipsSyscall sys stack tf m = .ok ((locals, parent), m')
  success : parent.tfA3 = 0

/-- The child goes on as the parent does, with 0 in `v0`, and its copy of the trapframe has
been freed once. -/
structure ResumesAlike {ρ : Type} (parent child : Trapframe ρ) (data1 : Word)
    (s s' : ForkState ρ) : Prop where
  registers : child = { parent with tfV0 := 0 }
  freedOnce : s'.freed.count data1 = s.freed.count data1 + 1

variable {ρ σ : Type} {c : KernelConfig} {data1 newpid : Word} {s s' : ForkState ρ}
  {tf parent child : Trapframe ρ} {sys : SyscallTable ρ σ} {stack : Register} {m : Machine σ}

/-- The child enters user mode at address 4, and the heap block is freed twice. -/
theorem mdForkentry_eq_ok (hCopy : s.heap data1 = some tf)
    (h : s.mdForkentry c data1 newpid = .ok (child, s')) :
    child = { tf with tfV0 := 0, tfA3 := 0, tfEpc := 4 } ∧
      s'.freed = data1 :: data1 :: s.freed := by
  unfold ForkState.mdForkentry at h
  dsimp only at h
  rw [hCopy] at h
  cases h
  exact ⟨rfl, rfl⟩

/-- The trapframe of the parent. -/
theorem ForkReturns.parent_eq (h : ForkReturns sys stack m tf parent) :
    ∃ retval, parent = { tf with tfV0 := retval, tfA3 := 0, tfEpc := tf.tfEpc + 4 } := by
  obtain ⟨locals, m', hRun⟩ := h.returns
  have hSuccess := h.success
  obtain ⟨-, rfl⟩ := mipsSyscall_eq_ok hRun
  refine ⟨locals.retval, ?_⟩
  unfold syscallReturn at hSuccess ⊢
  dsimp only at hSuccess ⊢
  split at hSuccess
  · cases hSuccess
  · rename_i hErr
    rw [if_neg hErr]

/-- **No child resumes as its parent does.** The registers agree just if the parent trapped at
address 0, and the copy of the trapframe is always freed twice. -/
theorem fork_never_alike (hFork : ForkReturns sys stack m tf parent)
    (hCopy : s.heap data1 = some tf) (hChild : s.mdForkentry c data1 newpid = .ok (child, s')) :
    ¬ResumesAlike parent child data1 s s' ∧
      (child = { parent with tfV0 := 0 } ↔ tf.tfEpc = 0) := by
  obtain ⟨rfl, hFreed⟩ := mdForkentry_eq_ok hCopy hChild
  obtain ⟨retval, rfl⟩ := hFork.parent_eq
  constructor
  · intro hAlike
    have hOnce := hAlike.freedOnce
    rw [hFreed, List.count_cons_self, List.count_cons_self] at hOnce
    omega
  · constructor
    · intro hSame
      have hEpc : (4 : Register) = tf.tfEpc + 4 := congrArg Trapframe.tfEpc hSame
      bv_omega
    · intro hEpc
      rw [hEpc]
      rfl

/-! ## A fork of process 1 -/

def forkCalls : SyscallTable Unit Unit := { zeroCalls with sysFork := fun _ => return 2 }

/-- The first thread runs the child, with the copy at 0x80020000. -/
def childState : ForkState Unit where
  curthread := 0x80010000
  thread _ := ⟨0, 0, 0⟩
  fullProcessTable _ := none
  heap block := if block = 0x80020000 then some (callFrame .fork) else none
  freed := []
  tlb := []
  curspl := 1

/-- The parent goes on at 0x400004 and the child at 4. -/
theorem fork_resumes_at_four : ∃ s',
    mipsSyscall forkCalls 0 (callFrame .fork) userMachine = .ok ((⟨2, some 0⟩,
      { callFrame .fork with tfV0 := 2, tfA3 := 0, tfEpc := 0x400004 }), userMachine) ∧
    childState.mdForkentry sampleConfig 0x80020000 2 =
      .ok ({ callFrame .fork with tfV0 := 0, tfA3 := 0, tfEpc := 4 }, s') ∧
    s'.freed = [0x80020000, 0x80020000] ∧
    ¬ResumesAlike { callFrame .fork with tfV0 := 2, tfA3 := 0, tfEpc := 0x400004 }
      { callFrame .fork with tfV0 := 0, tfA3 := 0, tfEpc := 4 } 0x80020000 childState s' := by
  refine ⟨_, rfl, rfl, rfl, ?_⟩
  intro hAlike
  have hEpc : (4 : Register) = 0x400004 := congrArg Trapframe.tfEpc hAlike.registers
  exact absurd hEpc (by decide)

/-- The registers of this child are not its parent's. -/
theorem fork_never_alike_first : ∃ child s',
    childState.mdForkentry sampleConfig 0x80020000 2 = .ok (child, s') ∧
      child ≠ { callFrame .fork with tfV0 := 0, tfA3 := 0, tfEpc := 0x400004 } := by
  have hFork : ForkReturns forkCalls 0 userMachine (callFrame .fork)
      { callFrame .fork with tfV0 := 2, tfA3 := 0, tfEpc := 0x400004 } :=
    ⟨rfl, ⟨⟨2, some 0⟩, userMachine, rfl⟩, rfl⟩
  obtain ⟨child, s', hChild⟩ : ∃ child s',
      childState.mdForkentry sampleConfig 0x80020000 2 = .ok (child, s') := ⟨_, _, rfl⟩
  refine ⟨child, s', hChild, fun hSame => ?_⟩
  have hEpc := (fork_never_alike hFork rfl hChild).2.mp hSame
  exact absurd hEpc (by decide)

end Windborne.OS161
