import Windborne.Library.Results

/-!
# The system call handler

`mips_syscall` of `syscall.c`. The functions that carry the calls out are parameters: they may
change the machine in any way, and they may not return. A call is reported in registers `v0`
and `a3` of the trapframe. What the local variable `err` holds before it is assigned is what
was on the stack.
-/

namespace Windborne.OS161

open Library

/-- A register of the processor. -/
abbrev Register := BitVec 32

/-- `struct trapframe`; `rest` are the registers that the handler does not mention. -/
structure Trapframe (ρ : Type) where
  tfV0 : Register
  tfA0 : Register
  tfA1 : Register
  tfA2 : Register
  tfA3 : Register
  tfEpc : Register
  rest : ρ

/-- The implemented calls of `callno.h`. -/
inductive Callno where
  | exit
  | execv
  | fork
  | waitpid
  | write
  | reboot
  | getpid
  | getppid
  deriving DecidableEq

namespace Callno

def number : Callno → Register
  | exit => 0
  | execv => 1
  | fork => 2
  | waitpid => 3
  | write => 6
  | reboot => 9
  | getpid => 11
  | getppid => 32

/-- The case of the switch that a number goes to, in the order of the cases. -/
def decode (callno : Register) : Option Callno :=
  [reboot, write, getpid, getppid, execv, fork, waitpid, exit].find? (·.number = callno)

end Callno

def enosys : Register := 23

/-- Why the handler does not come back: an assertion, a bad address in the kernel, or a call
that does not return. -/
inductive SyscallHalt where
  | curspl
  | badAddress
  | noReturn
  deriving DecidableEq

/-- What the calls work on: `user` is the user memory as the kernel can read it, `kernel`
everything that the handler does not mention. -/
structure Machine (σ : Type) where
  curspl : Nat
  console : String
  user : Register → Option UInt8
  kernel : σ

abbrev Sys (σ : Type) := StateT (Machine σ) (Except SyscallHalt)

/-- The functions behind the calls. `sys_waitpid` also gets and sets `retval`. -/
structure SyscallTable (ρ σ : Type) where
  sysReboot : Register → Sys σ Register
  sysGetpid : Sys σ Register
  sysGetppid : Sys σ Register
  sysExecv : Register → Register → Sys σ Register
  sysFork : Trapframe ρ → Sys σ Register
  sysWaitpid : Register → Register → Register → Register → Sys σ (Register × Register)
  sysExit : Register → Sys σ Unit

/-- The local variables; `err` is `none` until it is assigned. -/
structure SyscallLocals where
  retval : Register
  err : Option Register
  deriving DecidableEq

variable {ρ σ : Type}

/-! ## The handler -/

def assertSpl : Sys σ Unit := fun m => if m.curspl = 0 then .ok ((), m) else .error .curspl

def kprintf (text : String) : Sys σ Unit := fun m =>
  .ok ((), { m with console := m.console ++ text })

/-- A byte that the kernel reads at a user address. -/
def load (addr : Register) : Sys σ UInt8 := fun m =>
  match m.user addr with
  | none => .error .badAddress
  | some byte => .ok (byte, m)

/-- The loop of `SYS_write` at index `i`, with `todo` more rounds to go. -/
def writeLoop (tf : Trapframe ρ) : Nat → Register → Sys σ Unit
  | 0, _ => return ()
  | todo + 1, i => do
    let byte ← load (tf.tfA1 + i)
    kprintf (String.singleton (Char.ofNat byte.toNat))
    writeLoop tf todo (i + 1)

/-- The switch, entered with `retval` 0 and `err` not assigned. -/
def syscallSwitch (sys : SyscallTable ρ σ) (tf : Trapframe ρ) : Sys σ SyscallLocals :=
  match Callno.decode tf.tfV0 with
  | some .reboot => do
    let err ← sys.sysReboot tf.tfA0
    return { retval := 0, err := some err }
  | some .write => do
    writeLoop tf tf.tfA2.toNat 0
    return { retval := 0, err := none }
  | some .getpid => do
    let pid ← sys.sysGetpid
    return { retval := pid + 1, err := some 0 }
  | some .getppid => do
    let pid ← sys.sysGetppid
    return { retval := pid + 1, err := some 0 }
  | some .execv => do
    let err ← sys.sysExecv tf.tfA0 tf.tfA1
    return { retval := 0, err := some err }
  | some .fork => do
    let retval ← sys.sysFork tf
    if retval.slt 0 then return { retval, err := some (-retval) }
    else return { retval, err := some 0 }
  | some .waitpid => do
    let (err, retval) ← sys.sysWaitpid tf.tfA0 tf.tfA1 tf.tfA2 0
    return { retval, err := some err }
  | some .exit => do
    sys.sysExit tf.tfA0
    return { retval := 0, err := some 0 }
  | none => do
    kprintf s!"Unknown syscall {tf.tfV0.toInt}\n"
    return { retval := 0, err := some enosys }

/-- What follows the switch; `stack` is what `err` holds when nothing was assigned. -/
def syscallReturn (stack : Register) (locals : SyscallLocals) (tf : Trapframe ρ) : Trapframe ρ :=
  let err := locals.err.getD stack
  let tf :=
    if err ≠ 0 then { tf with tfV0 := err, tfA3 := 1 }
    else { tf with tfV0 := locals.retval, tfA3 := 0 }
  { tf with tfEpc := tf.tfEpc + 4 }

/-- The result has the local variables as they were read. -/
def mipsSyscall (sys : SyscallTable ρ σ) (stack : Register) (tf : Trapframe ρ) :
    Sys σ (SyscallLocals × Trapframe ρ) := do
  assertSpl
  let locals ← syscallSwitch sys tf
  let tf := syscallReturn stack locals tf
  assertSpl
  return (locals, tf)

/-! ## The protocol -/

/-- What a call answers. -/
inductive SyscallResult where
  | success (value : Register)
  | failure (errno : Register)

namespace SyscallResult

/-- The answer of a function that returns an error code, or 0. -/
def ofErr (err value : Register) : SyscallResult := if err = 0 then success value else failure err

/-- The trapframe that reports an answer. -/
def report (tf : Trapframe ρ) : SyscallResult → Trapframe ρ
  | success value => { tf with tfV0 := value, tfA3 := 0, tfEpc := tf.tfEpc + 4 }
  | failure errno => { tf with tfV0 := errno, tfA3 := 1, tfEpc := tf.tfEpc + 4 }

end SyscallResult

open SyscallResult

/-- The answer of each call by itself. -/
def callResult (sys : SyscallTable ρ σ) (tf : Trapframe ρ) : Sys σ SyscallResult :=
  match Callno.decode tf.tfV0 with
  | some .reboot => return ofErr (← sys.sysReboot tf.tfA0) 0
  | some .write => do
    writeLoop tf tf.tfA2.toNat 0
    return success tf.tfA2
  | some .getpid => return success ((← sys.sysGetpid) + 1)
  | some .getppid => return success ((← sys.sysGetppid) + 1)
  | some .execv => return ofErr (← sys.sysExecv tf.tfA0 tf.tfA1) 0
  | some .fork => do
    let retval ← sys.sysFork tf
    return if retval.slt 0 then failure (-retval) else success retval
  | some .waitpid => do
    let (err, retval) ← sys.sysWaitpid tf.tfA0 tf.tfA1 tf.tfA2 0
    return ofErr err retval
  | some .exit => do
    sys.sysExit tf.tfA0
    return success 0
  | none => do
    kprintf s!"Unknown syscall {tf.tfV0.toInt}\n"
    return failure enosys

/-- The handler has assigned `err`, and the trapframe reports the answer. -/
def Obeys (sys : SyscallTable ρ σ) (tf : Trapframe ρ) (m : Machine σ) (locals : SyscallLocals)
    (tf' : Trapframe ρ) (m' : Machine σ) : Prop :=
  locals.err ≠ none ∧ ∃ result, callResult sys tf m = .ok (result, m') ∧ tf' = result.report tf

/-! ## When the protocol is kept -/

theorem sys_bind_eq_ok {α β : Type} {x : Sys σ α} {f : α → Sys σ β} {m m' : Machine σ} {b : β} :
    (x >>= f) m = .ok (b, m') ↔ ∃ a m₁, x m = .ok (a, m₁) ∧ f a m₁ = .ok (b, m') := by
  show (x m >>= fun p => f p.1 p.2) = _ ↔ _
  rw [bind_eq_ok]
  constructor
  · rintro ⟨⟨a, m₁⟩, hFirst, hRest⟩
    exact ⟨a, m₁, hFirst, hRest⟩
  · rintro ⟨a, m₁, hFirst, hRest⟩
    exact ⟨(a, m₁), hFirst, hRest⟩

theorem decode_eq_write (callno : Register) :
    Callno.decode callno = some .write ↔ callno = Callno.write.number := by
  constructor
  · intro h
    have hFound := List.find?_some h
    exact (of_decide_eq_true hFound).symm
  · rintro rfl
    rfl

theorem ofErr_neg {retval : Register} (h : retval.slt 0 = true) :
    ofErr (-retval) retval = failure (-retval) := by
  apply if_neg
  intro hZero
  rw [BitVec.neg_eq_zero_iff.mp hZero] at h
  cases h

/-- Every case but `SYS_write` sets `retval` and `err` to what the call answers. -/
theorem syscallSwitch_spec {sys : SyscallTable ρ σ} {tf : Trapframe ρ} {m m' : Machine σ}
    {locals : SyscallLocals} (h : syscallSwitch sys tf m = .ok (locals, m'))
    (hWrite : Callno.decode tf.tfV0 ≠ some .write) :
    ∃ err, locals.err = some err ∧ callResult sys tf m = .ok (ofErr err locals.retval, m') := by
  unfold syscallSwitch at h
  unfold callResult
  cases hCase : Callno.decode tf.tfV0 with
  | none =>
    rw [hCase] at h
    obtain ⟨⟨⟩, m₁, hCall, hRest⟩ := sys_bind_eq_ok.mp h
    cases hRest
    exact ⟨enosys, rfl, sys_bind_eq_ok.mpr ⟨(), _, hCall, rfl⟩⟩
  | some callno =>
    rw [hCase] at h
    cases callno with
    | exit =>
      obtain ⟨⟨⟩, m₁, hCall, hRest⟩ := sys_bind_eq_ok.mp h
      cases hRest
      exact ⟨0, rfl, sys_bind_eq_ok.mpr ⟨(), _, hCall, rfl⟩⟩
    | execv =>
      obtain ⟨err, m₁, hCall, hRest⟩ := sys_bind_eq_ok.mp h
      cases hRest
      exact ⟨err, rfl, sys_bind_eq_ok.mpr ⟨err, _, hCall, rfl⟩⟩
    | fork =>
      obtain ⟨retval, m₁, hCall, hRest⟩ := sys_bind_eq_ok.mp h
      by_cases hNegative : retval.slt 0 = true
      · rw [if_pos hNegative] at hRest
        cases hRest
        refine ⟨-retval, rfl, sys_bind_eq_ok.mpr ⟨retval, _, hCall, ?_⟩⟩
        rw [if_pos hNegative, ofErr_neg hNegative]
        rfl
      · rw [if_neg hNegative] at hRest
        cases hRest
        refine ⟨0, rfl, sys_bind_eq_ok.mpr ⟨retval, _, hCall, ?_⟩⟩
        rw [if_neg hNegative]
        rfl
    | waitpid =>
      obtain ⟨⟨err, retval⟩, m₁, hCall, hRest⟩ := sys_bind_eq_ok.mp h
      cases hRest
      exact ⟨err, rfl, sys_bind_eq_ok.mpr ⟨(err, retval), _, hCall, rfl⟩⟩
    | write => exact absurd hCase hWrite
    | reboot =>
      obtain ⟨err, m₁, hCall, hRest⟩ := sys_bind_eq_ok.mp h
      cases hRest
      exact ⟨err, rfl, sys_bind_eq_ok.mpr ⟨err, _, hCall, rfl⟩⟩
    | getpid =>
      obtain ⟨pid, m₁, hCall, hRest⟩ := sys_bind_eq_ok.mp h
      cases hRest
      exact ⟨0, rfl, sys_bind_eq_ok.mpr ⟨pid, _, hCall, rfl⟩⟩
    | getppid =>
      obtain ⟨pid, m₁, hCall, hRest⟩ := sys_bind_eq_ok.mp h
      cases hRest
      exact ⟨0, rfl, sys_bind_eq_ok.mpr ⟨pid, _, hCall, rfl⟩⟩

/-- `SYS_write` assigns nothing. -/
theorem syscallSwitch_write {sys : SyscallTable ρ σ} {tf : Trapframe ρ} {m m' : Machine σ}
    {locals : SyscallLocals} (h : syscallSwitch sys tf m = .ok (locals, m'))
    (hWrite : Callno.decode tf.tfV0 = some .write) : locals = { retval := 0, err := none } := by
  unfold syscallSwitch at h
  rw [hWrite] at h
  obtain ⟨-, m₁, -, hRest⟩ := sys_bind_eq_ok.mp h
  cases hRest
  rfl

theorem syscallReturn_assigned (stack retval err : Register) (tf : Trapframe ρ) :
    syscallReturn stack ⟨retval, some err⟩ tf = (ofErr err retval).report tf := by
  unfold syscallReturn ofErr
  by_cases hErr : err = 0
  · subst hErr
    rfl
  · rw [if_neg hErr]
    dsimp only [Option.getD_some]
    rw [if_pos hErr]
    rfl

theorem assertSpl_eq_ok {m m' : Machine σ} (h : assertSpl m = .ok ((), m')) : m' = m := by
  unfold assertSpl at h
  split at h
  · cases h
    rfl
  · cases h

theorem mipsSyscall_eq_ok {sys : SyscallTable ρ σ} {stack : Register} {tf tf' : Trapframe ρ}
    {m m' : Machine σ} {locals : SyscallLocals}
    (h : mipsSyscall sys stack tf m = .ok ((locals, tf'), m')) :
    syscallSwitch sys tf m = .ok (locals, m') ∧ tf' = syscallReturn stack locals tf := by
  obtain ⟨⟨⟩, m₁, hFirst, h⟩ := sys_bind_eq_ok.mp h
  obtain ⟨locals', m₂, hSwitch, h⟩ := sys_bind_eq_ok.mp h
  obtain ⟨⟨⟩, m₃, hLast, hReturn⟩ := sys_bind_eq_ok.mp h
  cases hReturn
  rw [assertSpl_eq_ok hFirst] at hSwitch
  rw [assertSpl_eq_ok hLast]
  exact ⟨hSwitch, rfl⟩

/-- **The system call protocol** is kept exactly by the calls other than `SYS_write`. -/
theorem syscall_protocol_iff {sys : SyscallTable ρ σ} {stack : Register} {tf tf' : Trapframe ρ}
    {m m' : Machine σ} {locals : SyscallLocals}
    (h : mipsSyscall sys stack tf m = .ok ((locals, tf'), m')) :
    Obeys sys tf m locals tf' m' ↔ tf.tfV0 ≠ Callno.write.number := by
  obtain ⟨hSwitch, rfl⟩ := mipsSyscall_eq_ok h
  rw [Ne, ← decode_eq_write]
  constructor
  · rintro ⟨hAssigned, -⟩ hWrite
    rw [syscallSwitch_write hSwitch hWrite] at hAssigned
    exact hAssigned rfl
  · intro hWrite
    obtain ⟨err, hErr, hResult⟩ := syscallSwitch_spec hSwitch hWrite
    obtain ⟨retval, err'⟩ := locals
    cases hErr
    exact ⟨nofun, _, hResult, syscallReturn_assigned stack retval err tf⟩

/-- After a write the registers are right by chance. -/
theorem write_report_iff {sys : SyscallTable ρ σ} {stack : Register} {tf tf' : Trapframe ρ}
    {m m' : Machine σ} {locals : SyscallLocals}
    (h : mipsSyscall sys stack tf m = .ok ((locals, tf'), m'))
    (hWrite : tf.tfV0 = Callno.write.number) :
    tf' = (success tf.tfA2).report tf ↔ stack = 0 ∧ tf.tfA2 = 0 := by
  obtain ⟨hSwitch, rfl⟩ := mipsSyscall_eq_ok h
  rw [syscallSwitch_write hSwitch ((decode_eq_write _).mpr hWrite)]
  unfold syscallReturn report
  dsimp only [Option.getD_none]
  by_cases hStack : stack = 0
  · rw [if_neg (not_not.mpr hStack)]
    constructor
    · intro hEq
      exact ⟨hStack, (congrArg Trapframe.tfV0 hEq).symm⟩
    · rintro ⟨-, hNone⟩
      rw [hNone]
  · rw [if_pos hStack]
    constructor
    · intro hEq
      cases (congrArg Trapframe.tfA3 hEq)
    · rintro ⟨hZero, -⟩
      exact absurd hZero hStack

/-! ## A write of one byte -/

/-- Calls that answer 0. -/
def zeroCalls : SyscallTable Unit Unit where
  sysReboot _ := return 0
  sysGetpid := return 0
  sysGetppid := return 0
  sysExecv _ _ := return 0
  sysFork _ := return 0
  sysWaitpid _ _ _ retval := return (0, retval)
  sysExit _ := throw .noReturn

/-- A machine with the letter A at every user address. -/
def userMachine : Machine Unit where
  curspl := 0
  console := ""
  user _ := some 65
  kernel := ()

/-- A call with the arguments 1, 0x10000 and 1. -/
def callFrame (callno : Callno) : Trapframe Unit where
  tfV0 := callno.number
  tfA0 := 1
  tfA1 := 0x10000
  tfA2 := 1
  tfA3 := 0
  tfEpc := 0x400000
  rest := ()

/-- With 5 on the stack, a write of one byte fails with error 5. -/
theorem write_disobeys : ∃ m' : Machine Unit,
    mipsSyscall zeroCalls 5 (callFrame .write) userMachine = .ok ((⟨0, none⟩,
      { callFrame .write with tfV0 := 5, tfA3 := 1, tfEpc := 0x400004 }), m') ∧
      callResult zeroCalls (callFrame .write) userMachine = .ok (success 1, m') ∧
      ¬Obeys zeroCalls (callFrame .write) userMachine ⟨0, none⟩
        { callFrame .write with tfV0 := 5, tfA3 := 1, tfEpc := 0x400004 } m' := by
  refine ⟨_, rfl, rfl, ?_⟩
  rintro ⟨hAssigned, -⟩
  exact hAssigned rfl

/-- The first process asks for its number. -/
theorem syscall_protocol_iff_getpid :
    Obeys zeroCalls (callFrame .getpid) userMachine ⟨1, some 0⟩
      { callFrame .getpid with tfV0 := 1, tfA3 := 0, tfEpc := 0x400004 } userMachine := by
  have hRun : mipsSyscall zeroCalls 5 (callFrame .getpid) userMachine = .ok ((⟨1, some 0⟩,
      { callFrame .getpid with tfV0 := 1, tfA3 := 0, tfEpc := 0x400004 }), userMachine) := rfl
  exact (syscall_protocol_iff hRun).mpr (by decide)

end Windborne.OS161
