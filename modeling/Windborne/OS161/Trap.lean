import Windborne.OS161.DumbVm
import Windborne.OS161.ExceptionReturn
import Windborne.OS161.Syscall

/-!
# `mips_trap`, and what a program sees of it

The handler of `trap.c`, on the trapframe that `exception.S` has made. Interrupts, `vm_fault` and
`splx` are parameters. Together with the code around it: an exception of a user program is not
seen by it, or is a system call, or the program does not go on. And the way into user mode.
-/

namespace Windborne.OS161.Trap

open Library Library.Mips ExceptionEntry

/-- `struct trapframe` -/
abbrev Tf := TfField → Mips.Word

/-! ## Causes -/

/-- `CCA_CODE` -/
def ccaCode : Mips.Word := 0x3c

def ccaCodeshift : Nat := 2

def exIrq : Mips.Word := 0
def exMod : Mips.Word := 1
def exTlbl : Mips.Word := 2
def exTlbs : Mips.Word := 3
def exIbe : Mips.Word := 6
def exDbe : Mips.Word := 7
def exSys : Mips.Word := 8

def ntrapcodes : Nat := 13

def trapcodenames : List String := [
  "Interrupt",
  "TLB modify trap",
  "TLB miss on load",
  "TLB miss on store",
  "Address error on load",
  "Address error on store",
  "Bus error on code",
  "Bus error on data",
  "System call",
  "Break instruction",
  "Illegal instruction",
  "Coprocessor unusable",
  "Arithmetic overflow"]

def trapcode (tf : Tf) : Mips.Word := (tf .tfCause &&& ccaCode) >>> ccaCodeshift

/-- `iskern`: the mode before the exception. -/
def Iskern (tf : Tf) : Prop := tf .tfStatus &&& 0x8#32 = 0

instance : DecidablePred Iskern := fun _ => inferInstanceAs (Decidable (_ = _))

/-- The cases of the switch that call `vm_fault`. -/
def faulttype (code : Mips.Word) : Option FaultType :=
  if code = exMod then some .readonly
  else if code = exTlbl then some .read
  else if code = exTlbs then some .write
  else none

/-! ## Messages -/

/-- `%x` -/
def hex (w : Mips.Word) : String := String.ofList (Nat.toDigits 16 w.toNat)

/-- `%u` -/
def decimal (w : Mips.Word) : String := toString w.toNat

def codename (code : Mips.Word) : String := trapcodenames.getD code.toNat ""

/-- What `kill_curthread` prints. -/
def fatalTrap (epc code vaddr : Mips.Word) : String :=
  "Fatal user mode trap " ++ decimal code ++ " (" ++ codename code ++ ", epc 0x" ++ hex epc ++
    ", vaddr 0x" ++ hex vaddr ++ ")\n"

def fatalException (tf : Tf) : String :=
  "panic: Fatal exception " ++ decimal (trapcode tf) ++ " (" ++ codename (trapcode tf) ++
    ") in kernel mode\npanic: EPC 0x" ++ hex (tf .tfEpc) ++ ", exception vaddr 0x" ++
    hex (tf .tfVaddr) ++ "\nI can't handle this... I think I'll just die now...\n"

def busError (tf : Tf) : String := "Bus error exception, PC=0x" ++ hex (tf .tfEpc) ++ "\n"

/-! ## The handler -/

/-- Why `mips_trap` does not come back. -/
inductive TrapHalt where
  | code
  | stack
  | kstack
  | curspl
  | syscall (h : SyscallHalt)
  | handler
  | killed (message : String)
  | panic (message : String)

/-- What the handler reads of a thread. -/
structure TrapThread where
  tStack : Option Mips.Word
  pcbBadfaultfunc : Option Mips.Word

/-- What the handler calls, and the variables and constants that it reads. -/
structure TrapTable (σ : Type) where
  splHigh : Nat
  stackSize : Mips.Word
  curthread : Machine σ → Option TrapThread
  curkstack : Machine σ → Mips.Word
  sameStack : Mips.Word → Mips.Word → Bool
  mipsInterrupt : Mips.Word → Machine σ → Except TrapHalt (Machine σ)
  splx : Nat → Machine σ → Machine σ
  vmFault : FaultType → Mips.Word → Machine σ → Except TrapHalt (Mips.Word × Machine σ)

variable {σ : Type}

/-- The trapframe as `mips_syscall` sees it. -/
def view (tf : Tf) : Trapframe Tf where
  tfV0 := tf .tfV0
  tfA0 := tf .tfA0
  tfA1 := tf .tfA1
  tfA2 := tf .tfA2
  tfA3 := tf .tfA3
  tfEpc := tf .tfEpc
  rest := tf

def unview (t : Trapframe Tf) : Tf
  | .tfV0 => t.tfV0
  | .tfA0 => t.tfA0
  | .tfA1 => t.tfA1
  | .tfA2 => t.tfA2
  | .tfA3 => t.tfA3
  | .tfEpc => t.tfEpc
  | f => t.rest f

/-- The trapframe is on the stack of the current thread, if that has one. -/
def onStack (t : TrapTable σ) (address : Mips.Word) (m : Machine σ) : Bool :=
  match (t.curthread m).bind TrapThread.tStack with
  | none => true
  | some stack => stack < address ∧ address < stack + t.stackSize

/-- What stands at the label `done`. -/
def done (t : TrapTable σ) (address : Mips.Word) (savespl : Nat) (tf : Tf) (m : Machine σ) :
    Except TrapHalt (Tf × Machine σ) :=
  if t.sameStack (t.curkstack m - 1) address then .ok (tf, { m with curspl := savespl })
  else .error .kstack

/-- The switch over the codes: whether a fault has been dealt with. -/
def resolve (t : TrapTable σ) (tf : Tf) (m : Machine σ) : Except TrapHalt (Bool × Machine σ) :=
  match faulttype (trapcode tf) with
  | some faulttype => do
    let (err, m) ← t.vmFault faulttype (tf .tfVaddr) m
    return (err = 0, m)
  | none =>
    if trapcode tf = exIbe ∨ trapcode tf = exDbe then .error (.panic (busError tf))
    else .ok (false, m)

/-- A fatal fault: the trapframe to go on with, if the kernel has been expecting one. -/
def fatal (t : TrapTable σ) (tf : Tf) (m : Machine σ) : Except TrapHalt Tf :=
  if ¬Iskern tf then .error (.killed (fatalTrap (tf .tfEpc) (trapcode tf) (tf .tfVaddr)))
  else
    match (t.curthread m).bind TrapThread.pcbBadfaultfunc with
    | some badfaultfunc => .ok (Function.update tf .tfEpc badfaultfunc)
    | none => .error (.panic (fatalException tf))

/-- `address` is where the trapframe is, and `stack` what the stack has for the local variables of
`mips_syscall`. -/
def mipsTrap (t : TrapTable σ) (sys : SyscallTable Tf σ) (stack : Register) (address : Mips.Word)
    (tf : Tf) (m : Machine σ) : Except TrapHalt (Tf × Machine σ) := do
  let savespl := m.curspl
  let m := { m with curspl := t.splHigh }
  if ntrapcodes ≤ (trapcode tf).toNat then throw .code
  if ¬onStack t address m then throw .stack
  if trapcode tf = exIrq then
    let m ← t.mipsInterrupt (tf .tfCause) m
    done t address savespl tf m
  else
    let m := t.splx savespl m
    if trapcode tf = exSys then
      if m.curspl ≠ 0 then throw .curspl
      match mipsSyscall sys stack (view tf) m with
      | .error h => throw (.syscall h)
      | .ok ((_, tf'), m) => done t address savespl (unview tf') m
    else
      let (resolved, m) ← resolve t tf m
      if resolved then done t address savespl tf m
      else
        let tf ← fatal t tf m
        done t address savespl tf m

/-! ## What becomes of the trapframe -/

variable {t : TrapTable σ} {sys : SyscallTable Tf σ} {stack : Register} {address : Mips.Word}
  {tf tf' : Tf} {m m' : Machine σ} {savespl : Nat}

/-- What can have become of the trapframe when the handler comes back. -/
inductive Outcome (sys : SyscallTable Tf σ) (stack : Register) (tf : Tf) : Tf → Prop
  | interrupt (hCode : trapcode tf = exIrq) : Outcome sys stack tf tf
  | syscall {locals : SyscallLocals} {tf₁ : Trapframe Tf} {m m' : Machine σ}
      (hCode : trapcode tf = exSys)
      (hCall : mipsSyscall sys stack (view tf) m = .ok ((locals, tf₁), m')) :
      Outcome sys stack tf (unview tf₁)
  | resolved (hFault : faulttype (trapcode tf) ≠ none) : Outcome sys stack tf tf
  | badfault (hKern : Iskern tf) (hIrq : trapcode tf ≠ exIrq) (hSys : trapcode tf ≠ exSys)
      (badfaultfunc : Mips.Word) : Outcome sys stack tf (Function.update tf .tfEpc badfaultfunc)

theorem done_eq_ok (h : done t address savespl tf m = .ok (tf', m')) :
    tf' = tf ∧ m'.curspl = savespl := by
  unfold done at h
  split at h
  · cases h
    exact ⟨rfl, rfl⟩
  · cases h

theorem fatal_eq_ok (h : fatal t tf m = .ok tf') :
    Iskern tf ∧ ∃ badfaultfunc, tf' = Function.update tf .tfEpc badfaultfunc := by
  unfold fatal at h
  split at h
  · cases h
  · rename_i hKern
    split at h
    · cases h
      exact ⟨not_not.mp hKern, _, rfl⟩
    · cases h

theorem resolve_eq_ok (h : resolve t tf m = .ok (true, m')) : faulttype (trapcode tf) ≠ none := by
  intro hNone
  unfold resolve at h
  rw [hNone] at h
  dsimp only at h
  split at h <;> cases h

/-- When the handler comes back, the level of the context before is back too. -/
theorem mipsTrap_outcome (h : mipsTrap t sys stack address tf m = .ok (tf', m')) :
    Outcome sys stack tf tf' ∧ m'.curspl = m.curspl := by
  unfold mipsTrap at h
  by_cases hCode : ntrapcodes ≤ (trapcode tf).toNat
  · rw [if_pos hCode] at h
    cases h
  rw [if_neg hCode] at h
  by_cases hStack : onStack t address { m with curspl := t.splHigh } = true
  swap
  · rw [if_pos hStack] at h
    cases h
  rw [if_neg (not_not_intro hStack)] at h
  by_cases hIrq : trapcode tf = exIrq
  · rw [if_pos hIrq] at h
    obtain ⟨m₁, -, hDone⟩ := bind_eq_ok.mp h
    obtain ⟨rfl, hLevel⟩ := done_eq_ok hDone
    exact ⟨.interrupt hIrq, hLevel⟩
  rw [if_neg hIrq] at h
  dsimp only at h
  by_cases hSys : trapcode tf = exSys
  · rw [if_pos hSys] at h
    by_cases hSpl : (t.splx m.curspl { m with curspl := t.splHigh }).curspl = 0
    swap
    · rw [if_pos hSpl] at h
      cases h
    rw [if_neg (not_not_intro hSpl)] at h
    cases hCall : mipsSyscall sys stack (view tf)
        (t.splx m.curspl { m with curspl := t.splHigh }) with
    | error e =>
      rw [hCall] at h
      cases h
    | ok r =>
      obtain ⟨⟨locals, tf₁⟩, m₁⟩ := r
      rw [hCall] at h
      obtain ⟨rfl, hLevel⟩ := done_eq_ok h
      exact ⟨.syscall hSys hCall, hLevel⟩
  · rw [if_neg hSys] at h
    obtain ⟨⟨resolved, m₁⟩, hResolve, hRest⟩ := bind_eq_ok.mp h
    cases resolved with
    | true =>
      obtain ⟨rfl, hLevel⟩ := done_eq_ok hRest
      exact ⟨.resolved (resolve_eq_ok hResolve), hLevel⟩
    | false =>
      obtain ⟨tf₁, hFatal, hDone⟩ := bind_eq_ok.mp hRest
      obtain ⟨rfl, hLevel⟩ := done_eq_ok hDone
      obtain ⟨hKern, badfaultfunc, rfl⟩ := fatal_eq_ok hFatal
      exact ⟨.badfault hKern hIrq hSys badfaultfunc, hLevel⟩

/-! ## The saved trapframe -/

section Saved

variable {c d : Core} {x : Exception}

/-- The code of an exception. -/
def causeCode (x : Exception) : Mips.Word := (x.cause &&& ccaCode) >>> ccaCodeshift

/-- The mark for the other vector is not part of the code. -/
theorem trapcode_savedTrapframe (c : Core) (x : Exception) :
    trapcode (savedTrapframe c x) = causeCode x := by
  unfold trapcode causeCode savedTrapframe markedCause
  cases x.vector with
  | general => rfl
  | utlb =>
    have hMark : (x.cause ||| 1#32) &&& ccaCode = x.cause &&& ccaCode := by
      ext i hi
      unfold ccaCode
      interval_cases i <;> simp
    show ((x.cause ||| 1#32) &&& ccaCode) >>> ccaCodeshift = _
    rw [hMark]

theorem iskern_savedTrapframe (c : Core) (x : Exception) :
    Iskern (savedTrapframe c x) ↔ ¬FromUser c := pushModes_and_eq_zero.trans not_not.symm

/-- The mode is back. -/
theorem fromUser_of_status (h : d.cp0 .status = popModes (pushModes (c.cp0 .status))) :
    FromUser d ↔ FromUser c := by
  have hBit := userBit_eq (modes_popModes_pushModes (c.cp0 .status))
  unfold FromUser
  rw [h, hBit]

/-- A system call changes two registers, and goes on at the next instruction. -/
theorem unview_syscallReturn (stack : Register) (locals : SyscallLocals) (tf : Tf) {f : TfField}
    (hV0 : f ≠ .tfV0) (hA3 : f ≠ .tfA3) (hEpc : f ≠ .tfEpc) :
    unview (syscallReturn stack locals (view tf)) f = tf f := by
  unfold syscallReturn
  dsimp only
  cases f <;> first | contradiction | (split <;> rfl)

theorem unview_syscallReturn_epc (stack : Register) (locals : SyscallLocals) (tf : Tf) :
    unview (syscallReturn stack locals (view tf)) .tfEpc = tf .tfEpc + 4 := by
  unfold syscallReturn
  dsimp only
  split <;> rfl

theorem tfField_ne {r : Reg} {f : TfField} (h : tfField r = some f) :
    (r ≠ .v0 → f ≠ .tfV0) ∧ (r ≠ .a3 → f ≠ .tfA3) ∧ f ≠ .tfEpc := by
  cases r <;> cases h <;> decide

end Saved

/-! ## What a program sees -/

section Programs

variable {code : Mips.Word → Option Instr} {sym : ExceptionEntry.Symbols} {c e : Core}
  {x : Exception} {k k' : Machine σ}

/-- The registers are those of `c`, apart from `rs` and those that are the kernel's. -/
structure SameProgram (rs : List Reg) (c d : Core) : Prop where
  get : ∀ r, r ∉ rs → r ≠ .k0 → r ≠ .k1 → d.get r = c.get r
  hi : d.hi = c.hi
  lo : d.lo = c.lo

/-- An exception after which a program goes on as if nothing had happened, or a system call, which
answers in two registers. -/
inductive Seen (sys : SyscallTable Tf σ) (stack : Register) (c : Core) (x : Exception) (d : Core) :
    Mips.Word → Prop
  | unseen (hCode : causeCode x = exIrq ∨ faulttype (causeCode x) ≠ none)
      (hSame : SameProgram [] c d) : Seen sys stack c x d x.epc
  | syscall {locals : SyscallLocals} {tf₁ : Trapframe Tf} {m m' : Machine σ}
      (hCode : causeCode x = exSys)
      (hCall : mipsSyscall sys stack (view (savedTrapframe c x)) m = .ok ((locals, tf₁), m'))
      (hV0 : d.get .v0 = tf₁.tfV0) (hA3 : d.get .a3 = tf₁.tfA3)
      (hSame : SameProgram [.v0, .a3] c d) : Seen sys stack c x d (x.epc + 4)

/-- What is restored from a trapframe that agrees with the saved one. -/
theorem Restored.sameProgram {tf : Tf} {d : Core} {rs : List Reg} (h : Restored tf e d)
    (hFields : ∀ r f, tfField r = some f → r ∉ rs → tf f = savedTrapframe c x f)
    (hHi : tf .tfHi = c.hi) (hLo : tf .tfLo = c.lo) : SameProgram rs c d where
  get r hr hK0 hK1 := by
    cases hField : tfField r with
    | none =>
      cases r <;> cases hField
      rfl
    | some f =>
      rw [h.get r f hField hK0 hK1, hFields r f hField hr,
        savedTrapframe_tfField c x hField hK0 hK1]
  hi := h.hi.trans hHi
  lo := h.lo.trans hLo

/-- The status of the trapframe stays, and with it the mode. -/
theorem Outcome.status {tf : Tf} (h : Outcome sys stack (savedTrapframe c x) tf) :
    tf .tfStatus = pushModes (c.cp0 .status) := by
  cases h with
  | interrupt | resolved => rfl
  | badfault => exact Function.update_of_ne (by decide) ..
  | syscall hCode hCall =>
    obtain ⟨-, hReturn⟩ := mipsSyscall_eq_ok hCall
    rw [hReturn, unview_syscallReturn stack _ _ (by decide) (by decide) (by decide)]
    rfl

/-- What goes on with the trapframe: a program, or code of the kernel that has been expecting the
fault. -/
theorem Outcome.seen {tf : Tf} {d : Core} (h : Outcome sys stack (savedTrapframe c x) tf)
    (hRestored : Restored tf e d) :
    Seen sys stack c x d (tf .tfEpc) ∨ ¬FromUser c ∧ SameProgram [] c d := by
  cases h with
  | interrupt hCode =>
    rw [trapcode_savedTrapframe] at hCode
    have hSame : SameProgram [] c d :=
      Restored.sameProgram (x := x) hRestored (fun _ _ _ _ => rfl) rfl rfl
    exact Or.inl (.unseen (Or.inl hCode) hSame)
  | resolved hFault =>
    rw [trapcode_savedTrapframe] at hFault
    have hSame : SameProgram [] c d :=
      Restored.sameProgram (x := x) hRestored (fun _ _ _ _ => rfl) rfl rfl
    exact Or.inl (.unseen (Or.inr hFault) hSame)
  | @syscall locals tf₁ m m' hCode hCall =>
    rw [trapcode_savedTrapframe] at hCode
    obtain ⟨-, hReturn⟩ := mipsSyscall_eq_ok hCall
    have hEpc : unview tf₁ .tfEpc = x.epc + 4 := by
      rw [hReturn, unview_syscallReturn_epc]
      rfl
    have hOther : ∀ f, f ≠ .tfV0 → f ≠ .tfA3 → f ≠ .tfEpc →
        unview tf₁ f = savedTrapframe c x f := by
      intro f hV0 hA3 hNe
      rw [hReturn, unview_syscallReturn stack locals _ hV0 hA3 hNe]
    have hHi := hOther .tfHi (by decide) (by decide) (by decide)
    have hLo := hOther .tfLo (by decide) (by decide) (by decide)
    rw [hEpc]
    refine Or.inl (.syscall hCode hCall (hRestored.get .v0 .tfV0 rfl (by decide) (by decide))
      (hRestored.get .a3 .tfA3 rfl (by decide) (by decide))
      (Restored.sameProgram (x := x) hRestored ?_ hHi hLo))
    intro r f hField hr
    obtain ⟨hV0, hA3, hNe⟩ := tfField_ne hField
    simp only [List.mem_cons, List.not_mem_nil, or_false, not_or] at hr
    exact hOther f (hV0 hr.1) (hA3 hr.2) hNe
  | badfault hKern _ _ badfaultfunc =>
    refine Or.inr ⟨(iskern_savedTrapframe c x).mp hKern,
      Restored.sameProgram (x := x) hRestored ?_ ?_ ?_⟩
    · intro r f hField _
      exact Function.update_of_ne (tfField_ne hField).2.2 ..
    · exact Function.update_of_ne (by decide) ..
    · exact Function.update_of_ne (by decide) ..

/-- **An exception of a user program.** When `mips_trap` comes back, the program goes on in user
mode, and it was an interrupt or a fault of the TLB that it does not see, or a system call. -/
theorem user_exception (hLinked : Linked code sym) (hDirect : Direct sym.curkstack)
    (hUser : FromUser c) (hRoom : HasRoom (stackTop sym c))
    (hTrap : Runs code (fetching (trapCore sym c x) sym.mipsTrap) (fetching e sym.trapReturn))
    (hSp : e.get .sp = (trapCore sym c x).get .sp)
    (hModel : mipsTrap t sys stack (trapframeAddress sym c) (savedTrapframe c x) k =
      .ok (trapframeAt e.mem (trapframeAddress sym c), k')) :
    ∃ d pc, Runs code (fetching (raise c x) x.vector.address) (fetching d pc) ∧ FromUser d ∧
      Seen sys stack c x d pc ∧ d.mem = e.mem ∧ k'.curspl = k.curspl := by
  have hEntry := runs_trapCore hLinked hDirect hRoom x
  have hExit := runs_trapReturn hLinked hRoom hSp
  obtain ⟨hOutcome, hLevel⟩ := mipsTrap_outcome hModel
  have hRestored : Restored (trapframeAt e.mem (trapframeAddress sym c)) e _ :=
    restored_returnedCore e (stackTop sym c)
  have hStatus := hRestored.status
  rw [hOutcome.status] at hStatus
  refine ⟨_, _, (hEntry.trans hTrap).trans hExit, (fromUser_of_status hStatus).mpr hUser, ?_,
    hRestored.mem, hLevel⟩
  rcases hOutcome.seen hRestored with hSeen | ⟨hKernel, -⟩
  · exact hSeen
  · exact absurd hUser hKernel

/-- Calls that answer at once, on a stack that is never looked at. -/
def sampleTable : TrapTable Unit where
  splHigh := 15
  stackSize := 4096
  curthread _ := none
  curkstack _ := 0x80020000
  sameStack _ _ := true
  mipsInterrupt _ m := .ok m
  splx spl m := { m with curspl := spl }
  vmFault _ _ m := .ok (0, m)

def sampleCalls : SyscallTable Tf Unit where
  sysReboot _ := return 0
  sysGetpid := return 0
  sysGetppid := return 0
  sysExecv _ _ := return 0
  sysFork _ := return 0
  sysWaitpid _ _ _ retval := return (0, retval)
  sysExit _ := return ()

def sampleMachine : Machine Unit := ⟨0, "", fun _ => none, ()⟩

/-- An interrupt. -/
def sampleInterrupt : Exception := ⟨.general, 0, 0, 0x400000⟩

theorem user_exception_sample : ∃ d pc,
    Runs ExceptionEntry.sampleCode (fetching (raise sampleUser sampleInterrupt) 0x80000080)
      (fetching d pc) ∧ FromUser d ∧ Seen sampleCalls 0 sampleUser sampleInterrupt d pc := by
  let e := trapCore ExceptionEntry.sampleSymbols sampleUser sampleInterrupt
  have hReturns : Runs ExceptionEntry.sampleCode (fetching e 0x80003000)
      (fetching e ExceptionEntry.sampleSymbols.trapReturn) :=
    .head (step_sample_jump _) (.single (step_sample_slot _ _))
  have hFrame : trapframeAt e.mem (trapframeAddress ExceptionEntry.sampleSymbols sampleUser) =
      savedTrapframe sampleUser sampleInterrupt := trapframeAt_savedCore _ _ _ _
  have hCode : trapcode (savedTrapframe sampleUser sampleInterrupt) = exIrq := rfl
  have hModel : mipsTrap sampleTable sampleCalls 0
      (trapframeAddress ExceptionEntry.sampleSymbols sampleUser)
      (savedTrapframe sampleUser sampleInterrupt) sampleMachine = .ok (trapframeAt e.mem
        (trapframeAddress ExceptionEntry.sampleSymbols sampleUser), sampleMachine) := by
    unfold mipsTrap
    rw [hFrame, hCode]
    rfl
  obtain ⟨d, pc, hRuns, hMode, hSeen, -⟩ := user_exception ExceptionEntry.linked_sample (by decide)
    (c := sampleUser) (by decide) ⟨by decide, by decide, by decide⟩ hReturns rfl hModel
  exact ⟨d, pc, hRuns, hMode, hSeen⟩

end Programs

/-! ## The way into user mode -/

section Usermode

variable {code : Mips.Word → Option Instr} {sym : ExceptionEntry.Symbols} {c : Core}

/-- `mips_usermode` up to the call of `asm_usermode`. -/
def mipsUsermode (t : TrapTable σ) (address : Mips.Word) (m : Machine σ) :
    Except TrapHalt (Machine σ) :=
  if t.sameStack (t.curkstack m - 1) address then .ok { m with curspl := 0 } else .error .kstack

/-- `CST_IRQMASK | CST_IEp | CST_KUp` -/
def userStatus : Mips.Word := 0xff00 ||| 0x4 ||| 0x8

/-- The trapframe that `md_usermode` makes. -/
def mdUsermode (argc argv stack entry : Mips.Word) : Tf
  | .tfStatus => userStatus
  | .tfEpc => entry
  | .tfA0 => argc
  | .tfA1 => argv
  | .tfSp => stack
  | _ => 0

/-- **`asm_usermode`.** The processor goes on with the trapframe. -/
theorem runs_asmUsermode (hLinked : Linked code sym) (hRoom : HasRoom (c.get .a0 + 148)) :
    ∃ d, Runs code (fetching c sym.asmUsermode)
        (fetching d (trapframeAt c.mem (c.get .a0) .tfEpc)) ∧
      Restored (trapframeAt c.mem (c.get .a0)) c d := by
  have hTf : c.get .a0 + 148 - 148 = c.get .a0 := BitVec.add_sub_cancel ..
  have hImm : (-16 : BitVec 16).signExtend 32 = -16#32 := by
    decide
  have hFrame : c.get .a0 + 148 - 164 = c.get .a0 + (-16 : BitVec 16).signExtend 32 := by
    rw [hImm]
    bv_omega
  have hJump : Runs code (fetching c sym.asmUsermode)
      (fetching (c.set .sp (c.get .a0 + 148 - 164)) sym.exceptionReturn) := by
    rw [hFrame]
    have hCode : At code sym.asmUsermode ([] ++ asmUsermode sym) := hLinked.asmUsermode
    exact runs_jump hCode rfl (by simp [Instr.jumps]) (by simp [Waits, Instr.loads]) rfl rfl
  have hSp : (c.set .sp (c.get .a0 + 148 - 164)).get .sp = c.get .a0 + 148 - 164 :=
    Core.get_set (by decide)
  have hReturn := runs_exceptionReturn hLinked hRoom hSp
  have hRestored := restored_returnedCore (c.set .sp (c.get .a0 + 148 - 164)) (c.get .a0 + 148)
  rw [Core.mem_set, hTf] at hReturn hRestored
  refine ⟨_, hJump.trans hReturn, ⟨hRestored.get, hRestored.hi, hRestored.lo, hRestored.status, ?_,
    ?_⟩⟩
  · rw [hRestored.mem, Core.mem_set]
  · rw [hRestored.tlb, Core.tlb_set]

/-- **A program starts.** It is in user mode with interrupts on, at its entry point, with its
arguments and its stack pointer, and nothing else is in its registers. -/
theorem program_starts {argc argv stack entry : Mips.Word} {m m' : Machine σ}
    (hLinked : Linked code sym) (hRoom : HasRoom (c.get .a0 + 148))
    (hModel : mipsUsermode t (c.get .a0) m = .ok m')
    (hFrame : trapframeAt c.mem (c.get .a0) = mdUsermode argc argv stack entry) :
    ∃ d, Runs code (fetching c sym.asmUsermode) (fetching d entry) ∧
      FromUser d ∧ d.cp0 .status &&& 1 ≠ 0 ∧ m'.curspl = 0 ∧
      d.get .a0 = argc ∧ d.get .a1 = argv ∧ d.get .sp = stack ∧
      (∀ r, r ∉ [Reg.a0, .a1, .sp, .k0, .k1] → d.get r = 0) ∧ d.hi = 0 ∧ d.lo = 0 ∧
      d.mem = c.mem ∧ d.tlb = c.tlb := by
  obtain ⟨d, hRuns, hRestored⟩ := runs_asmUsermode hLinked hRoom
  rw [hFrame] at hRuns hRestored
  have hStatus : d.cp0 .status = popModes userStatus := hRestored.status
  have hLevel : m'.curspl = 0 := by
    unfold mipsUsermode at hModel
    split at hModel
    · cases hModel
      rfl
    · cases hModel
  refine ⟨d, hRuns, ?_, ?_, hLevel, ?_, ?_, ?_, ?_, hRestored.hi, hRestored.lo, hRestored.mem,
    hRestored.tlb⟩
  · unfold FromUser
    rw [hStatus]
    decide
  · rw [hStatus]
    decide
  · exact hRestored.get .a0 .tfA0 rfl (by decide) (by decide)
  · exact hRestored.get .a1 .tfA1 rfl (by decide) (by decide)
  · exact hRestored.get .sp .tfSp rfl (by decide) (by decide)
  · intro r hr
    cases hField : tfField r with
    | none =>
      cases r <;> cases hField
      rfl
    | some f =>
      have hK : r ≠ .k0 ∧ r ≠ .k1 := by
        constructor <;> rintro rfl <;> exact hr (by decide)
      rw [hRestored.get r f hField hK.1 hK.2]
      cases r <;> cases hField <;> first | rfl | exact absurd (by decide) hr

/-- A processor with a trapframe at 0x80010f00, and its address in `a0`. -/
def sampleStart : Core where
  regs r := if r = .a0 then 0x80010f00 else 7
  hi := 7
  lo := 7
  mem a :=
    if a = 0x80010f00 + TfField.tfStatus.offset then userStatus
    else if a = 0x80010f00 + TfField.tfEpc.offset then 0x400000
    else if a = 0x80010f00 + TfField.tfA0.offset then 1
    else if a = 0x80010f00 + TfField.tfA1.offset then 0x7fffff00
    else if a = 0x80010f00 + TfField.tfSp.offset then 0x7ffffef0
    else 0
  cp0 _ := 0
  tlb _ := ⟨0, 0⟩

theorem program_starts_sample : ∃ d,
    Runs ExceptionEntry.sampleCode (fetching sampleStart 0x80004000) (fetching d 0x400000) ∧
      FromUser d ∧ d.get .sp = 0x7ffffef0 ∧ d.get .t0 = 0 := by
  have hFrame : trapframeAt sampleStart.mem (sampleStart.get .a0) =
      mdUsermode 1 0x7fffff00 0x7ffffef0 0x400000 := by
    funext f
    cases f <;> decide
  obtain ⟨d, hRuns, hMode, -, -, -, -, hSp, hRest, -⟩ := program_starts (t := sampleTable)
    (m := sampleMachine) ExceptionEntry.linked_sample ⟨by decide, by decide, by decide⟩ rfl hFrame
  exact ⟨d, hRuns, hMode, hSp, hRest .t0 (by decide)⟩

end Usermode

end Windborne.OS161.Trap
