import Windborne.Library.MipsFrames

/-!
# Entry points for exceptions

The code of `exception.S`, and the processor that takes an exception. The two handlers find a
stack and go on with the common code, which saves all registers in a trapframe, calls `mips_trap`
and gets the registers back from the trapframe.
-/

namespace Windborne.OS161.ExceptionEntry

open Library Library.Mips

/-! ## The code -/

/-- `CST_KUp`, the mode before the exception: set in user mode. -/
def cstKUp : BitVec 16 := 0x8

/-- Where the linker puts variables and functions. -/
structure Symbols where
  curkstack : Mips.Word
  commonException : Mips.Word
  mipsTrap : Mips.Word
  asmUsermode : Mips.Word

/-- The handlers up to the cause, which is what `rest` loads. -/
def handler (sym : Symbols) (rest : List Instr) : List Instr := ([
  .move .k1 .sp,
  .mfc0 .k0 .status,
  .andi .k0 .k0 cstKUp,
  .beq .k0 .zero 5,
  .nop] : List Instr) ++
  la .k0 sym.curkstack ++ ([
  .lw .sp 0 .k0,
  .nop] : List Instr) ++ rest

/-- At address 0x80000000. -/
def utlbException (sym : Symbols) : List Instr := handler sym [
  .mfc0 .k0 .cause,
  .ori .k0 .k0 1,
  .j sym.commonException,
  .nop]

/-- At address 0x80000080. -/
def exception (sym : Symbols) : List Instr := handler sym [
  .mfc0 .k0 .cause,
  .j sym.commonException,
  .nop]

/-- `common_exception` up to the call. -/
def saveRegisters : List Instr := [
  .addi .sp .sp (-164),
  .sw .ra 160 .sp,
  .sw .s8 156 .sp,
  .sw .sp 152 .sp,
  .sw .gp 148 .sp,
  .sw .k1 144 .sp,
  .sw .k0 140 .sp,
  .sw .k1 152 .sp,
  .nop,
  .mfc0 .k1 .epc,
  .sw .k1 160 .sp,
  .sw .t9 136 .sp,
  .sw .t8 132 .sp,
  .sw .s7 128 .sp,
  .sw .s6 124 .sp,
  .sw .s5 120 .sp,
  .sw .s4 116 .sp,
  .sw .s3 112 .sp,
  .sw .s2 108 .sp,
  .sw .s1 104 .sp,
  .sw .s0 100 .sp,
  .sw .t7 96 .sp,
  .sw .t6 92 .sp,
  .sw .t5 88 .sp,
  .sw .t4 84 .sp,
  .sw .t3 80 .sp,
  .sw .t2 76 .sp,
  .sw .t1 72 .sp,
  .sw .t0 68 .sp,
  .sw .a3 64 .sp,
  .sw .a2 60 .sp,
  .sw .a1 56 .sp,
  .sw .a0 52 .sp,
  .sw .v1 48 .sp,
  .sw .v0 44 .sp,
  .sw .AT 40 .sp,
  .sw .ra 36 .sp,
  .mfhi .t0,
  .mflo .t1,
  .sw .t0 32 .sp,
  .sw .t1 28 .sp,
  .sw .k0 24 .sp,
  .mfc0 .t1 .status,
  .sw .t1 20 .sp,
  .mfc0 .t2 .vaddr,
  .sw .t2 16 .sp,
  .sw .zero 12 .sp,
  .addiu .a0 .sp 16]

def callMipsTrap (sym : Symbols) : List Instr := [
  .jal sym.mipsTrap,
  .nop]

/-- `exception_return` up to the jump. -/
def restoreRegisters : List Instr := [
  .lw .t0 20 .sp,
  .nop,
  .mtc0 .t0 .status,
  .lw .t1 28 .sp,
  .lw .t0 32 .sp,
  .mtlo .t1,
  .mthi .t0,
  .lw .ra 36 .sp,
  .lw .AT 40 .sp,
  .lw .v0 44 .sp,
  .lw .v1 48 .sp,
  .lw .a0 52 .sp,
  .lw .a1 56 .sp,
  .lw .a2 60 .sp,
  .lw .a3 64 .sp,
  .lw .t0 68 .sp,
  .lw .t1 72 .sp,
  .lw .t2 76 .sp,
  .lw .t3 80 .sp,
  .lw .t4 84 .sp,
  .lw .t5 88 .sp,
  .lw .t6 92 .sp,
  .lw .t7 96 .sp,
  .lw .s0 100 .sp,
  .lw .s1 104 .sp,
  .lw .s2 108 .sp,
  .lw .s3 112 .sp,
  .lw .s4 116 .sp,
  .lw .s5 120 .sp,
  .lw .s6 124 .sp,
  .lw .s7 128 .sp,
  .lw .t8 132 .sp,
  .lw .t9 136 .sp,
  .lw .gp 148 .sp,
  .lw .s8 156 .sp,
  .lw .k0 160 .sp,
  .lw .sp 152 .sp]

def exceptionReturn : List Instr := restoreRegisters ++ ([
  .jr .k0,
  .rfe] : List Instr)

/-- With the instruction that is there for gdb. -/
def commonException (sym : Symbols) : List Instr :=
  saveRegisters ++ callMipsTrap sym ++ [.nop] ++ exceptionReturn

/-- The address of the label `exception_return`. -/
def Symbols.exceptionReturn (sym : Symbols) : Mips.Word :=
  sym.commonException +
    BitVec.ofNat 32 (4 * (saveRegisters ++ callMipsTrap sym ++ [Instr.nop]).length)

def asmUsermode (sym : Symbols) : List Instr := [
  .j sym.exceptionReturn,
  .addiu .sp .a0 (-16)]

/-! ## Exceptions -/

inductive Vector where
  | utlb
  | general

def Vector.address : Vector → Mips.Word
  | utlb => 0x80000000
  | general => 0x80000080

/-- What the processor knows about an exception. -/
structure Exception where
  vector : Vector
  cause : Mips.Word
  vaddr : Mips.Word
  epc : Mips.Word

/-- The registers of the coprocessor when an exception has been taken. -/
def raise (c : Core) (x : Exception) : Core :=
  (((c.setCp0 .status (pushModes (c.cp0 .status))).setCp0 .cause x.cause).setCp0 .vaddr
    x.vaddr).setCp0 .epc x.epc

/-- The code is where the linker has put it, and the handlers are at the vectors. -/
structure Linked (code : Mips.Word → Option Instr) (sym : Symbols) : Prop where
  utlbException : At code 0x80000000 (utlbException sym)
  exception : At code 0x80000080 (exception sym)
  commonException : At code sym.commonException (commonException sym)
  asmUsermode : At code sym.asmUsermode (asmUsermode sym)

/-! ## Trapframes -/

/-- The members of `struct trapframe`, one word each, in this order. -/
inductive TfField where
  | tfVaddr | tfStatus | tfCause | tfLo | tfHi | tfRa | tfAt | tfV0 | tfV1
  | tfA0 | tfA1 | tfA2 | tfA3 | tfT0 | tfT1 | tfT2 | tfT3 | tfT4 | tfT5 | tfT6 | tfT7
  | tfS0 | tfS1 | tfS2 | tfS3 | tfS4 | tfS5 | tfS6 | tfS7 | tfT8 | tfT9
  | tfK0 | tfK1 | tfGp | tfSp | tfS8 | tfEpc
  deriving DecidableEq

def TfField.offset (f : TfField) : Mips.Word := 4 * BitVec.ofNat 32 f.ctorIdx

/-- The member for a register, except for `$0`. -/
def tfField : Reg → Option TfField
  | .zero => none
  | .AT => some .tfAt
  | .v0 => some .tfV0
  | .v1 => some .tfV1
  | .a0 => some .tfA0
  | .a1 => some .tfA1
  | .a2 => some .tfA2
  | .a3 => some .tfA3
  | .t0 => some .tfT0
  | .t1 => some .tfT1
  | .t2 => some .tfT2
  | .t3 => some .tfT3
  | .t4 => some .tfT4
  | .t5 => some .tfT5
  | .t6 => some .tfT6
  | .t7 => some .tfT7
  | .s0 => some .tfS0
  | .s1 => some .tfS1
  | .s2 => some .tfS2
  | .s3 => some .tfS3
  | .s4 => some .tfS4
  | .s5 => some .tfS5
  | .s6 => some .tfS6
  | .s7 => some .tfS7
  | .t8 => some .tfT8
  | .t9 => some .tfT9
  | .k0 => some .tfK0
  | .k1 => some .tfK1
  | .gp => some .tfGp
  | .sp => some .tfSp
  | .s8 => some .tfS8
  | .ra => some .tfRa

/-- What memory has for a trapframe. -/
def trapframeAt (mem : Memory) (tf : Mips.Word) (f : TfField) : Mips.Word := mem (tf + f.offset)

/-- The cause that the handlers pass on: bit 0 marks those of the other vector. -/
def markedCause (x : Exception) : Mips.Word :=
  match x.vector with
  | .utlb => x.cause ||| 1
  | .general => x.cause

/-- What is to be saved of an interrupted computation. The members for `k0` and `k1` are not of
use to it. -/
def savedTrapframe (c : Core) (x : Exception) : TfField → Mips.Word
  | .tfVaddr => x.vaddr
  | .tfStatus => pushModes (c.cp0 .status)
  | .tfCause => markedCause x
  | .tfLo => c.lo
  | .tfHi => c.hi
  | .tfRa => c.get .ra
  | .tfAt => c.get .AT
  | .tfV0 => c.get .v0
  | .tfV1 => c.get .v1
  | .tfA0 => c.get .a0
  | .tfA1 => c.get .a1
  | .tfA2 => c.get .a2
  | .tfA3 => c.get .a3
  | .tfT0 => c.get .t0
  | .tfT1 => c.get .t1
  | .tfT2 => c.get .t2
  | .tfT3 => c.get .t3
  | .tfT4 => c.get .t4
  | .tfT5 => c.get .t5
  | .tfT6 => c.get .t6
  | .tfT7 => c.get .t7
  | .tfS0 => c.get .s0
  | .tfS1 => c.get .s1
  | .tfS2 => c.get .s2
  | .tfS3 => c.get .s3
  | .tfS4 => c.get .s4
  | .tfS5 => c.get .s5
  | .tfS6 => c.get .s6
  | .tfS7 => c.get .s7
  | .tfT8 => c.get .t8
  | .tfT9 => c.get .t9
  | .tfK0 => markedCause x
  | .tfK1 => c.get .sp
  | .tfGp => c.get .gp
  | .tfSp => c.get .sp
  | .tfS8 => c.get .s8
  | .tfEpc => x.epc

/-- Every register but `k0` and `k1` is saved. -/
theorem savedTrapframe_tfField (c : Core) (x : Exception) {r : Reg} {f : TfField}
    (h : tfField r = some f) (hk0 : r ≠ .k0) (hk1 : r ≠ .k1) :
    savedTrapframe c x f = c.get r := by
  cases r <;> cases h <;> first | rfl | exact absurd rfl hk0 | exact absurd rfl hk1

/-- The processor was in user mode. -/
def FromUser (c : Core) : Prop := c.cp0 .status &&& 0x2#32 ≠ 0#32

instance : DecidablePred FromUser := fun _ => inferInstanceAs (Decidable (_ ≠ _))

/-- The top of the stack that an exception uses: the own one in the kernel. -/
def stackTop (sym : Symbols) (c : Core) : Mips.Word :=
  if FromUser c then c.mem sym.curkstack else c.get .sp

/-- A trapframe and the arguments of a call. -/
abbrev HasRoom (top : Mips.Word) : Prop := Room 164 top

/-- The address is one of the frame below `top`. -/
abbrev InFrame (top a : Mips.Word) : Prop := Below 164 top a

/-! ## The handlers -/

section Handlers

variable {code : Mips.Word → Option Instr} {sym : Symbols} {c h : Core} {x : Exception}
  {top : Mips.Word}

/-- On the stack of the kernel, with the old stack pointer in `k1`. -/
def stackedCore (c : Core) (x : Exception) (top k0 : Mips.Word) : Core :=
  (((raise c x).set .k1 (c.get .sp)).set .sp top).set .k0 k0

theorem stackedCore_set_k0 {k0 v : Mips.Word} :
    (stackedCore c x top k0).set .k0 v = stackedCore c x top v := Core.set_set

theorem stackedCore_set_sp {k0 v : Mips.Word} :
    (stackedCore c x top k0).set .sp v = stackedCore c x v k0 := by
  unfold stackedCore
  rw [Core.set_comm (by decide), Core.set_set]

/-- The mode is looked at in `k0`. -/
def modeInK0 (c : Core) (x : Exception) : Core :=
  stackedCore c x (c.get .sp) (pushModes (c.cp0 .status) &&& 0x8#32)

theorem run_modes (c : Core) (x : Exception) :
    run [.move .k1 .sp, .mfc0 .k0 .status, .andi .k0 .k0 cstKUp] (raise c x) =
      .ok (modeInK0 c x) := by
  have hSp : ((raise c x).set .k1 (c.get .sp)).set .sp (c.get .sp) =
      (raise c x).set .k1 (c.get .sp) := Core.set_get
  unfold modeInK0 stackedCore
  rw [hSp, ← Core.set_set (v := pushModes (c.cp0 .status))]
  rfl

theorem modeInK0_eq_zero (c : Core) (x : Exception) :
    (modeInK0 c x).get .k0 = (modeInK0 c x).get .zero ↔ ¬FromUser c :=
  pushModes_and_eq_zero.trans not_not.symm

/-- The handlers are a look at the mode, the stack of the thread, and the cause. -/
theorem at_handler {pc : Mips.Word} {rest : List Instr} (h : At code pc (handler sym rest)) :
    At code pc (([.move .k1 .sp, .mfc0 .k0 .status, .andi .k0 .k0 cstKUp] : List Instr) ++
      ([.beq .k0 .zero 5, .nop] : List Instr)) ∧
    At code (pc + 20) (la .k0 sym.curkstack ++ ([.lw .sp 0 .k0, .nop] : List Instr)) ∧
    At code (pc + 36) rest := by
  have hParts : At code pc (([.move .k1 .sp, .mfc0 .k0 .status, .andi .k0 .k0 cstKUp] :
      List Instr) ++ ([.beq .k0 .zero 5, .nop] : List Instr) ++
      (la .k0 sym.curkstack ++ ([.lw .sp 0 .k0, .nop] : List Instr) ++ rest)) := h
  obtain ⟨hModes, hTail⟩ := at_append.mp hParts
  obtain ⟨hStack, hRest⟩ := at_append.mp hTail
  refine ⟨hModes, hStack, ?_⟩
  rw [BitVec.add_assoc] at hRest
  exact hRest

/-- The branch is taken in the kernel. -/
theorem runs_modes {pc : Mips.Word} (hCode : At code pc (([.move .k1 .sp, .mfc0 .k0 .status,
    .andi .k0 .k0 cstKUp] : List Instr) ++ ([.beq .k0 .zero 5, .nop] : List Instr))) (c : Core)
    (x : Exception) :
    Runs code (fetching (raise c x) pc)
      (fetching (modeInK0 c x) (if FromUser c then pc + 20 else pc + 36)) := by
  have hJump := runs_jump (d := modeInK0 c x) hCode rfl (by decide) (by decide) (run_modes c x) rfl
  have hTarget : (Instr.jump (pc + 12) (modeInK0 c x) (.beq .k0 .zero 5)).getD (pc + 12 + 8) =
      if FromUser c then pc + 20 else pc + 36 := by
    by_cases hUser : FromUser c
    · rw [if_pos hUser, Instr.jump, if_neg (mt (modeInK0_eq_zero c x).mp (not_not_intro hUser))]
      exact BitVec.add_assoc ..
    · rw [if_neg hUser, Instr.jump, if_pos ((modeInK0_eq_zero c x).mpr hUser), BitVec.add_assoc,
        BitVec.add_assoc]
      rfl
  rw [← hTarget]
  exact hJump

/-- From user mode the stack pointer is that of `curkstack`. -/
theorem runs_curkstack {pc : Mips.Word} (top k0 : Mips.Word)
    (hCode : At code pc (la .k0 sym.curkstack ++ ([.lw .sp 0 .k0, .nop] : List Instr)))
    (hDirect : Direct sym.curkstack) :
    Runs code (fetching (stackedCore c x top k0) pc)
      (fetching (stackedCore c x (c.mem sym.curkstack) sym.curkstack) (pc + 16)) := by
  have hAddress : (stackedCore c x top sym.curkstack).get .k0 + (0 : BitVec 16).signExtend 32 =
      sym.curkstack := BitVec.add_zero _
  have hLoad : (Instr.lw .sp 0 .k0).exec (stackedCore c x top sym.curkstack) =
      .ok (stackedCore c x (c.mem sym.curkstack) sym.curkstack) := by
    rw [exec_lw (by rwa [hAddress]), hAddress, stackedCore_set_sp]
    rfl
  have hRun : run (la .k0 sym.curkstack ++ ([.lw .sp 0 .k0, .nop] : List Instr))
      (stackedCore c x top k0) =
      .ok (stackedCore c x (c.mem sym.curkstack) sym.curkstack) := by
    rw [run_la (by decide), stackedCore_set_k0, run_cons hLoad]
    rfl
  refine runs_straight hCode (by simp [la, Instr.jumps]) ?_ hRun
  simp [la, Waits, Instr.mentions, Instr.loads]

/-- **The handlers.** Both come to what loads the cause, on the stack of the kernel. -/
theorem runs_handler {pc : Mips.Word} {rest : List Instr} (hCode : At code pc (handler sym rest))
    (hDirect : Direct sym.curkstack) (c : Core) (x : Exception) :
    ∃ k0, Runs code (fetching (raise c x) pc)
      (fetching (stackedCore c x (stackTop sym c) k0) (pc + 36)) := by
  obtain ⟨hModes, hStack, -⟩ := at_handler hCode
  have hLook := runs_modes hModes c x
  by_cases hUser : FromUser c
  · have hRuns := runs_curkstack (c := c) (x := x) (c.get .sp)
      (pushModes (c.cp0 .status) &&& 0x8#32) hStack hDirect
    rw [if_pos hUser] at hLook
    rw [BitVec.add_assoc] at hRuns
    rw [stackTop, if_pos hUser]
    exact ⟨_, hLook.trans hRuns⟩
  · rw [if_neg hUser] at hLook
    rw [stackTop, if_neg hUser]
    exact ⟨_, hLook⟩

/-- What the common code starts with. -/
def enteredCore (sym : Symbols) (c : Core) (x : Exception) : Core :=
  stackedCore c x (stackTop sym c) (markedCause x)

theorem run_cause_utlb (k0 : Mips.Word) (hVector : x.vector = .utlb) :
    run [.mfc0 .k0 .cause, .ori .k0 .k0 1] (stackedCore c x top k0) =
      .ok (stackedCore c x top (markedCause x)) := by
  calc
    _ = Except.ok (((stackedCore c x top k0).set .k0 x.cause).set .k0 (x.cause ||| 1)) := rfl
    _ = _ := by rw [Core.set_set, stackedCore_set_k0, markedCause, hVector]

theorem run_cause_general (k0 : Mips.Word) (hVector : x.vector = .general) :
    run [.mfc0 .k0 .cause] (stackedCore c x top k0) =
      .ok (stackedCore c x top (markedCause x)) := by
  calc
    _ = Except.ok ((stackedCore c x top k0).set .k0 x.cause) := rfl
    _ = _ := by rw [stackedCore_set_k0, markedCause, hVector]

/-- An exception gets to the common code. -/
theorem runs_vector (hLinked : Linked code sym) (hDirect : Direct sym.curkstack) (c : Core)
    (x : Exception) :
    Runs code (fetching (raise c x) x.vector.address)
      (fetching (enteredCore sym c x) sym.commonException) := by
  cases hVector : x.vector with
  | utlb =>
    have hCode := hLinked.utlbException
    obtain ⟨k0, hRuns⟩ := runs_handler hCode hDirect c x
    have hTail := runs_jump (d := enteredCore sym c x)
      (at_handler hCode).2.2 rfl (by simp [Instr.jumps]) (by simp [Waits, Instr.loads])
      (run_cause_utlb k0 hVector) rfl
    exact hRuns.trans hTail
  | general =>
    have hCode := hLinked.exception
    obtain ⟨k0, hRuns⟩ := runs_handler hCode hDirect c x
    have hTail := runs_jump (d := enteredCore sym c x)
      (at_handler hCode).2.2 rfl (by simp [Instr.jumps]) (by simp [Waits, Instr.loads])
      (run_cause_general k0 hVector) rfl
    exact hRuns.trans hTail

/-! ## Saving -/

theorem HasRoom.direct (hRoom : HasRoom top) {o : BitVec 16} (hAligned : o.toNat % 4 = 0)
    (hInside : o.toNat < 164) : Direct (top - 164 + o.signExtend 32) :=
  Room.direct hRoom (by decide) (by decide) hAligned hInside

def savedFirst : List (Reg × BitVec 16) := [
  (.ra, 160), (.s8, 156), (.sp, 152), (.gp, 148), (.k1, 144), (.k0, 140), (.k1, 152)]

def savedGeneral : List (Reg × BitVec 16) := [
  (.k1, 160), (.t9, 136), (.t8, 132), (.s7, 128), (.s6, 124), (.s5, 120), (.s4, 116), (.s3, 112),
  (.s2, 108), (.s1, 104), (.s0, 100), (.t7, 96), (.t6, 92), (.t5, 88), (.t4, 84), (.t3, 80),
  (.t2, 76), (.t1, 72), (.t0, 68), (.a3, 64), (.a2, 60), (.a1, 56), (.a0, 52), (.v1, 48),
  (.v0, 44), (.AT, 40), (.ra, 36)]

def savedProducts : List (Reg × BitVec 16) := [(.t0, 32), (.t1, 28), (.k0, 24)]

def savedStatus : List (Reg × BitVec 16) := [(.t1, 20)]

def savedVaddr : List (Reg × BitVec 16) := [(.t2, 16), (.zero, 12)]

theorem saveRegisters_eq : saveRegisters =
    .addi .sp .sp (-164) :: (stores .sp savedFirst ++
      .nop :: .mfc0 .k1 .epc :: (stores .sp savedGeneral ++
        .mfhi .t0 :: .mflo .t1 :: (stores .sp savedProducts ++
          .mfc0 .t1 .status :: (stores .sp savedStatus ++
            .mfc0 .t2 .vaddr :: (stores .sp savedVaddr ++
              ([.addiu .a0 .sp 16] : List Instr)))))) := rfl

theorem run_save {is : List Instr} {xs : List (Reg × BitVec 16)} (hRoom : HasRoom top)
    (hSp : h.get .sp = top - 164) (hOffsets : ∀ x ∈ xs, x.2.toNat % 4 = 0 ∧ x.2.toNat < 164) :
    run (stores .sp xs ++ is) h = run is (h.store .sp xs) := by
  apply run_stores
  intro x hx
  rw [hSp]
  exact hRoom.direct (hOffsets x hx).1 (hOffsets x hx).2

/-- The registers and the memory at the call of `mips_trap`. -/
def savedCore (h : Core) (top : Mips.Word) : Core :=
  let c := (h.set .sp (top - 164)).store .sp savedFirst
  let c := (c.set .k1 (h.cp0 .epc)).store .sp savedGeneral
  let c := ((c.set .t0 h.hi).set .t1 h.lo).store .sp savedProducts
  let c := (c.set .t1 (h.cp0 .status)).store .sp savedStatus
  let c := (c.set .t2 (h.cp0 .vaddr)).store .sp savedVaddr
  c.set .a0 (top - 148)

theorem run_saveRegisters (hRoom : HasRoom top) (hSp : h.get .sp = top) :
    run saveRegisters h = .ok (savedCore h top) := by
  have hPush : (Instr.addi .sp .sp (-164)).exec h = .ok (h.set .sp (top - 164)) :=
    Room.exec_push hRoom (by decide) (by decide) hSp
  have hBase : top - 164 + 16 = top - 148 := by
    bv_omega
  rw [saveRegisters_eq, run_cons hPush, run_save hRoom rfl (by decide), run_cons rfl, run_cons rfl,
    run_save hRoom rfl (by decide), run_cons rfl, run_cons rfl, run_save hRoom rfl (by decide),
    run_cons rfl, run_save hRoom rfl (by decide), run_cons rfl, run_save hRoom rfl (by decide),
    run_cons rfl]
  unfold savedCore
  rw [← hBase]
  rfl

/-- All that is written to the frame. -/
def frameWrites (h : Core) (top : Mips.Word) : List (Mips.Word × Mips.Word) :=
  let pushed := h.set .sp (top - 164)
  pushed.saved savedFirst ++ (pushed.set .k1 (h.cp0 .epc)).saved savedGeneral ++
    ((pushed.set .t0 h.hi).set .t1 h.lo).saved savedProducts ++
    (pushed.set .t1 (h.cp0 .status)).saved savedStatus ++
    (pushed.set .t2 (h.cp0 .vaddr)).saved savedVaddr

theorem mem_savedCore (h : Core) (top : Mips.Word) :
    (savedCore h top).mem = h.mem.writes (top - 164) (frameWrites h top) := by
  unfold frameWrites
  dsimp only
  rw [Memory.writes_append, Memory.writes_append, Memory.writes_append, Memory.writes_append]
  rfl

theorem offset_of_mem_frameWrites {w : Mips.Word × Mips.Word} (hw : w ∈ frameWrites h top) :
    w.1.toNat < 164 := by
  have hOffsets : ∀ xs ∈ [savedFirst, savedGeneral, savedProducts, savedStatus, savedVaddr],
      ∀ x ∈ xs, (x.2.signExtend 32).toNat < 164 := by
    decide
  have hSaved : ∀ xs ∈ [savedFirst, savedGeneral, savedProducts, savedStatus, savedVaddr],
      ∀ d : Core, w ∈ d.saved xs → w.1.toNat < 164 := by
    intro xs hxs d hMem
    obtain ⟨x, hx, rfl⟩ := List.mem_map.mp hMem
    exact hOffsets xs hxs x hx
  unfold frameWrites at hw
  simp only [List.mem_append] at hw
  rcases hw with (((hw | hw) | hw) | hw) | hw
  all_goals exact hSaved _ (by simp) _ hw

/-- Nothing outside the frame is written. -/
theorem savedCore_mem_of_not_inFrame (hRoom : HasRoom top) (h : Core) {a : Mips.Word}
    (ha : ¬InFrame top a) : (savedCore h top).mem a = h.mem a := by
  rw [mem_savedCore]
  apply Memory.writes_of_notMem
  rintro w hw rfl
  have hOffset := offset_of_mem_frameWrites hw
  obtain ⟨-, hLow, hHigh⟩ := hRoom
  apply ha
  unfold InFrame Below
  bv_omega

/-- The trapframe is behind the arguments of the call. -/
theorem trapframeAt_eq (mem : Memory) (top : Mips.Word) (f : TfField) :
    trapframeAt mem (top - 148) f = mem (top - 164 + (16 + f.offset)) := by
  unfold trapframeAt
  congr 1
  bv_omega

/-- The frame has the trapframe. -/
theorem trapframeAt_savedCore (sym : Symbols) (c : Core) (x : Exception) (top : Mips.Word) :
    trapframeAt (savedCore (enteredCore sym c x) top).mem (top - 148) = savedTrapframe c x := by
  funext f
  rw [trapframeAt_eq, mem_savedCore, Memory.writes_apply]
  cases f <;> rfl

/-- Where `mips_trap` returns to. -/
def Symbols.trapReturn (sym : Symbols) : Mips.Word :=
  sym.commonException + BitVec.ofNat 32 (4 * saveRegisters.length) + 8

/-- The processor at the start of `mips_trap`. -/
def trapCore (sym : Symbols) (c : Core) (x : Exception) : Core :=
  (savedCore (enteredCore sym c x) (stackTop sym c)).set .ra sym.trapReturn

theorem at_commonException (hLinked : Linked code sym) :
    At code sym.commonException (saveRegisters ++ callMipsTrap sym) ∧
      code sym.trapReturn = some .nop ∧ At code sym.exceptionReturn exceptionReturn := by
  obtain ⟨hFront, hBack⟩ := at_append.mp hLinked.commonException
  obtain ⟨hSave, hNop⟩ := at_append.mp hFront
  refine ⟨hSave, ?_, hBack⟩
  have hReturn : sym.trapReturn = sym.commonException +
      BitVec.ofNat 32 (4 * (saveRegisters ++ callMipsTrap sym).length) := BitVec.add_assoc ..
  rw [hReturn]
  exact hNop.1

/-- **Entry.** An exception gets to `mips_trap`. -/
theorem runs_trapCore (hLinked : Linked code sym) (hDirect : Direct sym.curkstack) {c : Core}
    (hRoom : HasRoom (stackTop sym c)) (x : Exception) :
    Runs code (fetching (raise c x) x.vector.address)
      (fetching (trapCore sym c x) sym.mipsTrap) := by
  have hSave := run_saveRegisters (h := enteredCore sym c x) hRoom rfl
  have hCall := runs_jump (at_commonException hLinked).1 rfl (by decide)
    (waits_append (by decide) (by simp [Waits, Instr.loads])) hSave rfl
  exact (runs_vector hLinked hDirect c x).trans hCall

/-! ## Restoring -/

def restoredGeneral : List (Reg × BitVec 16) := [
  (.ra, 36), (.AT, 40), (.v0, 44), (.v1, 48), (.a0, 52), (.a1, 56), (.a2, 60), (.a3, 64),
  (.t0, 68), (.t1, 72), (.t2, 76), (.t3, 80), (.t4, 84), (.t5, 88), (.t6, 92), (.t7, 96),
  (.s0, 100), (.s1, 104), (.s2, 108), (.s3, 112), (.s4, 116), (.s5, 120), (.s6, 124), (.s7, 128),
  (.t8, 132), (.t9, 136), (.gp, 148), (.s8, 156), (.k0, 160)]

theorem restoreRegisters_eq : restoreRegisters =
    loads .sp [(.t0, 20)] ++ .nop :: .mtc0 .t0 .status :: (loads .sp [(.t1, 28), (.t0, 32)] ++
      .mtlo .t1 :: .mthi .t0 :: (loads .sp restoredGeneral ++ ([.lw .sp 152 .sp] : List Instr))) :=
  rfl

theorem run_restore {is : List Instr} {xs : List (Reg × BitVec 16)} (hRoom : HasRoom top)
    (hSp : h.get .sp = top - 164)
    (hOffsets : ∀ x ∈ xs, x.1 ≠ .sp ∧ x.2.toNat % 4 = 0 ∧ x.2.toNat < 164) :
    run (loads .sp xs ++ is) h = run is (h.reads (top - 164) xs) := by
  rw [run_loads (fun x hx => (hOffsets x hx).1), hSp]
  intro x hx
  rw [hSp]
  exact hRoom.direct (hOffsets x hx).2.1 (hOffsets x hx).2.2

/-- The registers from the frame below `top`. -/
def restoredCore (c : Core) (top : Mips.Word) : Core :=
  let c := c.reads (top - 164) [(.t0, 20)]
  let c := (c.setCp0 .status (c.get .t0)).reads (top - 164) [(.t1, 28), (.t0, 32)]
  let c := { c with lo := c.get .t1, hi := c.get .t0 }
  let c := c.reads (top - 164) restoredGeneral
  c.set .sp (c.mem (top - 164 + 152))

theorem run_restoreRegisters (hRoom : HasRoom top) (hSp : h.get .sp = top - 164) :
    run restoreRegisters h = .ok (restoredCore h top) := by
  have hLast : ∀ {d : Core}, d.get .sp = top - 164 →
      run [.lw .sp 152 .sp] d = .ok (d.set .sp (d.mem (top - 164 + 152))) := by
    intro d hd
    have hDirect := hRoom.direct (o := 152) (by decide) (by decide)
    rw [run_cons (exec_lw (by rwa [hd])), hd]
    rfl
  rw [restoreRegisters_eq, run_restore hRoom hSp (by decide), run_cons rfl, run_cons rfl]
  -- the loads leave the stack pointer as it is
  refine Eq.trans (run_restore hRoom hSp ?_) ?_
  · decide
  rw [run_cons rfl, run_cons rfl]
  refine Eq.trans (run_restore hRoom hSp ?_) ?_
  · decide
  exact hLast hSp

/-- What is back after an exception return, for a trapframe in memory. -/
structure Restored (tf : TfField → Mips.Word) (c d : Core) : Prop where
  get : ∀ r f, tfField r = some f → r ≠ .k0 → r ≠ .k1 → d.get r = tf f
  hi : d.hi = tf .tfHi
  lo : d.lo = tf .tfLo
  status : d.cp0 .status = popModes (tf .tfStatus)
  mem : d.mem = c.mem
  tlb : d.tlb = c.tlb

/-- The processor behind the `rfe`. -/
def returnedCore (c : Core) (top : Mips.Word) : Core :=
  (restoredCore c top).setCp0 .status (popModes ((restoredCore c top).cp0 .status))

theorem restored_returnedCore (c : Core) (top : Mips.Word) :
    Restored (trapframeAt c.mem (top - 148)) c (returnedCore c top) where
  get r f hField hK0 hK1 := by
    rw [trapframeAt_eq]
    cases r <;> cases hField <;> first | rfl | exact absurd rfl hK0 | exact absurd rfl hK1
  hi := by
    rw [trapframeAt_eq]
    rfl
  lo := by
    rw [trapframeAt_eq]
    rfl
  status := by
    rw [trapframeAt_eq]
    rfl
  mem := rfl
  tlb := rfl

/-- **Return.** What the trapframe has is back, and the processor goes on at its `tf_epc`. -/
theorem runs_exceptionReturn (hLinked : Linked code sym) (hRoom : HasRoom top)
    (hSp : h.get .sp = top - 164) :
    Runs code (fetching h sym.exceptionReturn)
      (fetching (returnedCore h top) (trapframeAt h.mem (top - 148) .tfEpc)) := by
  have hCode := (at_commonException hLinked).2.2
  have hJump := runs_jump hCode rfl (by decide) (by decide)
    (run_restoreRegisters hRoom hSp) rfl
  rw [trapframeAt_eq]
  exact hJump

end Handlers

end Windborne.OS161.ExceptionEntry
