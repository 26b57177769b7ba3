import Windborne.OS161.ExceptionEntry

/-!
# One exception

From the vector to `mips_trap`, and from its return back to what was interrupted.
-/

namespace Windborne.OS161.ExceptionEntry

open Library Library.Mips

variable {code : Mips.Word → Option Instr} {sym : Symbols} {c m : Core} {x : Exception}

/-! ## Modes and memory -/

theorem modes_popModes_pushModes (status : Mips.Word) :
    popModes (pushModes status) &&& 0xffffffcf#32 = status &&& 0xffffffcf#32 := by
  rw [popModes_pushModes]
  ext i hi
  interval_cases i <;> simp

theorem userBit_eq {s t : Mips.Word} (h : t &&& 0xffffffcf#32 = s &&& 0xffffffcf#32) :
    t &&& 0x2#32 = s &&& 0x2#32 := by
  have hBit := congrArg (· &&& 0x2#32) h
  simpa only [BitVec.and_assoc, BitVec.reduceAnd] using hBit

theorem trapCore_mem_of_not_inFrame (hRoom : HasRoom (stackTop sym c)) {a : Mips.Word}
    (ha : ¬InFrame (stackTop sym c) a) : (trapCore sym c x).mem a = c.mem a :=
  savedCore_mem_of_not_inFrame hRoom (enteredCore sym c x) ha

theorem not_fromUser_trapCore : ¬FromUser (trapCore sym c x) := by
  intro hUser
  apply hUser
  show pushModes (c.cp0 .status) &&& 0x2#32 = 0#32
  unfold pushModes
  ext i hi
  interval_cases i <;> simp

/-! ## There and back -/

/-- The address of the trapframe. -/
def trapframeAddress (sym : Symbols) (c : Core) : Mips.Word := stackTop sym c - 148

theorem exceptionReturn_eq (sym : Symbols) : sym.exceptionReturn = sym.trapReturn + 4 := by
  unfold Symbols.trapReturn Symbols.exceptionReturn
  rw [BitVec.add_assoc, BitVec.add_assoc]
  rfl

/-- From the return of `mips_trap` on. -/
theorem runs_trapReturn (hLinked : Linked code sym) {top : Mips.Word} (hRoom : HasRoom top)
    (hSp : m.get .sp = top - 164) :
    Runs code (fetching m sym.trapReturn)
      (fetching (returnedCore m top) (trapframeAt m.mem (top - 148) .tfEpc)) := by
  have hNop : At code sym.trapReturn [.nop] := ⟨(at_commonException hLinked).2.1, trivial⟩
  have hFirst := runs_straight hNop (by decide) (by decide) (c := m) rfl
  have hRest := runs_exceptionReturn hLinked hRoom hSp
  rw [exceptionReturn_eq] at hRest
  exact hFirst.trans hRest

/-- `mips_trap` is called with the trapframe of what is interrupted, and the processor goes on with
what the trapframe has when it returns. Only `k0` and `k1` are not saved and restored. -/
theorem exception_returns (hLinked : Linked code sym) (hDirect : Direct sym.curkstack)
    (hRoom : HasRoom (stackTop sym c)) (x : Exception)
    (hTrap : Runs code (fetching (trapCore sym c x) sym.mipsTrap) (fetching m sym.trapReturn))
    (hSp : m.get .sp = (trapCore sym c x).get .sp) :
    Runs code (fetching (raise c x) x.vector.address)
        (fetching (trapCore sym c x) sym.mipsTrap) ∧
      (trapCore sym c x).get .a0 = trapframeAddress sym c ∧
      trapframeAt (trapCore sym c x).mem (trapframeAddress sym c) = savedTrapframe c x ∧
      ∃ d, Runs code (fetching (raise c x) x.vector.address)
        (fetching d (trapframeAt m.mem (trapframeAddress sym c) .tfEpc)) ∧
        Restored (trapframeAt m.mem (trapframeAddress sym c)) m d := by
  have hEntry := runs_trapCore hLinked hDirect hRoom x
  have hExit := runs_trapReturn hLinked hRoom hSp
  exact ⟨hEntry, rfl, trapframeAt_savedCore sym c x _, returnedCore m (stackTop sym c),
    (hEntry.trans hTrap).trans hExit, restored_returnedCore m (stackTop sym c)⟩

/-! ### A kernel whose `mips_trap` returns at once -/

def sampleSymbols : Symbols where
  curkstack := 0x80010000
  commonException := 0x80002000
  mipsTrap := 0x80003000
  asmUsermode := 0x80004000

def sampleCode : Mips.Word → Option Instr := layout [
  (0x80000000, utlbException sampleSymbols),
  (0x80000080, exception sampleSymbols),
  (0x80002000, commonException sampleSymbols),
  (0x80003000, [.jr .ra, .nop]),
  (0x80004000, asmUsermode sampleSymbols)]

theorem linked_sample : Linked sampleCode sampleSymbols where
  utlbException := by decide +kernel
  exception := by decide +kernel
  commonException := by decide +kernel
  asmUsermode := by decide +kernel

/-- In user mode, with the stack of the kernel at 0x80020000. -/
def sampleUser : Core where
  regs _ := 7
  hi := 0
  lo := 0
  mem a := if a = 0x80010000 then 0x80020000 else 0
  cp0 r := if r = .status then 0xff03 else 0
  tlb _ := ⟨0, 0⟩

theorem step_sample_jump (d : Core) : step sampleCode (fetching d sampleSymbols.mipsTrap) =
    .ok ⟨d, sampleSymbols.mipsTrap + 4, d.get .ra, none⟩ := by
  have hFetch : sampleCode sampleSymbols.mipsTrap = some (.jr .ra) := by
    decide +kernel
  exact step_eq (p := fetching d sampleSymbols.mipsTrap) (c := d) hFetch nofun rfl

theorem step_sample_slot (d : Core) (next : Mips.Word) :
    step sampleCode ⟨d, sampleSymbols.mipsTrap + 4, next, none⟩ = .ok (fetching d next) := by
  have hFetch : sampleCode (sampleSymbols.mipsTrap + 4) = some .nop := by
    decide +kernel
  exact step_eq (p := ⟨d, sampleSymbols.mipsTrap + 4, next, none⟩) (c := d) hFetch nofun rfl

/-- A system call of a user program. -/
theorem exception_returns_sample :
    let x : Exception := ⟨.general, 0x20, 0, 0x400000⟩
    ∃ d, Runs sampleCode (fetching (raise sampleUser x) 0x80000080) (fetching d 0x400000) ∧
      d.get .sp = 7 ∧ FromUser d := by
  intro x
  have hReturns : Runs sampleCode
      (fetching (trapCore sampleSymbols sampleUser x) sampleSymbols.mipsTrap)
      (fetching (trapCore sampleSymbols sampleUser x) sampleSymbols.trapReturn) :=
    .head (step_sample_jump _) (.single (step_sample_slot _ _))
  obtain ⟨-, -, hSaved, d, hRuns, hRestored⟩ := exception_returns linked_sample (by decide)
    (c := sampleUser) ⟨by decide, by decide, by decide⟩ x hReturns rfl
  rw [hSaved] at hRuns hRestored
  refine ⟨d, hRuns, hRestored.get .sp .tfSp rfl (by decide) (by decide), ?_⟩
  unfold FromUser
  rw [hRestored.status]
  decide

end Windborne.OS161.ExceptionEntry
