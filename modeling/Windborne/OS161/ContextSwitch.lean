import Windborne.Library.Coroutines
import Windborne.Library.MipsFrames

/-!
# Switching threads

The code of `switch.S` and `threadstart.S` with what `pcb.c` does around it, in the memory of the
processor. A thread that is switched away has its registers in a frame on its stack and its stack
pointer in its `struct pcb`. Threads are coroutines of the processor: each finds its registers,
its stack and its two variables again when it is switched back.
-/

namespace Windborne.OS161.ContextSwitch

open Library Library.Mips

/-! ## The code -/

/-- Where the linker puts variables and functions, the size of a stack, and the members of
`struct pcb`, of which the stack pointer is the first. -/
structure Symbols where
  curkstack : Mips.Word
  inInterrupt : Mips.Word
  mipsSwitch : Mips.Word
  mipsThreadstart : Mips.Word
  miThreadstart : Mips.Word
  stackSize : Mips.Word
  pcbKstack : Mips.Word
  pcbIninterrupt : Mips.Word
  pcbBadfaultfunc : Mips.Word

def switchStores : List (Reg × BitVec 16) := [
  (.ra, 40), (.gp, 36), (.s8, 32), (.s7, 28), (.s6, 24), (.s5, 20), (.s4, 16), (.s3, 12),
  (.s2, 8), (.s1, 4), (.s0, 0)]

def switchLoads : List (Reg × BitVec 16) := [
  (.s0, 0), (.s1, 4), (.s2, 8), (.s3, 12), (.s4, 16), (.s5, 20), (.s6, 24), (.s7, 28), (.s8, 32),
  (.gp, 36), (.ra, 40)]

/-- `mips_switch` up to its return. -/
def switchRegisters : List Instr :=
  .addi .sp .sp (-44) :: (stores .sp switchStores ++
    .sw .sp 0 .a0 :: .lw .sp 0 .a1 :: .nop :: (loads .sp switchLoads ++ ([.nop] : List Instr)))

def mipsSwitch : List Instr := switchRegisters ++ ([
  .jr .ra,
  .addi .sp .sp 44] : List Instr)

def mipsThreadstart (sym : Symbols) : List Instr := [
  .addiu .sp .sp (-16),
  .move .ra .zero,
  .move .a0 .s0,
  .move .a1 .s1,
  .j sym.miThreadstart,
  .move .a2 .s2]

/-- `md_switch` saves the variables in the old `struct pcb`. -/
def saveVariables (sym : Symbols) (old : Mips.Word) (mem : Memory) : Memory :=
  let mem := Function.update mem (old + sym.pcbKstack) (mem sym.curkstack)
  Function.update mem (old + sym.pcbIninterrupt) (mem sym.inInterrupt)

/-- It gets them from the new one. -/
def loadVariables (sym : Symbols) (nu : Mips.Word) (mem : Memory) : Memory :=
  let mem := Function.update mem sym.curkstack (mem (nu + sym.pcbKstack))
  Function.update mem sym.inInterrupt (mem (nu + sym.pcbIninterrupt))

/-- `md_switch` up to the call of `mips_switch`, unless it returns at once. -/
def mdSwitch (sym : Symbols) (old nu : Mips.Word) (mem : Memory) : Option Memory :=
  if old = nu then none else some (loadVariables sym nu (saveVariables sym old mem))

/-- The words of a `struct switchframe` that are zero at first. -/
def zeroedSwitchframe : List (Mips.Word × Mips.Word) :=
  [(0, 0), (4, 0), (8, 0), (12, 0), (16, 0), (20, 0), (24, 0), (28, 0), (32, 0), (36, 0), (40, 0)]

def mdInitpcb (sym : Symbols) (pcb stack data1 data2 func : Mips.Word) (mem : Memory) : Memory :=
  let stacktop := stack + sym.stackSize
  let sf := stacktop - 44
  let mem := mem.writes pcb [(sym.pcbBadfaultfunc, 0), (sym.pcbKstack, stacktop), (0, sf),
    (sym.pcbIninterrupt, 0)]
  let mem := mem.writes sf zeroedSwitchframe
  mem.writes sf [(0, data1), (4, data2), (8, func), (40, sym.mipsThreadstart)]

/-! ## A switch -/

section Switch

variable {code : Mips.Word → Option Instr} {sym : Symbols} {c : Core} {sf : Mips.Word}

/-- The registers are in the frame, and the stack pointer is in the `pcb`. -/
def pushedCore (c : Core) : Core :=
  let d := (c.set .sp (c.get .sp - 44)).store .sp switchStores
  d.setMem (Function.update d.mem (d.get .a0) (d.get .sp))

/-- Where the other frame is. -/
def resumedFrame (c : Core) : Mips.Word := (pushedCore c).mem (c.get .a1)

/-- With the registers of the frame at `sf`. -/
def resumedCore (c : Core) (sf : Mips.Word) : Core :=
  ((pushedCore c).set .sp sf).reads sf switchLoads

/-- The processor behind `mips_switch`. -/
def switchedCore (c : Core) : Core :=
  (resumedCore c (resumedFrame c)).set .sp (resumedFrame c + 44)

theorem run_switchRegisters (hRoom : Room 44 (c.get .sp)) (hOld : Direct (c.get .a0))
    (hNu : Direct (c.get .a1)) (hRoom' : Room 44 (resumedFrame c + 44)) :
    run switchRegisters c = .ok (resumedCore c (resumedFrame c)) := by
  have hPush : (Instr.addi .sp .sp (-44)).exec c = .ok (c.set .sp (c.get .sp - 44)) :=
    hRoom.exec_push (by decide) (by decide) rfl
  have hFrame : ∀ x ∈ switchStores, x.2.toNat % 4 = 0 ∧ x.2.toNat < 44 := by
    decide
  have hFrame' : ∀ x ∈ switchLoads, x.1 ≠ .sp ∧ x.2.toNat % 4 = 0 ∧ x.2.toNat < 44 := by
    decide
  have hBase : resumedFrame c + 44 - 44#32 = resumedFrame c := BitVec.add_sub_cancel _ _
  have hZero : ∀ a : Mips.Word, a + (0 : BitVec 16).signExtend 32 = a := BitVec.add_zero
  have hStore : ∀ is, run (stores .sp switchStores ++ is) (c.set .sp (c.get .sp - 44)) =
      run is ((c.set .sp (c.get .sp - 44)).store .sp switchStores) := by
    intro is
    apply run_stores
    intro x hx
    exact hRoom.direct (by decide) (by decide) (hFrame x hx).1 (hFrame x hx).2
  have hSave : (Instr.sw .sp 0 .a0).exec ((c.set .sp (c.get .sp - 44)).store .sp switchStores) =
      .ok (pushedCore c) := by
    rw [exec_sw, hZero]
    · rfl
    · rw [hZero]
      exact hOld
  have hLoad : (Instr.lw .sp 0 .a1).exec (pushedCore c) =
      .ok ((pushedCore c).set .sp (resumedFrame c)) := by
    rw [exec_lw, hZero]
    · rfl
    · rw [hZero]
      exact hNu
  have hRestore : ∀ is, run (loads .sp switchLoads ++ is)
      ((pushedCore c).set .sp (resumedFrame c)) = run is (resumedCore c (resumedFrame c)) := by
    intro is
    refine run_loads (fun x hx => (hFrame' x hx).1) fun x hx => ?_
    have hDirect := hRoom'.direct (by decide) (by decide) (hFrame' x hx).2.1 (hFrame' x hx).2.2
    rwa [hBase] at hDirect
  rw [switchRegisters, run_cons hPush, hStore, run_cons hSave, run_cons hLoad, run_cons rfl,
    hRestore]
  rfl

/-- **`mips_switch`.** It returns with the registers that are in the other frame. -/
theorem runs_mipsSwitch (hCode : At code sym.mipsSwitch mipsSwitch)
    (hRoom : Room 44 (c.get .sp)) (hOld : Direct (c.get .a0)) (hNu : Direct (c.get .a1))
    (hRoom' : Room 44 (resumedFrame c + 44)) :
    Runs code (fetching c sym.mipsSwitch)
      (fetching (switchedCore c) ((switchedCore c).get .ra)) := by
  have hPop : (Instr.addi .sp .sp 44).exec (resumedCore c (resumedFrame c)) =
      .ok (switchedCore c) := by
    apply hRoom'.exec_pop (by decide) (by decide)
    exact (BitVec.add_sub_cancel _ _).symm
  have hRa : (switchedCore c).get .ra = (resumedCore c (resumedFrame c)).get .ra :=
    Core.get_set_of_ne (by decide)
  have hRun := run_switchRegisters hRoom hOld hNu hRoom'
  rw [hRa]
  exact runs_jump (i := .jr .ra) hCode rfl (by decide) (by decide) hRun hPop

/-- The registers at the start of `mi_threadstart`. -/
def startedCore (c : Core) : Core :=
  ((((c.set .sp (c.get .sp - 16)).set .ra 0).set .a0 (c.get .s0)).set .a1 (c.get .s1)).set .a2
    (c.get .s2)

theorem runs_mipsThreadstart (hCode : At code sym.mipsThreadstart (mipsThreadstart sym))
    (c : Core) :
    Runs code (fetching c sym.mipsThreadstart) (fetching (startedCore c) sym.miThreadstart) := by
  have hImm : (-16 : BitVec 16).signExtend 32 = -16#32 := by
    decide
  have hPush : c.get .sp + (-16 : BitVec 16).signExtend 32 = c.get .sp - 16 := by
    rw [hImm]
    exact (BitVec.sub_eq_add_neg _ _).symm
  have hRun : run [.addiu .sp .sp (-16), .move .ra .zero, .move .a0 .s0, .move .a1 .s1] c =
      .ok ((((c.set .sp (c.get .sp - 16)).set .ra 0).set .a0 (c.get .s0)).set .a1 (c.get .s1)) := by
    rw [← hPush]
    rfl
  have hCode' : At code sym.mipsThreadstart (([.addiu .sp .sp (-16), .move .ra .zero,
      .move .a0 .s0, .move .a1 .s1] : List Instr) ++
      ([.j sym.miThreadstart, .move .a2 .s2] : List Instr)) := hCode
  exact runs_jump hCode' rfl (by decide) (by simp [Waits, Instr.loads]) hRun rfl

end Switch

/-! ## Threads -/

/-- What a thread goes on with behind `mips_switch`. -/
structure Saved where
  get : Reg → Mips.Word
  kstack : Mips.Word
  inInterrupt : Mips.Word

abbrev Context := Coroutines.Context Mips.Word Mips.Word Saved

/-- The processor, and what the threads that do not run rely on. -/
structure Threads (τ : Type*) where
  core : Core
  current : τ
  saved : τ → Option Context

variable {τ : Type*} {code : Mips.Word → Option Instr} {sym : Symbols} {pcb : τ → Mips.Word}

/-- The address is that of a member of the `struct pcb`. -/
def InPcb (sym : Symbols) (p a : Mips.Word) : Prop :=
  ∃ o ∈ [0, sym.pcbKstack, sym.pcbIninterrupt, sym.pcbBadfaultfunc], a = p + o

/-- The code is where the linker has put it, and so are the members and the variables. -/
structure Linked (code : Mips.Word → Option Instr) (sym : Symbols) (pcb : τ → Mips.Word) :
    Prop where
  mipsSwitch : At code sym.mipsSwitch mipsSwitch
  mipsThreadstart : At code sym.mipsThreadstart (mipsThreadstart sym)
  members : [0, sym.pcbKstack, sym.pcbIninterrupt, sym.pcbBadfaultfunc].Nodup
  curkstack : sym.curkstack ≠ sym.inInterrupt
  direct : ∀ t, Direct (pcb t)

def Threads.coroutines (s : Threads τ) : Coroutines.State τ Mips.Word Mips.Word Saved :=
  ⟨s.current, s.core.mem, s.saved⟩

/-- The words below `top` and the `struct pcb` are among those in `keep`, on which nobody else
relies. -/
structure Owns (sym : Symbols) (p top : Mips.Word) (s : Threads τ) (keep : Set Mips.Word) :
    Prop where
  room : Room 44 top
  frame : ∀ a, Below 44 top a → a ∈ keep
  pcb : ∀ a, InPcb sym p a → a ∈ keep
  apart : ∀ a, InPcb sym p a → ¬Below 44 top a
  curkstack : sym.curkstack ∉ keep
  inInterrupt : sym.inInterrupt ∉ keep
  others : ∀ u k, s.saved u = some k → ∀ a ∈ keep, a ∉ k.keep

/-- The processor at the call of `mips_switch`. -/
def called (c : Core) (mem : Memory) (old nu : Mips.Word) : Core :=
  ((c.setMem mem).set .a0 old).set .a1 nu

/-- What the thread that runs goes on with when it is switched back. -/
def savedOf (sym : Symbols) (c : Core) : Saved :=
  ⟨c.get, c.mem sym.curkstack, c.mem sym.inInterrupt⟩

/-- What a new thread starts with. -/
def newSaved (sym : Symbols) (stack data1 data2 func : Mips.Word) : Saved where
  get
    | .s0 => data1
    | .s1 => data2
    | .s2 => func
    | .ra => sym.mipsThreadstart
    | .sp => stack + sym.stackSize
    | _ => 0
  kstack := stack + sym.stackSize
  inInterrupt := 0

section Steps

variable [DecidableEq τ]

/-- `md_switch` is called for the thread `t`, by one that relies on `keep`. -/
structure Switches (sym : Symbols) (pcb : τ → Mips.Word) (s : Threads τ) (t : τ)
    (keep : Set Mips.Word) (mem : Memory) (s' : Threads τ) : Prop where
  suspended : ∃ k, s.saved t = some k
  owns : Owns sym (pcb s.current) (s.core.get .sp) s keep
  mdSwitch : mdSwitch sym (pcb s.current) (pcb t) s.core.mem = some mem
  core : s'.core = switchedCore (called s.core mem (pcb s.current) (pcb t))
  current : s'.current = t
  saved : s'.saved = Function.update
    (Function.update s.saved s.current (some ⟨savedOf sym s.core, keep, s'.core.mem⟩)) t none

/-- `md_initpcb` is called for the new thread `t`. -/
structure Creates (sym : Symbols) (pcb : τ → Mips.Word) (s : Threads τ) (t : τ)
    (stack data1 data2 func : Mips.Word) (keep : Set Mips.Word) (s' : Threads τ) : Prop where
  new : s.saved t = none
  other : t ≠ s.current
  owns : Owns sym (pcb t) (stack + sym.stackSize) s keep
  core : s'.core = s.core.setMem (mdInitpcb sym (pcb t) stack data1 data2 func s.core.mem)
  current : s'.current = s.current
  saved : s'.saved = Function.update s.saved t
    (some ⟨newSaved sym stack data1 data2 func, keep, s'.core.mem⟩)

/-- The thread that runs does what it likes, sparing what the others rely on. -/
inductive Step (sym : Symbols) (pcb : τ → Mips.Word) (s : Threads τ) :
    Coroutines.Label τ → Threads τ → Prop
  | own (d : Core) (hSpares : s.coroutines.Spares d.mem) : Step sym pcb s .own { s with core := d }
  | create {s' : Threads τ} {t : τ} {stack data1 data2 func : Mips.Word} {keep : Set Mips.Word}
      (h : Creates sym pcb s t stack data1 data2 func keep s') : Step sym pcb s (.create t) s'
  | switch {s' : Threads τ} {t : τ} {keep : Set Mips.Word} {mem : Memory}
      (h : Switches sym pcb s t keep mem s') : Step sym pcb s (.resume t) s'
  | discard (t : τ) :
      Step sym pcb s (.discard t) { s with saved := Function.update s.saved t none }

end Steps

/-! ## Frames -/

/-- What a thread goes on with is in its frame and in its `struct pcb`. -/
structure Frozen (sym : Symbols) (p : Mips.Word) (k : Context) : Prop where
  room : Room 44 (k.value.get .sp)
  frame : ∀ a, Below 44 (k.value.get .sp) a → a ∈ k.keep
  pcb : ∀ a, InPcb sym p a → a ∈ k.keep
  curkstack : sym.curkstack ∉ k.keep
  inInterrupt : sym.inInterrupt ∉ k.keep
  switchstack : k.mem p = k.value.get .sp - 44
  registers : ∀ x ∈ switchLoads,
    k.mem (k.value.get .sp - 44 + x.2.signExtend 32) = k.value.get x.1
  pcbKstack : k.mem (p + sym.pcbKstack) = k.value.kstack
  pcbIninterrupt : k.mem (p + sym.pcbIninterrupt) = k.value.inInterrupt

theorem inPcb_self (sym : Symbols) (p : Mips.Word) : InPcb sym p p :=
  ⟨0, by simp, (BitVec.add_zero p).symm⟩

theorem inPcb_kstack (sym : Symbols) (p : Mips.Word) : InPcb sym p (p + sym.pcbKstack) :=
  ⟨sym.pcbKstack, by simp, rfl⟩

theorem inPcb_ininterrupt (sym : Symbols) (p : Mips.Word) :
    InPcb sym p (p + sym.pcbIninterrupt) :=
  ⟨sym.pcbIninterrupt, by simp, rfl⟩

section Frames

variable {c : Core} {mem : Memory} {old nu a : Mips.Word}

theorem pushedCore_mem (c : Core) : (pushedCore c).mem = Function.update
    (c.mem.writes (c.get .sp - 44) ((c.set .sp (c.get .sp - 44)).saved switchStores))
    (c.get .a0) (c.get .sp - 44) := rfl

theorem switchedCore_mem (c : Core) : (switchedCore c).mem = (pushedCore c).mem := by
  unfold switchedCore resumedCore
  rw [Core.mem_set, Core.mem_reads, Core.mem_set]

/-- The frame and the first word of the old `struct pcb` are all that `mips_switch` writes. -/
theorem pushedCore_mem_of_notMem (hRoom : Room 44 (c.get .sp)) (hOld : a ≠ c.get .a0)
    (hFrame : ¬Below 44 (c.get .sp) a) : (pushedCore c).mem a = c.mem a := by
  rw [pushedCore_mem, Function.update_of_ne hOld]
  apply Memory.writes_of_notMem
  intro w hw hSame
  obtain ⟨x, hx, rfl⟩ := List.mem_map.mp hw
  have hInside : ∀ x ∈ switchStores, x.2.toNat < 44 := by
    decide
  exact hFrame (hSame ▸ hRoom.below (by decide) (hInside x hx))

/-- The frame has the registers. -/
theorem pushedCore_mem_frame (hRoom : Room 44 (c.get .sp))
    (hOld : ¬Below 44 (c.get .sp) (c.get .a0)) :
    ∀ x ∈ switchLoads,
      (pushedCore c).mem (c.get .sp - 44 + x.2.signExtend 32) = c.get x.1 := by
  intro x hx
  have hInside : ∀ x ∈ switchLoads, x.2.toNat < 44 := by
    decide
  have hApart : c.get .sp - 44 + x.2.signExtend 32 ≠ c.get .a0 := fun hSame =>
    hOld (hSame ▸ hRoom.below (by decide) (hInside x hx))
  rw [pushedCore_mem, Function.update_of_ne hApart, Memory.writes_apply]
  simp only [switchLoads, List.mem_cons, List.not_mem_nil, or_false] at hx
  rcases hx with rfl | rfl | rfl | rfl | rfl | rfl | rfl | rfl | rfl | rfl | rfl <;> rfl

end Frames

/-! ## The variables -/

section Variables

variable {m mem : Memory} {p old nu a : Mips.Word}

theorem saveVariables_of_not_inPcb (ha : ¬InPcb sym p a) : saveVariables sym p m a = m a := by
  have hKstack : a ≠ p + sym.pcbKstack := fun h => ha (h ▸ inPcb_kstack sym p)
  have hInInterrupt : a ≠ p + sym.pcbIninterrupt := fun h => ha (h ▸ inPcb_ininterrupt sym p)
  unfold saveVariables
  rw [Function.update_of_ne hInInterrupt, Function.update_of_ne hKstack]

theorem Linked.add_ne (hLinked : Linked code sym pcb) (p : Mips.Word) :
    p ≠ p + sym.pcbKstack ∧ p ≠ p + sym.pcbIninterrupt ∧
      p + sym.pcbKstack ≠ p + sym.pcbIninterrupt := by
  have hMembers := hLinked.members
  simp only [List.nodup_cons, List.mem_cons, List.not_mem_nil, or_false, not_or] at hMembers
  obtain ⟨⟨hKstack, hInInterrupt, -⟩, ⟨hApart, -⟩, -⟩ := hMembers
  refine ⟨?_, ?_, ?_⟩
  · intro h
    exact hKstack (by bv_omega)
  · intro h
    exact hInInterrupt (by bv_omega)
  · intro h
    exact hApart (by bv_omega)

theorem saveVariables_pcb (hLinked : Linked code sym pcb) (hOut : ¬InPcb sym p sym.inInterrupt) :
    saveVariables sym p m (p + sym.pcbKstack) = m sym.curkstack ∧
      saveVariables sym p m (p + sym.pcbIninterrupt) = m sym.inInterrupt := by
  have hApart := (hLinked.add_ne p).2.2
  have hKstack : sym.inInterrupt ≠ p + sym.pcbKstack := fun h => hOut (h ▸ inPcb_kstack sym p)
  unfold saveVariables
  rw [Function.update_of_ne hApart, Function.update_self, Function.update_self,
    Function.update_of_ne hKstack]
  exact ⟨rfl, rfl⟩

theorem loadVariables_of_ne (hCurkstack : a ≠ sym.curkstack) (hInInterrupt : a ≠ sym.inInterrupt) :
    loadVariables sym p m a = m a := by
  unfold loadVariables
  rw [Function.update_of_ne hInInterrupt, Function.update_of_ne hCurkstack]

theorem loadVariables_variables (hLinked : Linked code sym pcb)
    (hOut : ¬InPcb sym p sym.curkstack) :
    loadVariables sym p m sym.curkstack = m (p + sym.pcbKstack) ∧
      loadVariables sym p m sym.inInterrupt = m (p + sym.pcbIninterrupt) := by
  have hInInterrupt : p + sym.pcbIninterrupt ≠ sym.curkstack := fun h =>
    hOut (h ▸ inPcb_ininterrupt sym p)
  unfold loadVariables
  rw [Function.update_of_ne hLinked.curkstack, Function.update_self, Function.update_self,
    Function.update_of_ne hInInterrupt]
  exact ⟨rfl, rfl⟩

theorem mdSwitch_eq_some (h : mdSwitch sym old nu m = some mem) :
    mem = loadVariables sym nu (saveVariables sym old m) := by
  unfold mdSwitch at h
  split at h
  · cases h
  · exact (Option.some.inj h).symm

end Variables

/-! ## Steps -/

section Switches

variable [DecidableEq τ] {s s' : Threads τ} {t : τ} {k : Context} {keep : Set Mips.Word}
  {mem : Memory} {a : Mips.Word}

theorem get_called_of_ne (c : Core) (mem : Memory) (old nu : Mips.Word) {r : Reg} (h0 : r ≠ .a0)
    (h1 : r ≠ .a1) : (called c mem old nu).get r = c.get r := by
  unfold called
  rw [Core.get_set_of_ne h1, Core.get_set_of_ne h0, Core.get_setMem]

theorem switchedCore_called_mem {c : Core} {old nu : Mips.Word} (hRoom : Room 44 (c.get .sp))
    (hOld : a ≠ old) (hFrame : ¬Below 44 (c.get .sp) a) :
    (switchedCore (called c mem old nu)).mem a = mem a := by
  rw [switchedCore_mem]
  exact pushedCore_mem_of_notMem (c := called c mem old nu) hRoom hOld hFrame

/-- What is neither of the thread's own nor a variable is as it was. -/
theorem Switches.mem_of_notMem (h : Switches sym pcb s t keep mem s') (ha : a ∉ keep)
    (hCurkstack : a ≠ sym.curkstack) (hInInterrupt : a ≠ sym.inInterrupt) :
    s'.core.mem a = s.core.mem a := by
  obtain ⟨hRoom, hFrame, hPcb, -⟩ := h.owns
  have hOut : ¬InPcb sym (pcb s.current) a := fun hIn => ha (hPcb a hIn)
  have hOld : a ≠ pcb s.current := fun hSame => hOut (hSame ▸ inPcb_self sym _)
  rw [h.core, switchedCore_called_mem hRoom hOld fun hIn => ha (hFrame a hIn),
    mdSwitch_eq_some h.mdSwitch, loadVariables_of_ne hCurkstack hInInterrupt,
    saveVariables_of_not_inPcb hOut]

/-- What is the thread's own is as it was, but for the frame and the `struct pcb`. -/
theorem Switches.mem_of_mem (h : Switches sym pcb s t keep mem s') (ha : a ∈ keep)
    (hFrame : ¬Below 44 (s.core.get .sp) a) (hPcb : ¬InPcb sym (pcb s.current) a) :
    s'.core.mem a = s.core.mem a := by
  have hOld : a ≠ pcb s.current := fun hSame => hPcb (hSame ▸ inPcb_self sym _)
  have hCurkstack : a ≠ sym.curkstack := fun hSame => h.owns.curkstack (hSame ▸ ha)
  have hInInterrupt : a ≠ sym.inInterrupt := fun hSame => h.owns.inInterrupt (hSame ▸ ha)
  rw [h.core, switchedCore_called_mem h.owns.room hOld hFrame, mdSwitch_eq_some h.mdSwitch,
    loadVariables_of_ne hCurkstack hInInterrupt, saveVariables_of_not_inPcb hPcb]

theorem Switches.spares (h : Switches sym pcb s t keep mem s')
    (hFrozen : ∀ u k, s.saved u = some k → Frozen sym (pcb u) k) :
    s.coroutines.Spares s'.core.mem := by
  intro u k hSaved a ha
  have hOther : a ∉ keep := fun hKeep => h.owns.others u k hSaved a hKeep ha
  have hThere := hFrozen u k hSaved
  exact h.mem_of_notMem hOther (fun hSame => hThere.curkstack (hSame ▸ ha))
    fun hSame => hThere.inInterrupt (hSame ▸ ha)

/-- The thread that is switched away is frozen. -/
theorem Switches.frozen (hLinked : Linked code sym pcb) (h : Switches sym pcb s t keep mem s') :
    Frozen sym (pcb s.current) ⟨savedOf sym s.core, keep, s'.core.mem⟩ := by
  have hOwns := h.owns
  have hApart : ∀ a, InPcb sym (pcb s.current) a → ¬Below 44 (s.core.get .sp) a := hOwns.apart
  have hSp : (called s.core mem (pcb s.current) (pcb t)).get .sp = s.core.get .sp := rfl
  -- a member of the `struct pcb` other than the first
  have hMember : ∀ a, InPcb sym (pcb s.current) a → a ≠ pcb s.current →
      s'.core.mem a = saveVariables sym (pcb s.current) s.core.mem a := by
    intro a ha hOld
    have hCurkstack : a ≠ sym.curkstack := fun hSame => hOwns.curkstack (hSame ▸ hOwns.pcb a ha)
    have hInInterrupt : a ≠ sym.inInterrupt := fun hSame =>
      hOwns.inInterrupt (hSame ▸ hOwns.pcb a ha)
    rw [h.core, switchedCore_called_mem hOwns.room hOld (hApart a ha),
      mdSwitch_eq_some h.mdSwitch, loadVariables_of_ne hCurkstack hInInterrupt]
  have hVariables := saveVariables_pcb (m := s.core.mem) hLinked
    fun hIn => hOwns.inInterrupt (hOwns.pcb _ hIn)
  obtain ⟨hKstack, hInInterrupt, -⟩ := hLinked.add_ne (pcb s.current)
  constructor
  case room => exact hOwns.room
  case frame => exact hOwns.frame
  case pcb => exact hOwns.pcb
  case curkstack => exact hOwns.curkstack
  case inInterrupt => exact hOwns.inInterrupt
  case switchstack =>
    dsimp only
    rw [h.core, switchedCore_mem, pushedCore_mem]
    exact Function.update_self ..
  case registers =>
    intro x hx
    have hRegs : ∀ x ∈ switchLoads, x.1 ≠ .a0 ∧ x.1 ≠ .a1 := by
      decide
    have hOld : ¬Below 44 (s.core.get .sp) (pcb s.current) := hApart _ (inPcb_self sym _)
    dsimp only
    rw [h.core, switchedCore_mem]
    refine (pushedCore_mem_frame (c := called s.core mem _ (pcb t)) hOwns.room hOld x hx).trans ?_
    exact get_called_of_ne _ _ _ _ (hRegs x hx).1 (hRegs x hx).2
  case pcbKstack => exact (hMember _ (inPcb_kstack sym _) hKstack.symm).trans hVariables.1
  case pcbIninterrupt =>
    exact (hMember _ (inPcb_ininterrupt sym _) hInInterrupt.symm).trans hVariables.2

end Switches

/-! ## New threads -/

section Creates

variable {m : Memory} {p stack data1 data2 func a : Mips.Word}

/-- What `md_initpcb` writes to the `struct pcb`. -/
def initialPcb (sym : Symbols) (stack : Mips.Word) : List (Mips.Word × Mips.Word) :=
  let stacktop := stack + sym.stackSize
  [(sym.pcbBadfaultfunc, 0), (sym.pcbKstack, stacktop), (0, stacktop - 44),
    (sym.pcbIninterrupt, 0)]

/-- What it writes to the frame. -/
def initialFrame (sym : Symbols) (data1 data2 func : Mips.Word) : List (Mips.Word × Mips.Word) :=
  zeroedSwitchframe ++ [(0, data1), (4, data2), (8, func), (40, sym.mipsThreadstart)]

theorem mdInitpcb_eq : mdInitpcb sym p stack data1 data2 func m =
    (m.writes p (initialPcb sym stack)).writes (stack + sym.stackSize - 44)
      (initialFrame sym data1 data2 func) := Memory.writes_append.symm

theorem toNat_of_mem_initialFrame {w : Mips.Word × Mips.Word}
    (hw : w ∈ initialFrame sym data1 data2 func) : w.1.toNat < 44 := by
  have hOffsets : ∀ o ∈ [0#32, 4, 8, 12, 16, 20, 24, 28, 32, 36, 40, 0, 4, 8, 40],
      o.toNat < 44 := by
    simp
  exact hOffsets w.1 (List.mem_map_of_mem (f := Prod.fst) hw)

theorem mdInitpcb_of_not_below (hRoom : Room 44 (stack + sym.stackSize))
    (ha : ¬Below 44 (stack + sym.stackSize) a) :
    mdInitpcb sym p stack data1 data2 func m a = m.writes p (initialPcb sym stack) a := by
  rw [mdInitpcb_eq]
  apply Memory.writes_of_notMem
  rintro w hw rfl
  have hInside := toNat_of_mem_initialFrame hw
  have hBase := hRoom.toNat_sub
  obtain ⟨-, hLow, hHigh⟩ := hRoom
  apply ha
  unfold Below
  bv_omega

theorem mdInitpcb_of_notMem (hRoom : Room 44 (stack + sym.stackSize))
    (ha : ¬Below 44 (stack + sym.stackSize) a) (hPcb : ¬InPcb sym p a) :
    mdInitpcb sym p stack data1 data2 func m a = m a := by
  rw [mdInitpcb_of_not_below hRoom ha]
  apply Memory.writes_of_notMem
  rintro w hw rfl
  simp only [initialPcb, List.mem_cons, List.not_mem_nil, or_false] at hw
  apply hPcb
  refine ⟨w.1, ?_, rfl⟩
  rcases hw with rfl | rfl | rfl | rfl <;> simp

/-- The members, where the frame is elsewhere. -/
theorem mdInitpcb_pcb (data1 data2 func : BitVec 32) (m : Memory)
    (hLinked : Linked code sym pcb) (hRoom : Room 44 (stack + sym.stackSize))
    (hApart : ∀ a, InPcb sym p a → ¬Below 44 (stack + sym.stackSize) a) :
    mdInitpcb sym p stack data1 data2 func m p = stack + sym.stackSize - 44 ∧
      mdInitpcb sym p stack data1 data2 func m (p + sym.pcbKstack) = stack + sym.stackSize ∧
      mdInitpcb sym p stack data1 data2 func m (p + sym.pcbIninterrupt) = 0 := by
  have hMembers := hLinked.members
  simp only [List.nodup_cons, List.mem_cons, List.not_mem_nil, or_false, not_or] at hMembers
  obtain ⟨⟨hZero, hZero', -⟩, ⟨hOther, -⟩, -⟩ := hMembers
  have hKstack : 0#32 ≠ sym.pcbKstack := hZero
  have hInInterrupt : sym.pcbIninterrupt ≠ 0#32 := Ne.symm hZero'
  have hFirst : m.writes p (initialPcb sym stack) (p + 0#32) = stack + sym.stackSize - 44 := by
    rw [Memory.writes_apply]
    simp [initialPcb, hInInterrupt]
  rw [BitVec.add_zero] at hFirst
  refine ⟨?_, ?_, ?_⟩
  · rw [mdInitpcb_of_not_below hRoom (hApart _ (inPcb_self sym p)), hFirst]
  · rw [mdInitpcb_of_not_below hRoom (hApart _ (inPcb_kstack sym p)), Memory.writes_apply]
    simp [initialPcb, Ne.symm hOther, hKstack]
  · rw [mdInitpcb_of_not_below hRoom (hApart _ (inPcb_ininterrupt sym p)), Memory.writes_apply]
    simp [initialPcb]

/-- The frame of a new thread. -/
theorem mdInitpcb_frame : ∀ x ∈ switchLoads,
    mdInitpcb sym p stack data1 data2 func m
      (stack + sym.stackSize - 44 + x.2.signExtend 32) =
      (newSaved sym stack data1 data2 func).get x.1 := by
  intro x hx
  rw [mdInitpcb_eq, Memory.writes_apply]
  simp only [switchLoads, List.mem_cons, List.not_mem_nil, or_false] at hx
  rcases hx with rfl | rfl | rfl | rfl | rfl | rfl | rfl | rfl | rfl | rfl | rfl <;> rfl

variable [DecidableEq τ] {s s' : Threads τ} {t : τ} {keep : Set Mips.Word}

theorem Creates.spares (h : Creates sym pcb s t stack data1 data2 func keep s') :
    s.coroutines.Spares s'.core.mem := by
  intro u k hSaved a ha
  have hOther : a ∉ keep := fun hKeep => h.owns.others u k hSaved a hKeep ha
  rw [h.core]
  exact mdInitpcb_of_notMem h.owns.room (fun hIn => hOther (h.owns.frame a hIn))
    fun hIn => hOther (h.owns.pcb a hIn)

/-- A new thread is frozen before it runs. -/
theorem Creates.frozen (hLinked : Linked code sym pcb)
    (h : Creates sym pcb s t stack data1 data2 func keep s') :
    Frozen sym (pcb t) ⟨newSaved sym stack data1 data2 func, keep, s'.core.mem⟩ := by
  have hOwns := h.owns
  obtain ⟨hSwitchstack, hKstack, hInInterrupt⟩ :=
    mdInitpcb_pcb data1 data2 func s.core.mem hLinked hOwns.room hOwns.apart
  rw [h.core]
  exact {
    room := hOwns.room
    frame := hOwns.frame
    pcb := hOwns.pcb
    curkstack := hOwns.curkstack
    inInterrupt := hOwns.inInterrupt
    switchstack := hSwitchstack
    registers := mdInitpcb_frame
    pcbKstack := hKstack
    pcbIninterrupt := hInInterrupt }

end Creates

/-! ## Two threads -/

def sampleSymbols : Symbols where
  curkstack := 0x80010000
  inInterrupt := 0x80010004
  mipsSwitch := 0x80002000
  mipsThreadstart := 0x80002100
  miThreadstart := 0x80002200
  stackSize := 4096
  pcbKstack := 4
  pcbIninterrupt := 8
  pcbBadfaultfunc := 12

def sampleCode : Mips.Word → Option Instr := layout [
  (0x80002000, mipsSwitch),
  (0x80002100, mipsThreadstart sampleSymbols)]

def samplePcb (t : Bool) : Mips.Word := if t then 0x80011100 else 0x80011000

/-- Where the stacks end. -/
def sampleTop (t : Bool) : Mips.Word := if t then 0x80031000 else 0x80020000

def sampleKeep (t : Bool) : Set Mips.Word :=
  {a | Below 44 (sampleTop t) a ∨ InPcb sampleSymbols (samplePcb t) a}

theorem linked_sample : Linked sampleCode sampleSymbols samplePcb where
  mipsSwitch := by decide +kernel
  mipsThreadstart := by decide +kernel
  members := by decide
  curkstack := by decide
  direct := by decide

/-- Each has its words between two addresses. -/
theorem mem_sampleKeep {t : Bool} {a : Mips.Word} (ha : a ∈ sampleKeep t) :
    ((sampleTop t).toNat - 44 ≤ a.toNat ∧ a.toNat < (sampleTop t).toNat) ∨
      ((samplePcb t).toNat ≤ a.toNat ∧ a.toNat < (samplePcb t).toNat + 16) := by
  rcases ha with hBelow | ⟨o, ho, rfl⟩
  · exact Or.inl hBelow
  · right
    simp only [sampleSymbols, List.mem_cons, List.not_mem_nil, or_false] at ho
    cases t <;> rcases ho with rfl | rfl | rfl | rfl <;> decide

theorem owns_sample (t : Bool) {s : Threads Bool}
    (hOthers : ∀ u k, s.saved u = some k → u ≠ t ∧ k.keep = sampleKeep u) :
    Owns sampleSymbols (samplePcb t) (sampleTop t) s (sampleKeep t) where
  room := by
    cases t <;> exact ⟨by decide, by decide, by decide⟩
  frame _ ha := Or.inl ha
  pcb _ ha := Or.inr ha
  apart a ha := by
    obtain ⟨o, ho, rfl⟩ := ha
    simp only [sampleSymbols, List.mem_cons, List.not_mem_nil, or_false] at ho
    cases t <;> rcases ho with rfl | rfl | rfl | rfl <;> decide
  curkstack ha := by
    have hBetween := mem_sampleKeep ha
    revert hBetween
    cases t <;> decide
  inInterrupt ha := by
    have hBetween := mem_sampleKeep ha
    revert hBetween
    cases t <;> decide
  others u k hSaved a ha hKeep := by
    obtain ⟨hOther, hSame⟩ := hOthers u k hSaved
    rw [hSame] at hKeep
    have hHere := mem_sampleKeep ha
    have hThere := mem_sampleKeep hKeep
    cases t <;> cases u
    case false.false | true.true => exact hOther rfl
    all_goals
      simp [sampleTop, samplePcb] at hHere hThere
      omega

/-- The first thread, with 7 in its registers. -/
def sampleBoot : Threads Bool where
  core := {
    regs := fun r => if r = .sp then 0x80020000 else if r = .ra then 0x80005000 else 7
    hi := 0
    lo := 0
    mem := fun a => if a = 0x80010000 then 0x80020000 else 0
    cp0 := fun _ => 0
    tlb := fun _ => ⟨0, 0⟩ }
  current := false
  saved _ := none

def sampleCreated : Threads Bool :=
  let core := sampleBoot.core.setMem
    (mdInitpcb sampleSymbols (samplePcb true) 0x80030000 1 2 3 sampleBoot.core.mem)
  ⟨core, false, Function.update sampleBoot.saved true
    (some ⟨newSaved sampleSymbols 0x80030000 1 2 3, sampleKeep true, core.mem⟩)⟩

def sampleSwitched (s : Threads Bool) (t : Bool) : Threads Bool :=
  let mem := loadVariables sampleSymbols (samplePcb t)
    (saveVariables sampleSymbols (samplePcb s.current) s.core.mem)
  let core := switchedCore (called s.core mem (samplePcb s.current) (samplePcb t))
  ⟨core, t, Function.update (Function.update s.saved s.current
    (some ⟨savedOf sampleSymbols s.core, sampleKeep s.current, core.mem⟩)) t none⟩

theorem creates_sample : Creates sampleSymbols samplePcb sampleBoot true 0x80030000 1 2 3
    (sampleKeep true) sampleCreated where
  new := rfl
  other := by decide
  owns := owns_sample true fun _ _ => nofun
  core := rfl
  current := rfl
  saved := rfl

theorem switches_sample {s : Threads Bool} {t : Bool} (hOther : t ≠ s.current)
    (hSuspended : ∃ k, s.saved t = some k) (hSp : s.core.get .sp = sampleTop s.current)
    (hOthers : ∀ u k, s.saved u = some k → u ≠ s.current ∧ k.keep = sampleKeep u) :
    Switches sampleSymbols samplePcb s t (sampleKeep s.current)
      (loadVariables sampleSymbols (samplePcb t)
        (saveVariables sampleSymbols (samplePcb s.current) s.core.mem))
      (sampleSwitched s t) where
  suspended := hSuspended
  owns := by
    rw [hSp]
    exact owns_sample s.current hOthers
  mdSwitch := by
    apply if_neg
    revert hOther
    cases s.current <;> cases t <;> decide
  core := rfl
  current := rfl
  saved := rfl

/-! ## Coroutines -/

section Coroutines

variable [DecidableEq τ] {s s' : Threads τ} {t : τ} {k : Context} {keep : Set Mips.Word}
  {mem : Memory} {l : Coroutines.Label τ} {tr : List (Coroutines.Label τ)}

/-- What the threads that do not run go on with is in their frames. -/
def Threads.Frozen (sym : Symbols) (pcb : τ → Mips.Word) (s : Threads τ) : Prop :=
  ∀ u k, s.saved u = some k → ContextSwitch.Frozen sym (pcb u) k

theorem Threads.Frozen.update (hFrozen : s.Frozen sym pcb) {u : τ} {o : Option Context}
    (ho : ∀ k, o = some k → ContextSwitch.Frozen sym (pcb u) k) {core : Core} {current : τ} :
    Threads.Frozen sym pcb ⟨core, current, Function.update s.saved u o⟩ := by
  intro v k hSaved
  dsimp only at hSaved
  rcases eq_or_ne v u with rfl | hOther
  · rw [Function.update_self] at hSaved
    exact ho k hSaved
  · rw [Function.update_of_ne hOther] at hSaved
    exact hFrozen v k hSaved

/-- **Simulation.** A step of the threads is one of coroutines. -/
theorem Step.simulate (hLinked : Linked code sym pcb) (hFrozen : s.Frozen sym pcb)
    (h : Step sym pcb s l s') :
    s'.Frozen sym pcb ∧ Coroutines.Step s.coroutines l s'.coroutines := by
  cases h with
  | own d hSpares => exact ⟨hFrozen, .own d.mem hSpares⟩
  | @create _ t stack data1 data2 func keep h =>
    have hNew := h.frozen hLinked
    have hTarget : s' = ⟨s'.core, s.current, Function.update s.saved t
        (some ⟨newSaved sym stack data1 data2 func, keep, s'.core.mem⟩)⟩ := by
      rw [← h.current, ← h.saved]
    constructor
    · rw [hTarget]
      apply hFrozen.update
      rintro k ⟨⟩
      exact hNew
    · rw [hTarget]
      exact .create t ⟨newSaved sym stack data1 data2 func, keep, s'.core.mem⟩ h.new h.other
        h.spares
  | @switch _ t keep mem h =>
    have hAway := h.frozen hLinked
    obtain ⟨k, hSaved⟩ := h.suspended
    have hTarget : s' = ⟨s'.core, t, Function.update (Function.update s.saved s.current
        (some ⟨savedOf sym s.core, keep, s'.core.mem⟩)) t none⟩ := by
      rw [← h.saved, ← h.current]
    constructor
    · rw [hTarget]
      refine Threads.Frozen.update (s := ⟨s'.core, t, Function.update s.saved s.current
        (some ⟨savedOf sym s.core, keep, s'.core.mem⟩)⟩) (hFrozen.update ?_) ?_
      · rintro k' ⟨⟩
        exact hAway
      · rintro k' ⟨⟩
    · rw [hTarget]
      exact .resume t ⟨savedOf sym s.core, keep, s'.core.mem⟩ k hSaved (h.spares hFrozen)
  | discard t =>
    refine ⟨hFrozen.update ?_, .discard t⟩
    rintro k ⟨⟩

theorem run_simulate (hLinked : Linked code sym pcb) (hFrozen : s.Frozen sym pcb)
    (h : Run (Step sym pcb) s tr s') :
    s'.Frozen sym pcb ∧ Run Coroutines.Step s.coroutines tr s'.coroutines :=
  h.simulate hFrozen fun _ _ _ hI hStep => hStep.simulate hLinked hI

/-- There is one thread at first. -/
theorem frozen_and_intact_of_run (hLinked : Linked code sym pcb) {boot : Threads τ}
    (hBoot : ∀ t, boot.saved t = none) (h : Run (Step sym pcb) boot tr s) :
    s.Frozen sym pcb ∧ s.coroutines.Intact := by
  have hFrozen : boot.Frozen sym pcb := by
    intro u k hSaved
    rw [hBoot u] at hSaved
    cases hSaved
  obtain ⟨hThere, hRun⟩ := run_simulate hLinked hFrozen h
  have hIntact : boot.coroutines.Intact := Coroutines.intact_of_saved_eq_none hBoot
  exact ⟨hThere, hIntact.run hRun⟩

/-! ## Back again -/

/-- A thread goes on. -/
structure Resumes (sym : Symbols) (k : Context) (c : Core) : Prop where
  registers : ∀ x ∈ switchLoads, c.get x.1 = k.value.get x.1
  sp : c.get .sp = k.value.get .sp
  curkstack : c.mem sym.curkstack = k.value.kstack
  inInterrupt : c.mem sym.inInterrupt = k.value.inInterrupt
  mem : ∀ a ∈ k.keep, c.mem a = k.mem a

theorem get_resumedCore (c : Core) (sf : Mips.Word) : ∀ x ∈ switchLoads,
    (resumedCore c sf).get x.1 = (pushedCore c).mem (sf + x.2.signExtend 32) := by
  intro x hx
  have hRegs : ∀ x ∈ switchLoads, x.1 ≠ .zero := by
    decide
  unfold resumedCore
  rw [Core.get_reads (hRegs x hx), Core.mem_set]
  simp only [switchLoads, List.mem_cons, List.not_mem_nil, or_false] at hx
  rcases hx with rfl | rfl | rfl | rfl | rfl | rfl | rfl | rfl | rfl | rfl | rfl <;> rfl

/-- The variables are those of the thread that goes on. -/
theorem Switches.variables (hLinked : Linked code sym pcb) (h : Switches sym pcb s t keep mem s')
    (hSaved : s.saved t = some k) (hThere : ContextSwitch.Frozen sym (pcb t) k)
    (hMem : ∀ a ∈ k.keep, s.core.mem a = k.mem a) :
    s'.core.mem sym.curkstack = k.value.kstack ∧
      s'.core.mem sym.inInterrupt = k.value.inInterrupt := by
  have hOwns := h.owns
  have hOut : ∀ a, a ∉ keep → (switchedCore (called s.core mem (pcb s.current) (pcb t))).mem a =
      loadVariables sym (pcb t) (saveVariables sym (pcb s.current) s.core.mem) a := by
    intro a ha
    have hOld : a ≠ pcb s.current := fun hSame => ha (hSame ▸ hOwns.pcb _ (inPcb_self sym _))
    rw [switchedCore_called_mem hOwns.room hOld fun hIn => ha (hOwns.frame a hIn),
      mdSwitch_eq_some h.mdSwitch]
  have hMember : ∀ a, InPcb sym (pcb t) a →
      saveVariables sym (pcb s.current) s.core.mem a = k.mem a := by
    intro a ha
    have hKept := hThere.pcb a ha
    have hElsewhere : ¬InPcb sym (pcb s.current) a := fun hIn =>
      hOwns.others t k hSaved a (hOwns.pcb a hIn) hKept
    rw [saveVariables_of_not_inPcb hElsewhere, hMem a hKept]
  obtain ⟨hCurkstack, hInInterrupt⟩ := loadVariables_variables (p := pcb t)
    (m := saveVariables sym (pcb s.current) s.core.mem) hLinked
    fun hIn => hThere.curkstack (hThere.pcb _ hIn)
  rw [h.core, hOut _ hOwns.curkstack, hOut _ hOwns.inInterrupt, hCurkstack, hInInterrupt,
    hMember _ (inPcb_kstack sym _), hMember _ (inPcb_ininterrupt sym _), hThere.pcbKstack,
    hThere.pcbIninterrupt]
  exact ⟨rfl, rfl⟩

/-- The code of `mips_switch` gets from one thread to the other. -/
theorem Switches.resumes (hLinked : Linked code sym pcb) (hFrozen : s.Frozen sym pcb)
    (hIntact : s.coroutines.Intact) (h : Switches sym pcb s t keep mem s')
    (hSaved : s.saved t = some k) :
    Runs code (fetching (called s.core mem (pcb s.current) (pcb t)) sym.mipsSwitch)
      (fetching s'.core (k.value.get .ra)) ∧ Resumes sym k s'.core := by
  have hThere := hFrozen t k hSaved
  have hMem : ∀ a ∈ k.keep, s.core.mem a = k.mem a := hIntact.mem t k hSaved
  have hKept : ∀ a ∈ k.keep, s'.core.mem a = k.mem a := fun a ha =>
    (h.spares hFrozen t k hSaved a ha).trans (hMem a ha)
  obtain ⟨hCurkstack, hInInterrupt⟩ := h.variables hLinked hSaved hThere hMem
  generalize hCore : called s.core mem (pcb s.current) (pcb t) = c
  have hSwitched : s'.core = switchedCore c := by
    rw [h.core, hCore]
  have hPushed : (pushedCore c).mem = s'.core.mem := by
    rw [hSwitched, switchedCore_mem]
  have hRoom : Room 44 (c.get .sp) := hCore ▸ h.owns.room
  have hOld : Direct (c.get .a0) := hCore ▸ hLinked.direct s.current
  have hNu : Direct (c.get .a1) := hCore ▸ hLinked.direct t
  have hA1 : c.get .a1 = pcb t := hCore ▸ rfl
  have hFrame : resumedFrame c = k.value.get .sp - 44 := by
    unfold resumedFrame
    rw [hPushed, hA1, hKept _ (hThere.pcb _ (inPcb_self sym _)), hThere.switchstack]
  have hTop : resumedFrame c + 44 = k.value.get .sp := by
    rw [hFrame]
    exact BitVec.sub_add_cancel _ _
  have hInside : ∀ x ∈ switchLoads, x.1 ≠ .sp ∧ x.2.toNat < 44 := by
    decide
  have hRegisters : ∀ x ∈ switchLoads, s'.core.get x.1 = k.value.get x.1 := by
    intro x hx
    have hBelow := hThere.room.below (o := x.2) (by decide) (hInside x hx).2
    have hWord := hKept _ (hThere.frame _ hBelow)
    have hGet : s'.core.get x.1 = (resumedCore c (resumedFrame c)).get x.1 := by
      rw [hSwitched]
      exact Core.get_set_of_ne (hInside x hx).1
    rw [hGet, get_resumedCore c _ x hx, hPushed, hFrame]
    exact hWord.trans (hThere.registers x hx)
  have hRuns := runs_mipsSwitch hLinked.mipsSwitch hRoom hOld hNu (hTop ▸ hThere.room)
  rw [← hSwitched, hRegisters (.ra, 40) (by decide)] at hRuns
  refine ⟨hRuns, ⟨hRegisters, ?_, hCurkstack, hInInterrupt, hKept⟩⟩
  rw [hSwitched, switchedCore, Core.get_set (by decide), hTop]

variable {boot s₀ s₁ s₂ s₃ : Threads τ} {before : List (Coroutines.Label τ)} {u : τ}
  {keep' : Set Mips.Word} {mem' : Memory}

/-- **A thread is switched back.** Whatever the others have done since it called `mips_switch`, it
goes on behind the call, with its registers, its stack and its variables. -/
theorem switch_back (hLinked : Linked code sym pcb) (hBoot : ∀ t, boot.saved t = none)
    (hBefore : Run (Step sym pcb) boot before s₀) (hAway : Switches sym pcb s₀ u keep mem s₁)
    (hRun : Run (Step sym pcb) s₁ tr s₂) (hResume : .resume s₀.current ∉ tr)
    (hDiscard : .discard s₀.current ∉ tr)
    (hBack : Switches sym pcb s₂ s₀.current keep' mem' s₃) :
    Runs code
        (fetching (called s₂.core mem' (pcb s₂.current) (pcb s₀.current)) sym.mipsSwitch)
        (fetching s₃.core (s₀.core.get .ra)) ∧
      (∀ x ∈ switchLoads, s₃.core.get x.1 = s₀.core.get x.1) ∧
      s₃.core.get .sp = s₀.core.get .sp ∧
      s₃.core.mem sym.curkstack = s₀.core.mem sym.curkstack ∧
      s₃.core.mem sym.inInterrupt = s₀.core.mem sym.inInterrupt ∧
      ∀ a ∈ keep, ¬Below 44 (s₀.core.get .sp) a → ¬InPcb sym (pcb s₀.current) a →
        s₃.core.mem a = s₀.core.mem a := by
  obtain ⟨hFrozen, hIntact⟩ := frozen_and_intact_of_run hLinked hBoot hBefore
  obtain ⟨hFrozen', hStep⟩ := Step.simulate hLinked hFrozen (.switch hAway)
  have hIntact' := hIntact.step hStep
  obtain ⟨hFrozen'', hRuns⟩ := run_simulate hLinked hFrozen' hRun
  have hOther : s₀.current ≠ u := by
    rintro rfl
    obtain ⟨k, hSaved⟩ := hAway.suspended
    rw [show s₀.saved s₀.current = none from hIntact.current] at hSaved
    cases hSaved
  have hSaved : s₁.saved s₀.current = some ⟨savedOf sym s₀.core, keep, s₁.core.mem⟩ := by
    rw [hAway.saved, Function.update_of_ne hOther, Function.update_self]
  obtain ⟨hStill, -⟩ := Coroutines.saved_of_run hIntact' hSaved hRuns hResume hDiscard
  obtain ⟨hCode, hResumes⟩ := hBack.resumes hLinked hFrozen'' (hIntact'.run hRuns) hStill
  refine ⟨hCode, hResumes.registers, hResumes.sp, hResumes.curkstack, hResumes.inInterrupt, ?_⟩
  intro a ha hFrame hPcb
  exact (hResumes.mem a ha).trans (hAway.mem_of_mem ha hFrame hPcb)

/-- The first thread switches to another and that one back. -/
theorem switch_back_sample :
    let s := sampleSwitched sampleCreated true
    ∃ d, Runs sampleCode (fetching (called s.core (loadVariables sampleSymbols 0x80011000
        (saveVariables sampleSymbols 0x80011100 s.core.mem)) 0x80011100 0x80011000) 0x80002000)
      (fetching d 0x80005000) ∧ d.get .sp = 0x80020000 ∧ d.get .s0 = 7 := by
  intro s
  have hBefore : Run (Step sampleSymbols samplePcb) sampleBoot [.create true] sampleCreated :=
    .single (.create creates_sample)
  have hOne : ∀ u k, sampleCreated.saved u = some k → u ≠ false ∧ k.keep = sampleKeep u := by
    rintro (_ | _) k hSaved <;> cases hSaved
    exact ⟨by decide, rfl⟩
  have hOther : ∀ u k, s.saved u = some k → u ≠ true ∧ k.keep = sampleKeep u := by
    rintro (_ | _) k hSaved <;> cases hSaved
    exact ⟨by decide, rfl⟩
  have hAway := switches_sample (s := sampleCreated) (t := true) (by decide) ⟨_, rfl⟩ rfl hOne
  have hBack := switches_sample (s := s) (t := false) (by decide) ⟨_, rfl⟩ rfl hOther
  obtain ⟨hRuns, hRegisters, hSp, -⟩ := switch_back linked_sample (fun _ => rfl) hBefore hAway .refl
    (by simp) (by simp) hBack
  exact ⟨_, hRuns, hSp, hRegisters (.s0, 0) (by decide)⟩

/-- **A new thread.** Whatever is done between `md_initpcb` and the first switch to the thread, it
gets to `mi_threadstart` with the three arguments, at the top of its stack. -/
theorem thread_starts {stack data1 data2 func : Mips.Word} (hLinked : Linked code sym pcb)
    (hBoot : ∀ t, boot.saved t = none) (hBefore : Run (Step sym pcb) boot before s₀)
    (hCreates : Creates sym pcb s₀ t stack data1 data2 func keep s₁)
    (hRun : Run (Step sym pcb) s₁ tr s₂) (hResume : .resume t ∉ tr) (hDiscard : .discard t ∉ tr)
    (hFirst : Switches sym pcb s₂ t keep' mem' s₃) :
    ∃ d, Runs code (fetching (called s₂.core mem' (pcb s₂.current) (pcb t)) sym.mipsSwitch)
        (fetching d sym.miThreadstart) ∧
      d.get .a0 = data1 ∧ d.get .a1 = data2 ∧ d.get .a2 = func ∧ d.get .ra = 0 ∧
      d.get .sp = stack + sym.stackSize - 16 ∧
      d.mem sym.curkstack = stack + sym.stackSize ∧ d.mem sym.inInterrupt = 0 ∧
      ∀ a ∈ keep, d.mem a = s₁.core.mem a := by
  obtain ⟨hFrozen, hIntact⟩ := frozen_and_intact_of_run hLinked hBoot hBefore
  obtain ⟨hFrozen', hStep⟩ := Step.simulate hLinked hFrozen (.create hCreates)
  have hIntact' := hIntact.step hStep
  obtain ⟨hFrozen'', hRuns⟩ := run_simulate hLinked hFrozen' hRun
  have hSaved : s₁.saved t =
      some ⟨newSaved sym stack data1 data2 func, keep, s₁.core.mem⟩ := by
    rw [hCreates.saved, Function.update_self]
  obtain ⟨hStill, -⟩ := Coroutines.saved_of_run hIntact' hSaved hRuns hResume hDiscard
  obtain ⟨hCode, hResumes⟩ := hFirst.resumes hLinked hFrozen'' (hIntact'.run hRuns) hStill
  have hStart := runs_mipsThreadstart hLinked.mipsThreadstart s₃.core
  refine ⟨startedCore s₃.core, hCode.trans hStart, ?_, ?_, ?_, rfl, ?_, hResumes.curkstack,
    hResumes.inInterrupt, hResumes.mem⟩
  · exact hResumes.registers (.s0, 0) (by decide)
  · exact hResumes.registers (.s1, 4) (by decide)
  · exact hResumes.registers (.s2, 8) (by decide)
  · exact congrArg (· - 16) hResumes.sp

/-- A thread is created and is switched to. -/
theorem thread_starts_sample : ∃ d,
    Runs sampleCode (fetching (called sampleCreated.core (loadVariables sampleSymbols 0x80011100
        (saveVariables sampleSymbols 0x80011000 sampleCreated.core.mem)) 0x80011000 0x80011100)
        0x80002000) (fetching d 0x80002200) ∧
      d.get .a0 = 1 ∧ d.get .sp = 0x80030ff0 := by
  have hOne : ∀ u k, sampleCreated.saved u = some k → u ≠ false ∧ k.keep = sampleKeep u := by
    rintro (_ | _) k hSaved <;> cases hSaved
    exact ⟨by decide, rfl⟩
  have hFirst := switches_sample (s := sampleCreated) (t := true) (by decide) ⟨_, rfl⟩ rfl hOne
  obtain ⟨d, hRuns, hData, -, -, -, hSp, -⟩ := thread_starts linked_sample (fun _ => rfl) .refl
    creates_sample .refl (by simp) (by simp) hFirst
  exact ⟨d, hRuns, hData, hSp⟩

end Coroutines

end Windborne.OS161.ContextSwitch
