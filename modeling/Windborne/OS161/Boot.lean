import Windborne.OS161.ExceptionEntry
import Windborne.OS161.StealMem
import Windborne.OS161.Tlb

/-!
# Startup

The code of `start.S`. The loader leaves a string above the boot stack. Whatever the string is,
`kmain` is called with a copy of it behind the kernel, on a stack of one page behind the copy, with
the exception handlers at the vectors and an empty TLB. The three functions of the C library are
parameters.
-/

namespace Windborne.OS161.Boot

open Library Library.Mips

/-! ## The code -/

/-- Where the linker puts variables and functions, and `_end`. -/
structure Symbols where
  entry : ExceptionEntry.Symbols
  start : Mips.Word
  firstfree : Mips.Word
  kernelEnd : Mips.Word
  utlbException : Mips.Word
  utlbExceptionEnd : Mips.Word
  exception : Mips.Word
  exceptionEnd : Mips.Word
  strcpy : Mips.Word
  strlen : Mips.Word
  memmove : Mips.Word
  mipsFlushicache : Mips.Word
  tlbReset : Mips.Word
  kmain : Mips.Word
  panic : Mips.Word
  panicstr : Mips.Word

def mipsFlushicache : List Instr := ([] : List Instr) ++ ([
  .jr .ra,
  .nop] : List Instr)

/-- Up to the call of `strcpy`. -/
def copyBootstring (sym : Symbols) : List Instr := ([
  .addiu .sp .sp (-20),
  .sw .ra 16 .sp] : List Instr) ++
  (la .s0 sym.kernelEnd ++ ([
  .move .a1 .a0,
  .move .a0 .s0] : List Instr))

/-- The stack pointer for the first thread. -/
def findStack : List Instr := [
  .add .t0 .s0 .v0,
  .addi .t0 .t0 1,
  .addi .t0 .t0 4095,
  .addiu .t1 .zero (-4096),
  .and .t0 .t0 .t1,
  .addi .t0 .t0 4096,
  .move .sp .t0]

def makeStack (sym : Symbols) : List Instr :=
  findStack ++ (swSymbol .t0 sym.entry.curkstack ++ (swSymbol .t0 sym.firstfree ++ ([
  .addiu .sp .sp (-20),
  .sw .zero 16 .sp] : List Instr)))

/-- The arguments for `memmove`, behind the one for the destination. -/
def copyHandler (first last : Mips.Word) : List Instr :=
  la .a1 first ++ (la .a2 last ++ ([.sub .a2 .a2 .a1] : List Instr))

/-- Up to the call of `kmain`, with its delay slot. -/
def callKmain (sym : Symbols) : List Instr :=
  (copyBootstring sym ++ ([.jal sym.strcpy, .nop] : List Instr)) ++
  ((([.move .a0 .s0] : List Instr) ++ ([.jal sym.strlen, .nop] : List Instr)) ++
  ((makeStack sym ++ (([.lui .a0 0x8000] : List Instr) ++
    copyHandler sym.utlbException sym.utlbExceptionEnd) ++
    ([.jal sym.memmove, .nop] : List Instr)) ++
  (((la .a0 0x80000080 ++ copyHandler sym.exception sym.exceptionEnd) ++
    ([.jal sym.memmove, .nop] : List Instr)) ++
  ((([] : List Instr) ++ ([.jal sym.mipsFlushicache, .nop] : List Instr)) ++
  ((([] : List Instr) ++ ([.jal sym.tlbReset, .nop] : List Instr)) ++
  (([.ori .t0 .zero 0xff00, .mtc0 .t0 .status] : List Instr) ++
    ([.jal sym.kmain, .move .a0 .s0] : List Instr)))))))

/-- The address of the label `1`. -/
def Symbols.panicLoop (sym : Symbols) : Mips.Word :=
  sym.start + BitVec.ofNat 32 (4 * (callKmain sym).length)

/-- `__start` -/
def start (sym : Symbols) : List Instr :=
  callKmain sym ++ ((la .a0 sym.panicstr ++ ([.jal sym.panic, .nop] : List Instr)) ++
    (([] : List Instr) ++ ([.j sym.panicLoop, .nop] : List Instr)))

/-- The code is where the linker has put it. -/
structure Linked (code : Mips.Word → Option Instr) (sym : Symbols) : Prop where
  start : At code sym.start (start sym)
  mipsFlushicache : At code sym.mipsFlushicache mipsFlushicache
  tlbReset : At code sym.tlbReset Tlb.tlbReset
  utlbException : At code sym.utlbException (ExceptionEntry.utlbException sym.entry)
  exception : At code sym.exception (ExceptionEntry.exception sym.entry)
  commonException :
    At code sym.entry.commonException (ExceptionEntry.commonException sym.entry)
  asmUsermode : At code sym.entry.asmUsermode (ExceptionEntry.asmUsermode sym.entry)

/-- The code that memory contains. -/
def fetched (decode : Mips.Word → Option Instr) (m : Memory) (a : Mips.Word) : Option Instr :=
  decode (m a)

/-! ## Strings -/

/-- The byte at an address, the first of a word being the most significant one. -/
def byteAt (m : Memory) (a : Mips.Word) : BitVec 8 :=
  (m (BitVec.ofNat 32 (a.toNat / 4 * 4))).extractLsb' (8 * (3 - a.toNat % 4)) 8

/-- A string with its terminator. -/
structure HasString (m : Memory) (a : Mips.Word) (text : List (BitVec 8)) : Prop where
  bytes : ∀ i (h : i < text.length), byteAt m (a + BitVec.ofNat 32 i) = text[i]
  null : byteAt m (a + BitVec.ofNat 32 text.length) = 0
  nonzero : 0 ∉ text

theorem byteAt_congr {m m' : Memory} {a : Mips.Word}
    (h : ∀ b : Mips.Word, b.toNat ≤ a.toNat → a.toNat < b.toNat + 4 → m' b = m b) :
    byteAt m' a = byteAt m a := by
  have hWord : (BitVec.ofNat 32 (a.toNat / 4 * 4)).toNat = a.toNat / 4 * 4 := by
    rw [BitVec.toNat_ofNat]
    omega
  unfold byteAt
  rw [h]
  all_goals omega

/-- Only the words with the bytes of a string matter. -/
theorem HasString.congr {m m' : Memory} {a : Mips.Word} {text : List (BitVec 8)}
    (h : HasString m a text) (hFits : a.toNat + text.length < 2 ^ 32)
    (hSame : ∀ b : Mips.Word, a.toNat < b.toNat + 4 → b.toNat ≤ a.toNat + text.length →
      m' b = m b) : HasString m' a text := by
  have hByte : ∀ i ≤ text.length,
      byteAt m' (a + BitVec.ofNat 32 i) = byteAt m (a + BitVec.ofNat 32 i) := by
    intro i hi
    have hSum : (a + BitVec.ofNat 32 i).toNat = a.toNat + i := by
      rw [BitVec.toNat_add, BitVec.toNat_ofNat]
      omega
    refine byteAt_congr fun b hLow hHigh => hSame b ?_ ?_
    all_goals omega
  refine ⟨fun i hi => ?_, ?_, h.nonzero⟩
  · rw [hByte i (Nat.le_of_lt hi), h.bytes i hi]
  · rw [hByte _ (Nat.le_refl _), h.null]

/-! ## The library -/

/-- What `strcpy`, `strlen` and `memmove` do until they return. -/
structure CLibrary where
  strcpy : Core → Core
  strlen : Core → Core
  memmove : Core → Core

/-- The word at `a` overlaps the `n` bytes at `dest`. -/
def Touches (dest : Mips.Word) (n : Nat) (a : Mips.Word) : Prop :=
  dest.toNat < a.toNat + 4 ∧ a.toNat < dest.toNat + n

/-- The address is on the stack of a function, or in the room for its arguments. -/
def OnStack (depth : Nat) (sp a : Mips.Word) : Prop :=
  sp.toNat < a.toNat + 4 + depth ∧ a.toNat < sp.toNat + 16

/-- A function that was called at `c` and writes the `n` bytes at `dest` has returned. -/
structure Returned (depth : Nat) (c d : Core) (dest : Mips.Word) (n : Nat) : Prop where
  s0 : d.get .s0 = c.get .s0
  sp : d.get .sp = c.get .sp
  mem : ∀ a, ¬Touches dest n a → ¬OnStack depth (c.get .sp) a → d.mem a = c.mem a

/-- The functions as documented. They use up to `depth` bytes of stack. -/
structure CLibrary.Provides (lib : CLibrary) (depth : Nat) (text : List (BitVec 8)) : Prop where
  strcpy : ∀ c, HasString c.mem (c.get .a1) text →
    (c.get .a0).toNat + text.length + depth < (c.get .sp).toNat →
    (c.get .sp).toNat + 16 ≤ (c.get .a1).toNat →
    Returned depth c (lib.strcpy c) (c.get .a0) (text.length + 1) ∧
      HasString (lib.strcpy c).mem (c.get .a0) text
  strlen : ∀ c, HasString c.mem (c.get .a0) text →
    (c.get .a0).toNat + text.length + depth < (c.get .sp).toNat →
    Returned depth c (lib.strlen c) 0 0 ∧
      (lib.strlen c).get .v0 = BitVec.ofNat 32 text.length
  memmove : ∀ c n, (c.get .a2).toNat = 4 * n → Direct (c.get .a0) → Direct (c.get .a1) →
    (c.get .a0).toNat + 4 * n + depth ≤ (c.get .sp).toNat →
    (c.get .a1).toNat + 4 * n + depth ≤ (c.get .sp).toNat →
    Returned depth c (lib.memmove c) (c.get .a0) (4 * n) ∧
      ∀ i < n, (lib.memmove c).mem (c.get .a0 + BitVec.ofNat 32 (4 * i)) =
        c.mem (c.get .a1 + BitVec.ofNat 32 (4 * i))

/-- A call of the library. -/
inductive Calls (lib : CLibrary) (sym : Symbols) : Processor → Processor → Prop
  | strcpy (c : Core) :
      Calls lib sym (fetching c sym.strcpy) (fetching (lib.strcpy c) (c.get .ra))
  | strlen (c : Core) :
      Calls lib sym (fetching c sym.strlen) (fetching (lib.strlen c) (c.get .ra))
  | memmove (c : Core) :
      Calls lib sym (fetching c sym.memmove) (fetching (lib.memmove c) (c.get .ra))

/-- The processor runs, with the library for the functions that are not part of the code. -/
def Boots (code : Mips.Word → Option Instr) (lib : CLibrary) (sym : Symbols) :
    Processor → Processor → Prop :=
  Relation.ReflTransGen fun p q => step code p = .ok q ∨ Calls lib sym p q

/-! ## Memory -/

/-- A word of the kernel as it was loaded. -/
def InKernel (sym : Symbols) (a : Mips.Word) : Prop :=
  0x80001000 ≤ a.toNat ∧ a.toNat + 4 ≤ sym.kernelEnd.toNat

/-- Code of `n` instructions, none of which is one of the two variables. -/
def InText (sym : Symbols) (pc : Mips.Word) (n : Nat) : Prop :=
  Direct pc ∧ ∀ i < n, InKernel sym (pc + BitVec.ofNat 32 (4 * i)) ∧
    pc + BitVec.ofNat 32 (4 * i) ≠ sym.entry.curkstack ∧
    pc + BitVec.ofNat 32 (4 * i) ≠ sym.firstfree

/-- What the linker and the loader see to: the kernel and its variables are where the symbols say,
and the string is above the boot stack, which has room for the calls. -/
structure Loaded (sym : Symbols) (depth : Nat) (text : List (BitVec 8)) (c : Core) : Prop where
  string : HasString c.mem (c.get .a0) text
  above : (c.get .sp).toNat ≤ (c.get .a0).toNat
  fits : (c.get .a0).toNat + text.length < 2 ^ 32
  aligned : (c.get .sp).toNat % 4 = 0
  high : (c.get .sp).toNat ≤ 0xa0000000
  stack : sym.kernelEnd.toNat + text.length + 24 + depth ≤ (c.get .sp).toNat
  room : sym.kernelEnd.toNat + text.length + 0x2000 ≤ 0xa0000000
  depth : depth ≤ 0xf00
  curkstack : Direct sym.entry.curkstack ∧ InKernel sym sym.entry.curkstack
  firstfree : Direct sym.firstfree ∧ InKernel sym sym.firstfree
  distinct : sym.entry.curkstack ≠ sym.firstfree
  utlbException : InText sym sym.utlbException 13
  utlbExceptionEnd : sym.utlbExceptionEnd = sym.utlbException + 52
  exception : InText sym sym.exception 12
  exceptionEnd : sym.exceptionEnd = sym.exception + 48
  commonException : InText sym sym.entry.commonException
    (ExceptionEntry.commonException sym.entry).length
  asmUsermode : InText sym sym.entry.asmUsermode (ExceptionEntry.asmUsermode sym.entry).length

/-- The end of the stack of the first thread: one page behind the copy of the string. -/
def stackEnd (sym : Symbols) (text : List (BitVec 8)) : Mips.Word :=
  ((sym.kernelEnd + BitVec.ofNat 32 text.length + 1 + 4095) &&& 0xfffff000) + 4096

/-- On the stack of the first thread. -/
structure Stacked (sym : Symbols) (text : List (BitVec 8)) (c d : Core) : Prop where
  s0 : d.get .s0 = sym.kernelEnd
  sp : d.get .sp = stackEnd sym text - 20
  string : HasString d.mem sym.kernelEnd text
  curkstack : d.mem sym.entry.curkstack = stackEnd sym text
  firstfree : d.mem sym.firstfree = stackEnd sym text
  frame : d.mem (stackEnd sym text - 4) = 0
  kernel : ∀ a, InKernel sym a → a ≠ sym.entry.curkstack → a ≠ sym.firstfree →
    d.mem a = c.mem a

/-- `n` words have been copied. -/
def Copied (m : Memory) (dest : Mips.Word) (m' : Memory) (src : Mips.Word) (n : Nat) : Prop :=
  ∀ i < n, m (dest + BitVec.ofNat 32 (4 * i)) = m' (src + BitVec.ofNat 32 (4 * i))

/-- `kmain` has been called. -/
structure Booted (sym : Symbols) (text : List (BitVec 8)) (c d : Core) : Prop where
  stacked : Stacked sym text c d
  a0 : d.get .a0 = sym.kernelEnd
  utlbException : Copied d.mem 0x80000000 c.mem sym.utlbException 13
  exception : Copied d.mem 0x80000080 c.mem sym.exception 12
  status : d.cp0 .status = 0xff00
  tlb : ∀ j, (d.tlb j).lo = 0 ∧ 0x81000000 ≤ (d.tlb j).hi.toNat ∧ (d.tlb j).hi.toNat < 0x81080000
  pages : ∀ j k, j < k → (d.tlb j).hi.toNat < (d.tlb k).hi.toNat

/-! ## Straight pieces -/

section Pieces

variable {code : Mips.Word → Option Instr} {lib : CLibrary} {sym : Symbols} {depth : Nat}
  {text : List (BitVec 8)} {c d e : Core} {pc f : Mips.Word} {is : List Instr}

theorem boots_of_runs {p q : Processor} (h : Runs code p q) : Boots code lib sym p q :=
  Relation.ReflTransGen.mono (fun _ _ hStep => Or.inl hStep) _ _ h

theorem boots_call (hCode : At code pc (is ++ ([.jal f, .nop] : List Instr)))
    (hStraight : ∀ k ∈ is, k.jumps = false) (hWaits : Waits none is) (hRun : run is c = .ok d) :
    Boots code lib sym (fetching c pc) (fetching (d.set .ra
      (pc + BitVec.ofNat 32 (4 * (is ++ ([.jal f, .nop] : List Instr)).length))) f) :=
  boots_of_runs (runs_call hCode hStraight hWaits hRun)

/-- A frame with one register. -/
theorem run_frame {r : Reg} (hReg : r ≠ .sp) (hDirect : Direct (d.get .sp - 4)) :
    run (([.addiu .sp .sp (-20), .sw r 16 .sp] : List Instr) ++ is) d =
      run is ((d.set .sp (d.get .sp - 20)).setMem
        (Function.update d.mem (d.get .sp - 4) (d.get r))) := by
  have hPush : (Instr.addiu .sp .sp (-20)).exec d = .ok (d.set .sp (d.get .sp - 20)) := by
    have hMinus : (-20 : BitVec 16).signExtend 32 = -20#32 := by
      decide
    rw [Instr.exec, hMinus, BitVec.sub_eq_add_neg]
    rfl
  have hAddress : (d.set .sp (d.get .sp - 20)).get .sp + (16 : BitVec 16).signExtend 32 =
      d.get .sp - 4 := by
    have hOffset : (16 : BitVec 16).signExtend 32 = 16#32 := by
      decide
    rw [Core.get_set (by decide), hOffset]
    bv_omega
  have hSave : (Instr.sw r 16 .sp).exec (d.set .sp (d.get .sp - 20)) =
      .ok ((d.set .sp (d.get .sp - 20)).setMem
        (Function.update d.mem (d.get .sp - 4) (d.get r))) := by
    rw [exec_sw, hAddress, Core.mem_set, Core.get_set_of_ne hReg]
    rwa [hAddress]
  rw [List.cons_append, List.cons_append, List.nil_append, run_cons hPush, run_cons hSave]

theorem Loaded.kernelEnd_low (h : Loaded sym depth text c) :
    0x80001004 ≤ sym.kernelEnd.toNat := by
  have hKernel := h.curkstack.2
  unfold InKernel at hKernel
  omega

/-- Below the end of a stack. -/
theorem direct_below {x : Mips.Word} (hLow : 0x80000004 ≤ x.toNat) (hHigh : x.toNat ≤ 0xa0000000)
    (hAligned : x.toNat % 4 = 0) : Direct (x - 4) := by
  have hSub : (x - 4).toNat = x.toNat - 4 := by
    bv_omega
  unfold Direct
  omega

/-- On the stack of the loader. -/
theorem run_copyBootstring (h : Loaded sym depth text c) :
    ∃ d, run (copyBootstring sym) c = .ok d ∧ d.get .a0 = sym.kernelEnd ∧
      d.get .a1 = c.get .a0 ∧ d.get .s0 = sym.kernelEnd ∧ d.get .sp = c.get .sp - 20 ∧
      d.mem = Function.update c.mem (c.get .sp - 4) (c.get .ra) := by
  have hDirect : Direct (c.get .sp - 4) := by
    have hStack := h.stack
    have hLow := h.kernelEnd_low
    exact direct_below (by omega) h.high h.aligned
  have hRun : run (copyBootstring sym) c = .ok (((((c.set .sp (c.get .sp - 20)).setMem
      (Function.update c.mem (c.get .sp - 4) (c.get .ra))).set .s0 sym.kernelEnd).set .a1
        (c.get .a0)).set .a0 sym.kernelEnd) := by
    rw [copyBootstring, run_frame (by decide) hDirect, run_la (by decide)]
    rfl
  exact ⟨_, hRun, by simp [Core.mem_setMem]⟩

/-- The end of the page with the end of the string. -/
theorem Loaded.toNat_pageEnd (h : Loaded sym depth text c) :
    ((sym.kernelEnd + BitVec.ofNat 32 text.length + 1 + 4095) &&& 0xfffff000#32).toNat =
      (sym.kernelEnd.toNat + text.length + 4096) / 4096 * 4096 := by
  have hRoom := h.room
  rw [Tlb.toNat_page]
  bv_omega

/-- The stack pointer is computed. -/
theorem run_findStack (h : Loaded sym depth text c) (hS0 : d.get .s0 = sym.kernelEnd)
    (hV0 : d.get .v0 = BitVec.ofNat 32 text.length) (is : List Instr) :
    ∃ e, run (findStack ++ is) d = run is e ∧ e.get .t0 = stackEnd sym text ∧
      e.get .sp = stackEnd sym text ∧ e.get .s0 = sym.kernelEnd ∧ e.mem = d.mem := by
  have hRoom := h.room
  have hLow := h.kernelEnd_low
  have hLength : (BitVec.ofNat 32 text.length).toNat = text.length := by
    rw [BitVec.toNat_ofNat]
    omega
  have hSum : (sym.kernelEnd + BitVec.ofNat 32 text.length).toNat =
      sym.kernelEnd.toNat + text.length := by
    rw [BitVec.toNat_add, hLength]
    omega
  have hNext : (sym.kernelEnd + BitVec.ofNat 32 text.length + 1).toNat =
      sym.kernelEnd.toNat + text.length + 1 := by
    bv_omega
  have hPage := h.toNat_pageEnd
  have hFirst : (Instr.add .t0 .s0 .v0).exec d =
      .ok (d.set .t0 (sym.kernelEnd + BitVec.ofNat 32 text.length)) := by
    rw [exec_add, hS0, hV0]
    · rw [hS0]
      omega
    · rw [hV0, hLength]
      omega
  have hAdd : ∀ (e : Core) (x : Mips.Word) (imm : BitVec 16), 0x80000000 ≤ x.toNat →
      0 ≤ (imm.signExtend 32).toInt → (Instr.addi .t0 .t0 imm).exec (e.set .t0 x) =
        .ok (e.set .t0 (x + imm.signExtend 32)) := by
    intro e x imm hHalf hImm
    have hGet : (e.set .t0 x).get .t0 = x := Core.get_set (by decide)
    rw [exec_addi, hGet, Core.set_set]
    · rwa [hGet]
    · rw [hGet]
      omega
  have hAnd : ∀ x : Mips.Word, (Instr.and .t0 .t0 .t1).exec ((d.set .t0 x).set .t1 0xfffff000) =
      .ok (((d.set .t0 x).set .t1 0xfffff000).set .t0 (x &&& 0xfffff000)) := by
    intro x
    rw [Instr.exec, Core.get_set_of_ne (by decide), Core.get_set (by decide),
      Core.get_set (by decide)]
  have hMask : ∀ e : Core, (Instr.addiu .t1 .zero (-4096)).exec e =
      .ok (e.set .t1 0xfffff000) := by
    intro e
    have hSum : 0 + (-4096 : BitVec 16).signExtend 32 = 0xfffff000#32 := by
      decide
    rw [Instr.exec, Core.get_zero, hSum]
    rfl
  have hRun : run (findStack ++ is) d = run is ((((d.set .t0 (sym.kernelEnd +
      BitVec.ofNat 32 text.length + 1 + 4095)).set .t1 0xfffff000).set .t0
        (stackEnd sym text)).set .sp (stackEnd sym text)) := by
    simp only [findStack, List.cons_append, List.nil_append]
    rw [run_cons hFirst, run_cons (hAdd d _ 1 (by omega) (by decide)),
      run_cons (hAdd d _ 4095 ?_ (by decide)), run_cons (hMask _), run_cons (hAnd _),
      run_cons (hAdd _ _ 4096 ?_ (by decide))]
    · rfl
    · show 0x80000000 ≤
        ((sym.kernelEnd + BitVec.ofNat 32 text.length + 1 + 4095) &&& 0xfffff000#32).toNat
      omega
    · show 0x80000000 ≤ (sym.kernelEnd + BitVec.ofNat 32 text.length + 1).toNat
      omega
  exact ⟨_, hRun, by simp [hS0]⟩

theorem toNat_stackEnd (h : Loaded sym depth text c) :
    (stackEnd sym text).toNat =
      (sym.kernelEnd.toNat + text.length + 4096) / 4096 * 4096 + 4096 := by
  have hRoom := h.room
  have hPage := h.toNat_pageEnd
  have hEnd : stackEnd sym text =
      ((sym.kernelEnd + BitVec.ofNat 32 text.length + 1 + 4095) &&& 0xfffff000#32) + 4096 := rfl
  rw [hEnd, BitVec.toNat_add, hPage]
  have hOffset : (4096 : Mips.Word).toNat = 4096 := rfl
  omega

/-- The stack of the first thread gets a frame. -/
theorem run_makeStack (h : Loaded sym depth text c) (hS0 : d.get .s0 = sym.kernelEnd)
    (hV0 : d.get .v0 = BitVec.ofNat 32 text.length) (is : List Instr) :
    ∃ e, run (makeStack sym ++ is) d = run is e ∧ e.get .s0 = sym.kernelEnd ∧
      e.get .sp = stackEnd sym text - 20 ∧
      e.mem = Function.update (Function.update (Function.update d.mem sym.entry.curkstack
        (stackEnd sym text)) sym.firstfree (stackEnd sym text)) (stackEnd sym text - 4) 0 := by
  obtain ⟨e, hRun, hT0, hSp, hS0', hMem⟩ := run_findStack h hS0 hV0
    (swSymbol .t0 sym.entry.curkstack ++ (swSymbol .t0 sym.firstfree ++
      (([.addiu .sp .sp (-20), .sw .zero 16 .sp] : List Instr) ++ is)))
  have hEnd := toNat_stackEnd h
  have hDirect : Direct (stackEnd sym text - 4) := by
    have hRoom := h.room
    have hLow := h.kernelEnd_low
    exact direct_below (by omega) (by omega) (by omega)
  have hStores : run (makeStack sym ++ is) d = run is ((((((e.set .AT
      (((sym.entry.curkstack + 0x8000).extractLsb' 16 16).setWidth 32 <<< 16)).setMem
        (Function.update d.mem sym.entry.curkstack (stackEnd sym text))).set .AT
      (((sym.firstfree + 0x8000).extractLsb' 16 16).setWidth 32 <<< 16)).setMem
        (Function.update (Function.update d.mem sym.entry.curkstack (stackEnd sym text))
          sym.firstfree (stackEnd sym text))).set .sp (stackEnd sym text - 20)).setMem
        (Function.update (Function.update (Function.update d.mem sym.entry.curkstack
          (stackEnd sym text)) sym.firstfree (stackEnd sym text)) (stackEnd sym text - 4) 0)) := by
    rw [makeStack, List.append_assoc, List.append_assoc, List.append_assoc, hRun,
      run_swSymbol (by decide) h.curkstack.1, hT0, hMem, run_swSymbol (by decide) h.firstfree.1]
    rw [run_frame (by decide)]
    · simp [Core.mem_setMem, hSp, hT0]
    · simpa [hSp] using hDirect
  exact ⟨_, hStores, by simp [hS0'], by simp, rfl⟩

theorem run_copyHandler {first last : Mips.Word} (hFirst : 0x80000000 ≤ first.toNat)
    (hLast : 0x80000000 ≤ last.toNat) :
    run (copyHandler first last) d =
      .ok (((d.set .a1 first).set .a2 last).set .a2 (last - first)) := by
  have hSub : (Instr.sub .a2 .a2 .a1).exec ((d.set .a1 first).set .a2 last) =
      .ok (((d.set .a1 first).set .a2 last).set .a2 (last - first)) := by
    have hGet : ((d.set .a1 first).set .a2 last).get .a1 = first := by
      simp
    rw [exec_sub, hGet, Core.get_set (by decide)]
    · rwa [Core.get_set (by decide)]
    · rwa [hGet]
  rw [copyHandler, run_la (by decide), run_la (by decide), run_cons hSub]
  rfl

end Pieces

/-! ## The calls -/

section Start

variable {code : Mips.Word → Option Instr} {lib : CLibrary} {sym : Symbols} {depth : Nat}
  {text : List (BitVec 8)} {c d e : Core} {pc dest first : Mips.Word} {n : Nat}

/-- On the stack of the loader, with the copy of the string. -/
structure Copying (sym : Symbols) (text : List (BitVec 8)) (c d : Core) : Prop where
  s0 : d.get .s0 = sym.kernelEnd
  sp : d.get .sp = c.get .sp - 20
  string : HasString d.mem sym.kernelEnd text
  kernel : ∀ a, InKernel sym a → d.mem a = c.mem a

theorem Loaded.toNat_frame (h : Loaded sym depth text c) :
    (c.get .sp - 20).toNat = (c.get .sp).toNat - 20 := by
  have hStack := h.stack
  bv_omega

/-- `strcpy(_end, bootstring)` -/
theorem boots_strcpy (h : Loaded sym depth text c) (hLib : lib.Provides depth text)
    (hCode : At code pc (copyBootstring sym ++ ([.jal sym.strcpy, .nop] : List Instr))) :
    ∃ d, Boots code lib sym (fetching c pc) (fetching d (pc + BitVec.ofNat 32
      (4 * (copyBootstring sym ++ ([.jal sym.strcpy, .nop] : List Instr)).length))) ∧
      Copying sym text c d := by
  obtain ⟨d, hRun, hA0, hA1, hS0, hSp, hMem⟩ := run_copyBootstring h
  have hCall : Boots code lib sym _ _ := boots_call hCode
    (by simp [copyBootstring, la, Instr.jumps]) (by simp [copyBootstring, la, Waits, Instr.loads])
    hRun
  generalize pc + BitVec.ofNat 32
    (4 * (copyBootstring sym ++ ([.jal sym.strcpy, .nop] : List Instr)).length) = back at hCall ⊢
  have hFrame := h.toNat_frame
  have hStack := h.stack
  have hAbove := h.above
  have hKept : ∀ a : Mips.Word, a ≠ c.get .sp - 4 → d.mem a = c.mem a := by
    intro a ha
    rw [hMem]
    exact Function.update_of_ne ha ..
  have hString : HasString d.mem (c.get .a0) text := by
    refine h.string.congr h.fits fun b hLow _ => hKept b ?_
    rintro rfl
    bv_omega
  have hE : ∀ r, r ≠ .ra → (d.set .ra back).get r = d.get r := fun r hr => Core.get_set_of_ne hr
  obtain ⟨hReturned, hCopy⟩ := hLib.strcpy (d.set .ra back)
    (by rwa [Core.mem_set, hE _ (by decide), hA1])
    (by rw [hE _ (by decide), hE _ (by decide), hA0, hSp]; omega)
    (by rw [hE _ (by decide), hE _ (by decide), hA1, hSp]; omega)
  rw [hE _ (by decide), hA0] at hReturned hCopy
  refine ⟨lib.strcpy (d.set .ra back), ?_, ?_⟩
  · have hReturn : Calls lib sym _ _ := .strcpy (d.set .ra back)
    rw [Core.get_set (by decide)] at hReturn
    exact hCall.tail (Or.inr hReturn)
  · refine ⟨?_, ?_, hCopy, fun a ha => ?_⟩
    · rw [hReturned.s0, hE _ (by decide), hS0]
    · rw [hReturned.sp, hE _ (by decide), hSp]
    · unfold InKernel at ha
      rw [hReturned.mem, Core.mem_set, hKept]
      · rintro rfl
        bv_omega
      · unfold Touches
        omega
      · unfold OnStack
        rw [hE _ (by decide), hSp]
        omega

/-- `strlen(_end)` -/
theorem boots_strlen (h : Loaded sym depth text c) (hLib : lib.Provides depth text)
    (hCopying : Copying sym text c d)
    (hCode : At code pc (([.move .a0 .s0] : List Instr) ++
      ([.jal sym.strlen, .nop] : List Instr))) :
    ∃ e, Boots code lib sym (fetching d pc) (fetching e (pc + BitVec.ofNat 32
      (4 * (([.move .a0 .s0] : List Instr) ++ ([.jal sym.strlen, .nop] : List Instr)).length))) ∧
      Copying sym text c e ∧ e.get .v0 = BitVec.ofNat 32 text.length := by
  have hRun : run [.move .a0 .s0] d = .ok (d.set .a0 sym.kernelEnd) := by
    rw [← hCopying.s0]
    rfl
  have hCall : Boots code lib sym _ _ := boots_call hCode (by decide) (by decide) hRun
  generalize pc + BitVec.ofNat 32 (4 * (([.move .a0 .s0] : List Instr) ++
    ([.jal sym.strlen, .nop] : List Instr)).length) = back at hCall ⊢
  have hFrame := h.toNat_frame
  have hStack := h.stack
  have hA0 : ((d.set .a0 sym.kernelEnd).set .ra back).get .a0 = sym.kernelEnd := by
    simp
  have hSp : ((d.set .a0 sym.kernelEnd).set .ra back).get .sp = c.get .sp - 20 := by
    simp [hCopying.sp]
  obtain ⟨hReturned, hV0⟩ := hLib.strlen ((d.set .a0 sym.kernelEnd).set .ra back)
    (by rw [Core.mem_set, Core.mem_set, hA0]; exact hCopying.string)
    (by rw [hA0, hSp]; omega)
  have hMem : ∀ a : Mips.Word, a.toNat ≤ sym.kernelEnd.toNat + text.length →
      (lib.strlen ((d.set .a0 sym.kernelEnd).set .ra back)).mem a = d.mem a := by
    intro a ha
    rw [hReturned.mem, Core.mem_set, Core.mem_set]
    · exact fun hTouches => Nat.not_lt_zero _ hTouches.2
    · unfold OnStack
      rw [hSp]
      omega
  refine ⟨lib.strlen ((d.set .a0 sym.kernelEnd).set .ra back), ?_, ?_, hV0⟩
  · have hReturn : Calls lib sym _ _ := .strlen ((d.set .a0 sym.kernelEnd).set .ra back)
    rw [Core.get_set (by decide)] at hReturn
    exact hCall.tail (Or.inr hReturn)
  · refine ⟨?_, ?_, ?_, fun a ha => ?_⟩
    · rw [hReturned.s0]
      simp [hCopying.s0]
    · rw [hReturned.sp, hSp]
    · exact hCopying.string.congr (by omega) fun b _ hb => hMem b hb
    · rw [hMem, hCopying.kernel a ha]
      unfold InKernel at ha
      omega

theorem Stacked.congr (h : Stacked sym text c d) (hS0 : e.get .s0 = d.get .s0)
    (hSp : e.get .sp = d.get .sp) (hMem : e.mem = d.mem) : Stacked sym text c e where
  s0 := hS0.trans h.s0
  sp := hSp.trans h.sp
  string := hMem ▸ h.string
  curkstack := hMem ▸ h.curkstack
  firstfree := hMem ▸ h.firstfree
  frame := hMem ▸ h.frame
  kernel := hMem ▸ h.kernel

theorem Stacked.set (h : Stacked sym text c d) {r : Reg} {v : Mips.Word} (hS0 : r ≠ .s0)
    (hSp : r ≠ .sp) : Stacked sym text c (d.set r v) :=
  h.congr (Core.get_set_of_ne hS0.symm) (Core.get_set_of_ne hSp.symm) Core.mem_set

/-- The stack of the first thread is behind the string, and a call does not reach the string. -/
theorem Loaded.stackEnd_bounds (h : Loaded sym depth text c) :
    sym.kernelEnd.toNat + text.length + 4097 ≤ (stackEnd sym text).toNat ∧
      (stackEnd sym text).toNat ≤ 0xa0000000 ∧ (stackEnd sym text).toNat % 4096 = 0 := by
  have hEnd := toNat_stackEnd h
  have hRoom := h.room
  omega

theorem Loaded.toNat_sp (h : Loaded sym depth text c) :
    (stackEnd sym text - 20).toNat = (stackEnd sym text).toNat - 20 := by
  have hBounds := h.stackEnd_bounds
  generalize stackEnd sym text = top at hBounds ⊢
  bv_omega

theorem Loaded.toNat_slot (h : Loaded sym depth text c) :
    (stackEnd sym text - 4).toNat = (stackEnd sym text).toNat - 4 := by
  have hBounds := h.stackEnd_bounds
  generalize stackEnd sym text = top at hBounds ⊢
  bv_omega

/-- A function that writes below the kernel. -/
theorem Stacked.returned (h : Stacked sym text c d) (hLoaded : Loaded sym depth text c)
    (hReturned : Returned depth d e dest n) (hDest : dest.toNat + n ≤ 0x80001000) :
    Stacked sym text c e := by
  have hBounds := hLoaded.stackEnd_bounds
  have hLow := hLoaded.kernelEnd_low
  have hDepth := hLoaded.depth
  have hFrame := hLoaded.toNat_sp
  have hSlot := hLoaded.toNat_slot
  have hMem : ∀ a : Mips.Word, 0x80001000 ≤ a.toNat →
      a.toNat ≤ sym.kernelEnd.toNat + text.length ∨ a = stackEnd sym text - 4 →
        e.mem a = d.mem a := by
    intro a ha hWhere
    refine hReturned.mem a ?_ ?_
    · unfold Touches
      omega
    · unfold OnStack
      rw [h.sp]
      rcases hWhere with hBelow | rfl
      · omega
      · omega
  have hKernel : ∀ a, InKernel sym a → e.mem a = d.mem a := by
    intro a ha
    unfold InKernel at ha
    exact hMem a ha.1 (Or.inl (by omega))
  constructor
  case s0 => exact hReturned.s0.trans h.s0
  case sp => exact hReturned.sp.trans h.sp
  case string => exact h.string.congr (by omega) fun b hb hb' => hMem b (by omega) (Or.inl hb')
  case curkstack => exact (hKernel _ hLoaded.curkstack.2).trans h.curkstack
  case firstfree => exact (hKernel _ hLoaded.firstfree.2).trans h.firstfree
  case frame => exact (hMem _ (by omega) (Or.inr rfl)).trans h.frame
  case kernel =>
    intro a ha hCurkstack hFirstfree
    exact (hKernel a ha).trans (h.kernel a ha hCurkstack hFirstfree)

/-- The stack of the first thread. -/
theorem stacked_makeStack (h : Loaded sym depth text c) (hCopying : Copying sym text c d)
    (hV0 : d.get .v0 = BitVec.ofNat 32 text.length) (is : List Instr) :
    ∃ e, run (makeStack sym ++ is) d = run is e ∧ Stacked sym text c e := by
  obtain ⟨e, hRun, hS0, hSp, hMem⟩ := run_makeStack h hCopying.s0 hV0 is
  have hBounds := h.stackEnd_bounds
  have hSlot := h.toNat_slot
  have hAbove : ∀ a : Mips.Word, a.toNat ≤ sym.kernelEnd.toNat + text.length →
      a ≠ stackEnd sym text - 4 := by
    rintro a ha rfl
    omega
  have hKept : ∀ a : Mips.Word, a.toNat ≤ sym.kernelEnd.toNat + text.length →
      a ≠ sym.entry.curkstack → a ≠ sym.firstfree → e.mem a = d.mem a := by
    intro a ha hCurkstack hFirstfree
    rw [hMem, Function.update_of_ne (hAbove a ha), Function.update_of_ne hFirstfree,
      Function.update_of_ne hCurkstack]
  have hCurkstack := h.curkstack.2
  have hFirstfree := h.firstfree.2
  have hAligned := h.curkstack.1.1
  have hAligned' := h.firstfree.1.1
  unfold InKernel at hCurkstack hFirstfree
  refine ⟨e, hRun, ?_⟩
  constructor
  case s0 => exact hS0
  case sp => exact hSp
  case string =>
    refine hCopying.string.congr (by omega) fun b hb hb' => hKept b hb' ?_ ?_
    · rintro rfl
      omega
    · rintro rfl
      omega
  case curkstack =>
    rw [hMem, Function.update_of_ne (hAbove _ (by omega)), Function.update_of_ne h.distinct,
      Function.update_self]
  case firstfree =>
    rw [hMem, Function.update_of_ne (hAbove _ (by omega)), Function.update_self]
  case frame => rw [hMem, Function.update_self]
  case kernel =>
    intro a ha hNe hNe'
    unfold InKernel at ha
    rw [hKept a (by omega) hNe hNe', hCopying.kernel a ha]

/-- `memmove` copies code of the kernel to a vector. -/
theorem memmove_handler (hLoaded : Loaded sym depth text c) (hLib : lib.Provides depth text)
    (h : Stacked sym text c d) (hText : InText sym first n) (hn : 0 < n) (hA0 : d.get .a0 = dest)
    (hA1 : d.get .a1 = first) (hA2 : (d.get .a2).toNat = 4 * n) (hDirect : Direct dest)
    (hDest : dest.toNat + 4 * n ≤ 0x80001000) :
    Stacked sym text c (lib.memmove d) ∧ Copied (lib.memmove d).mem dest c.mem first n ∧
      ∀ a, a.toNat + 4 ≤ dest.toNat → (lib.memmove d).mem a = d.mem a := by
  have hBounds := hLoaded.stackEnd_bounds
  have hLow := hLoaded.kernelEnd_low
  have hDepth := hLoaded.depth
  have hFrame := hLoaded.toNat_sp
  obtain ⟨hFirst, hWords⟩ := hText
  have hLast := (hWords (n - 1) (by omega)).1
  unfold InKernel at hLast
  have hHigh := hFirst.2.2
  have hSize : first.toNat + 4 * n ≤ sym.kernelEnd.toNat := by
    bv_omega
  obtain ⟨hReturned, hCopied⟩ := hLib.memmove d n hA2 (by rwa [hA0]) (by rwa [hA1])
    (by rw [hA0, h.sp]; omega) (by rw [hA1, h.sp]; omega)
  rw [hA0] at hReturned
  rw [hA0, hA1] at hCopied
  refine ⟨h.returned hLoaded hReturned hDest, fun i hi => ?_, fun a ha => ?_⟩
  · obtain ⟨hKernel, hCurkstack, hFirstfree⟩ := hWords i hi
    rw [hCopied i hi, h.kernel _ hKernel hCurkstack hFirstfree]
  · refine hReturned.mem a ?_ ?_
    · unfold Touches
      omega
    · unfold OnStack
      rw [h.sp]
      omega

/-- A call of `memmove` for one of the handlers. -/
theorem boots_memmove (hLoaded : Loaded sym depth text c) (hLib : lib.Provides depth text)
    {is : List Instr} (hCode : At code pc (is ++ ([.jal sym.memmove, .nop] : List Instr)))
    (hStraight : ∀ k ∈ is, k.jumps = false) (hWaits : Waits none is) {last : Mips.Word}
    (hRun : run is d = run (copyHandler first last) (e.set .a0 dest))
    (h : Stacked sym text c e) (hText : InText sym first n) (hn : 0 < n)
    (hLast : last = first + BitVec.ofNat 32 (4 * n)) (hDirect : Direct dest)
    (hDest : dest.toNat + 4 * n ≤ 0x80001000) :
    ∃ e', Boots code lib sym (fetching d pc) (fetching e' (pc + BitVec.ofNat 32
      (4 * (is ++ ([.jal sym.memmove, .nop] : List Instr)).length))) ∧
      Stacked sym text c e' ∧ Copied e'.mem dest c.mem first n ∧
        ∀ a, a.toNat + 4 ≤ dest.toNat → e'.mem a = e.mem a := by
  obtain ⟨-, hLow, hHigh⟩ := hText.1
  have hUpper : dest.toNat + 4 * n < 2 ^ 32 := by
    omega
  have hLastUpper : 0x80000000 ≤ last.toNat := by
    have hBase := hDirect.2.1
    rw [hLast, BitVec.toNat_add, BitVec.toNat_ofNat]
    omega
  have hSize : last - first = BitVec.ofNat 32 (4 * n) := by
    rw [hLast, BitVec.add_comm, BitVec.add_sub_cancel]
  rw [run_copyHandler hLow hLastUpper, hSize] at hRun
  have hCall : Boots code lib sym _ _ := boots_call hCode hStraight hWaits hRun
  generalize pc + BitVec.ofNat 32
    (4 * (is ++ ([.jal sym.memmove, .nop] : List Instr)).length) = back at hCall ⊢
  generalize hCore : (((((e.set .a0 dest).set .a1 first).set .a2 last).set .a2
    (BitVec.ofNat 32 (4 * n))).set .ra back) = e' at hCall
  have hStacked : Stacked sym text c e' := by
    subst hCore
    exact ((((h.set (by decide) (by decide)).set (by decide) (by decide)).set (by decide)
      (by decide)).set (by decide) (by decide)).set (by decide) (by decide)
  have hMem : e'.mem = e.mem := by
    subst hCore
    simp
  have hRa : e'.get .ra = back := by
    subst hCore
    simp
  obtain ⟨hMoved, hCopied, hKept⟩ := memmove_handler hLoaded hLib hStacked hText hn
    (by subst hCore; simp) (by subst hCore; simp)
    (by
      subst hCore
      rw [Core.get_set_of_ne (by decide), Core.get_set (by decide), BitVec.toNat_ofNat]
      omega) hDirect hDest
  have hReturn : Calls lib sym _ _ := .memmove e'
  rw [hRa] at hReturn
  rw [hMem] at hKept
  exact ⟨lib.memmove e', hCall.tail (Or.inr hReturn), hMoved, hCopied, hKept⟩

theorem runs_mipsFlushicache (hCode : At code pc mipsFlushicache) (d : Core) :
    Runs code (fetching d pc) (fetching d (d.get .ra)) :=
  runs_jump hCode rfl (by decide) (by decide) (Eq.refl (Except.ok d)) rfl

/-- The call of `kmain`, with interrupts off. -/
theorem runs_kmain (hCode : At code pc (([.ori .t0 .zero 0xff00, .mtc0 .t0 .status] : List Instr) ++
      ([.jal sym.kmain, .move .a0 .s0] : List Instr))) (d : Core) :
    ∃ e, Runs code (fetching d pc) (fetching e sym.kmain) ∧ e.get .a0 = d.get .s0 ∧
      e.get .s0 = d.get .s0 ∧ e.get .sp = d.get .sp ∧ e.mem = d.mem ∧ e.tlb = d.tlb ∧
      e.cp0 .status = 0xff00 := by
  have hStatus : run [.ori .t0 .zero 0xff00, .mtc0 .t0 .status] d =
      .ok ((d.set .t0 0xff00).setCp0 .status 0xff00) := by
    have hMask : 0 ||| (0xff00 : BitVec 16).setWidth 32 = 0xff00#32 := by
      decide
    have hOri : (Instr.ori .t0 .zero 0xff00).exec d = .ok (d.set .t0 0xff00) := by
      rw [Instr.exec, Core.get_zero, hMask]
      rfl
    have hMtc0 : (Instr.mtc0 .t0 .status).exec (d.set .t0 0xff00) =
        .ok ((d.set .t0 0xff00).setCp0 .status 0xff00) := by
      rw [Instr.exec, Core.get_set (by decide)]
    rw [run_cons hOri, run_cons hMtc0]
    rfl
  have hRuns := runs_jump hCode rfl (by decide) (by simp [Waits, Instr.loads]) hStatus rfl
  refine ⟨_, hRuns, ?_⟩
  simp [Instr.link]

/-- `__start` calls `kmain`. -/
theorem start_boots (h : Loaded sym depth text c) (hLib : lib.Provides depth text)
    (hLinked : Linked code sym) :
    ∃ d, Boots code lib sym (fetching c sym.start) (fetching d sym.kmain) ∧
      Booted sym text c d := by
  obtain ⟨hStart, hFlush, hTlb, -, -, -, -⟩ := hLinked
  obtain ⟨hCode, -⟩ := at_append.mp hStart
  unfold callKmain at hCode
  generalize sym.start = pc at hCode ⊢
  obtain ⟨hStrcpy, hCode⟩ := at_append.mp hCode
  obtain ⟨c₁, hBoots₁, hCopying⟩ := boots_strcpy h hLib hStrcpy
  generalize pc + _ = pc₁ at hCode hBoots₁
  obtain ⟨hStrlen, hCode⟩ := at_append.mp hCode
  obtain ⟨c₂, hBoots₂, hCopying', hV0⟩ := boots_strlen h hLib hCopying hStrlen
  generalize pc₁ + _ = pc₂ at hCode hBoots₂
  obtain ⟨hUtlb, hCode⟩ := at_append.mp hCode
  obtain ⟨e, hStack, hStacked⟩ := stacked_makeStack h hCopying' hV0
    (([.lui .a0 0x8000] : List Instr) ++ copyHandler sym.utlbException sym.utlbExceptionEnd)
  have hRun₃ : run (makeStack sym ++ (([.lui .a0 0x8000] : List Instr) ++
      copyHandler sym.utlbException sym.utlbExceptionEnd)) c₂ =
      run (copyHandler sym.utlbException sym.utlbExceptionEnd) (e.set .a0 0x80000000) := by
    rw [hStack]
    exact run_cons rfl
  obtain ⟨c₃, hBoots₃, hStacked₃, hCopied₃, -⟩ := boots_memmove h hLib hUtlb
    (by simp [makeStack, findStack, swSymbol, copyHandler, la, Instr.jumps])
    (by simp [makeStack, findStack, swSymbol, copyHandler, la, Waits, Instr.loads])
    hRun₃ hStacked h.utlbException (by decide) h.utlbExceptionEnd (by decide) (by decide)
  generalize pc₂ + _ = pc₃ at hCode hBoots₃
  obtain ⟨hException, hCode⟩ := at_append.mp hCode
  have hRun₄ : run (la .a0 0x80000080 ++ copyHandler sym.exception sym.exceptionEnd) c₃ =
      run (copyHandler sym.exception sym.exceptionEnd) (c₃.set .a0 0x80000080) :=
    run_la (by decide)
  obtain ⟨c₄, hBoots₄, hStacked₄, hCopied₄, hKept₄⟩ := boots_memmove h hLib hException
    (by simp [copyHandler, la, Instr.jumps]) (by simp [copyHandler, la, Waits, Instr.loads])
    hRun₄ hStacked₃ h.exception (by decide) h.exceptionEnd (by decide) (by decide)
  generalize pc₃ + _ = pc₄ at hCode hBoots₄
  obtain ⟨hFlushCall, hCode⟩ := at_append.mp hCode
  have hBoots₅ : Boots code lib sym _ _ :=
    boots_call hFlushCall (List.forall_mem_nil _) rfl (Eq.refl (Except.ok c₄))
  generalize pc₄ + _ = pc₅ at hCode hBoots₅
  have hReturn₅ := runs_mipsFlushicache hFlush (c₄.set .ra pc₅)
  rw [Core.get_set (by decide)] at hReturn₅
  obtain ⟨hTlbCall, hCode⟩ := at_append.mp hCode
  have hBoots₆ : Boots code lib sym _ _ :=
    boots_call hTlbCall (List.forall_mem_nil _) rfl (Eq.refl (Except.ok (c₄.set .ra pc₅)))
  generalize pc₅ + _ = pc₆ at hCode hBoots₆
  obtain ⟨c₆, m, hReturn₆, hReset⟩ := Tlb.runs_tlbReset hTlb ((c₄.set .ra pc₅).set .ra pc₆)
  have hSame := hReset.same
  rw [Core.get_set (by decide)] at hReturn₆
  obtain ⟨d, hRuns₇, hA0, hS0, hSp, hMem, hTlbSame, hStatus⟩ := runs_kmain hCode c₆
  have hMem₄ : d.mem = c₄.mem := by
    rw [hMem, hSame.mem, Core.mem_set, Core.mem_set]
  have hS0₄ : d.get .s0 = c₄.get .s0 := by
    rw [hS0, hSame.get .s0 (by decide), Core.get_set_of_ne (by decide),
      Core.get_set_of_ne (by decide)]
  have hSp₄ : d.get .sp = c₄.get .sp := by
    rw [hSp, hSame.get .sp (by decide), Core.get_set_of_ne (by decide),
      Core.get_set_of_ne (by decide)]
  refine ⟨d, ?_, ?_⟩
  · exact (((((((hBoots₁.trans hBoots₂).trans hBoots₃).trans hBoots₄).trans hBoots₅).trans
      (boots_of_runs hReturn₅)).trans hBoots₆).trans (boots_of_runs hReturn₆)).trans
        (boots_of_runs hRuns₇)
  · constructor
    case stacked => exact hStacked₄.congr hS0₄ hSp₄ hMem₄
    case a0 => rw [hA0, ← hS0, hS0₄, hStacked₄.s0]
    case utlbException =>
      intro i hi
      rw [hMem₄, hKept₄, hCopied₃ i hi]
      have hSum : (0x80000000 + BitVec.ofNat 32 (4 * i)).toNat = 0x80000000 + 4 * i := by
        bv_omega
      rw [hSum]
      show 0x80000000 + 4 * i + 4 ≤ 0x80000080
      omega
    case exception => exact hMem₄ ▸ hCopied₄
    case status => exact hStatus
    case tlb => exact hTlbSame ▸ hReset.entry_range
    case pages => exact hTlbSame ▸ fun j k hjk => hReset.written.grows j k hjk k.isLt

/-- `kmain` should not return: `panic` is called, and again if it returns. -/
theorem panic_loop (hLinked : Linked code sym) (d : Core) :
    ∃ e, Runs code (fetching d sym.panicLoop) (fetching e sym.panic) ∧
      e.get .a0 = sym.panicstr ∧
        ∀ x, Runs code (fetching x (e.get .ra)) (fetching x sym.panicLoop) := by
  obtain ⟨-, hCode⟩ := at_append.mp hLinked.start
  have hLoop : At code sym.panicLoop ((la .a0 sym.panicstr ++ ([.jal sym.panic, .nop] : List Instr))
    ++ (([] : List Instr) ++ ([.j sym.panicLoop, .nop] : List Instr))) := hCode
  obtain ⟨hCall, hBack⟩ := at_append.mp hLoop
  have hRun : run (la .a0 sym.panicstr) d = .ok (d.set .a0 sym.panicstr) := by
    rw [← List.append_nil (la .a0 sym.panicstr), run_la (by decide)]
    rfl
  have hRuns := runs_call hCall (by simp [la, Instr.jumps]) (by simp [la, Waits, Instr.loads]) hRun
  generalize sym.panicLoop + _ = back at hBack hRuns
  refine ⟨_, hRuns, by simp, fun x => ?_⟩
  rw [Core.get_set (by decide)]
  exact runs_jump hBack rfl (by simp [Instr.jumps]) (by simp [Waits, Instr.loads])
    (Eq.refl (Except.ok x)) rfl

variable {decode : Mips.Word → Option Instr} {m m' : Memory} {is : List Instr}

theorem at_copied (hCode : At (fetched decode m') first is)
    (hCopied : Copied m dest m' first is.length) : At (fetched decode m) dest is := by
  induction is generalizing dest first with
  | nil => trivial
  | cons i is ih =>
    have hWord := hCopied 0 (Nat.zero_lt_succ _)
    rw [Nat.mul_zero, BitVec.add_zero, BitVec.add_zero] at hWord
    refine ⟨?_, ih hCode.2 fun j hj => ?_⟩
    · have hHere : decode (m' first) = some i := hCode.1
      unfold fetched
      rw [hWord, hHere]
    · rw [at_cons_pc, at_cons_pc]
      exact hCopied (j + 1) (Nat.succ_lt_succ hj)

/-- Code of the kernel is still there. -/
theorem at_kernel (h : Stacked sym text c d) (hCode : At (fetched decode c.mem) pc is)
    (hText : InText sym pc is.length) : At (fetched decode d.mem) pc is := by
  refine at_copied hCode fun i hi => ?_
  obtain ⟨hKernel, hCurkstack, hFirstfree⟩ := hText.2 i hi
  exact h.kernel _ hKernel hCurkstack hFirstfree

/-- **Startup.** Whatever the string is, `__start` calls `kmain` with a copy of it, on the stack
of the first thread, with interrupts off in kernel mode and no valid entry in the TLB. From then on
exceptions are handled by the code of `exception.S`, and `ram_bootstrap` finds the first free page
behind all that. -/
theorem boot_links (h : Loaded sym depth text c) (hLib : lib.Provides depth text)
    (hLinked : Linked (fetched decode c.mem) sym) :
    ∃ d, Boots (fetched decode c.mem) lib sym (fetching c sym.start) (fetching d sym.kmain) ∧
      Booted sym text c d ∧ ExceptionEntry.Linked (fetched decode d.mem) sym.entry ∧
      ∀ ramsize, stackEnd sym text - mipsKseg0 ≤ ramsize →
        stackEnd sym text ≤ mipsKseg0 + ramLimit →
          (ramBootstrap ramsize (d.mem sym.firstfree)).Booted := by
  obtain ⟨d, hBoots, hBooted⟩ := start_boots h hLib hLinked
  refine ⟨d, hBoots, hBooted, ?_, fun ramsize hRamsize hLimit => ?_⟩
  · constructor
    case utlbException => exact at_copied hLinked.utlbException hBooted.utlbException
    case exception => exact at_copied hLinked.exception hBooted.exception
    case commonException =>
      exact at_kernel hBooted.stacked hLinked.commonException h.commonException
    case asmUsermode => exact at_kernel hBooted.stacked hLinked.asmUsermode h.asmUsermode
  · have hBounds := h.stackEnd_bounds
    have hLow := h.kernelEnd_low
    have hAbove : mipsKseg0 < stackEnd sym text := by
      unfold mipsKseg0
      generalize stackEnd sym text = top at hBounds ⊢
      bv_omega
    rw [hBooted.stacked.firstfree]
    exact Ram.booted_ramBootstrap hBounds.2.2 hAbove hLimit hRamsize

end Start

/-! ## A library that copies bytes -/

/-- The word of four bytes. -/
def wordOf (bytes : Nat → BitVec 8) : Mips.Word := bytes 0 ++ bytes 1 ++ bytes 2 ++ bytes 3

theorem extractLsb'_wordOf (bytes : Nat → BitVec 8) {k : Nat} (hk : k < 4) :
    (wordOf bytes).extractLsb' (8 * (3 - k)) 8 = bytes k := by
  interval_cases k
  · show (bytes 0 ++ bytes 1 ++ bytes 2 ++ bytes 3).extractLsb' 24 8 = bytes 0
    rw [BitVec.extractLsb'_append_eq_of_le (by decide),
      BitVec.extractLsb'_append_eq_of_le (by decide), BitVec.extractLsb'_append_eq_left]
  · show (bytes 0 ++ bytes 1 ++ bytes 2 ++ bytes 3).extractLsb' 16 8 = bytes 1
    rw [BitVec.extractLsb'_append_eq_of_le (by decide),
      BitVec.extractLsb'_append_eq_of_le (by decide), BitVec.extractLsb'_append_eq_right]
  · show (bytes 0 ++ bytes 1 ++ bytes 2 ++ bytes 3).extractLsb' 8 8 = bytes 2
    rw [BitVec.extractLsb'_append_eq_of_le (by decide), BitVec.extractLsb'_append_eq_right]
  · exact BitVec.extractLsb'_append_eq_right

theorem wordOf_extractLsb' (v : Mips.Word) :
    wordOf (fun k => v.extractLsb' (8 * (3 - k)) 8) = v := by
  show v.extractLsb' 24 8 ++ v.extractLsb' 16 8 ++ v.extractLsb' 8 8 ++ v.extractLsb' 0 8 = v
  rw [BitVec.extractLsb'_append_extractLsb'_eq_extractLsb' (by decide),
    BitVec.extractLsb'_append_extractLsb'_eq_extractLsb' (by decide),
    BitVec.extractLsb'_append_extractLsb'_eq_extractLsb' (by decide)]
  exact BitVec.extractLsb'_eq_self

/-- The memory with other bytes from `dest` on. -/
def overlay (m : Memory) (dest : Mips.Word) (n : Nat) (bytes : Nat → BitVec 8) : Memory := fun a =>
  if a.toNat % 4 = 0 then
    wordOf fun k =>
      let x := a + BitVec.ofNat 32 k
      if (x - dest).toNat < n then bytes (x - dest).toNat else byteAt m x
  else m a

theorem byteAt_overlay (m : Memory) (dest : Mips.Word) (n : Nat) (bytes : Nat → BitVec 8)
    (x : Mips.Word) : byteAt (overlay m dest n bytes) x =
      if (x - dest).toNat < n then bytes (x - dest).toNat else byteAt m x := by
  have hWord : (BitVec.ofNat 32 (x.toNat / 4 * 4)).toNat = x.toNat / 4 * 4 := by
    rw [BitVec.toNat_ofNat]
    omega
  have hHere : BitVec.ofNat 32 (x.toNat / 4 * 4) + BitVec.ofNat 32 (x.toNat % 4) = x := by
    apply BitVec.eq_of_toNat_eq
    rw [BitVec.toNat_add, hWord, BitVec.toNat_ofNat]
    omega
  conv_lhs => unfold byteAt overlay
  rw [hWord, if_pos (Nat.mul_mod_left ..), extractLsb'_wordOf _ (Nat.mod_lt _ (by decide))]
  dsimp only
  rw [hHere]

/-- The words without those bytes are unchanged. -/
theorem overlay_of_not_touches {m : Memory} {dest a : Mips.Word} {n : Nat}
    {bytes : Nat → BitVec 8} (hFits : dest.toNat + n ≤ 2 ^ 32) (h : ¬Touches dest n a) :
    overlay m dest n bytes a = m a := by
  unfold overlay
  split_ifs with hAligned
  · conv_rhs => rw [← wordOf_extractLsb' (m a)]
    have hByte : ∀ k < 4, (if (a + BitVec.ofNat 32 k - dest).toNat < n then
        bytes (a + BitVec.ofNat 32 k - dest).toNat else byteAt m (a + BitVec.ofNat 32 k)) =
          (m a).extractLsb' (8 * (3 - k)) 8 := by
      intro k hk
      have hSum : (a + BitVec.ofNat 32 k).toNat = a.toNat + k := by
        rw [BitVec.toNat_add, BitVec.toNat_ofNat]
        omega
      have hOutside : ¬(a + BitVec.ofNat 32 k - dest).toNat < n := by
        intro hInside
        apply h
        unfold Touches
        rw [BitVec.toNat_sub, hSum] at hInside
        omega
      have hQuotient : (a.toNat + k) / 4 * 4 = a.toNat := by omega
      have hRest : (a.toNat + k) % 4 = k := by omega
      rw [if_neg hOutside, byteAt, hSum, hQuotient, hRest, BitVec.ofNat_toNat,
        BitVec.setWidth_eq]
    unfold wordOf
    dsimp only
    rw [hByte 0 (by decide), hByte 1 (by decide), hByte 2 (by decide), hByte 3 (by decide)]
  · rfl

/-- The loop of `strlen`. -/
def stringLength (m : Memory) : Nat → Mips.Word → Nat
  | 0, _ => 0
  | fuel + 1, a => if byteAt m a = 0 then 0 else stringLength m fuel (a + 1) + 1

theorem HasString.tail {m : Memory} {a : Mips.Word} {b : BitVec 8} {text : List (BitVec 8)}
    (h : HasString m a (b :: text)) : HasString m (a + 1) text := by
  have hNext : ∀ i, a + 1 + BitVec.ofNat 32 i = a + BitVec.ofNat 32 (i + 1) := by
    intro i
    rw [BitVec.add_assoc, BitVec.add_comm 1, BitVec.ofNat_add]
    rfl
  refine ⟨fun i hi => ?_, ?_, fun hMem => h.nonzero (List.mem_cons_of_mem _ hMem)⟩
  · rw [hNext]
    exact h.bytes (i + 1) (Nat.succ_lt_succ hi)
  · rw [hNext]
    exact h.null

theorem stringLength_eq {m : Memory} {text : List (BitVec 8)} {a : Mips.Word} {fuel : Nat}
    (h : HasString m a text) (hFuel : text.length < fuel) :
    stringLength m fuel a = text.length := by
  induction text generalizing a fuel with
  | nil =>
    obtain ⟨fuel, rfl⟩ := Nat.exists_eq_add_one.mpr hFuel
    have hNull : byteAt m a = 0 := by simpa using h.null
    rw [stringLength, if_pos hNull, List.length_nil]
  | cons b text ih =>
    obtain ⟨fuel, rfl⟩ := Nat.exists_eq_add_one.mpr (Nat.zero_lt_of_lt hFuel)
    have hByte : byteAt m a = b := by simpa using h.bytes 0 (Nat.zero_lt_succ _)
    have hNonzero : byteAt m a ≠ 0 := fun hZero =>
      h.nonzero (hByte ▸ hZero ▸ List.mem_cons_self)
    rw [stringLength, if_neg hNonzero, ih h.tail (Nat.lt_of_succ_lt_succ hFuel),
      List.length_cons]

/-- `strcpy` and `strlen` go through the bytes; `memmove` copies words, as it does for words. -/
def sampleLibrary : CLibrary where
  strcpy c := c.setMem (overlay c.mem (c.get .a0) (stringLength c.mem (2 ^ 32) (c.get .a1) + 1)
    fun i => byteAt c.mem (c.get .a1 + BitVec.ofNat 32 i))
  strlen c := c.set .v0 (BitVec.ofNat 32 (stringLength c.mem (2 ^ 32) (c.get .a0)))
  memmove c := c.setMem fun a =>
    if (a - c.get .a0).toNat < (c.get .a2).toNat then c.mem (a - c.get .a0 + c.get .a1)
    else c.mem a

theorem provides_sampleLibrary (text : List (BitVec 8)) : sampleLibrary.Provides 0 text where
  strcpy c hString hBelow _ := by
    have hBound := (c.get .sp).isLt
    have hLength : stringLength c.mem (2 ^ 32) (c.get .a1) = text.length :=
      stringLength_eq hString (by omega)
    have hByte : ∀ i ≤ text.length, byteAt (sampleLibrary.strcpy c).mem
        (c.get .a0 + BitVec.ofNat 32 i) = byteAt c.mem (c.get .a1 + BitVec.ofNat 32 i) := by
      intro i hi
      have hOffset : (c.get .a0 + BitVec.ofNat 32 i - c.get .a0).toNat = i := by
        rw [BitVec.add_comm, BitVec.add_sub_cancel, BitVec.toNat_ofNat]
        omega
      unfold sampleLibrary
      dsimp only
      rw [Core.mem_setMem, byteAt_overlay, hLength, hOffset, if_pos (Nat.lt_succ_of_le hi)]
    refine ⟨⟨rfl, rfl, fun a hTouches _ => ?_⟩, fun i hi => ?_, ?_, hString.nonzero⟩
    · unfold sampleLibrary
      dsimp only
      rw [Core.mem_setMem, hLength]
      exact overlay_of_not_touches (by omega) hTouches
    · rw [hByte i (Nat.le_of_lt hi), hString.bytes i hi]
    · rw [hByte _ (Nat.le_refl _), hString.null]
  strlen c hString hBelow := by
    have hBound := (c.get .sp).isLt
    have hLength : stringLength c.mem (2 ^ 32) (c.get .a0) = text.length :=
      stringLength_eq hString (by omega)
    unfold sampleLibrary
    dsimp only
    rw [hLength]
    refine ⟨⟨?_, ?_, fun a _ _ => ?_⟩, ?_⟩
    all_goals simp
  memmove c n hSize _ _ hDest _ := by
    have hBound := (c.get .sp).isLt
    refine ⟨⟨rfl, rfl, fun a hTouches _ => if_neg fun hInside => hTouches ?_⟩, fun i hi => ?_⟩
    · unfold Touches
      bv_omega
    · have hOffset : c.get .a0 + BitVec.ofNat 32 (4 * i) - c.get .a0 = BitVec.ofNat 32 (4 * i) := by
        rw [BitVec.add_comm, BitVec.add_sub_cancel]
      have hInside : (BitVec.ofNat 32 (4 * i)).toNat < (c.get .a2).toNat := by
        rw [BitVec.toNat_ofNat]
        omega
      unfold sampleLibrary
      rw [Core.mem_setMem, hOffset, if_pos hInside, BitVec.add_comm]

/-! ## A kernel and a string -/

instance (sym : Symbols) (a : Mips.Word) : Decidable (InKernel sym a) :=
  inferInstanceAs (Decidable (_ ∧ _))

instance (sym : Symbols) (pc : Mips.Word) (n : Nat) : Decidable (InText sym pc n) :=
  inferInstanceAs (Decidable (_ ∧ ∀ i < n, _))

def sampleSymbols : Symbols where
  entry := ⟨0x80002000, 0x80001200, 0x80001b00, 0x80001400⟩
  start := 0x80001000
  firstfree := 0x80002004
  kernelEnd := 0x80002020
  utlbException := 0x80001500
  utlbExceptionEnd := 0x80001534
  exception := 0x80001600
  exceptionEnd := 0x80001630
  strcpy := 0x80001900
  strlen := 0x80001920
  memmove := 0x80001940
  mipsFlushicache := 0x80001800
  tlbReset := 0x80001700
  kmain := 0x80001a00
  panic := 0x80001a80
  panicstr := 0x80002010

/-- The characters of `reboot`. -/
def sampleString : List (BitVec 8) := [0x72, 0x65, 0x62, 0x6f, 0x6f, 0x74]

/-- A memory of words that are their own addresses, up to the two words with the string, which
begins in the middle of the first one, and its terminator. -/
def sampleCore : Core where
  regs r := if r = .a0 then 0x80100002 else if r = .sp then 0x80100000 else 0
  hi := 0
  lo := 0
  mem a :=
    if a = 0x80100000 then 0x7265
    else if a = 0x80100004 then 0x626f6f74
    else if a = 0x80100008 then 0
    else a
  cp0 _ := 0
  tlb _ := ⟨0x81000000, 0⟩

def sampleDecode : Mips.Word → Option Instr := layout [
  (sampleSymbols.start, start sampleSymbols),
  (sampleSymbols.mipsFlushicache, mipsFlushicache),
  (sampleSymbols.tlbReset, Tlb.tlbReset),
  (sampleSymbols.utlbException, ExceptionEntry.utlbException sampleSymbols.entry),
  (sampleSymbols.exception, ExceptionEntry.exception sampleSymbols.entry),
  (sampleSymbols.entry.commonException, ExceptionEntry.commonException sampleSymbols.entry),
  (sampleSymbols.entry.asmUsermode, ExceptionEntry.asmUsermode sampleSymbols.entry)]

theorem loaded_sampleCore : Loaded sampleSymbols 0 sampleString sampleCore where
  string := ⟨by decide +kernel, by decide +kernel, by decide⟩
  above := by decide
  fits := by decide
  aligned := by decide
  high := by decide
  stack := by decide
  room := by decide
  depth := by decide
  curkstack := by decide
  firstfree := by decide
  distinct := by decide
  utlbException := by decide +kernel
  utlbExceptionEnd := rfl
  exception := by decide +kernel
  exceptionEnd := rfl
  commonException := by decide +kernel
  asmUsermode := by decide +kernel

theorem linked_sampleDecode : Linked (fetched sampleDecode sampleCore.mem) sampleSymbols where
  start := by decide +kernel
  mipsFlushicache := by decide +kernel
  tlbReset := by decide +kernel
  utlbException := by decide +kernel
  exception := by decide +kernel
  commonException := by decide +kernel
  asmUsermode := by decide +kernel

theorem boot_links_sample : ∃ d,
    Boots (fetched sampleDecode sampleCore.mem) sampleLibrary sampleSymbols
      (fetching sampleCore sampleSymbols.start) (fetching d sampleSymbols.kmain) ∧
    Booted sampleSymbols sampleString sampleCore d ∧
      ExceptionEntry.Linked (fetched sampleDecode d.mem) sampleSymbols.entry ∧
      (ramBootstrap 0x100000 (d.mem sampleSymbols.firstfree)).Booted := by
  obtain ⟨d, hBoots, hBooted, hLinked, hRam⟩ :=
    boot_links loaded_sampleCore (provides_sampleLibrary sampleString) linked_sampleDecode
  exact ⟨d, hBoots, hBooted, hLinked, hRam 0x100000 (by decide) (by decide)⟩

end Windborne.OS161.Boot
