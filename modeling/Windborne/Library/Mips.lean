import Mathlib.Logic.Function.Basic
import Mathlib.Logic.Relation
import Mathlib.Tactic.IntervalCases
import Windborne.Library.Results

/-!
# A MIPS processor

The instructions of a MIPS-I with which a kernel is entered, left and switched. A jump takes
effect behind the instruction that follows it. The instruction behind a load must not mention the
register that is loaded. Only the segment that is mapped directly is modelled, in words: a load or
a store elsewhere is a fault, as are the other exceptions.

Straight code is run with `run`, which knows nothing of addresses; `runs_straight` and `runs_jump`
take it to the processor.
-/

namespace Windborne.Library.Mips

abbrev Word := BitVec 32

abbrev Memory := Word → Word

inductive Reg where
  | zero | AT | v0 | v1 | a0 | a1 | a2 | a3
  | t0 | t1 | t2 | t3 | t4 | t5 | t6 | t7
  | s0 | s1 | s2 | s3 | s4 | s5 | s6 | s7
  | t8 | t9 | k0 | k1 | gp | sp | s8 | ra
  deriving DecidableEq

/-- Registers of the system coprocessor. -/
inductive Cp0 where
  | index | entrylo | vaddr | entryhi | status | cause | epc
  deriving DecidableEq

/-- An entry of the TLB. -/
structure Entry where
  hi : Word
  lo : Word
  deriving DecidableEq

/-- What instructions work on. -/
structure Core where
  regs : Reg → Word
  hi : Word
  lo : Word
  mem : Memory
  cp0 : Cp0 → Word
  tlb : Fin 64 → Entry

inductive Fault where
  | overflow
  | address
  | loadDelay
  | fetch
  deriving DecidableEq

inductive Instr where
  | nop
  | addi (rt rs : Reg) (imm : BitVec 16)
  | addiu (rt rs : Reg) (imm : BitVec 16)
  | add (rd rs rt : Reg)
  | sub (rd rs rt : Reg)
  | and (rd rs rt : Reg)
  | andi (rt rs : Reg) (imm : BitVec 16)
  | ori (rt rs : Reg) (imm : BitVec 16)
  | lui (rt : Reg) (imm : BitVec 16)
  | sll (rd rt : Reg) (shift : Nat)
  | sra (rd rt : Reg) (shift : Nat)
  | move (rd rs : Reg)
  | lw (rt : Reg) (offset : BitVec 16) (base : Reg)
  | sw (rt : Reg) (offset : BitVec 16) (base : Reg)
  | mfhi (rd : Reg)
  | mflo (rd : Reg)
  | mthi (rs : Reg)
  | mtlo (rs : Reg)
  | mfc0 (rt : Reg) (rd : Cp0)
  | mtc0 (rt : Reg) (rd : Cp0)
  | tlbr
  | tlbwi
  | tlbp
  | rfe
  | beq (rs rt : Reg) (offset : BitVec 16)
  | bne (rs rt : Reg) (offset : BitVec 16)
  | bgez (rs : Reg) (offset : BitVec 16)
  | j (target : Word)
  | jal (target : Word)
  | jr (rs : Reg)
  deriving DecidableEq

/-! ## Instructions -/

/-- `li` and `la`: an address or a number in two halves. -/
def la (rt : Reg) (value : Word) : List Instr :=
  [.lui rt (value.extractLsb' 16 16), .ori rt rt (value.extractLsb' 0 16)]

/-- `sw` to a symbol. The lower half of the address is signed. -/
def swSymbol (r : Reg) (a : Word) : List Instr := [
  .lui .AT ((a + 0x8000).extractLsb' 16 16),
  .sw r (a.extractLsb' 0 16) .AT]

/-- Aligned, in the segment that is mapped directly and cached. -/
def Direct (a : Word) : Prop :=
  a.toNat % 4 = 0 ∧ 0x80000000 ≤ a.toNat ∧ a.toNat < 0xa0000000

instance : DecidablePred Direct := fun _ => inferInstanceAs (Decidable (_ ∧ _))

/-- An exception: the modes before it are pushed, and interrupts are off in kernel mode. -/
def pushModes (status : Word) : Word :=
  (status &&& 0xffffffc0#32) ||| ((status &&& 0xf#32) <<< 2)

/-- `rfe` -/
def popModes (status : Word) : Word :=
  (status &&& 0xfffffff0#32) ||| ((status >>> 2) &&& 0xf#32)

/-- The page and address space of `entryhi` are those of the entry, or just the page if it is
global. -/
def Entry.Matches (e : Entry) (entryhi : Word) : Prop :=
  e.hi &&& 0xfffff000#32 = entryhi &&& 0xfffff000#32 ∧
    (e.lo &&& 0x100#32 ≠ 0 ∨ e.hi &&& 0xfc0#32 = entryhi &&& 0xfc0#32)

instance (e : Entry) (entryhi : Word) : Decidable (e.Matches entryhi) :=
  inferInstanceAs (Decidable (_ ∧ _))

namespace Core

def get (c : Core) (r : Reg) : Word := if r = .zero then 0 else c.regs r

def set (c : Core) (r : Reg) (v : Word) : Core :=
  if r = .zero then c else { c with regs := Function.update c.regs r v }

def setCp0 (c : Core) (r : Cp0) (v : Word) : Core :=
  { c with cp0 := Function.update c.cp0 r v }

def setMem (c : Core) (mem : Memory) : Core := { c with mem }

/-- The entry that `index` points to. -/
def tlbIndex (c : Core) : Fin 64 := ((c.cp0 .index).extractLsb' 8 6).toFin

/-- The first entry that matches `entryhi`. -/
def probe (c : Core) : Option (Fin 64) :=
  (List.finRange 64).find? fun i => (c.tlb i).Matches (c.cp0 .entryhi)

/-- An addition that must not overflow. -/
def setSum (c : Core) (r : Reg) (x y : Word) : Except Fault Core :=
  if x.saddOverflow y then .error .overflow else .ok (c.set r (x + y))

end Core

namespace Instr

/-- The effect on everything but the program counter. -/
def exec (c : Core) : Instr → Except Fault Core
  | addi rt rs imm => c.setSum rt (c.get rs) (imm.signExtend 32)
  | addiu rt rs imm => .ok (c.set rt (c.get rs + imm.signExtend 32))
  | add rd rs rt => c.setSum rd (c.get rs) (c.get rt)
  | sub rd rs rt =>
    if (c.get rs).ssubOverflow (c.get rt) then .error .overflow
    else .ok (c.set rd (c.get rs - c.get rt))
  | and rd rs rt => .ok (c.set rd (c.get rs &&& c.get rt))
  | andi rt rs imm => .ok (c.set rt (c.get rs &&& imm.setWidth 32))
  | ori rt rs imm => .ok (c.set rt (c.get rs ||| imm.setWidth 32))
  | lui rt imm => .ok (c.set rt (imm.setWidth 32 <<< 16))
  | sll rd rt shift => .ok (c.set rd (c.get rt <<< shift))
  | sra rd rt shift => .ok (c.set rd ((c.get rt).sshiftRight shift))
  | move rd rs => .ok (c.set rd (c.get rs))
  | lw rt offset base =>
    let a := c.get base + offset.signExtend 32
    if Direct a then .ok (c.set rt (c.mem a)) else .error .address
  | sw rt offset base =>
    let a := c.get base + offset.signExtend 32
    if Direct a then .ok (c.setMem (Function.update c.mem a (c.get rt))) else .error .address
  | mfhi rd => .ok (c.set rd c.hi)
  | mflo rd => .ok (c.set rd c.lo)
  | mthi rs => .ok { c with hi := c.get rs }
  | mtlo rs => .ok { c with lo := c.get rs }
  | mfc0 rt rd => .ok (c.set rt (c.cp0 rd))
  | mtc0 rt rd => .ok (c.setCp0 rd (c.get rt))
  | tlbr =>
    let e := c.tlb c.tlbIndex
    .ok ((c.setCp0 .entryhi e.hi).setCp0 .entrylo e.lo)
  | tlbwi =>
    .ok { c with tlb := Function.update c.tlb c.tlbIndex ⟨c.cp0 .entryhi, c.cp0 .entrylo⟩ }
  | tlbp =>
    match c.probe with
    | some i => .ok (c.setCp0 .index (BitVec.ofNat 32 i <<< 8))
    | none => .ok (c.setCp0 .index 0x80000000)
  | rfe => .ok (c.setCp0 .status (popModes (c.cp0 .status)))
  | nop | beq .. | bne .. | bgez .. | j _ | jal _ | jr _ => .ok c

/-- The address that an instruction at `pc` jumps to, if it does. -/
def jump (pc : Word) (c : Core) : Instr → Option Word
  | beq rs rt offset =>
    if c.get rs = c.get rt then some (pc + 4 + 4 * offset.signExtend 32) else none
  | bne rs rt offset =>
    if c.get rs ≠ c.get rt then some (pc + 4 + 4 * offset.signExtend 32) else none
  | bgez rs offset =>
    if 0 ≤ (c.get rs).toInt then some (pc + 4 + 4 * offset.signExtend 32) else none
  | j target | jal target => some target
  | jr rs => some (c.get rs)
  | _ => none

/-- The return address that a call leaves. -/
def link (pc : Word) (c : Core) : Instr → Core
  | jal _ => c.set .ra (pc + 8)
  | _ => c

def jumps : Instr → Bool
  | beq .. | bne .. | bgez .. | j _ | jal _ | jr _ => true
  | _ => false

/-- The register that is not there for the next instruction. -/
def loads : Instr → Option Reg
  | lw rt _ _ => some rt
  | _ => none

def mentions : Instr → List Reg
  | addi rt rs _ | addiu rt rs _ | andi rt rs _ | ori rt rs _ => [rt, rs]
  | add rd rs rt | sub rd rs rt | and rd rs rt => [rd, rs, rt]
  | lw rt _ base | sw rt _ base => [rt, base]
  | sll rd rt _ | sra rd rt _ => [rd, rt]
  | move rd rs => [rd, rs]
  | lui r _ | mfhi r | mflo r | mthi r | mtlo r | mfc0 r _ | mtc0 r _ | jr r | bgez r _ => [r]
  | beq rs rt _ | bne rs rt _ => [rs, rt]
  | jal _ => [.ra]
  | nop | tlbr | tlbwi | tlbp | rfe | j _ => []

end Instr

/-! ## The processor -/

/-- `npc` is the address of the instruction behind the one at `pc`, and `loading` the register that
has just been loaded. -/
structure Processor where
  core : Core
  pc : Word
  npc : Word
  loading : Option Reg

/-- About to execute the instruction at `pc`, with no jump and no load under way. -/
def fetching (c : Core) (pc : Word) : Processor := ⟨c, pc, pc + 4, none⟩

def step (code : Word → Option Instr) (p : Processor) : Except Fault Processor :=
  match code p.pc with
  | none => .error .fetch
  | some i => do
    if ∃ r ∈ p.loading, r ∈ i.mentions then throw .loadDelay
    let core ← i.exec p.core
    return {
      core := i.link p.pc core
      pc := p.npc
      npc := (i.jump p.pc p.core).getD (p.npc + 4)
      loading := i.loads }

def Runs (code : Word → Option Instr) : Processor → Processor → Prop :=
  Relation.ReflTransGen fun p q => step code p = .ok q

/-- `is` is the code from `pc` on. -/
def At (code : Word → Option Instr) (pc : Word) : List Instr → Prop
  | [] => True
  | i :: is => code pc = some i ∧ At code (pc + 4) is

instance : ∀ code pc is, Decidable (At code pc is)
  | _, _, [] => inferInstanceAs (Decidable True)
  | code, pc, _ :: is =>
    have := instDecidableAt code (pc + 4) is
    inferInstanceAs (Decidable (_ ∧ _))

/-- Pieces of code at their addresses. -/
def layout (pieces : List (Word × List Instr)) (a : Word) : Option Instr :=
  pieces.findSome? fun piece =>
    if (a - piece.1).toNat % 4 = 0 then piece.2[(a - piece.1).toNat / 4]? else none

/-! ## Registers -/

namespace Core

variable {c : Core} {r r' : Reg} {v : Word} {d d' : Cp0}

@[simp] theorem get_zero : c.get .zero = 0 := rfl

theorem get_of_ne (h : r ≠ .zero) : c.get r = c.regs r := if_neg h

theorem set_of_ne (h : r ≠ .zero) :
    c.set r v = { c with regs := Function.update c.regs r v } := if_neg h

@[simp] theorem get_set (h : r ≠ .zero) : (c.set r v).get r = v := by
  rw [get_of_ne h, set_of_ne h]
  exact Function.update_self ..

@[simp] theorem get_set_of_ne (h : r' ≠ r) : (c.set r v).get r' = c.get r' := by
  unfold get set
  split
  · rfl
  · split
    · rfl
    · exact Function.update_of_ne h _ _

@[simp] theorem mem_set : (c.set r v).mem = c.mem := by
  unfold set
  split <;> rfl

@[simp] theorem hi_set : (c.set r v).hi = c.hi := by
  unfold set
  split <;> rfl

@[simp] theorem lo_set : (c.set r v).lo = c.lo := by
  unfold set
  split <;> rfl

@[simp] theorem cp0_set : (c.set r v).cp0 = c.cp0 := by
  unfold set
  split <;> rfl

@[simp] theorem tlb_set : (c.set r v).tlb = c.tlb := by
  unfold set
  split <;> rfl

@[simp] theorem get_setCp0 : (c.setCp0 d v).get r = c.get r := rfl

@[simp] theorem mem_setCp0 : (c.setCp0 d v).mem = c.mem := rfl

@[simp] theorem cp0_setCp0 : (c.setCp0 d v).cp0 d = v := Function.update_self ..

@[simp] theorem cp0_setCp0_of_ne (h : d' ≠ d) : (c.setCp0 d v).cp0 d' = c.cp0 d' :=
  Function.update_of_ne h ..

@[simp] theorem tlb_setCp0 : (c.setCp0 d v).tlb = c.tlb := rfl

@[simp] theorem get_setMem {mem : Memory} : (c.setMem mem).get r = c.get r := rfl

theorem mem_setMem {mem : Memory} : (c.setMem mem).mem = mem := rfl

end Core

namespace Core

theorem set_set {c : Core} {r : Reg} {v w : Word} : (c.set r v).set r w = c.set r w := by
  by_cases h : r = .zero
  · subst h
    rfl
  · rw [set_of_ne h, set_of_ne h, set_of_ne h]
    dsimp only
    rw [Function.update_idem]

theorem set_comm {c : Core} {r r' : Reg} {v w : Word} (h : r ≠ r') :
    (c.set r v).set r' w = (c.set r' w).set r v := by
  by_cases hr : r = .zero
  · subst hr
    rfl
  by_cases hr' : r' = .zero
  · subst hr'
    rfl
  rw [set_of_ne hr, set_of_ne hr', set_of_ne hr', set_of_ne hr]
  dsimp only
  rw [Function.update_comm h]

theorem set_get {c : Core} {r : Reg} : c.set r (c.get r) = c := by
  by_cases h : r = .zero
  · subst h
    rfl
  rw [set_of_ne h, get_of_ne h, Function.update_eq_self]

end Core

/-! ## Modes -/

/-- The mode before an exception was user mode if it was the mode then. -/
theorem pushModes_and_eq_zero {status : Word} :
    pushModes status &&& 0x8#32 = 0#32 ↔ status &&& 0x2#32 = 0#32 := by
  have hShift : pushModes status &&& 0x8#32 = (status &&& 0x2#32) <<< 2 := by
    unfold pushModes
    ext i hi
    interval_cases i <;> simp
  have hLe : (status &&& 0x2#32).toNat ≤ 2 := by
    rw [BitVec.toNat_and]
    exact Nat.and_le_right
  rw [hShift]
  constructor
  · intro h
    have hZero := congrArg BitVec.toNat h
    rw [BitVec.toNat_shiftLeft, Nat.shiftLeft_eq] at hZero
    apply BitVec.eq_of_toNat_eq
    simp only [BitVec.toNat_ofNat] at hZero ⊢
    omega
  · intro h
    rw [h]
    rfl

/-- The modes are back, and those before them are kept twice. -/
theorem popModes_pushModes (status : Word) :
    popModes (pushModes status) = (status &&& 0xffffffcf#32) ||| ((status &&& 0xc#32) <<< 2) := by
  unfold popModes pushModes
  ext i hi
  interval_cases i <;> simp

/-! ## Straight code -/

/-- The instructions one after the other, none of them a jump. -/
def run : List Instr → Core → Except Fault Core
  | [], c => .ok c
  | i :: is, c => do
    let c ← i.exec c
    run is c

/-- No instruction mentions a register that has just been loaded, and no load is left. -/
def Waits : Option Reg → List Instr → Prop
  | loading, [] => loading = none
  | loading, i :: is => (∀ r ∈ loading, r ∉ i.mentions) ∧ Waits i.loads is

instance : ∀ loading is, Decidable (Waits loading is)
  | loading, [] => inferInstanceAs (Decidable (loading = none))
  | loading, i :: is =>
    have := instDecidableWaits i.loads is
    inferInstanceAs (Decidable ((∀ r ∈ loading, r ∉ i.mentions) ∧ Waits i.loads is))

section Rules

variable {code : Word → Option Instr} {c c' d : Core} {pc : Word} {is js : List Instr}
  {i slot : Instr} {loading : Option Reg} {f : Word}

theorem run_cons (h : i.exec c = .ok c') : run (i :: is) c = run is c' := by
  rw [run, h, ok_bind]

theorem waits_append (h : Waits loading is) (h' : Waits none js) : Waits loading (is ++ js) := by
  induction is generalizing loading with
  | nil =>
    cases h
    exact h'
  | cons i is ih => exact ⟨h.1, ih h.2⟩

theorem at_cons_pc (n : Nat) :
    pc + 4 + BitVec.ofNat 32 (4 * n) = pc + BitVec.ofNat 32 (4 * (n + 1)) := by
  bv_omega

theorem at_append :
    At code pc (is ++ js) ↔ At code pc is ∧ At code (pc + BitVec.ofNat 32 (4 * is.length)) js := by
  induction is generalizing pc with
  | nil => simp [At]
  | cons i is ih =>
    rw [List.cons_append, At, At, ih, at_cons_pc, List.length_cons, and_assoc]

theorem step_eq {p : Processor} (hFetch : code p.pc = some i)
    (hWaits : ∀ r ∈ p.loading, r ∉ i.mentions) (hExec : i.exec p.core = .ok c) :
    step code p = .ok {
      core := i.link p.pc c
      pc := p.npc
      npc := (i.jump p.pc p.core).getD (p.npc + 4)
      loading := i.loads } := by
  have hDelay : ¬∃ r ∈ p.loading, r ∈ i.mentions := by
    rintro ⟨r, hLoading, hMentions⟩
    exact hWaits r hLoading hMentions
  unfold step
  rw [hFetch]
  dsimp only
  rw [if_neg hDelay, hExec]
  rfl

theorem link_of_straight (h : i.jumps = false) : i.link pc c = c := by
  cases i with
  | jal => cases h
  | _ => rfl

theorem jump_of_straight (h : i.jumps = false) : i.jump pc c = none := by
  cases i with
  | beq | bne | bgez | j | jal | jr => cases h
  | _ => rfl

theorem exec_of_jumps (h : i.jumps = true) : i.exec c = .ok c := by
  cases i with
  | beq | bne | bgez | j | jal | jr => rw [Instr.exec]
  | _ => cases h

theorem halves (v : Word) :
    (v.extractLsb' 16 16).setWidth 32 <<< 16 ||| (v.extractLsb' 0 16).setWidth 32 = v := by
  ext i hi
  by_cases hLow : i < 16
  · simp [hLow, BitVec.getLsbD_eq_getElem hi]
  · have hHigh : i - 16 < 16 := by
      omega
    have hSame : 16 + (i - 16) = i := by
      omega
    simp [hLow, hHigh, hSame, BitVec.getLsbD_eq_getElem hi]

theorem run_la {r : Reg} {v : Word} (h : r ≠ .zero) :
    run (la r v ++ is) c = run is (c.set r v) := by
  rw [la, List.cons_append, List.cons_append, List.nil_append, run_cons rfl, run_cons rfl]
  rw [Core.get_set h, Core.set_set, halves]

theorem halves_signed (a : Word) :
    ((a + 0x8000).extractLsb' 16 16).setWidth 32 <<< 16 + (a.extractLsb' 0 16).signExtend 32 =
      a := by
  apply BitVec.eq_of_toNat_eq
  have hLow : (a.extractLsb' 0 16).toNat = a.toNat % 65536 := by
    simp [BitVec.extractLsb'_toNat]
  have hHigh : (((a + 0x8000).extractLsb' 16 16).setWidth 32 <<< 16).toNat =
      (a.toNat + 0x8000) % 2 ^ 32 / 65536 * 65536 := by
    simp [BitVec.toNat_shiftLeft, BitVec.extractLsb'_toNat, Nat.shiftRight_eq_div_pow,
      Nat.shiftLeft_eq]
    omega
  have hSign : (a.extractLsb' 0 16).msb = decide (32768 ≤ a.toNat % 65536) := by
    rw [BitVec.msb_eq_decide, hLow]
  rw [BitVec.toNat_add, hHigh, BitVec.toNat_signExtend, hSign, BitVec.toNat_setWidth, hLow]
  have hBound := a.isLt
  by_cases hNegative : 32768 ≤ a.toNat % 65536
  · rw [if_pos (decide_eq_true hNegative)]
    omega
  · rw [if_neg (by simpa using hNegative)]
    omega

/-- An addition to an address of the upper half that stays there. -/
theorem exec_addi {rt rs : Reg} {imm : BitVec 16} (hHalf : 0x80000000 ≤ (c.get rs).toNat)
    (hStays : 0x80000000 ≤ ((c.get rs).toNat : Int) + (imm.signExtend 32).toInt) :
    (Instr.addi rt rs imm).exec c = .ok (c.set rt (c.get rs + imm.signExtend 32)) := by
  have hInt : (c.get rs).toInt = (c.get rs).toNat - 4294967296 := by
    rw [BitVec.toInt_eq_toNat_cond]
    omega
  have hBound := BitVec.toInt_lt (x := imm.signExtend 32)
  have hNot : (c.get rs).saddOverflow (imm.signExtend 32) = false := by
    simp only [BitVec.saddOverflow, hInt, Bool.or_eq_false_iff, decide_eq_false_iff_not]
    omega
  rw [Instr.exec, Core.setSum, hNot]
  rfl

theorem exec_add {rd rs rt : Reg} (hHalf : 0x80000000 ≤ (c.get rs).toNat)
    (hSmall : (c.get rt).toNat < 0x80000000) :
    (Instr.add rd rs rt).exec c = .ok (c.set rd (c.get rs + c.get rt)) := by
  have hInt : (c.get rs).toInt = (c.get rs).toNat - 4294967296 := by
    rw [BitVec.toInt_eq_toNat_cond]
    omega
  have hInt' : (c.get rt).toInt = (c.get rt).toNat := by
    rw [BitVec.toInt_eq_toNat_cond]
    omega
  have hBound := (c.get rs).isLt
  have hNot : (c.get rs).saddOverflow (c.get rt) = false := by
    simp only [BitVec.saddOverflow, hInt, hInt', Bool.or_eq_false_iff, decide_eq_false_iff_not]
    omega
  rw [Instr.exec, Core.setSum, hNot]
  rfl

/-- The difference of two addresses of the upper half. -/
theorem exec_sub {rd rs rt : Reg} (hHalf : 0x80000000 ≤ (c.get rs).toNat)
    (hHalf' : 0x80000000 ≤ (c.get rt).toNat) :
    (Instr.sub rd rs rt).exec c = .ok (c.set rd (c.get rs - c.get rt)) := by
  have hInt : ∀ v : Word, 0x80000000 ≤ v.toNat → v.toInt = v.toNat - 4294967296 := by
    intro v hv
    rw [BitVec.toInt_eq_toNat_cond]
    omega
  have hBound := (c.get rs).isLt
  have hBound' := (c.get rt).isLt
  have hNot : (c.get rs).ssubOverflow (c.get rt) = false := by
    simp only [BitVec.ssubOverflow, hInt _ hHalf, hInt _ hHalf', Bool.or_eq_false_iff,
      decide_eq_false_iff_not]
    omega
  rw [Instr.exec, hNot]
  rfl

/-- One instruction that is not a jump. -/
theorem step_straight (hFetch : code pc = some i) (hStraight : i.jumps = false)
    (hWaits : ∀ r ∈ loading, r ∉ i.mentions) (hExec : i.exec c = .ok c') :
    step code ⟨c, pc, pc + 4, loading⟩ = .ok ⟨c', pc + 4, pc + 4 + 4, i.loads⟩ := by
  rw [step_eq (p := ⟨c, pc, pc + 4, loading⟩) hFetch hWaits hExec, link_of_straight hStraight,
    jump_of_straight hStraight]
  rfl

/-- The `k`th instruction of code. -/
theorem At.fetch (hCode : At code pc is) (k : Nat) (hk : is[k]? = some i) :
    code (pc + BitVec.ofNat 32 (4 * k)) = some i := by
  induction is generalizing pc k with
  | nil => cases hk
  | cons j is ih =>
    obtain ⟨hHere, hRest⟩ := hCode
    cases k with
    | zero =>
      cases hk
      rw [Nat.mul_zero, BitVec.add_zero]
      exact hHere
    | succ k =>
      have hNext : pc + 4 + BitVec.ofNat 32 (4 * k) = pc + BitVec.ofNat 32 (4 * (k + 1)) := by
        rw [BitVec.add_assoc, Nat.mul_succ, Nat.add_comm, BitVec.ofNat_add]
        rfl
      rw [← hNext]
      exact ih hRest k hk

/-- With a load under way at the start. -/
theorem runs_straight_from (hCode : At code pc is) (hStraight : ∀ i ∈ is, i.jumps = false)
    (hWaits : Waits loading is) (hRun : run is c = .ok c') :
    Runs code ⟨c, pc, pc + 4, loading⟩ (fetching c' (pc + BitVec.ofNat 32 (4 * is.length))) := by
  induction is generalizing pc c loading with
  | nil =>
    cases hRun
    cases hWaits
    rw [List.length_nil, Nat.mul_zero, BitVec.add_zero]
    exact .refl
  | cons i is ih =>
    obtain ⟨hFetch, hRest⟩ := hCode
    obtain ⟨d, hExec, hTail⟩ := bind_eq_ok.mp hRun
    have hStep := step_straight hFetch (hStraight i List.mem_cons_self) hWaits.1 hExec
    have hNext := ih hRest (fun j hj => hStraight j (List.mem_cons_of_mem i hj)) hWaits.2 hTail
    rw [at_cons_pc] at hNext
    exact .head hStep hNext

/-- **Straight code.** -/
theorem runs_straight (hCode : At code pc is) (hStraight : ∀ i ∈ is, i.jumps = false)
    (hWaits : Waits none is) (hRun : run is c = .ok c') :
    Runs code (fetching c pc) (fetching c' (pc + BitVec.ofNat 32 (4 * is.length))) :=
  runs_straight_from hCode hStraight hWaits hRun

theorem runs_jump_from (hCode : At code pc (is ++ [i, slot])) (hJump : i.jumps = true)
    (hStraight : ∀ k ∈ slot :: is, k.jumps = false) (hWaits : Waits loading (is ++ [i, slot]))
    (hRun : run is c = .ok c')
    (hSlot : slot.exec (i.link (pc + BitVec.ofNat 32 (4 * is.length)) c') = .ok d) :
    Runs code ⟨c, pc, pc + 4, loading⟩ (fetching d
      ((i.jump (pc + BitVec.ofNat 32 (4 * is.length)) c').getD
        (pc + BitVec.ofNat 32 (4 * is.length) + 8))) := by
  induction is generalizing pc c loading with
  | nil =>
    obtain rfl : c = c' := Except.ok.inj hRun
    obtain ⟨hFetch, hFetch', -⟩ := hCode
    obtain ⟨hFirst, hSecond, hLoads⟩ := hWaits
    have hStraight' := hStraight slot List.mem_cons_self
    rw [List.length_nil, Nat.mul_zero, BitVec.add_zero] at hSlot ⊢
    have hBehind : pc + 4 + 4 = pc + 8 := by
      bv_omega
    have hStep := step_eq (p := ⟨c, pc, pc + 4, loading⟩) hFetch hFirst (exec_of_jumps hJump)
    have hStep' := step_eq
      (p := ⟨i.link pc c, pc + 4, (i.jump pc c).getD (pc + 8), i.loads⟩) hFetch' hSecond hSlot
    rw [link_of_straight hStraight', jump_of_straight hStraight', hLoads] at hStep'
    dsimp only at hStep
    rw [hBehind] at hStep
    exact .head hStep (.single hStep')
  | cons k is ih =>
    obtain ⟨hFetch, hRest⟩ := hCode
    obtain ⟨e, hExec, hTail⟩ := bind_eq_ok.mp hRun
    have hMem : k ∈ slot :: k :: is := List.mem_cons_of_mem _ List.mem_cons_self
    have hStep := step_straight hFetch (hStraight k hMem) hWaits.1 hExec
    rw [List.length_cons, ← at_cons_pc] at hSlot ⊢
    refine .head hStep (ih hRest ?_ hWaits.2 hTail hSlot)
    intro j hj
    rcases List.mem_cons.mp hj with rfl | hj
    · exact hStraight _ List.mem_cons_self
    · exact hStraight j (List.mem_cons_of_mem _ (List.mem_cons_of_mem _ hj))

/-- **Jumps.** The code in front of the jump is straight, and so is the instruction behind it. -/
theorem runs_jump (hCode : At code pc (is ++ [i, slot])) (hJump : i.jumps = true)
    (hStraight : ∀ k ∈ slot :: is, k.jumps = false) (hWaits : Waits none (is ++ [i, slot]))
    (hRun : run is c = .ok c')
    (hSlot : slot.exec (i.link (pc + BitVec.ofNat 32 (4 * is.length)) c') = .ok d) :
    Runs code (fetching c pc) (fetching d
      ((i.jump (pc + BitVec.ofNat 32 (4 * is.length)) c').getD
        (pc + BitVec.ofNat 32 (4 * is.length) + 8))) :=
  runs_jump_from hCode hJump hStraight hWaits hRun hSlot

/-- A call goes on behind its delay slot when it returns. -/
theorem runs_call (hCode : At code pc (is ++ ([.jal f, .nop] : List Instr)))
    (hStraight : ∀ k ∈ is, k.jumps = false) (hWaits : Waits none is) (hRun : run is c = .ok d) :
    Runs code (fetching c pc) (fetching (d.set .ra
      (pc + BitVec.ofNat 32 (4 * (is ++ ([.jal f, .nop] : List Instr)).length))) f) := by
  have hBehind : pc + BitVec.ofNat 32 (4 * is.length) + 8 =
      pc + BitVec.ofNat 32 (4 * (is ++ ([.jal f, .nop] : List Instr)).length) := by
    rw [List.length_append]
    simp only [List.length_cons, List.length_nil]
    bv_omega
  have hNops : Waits none ([.jal f, .nop] : List Instr) := ⟨nofun, nofun, rfl⟩
  have hRuns := runs_jump hCode rfl (List.forall_mem_cons.mpr ⟨rfl, hStraight⟩)
    (waits_append hWaits hNops) hRun rfl
  rw [← hBehind]
  exact hRuns

end Rules

end Windborne.Library.Mips
