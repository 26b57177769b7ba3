import Windborne.Library.Mips

/-!
# Frames of a MIPS

Blocks of stores that save registers in a frame, and blocks of loads that get them back. The base
register stays as it is, so that the addresses are offsets from one word.
-/

namespace Windborne.Library.Mips

/-- A store of each register at its offset. -/
def stores (base : Reg) (xs : List (Reg × BitVec 16)) : List Instr :=
  xs.map fun x => .sw x.1 x.2 base

/-- A load of each register from its offset. -/
def loads (base : Reg) (xs : List (Reg × BitVec 16)) : List Instr :=
  xs.map fun x => .lw x.1 x.2 base

/-- Values at offsets from `base`, where a later one overwrites an earlier one. -/
def Memory.writes (m : Memory) (base : Word) (xs : List (Word × Word)) : Memory :=
  xs.foldl (fun m x => Function.update m (base + x.1) x.2) m

/-- Registers with what memory has at their offsets. -/
def Core.reads (c : Core) (base : Word) (xs : List (Reg × BitVec 16)) : Core :=
  xs.foldl (fun c x => c.set x.1 (c.mem (base + x.2.signExtend 32))) c

/-- There are `size` bytes below `top`. -/
structure Room (size : Nat) (top : Word) : Prop where
  aligned : top.toNat % 4 = 0
  low : 0x80000000 + size ≤ top.toNat
  high : top.toNat ≤ 0xa0000000

/-- The address is one of the `size` bytes below `top`. -/
def Below (size : Nat) (top a : Word) : Prop := top.toNat - size ≤ a.toNat ∧ a.toNat < top.toNat

instance (size : Nat) (top a : Word) : Decidable (Below size top a) :=
  inferInstanceAs (Decidable (_ ∧ _))

/-! ## Memory -/

section Memory

variable {m : Memory} {base a o : Word} {xs ys : List (Word × Word)}

theorem Memory.writes_append : m.writes base (xs ++ ys) = (m.writes base xs).writes base ys :=
  List.foldl_append ..

theorem Memory.writes_of_notMem (h : ∀ x ∈ xs, base + x.1 ≠ a) : m.writes base xs a = m a := by
  induction xs generalizing m with
  | nil => rfl
  | cons x xs ih =>
    have hTail := ih (m := Function.update m (base + x.1) x.2) fun y hy =>
      h y (List.mem_cons_of_mem x hy)
    refine hTail.trans ?_
    exact Function.update_of_ne (h x List.mem_cons_self).symm ..

/-- A frame is read at an offset: the last value that was written there. -/
theorem Memory.writes_apply :
    m.writes base xs (base + o) =
      ((xs.findRev? fun x => x.1 = o).map Prod.snd).getD (m (base + o)) := by
  induction xs generalizing m with
  | nil => rfl
  | cons x xs ih =>
    refine (ih (m := Function.update m (base + x.1) x.2)).trans ?_
    rw [List.findRev?]
    cases xs.findRev? fun x => x.1 = o with
    | some y => rfl
    | none =>
      by_cases hOffset : x.1 = o
      · simp [hOffset]
      · simp [hOffset, Ne.symm hOffset]

end Memory

/-! ## Room -/

section Room

variable {size : Nat} {top : Word} {o : BitVec 16} {c : Core}

theorem toNat_signExtend (h : o.toNat < 0x8000) : (o.signExtend 32).toNat = o.toNat := by
  have hMsb : o.msb = false := BitVec.msb_eq_false_iff_two_mul_lt.mpr (by omega)
  rw [BitVec.signExtend_eq_setWidth_of_msb_false hMsb, BitVec.toNat_setWidth]
  omega

theorem toInt_size (h : size ≤ 0x8000) : (BitVec.ofNat 32 size).toInt = size := by
  have hNat : (BitVec.ofNat 32 size).toNat = size := Nat.mod_eq_of_lt (by omega)
  rw [BitVec.toInt_eq_toNat_of_lt, hNat]
  omega

theorem Room.toNat_sub (hRoom : Room size top) :
    (top - BitVec.ofNat 32 size).toNat = top.toNat - size := by
  obtain ⟨-, hLow, -⟩ := hRoom
  bv_omega

/-- An offset into the frame. -/
theorem Room.toNat_add (hRoom : Room size top) (hSize : size ≤ 0x8000)
    (hInside : o.toNat < size) :
    (top - BitVec.ofNat 32 size + o.signExtend 32).toNat = top.toNat - size + o.toNat := by
  have hBase := hRoom.toNat_sub
  have hOffset := toNat_signExtend (o := o) (by omega)
  obtain ⟨-, hLow, hHigh⟩ := hRoom
  rw [BitVec.toNat_add, hBase, hOffset]
  omega

theorem Room.direct (hRoom : Room size top) (hSize : size ≤ 0x8000) (hAligned : size % 4 = 0)
    (hOffset : o.toNat % 4 = 0) (hInside : o.toNat < size) :
    Direct (top - BitVec.ofNat 32 size + o.signExtend 32) := by
  have hSum := hRoom.toNat_add hSize hInside
  obtain ⟨hTop, hLow, hHigh⟩ := hRoom
  refine ⟨?_, ?_, ?_⟩
  all_goals omega

theorem Room.below (hRoom : Room size top) (hSize : size ≤ 0x8000) (hInside : o.toNat < size) :
    Below size top (top - BitVec.ofNat 32 size + o.signExtend 32) := by
  have hSum := hRoom.toNat_add hSize hInside
  obtain ⟨-, hLow, -⟩ := hRoom
  constructor
  all_goals omega

/-- A frame is pushed. -/
theorem Room.exec_push (hRoom : Room size top) {r : Reg} {imm : BitVec 16}
    (hImm : imm.signExtend 32 = -BitVec.ofNat 32 size) (hSize : size ≤ 0x8000)
    (hTop : c.get r = top) :
    (Instr.addi r r imm).exec c = .ok (c.set r (top - BitVec.ofNat 32 size)) := by
  have hInt : (imm.signExtend 32).toInt = -size := by
    rw [hImm, BitVec.toInt_neg_of_ne_intMin]
    · rw [toInt_size hSize]
    · intro hMin
      have hNat := congrArg BitVec.toNat hMin
      rw [BitVec.toNat_ofNat, BitVec.toNat_intMin] at hNat
      omega
  obtain ⟨-, hLow, -⟩ := hRoom
  rw [exec_addi, hTop, hImm, BitVec.sub_eq_add_neg]
  · rw [hTop]
    omega
  · rw [hTop, hInt]
    omega

/-- A frame is popped. -/
theorem Room.exec_pop (hRoom : Room size top) {r : Reg} {imm : BitVec 16}
    (hImm : imm.signExtend 32 = BitVec.ofNat 32 size) (hSize : size ≤ 0x8000)
    (hBase : c.get r = top - BitVec.ofNat 32 size) :
    (Instr.addi r r imm).exec c = .ok (c.set r top) := by
  have hNat := hRoom.toNat_sub
  have hInt : (imm.signExtend 32).toInt = size := by
    rw [hImm, toInt_size hSize]
  obtain ⟨-, hLow, -⟩ := hRoom
  rw [exec_addi, hBase, hImm, BitVec.sub_add_cancel]
  · rw [hBase]
    omega
  · rw [hBase, hInt]
    omega

end Room

/-! ## Stores -/

section Stores

variable {c : Core} {base : Reg} {xs : List (Reg × BitVec 16)} {is : List Instr}

/-- The values that a block of stores leaves. -/
def Core.saved (c : Core) (xs : List (Reg × BitVec 16)) : List (Word × Word) :=
  xs.map fun x => (x.2.signExtend 32, c.get x.1)

/-- The frame is filled. -/
def Core.store (c : Core) (base : Reg) (xs : List (Reg × BitVec 16)) : Core :=
  c.setMem (c.mem.writes (c.get base) (c.saved xs))

theorem exec_sw {r : Reg} {offset : BitVec 16} (h : Direct (c.get base + offset.signExtend 32)) :
    (Instr.sw r offset base).exec c = .ok (c.setMem
      (Function.update c.mem (c.get base + offset.signExtend 32) (c.get r))) := by
  rw [Instr.exec]
  exact if_pos h

/-- A store to a symbol. -/
theorem run_swSymbol {r : Reg} {a : Word} (hReg : r ≠ .AT) (ha : Direct a) :
    run (swSymbol r a ++ is) c = run is ((c.set .AT
      (((a + 0x8000).extractLsb' 16 16).setWidth 32 <<< 16)).setMem
        (Function.update c.mem a (c.get r))) := by
  have hBase : ∀ v, (c.set .AT v).get .AT = v := fun v => Core.get_set (by decide)
  have hStore : (Instr.sw r (a.extractLsb' 0 16) .AT).exec
      (c.set .AT (((a + 0x8000).extractLsb' 16 16).setWidth 32 <<< 16)) =
      .ok ((c.set .AT (((a + 0x8000).extractLsb' 16 16).setWidth 32 <<< 16)).setMem
        (Function.update c.mem a (c.get r))) := by
    rw [exec_sw, hBase, halves_signed, Core.mem_set, Core.get_set_of_ne hReg]
    rwa [hBase, halves_signed]
  rw [swSymbol, List.cons_append, List.cons_append, List.nil_append, run_cons rfl,
    run_cons hStore]

/-- **Saving registers.** -/
theorem run_stores (h : ∀ x ∈ xs, Direct (c.get base + x.2.signExtend 32)) :
    run (stores base xs ++ is) c = run is (c.store base xs) := by
  induction xs generalizing c with
  | nil => rfl
  | cons x xs ih =>
    have hStore := exec_sw (r := x.1) (h x List.mem_cons_self)
    rw [stores, List.map_cons, List.cons_append, run_cons hStore]
    exact ih fun y hy => h y (List.mem_cons_of_mem x hy)

end Stores

/-! ## Loads -/

section Loads

variable {c : Core} {base : Reg} {a : Word} {xs : List (Reg × BitVec 16)} {is : List Instr}
  {r : Reg}

@[simp] theorem Core.mem_reads : (c.reads a xs).mem = c.mem := by
  induction xs generalizing c with
  | nil => rfl
  | cons x xs ih => exact (ih (c := c.set ..)).trans mem_set

/-- A register has what was loaded last. -/
theorem Core.get_reads (hZero : r ≠ .zero) :
    (c.reads a xs).get r =
      ((xs.findRev? fun x => x.1 = r).map fun x => c.mem (a + x.2.signExtend 32)).getD
        (c.get r) := by
  induction xs generalizing c with
  | nil => rfl
  | cons x xs ih =>
    refine (ih (c := c.set x.1 (c.mem (a + x.2.signExtend 32)))).trans ?_
    rw [List.findRev?, mem_set]
    cases xs.findRev? fun x => x.1 = r with
    | some y => rfl
    | none =>
      by_cases hReg : x.1 = r
      · subst hReg
        simp [hZero]
      · simp [hReg, Ne.symm hReg]

theorem exec_lw {offset : BitVec 16} (h : Direct (c.get base + offset.signExtend 32)) :
    (Instr.lw r offset base).exec c =
      .ok (c.set r (c.mem (c.get base + offset.signExtend 32))) := by
  rw [Instr.exec]
  exact if_pos h

/-- **Getting registers back.** -/
theorem run_loads (hBase : ∀ x ∈ xs, x.1 ≠ base)
    (h : ∀ x ∈ xs, Direct (c.get base + x.2.signExtend 32)) :
    run (loads base xs ++ is) c = run is (c.reads (c.get base) xs) := by
  induction xs generalizing c with
  | nil => rfl
  | cons x xs ih =>
    have hLoad := exec_lw (r := x.1) (h x List.mem_cons_self)
    have hKeeps : (c.set x.1 (c.mem (c.get base + x.2.signExtend 32))).get base = c.get base :=
      Core.get_set_of_ne (hBase x List.mem_cons_self).symm
    rw [loads, List.map_cons, List.cons_append, run_cons hLoad]
    refine (ih (fun y hy => hBase y (List.mem_cons_of_mem x hy)) ?_).trans ?_
    · rw [hKeeps]
      exact fun y hy => h y (List.mem_cons_of_mem x hy)
    · rw [hKeeps]
      rfl

end Loads

end Windborne.Library.Mips
