import Mathlib.Data.Fintype.Card
import Windborne.Library.MipsFrames
import Windborne.OS161.DefineRegion

/-!
# The TLB

The code of `tlb_mips1.S`. `TLB_Reset` finds a TLB in which anything may be: it writes 64 entries
and looks for each whether the page is there already. The other functions write, read and search
the TLB as an array of 64 entries.
-/

namespace Windborne.OS161.Tlb

open Library Library.Mips

/-! ## The code -/

def tlbWrite : List Instr := ([
  .mtc0 .a0 .entryhi,
  .mtc0 .a1 .entrylo,
  .sll .t0 .a2 8,
  .mtc0 .t0 .index,
  .tlbwi] : List Instr) ++ ([
  .jr .ra,
  .nop] : List Instr)

def tlbRead : List Instr := ([
  .sll .t0 .a2 8,
  .mtc0 .t0 .index,
  .tlbr,
  .mfc0 .t0 .entryhi,
  .mfc0 .t1 .entrylo,
  .sw .t0 0 .a0,
  .sw .t1 0 .a1] : List Instr) ++ ([
  .jr .ra,
  .nop] : List Instr)

def tlbProbe : List Instr := ([
  .mtc0 .a0 .entryhi,
  .mtc0 .a1 .entrylo,
  .tlbp,
  .mfc0 .t0 .index] : List Instr) ++ ([
  .bgez .t0 4,
  .nop] : List Instr) ++ (([
  .addi .v0 .zero (-1)] : List Instr) ++ ([
  .jr .ra,
  .nop] : List Instr)) ++ (([
  .andi .t1 .t0 0x3f00] : List Instr) ++ ([
  .jr .ra,
  .sra .v0 .t1 8] : List Instr))

/-- The loop of `TLB_Reset` up to its first branch. -/
def resetProbe : List Instr := [
  .mtc0 .zero .entrylo,
  .mtc0 .t1 .entryhi,
  .tlbp,
  .mfc0 .t2 .index]

/-- The rest of the loop up to its second branch, with the constant that it compares with. -/
def resetWrite : List Instr := [
  .mtc0 .t0 .index,
  .addiu .t0 .t0 0x100,
  .ori .AT .zero 0x4000]

def tlbReset : List Instr := ([
  .addiu .t0 .zero 0,
  .lui .t1 0x8100] : List Instr) ++
  (resetProbe ++ ([
    .bgez .t2 (-5),
    .addiu .t1 .t1 0x1000] : List Instr)) ++
  (resetWrite ++ ([
    .bne .t0 .AT (-10),
    .tlbwi] : List Instr)) ++ ([
  .jr .ra,
  .nop] : List Instr)

/-! ## The reset -/

/-- The pages that the reset tries. -/
def resetPage (n : Nat) : Mips.Word := 0x81000000 + BitVec.ofNat 32 (0x1000 * n)

/-- The first `i` entries have been written, for growing pages below number `n`, and the others
are those of `tlb`. -/
structure Written (tlb tlb' : Fin 64 → Entry) (i n : Nat) : Prop where
  entries : ∀ j : Fin 64, j < i → ∃ m < n, tlb' j = ⟨resetPage m, 0⟩
  grows : ∀ j k : Fin 64, j < k → k < i → (tlb' j).hi.toNat < (tlb' k).hi.toNat
  rest : ∀ j : Fin 64, i ≤ j → tlb' j = tlb j

/-- The entries that the reset has not written, for pages that it will try. -/
def ahead (tlb : Fin 64 → Entry) (i n : Nat) : Finset (Fin 64) :=
  Finset.univ.filter fun j =>
    i ≤ j.val ∧ (resetPage n).toNat ≤ ((tlb j).hi &&& 0xfffff000#32).toNat

theorem toNat_resetPage {n : Nat} (h : n ≤ 128) :
    (resetPage n).toNat = 0x81000000 + 0x1000 * n := by
  have hBase : (0x81000000 : Mips.Word).toNat = 0x81000000 := rfl
  unfold resetPage
  rw [BitVec.toNat_add, BitVec.toNat_ofNat, hBase]
  omega

theorem resetPage_succ (n : Nat) : resetPage n + 0x1000 = resetPage (n + 1) := by
  unfold resetPage
  bv_omega

theorem toNat_page (x : Mips.Word) : (x &&& 0xfffff000#32).toNat = x.toNat / 4096 * 4096 :=
  toNat_and_pageFrame x

/-! ## One round -/

/-- What the reset does not touch. -/
structure Same (c d : Core) : Prop where
  get : ∀ r, r ∉ [Reg.t0, .t1, .t2, .AT] → d.get r = c.get r
  hi : d.hi = c.hi
  lo : d.lo = c.lo
  mem : d.mem = c.mem
  cp0 : ∀ r, r ∉ [Cp0.index, .entrylo, .entryhi] → d.cp0 r = c.cp0 r

theorem Same.trans {c d e : Core} (h : Same c d) (h' : Same d e) : Same c e where
  get r hr := (h'.get r hr).trans (h.get r hr)
  hi := h'.hi.trans h.hi
  lo := h'.lo.trans h.lo
  mem := h'.mem.trans h.mem
  cp0 r hr := (h'.cp0 r hr).trans (h.cp0 r hr)

theorem Same.set {c d : Core} (h : Same c d) {r : Reg} (hr : r ∈ [Reg.t0, .t1, .t2, .AT])
    (v : Mips.Word) : Same c (d.set r v) where
  get r' hr' := by
    have hNe : r' ≠ r := fun hSame => hr' (hSame ▸ hr)
    rw [Core.get_set_of_ne hNe, h.get r' hr']
  hi := Core.hi_set.trans h.hi
  lo := Core.lo_set.trans h.lo
  mem := Core.mem_set.trans h.mem
  cp0 r' hr' := (congrFun Core.cp0_set r').trans (h.cp0 r' hr')

theorem Same.setCp0 {c d : Core} (h : Same c d) {r : Cp0}
    (hr : r ∈ [Cp0.index, .entrylo, .entryhi]) (v : Mips.Word) : Same c (d.setCp0 r v) where
  get := h.get
  hi := h.hi
  lo := h.lo
  mem := h.mem
  cp0 r' hr' := by
    have hNe : r' ≠ r := fun hSame => hr' (hSame ▸ hr)
    rw [Core.cp0_setCp0_of_ne hNe, h.cp0 r' hr']

theorem Same.refl (c : Core) : Same c c where
  get _ _ := rfl
  hi := rfl
  lo := rfl
  mem := rfl
  cp0 _ _ := rfl

section Round

variable {code : Mips.Word → Option Instr} {pc : Mips.Word} {c : Core}

/-- The entry that the reset proposes. -/
def proposed (c : Core) : Core := (c.setCp0 .entrylo 0).setCp0 .entryhi (c.get .t1)

/-- The answer of `tlbp`, in the index register. -/
def probeIndex (c : Core) : Mips.Word :=
  match c.probe with
  | some i => BitVec.ofNat 32 i <<< 8
  | none => 0x80000000

theorem exec_tlbp (c : Core) : Instr.tlbp.exec c = .ok (c.setCp0 .index (probeIndex c)) := by
  unfold probeIndex
  rw [Instr.exec]
  cases c.probe <;> rfl

theorem probeIndex_nonneg : 0 ≤ (probeIndex c).toInt ↔ c.probe ≠ none := by
  unfold probeIndex
  cases h : c.probe with
  | none => decide
  | some i =>
    have hBound : (BitVec.ofNat 32 i <<< 8).toNat = i * 256 := by
      have hLt := i.isLt
      rw [BitVec.toNat_shiftLeft, BitVec.toNat_ofNat, Nat.shiftLeft_eq]
      omega
    have hInt : (BitVec.ofNat 32 i <<< 8).toInt = i * 256 := by
      have hLt := i.isLt
      rw [BitVec.toInt_eq_toNat_of_lt, hBound]
      · rfl
      · rw [hBound]
        omega
    simp only [hInt, ne_eq, reduceCtorEq, not_false_eq_true, iff_true]
    omega

/-- `TLB_Reset` looks for the page. -/
def probedCore (c : Core) : Core :=
  let i := probeIndex (proposed c)
  (((proposed c).setCp0 .index i).set .t2 i).set .t1 (c.get .t1 + 0x1000)

theorem runs_resetProbe (hCode : At code pc (resetProbe ++ [.bgez .t2 (-5), .addiu .t1 .t1 0x1000]))
    (c : Core) :
    Runs code (fetching c pc)
      (fetching (probedCore c) (if (proposed c).probe = none then pc + 24 else pc)) := by
  have hRun : run resetProbe c = .ok (((proposed c).setCp0 .index (probeIndex (proposed c))).set .t2
      (probeIndex (proposed c))) := by
    have hTlbp := exec_tlbp (proposed c)
    calc
      run resetProbe c = run [.tlbp, .mfc0 .t2 .index] (proposed c) := rfl
      _ = run [.mfc0 .t2 .index] ((proposed c).setCp0 .index (probeIndex (proposed c))) :=
        run_cons hTlbp
      _ = _ := rfl
  have hJump := runs_jump hCode rfl (by decide) (by decide) hRun rfl
  have hTarget : (Instr.jump (pc + 16) (((proposed c).setCp0 .index
      (probeIndex (proposed c))).set .t2 (probeIndex (proposed c))) (.bgez .t2 (-5))).getD
        (pc + 16 + 8) = if (proposed c).probe = none then pc + 24 else pc := by
    rw [Instr.jump, Core.get_set (by decide)]
    by_cases hProbe : (proposed c).probe = none
    · rw [if_neg (mt probeIndex_nonneg.mp (not_not_intro hProbe)), if_pos hProbe]
      exact BitVec.add_assoc ..
    · rw [if_pos (probeIndex_nonneg.mpr hProbe), if_neg hProbe]
      show pc + 16 + 4 + 4 * (-5 : BitVec 16).signExtend 32 = pc
      have hBack : 4 * (-5 : BitVec 16).signExtend 32 = -20#32 := by
        decide
      rw [hBack]
      bv_omega
  rw [← hTarget]
  exact hJump

theorem same_probedCore (c : Core) : Same c (probedCore c) :=
  ((((Same.refl c).setCp0 (by decide) _).setCp0 (by decide) _).setCp0 (by decide) _ |>.set
    (by decide) _).set (by decide) _

/-- `TLB_Reset` writes the entry. -/
def writtenCore (c : Core) : Core :=
  let c' := ((c.setCp0 .index (c.get .t0)).set .t0 (c.get .t0 + 0x100)).set .AT 0x4000
  { c' with tlb := Function.update c'.tlb c'.tlbIndex ⟨c'.cp0 .entryhi, c'.cp0 .entrylo⟩ }

theorem runs_resetWrite (hCode : At code pc (resetWrite ++ [.bne .t0 .AT (-10), .tlbwi]))
    (c : Core) :
    Runs code (fetching c pc)
      (fetching (writtenCore c) (if c.get .t0 + 0x100 = 0x4000 then pc + 20 else pc - 24)) := by
  have hRun : run resetWrite c =
      .ok (((c.setCp0 .index (c.get .t0)).set .t0 (c.get .t0 + 0x100)).set .AT 0x4000) := by
    have hStep : (0x100 : BitVec 16).signExtend 32 = 0x100 := by
      decide
    have hLast : (0 : Mips.Word) ||| (0x4000 : BitVec 16).setWidth 32 = 0x4000 := by
      decide
    rw [← hStep, ← hLast]
    rfl
  have hJump := runs_jump (d := writtenCore c) hCode rfl (by decide) (by decide) hRun rfl
  have hTarget : (Instr.jump (pc + 12) (((c.setCp0 .index (c.get .t0)).set .t0
      (c.get .t0 + 0x100)).set .AT 0x4000) (.bne .t0 .AT (-10))).getD (pc + 12 + 8) =
        if c.get .t0 + 0x100 = 0x4000 then pc + 20 else pc - 24 := by
    rw [Instr.jump, Core.get_set_of_ne (by decide), Core.get_set (by decide),
      Core.get_set (by decide)]
    by_cases hLast : c.get .t0 + 0x100 = 0x4000
    · rw [if_neg (not_not_intro hLast), if_pos hLast]
      exact BitVec.add_assoc ..
    · rw [if_pos hLast, if_neg hLast]
      show pc + 12 + 4 + 4 * (-10 : BitVec 16).signExtend 32 = pc - 24
      have hBack : 4 * (-10 : BitVec 16).signExtend 32 = -40#32 := by
        decide
      rw [hBack]
      bv_omega
  rw [← hTarget]
  exact hJump

theorem same_writtenCore (c : Core) : Same c (writtenCore c) := by
  have hSame := (((Same.refl c).setCp0 (r := .index) (by decide) (c.get .t0)).set (r := .t0)
    (by decide) (c.get .t0 + 0x100)).set (r := .AT) (by decide) 0x4000
  exact ⟨hSame.get, hSame.hi, hSame.lo, hSame.mem, hSame.cp0⟩

end Round

/-! ## The loop -/

section Loop

variable {code : Mips.Word → Option Instr} {pc : Mips.Word} {c c₀ : Core} {i n : Nat}

/-- The loop is at entry `i` and page `n`. Every page that has been passed over is one of an
entry that was there. -/
structure Looping (c₀ c : Core) (i n : Nat) : Prop where
  t0 : c.get .t0 = BitVec.ofNat 32 (0x100 * i)
  t1 : c.get .t1 = resetPage n
  written : Written c₀.tlb c.tlb i n
  budget : n + (ahead c₀.tlb i n).card ≤ i + 64
  same : Same c₀ c

theorem tlbIndex_eq {d : Core} (j : Fin 64) (h : d.cp0 .index = BitVec.ofNat 32 (0x100 * j)) :
    d.tlbIndex = j := by
  have hBound := j.isLt
  apply Fin.ext
  show ((d.cp0 .index).extractLsb' 8 6).toNat = j
  rw [h, BitVec.extractLsb'_toNat, BitVec.toNat_ofNat, Nat.shiftRight_eq_div_pow]
  omega

/-- An entry that `tlbp` finds has the page. -/
theorem page_of_probe (hLooping : Looping c₀ c i n) {j : Fin 64}
    (h : (proposed c).probe = some j) :
    (c.tlb j).hi &&& 0xfffff000#32 = resetPage n &&& 0xfffff000#32 := by
  have hFound : ((proposed c).tlb j).Matches ((proposed c).cp0 .entryhi) := by
    simpa using List.find?_some h
  have hMatches : (c.tlb j).Matches (c.get .t1) := hFound
  rw [← hLooping.t1]
  exact hMatches.1

theorem ahead_subset {i' n' : Nat} (hi : i ≤ i') (hn : n ≤ n') (hBound : n' ≤ 128)
    (tlb : Fin 64 → Entry) : ahead tlb i' n' ⊆ ahead tlb i n := by
  intro j hj
  have hPage := toNat_resetPage (hn.trans hBound)
  have hPage' := toNat_resetPage hBound
  simp only [ahead, Finset.mem_filter, Finset.mem_univ, true_and] at hj ⊢
  omega

/-- The page is there: the loop goes on with the next page. -/
theorem Looping.hit (hLooping : Looping c₀ c i n) (hi : i < 64) {j : Fin 64}
    (h : (proposed c).probe = some j) : Looping c₀ (probedCore c) i (n + 1) := by
  obtain ⟨hT0, hT1, hWritten, hBudget, hSame⟩ := hLooping
  have hPage := page_of_probe ⟨hT0, hT1, hWritten, hBudget, hSame⟩ h
  have hBound : n + 1 ≤ 128 := by
    omega
  have hNat := toNat_resetPage (n := n) (by omega)
  have hNext := toNat_resetPage hBound
  have hFound : ((c.tlb j).hi &&& 0xfffff000#32).toNat = 0x81000000 + 0x1000 * n := by
    rw [hPage, toNat_page, hNat]
    omega
  -- the entry is not one that the reset has written
  have hBehind : i ≤ j.val := by
    by_contra hBefore
    obtain ⟨m, hm, hEntry⟩ := hWritten.entries j (by omega)
    have hOther := toNat_resetPage (n := m) (by omega)
    rw [hEntry, toNat_page, hOther] at hFound
    omega
  rw [hWritten.rest j hBehind] at hFound
  have hSub := ahead_subset (le_refl i) (Nat.le_succ n) hBound c₀.tlb
  have hFewer : (ahead c₀.tlb i (n + 1)).card < (ahead c₀.tlb i n).card := by
    apply Finset.card_lt_card
    refine ⟨hSub, fun hBack => ?_⟩
    have hMem : j ∈ ahead c₀.tlb i n := by
      simp only [ahead, Finset.mem_filter, Finset.mem_univ, true_and]
      omega
    have hLater := hBack hMem
    simp only [ahead, Finset.mem_filter, Finset.mem_univ, true_and] at hLater
    omega
  constructor
  case t0 => exact hT0
  case t1 =>
    show c.get .t1 + 0x1000 = _
    rw [hT1, resetPage_succ]
  case written =>
    refine ⟨fun k hk => ?_, hWritten.grows, hWritten.rest⟩
    obtain ⟨m, hm, hEntry⟩ := hWritten.entries k hk
    exact ⟨m, by omega, hEntry⟩
  case budget => omega
  case same => exact hSame.trans (same_probedCore c)

/-- The page is not there: the entry is written. -/
theorem Looping.miss (hLooping : Looping c₀ c i n) (hi : i < 64) :
    Looping c₀ (writtenCore (probedCore c)) (i + 1) (n + 1) := by
  obtain ⟨hT0, hT1, hWritten, hBudget, hSame⟩ := hLooping
  have hBound : n + 1 ≤ 128 := by
    omega
  have hIndex : ((((probedCore c).setCp0 .index (c.get .t0)).set .t0 (c.get .t0 + 0x100)).set .AT
      0x4000).tlbIndex = ⟨i, hi⟩ := tlbIndex_eq ⟨i, hi⟩ hT0
  have hTlb : (writtenCore (probedCore c)).tlb =
      Function.update c.tlb ⟨i, hi⟩ ⟨resetPage n, 0⟩ := by
    rw [← hT1, ← hIndex]
    rfl
  have hOther : ∀ k : Fin 64, k.val ≠ i → (writtenCore (probedCore c)).tlb k = c.tlb k := by
    intro k hk
    rw [hTlb, Function.update_of_ne]
    rintro rfl
    exact hk rfl
  have hHere : ∀ k : Fin 64, k.val = i → (writtenCore (probedCore c)).tlb k = ⟨resetPage n, 0⟩ := by
    rintro k rfl
    rw [hTlb, Function.update_self]
  constructor
  case t0 =>
    show c.get .t0 + 0x100 = _
    rw [hT0]
    bv_omega
  case t1 =>
    show c.get .t1 + 0x1000 = _
    rw [hT1, resetPage_succ]
  case written =>
    constructor
    · intro k hk
      rcases Nat.lt_or_eq_of_le (Nat.le_of_lt_succ hk) with hBefore | hNow
      · obtain ⟨m, hm, hEntry⟩ := hWritten.entries k hBefore
        exact ⟨m, by omega, by rw [hOther k (by omega), hEntry]⟩
      · exact ⟨n, by omega, hHere k hNow⟩
    · intro j k hjk hk
      have hLess : j.val < k.val := hjk
      rw [hOther j (by omega)]
      rcases Nat.lt_or_eq_of_le (Nat.le_of_lt_succ hk) with hBefore | hNow
      · rw [hOther k (by omega)]
        exact hWritten.grows j k hjk hBefore
      · obtain ⟨m, hm, hEntry⟩ := hWritten.entries j (by omega)
        rw [hHere k hNow, hEntry]
        dsimp only
        rw [toNat_resetPage (n := m) (by omega), toNat_resetPage (n := n) (by omega)]
        omega
    · intro k hk
      rw [hOther k (by omega), hWritten.rest k (by omega)]
  case budget =>
    have hSub : (ahead c₀.tlb (i + 1) (n + 1)).card ≤ (ahead c₀.tlb i n).card :=
      Finset.card_le_card (ahead_subset (Nat.le_succ i) (Nat.le_succ n) hBound c₀.tlb)
    omega
  case same => exact (hSame.trans (same_probedCore c)).trans (same_writtenCore _)

/-- **The loop ends.** No page is tried twice, and no more are passed over than there are
entries. -/
theorem runs_loop (hProbe : At code pc (resetProbe ++ [.bgez .t2 (-5), .addiu .t1 .t1 0x1000]))
    (hWrite : At code (pc + 24) (resetWrite ++ [.bne .t0 .AT (-10), .tlbwi])) {rounds : Nat}
    (hRounds : 128 - n = rounds) (hi : i < 64) (hLooping : Looping c₀ c i n) :
    ∃ d m, Runs code (fetching c pc) (fetching d (pc + 44)) ∧ Looping c₀ d 64 m := by
  have hBudget := hLooping.budget
  induction rounds generalizing c i n with
  | zero => omega
  | succ rounds ih =>
    have hRuns := runs_resetProbe hProbe c
    cases hFound : (proposed c).probe with
    | some j =>
      rw [if_neg (by simp [hFound])] at hRuns
      have hNext := hLooping.hit hi hFound
      obtain ⟨d, m, hRest, hDone⟩ := ih (by omega) hi hNext hNext.budget
      exact ⟨d, m, hRuns.trans hRest, hDone⟩
    | none =>
      rw [if_pos hFound] at hRuns
      have hNext := hLooping.miss hi
      have hStep := runs_resetWrite hWrite (probedCore c)
      have hT0 : (probedCore c).get .t0 = BitVec.ofNat 32 (0x100 * i) := hLooping.t0
      have hLast : (probedCore c).get .t0 + 0x100 = 0x4000 ↔ i + 1 = 64 := by
        rw [hT0]
        constructor
        · intro h
          bv_omega
        · intro h
          bv_omega
      have hExit : pc + 24 + 20 = pc + 44 := BitVec.add_assoc ..
      have hBack : pc + 24 - 24 = pc := BitVec.add_sub_cancel ..
      by_cases hEnd : i + 1 = 64
      · rw [if_pos (hLast.mpr hEnd), hExit] at hStep
        exact ⟨_, n + 1, hRuns.trans hStep, hEnd ▸ hNext⟩
      · rw [if_neg (mt hLast.mp hEnd), hBack] at hStep
        obtain ⟨d, m, hRest, hDone⟩ := ih (by omega) (by omega) hNext hNext.budget
        exact ⟨d, m, (hRuns.trans hStep).trans hRest, hDone⟩

/-- The entries of a TLB that has been written to its end. -/
theorem Looping.entry_range {m : Nat} (h : Looping c₀ c 64 m) (j : Fin 64) :
    (c.tlb j).lo = 0 ∧ 0x81000000 ≤ (c.tlb j).hi.toNat ∧ (c.tlb j).hi.toNat < 0x81080000 := by
  have hBudget := h.budget
  obtain ⟨k, hk, hEntry⟩ := h.written.entries j j.isLt
  have hPage := toNat_resetPage (n := k) (by omega)
  rw [hEntry]
  dsimp only
  refine ⟨rfl, ?_, ?_⟩
  all_goals omega

/-- From the call to the return. -/
theorem runs_tlbReset (hCode : At code pc tlbReset) (c : Core) :
    ∃ d m, Runs code (fetching c pc) (fetching d (c.get .ra)) ∧ Looping c d 64 m := by
  obtain ⟨hFront, hReturn⟩ := at_append.mp hCode
  obtain ⟨hFront', hWrite⟩ := at_append.mp hFront
  obtain ⟨hStart, hProbe⟩ := at_append.mp hFront'
  have hWrite' : At code (pc + 8 + 24) (resetWrite ++ [.bne .t0 .AT (-10), .tlbwi]) := by
    rw [BitVec.add_assoc]
    exact hWrite
  have hReturn' : At code (pc + 8 + 44) ([] ++ [.jr .ra, .nop]) := by
    rw [BitVec.add_assoc]
    exact hReturn
  have hFirst : run [.addiu .t0 .zero 0, .lui .t1 0x8100] c =
      .ok ((c.set .t0 (BitVec.ofNat 32 (0x100 * 0))).set .t1 (resetPage 0)) := by
    rfl
  have hRunsFirst := runs_straight hStart (by decide) (by decide) hFirst
  have hLooping : Looping c ((c.set .t0 (BitVec.ofNat 32 (0x100 * 0))).set .t1 (resetPage 0))
      0 0 := by
    constructor
    case t0 => rfl
    case t1 => rfl
    case written => exact ⟨fun j hj => absurd hj (by omega), fun j k _ hk => absurd hk (by omega),
      fun j _ => rfl⟩
    case budget =>
      have hAll := Finset.card_filter_le Finset.univ fun j : Fin 64 =>
        0 ≤ j.val ∧ (resetPage 0).toNat ≤ ((c.tlb j).hi &&& 0xfffff000#32).toNat
      rw [Finset.card_univ, Fintype.card_fin] at hAll
      show 0 + (Finset.filter _ _).card ≤ 0 + 64
      omega
    case same => exact ((Same.refl c).set (by decide) _).set (by decide) _
  obtain ⟨d, m, hLoop, hDone⟩ := runs_loop hProbe hWrite' rfl (by decide) hLooping
  have hBack := runs_jump (c := d) (d := d) hReturn' rfl (by decide) (by decide) rfl rfl
  have hRa : d.get .ra = c.get .ra := hDone.same.get .ra (by decide)
  rw [← hRa]
  exact ⟨d, m, (hRunsFirst.trans hLoop).trans hBack, hDone⟩

/-- **`TLB_Reset`.** Whatever is in the TLB, it ends with 64 invalid entries for different pages
from 0x81000000 on, and returns with memory and all other registers as they were. -/
theorem tlbReset_resets (hCode : At code pc tlbReset) (c : Core) :
    ∃ d, Runs code (fetching c pc) (fetching d (c.get .ra)) ∧
      (∀ j, (d.tlb j).lo = 0 ∧ 0x81000000 ≤ (d.tlb j).hi.toNat ∧ (d.tlb j).hi.toNat < 0x81080000) ∧
      (∀ j k, j < k → (d.tlb j).hi.toNat < (d.tlb k).hi.toNat) ∧ Same c d := by
  obtain ⟨d, m, hRuns, hDone⟩ := runs_tlbReset hCode c
  exact ⟨d, hRuns, hDone.entry_range, fun j k hjk => hDone.written.grows j k hjk k.isLt, hDone.same⟩

/-- A TLB that is full of one page that the reset tries. -/
def sampleCore : Core where
  regs r := if r = .ra then 0x80005000 else 0
  hi := 0
  lo := 0
  mem _ := 0
  cp0 _ := 0
  tlb _ := ⟨0x81000000, 0⟩

theorem tlbReset_resets_sample : ∃ d,
    Runs (layout [(0x80001000, tlbReset)]) (fetching sampleCore 0x80001000)
      (fetching d 0x80005000) ∧ (d.tlb 0).lo = 0 ∧ (d.tlb 0).hi.toNat < (d.tlb 63).hi.toNat := by
  have hCode : At (layout [(0x80001000, tlbReset)]) 0x80001000 tlbReset := by
    decide +kernel
  obtain ⟨d, hRuns, hEntries, hGrows, -⟩ := tlbReset_resets hCode sampleCore
  exact ⟨d, hRuns, (hEntries 0).1, hGrows 0 63 (by decide)⟩

end Loop

/-! ## Calls -/

/-- Where the linker puts the functions. -/
structure Symbols where
  tlbWrite : Mips.Word
  tlbRead : Mips.Word
  tlbProbe : Mips.Word

structure Linked (code : Mips.Word → Option Instr) (sym : Symbols) : Prop where
  tlbWrite : At code sym.tlbWrite tlbWrite
  tlbRead : At code sym.tlbRead tlbRead
  tlbProbe : At code sym.tlbProbe tlbProbe

/-- A call with its arguments. `TLB_Read` is given the addresses of two words. -/
inductive Call where
  | write (e : Entry) (i : Fin 64)
  | read (i : Fin 64) (ehi elo : Mips.Word)
  | probe (e : Entry)

namespace Call

def address (sym : Symbols) : Call → Mips.Word
  | write .. => sym.tlbWrite
  | read .. => sym.tlbRead
  | probe .. => sym.tlbProbe

/-- The arguments are in the registers. -/
def Passed (c : Core) : Call → Prop
  | write e i => c.get .a0 = e.hi ∧ c.get .a1 = e.lo ∧ c.get .a2 = BitVec.ofNat 32 i
  | read i ehi elo => c.get .a0 = ehi ∧ c.get .a1 = elo ∧ c.get .a2 = BitVec.ofNat 32 i ∧
      Direct ehi ∧ Direct elo ∧ ehi ≠ elo
  | probe e => c.get .a0 = e.hi ∧ c.get .a1 = e.lo

/-- The array after a call. -/
def apply (tlb : Fin 64 → Entry) : Call → Fin 64 → Entry
  | write e i => Function.update tlb i e
  | read .. | probe _ => tlb

/-- The first entry of the array for the page. -/
def search (tlb : Fin 64 → Entry) (hi : Mips.Word) : Option (Fin 64) :=
  (List.finRange 64).find? fun i => (tlb i).Matches hi

/-- What a call on the array answers. -/
def answer (tlb : Fin 64 → Entry) : Call → List Mips.Word
  | write .. => []
  | read i _ _ => [(tlb i).hi, (tlb i).lo]
  | probe e => [((search tlb e.hi).map fun i => BitVec.ofNat 32 i).getD (-1)]

/-- What the caller finds when the function has returned. -/
def observe (d : Core) : Call → List Mips.Word
  | write .. => []
  | read _ ehi elo => [d.mem ehi, d.mem elo]
  | probe _ => [d.get .v0]

end Call

section Calls

variable {code : Mips.Word → Option Instr} {sym : Symbols} {pc : Mips.Word} {c : Core}

/-- The index that is passed is in the index register. -/
def indexed (c : Core) : Core := (c.set .t0 (c.get .a2 <<< 8)).setCp0 .index (c.get .a2 <<< 8)

theorem tlbIndex_indexed (j : Fin 64) (h : c.get .a2 = BitVec.ofNat 32 j) :
    (indexed c).tlbIndex = j := by
  apply tlbIndex_eq
  show c.get .a2 <<< 8 = _
  have hBound := j.isLt
  apply BitVec.eq_of_toNat_eq
  rw [h, BitVec.toNat_shiftLeft, BitVec.toNat_ofNat, BitVec.toNat_ofNat, Nat.shiftLeft_eq]
  omega

/-- The entry that is passed is in the registers of the coprocessor. -/
def passedEntry (c : Core) : Core := (c.setCp0 .entryhi (c.get .a0)).setCp0 .entrylo (c.get .a1)

/-- Behind `TLB_Write`. -/
def writeResult (c : Core) : Core :=
  let c := indexed (passedEntry c)
  { c with tlb := Function.update c.tlb c.tlbIndex ⟨c.cp0 .entryhi, c.cp0 .entrylo⟩ }

theorem runs_tlbWrite (hCode : At code pc tlbWrite) (c : Core) :
    Runs code (fetching c pc) (fetching (writeResult c) (c.get .ra)) := by
  have hRun : run [.mtc0 .a0 .entryhi, .mtc0 .a1 .entrylo, .sll .t0 .a2 8, .mtc0 .t0 .index,
      .tlbwi] c = .ok (writeResult c) := rfl
  have hRuns := runs_jump hCode rfl (by decide) (by decide) hRun rfl
  exact hRuns

/-- `TLB_Read` has the entry in two registers. -/
def readEntry (c : Core) : Core :=
  let e := c.tlb (indexed c).tlbIndex
  (((indexed c).setCp0 .entryhi e.hi).setCp0 .entrylo e.lo).set .t0 e.hi |>.set .t1 e.lo

/-- Behind `TLB_Read`. -/
def readResult (c : Core) : Core :=
  let e := c.tlb (indexed c).tlbIndex
  let d := (readEntry c).setMem (Function.update c.mem (c.get .a0) e.hi)
  d.setMem (Function.update d.mem (c.get .a1) e.lo)

theorem runs_tlbRead (hCode : At code pc tlbRead) (hHi : Direct (c.get .a0))
    (hLo : Direct (c.get .a1)) :
    Runs code (fetching c pc) (fetching (readResult c) (c.get .ra)) := by
  have hZero : ∀ a : Mips.Word, a + (0 : BitVec 16).signExtend 32 = a := BitVec.add_zero
  have hSw : ∀ (d : Core) (r base : Reg), Direct (d.get base) → (Instr.sw r 0 base).exec d =
      .ok (d.setMem (Function.update d.mem (d.get base) (d.get r))) := by
    intro d r base hDirect
    rw [exec_sw, hZero]
    rwa [hZero]
  have hFirst := hSw (readEntry c) .t0 .a0 hHi
  have hSecond := hSw ((readEntry c).setMem (Function.update c.mem (c.get .a0)
    (c.tlb (indexed c).tlbIndex).hi)) .t1 .a1 hLo
  have hRun : run [.sll .t0 .a2 8, .mtc0 .t0 .index, .tlbr, .mfc0 .t0 .entryhi, .mfc0 .t1 .entrylo,
      .sw .t0 0 .a0, .sw .t1 0 .a1] c = .ok (readResult c) := by
    calc
      _ = run [.sw .t0 0 .a0, .sw .t1 0 .a1] (readEntry c) := rfl
      _ = run [.sw .t1 0 .a1] ((readEntry c).setMem (Function.update c.mem (c.get .a0)
          (c.tlb (indexed c).tlbIndex).hi)) := run_cons hFirst
      _ = .ok (readResult c) := run_cons hSecond
  have hRuns := runs_jump hCode rfl (by decide) (by decide) hRun rfl
  exact hRuns

/-- Behind `TLB_Probe`. -/
def probeResult (c : Core) : Core :=
  let i := probeIndex (passedEntry c)
  let c := ((passedEntry c).setCp0 .index i).set .t0 i
  if 0 ≤ i.toInt then (c.set .t1 (i &&& 0x3f00)).set .v0 ((i &&& 0x3f00).sshiftRight 8)
  else c.set .v0 (-1)

theorem runs_tlbProbe (hCode : At code pc tlbProbe) (c : Core) :
    Runs code (fetching c pc) (fetching (probeResult c) (c.get .ra)) := by
  obtain ⟨hFront, hFound⟩ := at_append.mp hCode
  obtain ⟨hSearch, hNone⟩ := at_append.mp hFront
  generalize hIndex : probeIndex (passedEntry c) = i
  have hRun : run [.mtc0 .a0 .entryhi, .mtc0 .a1 .entrylo, .tlbp, .mfc0 .t0 .index] c =
      .ok (((passedEntry c).setCp0 .index i).set .t0 i) := by
    rw [← hIndex, run_cons rfl, run_cons rfl]
    exact run_cons (exec_tlbp (passedEntry c))
  have hJump := runs_jump hSearch rfl (by decide) (by decide) hRun rfl
  unfold probeResult
  rw [hIndex]
  dsimp only
  by_cases hThere : 0 ≤ i.toInt
  · have hTarget : (Instr.jump (pc + 16) (((passedEntry c).setCp0 .index i).set .t0 i)
        (.bgez .t0 4)).getD (pc + 16 + 8) = pc + 36 := by
      rw [Instr.jump, Core.get_set (by decide), if_pos hThere]
      show pc + 16 + 4 + 4 * (4 : BitVec 16).signExtend 32 = pc + 36
      have hForward : 4 * (4 : BitVec 16).signExtend 32 = 16#32 := by
        decide
      rw [hForward]
      bv_omega
    have hMask : (0x3f00 : BitVec 16).setWidth 32 = 0x3f00#32 := by
      decide
    have hAnd : run [.andi .t1 .t0 0x3f00] (((passedEntry c).setCp0 .index i).set .t0 i) =
        .ok ((((passedEntry c).setCp0 .index i).set .t0 i).set .t1 (i &&& 0x3f00)) := by
      show _ = Except.ok ((((passedEntry c).setCp0 .index i).set .t0 i).set .t1 (i &&& 0x3f00#32))
      rw [← hMask]
      rfl
    have hReturn := runs_jump hFound rfl (by decide) (by decide) hAnd rfl
    have hBranch : Runs code (fetching c pc)
        (fetching (((passedEntry c).setCp0 .index i).set .t0 i) (pc + 36)) := by
      rw [← hTarget]
      exact hJump
    rw [if_pos hThere]
    exact hBranch.trans hReturn
  · have hTarget : (Instr.jump (pc + 16) (((passedEntry c).setCp0 .index i).set .t0 i)
        (.bgez .t0 4)).getD (pc + 16 + 8) = pc + 24 := by
      rw [Instr.jump, Core.get_set (by decide), if_neg hThere]
      exact BitVec.add_assoc ..
    have hMinus : run [.addi .v0 .zero (-1)] (((passedEntry c).setCp0 .index i).set .t0 i) =
        .ok ((((passedEntry c).setCp0 .index i).set .t0 i).set .v0 (-1)) := by
      have hImm : (-1 : BitVec 16).signExtend 32 = -1#32 := by
        decide
      have hFits : (0 : Mips.Word).saddOverflow (-1#32) = false := by
        decide
      have hSum : (0 : Mips.Word) + -1#32 = -1 := by
        decide
      have hExec : (Instr.addi .v0 .zero (-1)).exec (((passedEntry c).setCp0 .index i).set .t0 i) =
          .ok ((((passedEntry c).setCp0 .index i).set .t0 i).set .v0 (-1)) := by
        rw [Instr.exec, Core.setSum, hImm, Core.get_zero, hFits, hSum]
        rfl
      rw [run_cons hExec]
      rfl
    have hReturn := runs_jump hNone rfl (by decide) (by decide) hMinus rfl
    have hBranch : Runs code (fetching c pc)
        (fetching (((passedEntry c).setCp0 .index i).set .t0 i) (pc + 24)) := by
      rw [← hTarget]
      exact hJump
    rw [if_neg hThere]
    exact hBranch.trans hReturn

/-- Where a function returns, with what it returns. -/
def Call.result (c : Core) : Call → Core
  | write .. => writeResult c
  | read .. => readResult c
  | probe _ => probeResult c

theorem runs_call (hLinked : Linked code sym) {call : Call} (hPassed : call.Passed c) :
    Runs code (fetching c (call.address sym)) (fetching (call.result c) (c.get .ra)) := by
  cases call with
  | write e i => exact runs_tlbWrite hLinked.tlbWrite c
  | read i ehi elo =>
    obtain ⟨rfl, rfl, -, hHi, hLo, -⟩ := hPassed
    exact runs_tlbRead hLinked.tlbRead hHi hLo
  | probe e => exact runs_tlbProbe hLinked.tlbProbe c

/-! ## The array -/

theorem tlb_result {call : Call} (hPassed : call.Passed c) :
    (call.result c).tlb = call.apply c.tlb := by
  cases call with
  | write e i =>
    obtain ⟨hHi, hLo, hIndex⟩ := hPassed
    have hSlot : (indexed (passedEntry c)).tlbIndex = i := tlbIndex_indexed i hIndex
    show Function.update c.tlb (indexed (passedEntry c)).tlbIndex ⟨c.get .a0, c.get .a1⟩ = _
    rw [hSlot, hHi, hLo]
    rfl
  | read => rfl
  | probe e =>
    show (probeResult c).tlb = c.tlb
    unfold probeResult
    dsimp only
    split <;> rfl

/-- What `TLB_Probe` makes of the index register. -/
theorem probe_answer : ∀ i : Fin 64,
    ((BitVec.ofNat 32 i <<< 8) &&& 0x3f00#32).sshiftRight 8 = BitVec.ofNat 32 i := by
  decide

theorem probeResult_v0 (c : Core) : (probeResult c).get .v0 =
    ((passedEntry c).probe.map fun i => BitVec.ofNat 32 i).getD (-1) := by
  have hSign := probeIndex_nonneg (c := passedEntry c)
  unfold probeResult
  dsimp only
  cases hFound : (passedEntry c).probe with
  | none =>
    rw [if_neg (mt hSign.mp (not_not_intro hFound))]
    rfl
  | some i =>
    have hIndex : probeIndex (passedEntry c) = BitVec.ofNat 32 i <<< 8 := by
      unfold probeIndex
      rw [hFound]
    rw [if_pos (hSign.mpr (by simp [hFound])), Core.get_set (by decide), hIndex]
    exact probe_answer i

theorem observe_result {call : Call} (hPassed : call.Passed c) :
    call.observe (call.result c) = call.answer c.tlb := by
  cases call with
  | write => rfl
  | read i ehi elo =>
    obtain ⟨rfl, rfl, hIndex, -, -, hApart⟩ := hPassed
    have hSlot := tlbIndex_indexed i hIndex
    have hHi : (readResult c).mem (c.get .a0) = (c.tlb (indexed c).tlbIndex).hi :=
      (Function.update_of_ne hApart ..).trans (Function.update_self ..)
    have hLo : (readResult c).mem (c.get .a1) = (c.tlb (indexed c).tlbIndex).lo :=
      Function.update_self ..
    show [(readResult c).mem _, (readResult c).mem _] = [(c.tlb i).hi, (c.tlb i).lo]
    rw [hHi, hLo, hSlot]
  | probe e =>
    have hSearch : (passedEntry c).probe = Call.search c.tlb e.hi := by
      rw [← hPassed.1]
      rfl
    show [(probeResult c).get .v0] = _
    rw [probeResult_v0, hSearch]
    rfl

/-- A function has been called on the TLB that `c` has. Meanwhile there may have been other code. -/
def Called (c : Core) (l : Call × List Mips.Word) (d : Core) : Prop :=
  ∃ e : Core, e.tlb = c.tlb ∧ l.1.Passed e ∧ d = l.1.result e ∧ l.2 = l.1.observe d

/-- A call on an array. -/
def ArrayStep (tlb : Fin 64 → Entry) (l : Call × List Mips.Word) (tlb' : Fin 64 → Entry) : Prop :=
  tlb' = l.1.apply tlb ∧ l.2 = l.1.answer tlb

theorem run_arrayStep {d : Core} {tr : List (Call × List Mips.Word)} (h : Run Called c tr d) :
    Run ArrayStep c.tlb tr d.tlb := by
  refine (h.simulate (I := fun _ => True) (f := Core.tlb) trivial ?_).2
  rintro t ⟨call, words⟩ u - ⟨e, hSame, hPassed, rfl, hWords⟩
  refine ⟨trivial, ?_, ?_⟩
  · rw [tlb_result hPassed, hSame]
  · rw [hWords, observe_result hPassed, hSame]

/-- **The functions of the TLB.** Every call returns, and in whatever order the functions are
called, they write, read and search an array of 64 entries. -/
theorem tlb_calls (hLinked : Linked code sym) :
    (∀ (c : Core) (call : Call), call.Passed c →
      Runs code (fetching c (call.address sym)) (fetching (call.result c) (c.get .ra))) ∧
    ∀ {c d tr}, Run Called c tr d → Run ArrayStep c.tlb tr d.tlb :=
  ⟨fun _ _ hPassed => runs_call hLinked hPassed, run_arrayStep⟩

def sampleSymbols : Symbols where
  tlbWrite := 0x80001000
  tlbRead := 0x80001100
  tlbProbe := 0x80001200

def sampleCode : Mips.Word → Option Instr := layout [
  (0x80001000, tlbWrite),
  (0x80001100, tlbRead),
  (0x80001200, tlbProbe)]

theorem linked_sample : Linked sampleCode sampleSymbols where
  tlbWrite := by decide +kernel
  tlbRead := by decide +kernel
  tlbProbe := by decide +kernel

/-- The processor at a call of `TLB_Write` or `TLB_Probe` for the page of `sampleCore`. -/
def samplePassed : Core := ((sampleCore.set .a0 0x81000000).set .a1 0x200).set .a2 5

theorem tlb_calls_sample :
    Runs sampleCode (fetching samplePassed 0x80001000)
        (fetching (writeResult samplePassed) 0x80005000) ∧
      Run ArrayStep sampleCore.tlb [(.probe ⟨0x81000000, 0x200⟩, [0])] sampleCore.tlb := by
  obtain ⟨hReturns, hArray⟩ := tlb_calls linked_sample
  have hProbe : (Call.probe ⟨0x81000000, 0x200⟩).Passed samplePassed := ⟨rfl, rfl⟩
  have hFound : (Call.probe ⟨0x81000000, 0x200⟩).observe (probeResult samplePassed) = [0] := by
    decide +kernel
  have hCalled : Called sampleCore (.probe ⟨0x81000000, 0x200⟩, [0]) (probeResult samplePassed) :=
    ⟨samplePassed, rfl, hProbe, rfl, hFound.symm⟩
  refine ⟨hReturns samplePassed (.write ⟨0x81000000, 0x200⟩ 5) ⟨rfl, rfl, rfl⟩, ?_⟩
  have hTlb : (probeResult samplePassed).tlb = sampleCore.tlb := tlb_result hProbe
  rw [← hTlb]
  exact hArray (.single hCalled)

end Calls

/-! ## The loop of `vm_fault` -/

section Fill

variable {m : MachineConstants}
  {entry : TlbEntry} {tlb tlb' : Fin 64 → Entry} {c d : Core} {i : Nat} {ok : Bool}
  {tr : List (Call × List Mips.Word)}

/-- The TLB as the list that `vm_fault` goes through. -/
def tlbList (tlb : Fin 64 → Entry) : List TlbEntry := List.ofFn fun i => ⟨(tlb i).hi, (tlb i).lo⟩

/-- The calls of the loop of `vm_fault` from entry `i` on: it reads up to the first entry that is
not valid and overwrites that. `ok` says whether there is one. -/
inductive FillLoop (m : MachineConstants) (entry : TlbEntry) :
    Nat → List (Call × List Mips.Word) → Bool → Prop
  | full : FillLoop m entry 64 [] false
  | valid {i : Fin 64} {ehi elo hi lo : Mips.Word} {tr : List (Call × List Mips.Word)} {ok : Bool}
      (hValid : lo &&& m.tlbloValid ≠ 0) (rest : FillLoop m entry (i + 1) tr ok) :
      FillLoop m entry i ((.read i ehi elo, [hi, lo]) :: tr) ok
  | free {i : Fin 64} {ehi elo hi lo : Mips.Word} (hFree : lo &&& m.tlbloValid = 0) :
      FillLoop m entry i
        [(.read i ehi elo, [hi, lo]), (.write ⟨entry.ehi, entry.elo⟩ i, [])] true

theorem length_tlbList (tlb : Fin 64 → Entry) : (tlbList tlb).length = 64 := List.length_ofFn

theorem getElem_tlbList (tlb : Fin 64 → Entry) (i : Fin 64) (h : i.val < (tlbList tlb).length) :
    (tlbList tlb)[i.val] = ⟨(tlb i).hi, (tlb i).lo⟩ := List.getElem_ofFn _

theorem drop_tlbList (tlb : Fin 64 → Entry) (i : Fin 64) :
    (tlbList tlb).drop i = ⟨(tlb i).hi, (tlb i).lo⟩ :: (tlbList tlb).drop (i + 1) := by
  have hLength : i.val < (tlbList tlb).length := by
    rw [length_tlbList]
    exact i.isLt
  rw [List.drop_eq_getElem_cons hLength, getElem_tlbList]

theorem drop_tlbList_update (e : Entry) (i : Fin 64) :
    (tlbList (Function.update tlb i e)).drop (i + 1) = (tlbList tlb).drop (i + 1) := by
  apply List.ext_getElem
  · rw [List.length_drop, List.length_drop, length_tlbList, length_tlbList]
  · intro k hk _
    rw [List.length_drop, length_tlbList] at hk
    have hOther : (⟨i + 1 + k, by omega⟩ : Fin 64) ≠ i := by
      intro hSame
      have hVal := congrArg Fin.val hSame
      dsimp only at hVal
      omega
    rw [List.getElem_drop, List.getElem_drop]
    refine (getElem_tlbList _ ⟨i + 1 + k, by omega⟩ _).trans ?_
    refine Eq.trans ?_ (getElem_tlbList _ ⟨i + 1 + k, by omega⟩ _).symm
    rw [Function.update_of_ne hOther]

/-- The loop on the array, and on the list. -/
theorem FillLoop.fillTlb (h : FillLoop m entry i tr ok) (hRun : Run ArrayStep tlb tr tlb') :
    OS161.fillTlb m entry ((tlbList tlb).drop i) =
      (if ok then some ((tlbList tlb').drop i) else none) ∧
    ∀ k : Fin 64, k < i → tlb' k = tlb k := by
  induction h generalizing tlb with
  | full =>
    obtain rfl := hRun.eq_of_nil
    rw [List.drop_eq_nil_of_le (by rw [length_tlbList])]
    exact ⟨rfl, fun _ _ => rfl⟩
  | @valid i ehi elo hi lo tr ok hValid rest ih =>
    obtain ⟨tlb₁, ⟨hRead, hAnswer⟩, hRest⟩ := hRun.uncons
    obtain rfl : tlb = tlb₁ := hRead.symm
    have hWords : [hi, lo] = [(tlb i).hi, (tlb i).lo] := hAnswer
    simp only [List.cons.injEq, and_true] at hWords
    obtain ⟨rfl, rfl⟩ := hWords
    obtain ⟨hTail, hKept⟩ := ih hRest
    have hHere : tlb' i = tlb i := hKept i (Nat.lt_succ_self i)
    constructor
    · rw [drop_tlbList, OS161.fillTlb, if_pos hValid, drop_tlbList tlb', hHere]
      refine (congrArg _ hTail).trans ?_
      cases ok <;> rfl
    · exact fun k hk => hKept k (Nat.lt_succ_of_lt hk)
  | @free i ehi elo hi lo hFree =>
    obtain ⟨tlb₁, ⟨hRead, hAnswer⟩, hRest⟩ := hRun.uncons
    obtain rfl : tlb = tlb₁ := hRead.symm
    obtain ⟨tlb₂, ⟨rfl, -⟩, hNone⟩ := hRest.uncons
    obtain rfl := hNone.eq_of_nil
    have hWords : [hi, lo] = [(tlb i).hi, (tlb i).lo] := hAnswer
    simp only [List.cons.injEq, and_true] at hWords
    obtain ⟨rfl, rfl⟩ := hWords
    constructor
    · rw [drop_tlbList, OS161.fillTlb, if_neg (not_not_intro hFree), if_pos rfl, drop_tlbList]
      show _ = some (TlbEntry.mk (Function.update tlb i _ i).hi (Function.update tlb i _ i).lo ::
        (tlbList (Function.update tlb i _)).drop (i + 1))
      rw [Function.update_self, drop_tlbList_update]
    · intro k hk
      exact Function.update_of_ne (Fin.ne_of_lt hk) ..

end Fill

end Windborne.OS161.Tlb
