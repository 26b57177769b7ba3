import Windborne.OS161.DumbVmIsolation

/-!
# Frames that `vm_fault` resolves

A page that `vm_fault` resolves lies at some offset in one region of its address space, and
its frame lies at the same offset in the block of that region. Blocks of different owners
are apart, so frames of different pages are.
-/

namespace Windborne.OS161

open Library

/-- Where the pages of a region start. -/
def AddrSpace.vbase (m : MachineConstants) (as : AddrSpace) : Region → Word
  | .one => as.vbase1
  | .two => as.vbase2
  | .stack => m.userstack - dumbvmStackPages * pageSize

/-- `vm_fault` maps the page at `va` to the frame at `pa`. -/
def Resolves (m : MachineConstants) (as : AddrSpace) (va pa : Word) : Prop :=
  va &&& pageFrame = va ∧ faultPaddr m as va = .ok (some pa)

/-- The bytes of the frame at `pa`. -/
def frame (pa : Word) : Block := ⟨pa.toNat, 4096⟩

/-- The bytes of a block of `alloc_kpages`. -/
def kblock (b : Word × Word) : Block := ⟨b.1.toNat, b.2.toNat * 4096⟩

theorem frame_within {pa : Word} {b : Block} {off : Nat} (hPa : pa.toNat = b.base + off)
    (hSize : off + 4096 ≤ b.size) : (frame pa).Within b := by
  unfold frame Block.Within
  dsimp only
  omega

/-! ## The call -/

theorem vmFault_eq_bind (m : MachineConstants) (cpu : Cpu) (as : AddrSpace)
    {faulttype : FaultType} (va : Word) (h : faulttype = .read ∨ faulttype = .write) :
    vmFault m cpu (some as) faulttype va =
      faultPaddr m as (va &&& pageFrame) >>= fun
        | none => .ok (Errno.EFAULT, cpu)
        | some paddr =>
          match fillTlb m ⟨va &&& pageFrame, paddr ||| m.tlbloDirty ||| m.tlbloValid⟩ cpu.tlb with
          | some tlb => .ok (.ok, { cpu with tlb })
          | none => .ok (.EFAULT, cpu) := by
  rcases h with rfl | rfl
  · rfl
  · rfl

/-- `vm_fault` returns 0 exactly when it writes an entry for a page that it resolves. -/
theorem vmFault_ok_iff (m : MachineConstants) (cpu cpu' : Cpu) (as : AddrSpace)
    (faulttype : FaultType) (va : Word) :
    vmFault m cpu (some as) faulttype va = .ok (.ok, cpu') ↔
      (faulttype = .read ∨ faulttype = .write) ∧ ∃ pa, Resolves m as (va &&& pageFrame) pa ∧
        ∃ tlb, fillTlb m ⟨va &&& pageFrame, pa ||| m.tlbloDirty ||| m.tlbloValid⟩ cpu.tlb =
          some tlb ∧ cpu' = { cpu with tlb } := by
  have hIdem : va &&& pageFrame &&& pageFrame = va &&& pageFrame := by
    rw [BitVec.and_assoc, BitVec.and_self]
  constructor
  · intro h
    have hType : faulttype = .read ∨ faulttype = .write := by
      cases faulttype with
      | readonly => cases h
      | read => exact Or.inl rfl
      | write => exact Or.inr rfl
      | other => cases h
    refine ⟨hType, ?_⟩
    rw [vmFault_eq_bind m cpu as va hType] at h
    obtain ⟨paddr, hPaddr, hRest⟩ := bind_eq_ok.mp h
    cases paddr with
    | none => cases hRest
    | some pa =>
      dsimp only at hRest
      split at hRest
      · rename_i tlb hFill
        cases hRest
        exact ⟨pa, ⟨hIdem, hPaddr⟩, tlb, hFill, rfl⟩
      · cases hRest
  · rintro ⟨hType, pa, ⟨-, hPaddr⟩, tlb, hFill, rfl⟩
    rw [vmFault_eq_bind m cpu as va hType, hPaddr, ok_bind]
    dsimp only
    rw [hFill]

/-! ## Frames as offsets -/

theorem toNat_mod_of_aligned {x : Word} (h : x &&& pageFrame = x) : x.toNat % 4096 = 0 := by
  have hLow : x &&& 0xfff = 0 := by
    rw [← h, BitVec.and_assoc]
    exact BitVec.and_zero
  have hNat := congrArg BitVec.toNat hLow
  rw [BitVec.toNat_and] at hNat
  rw [← Nat.and_two_pow_sub_one_eq_mod x.toNat 12]
  exact hNat

/-- A region that ends past `2 ^ 32` contains no fault address. -/
theorem offset_of_range {vbase npages pbase va pa : Word} (hLow : va ≥ vbase)
    (hHigh : va < vbase + npages * pageSize) (hRoom : pbase.toNat + npages.toNat * 4096 < 2 ^ 32)
    (hBase : pbase &&& pageFrame = pbase) (hPa : pa &&& pageFrame = pa)
    (hEq : pa = va - vbase + pbase) :
    ∃ off, va.toNat = vbase.toNat + off ∧ pa.toNat = pbase.toNat + off ∧ off % 4096 = 0 ∧
      off + 4096 ≤ npages.toNat * 4096 := by
  have hBaseMod := toNat_mod_of_aligned hBase
  have hPaMod := toNat_mod_of_aligned hPa
  have hSize : (npages * pageSize).toNat = npages.toNat * 4096 := by
    unfold pageSize
    bv_omega
  have hOff : va.toNat - vbase.toNat < npages.toNat * 4096 ∧ vbase.toNat ≤ va.toNat := by
    generalize npages * pageSize = size at *
    bv_omega
  have hSum : pa.toNat = pbase.toNat + (va.toNat - vbase.toNat) := by
    rw [hEq]
    bv_omega
  refine ⟨va.toNat - vbase.toNat, ?_, hSum, ?_, ?_⟩
  · omega
  · omega
  · omega

/-- The branches of `vm_fault`. -/
theorem Resolves.region {m : MachineConstants} {as : AddrSpace} {va pa : Word}
    (h : Resolves m as va pa) :
    pa &&& pageFrame = pa ∧ ∃ i, as.pbase i ≠ 0 ∧ as.pbase i &&& pageFrame = as.pbase i ∧
      va ≥ as.vbase m i ∧ va < as.vbase m i + as.npages i * pageSize ∧
        pa = va - as.vbase m i + as.pbase i := by
  obtain ⟨-, hFault⟩ := h
  unfold faultPaddr at hFault
  by_cases hSet : SetUp as
  case neg =>
    rw [if_pos hSet] at hFault
    cases hFault
  rw [if_neg (not_not_intro hSet)] at hFault
  obtain ⟨-, hBase1, -, -, hBase2, -, hBase3, -, hAlign1, -, hAlign2, hAlign3⟩ := hSet
  have hStack : m.userstack = m.userstack - dumbvmStackPages * pageSize +
      dumbvmStackPages * pageSize := (BitVec.sub_add_cancel _ _).symm
  dsimp only at hFault
  split at hFault
  · cases hFault
  rename_i paddr hPaddr
  by_cases hAligned : paddr &&& pageFrame = paddr
  case neg =>
    rw [if_neg hAligned] at hFault
    cases hFault
  rw [if_pos hAligned] at hFault
  cases hFault
  refine ⟨hAligned, ?_⟩
  by_cases h1 : va ≥ as.vbase1 ∧ va < as.vbase1 + as.npages1 * pageSize
  · rw [if_pos h1] at hPaddr
    cases hPaddr
    exact ⟨.one, hBase1, hAlign1, h1.1, h1.2, rfl⟩
  rw [if_neg h1] at hPaddr
  by_cases h2 : va ≥ as.vbase2 ∧ va < as.vbase2 + as.npages2 * pageSize
  · rw [if_pos h2] at hPaddr
    cases hPaddr
    exact ⟨.two, hBase2, hAlign2, h2.1, h2.2, rfl⟩
  rw [if_neg h2] at hPaddr
  by_cases h3 : va ≥ m.userstack - dumbvmStackPages * pageSize ∧ va < m.userstack
  · rw [if_pos h3] at hPaddr
    cases hPaddr
    refine ⟨.stack, hBase3, hAlign3, h3.1, ?_, rfl⟩
    show va < m.userstack - dumbvmStackPages * pageSize + dumbvmStackPages * pageSize
    rw [← hStack]
    exact h3.2
  · rw [if_neg h3] at hPaddr
    cases hPaddr

/-! ## Isolation -/

namespace VmState

variable {H : Type} [DecidableEq H] {s : VmState H} {m : MachineConstants}

omit [DecidableEq H] in
/-- The frame of a page of region `i` lies in the block of that region, at the offset of the
page in the region. -/
theorem Refines.resolves {A : Arena (Owner H)} (hA : s.Refines A) {h : H} {as : AddrSpace}
    {va pa : Word} (hAs : s.spaces h = some as) (hRes : Resolves m as va pa) :
    ∃ i b off, A.owned (.region h i) = some b ∧ va.toNat = (as.vbase m i).toNat + off ∧
      pa.toNat = b.base + off ∧ off % 4096 = 0 ∧ off + 4096 ≤ b.size := by
  obtain ⟨hAligned, i, hBase, hAlign, hLow, hHigh, hEq⟩ := hRes.region
  have hOwned : A.owned (.region h i) =
      some ⟨(as.pbase i).toNat, (as.npages i).toNat * 4096⟩ := by
    rw [hA.owned, owned_region, hAs, Option.bind_some, AddrSpace.block, if_neg hBase]
  have hRoom : (as.pbase i).toNat + (as.npages i).toNat * 4096 < 2 ^ 32 := by
    apply Nat.lt_of_le_of_lt (A.bounded _ _ hOwned)
    rw [hA.hi]
    exact s.ram.lastpaddr.isLt
  obtain ⟨off, hVa, hPa, hMod, hSize⟩ :=
    offset_of_range hLow hHigh hRoom hAlign hAligned hEq
  exact ⟨i, _, off, hOwned, hVa, hPa, hMod, hSize⟩

/-- **Isolation of physical memory.** -/
theorem frames_isolated {firstpaddr lastpaddr : Word} {mem : Contents} {tr : List (VmCall H)}
    (hRun : Run (Guarded VmStep DefinesFirst) (boot firstpaddr lastpaddr mem) tr s)
    (hNoWrap : s.NoWrap) (m : MachineConstants) :
    (∀ h h' as as' va va' pa pa', s.spaces h = some as → s.spaces h' = some as' →
      (h, va) ≠ (h', va') → Resolves m as va pa → Resolves m as' va' pa' →
        (frame pa).Apart (frame pa')) ∧
    ∀ h as va pa, s.spaces h = some as → Resolves m as va pa →
      firstpaddr.toNat ≤ pa.toNat ∧ pa.toNat + 4096 ≤ lastpaddr.toNat ∧
        ∀ b ∈ s.kblocks, (frame pa).Apart (kblock b) := by
  have hInv := inv_of_run hRun
  obtain ⟨A, hLo, hA⟩ := hInv.refined hNoWrap
  constructor
  · intro h h' as as' va va' pa pa' hAs hAs' hNe hRes hRes'
    obtain ⟨i, b, off, hOwned, hVa, hPa, hMod, hSize⟩ := hA.resolves hAs hRes
    obtain ⟨i', b', off', hOwned', hVa', hPa', hMod', hSize'⟩ := hA.resolves hAs' hRes'
    by_cases hSame : Owner.region h i = Owner.region h' i'
    · -- two pages of one region differ in their offsets
      cases hSame
      rw [hAs] at hAs'
      cases hAs'
      rw [hOwned] at hOwned'
      cases hOwned'
      have hOff : off ≠ off' := by
        intro hEq
        apply hNe
        have hNat : va.toNat = va'.toNat := by rw [hVa, hVa', hEq]
        rw [BitVec.eq_of_toNat_eq hNat]
      unfold frame Block.Apart
      dsimp only
      omega
    · exact (A.apart _ _ _ _ hSame hOwned hOwned').mono (frame_within hPa hSize)
        (frame_within hPa' hSize')
  · intro h as va pa hAs hRes
    obtain ⟨i, b, off, hOwned, -, hPa, -, hSize⟩ := hA.resolves hAs hRes
    have hInside := A.inside _ _ hOwned
    have hBounded := A.bounded _ _ hOwned
    rw [hLo] at hInside
    rw [hA.hi, hInv.lastpaddr] at hBounded
    refine ⟨by omega, by omega, ?_⟩
    intro k hk
    obtain ⟨n, hn⟩ := List.mem_iff_getElem?.mp hk
    have hKernel : A.owned (.kernel n) = some (kblock k) := by
      rw [hA.owned]
      show s.kblocks[n]?.map _ = _
      rw [hn]
      rfl
    exact (A.apart _ _ _ _ (by simp) hOwned hKernel).mono (frame_within hPa hSize)
      ⟨Nat.le_refl _, Nat.le_refl _⟩

/-- An address space is loaded and copied: the first pages of the two are apart. -/
theorem frames_isolated_copy : (frame 0x1000).Apart (frame 0xf000) := by
  have hEnd : (List.foldlM (fun s c => if DefinesFirst s c then s.call c else none)
      (boot 0x1000 0x100000 fun _ => 0)
      [.asCreate false, .asDefineRegion false 0x400000 4096,
        .asDefineRegion false 0x10000000 4096, .asPrepareLoad false, .asCopy false true,
        .allocKpages 1]).map (fun s => (s.spaces false, s.spaces true, s.ram.requests)) =
      some (some ⟨0x400000, 0x1000, 1, 0x10000000, 0x2000, 1, 0x3000⟩,
        some ⟨0x400000, 0xf000, 1, 0x10000000, 0x10000, 1, 0x11000⟩,
        [(0x1d000, 1), (0x11000, 12), (0x10000, 1), (0xf000, 1), (0x3000, 12), (0x2000, 1),
          (0x1000, 1)]) := by
    decide +kernel
  obtain ⟨s, hs, hFields⟩ := Option.map_eq_some_iff.mp hEnd
  simp only [Prod.mk.injEq] at hFields
  obtain ⟨hParent, hChild, hRequests⟩ := hFields
  have hNoWrap : s.NoWrap := by
    unfold NoWrap Fits
    rw [hRequests]
    simp
  apply (frames_isolated (Run.guarded_of_foldlM hs) hNoWrap ⟨0x80000000, 0x400, 0x200, 15⟩).1
    false true _ _ 0x400000 0x400000 _ _ hParent hChild
  · simp
  · exact ⟨rfl, rfl⟩
  · exact ⟨rfl, rfl⟩

end VmState

end Windborne.OS161
