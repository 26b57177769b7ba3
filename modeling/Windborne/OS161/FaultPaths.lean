import Windborne.OS161.DefineRegion
import Windborne.OS161.TlbFreshness

/-!
# The paths through `vm_fault`

Every return should put the interrupt level back, only a return of 0 should touch the TLB, and
then the new entry should map the page into the block of the first region that contains it. The
exit without an address space leaves interrupts off. Whether a page lies in a region is decided
with the end of the region modulo `2 ^ 32`, so a region that runs past `2 ^ 32` may be passed
over.
-/

namespace Windborne.OS161

open Library

/-- The constants of the machine headers that matter: two flags of a TLB entry beside the frame,
and a user stack of whole pages. -/
structure TlbHeader (m : MachineConstants) : Prop where
  valid : m.tlbloValid ≠ 0
  dirty : m.tlbloDirty ≠ 0
  flags : (m.tlbloDirty ||| m.tlbloValid) &&& pageFrame = 0
  userstack : m.userstack &&& pageFrame = m.userstack
  room : 49152 ≤ m.userstack.toNat

namespace AddrSpace

/-- The test of `vm_fault` for a region. -/
def InRange (m : MachineConstants) (as : AddrSpace) (page : Word) (i : Region) : Prop :=
  page ≥ as.vbase m i ∧ page < as.vbase m i + as.npages i * pageSize

instance (m : MachineConstants) (as : AddrSpace) (page : Word) :
    DecidablePred (as.InRange m page) := fun _ => inferInstanceAs (Decidable (_ ∧ _))

/-- The page is one of the region. -/
def Contains (m : MachineConstants) (as : AddrSpace) (page : Word) (i : Region) : Prop :=
  (as.vbase m i).toNat ≤ page.toNat ∧
    page.toNat < (as.vbase m i).toNat + (as.npages i).toNat * 4096

instance (m : MachineConstants) (as : AddrSpace) (page : Word) :
    DecidablePred (as.Contains m page) := fun _ => inferInstanceAs (Decidable (_ ∧ _))

def firstInRange (m : MachineConstants) (as : AddrSpace) (page : Word) : Option Region :=
  [.one, .two, .stack].find? (as.InRange m page ·)

def firstContaining (m : MachineConstants) (as : AddrSpace) (page : Word) : Option Region :=
  [.one, .two, .stack].find? (as.Contains m page ·)

/-- The address at the offset of the page in the block of a region. -/
def place (m : MachineConstants) (as : AddrSpace) (page : Word) (i : Region) : Nat :=
  (as.pbase i).toNat + (page.toNat - (as.vbase m i).toNat)

end AddrSpace

/-- The lowest invalid slot of the TLB. -/
structure FirstInvalid (m : MachineConstants) (tlb : List TlbEntry) (k : Nat) : Prop where
  invalid : ∃ entry, tlb[k]? = some entry ∧ ¬entry.Valid m
  first : ∀ j entry, j < k → tlb[j]? = some entry → entry.Valid m

/-- A valid writable entry for the page, with its frame in the first region that contains it. -/
structure Maps (m : MachineConstants) (as : AddrSpace) (page : Word) (entry : TlbEntry) :
    Prop where
  valid : entry.Valid m
  writable : entry.elo &&& m.tlbloDirty ≠ 0
  ehi : entry.ehi = page
  frame : ∃ i, as.firstContaining m page = some i ∧
    (entry.elo &&& pageFrame).toNat = as.place m page i

/-- What every return of `vm_fault` should leave behind. -/
structure LeavesConsistent (m : MachineConstants) (cpu : Cpu) (as : Option AddrSpace) (page : Word)
    (errno : Errno) (cpu' : Cpu) : Prop where
  spl : cpu'.curspl = cpu.curspl
  failed : errno ≠ .ok → cpu'.tlb = cpu.tlb
  mapped : errno = .ok → ∃ a ∈ as, ∃ k entry, FirstInvalid m cpu.tlb k ∧
    cpu'.tlb = cpu.tlb.set k entry ∧ Maps m a page entry

/-- No region that runs past `2 ^ 32` gets in the way of the page: the first region whose test it
passes has it where the first region that contains it has it. -/
def Straight (m : MachineConstants) (as : AddrSpace) (page : Word) : Prop :=
  ∀ i j, as.firstInRange m page = some i → as.firstContaining m page = some j →
    as.pbase i - as.vbase m i = as.pbase j - as.vbase m j ∧ as.place m page j < 2 ^ 32

/-- The condition: interrupts are off already when there is no address space, and the page is
straight when it can be entered. -/
structure FaultSafe (m : MachineConstants) (cpu : Cpu) (as : Option AddrSpace) (page : Word) :
    Prop where
  noSpace : as = none → cpu.curspl = m.splHigh
  straight : ∀ a ∈ as, (∃ entry ∈ cpu.tlb, ¬entry.Valid m) → Straight m a page

/-! ## The search for a slot -/

section Slots

variable {m : MachineConstants} {tlb : List TlbEntry} {entry : TlbEntry}

theorem FirstInvalid.unique {j k : Nat} (hj : FirstInvalid m tlb j) (hk : FirstInvalid m tlb k) :
    j = k := by
  obtain ⟨⟨x, hx, hxInvalid⟩, hBeforeJ⟩ := hj
  obtain ⟨⟨y, hy, hyInvalid⟩, hBeforeK⟩ := hk
  rcases Nat.lt_trichotomy j k with h | h | h
  · exact absurd (hBeforeK j x h hx) hxInvalid
  · exact h
  · exact absurd (hBeforeJ k y h hy) hyInvalid

theorem fillTlb_eq_none (h : ∀ e ∈ tlb, e.Valid m) : fillTlb m entry tlb = none := by
  induction tlb with
  | nil => rfl
  | cons e tlb ih =>
    have hHead : e.elo &&& m.tlbloValid ≠ 0 := h e List.mem_cons_self
    rw [fillTlb, if_pos hHead, ih fun e he => h e (List.mem_cons_of_mem _ he)]
    rfl

/-- The loop writes the lowest invalid slot. -/
theorem fillTlb_eq_some (h : ∃ e ∈ tlb, ¬e.Valid m) :
    ∃ k, FirstInvalid m tlb k ∧ fillTlb m entry tlb = some (tlb.set k entry) := by
  induction tlb with
  | nil =>
    obtain ⟨e, hMem, -⟩ := h
    cases hMem
  | cons e tlb ih =>
    by_cases hHead : e.elo &&& m.tlbloValid ≠ 0
    · have hRest : ∃ e ∈ tlb, ¬e.Valid m := by
        obtain ⟨e', hMem, hInvalid⟩ := h
        rcases List.mem_cons.mp hMem with rfl | hTail
        · exact absurd hHead hInvalid
        · exact ⟨e', hTail, hInvalid⟩
      obtain ⟨k, ⟨hInvalid, hFirst⟩, hFill⟩ := ih hRest
      refine ⟨k + 1, ⟨hInvalid, ?_⟩, ?_⟩
      · intro j e' hj he'
        cases j with
        | zero =>
          cases he'
          exact hHead
        | succ j => exact hFirst j e' (Nat.lt_of_succ_lt_succ hj) he'
      · rw [fillTlb, if_pos hHead, hFill]
        rfl
    · refine ⟨0, ⟨⟨e, rfl, hHead⟩, fun j _ hj => absurd hj (Nat.not_lt_zero j)⟩, ?_⟩
      rw [fillTlb, if_neg hHead]
      rfl

end Slots

/-! ## The three-way decision -/

section Decision

variable {m : MachineConstants} {as : AddrSpace} {page : Word} {i j : Region}

theorem aligned_of_toNat_mod {x : Word} (h : x.toNat % 4096 = 0) : x &&& pageFrame = x := by
  apply BitVec.eq_of_toNat_eq
  rw [toNat_and_pageFrame]
  omega

theorem aligned_vbase (hHeader : TlbHeader m) (hSet : SetUp as) (i : Region) :
    (as.vbase m i).toNat % 4096 = 0 := by
  obtain ⟨-, -, -, -, -, -, -, hVbase1, -, hVbase2, -⟩ := hSet
  cases i with
  | one => exact toNat_mod_of_aligned hVbase1
  | two => exact toNat_mod_of_aligned hVbase2
  | stack =>
    have hTop := toNat_mod_of_aligned hHeader.userstack
    have hRoom := hHeader.room
    unfold AddrSpace.vbase dumbvmStackPages pageSize
    bv_omega

theorem aligned_pbase (hSet : SetUp as) (i : Region) : (as.pbase i).toNat % 4096 = 0 := by
  obtain ⟨-, -, -, -, -, -, -, -, hPbase1, -, hPbase2, hStack⟩ := hSet
  cases i with
  | one => exact toNat_mod_of_aligned hPbase1
  | two => exact toNat_mod_of_aligned hPbase2
  | stack => exact toNat_mod_of_aligned hStack

/-- The address that `vm_fault` computes for a page in the range of a region. -/
def translated (m : MachineConstants) (as : AddrSpace) (page : Word) (i : Region) : Word :=
  page - as.vbase m i + as.pbase i

theorem aligned_translated (hHeader : TlbHeader m) (hSet : SetUp as)
    (hPage : page &&& pageFrame = page) (i : Region) :
    translated m as page i &&& pageFrame = translated m as page i := by
  apply aligned_of_toNat_mod
  have hVbase := aligned_vbase hHeader hSet i
  have hPbase := aligned_pbase hSet i
  have hMod := toNat_mod_of_aligned hPage
  unfold translated
  rw [BitVec.toNat_add, BitVec.toNat_sub]
  omega

theorem find?_regions (p : Region → Prop) [DecidablePred p] :
    [Region.one, .two, .stack].find? (p ·) =
      if p .one then some .one else if p .two then some .two
      else if p .stack then some .stack else none := by
  simp only [List.find?_cons, List.find?_nil]
  by_cases h1 : p .one
  · simp [h1]
  · by_cases h2 : p .two
    · simp [h1, h2]
    · by_cases h3 : p .stack
      · simp [h1, h2, h3]
      · simp [h1, h2, h3]

/-- The decision is for the first region in whose range the page lies. -/
theorem faultPaddr_of_setUp (m : MachineConstants) (hSet : SetUp as) (page : Word) :
    faultPaddr m as page =
      match (as.firstInRange m page).map (translated m as page) with
      | none => .ok none
      | some paddr =>
        if paddr &&& pageFrame = paddr then .ok (some paddr) else .error .assertion := by
  have hStack : (as.InRange m page .stack) ↔
      page ≥ m.userstack - dumbvmStackPages * pageSize ∧ page < m.userstack := by
    unfold AddrSpace.InRange AddrSpace.vbase AddrSpace.npages
    rw [BitVec.sub_add_cancel]
  have hOne : as.InRange m page .one ↔
      page ≥ as.vbase1 ∧ page < as.vbase1 + as.npages1 * pageSize := Iff.rfl
  have hTwo : as.InRange m page .two ↔
      page ≥ as.vbase2 ∧ page < as.vbase2 + as.npages2 * pageSize := Iff.rfl
  unfold AddrSpace.firstInRange faultPaddr
  rw [if_neg (not_not_intro hSet), find?_regions]
  dsimp only
  by_cases h1 : as.InRange m page .one
  · rw [if_pos h1, if_pos (hOne.mp h1)]
    rfl
  rw [if_neg h1, if_neg (mt hOne.mpr h1)]
  by_cases h2 : as.InRange m page .two
  · rw [if_pos h2, if_pos (hTwo.mp h2)]
    rfl
  rw [if_neg h2, if_neg (mt hTwo.mpr h2)]
  by_cases h3 : as.InRange m page .stack
  · rw [if_pos h3, if_pos (hStack.mp h3)]
    rfl
  · rw [if_neg h3, if_neg (mt hStack.mpr h3)]
    rfl

/-- The decision never fails its assertions. -/
theorem faultPaddr_eq (hHeader : TlbHeader m) (hSet : SetUp as)
    (hPage : page &&& pageFrame = page) :
    faultPaddr m as page = .ok ((as.firstInRange m page).map (translated m as page)) := by
  rw [faultPaddr_of_setUp m hSet page]
  cases as.firstInRange m page with
  | none => rfl
  | some i => exact if_pos (aligned_translated hHeader hSet hPage i)

theorem contains_of_inRange (h : as.InRange m page i) : as.Contains m page i := by
  obtain ⟨hLow, hHigh⟩ := h
  have hSize : (as.npages i * pageSize).toNat ≤ (as.npages i).toNat * 4096 := by
    unfold pageSize
    rw [BitVec.toNat_mul]
    exact Nat.mod_le _ _
  refine ⟨BitVec.le_def.mp hLow, ?_⟩
  have hEnd := BitVec.lt_def.mp hHigh
  rw [BitVec.toNat_add] at hEnd
  have hMod := Nat.mod_le ((as.vbase m i).toNat + (as.npages i * pageSize).toNat) (2 ^ 32)
  omega

theorem inRange_of_firstInRange (h : as.firstInRange m page = some i) : as.InRange m page i := by
  simpa using List.find?_some h

theorem contains_of_firstContaining (h : as.firstContaining m page = some j) :
    as.Contains m page j := by
  simpa using List.find?_some h

theorem exists_firstContaining (h : as.firstInRange m page = some i) :
    ∃ j, as.firstContaining m page = some j := by
  apply Option.isSome_iff_exists.mp
  rw [AddrSpace.firstContaining, List.find?_isSome]
  refine ⟨i, List.mem_of_find?_eq_some h, ?_⟩
  exact decide_eq_true (contains_of_inRange (inRange_of_firstInRange h))

/-- The computed address is the place of the page exactly if the distances of the two regions
agree and nothing wraps around. -/
theorem toNat_translated_iff (hContains : as.Contains m page j) :
    (translated m as page i).toNat = as.place m page j ↔
      as.pbase i - as.vbase m i = as.pbase j - as.vbase m j ∧ as.place m page j < 2 ^ 32 := by
  have hLow := hContains.1
  unfold translated AddrSpace.place
  generalize as.vbase m i = vi
  generalize as.pbase i = pi
  generalize as.vbase m j = vj at *
  generalize as.pbase j = pj
  constructor
  · intro hEq
    bv_omega
  · rintro ⟨hEq, hBound⟩
    bv_omega

/-- Without a region or a block that runs past `2 ^ 32` every page is straight. -/
theorem straight_of_ends (hHeader : TlbHeader m)
    (hEnds : ∀ i, i ≠ .stack → (as.vbase m i).toNat + (as.npages i).toNat * 4096 < 2 ^ 32)
    (hBlocks : ∀ i, (as.pbase i).toNat + (as.npages i).toNat * 4096 < 2 ^ 32) :
    Straight m as page := by
  have hSame : ∀ i, as.InRange m page i ↔ as.Contains m page i := by
    intro i
    refine ⟨contains_of_inRange, ?_⟩
    rintro ⟨hLow, hHigh⟩
    have hEnd : (as.vbase m i).toNat + (as.npages i).toNat * 4096 < 2 ^ 32 := by
      cases i with
      | one => exact hEnds .one nofun
      | two => exact hEnds .two nofun
      | stack =>
        have hRoom := hHeader.room
        have hTop := m.userstack.isLt
        unfold AddrSpace.vbase AddrSpace.npages dumbvmStackPages pageSize
        bv_omega
    refine ⟨BitVec.le_def.mpr hLow, BitVec.lt_def.mpr ?_⟩
    unfold pageSize
    rw [BitVec.toNat_add, BitVec.toNat_mul]
    have hLit : (4096 : Word).toNat = 4096 := rfl
    rw [hLit]
    omega
  intro i j hi hj
  have hFirst : as.firstInRange m page = as.firstContaining m page := by
    unfold AddrSpace.firstInRange AddrSpace.firstContaining
    simp only [hSame]
  rw [hFirst, hj] at hi
  cases hi
  refine ⟨rfl, ?_⟩
  have hContains := contains_of_firstContaining hj
  have hBlock := hBlocks i
  unfold AddrSpace.place
  obtain ⟨hLow, hHigh⟩ := hContains
  omega

end Decision

/-! ## The entry -/

section Entry

variable {m : MachineConstants} {as : AddrSpace} {page : Word}

theorem and_eq_zero_of_or {x y z : Word} (h : (x ||| y) &&& z = 0) : x &&& z = 0 ∧ y &&& z = 0 := by
  rw [BitVec.and_or_distrib_right] at h
  exact BitVec.or_eq_zero_iff.mp h

/-- The entry that `vm_fault` writes for a page in the range of a region. -/
def entryFor (m : MachineConstants) (as : AddrSpace) (page : Word) (i : Region) : TlbEntry :=
  ⟨page, translated m as page i ||| m.tlbloDirty ||| m.tlbloValid⟩

/-- The flags of an entry do not touch its frame, and the frame does not touch the flags. -/
theorem flags_of_entry (hHeader : TlbHeader m) (pa : Word) :
    (pa ||| m.tlbloDirty ||| m.tlbloValid) &&& m.tlbloValid ≠ 0 ∧
      (pa ||| m.tlbloDirty ||| m.tlbloValid) &&& m.tlbloDirty ≠ 0 ∧
      (pa ||| m.tlbloDirty ||| m.tlbloValid) &&& pageFrame = pa &&& pageFrame := by
  obtain ⟨hDirty, hValid⟩ := and_eq_zero_of_or hHeader.flags
  refine ⟨?_, ?_, ?_⟩
  · intro hZero
    have hBits := (and_eq_zero_of_or hZero).2
    rw [BitVec.and_self] at hBits
    exact hHeader.valid hBits
  · intro hZero
    have hBits := (and_eq_zero_of_or (and_eq_zero_of_or hZero).1).2
    rw [BitVec.and_self] at hBits
    exact hHeader.dirty hBits
  · rw [BitVec.and_or_distrib_right, BitVec.and_or_distrib_right, hDirty, hValid]
    exact BitVec.or_zero.trans BitVec.or_zero

/-- The entry maps the page exactly if the first range leads to the right place. -/
theorem maps_iff (hHeader : TlbHeader m) (hSet : SetUp as) (hPage : page &&& pageFrame = page)
    {i : Region} (hi : as.firstInRange m page = some i) :
    Maps m as page (entryFor m as page i) ↔ Straight m as page := by
  obtain ⟨hValid, hWritable, hFrame⟩ := flags_of_entry hHeader (translated m as page i)
  rw [aligned_translated hHeader hSet hPage] at hFrame
  obtain ⟨j, hj⟩ := exists_firstContaining hi
  have hPlace := toNat_translated_iff (i := i) (contains_of_firstContaining hj)
  constructor
  · rintro ⟨-, -, -, j', hj', hEq⟩ i' j'' hi' hj''
    rw [hi] at hi'
    cases hi'
    rw [hj] at hj' hj''
    cases hj'
    cases hj''
    replace hEq : ((translated m as page i ||| m.tlbloDirty ||| m.tlbloValid) &&&
      pageFrame).toNat = _ := hEq
    rw [hFrame] at hEq
    exact hPlace.mp hEq
  · intro hStraight
    refine ⟨hValid, hWritable, rfl, j, hj, ?_⟩
    show ((translated m as page i ||| m.tlbloDirty ||| m.tlbloValid) &&& pageFrame).toNat = _
    rw [hFrame]
    exact hPlace.mpr (hStraight i j hi hj)

end Entry

/-! ## The call -/

section Call

variable {m : MachineConstants} {cpu : Cpu} {as : AddrSpace} {va : Word} {faulttype : FaultType}

theorem vmFault_noSpace (m : MachineConstants) (cpu : Cpu)
    (hType : faulttype = .read ∨ faulttype = .write) (va : Word) :
    vmFault m cpu none faulttype va = .ok (.EFAULT, { cpu with curspl := m.splHigh }) := by
  rcases hType with rfl | rfl
  · rfl
  · rfl

/-- The three ways out with an address space. -/
theorem vmFault_cases (hHeader : TlbHeader m) (hSet : SetUp as)
    (hType : faulttype = .read ∨ faulttype = .write) (cpu : Cpu) (va : Word) :
    (vmFault m cpu (some as) faulttype va = .ok (.EFAULT, cpu) ∧
      ((∀ e ∈ cpu.tlb, e.Valid m) ∨ as.firstInRange m (va &&& pageFrame) = none)) ∨
    ∃ i k, as.firstInRange m (va &&& pageFrame) = some i ∧ FirstInvalid m cpu.tlb k ∧
      vmFault m cpu (some as) faulttype va =
        .ok (.ok, { cpu with tlb := cpu.tlb.set k (entryFor m as (va &&& pageFrame) i) }) := by
  have hPage : va &&& pageFrame &&& pageFrame = va &&& pageFrame := by
    rw [BitVec.and_assoc, BitVec.and_self]
  rw [vmFault_eq_bind m cpu as va hType, faultPaddr_eq hHeader hSet hPage, ok_bind]
  cases hRange : as.firstInRange m (va &&& pageFrame) with
  | none => exact Or.inl ⟨rfl, Or.inr rfl⟩
  | some i =>
    dsimp only [Option.map_some]
    by_cases hFull : ∀ e ∈ cpu.tlb, e.Valid m
    · rw [fillTlb_eq_none hFull]
      exact Or.inl ⟨rfl, Or.inl hFull⟩
    · have hSlot : ∃ e ∈ cpu.tlb, ¬e.Valid m := by
        simpa using hFull
      obtain ⟨k, hFirst, hFill⟩ := fillTlb_eq_some hSlot
      rw [hFill]
      exact Or.inr ⟨i, k, rfl, hFirst, rfl⟩

/-- **Faults.** `vm_fault` leaves the machine consistent exactly if it is called with an address
space or with interrupts off, and no region that runs past `2 ^ 32` gets in the way. -/
theorem vmFault_consistent_iff (hHeader : TlbHeader m) (cpu : Cpu) (space : Option AddrSpace)
    (hSet : ∀ a ∈ space, SetUp a) (hType : faulttype = .read ∨ faulttype = .write) (va : Word) :
    (∃ errno cpu', vmFault m cpu space faulttype va = .ok (errno, cpu') ∧
      LeavesConsistent m cpu space (va &&& pageFrame) errno cpu') ↔
    FaultSafe m cpu space (va &&& pageFrame) := by
  have hPage : va &&& pageFrame &&& pageFrame = va &&& pageFrame := by
    rw [BitVec.and_assoc, BitVec.and_self]
  cases space with
  | none =>
    rw [vmFault_noSpace m cpu hType va]
    constructor
    · rintro ⟨errno, cpu', hEq, hLeaves⟩
      cases hEq
      exact ⟨fun _ => hLeaves.spl.symm, fun a ha => by cases ha⟩
    · intro hSafe
      exact ⟨_, _, rfl, (hSafe.noSpace rfl).symm, fun _ => rfl, fun h => by cases h⟩
  | some as =>
    rcases vmFault_cases hHeader (hSet as rfl) hType cpu va with
      ⟨hRun, hWhy⟩ | ⟨i, k, hRange, hFirst, hRun⟩
    · rw [hRun]
      refine iff_of_true ⟨_, _, rfl, rfl, fun _ => rfl, fun h => by cases h⟩ ⟨nofun, ?_⟩
      rintro a ⟨⟩ ⟨e, hMem, hInvalid⟩ i j hi
      rcases hWhy with hFull | hNone
      · exact absurd (hFull e hMem) hInvalid
      · rw [hNone] at hi
        cases hi
    · rw [hRun]
      have hMaps := maps_iff hHeader (hSet as rfl) hPage hRange
      constructor
      · rintro ⟨errno, cpu', hEq, hLeaves⟩
        cases hEq
        refine ⟨nofun, ?_⟩
        rintro a ⟨⟩ -
        obtain ⟨_, ⟨⟩, k', entry, hFirst', hTlb, hEntry⟩ := hLeaves.mapped rfl
        cases hFirst.unique hFirst'
        obtain ⟨old, hOld, -⟩ := hFirst.invalid
        have hBound := (List.getElem?_eq_some_iff.mp hOld).1
        have hSame := congrArg (·[k]?) hTlb
        simp only [List.getElem?_set_self hBound, Option.some.injEq] at hSame
        rw [← hSame] at hEntry
        exact hMaps.mp hEntry
      · intro hSafe
        obtain ⟨e, hOld, hInvalid⟩ := hFirst.invalid
        have hStraight := hSafe.straight as rfl ⟨e, List.mem_of_getElem? hOld, hInvalid⟩
        exact ⟨_, _, rfl, rfl, fun h => absurd rfl h,
          fun _ => ⟨as, rfl, k, _, hFirst, rfl, hMaps.mpr hStraight⟩⟩

/-- The constants of a MIPS machine. -/
def mips : MachineConstants := ⟨0x80000000, 0x400, 0x200, 15⟩

theorem mips_header : TlbHeader mips where
  valid := by decide
  dirty := by decide
  flags := by decide
  userstack := by decide
  room := by decide

/-- One page at each of two addresses. -/
def twoPages : AddrSpace := ⟨0x400000, 0x1000, 1, 0x10000000, 0x2000, 1, 0x3000⟩

/-- A write to the second page fills the second slot. -/
theorem vmFault_consistent_twoPages : ∃ errno cpu',
    vmFault mips ⟨0, [⟨0, 0x200⟩, ⟨0, 0⟩]⟩ (some twoPages) .write 0x10000004 = .ok (errno, cpu') ∧
      LeavesConsistent mips ⟨0, [⟨0, 0x200⟩, ⟨0, 0⟩]⟩ (some twoPages)
        (0x10000004 &&& pageFrame) errno cpu' := by
  refine (vmFault_consistent_iff mips_header ⟨0, [⟨0, 0x200⟩, ⟨0, 0⟩]⟩ (some twoPages) ?_
    (Or.inr rfl) 0x10000004).mpr ⟨nofun, ?_⟩
  · rintro a ⟨⟩
    decide
  · rintro a ⟨⟩ -
    refine straight_of_ends mips_header ?_ ?_
    · intro i _
      cases i <;> decide
    · intro i
      cases i <;> decide

/-- Without an address space the interrupts stay off. -/
theorem vmFault_leaves_interrupts_off :
    ¬∀ (m : MachineConstants), TlbHeader m → ∀ (cpu : Cpu) (space : Option AddrSpace),
      (∀ a ∈ space, SetUp a) → ∀ (faulttype : FaultType), faulttype = .read ∨ faulttype = .write →
      ∀ va errno cpu', vmFault m cpu space faulttype va = .ok (errno, cpu') →
        LeavesConsistent m cpu space (va &&& pageFrame) errno cpu' := by
  intro hAll
  have hLeaves := hAll mips mips_header ⟨0, []⟩ none nofun .read (Or.inl rfl) 0x400000 .EFAULT
    ⟨15, []⟩ rfl
  have hSpl := hLeaves.spl
  cases hSpl

end Call

end Windborne.OS161
