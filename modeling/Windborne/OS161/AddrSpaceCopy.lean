import Windborne.OS161.FaultPaths
import Windborne.OS161.StealMem

/-!
# Copies of address spaces

`as_copy` takes three new blocks from the end of the memory handed out so far and moves the
contents of the three old blocks there. The copy has the same regions, so `vm_fault` decides for
the same region and the same offset; only the block is another one.
-/

namespace Windborne.OS161

open Library
open VmState (requests_getppages asPrepareLoad_cases ram_asPrepareLoad)

/-! ## The call -/

/-- `as_copy` with the answer of `kmalloc` for the new address space and what `*ret` holds. -/
def VmState.asCopyCall {H : Type} [DecidableEq H] (s : VmState H) (old : AddrSpace)
    (answer ret : Option H) : Except Panic (Errno × Option H × VmState H) :=
  match answer with
  | none => .ok (.ENOMEM, ret, s)
  | some new => do
    let (ram, mem, copy) ← asCopy s.ram s.mem old
    let t := { s with
      ram, mem, spaces := Function.update s.spaces new copy
      prepared := Function.update s.prepared new copy.isSome }
    if copy.isSome then return (.ok, some new, t) else return (.ENOMEM, ret, t)

/-- What `as_create` and the assignments in `as_copy` make of the old address space. -/
def blank (old : AddrSpace) : AddrSpace :=
  { asCreate with
    vbase1 := old.vbase1, npages1 := old.npages1, vbase2 := old.vbase2, npages2 := old.npages2 }

/-- One of the three moves. -/
def moveRegion (new old : AddrSpace) (mem : Contents) (i : Region) : Contents :=
  memmove mem (new.pbase i) (old.pbase i) (old.npages i * pageSize)

/-- The three blocks follow each other from `firstpaddr` on. -/
structure Consecutive (r : Ram) (old new : AddrSpace) : Prop where
  vbase1 : new.vbase1 = old.vbase1
  vbase2 : new.vbase2 = old.vbase2
  npages (i : Region) : new.npages i = old.npages i
  pbase (i : Region) : new.pbase i ≠ 0
  one : new.pbase1 = r.firstpaddr
  two : new.pbase2.toNat = new.pbase1.toNat + old.npages1.toNat * 4096
  stack : new.stackpbase.toNat = new.pbase2.toNat + old.npages2.toNat * 4096
  bounded : new.stackpbase.toNat + 49152 ≤ r.lastpaddr.toNat

section Load

variable {r r' : Ram} {npages pa : Word}

/-- A request that fits and is answered. -/
theorem getppages_granted (h : getppages r npages = (pa, r')) (hPa : pa ≠ 0)
    (hFits : ∀ q ∈ r'.requests, Fits q) : pa = r.firstpaddr ∧
      r'.firstpaddr.toNat = r.firstpaddr.toNat + npages.toNat * 4096 ∧
        r.firstpaddr.toNat + npages.toNat * 4096 ≤ r.lastpaddr.toNat ∧
          r'.lastpaddr = r.lastpaddr ∧ r.requests ⊆ r'.requests := by
  have hRequests := (requests_getppages h).1
  have hThis : Fits (r.firstpaddr, npages) := by
    apply hFits
    rw [hRequests]
    exact List.mem_cons_self
  unfold getppages at h
  rcases ramStealmem_cases r npages hThis with hRefused | ⟨hRoom, next, hNext, hRun⟩
  · rw [hRefused] at h
    cases h
    exact absurd rfl hPa
  · rw [hRun] at h
    cases h
    exact ⟨rfl, hNext, hRoom, rfl, List.subset_cons_self _ _⟩

variable {as as' old new : AddrSpace} {ram : Ram}

/-- A fresh address space can be loaded, unless memory runs out. -/
theorem asPrepareLoad_fresh (r : Ram) (hZero : ∀ i, as.pbase i = 0) :
    ∃ ram as' code, asPrepareLoad r as = .ok (ram, as', code) ∧
      (code = .ok → ∀ i, as'.pbase i ≠ 0) := by
  unfold asPrepareLoad
  -- nothing here depends on what a request does, and unfolding requests is slow
  obtain ⟨get, hGet⟩ : ∃ get, get = getppages := ⟨_, rfl⟩
  rw [← hGet]
  have hNone : ¬(as.pbase1 ≠ 0 ∨ as.pbase2 ≠ 0 ∨ as.stackpbase ≠ 0) := by
    rintro (h | h | h)
    · exact h (hZero .one)
    · exact h (hZero .two)
    · exact h (hZero .stack)
  rw [if_neg hNone]
  rcases hFirst : get r as.npages1 with ⟨pa1, ram1⟩
  dsimp only
  by_cases h1 : pa1 = 0
  · rw [if_pos h1]
    exact ⟨_, _, _, rfl, nofun⟩
  rw [if_neg h1]
  rcases hSecond : get ram1 as.npages2 with ⟨pa2, ram2⟩
  dsimp only
  by_cases h2 : pa2 = 0
  · rw [if_pos h2]
    exact ⟨_, _, _, rfl, nofun⟩
  rw [if_neg h2]
  rcases hThird : get ram2 dumbvmStackPages with ⟨pa3, ram3⟩
  dsimp only
  by_cases h3 : pa3 = 0
  · rw [if_pos h3]
    exact ⟨_, _, _, rfl, nofun⟩
  · rw [if_neg h3]
    refine ⟨_, _, _, rfl, fun _ i => ?_⟩
    cases i with
    | one => exact h1
    | two => exact h2
    | stack => exact h3

theorem blank_pbase (old : AddrSpace) (i : Region) : (blank old).pbase i = 0 := by
  cases i <;> rfl

/-- The two ways out of `as_copy`; it does not fail its assertions. -/
theorem asCopy_cases (r : Ram) (mem : Contents) (old : AddrSpace) :
    ∃ ram new code, asPrepareLoad r (blank old) = .ok (ram, new, code) ∧
      (asCopy r mem old = .ok (ram, mem, none) ∨
        asCopy r mem old = .ok (ram, [.one, .two, .stack].foldl (moveRegion new old) mem,
          some new) ∧ ∀ i, new.pbase i ≠ 0) := by
  obtain ⟨ram, new, code, hLoad, hPbase⟩ := asPrepareLoad_fresh r (blank_pbase old)
  refine ⟨ram, new, code, hLoad, ?_⟩
  have hCopy : asCopy r mem old = if code ≠ .ok then .ok (ram, mem, none)
      else if new.pbase1 = 0 ∨ new.pbase2 = 0 ∨ new.stackpbase = 0 then .error .assertion
      else .ok (ram, [.one, .two, .stack].foldl (moveRegion new old) mem, some new) := by
    unfold asCopy
    change (asPrepareLoad r (blank old) >>= _) = _
    rw [hLoad, ok_bind]
    simp only [List.foldl_cons, List.foldl_nil, moveRegion, AddrSpace.pbase, AddrSpace.npages,
      pure_eq_ok, throw_eq_error]
  rw [hCopy]
  by_cases hCode : code = .ok
  · have hLoaded := hPbase hCode
    rw [if_neg (not_not_intro hCode), if_neg]
    · exact Or.inr ⟨rfl, hLoaded⟩
    · rintro (h | h | h)
      · exact hLoaded .one h
      · exact hLoaded .two h
      · exact hLoaded .stack h
  · rw [if_pos hCode]
    exact Or.inl rfl

/-- The blocks of a loaded address space are consecutive. -/
theorem consecutive_of_load {code : Errno}
    (hLoad : asPrepareLoad r (blank old) = .ok (ram, new, code)) (hPbase : ∀ i, new.pbase i ≠ 0)
    (hFits : ∀ q ∈ ram.requests, Fits q) : Consecutive r old new := by
  obtain ⟨-, pa1, ram1, hFirst, hRest⟩ := asPrepareLoad_cases hLoad
  rcases hRest with ⟨-, rfl⟩ | ⟨pa2, ram2, hSecond, hRest⟩
  · exact absurd rfl (hPbase .two)
  rcases hRest with ⟨-, rfl⟩ | ⟨pa3, hThird, rfl⟩
  · exact absurd rfl (hPbase .stack)
  obtain ⟨hPa3, hNext3, hRoom3, hLast3, hSub3⟩ := getppages_granted hThird (hPbase .stack) hFits
  have hFits2 := fun q hq => hFits q (hSub3 hq)
  obtain ⟨hPa2, hNext2, hRoom2, hLast2, hSub2⟩ := getppages_granted hSecond (hPbase .two) hFits2
  have hFits1 := fun q hq => hFits2 q (hSub2 hq)
  obtain ⟨hPa1, hNext1, hRoom1, hLast1, -⟩ := getppages_granted hFirst (hPbase .one) hFits1
  refine ⟨rfl, rfl, ?_, hPbase, hPa1, ?_, ?_, ?_⟩
  · intro i
    cases i <;> rfl
  · show pa2.toNat = pa1.toNat + _
    rw [hPa2, hNext1, hPa1]
    rfl
  · show pa3.toNat = pa2.toNat + _
    rw [hPa3, hNext2, hPa2]
    rfl
  · show pa3.toNat + 49152 ≤ _
    rw [hPa3, ← hLast1, ← hLast2]
    exact hRoom3

end Load

/-! ## The moves -/

/-- The new blocks are apart from each other and from the old ones. -/
structure Separate (old new : AddrSpace) : Prop where
  newBound (i : Region) : (new.pbase i).toNat + (old.npages i).toNat * 4096 < 2 ^ 32
  oldBound (i : Region) : (old.pbase i).toNat + (old.npages i).toNat * 4096 < 2 ^ 32
  newApart (i j : Region) (h : i ≠ j) : (pagesAt (new.pbase i) (old.npages i)).Apart
    (pagesAt (new.pbase j) (old.npages j))
  oldApart (i j : Region) : (pagesAt (old.pbase i) (old.npages i)).Apart
    (pagesAt (new.pbase j) (old.npages j))

section Moves

variable {old new : AddrSpace} {r : Ram} {mem : Contents} {a : Word} {i : Region}

theorem sub_lt_iff_has {base npages : Word} (hEnd : base.toNat + npages.toNat * 4096 < 2 ^ 32)
    (a : Word) : a - base < npages * pageSize ↔ (pagesAt base npages).Has a.toNat := by
  have hSize : (npages * pageSize).toNat = npages.toNat * 4096 := by
    unfold pageSize
    bv_omega
  unfold pagesAt Block.Has
  dsimp only
  generalize npages * pageSize = size at *
  rw [← hSize] at hEnd ⊢
  constructor
  · intro hLt
    bv_omega
  · rintro ⟨hLow, hHigh⟩
    bv_omega

theorem moveRegion_inside (h : Separate old new)
    (ha : (pagesAt (new.pbase i) (old.npages i)).Has a.toNat) :
    moveRegion new old mem i a = mem (old.pbase i + (a - new.pbase i)) :=
  if_pos ((sub_lt_iff_has (h.newBound i) a).mpr ha)

theorem moveRegion_outside (h : Separate old new)
    (ha : ¬(pagesAt (new.pbase i) (old.npages i)).Has a.toNat) :
    moveRegion new old mem i a = mem a :=
  if_neg (mt (sub_lt_iff_has (h.newBound i) a).mp ha)

theorem moves_outside (h : Separate old new) {is : List Region}
    (ha : ∀ i ∈ is, ¬(pagesAt (new.pbase i) (old.npages i)).Has a.toNat) (mem : Contents) :
    is.foldl (moveRegion new old) mem a = mem a := by
  induction is generalizing mem with
  | nil => rfl
  | cons i is ih =>
    rw [List.foldl_cons, ih fun j hj => ha j (List.mem_cons_of_mem i hj)]
    exact moveRegion_outside h (ha i List.mem_cons_self)

/-- What is moved to the offset of `a` comes from the old block. -/
theorem source_has (h : Separate old new)
    (ha : (pagesAt (new.pbase i) (old.npages i)).Has a.toNat) :
    (pagesAt (old.pbase i) (old.npages i)).Has (old.pbase i + (a - new.pbase i)).toNat := by
  have hOld := h.oldBound i
  obtain ⟨hLow, hHigh⟩ := ha
  unfold pagesAt at hLow hHigh ⊢
  unfold Block.Has
  dsimp only at hLow hHigh ⊢
  generalize old.pbase i = from_ at *
  generalize new.pbase i = to_ at *
  generalize (old.npages i).toNat = n at *
  bv_omega

/-- Every block is moved from the contents before the call. -/
theorem moves_inside (h : Separate old new) {is : List Region} (hNodup : is.Nodup) (hi : i ∈ is)
    (ha : (pagesAt (new.pbase i) (old.npages i)).Has a.toNat) (mem : Contents) :
    is.foldl (moveRegion new old) mem a = mem (old.pbase i + (a - new.pbase i)) := by
  induction is generalizing mem with
  | nil => cases hi
  | cons j is ih =>
    obtain ⟨hNew, hRest⟩ := List.nodup_cons.mp hNodup
    rw [List.foldl_cons]
    by_cases hSame : i = j
    · subst hSame
      rw [moves_outside h]
      · exact moveRegion_inside h ha
      · intro k hk
        have hNe : i ≠ k := by
          rintro rfl
          exact hNew hk
        exact (h.newApart i k hNe).not_has ha
    · rw [ih hRest ((List.mem_cons.mp hi).resolve_left hSame)]
      exact moveRegion_outside h ((h.oldApart i j).not_has (source_has h ha))

/-- Consecutive new blocks behind the old ones are separate. -/
theorem Consecutive.separate (h : Consecutive r old new)
    (hOld : ∀ i, (old.pbase i).toNat + (old.npages i).toNat * 4096 ≤ r.firstpaddr.toNat) :
    Separate old new := by
  have hOne : (new.pbase .one).toNat = r.firstpaddr.toNat := congrArg BitVec.toNat h.one
  have hTwo : (new.pbase .two).toNat = (new.pbase .one).toNat + (old.npages .one).toNat * 4096 :=
    h.two
  have hStack : (new.pbase .stack).toNat =
      (new.pbase .two).toNat + (old.npages .two).toNat * 4096 := h.stack
  have hBounded : (new.pbase .stack).toNat + 49152 ≤ r.lastpaddr.toNat := h.bounded
  have hPages : (old.npages .stack).toNat = 12 := rfl
  have hLast := r.lastpaddr.isLt
  have hOldOne := hOld .one
  have hOldTwo := hOld .two
  have hOldStack := hOld .stack
  refine ⟨?_, ?_, ?_, ?_⟩
  · intro i
    cases i <;> omega
  · intro i
    cases i <;> omega
  · intro i j hNe
    unfold pagesAt Block.Apart
    dsimp only
    cases i <;> cases j <;> first | omega | exact absurd rfl hNe
  · intro i j
    unfold pagesAt Block.Apart
    dsimp only
    cases i <;> cases j <;> omega

end Moves

/-! ## What has been handed out -/

/-- A request that was answered with a block. -/
def Granted (r : Ram) (q : Word × Word) : Prop :=
  q ∈ r.requests ∧ q.1.toNat + q.2.toNat * 4096 ≤ r.lastpaddr.toNat

/-- All blocks end at or before `firstpaddr`, which is as far from a page boundary as at the
start. -/
structure Bumped (lo : Word) (r : Ram) : Prop where
  aligned : r.firstpaddr.toNat % 4096 = lo.toNat % 4096
  below : (∀ q ∈ r.requests, Fits q) → ∀ q, Granted r q →
    q.1.toNat + q.2.toNat * 4096 ≤ r.firstpaddr.toNat

section Bump

variable {lo : Word} {r ram : Ram} {npages pa : Word} {as as' : AddrSpace}

theorem aligned_next (firstpaddr npages : Word) :
    (firstpaddr + npages * pageSize).toNat % 4096 = firstpaddr.toNat % 4096 := by
  unfold pageSize
  bv_omega

theorem Bumped.getppages (h : Bumped lo r) (hRun : getppages r npages = (pa, ram)) :
    Bumped lo ram ∧ (pa ≠ 0 → pa.toNat % 4096 = lo.toNat % 4096) := by
  unfold OS161.getppages ramStealmem at hRun
  dsimp only at hRun
  by_cases hOver : r.firstpaddr + npages * pageSize > r.lastpaddr
  · rw [if_pos hOver] at hRun
    cases hRun
    refine ⟨⟨h.aligned, ?_⟩, fun hPa => absurd rfl hPa⟩
    rintro hFits q ⟨hMem, hRoom⟩
    have hOld := fun q hq => hFits q (List.mem_cons_of_mem _ hq)
    rcases List.mem_cons.mp hMem with rfl | hMem
    · -- the request that has just been refused
      have hThis := hFits _ List.mem_cons_self
      unfold Fits pageSize at *
      bv_omega
    · exact h.below hOld q ⟨hMem, hRoom⟩
  · rw [if_neg hOver] at hRun
    cases hRun
    refine ⟨⟨(aligned_next _ _).trans h.aligned, ?_⟩, fun _ => h.aligned⟩
    rintro hFits q ⟨hMem, hRoom⟩
    have hOld := fun q hq => hFits q (List.mem_cons_of_mem _ hq)
    have hThis := hFits _ List.mem_cons_self
    have hNext : (r.firstpaddr + npages * pageSize).toNat =
        r.firstpaddr.toNat + npages.toNat * 4096 := by
      unfold Fits at hThis
      unfold pageSize
      bv_omega
    dsimp only
    rw [hNext]
    rcases List.mem_cons.mp hMem with rfl | hMem
    · exact Nat.le_refl _
    · exact Nat.le_add_right_of_le (h.below hOld q ⟨hMem, hRoom⟩)

/-- The blocks of an address space start as far from a page boundary as the memory does. -/
def BasesAligned (lo : Word) (as : AddrSpace) : Prop :=
  ∀ i, as.pbase i ≠ 0 → (as.pbase i).toNat % 4096 = lo.toNat % 4096

theorem basesAligned_of_zero (hZero : ∀ i, as.pbase i = 0) : BasesAligned lo as :=
  fun i hPbase => absurd (hZero i) hPbase

theorem BasesAligned.setPbase (h : BasesAligned lo as) {i : Region}
    (hPa : pa ≠ 0 → pa.toNat % 4096 = lo.toNat % 4096) : BasesAligned lo (as.setPbase pa i) := by
  intro j hPbase
  by_cases hSame : j = i
  · subst hSame
    rw [AddrSpace.pbase_setPbase] at hPbase ⊢
    exact hPa hPbase
  · have hKept : (as.setPbase pa i).pbase j = as.pbase j := by
      cases i <;> cases j <;> first | rfl | exact absurd rfl hSame
    rw [hKept] at hPbase ⊢
    exact h j hPbase

theorem Bumped.asPrepareLoad {code : Errno} (h : Bumped lo r)
    (hLoad : asPrepareLoad r as = .ok (ram, as', code)) :
    Bumped lo ram ∧ BasesAligned lo as' := by
  obtain ⟨hZero, pa1, ram1, hFirst, hRest⟩ := asPrepareLoad_cases hLoad
  have hBases : BasesAligned lo as := basesAligned_of_zero hZero
  obtain ⟨hRam1, hPa1⟩ := h.getppages hFirst
  have hBases1 := hBases.setPbase (i := .one) hPa1
  rcases hRest with ⟨rfl, rfl⟩ | ⟨pa2, ram2, hSecond, hRest⟩
  · exact ⟨hRam1, hBases1⟩
  obtain ⟨hRam2, hPa2⟩ := hRam1.getppages hSecond
  have hBases2 := hBases1.setPbase (i := .two) hPa2
  rcases hRest with ⟨rfl, rfl⟩ | ⟨pa3, hThird, rfl⟩
  · exact ⟨hRam2, hBases2⟩
  · obtain ⟨hRam3, hPa3⟩ := hRam2.getppages hThird
    exact ⟨hRam3, hBases2.setPbase hPa3⟩

end Bump

/-! ## Runs -/

section Runs

variable {H : Type} [DecidableEq H] {s t : VmState H} {lo : Word}

/-- What the calls keep besides the isolation of the blocks. -/
structure HandsOut (lo : Word) (s : VmState H) : Prop where
  ram : Bumped lo s.ram
  bases : ∀ h as, s.spaces h = some as → BasesAligned lo as

omit [DecidableEq H] in
theorem handsOut_boot (firstpaddr lastpaddr : Word) (mem : Contents) :
    HandsOut firstpaddr (VmState.boot firstpaddr lastpaddr mem : VmState H) where
  ram := ⟨rfl, fun _ _ hq => absurd hq.1 List.not_mem_nil⟩
  bases _ _ hAs := by cases hAs

theorem HandsOut.replace (hs : HandsOut lo s) {h : H} {as : Option AddrSpace}
    (hRam : Bumped lo t.ram) (hSpaces : t.spaces = Function.update s.spaces h as)
    (hBases : ∀ as' ∈ as, BasesAligned lo as') : HandsOut lo t where
  ram := hRam
  bases h' as' hAs' := by
    rw [hSpaces] at hAs'
    by_cases hh : h' = h
    · subst hh
      rw [Function.update_self] at hAs'
      exact hBases as' hAs'
    · rw [Function.update_of_ne hh] at hAs'
      exact hs.bases h' as' hAs'

/-- **Step lemma.** -/
theorem HandsOut.step (hs : HandsOut lo s) {c : VmCall H} (hCall : s.call c = some t) :
    HandsOut lo t := by
  cases VmState.does_of_call hCall with
  | asCreate =>
    refine hs.replace hs.ram rfl ?_
    rintro _ ⟨⟩
    refine basesAligned_of_zero fun i => ?_
    cases i <;> rfl
  | @asDefineRegion h as vaddr sz hAs =>
    have hBases : BasesAligned lo (OS161.asDefineRegion as vaddr sz).1 := by
      intro i hPbase
      rw [VmState.pbase_asDefineRegion] at hPbase ⊢
      exact hs.bases h as hAs i hPbase
    refine hs.replace hs.ram rfl ?_
    intro as' hMem
    cases hMem
    exact hBases
  | asPrepareLoad hAs hLoad =>
    obtain ⟨hRam, hBases⟩ := hs.ram.asPrepareLoad hLoad
    refine hs.replace hRam rfl ?_
    rintro _ ⟨⟩
    exact hBases
  | asCopy hCopied =>
    obtain ⟨fresh, loaded, code, -, hLoad, hCopy⟩ := VmState.asCopy_ok hCopied
    obtain ⟨hRam, hBases⟩ := hs.ram.asPrepareLoad hLoad
    refine hs.replace hRam rfl ?_
    rintro as' hMem
    rcases hCopy with rfl | rfl
    · cases hMem
    · cases hMem
      exact hBases
  | asDestroy =>
    refine hs.replace hs.ram rfl ?_
    intro _ hMem
    cases hMem
  | allocKpages hPages => exact ⟨(hs.ram.getppages hPages).1, hs.bases⟩

/-- **Run lemma.** -/
theorem handsOut_of_run {firstpaddr lastpaddr : Word} {mem : Contents} {tr : List (VmCall H)}
    (h : Run (Guarded VmStep VmState.DefinesFirst) (VmState.boot firstpaddr lastpaddr mem) tr s) :
    HandsOut firstpaddr s :=
  h.invariant (handsOut_boot firstpaddr lastpaddr mem) fun _ _ _ hInv hStep => hInv.step hStep.1

end Runs

/-! ## The pages of a copy -/

/-- Two address spaces with the same regions whose blocks lie alike in their pages. -/
structure SameShape (as as' : AddrSpace) : Prop where
  vbase1 : as'.vbase1 = as.vbase1
  vbase2 : as'.vbase2 = as.vbase2
  npages (i : Region) : as'.npages i = as.npages i
  pbase (i : Region) : as.pbase i ≠ 0
  pbase' (i : Region) : as'.pbase i ≠ 0
  residue (i : Region) : (as'.pbase i).toNat % 4096 = (as.pbase i).toNat % 4096

section Pages

variable {m : MachineConstants} {as as' old new : AddrSpace} {lo va pa pa' : Word} {r : Ram}
  {i : Region}

theorem aligned_iff (x : Word) : x &&& pageFrame = x ↔ x.toNat % 4096 = 0 :=
  ⟨toNat_mod_of_aligned, aligned_of_toNat_mod⟩

theorem SameShape.symm (h : SameShape as as') : SameShape as' as where
  vbase1 := h.vbase1.symm
  vbase2 := h.vbase2.symm
  npages i := (h.npages i).symm
  pbase := h.pbase'
  pbase' := h.pbase
  residue i := (h.residue i).symm

theorem SameShape.vbase (h : SameShape as as') (m : MachineConstants) (i : Region) :
    as'.vbase m i = as.vbase m i := by
  cases i with
  | one => exact h.vbase1
  | two => exact h.vbase2
  | stack => rfl

theorem SameShape.aligned (h : SameShape as as') (i : Region) :
    as'.pbase i &&& pageFrame = as'.pbase i ↔ as.pbase i &&& pageFrame = as.pbase i := by
  rw [aligned_iff, aligned_iff, h.residue]

theorem SameShape.setUp (h : SameShape as as') (hSet : SetUp as) : SetUp as' := by
  obtain ⟨hV1, -, hN1, hV2, -, hN2, -, hAV1, hAP1, hAV2, hAP2, hAS⟩ := hSet
  rw [← h.vbase1] at hV1 hAV1
  rw [← h.vbase2] at hV2 hAV2
  have hN1' : as'.npages1 ≠ 0 := by
    intro hZero
    exact hN1 ((h.npages .one).symm.trans hZero)
  have hN2' : as'.npages2 ≠ 0 := by
    intro hZero
    exact hN2 ((h.npages .two).symm.trans hZero)
  exact ⟨hV1, h.pbase' .one, hN1', hV2, h.pbase' .two, hN2', h.pbase' .stack, hAV1,
    (h.aligned .one).mpr hAP1, hAV2, (h.aligned .two).mpr hAP2, (h.aligned .stack).mpr hAS⟩

theorem SameShape.firstInRange (h : SameShape as as') (m : MachineConstants) (va : Word) :
    as'.firstInRange m va = as.firstInRange m va := by
  have hInRange : ∀ i, as'.InRange m va i ↔ as.InRange m va i := by
    intro i
    unfold AddrSpace.InRange
    rw [h.vbase, h.npages]
  unfold AddrSpace.firstInRange
  simp only [hInRange]

theorem SameShape.aligned_translated (h : SameShape as as') (m : MachineConstants) (va : Word)
    (i : Region) (hAligned : translated m as va i &&& pageFrame = translated m as va i) :
    translated m as' va i &&& pageFrame = translated m as' va i := by
  rw [aligned_iff] at hAligned ⊢
  have hResidue := h.residue i
  unfold translated at *
  rw [h.vbase]
  rw [BitVec.toNat_add] at hAligned ⊢
  omega

theorem resolves_iff : Resolves m as va pa ↔ va &&& pageFrame = va ∧ SetUp as ∧
    ∃ i, as.firstInRange m va = some i ∧ pa = translated m as va i ∧ pa &&& pageFrame = pa := by
  constructor
  · rintro ⟨hVa, hFault⟩
    by_cases hSet : SetUp as
    case neg =>
      unfold faultPaddr at hFault
      rw [if_pos hSet] at hFault
      cases hFault
    rw [faultPaddr_of_setUp m hSet] at hFault
    refine ⟨hVa, hSet, ?_⟩
    cases hRange : as.firstInRange m va with
    | none =>
      rw [hRange] at hFault
      cases hFault
    | some i =>
      rw [hRange] at hFault
      dsimp only [Option.map_some] at hFault
      split at hFault
      · rename_i hAligned
        cases hFault
        exact ⟨i, rfl, rfl, hAligned⟩
      · cases hFault
  · rintro ⟨hVa, hSet, i, hRange, rfl, hAligned⟩
    refine ⟨hVa, ?_⟩
    rw [faultPaddr_of_setUp m hSet, hRange]
    exact if_pos hAligned

/-- The same region is found for a page, at the same offset. -/
theorem SameShape.resolves (h : SameShape as as') (hRes : Resolves m as va pa) :
    ∃ i, as.firstInRange m va = some i ∧ pa = translated m as va i ∧
      Resolves m as' va (translated m as' va i) := by
  obtain ⟨hVa, hSet, i, hRange, rfl, hAligned⟩ := resolves_iff.mp hRes
  refine ⟨i, hRange, rfl, resolves_iff.mpr ⟨hVa, h.setUp hSet, i, ?_, rfl, ?_⟩⟩
  · rw [h.firstInRange]
    exact hRange
  · exact h.aligned_translated m va i hAligned

theorem SameShape.exists_resolves_iff (h : SameShape as as') (m : MachineConstants) (va : Word) :
    (∃ pa, Resolves m as' va pa) ↔ ∃ pa, Resolves m as va pa := by
  constructor
  · rintro ⟨pa, hRes⟩
    obtain ⟨i, -, -, hOld⟩ := h.symm.resolves hRes
    exact ⟨_, hOld⟩
  · rintro ⟨pa, hRes⟩
    obtain ⟨i, -, -, hNew⟩ := h.resolves hRes
    exact ⟨_, hNew⟩

/-- The frame lies in the block of its region. -/
theorem translated_offset (hRes : Resolves m as va (translated m as va i))
    (hRange : as.firstInRange m va = some i)
    (hEnd : (as.pbase i).toNat + (as.npages i).toNat * 4096 < 2 ^ 32) :
    ∃ off, va.toNat = (as.vbase m i).toNat + off ∧
      (translated m as va i).toNat = (as.pbase i).toNat + off ∧
        off + 4096 ≤ (as.npages i).toNat * 4096 := by
  obtain ⟨-, hSet, -, -, -, hAligned⟩ := resolves_iff.mp hRes
  obtain ⟨hLow, hHigh⟩ := inRange_of_firstInRange hRange
  have hBase := aligned_of_toNat_mod (aligned_pbase hSet i)
  obtain ⟨off, hVa, hPa, -, hSize⟩ := offset_of_range hLow hHigh hEnd hBase hAligned rfl
  exact ⟨off, hVa, hPa, hSize⟩

end Pages

/-! ## The result of `as_copy` -/

/-- What a successful copy leaves behind. -/
structure ExactCopy {H : Type} (m : MachineConstants) (s t : VmState H) (old copy : AddrSpace) :
    Prop where
  pages (va : Word) : (∃ pa, Resolves m copy va pa) ↔ ∃ pa, Resolves m old va pa
  apart (va pa : Word) (q : Word × Word) (hRes : Resolves m copy va pa) (hq : Granted s.ram q) :
    (frame pa).Apart (kblock q)
  contents (va pa pa' : Word) (k : Nat) (hOld : Resolves m old va pa)
    (hCopy : Resolves m copy va pa') (hk : k < 4096) :
    t.mem (pa' + BitVec.ofNat 32 k) = s.mem (pa + BitVec.ofNat 32 k)
  fresh (i : Region) (q : Word × Word) (hq : Granted s.ram q) :
    (pagesAt (copy.pbase i) (copy.npages i)).Apart (kblock q)
  outside (a : Word) (ha : ∀ i, ¬(pagesAt (copy.pbase i) (copy.npages i)).Has a.toNat) :
    t.mem a = s.mem a

section Result

variable {H : Type} [DecidableEq H] {s t : VmState H} {old new : AddrSpace} {lo : Word}

theorem Consecutive.sameShape {r : Ram} (h : Consecutive r old new)
    (hLoaded : ∀ i, old.pbase i ≠ 0) (hOld : BasesAligned lo old) (hNew : BasesAligned lo new) :
    SameShape old new where
  vbase1 := h.vbase1
  vbase2 := h.vbase2
  npages := h.npages
  pbase := hLoaded
  pbase' := h.pbase
  residue i := (hNew i (h.pbase i)).trans (hOld i (hLoaded i)).symm

/-- The new blocks start behind everything that has been handed out. -/
theorem Consecutive.fresh {r : Ram} (h : Consecutive r old new) (hRam : Bumped lo r)
    (hFits : ∀ q ∈ r.requests, Fits q) {q : Word × Word} (hq : Granted r q) (i : Region) :
    (pagesAt (new.pbase i) (new.npages i)).Apart (kblock q) := by
  have hBelow := hRam.below hFits q hq
  have hOne : (new.pbase .one).toNat = r.firstpaddr.toNat := congrArg BitVec.toNat h.one
  have hTwo : (new.pbase .two).toNat = (new.pbase .one).toNat + old.npages1.toNat * 4096 := h.two
  have hStack : (new.pbase .stack).toNat =
      (new.pbase .two).toNat + old.npages2.toNat * 4096 := h.stack
  unfold pagesAt kblock Block.Apart
  dsimp only
  cases i <;> omega

omit [DecidableEq H] in
/-- The blocks of a loaded address space end at or before `firstpaddr`. -/
theorem block_below {h : H} (hs : s.Refined lo.toNat) (hAs : s.spaces h = some old)
    (hLoaded : ∀ i, old.pbase i ≠ 0) (i : Region) :
    (old.pbase i).toNat + (old.npages i).toNat * 4096 ≤ s.ram.firstpaddr.toNat := by
  obtain ⟨A, -, hA⟩ := hs
  have hOwned : A.owned (.region h i) =
      some ⟨(old.pbase i).toNat, (old.npages i).toNat * 4096⟩ := by
    rw [hA.owned, VmState.owned_region, hAs, Option.bind_some, AddrSpace.block,
      if_neg (hLoaded i)]
  rw [← hA.next]
  exact (A.inside _ _ hOwned).2

/-- Page by page, through the decision of `vm_fault`. -/
theorem exactCopy_of_moves {H : Type} {s t : VmState H} (m : MachineConstants)
    (hShape : SameShape old new)
    (hSeparate : Separate old new)
    (hFresh : ∀ i q, Granted s.ram q → (pagesAt (new.pbase i) (new.npages i)).Apart (kblock q))
    (hMem : t.mem = [.one, .two, .stack].foldl (moveRegion new old) s.mem) :
    ExactCopy m s t old new where
  pages := hShape.exists_resolves_iff m
  apart va pa q hRes hq := by
    obtain ⟨i, hRange, rfl, -⟩ := hShape.symm.resolves hRes
    have hEnd := hSeparate.newBound i
    rw [← hShape.npages] at hEnd
    obtain ⟨off, -, hPa, hSize⟩ := translated_offset hRes hRange hEnd
    exact (hFresh i q hq).mono (frame_within hPa hSize) ⟨Nat.le_refl _, Nat.le_refl _⟩
  contents va pa pa' k hOld hCopy hk := by
    obtain ⟨i, hRange, rfl, -⟩ := hShape.resolves hOld
    obtain ⟨j, hRange', rfl, -⟩ := hShape.symm.resolves hCopy
    rw [hShape.firstInRange, hRange] at hRange'
    cases hRange'
    have hEnd := hSeparate.newBound i
    rw [← hShape.npages] at hEnd
    have hCopyRange : new.firstInRange m va = some i := by
      rw [hShape.firstInRange]
      exact hRange
    obtain ⟨off, -, hPa, hSize⟩ := translated_offset hCopy hCopyRange hEnd
    rw [hShape.npages] at hSize hEnd
    have hHas : (pagesAt (new.pbase i) (old.npages i)).Has
        (translated m new va i + BitVec.ofNat 32 k).toNat := by
      unfold pagesAt Block.Has
      dsimp only
      rw [BitVec.toNat_add, BitVec.toNat_ofNat, hPa]
      omega
    have hFrom : old.pbase i + (translated m new va i + BitVec.ofNat 32 k - new.pbase i) =
        translated m old va i + BitVec.ofNat 32 k := by
      unfold translated
      rw [hShape.vbase]
      bv_omega
    rw [hMem, moves_inside hSeparate (by decide) _ hHas, hFrom]
    cases i <;> simp
  fresh := hFresh
  outside a ha := by
    rw [hMem]
    apply moves_outside hSeparate
    intro i _
    rw [← hShape.npages]
    exact ha i

namespace VmState

/-- The state in which `as_copy` leaves the memory. -/
def afterCopy (s : VmState H) (new : H) (ram : Ram) (mem : Contents) (copy : Option AddrSpace) :
    VmState H :=
  { s with
    ram, mem, spaces := Function.update s.spaces new copy
    prepared := Function.update s.prepared new copy.isSome }

theorem mem_afterCopy (s : VmState H) (new : H) (ram : Ram) (mem : Contents)
    (copy : Option AddrSpace) : (s.afterCopy new ram mem copy).mem = mem := rfl

theorem asCopyCall_of_asCopy {new : H} {ram : Ram} {mem : Contents} {copy : Option AddrSpace}
    (hCopy : asCopy s.ram s.mem old = .ok (ram, mem, copy)) (ret : Option H) :
    s.asCopyCall old (some new) ret = if copy.isSome
      then .ok (.ok, some new, s.afterCopy new ram mem copy)
      else .ok (.ENOMEM, ret, s.afterCopy new ram mem copy) := by
  unfold asCopyCall
  dsimp only
  rw [hCopy, ok_bind]
  rfl

/-- The same step in a sequence of calls. -/
theorem call_asCopy {h new : H} {ram : Ram} {mem : Contents} {copy : Option AddrSpace}
    (hOld : s.spaces h = some old) (hFree : s.spaces new = none)
    (hCopy : asCopy s.ram s.mem old = .ok (ram, mem, copy)) :
    s.call (.asCopy h new) = some (s.afterCopy new ram mem copy) := by
  unfold VmState.call
  dsimp only
  rw [hOld, Option.bind_eq_bind, Option.bind_some, if_pos hFree, hCopy]
  rfl

/-- **Copies of address spaces.** -/
theorem asCopy_exact {firstpaddr lastpaddr : Word} {mem : Contents} {tr : List (VmCall H)}
    (hRun : Run (Guarded VmStep DefinesFirst) (boot firstpaddr lastpaddr mem) tr s) {h : H}
    (hOld : s.spaces h = some old) (hLoaded : ∀ i, old.pbase i ≠ 0) {answer : Option H}
    (hNew : ∀ new ∈ answer, s.spaces new = none) (ret : Option H) :
    ∃ errno ret' t, s.asCopyCall old answer ret = .ok (errno, ret', t) ∧
      (errno = .ok → t.NoWrap → ∃ new copy, answer = some new ∧ ret' = some new ∧
        s.call (.asCopy h new) = some t ∧
          t.spaces = Function.update s.spaces new (some copy) ∧ t.spaces h = some old ∧
            ∀ m, ExactCopy m s t old copy) ∧
      (errno ≠ .ok → ret' = ret ∧ t.mem = s.mem ∧ t.spaces = s.spaces) := by
  cases answer with
  | none => exact ⟨.ENOMEM, ret, s, rfl, nofun, fun _ => ⟨rfl, rfl, rfl⟩⟩
  | some new =>
    have hFree : s.spaces new = none := hNew new rfl
    obtain ⟨ram, copy, code, hLoad, hCopy | ⟨hCopy, hPbase⟩⟩ := asCopy_cases s.ram s.mem old
    · -- the new address space is destroyed again
      refine ⟨.ENOMEM, ret, s.afterCopy new ram s.mem none, ?_, nofun, fun _ => ⟨rfl, rfl, ?_⟩⟩
      · exact asCopyCall_of_asCopy hCopy ret
      · rw [afterCopy, ← hFree]
        exact Function.update_eq_self new s.spaces
    · refine ⟨.ok, some new, s.afterCopy new ram _ (some copy), asCopyCall_of_asCopy hCopy ret,
        fun _ hNoWrap => ?_, fun hErr => absurd rfl hErr⟩
      · have hOther : h ≠ new := by
          rintro rfl
          rw [hFree] at hOld
          cases hOld
        have hFits : ∀ q ∈ s.ram.requests, Fits q := fun q hq =>
          hNoWrap q ((ram_asPrepareLoad hLoad).1 hq)
        have hHands := handsOut_of_run hRun
        have hConsecutive := consecutive_of_load hLoad hPbase hNoWrap
        have hShape := hConsecutive.sameShape hLoaded (hHands.bases h old hOld)
          (hHands.ram.asPrepareLoad hLoad).2
        have hBelow := block_below ((inv_of_run hRun).refined hFits) hOld hLoaded
        refine ⟨new, copy, rfl, rfl, call_asCopy hOld hFree hCopy, rfl, ?_, fun m => ?_⟩
        · exact (Function.update_of_ne hOther _ _).trans hOld
        · exact exactCopy_of_moves m hShape (hConsecutive.separate hBelow)
            (fun i q hq => hConsecutive.fresh hHands.ram hFits hq i) (mem_afterCopy _ _ _ _ _)

/-- Two regions of a page and the stack are copied to 0xf000. -/
theorem asCopy_exact_twoRegions : ∃ (s t : VmState Bool) (old : AddrSpace),
    s.spaces false = some old ∧ s.asCopyCall old (some true) none = .ok (.ok, some true, t) ∧
      t.mem 0xf234 = s.mem 0x1234 := by
  have hEnd : (List.foldlM (fun s c => if DefinesFirst s c then s.call c else none)
      (boot 0x1000 0x100000 fun a => if a = 0x1234 then 7 else 0)
      [.asCreate false, .asDefineRegion false 0x400000 4096,
        .asDefineRegion false 0x10000000 4096, .asPrepareLoad false]).bind
          (fun s => (s.asCopyCall ⟨0x400000, 0x1000, 1, 0x10000000, 0x2000, 1, 0x3000⟩ (some true)
            none).toOption.map fun (errno, _, t) =>
              ([s.spaces false, s.spaces true, t.spaces true], errno, t.ram.requests)) =
      some ([some ⟨0x400000, 0x1000, 1, 0x10000000, 0x2000, 1, 0x3000⟩, none,
          some ⟨0x400000, 0xf000, 1, 0x10000000, 0x10000, 1, 0x11000⟩], .ok,
        [(0x11000, 12), (0x10000, 1), (0xf000, 1), (0x3000, 12), (0x2000, 1), (0x1000, 1)]) := by
    decide +kernel
  obtain ⟨s, hs, hCall⟩ := Option.bind_eq_some_iff.mp hEnd
  obtain ⟨⟨errno, ret', t⟩, hCopy, hFields⟩ := Option.map_eq_some_iff.mp hCall
  simp only [Prod.mk.injEq, List.cons.injEq] at hFields
  obtain ⟨⟨hOld, hFree, hSpace, -⟩, rfl, hRequests⟩ := hFields
  have hLoaded : ∀ i,
      AddrSpace.pbase ⟨0x400000, 0x1000, 1, 0x10000000, 0x2000, 1, 0x3000⟩ i ≠ 0 := by
    intro i
    cases i <;> decide
  have hNone : ∀ new ∈ some true, s.spaces new = none := by
    intro new hMem
    cases hMem
    exact hFree
  obtain ⟨errno, ret'', t', hCopied, hOk, -⟩ :=
    asCopy_exact (Run.guarded_of_foldlM hs) hOld hLoaded hNone none
  rw [hCopied] at hCopy
  cases hCopy
  have hNoWrap : t.NoWrap := by
    unfold NoWrap Fits
    rw [hRequests]
    simp
  obtain ⟨new, copy, hNew, rfl, -, hSpaces, -, hExact⟩ := hOk rfl hNoWrap
  cases hNew
  rw [hSpaces, Function.update_self] at hSpace
  cases hSpace
  refine ⟨s, t, _, hOld, hCopied, ?_⟩
  exact (hExact ⟨0x80000000, 0x400, 0x200, 15⟩).contents 0x400000 0x1000 0xf000 0x234
    ⟨rfl, rfl⟩ ⟨rfl, rfl⟩ (by decide)

end VmState

end Result

end Windborne.OS161
