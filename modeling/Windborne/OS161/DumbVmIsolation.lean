import Mathlib.Algebra.Group.Nat.Defs
import Mathlib.Tactic.SplitIfs
import Windborne.Library.Arena
import Windborne.Library.Runs
import Windborne.OS161.DumbVm

/-!
# Isolation of address spaces under `dumbvm.c`

The state is refined by an arena whose owners are the two regions and the stack of each live
address space and the kernel blocks. A page that `vm_fault` resolves lies in the block of
exactly one owner, at an offset that determines the page, so the isolation of the arena's
blocks is the isolation of frames.
-/

namespace Windborne.OS161

open Library

/-! ## Owners and their blocks -/

inductive Region where
  | one
  | two
  | stack
  deriving DecidableEq

inductive Owner (H : Type) where
  | region (as : H) (i : Region)
  | kernel (index : Nat)
  deriving DecidableEq

namespace AddrSpace

def pbase (as : AddrSpace) : Region → Word
  | .one => as.pbase1
  | .two => as.pbase2
  | .stack => as.stackpbase

def npages (as : AddrSpace) : Region → Word
  | .one => as.npages1
  | .two => as.npages2
  | .stack => dumbvmStackPages

def setPbase (as : AddrSpace) (pa : Word) : Region → AddrSpace
  | .one => { as with pbase1 := pa }
  | .two => { as with pbase2 := pa }
  | .stack => { as with stackpbase := pa }

/-- A region whose physical base is zero has no memory. -/
def block (as : AddrSpace) (i : Region) : Option Block :=
  if as.pbase i = 0 then none
  else some ⟨(as.pbase i).toNat, (as.npages i).toNat * 4096⟩

theorem block_setPbase_of_ne (as : AddrSpace) (pa : Word) {i j : Region} (h : j ≠ i) :
    (as.setPbase pa i).block j = as.block j := by
  cases i <;> cases j <;> first | rfl | exact absurd rfl h

theorem pbase_setPbase (as : AddrSpace) (pa : Word) (i : Region) :
    (as.setPbase pa i).pbase i = pa := by
  cases i <;> rfl

theorem npages_setPbase (as : AddrSpace) (pa : Word) (i j : Region) :
    (as.setPbase pa i).npages j = as.npages j := by
  cases i <;> cases j <;> rfl

end AddrSpace

/-- The request for `q.2` pages at `q.1` does not reach `2 ^ 32`. -/
def Fits (q : Word × Word) : Prop := q.2.toNat * 4096 + q.1.toNat < 2 ^ 32

namespace VmState

variable {H : Type} [DecidableEq H]

def owned (s : VmState H) : Owner H → Option Block
  | .region h i => (s.spaces h).bind fun as => as.block i
  | .kernel k => s.kblocks[k]?.map fun b => ⟨b.1.toNat, b.2.toNat * 4096⟩

/-- The arena has handed out what `ram.c` has, to the owners of the state. -/
structure Refines (s : VmState H) (A : Arena (Owner H)) : Prop where
  next : A.next = s.ram.firstpaddr.toNat
  hi : A.hi = s.ram.lastpaddr.toNat
  owned : ∀ o, A.owned o = s.owned o

/-- Some arena that starts at `lo` refines the state. -/
def Refined (lo : Nat) (s : VmState H) : Prop := ∃ A : Arena (Owner H), A.lo = lo ∧ s.Refines A

/-- No request so far reached `2 ^ 32`. -/
def NoWrap (s : VmState H) : Prop := ∀ q ∈ s.ram.requests, Fits q

/-- An address space that has not been prepared has no memory. -/
def UnpreparedEmpty (s : VmState H) : Prop :=
  ∀ h as, s.spaces h = some as → s.prepared h = false → ∀ i, as.pbase i = 0

end VmState

/-! ## One request -/

/-- The two outcomes of a request that does not wrap around. -/
theorem ramStealmem_cases (r : Ram) (npages : Word)
    (h : Fits (r.firstpaddr, npages)) :
    (ramStealmem r npages = (0, { r with requests := (r.firstpaddr, npages) :: r.requests })) ∨
      (r.firstpaddr.toNat + npages.toNat * 4096 ≤ r.lastpaddr.toNat ∧
        ∃ next : Word, next.toNat = r.firstpaddr.toNat + npages.toNat * 4096 ∧
          ramStealmem r npages = (r.firstpaddr,
            { firstpaddr := next, lastpaddr := r.lastpaddr
              requests := (r.firstpaddr, npages) :: r.requests })) := by
  have hSize : (r.firstpaddr + npages * pageSize).toNat =
      r.firstpaddr.toNat + npages.toNat * 4096 := by
    unfold Fits at h
    unfold pageSize
    bv_omega
  unfold ramStealmem
  by_cases hFits : r.firstpaddr + npages * pageSize > r.lastpaddr
  · rw [if_pos hFits]
    exact Or.inl rfl
  · rw [if_neg hFits]
    refine Or.inr ⟨?_, _, hSize, rfl⟩
    rw [← hSize]
    exact BitVec.le_def.mp (BitVec.not_lt.mp hFits)

theorem requests_ramStealmem (r : Ram) (npages : Word) :
    (ramStealmem r npages).2.requests = (r.firstpaddr, npages) :: r.requests := by
  unfold ramStealmem
  dsimp only
  split <;> rfl

theorem lastpaddr_ramStealmem (r : Ram) (npages : Word) :
    (ramStealmem r npages).2.lastpaddr = r.lastpaddr := by
  unfold ramStealmem
  dsimp only
  split <;> rfl

namespace VmState

variable {H : Type} [DecidableEq H] {s t : VmState H} {A : Arena (Owner H)} {lo : Nat}

omit [DecidableEq H] in
theorem owned_region (s : VmState H) (h : H) (i : Region) :
    s.owned (.region h i) = (s.spaces h).bind fun as => as.block i := rfl

theorem owned_region_update {h : H} {as : Option AddrSpace}
    (hSpaces : t.spaces = Function.update s.spaces h as) (h' : H) (i : Region) :
    t.owned (.region h' i) =
      if h' = h then as.bind fun as => as.block i else s.owned (.region h' i) := by
  rw [owned_region, hSpaces]
  by_cases hh : h' = h
  · subst hh
    rw [Function.update_self, if_pos rfl]
  · rw [Function.update_of_ne hh, if_neg hh, owned_region]

omit [DecidableEq H] in
theorem owned_kernel_eq (hBlocks : t.kblocks = s.kblocks) (k : Nat) :
    t.owned (.kernel k) = s.owned (.kernel k) := by
  unfold VmState.owned
  rw [hBlocks]

/-- One request of `as_prepare_load` is a grant of the arena, a skip, or nothing. -/
theorem Refined.load (hs : s.Refined lo) (h : H) (as : AddrSpace) (i : Region) {pa : Word}
    {ram : Ram} (hAs : s.spaces h = some as) (hZero : as.pbase i = 0)
    (hRun : getppages s.ram (as.npages i) = (pa, ram))
    (hFits : Fits (s.ram.firstpaddr, as.npages i)) :
    Refined lo { s with
      ram, spaces := Function.update s.spaces h (some (as.setPbase pa i)) } := by
  obtain ⟨A, hLo, hA⟩ := hs
  have hNone : pa = 0 → (as.setPbase pa i).block i = none := by
    intro hpa
    rw [AddrSpace.block, AddrSpace.pbase_setPbase, if_pos hpa]
  have hOld : s.owned (.region h i) = none := by
    rw [owned_region, hAs, Option.bind_some]
    exact if_pos hZero
  have hOwned : ∀ o, VmState.owned
      { s with ram, spaces := Function.update s.spaces h (some (as.setPbase pa i)) } o =
        Function.update s.owned (.region h i) ((as.setPbase pa i).block i) o := by
    intro o
    by_cases ho : o = .region h i
    · subst ho
      rw [owned_region_update (s := s) rfl, Function.update_self, if_pos rfl]
      rfl
    · rw [Function.update_of_ne ho]
      cases o with
      | kernel k => rfl
      | region h' j =>
        rw [owned_region_update (s := s) rfl]
        by_cases hh : h' = h
        · subst hh
          have hj : j ≠ i := fun hEq => ho (by rw [hEq])
          rw [if_pos rfl, Option.bind_some, AddrSpace.block_setPbase_of_ne _ _ hj, owned_region,
            hAs, Option.bind_some]
        · exact if_neg hh
  unfold getppages at hRun
  rcases ramStealmem_cases s.ram (as.npages i) hFits with hFail | ⟨hRoom, next, hNext, hGet⟩
  · rw [hFail] at hRun
    cases hRun
    refine ⟨A, hLo, hA.next, hA.hi, ?_⟩
    intro o
    rw [hOwned, hNone rfl, ← hOld, Function.update_eq_self]
    exact hA.owned o
  · rw [hGet] at hRun
    cases hRun
    by_cases hBase : s.ram.firstpaddr = 0
    · -- memory at address zero is taken from the arena, but counts as a failure
      refine ⟨A.skip ((as.npages i).toNat * 4096), hLo, ?_, hA.hi, ?_⟩
      · show A.next + _ = next.toNat
        rw [hA.next, hNext]
      · intro o
        rw [hOwned, hNone hBase, ← hOld, Function.update_eq_self]
        exact hA.owned o
    · refine ⟨A.grant (.region h i) ((as.npages i).toNat * 4096) ?_, hLo, ?_, hA.hi, ?_⟩
      · rw [hA.next, hA.hi]
        exact hRoom
      · show A.next + _ = next.toNat
        rw [hA.next, hNext]
      · intro o
        rw [hOwned]
        show Function.update A.owned _ _ o = _
        have hBlock : (as.setPbase s.ram.firstpaddr i).block i =
            some ⟨A.next, (as.npages i).toNat * 4096⟩ := by
          rw [AddrSpace.block, AddrSpace.pbase_setPbase, AddrSpace.npages_setPbase,
            if_neg hBase, hA.next]
        rw [hBlock, funext hA.owned]

/-! ## The calls -/

/-- The requests that `as_prepare_load` makes, up to the first that fails. -/
theorem asPrepareLoad_cases {r ram : Ram} {as as' : AddrSpace} {code : Errno}
    (h : asPrepareLoad r as = .ok (ram, as', code)) :
    (∀ i, as.pbase i = 0) ∧ ∃ pa1 ram1, getppages r as.npages1 = (pa1, ram1) ∧
      ((ram = ram1 ∧ as' = as.setPbase pa1 .one) ∨
        ∃ pa2 ram2, getppages ram1 as.npages2 = (pa2, ram2) ∧
          ((ram = ram2 ∧ as' = (as.setPbase pa1 .one).setPbase pa2 .two) ∨
            ∃ pa3, getppages ram2 dumbvmStackPages = (pa3, ram) ∧
              as' = ((as.setPbase pa1 .one).setPbase pa2 .two).setPbase pa3 .stack)) := by
  unfold asPrepareLoad at h
  -- nothing here depends on what a request does, and unfolding requests is slow
  obtain ⟨get, hGet⟩ : ∃ get, get = getppages := ⟨_, rfl⟩
  rw [← hGet] at h ⊢
  by_cases hZero : as.pbase1 ≠ 0 ∨ as.pbase2 ≠ 0 ∨ as.stackpbase ≠ 0
  · rw [if_pos hZero] at h
    cases h
  rw [if_neg hZero] at h
  simp only [not_or, not_not] at hZero
  refine ⟨?_, ?_⟩
  · intro i
    cases i
    · exact hZero.1
    · exact hZero.2.1
    · exact hZero.2.2
  rcases hFirst : get r as.npages1 with ⟨pa1, ram1⟩
  refine ⟨pa1, ram1, rfl, ?_⟩
  simp only [hFirst] at h
  by_cases hFail1 : pa1 = 0
  · rw [if_pos hFail1] at h
    cases h
    exact Or.inl ⟨rfl, rfl⟩
  rw [if_neg hFail1] at h
  rcases hSecond : get ram1 as.npages2 with ⟨pa2, ram2⟩
  refine Or.inr ⟨pa2, ram2, rfl, ?_⟩
  simp only [hSecond] at h
  by_cases hFail2 : pa2 = 0
  · rw [if_pos hFail2] at h
    cases h
    exact Or.inl ⟨rfl, rfl⟩
  rw [if_neg hFail2] at h
  rcases hThird : get ram2 dumbvmStackPages with ⟨pa3, ram3⟩
  refine Or.inr ⟨pa3, ?_⟩
  simp only [hThird] at h
  cases h
  exact ⟨rfl, rfl⟩

theorem requests_getppages {r ram : Ram} {npages pa : Word}
    (h : getppages r npages = (pa, ram)) :
    ram.requests = (r.firstpaddr, npages) :: r.requests ∧ ram.lastpaddr = r.lastpaddr := by
  have hRam : (ramStealmem r npages).2 = ram := congrArg Prod.snd h
  rw [← hRam]
  exact ⟨requests_ramStealmem r npages, lastpaddr_ramStealmem r npages⟩

theorem ram_asPrepareLoad {r ram : Ram} {as as' : AddrSpace} {code : Errno}
    (h : asPrepareLoad r as = .ok (ram, as', code)) :
    r.requests ⊆ ram.requests ∧ ram.lastpaddr = r.lastpaddr := by
  obtain ⟨-, pa1, ram1, hFirst, h⟩ := asPrepareLoad_cases h
  obtain ⟨hLog1, hLast1⟩ := requests_getppages hFirst
  rcases h with ⟨rfl, -⟩ | ⟨pa2, ram2, hSecond, h⟩
  · rw [hLog1]
    exact ⟨List.subset_cons_self _ _, hLast1⟩
  obtain ⟨hLog2, hLast2⟩ := requests_getppages hSecond
  rcases h with ⟨rfl, -⟩ | ⟨pa3, hThird, -⟩
  · rw [hLog2, hLog1]
    exact ⟨fun q hq => by simp [hq], hLast2.trans hLast1⟩
  · obtain ⟨hLog3, hLast3⟩ := requests_getppages hThird
    rw [hLog3, hLog2, hLog1]
    exact ⟨fun q hq => by simp [hq], hLast3.trans (hLast2.trans hLast1)⟩

theorem Refined.prepareLoad (hs : s.Refined lo) {h : H} {as as' : AddrSpace} {ram : Ram}
    {code : Errno} (hAs : s.spaces h = some as)
    (hRun : asPrepareLoad s.ram as = .ok (ram, as', code)) (hNoWrap : ∀ q ∈ ram.requests, Fits q) :
    Refined lo { s with ram, spaces := Function.update s.spaces h (some as') } := by
  obtain ⟨hZero, pa1, ram1, hFirst, hRest⟩ := asPrepareLoad_cases hRun
  have hLog1 := (requests_getppages hFirst).1
  have hLoad1 := hs.load h as .one hAs (hZero .one) hFirst
  rcases hRest with ⟨rfl, rfl⟩ | ⟨pa2, ram2, hSecond, hRest⟩
  · apply hLoad1
    apply hNoWrap
    rw [hLog1]
    exact List.mem_cons_self
  have hLog2 := (requests_getppages hSecond).1
  rw [hLog1] at hLog2
  have hLoad2 := fun hB : Refined lo { s with
      ram := ram1, spaces := Function.update s.spaces h (some (as.setPbase pa1 .one)) } =>
    hB.load h (as.setPbase pa1 .one) .two (Function.update_self ..) (hZero .two) hSecond
  dsimp only at hLoad2
  rw [Function.update_idem] at hLoad2
  rcases hRest with ⟨rfl, rfl⟩ | ⟨pa3, hThird, rfl⟩
  · rw [hLog2] at hNoWrap
    apply hLoad2
    · exact hLoad1 (hNoWrap _ (List.mem_cons_of_mem _ List.mem_cons_self))
    · exact hNoWrap _ List.mem_cons_self
  have hLog3 := (requests_getppages hThird).1
  rw [hLog2] at hLog3
  have hLoad3 := fun hB : Refined lo { s with
      ram := ram2, spaces := Function.update s.spaces h
        (some ((as.setPbase pa1 .one).setPbase pa2 .two)) } =>
    hB.load h ((as.setPbase pa1 .one).setPbase pa2 .two) .stack (Function.update_self ..)
      (hZero .stack) hThird
  dsimp only at hLoad3
  rw [Function.update_idem] at hLoad3
  rw [hLog3] at hNoWrap
  apply hLoad3
  · apply hLoad2
    · exact hLoad1 (hNoWrap _ (List.mem_cons_of_mem _ (List.mem_cons_of_mem _
        List.mem_cons_self)))
    · exact hNoWrap _ (List.mem_cons_of_mem _ List.mem_cons_self)
  · exact hNoWrap _ List.mem_cons_self

/-- Replacing an address space by one that has no memory, or by none at all. -/
theorem Refined.replace (hs : s.Refined lo) {h : H} {as : Option AddrSpace}
    (hSpaces : t.spaces = Function.update s.spaces h as) (hRam : t.ram = s.ram)
    (hBlocks : t.kblocks = s.kblocks) (hEmpty : ∀ as' ∈ as, ∀ i, as'.pbase i = 0) :
    t.Refined lo := by
  obtain ⟨A, hLo, hA⟩ := hs
  have hOwned : ∀ o b, t.owned o = some b → A.owned o = some b := by
    intro o b hb
    rw [hA.owned]
    cases o with
    | kernel k => rwa [← owned_kernel_eq hBlocks]
    | region h' i =>
      rw [owned_region_update hSpaces] at hb
      by_cases hh : h' = h
      · rw [if_pos hh] at hb
        obtain ⟨as', hAs', hBlock⟩ := Option.bind_eq_some_iff.mp hb
        rw [AddrSpace.block, if_pos (hEmpty as' hAs' i)] at hBlock
        cases hBlock
      · rwa [if_neg hh] at hb
  refine ⟨A.restrict t.owned hOwned, hLo, ?_, ?_, fun o => rfl⟩
  · rw [hRam]
    exact hA.next
  · rw [hRam]
    exact hA.hi

theorem pbase_asDefineRegion (as : AddrSpace) (vaddr sz : Word) (i : Region) :
    (asDefineRegion as vaddr sz).1.pbase i = as.pbase i := by
  unfold asDefineRegion
  dsimp only
  split_ifs <;> cases i <;> rfl

theorem Refined.allocKpages (hs : s.Refined lo) {npages : Word}
    (hFits : Fits (s.ram.firstpaddr, npages)) (hCall : s.call (.allocKpages npages) = some t) :
    t.Refined lo := by
  obtain ⟨A, hLo, hA⟩ := hs
  unfold VmState.call getppages at hCall
  dsimp only at hCall
  rcases ramStealmem_cases s.ram npages hFits with hRun | ⟨hRoom, next, hNext, hRun⟩
  · rw [hRun] at hCall
    cases hCall
    exact ⟨A, hLo, hA.next, hA.hi, hA.owned⟩
  · rw [hRun] at hCall
    dsimp only at hCall
    by_cases hBase : s.ram.firstpaddr = 0
    · rw [if_pos hBase] at hCall
      cases hCall
      refine ⟨A.skip (npages.toNat * 4096), hLo, ?_, hA.hi, hA.owned⟩
      show A.next + _ = next.toNat
      rw [hA.next, hNext]
    · rw [if_neg hBase] at hCall
      cases hCall
      refine ⟨A.grant (.kernel s.kblocks.length) (npages.toNat * 4096) ?_, hLo, ?_, hA.hi, ?_⟩
      · rw [hA.next, hA.hi]
        exact hRoom
      · show A.next + _ = next.toNat
        rw [hA.next, hNext]
      · intro o
        show Function.update A.owned _ _ o = _
        by_cases ho : o = .kernel s.kblocks.length
        · subst ho
          rw [Function.update_self]
          unfold VmState.owned
          simp [hA.next]
        · rw [Function.update_of_ne ho, hA.owned]
          cases o with
          | region h i => rfl
          | kernel k =>
            have hk : k ≠ s.kblocks.length := fun hEq => ho (by rw [hEq])
            unfold VmState.owned
            simp only [List.getElem?_append]
            split
            · rfl
            · rw [List.getElem?_eq_none (by omega), List.getElem?_eq_none]
              simp only [List.length_cons, List.length_nil]
              omega

/-! ## The invariant over a run -/

/-- Regions are defined before the address space is loaded. -/
def DefinesFirst (s : VmState H) : VmCall H → Prop
  | .asDefineRegion h _ _ => s.prepared h = false
  | _ => True

omit [DecidableEq H] in
instance (s : VmState H) (c : VmCall H) : Decidable (DefinesFirst s c) := by
  cases c <;> unfold DefinesFirst <;> infer_instance

structure Inv (firstpaddr lastpaddr : Word) (s : VmState H) : Prop where
  lastpaddr : s.ram.lastpaddr = lastpaddr
  empty : s.UnpreparedEmpty
  refined : s.NoWrap → s.Refined firstpaddr.toNat

omit [DecidableEq H] in
theorem inv_boot (firstpaddr lastpaddr : Word) (mem : Contents) :
    Inv firstpaddr lastpaddr (boot firstpaddr lastpaddr mem : VmState H) where
  lastpaddr := rfl
  empty h as hAs := by cases hAs
  refined _ := by
    refine ⟨.start _ firstpaddr.toNat lastpaddr.toNat, rfl, rfl, rfl, ?_⟩
    rintro (⟨h, i⟩ | k)
    · rfl
    · rfl

theorem UnpreparedEmpty.replace (hs : s.UnpreparedEmpty) {h : H} {as : Option AddrSpace}
    (hSpaces : t.spaces = Function.update s.spaces h as)
    (hPrepared : ∀ h', h' ≠ h → t.prepared h' = s.prepared h')
    (hNew : ∀ as' ∈ as, t.prepared h = false → ∀ i, as'.pbase i = 0) : t.UnpreparedEmpty := by
  intro h' as' hAs' hFalse i
  rw [hSpaces] at hAs'
  by_cases hh : h' = h
  · subst hh
    rw [Function.update_self] at hAs'
    exact hNew as' hAs' hFalse i
  · rw [Function.update_of_ne hh] at hAs'
    rw [hPrepared h' hh] at hFalse
    exact hs h' as' hAs' hFalse i

theorem ok_of_toOption {α : Type} {x : Except Panic α} {a : α} (h : x.toOption = some a) :
    x = .ok a := by
  cases x with
  | error e => cases h
  | ok b =>
    cases h
    rfl

/-- What a call that returns has done. -/
inductive Does (s : VmState H) : VmCall H → VmState H → Prop
  | asCreate {new : H} :
      Does s (.asCreate new)
        { s with spaces := Function.update s.spaces new (some OS161.asCreate) }
  | asDefineRegion {h : H} {as : AddrSpace} {vaddr sz : Word} (hAs : s.spaces h = some as) :
      Does s (.asDefineRegion h vaddr sz) { s with
        spaces := Function.update s.spaces h (some (OS161.asDefineRegion as vaddr sz).1) }
  | asPrepareLoad {h : H} {as as' : AddrSpace} {ram : Ram} {code : Errno}
      (hAs : s.spaces h = some as)
      (hLoad : OS161.asPrepareLoad s.ram as = .ok (ram, as', code)) :
      Does s (.asPrepareLoad h) { s with
        ram, spaces := Function.update s.spaces h (some as')
        prepared := Function.update s.prepared h true }
  | asCopy {h new : H} {old : AddrSpace} {ram : Ram} {mem : Contents} {copy : Option AddrSpace}
      (hCopy : OS161.asCopy s.ram s.mem old = .ok (ram, mem, copy)) :
      Does s (.asCopy h new) { s with
        ram, mem, spaces := Function.update s.spaces new copy
        prepared := Function.update s.prepared new copy.isSome }
  | asDestroy {h : H} :
      Does s (.asDestroy h) { s with
        spaces := Function.update s.spaces h none
        prepared := Function.update s.prepared h false }
  | allocKpages {npages pa : Word} {ram : Ram} {kblocks : List (Word × Word)}
      (hPages : getppages s.ram npages = (pa, ram)) :
      Does s (.allocKpages npages) { s with ram, kblocks }

theorem does_of_call {c : VmCall H} (hCall : s.call c = some t) : s.Does c t := by
  cases c with
  | asCreate new =>
    obtain ⟨-, hSome⟩ := Option.ite_none_right_eq_some.mp hCall
    cases hSome
    exact .asCreate
  | asDefineRegion h vaddr sz =>
    obtain ⟨as, hAs, hRest⟩ := Option.bind_eq_some_iff.mp hCall
    cases hRest
    exact .asDefineRegion hAs
  | asPrepareLoad h =>
    obtain ⟨as, hAs, hRest⟩ := Option.bind_eq_some_iff.mp hCall
    obtain ⟨⟨ram, as', code⟩, hRun, hRest⟩ := Option.bind_eq_some_iff.mp hRest
    cases hRest
    exact .asPrepareLoad hAs (ok_of_toOption hRun)
  | asCopy old new =>
    obtain ⟨as, -, hRest⟩ := Option.bind_eq_some_iff.mp hCall
    obtain ⟨-, hRest⟩ := Option.ite_none_right_eq_some.mp hRest
    obtain ⟨⟨ram, mem, copy⟩, hRun, hRest⟩ := Option.bind_eq_some_iff.mp hRest
    cases hRest
    exact .asCopy (ok_of_toOption hRun)
  | asDestroy h =>
    obtain ⟨-, hSome⟩ := Option.ite_none_left_eq_some.mp hCall
    cases hSome
    exact .asDestroy
  | allocKpages npages =>
    rcases hPages : getppages s.ram npages with ⟨pa, ram⟩
    unfold VmState.call at hCall
    simp only [hPages] at hCall
    split at hCall
    · cases hCall
      exact .allocKpages hPages
    · cases hCall
      exact .allocKpages hPages

/-- A copy loads an address space that has no memory yet, and may then give it up. -/
theorem asCopy_ok {r ram : Ram} {mem mem' : Contents} {old : AddrSpace} {copy : Option AddrSpace}
    (h : asCopy r mem old = .ok (ram, mem', copy)) :
    ∃ fresh new code, (∀ i, fresh.pbase i = 0) ∧
      asPrepareLoad r fresh = .ok (ram, new, code) ∧ (copy = none ∨ copy = some new) := by
  obtain ⟨⟨ram1, new, code⟩, hLoad, hRest⟩ := bind_eq_ok.mp h
  have hZero := (asPrepareLoad_cases hLoad).1
  dsimp only at hRest
  split at hRest
  · cases hRest
    exact ⟨_, new, code, hZero, hLoad, Or.inl rfl⟩
  · split at hRest
    · cases hRest
    · cases hRest
      exact ⟨_, new, code, hZero, hLoad, Or.inr rfl⟩

theorem Inv.asCopy {firstpaddr lastpaddr : Word} {new : H} {old : AddrSpace} {ram : Ram}
    {mem : Contents} {copy : Option AddrSpace} (h : Inv firstpaddr lastpaddr s)
    (hCopied : OS161.asCopy s.ram s.mem old = .ok (ram, mem, copy)) :
    Inv firstpaddr lastpaddr { s with
      ram, mem, spaces := Function.update s.spaces new copy
      prepared := Function.update s.prepared new copy.isSome } := by
  obtain ⟨fresh, loaded, code, hFresh, hLoad, hCopy⟩ := asCopy_ok hCopied
  obtain ⟨hSub, hLast⟩ := ram_asPrepareLoad hLoad
  refine ⟨hLast.trans h.lastpaddr, ?_, ?_⟩
  · apply h.empty.replace rfl
    · intro h' hh
      exact Function.update_of_ne hh _ _
    · intro as' hAs' hPrepared
      dsimp only at hPrepared
      rw [Function.update_self, hAs'] at hPrepared
      cases hPrepared
  · intro hNoWrap
    have hFreshRefined : Refined firstpaddr.toNat
        { s with spaces := Function.update s.spaces new (some fresh) } := by
      refine (h.refined fun q hq => hNoWrap q (hSub hq)).replace (h := new) rfl rfl rfl ?_
      rintro _ ⟨⟩
      exact hFresh
    have hLoaded := hFreshRefined.prepareLoad (Function.update_self ..) hLoad hNoWrap
    dsimp only at hLoaded
    rw [Function.update_idem] at hLoaded
    rcases hCopy with rfl | rfl
    · -- the failed copy is destroyed
      refine hLoaded.replace (h := new) (Function.update_idem _ _ _).symm rfl rfl ?_
      intro _ hNone
      cases hNone
    · obtain ⟨A, hLo, hA⟩ := hLoaded
      exact ⟨A, hLo, hA.next, hA.hi, hA.owned⟩

theorem Inv.allocKpages {firstpaddr lastpaddr npages pa : Word} {ram : Ram}
    {kblocks : List (Word × Word)} (h : Inv firstpaddr lastpaddr s)
    (hPages : getppages s.ram npages = (pa, ram))
    (hCall : s.call (.allocKpages npages) = some { s with ram, kblocks }) :
    Inv firstpaddr lastpaddr { s with ram, kblocks } := by
  obtain ⟨hRequests, hLast⟩ := requests_getppages hPages
  refine ⟨hLast.trans h.lastpaddr, h.empty, ?_⟩
  intro hNoWrap
  unfold NoWrap at hNoWrap
  rw [hRequests] at hNoWrap
  apply (h.refined fun q hq => hNoWrap q (List.mem_cons_of_mem _ hq)).allocKpages _ hCall
  exact hNoWrap _ List.mem_cons_self

/-- **Step lemma.** -/
theorem Inv.step {firstpaddr lastpaddr : Word} {c : VmCall H} (h : Inv firstpaddr lastpaddr s)
    (hFirst : DefinesFirst s c) (hCall : s.call c = some t) : Inv firstpaddr lastpaddr t := by
  cases does_of_call hCall with
  | asCreate =>
    have hZero : ∀ as' ∈ some asCreate, ∀ i, as'.pbase i = 0 := by
      rintro _ ⟨⟩ i
      cases i <;> rfl
    exact ⟨h.lastpaddr,
      h.empty.replace rfl (fun _ _ => rfl) fun as' hAs' _ => hZero as' hAs',
      fun hNoWrap => (h.refined hNoWrap).replace rfl rfl rfl hZero⟩
  | @asDefineRegion h' as vaddr sz hAs =>
    have hZero : ∀ as' ∈ some (asDefineRegion as vaddr sz).1, ∀ i, as'.pbase i = 0 := by
      rintro _ ⟨⟩ i
      rw [pbase_asDefineRegion]
      exact h.empty h' as hAs hFirst i
    exact ⟨h.lastpaddr,
      h.empty.replace rfl (fun _ _ => rfl) fun as' hAs' _ => hZero as' hAs',
      fun hNoWrap => (h.refined hNoWrap).replace rfl rfl rfl hZero⟩
  | asPrepareLoad hAs hLoad =>
    obtain ⟨hSub, hLast⟩ := ram_asPrepareLoad hLoad
    refine ⟨hLast.trans h.lastpaddr, ?_, ?_⟩
    · apply h.empty.replace rfl
      · intro h'' hh
        exact Function.update_of_ne hh _ _
      · intro _ _ hPrepared
        dsimp only at hPrepared
        rw [Function.update_self] at hPrepared
        cases hPrepared
    · intro hNoWrap
      obtain ⟨A, hLo, hA⟩ :=
        (h.refined fun q hq => hNoWrap q (hSub hq)).prepareLoad hAs hLoad hNoWrap
      exact ⟨A, hLo, hA.next, hA.hi, hA.owned⟩
  | asCopy hCopy => exact h.asCopy hCopy
  | asDestroy =>
    have hNone : ∀ as' ∈ (none : Option AddrSpace), ∀ i, as'.pbase i = 0 := by
      intro _ hMem
      cases hMem
    refine ⟨h.lastpaddr, ?_, fun hNoWrap => (h.refined hNoWrap).replace rfl rfl rfl hNone⟩
    exact h.empty.replace rfl (fun h'' hh => Function.update_of_ne hh _ _)
      fun as' hAs' _ => hNone as' hAs'
  | allocKpages hPages => exact h.allocKpages hPages hCall

/-- **Run lemma.** -/
theorem inv_of_run {firstpaddr lastpaddr : Word} {mem : Contents} {tr : List (VmCall H)}
    (h : Run (Guarded VmStep DefinesFirst) (boot firstpaddr lastpaddr mem) tr s) :
    Inv firstpaddr lastpaddr s :=
  h.invariant (inv_boot firstpaddr lastpaddr mem) fun _ _ _ hInv hStep =>
    hInv.step hStep.2 hStep.1

end VmState

end Windborne.OS161
