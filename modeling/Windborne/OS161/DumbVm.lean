import Mathlib.Logic.Function.Basic
import Windborne.Library.Results

/-!
# Physical memory and address spaces under `dumbvm.c`

`ram_stealmem`, the address space calls, `alloc_kpages` and `vm_fault` on 32-bit words.
A failed assertion is a panic. Of the constants of the absent `machine/vm.h`, `pageSize` and
`pageFrame` are those of a MIPS page of 4096 bytes; the others are parameters. `getppages` raises
the interrupt level around `ram_stealmem`, which has no effect on a sequence of calls.
-/

namespace Windborne.OS161

open Library

abbrev Word := BitVec 32

def pageSize : Word := 4096

def pageFrame : Word := 0xfffff000

/-- Always 48k of user stack. -/
def dumbvmStackPages : Word := 12

/-- Constants of the machine headers. -/
structure MachineConstants where
  userstack : Word
  tlbloDirty : Word
  tlbloValid : Word
  splHigh : Nat

inductive Panic where
  | assertion
  | panic (message : String)
  deriving DecidableEq

/-- The codes that the calls return; `ok` is 0. -/
inductive Errno where
  | ok
  | ENOMEM
  | EUNIMP
  | EFAULT
  | EINVAL
  deriving DecidableEq

/-! ## Stealing memory -/

/-- The variables of `ram.c`. `requests` records, for every request so far, where
`firstpaddr` stood and how many pages were asked for, the newest first. -/
structure Ram where
  firstpaddr : Word
  lastpaddr : Word
  requests : List (Word × Word)

def ramStealmem (r : Ram) (npages : Word) : Word × Ram :=
  let size := npages * pageSize
  let r := { r with requests := (r.firstpaddr, npages) :: r.requests }
  if r.firstpaddr + size > r.lastpaddr then (0, r)
  else (r.firstpaddr, { r with firstpaddr := r.firstpaddr + size })

def getppages (r : Ram) (npages : Word) : Word × Ram := ramStealmem r npages

/-! ## Address spaces -/

structure AddrSpace where
  vbase1 : Word
  pbase1 : Word
  npages1 : Word
  vbase2 : Word
  pbase2 : Word
  npages2 : Word
  stackpbase : Word
  deriving DecidableEq

/-- The contents of a new address space. -/
def asCreate : AddrSpace :=
  { vbase1 := 0, pbase1 := 0, npages1 := 0, vbase2 := 0, pbase2 := 0, npages2 := 0,
    stackpbase := 0 }

def asDefineRegion (as : AddrSpace) (vaddr sz : Word) : AddrSpace × Errno :=
  let sz := sz + (vaddr &&& ~~~pageFrame)
  let vaddr := vaddr &&& pageFrame
  let sz := (sz + pageSize - 1) &&& pageFrame
  let npages := sz / pageSize
  if as.vbase1 = 0 then ({ as with vbase1 := vaddr, npages1 := npages }, .ok)
  else if as.vbase2 = 0 then ({ as with vbase2 := vaddr, npages2 := npages }, .ok)
  else (as, .EUNIMP)

def asPrepareLoad (r : Ram) (as : AddrSpace) : Except Panic (Ram × AddrSpace × Errno) :=
  if as.pbase1 ≠ 0 ∨ as.pbase2 ≠ 0 ∨ as.stackpbase ≠ 0 then .error .assertion
  else
    let (pbase1, r) := getppages r as.npages1
    if pbase1 = 0 then .ok (r, { as with pbase1 }, .ENOMEM)
    else
      let (pbase2, r) := getppages r as.npages2
      if pbase2 = 0 then .ok (r, { as with pbase1, pbase2 }, .ENOMEM)
      else
        let (stackpbase, r) := getppages r dumbvmStackPages
        .ok (r, { as with pbase1, pbase2, stackpbase }, if stackpbase = 0 then .ENOMEM else .ok)

/-- Bytes of physical memory. -/
abbrev Contents := Word → BitVec 8

def memmove (mem : Contents) (dst src len : Word) : Contents := fun a =>
  if a - dst < len then mem (src + (a - dst)) else mem a

/-- The copy of an address space; `none` with `ENOMEM` when it has been destroyed again. The
kernel addresses of `memmove` differ from the physical ones by a constant. -/
def asCopy (r : Ram) (mem : Contents) (old : AddrSpace) :
    Except Panic (Ram × Contents × Option AddrSpace) := do
  let new := { asCreate with
    vbase1 := old.vbase1, npages1 := old.npages1, vbase2 := old.vbase2, npages2 := old.npages2 }
  let (r, new, result) ← asPrepareLoad r new
  if result ≠ .ok then return (r, mem, none)
  else if new.pbase1 = 0 ∨ new.pbase2 = 0 ∨ new.stackpbase = 0 then throw .assertion
  else
    let mem := memmove mem new.pbase1 old.pbase1 (old.npages1 * pageSize)
    let mem := memmove mem new.pbase2 old.pbase2 (old.npages2 * pageSize)
    let mem := memmove mem new.stackpbase old.stackpbase (dumbvmStackPages * pageSize)
    return (r, mem, some new)

/-! ## Faults -/

inductive FaultType where
  | readonly
  | read
  | write
  | other
  deriving DecidableEq

/-- The assertions of `vm_fault` on the current address space. -/
def SetUp (as : AddrSpace) : Prop :=
  as.vbase1 ≠ 0 ∧ as.pbase1 ≠ 0 ∧ as.npages1 ≠ 0 ∧ as.vbase2 ≠ 0 ∧ as.pbase2 ≠ 0 ∧
    as.npages2 ≠ 0 ∧ as.stackpbase ≠ 0 ∧ as.vbase1 &&& pageFrame = as.vbase1 ∧
    as.pbase1 &&& pageFrame = as.pbase1 ∧ as.vbase2 &&& pageFrame = as.vbase2 ∧
    as.pbase2 &&& pageFrame = as.pbase2 ∧ as.stackpbase &&& pageFrame = as.stackpbase

instance : DecidablePred SetUp := fun _ => inferInstanceAs (Decidable (_ ∧ _))

/-- The middle part of `vm_fault`: the physical address for a page-aligned fault address,
`none` outside the regions and the stack. -/
def faultPaddr (m : MachineConstants) (as : AddrSpace) (faultaddress : Word) :
    Except Panic (Option Word) :=
  if ¬ SetUp as then .error .assertion
  else
    let vtop1 := as.vbase1 + as.npages1 * pageSize
    let vtop2 := as.vbase2 + as.npages2 * pageSize
    let stackbase := m.userstack - dumbvmStackPages * pageSize
    let stacktop := m.userstack
    let paddr :=
      if faultaddress ≥ as.vbase1 ∧ faultaddress < vtop1 then
        some ((faultaddress - as.vbase1) + as.pbase1)
      else if faultaddress ≥ as.vbase2 ∧ faultaddress < vtop2 then
        some ((faultaddress - as.vbase2) + as.pbase2)
      else if faultaddress ≥ stackbase ∧ faultaddress < stacktop then
        some ((faultaddress - stackbase) + as.stackpbase)
      else none
    match paddr with
    | none => .ok none
    | some paddr => if paddr &&& pageFrame = paddr then .ok (some paddr) else .error .assertion

/-- An entry of the TLB. -/
structure TlbEntry where
  ehi : Word
  elo : Word
  deriving DecidableEq

/-- The loop of `vm_fault` over the TLB: the first invalid entry is written. -/
def fillTlb (m : MachineConstants) (entry : TlbEntry) : List TlbEntry → Option (List TlbEntry)
  | [] => none
  | e :: tlb =>
    if e.elo &&& m.tlbloValid ≠ 0 then (fillTlb m entry tlb).map (e :: ·)
    else some (entry :: tlb)

structure Cpu where
  curspl : Nat
  tlb : List TlbEntry
  deriving DecidableEq

/-- `as` is `curthread->t_vmspace`. Without an address space the call returns at the raised
interrupt level. -/
def vmFault (m : MachineConstants) (cpu : Cpu) (as : Option AddrSpace) (faulttype : FaultType)
    (faultaddress : Word) : Except Panic (Errno × Cpu) := do
  let spl := cpu.curspl
  let cpu := { cpu with curspl := m.splHigh }
  let faultaddress := faultaddress &&& pageFrame
  if faulttype = .readonly then throw (.panic "dumbvm: got VM_FAULT_READONLY\n")
  else if faulttype = .other then return (.EINVAL, { cpu with curspl := spl })
  else
    match as with
    | none => return (.EFAULT, cpu)
    | some as =>
      match ← faultPaddr m as faultaddress with
      | none => return (.EFAULT, { cpu with curspl := spl })
      | some paddr =>
        match fillTlb m ⟨faultaddress, paddr ||| m.tlbloDirty ||| m.tlbloValid⟩ cpu.tlb with
        | some tlb => return (.ok, { curspl := spl, tlb := tlb })
        | none => return (.EFAULT, { cpu with curspl := spl })

/-! ## Sequences of calls -/

/-- Memory with the live address spaces, which are named by their addresses, and the blocks
that `alloc_kpages` has handed out. `prepared` records for which address spaces
`as_prepare_load` has been called. -/
structure VmState (H : Type) where
  ram : Ram
  mem : Contents
  spaces : H → Option AddrSpace
  kblocks : List (Word × Word)
  prepared : H → Bool

/-- The state in which no call has been made. -/
def VmState.boot {H : Type} (firstpaddr lastpaddr : Word) (mem : Contents) : VmState H where
  ram := { firstpaddr, lastpaddr, requests := [] }
  mem := mem
  spaces _ := none
  kblocks := []
  prepared _ := false

/-- When `kmalloc` needs a page for a new address space, an `allocKpages` comes before. -/
inductive VmCall (H : Type) where
  | asCreate (new : H)
  | asDefineRegion (as : H) (vaddr sz : Word)
  | asPrepareLoad (as : H)
  | asCopy (old new : H)
  | asDestroy (as : H)
  | allocKpages (npages : Word)

variable {H : Type} [DecidableEq H]

/-- One call; `none` when it panics, or when its arguments are not as the callers' are: an
address that is in use for a new address space, or no address space at an address. -/
def VmState.call (s : VmState H) : VmCall H → Option (VmState H)
  | .asCreate new =>
    if s.spaces new = none then
      some { s with spaces := Function.update s.spaces new (some OS161.asCreate) }
    else none
  | .asDefineRegion h vaddr sz => do
    let as ← s.spaces h
    let (as, _) := OS161.asDefineRegion as vaddr sz
    return { s with spaces := Function.update s.spaces h (some as) }
  | .asPrepareLoad h => do
    let as ← s.spaces h
    let (ram, as, _) ← (OS161.asPrepareLoad s.ram as).toOption
    return { s with
      ram, spaces := Function.update s.spaces h (some as)
      prepared := Function.update s.prepared h true }
  | .asCopy h new => do
    let old ← s.spaces h
    if s.spaces new = none then
      let (ram, mem, copy) ← (OS161.asCopy s.ram s.mem old).toOption
      return { s with
        ram, mem, spaces := Function.update s.spaces new copy
        prepared := Function.update s.prepared new copy.isSome }
    else none
  | .asDestroy h =>
    if s.spaces h = none then none
    else some { s with
      spaces := Function.update s.spaces h none, prepared := Function.update s.prepared h false }
  | .allocKpages npages =>
    let (pa, ram) := getppages s.ram npages
    if pa = 0 then some { s with ram }
    else some { s with ram, kblocks := s.kblocks ++ [(pa, npages)] }

def VmStep (s : VmState H) (c : VmCall H) (t : VmState H) : Prop := s.call c = some t

end Windborne.OS161
