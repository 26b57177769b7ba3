import Mathlib.Data.List.Count
import Mathlib.Data.List.Nodup
import Windborne.OS161.Kernel
import Windborne.OS161.KernelStacks

/-!
# `thread_fork` out of memory

What `thread_fork` does step by step, with an answer for every allocation: `kmalloc` gives a
block or `NULL` (`none`), and the calls that make room return a code. The memory that it writes
is only that of the blocks it was given, so it stands in a record of its own. Two lists record
the blocks that were handed out and the calls of `kfree`.
-/

namespace Windborne.OS161

open Library

/-- What a block is for. -/
inductive BlockUse where
  | thread
  | name
  | table
  | stack
  deriving DecidableEq

structure Pcb where
  pcbSwitchstack : Word
  pcbKstack : Word
  pcbIninterrupt : Nat
  pcbBadfaultfunc : Option Word

/-- `struct thread`. -/
structure ThreadFields where
  tPcb : Pcb
  tName : Option Word
  tSleepaddr : Option Word
  tStack : Option Word
  pid : Int
  exitStatus : Int
  parent : Option Word
  prosExit : Int
  numchilds : Int
  tVmspace : Option Word
  tCwd : Option Word

/-- The registers of a switch frame that `md_initpcb` does not leave at zero. -/
structure Switchframe where
  sfS0 : Word
  sfS1 : Word
  sfS2 : Word
  sfRa : Word

/-- The contents of the blocks: thread structures, names, process tables and stacks. -/
structure Blocks where
  thread : Word → ThreadFields
  text : Word → String
  table : Word → Nat → Option Word
  byte : Word → UInt8
  switchframe : Word → Option Switchframe

/-- An array or a queue, and for how many it has space. -/
structure Guys where
  guys : List Word
  room : Nat

/-- The reference counts of the vnodes, which the file system keeps. -/
structure VnodeOps (ν : Type) where
  refcount : ν → Word → Int
  vopIncref : Word → ν → ν
  vopDecref : Word → ν → ν
  refcount_incref (v : ν) (vn d : Word) :
    refcount (vopIncref vn v) d = if d = vn then refcount v d + 1 else refcount v d
  refcount_decref (v : ν) (vn d : Word) (h : 1 < refcount v vn) :
    refcount (vopDecref vn v) d = if d = vn then refcount v d - 1 else refcount v d

/-- The constants of `machine/pcb.h`, and the address of `mips_threadstart`. -/
structure PcbConfig extends KernelConfig where
  stackSize : Word
  switchframeSize : Word
  mipsThreadstart : Word

/-- The variables that a `thread_fork` reads and writes. -/
structure ForkVars (ν : Type) where
  curthread : Word
  blocks : Blocks
  sleepers : Guys
  zombies : Guys
  runqueue : Guys
  numthreads : Nat
  numprocesses : Int
  fullProcessTable : Option Word
  curspl : Nat
  vnodes : ν
  allocated : List (BlockUse × Word)
  freed : List Word

/-- What the allocations of a `thread_fork` answer. -/
structure Answers where
  thread : Option Word
  name : Option Word
  table : Option Word
  stack : Option Word
  sleepers : Int
  zombies : Int
  scheduler : Int
  runnable : Int

def enomem : Int := 4

/-! ## Arrays and queues -/

namespace Guys

/-- `array_preallocate` and `q_preallocate`. -/
def preallocate (a : Guys) (nguys : Nat) (answer : Int) : Int × Guys :=
  (answer, if answer = 0 then { a with room := max a.room nguys } else a)

/-- It does not fail if no extension is required. -/
def qAddtail (q : Guys) (guy : Word) (answer : Int) : Int × Guys :=
  if q.guys.length < q.room ∨ answer = 0 then
    (0, { guys := q.guys ++ [guy], room := max q.room (q.guys.length + 1) })
  else (answer, q)

theorem guys_preallocate (a : Guys) (nguys : Nat) (answer : Int) :
    (a.preallocate nguys answer).2.guys = a.guys := by
  unfold preallocate
  dsimp only
  split
  · rfl
  · rfl

theorem guys_qAddtail (q : Guys) (guy : Word) (answer : Int) :
    (q.qAddtail guy answer).2.guys =
      if (q.qAddtail guy answer).1 = 0 then q.guys ++ [guy] else q.guys := by
  unfold qAddtail
  split
  · rfl
  · rename_i hFull
    have hAnswer : answer ≠ 0 := fun h => hFull (Or.inr h)
    exact (if_neg hAnswer).symm

end Guys

namespace ForkVars

variable {ν : Type}

/-! ## Memory -/

def kmalloc (s : ForkVars ν) (use : BlockUse) (answer : Option Word) :
    Option Word × ForkVars ν :=
  (answer, { s with allocated := answer.toList.map (Prod.mk use) ++ s.allocated })

def kfree (s : ForkVars ν) (block : Option Word) : ForkVars ν :=
  { s with freed := block.toList ++ s.freed }

def setThread (s : ForkVars ν) (t : Word) (f : ThreadFields → ThreadFields) : ForkVars ν :=
  { s with blocks := { s.blocks with
      thread := Function.update s.blocks.thread t (f (s.blocks.thread t)) } }

def setByte (s : ForkVars ν) (address : Word) (b : UInt8) : ForkVars ν :=
  { s with blocks := { s.blocks with byte := Function.update s.blocks.byte address b } }

def kstrdup (s : ForkVars ν) (str : String) (answer : Option Word) :
    Option Word × ForkVars ν :=
  let (copy, s) := s.kmalloc .name answer
  match copy with
  | none => (none, s)
  | some copy =>
    (some copy, { s with blocks := { s.blocks with
      text := Function.update s.blocks.text copy str } })

/-! ## Interrupt level -/

def splx (s : ForkVars ν) (newspl : Nat) : Nat × ForkVars ν :=
  (s.curspl, { s with curspl := newspl })

def splhigh (c : PcbConfig) (s : ForkVars ν) : Nat × ForkVars ν := s.splx c.splHigh

/-! ## `thread.c` -/

/-- `full_process_table[i] = NULL`. -/
def clearEntry (s : ForkVars ν) (i : Nat) : Except Halt (ForkVars ν) :=
  match s.fullProcessTable with
  | none => .error .nullPointer
  | some table => .ok { s with blocks := { s.blocks with
      table := Function.update s.blocks.table table
        (Function.update (s.blocks.table table) i none) } }

/-- The loop of `fptInitialize` from `i` on, for `n` more entries. -/
def fptLoop (s : ForkVars ν) (i : Nat) : Nat → Except Halt (ForkVars ν)
  | 0 => .ok s
  | n + 1 => do
    let s ← s.clearEntry i
    s.fptLoop (i + 1) n

def fptInitialize (s : ForkVars ν) (o : Answers) : Except Halt (ForkVars ν) :=
  let (fullProcessTable, s) := s.kmalloc .table o.table
  { s with fullProcessTable }.fptLoop 0 128

/-- The fields that `thread_create` sets after the name; `t_pcb` stays as it is in the block. -/
def created (th : ThreadFields) : ThreadFields :=
  { th with
    tSleepaddr := none, tStack := none, tVmspace := none, tCwd := none, pid := 0
    exitStatus := -1, parent := none, prosExit := 0, numchilds := 0 }

def threadCreate (s : ForkVars ν) (o : Answers) (name : String) :
    Except Halt (Option Word × ForkVars ν) :=
  let (thread, s) := s.kmalloc .thread o.thread
  match thread with
  | none => .ok (none, s)
  | some thread =>
    let (tName, s) := s.kstrdup name o.name
    let s := s.setThread thread fun th => { th with tName }
    match tName with
    | none => .ok (none, s.kfree (some thread))
    | some _ => do
      let s := s.setThread thread created
      let s ← if s.numprocesses = 0 then s.fptInitialize o else .ok s
      return (some thread, s)

def stackMagic (s : ForkVars ν) (stack : Word) : ForkVars ν :=
  let s := s.setByte stack 0xae
  let s := s.setByte (stack + 1) 0x11
  let s := s.setByte (stack + 2) 0xda
  s.setByte (stack + 3) 0x33

def inheritCwd (ops : VnodeOps ν) (s : ForkVars ν) (newguy : Word) : ForkVars ν :=
  match (s.blocks.thread s.curthread).tCwd with
  | none => s
  | some cwd =>
    { s with vnodes := ops.vopIncref cwd s.vnodes }.setThread newguy
      fun th => { th with tCwd := some cwd }

def mdInitpcb (c : PcbConfig) (s : ForkVars ν) (newguy stack data1 data2 func : Word) :
    ForkVars ν :=
  let stacktop := stack + c.stackSize
  let sf := stacktop - c.switchframeSize
  let s := s.setThread newguy fun th => { th with tPcb := {
    pcbBadfaultfunc := none, pcbKstack := stacktop, pcbSwitchstack := sf, pcbIninterrupt := 0 } }
  { s with blocks := { s.blocks with
    switchframe := Function.update s.blocks.switchframe sf (some {
      sfS0 := data1, sfS1 := data2, sfS2 := func, sfRa := c.mipsThreadstart }) } }

def schedulerPreallocate (s : ForkVars ν) (nthreads : Nat) (answer : Int) :
    Except Halt (Int × ForkVars ν) :=
  if s.curspl = 0 then .error .curspl
  else
    let (result, runqueue) := s.runqueue.preallocate nthreads answer
    .ok (result, { s with runqueue })

def makeRunnable (s : ForkVars ν) (t : Word) (answer : Int) : Except Halt (Int × ForkVars ν) :=
  if s.curspl = 0 then .error .curspl
  else
    let (result, runqueue) := s.runqueue.qAddtail t answer
    .ok (result, { s with runqueue })

/-- The four calls with interrupts off, up to the first that fails. -/
def enqueue (s : ForkVars ν) (o : Answers) (newguy : Word) : Except Halt (Int × ForkVars ν) := do
  let (result, sleepers) := s.sleepers.preallocate (s.numthreads + 1) o.sleepers
  let s := { s with sleepers }
  if result ≠ 0 then return (result, s)
  let (result, zombies) := s.zombies.preallocate (s.numthreads + 1) o.zombies
  let s := { s with zombies }
  if result ≠ 0 then return (result, s)
  let (result, s) ← s.schedulerPreallocate (s.numthreads + 1) o.scheduler
  if result ≠ 0 then return (result, s)
  s.makeRunnable newguy o.runnable

/-- What stands at the label `fail`. -/
def fail (ops : VnodeOps ν) (s : ForkVars ν) (newguy : Word) (spl : Nat) : ForkVars ν :=
  let (_, s) := s.splx spl
  let s := match (s.blocks.thread newguy).tCwd with
    | none => s
    | some cwd => { s with vnodes := ops.vopDecref cwd s.vnodes }
  let s := s.kfree (s.blocks.thread newguy).tStack
  let s := s.kfree (s.blocks.thread newguy).tName
  s.kfree (some newguy)

/-- What it returns, and what it stores at `ret` if `wanted`, that is, if `ret` is not `NULL`. -/
def threadFork (c : PcbConfig) (ops : VnodeOps ν) (s : ForkVars ν) (o : Answers) (name : String)
    (data1 data2 func : Word) (wanted : Bool) :
    Except Halt ((Int × Option Word) × ForkVars ν) := do
  let (newguy, s) ← s.threadCreate o name
  match newguy with
  | none => return ((enomem, none), s)
  | some newguy =>
    let (tStack, s) := s.kmalloc .stack o.stack
    let s := s.setThread newguy fun th => { th with tStack }
    match tStack with
    | none =>
      let s := s.kfree (s.blocks.thread newguy).tName
      return ((enomem, none), s.kfree (some newguy))
    | some stack =>
      let s := s.stackMagic stack
      let s := s.inheritCwd ops newguy
      let s := s.mdInitpcb c newguy stack data1 data2 func
      let (spl, s) := s.splhigh c
      let (result, s) ← s.enqueue o newguy
      if result ≠ 0 then return ((result, none), s.fail ops newguy spl)
      let s := { s with numthreads := s.numthreads + 1 }
      let (_, s) := s.splx spl
      return ((0, if wanted then some newguy else none), s)

/-! ## Atomicity -/

/-- The current directory of the current thread. -/
def cwd (s : ForkVars ν) : Option Word := (s.blocks.thread s.curthread).tCwd

/-- The blocks that have been handed out for the new thread itself. -/
def ownBlocks (allocated : List (BlockUse × Word)) : List Word :=
  (allocated.filter fun block => block.1 ≠ .table).map Prod.snd

/-- `thread_fork` has returned 0: there is a new thread, and nothing was freed. -/
structure Started (ops : VnodeOps ν) (s s' : ForkVars ν) : Prop where
  runqueue : ∃ newguy, s'.runqueue.guys = s.runqueue.guys ++ [newguy] ∧
    ∃ blocks, s'.allocated = blocks ++ s.allocated ∧ (.thread, newguy) ∈ blocks
  sleepers : s'.sleepers.guys = s.sleepers.guys
  zombies : s'.zombies.guys = s.zombies.guys
  numthreads : s'.numthreads = s.numthreads + 1
  refcount : ∀ vn, ops.refcount s'.vnodes vn = ops.refcount s.vnodes vn +
    if s.cwd = some vn then 1 else 0
  curspl : s'.curspl = s.curspl
  freed : s'.freed = s.freed

/-- `thread_fork` has failed: all is as before, and what was handed out for the thread
structure, the name and the stack has been freed once. -/
structure Unwound (ops : VnodeOps ν) (s s' : ForkVars ν) : Prop where
  runqueue : s'.runqueue.guys = s.runqueue.guys
  sleepers : s'.sleepers.guys = s.sleepers.guys
  zombies : s'.zombies.guys = s.zombies.guys
  numthreads : s'.numthreads = s.numthreads
  refcount : ∀ vn, ops.refcount s'.vnodes vn = ops.refcount s.vnodes vn
  curspl : s'.curspl = s.curspl
  freed : ∃ blocks, s'.allocated = blocks ++ s.allocated ∧
    ∀ block, s'.freed.count block = s.freed.count block +
      if block ∈ ownBlocks blocks then 1 else 0

/-- It does all or nothing, and does not store through `NULL`. -/
def Atomic (c : PcbConfig) (ops : VnodeOps ν) (s : ForkVars ν) (o : Answers) (name : String)
    (data1 data2 func : Word) (wanted : Bool) : Prop :=
  ∃ result ret s', s.threadFork c ops o name data1 data2 func wanted = .ok ((result, ret), s') ∧
    (result = 0 ∧ Started ops s s' ∨ result ≠ 0 ∧ Unwound ops s s')

/-- `kmalloc` does not hand out a block that is in use. -/
structure Fresh (s : ForkVars ν) (o : Answers) : Prop where
  nodup : (o.thread.toList ++ o.name.toList ++ o.table.toList ++ o.stack.toList).Nodup
  curthread : o.thread ≠ some s.curthread

/-- The current thread has a reference to its directory. -/
def CwdHeld (ops : VnodeOps ν) (s : ForkVars ν) : Prop :=
  ∀ vn, s.cwd = some vn → 0 < ops.refcount s.vnodes vn

/-- `fptInitialize` is called and gets no memory. -/
def NoTable (s : ForkVars ν) (o : Answers) : Prop :=
  o.thread ≠ none ∧ o.name ≠ none ∧ s.numprocesses = 0 ∧ o.table = none

variable {c : PcbConfig} {ops : VnodeOps ν} {s s' : ForkVars ν} {o : Answers} {name : String}
  {data1 data2 func newguy tName stack : Word} {wanted : Bool}

/-! ## The process table -/

theorem fptLoop_null (h : s.fullProcessTable = none) (i n : Nat) :
    s.fptLoop i (n + 1) = .error .nullPointer := by
  have hStore : s.clearEntry i = .error .nullPointer := by
    unfold clearEntry
    rw [h]
  rw [fptLoop, hStore, error_bind]

/-- The loop writes to the table only, and leaves `NULL` behind. -/
theorem fptLoop_some {table : Word} (h : s.fullProcessTable = some table) (i n : Nat) :
    ∃ tables, s.fptLoop i n = .ok { s with blocks := { s.blocks with table := tables } } ∧
      (∀ j, j < i → tables table j = s.blocks.table table j) ∧
      ∀ j, i ≤ j → j < i + n → tables table j = none := by
  induction n generalizing s i with
  | zero => exact ⟨s.blocks.table, rfl, fun _ _ => rfl, fun j hLow hHigh => by omega⟩
  | succ n ih =>
    have hStore : s.clearEntry i = .ok { s with blocks := { s.blocks with
        table := Function.update s.blocks.table table
          (Function.update (s.blocks.table table) i none) } } := by
      unfold clearEntry
      rw [h]
    rw [fptLoop, hStore, ok_bind]
    obtain ⟨tables, hLoop, hBefore, hAfter⟩ := ih (s := { s with blocks := { s.blocks with
      table := Function.update s.blocks.table table
        (Function.update (s.blocks.table table) i none) } }) h (i + 1)
    dsimp only at hBefore
    rw [Function.update_self] at hBefore
    refine ⟨tables, hLoop, ?_, ?_⟩
    · intro j hj
      rw [hBefore j (by omega), Function.update_of_ne (by omega)]
    · intro j hLow hHigh
      by_cases hEq : j = i
      · rw [hEq, hBefore i (by omega), Function.update_self]
      · exact hAfter j (by omega) (by omega)

theorem fptInitialize_null (h : o.table = none) : s.fptInitialize o = .error .nullPointer := by
  unfold fptInitialize kmalloc
  rw [h]
  exact fptLoop_null rfl 0 127

/-- A new table has no entries. -/
theorem fptInitialize_some {table : Word} (h : o.table = some table) :
    ∃ tables, s.fptInitialize o = .ok { s with
        allocated := (.table, table) :: s.allocated
        fullProcessTable := some table
        blocks := { s.blocks with table := tables } } ∧
      ∀ j, j < 128 → tables table j = none := by
  unfold fptInitialize kmalloc
  rw [h]
  obtain ⟨tables, hLoop, -, hEntries⟩ := fptLoop_some (s := { s with
    allocated := (.table, table) :: s.allocated, fullProcessTable := some table }) rfl 0 128
  exact ⟨tables, hLoop, fun j hj => hEntries j (Nat.zero_le j) (by omega)⟩

/-! ## `thread_create` -/

theorem threadCreate_noThread (h : o.thread = none) :
    s.threadCreate o name = .ok (none, s) := by
  unfold threadCreate kmalloc
  rw [h]
  rfl

theorem threadCreate_noName (s : ForkVars ν) (name : String)
    (hThread : o.thread = some newguy) (hName : o.name = none) :
    ∃ blocks, s.threadCreate o name = .ok (none, { s with
      blocks, allocated := (.thread, newguy) :: s.allocated, freed := newguy :: s.freed }) := by
  unfold threadCreate kstrdup kmalloc
  rw [hThread, hName]
  exact ⟨_, rfl⟩

/-- A thread structure with a name, after which the process table is made if need be. -/
theorem threadCreate_some (s : ForkVars ν) (name : String) (hThread : o.thread = some newguy)
    (hName : o.name = some tName) :
    ∃ blocks, s.threadCreate o name = (do
        let s := { s with
          blocks, allocated := (.name, tName) :: (.thread, newguy) :: s.allocated }
        let s ← if s.numprocesses = 0 then s.fptInitialize o else .ok s
        return (some newguy, s)) ∧
      blocks.thread = Function.update s.blocks.thread newguy
        { created (s.blocks.thread newguy) with tName := some tName } := by
  unfold threadCreate kstrdup kmalloc
  rw [hThread, hName]
  refine ⟨_, rfl, ?_⟩
  simp only [setThread, Function.update_self, Function.update_idem, created]

theorem threadCreate_null (h : NoTable s o) :
    s.threadCreate o name = .error .nullPointer := by
  obtain ⟨hThread, hName, hNum, hTable⟩ := h
  obtain ⟨newguy, hThread⟩ := Option.ne_none_iff_exists'.mp hThread
  obtain ⟨tName, hName⟩ := Option.ne_none_iff_exists'.mp hName
  obtain ⟨blocks, hCreate, -⟩ := threadCreate_some s name hThread hName
  rw [hCreate]
  dsimp only
  rw [if_pos hNum, fptInitialize_null hTable, error_bind]

theorem threadCreate_ok (name : String) (hThread : o.thread = some newguy)
    (hName : o.name = some tName) (hTable : ¬NoTable s o) :
    ∃ blocks fullProcessTable tables, s.threadCreate o name = .ok (some newguy, { s with
        blocks, fullProcessTable
        allocated := tables ++ (.name, tName) :: (.thread, newguy) :: s.allocated }) ∧
      ownBlocks tables = [] ∧
      blocks.thread = Function.update s.blocks.thread newguy
        { created (s.blocks.thread newguy) with tName := some tName } := by
  obtain ⟨blocks, hCreate, hBlocks⟩ := threadCreate_some s name hThread hName
  rw [hCreate]
  dsimp only
  by_cases hNum : s.numprocesses = 0
  · rw [if_pos hNum]
    obtain ⟨table, hSome⟩ : ∃ table, o.table = some table := by
      apply Option.ne_none_iff_exists'.mp
      intro hNone
      apply hTable
      exact ⟨hThread ▸ Option.some_ne_none _, hName ▸ Option.some_ne_none _, hNum, hNone⟩
    obtain ⟨tables, hInit, -⟩ := fptInitialize_some (s := { s with
      blocks, allocated := (.name, tName) :: (.thread, newguy) :: s.allocated }) hSome
    rw [hInit, ok_bind]
    exact ⟨{ blocks with table := tables }, some table, [(.table, table)], rfl, rfl, hBlocks⟩
  · rw [if_neg hNum, ok_bind]
    exact ⟨blocks, s.fullProcessTable, [], rfl, rfl, hBlocks⟩

/-! ## The rest of `thread_fork` -/

theorem inheritCwd_eq (s : ForkVars ν) (ops : VnodeOps ν)
    (hNoCwd : (s.blocks.thread newguy).tCwd = none) :
    s.inheritCwd ops newguy =
      { s.setThread newguy fun th => { th with tCwd := s.cwd } with
        vnodes := s.cwd.elim s.vnodes fun vn => ops.vopIncref vn s.vnodes } := by
  unfold inheritCwd cwd
  cases hCwd : (s.blocks.thread s.curthread).tCwd with
  | none =>
    have hSame : { s.blocks.thread newguy with tCwd := none } = s.blocks.thread newguy := by
      rw [← hNoCwd]
    dsimp only [setThread, Option.elim]
    rw [hSame, Function.update_eq_self]
  | some vn => rfl

theorem mdInitpcb_eq (s : ForkVars ν) (c : PcbConfig) (newguy stack data1 data2 func : Word) :
    s.mdInitpcb c newguy stack data1 data2 func =
      { s with blocks := (s.mdInitpcb c newguy stack data1 data2 func).blocks } := rfl

theorem mdInitpcb_newguy (s : ForkVars ν) (c : PcbConfig)
    (newguy stack data1 data2 func : Word) :
    ∃ pcb, (s.mdInitpcb c newguy stack data1 data2 func).blocks.thread newguy =
      { s.blocks.thread newguy with tPcb := pcb } := ⟨_, Function.update_self ..⟩

/-- The new thread before it is put in the run queue. -/
theorem mdInitpcb_inheritCwd (s : ForkVars ν) (c : PcbConfig) (ops : VnodeOps ν)
    (stack data1 data2 func : Word) (hNoCwd : (s.blocks.thread newguy).tCwd = none) :
    ∃ blocks pcb,
      (s.inheritCwd ops newguy).mdInitpcb c newguy stack data1 data2 func =
        { s with
          blocks
          vnodes := s.cwd.elim s.vnodes fun vn => ops.vopIncref vn s.vnodes } ∧
      blocks.thread newguy = { s.blocks.thread newguy with tCwd := s.cwd, tPcb := pcb } := by
  rw [inheritCwd_eq s ops hNoCwd]
  obtain ⟨pcb, hPcb⟩ := mdInitpcb_newguy { s.setThread newguy fun th => { th with tCwd := s.cwd }
    with vnodes := s.cwd.elim s.vnodes fun vn => ops.vopIncref vn s.vnodes }
    c newguy stack data1 data2 func
  rw [mdInitpcb_eq]
  refine ⟨_, pcb, rfl, ?_⟩
  rw [hPcb]
  dsimp only [setThread]
  rw [Function.update_self]

/-- Only bytes of the stack are written. -/
theorem stackMagic_eq (s : ForkVars ν) (stack : Word) :
    ∃ byte, s.stackMagic stack = { s with blocks := { s.blocks with byte := byte } } := ⟨_, rfl⟩

/-- With interrupts off, the thread is in the run queue just if the result is 0. -/
theorem enqueue_spec (o : Answers) (newguy : Word) (hSpl : s.curspl ≠ 0) :
    ∃ result sleepers zombies runqueue,
      s.enqueue o newguy = .ok (result, { s with sleepers, zombies, runqueue }) ∧
      sleepers.guys = s.sleepers.guys ∧ zombies.guys = s.zombies.guys ∧
      runqueue.guys = if result = 0 then s.runqueue.guys ++ [newguy] else s.runqueue.guys := by
  have hSleepers := Guys.guys_preallocate s.sleepers (s.numthreads + 1) o.sleepers
  have hZombies := Guys.guys_preallocate s.zombies (s.numthreads + 1) o.zombies
  have hRunqueue := Guys.guys_preallocate s.runqueue (s.numthreads + 1) o.scheduler
  unfold enqueue schedulerPreallocate makeRunnable
  dsimp only
  by_cases hFirst : (s.sleepers.preallocate (s.numthreads + 1) o.sleepers).1 ≠ 0
  · rw [if_pos hFirst]
    exact ⟨_, _, s.zombies, s.runqueue, rfl, hSleepers, rfl, (if_neg hFirst).symm⟩
  rw [if_neg hFirst]
  by_cases hSecond : (s.zombies.preallocate (s.numthreads + 1) o.zombies).1 ≠ 0
  · rw [if_pos hSecond]
    exact ⟨_, _, _, s.runqueue, rfl, hSleepers, hZombies, (if_neg hSecond).symm⟩
  rw [if_neg hSecond, if_neg hSpl, ok_bind]
  dsimp only
  by_cases hThird : (s.runqueue.preallocate (s.numthreads + 1) o.scheduler).1 ≠ 0
  · rw [if_pos hThird]
    exact ⟨_, _, _, _, rfl, hSleepers, hZombies, hRunqueue.trans (if_neg hThird).symm⟩
  rw [if_neg hThird, if_neg hSpl]
  refine ⟨_, _, _, _, rfl, hSleepers, hZombies, ?_⟩
  rw [Guys.guys_qAddtail, hRunqueue]

/-! ## What is undone -/

theorem refcount_inherit (ops : VnodeOps ν) (cwd : Option Word) (v : ν) (vn : Word) :
    ops.refcount (cwd.elim v fun d => ops.vopIncref d v) vn =
      ops.refcount v vn + if cwd = some vn then 1 else 0 := by
  cases cwd with
  | none => exact (Int.add_zero _).symm
  | some d =>
    rw [Option.elim, ops.refcount_incref]
    by_cases hEq : vn = d
    · rw [if_pos hEq, if_pos (congrArg some hEq.symm)]
    · have hNe : some d ≠ some vn := fun h => hEq (Option.some.inj h).symm
      rw [if_neg hEq, if_neg hNe, Int.add_zero]

/-- The reference to a directory that was held before is given back. -/
theorem refcount_decref_incref {v : ν} {d : Word} (hHeld : 0 < ops.refcount v d) (vn : Word) :
    ops.refcount (ops.vopDecref d (ops.vopIncref d v)) vn = ops.refcount v vn := by
  have hTwo : 1 < ops.refcount (ops.vopIncref d v) d := by
    rw [ops.refcount_incref, if_pos rfl]
    omega
  rw [ops.refcount_decref _ _ _ hTwo, ops.refcount_incref]
  by_cases hEq : vn = d
  · rw [if_pos hEq, if_pos hEq]
    omega
  · rw [if_neg hEq, if_neg hEq]

/-- Calls of `kfree` for different blocks. -/
theorem count_frees {frees own freed : List Word} (hPerm : frees.Perm own) (hNodup : own.Nodup)
    (block : Word) :
    (frees ++ freed).count block = freed.count block + if block ∈ own then 1 else 0 := by
  rw [List.count_append, hPerm.count_eq, hNodup.count, Nat.add_comm]

theorem Fresh.own (h : Fresh s o) :
    (o.stack.toList ++ (o.name.toList ++ o.thread.toList)).Nodup := by
  have hNodup := h.nodup
  simp only [List.nodup_append, List.mem_append] at hNodup ⊢
  grind

theorem ownBlocks_append (blocks rest : List (BlockUse × Word)) :
    ownBlocks (blocks ++ rest) = ownBlocks blocks ++ ownBlocks rest := by
  unfold ownBlocks
  rw [List.filter_append, List.map_append]

/-! ## The ways through `thread_fork` -/

theorem Atomic.of_unwound {result : Int} {ret : Option Word}
    (hFork : s.threadFork c ops o name data1 data2 func wanted = .ok ((result, ret), s'))
    (hResult : result ≠ 0) (hUnwound : Unwound ops s s') :
    Atomic c ops s o name data1 data2 func wanted :=
  ⟨result, ret, s', hFork, Or.inr ⟨hResult, hUnwound⟩⟩

/-- No memory for the process table. -/
theorem not_atomic_null (h : NoTable s o) :
    ¬Atomic c ops s o name data1 data2 func wanted := by
  rintro ⟨result, ret, s', hFork, -⟩
  unfold threadFork at hFork
  rw [threadCreate_null h, error_bind] at hFork
  cases hFork

theorem threadFork_noThread (hThread : o.thread = none) :
    s.threadFork c ops o name data1 data2 func wanted = .ok ((enomem, none), s) := by
  unfold threadFork
  rw [threadCreate_noThread hThread]
  rfl

theorem atomic_noThread (hThread : o.thread = none) :
    Atomic c ops s o name data1 data2 func wanted := by
  have hFork : s.threadFork c ops o name data1 data2 func wanted = .ok ((enomem, none), s) :=
    threadFork_noThread hThread
  refine .of_unwound hFork (by decide) ⟨rfl, rfl, rfl, rfl, fun _ => rfl, rfl, [], rfl, ?_⟩
  intro block
  rfl

theorem threadFork_noName (c : PcbConfig) (ops : VnodeOps ν) (s : ForkVars ν) (name : String)
    (data1 data2 func : Word) (wanted : Bool) (hThread : o.thread = some newguy)
    (hName : o.name = none) :
    ∃ blocks, s.threadFork c ops o name data1 data2 func wanted = .ok ((enomem, none), { s with
      blocks, allocated := (.thread, newguy) :: s.allocated, freed := newguy :: s.freed }) := by
  obtain ⟨blocks, hCreate⟩ := threadCreate_noName s name hThread hName
  unfold threadFork
  rw [hCreate]
  exact ⟨blocks, rfl⟩

theorem atomic_noName (hThread : o.thread = some newguy) (hName : o.name = none) :
    Atomic c ops s o name data1 data2 func wanted := by
  obtain ⟨blocks, hFork⟩ :=
    threadFork_noName c ops s name data1 data2 func wanted hThread hName
  refine .of_unwound hFork (by decide)
    ⟨rfl, rfl, rfl, rfl, fun _ => rfl, rfl, [(.thread, newguy)], rfl, ?_⟩
  exact count_frees (List.Perm.refl [newguy]) (List.nodup_singleton newguy)

/-- Without a stack, the structure and the name are given back. -/
theorem threadFork_noStack (c : PcbConfig) (ops : VnodeOps ν) (name : String)
    (data1 data2 func : Word) (wanted : Bool) (hThread : o.thread = some newguy)
    (hName : o.name = some tName) (hTable : ¬NoTable s o) (hStack : o.stack = none) :
    ∃ fullProcessTable tables, ownBlocks tables = [] ∧ ∃ blocks,
      s.threadFork c ops o name data1 data2 func wanted = .ok ((enomem, none), { s with
        blocks, fullProcessTable
        allocated := tables ++ (.name, tName) :: (.thread, newguy) :: s.allocated
        freed := newguy :: tName :: s.freed }) := by
  obtain ⟨blocks, fullProcessTable, tables, hCreate, hOwn, hBlocks⟩ :=
    threadCreate_ok name hThread hName hTable
  have hText : (blocks.thread newguy).tName = some tName := by
    rw [hBlocks, Function.update_self]
  refine ⟨fullProcessTable, tables, hOwn, ?_⟩
  unfold threadFork
  rw [hCreate, ok_bind]
  dsimp only [kmalloc, setThread, kfree]
  rw [hStack, Function.update_self, hText]
  exact ⟨_, rfl⟩

theorem atomic_noStack (hFresh : Fresh s o) (hThread : o.thread = some newguy)
    (hName : o.name = some tName) (hTable : ¬NoTable s o) (hStack : o.stack = none) :
    Atomic c ops s o name data1 data2 func wanted := by
  obtain ⟨fullProcessTable, tables, hOwn, blocks, hFork⟩ :=
    threadFork_noStack c ops name data1 data2 func wanted hThread hName hTable hStack
  have hNodup := hFresh.own
  rw [hThread, hName, hStack] at hNodup
  refine .of_unwound hFork (by decide) ⟨rfl, rfl, rfl, rfl, fun _ => rfl, rfl,
    tables ++ [(.name, tName), (.thread, newguy)], ?_, ?_⟩
  · rw [List.append_assoc]
    rfl
  rw [ownBlocks_append, hOwn]
  exact count_frees (List.Perm.swap tName newguy []) hNodup

/-- `thread_fork` has got all blocks and has turned interrupts off. -/
structure Ready (c : PcbConfig) (ops : VnodeOps ν) (s : ForkVars ν) (newguy tName stack : Word)
    (high : ForkVars ν) : Prop where
  curthread : high.curthread = s.curthread
  sleepers : high.sleepers = s.sleepers
  zombies : high.zombies = s.zombies
  runqueue : high.runqueue = s.runqueue
  numthreads : high.numthreads = s.numthreads
  curspl : high.curspl = c.splHigh
  vnodes : high.vnodes = s.cwd.elim s.vnodes fun vn => ops.vopIncref vn s.vnodes
  allocated : ∃ tables, ownBlocks tables = [] ∧ high.allocated =
    ((.stack, stack) :: tables ++ [(.name, tName), (.thread, newguy)]) ++ s.allocated
  freed : high.freed = s.freed
  name : (high.blocks.thread newguy).tName = some tName
  stack : (high.blocks.thread newguy).tStack = some stack
  cwd : (high.blocks.thread newguy).tCwd = s.cwd

/-- The stack, and the store to `t_stack`. -/
def stacked (s : ForkVars ν) (newguy stack : Word) : ForkVars ν :=
  (s.kmalloc .stack (some stack)).2.setThread newguy fun th => { th with tStack := some stack }

theorem stacked_newguy (s : ForkVars ν) (newguy stack : Word) :
    (s.stacked newguy stack).blocks.thread newguy =
      { s.blocks.thread newguy with tStack := some stack } := Function.update_self ..

theorem stacked_of_ne {t : Word} (h : t ≠ newguy) :
    (s.stacked newguy stack).blocks.thread t = s.blocks.thread t := Function.update_of_ne h ..

theorem threadFork_of_created {s₁ s₂ ready : ForkVars ν}
    (hCreate : s.threadCreate o name = .ok (some newguy, s₁)) (hStack : o.stack = some stack)
    (hMagic : (s₁.stacked newguy stack).stackMagic stack = s₂)
    (hReady : (s₂.inheritCwd ops newguy).mdInitpcb c newguy stack data1 data2 func = ready) :
    s.threadFork c ops o name data1 data2 func wanted = (do
      let (result, s') ← { ready with curspl := c.splHigh }.enqueue o newguy
      if result ≠ 0 then return ((result, none), s'.fail ops newguy ready.curspl)
      return ((0, if wanted then some newguy else none),
        { s' with numthreads := s'.numthreads + 1, curspl := ready.curspl })) := by
  unfold threadFork
  rw [hCreate, ok_bind, hStack, ← hReady, ← hMagic]
  rfl

/-- What is left are the four calls with interrupts off. -/
theorem threadFork_some (c : PcbConfig) (ops : VnodeOps ν) (name : String)
    (data1 data2 func : Word) (wanted : Bool) (hThread : o.thread = some newguy)
    (hName : o.name = some tName) (hStack : o.stack = some stack) (hTable : ¬NoTable s o)
    (hCurthread : newguy ≠ s.curthread) :
    ∃ high : ForkVars ν, Ready c ops s newguy tName stack high ∧
      s.threadFork c ops o name data1 data2 func wanted = (do
        let (result, s') ← high.enqueue o newguy
        if result ≠ 0 then return ((result, none), s'.fail ops newguy s.curspl)
        return ((0, if wanted then some newguy else none),
          { s' with numthreads := s'.numthreads + 1, curspl := s.curspl })) := by
  obtain ⟨blocks, fullProcessTable, tables, hCreate, hOwn, hBlocks⟩ :=
    threadCreate_ok name hThread hName hTable
  have hNew : blocks.thread newguy =
      { created (s.blocks.thread newguy) with tName := some tName } := by
    rw [hBlocks, Function.update_self]
  have hOld : blocks.thread s.curthread = s.blocks.thread s.curthread := by
    rw [hBlocks, Function.update_of_ne hCurthread.symm]
  let s₁ : ForkVars ν := { s with
    blocks, fullProcessTable
    allocated := tables ++ (.name, tName) :: (.thread, newguy) :: s.allocated }
  obtain ⟨byte, hMagic⟩ := stackMagic_eq (s₁.stacked newguy stack) stack
  let s₂ : ForkVars ν := { s₁.stacked newguy stack with
    blocks := { (s₁.stacked newguy stack).blocks with byte := byte } }
  have hCwd : s₂.cwd = s.cwd :=
    congrArg ThreadFields.tCwd ((stacked_of_ne hCurthread.symm).trans hOld)
  have hStacked : s₂.blocks.thread newguy = { created (s.blocks.thread newguy) with
      tName := some tName, tStack := some stack } :=
    (stacked_newguy s₁ newguy stack).trans
      (congrArg (fun th => { th with tStack := some stack }) hNew)
  have hNoCwd : (s₂.blocks.thread newguy).tCwd = none := congrArg ThreadFields.tCwd hStacked
  obtain ⟨blocks', pcb, hReady, hThread'⟩ :=
    mdInitpcb_inheritCwd s₂ c ops stack data1 data2 func hNoCwd
  rw [hCwd] at hReady
  rw [hStacked, hCwd] at hThread'
  refine ⟨{ s with
    blocks := blocks', fullProcessTable
    curspl := c.splHigh
    vnodes := s.cwd.elim s.vnodes fun vn => ops.vopIncref vn s.vnodes
    allocated := (.stack, stack) :: s₁.allocated }, ?_,
    threadFork_of_created hCreate hStack hMagic hReady⟩
  refine ⟨rfl, rfl, rfl, rfl, rfl, rfl, rfl, ⟨tables, hOwn, ?_⟩, rfl, ?_, ?_, ?_⟩
  · simp [s₁]
  · exact congrArg ThreadFields.tName hThread'
  · exact congrArg ThreadFields.tStack hThread'
  · dsimp only
    rw [hThread']

/-- What stands at `fail` gives back all that the new thread has. -/
theorem fail_eq (s : ForkVars ν) (ops : VnodeOps ν) (spl : Nat)
    (hName : (s.blocks.thread newguy).tName = some tName)
    (hStack : (s.blocks.thread newguy).tStack = some stack) :
    s.fail ops newguy spl = { s with
      curspl := spl
      vnodes := (s.blocks.thread newguy).tCwd.elim s.vnodes fun vn => ops.vopDecref vn s.vnodes
      freed := newguy :: tName :: stack :: s.freed } := by
  unfold fail splx
  dsimp only
  cases hCwd : (s.blocks.thread newguy).tCwd with
  | none =>
    dsimp only [kfree]
    rw [hStack, hName]
    rfl
  | some vn =>
    dsimp only [kfree]
    rw [hStack, hName]
    rfl

theorem atomic_some (hFresh : Fresh s o) (hHeld : CwdHeld ops s)
    (hThread : o.thread = some newguy) (hName : o.name = some tName)
    (hStack : o.stack = some stack) (hTable : ¬NoTable s o) :
    Atomic c ops s o name data1 data2 func wanted := by
  have hCurthread : newguy ≠ s.curthread := by
    intro hEq
    apply hFresh.curthread
    rw [hThread, hEq]
  obtain ⟨high, hReady, hFork⟩ :=
    threadFork_some c ops name data1 data2 func wanted hThread hName hStack hTable hCurthread
  have hSpl : high.curspl ≠ 0 := by
    rw [hReady.curspl]
    exact Nat.pos_iff_ne_zero.mp c.splHigh_pos
  obtain ⟨result, sleepers, zombies, runqueue, hEnqueue, hSleepers, hZombies, hRunqueue⟩ :=
    enqueue_spec o newguy hSpl
  obtain ⟨tables, hOwn, hAllocated⟩ := hReady.allocated
  rw [hEnqueue, ok_bind] at hFork
  dsimp only at hFork
  rw [hReady.runqueue] at hRunqueue
  rw [hReady.sleepers] at hSleepers
  rw [hReady.zombies] at hZombies
  by_cases hResult : result = 0
  · rw [if_neg (not_not_intro hResult)] at hFork
    rw [if_pos hResult] at hRunqueue
    refine ⟨0, _, _, hFork, Or.inl ⟨rfl, ⟨newguy, hRunqueue, _, hAllocated, ?_⟩, hSleepers,
      hZombies, ?_, ?_, rfl, hReady.freed⟩⟩
    · simp
    · exact congrArg (· + 1) hReady.numthreads
    · intro vn
      dsimp only
      rw [hReady.vnodes, refcount_inherit]
  · have hUndo := fail_eq { high with sleepers, zombies, runqueue } ops s.curspl hReady.name
      hReady.stack
    rw [if_pos hResult, hUndo] at hFork
    rw [if_neg hResult] at hRunqueue
    have hNodup := hFresh.own
    rw [hThread, hName, hStack] at hNodup
    refine .of_unwound hFork hResult ⟨hRunqueue, hSleepers, hZombies, hReady.numthreads, ?_, rfl,
      _, hAllocated, ?_⟩
    · intro vn
      dsimp only
      rw [hReady.cwd, hReady.vnodes]
      cases hCwd : s.cwd with
      | none => rfl
      | some d => exact refcount_decref_incref (hHeld d hCwd) vn
    · have hStacked : ownBlocks ((.stack, stack) :: tables) = stack :: ownBlocks tables := rfl
      rw [ownBlocks_append, hStacked, hOwn]
      dsimp only
      rw [hReady.freed]
      exact count_frees (List.reverse_perm [stack, tName, newguy]) hNodup

/-- **`thread_fork` is atomic** unless it has to make the process table and gets no memory for
it; `fptInitialize` does not look at what `kmalloc` returns. -/
theorem thread_fork_atomic_iff (hFresh : Fresh s o) (hHeld : CwdHeld ops s) :
    Atomic c ops s o name data1 data2 func wanted ↔ ¬NoTable s o := by
  constructor
  · intro hAtomic hTable
    exact not_atomic_null hTable hAtomic
  · intro hTable
    cases hThread : o.thread with
    | none => exact atomic_noThread hThread
    | some newguy =>
      cases hName : o.name with
      | none => exact atomic_noName hThread hName
      | some tName =>
        cases hStack : o.stack with
        | none => exact atomic_noStack hFresh hThread hName hTable hStack
        | some stack => exact atomic_some hFresh hHeld hThread hName hStack hTable

/-! ## The first fork -/

def pcbConfig : PcbConfig :=
  { sampleConfig with stackSize := 4096, switchframeSize := 80, mipsThreadstart := 0x80001000 }

/-- The counts themselves; a vnode whose last reference is given up is reclaimed. -/
def vnodeCounts : VnodeOps (Word → Int) where
  refcount v := v
  vopIncref vn v := Function.update v vn (v vn + 1)
  vopDecref vn v := Function.update v vn (if 1 < v vn then v vn - 1 else 0)
  refcount_incref v vn d := by
    by_cases hEq : d = vn
    · rw [if_pos hEq, hEq, Function.update_self]
    · rw [if_neg hEq, Function.update_of_ne hEq]
  refcount_decref v vn d h := by
    by_cases hEq : d = vn
    · rw [if_pos hEq, hEq, Function.update_self, if_pos h]
    · rw [if_neg hEq, Function.update_of_ne hEq]

/-- The first thread, in a directory. -/
def firstThread : ThreadFields where
  tPcb := ⟨0, 0, 0, none⟩
  tName := some 0x80011000
  tSleepaddr := none
  tStack := none
  pid := 0
  exitStatus := -1
  parent := none
  prosExit := 0
  numchilds := 0
  tVmspace := none
  tCwd := some 0x80012000

def afterBoot : ForkVars (Word → Int) where
  curthread := 0x80010000
  blocks := ⟨fun _ => firstThread, fun _ => "", fun _ _ => none, fun _ => 0, fun _ => none⟩
  sleepers := ⟨[], 0⟩
  zombies := ⟨[], 0⟩
  runqueue := ⟨[], 32⟩
  numthreads := 1
  numprocesses := 0
  fullProcessTable := some 0x80013000
  curspl := 0
  vnodes _ := 1
  allocated := []
  freed := []

/-- There is memory for the structure and the name, and none after that. -/
def twoBlocks : Answers where
  thread := some 0x80020000
  name := some 0x80021000
  table := none
  stack := none
  sleepers := 0
  zombies := 0
  scheduler := 0
  runnable := 0

/-- All blocks are there, and the run queue cannot grow. -/
def fullQueue : Answers :=
  { twoBlocks with table := some 0x80022000, stack := some 0x80023000, scheduler := enomem }

/-- The first store to the table goes through `NULL`. -/
theorem fork_stores_through_null :
    afterBoot.threadFork pcbConfig vnodeCounts twoBlocks "thread0" 0 0 0x80002000 true =
      .error .nullPointer ∧
    ¬Atomic pcbConfig vnodeCounts afterBoot twoBlocks "thread0" 0 0 0x80002000 true := by
  refine ⟨rfl, ?_⟩
  rintro ⟨result, ret, s', hFork, -⟩
  cases hFork

/-- A failure of the last preallocation is undone. -/
theorem thread_fork_atomic_iff_fullQueue :
    Atomic pcbConfig vnodeCounts afterBoot fullQueue "thread0" 0 0 0x80002000 true := by
  have hFresh : Fresh afterBoot fullQueue := ⟨by decide, by decide⟩
  have hHeld : CwdHeld vnodeCounts afterBoot := fun _ _ => Int.one_pos
  apply (thread_fork_atomic_iff hFresh hHeld).mpr
  rintro ⟨-, -, -, hTable⟩
  cases hTable

end ForkVars

end Windborne.OS161
