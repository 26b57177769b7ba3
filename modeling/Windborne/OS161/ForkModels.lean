import Windborne.OS161.ThreadFork
import Windborne.OS161.ThreadModels

/-!
# `thread_fork` with and without its memory

`ForkVars` has the blocks that one `thread_fork` works on, and every answer of `kmalloc` and of
the preallocations. The `Kernel` has what other threads see of it. The latter does to the lists,
the room in them and `numthreads` what the former does, so this `thread_fork` starts a thread on
the board or leaves the board alone.
-/

namespace Windborne.OS161

open Library

/-- What the kernel knows of an array or a queue: it may have more room. -/
def Guys.Known (a : Guys) (guys : List Word) (room : Nat) : Prop := guys = a.guys ∧ room ≤ a.room

namespace Guys

variable {a : Guys} {guys : List Word} {room : Nat}

theorem preallocate_ne_zero (a : Guys) (nguys : Nat) {answer : Int} (h : answer ≠ 0) :
    a.preallocate nguys answer = (answer, a) := by
  unfold preallocate
  rw [if_neg h]

theorem preallocate_zero (a : Guys) (nguys : Nat) :
    a.preallocate nguys 0 = (0, { a with room := max a.room nguys }) := rfl

theorem Known.preallocate (h : a.Known guys room) {nguys n : Nat} (hNum : n = nguys) :
    { a with room := max a.room nguys }.Known guys (max room n) := by
  refine ⟨h.1, ?_⟩
  have hRoom := h.2
  show max room n ≤ max a.room nguys
  omega

theorem Known.qAddtail (h : a.Known guys room) (guy : Word) {answer : Int}
    (hRoom : a.guys.length < a.room ∨ answer = 0) :
    (a.qAddtail guy answer).1 = 0 ∧ (a.qAddtail guy answer).2.Known (guys ++ [guy]) room := by
  unfold Guys.qAddtail
  rw [if_pos hRoom]
  exact ⟨rfl, congrArg (· ++ [guy]) h.1, Nat.le_trans h.2 (Nat.le_max_left ..)⟩

theorem qAddtail_full (guy : Word) {answer : Int} (h : ¬(a.guys.length < a.room ∨ answer = 0)) :
    a.qAddtail guy answer = (answer, a) := if_neg h

end Guys

namespace ForkVars

variable {ν : Type} {s s' : ForkVars ν} {k : Kernel} {o : Answers} {newguy : Word}

/-- The kernel `k` has the variables of `s` but for the level and the memory. -/
structure Views (k : Kernel) (s : ForkVars ν) : Prop where
  curthread : k.curthread = some s.curthread
  sleepers : s.sleepers.Known k.sleepers k.sleepersRoom
  zombies : s.zombies.Known k.zombies k.zombiesRoom
  runqueue : s.runqueue.Known k.runqueue k.runqueueRoom
  numthreads : k.numthreads = s.numthreads

/-- The places of the threads. -/
def board (s : ForkVars ν) : Board Word where
  current := some s.curthread
  ready := s.runqueue.guys
  asleep := s.sleepers.guys
  dead := s.zombies.guys
  numthreads := s.numthreads

theorem Views.board (h : Views k s) : k.board = s.board := by
  obtain ⟨hCur, ⟨hSleepers, -⟩, ⟨hZombies, -⟩, ⟨hQueue, -⟩, hNum⟩ := h
  simp only [Kernel.board, Kernel.tally, ForkVars.board, hCur, hSleepers, hZombies, hQueue, hNum]

/-- How the calls with interrupts off go. -/
def enqueued (s : ForkVars ν) (o : Answers) (newguy : Word) : ForkOutcome :=
  if o.sleepers ≠ 0 then .noSleepers
  else if o.zombies ≠ 0 then .noZombies
  else if o.scheduler ≠ 0 then .noScheduler
  else if s.runqueue.guys.length < max s.runqueue.room (s.numthreads + 1) ∨ o.runnable = 0 then
    .started newguy
  else .notRunnable

/-- How a `thread_fork` goes. -/
def outcome (s : ForkVars ν) (o : Answers) : ForkOutcome :=
  match o.thread, o.name, o.stack with
  | some newguy, some _, some _ => s.enqueued o newguy
  | some _, some _, none => .noStack
  | _, _, _ => .noThread

/-- What the calls with interrupts off do to the view of the kernel. -/
theorem views_enqueue (h : Views k s) (o : Answers) (newguy : Word) (hSpl : s.curspl ≠ 0) :
    ∃ result sleepers zombies runqueue,
      s.enqueue o newguy = .ok (result, { s with sleepers, zombies, runqueue }) ∧
      (s.enqueued o newguy = .started newguy ∧ result = 0 ∧
          Views { k.preallocate (.started newguy) with runqueue := k.runqueue ++ [newguy] }
            { s with sleepers, zombies, runqueue } ∨
        (s.enqueued o newguy = .noSleepers ∨ s.enqueued o newguy = .noZombies ∨
          s.enqueued o newguy = .noScheduler ∨ s.enqueued o newguy = .notRunnable ∧
            max k.runqueueRoom (k.numthreads + 1) ≤ k.runqueue.length) ∧ result ≠ 0 ∧
          Views (k.preallocate (s.enqueued o newguy)) { s with sleepers, zombies, runqueue }) := by
  obtain ⟨hCur, hSleepers, hZombies, hQueue, hNum⟩ := h
  have hNext := congrArg (· + 1) hNum
  have hSleepers' := hSleepers.preallocate hNext
  have hZombies' := hZombies.preallocate hNext
  have hQueue' := hQueue.preallocate hNext
  unfold enqueue schedulerPreallocate makeRunnable enqueued
  dsimp only
  by_cases hFirst : o.sleepers ≠ 0
  · rw [if_pos hFirst, Guys.preallocate_ne_zero _ _ hFirst]
    dsimp only
    rw [if_pos hFirst]
    exact ⟨_, _, s.zombies, s.runqueue, rfl,
      .inr ⟨.inl rfl, hFirst, hCur, hSleepers, hZombies, hQueue, hNum⟩⟩
  rw [not_not.mp hFirst, Guys.preallocate_zero]
  dsimp only
  rw [if_neg (not_not_intro rfl), if_neg (not_not_intro rfl)]
  by_cases hSecond : o.zombies ≠ 0
  · rw [if_pos hSecond, Guys.preallocate_ne_zero _ _ hSecond]
    dsimp only
    rw [if_pos hSecond]
    exact ⟨_, _, _, s.runqueue, rfl,
      .inr ⟨.inr (.inl rfl), hSecond, hCur, hSleepers', hZombies, hQueue, hNum⟩⟩
  rw [not_not.mp hSecond, Guys.preallocate_zero]
  dsimp only
  rw [if_neg (not_not_intro rfl), if_neg (not_not_intro rfl), if_neg hSpl, ok_bind]
  by_cases hThird : o.scheduler ≠ 0
  · rw [if_pos hThird, Guys.preallocate_ne_zero _ _ hThird]
    dsimp only
    rw [if_pos hThird]
    exact ⟨_, _, _, _, rfl,
      .inr ⟨.inr (.inr (.inl rfl)), hThird, hCur, hSleepers', hZombies', hQueue, hNum⟩⟩
  rw [not_not.mp hThird, Guys.preallocate_zero]
  dsimp only
  rw [if_neg (not_not_intro rfl), if_neg (not_not_intro rfl), if_neg hSpl]
  by_cases hRoom : s.runqueue.guys.length < max s.runqueue.room (s.numthreads + 1) ∨ o.runnable = 0
  · rw [if_pos hRoom]
    obtain ⟨hZero, hAdded⟩ := hQueue'.qAddtail newguy hRoom
    exact ⟨_, _, _, _, rfl, .inl ⟨rfl, hZero, hCur, hSleepers', hZombies', hAdded, hNum⟩⟩
  · have hFull : max k.runqueueRoom (k.numthreads + 1) ≤ k.runqueue.length := by
      have hKnown := hQueue'.2
      have hLength := congrArg List.length hQueue.1
      dsimp only at hKnown
      omega
    rw [if_neg hRoom, Guys.qAddtail_full newguy hRoom]
    exact ⟨_, _, _, _, rfl, .inr ⟨.inr (.inr (.inr ⟨rfl, hFull⟩)), fun hZero => hRoom (.inr hZero),
      hCur, hSleepers', hZombies', hQueue', hNum⟩⟩

/-- A `thread_fork` that fails after its `splhigh`. -/
theorem threadFork_failed {c : KernelConfig} {func : ThreadFunc} {out : ForkOutcome}
    (hCur : k.curthread ≠ none) (hOut : out = .noSleepers ∨ out = .noZombies ∨
      out = .noScheduler ∨ out = .notRunnable ∧
        max k.runqueueRoom (k.numthreads + 1) ≤ k.runqueue.length) :
    k.threadFork c func out =
      some (.ok ((k.preallocated c out).become (.restore k.curspl false))) := by
  unfold Kernel.threadFork
  rw [if_neg hCur]
  rcases hOut with rfl | rfl | rfl | ⟨rfl, hFull⟩
  · rfl
  · rfl
  · rfl
  · obtain ⟨table, hTable, -⟩ := Kernel.fptInitialize_eq k
    have hNot : ¬(k.preallocated c .notRunnable).runqueue.length <
        (k.preallocated c .notRunnable).runqueueRoom := by
      rw [Kernel.preallocated, hTable]
      exact Nat.not_lt.mpr hFull
    dsimp only
    rw [if_neg hNot]

variable {c : PcbConfig} {ops : VnodeOps ν} {name : String} {data1 data2 func : Word}
  {wanted : Bool} {result : Int} {ret : Option Word}

theorem views_fptInitialize (h : Views k s) : Views k.fptInitialize s := by
  obtain ⟨table, hTable, -⟩ := Kernel.fptInitialize_eq k
  rw [hTable]
  exact ⟨h.curthread, h.sleepers, h.zombies, h.runqueue, h.numthreads⟩

theorem Ready.views {tName stack : Word} {high : ForkVars ν}
    (hReady : Ready c ops s newguy tName stack high) (h : Views k s) : Views k high := by
  obtain ⟨hCur, hSleepers, hZombies, hQueue, hNum⟩ := h
  constructor
  · rw [hReady.curthread, hCur]
  · rwa [hReady.sleepers]
  · rwa [hReady.zombies]
  · rwa [hReady.runqueue]
  · rw [hReady.numthreads, hNum]

/-- Where all blocks are there. -/
theorem views_threadFork_some (h : Views k s) (hCur : k.curthread ≠ none)
    (hFree : k.allocated newguy = false ∧ newguy ≠ 0) {tName stack : Word} {high : ForkVars ν}
    (hReady : Ready c ops s newguy tName stack high)
    (hFork : (do
      let (result, s') ← high.enqueue o newguy
      if result ≠ 0 then return ((result, none), s'.fail ops newguy s.curspl)
      return ((0, if wanted then some newguy else none),
        { s' with numthreads := s'.numthreads + 1, curspl := s.curspl })) =
      .ok ((result, ret), s'))
    (f : ThreadFunc) :
    ∃ k', k.threadFork c.toKernelConfig f (s.enqueued o newguy) = some (.ok k') ∧ Views k' s' ∧
      (result = 0 ↔ ∃ newguy', s.enqueued o newguy = .started newguy') := by
  have hSpl : high.curspl ≠ 0 := by
    rw [hReady.curspl]
    exact Nat.pos_iff_ne_zero.mp c.splHigh_pos
  have hSame : high.enqueued o newguy = s.enqueued o newguy := by
    unfold enqueued
    rw [hReady.runqueue, hReady.numthreads]
  have hInit := hReady.views (views_fptInitialize h)
  obtain ⟨answer, sleepers, zombies, runqueue, hEnqueue, hCases⟩ :=
    views_enqueue hInit o newguy hSpl
  rw [hEnqueue, ok_bind] at hFork
  dsimp only at hFork
  rw [hSame] at hCases
  rcases hCases with ⟨hOut, hZero, hViews⟩ | ⟨hOut, hAnswer, hViews⟩
  · have hTaken : ¬(k.allocated newguy = true ∨ newguy = 0) := by
      rw [hFree.1]
      rintro (hUsed | hNull)
      · cases hUsed
      · exact hFree.2 hNull
    rw [if_neg (not_not_intro hZero)] at hFork
    cases hFork
    rw [hOut]
    refine ⟨((k.preallocated c.toKernelConfig (.started newguy)).start c.toKernelConfig newguy
      f).become (.restore k.curspl true), ?_, ?_, by simp⟩
    · unfold Kernel.threadFork
      rw [if_neg hCur]
      dsimp only
      rw [if_neg hTaken]
    · exact ⟨hViews.curthread, hViews.sleepers, hViews.zombies, hViews.runqueue,
        congrArg (· + 1) hViews.numthreads⟩
  · rw [if_pos hAnswer, fail_eq { high with sleepers, zombies, runqueue } ops s.curspl hReady.name
      hReady.stack] at hFork
    cases hFork
    obtain ⟨table, hTable, -⟩ := Kernel.fptInitialize_eq k
    have hRoom := hOut
    rw [hTable] at hRoom
    refine ⟨_, threadFork_failed hCur hRoom, ?_, ?_⟩
    · exact ⟨hViews.curthread, hViews.sleepers, hViews.zombies, hViews.runqueue,
        hViews.numthreads⟩
    · rcases hOut with hOut | hOut | hOut | ⟨hOut, -⟩
      all_goals simp [hOut, hAnswer]

/-- **The kernel's `thread_fork`** does to the lists what the one with the memory does. -/
theorem views_threadFork (h : Views k s) (hPlaced : k.Placed)
    (hNew : ∀ newguy, o.thread = some newguy → k.allocated newguy = false ∧ newguy ≠ 0)
    (hFork : s.threadFork c ops o name data1 data2 func wanted = .ok ((result, ret), s'))
    (f : ThreadFunc) :
    ∃ k', k.threadFork c.toKernelConfig f (s.outcome o) = some (.ok k') ∧ Views k' s' ∧
      (result = 0 ↔ ∃ newguy, s.outcome o = .started newguy) := by
  have hCur : k.curthread ≠ none := by
    rw [h.curthread]
    exact Option.some_ne_none _
  unfold outcome
  cases hThread : o.thread with
  | none =>
    rw [threadFork_noThread hThread] at hFork
    cases hFork
    refine ⟨k.become (.ret false), if_neg hCur, ?_, by simp [enomem]⟩
    exact ⟨h.curthread, h.sleepers, h.zombies, h.runqueue, h.numthreads⟩
  | some newguy =>
    cases hName : o.name with
    | none =>
      obtain ⟨blocks, hFailed⟩ :=
        threadFork_noName c ops s name data1 data2 func wanted hThread hName
      rw [hFailed] at hFork
      cases hFork
      refine ⟨k.become (.ret false), if_neg hCur, ?_, by simp [enomem]⟩
      exact ⟨h.curthread, h.sleepers, h.zombies, h.runqueue, h.numthreads⟩
    | some tName =>
      by_cases hTable : NoTable s o
      · unfold threadFork at hFork
        rw [threadCreate_null hTable, error_bind] at hFork
        cases hFork
      have hInit := views_fptInitialize h
      cases hStack : o.stack with
      | none =>
        obtain ⟨table, tables, -, blocks, hFailed⟩ := threadFork_noStack c ops name data1 data2 func
          wanted hThread hName hTable hStack
        rw [hFailed] at hFork
        cases hFork
        refine ⟨k.fptInitialize.become (.ret false), if_neg hCur, ?_, by simp [enomem]⟩
        exact ⟨hInit.curthread, hInit.sleepers, hInit.zombies, hInit.runqueue, hInit.numthreads⟩
      | some stack =>
        have hFree := hNew newguy hThread
        have hCurthread : newguy ≠ s.curthread := by
          rintro rfl
          have hMem : s.curthread ∈ k.placed := by simp [Kernel.placed, h.curthread]
          rw [hPlaced.allocated _ hMem] at hFree
          cases hFree.1
        obtain ⟨high, hReady, hSome⟩ := threadFork_some c ops name data1 data2 func wanted
          hThread hName hStack hTable hCurthread
        rw [hSome] at hFork
        exact views_threadFork_some h hCur hFree hReady hFork f

/-- **It plays by the moves of the board**, too. -/
theorem moves_threadFork (h : Views k s) (hPlaced : k.Placed)
    (hNew : ∀ newguy, o.thread = some newguy → k.allocated newguy = false ∧ newguy ≠ 0)
    (hFork : s.threadFork c ops o name data1 data2 func wanted = .ok ((result, ret), s')) :
    s.board.Moves s'.board := by
  obtain ⟨k', hKernel, hViews, -⟩ := views_threadFork h hPlaced hNew hFork .outside
  rw [← h.board, ← hViews.board]
  exact Kernel.moves_of_tally (Kernel.tally_threadFork hPlaced hKernel)

end ForkVars

end Windborne.OS161
