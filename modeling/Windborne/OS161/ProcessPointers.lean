import Windborne.OS161.KernelMemory

/-!
# Process pointers

`full_process_table` and the `parent` fields of the thread structures hold pointers to threads,
and `md_forkentry` writes both. Nothing takes the pointers to a thread away when it exits or is
killed, and `exorcise` destroys it all the same. What `md_forkentry` takes for the parent is no
pointer to a thread at all, but the address of its own arguments, plus 2.
-/

namespace Windborne.OS161

open Library

namespace Kernel

/-- The threads that have not exited. -/
def live (s : Kernel) : List Word := s.curthread.toList ++ (s.runqueue ++ s.sleepers)

/-- Some process pointer points to `p`. -/
def Named (s : Kernel) (p : Word) : Prop :=
  (∃ i, s.fullProcessTable i = some p) ∨ ∃ t ∈ s.live, (s.thread t).parent = some p

/-- Every process pointer points to a thread that has not been destroyed. -/
def NoDangling (s : Kernel) : Prop := ∀ p, s.Named p → s.allocated p = true

/-- The condition on a step: no process pointer points to a thread that is about to be
destroyed, and what `md_forkentry` takes for the parent is a thread. -/
def PointersKept (s : Kernel) (a : KernelAction) : Prop :=
  ∀ o e rest, a = .run o →
    (s.stack s.running = ⟨e, .switched⟩ :: rest → ∀ z ∈ s.zombies, ¬s.Named z) ∧
    ∀ data1, s.stack s.running = ⟨e, .forkParent data1⟩ :: rest →
      ∀ p, pointer (data1 + 2) = some p → s.allocated p = true

variable {c : KernelConfig} {s s' t u : Kernel} {e : Nat} {code after : Code}
  {rest : List Call} {o : Choice}

/-- A step with no new process pointers, after which no thread is destroyed. -/
structure Kept (s t : Kernel) : Prop where
  table : ∀ i p, t.fullProcessTable i = some p → s.fullProcessTable i = some p
  live : ∀ g ∈ t.live, (t.thread g).parent ≠ none → g ∈ s.live
  parent : ∀ g p, (t.thread g).parent = some p → (s.thread g).parent = some p
  allocated : ∀ p, s.allocated p = true → t.allocated p = true

theorem Kept.noDangling (hKept : Kept s t) (h : s.NoDangling) : t.NoDangling := by
  intro p hNamed
  apply hKept.allocated
  apply h
  rcases hNamed with ⟨i, hEntry⟩ | ⟨g, hLive, hParent⟩
  · exact Or.inl ⟨i, hKept.table i p hEntry⟩
  · exact Or.inr ⟨g, hKept.live g hLive (by simp [hParent]), hKept.parent g p hParent⟩

/-! ## Steps that keep the pointers -/

theorem Quiet.live (hQuiet : Quiet s t) : t.live = s.live := by
  have hPlaces := hQuiet.places
  simp only [Kernel.places, Prod.mk.injEq] at hPlaces
  obtain ⟨hCur, -, hQueue, hSleepers, -⟩ := hPlaces
  simp only [Kernel.live, hCur, hQueue, hSleepers]

theorem Quiet.allocated (hQuiet : Quiet s t) : t.allocated = s.allocated := by
  have hPlaces := hQuiet.places
  simp only [Kernel.places, Prod.mk.injEq] at hPlaces
  exact hPlaces.2.2.2.2.2.2.2.1

theorem Quiet.kept (hQuiet : Quiet s t)
    (hTable : ∀ i p, t.fullProcessTable i = some p → s.fullProcessTable i = some p)
    (hParent : ∀ g p, (t.thread g).parent = some p → (s.thread g).parent = some p) :
    Kept s t where
  table := hTable
  live g hg _ := by rwa [hQuiet.live] at hg
  parent := hParent
  allocated p hp := by rwa [hQuiet.allocated]

/-- A write to a thread structure that makes no new parent. -/
theorem parent_setThread {g cur p : Word} {f : KernelThread → KernelThread}
    (h : ((s.setThread cur f).thread g).parent = some p)
    (hParent : ∀ th, (f th).parent = th.parent ∨ (f th).parent = none) :
    (s.thread g).parent = some p := by
  simp only [setThread] at h
  by_cases hg : g = cur
  · subst hg
    rw [Function.update_self] at h
    rcases hParent (s.thread g) with hSame | hNone
    · rwa [hSame] at h
    · rw [hNone] at h
      cases h
  · rwa [Function.update_of_ne hg] at h

/-- A step within the places. -/
theorem Untouched.kept (hUntouched : Untouched s t) (hLive : ∀ g ∈ t.live, g ∈ s.live)
    (hAllocated : t.allocated = s.allocated) : Kept s t where
  table i p hp := by rwa [hUntouched.table] at hp
  live g hg _ := hLive g hg
  parent g p hp := by rwa [hUntouched.thread] at hp
  allocated p hp := by rwa [hAllocated]

theorem live_miSwitch {nextstate : ThreadState} {memory : Bool}
    (h : s.miSwitch nextstate after memory = .ok t) :
    (∀ g ∈ t.live, g ∈ s.live) ∧ t.allocated = s.allocated := by
  obtain ⟨-, ⟨-, rfl⟩ | ⟨cur, u, hCur, hStash, rfl⟩⟩ := miSwitch_ok h
  · exact ⟨fun _ hg => hg, rfl⟩
  have hOk := stash_ok hStash
  cases nextstate with
  | ready =>
    obtain ⟨-, rfl⟩ := hOk
    refine ⟨?_, rfl⟩
    intro g hg
    simp only [live, call, setStack, Option.toList_none, List.nil_append, List.mem_append,
      List.mem_singleton] at hg
    simp only [live, hCur, Option.toList_some, List.mem_append, List.mem_singleton]
    tauto
  | sleep =>
    obtain ⟨-, rfl⟩ := hOk
    refine ⟨?_, rfl⟩
    intro g hg
    simp only [live, call, setStack, Option.toList_none, List.nil_append, List.mem_append,
      List.mem_singleton] at hg
    simp only [live, hCur, Option.toList_some, List.mem_append, List.mem_singleton]
    tauto
  | zomb =>
    obtain ⟨-, rfl⟩ := hOk
    refine ⟨?_, rfl⟩
    intro g hg
    exact List.mem_append_right _ hg

/-- A write to the structure of the current thread, and what a step within the places does. -/
theorem kept_of_setThread {cur : Word} {f : KernelThread → KernelThread}
    (hUntouched : Untouched (s.setThread cur f) t)
    (hParent : ∀ th, (f th).parent = th.parent ∨ (f th).parent = none)
    (hLive : ∀ g ∈ t.live, g ∈ s.live) (hAllocated : t.allocated = s.allocated) : Kept s t where
  table i p hp := by rwa [hUntouched.table] at hp
  live g hg _ := hLive g hg
  parent g p hp := by
    rw [hUntouched.thread] at hp
    exact parent_setThread hp hParent
  allocated p hp := by rwa [hAllocated]

theorem kept_threadSleep {addr : Word} {memory : Bool}
    (h : s.threadSleep addr memory = .ok t) : Kept s t := by
  obtain ⟨cur, -, -, hSwitch⟩ := threadSleep_ok h
  obtain ⟨hLive, hAllocated⟩ := live_miSwitch hSwitch
  obtain ⟨cur', -, hUntouched⟩ := untouched_threadSleep h
  exact kept_of_setThread hUntouched (fun _ => Or.inl rfl) hLive hAllocated

theorem kept_threadExit {memory : Bool} (h : s.threadExit c memory = .ok t) : Kept s t := by
  obtain ⟨cur, -, -, hSwitch⟩ := threadExit_ok h
  obtain ⟨hLive, hAllocated⟩ := live_miSwitch hSwitch
  obtain ⟨cur', -, hUntouched⟩ := untouched_threadExit h
  exact kept_of_setThread hUntouched (fun _ => Or.inl rfl) hLive hAllocated

theorem kept_assign {f : KernelThread → KernelThread} (hQuiet : Quiet s t)
    (h : s.assign f after = .ok t)
    (hParent : ∀ th, (f th).parent = th.parent ∨ (f th).parent = none) : Kept s t := by
  obtain ⟨cur, -, rfl⟩ := assign_ok h
  refine kept_of_setThread untouched_become hParent ?_ rfl
  intro g hg
  rwa [hQuiet.live] at hg

theorem kept_wakeupLoop {addr : Word} {i : Nat} {memory : Bool}
    (h : s.wakeupLoop addr i memory = .ok t) : Kept s t := by
  have hUntouched := untouched_wakeupLoop h
  obtain rfl | rfl | ⟨guy, hGuy, -, rfl⟩ := wakeupLoop_ok h
  · exact hUntouched.kept (fun _ hg => hg) rfl
  · exact hUntouched.kept (fun _ hg => hg) rfl
  · refine hUntouched.kept ?_ rfl
    intro g hg
    have hIn := List.mem_of_getElem? hGuy
    simp only [live, List.mem_append, List.mem_singleton] at hg ⊢
    rcases hg with hg | (hg | rfl) | hg
    · exact Or.inl hg
    · exact Or.inr (Or.inl hg)
    · exact Or.inr (Or.inr hIn)
    · exact Or.inr (Or.inr (List.mem_of_mem_eraseIdx hg))

theorem kept_threadFork {func : ThreadFunc} {outcome : ForkOutcome}
    (hOk : s.threadFork c func outcome = some (.ok t)) : Kept s t := by
  obtain ⟨-, hCases⟩ := threadFork_ok hOk
  obtain ⟨table, hTable, hEntries⟩ := fptInitialize_eq s
  obtain ⟨i, j, k, hRoom, -⟩ := preallocate_eq s.fptInitialize outcome
  rcases hCases with rfl | rfl | rfl | ⟨newguy, -, hNew, -, rfl⟩
  · exact ⟨fun _ _ hp => hp, fun _ hg _ => hg, fun _ _ hp => hp, fun _ hp => hp⟩
  · rw [hTable]
    exact ⟨hEntries, fun _ hg _ => hg, fun _ _ hp => hp, fun _ hp => hp⟩
  · rw [preallocated, hRoom, hTable]
    exact ⟨hEntries, fun _ hg _ => hg, fun _ _ hp => hp, fun _ hp => hp⟩
  · rw [preallocated, hRoom, hTable]
    have hThread : ∀ g, g ≠ newguy → Function.update s.thread newguy newThread g = s.thread g :=
      fun g hg => Function.update_of_ne hg ..
    refine ⟨hEntries, ?_, ?_, ?_⟩
    · intro g hg hParent
      simp only [become, setStack, start] at hg hParent
      simp only [live, List.mem_append, List.mem_singleton] at hg ⊢
      rcases hg with hg | (hg | rfl) | hg
      · exact Or.inl hg
      · exact Or.inr (Or.inl hg)
      · rw [Function.update_self] at hParent
        exact absurd rfl hParent
      · exact Or.inr (Or.inr hg)
    · intro g p hp
      simp only [become, setStack, start] at hp
      by_cases hg : g = newguy
      · subst hg
        rw [Function.update_self] at hp
        cases hp
      · rwa [hThread g hg] at hp
    · intro p hp
      simp only [become, setStack, start]
      by_cases hNe : p = newguy
      · subst hNe
        exact Function.update_self ..
      · rwa [Function.update_of_ne hNe]

theorem kept_scheduler (h : s.scheduler = .ok t) : Kept s t := by
  obtain ⟨-, ⟨-, rfl⟩ | ⟨next, runqueue, hQueue, rfl⟩⟩ := scheduler_ok h
  · exact ⟨fun _ _ hp => hp, fun _ hg _ => hg, fun _ _ hp => hp, fun _ hp => hp⟩
  generalize hBefore : ({ s with curthread := some next, runqueue }.become .switched) = u
  obtain ⟨pcbIninterrupt, hUntouched⟩ := untouched_mdSwitch u next
  have hSame : u.fullProcessTable = s.fullProcessTable ∧ u.thread = s.thread := by
    subst hBefore
    exact ⟨rfl, rfl⟩
  refine ⟨?_, ?_, ?_, ?_⟩
  · intro i p hp
    rw [hUntouched.table] at hp
    rwa [← hSame.1]
  · intro g hg _
    obtain ⟨thread, inInterrupt, hSwitch⟩ := mdSwitch_eq u next
    rw [hSwitch] at hg
    subst hBefore
    simp only [live, become, setStack, Option.toList_some, List.mem_append,
      List.mem_singleton] at hg
    simp only [live, hQueue, List.mem_append, List.mem_cons]
    tauto
  · intro g p hp
    rw [hUntouched.thread] at hp
    have hBack := parent_setThread hp fun _ => Or.inl rfl
    rwa [hSame.2] at hBack
  · intro p hp
    obtain ⟨thread, inInterrupt, hSwitch⟩ := mdSwitch_eq u next
    rw [hSwitch]
    subst hBefore
    exact hp

/-- What is left when the zombies have been destroyed. -/
theorem switched_pointers (h : s.Placed) (hOk : s.switched = .ok t) :
    (∀ p, t.Named p ↔ s.Named p) ∧
      ∀ p, t.allocated p = true ↔ s.allocated p = true ∧ p ∉ s.zombies := by
  have hUntouched := untouched_switched hOk
  have hLive : t.live = s.live := by
    obtain ⟨u, hExorcise, hActivate⟩ := switched_ok hOk
    obtain ⟨-, -, rfl⟩ := exorcise_ok hExorcise
    obtain ⟨cur, -, ⟨-, rfl⟩ | ⟨-, rfl⟩⟩ := activateCurrent_ok hActivate
    · rfl
    · rfl
  have hAllocated : t.allocated = (s.withoutZombies s.zombies).allocated := by
    obtain ⟨u, hExorcise, hActivate⟩ := switched_ok hOk
    obtain ⟨-, -, rfl⟩ := exorcise_ok hExorcise
    obtain ⟨cur, -, ⟨-, rfl⟩ | ⟨-, rfl⟩⟩ := activateCurrent_ok hActivate
    · rfl
    · rfl
  have hApart : ∀ g ∈ s.live, g ∉ s.zombies := by
    intro g hg hz
    have hNodup := h.nodup
    have hSplit : s.placed = s.live ++ s.zombies := by simp [placed, live]
    rw [hSplit, List.nodup_append] at hNodup
    exact hNodup.2.2 g hg g hz rfl
  have hThread : ∀ g ∈ s.live, t.thread g = s.thread g := by
    intro g hg
    rw [hUntouched.thread]
    exact if_neg (hApart g hg)
  have hTable : t.fullProcessTable = s.fullProcessTable := hUntouched.table
  constructor
  · intro p
    unfold Named
    rw [hTable, hLive]
    apply or_congr_right
    constructor
    · rintro ⟨g, hg, hp⟩
      exact ⟨g, hg, by rwa [hThread g hg] at hp⟩
    · rintro ⟨g, hg, hp⟩
      exact ⟨g, hg, by rwa [hThread g hg]⟩
  · intro p
    rw [hAllocated]
    by_cases hz : p ∈ s.zombies
    · simp [withoutZombies, hz]
    · simp [withoutZombies, hz]

/-- What `md_forkentry` registers. -/
theorem forkTable_pointers (h : s.Placed) (hNo : s.NoDangling) (hOk : s.forkTable = .ok t) :
    t.NoDangling := by
  obtain ⟨cur, hCur, rfl⟩ := forkTable_ok hOk
  intro p hNamed
  show s.allocated p = true
  rcases hNamed with ⟨i, hEntry⟩ | hParent
  · by_cases hi : i = (s.thread cur).pid
    · subst hi
      rw [show p = cur from by simpa [call, setStack, eq_comm] using hEntry]
      apply h.allocated
      simp [placed, hCur]
    · have hOld : s.fullProcessTable i = some p := by
        simpa [call, setStack, Function.update_of_ne hi] using hEntry
      exact hNo p (Or.inl ⟨i, hOld⟩)
  · exact hNo p (Or.inr hParent)

theorem forkParent_pointers {data1 : Word} (hOk : s.forkParent data1 = .ok t) :
    (∀ p, t.Named p → s.Named p ∨ pointer (data1 + 2) = some p) ∧
      (∀ p, pointer (data1 + 2) = some p → t.Named p) ∧ t.allocated = s.allocated := by
  obtain ⟨cur, hCur, rfl⟩ := assign_ok hOk
  refine ⟨?_, ?_, rfl⟩
  · rintro p (hEntry | ⟨g, hg, hParent⟩)
    · exact Or.inl (Or.inl hEntry)
    · simp only [become, setStack, setThread] at hParent
      by_cases hEq : g = cur
      · subst hEq
        rw [Function.update_self] at hParent
        exact Or.inr hParent
      · rw [Function.update_of_ne hEq] at hParent
        exact Or.inl (Or.inr ⟨g, hg, hParent⟩)
  · intro p hp
    refine Or.inr ⟨cur, ?_, ?_⟩
    · simp [live, become, setStack, setThread, hCur]
    · rw [← hp]
      simp [become, setStack, setThread]

/-- What code outside does makes no process pointers. -/
theorem kept_outside {saved : List Nat} {b : OutsideAction} (hQuiet : Quiet s t)
    (hOk : s.outside c saved b = some t) : Kept s t := by
  cases b with
  | splhigh | call | setNumprocesses =>
    cases hOk
    exact hQuiet.kept (fun _ _ hp => hp) fun _ _ hp => hp
  | splx | usermode =>
    simp only [outside] at hOk
    split_ifs at hOk
    cases hOk
    exact hQuiet.kept (fun _ _ hp => hp) fun _ _ hp => hp
  | setVmspace as =>
    obtain ⟨cur, -, rfl⟩ := Option.map_eq_some_iff.mp hOk
    exact hQuiet.kept (fun _ _ hp => hp) fun _ _ hp => parent_setThread hp fun _ => Or.inl rfl
  | writeSpace as space =>
    simp only [outside] at hOk
    split_ifs at hOk
    cases hOk
    exact hQuiet.kept (fun _ _ hp => hp) fun _ _ hp => hp
  | clearEntry i =>
    cases hOk
    refine hQuiet.kept ?_ fun _ _ hp => hp
    intro j p hp
    dsimp only at hp
    by_cases hj : j = i
    · subst hj
      rw [Function.update_self] at hp
      cases hp
    · rwa [Function.update_of_ne hj] at hp
  | clearParent g =>
    cases hOk
    exact hQuiet.kept (fun _ _ hp => hp) fun _ _ hp => parent_setThread hp fun _ => Or.inr rfl
  | ret =>
    simp only [outside] at hOk
    split_ifs at hOk
    cases hOk
    exact hQuiet.kept (fun _ _ hp => hp) fun _ _ hp => hp

/-! ## Runs -/

/-- **Step lemma.** -/
theorem NoDangling.step (hNo : s.NoDangling) (h : s.Placed) {a : KernelAction}
    (hStep : Step c s a t) (hGuard : s.PointersKept a) : t.NoDangling := by
  obtain ⟨hUntouched, hQuiet⟩ | ⟨o, e, code, rest, rfl, hStack, hCode, hExec⟩ |
    ⟨b, e, saved, rest, -, -, hOutside, hQuiet⟩ := step_untouched hStep
  · refine Kept.noDangling (hUntouched.kept ?_ hQuiet.allocated) hNo
    intro g hg
    rwa [hQuiet.live] at hg
  · rcases hCode with hMoves | ⟨hWrites, hQuiet⟩
    · cases code with
      | threadYield =>
        simp only [exec, Option.some.injEq] at hExec
        have hUntouched := untouched_threadYield hExec
        obtain ⟨hLive, hAllocated⟩ := live_miSwitch hExec
        exact Kept.noDangling (hUntouched.kept hLive hAllocated) hNo
      | threadSleep addr =>
        simp only [exec, Option.some.injEq] at hExec
        exact (kept_threadSleep hExec).noDangling hNo
      | threadExit =>
        simp only [exec, Option.some.injEq] at hExec
        exact (kept_threadExit hExec).noDangling hNo
      | wakeupLoop addr i =>
        simp only [exec, Option.some.injEq] at hExec
        exact (kept_wakeupLoop hExec).noDangling hNo
      | threadFork func => exact (kept_threadFork hExec).noDangling hNo
      | scheduler =>
        simp only [exec, Option.some.injEq] at hExec
        exact (kept_scheduler hExec).noDangling hNo
      | switched =>
        simp only [exec, Option.some.injEq] at hExec
        obtain ⟨hNamed, hAllocated⟩ := switched_pointers h hExec
        intro p hp
        rw [hNamed] at hp
        refine (hAllocated p).mpr ⟨hNo p hp, ?_⟩
        intro hz
        exact (hGuard o e rest rfl).1 hStack p hz hp
      | _ => cases hMoves
    · cases code with
      | slept =>
        simp only [exec, Option.some.injEq] at hExec
        exact (kept_assign hQuiet hExec fun _ => Or.inl rfl).noDangling hNo
      | asActivate =>
        cases hExec
        refine Kept.noDangling (hQuiet.kept (fun _ _ hp => hp) ?_) hNo
        intro g p hp
        have hParent : ((s.setThread s.running fun th => { th with stale := false }).thread
            g).parent = some p := hp
        exact parent_setThread hParent fun _ => Or.inl rfl
      | vmFault faulttype vaddr =>
        simp only [exec, Option.some.injEq] at hExec
        obtain ⟨cur, errno, cpu, -, -, hUntouched⟩ := vmFault_memory hExec
        refine Kept.noDangling (hQuiet.kept ?_ ?_) hNo
        · intro i p hp
          rwa [hUntouched.table] at hp
        · intro g p hp
          rwa [hUntouched.thread] at hp
      | forkVmspace data1 newpid =>
        simp only [exec, Option.some.injEq] at hExec
        exact (kept_assign hQuiet hExec fun _ => Or.inl rfl).noDangling hNo
      | forkPid data1 newpid =>
        simp only [exec, Option.some.injEq] at hExec
        exact (kept_assign hQuiet hExec fun _ => Or.inl rfl).noDangling hNo
      | forkParent data1 =>
        simp only [exec, Option.some.injEq] at hExec
        obtain ⟨hNew, -, hAllocated⟩ := forkParent_pointers hExec
        intro p hp
        rw [hAllocated]
        rcases hNew p hp with hOld | hArgument
        · exact hNo p hOld
        · exact (hGuard o e rest rfl).2 data1 hStack p hArgument
      | forkTable =>
        simp only [exec, Option.some.injEq] at hExec
        exact forkTable_pointers h hNo hExec
      | _ => cases hWrites
  · exact (kept_outside hQuiet hOutside).noDangling hNo

/-- A step without the condition leaves a pointer that dangles. -/
theorem NoDangling.pointersKept (h : s.Placed) {a : KernelAction} (hStep : Step c s a t)
    (hNo : t.NoDangling) : s.PointersKept a := by
  rintro o e rest rfl
  constructor
  · intro hStack z hz hNamed
    simp only [Step, Kernel.step, hStack, exec, Option.some.injEq] at hStep
    obtain ⟨hSame, hAllocated⟩ := switched_pointers h hStep
    exact ((hAllocated z).mp (hNo z ((hSame z).mpr hNamed))).2 hz
  · intro data1 hStack p hp
    simp only [Step, Kernel.step, hStack, exec, Option.some.injEq] at hStep
    obtain ⟨-, hNew, hAllocated⟩ := forkParent_pointers hStep
    rw [← hAllocated]
    exact hNo p (hNew p hp)

/-- **When process pointers do not dangle.** -/
theorem noDangling_iff (c : KernelConfig) (me : Word) (initialCount : Word → Int)
    (tlb : List TlbEntry) (space : Word → AddrSpace) (tr : List KernelAction) (s : Kernel) :
    Run (Keeping (Step c) NoDangling) (boot c me initialCount tlb space) tr s ↔
      Run (Guarded (Step c) PointersKept) (boot c me initialCount tlb space) tr s := by
  apply Run.keeping_iff_guarded (I := fun s => s.Placed ∧ s.NoDangling)
  · refine ⟨placed_boot c me initialCount tlb space, ?_⟩
    rintro p (⟨i, hEntry⟩ | ⟨g, -, hParent⟩)
    · cases hEntry
    · cases hParent
  · exact fun _ _ _ h hStep hGuard => ⟨h.1.step hStep, h.2.step h.1 hStep hGuard⟩
  · exact fun _ h => h.2
  · exact fun _ _ _ h hStep hNo => hNo.pointersKept h.1 hStep

/-! ## A process that is killed -/

/-- `numprocesses` is positive while a process is registered. -/
def Numbered (s : Kernel) : Prop := s.numprocesses = 0 → ∀ i, s.fullProcessTable i = none

/-- A child is started in `md_forkentry`, gets into user mode and is killed there. -/
def killSteps : List KernelAction :=
  [.outside (.setNumprocesses 1), .outside (.call (.threadFork (.mdForkentry 0x80040000 5))),
    .run { fork := .started 2 }, .run {}, .run {}, .outside (.call .threadYield), .run {},
    .run {}] ++
  List.replicate 14 (.run {}) ++ [.trap .fatal] ++ List.replicate 7 (.run {})

/-- Entry 5 of the table still points to the child when it has been destroyed. -/
theorem not_forall_noDangling : ¬∀ (c : KernelConfig) (me : Word) (initialCount : Word → Int)
    (tlb : List TlbEntry) (space : Word → AddrSpace) (tr : List KernelAction) (s : Kernel),
    Run (Keeping (Step c) Numbered) (boot c me initialCount tlb space) tr s → s.NoDangling := by
  intro hAll
  have hEnd : (killSteps.foldlM (fun s a => (okStep (step sampleConfig) s a).filter
      fun s => 0 < s.numprocesses) (boot sampleConfig 1 (fun _ => 0) [] fun _ => asCreate)).map
        (fun s => (s.fullProcessTable 5, s.allocated 2)) = some (some 2, false) := by
    decide +kernel
  obtain ⟨s, hs, hFields⟩ := Option.map_eq_some_iff.mp hEnd
  simp only [Prod.mk.injEq] at hFields
  obtain ⟨hEntry, hFreed⟩ := hFields
  have hRun : Run (Keeping (Step sampleConfig) Numbered)
      (boot sampleConfig 1 (fun _ => 0) [] fun _ => asCreate) killSteps s := by
    apply (Run.keeping_of_okStep hs).mono
    intro s a t hKeeping
    obtain ⟨hStep, hPositive⟩ := hKeeping
    refine ⟨hStep, ?_⟩
    intro hZero
    simp [hZero] at hPositive
  have hDangling := hAll _ _ _ _ _ _ _ hRun 2 (Or.inl ⟨5, hEntry⟩)
  rw [hFreed] at hDangling
  cases hDangling

end Kernel

end Windborne.OS161
