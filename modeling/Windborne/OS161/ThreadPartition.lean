import Mathlib.Data.List.Nodup
import Mathlib.Data.List.Perm.Basic
import Mathlib.Data.List.Count
import Windborne.Library.Runs
import Windborne.OS161.ThreadSystem

/-!
# Every live thread is in one place

The places are `curthread`, the run queue, `sleepers` and `zombies`. Moving a thread from one
place to another permutes the list of all of them, so one lemma about permutations carries the
invariant through every function that only moves threads. The others are `thread_fork`, which
adds one, and `exorcise`, which takes all zombies away.
-/

namespace Windborne.OS161

open Library

/-- A thread is live from the time it starts until it is destroyed. -/
def Live {τ : Type} : List (ThreadEvent τ) → τ → Prop
  | [], _ => False
  | .started u :: log, t => t = u ∨ Live log t
  | .destroyed u :: log, t => t ≠ u ∧ Live log t
  | .readied _ :: log, t => Live log t
  | .dispatched _ :: log, t => Live log t
  | .preallocated _ :: log, t => Live log t

/-- The assertions on the interrupt level and on interrupt handlers are on the callers. -/
def Assertion.OfCaller (e : Assertion) : Prop := e = .curspl ∨ e = .inInterrupt

namespace ThreadSystem

variable {τ α : Type}

/-- All threads that are in some place. -/
def placed (s : ThreadSystem τ α) : List τ :=
  s.curthread.toList ++ (s.runqueue ++ (s.sleepers ++ s.zombies))

/-- The thread that a `thread_fork` is about to start. -/
structure IsNewguy (s : ThreadSystem τ α) (u : τ) : Prop where
  allocated : s.allocated u = true
  unplaced : u ∉ s.placed
  newguy : (s.thread u).newguy = none
  frame : (s.thread u).frame = .threadstart

/-- The invariant of the places. Sleepers sleep at addresses that satisfy `Φ`. -/
structure Placed (Φ : α → Prop) (s : ThreadSystem τ α) : Prop where
  nodup : s.placed.Nodup
  live : ∀ t, t ∈ s.placed ↔ Live s.log t
  counted : s.numthreads = s.runqueue.length + s.sleepers.length + s.curthread.toList.length
  allocated : ∀ t ∈ s.placed, s.allocated t = true
  newguys : ∀ t ∈ s.placed, ∀ u, (s.thread t).newguy = some u → s.IsNewguy u
  newguys_inj : ∀ t ∈ s.placed, ∀ t' ∈ s.placed, ∀ u, (s.thread t).newguy = some u →
    (s.thread t').newguy = some u → t = t'
  dead : ∀ z ∈ s.zombies, (s.thread z).tVmspace = none ∧ (s.thread z).tCwd = none
  frames : ∀ t ∈ s.runqueue ++ s.sleepers, (s.thread t).frame ≠ .exit
  asleep : ∀ t ∈ s.sleepers, ∃ a, (s.thread t).tSleepaddr = some a ∧ Φ a

variable {Φ Ψ : α → Prop}

theorem IsNewguy.keep {s t : ThreadSystem τ α} {u : τ} (h : s.IsNewguy u)
    (hAllocated : s.allocated u = true → t.allocated u = true)
    (hPlaced : u ∈ t.placed → u ∈ s.placed) (hNewguy : (t.thread u).newguy = (s.thread u).newguy)
    (hFrame : (t.thread u).frame = (s.thread u).frame) : t.IsNewguy u where
  allocated := hAllocated h.allocated
  unplaced hu := h.unplaced (hPlaced hu)
  newguy := hNewguy.trans h.newguy
  frame := hFrame.trans h.frame

/-- **Moving threads.** -/
theorem Placed.move {s t : ThreadSystem τ α} (h : s.Placed Φ) (hPlaced : t.placed.Perm s.placed)
    (hLive : ∀ u, Live t.log u ↔ Live s.log u)
    (hCount : t.numthreads = t.runqueue.length + t.sleepers.length + t.curthread.toList.length)
    (hAllocated : t.allocated = s.allocated)
    (hNewguy : ∀ u, (t.thread u).newguy = (s.thread u).newguy)
    (hFrame : ∀ u, u ∉ s.placed → (t.thread u).frame = (s.thread u).frame)
    (hDead : ∀ z ∈ t.zombies, (t.thread z).tVmspace = none ∧ (t.thread z).tCwd = none)
    (hFrames : ∀ u ∈ t.runqueue ++ t.sleepers, (t.thread u).frame ≠ .exit)
    (hAsleep : ∀ u ∈ t.sleepers, ∃ a, (t.thread u).tSleepaddr = some a ∧ Ψ a) :
    t.Placed Ψ where
  nodup := hPlaced.nodup_iff.mpr h.nodup
  live u := by rw [hPlaced.mem_iff, hLive, h.live]
  counted := hCount
  allocated u hu := by
    rw [hAllocated]
    exact h.allocated u (hPlaced.mem_iff.mp hu)
  newguys u hu v hv := by
    rw [hNewguy] at hv
    have hOld := h.newguys u (hPlaced.mem_iff.mp hu) v hv
    apply hOld.keep
    · rw [hAllocated]
      exact id
    · exact hPlaced.mem_iff.mp
    · exact hNewguy v
    · exact hFrame v hOld.unplaced
  newguys_inj u hu u' hu' v hv hv' := by
    rw [hNewguy] at hv hv'
    exact h.newguys_inj u (hPlaced.mem_iff.mp hu) u' (hPlaced.mem_iff.mp hu') v hv hv'
  dead := hDead
  frames := hFrames
  asleep := hAsleep

theorem Placed.weaken {s : ThreadSystem τ α} (h : s.Placed Φ) (hSub : ∀ a, Φ a → Ψ a) :
    s.Placed Ψ := by
  refine h.move (List.Perm.refl _) (fun _ => Iff.rfl) h.counted rfl (fun _ => rfl)
    (fun _ _ => rfl) h.dead h.frames ?_
  intro t ht
  obtain ⟨a, hAddr, ha⟩ := h.asleep t ht
  exact ⟨a, hAddr, hSub a ha⟩

variable [DecidableEq τ] [DecidableEq α]

/-! ## Assignments -/

omit [DecidableEq α] in
theorem setThread_self (s : ThreadSystem τ α) (t : τ) (f : Thread τ α → Thread τ α) :
    (s.setThread t f).thread t = f (s.thread t) := Function.update_self ..

omit [DecidableEq α] in
theorem setThread_of_ne (s : ThreadSystem τ α) {t u : τ} (f : Thread τ α → Thread τ α)
    (h : u ≠ t) : (s.setThread t f).thread u = s.thread u := Function.update_of_ne h ..

omit [DecidableEq α] in
/-- An assignment that keeps a field of the thread keeps it for all threads. -/
theorem setThread_field {γ : Type} (s : ThreadSystem τ α) (t : τ) {f : Thread τ α → Thread τ α}
    (g : Thread τ α → γ) (h : ∀ th, g (f th) = g th) (u : τ) :
    g ((s.setThread t f).thread u) = g (s.thread u) := by
  by_cases hu : u = t
  · subst hu
    rw [setThread_self, h]
  · rw [setThread_of_ne _ _ hu]

/-! ## Waking sleepers -/

omit [DecidableEq τ] in
/-- What the loop leaves and what it moves, when it stands behind `done`. -/
theorem wakeupLoop_eq (addr : α) (s : ThreadSystem τ α) (done rest : List τ)
    (h : s.sleepers = done ++ rest) :
    wakeupLoop addr s done.length = { s with
      sleepers := done ++ rest.filter fun t => ¬(s.thread t).tSleepaddr = some addr
      runqueue := s.runqueue ++ rest.filter fun t => (s.thread t).tSleepaddr = some addr
      log := ((rest.filter fun t => (s.thread t).tSleepaddr = some addr).map .readied).reverse ++
        s.log } := by
  induction rest generalizing s done with
  | nil =>
    rw [wakeupLoop, dif_neg (by simp [h])]
    simp [← h]
  | cons t rest ih =>
    have hLength : done.length < s.sleepers.length := by simp [h]
    have hGet : s.sleepers[done.length] = t := by simp [h]
    rw [wakeupLoop, dif_pos hLength]
    dsimp only
    rw [hGet]
    by_cases hAwake : (s.thread t).tSleepaddr = some addr
    · rw [if_pos hAwake, ih _ done (by simp [h, List.eraseIdx_append_of_length_le])]
      simp [hAwake]
    · rw [if_neg hAwake]
      have hNext := ih s (done ++ [t]) (by simp [h])
      rw [List.length_append, List.length_singleton] at hNext
      rw [hNext]
      simp [hAwake]

omit [DecidableEq τ] in
theorem threadWakeup_eq (addr : α) (s : ThreadSystem τ α) (hSpl : s.curspl ≠ 0) :
    s.threadWakeup addr = .ok { s with
      sleepers := s.sleepers.filter fun t => ¬(s.thread t).tSleepaddr = some addr
      runqueue := s.runqueue ++ s.sleepers.filter fun t => (s.thread t).tSleepaddr = some addr
      log := ((s.sleepers.filter fun t =>
        (s.thread t).tSleepaddr = some addr).map .readied).reverse ++ s.log } := by
  rw [threadWakeup, if_neg hSpl, ← List.length_nil (α := τ), wakeupLoop_eq addr s [] _ rfl]
  rfl

omit [DecidableEq τ] in
theorem live_readied (moved : List τ) (log : List (ThreadEvent τ)) (t : τ) :
    Live ((moved.map .readied).reverse ++ log) t ↔ Live log t := by
  rw [← List.map_reverse]
  induction moved.reverse with
  | nil => rfl
  | cons u moved ih => exact ih

omit [DecidableEq τ] in
theorem Placed.wakeup {s : ThreadSystem τ α} (h : s.Placed Φ) (addr : α) :
    Post (s.threadWakeup addr) (fun t => t.Placed (fun a => Φ a ∧ a ≠ addr) ∧
      t.curthread = s.curthread ∧ t.curspl = s.curspl ∧ t.switching = s.switching)
      Assertion.OfCaller := by
  by_cases hSpl : s.curspl = 0
  · rw [threadWakeup, if_pos hSpl]
    exact .error (Or.inl rfl)
  rw [threadWakeup_eq addr s hSpl]
  refine .ok ⟨?_, rfl, rfl, rfl⟩
  have hSplit := List.filter_append_perm
    (fun t => decide ((s.thread t).tSleepaddr = some addr)) s.sleepers
  simp only [← decide_not] at hSplit
  refine h.move ?_ ?_ ?_ rfl (fun _ => rfl) (fun _ _ => rfl) h.dead ?_ ?_
  · simp only [placed, List.append_assoc]
    apply List.Perm.append_left
    apply List.Perm.append_left
    rw [← List.append_assoc]
    exact hSplit.append_right _
  · exact live_readied _ _
  · have hLength := hSplit.length_eq
    rw [List.length_append] at hLength
    rw [h.counted]
    simp only [List.length_append]
    omega
  · intro u hu
    apply h.frames
    simp only [List.mem_append, List.mem_filter] at hu ⊢
    rcases hu with (hu | hu) | hu
    · exact Or.inl hu
    · exact Or.inr hu.1
    · exact Or.inr hu.1
  · intro u hu
    obtain ⟨hIn, hStays⟩ := List.mem_filter.mp hu
    obtain ⟨a, hAddr, ha⟩ := h.asleep u hIn
    refine ⟨a, hAddr, ha, ?_⟩
    rintro rfl
    simp [hAddr] at hStays

/-! ## Taking zombies away -/

omit [DecidableEq α] in
theorem exorciseLoop_eq (s : ThreadSystem τ α) (zombies : List τ)
    (hCur : ∀ z ∈ zombies, s.curthread ≠ some z)
    (hDead : ∀ z ∈ zombies, (s.thread z).tVmspace = none ∧ (s.thread z).tCwd = none) :
    s.exorciseLoop zombies = .ok { s with
      allocated := fun t => if t ∈ zombies then false else s.allocated t
      log := (zombies.map .destroyed).reverse ++ s.log } := by
  induction zombies generalizing s with
  | nil => simp [exorciseLoop]
  | cons z zombies ih =>
    have hZ := hDead z List.mem_cons_self
    have hDestroy : s.threadDestroy z = .ok { s with
        allocated := Function.update s.allocated z false, log := .destroyed z :: s.log } := by
      rw [threadDestroy, if_neg (hCur z List.mem_cons_self), if_neg (by simp [hZ.1]),
        if_neg (by simp [hZ.2])]
    have hRest := ih { s with
        allocated := Function.update s.allocated z false, log := .destroyed z :: s.log }
      (fun u hu => hCur u (List.mem_cons_of_mem _ hu))
      (fun u hu => hDead u (List.mem_cons_of_mem _ hu))
    rw [exorciseLoop, if_neg (hCur z List.mem_cons_self), hDestroy, ok_bind, hRest]
    have hAllocated : (fun t => if t ∈ zombies then false else
        Function.update s.allocated z false t) =
          fun t => if t ∈ z :: zombies then false else s.allocated t := by
      funext t
      by_cases ht : t = z
      · subst ht
        simp
      · simp [ht]
    simp only [hAllocated, List.map_cons, List.reverse_cons, List.append_assoc,
      List.singleton_append]

omit [DecidableEq τ] [DecidableEq α] in
theorem live_destroyed (dead : List τ) (log : List (ThreadEvent τ)) (t : τ) :
    Live ((dead.map .destroyed).reverse ++ log) t ↔ t ∉ dead ∧ Live log t := by
  rw [← List.map_reverse, ← List.mem_reverse]
  induction dead.reverse with
  | nil => simp
  | cons u dead ih =>
    rw [List.map_cons, List.cons_append, Live, ih, List.mem_cons]
    constructor
    · rintro ⟨hNe, hNot, hLive⟩
      exact ⟨fun h => h.elim hNe hNot, hLive⟩
    · rintro ⟨hNot, hLive⟩
      exact ⟨fun h => hNot (Or.inl h), fun h => hNot (Or.inr h), hLive⟩

omit [DecidableEq τ] [DecidableEq α] in
theorem Placed.curthread_notMem {s : ThreadSystem τ α} (h : s.Placed Φ) {t : τ}
    (hCur : s.curthread = some t) : t ∉ s.runqueue ∧ t ∉ s.sleepers ∧ t ∉ s.zombies := by
  have hNodup := h.nodup
  rw [placed, hCur, Option.toList_some, List.singleton_append, List.nodup_cons] at hNodup
  simpa [not_or] using hNodup.1

omit [DecidableEq τ] [DecidableEq α] in
/-- Assignments to the current thread and to threads in no place do not reach the lists. -/
theorem Placed.kept {s : ThreadSystem τ α} (h : s.Placed Φ) {t : τ} (hCur : s.curthread = some t)
    {thread : τ → Thread τ α} (hOther : ∀ u ∈ s.placed, u ≠ t → thread u = s.thread u) :
    (∀ z ∈ s.zombies, (thread z).tVmspace = none ∧ (thread z).tCwd = none) ∧
      (∀ u ∈ s.runqueue ++ s.sleepers, (thread u).frame ≠ .exit) ∧
      ∀ u ∈ s.sleepers, ∃ a, (thread u).tSleepaddr = some a ∧ Φ a := by
  obtain ⟨hQueue, hSleepers, hZombies⟩ := h.curthread_notMem hCur
  refine ⟨?_, ?_, ?_⟩
  · intro z hz
    rw [hOther z (by simp [placed, hz])]
    · exact h.dead z hz
    · rintro rfl
      exact hZombies hz
  · intro u hu
    rw [hOther u (by simp only [placed, List.mem_append] at hu ⊢; grind)]
    · exact h.frames u hu
    · rintro rfl
      simp [hQueue, hSleepers] at hu
  · intro u hu
    rw [hOther u (by simp [placed, hu])]
    · exact h.asleep u hu
    · rintro rfl
      exact hSleepers hu

omit [DecidableEq α] in
/-- **The assertions about zombies hold.** -/
theorem Placed.exorcise {s : ThreadSystem τ α} {E : Assertion → Prop} (h : s.Placed Φ)
    (hSpl : s.curspl ≠ 0) :
    Post s.exorcise (fun t => t.Placed Φ ∧ t.curthread = s.curthread ∧ t.sleepers = s.sleepers ∧
      t.zombies = []) E := by
  have hCur : ∀ z ∈ s.zombies, s.curthread ≠ some z :=
    fun z hz hEq => (h.curthread_notMem hEq).2.2 hz
  rw [ThreadSystem.exorcise, if_neg hSpl, exorciseLoop_eq s _ hCur h.dead, ok_bind]
  refine .ok ⟨?_, rfl, rfl, rfl⟩
  have hSplit : s.placed = s.curthread.toList ++ (s.runqueue ++ s.sleepers) ++ s.zombies := by
    simp [placed]
  have hNodup := h.nodup
  rw [hSplit, List.nodup_append] at hNodup
  obtain ⟨hKept, -, hApart⟩ := hNodup
  have hMem : ∀ t, t ∈ s.curthread.toList ++ (s.runqueue ++ s.sleepers) ↔
      t ∈ s.placed ∧ t ∉ s.zombies := by
    intro t
    rw [hSplit]
    constructor
    · intro ht
      exact ⟨List.mem_append_left _ ht, fun hz => hApart t ht t hz rfl⟩
    · rintro ⟨ht, hNot⟩
      exact (List.mem_append.mp ht).resolve_right hNot
  generalize hNew : ({ s with
      allocated := fun t => if t ∈ s.zombies then false else s.allocated t
      log := (s.zombies.map .destroyed).reverse ++ s.log
      zombies := [] } : ThreadSystem τ α) = new
  have hPlaced : new.placed = s.curthread.toList ++ (s.runqueue ++ s.sleepers) := by
    subst hNew
    simp [placed]
  have hAllocated : ∀ t, t ∉ s.zombies → s.allocated t = true → new.allocated t = true := by
    subst hNew
    intro t ht hAlloc
    simp [ht, hAlloc]
  constructor
  · rwa [hPlaced]
  · intro t
    subst hNew
    rw [hPlaced, hMem, live_destroyed, h.live, and_comm]
  · subst hNew
    exact h.counted
  · intro t ht
    rw [hPlaced, hMem] at ht
    exact hAllocated t ht.2 (h.allocated t ht.1)
  · intro t ht u hu
    rw [hPlaced, hMem] at ht
    have hOld := h.newguys t ht.1 u (by subst hNew; exact hu)
    apply hOld.keep
    · apply hAllocated
      intro hz
      exact hOld.unplaced (by rw [hSplit]; exact List.mem_append_right _ hz)
    · rw [hPlaced, hMem]
      exact And.left
    · subst hNew
      rfl
    · subst hNew
      rfl
  · intro t ht t' ht' u hu hu'
    rw [hPlaced, hMem] at ht ht'
    subst hNew
    exact h.newguys_inj t ht.1 t' ht'.1 u hu hu'
  · subst hNew
    intro z hz
    cases hz
  · subst hNew
    exact h.frames
  · subst hNew
    exact h.asleep

/-! ## Context switches -/

omit [DecidableEq τ] [DecidableEq α] in
theorem Placed.withRegisters {s : ThreadSystem τ α} (h : s.Placed Φ)
    (lboltCounter curspl inInterrupt : Nat) (switching : Option τ) :
    ({ s with lboltCounter, curspl, inInterrupt, switching } : ThreadSystem τ α).Placed Φ :=
  h.move (List.Perm.refl _) (fun _ => Iff.rfl) h.counted rfl (fun _ => rfl) (fun _ _ => rfl)
    h.dead h.frames h.asleep

omit [DecidableEq τ] [DecidableEq α] in
theorem Placed.leaveInterrupt {s : ThreadSystem τ α} (h : s.Placed Φ) (trap : Option Trap) :
    (s.leaveInterrupt trap).Placed Φ := by
  cases trap with
  | none => exact h
  | some trap => exact h.withRegisters _ _ _ _

omit [DecidableEq α] in
theorem Placed.setThread {s : ThreadSystem τ α} (h : s.Placed Φ) {t : τ}
    {f : Thread τ α → Thread τ α} (hNewguy : ∀ th, (f th).newguy = th.newguy)
    (hFrame : ∀ th, (f th).frame = th.frame)
    (hAway : (t ∉ s.sleepers ∧ t ∉ s.zombies) ∨ ∀ th, (f th).tSleepaddr = th.tSleepaddr ∧
      (f th).tVmspace = th.tVmspace ∧ (f th).tCwd = th.tCwd) :
    (s.setThread t f).Placed Φ := by
  refine h.move (List.Perm.refl _) (fun _ => Iff.rfl) h.counted rfl
    (setThread_field s t (·.newguy) hNewguy)
    (fun u _ => setThread_field s t (·.frame) hFrame u) ?_ ?_ ?_
  · intro z hz
    rcases hAway with hNot | hKeep
    · rw [setThread_of_ne]
      · exact h.dead z hz
      · rintro rfl
        exact hNot.2 hz
    · rw [setThread_field s t (·.tVmspace) (fun th => (hKeep th).2.1),
        setThread_field s t (·.tCwd) (fun th => (hKeep th).2.2)]
      exact h.dead z hz
  · intro u hu
    rw [setThread_field s t (·.frame) hFrame]
    exact h.frames u hu
  · intro u hu
    rcases hAway with hNot | hKeep
    · rw [setThread_of_ne]
      · exact h.asleep u hu
      · rintro rfl
        exact hNot.1 hu
    · rw [setThread_field s t (·.tSleepaddr) (fun th => (hKeep th).1)]
      exact h.asleep u hu

omit [DecidableEq α] in
theorem Placed.mdSwitch {s : ThreadSystem τ α} (h : s.Placed Φ) (old nu : τ) :
    (s.mdSwitch old nu).Placed Φ := by
  unfold ThreadSystem.mdSwitch
  split
  · exact h
  · dsimp only
    refine Placed.withRegisters (h.setThread ?_ ?_ ?_) _ _ _ _
    · intro th
      rfl
    · intro th
      rfl
    · exact Or.inr fun _ => ⟨rfl, rfl, rfl⟩

omit [DecidableEq α] in
theorem mdSwitch_keeps (s : ThreadSystem τ α) (old nu t : τ) :
    (s.mdSwitch old nu).curthread = s.curthread ∧ (s.mdSwitch old nu).curspl = s.curspl ∧
      ((s.mdSwitch old nu).thread t).frame = (s.thread t).frame := by
  unfold ThreadSystem.mdSwitch
  split
  · exact ⟨rfl, rfl, rfl⟩
  · exact ⟨rfl, rfl, setThread_field s old (f := fun th =>
      { th with pcbIninterrupt := s.inInterrupt }) (·.frame) (fun _ => rfl) t⟩

omit [DecidableEq α] in
theorem Placed.resume {s : ThreadSystem τ α} {E : Assertion → Prop} (h : s.Placed Φ)
    (hSpl : s.curspl ≠ 0) {t : τ} (hCur : s.curthread = some t)
    (hFrame : (s.thread t).frame ≠ .exit) :
    Post (s.resume t) (fun u => u.Placed Φ ∧ u.curthread = some t) E := by
  unfold ThreadSystem.resume
  cases hCase : (s.thread t).frame with
  | threadstart => exact .ok ⟨h.withRegisters _ _ _ _, hCur⟩
  | yield spl trap =>
    refine (h.exorcise hSpl).bind ?_
    rintro u ⟨hPlaced, hCur', -, -⟩
    refine .ok ⟨(hPlaced.withRegisters _ _ _ _).leaveInterrupt trap, ?_⟩
    cases trap with
    | none => exact hCur'.trans hCur
    | some trap => exact hCur'.trans hCur
  | sleep =>
    refine (h.exorcise hSpl).bind ?_
    rintro u ⟨hPlaced, hCur', hSleepers, hZombies⟩
    refine .ok ⟨hPlaced.setThread (fun _ => rfl) (fun _ => rfl) (Or.inl ⟨?_, ?_⟩),
      hCur'.trans hCur⟩
    · rw [hSleepers]
      exact (h.curthread_notMem hCur).2.1
    · rw [hZombies]
      exact List.not_mem_nil
  | exit => exact absurd hCase hFrame

/-- In the loop of the scheduler. -/
structure Waiting (Φ : α → Prop) (s : ThreadSystem τ α) : Prop where
  placed : s.Placed Φ
  curthread : s.curthread = none
  curspl : s.curspl ≠ 0
  switching : s.switching ≠ none

/-- What holds between steps: without a current thread the processor idles. -/
structure Inv (Φ : α → Prop) (s : ThreadSystem τ α) : Prop where
  placed : s.Placed Φ
  idle : s.curthread = none → s.runqueue = [] ∧ s.curspl ≠ 0 ∧ s.switching ≠ none

omit [DecidableEq α] in
theorem Waiting.scheduler {s : ThreadSystem τ α} {E : Assertion → Prop} (h : s.Waiting Φ) :
    Post s.scheduler (Inv Φ) E := by
  obtain ⟨hPlaced, hCur, hSpl, hSwitching⟩ := h
  obtain ⟨cur, hSome⟩ := Option.ne_none_iff_exists'.mp hSwitching
  rw [ThreadSystem.scheduler, if_neg hSpl]
  cases hQueue : s.runqueue with
  | nil => exact .ok ⟨hPlaced, fun _ => ⟨hQueue, hSpl, hSwitching⟩⟩
  | cons next runqueue =>
    rw [hSome]
    dsimp only
    have hNext : (s.thread next).frame ≠ .exit := by
      apply hPlaced.frames
      simp [hQueue]
    have hDispatched : ({ s with
        curthread := some next, runqueue, switching := none
        log := .dispatched next :: s.log } : ThreadSystem τ α).Placed Φ := by
      refine hPlaced.move ?_ (fun _ => Iff.rfl) ?_ rfl (fun _ => rfl) (fun _ _ => rfl)
        hPlaced.dead ?_ hPlaced.asleep
      · simp [ThreadSystem.placed, hQueue, hCur]
      · have hCount := hPlaced.counted
        rw [hQueue, hCur, List.length_cons] at hCount
        show s.numthreads = runqueue.length + s.sleepers.length + 1
        rw [hCount, Option.toList_none, List.length_nil]
        omega
      · intro u hu
        apply hPlaced.frames
        rw [hQueue]
        exact List.mem_cons_of_mem _ hu
    obtain ⟨hKeepCur, hKeepSpl, hKeepFrame⟩ := mdSwitch_keeps ({ s with
      curthread := some next, runqueue, switching := none
      log := .dispatched next :: s.log } : ThreadSystem τ α) cur next next
    refine ((hDispatched.mdSwitch cur next).resume ?_ hKeepCur ?_).mono ?_
    · rw [hKeepSpl]
      exact hSpl
    · rw [hKeepFrame]
      exact hNext
    · rintro u ⟨hPlaced', hCur'⟩
      refine ⟨hPlaced', fun hNone => ?_⟩
      rw [hCur'] at hNone
      cases hNone

omit [DecidableEq α] in
/-- The thread that gives up the processor is in place again once it is stashed. -/
theorem Placed.stashed {s t : ThreadSystem τ α} (h : s.Placed Φ) {cur : τ} (frame : Frame)
    (hCur : s.curthread = some cur)
    (hPlaced : t.placed.Perm s.placed) (hLive : ∀ u, Live t.log u ↔ Live s.log u)
    (hNone : t.curthread = none)
    (hCount : t.numthreads = t.runqueue.length + t.sleepers.length)
    (hThread : t.thread = (s.setThread cur fun th => { th with frame }).thread)
    (hAllocated : t.allocated = s.allocated)
    (hDead : ∀ z ∈ t.zombies, (s.thread z).tVmspace = none ∧ (s.thread z).tCwd = none)
    (hFrames : ∀ u ∈ t.runqueue ++ t.sleepers, u ∈ s.runqueue ++ s.sleepers ∨
      u = cur ∧ frame ≠ .exit)
    (hAsleep : ∀ u ∈ t.sleepers, ∃ a, (s.thread u).tSleepaddr = some a ∧ Φ a) :
    t.Placed Φ := by
  have hMem : cur ∈ s.placed := by simp [placed, hCur]
  refine h.move hPlaced hLive ?_ hAllocated ?_ ?_ ?_ ?_ ?_
  · rw [hNone, hCount]
    rfl
  · rw [hThread]
    exact setThread_field s cur (·.newguy) fun _ => rfl
  · intro u hu
    rw [hThread, setThread_of_ne]
    rintro rfl
    exact hu hMem
  · intro z hz
    rw [hThread]
    have hVmspace := setThread_field s cur (f := fun th => { th with frame }) (·.tVmspace)
      (fun _ => rfl) z
    have hCwd := setThread_field s cur (f := fun th => { th with frame }) (·.tCwd)
      (fun _ => rfl) z
    exact ⟨hVmspace.trans (hDead z hz).1, hCwd.trans (hDead z hz).2⟩
  · intro u hu
    rw [hThread]
    by_cases hEq : u = cur
    · subst hEq
      rw [setThread_self]
      rcases hFrames u hu with hOld | ⟨-, hFrame⟩
      · have hNot := h.curthread_notMem hCur
        simp [hNot.1, hNot.2.1] at hOld
      · exact hFrame
    · rw [setThread_of_ne _ _ hEq]
      rcases hFrames u hu with hOld | ⟨hEq', -⟩
      · exact h.frames u hOld
      · exact absurd hEq' hEq
  · intro u hu
    rw [hThread]
    have hAddr := setThread_field s cur (f := fun th => { th with frame }) (·.tSleepaddr)
      (fun _ => rfl) u
    obtain ⟨a, hSome, ha⟩ := hAsleep u hu
    exact ⟨a, hAddr.trans hSome, ha⟩

omit [DecidableEq α] in
/-- `mi_switch` for a thread that stays runnable or goes to sleep. -/
theorem Placed.miSwitch {s : ThreadSystem τ α} {E : Assertion → Prop} (h : s.Placed Φ) {cur : τ}
    (hCur : s.curthread = some cur) (hSpl : s.curspl ≠ 0) {nextstate : ThreadState}
    (hState : nextstate ≠ .zomb) {frame : Frame} (hFrame : frame ≠ .exit)
    (hSleep : nextstate = .sleep → ∃ a, (s.thread cur).tSleepaddr = some a ∧ Φ a) :
    Post (s.miSwitch nextstate frame) (Inv Φ) E := by
  unfold ThreadSystem.miSwitch
  rw [if_neg hSpl, hCur]
  dsimp only
  have hCount := h.counted
  rw [hCur, Option.toList_some, List.length_singleton] at hCount
  cases nextstate with
  | ready =>
    rw [stash, makeRunnable, if_neg (show (s.giveUp cur frame).curspl ≠ 0 from hSpl), ok_bind]
    refine Waiting.scheduler ⟨?_, rfl, hSpl, nofun⟩
    refine h.stashed frame hCur ?_ (fun _ => Iff.rfl) rfl ?_ rfl rfl h.dead ?_ h.asleep
    · show (s.runqueue ++ [cur] ++ (s.sleepers ++ s.zombies)).Perm s.placed
      rw [placed, hCur, Option.toList_some, List.append_assoc]
      exact List.perm_append_comm_assoc ..
    · show s.numthreads = (s.runqueue ++ [cur]).length + s.sleepers.length
      rw [List.length_append, List.length_singleton]
      omega
    · intro u hu
      replace hu : u ∈ s.runqueue ++ [cur] ++ s.sleepers := hu
      simp only [List.mem_append, List.mem_singleton] at hu ⊢
      grind
  | sleep =>
    rw [stash, ok_bind]
    refine Waiting.scheduler ⟨?_, rfl, hSpl, nofun⟩
    refine h.stashed frame hCur ?_ (fun _ => Iff.rfl) rfl ?_ rfl rfl h.dead ?_ ?_
    · show (s.runqueue ++ (s.sleepers ++ [cur] ++ s.zombies)).Perm s.placed
      rw [placed, hCur, Option.toList_some, List.perm_iff_count]
      intro u
      simp only [List.count_append]
      omega
    · show s.numthreads = s.runqueue.length + (s.sleepers ++ [cur]).length
      rw [List.length_append, List.length_singleton]
      omega
    · intro u hu
      replace hu : u ∈ s.runqueue ++ (s.sleepers ++ [cur]) := hu
      simp only [List.mem_append, List.mem_singleton] at hu ⊢
      grind
    · intro u hu
      rcases List.mem_append.mp hu with hu | hu
      · exact h.asleep u hu
      · rw [List.mem_singleton] at hu
        rw [hu]
        exact hSleep rfl
  | zomb => exact absurd rfl hState

omit [DecidableEq α] in
/-- `mi_switch` for a thread that has been cleaned up and is not counted any more. -/
theorem Placed.miSwitch_zomb {s : ThreadSystem τ α} (h : s.Placed Φ) {cur : τ}
    (hCur : s.curthread = some cur) (hSpl : s.curspl ≠ 0)
    (hClean : (s.thread cur).tVmspace = none ∧ (s.thread cur).tCwd = none) :
    Post (({ s with numthreads := s.numthreads - 1 } : ThreadSystem τ α).miSwitch .zomb .exit)
      (Inv Φ) Assertion.OfCaller := by
  have hCount := h.counted
  rw [hCur, Option.toList_some, List.length_singleton] at hCount
  unfold ThreadSystem.miSwitch
  rw [if_neg hSpl, hCur]
  dsimp only
  rw [stash, ok_bind]
  refine Waiting.scheduler ⟨?_, rfl, hSpl, nofun⟩
  refine h.stashed .exit hCur ?_ (fun _ => Iff.rfl) rfl ?_ rfl rfl ?_ ?_ h.asleep
  · show (s.runqueue ++ (s.sleepers ++ (s.zombies ++ [cur]))).Perm s.placed
    rw [placed, hCur, Option.toList_some, List.perm_iff_count]
    intro u
    simp only [List.count_append]
    omega
  · show s.numthreads - 1 = s.runqueue.length + s.sleepers.length
    omega
  · intro z hz
    replace hz : z ∈ s.zombies ++ [cur] := hz
    rcases List.mem_append.mp hz with hz | hz
    · exact h.dead z hz
    · rw [List.mem_singleton] at hz
      rw [hz]
      exact hClean
  · intro u hu
    exact Or.inl hu

omit [DecidableEq α] in
theorem Placed.threadExit {s : ThreadSystem τ α} (h : s.Placed Φ) (c : ThreadConfig α) {t : τ}
    (hCur : s.curthread = some t) :
    Post (s.threadExit c t) (Inv Φ) Assertion.OfCaller := by
  have hCount := h.counted
  rw [hCur, Option.toList_some, List.length_singleton] at hCount
  unfold ThreadSystem.threadExit
  dsimp only
  split
  · rename_i hZero
    replace hZero : s.numthreads = 0 := hZero
    omega
  · refine Placed.miSwitch_zomb ?_ hCur (Nat.ne_of_gt c.splHigh_pos) ?_
    · exact (h.withRegisters _ _ _ _).setThread (fun _ => rfl) (fun _ => rfl)
        (Or.inl (h.curthread_notMem hCur).2)
    · rw [setThread_self]
      exact ⟨rfl, rfl⟩

omit [DecidableEq α] in
theorem Placed.threadYield {s : ThreadSystem τ α} (h : s.Placed Φ) (c : ThreadConfig α)
    (trap : Option Trap) {t : τ} (hCur : s.curthread = some t) :
    Post (s.threadYield c trap) (Inv Φ) Assertion.OfCaller := by
  have hHigh : (s.splhigh c).2.Placed Φ := h.withRegisters _ _ _ _
  unfold ThreadSystem.threadYield
  dsimp only
  rw [show (s.splhigh c).2.curthread = some t from hCur]
  refine hHigh.miSwitch hCur ?_ ?_ ?_ ?_
  · exact Nat.ne_of_gt c.splHigh_pos
  · simp
  · simp
  · simp

omit [DecidableEq α] in
theorem Placed.threadSleep {s : ThreadSystem τ α} (h : s.Placed Φ) {addr : α} (ha : Φ addr)
    {t : τ} (hCur : s.curthread = some t) :
    Post (s.threadSleep addr t) (Inv Φ)
      fun e => (e = .curspl ∧ s.curspl = 0) ∨ e = .inInterrupt ∧ s.inInterrupt ≠ 0 := by
  unfold ThreadSystem.threadSleep
  split
  · rename_i hInterrupt
    exact .error (Or.inr ⟨rfl, hInterrupt⟩)
  by_cases hSpl : s.curspl = 0
  · rw [ThreadSystem.miSwitch, if_pos (show (s.setThread t _).curspl = 0 from hSpl)]
    exact .error (Or.inl ⟨rfl, hSpl⟩)
  · refine Placed.miSwitch (h.setThread ?_ ?_ ?_) hCur hSpl ?_ ?_ ?_
    · intro th
      rfl
    · intro th
      rfl
    · exact Or.inl (h.curthread_notMem hCur).2
    · simp
    · simp
    · intro _
      exact ⟨addr, by rw [setThread_self], ha⟩

/-! ## Interrupts -/

omit [DecidableEq τ] in
theorem Placed.lboltTick {s : ThreadSystem τ α} (h : s.Placed Φ) (c : ThreadConfig α) :
    Post (s.lboltTick c) (fun t => t.Placed Φ ∧ t.curthread = s.curthread ∧
      t.switching = s.switching) Assertion.OfCaller := by
  unfold ThreadSystem.lboltTick
  dsimp only
  split
  · refine ((h.withRegisters 0 _ _ _).wakeup c.lbolt).mono ?_
    rintro t ⟨hPlaced, hCur, -, hSwitching⟩
    exact ⟨hPlaced.weaken fun _ => And.left, hCur, hSwitching⟩
  · exact .ok ⟨h.withRegisters _ _ _ _, rfl, rfl⟩

theorem Placed.timerInterrupt {s : ThreadSystem τ α} (h : s.Placed Φ) (c : ThreadConfig α) {t : τ}
    (hCur : s.curthread = some t) :
    Post (s.timerInterrupt c) (Inv Φ) Assertion.OfCaller := by
  have hEntered : (s.enterInterrupt c).2.Placed Φ := h.withRegisters _ _ _ _
  refine (hEntered.lboltTick c).bind ?_
  rintro u ⟨hPlaced, hCur', -⟩
  exact hPlaced.threadYield c _ (hCur'.trans hCur)

omit [DecidableEq α] in
/-- In the idle loop `mi_switch` returns at once. -/
theorem threadYield_idle (c : ThreadConfig α) (s : ThreadSystem τ α) (trap : Option Trap)
    (hCur : s.curthread = none) : s.threadYield c trap = .ok (s.leaveInterrupt trap) := by
  have hSwitch : (s.splhigh c).2.miSwitch .ready (.yield s.curspl trap) =
      .ok (s.splhigh c).2 := by
    unfold ThreadSystem.miSwitch
    have hCur' : (s.splhigh c).2.curthread = none := hCur
    rw [hCur']
    exact if_neg (Nat.ne_of_gt c.splHigh_pos)
  unfold ThreadSystem.threadYield
  dsimp only
  rw [show (s.splhigh c).2.curthread = none from hCur]
  exact bind_eq_ok.mpr ⟨_, hSwitch, rfl⟩

theorem Waiting.timerInterrupt {s : ThreadSystem τ α} (h : s.Waiting Φ) (c : ThreadConfig α) :
    Post (s.timerInterrupt c) (Waiting Φ) Assertion.OfCaller := by
  have hEntered : (s.enterInterrupt c).2.Placed Φ := h.placed.withRegisters _ _ _ _
  refine (hEntered.lboltTick c).bind ?_
  rintro u ⟨hPlaced, hCur, hSwitching⟩
  replace hCur : u.curthread = none := hCur.trans h.curthread
  rw [threadYield_idle c u _ hCur]
  exact .ok ⟨hPlaced.leaveInterrupt _, hCur, h.curspl, hSwitching.trans_ne h.switching⟩

omit [DecidableEq τ] in
/-- A device interrupt comes back to where it came in. -/
theorem Placed.deviceInterrupt {s : ThreadSystem τ α} (h : s.Placed Φ) (c : ThreadConfig α)
    (addr : α) :
    Post (s.deviceInterrupt c addr) (fun t => t.Placed Φ ∧ t.curthread = s.curthread ∧
      t.curspl = s.curspl ∧ t.switching = s.switching) Assertion.OfCaller := by
  have hEntered : (s.enterInterrupt c).2.Placed Φ := h.withRegisters _ _ _ _
  refine (hEntered.wakeup addr).bind ?_
  rintro u ⟨hPlaced, hCur, -, hSwitching⟩
  exact .ok ⟨(hPlaced.leaveInterrupt _).weaken fun _ => And.left, hCur, rfl, hSwitching⟩

/-! ## Forking -/

omit [DecidableEq α] in
theorem threadCreate_newguy (s : ThreadSystem τ α) {t newguy : τ} (h : newguy ≠ t) :
    ((s.threadCreate t newguy).thread newguy).newguy = none ∧
      ((s.threadCreate t newguy).thread newguy).frame = .threadstart := by
  unfold ThreadSystem.threadCreate
  dsimp only
  rw [setThread_of_ne _ _ h, setThread_self]
  exact ⟨rfl, rfl⟩

omit [DecidableEq α] in
theorem threadCreate_parent (s : ThreadSystem τ α) (t newguy : τ) :
    ((s.threadCreate t newguy).thread t).newguy = some newguy := by
  unfold ThreadSystem.threadCreate
  dsimp only
  rw [setThread_self]

omit [DecidableEq α] in
theorem threadCreate_of_ne (s : ThreadSystem τ α) {t newguy u : τ} (hu : u ≠ t)
    (hu' : u ≠ newguy) : (s.threadCreate t newguy).thread u = s.thread u := by
  unfold ThreadSystem.threadCreate
  dsimp only
  rw [setThread_of_ne _ _ hu, setThread_of_ne _ _ hu']

omit [DecidableEq α] in
theorem threadCreate_allocated (s : ThreadSystem τ α) {t newguy u : τ}
    (hu : s.allocated u = true ∨ u = newguy) : (s.threadCreate t newguy).allocated u = true := by
  show Function.update s.allocated newguy true u = true
  rcases hu with hu | rfl
  · rw [Function.update_apply]
    split
    · rfl
    · exact hu
  · exact Function.update_self ..

omit [DecidableEq α] in
theorem Placed.threadCreate {s : ThreadSystem τ α} (h : s.Placed Φ) {t newguy : τ}
    (hCur : s.curthread = some t) (hNone : (s.thread t).newguy = none)
    (hFresh : s.allocated newguy = false) : (s.threadCreate t newguy).Placed Φ := by
  have hMem : t ∈ s.placed := by simp [placed, hCur]
  have hUnplaced : newguy ∉ s.placed := by
    intro hIn
    rw [h.allocated newguy hIn] at hFresh
    cases hFresh
  have hNe : newguy ≠ t := by
    rintro rfl
    exact hUnplaced hMem
  have hOther : ∀ u ∈ s.placed, u ≠ t → (s.threadCreate t newguy).thread u = s.thread u := by
    intro u hu hut
    apply threadCreate_of_ne s hut
    rintro rfl
    exact hUnplaced hu
  have hKept := h.kept hCur hOther
  -- another thread cannot be about to start the address that was free
  have hOld : ∀ u ∈ s.placed, u ≠ t → ∀ v,
      ((s.threadCreate t newguy).thread u).newguy = some v → s.IsNewguy v ∧ v ≠ newguy := by
    intro u hu hut v hv
    rw [hOther u hu hut] at hv
    have hNewguy := h.newguys u hu v hv
    refine ⟨hNewguy, ?_⟩
    rintro rfl
    rw [hNewguy.allocated] at hFresh
    cases hFresh
  constructor
  · exact h.nodup
  · exact h.live
  · exact h.counted
  · intro u hu
    exact threadCreate_allocated s (Or.inl (h.allocated u hu))
  · intro u hu v hv
    by_cases hut : u = t
    · subst hut
      rw [threadCreate_parent] at hv
      cases hv
      obtain ⟨hNewguy, hFrame⟩ := threadCreate_newguy s hNe
      exact ⟨threadCreate_allocated s (Or.inr rfl), hUnplaced, hNewguy, hFrame⟩
    · obtain ⟨hNewguy, hvn⟩ := hOld u hu hut v hv
      have hvt : v ≠ t := by
        rintro rfl
        exact hNewguy.unplaced hMem
      have hSame := threadCreate_of_ne s hvt hvn
      apply hNewguy.keep
      · exact fun hAlloc => threadCreate_allocated s (Or.inl hAlloc)
      · exact id
      · rw [hSame]
      · rw [hSame]
  · intro u hu u' hu' v hv hv'
    by_cases hut : u = t
    · subst hut
      rw [threadCreate_parent] at hv
      cases hv
      by_contra hNe'
      exact (hOld u' hu' (Ne.symm hNe') _ hv').2 rfl
    · by_cases hut' : u' = t
      · subst hut'
        rw [threadCreate_parent] at hv'
        cases hv'
        exact absurd rfl (hOld u hu hut _ hv).2
      · rw [hOther u hu hut] at hv
        rw [hOther u' hu' hut'] at hv'
        exact h.newguys_inj u hu u' hu' v hv hv'
  · exact hKept.1
  · exact hKept.2.1
  · exact hKept.2.2

/-- The state after `thread_fork`. -/
def forked (s : ThreadSystem τ α) (t newguy : τ) : ThreadSystem τ α :=
  ({ s with
    runqueue := s.runqueue ++ [newguy], numthreads := s.numthreads + 1
    log := .readied newguy :: .started newguy :: .preallocated (s.numthreads + 1) ::
      s.log } : ThreadSystem τ α).setThread t fun th => { th with newguy := none }

omit [DecidableEq α] in
theorem threadFork_eq (c : ThreadConfig α) (s : ThreadSystem τ α) (t newguy : τ) :
    s.threadFork c t newguy = .ok (s.forked t newguy) :=
  bind_eq_ok.mpr ⟨_, if_neg (Nat.ne_of_gt c.splHigh_pos), rfl⟩

omit [DecidableEq α] in
theorem forked_placed (s : ThreadSystem τ α) (t newguy : τ) :
    (s.forked t newguy).placed.Perm (newguy :: s.placed) := by
  show (s.curthread.toList ++ (s.runqueue ++ [newguy] ++ (s.sleepers ++ s.zombies))).Perm _
  rw [List.perm_iff_count]
  intro u
  simp only [placed, List.count_append, List.count_cons, List.count_nil]
  omega

omit [DecidableEq α] in
theorem forked_of_ne (s : ThreadSystem τ α) {t newguy u : τ} (hu : u ≠ t) :
    (s.forked t newguy).thread u = s.thread u := setThread_of_ne _ _ hu

omit [DecidableEq α] in
theorem forked_parent (s : ThreadSystem τ α) (t newguy : τ) :
    ((s.forked t newguy).thread t).newguy = none := by
  unfold forked
  rw [setThread_self]

omit [DecidableEq α] in
/-- Whoever else is about to start a thread, it is another one. -/
theorem Placed.forked_newguy {s : ThreadSystem τ α} (h : s.Placed Φ) {t newguy : τ}
    (hMem : t ∈ s.placed) (hNewguy : (s.thread t).newguy = some newguy) {u v : τ}
    (hu : u ∈ (s.forked t newguy).placed)
    (hv : ((s.forked t newguy).thread u).newguy = some v) :
    u ∈ s.placed ∧ (s.thread u).newguy = some v ∧ v ≠ newguy := by
  have hut : u ≠ t := by
    rintro rfl
    rw [forked_parent] at hv
    cases hv
  rw [forked_of_ne s hut] at hv
  rw [(forked_placed s t newguy).mem_iff, List.mem_cons] at hu
  rcases hu with rfl | hu
  · rw [(h.newguys t hMem u hNewguy).newguy] at hv
    cases hv
  · refine ⟨hu, hv, ?_⟩
    rintro rfl
    exact hut (h.newguys_inj u hu t hMem v hv hNewguy)

omit [DecidableEq α] in
theorem Placed.forked {s : ThreadSystem τ α} (h : s.Placed Φ) {t newguy : τ}
    (hCur : s.curthread = some t) (hNewguy : (s.thread t).newguy = some newguy) :
    (s.forked t newguy).Placed Φ := by
  have hMem : t ∈ s.placed := by simp [placed, hCur]
  have hStarts := h.newguys t hMem newguy hNewguy
  have hNe : newguy ≠ t := by
    rintro rfl
    exact hStarts.unplaced hMem
  have hPlaced := forked_placed s t newguy
  have hMemNew : ∀ u, u ∈ (s.forked t newguy).placed ↔ u = newguy ∨ u ∈ s.placed := by
    intro u
    rw [hPlaced.mem_iff, List.mem_cons]
  have hOther : ∀ u ∈ s.placed, u ≠ t → (s.forked t newguy).thread u = s.thread u :=
    fun _ _ => forked_of_ne s
  have hKept := h.kept hCur hOther
  constructor
  · rw [hPlaced.nodup_iff, List.nodup_cons]
    exact ⟨hStarts.unplaced, h.nodup⟩
  · intro u
    rw [hMemNew, h.live]
    rfl
  · show s.numthreads + 1 = (s.runqueue ++ [newguy]).length + s.sleepers.length +
      s.curthread.toList.length
    rw [h.counted, List.length_append, List.length_singleton]
    omega
  · intro u hu
    rcases (hMemNew u).mp hu with rfl | hu
    · exact hStarts.allocated
    · exact h.allocated u hu
  · intro u hu v hv
    obtain ⟨hu', hv', hvn⟩ := h.forked_newguy hMem hNewguy hu hv
    have hOld := h.newguys u hu' v hv'
    have hvt : v ≠ t := by
      rintro rfl
      exact hOld.unplaced hMem
    have hSame : (s.forked t newguy).thread v = s.thread v := forked_of_ne s hvt
    apply hOld.keep
    · exact id
    · rw [hMemNew]
      exact fun hIn => hIn.resolve_left hvn
    · rw [hSame]
    · rw [hSame]
  · intro u hu u' hu' v hv hv'
    obtain ⟨hu, hv, -⟩ := h.forked_newguy hMem hNewguy hu hv
    obtain ⟨hu', hv', -⟩ := h.forked_newguy hMem hNewguy hu' hv'
    exact h.newguys_inj u hu u' hu' v hv hv'
  · exact hKept.1
  · intro u hu
    replace hu : u ∈ s.runqueue ++ [newguy] ++ s.sleepers := hu
    by_cases hun : u = newguy
    · subst hun
      rw [forked_of_ne s hNe, hStarts.frame]
      simp
    · apply hKept.2.1
      simp only [List.mem_append, List.mem_singleton] at hu ⊢
      grind
  · exact hKept.2.2

/-! ## Steps and runs -/

omit [DecidableEq τ] [DecidableEq α] in
theorem inv_of_placed {s : ThreadSystem τ α} (h : s.Placed Φ) {t : τ}
    (hCur : s.curthread = some t) : s.Inv Φ := by
  refine ⟨h, ?_⟩
  intro hNone
  rw [hCur] at hNone
  cases hNone

theorem Inv.freeCall {c : ThreadConfig α} {s : ThreadSystem τ α} (h : s.Inv Φ) {t : τ}
    (hCur : s.curthread = some t) (hFree : (s.thread t).newguy = none) {a : ThreadAction τ α}
    (hSleep : ∀ addr, a = .threadSleep addr → Φ addr)
    {x : Except Assertion (ThreadSystem τ α)} (hCall : s.freeCall c t a = some x) :
    Post x (Inv Φ) Assertion.OfCaller := by
  have hKeep : ∀ f : Thread τ α → Thread τ α, (∀ th, (f th).newguy = th.newguy) →
      (∀ th, (f th).frame = th.frame) → (s.setThread t f).Inv Φ := fun f hNewguy hFrame =>
    inv_of_placed (h.placed.setThread hNewguy hFrame
      (Or.inl (h.placed.curthread_notMem hCur).2)) hCur
  cases a with
  | splx newspl =>
    cases hCall
    exact .ok (inv_of_placed (h.placed.withRegisters _ _ _ _) hCur)
  | threadYield =>
    cases hCall
    exact h.placed.threadYield c none hCur
  | threadSleep addr =>
    cases hCall
    exact (h.placed.threadSleep (hSleep addr rfl) hCur).weaken fun e he =>
      he.imp And.left And.left
  | threadWakeup addr =>
    cases hCall
    refine (h.placed.wakeup addr).mono ?_
    rintro u ⟨hPlaced, hCur', -⟩
    exact inv_of_placed (hPlaced.weaken fun _ => And.left) (hCur'.trans hCur)
  | threadExit =>
    cases hCall
    exact h.placed.threadExit c hCur
  | threadCreate newguy =>
    simp only [ThreadSystem.freeCall] at hCall
    split at hCall
    · cases hCall
    · rename_i hFresh
      cases hCall
      exact .ok (inv_of_placed (h.placed.threadCreate hCur hFree (by simpa using hFresh)) hCur)
  | threadFork => cases hCall
  | setVmspace as =>
    cases hCall
    exact .ok (hKeep _ (fun _ => rfl) fun _ => rfl)
  | setCwd dir =>
    cases hCall
    exact .ok (hKeep _ (fun _ => rfl) fun _ => rfl)
  | timer => cases hCall
  | device addr => cases hCall

theorem Inv.call {c : ThreadConfig α} {s : ThreadSystem τ α} (h : s.Inv Φ) {t : τ}
    (hCur : s.curthread = some t) {a : ThreadAction τ α}
    (hSleep : ∀ addr, a = .threadSleep addr → Φ addr) {x : Except Assertion (ThreadSystem τ α)}
    (hCall : s.call c t a = some x) :
    Post x (Inv Φ) Assertion.OfCaller := by
  unfold ThreadSystem.call at hCall
  split at hCall
  · rename_i hFree
    exact h.freeCall hCur hFree hSleep hCall
  · rename_i newguy hNewguy
    cases hCall
    rw [threadFork_eq]
    exact .ok (inv_of_placed (h.placed.forked hCur hNewguy) hCur)
  · cases hCall

omit [DecidableEq τ] [DecidableEq α] in
theorem Inv.waiting {s : ThreadSystem τ α} (h : s.Inv Φ) (hCur : s.curthread = none) :
    s.Waiting Φ :=
  ⟨h.placed, hCur, (h.idle hCur).2.1, (h.idle hCur).2.2⟩

/-- **Step lemma.** -/
theorem Inv.step {c : ThreadConfig α} {s : ThreadSystem τ α} (h : s.Inv Φ) {a : ThreadAction τ α}
    (hSleep : ∀ addr, a = .threadSleep addr → Φ addr)
    {x : Except Assertion (ThreadSystem τ α)} (hStep : s.step c a = some x) :
    Post x (Inv Φ) Assertion.OfCaller := by
  unfold ThreadSystem.step at hStep
  split at hStep
  · rename_i hCur
    cases hStep
    exact ((h.waiting hCur).timerInterrupt c).bind fun _ => Waiting.scheduler
  · rename_i addr hCur
    cases hStep
    have hWaiting := h.waiting hCur
    refine (h.placed.deviceInterrupt c addr).bind ?_
    rintro u ⟨hPlaced, hCur', hSpl, hSwitching⟩
    refine Waiting.scheduler ⟨hPlaced, hCur'.trans hCur, ?_, ?_⟩
    · rw [hSpl]
      exact hWaiting.curspl
    · rw [hSwitching]
      exact hWaiting.switching
  · cases hStep
  · rename_i t hCur
    split at hStep
    · cases hStep
      exact h.placed.timerInterrupt c hCur
    · cases hStep
  · rename_i t addr hCur
    split at hStep
    · cases hStep
      refine (h.placed.deviceInterrupt c addr).mono ?_
      rintro u ⟨hPlaced, hCur', -⟩
      exact inv_of_placed hPlaced (hCur'.trans hCur)
    · cases hStep
  · rename_i hCur _ _
    exact h.call hCur hSleep hStep

omit [DecidableEq α] in
theorem inv_threadBootstrap (c : ThreadConfig α) (me : τ) : (threadBootstrap c me).Inv Φ := by
  apply inv_of_placed (t := me)
  · constructor
    · simp [placed, threadBootstrap]
    · simp [placed, threadBootstrap, Live]
    · simp [threadBootstrap]
    · simp [placed, threadBootstrap]
    · simp [threadBootstrap]
    · simp [threadBootstrap]
    · simp [threadBootstrap]
    · simp [threadBootstrap]
    · simp [threadBootstrap]
  · rfl

/-- **Run lemma.** -/
theorem inv_of_run {c : ThreadConfig α} {me : τ} {tr : List (ThreadAction τ α)}
    {s : ThreadSystem τ α} (h : Run (Step c) (threadBootstrap c me) tr s) :
    s.Inv fun _ => True :=
  h.invariant (inv_threadBootstrap c me) fun _ _ t hInv hStep =>
    hInv.step (fun _ _ => trivial) (x := .ok t) hStep

/-- **Every live thread is in exactly one place.** -/
theorem thread_partition {c : ThreadConfig α} {me : τ} {tr : List (ThreadAction τ α)}
    {s : ThreadSystem τ α} (h : Run (Step c) (threadBootstrap c me) tr s) :
    (∀ t, Live s.log t → s.placed.count t = 1) ∧
      (∀ t, ¬Live s.log t → s.placed.count t = 0) ∧
      s.numthreads = s.runqueue.length + s.sleepers.length +
        (if s.curthread = none then 0 else 1) ∧
      ∀ a e, s.step c a = some (.error e) → e = .curspl ∨ e = .inInterrupt := by
  have hInv := inv_of_run h
  obtain ⟨hPlaced, -⟩ := id hInv
  refine ⟨?_, ?_, ?_, ?_⟩
  · intro t ht
    exact List.count_eq_one_of_mem hPlaced.nodup ((hPlaced.live t).mpr ht)
  · intro t ht
    exact List.count_eq_zero_of_not_mem fun hMem => ht ((hPlaced.live t).mp hMem)
  · rw [hPlaced.counted]
    cases s.curthread with
    | none => rfl
    | some t => rfl
  · intro a e hStep
    exact hInv.step (fun _ _ => trivial) hStep

/-- A thread is forked, goes to sleep, and its parent exits: the processor idles. -/
theorem thread_partition_idle : ∃ s : ThreadSystem Nat Unit,
    s.curthread = none ∧ s.sleepers = [1] ∧ s.zombies = [0] ∧ s.numthreads = 1 ∧
      s.placed.count 0 = 1 ∧ s.placed.count 1 = 1 := by
  have hEnd : ([.splx 0, .threadCreate 1, .threadFork, .timer, .splx 15, .threadSleep (),
      .threadExit].foldlM (okStep (step ⟨(), 100, 15, by decide⟩))
        (threadBootstrap ⟨(), 100, 15, by decide⟩ 0)).map (fun s =>
        ((s.curthread, s.runqueue), (s.sleepers, s.zombies), s.log)) =
      some ((none, []), ([1], [0]), [.dispatched 0, .dispatched 1, .readied 0, .readied 1,
        .started 1, .preallocated 2, .started 0]) := by
    decide +kernel
  obtain ⟨s, hs, hFields⟩ := Option.map_eq_some_iff.mp hEnd
  simp only [Prod.mk.injEq] at hFields
  obtain ⟨⟨hCur, hQueue⟩, ⟨hSleepers, hZombies⟩, hLog⟩ := hFields
  obtain ⟨hLive, -, hCount, -⟩ := thread_partition (Run.of_okStep hs)
  refine ⟨s, hCur, hSleepers, hZombies, ?_, hLive 0 ?_, hLive 1 ?_⟩
  · rw [hCount, hQueue, hSleepers, hCur]
    rfl
  · simp [hLog, Live]
  · simp [hLog, Live]

end ThreadSystem

end Windborne.OS161
