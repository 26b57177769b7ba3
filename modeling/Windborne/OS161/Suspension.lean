import Windborne.OS161.ThreadPartition

/-!
# What a thread finds when it runs again

`in_interrupt` is one variable for all threads, which `md_switch` saves and restores. Whatever
handlers and switches there were in between, it is 0 whenever a thread runs outside of them;
and a thread that goes to sleep with the interrupt level raised comes back with it raised.
-/

namespace Windborne.OS161

open Library

/-- `in_interrupt` at the switch in which a thread stands. -/
def Frame.inInterrupt : Frame → Nat
  | .yield _ (some _) => 1
  | _ => 0

/-- The `old_in` that the interrupted handler puts back. -/
def Frame.oldIn : Frame → Nat
  | .yield _ (some trap) => trap.oldIn
  | _ => 0

/-- The value of `in_interrupt` with which a thread goes on in its frame. -/
structure Stopped (frame : Frame) (inInterrupt : Nat) : Prop where
  flag : inInterrupt = frame.inInterrupt
  old : frame.oldIn = 0

namespace ThreadSystem

variable {τ α : Type}

/-- What is saved of the threads that do not run. Those in `asleep` wait inside a loop that
calls `thread_sleep`. -/
structure Suspended (asleep : τ → Prop) (s : ThreadSystem τ α) : Prop where
  saved : ∀ t, s.curthread ≠ some t → s.switching ≠ some t →
    Stopped (s.thread t).frame (s.thread t).pcbIninterrupt
  inside : ∀ t, asleep t → s.curthread ≠ some t →
    (t ∈ s.runqueue ∨ t ∈ s.sleepers) ∧ (s.thread t).frame = .sleep

/-- What holds between steps. -/
structure Settled (asleep : τ → Prop) (s : ThreadSystem τ α) : Prop extends
    Suspended asleep s where
  running : ∀ t, s.curthread = some t →
    s.switching = none ∧ s.inInterrupt = 0 ∧ (asleep t → s.curspl ≠ 0)
  idle : s.curthread = none → ∀ t, s.switching = some t →
    Stopped (s.thread t).frame s.inInterrupt

/-- In the loop of the scheduler. -/
structure Choosing (asleep : τ → Prop) (s : ThreadSystem τ α) : Prop extends
    Suspended asleep s where
  curthread : s.curthread = none
  stopped : ∀ t, s.switching = some t → Stopped (s.thread t).frame s.inInterrupt

/-- Just after the switch to `t`. -/
structure Resuming (asleep : τ → Prop) (s : ThreadSystem τ α) (t : τ) : Prop extends
    Suspended asleep s where
  curthread : s.curthread = some t
  switching : s.switching = none
  curspl : s.curspl ≠ 0
  stopped : Stopped (s.thread t).frame s.inInterrupt
  back : asleep t → (s.thread t).frame = .sleep

/-- Code that moves no thread to or from the processor, and no thread out of the lists. -/
structure Stays (s t : ThreadSystem τ α) : Prop where
  curthread : t.curthread = s.curthread
  switching : t.switching = s.switching
  curspl : t.curspl = s.curspl
  inInterrupt : t.inInterrupt = s.inInterrupt
  thread : t.thread = s.thread
  places : ∀ u, u ∈ s.runqueue ∨ u ∈ s.sleepers → u ∈ t.runqueue ∨ u ∈ t.sleepers

variable {asleep : τ → Prop} {s t u : ThreadSystem τ α}

theorem ne_curthread {cur v : τ} (hCur : s.curthread = some cur) (h : v ≠ cur) :
    s.curthread ≠ some v := by
  rw [hCur]
  exact fun hEq => h (Option.some.inj hEq).symm

theorem Stays.refl (s : ThreadSystem τ α) : s.Stays s := ⟨rfl, rfl, rfl, rfl, rfl, fun _ => id⟩

theorem Stays.trans (h : s.Stays t) (g : t.Stays u) : s.Stays u where
  curthread := g.curthread.trans h.curthread
  switching := g.switching.trans h.switching
  curspl := g.curspl.trans h.curspl
  inInterrupt := g.inInterrupt.trans h.inInterrupt
  thread := g.thread.trans h.thread
  places v hv := g.places v (h.places v hv)

/-- What is saved is kept by code that changes the frames and flags of no other thread. -/
theorem Suspended.keep (h : s.Suspended asleep) (hCur : t.curthread = s.curthread)
    (hSwitching : t.switching = s.switching)
    (hThread : ∀ v, s.curthread ≠ some v → (t.thread v).frame = (s.thread v).frame ∧
      (t.thread v).pcbIninterrupt = (s.thread v).pcbIninterrupt)
    (hPlaces : ∀ v, v ∈ s.runqueue ∨ v ∈ s.sleepers → v ∈ t.runqueue ∨ v ∈ t.sleepers) :
    t.Suspended asleep where
  saved v hv hv' := by
    rw [hCur] at hv
    rw [hSwitching] at hv'
    rw [(hThread v hv).1, (hThread v hv).2]
    exact h.saved v hv hv'
  inside v hv hv' := by
    rw [hCur] at hv'
    obtain ⟨hPlace, hFrame⟩ := h.inside v hv hv'
    exact ⟨hPlaces v hPlace, (hThread v hv').1.trans hFrame⟩

theorem Suspended.stays (h : s.Suspended asleep) (hStays : s.Stays t) : t.Suspended asleep := by
  apply h.keep hStays.curthread hStays.switching
  · intro v _
    rw [hStays.thread]
    exact ⟨rfl, rfl⟩
  · exact hStays.places

theorem Choosing.stays (h : s.Choosing asleep) (hStays : s.Stays t) : t.Choosing asleep where
  toSuspended := h.toSuspended.stays hStays
  curthread := hStays.curthread.trans h.curthread
  stopped v hv := by
    rw [hStays.switching] at hv
    rw [hStays.thread, hStays.inInterrupt]
    exact h.stopped v hv

theorem Settled.stays (h : s.Settled asleep) (hStays : s.Stays t) : t.Settled asleep where
  toSuspended := h.toSuspended.stays hStays
  running v hv := by
    rw [hStays.curthread] at hv
    rw [hStays.switching, hStays.inInterrupt, hStays.curspl]
    exact h.running v hv
  idle hNone v hv := by
    rw [hStays.curthread] at hNone
    rw [hStays.switching] at hv
    rw [hStays.thread, hStays.inInterrupt]
    exact h.idle hNone v hv

theorem Settled.choosing (h : s.Settled asleep) (hNone : s.curthread = none) :
    s.Choosing asleep := ⟨h.toSuspended, hNone, h.idle hNone⟩

theorem Choosing.settled (h : s.Choosing asleep) : s.Settled asleep where
  toSuspended := h.toSuspended
  running v hv := by
    rw [h.curthread] at hv
    cases hv
  idle _ := h.stopped

theorem Settled.of_running (h : s.Suspended asleep) {cur : τ} (hCur : s.curthread = some cur)
    (hSwitching : s.switching = none) (hFlag : s.inInterrupt = 0)
    (hSpl : asleep cur → s.curspl ≠ 0) : s.Settled asleep where
  toSuspended := h
  running v hv := by
    cases hCur.symm.trans hv
    exact ⟨hSwitching, hFlag, hSpl⟩
  idle hNone := by
    rw [hCur] at hNone
    cases hNone

/-- The thread that runs goes into a loop or out of it when it changes the interrupt level. -/
theorem Settled.splx {asleep' : τ → Prop} (h : s.Settled asleep) {cur : τ}
    (hCur : s.curthread = some cur) {newspl : Nat}
    (hOthers : ∀ v, v ≠ cur → asleep' v → asleep v) (hSpl : asleep' cur → newspl ≠ 0) :
    (s.splx newspl).2.Settled asleep' := by
  refine Settled.of_running ⟨h.saved, ?_⟩ hCur (h.running cur hCur).1 (h.running cur hCur).2.1 hSpl
  intro v hIn hv
  have hNe : v ≠ cur := by
    rintro rfl
    exact hv hCur
  exact h.inside v (hOthers v hNe hIn) hv

/-! ## Waking and destroying -/

section

variable [DecidableEq α]

theorem stays_threadWakeup (s : ThreadSystem τ α) (addr : α) :
    Post (s.threadWakeup addr) s.Stays fun _ => True := by
  by_cases hSpl : s.curspl = 0
  · rw [threadWakeup, if_pos hSpl]
    exact .error trivial
  rw [threadWakeup_eq addr s hSpl]
  refine .ok ⟨rfl, rfl, rfl, rfl, rfl, fun u hu => ?_⟩
  simp only [List.mem_append, List.mem_filter]
  grind

theorem stays_lboltTick (c : ThreadConfig α) (s : ThreadSystem τ α) :
    Post (s.lboltTick c) s.Stays fun _ => True := by
  unfold lboltTick
  dsimp only
  split
  · refine (stays_threadWakeup _ c.lbolt).mono fun t ht => ?_
    exact ⟨ht.curthread, ht.switching, ht.curspl, ht.inInterrupt, ht.thread, ht.places⟩
  · exact .ok ⟨rfl, rfl, rfl, rfl, rfl, fun _ => id⟩

omit [DecidableEq α] in
/-- A handler comes back to where it came in. -/
theorem Stays.leaveInterrupt {c : ThreadConfig α} (h : (s.enterInterrupt c).2.Stays t) :
    s.Stays (t.leaveInterrupt (some (s.enterInterrupt c).1)) :=
  ⟨h.curthread, h.switching, rfl, rfl, h.thread, h.places⟩

theorem stays_deviceInterrupt (c : ThreadConfig α) (addr : α) (s : ThreadSystem τ α) :
    Post (s.deviceInterrupt c addr) s.Stays fun _ => True := by
  refine (stays_threadWakeup _ addr).bind fun t ht => ?_
  exact .ok ht.leaveInterrupt

end

variable [DecidableEq τ]

theorem stays_exorciseLoop (zombies : List τ) (s : ThreadSystem τ α) :
    Post (s.exorciseLoop zombies) s.Stays fun _ => True := by
  induction zombies generalizing s with
  | nil => exact .ok (.refl s)
  | cons z zombies ih =>
    have hDestroy : Post (s.threadDestroy z) s.Stays fun _ => True := by
      unfold threadDestroy
      split_ifs
      · exact .error trivial
      · exact .error trivial
      · exact .error trivial
      · exact .ok ⟨rfl, rfl, rfl, rfl, rfl, fun _ => id⟩
    unfold exorciseLoop
    split
    · exact .error trivial
    · refine hDestroy.bind fun t ht => ?_
      exact (ih t).mono fun u hu => ht.trans hu

theorem stays_exorcise (s : ThreadSystem τ α) : Post s.exorcise s.Stays fun _ => True := by
  unfold exorcise
  split
  · exact .error trivial
  · refine (stays_exorciseLoop s.zombies s).bind fun t ht => ?_
    exact .ok ⟨ht.curthread, ht.switching, ht.curspl, ht.inInterrupt, ht.thread, ht.places⟩

/-! ## Context switches -/

/-- Assignments that leave the frame and the saved flag. -/
theorem Settled.setThread (h : s.Settled asleep) (t : τ) {f : Thread τ α → Thread τ α}
    (hFrame : ∀ th, (f th).frame = th.frame)
    (hFlag : ∀ th, (f th).pcbIninterrupt = th.pcbIninterrupt) :
    (s.setThread t f).Settled asleep where
  toSuspended := h.toSuspended.keep rfl rfl
    (fun v _ => ⟨setThread_field s t (·.frame) hFrame v,
      setThread_field s t (·.pcbIninterrupt) hFlag v⟩) fun _ => id
  running := h.running
  idle hNone v hv := by
    rw [setThread_field s t (·.frame) hFrame v]
    exact h.idle hNone v hv

theorem Resuming.resume {cur : τ} (h : s.Resuming asleep cur) :
    Post (s.resume cur) (Settled asleep) fun _ => True := by
  have hFlag := h.stopped.flag
  have hOutside : (s.thread cur).frame ≠ .sleep → ¬asleep cur := fun hNe hIn => hNe (h.back hIn)
  unfold ThreadSystem.resume
  cases hFrame : (s.thread cur).frame with
  | threadstart =>
    rw [hFrame] at hFlag hOutside
    refine .ok (Settled.of_running (h.toSuspended.keep rfl rfl (fun _ _ => ⟨rfl, rfl⟩) fun _ => id)
      h.curthread h.switching hFlag fun hIn => absurd hIn (hOutside nofun))
  | yield spl trap =>
    rw [hFrame] at hFlag hOutside
    refine (stays_exorcise s).bind fun t ht => .ok ?_
    cases trap with
    | none =>
      refine Settled.of_running (h.toSuspended.keep ht.curthread ht.switching ?_ ht.places)
        (ht.curthread.trans h.curthread) (ht.switching.trans h.switching)
        (ht.inInterrupt.trans hFlag) fun hIn => absurd hIn (hOutside nofun)
      intro v _
      exact ⟨by rw [← ht.thread]; rfl, by rw [← ht.thread]; rfl⟩
    | some trap =>
      have hOld : trap.oldIn = 0 := by
        have hStopped := h.stopped.old
        rwa [hFrame] at hStopped
      refine Settled.of_running (h.toSuspended.keep ht.curthread ht.switching ?_ ht.places)
        (ht.curthread.trans h.curthread) (ht.switching.trans h.switching)
        hOld fun hIn => absurd hIn (hOutside nofun)
      intro v _
      exact ⟨by rw [← ht.thread]; rfl, by rw [← ht.thread]; rfl⟩
  | sleep =>
    rw [hFrame] at hFlag
    refine (stays_exorcise s).bind fun t ht => .ok ?_
    refine Settled.setThread ?_ cur (fun _ => rfl) fun _ => rfl
    exact Settled.of_running (h.toSuspended.stays ht) (ht.curthread.trans h.curthread)
      (ht.switching.trans h.switching) (ht.inInterrupt.trans hFlag)
      fun _ => ht.curspl.trans_ne h.curspl
  | exit => exact (stays_exorcise s).bind fun _ _ => .error trivial

/-- After `md_switch` from a thread that has stopped. -/
theorem mdSwitch_stopped {old : τ} (nu : τ) (hOld : Stopped (s.thread old).frame s.inInterrupt)
    (hSaved : ∀ v, v ≠ old → Stopped (s.thread v).frame (s.thread v).pcbIninterrupt) :
    Stopped ((s.mdSwitch old nu).thread nu).frame (s.mdSwitch old nu).inInterrupt ∧
      ∀ v, v ≠ nu → Stopped ((s.mdSwitch old nu).thread v).frame
        ((s.mdSwitch old nu).thread v).pcbIninterrupt := by
  unfold ThreadSystem.mdSwitch
  by_cases hSame : old = nu
  · rw [if_pos hSame, ← hSame]
    exact ⟨hOld, hSaved⟩
  · rw [if_neg hSame]
    dsimp only
    rw [setThread_of_ne _ _ (Ne.symm hSame)]
    refine ⟨hSaved nu (Ne.symm hSame), fun v _ => ?_⟩
    by_cases hv : v = old
    · subst hv
      rw [setThread_self]
      exact hOld
    · rw [setThread_of_ne _ _ hv]
      exact hSaved v hv

theorem mdSwitch_lists (s : ThreadSystem τ α) (old nu : τ) :
    (s.mdSwitch old nu).switching = s.switching ∧ (s.mdSwitch old nu).runqueue = s.runqueue ∧
      (s.mdSwitch old nu).sleepers = s.sleepers := by
  unfold ThreadSystem.mdSwitch
  split
  · exact ⟨rfl, rfl, rfl⟩
  · exact ⟨rfl, rfl, rfl⟩

theorem Choosing.scheduler (h : s.Choosing asleep) :
    Post s.scheduler (Settled asleep) fun _ => True := by
  unfold ThreadSystem.scheduler
  split
  · exact .error trivial
  rename_i hSpl
  split
  · rename_i next runqueue cur hQueue hSwitching
    have hRunning : ∀ v, s.curthread ≠ some v := by
      intro v hv
      rw [h.curthread] at hv
      cases hv
    -- the state at the switch
    generalize hAt : ({ s with
      curthread := some next, runqueue, switching := none
      log := .dispatched next :: s.log } : ThreadSystem τ α) = at'
    have hStopped : Stopped (at'.thread cur).frame at'.inInterrupt := by
      subst hAt
      exact h.stopped cur hSwitching
    have hSaved : ∀ v, v ≠ cur → Stopped (at'.thread v).frame (at'.thread v).pcbIninterrupt := by
      subst hAt
      intro v hv
      apply h.saved v (hRunning v)
      rw [hSwitching]
      exact fun hEq => hv (Option.some.inj hEq).symm
    obtain ⟨hNext, hOthers⟩ := mdSwitch_stopped next hStopped hSaved
    have hFrame : ∀ v, ((at'.mdSwitch cur next).thread v).frame = (s.thread v).frame := by
      intro v
      rw [(mdSwitch_keeps at' cur next v).2.2, ← hAt]
    obtain ⟨hKeepCur, hKeepSpl, -⟩ := mdSwitch_keeps at' cur next next
    obtain ⟨hKeepSwitching, hKeepQueue, hKeepSleepers⟩ := mdSwitch_lists at' cur next
    apply Resuming.resume
    refine ⟨⟨?_, ?_⟩, ?_, ?_, ?_, hNext, ?_⟩
    · intro v hv _
      apply hOthers
      rintro rfl
      rw [hKeepCur, ← hAt] at hv
      exact hv rfl
    · intro v hIn hv
      have hNe : v ≠ next := by
        rintro rfl
        rw [hKeepCur, ← hAt] at hv
        exact hv rfl
      obtain ⟨hPlace, hAsleep⟩ := h.inside v hIn (hRunning v)
      rw [hQueue, List.mem_cons] at hPlace
      rw [hFrame, hKeepQueue, hKeepSleepers, ← hAt]
      exact ⟨hPlace.imp_left fun hv => hv.resolve_left hNe, hAsleep⟩
    · rw [hKeepCur, ← hAt]
    · rw [hKeepSwitching, ← hAt]
    · rw [hKeepSpl, ← hAt]
      exact hSpl
    · intro hIn
      rw [hFrame]
      exact (h.inside next hIn (hRunning next)).2
  · exact .ok h.settled

/-- The thread that gives up the processor goes on with `frame`. -/
structure Leaving (asleep : τ → Prop) (s : ThreadSystem τ α) (cur : τ) (frame : Frame) : Prop
    extends Suspended asleep s where
  curthread : s.curthread = some cur
  switching : s.switching = none
  stopped : Stopped frame s.inInterrupt
  back : asleep cur → frame = .sleep

theorem Leaving.miSwitch {cur : τ} {frame : Frame} (h : s.Leaving asleep cur frame)
    {nextstate : ThreadState} (hState : asleep cur → nextstate ≠ .zomb) :
    Post (s.miSwitch nextstate frame) (Settled asleep) fun _ => True := by
  have hGone : ∀ v, v ≠ cur → (s.giveUp cur frame).thread v = s.thread v := fun v hv =>
    setThread_of_ne s (fun th => { th with frame }) hv
  have hCur : ((s.giveUp cur frame).thread cur).frame = frame :=
    congrArg Thread.frame (setThread_self s cur fun th => { th with frame })
  have hStopped : ∀ v, (s.giveUp cur frame).switching = some v →
      Stopped ((s.giveUp cur frame).thread v).frame s.inInterrupt := by
    intro v hv
    cases hv
    rw [hCur]
    exact h.stopped
  have hSaved : ∀ v, (s.giveUp cur frame).curthread ≠ some v →
      (s.giveUp cur frame).switching ≠ some v →
        Stopped ((s.giveUp cur frame).thread v).frame
          ((s.giveUp cur frame).thread v).pcbIninterrupt := by
    intro v _ hv
    have hNe : v ≠ cur := fun hEq => hv (congrArg some hEq.symm)
    rw [hGone v hNe]
    apply h.saved v (ne_curthread h.curthread hNe)
    rw [h.switching]
    nofun
  -- a thread in a loop other than the one that leaves is where it was
  have hInside : ∀ v, asleep v → v ≠ cur → (v ∈ s.runqueue ∨ v ∈ s.sleepers) ∧
      ((s.giveUp cur frame).thread v).frame = .sleep := by
    intro v hIn hNe
    rw [hGone v hNe]
    exact h.inside v hIn (ne_curthread h.curthread hNe)
  have hSelf : asleep cur → ((s.giveUp cur frame).thread cur).frame = .sleep := fun hIn =>
    hCur.trans (h.back hIn)
  unfold ThreadSystem.miSwitch
  split
  · exact .error trivial
  rename_i hSpl
  rw [h.curthread]
  dsimp only
  cases nextstate with
  | ready =>
    rw [stash, makeRunnable, if_neg (show (s.giveUp cur frame).curspl ≠ 0 from hSpl), ok_bind]
    refine Choosing.scheduler ⟨⟨hSaved, fun v hIn _ => ?_⟩, rfl, hStopped⟩
    by_cases hv : v = cur
    · subst hv
      exact ⟨Or.inl (List.mem_append_right _ List.mem_cons_self), hSelf hIn⟩
    · obtain ⟨hPlace, hAsleep⟩ := hInside v hIn hv
      exact ⟨hPlace.imp_left fun hQueue => List.mem_append_left _ hQueue, hAsleep⟩
  | sleep =>
    rw [stash, ok_bind]
    refine Choosing.scheduler ⟨⟨hSaved, fun v hIn _ => ?_⟩, rfl, hStopped⟩
    by_cases hv : v = cur
    · subst hv
      exact ⟨Or.inr (List.mem_append_right _ List.mem_cons_self), hSelf hIn⟩
    · obtain ⟨hPlace, hAsleep⟩ := hInside v hIn hv
      exact ⟨hPlace.imp_right fun hSleeps => List.mem_append_left _ hSleeps, hAsleep⟩
  | zomb =>
    rw [stash, ok_bind]
    refine Choosing.scheduler ⟨⟨hSaved, fun v hIn _ => ?_⟩, rfl, hStopped⟩
    by_cases hv : v = cur
    · subst hv
      exact absurd rfl (hState hIn)
    · exact hInside v hIn hv

/-! ## Calls -/

theorem Settled.threadYield (h : s.Settled asleep) (c : ThreadConfig α) {cur : τ}
    (hCur : s.curthread = some cur) (hOutside : ¬asleep cur) :
    Post (s.threadYield c none) (Settled asleep) fun _ => True := by
  obtain ⟨hSwitching, hFlag, -⟩ := h.running cur hCur
  have hHigh : (s.splhigh c).2.Settled asleep :=
    h.splx hCur (fun _ _ => id) fun hIn => absurd hIn hOutside
  unfold ThreadSystem.threadYield
  dsimp only
  rw [show (s.splhigh c).2.curthread = some cur from hCur]
  have hLeaving : (s.splhigh c).2.Leaving asleep cur (.yield (s.splhigh c).1 none) :=
    ⟨hHigh.toSuspended, hCur, hSwitching, ⟨hFlag, rfl⟩, fun hIn => absurd hIn hOutside⟩
  exact hLeaving.miSwitch nofun

/-- Sleeping is the one call that a thread makes inside a loop. -/
theorem Settled.threadSleep (h : s.Settled asleep) (addr : α) {cur : τ}
    (hCur : s.curthread = some cur) :
    Post (s.threadSleep addr cur) (Settled asleep) fun _ => True := by
  obtain ⟨hSwitching, hFlag, -⟩ := h.running cur hCur
  unfold ThreadSystem.threadSleep
  split
  · exact .error trivial
  · have hSet := (h.setThread cur (f := fun th => { th with tSleepaddr := some addr })
      (fun _ => rfl) fun _ => rfl).toSuspended
    have hLeaving : Leaving asleep _ cur .sleep :=
      ⟨hSet, hCur, hSwitching, ⟨hFlag, rfl⟩, fun _ => rfl⟩
    exact hLeaving.miSwitch nofun

theorem Settled.threadExit (h : s.Settled asleep) (c : ThreadConfig α) {cur : τ}
    (hCur : s.curthread = some cur) (hOutside : ¬asleep cur) :
    Post (s.threadExit c cur) (Settled asleep) fun _ => True := by
  obtain ⟨hSwitching, hFlag, -⟩ := h.running cur hCur
  have hHigh : (s.splhigh c).2.Settled asleep :=
    h.splx hCur (fun _ _ => id) fun hIn => absurd hIn hOutside
  have hSet := (hHigh.setThread cur
    (f := fun th => { th with tVmspace := none, tCwd := none })
    (fun _ => rfl) fun _ => rfl).toSuspended
  unfold ThreadSystem.threadExit
  dsimp only
  split
  · exact .error trivial
  · refine Leaving.miSwitch ?_ fun hIn => absurd hIn hOutside
    exact ⟨hSet.keep rfl rfl (fun _ _ => ⟨rfl, rfl⟩) fun _ => id, hCur, hSwitching, ⟨hFlag, rfl⟩,
      fun hIn => absurd hIn hOutside⟩

/-- A new thread is in no loop, and its flag is clear. -/
theorem Settled.threadCreate (h : s.Settled asleep) {cur newguy : τ}
    (hCur : s.curthread = some cur) (hNew : newguy ≠ cur) (hOutside : ¬asleep newguy) :
    (s.threadCreate cur newguy).Settled asleep := by
  have hNewguy : (s.threadCreate cur newguy).thread newguy =
      { tSleepaddr := none, tVmspace := none, tCwd := (s.thread cur).tCwd, pcbIninterrupt := 0,
        frame := .threadstart, newguy := none } := by
    unfold ThreadSystem.threadCreate
    dsimp only
    rw [setThread_of_ne _ _ hNew, setThread_self]
  have hOther : ∀ v, s.curthread ≠ some v → v ≠ newguy →
      (s.threadCreate cur newguy).thread v = s.thread v := by
    intro v hv hvn
    apply threadCreate_of_ne s ?_ hvn
    rintro rfl
    exact hv hCur
  refine Settled.of_running ⟨?_, ?_⟩ hCur (h.running cur hCur).1 (h.running cur hCur).2.1
    (h.running cur hCur).2.2
  · intro v hv hv'
    by_cases hvn : v = newguy
    · subst hvn
      rw [hNewguy]
      exact ⟨rfl, rfl⟩
    · rw [hOther v hv hvn]
      exact h.saved v hv hv'
  · intro v hIn hv
    have hvn : v ≠ newguy := by
      rintro rfl
      exact hOutside hIn
    rw [hOther v hv hvn]
    exact h.inside v hIn hv

theorem Settled.forked (h : s.Settled asleep) {cur newguy : τ} (hCur : s.curthread = some cur) :
    (s.forked cur newguy).Settled asleep := by
  refine Settled.of_running (h.toSuspended.keep rfl rfl ?_ ?_) hCur (h.running cur hCur).1
    (h.running cur hCur).2.1 (h.running cur hCur).2.2
  · intro v hv
    have hNe : v ≠ cur := by
      rintro rfl
      exact hv hCur
    rw [forked_of_ne s hNe]
    exact ⟨rfl, rfl⟩
  · intro v hv
    exact hv.imp_left fun hQueue => List.mem_append_left _ hQueue

/-! ## Interrupts and steps -/

variable [DecidableEq α]

theorem Settled.timerInterrupt (h : s.Settled asleep) (c : ThreadConfig α) {cur : τ}
    (hCur : s.curthread = some cur) (hSpl : s.curspl = 0) :
    Post (s.timerInterrupt c) (Settled asleep) fun _ => True := by
  obtain ⟨hSwitching, hFlag, hRaised⟩ := h.running cur hCur
  have hOutside : ¬asleep cur := fun hIn => hRaised hIn hSpl
  refine (stays_lboltTick c (s.enterInterrupt c).2).bind fun t ht => ?_
  have hCur' : (t.splhigh c).2.curthread = some cur := ht.curthread.trans hCur
  unfold ThreadSystem.threadYield
  dsimp only
  rw [hCur']
  have hKept : (t.splhigh c).2.Suspended asleep := by
    refine h.toSuspended.keep ht.curthread ht.switching (fun v _ => ?_) ht.places
    have hThread : (t.splhigh c).2.thread = s.thread := ht.thread
    rw [hThread]
    exact ⟨rfl, rfl⟩
  have hLeaving : (t.splhigh c).2.Leaving asleep cur
      (.yield t.curspl (some ⟨s.curspl, s.inInterrupt⟩)) :=
    ⟨hKept, hCur', ht.switching.trans hSwitching, ⟨ht.inInterrupt, hFlag⟩,
      fun hIn => absurd hIn hOutside⟩
  exact hLeaving.miSwitch nofun

/-- In the idle loop the handler comes back. -/
theorem stays_timerInterrupt (c : ThreadConfig α) (s : ThreadSystem τ α)
    (hNone : s.curthread = none) : Post (s.timerInterrupt c) s.Stays fun _ => True := by
  refine (stays_lboltTick c (s.enterInterrupt c).2).bind fun t ht => ?_
  rw [threadYield_idle c t _ (ht.curthread.trans hNone)]
  exact .ok ht.leaveInterrupt

theorem Settled.freeCall (h : s.Settled asleep) {Φ : α → Prop} (hPlaced : s.Placed Φ)
    {c : ThreadConfig α} {cur : τ} (hCur : s.curthread = some cur) (hOutside : ¬asleep cur)
    {a : ThreadAction τ α} {x : Except Assertion (ThreadSystem τ α)}
    (hCall : s.freeCall c cur a = some x) : Post x (Settled asleep) fun _ => True := by
  cases a with
  | splx newspl =>
    cases hCall
    exact .ok (h.splx hCur (fun _ _ => id) fun hIn => absurd hIn hOutside)
  | threadYield =>
    cases hCall
    exact h.threadYield c hCur hOutside
  | threadSleep addr =>
    cases hCall
    exact h.threadSleep addr hCur
  | threadWakeup addr =>
    cases hCall
    exact (stays_threadWakeup s addr).mono fun _ => h.stays
  | threadExit =>
    cases hCall
    exact h.threadExit c hCur hOutside
  | threadCreate newguy =>
    simp only [ThreadSystem.freeCall] at hCall
    split at hCall
    · cases hCall
    · rename_i hFresh
      cases hCall
      have hUnplaced : newguy ∉ s.placed := fun hIn => hFresh (hPlaced.allocated newguy hIn)
      have hNew : newguy ≠ cur := by
        rintro rfl
        exact hUnplaced (by simp [placed, hCur])
      refine .ok (h.threadCreate hCur hNew fun hIn => hUnplaced ?_)
      have hPlace := (h.inside newguy hIn (ne_curthread hCur hNew)).1
      simp only [placed, List.mem_append]
      grind
  | threadFork => cases hCall
  | setVmspace as =>
    cases hCall
    exact .ok (h.setThread cur (fun _ => rfl) fun _ => rfl)
  | setCwd dir =>
    cases hCall
    exact .ok (h.setThread cur (fun _ => rfl) fun _ => rfl)
  | timer => cases hCall
  | device addr => cases hCall

/-- **Step lemma**, for threads that call only outside of the loops. -/
theorem Settled.step (h : s.Settled asleep) {Φ : α → Prop} (hPlaced : s.Placed Φ)
    {c : ThreadConfig α} {a : ThreadAction τ α}
    (hOutside : ∀ cur, s.curthread = some cur → a ≠ .timer → (∀ addr, a ≠ .device addr) →
      ¬asleep cur)
    {x : Except Assertion (ThreadSystem τ α)} (hStep : s.step c a = some x) :
    Post x (Settled asleep) fun _ => True := by
  unfold ThreadSystem.step at hStep
  split at hStep
  · rename_i hNone
    cases hStep
    refine (stays_timerInterrupt c s hNone).bind fun t ht => ?_
    exact ((h.choosing hNone).stays ht).scheduler
  · rename_i addr hNone
    cases hStep
    refine (stays_deviceInterrupt c addr s).bind fun t ht => ?_
    exact ((h.choosing hNone).stays ht).scheduler
  · cases hStep
  · rename_i cur hCur
    split at hStep
    · rename_i hSpl
      cases hStep
      exact h.timerInterrupt c hCur hSpl
    · cases hStep
  · rename_i cur addr hCur
    split at hStep
    · cases hStep
      exact (stays_deviceInterrupt c addr s).mono fun _ => h.stays
    · cases hStep
  · rename_i cur hCur hTimer hDevice
    have hFree := hOutside cur hCur hTimer fun addr => hDevice addr
    unfold ThreadSystem.call at hStep
    split at hStep
    · exact h.freeCall hPlaced hCur hFree hStep
    · cases hStep
      rw [threadFork_eq]
      exact .ok (h.forked hCur)
    · cases hStep

omit [DecidableEq α] in
theorem settled_threadBootstrap (c : ThreadConfig α) (me : τ) (hOutside : ∀ t, ¬asleep t) :
    (threadBootstrap c me).Settled asleep :=
  Settled.of_running ⟨fun _ _ _ => ⟨rfl, rfl⟩, fun t hIn => absurd hIn (hOutside t)⟩
    (rfl : _ = some me) rfl rfl fun hIn => absurd hIn (hOutside me)

end ThreadSystem

end Windborne.OS161
