import Windborne.Library.QueueHistory
import Windborne.OS161.ThreadPartition

/-!
# The order of dispatches

`make_runnable` puts a thread at the end of the run queue and `scheduler` takes the one at its
head, so the log of the thread system is the history of a queue: no thread is made runnable while
it is on the run queue. What holds of every history of a queue then holds of the dispatches.
-/

namespace Windborne.OS161

open Library

namespace ThreadEvent

variable {τ : Type}

/-- What an event does to the run queue. -/
def onQueue : ThreadEvent τ → Option (QueueEvent τ)
  | .readied t => some (.enqueued t)
  | .dispatched t => some (.dequeued t)
  | .started _ | .destroyed _ | .preallocated _ => none

end ThreadEvent

section Logs

variable {τ : Type}

/-- The threads passed to `make_runnable`, oldest first. -/
def readiedIn (log : List (ThreadEvent τ)) : List τ :=
  QueueEvent.arrivals (log.filterMap ThreadEvent.onQueue)

/-- The threads returned by `scheduler`, oldest first. -/
def dispatchedIn (log : List (ThreadEvent τ)) : List τ :=
  QueueEvent.departures (log.filterMap ThreadEvent.onQueue)

end Logs

namespace ThreadSystem

variable {τ α : Type}

/-- The events between two states lead from one run queue to the other. -/
def Serves (s t : ThreadSystem τ α) : Prop :=
  ∃ new, t.log = new ++ s.log ∧
    Served s.runqueue (new.filterMap ThreadEvent.onQueue) t.runqueue

namespace Serves

variable {s t u : ThreadSystem τ α} {cur next : τ}

theorem trans (h : s.Serves t) (g : t.Serves u) : s.Serves u := by
  obtain ⟨first, hFirst, hServed⟩ := h
  obtain ⟨second, hSecond, hServed'⟩ := g
  refine ⟨second ++ first, ?_, ?_⟩
  · rw [hSecond, hFirst, List.append_assoc]
  · rw [List.filterMap_append]
    exact hServed.trans hServed'

/-- Events that do not concern the run queue. -/
theorem skip (new : List (ThreadEvent τ)) (hLog : t.log = new ++ s.log)
    (hNone : new.filterMap ThreadEvent.onQueue = []) (hQueue : t.runqueue = s.runqueue) :
    s.Serves t := by
  refine ⟨new, hLog, ?_⟩
  rw [hNone, hQueue]
  exact .refl

theorem same (hLog : t.log = s.log) (hQueue : t.runqueue = s.runqueue) : s.Serves t :=
  skip [] hLog rfl hQueue

theorem refl (s : ThreadSystem τ α) : s.Serves s := same rfl rfl

theorem makeRunnable (hLog : t.log = .readied cur :: s.log)
    (hQueue : t.runqueue = s.runqueue ++ [cur]) (hNew : cur ∉ s.runqueue) : s.Serves t := by
  refine ⟨[.readied cur], hLog, ?_⟩
  rw [hQueue]
  exact Served.refl.enqueue hNew

theorem dispatch (hLog : t.log = .dispatched next :: s.log)
    (hQueue : s.runqueue = next :: t.runqueue) : s.Serves t := by
  refine ⟨[.dispatched next], hLog, ?_⟩
  rw [hQueue]
  exact Served.refl.dequeue

end Serves

variable {s : ThreadSystem τ α} {Φ : α → Prop} {E : Assertion → Prop}

/-! ## Code that does not touch the run queue -/

theorem serves_leaveInterrupt (s : ThreadSystem τ α) (trap : Option Trap) :
    s.Serves (s.leaveInterrupt trap) := by
  cases trap with
  | none => exact .refl s
  | some trap => exact .same rfl rfl

variable [DecidableEq τ]

theorem serves_exorciseLoop (zombies : List τ) (s : ThreadSystem τ α) :
    Post (s.exorciseLoop zombies) s.Serves fun _ => True := by
  induction zombies generalizing s with
  | nil => exact .ok (.refl s)
  | cons z zombies ih =>
    have hDestroy : Post (s.threadDestroy z) s.Serves fun _ => True := by
      unfold threadDestroy
      split_ifs
      · exact .error trivial
      · exact .error trivial
      · exact .error trivial
      · exact .ok (.skip [.destroyed z] rfl rfl rfl)
    unfold exorciseLoop
    split
    · exact .error trivial
    · refine hDestroy.bind fun t ht => ?_
      exact (ih t).mono fun u hu => ht.trans hu

theorem serves_exorcise (s : ThreadSystem τ α) : Post s.exorcise s.Serves fun _ => True := by
  unfold exorcise
  split
  · exact .error trivial
  · refine (serves_exorciseLoop s.zombies s).bind fun t ht => ?_
    exact .ok (ht.trans (.same rfl rfl))

theorem serves_resume (s : ThreadSystem τ α) (t : τ) :
    Post (s.resume t) s.Serves fun _ => True := by
  unfold ThreadSystem.resume
  cases (s.thread t).frame with
  | threadstart => exact .ok (.same rfl rfl)
  | yield spl trap =>
    refine (serves_exorcise s).bind fun u hu => .ok ?_
    exact (hu.trans (.same rfl rfl)).trans (serves_leaveInterrupt _ trap)
  | sleep =>
    refine (serves_exorcise s).bind fun u hu => .ok ?_
    exact hu.trans (.same rfl rfl)
  | exit => exact (serves_exorcise s).bind fun _ _ => .error trivial

theorem serves_mdSwitch (s : ThreadSystem τ α) (old nu : τ) : s.Serves (s.mdSwitch old nu) := by
  unfold ThreadSystem.mdSwitch
  split
  · exact .refl s
  · exact .same rfl rfl

/-! ## Context switches -/

theorem serves_scheduler (s : ThreadSystem τ α) : Post s.scheduler s.Serves fun _ => True := by
  unfold ThreadSystem.scheduler
  split
  · exact .error trivial
  split
  · rename_i next runqueue cur hQueue hSwitching
    refine (serves_resume _ next).mono fun u hu => ?_
    have hDispatch : s.Serves { s with
        curthread := some next, runqueue, switching := none
        log := .dispatched next :: s.log } := .dispatch rfl hQueue
    exact (hDispatch.trans (serves_mdSwitch _ cur next)).trans hu
  · exact .ok (.refl s)

/-- The thread that is switched away from is not on the run queue. -/
theorem serves_miSwitch {nextstate : ThreadState} (frame : Frame)
    (hCur : nextstate = .ready → ∀ cur, s.curthread = some cur → cur ∉ s.runqueue) :
    Post (s.miSwitch nextstate frame) s.Serves fun _ => True := by
  unfold ThreadSystem.miSwitch
  split
  · exact .error trivial
  cases hThread : s.curthread with
  | none => exact .ok (.refl s)
  | some cur =>
    dsimp only
    have hStash : Post ((s.giveUp cur frame).stash cur nextstate) s.Serves fun _ => True := by
      cases nextstate with
      | ready =>
        rw [stash, makeRunnable]
        split
        · exact .error trivial
        · exact .ok (.makeRunnable rfl rfl (hCur rfl cur hThread))
      | sleep => exact .ok (.same rfl rfl)
      | zomb => exact .ok (.same rfl rfl)
    refine hStash.bind fun t ht => ?_
    exact (serves_scheduler t).mono fun u hu => ht.trans hu

theorem serves_threadYield (c : ThreadConfig α) (trap : Option Trap)
    (hCur : ∀ cur, s.curthread = some cur → cur ∉ s.runqueue) :
    Post (s.threadYield c trap) s.Serves fun _ => True := by
  have hHigh : Post ((s.splhigh c).2.miSwitch .ready (.yield (s.splhigh c).1 trap))
      (s.splhigh c).2.Serves fun _ => True := serves_miSwitch _ fun _ => hCur
  have hSwitch := hHigh.mono fun u hu => Serves.trans (.same rfl rfl : s.Serves _) hu
  unfold ThreadSystem.threadYield
  dsimp only
  split
  · refine hSwitch.bind fun u hu => .ok ?_
    exact (hu.trans (.same rfl rfl)).trans (serves_leaveInterrupt _ trap)
  · exact hSwitch

theorem serves_threadSleep (addr : α) (t : τ) :
    Post (s.threadSleep addr t) s.Serves fun _ => True := by
  unfold ThreadSystem.threadSleep
  split
  · exact .error trivial
  · exact (serves_miSwitch _ nofun).mono fun u hu => Serves.trans (.same rfl rfl) hu

theorem serves_threadExit (c : ThreadConfig α) (t : τ) :
    Post (s.threadExit c t) s.Serves fun _ => True := by
  unfold ThreadSystem.threadExit
  dsimp only
  split
  · exact .error trivial
  · exact (serves_miSwitch _ nofun).mono fun u hu => Serves.trans (.same rfl rfl) hu

/-! ## Waking sleepers -/

variable [DecidableEq α]

omit [DecidableEq τ] in
/-- The sleepers are on no other list. -/
theorem Placed.serves_threadWakeup (h : s.Placed Φ) (addr : α) :
    Post (s.threadWakeup addr) s.Serves fun _ => True := by
  by_cases hSpl : s.curspl = 0
  · rw [threadWakeup, if_pos hSpl]
    exact .error trivial
  rw [threadWakeup_eq addr s hSpl]
  generalize hMoved : (s.sleepers.filter fun t => (s.thread t).tSleepaddr = some addr) = moved
  have hNodup : (s.runqueue ++ moved).Nodup := by
    have hPlaced := (List.nodup_append.mp h.nodup).2.1
    rw [← List.append_assoc] at hPlaced
    refine (List.nodup_append.mp hPlaced).1.sublist ?_
    rw [← hMoved]
    exact List.filter_sublist.append_left s.runqueue
  refine .ok ⟨(moved.map .readied).reverse, rfl, ?_⟩
  have hEvents : (moved.map ThreadEvent.readied).reverse.filterMap ThreadEvent.onQueue =
      (moved.map QueueEvent.enqueued).reverse := by
    rw [List.filterMap_reverse, List.filterMap_map]
    show (moved.filterMap (some ∘ QueueEvent.enqueued)).reverse = _
    rw [List.filterMap_eq_map]
  rw [hEvents, ← List.append_nil (moved.map QueueEvent.enqueued).reverse]
  exact Served.refl.enqueueAll hNodup

omit [DecidableEq τ] in
theorem Placed.serves_lboltTick (h : s.Placed Φ) (c : ThreadConfig α) :
    Post (s.lboltTick c) s.Serves fun _ => True := by
  unfold ThreadSystem.lboltTick
  dsimp only
  split
  · refine ((h.withRegisters 0 _ _ _).serves_threadWakeup c.lbolt).mono fun u hu => ?_
    exact Serves.trans (.same rfl rfl) hu
  · exact .ok (.same rfl rfl)

/-! ## Steps -/

theorem Placed.serves_timerInterrupt (h : s.Placed Φ) (c : ThreadConfig α) :
    Post (s.timerInterrupt c) s.Serves fun _ => True := by
  have hEntered : (s.enterInterrupt c).2.Placed Φ := h.withRegisters _ _ _ _
  have hTick := (hEntered.serves_lboltTick c).and (hEntered.lboltTick c)
  refine hTick.bind fun t ht => ?_
  obtain ⟨hServes, hPlaced, -⟩ := ht
  have hYield := serves_threadYield (s := t) c (some (s.enterInterrupt c).1)
    fun cur hCur => (hPlaced.curthread_notMem hCur).1
  exact hYield.mono fun u hu => (Serves.trans (.same rfl rfl) hServes).trans hu

omit [DecidableEq τ] in
theorem Placed.serves_deviceInterrupt (h : s.Placed Φ) (c : ThreadConfig α) (addr : α) :
    Post (s.deviceInterrupt c addr) s.Serves fun _ => True := by
  have hEntered : (s.enterInterrupt c).2.Placed Φ := h.withRegisters _ _ _ _
  refine (hEntered.serves_threadWakeup addr).bind fun t ht => .ok ?_
  exact (Serves.trans (.same rfl rfl) ht).trans (serves_leaveInterrupt t _)

theorem Placed.serves_freeCall (h : s.Placed Φ) {c : ThreadConfig α} {cur : τ}
    {a : ThreadAction τ α} {x : Except Assertion (ThreadSystem τ α)}
    (hCall : s.freeCall c cur a = some x) : Post x s.Serves fun _ => True := by
  cases a with
  | splx newspl =>
    cases hCall
    exact .ok (.same rfl rfl)
  | threadYield =>
    cases hCall
    exact serves_threadYield c none fun cur hCur => (h.curthread_notMem hCur).1
  | threadSleep addr =>
    cases hCall
    exact serves_threadSleep addr cur
  | threadWakeup addr =>
    cases hCall
    exact h.serves_threadWakeup addr
  | threadExit =>
    cases hCall
    exact serves_threadExit c cur
  | threadCreate newguy =>
    simp only [ThreadSystem.freeCall] at hCall
    split at hCall
    · cases hCall
    · cases hCall
      exact .ok (.same rfl rfl)
  | threadFork => cases hCall
  | setVmspace as =>
    cases hCall
    exact .ok (.same rfl rfl)
  | setCwd dir =>
    cases hCall
    exact .ok (.same rfl rfl)
  | timer => cases hCall
  | device addr => cases hCall

omit [DecidableEq α] in
/-- A new thread is in no place until it is made runnable. -/
theorem Placed.serves_forked (h : s.Placed Φ) {cur newguy : τ} (hCur : s.curthread = some cur)
    (hNewguy : (s.thread cur).newguy = some newguy) : s.Serves (s.forked cur newguy) := by
  have hNew := (h.newguys cur (by simp [placed, hCur]) newguy hNewguy).unplaced
  have hStarted : s.Serves
      { s with log := .started newguy :: .preallocated (s.numthreads + 1) :: s.log } :=
    .skip [.started newguy, .preallocated (s.numthreads + 1)] rfl rfl rfl
  refine hStarted.trans (.makeRunnable rfl rfl ?_)
  intro hMem
  exact hNew (List.mem_append_right _ (List.mem_append_left _ hMem))

theorem Placed.serves_call (h : s.Placed Φ) {c : ThreadConfig α} {cur : τ}
    (hCur : s.curthread = some cur) {a : ThreadAction τ α}
    {x : Except Assertion (ThreadSystem τ α)} (hCall : s.call c cur a = some x) :
    Post x s.Serves fun _ => True := by
  unfold ThreadSystem.call at hCall
  split at hCall
  · exact h.serves_freeCall hCall
  · rename_i newguy hNewguy
    cases hCall
    rw [threadFork_eq]
    exact .ok (h.serves_forked hCur hNewguy)
  · cases hCall

/-- **Step lemma.** -/
theorem Inv.serves_step (h : s.Inv Φ) {c : ThreadConfig α} {a : ThreadAction τ α}
    {x : Except Assertion (ThreadSystem τ α)} (hStep : s.step c a = some x) :
    Post x s.Serves fun _ => True := by
  unfold ThreadSystem.step at hStep
  split at hStep
  · cases hStep
    refine (h.placed.serves_timerInterrupt c).bind fun t ht => ?_
    exact (serves_scheduler t).mono fun u hu => ht.trans hu
  · cases hStep
    refine (h.placed.serves_deviceInterrupt c _).bind fun t ht => ?_
    exact (serves_scheduler t).mono fun u hu => ht.trans hu
  · cases hStep
  · split at hStep
    · cases hStep
      exact h.placed.serves_timerInterrupt c
    · cases hStep
  · split at hStep
    · cases hStep
      exact h.placed.serves_deviceInterrupt c _
    · cases hStep
  · rename_i hCur _ _
    exact h.placed.serves_call hCur hStep

/-- **Run lemma.** -/
theorem Inv.serves_run (h : s.Inv fun _ => True) {c : ThreadConfig α}
    {tr : List (ThreadAction τ α)} {t : ThreadSystem τ α} (hRun : Run (Step c) s tr t) :
    s.Serves t := by
  have hBoth : t.Inv (fun _ => True) ∧ s.Serves t := by
    refine hRun.invariant (I := fun u => u.Inv (fun _ => True) ∧ s.Serves u) ⟨h, .refl s⟩ ?_
    rintro u a v ⟨hInv, hServes⟩ hStep
    exact ⟨hInv.step (fun _ _ => trivial) (x := .ok v) hStep,
      hServes.trans (hInv.serves_step (x := .ok v) hStep)⟩
  exact hBoth.2

/-- The whole log is the history of the run queue. -/
theorem served_of_run {c : ThreadConfig α} {me : τ} {tr : List (ThreadAction τ α)}
    (h : Run (Step c) (threadBootstrap c me) tr s) :
    Served [] (s.log.filterMap ThreadEvent.onQueue) s.runqueue := by
  obtain ⟨new, hLog, hServed⟩ := (inv_threadBootstrap c me).serves_run h
  have hStart : (threadBootstrap c me).log.filterMap ThreadEvent.onQueue = [] := rfl
  rw [hLog, List.filterMap_append, hStart, List.append_nil]
  exact hServed

/-- **Dispatch is first-come first-served.** Threads are dispatched in the order in which they
were made runnable; the thread behind `ahead` in the run queue is dispatched right after `ahead`,
and while a thread waits for its dispatch no other one is dispatched twice. -/
theorem dispatch_fcfs {c : ThreadConfig α} {me : τ} {tr : List (ThreadAction τ α)}
    (h : Run (Step c) (threadBootstrap c me) tr s) :
    readiedIn s.log = dispatchedIn s.log ++ s.runqueue ∧
    (∀ tr' s', Run (Step c) s tr' s' → ∀ ahead t behind, s.runqueue = ahead ++ t :: behind →
      ∃ new, s'.log = new ++ s.log ∧
        (dispatchedIn new <+: ahead ∨ ahead ++ [t] <+: dispatchedIn new)) ∧
    ∀ later between before t, s.log = later ++ (between ++ .readied t :: before) →
      ∃ ahead, readiedIn before = dispatchedIn before ++ ahead ∧ t ∉ ahead ∧
        (dispatchedIn between <+: ahead ∨ ahead ++ [t] <+: dispatchedIn between) ∧
        (t ∉ dispatchedIn between → (dispatchedIn between).Nodup) := by
  have hServed := served_of_run h
  refine ⟨hServed.order, ?_, ?_⟩
  · intro tr' s' hRun ahead t behind hQueue
    obtain ⟨new, hLog, hNew⟩ := (inv_of_run h).serves_run hRun
    rw [hQueue] at hNew
    exact ⟨new, hLog, hNew.turn⟩
  · intro later between before t hLog
    rw [hLog, List.filterMap_append, List.filterMap_append] at hServed
    obtain ⟨_, hUntil, -⟩ := hServed.cut
    obtain ⟨queue, hReadied, hBetween⟩ := hUntil.cut
    obtain ⟨ahead, hBefore, hNew, rfl⟩ : ∃ ahead,
        Served [] (before.filterMap ThreadEvent.onQueue) ahead ∧ t ∉ ahead ∧
          queue = ahead ++ [t] := by
      cases hReadied with
      | enqueue hBefore hNew => exact ⟨_, hBefore, hNew, rfl⟩
    refine ⟨ahead, hBefore.order, hNew, hBetween.turn, ?_⟩
    exact hBetween.nodup_departures (hBefore.nodup List.nodup_nil)

/-- A thread is forked and gets the processor; its parent is dispatched when it sleeps. -/
theorem dispatch_fcfs_fork : ∃ s : ThreadSystem Nat Unit,
    readiedIn s.log = [1, 0] ∧ dispatchedIn s.log = [1, 0] ∧ s.runqueue = [] ∧
      readiedIn s.log = dispatchedIn s.log ++ s.runqueue := by
  have hEnd : ([.splx 0, .threadCreate 1, .threadFork, .timer, .splx 15,
      .threadSleep ()].foldlM (okStep (step ⟨(), 100, 15, by decide⟩))
        (threadBootstrap ⟨(), 100, 15, by decide⟩ 0)).map (fun s => (s.runqueue, s.log)) =
      some ([], [.dispatched 0, .dispatched 1, .readied 0, .readied 1, .started 1,
        .preallocated 2, .started 0]) := by
    decide +kernel
  obtain ⟨s, hs, hFields⟩ := Option.map_eq_some_iff.mp hEnd
  simp only [Prod.mk.injEq] at hFields
  obtain ⟨hQueue, hLog⟩ := hFields
  obtain ⟨hOrder, -⟩ := dispatch_fcfs (Run.of_okStep hs)
  refine ⟨s, ?_, ?_, hQueue, hOrder⟩
  · rw [hLog]
    rfl
  · rw [hLog]
    rfl

end ThreadSystem

end Windborne.OS161
