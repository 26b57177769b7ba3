import Windborne.OS161.Suspension

/-!
# Who sleeps where

The sleepers with their addresses are a table of which most code leaves every entry in place. A
thread that goes to sleep adds one, and `thread_wakeup` takes those with its address away. The
clock does so for `lbolt` when its counter comes to `HZ`, and counts on otherwise.
-/

namespace Windborne.OS161

open Library

namespace ThreadSystem

variable {τ α : Type}

/-- The sleepers with their addresses, in order. -/
def sleeping (s : ThreadSystem τ α) : List (τ × Option α) :=
  s.sleepers.map fun t => (t, (s.thread t).tSleepaddr)

/-- The clock interrupt wakes the sleepers at `lbolt`. -/
def wakesLbolt (c : ThreadConfig α) (s : ThreadSystem τ α) : Bool := s.lboltCounter + 1 ≥ c.hz

section

variable [DecidableEq α]

def wakeAt (addr : α) (table : List (τ × Option α)) : List (τ × Option α) :=
  table.filter fun entry => entry.2 ≠ some addr

/-- The table after an action. -/
def sleepingAfter (c : ThreadConfig α) (s : ThreadSystem τ α) :
    ThreadAction τ α → List (τ × Option α)
  | .threadSleep addr => s.sleeping ++ s.curthread.toList.map (·, some addr)
  | .threadWakeup addr => wakeAt addr s.sleeping
  | .device addr => wakeAt addr s.sleeping
  | .timer => if s.wakesLbolt c then wakeAt c.lbolt s.sleeping else s.sleeping
  | _ => s.sleeping

end

/-- The counter after an action. -/
def lboltCounterAfter (c : ThreadConfig α) (s : ThreadSystem τ α) : ThreadAction τ α → Nat
  | .timer => if s.wakesLbolt c then 0 else s.lboltCounter + 1
  | _ => s.lboltCounter

/-- Code that neither wakes a sleeper nor puts a thread to sleep. -/
structure Rests (s t : ThreadSystem τ α) : Prop where
  sleeping : t.sleeping = s.sleeping
  lboltCounter : t.lboltCounter = s.lboltCounter

namespace Rests

variable {s t u : ThreadSystem τ α}

theorem refl (s : ThreadSystem τ α) : s.Rests s := ⟨rfl, rfl⟩

theorem trans (h : s.Rests t) (g : t.Rests u) : s.Rests u :=
  ⟨g.sleeping.trans h.sleeping, g.lboltCounter.trans h.lboltCounter⟩

theorem sleepers (h : s.Rests t) : t.sleepers = s.sleepers := by
  have hTable := congrArg (List.map Prod.fst) h.sleeping
  simpa [ThreadSystem.sleeping, Function.comp_def] using hTable

theorem of_addr (hSleepers : t.sleepers = s.sleepers)
    (hAddr : ∀ v ∈ s.sleepers, (t.thread v).tSleepaddr = (s.thread v).tSleepaddr)
    (hCounter : t.lboltCounter = s.lboltCounter) : s.Rests t := by
  refine ⟨?_, hCounter⟩
  unfold ThreadSystem.sleeping
  rw [hSleepers]
  apply List.map_congr_left
  intro v hv
  rw [hAddr v hv]

theorem same (hSleepers : t.sleepers = s.sleepers) (hThread : t.thread = s.thread)
    (hCounter : t.lboltCounter = s.lboltCounter) : s.Rests t := by
  apply of_addr hSleepers _ hCounter
  intro v _
  rw [hThread]

end Rests

variable {s t : ThreadSystem τ α} {Φ : α → Prop}

theorem rests_leaveInterrupt (s : ThreadSystem τ α) (trap : Option Trap) :
    s.Rests (s.leaveInterrupt trap) := by
  cases trap with
  | none => exact .refl s
  | some trap => exact .same rfl rfl rfl

/-! ## Code that lets sleepers rest -/

variable [DecidableEq τ]

/-- An assignment that leaves the address, or one to a thread that does not sleep. -/
theorem rests_setThread (s : ThreadSystem τ α) (v : τ) {f : Thread τ α → Thread τ α}
    (h : v ∉ s.sleepers ∨ ∀ th, (f th).tSleepaddr = th.tSleepaddr) : s.Rests (s.setThread v f) := by
  refine .of_addr rfl ?_ rfl
  intro w hw
  rcases h with hAway | hAddr
  · rw [setThread_of_ne]
    rintro rfl
    exact hAway hw
  · exact setThread_field s v (·.tSleepaddr) hAddr w

theorem rests_exorciseLoop (zombies : List τ) (s : ThreadSystem τ α) :
    Post (s.exorciseLoop zombies) s.Rests fun _ => True := by
  induction zombies generalizing s with
  | nil => exact .ok (.refl s)
  | cons z zombies ih =>
    have hDestroy : Post (s.threadDestroy z) s.Rests fun _ => True := by
      unfold threadDestroy
      split_ifs
      · exact .error trivial
      · exact .error trivial
      · exact .error trivial
      · exact .ok (.same rfl rfl rfl)
    unfold exorciseLoop
    split
    · exact .error trivial
    · refine hDestroy.bind fun t ht => ?_
      exact (ih t).mono fun u hu => ht.trans hu

theorem rests_exorcise (s : ThreadSystem τ α) : Post s.exorcise s.Rests fun _ => True := by
  unfold exorcise
  split
  · exact .error trivial
  · refine (rests_exorciseLoop s.zombies s).bind fun t ht => ?_
    exact .ok (ht.trans (.same rfl rfl rfl))

/-- The thread that is resumed does not sleep. -/
theorem rests_resume {v : τ} (hv : v ∉ s.sleepers) : Post (s.resume v) s.Rests fun _ => True := by
  unfold ThreadSystem.resume
  cases (s.thread v).frame with
  | threadstart => exact .ok (.same rfl rfl rfl)
  | yield spl trap =>
    refine (rests_exorcise s).bind fun u hu => .ok ?_
    have hSplx : u.Rests (u.splx spl).2 := .same rfl rfl rfl
    exact (hu.trans hSplx).trans (rests_leaveInterrupt _ trap)
  | sleep =>
    refine (rests_exorcise s).bind fun u hu => .ok ?_
    refine hu.trans (rests_setThread u v (Or.inl ?_))
    rw [hu.sleepers]
    exact hv
  | exit => exact (rests_exorcise s).bind fun _ _ => .error trivial

theorem rests_mdSwitch (s : ThreadSystem τ α) (old nu : τ) : s.Rests (s.mdSwitch old nu) := by
  unfold ThreadSystem.mdSwitch
  split
  · exact .refl s
  · refine (rests_setThread s old (f := fun th => { th with pcbIninterrupt := s.inInterrupt })
      (Or.inr fun _ => rfl)).trans ?_
    exact .same rfl rfl rfl

theorem rests_scheduler (hApart : ∀ v ∈ s.runqueue, v ∉ s.sleepers) :
    Post s.scheduler s.Rests fun _ => True := by
  unfold ThreadSystem.scheduler
  split
  · exact .error trivial
  split
  · rename_i next runqueue cur hQueue hSwitching
    generalize hAt : ({ s with
      curthread := some next, runqueue, switching := none
      log := .dispatched next :: s.log } : ThreadSystem τ α) = at'
    have hDispatch : s.Rests at' := by
      subst hAt
      exact .same rfl rfl rfl
    have hNext : next ∉ (at'.mdSwitch cur next).sleepers := by
      rw [(mdSwitch_lists at' cur next).2.2, ← hAt]
      apply hApart
      rw [hQueue]
      exact List.mem_cons_self
    refine (rests_resume hNext).mono fun u hu => ?_
    exact (hDispatch.trans (rests_mdSwitch at' cur next)).trans hu
  · exact .ok (.refl s)

/-! ## Giving up the processor -/

theorem rests_giveUp (s : ThreadSystem τ α) (cur : τ) (frame : Frame) :
    s.Rests (s.giveUp cur frame) := by
  refine (rests_setThread s cur (f := fun th => { th with frame }) (Or.inr fun _ => rfl)).trans ?_
  exact .same rfl rfl rfl

omit [DecidableEq τ] in
/-- No thread is on two lists. -/
theorem Placed.apart (h : s.Placed Φ) : s.runqueue.Disjoint s.sleepers := by
  have hLists := (List.nodup_append.mp h.nodup).2.1
  intro v hQueue hSleeps
  exact (List.nodup_append.mp hLists).2.2 v hQueue v (List.mem_append_left _ hSleeps) rfl

omit [DecidableEq τ] in
theorem Placed.awake (h : s.Placed Φ) {cur : τ} (hCur : s.curthread = some cur) :
    cur ∉ s.sleepers := (h.curthread_notMem hCur).2.1

theorem rests_miSwitch (hApart : s.runqueue.Disjoint s.sleepers)
    (hAwake : ∀ cur, s.curthread = some cur → cur ∉ s.sleepers) {nextstate : ThreadState}
    (hState : nextstate ≠ .sleep) (frame : Frame) :
    Post (s.miSwitch nextstate frame) s.Rests fun _ => True := by
  unfold ThreadSystem.miSwitch
  split
  · exact .error trivial
  cases hCur : s.curthread with
  | none => exact .ok (.refl s)
  | some cur =>
    dsimp only
    have hGiven := rests_giveUp s cur frame
    cases nextstate with
    | ready =>
      rw [stash, makeRunnable]
      split
      · exact .error trivial
      · rw [ok_bind]
        refine (rests_scheduler ?_).mono fun u hu => Rests.trans ?_ hu
        · intro v hv
          rcases List.mem_append.mp hv with hQueue | hSelf
          · exact hApart hQueue
          · rw [List.mem_singleton.mp hSelf]
            exact hAwake cur hCur
        · exact hGiven.trans (.same rfl rfl rfl)
    | sleep => exact absurd rfl hState
    | zomb =>
      rw [stash, ok_bind]
      refine (rests_scheduler ?_).mono fun u hu => Rests.trans ?_ hu
      · intro v hv
        exact hApart hv
      · exact hGiven.trans (.same rfl rfl rfl)

theorem Placed.rests_threadYield (h : s.Placed Φ) (c : ThreadConfig α) (trap : Option Trap) :
    Post (s.threadYield c trap) s.Rests fun _ => True := by
  have hSplhigh : s.Rests (s.splhigh c).2 := .same rfl rfl rfl
  have hSwitch : Post ((s.splhigh c).2.miSwitch .ready (.yield (s.splhigh c).1 trap))
      (s.splhigh c).2.Rests fun _ => True :=
    rests_miSwitch (s := (s.splhigh c).2) h.apart (fun _ => h.awake) (by simp) _
  unfold ThreadSystem.threadYield
  dsimp only
  split
  · refine hSwitch.bind fun u hu => .ok ?_
    have hSplx : u.Rests (u.splx (s.splhigh c).1).2 := .same rfl rfl rfl
    exact ((hSplhigh.trans hu).trans hSplx).trans (rests_leaveInterrupt _ trap)
  · exact hSwitch.mono fun u hu => hSplhigh.trans hu

theorem Placed.rests_threadExit (h : s.Placed Φ) (c : ThreadConfig α) (cur : τ) :
    Post (s.threadExit c cur) s.Rests fun _ => True := by
  have hSplhigh : s.Rests (s.splhigh c).2 := .same rfl rfl rfl
  have hSet := rests_setThread (s.splhigh c).2 cur
    (f := fun th => { th with tVmspace := none, tCwd := none }) (Or.inr fun _ => rfl)
  unfold ThreadSystem.threadExit
  dsimp only
  split
  · exact .error trivial
  · have hState : ThreadState.zomb ≠ .sleep := by simp
    refine (rests_miSwitch ?_ ?_ hState _).mono fun u hu => Rests.trans ?_ hu
    · exact h.apart
    · exact fun _ => h.awake
    · exact (hSplhigh.trans hSet).trans (.same rfl rfl rfl)

/-- The thread that goes to sleep is the last entry of the table. -/
theorem Placed.sleeping_threadSleep (h : s.Placed Φ) (addr : α) {cur : τ}
    (hCur : s.curthread = some cur) :
    Post (s.threadSleep addr cur) (fun u => u.sleeping = s.sleeping ++ [(cur, some addr)] ∧
      u.lboltCounter = s.lboltCounter) fun _ => True := by
  have hSet := rests_setThread s cur (f := fun th => { th with tSleepaddr := some addr })
    (Or.inl (h.awake hCur))
  unfold ThreadSystem.threadSleep
  split
  · exact .error trivial
  generalize hAt : (s.setThread cur fun th => { th with tSleepaddr := some addr }) = at' at hSet ⊢
  have hCur' : at'.curthread = some cur := by
    rw [← hAt]
    exact hCur
  have hAddr : (at'.thread cur).tSleepaddr = some addr := by
    rw [← hAt, setThread_self]
  have hQueue : at'.runqueue = s.runqueue := by
    rw [← hAt]
    rfl
  have hGiven := hSet.trans (rests_giveUp at' cur .sleep)
  unfold ThreadSystem.miSwitch
  split
  · exact .error trivial
  rw [hCur']
  dsimp only
  rw [stash, ok_bind]
  refine (rests_scheduler ?_).mono fun u hu => ⟨hu.sleeping.trans ?_, hu.lboltCounter.trans ?_⟩
  · intro v hv
    replace hv : v ∈ at'.runqueue := hv
    rw [hQueue] at hv
    have hOld := h.apart hv
    have hNe : v ≠ cur := by
      rintro rfl
      exact (h.curthread_notMem hCur).1 hv
    rw [← hSet.sleepers] at hOld
    intro hMem
    rcases List.mem_append.mp hMem with hMem | hMem
    · exact hOld hMem
    · exact hNe (List.mem_singleton.mp hMem)
  · have hFrame : ((at'.giveUp cur .sleep).thread cur).tSleepaddr = some addr := by
      rw [← hAddr]
      exact setThread_field at' cur (f := fun th => { th with frame := .sleep }) (·.tSleepaddr)
        (fun _ => rfl) cur
    rw [← hGiven.sleeping]
    unfold ThreadSystem.sleeping
    dsimp only
    rw [List.map_append, List.map_singleton, hFrame]
  · exact hGiven.lboltCounter

/-! ## Interrupts and calls -/

variable [DecidableEq α]

/-- What a step makes of the table and of the counter. -/
structure Sleeps (c : ThreadConfig α) (s : ThreadSystem τ α) (a : ThreadAction τ α)
    (t : ThreadSystem τ α) : Prop where
  sleeping : t.sleeping = s.sleepingAfter c a
  lboltCounter : t.lboltCounter = s.lboltCounterAfter c a

omit [DecidableEq τ] in
/-- `thread_wakeup` without its loop. -/
theorem threadWakeup_eq_ite (addr : α) (s : ThreadSystem τ α) :
    s.threadWakeup addr = if s.curspl = 0 then .error .curspl else .ok { s with
      sleepers := s.sleepers.filter fun t => ¬(s.thread t).tSleepaddr = some addr
      runqueue := s.runqueue ++ s.sleepers.filter fun t => (s.thread t).tSleepaddr = some addr
      log := ((s.sleepers.filter fun t =>
        (s.thread t).tSleepaddr = some addr).map .readied).reverse ++ s.log } := by
  by_cases hSpl : s.curspl = 0
  · rw [threadWakeup, if_pos hSpl, if_pos hSpl]
  · rw [threadWakeup_eq addr s hSpl, if_neg hSpl]

omit [DecidableEq τ] in
theorem sleeping_threadWakeup (s : ThreadSystem τ α) (addr : α) :
    Post (s.threadWakeup addr) (fun u => u.sleeping = wakeAt addr s.sleeping ∧
      u.lboltCounter = s.lboltCounter) fun _ => True := by
  rw [threadWakeup_eq_ite]
  split
  · exact .error trivial
  · refine .ok ⟨?_, rfl⟩
    unfold ThreadSystem.sleeping wakeAt
    rw [List.filter_map]
    rfl

omit [DecidableEq τ] in
/-- The clock wakes the sleepers at `lbolt`, or it does not touch them. -/
theorem lboltTick_eq (c : ThreadConfig α) (s : ThreadSystem τ α) :
    s.lboltTick c = if s.wakesLbolt c then ({ s with lboltCounter := 0 }).threadWakeup c.lbolt
      else .ok { s with lboltCounter := s.lboltCounter + 1 } := by
  unfold ThreadSystem.lboltTick wakesLbolt
  simp only [decide_eq_true_eq]

omit [DecidableEq τ] in
theorem sleeping_lboltTick (c : ThreadConfig α) (s : ThreadSystem τ α) :
    Post (s.lboltTick c) (s.Sleeps c .timer) fun _ => True := by
  rw [lboltTick_eq]
  by_cases hWakes : s.wakesLbolt c
  · rw [if_pos hWakes]
    refine (sleeping_threadWakeup _ c.lbolt).mono fun u hu => ⟨?_, ?_⟩
    · rw [sleepingAfter, if_pos hWakes]
      exact hu.1
    · rw [lboltCounterAfter, if_pos hWakes]
      exact hu.2
  · rw [if_neg hWakes]
    refine .ok ⟨?_, ?_⟩
    · rw [sleepingAfter, if_neg hWakes]
      rfl
    · rw [lboltCounterAfter, if_neg hWakes]

omit [DecidableEq τ] in
theorem Sleeps.trans {c : ThreadConfig α} {a : ThreadAction τ α} {u : ThreadSystem τ α}
    (h : s.Sleeps c a t) (g : t.Rests u) : s.Sleeps c a u :=
  ⟨g.sleeping.trans h.sleeping, g.lboltCounter.trans h.lboltCounter⟩

theorem Placed.sleeps_timerInterrupt (h : s.Placed Φ) (c : ThreadConfig α) :
    Post (s.timerInterrupt c) (s.Sleeps c .timer) fun _ => True := by
  have hEntered : (s.enterInterrupt c).2.Placed Φ := h.withRegisters _ _ _ _
  refine ((sleeping_lboltTick c (s.enterInterrupt c).2).and (hEntered.lboltTick c)).bind ?_
  rintro t ⟨hTick, hPlaced, -⟩
  have hSleeps : s.Sleeps c .timer t := ⟨hTick.sleeping, hTick.lboltCounter⟩
  exact (hPlaced.rests_threadYield c _).mono fun u hu => hSleeps.trans hu

omit [DecidableEq τ] in
theorem sleeps_deviceInterrupt (c : ThreadConfig α) (addr : α) (s : ThreadSystem τ α) :
    Post (s.deviceInterrupt c addr) (s.Sleeps c (.device addr)) fun _ => True := by
  refine (sleeping_threadWakeup (s.enterInterrupt c).2 addr).bind fun t ht => .ok ?_
  exact Sleeps.trans ⟨ht.1, ht.2⟩ (rests_leaveInterrupt t _)

omit [DecidableEq α] in
/-- A new thread does not sleep. -/
theorem Placed.rests_threadCreate (h : s.Placed Φ) {cur newguy : τ} (hCur : s.curthread = some cur)
    (hFresh : s.allocated newguy = false) : s.Rests (s.threadCreate cur newguy) := by
  refine .of_addr rfl ?_ rfl
  intro v hv
  have hPlaced : v ∈ s.placed := by
    unfold placed
    simp [hv]
  rw [threadCreate_of_ne]
  · rintro rfl
    exact h.awake hCur hv
  · rintro rfl
    rw [h.allocated v hPlaced] at hFresh
    cases hFresh

theorem Placed.sleeps_freeCall (h : s.Placed Φ) {c : ThreadConfig α} {cur : τ}
    (hCur : s.curthread = some cur) {a : ThreadAction τ α}
    {x : Except Assertion (ThreadSystem τ α)} (hCall : s.freeCall c cur a = some x) :
    Post x (s.Sleeps c a) fun _ => True := by
  cases a with
  | splx newspl =>
    cases hCall
    exact .ok ⟨rfl, rfl⟩
  | threadYield =>
    cases hCall
    exact (h.rests_threadYield c none).mono fun u hu => ⟨hu.sleeping, hu.lboltCounter⟩
  | threadSleep addr =>
    cases hCall
    refine (h.sleeping_threadSleep addr hCur).mono fun u hu => ⟨?_, hu.2⟩
    rw [sleepingAfter, hCur]
    exact hu.1
  | threadWakeup addr =>
    cases hCall
    exact (sleeping_threadWakeup s addr).mono fun u hu => ⟨hu.1, hu.2⟩
  | threadExit =>
    cases hCall
    exact (h.rests_threadExit c cur).mono fun u hu => ⟨hu.sleeping, hu.lboltCounter⟩
  | threadCreate newguy =>
    simp only [ThreadSystem.freeCall] at hCall
    split at hCall
    · cases hCall
    · rename_i hFresh
      cases hCall
      have hRests := h.rests_threadCreate hCur (by simpa using hFresh)
      exact .ok ⟨hRests.sleeping, hRests.lboltCounter⟩
  | threadFork => cases hCall
  | setVmspace as =>
    cases hCall
    have hRests := rests_setThread s cur (f := fun th => { th with tVmspace := as })
      (Or.inr fun _ => rfl)
    exact .ok ⟨hRests.sleeping, hRests.lboltCounter⟩
  | setCwd dir =>
    cases hCall
    have hRests := rests_setThread s cur (f := fun th => { th with tCwd := dir })
      (Or.inr fun _ => rfl)
    exact .ok ⟨hRests.sleeping, hRests.lboltCounter⟩
  | timer => cases hCall
  | device addr => cases hCall

omit [DecidableEq α] in
theorem rests_forked (s : ThreadSystem τ α) (cur newguy : τ) : s.Rests (s.forked cur newguy) := by
  have hReadied : s.Rests { s with
      runqueue := s.runqueue ++ [newguy], numthreads := s.numthreads + 1
      log := .readied newguy :: .started newguy :: .preallocated (s.numthreads + 1) :: s.log } :=
    .same rfl rfl rfl
  exact hReadied.trans (rests_setThread _ cur (Or.inr fun _ => rfl))

/-- **Step lemma.** -/
theorem Inv.sleeps_step (h : s.Inv Φ) {c : ThreadConfig α} {a : ThreadAction τ α}
    {x : Except Assertion (ThreadSystem τ α)} (hStep : s.step c a = some x) :
    Post x (s.Sleeps c a) fun _ => True := by
  unfold ThreadSystem.step at hStep
  split at hStep
  · rename_i hNone
    cases hStep
    have hTimer := (h.placed.sleeps_timerInterrupt c).and ((h.waiting hNone).timerInterrupt c)
    refine hTimer.bind fun t ht => ?_
    exact (rests_scheduler ht.2.placed.apart).mono fun u hu => ht.1.trans hu
  · rename_i addr _
    cases hStep
    have hDevice := (sleeps_deviceInterrupt c addr s).and (h.placed.deviceInterrupt c addr)
    refine hDevice.bind fun t ht => ?_
    exact (rests_scheduler ht.2.1.apart).mono fun u hu => ht.1.trans hu
  · cases hStep
  · split at hStep
    · cases hStep
      exact h.placed.sleeps_timerInterrupt c
    · cases hStep
  · split at hStep
    · cases hStep
      exact sleeps_deviceInterrupt c _ s
    · cases hStep
  · rename_i cur hCur _ _
    unfold ThreadSystem.call at hStep
    split at hStep
    · exact h.placed.sleeps_freeCall hCur hStep
    · cases hStep
      rw [threadFork_eq]
      have hRests := rests_forked s cur
      exact .ok ⟨(hRests _).sleeping, (hRests _).lboltCounter⟩
    · cases hStep

end ThreadSystem

end Windborne.OS161
