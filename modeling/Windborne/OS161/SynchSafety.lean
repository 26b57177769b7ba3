import Windborne.OS161.Synch
import Windborne.OS161.ThreadPartition

/-!
# Mutual exclusion and wakeups

Sleepers sleep at objects that are not available. The condition of a loop is tested in the
same step that puts the thread to sleep, and whatever makes an object available wakes all of
its sleepers, so the invariant of the thread system holds with the addresses of the objects
that are not available. A lock is held exactly from an acquire to the holder's next release.
-/

namespace Windborne.OS161

open Library

/-- Thread `t` has come back from `lock_acquire(l)` and has not released `l` since. -/
def Holding {τ ς κ : Type} (t : τ) (l : κ) : List (SynchEvent τ ς κ) → Prop
  | [] => False
  | .acquired u k :: log => (u = t ∧ k = l) ∨ Holding t l log
  | .released u k :: log => ¬(u = t ∧ k = l) ∧ Holding t l log
  | .down _ _ :: log => Holding t l log
  | .up _ _ :: log => Holding t l log

namespace Synch

variable {τ ς κ α : Type}

/-- The addresses at which a thread may sleep in state `s`. -/
def Unavailable (s : Synch τ ς κ α) : SynchAddr ς κ α → Prop
  | .sem i => s.count i = 0
  | .lock l => (s.lock l).held = 1
  | .other _ => True

/-- The fields of a lock agree with the thread between acquire and release. -/
structure LockOk (s : Synch τ ς κ α) (l : κ) : Prop where
  held : (s.lock l).held = 0 ∨ (s.lock l).held = 1
  holding : ∀ t, Holding t l s.log ↔ (s.lock l).held = 1 ∧ (s.lock l).holder = some t

structure Inv (s : Synch τ ς κ α) : Prop where
  sys : s.sys.Inv s.Unavailable
  locks : ∀ l, s.LockOk l

/-- A change of the object at `addr` leaves the other objects as they were. -/
theorem Unavailable.of_ne {s s' : Synch τ ς κ α} {a addr : SynchAddr ς κ α} (h : s.Unavailable a)
    (hNe : a ≠ addr) (hSem : ∀ i, .sem i ≠ addr → s'.count i = s.count i)
    (hLock : ∀ l, .lock l ≠ addr → s'.lock l = s.lock l) : s'.Unavailable a := by
  cases a with
  | sem i =>
    show s'.count i = 0
    rw [hSem i hNe]
    exact h
  | lock l =>
    show (s'.lock l).held = 1
    rw [hLock l hNe]
    exact h
  | other a => trivial

theorem LockOk.keep {s s' : Synch τ ς κ α} {l : κ} (h : s.LockOk l)
    (hLock : s'.lock l = s.lock l) (hLog : ∀ t, Holding t l s'.log ↔ Holding t l s.log) :
    s'.LockOk l := by
  refine ⟨?_, fun t => ?_⟩
  · rw [hLock]
    exact h.held
  · rw [hLog, hLock]
    exact h.holding t

variable [DecidableEq τ] [DecidableEq ς] [DecidableEq κ] [DecidableEq α]

/-! ## Sections between `splhigh` and `splx` -/

omit [DecidableEq τ] in
/-- Waking the sleepers of an object that becomes available. -/
theorem inv_of_wakeup {c : ThreadConfig (SynchAddr ς κ α)} {Φ Ψ : SynchAddr ς κ α → Prop}
    {sys sys' : ThreadSystem τ (SynchAddr ς κ α)} (h : sys.Inv Φ) {t : τ}
    (hCur : sys.curthread = some t) {addr : SynchAddr ς κ α}
    (hSub : ∀ a, Φ a → a ≠ addr → Ψ a) (spl : Nat)
    (hWakeup : (sys.splhigh c).2.threadWakeup addr = .ok sys') : ((sys'.splx spl).2).Inv Ψ := by
  have hHigh : (sys.splhigh c).2.Placed Φ := h.placed.withRegisters _ _ _ _
  obtain ⟨hPlaced, hCur', -⟩ := (hHigh.wakeup addr).of_eq_ok hWakeup
  have hWeak : sys'.Placed Ψ := hPlaced.weaken fun a ha => hSub a ha.1 ha.2
  exact ThreadSystem.inv_of_placed (hWeak.withRegisters _ _ _ _) (hCur'.trans hCur)

omit [DecidableEq τ] [DecidableEq ς] [DecidableEq κ] [DecidableEq α] in
theorem inv_of_splx {Φ Ψ : SynchAddr ς κ α → Prop}
    {sys : ThreadSystem τ (SynchAddr ς κ α)} (h : sys.Inv Φ) {t : τ}
    (hCur : sys.curthread = some t) (hSub : ∀ a, Φ a → Ψ a) (spl : Nat) :
    ((sys.splx spl).2).Inv Ψ :=
  ThreadSystem.inv_of_placed ((h.placed.weaken hSub).withRegisters _ _ _ _) hCur

variable {s s' : Synch τ ς κ α} {c : ThreadConfig (SynchAddr ς κ α)} {t : τ}

/-! ## Semaphores -/

omit [DecidableEq ς] [DecidableEq κ] [DecidableEq α] in
theorem Inv.P (h : s.Inv) (hCur : s.sys.curthread = some t) {i : ς}
    (hRun : s.P c t i = .ok s') : s'.Inv := by
  unfold Synch.P at hRun
  split at hRun
  · cases hRun
  · cases hRun
    exact ⟨inv_of_splx h.sys hCur (fun _ => id) _, fun l => (h.locks l).keep rfl fun _ => Iff.rfl⟩

omit [DecidableEq κ] [DecidableEq α] in
theorem Inv.loopP (h : s.Inv) (hCur : s.sys.curthread = some t) {i : ς} {spl : Nat}
    (hRun : s.loopP t i spl = .ok s') : s'.Inv := by
  unfold Synch.loopP at hRun
  by_cases hZero : s.count i = 0
  · rw [if_pos hZero] at hRun
    obtain ⟨sys, hSleep, hRest⟩ := bind_eq_ok.mp hRun
    cases hRest
    have hUnavailable : s.Unavailable (.sem i) := hZero
    exact ⟨(h.sys.placed.threadSleep hUnavailable hCur).of_eq_ok hSleep,
      fun l => (h.locks l).keep rfl fun _ => Iff.rfl⟩
  · rw [if_neg hZero] at hRun
    split at hRun
    · cases hRun
    · cases hRun
      refine ⟨inv_of_splx h.sys hCur ?_ spl, fun l => (h.locks l).keep rfl fun _ => Iff.rfl⟩
      intro a ha
      -- nobody sleeps at a semaphore with a positive count
      have hNe : a ≠ .sem i := by
        rintro rfl
        exact hZero ha
      apply ha.of_ne hNe
      · intro j hj
        exact Function.update_of_ne (ne_of_apply_ne _ hj) _ _
      · intro l _
        rfl

omit [DecidableEq τ] in
theorem Inv.V (h : s.Inv) (hCur : s.sys.curthread = some t) {i : ς}
    (hRun : s.V c t i = .ok s') : s'.Inv := by
  unfold Synch.V at hRun
  dsimp only at hRun
  split at hRun
  · cases hRun
  · obtain ⟨sys, hWakeup, hRest⟩ := bind_eq_ok.mp hRun
    cases hRest
    refine ⟨inv_of_wakeup h.sys hCur ?_ _ hWakeup, fun l => (h.locks l).keep rfl fun _ => Iff.rfl⟩
    intro a ha hNe
    apply ha.of_ne hNe
    · intro j hj
      exact Function.update_of_ne (ne_of_apply_ne _ hj) _ _
    · intro l _
      rfl

/-! ## Locks -/

omit [DecidableEq ς] [DecidableEq κ] [DecidableEq α] in
theorem Inv.lockAcquire (h : s.Inv) (hCur : s.sys.curthread = some t) {l : κ}
    (hRun : s.lockAcquire c t l = .ok s') : s'.Inv := by
  cases hRun
  exact ⟨inv_of_splx h.sys hCur (fun _ => id) _, fun k => (h.locks k).keep rfl fun _ => Iff.rfl⟩

omit [DecidableEq ς] [DecidableEq α] in
theorem Inv.loopAcquire (h : s.Inv) (hCur : s.sys.curthread = some t) {l : κ} {spl : Nat}
    (hRun : s.loopAcquire t l spl = .ok s') : s'.Inv := by
  unfold Synch.loopAcquire at hRun
  by_cases hHeld : (s.lock l).held ≠ 0
  · rw [if_pos hHeld] at hRun
    obtain ⟨sys, hSleep, hRest⟩ := bind_eq_ok.mp hRun
    cases hRest
    have hUnavailable : s.Unavailable (.lock l) := (h.locks l).held.resolve_left hHeld
    exact ⟨(h.sys.placed.threadSleep hUnavailable hCur).of_eq_ok hSleep,
      fun k => (h.locks k).keep rfl fun _ => Iff.rfl⟩
  · rw [if_neg hHeld] at hRun
    cases hRun
    have hFree : (s.lock l).held = 0 := not_not.mp hHeld
    refine ⟨inv_of_splx h.sys hCur ?_ spl, ?_⟩
    · intro a ha
      -- nobody sleeps at a free lock
      have hNe : a ≠ .lock l := by
        rintro rfl
        have hOne : (s.lock l).held = 1 := ha
        omega
      apply ha.of_ne hNe
      · intro i _
        rfl
      · intro k hk
        exact Function.update_of_ne (ne_of_apply_ne _ hk) _ _
    · intro k
      by_cases hk : k = l
      · subst hk
        refine ⟨Or.inr ?_, fun u => ?_⟩
        · show (Function.update s.lock k _ k).held = 1
          rw [Function.update_self]
        · show (t = u ∧ k = k) ∨ Holding u k s.log ↔ (Function.update s.lock k _ k).held = 1 ∧
            (Function.update s.lock k _ k).holder = some u
          rw [(h.locks k).holding, Function.update_self, hFree]
          simp
      · refine (h.locks k).keep (Function.update_of_ne hk ..) fun u => ?_
        show (t = u ∧ l = k) ∨ Holding u k s.log ↔ _
        simp [Ne.symm hk]

omit [DecidableEq ς] [DecidableEq κ] [DecidableEq α] in
theorem lockDoIHold_eq_one (s : Synch τ ς κ α) (t : τ) (l : κ) :
    s.lockDoIHold t l = 1 ↔ (s.lock l).holder = some t ∧ (s.lock l).held = 1 := by
  unfold lockDoIHold
  split
  · rename_i hBoth
    exact ⟨fun _ => hBoth, fun _ => rfl⟩
  · rename_i hNot
    exact ⟨fun hOne => (nomatch hOne), fun hBoth => absurd hBoth hNot⟩

/-- Only the holder frees a lock. -/
theorem Inv.lockRelease (h : s.Inv) (hCur : s.sys.curthread = some t) {l : κ}
    (hRun : s.lockRelease c t l = .ok s') : s'.Inv := by
  unfold Synch.lockRelease at hRun
  dsimp only at hRun
  by_cases hMine : (s.lock l).held = 1 ∧ s.lockDoIHold t l = 1
  · rw [if_pos hMine] at hRun
    obtain ⟨sys, hWakeup, hRest⟩ := bind_eq_ok.mp hRun
    cases hRest
    have hHolder : (s.lock l).holder = some t := ((lockDoIHold_eq_one s t l).mp hMine.2).1
    refine ⟨inv_of_wakeup h.sys hCur ?_ _ hWakeup, ?_⟩
    · intro a ha hNe
      apply ha.of_ne hNe
      · intro i _
        rfl
      · intro k hk
        exact Function.update_of_ne (ne_of_apply_ne _ hk) _ _
    · intro k
      by_cases hk : k = l
      · subst hk
        refine ⟨Or.inl ?_, fun u => ?_⟩
        · show (Function.update s.lock k _ k).held = 0
          rw [Function.update_self]
        · show ¬(t = u ∧ k = k) ∧ Holding u k s.log ↔ (Function.update s.lock k _ k).held = 1 ∧
            (Function.update s.lock k _ k).holder = some u
          rw [(h.locks k).holding, Function.update_self, hHolder]
          constructor
          · rintro ⟨hNot, -, hEq⟩
            exact absurd ⟨Option.some.inj hEq, rfl⟩ hNot
          · rintro ⟨hZero, -⟩
            cases hZero
      · refine (h.locks k).keep (Function.update_of_ne hk ..) fun u => ?_
        show ¬(t = u ∧ l = k) ∧ Holding u k s.log ↔ _
        simp [Ne.symm hk]
  · rw [if_neg hMine] at hRun
    cases hRun
    exact ⟨inv_of_splx h.sys hCur (fun _ => id) _, fun k => (h.locks k).keep rfl fun _ => Iff.rfl⟩

/-! ## Steps and runs -/

/-- **Step lemma.** -/
theorem Inv.step (h : s.Inv) {a : SynchAction τ ς κ α} (hStep : Step c s a s') : s'.Inv := by
  unfold Step Synch.step at hStep
  cases a with
  | sys a =>
    dsimp only at hStep
    split at hStep
    · rename_i hAllowed
      obtain ⟨x, hSys, hMap⟩ := Option.map_eq_some_iff.mp hStep
      cases x with
      | error e => cases hMap
      | ok sys =>
        cases hMap
        have hSleep : ∀ addr, a = .threadSleep addr → s.Unavailable addr := by
          rintro addr rfl
          cases addr with
          | sem i => cases hAllowed
          | lock l => cases hAllowed
          | other a => trivial
        exact ⟨h.sys.step hSleep (x := .ok sys) hSys,
          fun l => (h.locks l).keep rfl fun _ => Iff.rfl⟩
    · cases hStep
  | call f =>
    obtain ⟨t, hCur, hRest⟩ := Option.bind_eq_some_iff.mp hStep
    split at hRest
    · have hExec : s.exec c t f = .ok s' := Option.some.inj hRest
      cases f with
      | P i => exact h.P hCur hExec
      | V i => exact h.V hCur hExec
      | lockAcquire l => exact h.lockAcquire hCur hExec
      | lockRelease l => exact h.lockRelease hCur hExec
      | lockDoIHold l =>
        cases hExec
        exact h
    · cases hRest
  | loop =>
    obtain ⟨t, hCur, hRest⟩ := Option.bind_eq_some_iff.mp hStep
    split at hRest
    · cases hRest
    · exact h.loopP hCur (Option.some.inj hRest)
    · exact h.loopAcquire hCur (Option.some.inj hRest)

omit [DecidableEq ς] [DecidableEq κ] [DecidableEq α] in
theorem inv_boot (c : ThreadConfig (SynchAddr ς κ α)) (me : τ) (initialCount : ς → Int) :
    (boot c me initialCount).Inv where
  sys := ThreadSystem.inv_threadBootstrap c me
  locks l := by
    refine ⟨Or.inl rfl, fun t => ?_⟩
    simp [boot, Holding]

/-- **Run lemma.** -/
theorem inv_of_run {me : τ} {initialCount : ς → Int} {tr : List (SynchAction τ ς κ α)}
    (h : Run (Step c) (boot c me initialCount) tr s) : s.Inv :=
  h.invariant (inv_boot c me initialCount) fun _ _ _ hInv hStep => hInv.step hStep

/-- Thread 0 takes a lock and is preempted; thread 1 has to wait for it. -/
theorem exists_contended : ∃ s : Synch Nat Unit Unit Unit,
    Run (Step ⟨.other (), 100, 15, by decide⟩) (boot ⟨.other (), 100, 15, by decide⟩ 0 fun _ => 0)
      [.sys (.splx 0), .sys (.threadCreate 1), .sys .threadFork, .call (.lockAcquire ()), .loop,
        .sys .timer, .call (.lockAcquire ()), .loop] s ∧
      s.sys.sleepers = [1] ∧ (s.sys.thread 1).tSleepaddr = some (.lock ()) ∧
        s.lockDoIHold 0 () = 1 := by
  have hEnd : (List.foldlM (okStep (step ⟨.other (), 100, 15, by decide⟩))
      (boot ⟨.other (), 100, 15, by decide⟩ 0 fun _ => 0 : Synch Nat Unit Unit Unit)
      [.sys (.splx 0), .sys (.threadCreate 1), .sys .threadFork, .call (.lockAcquire ()), .loop,
        .sys .timer, .call (.lockAcquire ()), .loop]).map (fun s =>
          (s.sys.sleepers, (s.sys.thread 1).tSleepaddr, s.lockDoIHold 0 ())) =
      some ([1], some (.lock ()), 1) := by
    decide +kernel
  obtain ⟨s, hs, hFields⟩ := Option.map_eq_some_iff.mp hEnd
  simp only [Prod.mk.injEq] at hFields
  exact ⟨s, Run.of_okStep hs, hFields⟩

/-- **No wakeup is lost.** -/
theorem no_lost_wakeup {me : τ} {initialCount : ς → Int} {tr : List (SynchAction τ ς κ α)}
    (h : Run (Step c) (boot c me initialCount) tr s) {t : τ} (ht : t ∈ s.sys.sleepers) :
    (∀ i, (s.sys.thread t).tSleepaddr = some (.sem i) → s.count i = 0) ∧
      ∀ l, (s.sys.thread t).tSleepaddr = some (.lock l) → (s.lock l).held = 1 := by
  obtain ⟨a, hAddr, ha⟩ := (inv_of_run h).sys.placed.asleep t ht
  rw [hAddr]
  constructor
  · rintro i ⟨⟩
    exact ha
  · rintro l ⟨⟩
    exact ha

theorem no_lost_wakeup_contended : ∃ s : Synch Nat Unit Unit Unit,
    s.sys.sleepers = [1] ∧ (s.lock ()).held = 1 := by
  obtain ⟨s, hRun, hSleepers, hAddr, -⟩ := exists_contended
  exact ⟨s, hSleepers, (no_lost_wakeup hRun (t := 1) (by simp [hSleepers])).2 () hAddr⟩

end Synch

end Windborne.OS161
