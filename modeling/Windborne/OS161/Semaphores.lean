import Mathlib.Algebra.Group.Int.Defs
import Windborne.OS161.Suspension
import Windborne.OS161.SynchSafety

/-!
# Semaphores count

`P` takes one from the count only in the step in which it looks at it, so it does not matter
how many sleepers `V` wakes or who comes first. Here a thread may make any call outside of
`P` and `lock_acquire`: it may exit, and sleep and wake others at any address.
-/

namespace Windborne.OS161

open Library

variable {τ ς κ α : Type}

section

variable [DecidableEq ς]

def SynchEvent.isUp (i : ς) : SynchEvent τ ς κ → Bool
  | .up _ j => j = i
  | _ => false

def SynchEvent.isDown (i : ς) : SynchEvent τ ς κ → Bool
  | .down _ j => j = i
  | _ => false

/-- The increments of semaphore `i`. -/
def ups (i : ς) (log : List (SynchEvent τ ς κ)) : Nat := log.countP (·.isUp i)

/-- The calls of `P` that have taken one from semaphore `i`. -/
def downs (i : ς) (log : List (SynchEvent τ ς κ)) : Nat := log.countP (·.isDown i)

def SynchAction.isV (i : ς) : SynchAction τ ς κ α → Bool
  | .call (.V j) => j = i
  | _ => false

end

namespace Synch

/-- Thread `t` is inside `P` or `lock_acquire`. -/
def InLoop (pc : τ → SynchPc ς κ) (t : τ) : Prop := pc t ≠ .user

/-- The step belongs to a call of `P` or `V` on semaphore `i`. -/
def Uses (s : Synch τ ς κ α) (i : ς) : SynchAction τ ς κ α → Prop
  | .call (.P j) => j = i
  | .call (.V j) => j = i
  | .loop => ∃ t spl, s.sys.curthread = some t ∧ s.pc t = .inP i spl
  | _ => False

variable [DecidableEq τ] [DecidableEq ς] [DecidableEq κ] [DecidableEq α]

/-- Outside of `P` and `lock_acquire` a thread may do anything. -/
def Free (pc : SynchPc ς κ) : ThreadAction τ (SynchAddr ς κ α) → Prop
  | .timer => True
  | .device _ => True
  | _ => pc = .user

instance (pc : SynchPc ς κ) (a : ThreadAction τ (SynchAddr ς κ α)) : Decidable (Free pc a) :=
  match a with
  | .timer | .device _ => isTrue trivial
  | .splx _ | .threadYield | .threadSleep _ | .threadWakeup _ | .threadExit | .threadCreate _
  | .threadFork | .setVmspace _ | .setCwd _ => inferInstanceAs (Decidable (pc = .user))

/-- `step` for threads that may do anything outside of `P` and `lock_acquire`. -/
def freeStep (c : ThreadConfig (SynchAddr ς κ α)) (s : Synch τ ς κ α) :
    SynchAction τ ς κ α → Option (Except Assertion (Synch τ ς κ α))
  | .sys a =>
    if Free ((s.sys.curthread.map s.pc).getD .user) a then
      (s.sys.step c a).map fun x => x.map fun sys => { s with sys }
    else none
  | a => s.step c a

/-- The law of semaphore `i`, and what `P` and `V` need of the thread system. -/
structure Counted (initialCount : Int) (i : ς) (s : Synch τ ς κ α) : Prop where
  sys : s.sys.Inv fun _ => True
  settled : s.sys.Settled (InLoop s.pc)
  law : s.count i = initialCount + ups i s.log - downs i s.log
  nonneg : 0 ≤ s.count i

variable {c : ThreadConfig (SynchAddr ς κ α)} {s s' : Synch τ ς κ α} {t : τ} {i : ς}
  {initialCount : Int}

omit [DecidableEq τ] [DecidableEq κ] [DecidableEq α] in
/-- A step that leaves the count of semaphore `i` alone. -/
theorem Counted.keep (h : s.Counted initialCount i) (hSys : s'.sys.Inv fun _ => True)
    (hSettled : s'.sys.Settled (InLoop s'.pc)) (hCount : s'.count i = s.count i)
    (hUps : ups i s'.log = ups i s.log) (hDowns : downs i s'.log = downs i s.log) :
    s'.Counted initialCount i where
  sys := hSys
  settled := hSettled
  law := by
    rw [hCount, hUps, hDowns]
    exact h.law
  nonneg := by
    rw [hCount]
    exact h.nonneg

/-! ## The thread system under a call -/

section

variable {sys : ThreadSystem τ (SynchAddr ς κ α)} {pc : τ → SynchPc ς κ}

omit [DecidableEq ς] [DecidableEq κ] [DecidableEq α] in
/-- The interrupt level is up while a thread is in a loop. -/
theorem settled_update (h : sys.Settled (InLoop pc)) (hCur : sys.curthread = some t)
    {new : SynchPc ς κ} {newspl : Nat} (hSpl : new ≠ .user → newspl ≠ 0) :
    (sys.splx newspl).2.Settled (InLoop (Function.update pc t new)) := by
  apply h.splx hCur
  · intro v hv hIn
    rwa [InLoop, Function.update_of_ne hv] at hIn
  · intro hIn
    rw [InLoop, Function.update_self] at hIn
    exact hSpl hIn

omit [DecidableEq τ] in
/-- A thread outside of the loops wakes the sleepers at `addr`. -/
theorem settled_wakeup (hInv : sys.Inv fun _ => True) (h : sys.Settled (InLoop pc))
    (hCur : sys.curthread = some t) (hUser : pc t = .user) (addr : SynchAddr ς κ α) (spl : Nat) :
    ∃ sys', (sys.splhigh c).2.threadWakeup addr = .ok sys' ∧
      (sys'.splx spl).2.Inv (fun _ => True) ∧ (sys'.splx spl).2.Settled (InLoop pc) := by
  have hWakeup := ThreadSystem.threadWakeup_eq addr (sys.splhigh c).2
    (show c.splHigh ≠ 0 from Nat.ne_of_gt c.splHigh_pos)
  refine ⟨_, hWakeup, inv_of_wakeup hInv hCur (fun _ _ _ => trivial) spl hWakeup, ?_⟩
  have hHigh : (sys.splhigh c).2.Settled (InLoop pc) :=
    h.splx hCur (fun _ _ => id) fun hIn => absurd hUser hIn
  have hStays := (ThreadSystem.stays_threadWakeup (sys.splhigh c).2 addr).of_eq_ok hWakeup
  exact (hHigh.stays hStays).splx hCur (fun _ _ => id) fun hIn => absurd hUser hIn

omit [DecidableEq ς] [DecidableEq κ] [DecidableEq α] in
/-- A thread in a loop sleeps: no assertion fails. -/
theorem settled_sleep (hInv : sys.Inv fun _ => True) (h : sys.Settled (InLoop pc))
    (hCur : sys.curthread = some t) (hIn : pc t ≠ .user) (addr : SynchAddr ς κ α) :
    Post (sys.threadSleep addr t)
      (fun sys' => sys'.Inv (fun _ => True) ∧ sys'.Settled (InLoop pc)) fun _ => False := by
  obtain ⟨-, hFlag, hSpl⟩ := h.running t hCur
  have hPlaced : Post (sys.threadSleep addr t) _ _ := hInv.placed.threadSleep trivial hCur
  have hSettled := h.threadSleep addr hCur
  cases hSleep : sys.threadSleep addr t with
  | ok sys' => exact .ok ⟨hPlaced.of_eq_ok hSleep, hSettled.of_eq_ok hSleep⟩
  | error e =>
    rw [hSleep] at hPlaced
    rcases hPlaced with ⟨-, hZero⟩ | ⟨-, hNot⟩
    · exact absurd hZero (hSpl hIn)
    · exact absurd hFlag hNot

end

/-! ## Semaphores -/

omit [DecidableEq κ] [DecidableEq α] in
theorem Counted.P (h : s.Counted initialCount i) (hCur : s.sys.curthread = some t) (j : ς) :
    Post (s.P c t j) (fun s' => s'.Counted initialCount i ∧ ups i s'.log = ups i s.log)
      fun _ => False := by
  unfold Synch.P
  rw [if_neg (not_not.mpr (h.settled.running t hCur).2.1)]
  refine .ok ⟨h.keep (inv_of_splx h.sys hCur (fun _ => id) _) ?_ rfl rfl rfl, rfl⟩
  exact settled_update h.settled hCur fun _ => Nat.ne_of_gt c.splHigh_pos

omit [DecidableEq κ] [DecidableEq α] in
/-- The loop of `P` fails on no semaphore that obeys the law. -/
theorem Counted.loopP (h : s.Counted initialCount i) (hCur : s.sys.curthread = some t) {j : ς}
    {spl : Nat} (hPc : s.pc t = .inP j spl) :
    Post (s.loopP t j spl) (fun s' => s'.Counted initialCount i ∧ ups i s'.log = ups i s.log)
      fun _ => j ≠ i := by
  have hIn : s.pc t ≠ .user := by
    rw [hPc]
    nofun
  unfold Synch.loopP
  by_cases hZero : s.count j = 0
  · rw [if_pos hZero]
    have hSleep := (settled_sleep h.sys h.settled hCur hIn (.sem j)).weaken
      (fun _ hFalse => hFalse.elim : ∀ e : Assertion, False → j ≠ i)
    refine hSleep.bind ?_
    rintro sys ⟨hInv, hSettled⟩
    exact .ok ⟨h.keep hInv hSettled rfl rfl rfl, rfl⟩
  rw [if_neg hZero]
  split
  · rename_i hNegative
    refine .error ?_
    rintro rfl
    have hNonneg := h.nonneg
    omega
  · rename_i hPositive
    have hInv := inv_of_splx h.sys hCur (fun _ => id) spl
    have hSettled : (s.sys.splx spl).2.Settled (InLoop (Function.update s.pc t .user)) :=
      settled_update h.settled hCur fun hNe => absurd rfl hNe
    by_cases hj : j = i
    · subst hj
      have hDowns : downs j (.down t j :: s.log) = downs j s.log + 1 := by
        simp [downs, SynchEvent.isDown]
      have hUps : ups j (.down t j :: s.log) = ups j s.log := by
        simp [ups, SynchEvent.isUp]
      refine .ok ⟨⟨hInv, hSettled, ?_, ?_⟩, hUps⟩
      · show Function.update s.count j (s.count j - 1) j =
          initialCount + ups j (.down t j :: s.log) - downs j (.down t j :: s.log)
        rw [Function.update_self, hDowns, hUps, h.law]
        omega
      · show 0 ≤ Function.update s.count j (s.count j - 1) j
        rw [Function.update_self]
        omega
    · refine .ok ⟨h.keep hInv hSettled (Function.update_of_ne (Ne.symm hj) ..) ?_ ?_, ?_⟩
      · simp [ups, SynchEvent.isUp]
      · simp [downs, SynchEvent.isDown, hj]
      · simp [ups, SynchEvent.isUp]

theorem int32_of_lt {x : Int} (hNonneg : 0 ≤ x) (hBound : x < 2 ^ 31) : int32 x = x :=
  Int.bmod_eq_of_le (by omega) (by omega)

omit [DecidableEq τ] in
theorem Counted.V (h : s.Counted initialCount i) (hCur : s.sys.curthread = some t)
    (hUser : s.pc t = .user) {j : ς}
    (hBound : j = i → initialCount + (ups i s.log + 1 : Nat) < 2 ^ 31) :
    Post (s.V c t j) (fun s' => s'.Counted initialCount i ∧
      ups i s'.log = ups i s.log + if j = i then 1 else 0) fun _ => j ≠ i := by
  obtain ⟨sys, hWakeup, hInv, hSettled⟩ := settled_wakeup (c := c) h.sys h.settled hCur hUser
    (.sem j) (s.sys.splhigh c).1
  unfold Synch.V
  dsimp only
  by_cases hj : j = i
  · subst hj
    have hLaw := h.law
    have hNonneg := h.nonneg
    have hBound := hBound rfl
    rw [int32_of_lt (by omega) (by omega), if_neg (by omega), hWakeup, ok_bind, if_pos rfl]
    have hUps : ups j (.up t j :: s.log) = ups j s.log + 1 := by
      simp [ups, SynchEvent.isUp]
    have hDowns : downs j (.up t j :: s.log) = downs j s.log := by
      simp [downs, SynchEvent.isDown]
    refine .ok ⟨⟨hInv, hSettled, ?_, ?_⟩, hUps⟩
    · show Function.update s.count j (s.count j + 1) j =
        initialCount + ups j (.up t j :: s.log) - downs j (.up t j :: s.log)
      rw [Function.update_self, hDowns, hUps]
      omega
    · show 0 ≤ Function.update s.count j (s.count j + 1) j
      rw [Function.update_self]
      omega
  · rw [if_neg hj]
    split
    · exact .error hj
    · rw [hWakeup, ok_bind]
      refine .ok ⟨h.keep hInv hSettled (Function.update_of_ne (Ne.symm hj) ..) ?_ ?_, ?_⟩
      · simp [ups, SynchEvent.isUp, hj]
      · simp [downs, SynchEvent.isDown]
      · simp [ups, SynchEvent.isUp, hj]

/-! ## Locks -/

omit [DecidableEq κ] [DecidableEq α] in
theorem Counted.lockAcquire (h : s.Counted initialCount i) (hCur : s.sys.curthread = some t)
    (l : κ) : Post (s.lockAcquire c t l)
      (fun s' => s'.Counted initialCount i ∧ ups i s'.log = ups i s.log) fun _ => False := by
  refine .ok ⟨h.keep (inv_of_splx h.sys hCur (fun _ => id) _) ?_ rfl rfl rfl, rfl⟩
  exact settled_update h.settled hCur fun _ => Nat.ne_of_gt c.splHigh_pos

omit [DecidableEq α] in
theorem Counted.loopAcquire (h : s.Counted initialCount i) (hCur : s.sys.curthread = some t)
    {l : κ} {spl : Nat} (hPc : s.pc t = .inAcquire l spl) :
    Post (s.loopAcquire t l spl)
      (fun s' => s'.Counted initialCount i ∧ ups i s'.log = ups i s.log) fun _ => False := by
  have hIn : s.pc t ≠ .user := by
    rw [hPc]
    nofun
  unfold Synch.loopAcquire
  split
  · refine (settled_sleep h.sys h.settled hCur hIn (.lock l)).bind ?_
    rintro sys ⟨hInv, hSettled⟩
    exact .ok ⟨h.keep hInv hSettled rfl rfl rfl, rfl⟩
  · refine .ok ⟨h.keep (inv_of_splx h.sys hCur (fun _ => id) spl) ?_ rfl ?_ ?_, ?_⟩
    · exact settled_update h.settled hCur fun hNe => absurd rfl hNe
    · simp [ups, SynchEvent.isUp]
    · simp [downs, SynchEvent.isDown]
    · simp [ups, SynchEvent.isUp]

theorem Counted.lockRelease (h : s.Counted initialCount i) (hCur : s.sys.curthread = some t)
    (hUser : s.pc t = .user) (l : κ) :
    Post (s.lockRelease c t l)
      (fun s' => s'.Counted initialCount i ∧ ups i s'.log = ups i s.log) fun _ => False := by
  unfold Synch.lockRelease
  dsimp only
  split
  · obtain ⟨sys, hWakeup, hInv, hSettled⟩ := settled_wakeup (c := c) h.sys h.settled hCur hUser
      (.lock l) (s.sys.splhigh c).1
    rw [hWakeup, ok_bind]
    refine .ok ⟨h.keep hInv hSettled rfl ?_ ?_, ?_⟩
    · simp [ups, SynchEvent.isUp]
    · simp [downs, SynchEvent.isDown]
    · simp [ups, SynchEvent.isUp]
  · refine .ok ⟨h.keep (inv_of_splx h.sys hCur (fun _ => id) _) ?_ rfl rfl rfl, rfl⟩
    exact h.settled.splx hCur (fun _ _ => id) fun hIn => absurd hUser hIn

/-! ## Steps and runs -/

theorem Counted.exec (h : s.Counted initialCount i) (hCur : s.sys.curthread = some t)
    (hUser : s.pc t = .user) (f : SynchCall ς κ)
    (hBound : f = .V i → initialCount + (ups i s.log + 1 : Nat) < 2 ^ 31) :
    Post (s.exec c t f) (fun s' => s'.Counted initialCount i ∧ ups i s'.log = ups i s.log +
      if (SynchAction.call f : SynchAction τ ς κ α).isV i then 1 else 0)
      fun _ => ¬s.Uses i (.call f) := by
  cases f with
  | P j => exact (h.P hCur j).weaken fun _ => False.elim
  | V j =>
    refine ((h.V hCur hUser fun hj => hBound (congrArg _ hj)).mono ?_)
    rintro s' ⟨hCounted, hUps⟩
    refine ⟨hCounted, ?_⟩
    rw [hUps]
    simp [SynchAction.isV]
  | lockAcquire l => exact (h.lockAcquire hCur l).weaken fun _ => False.elim
  | lockRelease l => exact (h.lockRelease hCur hUser l).weaken fun _ => False.elim
  | lockDoIHold l => exact .ok ⟨h, rfl⟩

theorem Counted.sysStep (h : s.Counted initialCount i)
    {a : ThreadAction τ (SynchAddr ς κ α)} (hFree : Free ((s.sys.curthread.map s.pc).getD .user) a)
    {x : Except Assertion (ThreadSystem τ (SynchAddr ς κ α))} (hStep : s.sys.step c a = some x) :
    Post x (fun sys => ({ s with sys } : Synch τ ς κ α).Counted initialCount i) fun _ => True := by
  have hOutside : ∀ cur, s.sys.curthread = some cur → a ≠ .timer → (∀ addr, a ≠ .device addr) →
      ¬InLoop s.pc cur := by
    intro cur hCur hTimer hDevice hIn
    rw [hCur] at hFree
    unfold Free at hFree
    split at hFree
    · exact hTimer rfl
    · exact hDevice _ rfl
    · exact hIn hFree
  have hInv := h.sys.step (fun _ _ => trivial) hStep
  have hSettled := h.settled.step h.sys.placed hOutside hStep
  cases x with
  | error e => exact .error trivial
  | ok sys => exact .ok (h.keep hInv hSettled rfl rfl rfl)

/-- **Step lemma.** -/
theorem Counted.step (h : s.Counted initialCount i) {a : SynchAction τ ς κ α}
    (hBound : a.isV i → initialCount + (ups i s.log + 1 : Nat) < 2 ^ 31)
    {x : Except Assertion (Synch τ ς κ α)} (hStep : s.freeStep c a = some x) :
    Post x (fun s' => s'.Counted initialCount i ∧
      ups i s'.log = ups i s.log + if a.isV i then 1 else 0) fun _ => ¬s.Uses i a := by
  unfold freeStep at hStep
  cases a with
  | sys a =>
    dsimp only at hStep
    split at hStep
    · rename_i hFree
      obtain ⟨y, hSys, hMap⟩ := Option.map_eq_some_iff.mp hStep
      have hAfter := h.sysStep hFree hSys
      cases y with
      | error e =>
        cases hMap
        exact .error id
      | ok sys =>
        cases hMap
        exact .ok ⟨hAfter, rfl⟩
    · cases hStep
  | call f =>
    obtain ⟨t, hCur, hRest⟩ := Option.bind_eq_some_iff.mp hStep
    split at hRest
    · rename_i hUser
      cases hRest
      apply h.exec hCur hUser.1
      rintro rfl
      exact hBound (by simp [SynchAction.isV])
    · cases hRest
  | loop =>
    obtain ⟨t, hCur, hRest⟩ := Option.bind_eq_some_iff.mp hStep
    split at hRest
    · cases hRest
    · rename_i j spl hPc
      cases hRest
      refine (h.loopP hCur hPc).weaken ?_
      rintro - hj ⟨t', spl', hCur', hPc'⟩
      cases hCur.symm.trans hCur'
      cases hPc.symm.trans hPc'
      exact hj rfl
    · rename_i l spl hPc
      cases hRest
      exact (h.loopAcquire hCur hPc).weaken fun _ => False.elim

omit [DecidableEq κ] [DecidableEq α] in
theorem counted_boot (c : ThreadConfig (SynchAddr ς κ α)) (me : τ) {initialCount : ς → Int}
    (hInitial : 0 ≤ initialCount i) : (boot c me initialCount).Counted (initialCount i) i where
  sys := ThreadSystem.inv_threadBootstrap c me
  settled := ThreadSystem.settled_threadBootstrap c me fun _ hIn => hIn rfl
  law := by simp [boot, ups, downs]
  nonneg := hInitial

end Synch

end Windborne.OS161
