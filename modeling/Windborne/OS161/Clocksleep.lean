import Windborne.Library.Runs
import Windborne.OS161.SleepTable

/-!
# `clocksleep`

A call sleeps at `lbolt` once for each second. Every round needs one clock tick at which the
sleepers there are woken, and such ticks are `HZ` apart; the first one may come at once. Threads
may sleep and wake each other at other addresses, and sleep at `lbolt` outside of `clocksleep`.
-/

namespace Windborne.OS161

open Library

/-- A call that has not returned: the variables `num_secs` and `s`, and whether the thread is
inside `thread_sleep`. The call was made with `secs` after the ticks `calledAt`. -/
structure SleepCall where
  numSecs : Int
  s : Nat
  inside : Bool
  secs : Int
  calledAt : List Bool

/-- A call that has returned after the ticks `returnedAt`. -/
structure SleepReturn (τ : Type) where
  thread : τ
  secs : Int
  calledAt : List Bool
  returnedAt : List Bool

/-- The thread system with the calls of `clocksleep`. `ticks` are the calls of `hardclock`, the
newest first, each with whether it woke the sleepers at `lbolt`. -/
structure Clock (τ α : Type) where
  sys : ThreadSystem τ α
  pending : τ → Option SleepCall
  ticks : List Bool
  returned : List (SleepReturn τ)

inductive ClockAction (τ α : Type) where
  | sys (a : ThreadAction τ α)
  | clocksleep (numSecs : Int)
  | loop

namespace Clock

variable {τ α : Type} [DecidableEq τ] [DecidableEq α]

/-- `clocksleep` up to its loop. -/
def clocksleep (c : ThreadConfig α) (s : Clock τ α) (t : τ) (numSecs : Int) : Clock τ α :=
  let (spl, sys) := s.sys.splhigh c
  { s with
    sys
    pending := Function.update s.pending t
      (some { numSecs, s := spl, inside := false, secs := numSecs, calledAt := s.ticks }) }

/-- From the head of the loop, or from where `thread_sleep` returns, to the next sleep or to the
end. -/
def loopSleep (c : ThreadConfig α) (s : Clock τ α) (t : τ) (call : SleepCall) :
    Except Assertion (Clock τ α) :=
  let numSecs := if call.inside then call.numSecs - 1 else call.numSecs
  if numSecs > 0 then do
    let sys ← s.sys.threadSleep c.lbolt t
    return { s with
      sys, pending := Function.update s.pending t (some { call with numSecs, inside := true }) }
  else .ok { s with
    sys := (s.sys.splx call.s).2
    pending := Function.update s.pending t none
    returned := ⟨t, call.secs, call.calledAt, s.ticks⟩ :: s.returned }

/-- The actions of the thread system when the current thread is in `clocksleep` or not. Nobody
but the clock wakes the sleepers at `lbolt`. -/
def Allowed (c : ThreadConfig α) (inClocksleep : Bool) : ThreadAction τ α → Prop
  | .timer => True
  | .device addr => addr ≠ c.lbolt
  | .threadWakeup addr => inClocksleep = false ∧ addr ≠ c.lbolt
  | _ => inClocksleep = false

instance (c : ThreadConfig α) (inClocksleep : Bool) (a : ThreadAction τ α) :
    Decidable (Allowed c inClocksleep a) := by
  unfold Allowed
  split <;> infer_instance

def ticksAfter (c : ThreadConfig α) (s : Clock τ α) : ThreadAction τ α → List Bool
  | .timer => s.sys.wakesLbolt c :: s.ticks
  | _ => s.ticks

/-- One step; `none` when the action cannot happen. -/
def step (c : ThreadConfig α) (s : Clock τ α) :
    ClockAction τ α → Option (Except Assertion (Clock τ α))
  | .sys a =>
    if Allowed c (s.sys.curthread.any fun t => (s.pending t).isSome) a then
      (s.sys.step c a).map fun x => x.map fun sys => { s with sys, ticks := s.ticksAfter c a }
    else none
  | .clocksleep numSecs => do
    let t ← s.sys.curthread
    if s.pending t = none ∧ (s.sys.thread t).newguy = none then
      some (.ok (s.clocksleep c t numSecs))
    else none
  | .loop => do
    let t ← s.sys.curthread
    let call ← s.pending t
    some (s.loopSleep c t call)

def Step (c : ThreadConfig α) (s : Clock τ α) (a : ClockAction τ α) (t : Clock τ α) : Prop :=
  s.step c a = some (.ok t)

/-- After `thread_bootstrap`, with any value in `lbolt_counter`. -/
def boot (c : ThreadConfig α) (me : τ) (lboltCounter : Nat) : Clock τ α where
  sys := { ThreadSystem.threadBootstrap c me with lboltCounter }
  pending _ := none
  ticks := []
  returned := []

/-! ## The invariant -/

/-- The ticks at which `lbolt` was woken. -/
def wakes (ticks : List Bool) : Nat := ticks.count true

/-- A call waits for its next wakeup, or has had it. -/
inductive Progress (c : ThreadConfig α) (s : Clock τ α) (t : τ) (call : SleepCall) : Prop
  | fresh (hInside : call.inside = false) (hSecs : call.numSecs = call.secs)
  | asleep (hInside : call.inside = true) (hTable : (t, some c.lbolt) ∈ s.sys.sleeping)
      (hWakes : call.secs + wakes call.calledAt ≤ call.numSecs + wakes s.ticks)
  | woken (hInside : call.inside = true)
      (hWakes : call.secs + 1 + wakes call.calledAt ≤ call.numSecs + wakes s.ticks)

/-- At every time so far the wakeups and the counter agree with the ticks since the start, at
which the counter was `start`. -/
structure Inv (c : ThreadConfig α) (start : Nat) (s : Clock τ α) : Prop where
  sys : s.sys.Inv fun _ => True
  counter : s.sys.lboltCounter < c.hz
  counted : start + s.ticks.length = c.hz * wakes s.ticks + s.sys.lboltCounter
  earlier : ∀ ticks, ticks <:+ s.ticks →
    ∃ counter < c.hz, start + ticks.length = c.hz * wakes ticks + counter
  pending : ∀ t call, s.pending t = some call → call.calledAt <:+ s.ticks ∧ s.Progress c t call
  returned : ∀ r ∈ s.returned, r.calledAt <:+ r.returnedAt ∧ r.returnedAt <:+ s.ticks ∧
    r.secs + wakes r.calledAt ≤ wakes r.returnedAt

variable {c : ThreadConfig α} {s s' : Clock τ α} {start : Nat}

theorem wakes_le_of_suffix {older ticks : List Bool} (h : older <:+ ticks) :
    wakes older ≤ wakes ticks := h.sublist.count_le true

omit [DecidableEq τ] in
/-- The table keeps its entries at `lbolt` when nobody wakes them. -/
theorem mem_sleepingAfter {sys : ThreadSystem τ α} {inClocksleep : Bool} {a : ThreadAction τ α}
    (hAllowed : Allowed c inClocksleep a) (hTimer : a = .timer → sys.wakesLbolt c = false) {t : τ}
    (h : (t, some c.lbolt) ∈ sys.sleeping) : (t, some c.lbolt) ∈ sys.sleepingAfter c a := by
  have hKeep : ∀ addr, addr ≠ c.lbolt →
      (t, some c.lbolt) ∈ ThreadSystem.wakeAt addr sys.sleeping := by
    intro addr hAddr
    refine List.mem_filter.mpr ⟨h, decide_eq_true ?_⟩
    exact fun hEq => hAddr (Option.some.inj hEq).symm
  unfold ThreadSystem.sleepingAfter
  split
  · exact List.mem_append_left _ h
  · exact hKeep _ hAllowed.2
  · exact hKeep _ hAllowed
  · rw [hTimer rfl]
    exact h
  · exact h

omit [DecidableEq τ] [DecidableEq α] in
/-- A call goes on as the table and the ticks do. -/
theorem Progress.keep {t : τ} {call : SleepCall} (h : s.Progress c t call)
    (hTicks : wakes s.ticks ≤ wakes s'.ticks)
    (hTable : (t, some c.lbolt) ∈ s.sys.sleeping → (t, some c.lbolt) ∈ s'.sys.sleeping ∨
      wakes s.ticks < wakes s'.ticks) : s'.Progress c t call := by
  cases h with
  | fresh hInside hSecs => exact .fresh hInside hSecs
  | asleep hInside hIn hWakes =>
    rcases hTable hIn with hIn' | hMore
    · exact .asleep hInside hIn' (by omega)
    · exact .woken hInside (by omega)
  | woken hInside hWakes => exact .woken hInside (by omega)

/-! ## Steps -/

omit [DecidableEq τ] [DecidableEq α] in
/-- A step without a tick. -/
theorem Inv.keep (h : s.Inv c start) (hSys : s'.sys.Inv fun _ => True)
    (hCounter : s'.sys.lboltCounter = s.sys.lboltCounter) (hTicks : s'.ticks = s.ticks)
    (hPending : ∀ t call, s'.pending t = some call →
      call.calledAt <:+ s.ticks ∧ s'.Progress c t call)
    (hReturned : ∀ r ∈ s'.returned, r.calledAt <:+ r.returnedAt ∧ r.returnedAt <:+ s.ticks ∧
      r.secs + wakes r.calledAt ≤ wakes r.returnedAt) : s'.Inv c start where
  sys := hSys
  counter := by
    rw [hCounter]
    exact h.counter
  counted := by
    rw [hCounter, hTicks]
    exact h.counted
  earlier := by
    rw [hTicks]
    exact h.earlier
  pending := by
    rw [hTicks]
    exact hPending
  returned := by
    rw [hTicks]
    exact hReturned

omit [DecidableEq τ] in
/-- The ticks up to now, when one more has come. -/
theorem Inv.counted_tick (h : s.Inv c start) (hSleeps : s.sys.Sleeps c .timer s'.sys)
    (hTicks : s'.ticks = s.sys.wakesLbolt c :: s.ticks) :
    s'.sys.lboltCounter < c.hz ∧
      start + s'.ticks.length = c.hz * wakes s'.ticks + s'.sys.lboltCounter := by
  have hCounter := h.counter
  have hCounted := h.counted
  rw [hSleeps.lboltCounter, hTicks]
  unfold ThreadSystem.lboltCounterAfter wakes at *
  dsimp only
  cases hWakes : s.sys.wakesLbolt c with
  | false =>
    have hLow : ¬s.sys.lboltCounter + 1 ≥ c.hz := of_decide_eq_false hWakes
    rw [List.count_cons_of_ne (by simp), List.length_cons]
    simp only [Bool.false_eq_true, if_false]
    omega
  | true =>
    have hHigh : s.sys.lboltCounter + 1 ≥ c.hz := of_decide_eq_true hWakes
    rw [List.count_cons_self, List.length_cons, Nat.mul_add]
    simp only [if_true]
    omega

omit [DecidableEq τ] in
/-- A tick. -/
theorem Inv.tick (h : s.Inv c start) (hSys : s'.sys.Inv fun _ => True)
    (hSleeps : s.sys.Sleeps c .timer s'.sys) (hTicks : s'.ticks = s.sys.wakesLbolt c :: s.ticks)
    (hPending : s'.pending = s.pending) (hReturned : s'.returned = s.returned) :
    s'.Inv c start := by
  have hOlder : s.ticks <:+ s'.ticks := by
    rw [hTicks]
    exact List.suffix_cons _ _
  have hNow := h.counted_tick hSleeps hTicks
  refine ⟨hSys, hNow.1, hNow.2, ?_, ?_, ?_⟩
  · intro ticks hSuffix
    rw [hTicks] at hSuffix
    rcases List.suffix_cons_iff.mp hSuffix with rfl | hOld
    · rw [← hTicks]
      exact ⟨_, hNow⟩
    · exact h.earlier ticks hOld
  · intro t call hCall
    rw [hPending] at hCall
    obtain ⟨hSuffix, hProgress⟩ := h.pending t call hCall
    refine ⟨hSuffix.trans hOlder, hProgress.keep (wakes_le_of_suffix hOlder) ?_⟩
    intro hIn
    cases hWakes : s.sys.wakesLbolt c with
    | false =>
      left
      rw [hSleeps.sleeping]
      have hAllowed : Allowed c false (.timer : ThreadAction τ α) := trivial
      exact mem_sleepingAfter hAllowed (fun _ => hWakes) hIn
    | true =>
      right
      rw [hTicks, hWakes]
      unfold wakes
      rw [List.count_cons_self]
      exact Nat.lt_succ_self _
  · intro r hr
    rw [hReturned] at hr
    obtain ⟨hCalled, hSuffix, hWakes⟩ := h.returned r hr
    exact ⟨hCalled, hSuffix.trans hOlder, hWakes⟩

omit [DecidableEq τ] [DecidableEq α] in
theorem Progress.of_same {t : τ} {call : SleepCall} (h : s.Progress c t call)
    (hTicks : s'.ticks = s.ticks)
    (hTable : (t, some c.lbolt) ∈ s.sys.sleeping → (t, some c.lbolt) ∈ s'.sys.sleeping) :
    s'.Progress c t call := by
  apply h.keep
  · exact Nat.le_of_eq (congrArg wakes hTicks.symm)
  · exact fun hIn => Or.inl (hTable hIn)

theorem Inv.sysStep (h : s.Inv c start) {a : ThreadAction τ α} {inClocksleep : Bool}
    (hAllowed : Allowed c inClocksleep a) {sys : ThreadSystem τ α}
    (hStep : s.sys.step c a = some (.ok sys)) :
    Inv c start { s with sys, ticks := s.ticksAfter c a } := by
  have hSys : sys.Inv fun _ => True := h.sys.step (fun _ _ => trivial) (x := .ok sys) hStep
  have hSleeps : s.sys.Sleeps c a sys := h.sys.sleeps_step (x := .ok sys) hStep
  by_cases hTimer : a = .timer
  · subst hTimer
    exact h.tick hSys hSleeps rfl rfl rfl
  · have hTicks : s.ticksAfter c a = s.ticks := by
      unfold ticksAfter
      split
      · exact absurd rfl hTimer
      · rfl
    have hCounter : s.sys.lboltCounterAfter c a = s.sys.lboltCounter := by
      unfold ThreadSystem.lboltCounterAfter
      split
      · exact absurd rfl hTimer
      · rfl
    refine h.keep hSys (hSleeps.lboltCounter.trans hCounter) hTicks ?_ h.returned
    intro t call hCall
    obtain ⟨hSuffix, hProgress⟩ := h.pending t call hCall
    refine ⟨hSuffix, hProgress.of_same hTicks ?_⟩
    intro hIn
    show _ ∈ sys.sleeping
    rw [hSleeps.sleeping]
    exact mem_sleepingAfter hAllowed (fun hEq => absurd hEq hTimer) hIn

omit [DecidableEq α] in
/-- The other calls go on when one is entered or changed. -/
theorem Inv.pending_update (h : s.Inv c start) {t : τ} {new : Option SleepCall}
    (hTicks : s'.ticks = s.ticks) (hPending : s'.pending = Function.update s.pending t new)
    (hTable : ∀ u, (u, some c.lbolt) ∈ s.sys.sleeping → (u, some c.lbolt) ∈ s'.sys.sleeping)
    (hNew : ∀ call ∈ new, call.calledAt <:+ s.ticks ∧ s'.Progress c t call) (u : τ)
    (call : SleepCall) (hCall : s'.pending u = some call) :
    call.calledAt <:+ s.ticks ∧ s'.Progress c u call := by
  rw [hPending] at hCall
  by_cases hu : u = t
  · subst hu
    rw [Function.update_self] at hCall
    exact hNew call hCall
  · rw [Function.update_of_ne hu] at hCall
    obtain ⟨hSuffix, hProgress⟩ := h.pending u call hCall
    exact ⟨hSuffix, hProgress.of_same hTicks (hTable u)⟩

omit [DecidableEq α] in
theorem Inv.clocksleep (h : s.Inv c start) {t : τ} (hCur : s.sys.curthread = some t)
    (numSecs : Int) : (s.clocksleep c t numSecs).Inv c start := by
  have hSys : (s.clocksleep c t numSecs).sys.Inv fun _ => True :=
    ThreadSystem.inv_of_placed (h.sys.placed.withRegisters _ _ _ _) hCur
  refine h.keep hSys rfl rfl ?_ h.returned
  refine h.pending_update rfl rfl (fun _ => id) ?_
  intro call hMem
  cases hMem
  exact ⟨List.suffix_refl _, .fresh rfl rfl⟩

omit [DecidableEq τ] [DecidableEq α] in
/-- The thread that runs is woken, and its call is as far as the wakeups. -/
theorem Inv.running (h : s.Inv c start) {t : τ} (hCur : s.sys.curthread = some t)
    {call : SleepCall} (hCall : s.pending t = some call) :
    call.secs + wakes call.calledAt ≤
      (if call.inside then call.numSecs - 1 else call.numSecs) + wakes s.ticks := by
  obtain ⟨hSuffix, hProgress⟩ := h.pending t call hCall
  have hWakes := wakes_le_of_suffix hSuffix
  cases hProgress with
  | fresh hInside hSecs =>
    rw [hInside]
    simp only [Bool.false_eq_true, if_false]
    omega
  | asleep hInside hIn hBound =>
    obtain ⟨u, hSleeps, hEq⟩ := List.mem_map.mp hIn
    rw [(Prod.mk.inj hEq).1] at hSleeps
    exact absurd hSleeps (h.sys.placed.awake hCur)
  | woken hInside hBound =>
    rw [hInside]
    simp only [if_true]
    omega

omit [DecidableEq α] in
theorem Inv.loopSleep (h : s.Inv c start) {t : τ} (hCur : s.sys.curthread = some t)
    {call : SleepCall} (hCall : s.pending t = some call) :
    Post (s.loopSleep c t call) (Inv c start) fun _ => True := by
  have hSuffix := (h.pending t call hCall).1
  have hBound := h.running hCur hCall
  unfold Clock.loopSleep
  dsimp only
  generalize (if call.inside = true then call.numSecs - 1 else call.numSecs) = numSecs at *
  by_cases hMore : numSecs > 0
  · rw [if_pos hMore]
    have hSleep := (h.sys.placed.sleeping_threadSleep c.lbolt hCur).and
      (h.sys.placed.threadSleep trivial hCur)
    refine hSleep.bind fun sys hSys => .ok ?_
    obtain ⟨⟨hTable, hCounter⟩, hInv⟩ := hSys
    refine h.keep hInv hCounter rfl ?_ h.returned
    refine h.pending_update rfl rfl ?_ ?_
    · intro u hIn
      show _ ∈ sys.sleeping
      rw [hTable]
      exact List.mem_append_left _ hIn
    · intro call' hMem
      cases hMem
      refine ⟨hSuffix, .asleep rfl ?_ hBound⟩
      show _ ∈ sys.sleeping
      rw [hTable]
      exact List.mem_append_right _ List.mem_cons_self
  · rw [if_neg hMore]
    have hSys : (s.sys.splx call.s).2.Inv fun _ => True :=
      ThreadSystem.inv_of_placed (h.sys.placed.withRegisters _ _ _ _) hCur
    refine .ok (h.keep hSys rfl rfl ?_ ?_)
    · refine h.pending_update rfl rfl (fun _ => id) ?_
      intro call' hMem
      cases hMem
    · intro r hr
      rcases List.mem_cons.mp hr with rfl | hOld
      · refine ⟨hSuffix, List.suffix_refl _, ?_⟩
        show call.secs + wakes call.calledAt ≤ wakes s.ticks
        omega
      · exact h.returned r hOld

/-- **Step lemma.** -/
theorem Inv.step (h : s.Inv c start) {a : ClockAction τ α} (hStep : Step c s a s') :
    s'.Inv c start := by
  cases a with
  | sys a =>
    unfold Step Clock.step at hStep
    dsimp only at hStep
    split at hStep
    · rename_i hAllowed
      obtain ⟨x, hx, hMap⟩ := Option.map_eq_some_iff.mp hStep
      cases x with
      | error e => cases hMap
      | ok sys =>
        cases hMap
        exact h.sysStep hAllowed hx
    · cases hStep
  | clocksleep numSecs =>
    obtain ⟨t, hCur, hRest⟩ := Option.bind_eq_some_iff.mp hStep
    split at hRest
    · cases hRest
      exact h.clocksleep hCur numSecs
    · cases hRest
  | loop =>
    obtain ⟨t, hCur, hRest⟩ := Option.bind_eq_some_iff.mp hStep
    obtain ⟨call, hCall, hLoop⟩ := Option.bind_eq_some_iff.mp hRest
    have hPost := h.loopSleep hCur hCall
    rw [Option.some.inj hLoop] at hPost
    exact hPost

omit [DecidableEq α] in
theorem inv_boot (c : ThreadConfig α) (me : τ) {lboltCounter : Nat} (hStart : lboltCounter < c.hz) :
    (boot c me lboltCounter).Inv c lboltCounter where
  sys := by
    have hBoot : (ThreadSystem.threadBootstrap c me).Inv fun _ => True :=
      ThreadSystem.inv_threadBootstrap c me
    exact ThreadSystem.inv_of_placed (hBoot.placed.withRegisters _ _ _ _) rfl
  counter := hStart
  counted := by
    show lboltCounter + 0 = c.hz * 0 + lboltCounter
    rw [Nat.mul_zero, Nat.zero_add, Nat.add_zero]
  earlier ticks hSuffix := by
    rw [List.suffix_nil.mp hSuffix]
    exact ⟨lboltCounter, hStart, by simp [wakes]⟩
  pending _ _ hCall := by cases hCall
  returned _ hr := by cases hr

/-- **Run lemma.** -/
theorem inv_of_run {me : τ} {lboltCounter : Nat} (hStart : lboltCounter < c.hz)
    {tr : List (ClockAction τ α)} (h : Run (Step c) (boot c me lboltCounter) tr s) :
    s.Inv c lboltCounter :=
  h.invariant (inv_boot c me hStart) fun _ _ _ hInv hStep => hInv.step hStep

/-! ## Results -/

/-- A tick takes the sleepers at `lbolt` from the table, or leaves the table as it is. -/
theorem Inv.sleeping_timer (h : s.Inv c start) (hStep : Step c s (.sys .timer) s') :
    ∃ woken, s'.ticks = woken :: s.ticks ∧ s'.sys.sleeping =
      if woken = true then ThreadSystem.wakeAt c.lbolt s.sys.sleeping else s.sys.sleeping := by
  unfold Step Clock.step at hStep
  dsimp only at hStep
  split at hStep
  · obtain ⟨x, hx, hMap⟩ := Option.map_eq_some_iff.mp hStep
    cases x with
    | error e => cases hMap
    | ok sys =>
      cases hMap
      have hSleeps : s.sys.Sleeps c .timer sys := h.sys.sleeps_step (x := .ok sys) hx
      exact ⟨s.sys.wakesLbolt c, rfl, hSleeps.sleeping⟩
  · cases hStep

/-- **`clocksleep` never returns early**, and of any `HZ` consecutive ticks exactly one wakes the
sleepers at `lbolt`: the next tick, marked with whether it does, takes them from the table of
sleepers or leaves the table. -/
theorem clocksleep_not_early {me : τ} {lboltCounter : Nat} (hStart : lboltCounter < c.hz)
    {tr : List (ClockAction τ α)} (h : Run (Step c) (boot c me lboltCounter) tr s) :
    (∀ r ∈ s.returned, r.calledAt <:+ r.returnedAt ∧
      (r.calledAt.length : Int) + (r.secs - 1) * c.hz + 1 ≤ r.returnedAt.length) ∧
    (∀ newer window older, s.ticks = newer ++ (window ++ older) → window.length = c.hz →
      window.count true = 1) ∧
    ∀ s', Step c s (.sys .timer) s' → ∃ woken, s'.ticks = woken :: s.ticks ∧ s'.sys.sleeping =
      if woken = true then ThreadSystem.wakeAt c.lbolt s.sys.sleeping else s.sys.sleeping := by
  have hInv := inv_of_run hStart h
  refine ⟨?_, ?_, fun s' hStep => hInv.sleeping_timer hStep⟩
  · intro r hr
    obtain ⟨hCalled, hSuffix, hWakes⟩ := hInv.returned r hr
    refine ⟨hCalled, ?_⟩
    obtain ⟨first, hFirst, hBefore⟩ := hInv.earlier _ (hCalled.trans hSuffix)
    obtain ⟨last, hLast, hAfter⟩ := hInv.earlier _ hSuffix
    have hRounds : (c.hz : Int) * (r.secs + wakes r.calledAt) ≤ c.hz * wakes r.returnedAt :=
      Int.mul_le_mul_of_nonneg_left hWakes (Int.natCast_nonneg _)
    rw [Int.mul_add] at hRounds
    rw [Int.sub_mul, Int.mul_comm r.secs]
    rw [← Int.natCast_mul, ← Int.natCast_mul] at hRounds
    omega
  · intro newer window older hTicks hLength
    have hOlder : older <:+ s.ticks := by
      rw [hTicks, ← List.append_assoc]
      exact List.suffix_append _ _
    have hBoth : window ++ older <:+ s.ticks := by
      rw [hTicks]
      exact List.suffix_append _ _
    obtain ⟨first, hFirst, hBefore⟩ := hInv.earlier _ hOlder
    obtain ⟨last, hLast, hAfter⟩ := hInv.earlier _ hBoth
    rw [List.length_append, hLength, wakes, List.count_append, Nat.mul_add] at hAfter
    unfold wakes at hBefore
    -- otherwise the counter has run through no period or through more than one
    rcases Nat.lt_trichotomy (window.count true) 1 with hFew | hOne | hMany
    · rw [Nat.lt_one_iff.mp hFew] at hAfter
      omega
    · exact hOne
    · have hMore : c.hz * 2 ≤ c.hz * window.count true := Nat.mul_le_mul_left _ hMany
      omega

/-- With two ticks a second, a call for one second comes back after one tick, and one for two
seconds after three. -/
theorem clocksleep_not_early_twice : ∃ s : Clock Nat Unit,
    s.returned.map (fun r => (r.secs, r.calledAt.length, r.returnedAt.length)) =
        [(2, 2, 5), (1, 0, 1)] ∧
      ∀ r ∈ s.returned, (r.calledAt.length : Int) + (r.secs - 1) * 2 + 1 ≤ r.returnedAt.length := by
  have hEnd : ([.clocksleep 1, .loop, .sys .timer, .loop, .sys (.splx 0), .sys .timer,
      .clocksleep 2, .loop, .sys .timer, .loop, .sys .timer, .sys .timer, .loop].foldlM
        (okStep (step ⟨(), 2, 15, by decide⟩)) (boot ⟨(), 2, 15, by decide⟩ 0 1)).map (fun s =>
          s.returned.map fun r => (r.secs, r.calledAt.length, r.returnedAt.length)) =
      some [(2, 2, 5), (1, 0, 1)] := by
    -- the loop of `thread_wakeup` does not compute
    unfold okStep step ThreadSystem.step ThreadSystem.timerInterrupt ThreadSystem.hardclock
      ThreadSystem.lboltTick
    simp only [ThreadSystem.threadWakeup_eq_ite]
    decide +kernel
  obtain ⟨s, hs, hReturned⟩ := Option.map_eq_some_iff.mp hEnd
  have hEarly := (clocksleep_not_early (by decide) (Run.of_okStep hs)).1
  exact ⟨s, hReturned, fun r hr => (hEarly r hr).2⟩

end Clock

end Windborne.OS161
