import Windborne.OS161.ThreadPartition

/-!
# `thread_wakeup`

The loop goes over the array of sleepers with an `int`, and takes threads out of the array while
it does so. After `array_remove` the index is one back, at -1 if the first thread has gone, and
the increment of the loop brings it to the thread that has moved up. An access out of range, an
`int` that overflows and a failed assertion end the call with an error.

The queue is that of `queue.h`, which does not say by how much it extends itself.
-/

namespace Windborne.OS161.ThreadWakeup

open Library

/-! ## Integers, arrays and queues -/

inductive Failure where
  | curspl
  | addFailed
  | outOfRange
  | overflow
  | outOfFuel
  deriving DecidableEq

def intMin : Int := -2147483648

def intMax : Int := 2147483647

/-- `i += d` for an `int`. -/
def add (i d : Int) : Except Failure Int :=
  if intMin ≤ i + d ∧ i + d ≤ intMax then .ok (i + d) else .error .overflow

/-- An array as in `array.h`, whose size is an `int`. -/
structure PointerArray (τ : Type) where
  guys : List τ
  fits : (guys.length : Int) ≤ intMax

namespace PointerArray

variable {τ : Type}

def getnum (a : PointerArray τ) : Int := a.guys.length

def getguy (a : PointerArray τ) (index : Int) : Except Failure τ :=
  if h : 0 ≤ index ∧ index.toNat < a.guys.length then .ok a.guys[index.toNat]
  else .error .outOfRange

/-- What is behind the index is moved down. -/
def remove (a : PointerArray τ) (index : Int) : Except Failure (PointerArray τ) :=
  if 0 ≤ index ∧ index.toNat < a.guys.length then .ok {
    guys := a.guys.eraseIdx index.toNat
    fits := by
      have hFits := a.fits
      have hLength := a.guys.length_eraseIdx_le index.toNat
      omega }
  else .error .outOfRange

end PointerArray

/-- A queue as in `queue.h`: `q_addtail` returns an error code if an extension fails, and does
not fail if no extension is required. -/
structure QueueOps (τ : Type) where
  Queue : Type
  guys : Queue → List τ
  size : Queue → Nat
  addtail : Queue → τ → Int × Queue
  guys_addtail (q : Queue) (t : τ) (h : (addtail q t).1 = 0) :
    guys (addtail q t).2 = guys q ++ [t]
  size_addtail (q : Queue) (t : τ) (h : (addtail q t).1 = 0) : size q ≤ size (addtail q t).2
  addtail_of_lt (q : Queue) (t : τ) (h : (guys q).length < size q) : (addtail q t).1 = 0

/-! ## The functions -/

/-- The variables of `thread.c` and `scheduler.c` that are used, and the sleep addresses in the
thread structures. `NULL` is one of the addresses. -/
structure Vars {τ : Type} (Q : QueueOps τ) (α : Type) where
  sleepers : PointerArray τ
  runqueue : Q.Queue
  curspl : Nat
  tSleepaddr : τ → α

namespace Vars

variable {τ α : Type} {Q : QueueOps τ}

def makeRunnable (s : Vars Q α) (t : τ) : Except Failure (Int × Vars Q α) :=
  if s.curspl = 0 then .error .curspl
  else
    let (result, runqueue) := Q.addtail s.runqueue t
    .ok (result, { s with runqueue })

/-- The branch of the loop for a thread that sleeps at the address. -/
def wake (s : Vars Q α) (i : Int) (t : τ) : Except Failure (Int × Vars Q α) := do
  let sleepers ← s.sleepers.remove i
  -- must look at the same sleepers[i] again
  let i ← add i (-1)
  let (result, s) ← { s with sleepers }.makeRunnable t
  if result ≠ 0 then throw .addFailed
  return (i, s)

variable [DecidableEq α]

/-- The body of the loop, with the index that it leaves. -/
def visit (s : Vars Q α) (addr : α) (i : Int) : Except Failure (Int × Vars Q α) := do
  let t ← s.sleepers.getguy i
  if s.tSleepaddr t = addr then s.wake i t else return (i, s)

/-- `for (; i<array_getnum(sleepers); i++)` -/
def wakeupLoop (addr : α) : Nat → (i : Int) → Vars Q α → Except Failure (Vars Q α)
  | 0, _, _ => .error .outOfFuel
  | fuel + 1, i, s =>
    if i < s.sleepers.getnum then do
      let (i, s) ← s.visit addr i
      let i ← add i 1
      wakeupLoop addr fuel i s
    else .ok s

def threadWakeup (s : Vars Q α) (fuel : Nat) (addr : α) : Except Failure (Vars Q α) :=
  if s.curspl = 0 then .error .curspl else wakeupLoop addr fuel 0 s

/-- The loop of `thread_hassleepers`. -/
def hassleepersLoop (s : Vars Q α) (addr : α) : Nat → (i : Int) → Except Failure Int
  | 0, _ => .error .outOfFuel
  | fuel + 1, i =>
    if i < s.sleepers.getnum then do
      let t ← s.sleepers.getguy i
      if s.tSleepaddr t = addr then return 1
      else
        let i ← add i 1
        hassleepersLoop s addr fuel i
    else .ok 0

def threadHassleepers (s : Vars Q α) (fuel : Nat) (addr : α) : Except Failure Int :=
  if s.curspl = 0 then .error .curspl else s.hassleepersLoop addr fuel 0

end Vars

/-! ## One round -/

section Rounds

variable {τ α : Type} {Q : QueueOps τ} {a : PointerArray τ} {s s' s'' : Vars Q α}
  {done rest stay stay' moved moved' : List τ} {t : τ} {i d : Int}

/-- The sleepers that stay and the threads that are moved to the run queue. -/
structure Moves (s s' : Vars Q α) (stay moved : List τ) : Prop where
  sleepers : s'.sleepers.guys = stay
  runqueue : Q.guys s'.runqueue = Q.guys s.runqueue ++ moved
  size : Q.size s.runqueue ≤ Q.size s'.runqueue
  curspl : s'.curspl = s.curspl
  tSleepaddr : s'.tSleepaddr = s.tSleepaddr

theorem Moves.none (s : Vars Q α) : Moves s s s.sleepers.guys [] where
  sleepers := rfl
  runqueue := (List.append_nil _).symm
  size := Nat.le_refl _
  curspl := rfl
  tSleepaddr := rfl

theorem Moves.trans (h : Moves s s' stay moved) (h' : Moves s' s'' stay' moved') :
    Moves s s'' stay' (moved ++ moved') where
  sleepers := h'.sleepers
  runqueue := by rw [h'.runqueue, h.runqueue, List.append_assoc]
  size := Nat.le_trans h.size h'.size
  curspl := h'.curspl.trans h.curspl
  tSleepaddr := h'.tSleepaddr.trans h.tSleepaddr

theorem add_eq (hLow : intMin ≤ i + d) (hHigh : i + d ≤ intMax) : add i d = .ok (i + d) :=
  if_pos ⟨hLow, hHigh⟩

theorem length_lt (h : a.guys = done ++ t :: rest) : done.length < a.guys.length := by
  rw [h, List.length_append, List.length_cons]
  omega

theorem getguy_eq (h : a.guys = done ++ t :: rest) : a.getguy done.length = .ok t := by
  have hIndex := length_lt h
  have hGuy : a.guys[done.length] = t := by
    simp only [h, List.getElem_append_right (Nat.le_refl _), Nat.sub_self, List.getElem_cons_zero]
  unfold PointerArray.getguy
  rw [dif_pos ⟨Int.natCast_nonneg _, hIndex⟩]
  exact congrArg Except.ok hGuy

theorem remove_eq (h : a.guys = done ++ t :: rest) :
    ∃ a', a.remove done.length = .ok a' ∧ a'.guys = done ++ rest := by
  refine ⟨_, if_pos ⟨Int.natCast_nonneg _, length_lt h⟩, ?_⟩
  show a.guys.eraseIdx done.length = _
  rw [h, List.eraseIdx_append_of_length_le (Nat.le_refl _), Nat.sub_self, List.eraseIdx_cons_zero]

theorem lt_getnum (h : a.guys = done ++ t :: rest) : (done.length : Int) < a.getnum :=
  Int.ofNat_lt.mpr (length_lt h)

theorem not_lt_getnum (h : a.guys = done) : ¬(done.length : Int) < a.getnum := by
  rw [PointerArray.getnum, h]
  omega

/-- The index in front of the threads that have not been looked at is an `int`. -/
theorem length_lt_intMax (h : a.guys = done ++ t :: rest) : (done.length : Int) < intMax := by
  have hFits := a.fits
  have hIndex := length_lt h
  omega

/-- `i++` at the end of a round, which goes on behind the thread or in its place. -/
theorem add_one_eq {next : Int} {k : Nat} (h : a.guys = done ++ t :: rest) (hNext : next + 1 = k)
    (hBound : k ≤ done.length + 1) : add next 1 = .ok (k : Int) := by
  have hIndex := length_lt_intMax h
  rw [← hNext]
  apply add_eq
  · unfold intMin
    omega
  · omega

/-- A thread is moved and the index goes one back, unless the run queue cannot be extended. -/
theorem wake_spec (hSpl : s.curspl ≠ 0) (h : s.sleepers.guys = done ++ t :: rest) :
    (∃ s', s.wake done.length t = .ok (done.length - 1, s') ∧ Moves s s' (done ++ rest) [t]) ∨
      s.wake done.length t = .error .addFailed ∧
        Q.size s.runqueue ≤ (Q.guys s.runqueue).length := by
  obtain ⟨sleepers, hRemove, hGuys⟩ := remove_eq h
  have hBack : add done.length (-1) = .ok (done.length - 1) := by
    have hIndex := length_lt_intMax h
    apply add_eq
    · unfold intMin
      omega
    · omega
  unfold Vars.wake
  rw [hRemove, ok_bind, hBack, ok_bind]
  unfold Vars.makeRunnable
  rw [if_neg hSpl, ok_bind]
  by_cases hCode : (Q.addtail s.runqueue t).1 = 0
  · left
    have hRunqueue := Q.guys_addtail s.runqueue t hCode
    have hSize := Q.size_addtail s.runqueue t hCode
    exact ⟨_, if_neg (not_not_intro hCode), hGuys, hRunqueue, hSize, rfl, rfl⟩
  · right
    refine ⟨if_pos hCode, ?_⟩
    by_contra hRoom
    exact hCode (Q.addtail_of_lt s.runqueue t (Nat.lt_of_not_le hRoom))

end Rounds

/-! ## The loop -/

section Loop

open Vars (wakeupLoop)

variable {τ α : Type} [DecidableEq α] {Q : QueueOps τ} {s : Vars Q α} {done rest : List τ}
  {addr : α} {fuel : Nat}

/-- A round behind the last sleeper. -/
theorem wakeupLoop_end (h : s.sleepers.guys = done) :
    wakeupLoop addr (fuel + 1) done.length s = .ok s := by
  rw [wakeupLoop, if_neg (not_lt_getnum h)]

/-- A round that leaves the index in front of what has not been looked at. -/
theorem wakeupLoop_of_visit (fuel : Nat) {s' : Vars Q α} {t : τ} {next : Int} {k : Nat}
    (h : s.sleepers.guys = done ++ t :: rest)
    (hVisit : s.visit addr done.length = .ok (next, s')) (hNext : next + 1 = k)
    (hBound : k ≤ done.length + 1) :
    wakeupLoop addr (fuel + 1) done.length s = wakeupLoop addr fuel k s' := by
  rw [wakeupLoop, if_pos (lt_getnum h), hVisit, ok_bind]
  dsimp only
  rw [add_one_eq h hNext hBound, ok_bind]

/-- A round that ends the call. -/
theorem wakeupLoop_of_error {t : τ} {e : Failure} (h : s.sleepers.guys = done ++ t :: rest)
    (hVisit : s.visit addr done.length = .error e) :
    wakeupLoop addr (fuel + 1) done.length s = .error e := by
  rw [wakeupLoop, if_pos (lt_getnum h), hVisit, error_bind]

theorem visit_of_eq {t : τ} (h : s.sleepers.guys = done ++ t :: rest)
    (hAddr : s.tSleepaddr t = addr) : s.visit addr done.length = s.wake done.length t := by
  rw [Vars.visit, getguy_eq h, ok_bind, if_pos hAddr]

theorem visit_of_ne {t : τ} (h : s.sleepers.guys = done ++ t :: rest)
    (hAddr : s.tSleepaddr t ≠ addr) : s.visit addr done.length = .ok ((done.length : Int), s) := by
  rw [Vars.visit, getguy_eq h, ok_bind, if_neg hAddr]
  rfl

/-- A round goes on in the place of a thread that is moved. -/
theorem wakeupLoop_moved (fuel : Nat) {t : τ} (hSpl : s.curspl ≠ 0)
    (h : s.sleepers.guys = done ++ t :: rest) (hAddr : s.tSleepaddr t = addr) :
    (∃ s', wakeupLoop addr (fuel + 1) done.length s = wakeupLoop addr fuel done.length s' ∧
      Moves s s' (done ++ rest) [t]) ∨
      wakeupLoop addr (fuel + 1) done.length s = .error .addFailed ∧
        Q.size s.runqueue ≤ (Q.guys s.runqueue).length := by
  have hVisit := visit_of_eq h hAddr
  rcases wake_spec hSpl h with ⟨s', hWake, hMoves⟩ | ⟨hWake, hRoom⟩
  · have hRound := wakeupLoop_of_visit fuel h (hVisit.trans hWake)
      (Int.sub_add_cancel _ 1) (Nat.le_succ _)
    exact Or.inl ⟨s', hRound, hMoves⟩
  · exact Or.inr ⟨wakeupLoop_of_error h (hVisit.trans hWake), hRoom⟩

/-- A round goes on behind a thread that stays. -/
theorem wakeupLoop_stays (fuel : Nat) {t : τ} (h : s.sleepers.guys = done ++ t :: rest)
    (hAddr : s.tSleepaddr t ≠ addr) :
    wakeupLoop addr (fuel + 1) done.length s = wakeupLoop addr fuel (done ++ [t]).length s := by
  rw [List.length_append, List.length_singleton]
  exact wakeupLoop_of_visit fuel h (visit_of_ne h hAddr) (Int.natCast_succ _).symm (Nat.le_refl _)

/-- The loop, when it stands behind `done`: it moves all of the rest with the address, or stops at
one for which the run queue cannot be extended. -/
theorem wakeupLoop_spec (addr : α) (hSpl : s.curspl ≠ 0) (h : s.sleepers.guys = done ++ rest)
    (hFuel : rest.length < fuel) :
    (∃ s', wakeupLoop addr fuel done.length s = .ok s' ∧
      Moves s s' (done ++ rest.filter fun t => s.tSleepaddr t ≠ addr)
        (rest.filter fun t => s.tSleepaddr t = addr)) ∨
      wakeupLoop addr fuel done.length s = .error .addFailed ∧
        Q.size s.runqueue < (Q.guys s.runqueue).length +
          (rest.filter fun t => s.tSleepaddr t = addr).length := by
  induction rest generalizing s done fuel with
  | nil =>
    rw [List.append_nil] at h
    obtain ⟨fuel, rfl⟩ := Nat.exists_eq_succ_of_ne_zero (Nat.ne_of_gt hFuel)
    left
    refine ⟨s, wakeupLoop_end h, ?_⟩
    rw [List.filter_nil, List.filter_nil, List.append_nil, ← h]
    exact .none s
  | cons t rest ih =>
    obtain ⟨fuel, rfl⟩ := Nat.exists_eq_succ_of_ne_zero (Nat.ne_of_gt (Nat.zero_lt_of_lt hFuel))
    have hRest : rest.length < fuel := Nat.lt_of_succ_lt_succ hFuel
    by_cases hAddr : s.tSleepaddr t = addr
    · rw [List.filter_cons_of_neg (by simp [hAddr]), List.filter_cons_of_pos (by simp [hAddr])]
      rcases wakeupLoop_moved fuel hSpl h hAddr with ⟨s', hRound, hMoves⟩ | ⟨hRound, hRoom⟩
      · have hSpl' : s'.curspl ≠ 0 := hMoves.curspl.symm ▸ hSpl
        have hNext := ih hSpl' hMoves.sleepers hRest
        rw [hMoves.tSleepaddr] at hNext
        rw [hRound]
        rcases hNext with ⟨s'', hLoop, hMoves'⟩ | ⟨hLoop, hRoom⟩
        · exact Or.inl ⟨s'', hLoop, hMoves.trans hMoves'⟩
        · refine Or.inr ⟨hLoop, ?_⟩
          have hSize := hMoves.size
          rw [hMoves.runqueue, List.length_append, List.length_singleton] at hRoom
          rw [List.length_cons]
          omega
      · refine Or.inr ⟨hRound, ?_⟩
        rw [List.length_cons]
        omega
    · have hSplit : s.sleepers.guys = done ++ [t] ++ rest := h.trans (List.append_cons ..)
      have hNext := ih hSpl hSplit hRest
      rw [wakeupLoop_stays fuel h hAddr, List.filter_cons_of_pos (by simp [hAddr]),
        List.filter_cons_of_neg (by simp [hAddr])]
      rwa [List.append_assoc, List.singleton_append] at hNext

/-! ## The calls -/

/-- Nothing has been looked at before the loop. -/
theorem threadWakeup_spec (addr : α) (hSpl : s.curspl ≠ 0) (hFuel : s.sleepers.guys.length < fuel) :
    (∃ s', s.threadWakeup fuel addr = .ok s' ∧
      Moves s s' (s.sleepers.guys.filter fun t => s.tSleepaddr t ≠ addr)
        (s.sleepers.guys.filter fun t => s.tSleepaddr t = addr)) ∨
      s.threadWakeup fuel addr = .error .addFailed ∧
        Q.size s.runqueue < (Q.guys s.runqueue).length +
          (s.sleepers.guys.filter fun t => s.tSleepaddr t = addr).length := by
  rw [Vars.threadWakeup, if_neg hSpl]
  exact wakeupLoop_spec addr hSpl (List.nil_append _).symm hFuel

/-- The loop of `thread_hassleepers` stops at the first sleeper with the address. -/
theorem hassleepersLoop_eq (h : s.sleepers.guys = done ++ rest) (hFuel : rest.length < fuel) :
    s.hassleepersLoop addr fuel done.length =
      .ok (if ∃ t ∈ rest, s.tSleepaddr t = addr then 1 else 0) := by
  induction rest generalizing done fuel with
  | nil =>
    rw [List.append_nil] at h
    obtain ⟨fuel, rfl⟩ := Nat.exists_eq_succ_of_ne_zero (Nat.ne_of_gt hFuel)
    rw [Vars.hassleepersLoop, if_neg (not_lt_getnum h), if_neg (by simp)]
  | cons t rest ih =>
    obtain ⟨fuel, rfl⟩ := Nat.exists_eq_succ_of_ne_zero (Nat.ne_of_gt (Nat.zero_lt_of_lt hFuel))
    rw [Vars.hassleepersLoop, if_pos (lt_getnum h), getguy_eq h, ok_bind]
    by_cases hAddr : s.tSleepaddr t = addr
    · rw [if_pos hAddr, if_pos ⟨t, List.mem_cons_self, hAddr⟩]
      rfl
    · have hSplit : s.sleepers.guys = done ++ [t] ++ rest := h.trans (List.append_cons ..)
      have hNext := ih hSplit (Nat.lt_of_succ_lt_succ hFuel)
      rw [List.length_append, List.length_singleton] at hNext
      rw [if_neg hAddr, add_one_eq h (Int.natCast_succ _).symm (Nat.le_refl _), ok_bind]
      refine hNext.trans ?_
      simp [hAddr]

theorem threadHassleepers_eq (hSpl : s.curspl ≠ 0) (hFuel : s.sleepers.guys.length < fuel) :
    s.threadHassleepers fuel addr =
      .ok (if ∃ t ∈ s.sleepers.guys, s.tSleepaddr t = addr then 1 else 0) := by
  rw [Vars.threadHassleepers, if_neg hSpl]
  exact hassleepersLoop_eq (List.nil_append _).symm hFuel

theorem curspl_of_threadWakeup {s' : Vars Q α} (h : s.threadWakeup fuel addr = .ok s') :
    s.curspl ≠ 0 := by
  intro hZero
  rw [Vars.threadWakeup, if_pos hZero] at h
  cases h

/-- **Wakeups.** The call moves exactly the sleepers at the address, in their order, unless it is
made with interrupts on or the run queue has too little room and cannot be extended. -/
theorem threadWakeup_exact (Q : QueueOps τ) (s : Vars Q α) (addr : α) {fuel : Nat}
    (hFuel : s.sleepers.guys.length < fuel) :
    (∃ s', s.threadWakeup fuel addr = .ok s' ∧
      Moves s s' (s.sleepers.guys.filter fun t => s.tSleepaddr t ≠ addr)
        (s.sleepers.guys.filter fun t => s.tSleepaddr t = addr)) ∨
      (s.threadWakeup fuel addr = .error .curspl ∧ s.curspl = 0) ∨
        s.threadWakeup fuel addr = .error .addFailed ∧
          Q.size s.runqueue < (Q.guys s.runqueue).length +
            (s.sleepers.guys.filter fun t => s.tSleepaddr t = addr).length := by
  by_cases hSpl : s.curspl = 0
  · exact Or.inr (Or.inl ⟨if_pos hSpl, hSpl⟩)
  · rcases threadWakeup_spec addr hSpl hFuel with hMoves | hFailed
    · exact Or.inl hMoves
    · exact Or.inr (Or.inr hFailed)

/-- A queue that doubles its size. -/
def doublingQueue (τ : Type) : QueueOps τ where
  Queue := List τ × Nat
  guys := Prod.fst
  size := Prod.snd
  addtail q t := (0, q.1 ++ [t], if q.1.length < q.2 then q.2 else 2 * q.2)
  guys_addtail _ _ _ := rfl
  size_addtail q t _ := by
    dsimp only
    split <;> omega
  addtail_of_lt _ _ _ := rfl

/-- Only the third of five threads sleeps at 9, the others sleep at 7. -/
def fiveSleepers : Vars (doublingQueue Nat) Nat where
  sleepers := ⟨[1, 2, 3, 4, 5], by decide⟩
  runqueue := ([6], 8)
  curspl := 15
  tSleepaddr t := if t = 3 then 9 else 7

theorem threadWakeup_exact_fiveSleepers : ∃ s', fiveSleepers.threadWakeup 6 7 = .ok s' ∧
    s'.sleepers.guys = [3] ∧ s'.runqueue.1 = [6, 1, 2, 4, 5] := by
  rcases threadWakeup_exact _ fiveSleepers 7 (Nat.lt_succ_self 5) with
    ⟨s', hRun, hMoves⟩ | ⟨-, hSpl⟩ | ⟨-, hRoom⟩
  · exact ⟨s', hRun, hMoves.sleepers, hMoves.runqueue⟩
  · cases hSpl
  · exact absurd hRoom (by decide)

end Loop

/-! ## The thread system of lists -/

section Lists

variable {τ α : Type} [DecidableEq α] {Q : QueueOps τ} {s s' : Vars Q (Option α)}
  {sys : ThreadSystem τ α} {addr : α} {fuel : Nat}

/-- The thread system has the same lists, level and sleep addresses. -/
structure Views (s : Vars Q (Option α)) (sys : ThreadSystem τ α) : Prop where
  sleepers : s.sleepers.guys = sys.sleepers
  runqueue : Q.guys s.runqueue = sys.runqueue
  curspl : s.curspl = sys.curspl
  tSleepaddr (t : τ) : s.tSleepaddr t = (sys.thread t).tSleepaddr

/-- A call that returns is one of the thread system. -/
theorem Views.threadWakeup (h : Views s sys) (hFuel : s.sleepers.guys.length < fuel)
    (hRun : s.threadWakeup fuel (some addr) = .ok s') :
    ∃ sys', sys.threadWakeup addr = .ok sys' ∧ Views s' sys' := by
  have hSpl : s.curspl ≠ 0 := curspl_of_threadWakeup hRun
  have hSpl' : sys.curspl ≠ 0 := h.curspl ▸ hSpl
  rcases threadWakeup_spec (some addr) hSpl hFuel with ⟨s'', hEq, hMoves⟩ | ⟨hEq, -⟩
  · rw [hRun] at hEq
    cases hEq
    refine ⟨_, sys.threadWakeup_eq addr hSpl', ?_, ?_, ?_, ?_⟩
    · rw [hMoves.sleepers, h.sleepers]
      simp only [h.tSleepaddr]
    · rw [hMoves.runqueue, h.runqueue, h.sleepers]
      simp only [h.tSleepaddr]
    · exact hMoves.curspl.trans h.curspl
    · intro t
      rw [hMoves.tSleepaddr]
      exact h.tSleepaddr t
  · rw [hRun] at hEq
    cases hEq

end Lists

end Windborne.OS161.ThreadWakeup
