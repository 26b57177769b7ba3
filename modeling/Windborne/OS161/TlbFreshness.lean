import Windborne.OS161.DumbVmFault
import Windborne.OS161.InterruptLevels
import Windborne.OS161.KernelMemory

/-!
# Freshness of the TLB

The TLB keeps the entries of the thread that ran last. A thread that comes from a switch, or
that gets an address space in `md_forkentry`, has a call of `as_activate` before it on its
stack, and does not get to user mode before that. So in user mode all entries are those that
`vm_fault` has made for the address space of the running thread since the last flush.
-/

namespace Windborne.OS161

open Library

/-! ## The TLB -/

def TlbEntry.Valid (m : MachineConstants) (entry : TlbEntry) : Prop :=
  entry.elo &&& m.tlbloValid ≠ 0

instance (m : MachineConstants) : DecidablePred (TlbEntry.Valid m) :=
  fun _ => inferInstanceAs (Decidable (_ ≠ _))

/-- The valid entries map pages of `as` to the frames that `vm_fault` computes, and no page
twice. -/
structure FreshTlb (m : MachineConstants) (as : AddrSpace) (tlb : List TlbEntry) : Prop where
  own : ∀ entry ∈ tlb, entry.Valid m → ∃ pa, Resolves m as entry.ehi pa ∧
    entry.elo = pa ||| m.tlbloDirty ||| m.tlbloValid
  once : ((tlb.filter fun entry => entry.Valid m).map TlbEntry.ehi).Nodup

section Tlb

variable {m : MachineConstants} {as : AddrSpace} {tlb tlb' : List TlbEntry} {entry : TlbEntry}

theorem freshTlb_of_invalid (h : ∀ entry ∈ tlb, ¬entry.Valid m) : FreshTlb m as tlb where
  own entry hEntry hValid := absurd hValid (h entry hEntry)
  once := by
    have hNone : tlb.filter (fun entry => entry.Valid m) = [] := by
      rw [List.filter_eq_nil_iff]
      intro entry hEntry
      simpa using h entry hEntry
    rw [hNone]
    exact List.nodup_nil

/-- The loop of `vm_fault` replaces one invalid entry. -/
theorem fillTlb_split (h : fillTlb m entry tlb = some tlb') :
    ∃ before old after, tlb = before ++ old :: after ∧ ¬old.Valid m ∧
      tlb' = before ++ entry :: after := by
  induction tlb generalizing tlb' with
  | nil => cases h
  | cons e tlb ih =>
    unfold fillTlb at h
    split_ifs at h with hValid
    · obtain ⟨rest, hRest, rfl⟩ := Option.map_eq_some_iff.mp h
      obtain ⟨before, old, after, rfl, hOld, rfl⟩ := ih hRest
      exact ⟨e :: before, old, after, rfl, hOld, rfl⟩
    · cases h
      exact ⟨[], e, tlb, rfl, hValid, rfl⟩

/-- A fill keeps the TLB fresh when no valid entry has the page. -/
theorem FreshTlb.fill {pa : Word} (h : FreshTlb m as tlb) (hResolves : Resolves m as entry.ehi pa)
    (hElo : entry.elo = pa ||| m.tlbloDirty ||| m.tlbloValid)
    (hNew : ∀ e ∈ tlb, e.Valid m → e.ehi ≠ entry.ehi)
    (hFill : fillTlb m entry tlb = some tlb') : FreshTlb m as tlb' := by
  obtain ⟨before, old, after, rfl, hOld, rfl⟩ := fillTlb_split hFill
  constructor
  · intro e he hValid
    rcases List.mem_append.mp he with hBefore | hRest
    · exact h.own e (List.mem_append_left _ hBefore) hValid
    · rcases List.mem_cons.mp hRest with rfl | hAfter
      · exact ⟨pa, hResolves, hElo⟩
      · exact h.own e (List.mem_append_right _ (List.mem_cons_of_mem _ hAfter)) hValid
  · have hOnce := h.once
    rw [List.filter_append, List.filter_cons_of_neg (by simpa using hOld)] at hOnce
    by_cases hValid : entry.Valid m
    · rw [List.filter_append, List.filter_cons_of_pos (by simpa using hValid), List.map_append,
        List.map_cons]
      rw [List.map_append] at hOnce
      refine (List.perm_middle.nodup_iff).mpr (List.nodup_cons.mpr ⟨?_, hOnce⟩)
      rw [← List.map_append, ← List.filter_append]
      intro hIn
      obtain ⟨e, he, hEq⟩ := List.mem_map.mp hIn
      obtain ⟨he, hEValid⟩ := List.mem_filter.mp he
      refine hNew e ?_ (by simpa using hEValid) hEq
      rcases List.mem_append.mp he with hBefore | hAfter
      · exact List.mem_append_left _ hBefore
      · exact List.mem_append_right _ (List.mem_cons_of_mem _ hAfter)
    · rw [List.filter_append, List.filter_cons_of_neg (by simpa using hValid)]
      exact hOnce

/-- An entry is made only for an address space that is set up. -/
theorem FreshTlb.invalid {as' : AddrSpace} (h : FreshTlb m as tlb) (hNot : ¬SetUp as) :
    FreshTlb m as' tlb := by
  apply freshTlb_of_invalid
  intro entry hEntry hValid
  obtain ⟨pa, ⟨-, hFault⟩, -⟩ := h.own entry hEntry hValid
  unfold faultPaddr at hFault
  rw [if_pos hNot] at hFault
  cases hFault

/-- Without success the TLB is left alone. -/
theorem vmFault_tlb {cpu cpu' : Cpu} {faulttype : FaultType} {vaddr : Word} {errno : Errno}
    (hFault : vmFault m cpu (some as) faulttype vaddr = .ok (errno, cpu')) (hErrno : errno ≠ .ok) :
    cpu'.tlb = cpu.tlb := by
  by_cases hType : faulttype = .read ∨ faulttype = .write
  · rw [vmFault_eq_bind m cpu as vaddr hType] at hFault
    obtain ⟨paddr, -, hRest⟩ := bind_eq_ok.mp hFault
    cases paddr with
    | none =>
      cases hRest
      rfl
    | some pa =>
      dsimp only at hRest
      split at hRest
      · cases hRest
        exact absurd rfl hErrno
      · cases hRest
        rfl
  · cases faulttype with
    | readonly => cases hFault
    | other =>
      cases hFault
      rfl
    | read => exact absurd (Or.inl rfl) hType
    | write => exact absurd (Or.inr rfl) hType

/-- What `vm_fault` does to the TLB. -/
theorem FreshTlb.vmFault {cpu cpu' : Cpu} {faulttype : FaultType} {vaddr : Word} {errno : Errno}
    (h : FreshTlb m as cpu.tlb)
    (hMissing : ∀ e ∈ cpu.tlb, e.Valid m → e.ehi ≠ vaddr &&& pageFrame)
    (hFault : vmFault m cpu (some as) faulttype vaddr = .ok (errno, cpu')) :
    FreshTlb m as cpu'.tlb := by
  by_cases hOk : errno = .ok
  · subst hOk
    obtain ⟨-, pa, hResolves, tlb, hFill, rfl⟩ := (vmFault_ok_iff ..).mp hFault
    exact h.fill hResolves rfl hMissing hFill
  · rwa [vmFault_tlb hFault hOk]

end Tlb

/-! ## Calls of `as_activate` that are still to come -/

/-- From here the function does not come back before `as_activate`, if there is an address
space. -/
def Code.Pending : Code → Prop
  | .switched | .threadstart _ | .asActivate | .forkPid _ _ | .forkParent _ | .forkTable => True
  | _ => False

/-- The functions that a thread starts with, and user mode. -/
def Code.Bottom : Code → Prop
  | .user | .enterUser | .threadstart _ | .threadEnable _ | .threadProbes _ _ | .afterFunc
  | .forkVmspace _ _ | .forkPid _ _ | .forkParent _ | .forkTable => True
  | _ => False

/-- The two activations between an interrupt handler and what it has interrupted. -/
def Code.Entry : Code → Prop
  | .interrupted _ | .trapDone _ => True
  | _ => False

namespace Kernel

variable {c : KernelConfig} {s t : Kernel} {e l l' : Nat} {code code' after callee : Code}
  {answer : Code → Code} {rest : List Call}

def HasPending (stack : List Call) : Prop := ∃ f ∈ stack, f.code.Pending

/-- Above a pending call there is nothing but interrupts: an activation at `code` over `rest`
has none under it, or is part of an interrupt. -/
def Settled (code : Code) (rest : List Call) : Prop :=
  ¬HasPending rest ∨ ¬code.Bottom ∧ (code.Entry ∨ interrupts rest ≠ [])

def Tidy : List Call → Prop
  | [] => True
  | f :: rest => Settled f.code rest ∧ Tidy rest

@[simp]
theorem hasPending_cons (f : Call) (rest : List Call) :
    HasPending (f :: rest) ↔ f.code.Pending ∨ HasPending rest := by
  simp [HasPending]

theorem pending_answer (hFlow : Flow c code l (.ret answer) l') (d : Code) :
    (answer d).Pending ↔ d.Pending := by
  cases hFlow with
  | splxOff | splxOn =>
    cases d with
    | _ => exact Iff.rfl
  | @ret ans =>
    cases ans with
    | false | true =>
      cases d with
      | _ => exact Iff.rfl
  | vmFaultFailed =>
    cases d with
    | _ => exact Iff.rfl
  | trapDone | interrupted | outsideRet => exact Iff.rfl

/-- A pending call stays until its own statements have been made. -/
theorem hasPending_flow {E : Effect Code} (hFlow : Flow c code l E l') (e : Nat)
    (h : HasPending rest) : HasPending (E.apply l' (⟨e, code⟩ :: rest)) := by
  cases E with
  | goTo code' => exact (hasPending_cons ..).mpr (Or.inr h)
  | call after callee =>
    exact (hasPending_cons ..).mpr (Or.inr ((hasPending_cons ..).mpr (Or.inr h)))
  | ret answer =>
    cases rest with
    | nil => exact h
    | cons f rest =>
      show HasPending (⟨f.entry, answer f.code⟩ :: rest)
      rw [hasPending_cons, pending_answer hFlow]
      exact (hasPending_cons ..).mp h

theorem settled_goTo (hFlow : Flow c code l (.goTo code') l') (h : Settled code rest)
    (hUser : ∀ saved, code = .outside saved → code' = .enterUser → ¬HasPending rest) :
    Settled code' rest := by
  rcases h with hNone | ⟨hBottom, hCase⟩
  · exact Or.inl hNone
  cases hFlow with
  | usermode => exact Or.inl (hUser _ rfl rfl)
  | threadstart | forkVmspace | forkPid | forkParent | enterUser => exact absurd trivial hBottom
  | sysDone | badfaultfunc => exact Or.inr ⟨nofun, Or.inl trivial⟩
  | _ => exact Or.inr ⟨nofun, Or.inr (hCase.resolve_left nofun)⟩

theorem settled_call (hFlow : Flow c code l (.call after callee) l') (h : Settled code rest)
    (e : Nat) : Settled callee (⟨e, after⟩ :: rest) ∧ Settled after rest := by
  have hAfter : ¬after.Pending := by
    cases hFlow with
    | _ => nofun
  have hOld : interrupts (⟨e, after⟩ :: rest) = interrupts rest := by
    rw [interrupts_cons, (oldIn_call hFlow).1]
    rfl
  unfold Settled
  rw [hOld]
  rcases h with hNone | ⟨hBottom, hCase⟩
  · refine ⟨Or.inl ?_, Or.inl hNone⟩
    rw [hasPending_cons, not_or]
    exact ⟨hAfter, hNone⟩
  · cases hFlow with
    | threadstartActivate | threadEnable | threadProbes | probesDone | afterFunc | forkTable =>
      exact absurd trivial hBottom
    | outsideCall f =>
      refine ⟨Or.inr ⟨?_, Or.inr (hCase.resolve_left nofun)⟩,
        Or.inr ⟨nofun, Or.inr (hCase.resolve_left nofun)⟩⟩
      cases f with
      | _ => nofun
    | _ => exact ⟨Or.inr ⟨nofun, Or.inr (hCase.resolve_left nofun)⟩,
        Or.inr ⟨nofun, Or.inr (hCase.resolve_left nofun)⟩⟩

theorem settled_answer {d : Code} (hFlow : Flow c code l (.ret answer) l') (h : Settled d rest) :
    Settled (answer d) rest := by
  rcases h with hNone | ⟨hBottom, hCase⟩
  · exact Or.inl hNone
  right
  cases hFlow with
  | splxOff | splxOn =>
    cases d with
    | _ => exact ⟨hBottom, hCase⟩
  | @ret ans =>
    cases ans with
    | false =>
      cases d with
      | releaseHeld | faulted => exact ⟨nofun, Or.inr (hCase.resolve_left nofun)⟩
      | _ => exact ⟨hBottom, hCase⟩
    | true =>
      cases d with
      | releaseHeld => exact ⟨nofun, Or.inr (hCase.resolve_left nofun)⟩
      | faulted => exact ⟨nofun, Or.inl trivial⟩
      | _ => exact ⟨hBottom, hCase⟩
  | vmFaultFailed =>
    cases d with
    | releaseHeld | faulted => exact ⟨nofun, Or.inr (hCase.resolve_left nofun)⟩
    | _ => exact ⟨hBottom, hCase⟩
  | trapDone | interrupted | outsideRet => exact ⟨hBottom, hCase⟩

/-- A statement keeps a stack tidy. -/
theorem Tidy.flow {E : Effect Code} (h : Tidy (⟨e, code⟩ :: rest)) (hFlow : Flow c code l E l')
    (hUser : ∀ saved, code = .outside saved → E = .goTo .enterUser → ¬HasPending rest) :
    Tidy (E.apply l' (⟨e, code⟩ :: rest)) := by
  obtain ⟨hTop, hRest⟩ := h
  cases E with
  | goTo code' =>
    refine ⟨settled_goTo hFlow hTop ?_, hRest⟩
    intro saved hOutside hEnter
    exact hUser saved hOutside (congrArg Effect.goTo hEnter)
  | call after callee =>
    obtain ⟨hCallee, hAfter⟩ := settled_call hFlow hTop e
    exact ⟨hCallee, hAfter, hRest⟩
  | ret answer =>
    cases rest with
    | nil => exact trivial
    | cons f rest => exact ⟨settled_answer hFlow hRest.1, hRest.2⟩

/-! ## The stacks in all states -/

structure StacksReady (s : Kernel) : Prop where
  tidy : ∀ u, Tidy (s.stack u)
  others : ∀ u, u ≠ s.running → HasPending (s.stack u)

theorem tidy_newStack (c : KernelConfig) (func : ThreadFunc) : Tidy (newStack c func) :=
  ⟨Or.inl (by simp [HasPending]), trivial⟩

theorem hasPending_newStack (c : KernelConfig) (func : ThreadFunc) :
    HasPending (newStack c func) :=
  (hasPending_cons ..).mpr (Or.inl trivial)

/-- A trap comes from code without a pending call right under it. -/
theorem tidy_trap {kind : TrapKind} {iskern : Bool} (h : Tidy (⟨e, code⟩ :: rest))
    (hCode : code = .user ∨ ∃ saved, code = .outside saved) : Tidy (⟨c.splHigh, .splx l⟩ ::
      ⟨l, .trap kind iskern l⟩ :: ⟨e, code⟩ :: rest) := by
  have hPlain : ¬code.Pending ∧ ¬code.Entry ∧ oldIn code = none := by
    rcases hCode with rfl | ⟨saved, rfl⟩
    · exact ⟨nofun, nofun, rfl⟩
    · exact ⟨nofun, nofun, rfl⟩
  obtain ⟨hPending, hEntry, hOld⟩ := hPlain
  refine ⟨?_, ?_, h⟩
  · unfold Settled
    rw [interrupts_cons, interrupts_cons, hOld]
    rcases h.1 with hNone | ⟨-, hCase⟩
    · refine Or.inl ?_
      simp only [hasPending_cons, not_or]
      exact ⟨nofun, hPending, hNone⟩
    · exact Or.inr ⟨nofun, Or.inr (hCase.resolve_left hEntry)⟩
  · unfold Settled
    rw [interrupts_cons, hOld]
    rcases h.1 with hNone | ⟨-, hCase⟩
    · refine Or.inl ?_
      rw [hasPending_cons, not_or]
      exact ⟨hPending, hNone⟩
    · exact Or.inr ⟨nofun, Or.inr (hCase.resolve_left hEntry)⟩

theorem tidy_interrupt {stack : List Call} {handler : Code} {old : Nat} (h : Tidy stack)
    (hHandler : handler = .hardclock ∨ handler = .outside []) : Tidy (⟨c.splHigh, handler⟩ ::
      ⟨c.splHigh, .interrupted old⟩ :: ⟨l, .trapDone l⟩ :: stack) := by
  have hBottom : ¬handler.Bottom := by
    rcases hHandler with rfl | rfl
    · nofun
    · nofun
  refine ⟨Or.inr ⟨hBottom, Or.inr ?_⟩, Or.inr ⟨nofun, Or.inl trivial⟩,
    Or.inr ⟨nofun, Or.inl trivial⟩, h⟩
  rw [interrupts_cons]
  nofun

theorem tidy_switched (h : Tidy (⟨e, .scheduler⟩ :: rest)) : Tidy (⟨e, .switched⟩ :: rest) := by
  refine ⟨?_, h.2⟩
  rcases h.1 with hNone | ⟨-, hCase⟩
  · exact Or.inl hNone
  · exact Or.inr ⟨nofun, Or.inr (hCase.resolve_left nofun)⟩

/-- Outside of interrupts, code outside has no pending call under it. -/
theorem Settled.not_hasPending {saved : List Nat} (h : Settled (.outside saved) rest)
    (hEmpty : interrupts rest = []) : ¬HasPending rest := by
  rcases h with hClean | ⟨-, hEntry | hSome⟩
  · exact hClean
  · cases hEntry
  · exact absurd hEmpty hSome

/-- A step on the stack of the running thread. -/
theorem StacksReady.update (h : s.StacksReady) {stack : List Call}
    (hStack : t.stack = Function.update s.stack s.running stack) (hRunning : t.running = s.running)
    (hTidy : Tidy stack) : t.StacksReady where
  tidy := by
    rw [hStack]
    exact (Function.forall_update_iff s.stack fun _ stack => Tidy stack).mpr
      ⟨hTidy, fun u _ => h.tidy u⟩
  others u hu := by
    rw [hRunning] at hu
    rw [hStack, Function.update_of_ne hu]
    exact h.others u hu

/-- **Step lemma.** -/
theorem StacksReady.step (h : s.StacksReady) (hPlaced : s.Placed) (hMarked : s.InterruptsMarked)
    {a : KernelAction} (hStep : Step c s a t) : t.StacksReady := by
  obtain ⟨e, code, rest, E, hStack, hFlow, hAdvances, -, hUser⟩ |
    ⟨kind, iskern, e, code, rest, rfl, hStack, hCode⟩ | ⟨handler, hHandler, -, rfl⟩ |
    ⟨e, rest, hStack, hOk⟩ := step_flow hPlaced hStep
  · constructor
    · intro u
      by_cases hu : u = s.running
      · subst hu
        have hTidy := h.tidy s.running
        rw [hAdvances.stack]
        rw [hStack] at hTidy ⊢
        refine hTidy.flow hFlow ?_
        intro saved hOutside hEnter
        have hNone := hMarked.running.1
        rw [hUser saved hOutside hEnter, hStack, interrupts_cons, hOutside] at hNone
        have hEmpty : interrupts rest = [] := by
          by_contra hSome
          simp [mark, oldIn, hSome] at hNone
        subst hOutside
        exact hTidy.1.not_hasPending hEmpty
      · rcases hAdvances.others u hu with ⟨hSame, -⟩ | ⟨⟨func, hNew⟩, -⟩
        · rw [hSame]
          exact h.tidy u
        · rw [hNew]
          exact tidy_newStack c func
    · intro u hu
      rw [hAdvances.running] at hu
      rcases hAdvances.others u hu with ⟨hSame, -⟩ | ⟨⟨func, hNew⟩, -⟩
      · rw [hSame]
        exact h.others u hu
      · rw [hNew]
        exact hasPending_newStack c func
  · refine h.update (by rfl) rfl ?_
    have hTidy := h.tidy s.running
    rw [hStack] at hTidy ⊢
    exact tidy_trap hTidy hCode
  · exact h.update (by rfl) rfl (tidy_interrupt (h.tidy s.running) hHandler)
  · obtain rfl | ⟨-, hStacks, -⟩ := scheduler_stacks hStack hOk
    · exact h
    have hTidy := h.tidy s.running
    rw [hStack] at hTidy
    constructor
    · rw [hStacks]
      exact (Function.forall_update_iff s.stack fun _ stack => Tidy stack).mpr
        ⟨tidy_switched hTidy, fun u _ => h.tidy u⟩
    · rw [hStacks]
      exact (Function.forall_update_iff s.stack fun u stack => u ≠ t.running → HasPending stack).mpr
        ⟨fun _ => (hasPending_cons ..).mpr (Or.inl trivial), fun u hu _ => h.others u hu⟩

/-! ## The TLB in all states -/

/-- The entries are those of the running thread, or will be flushed before it is in user mode. -/
def Refreshed (c : KernelConfig) (s : Kernel) : Prop :=
  ∀ p, (s.thread s.running).tVmspace = some p → (s.thread s.running).stale = true ∨
    HasPending (s.stack s.running) ∨ FreshTlb c.toMachineConstants (s.space p) s.tlb

/-- The page for which a step is `vm_fault`. -/
def faultPage (s : Kernel) (a : KernelAction) : Option Word :=
  match a, s.stack s.running with
  | .run _, ⟨_, .vmFault _ vaddr⟩ :: _ => some (vaddr &&& pageFrame)
  | _, _ => none

/-- The condition on a step: `vm_fault` is entered only for a page that no valid entry maps. -/
def FaultMissing (c : KernelConfig) (s : Kernel) (a : KernelAction) : Prop :=
  ∀ entry ∈ s.tlb, entry.Valid c.toMachineConstants → s.faultPage a ≠ some entry.ehi

instance (c : KernelConfig) (s : Kernel) (a : KernelAction) : Decidable (FaultMissing c s a) :=
  inferInstanceAs (Decidable (∀ entry ∈ s.tlb, _ → _))

/-- The processor is in user mode. -/
def inUserMode (s : Kernel) : Bool :=
  match s.stack s.running with
  | ⟨_, .user⟩ :: _ => true
  | _ => false

/-- The condition on a state: in user mode `as_activate` has been called since code outside has
replaced `t_vmspace`. -/
def Activated (s : Kernel) : Prop :=
  s.inUserMode = true → (s.thread s.running).tVmspace ≠ none →
    (s.thread s.running).stale = false

instance (s : Kernel) : Decidable s.Activated := inferInstanceAs (Decidable (_ → _ → _))

/-- A step that leaves the TLB, the memory and the running thread's address space alone. -/
theorem Refreshed.keep (h : Refreshed c s) (hRunning : t.running = s.running)
    (hTlb : t.tlb = s.tlb) (hSpace : t.space = s.space)
    (hVmspace : (t.thread s.running).tVmspace = (s.thread s.running).tVmspace)
    (hStale : (t.thread s.running).stale = (s.thread s.running).stale)
    (hPending : HasPending (s.stack s.running) → HasPending (t.stack s.running)) :
    Refreshed c t := by
  intro p hp
  rw [hRunning, hVmspace] at hp
  rw [hRunning, hStale, hTlb, hSpace]
  rcases h p hp with hStale | hOld | hFresh
  · exact Or.inl hStale
  · exact Or.inr (Or.inl (hPending hOld))
  · exact Or.inr (Or.inr hFresh)

theorem Refreshed.untouched (h : Refreshed c s) (hRunning : t.running = s.running)
    (hUntouched : Untouched s t)
    (hPending : HasPending (s.stack s.running) → HasPending (t.stack s.running)) :
    Refreshed c t := by
  apply h.keep hRunning hUntouched.tlb hUntouched.space
  · rw [hUntouched.thread]
  · rw [hUntouched.thread]
  · exact hPending

theorem refreshed_of_pending (h : HasPending (s.stack s.running)) : Refreshed c s :=
  fun _ _ => Or.inr (Or.inl h)

theorem refreshed_of_none (h : (s.thread s.running).tVmspace = none) : Refreshed c s := by
  intro p hp
  rw [h] at hp
  cases hp

/-- `as_activate` leaves no valid entry. -/
theorem refreshed_asActivate (c : KernelConfig) (s : Kernel) : Refreshed c (s.asActivate c) := by
  intro p _
  refine Or.inr (Or.inr (freshTlb_of_invalid ?_))
  intro entry hEntry
  simp only [asActivate, become, setStack, flush, List.mem_mapIdx] at hEntry
  obtain ⟨i, -, rfl⟩ := hEntry
  simp [TlbEntry.Valid, c.tlblo_invalid]

/-- `as_activate` is called unless there is no address space. -/
theorem refreshed_activateCurrent (hPlaced : s.Placed)
    (hStack : s.stack s.running = ⟨e, code⟩ :: rest) (h : s.activateCurrent after = .ok t) :
    Refreshed c t := by
  obtain ⟨cur, hCur, ⟨hNone, rfl⟩ | ⟨-, rfl⟩⟩ := activateCurrent_ok h
  · obtain ⟨rfl, -⟩ := hPlaced.curthread hCur
    exact refreshed_of_none hNone
  · apply refreshed_of_pending
    simp only [call, setStack, hStack, Function.update_self]
    exact (hasPending_cons ..).mpr (Or.inl trivial)

/-- The statements of a pending call. -/
theorem refreshed_pending {o : Choice} (hPlaced : s.Placed)
    (hStack : s.stack s.running = ⟨e, code⟩ :: rest) (hPending : code.Pending)
    (h : s.exec c o code = some (.ok t)) : Refreshed c t := by
  cases code with
  | switched =>
    simp only [exec, Option.some.injEq] at h
    obtain ⟨u, hExorcise, hActivate⟩ := switched_ok h
    obtain ⟨cur, hCur, -⟩ := activateCurrent_ok hActivate
    have hBefore : s.curthread = some cur := by
      obtain ⟨-, -, rfl⟩ := exorcise_ok hExorcise
      exact hCur
    obtain ⟨rfl, -⟩ := hPlaced.curthread hBefore
    obtain ⟨hPlaced', -, hStacks, hRunning⟩ := hPlaced.exorcise hBefore hExorcise
    have hStack' : u.stack u.running = ⟨e, .switched⟩ :: rest := by
      rw [hStacks, hRunning, hStack]
    exact refreshed_activateCurrent hPlaced' hStack' hActivate
  | threadstart func =>
    simp only [exec, Option.some.injEq] at h
    exact refreshed_activateCurrent hPlaced hStack h
  | asActivate =>
    cases h
    exact refreshed_asActivate c s
  | forkPid | forkParent =>
    simp only [exec, Option.some.injEq] at h
    obtain ⟨cur, -, rfl⟩ := assign_ok h
    apply refreshed_of_pending
    simp only [become, setStack, setThread, hStack, Function.update_self]
    exact (hasPending_cons ..).mpr (Or.inl trivial)
  | forkTable =>
    simp only [exec, Option.some.injEq] at h
    obtain ⟨cur, -, rfl⟩ := forkTable_ok h
    apply refreshed_of_pending
    simp only [call, setStack, hStack, Function.update_self]
    exact (hasPending_cons ..).mpr (Or.inl trivial)
  | _ => cases hPending

/-- A write to the structure of a thread that does not concern its address space. -/
theorem Refreshed.setThread (h : Refreshed c s) {cur : Word} {f : KernelThread → KernelThread}
    (hRunning : t.running = s.running) (hUntouched : Untouched (s.setThread cur f) t)
    (hPending : HasPending (s.stack s.running) → HasPending (t.stack s.running))
    (hSame : ∀ th, (f th).tVmspace = th.tVmspace ∧ (f th).stale = th.stale) : Refreshed c t := by
  have hThread : ∀ u, ((s.setThread cur f).thread u).tVmspace = (s.thread u).tVmspace ∧
      ((s.setThread cur f).thread u).stale = (s.thread u).stale := by
    intro u
    simp only [Kernel.setThread]
    by_cases hu : u = cur
    · subst hu
      rw [Function.update_self]
      exact hSame _
    · rw [Function.update_of_ne hu]
      exact ⟨rfl, rfl⟩
  apply h.keep hRunning hUntouched.tlb hUntouched.space
  · rw [hUntouched.thread]
    exact (hThread s.running).1
  · rw [hUntouched.thread]
    exact (hThread s.running).2
  · exact hPending

/-- The other statements. -/
theorem Refreshed.exec (h : Refreshed c s) {o : Choice} (hPlaced : s.Placed)
    (hStack : s.stack s.running = ⟨e, code⟩ :: rest) (hNot : ¬code.Pending)
    (hCode : code ≠ .scheduler) (hMissing : FaultMissing c s (.run o))
    (hExec : s.exec c o code = some (.ok t)) : Refreshed c t := by
  obtain ⟨E, hFlow, hAdvances, -⟩ := exec_flow hPlaced hStack hCode hExec
  have hRunning := hAdvances.running
  have hPending : HasPending (s.stack s.running) → HasPending (t.stack s.running) := by
    intro hOld
    rw [hStack, hasPending_cons] at hOld
    rw [hAdvances.stack, hStack]
    exact hasPending_flow hFlow e (hOld.resolve_left hNot)
  by_cases hMoves : code.Moves
  · cases code with
    | threadYield =>
      simp only [Kernel.exec, Option.some.injEq] at hExec
      exact h.untouched hRunning (untouched_threadYield hExec) hPending
    | threadSleep addr =>
      simp only [Kernel.exec, Option.some.injEq] at hExec
      obtain ⟨cur, -, hUntouched⟩ := untouched_threadSleep hExec
      exact h.setThread hRunning hUntouched hPending fun _ => ⟨rfl, rfl⟩
    | wakeupLoop addr i =>
      simp only [Kernel.exec, Option.some.injEq] at hExec
      exact h.untouched hRunning (untouched_wakeupLoop hExec) hPending
    | threadExit =>
      simp only [Kernel.exec, Option.some.injEq] at hExec
      obtain ⟨cur, hCur, hUntouched⟩ := untouched_threadExit hExec
      obtain ⟨rfl, -⟩ := hPlaced.curthread hCur
      apply refreshed_of_none
      rw [hRunning, hUntouched.thread]
      simp only [Kernel.setThread, Function.update_self]
    | threadFork func =>
      obtain ⟨hTlb, hSpace, hThread⟩ := threadFork_memory hPlaced hExec
      apply h.keep hRunning hTlb hSpace
      · rw [hThread]
      · rw [hThread]
      · exact hPending
    | scheduler => exact absurd rfl hCode
    | switched => exact absurd trivial hNot
    | _ => cases hMoves
  by_cases hWrites : code.Writes
  · cases code with
    | slept =>
      simp only [Kernel.exec, Option.some.injEq] at hExec
      obtain ⟨cur, -, rfl⟩ := assign_ok hExec
      exact h.setThread hRunning untouched_become hPending fun _ => ⟨rfl, rfl⟩
    | vmFault faulttype vaddr =>
      simp only [Kernel.exec, Option.some.injEq] at hExec
      obtain ⟨cur, errno, cpu, hCur, hFault, hUntouched⟩ := vmFault_memory hExec
      obtain ⟨rfl, -⟩ := hPlaced.curthread hCur
      intro p hp
      rw [hRunning, hUntouched.thread] at hp
      rw [hRunning, hUntouched.thread, hUntouched.tlb, hUntouched.space]
      rcases h p hp with hStale | hOld | hFresh
      · exact Or.inl hStale
      · exact Or.inr (Or.inl (hPending hOld))
      · right
        right
        have hSome : (s.thread s.running).tVmspace = some p := hp
        rw [hSome] at hFault
        have hBefore : FreshTlb c.toMachineConstants (s.space p) (⟨c.splHigh, s.tlb⟩ : Cpu).tlb :=
          hFresh
        refine hBefore.vmFault ?_ hFault
        intro entry hEntry hValid hEq
        refine hMissing entry hEntry hValid ?_
        simp only [faultPage, hStack, hEq]
    | forkVmspace data1 newpid =>
      simp only [Kernel.exec, Option.some.injEq] at hExec
      obtain ⟨cur, -, rfl⟩ := assign_ok hExec
      apply refreshed_of_pending
      simp only [become, setStack, Kernel.setThread, hStack, Function.update_self]
      exact (hasPending_cons ..).mpr (Or.inl trivial)
    | asActivate | forkPid | forkParent | forkTable => exact absurd trivial hNot
    | _ => cases hWrites
  · exact h.untouched hRunning ((exec_acts hMoves hExec).untouched hWrites) hPending

/-- What code outside does. -/
theorem Refreshed.outside (h : Refreshed c s) (hPlaced : s.Placed) {saved : List Nat}
    {b : OutsideAction} (hStack : s.stack s.running = ⟨e, .outside saved⟩ :: rest)
    (hOutside : s.outside c saved b = some t) : Refreshed c t := by
  obtain ⟨E, hFlow, hAdvances, -⟩ := outside_flow hStack hOutside
  have hRunning := hAdvances.running
  have hPending : HasPending (s.stack s.running) → HasPending (t.stack s.running) := by
    intro hOld
    rw [hStack, hasPending_cons] at hOld
    rw [hAdvances.stack, hStack]
    exact hasPending_flow hFlow e (hOld.resolve_left nofun)
  cases b with
  | splhigh | call | setNumprocesses | clearEntry =>
    cases hOutside
    exact h.keep hRunning (by rfl) (by rfl) (by rfl) (by rfl) hPending
  | splx | usermode | ret =>
    simp only [Kernel.outside] at hOutside
    split_ifs at hOutside
    cases hOutside
    exact h.keep hRunning (by rfl) (by rfl) (by rfl) (by rfl) hPending
  | clearParent u =>
    cases hOutside
    have hUntouched : Untouched (s.setThread u fun th => { th with parent := none })
        (s.setThread u fun th => { th with parent := none }) := ⟨rfl, rfl, rfl, rfl⟩
    exact h.setThread hRunning hUntouched hPending fun _ => ⟨rfl, rfl⟩
  | setVmspace as =>
    obtain ⟨cur, hCur, rfl⟩ := Option.map_eq_some_iff.mp hOutside
    obtain ⟨rfl, -⟩ := hPlaced.curthread hCur
    intro p _
    refine Or.inl ?_
    show (Function.update s.thread s.running _ s.running).stale = true
    rw [Function.update_self]
  | writeSpace p as =>
    simp only [Kernel.outside] at hOutside
    split_ifs at hOutside with hWritable
    cases hOutside
    intro q hq
    rcases h q hq with hStale | hOld | hFresh
    · exact Or.inl hStale
    · exact Or.inr (Or.inl hOld)
    · refine Or.inr (Or.inr ?_)
      show FreshTlb _ (Function.update s.space p as q) s.tlb
      by_cases hEq : q = p
      · subst hEq
        rw [Function.update_self]
        rcases hWritable with hNot | hNone
        · exact hFresh.invalid hNot
        · exact absurd hq (hNone s.running hPlaced.running)
      · rwa [Function.update_of_ne hEq]

/-- **Step lemma.** -/
theorem Refreshed.step (h : Refreshed c s) (hPlaced : s.Placed) (hReady : s.StacksReady)
    {a : KernelAction} (hStep : Step c s a t) (hMissing : FaultMissing c s a) :
    Refreshed c t := by
  unfold Step Kernel.step at hStep
  cases a with
  | run o =>
    dsimp only at hStep
    split at hStep
    · rename_i f rest hStack
      obtain ⟨e, code⟩ := f
      by_cases hCode : code = .scheduler
      · subst hCode
        simp only [Kernel.exec, Option.some.injEq] at hStep
        obtain rfl | ⟨-, hStacks, -⟩ := scheduler_stacks hStack hStep
        · exact h
        apply refreshed_of_pending
        rw [hStacks]
        by_cases hSame : t.running = s.running
        · rw [hSame, Function.update_self]
          exact (hasPending_cons ..).mpr (Or.inl trivial)
        · rw [Function.update_of_ne hSame]
          exact hReady.others t.running hSame
      by_cases hPending : code.Pending
      · exact refreshed_pending hPlaced hStack hPending hStep
      · exact h.exec hPlaced hStack hPending hCode hMissing hStep
    · cases hStep
  | outside b =>
    dsimp only at hStep
    split at hStep
    · rename_i e saved rest hStack
      obtain ⟨u, hOutside, hEq⟩ := Option.map_eq_some_iff.mp hStep
      cases hEq
      exact h.outside hPlaced hStack hOutside
    · cases hStep
  | trap kind =>
    have hTrap : ∀ iskern, Refreshed c (s.enterTrap c kind iskern) := by
      intro iskern
      refine h.keep rfl rfl rfl rfl rfl fun hOld => ?_
      simp only [enterTrap, setStack, Function.update_self, hasPending_cons]
      exact Or.inr (Or.inr hOld)
    dsimp only at hStep
    split at hStep
    · cases hStep
      exact hTrap false
    · split_ifs at hStep
      cases hStep
      exact hTrap true
    · cases hStep
  | timer | device =>
    dsimp only at hStep
    split_ifs at hStep
    cases hStep
    refine h.keep rfl rfl rfl rfl rfl fun hOld => ?_
    simp only [enterInterrupt, setStack, Function.update_self, hasPending_cons]
    exact Or.inr (Or.inr (Or.inr hOld))

theorem stacksReady_boot (c : KernelConfig) (me : Word) (initialCount : Word → Int)
    (tlb : List TlbEntry) (space : Word → AddrSpace) :
    (boot c me initialCount tlb space).StacksReady where
  tidy u := by
    by_cases hu : u = me
    · have hTidy : Tidy [⟨c.splHigh, .outside []⟩] := ⟨Or.inl (by simp [HasPending]), trivial⟩
      simpa [boot, hu] using hTidy
    · simpa [boot, hu] using tidy_newStack c .outside
  others u hu := by
    have hNe : u ≠ me := hu
    simpa [boot, hNe] using hasPending_newStack c .outside

theorem inUserMode_iff :
    s.inUserMode = true ↔ ∃ e rest, s.stack s.running = ⟨e, .user⟩ :: rest := by
  unfold inUserMode
  split
  · rename_i e rest hStack
    simp [hStack]
  · rename_i hNot
    simp only [Bool.false_eq_true, false_iff, not_exists]
    exact hNot

/-- **Freshness of the TLB.** -/
theorem tlb_fresh {me : Word} {initialCount : Word → Int} {tlb : List TlbEntry}
    {space : Word → AddrSpace} {tr : List KernelAction}
    (h : Run (Keeping (Guarded (Step c) (FaultMissing c)) Activated)
      (boot c me initialCount tlb space) tr s) {p : Word} (hUser : s.inUserMode = true)
    (hVmspace : (s.thread s.running).tVmspace = some p) :
    FreshTlb c.toMachineConstants (s.space p) s.tlb := by
  have hInv := h.invariant (I := fun s => (s.Placed ∧ s.InterruptsMarked) ∧
      (s.StacksReady ∧ Refreshed c s) ∧ s.Activated) ?_ ?_
  · obtain ⟨-, ⟨hReady, hRefreshed⟩, hActivated⟩ := hInv
    rcases hRefreshed p hVmspace with hStale | hPending | hFresh
    · rw [hActivated hUser (by simp [hVmspace])] at hStale
      cases hStale
    · obtain ⟨e, rest, hStack⟩ := inUserMode_iff.mp hUser
      have hTidy := hReady.tidy s.running
      rw [hStack] at hTidy hPending
      rcases hTidy.1 with hNone | ⟨hBottom, -⟩
      · rw [hasPending_cons] at hPending
        exact absurd (hPending.resolve_left nofun) hNone
      · exact absurd trivial hBottom
    · exact hFresh
  · refine ⟨⟨placed_boot .., interruptsMarked_boot ..⟩, ⟨stacksReady_boot .., ?_⟩, ?_⟩
    · exact refreshed_of_none rfl
    · intro hUser
      simp [inUserMode, boot] at hUser
  · intro t a u hInv hKeeping
    obtain ⟨⟨hPlaced, hMarked⟩, ⟨hReady, hRefreshed⟩, -⟩ := hInv
    obtain ⟨⟨hStep, hMissing⟩, hActivated⟩ := hKeeping
    exact ⟨⟨hPlaced.step hStep, hMarked.step hPlaced hStep⟩,
      ⟨hReady.step hPlaced hMarked hStep, hRefreshed.step hPlaced hReady hStep hMissing⟩,
      hActivated⟩

/-- A user program with two regions of one page. -/
def sampleSpace : AddrSpace :=
  { vbase1 := 0x400000, pbase1 := 0x10000, npages1 := 1, vbase2 := 0x10000000,
    pbase2 := 0x20000, npages2 := 1, stackpbase := 0x30000 }

/-- A child is started in `md_forkentry` and reads from its first page. -/
def readSteps : List KernelAction :=
  [.outside (.call (.threadFork (.mdForkentry 0x80040000 5))), .run { fork := .started 2 },
    .run {}, .run {}, .outside (.call .threadYield), .run {}, .run {}] ++
  List.replicate 14 (.run {}) ++ [.trap (.fault .read 0x400010)] ++ List.replicate 8 (.run {})

/-- The child is back in user mode, with one valid entry. -/
theorem tlb_fresh_read : ∃ s : Kernel, s.inUserMode = true ∧
    s.tlb.map TlbEntry.elo = [0x10600, 0] ∧
      FreshTlb sampleConfig.toMachineConstants sampleSpace s.tlb := by
  have hEnd : (readSteps.foldlM (fun s a => if FaultMissing sampleConfig s a then
      (okStep (step sampleConfig) s a).filter fun s => s.Activated else none)
        (boot sampleConfig 1 (fun _ => 0) [⟨0, 0x200⟩, ⟨0, 0⟩] fun _ => sampleSpace)).map
          (fun s => ((s.inUserMode, s.tlb.map TlbEntry.elo), (s.thread s.running).tVmspace,
            s.space 0x80040001)) =
      some ((true, [0x10600, 0]), some 0x80040001, sampleSpace) := by
    decide +kernel
  obtain ⟨s, hs, hFields⟩ := Option.map_eq_some_iff.mp hEnd
  simp only [Prod.mk.injEq] at hFields
  obtain ⟨⟨hUser, hTlb⟩, hVmspace, hSpace⟩ := hFields
  have hRun : Run (Keeping (Guarded (Step sampleConfig) (FaultMissing sampleConfig)) Activated)
      (boot sampleConfig 1 (fun _ => 0) [⟨0, 0x200⟩, ⟨0, 0⟩] fun _ => sampleSpace)
        readSteps s := by
    apply (Run.guarded_of_foldlM hs).mono
    intro s a t hGuarded
    obtain ⟨hStep, hActivated⟩ := Run.keeping_of_filter hGuarded.1
    exact ⟨⟨hStep, hGuarded.2⟩, by simpa using hActivated⟩
  have hFresh := tlb_fresh hRun hUser hVmspace
  rw [hSpace] at hFresh
  exact ⟨s, hUser, hTlb, hFresh⟩

end Kernel

end Windborne.OS161
