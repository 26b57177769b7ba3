import Windborne.OS161.DumbVmIsolation

/-!
# Sequences of `ram_stealmem`

The size of a request and the end of its block are computed on 32-bit words. As long as the end
is below `2 ^ 32` the allocator hands out consecutive blocks. A request that goes past it is
either refused all the same, because the end wraps around to an address above `lastpaddr`, or
answered with a block that is not there.
-/

namespace Windborne.OS161

open Library

/-- 508 megabytes. -/
def ramLimit : Word := 508 * 1024 * 1024

/-- `MIPS_KSEG0` of the machine headers. -/
def mipsKseg0 : Word := 0x80000000

/-- `firstfree` is what `start.S` has left there. -/
def ramBootstrap (ramsize firstfree : Word) : Ram where
  lastpaddr := if ramsize > ramLimit then ramLimit else ramsize
  firstpaddr := firstfree - mipsKseg0
  requests := []

/-- The block of `npages` pages at `paddr`. -/
def pagesAt (paddr npages : Word) : Block := ⟨paddr.toNat, npages.toNat * 4096⟩

namespace Ram

/-- The variables as `ram_bootstrap` leaves them when the memory is larger than the kernel. -/
structure Booted (r : Ram) : Prop where
  aligned : r.firstpaddr.toNat % 4096 = 0
  pos : 0 < r.firstpaddr
  le : r.firstpaddr ≤ r.lastpaddr

theorem booted_ramBootstrap {ramsize firstfree : Word} (hAligned : firstfree.toNat % 4096 = 0)
    (hKernel : mipsKseg0 < firstfree) (hLimit : firstfree ≤ mipsKseg0 + ramLimit)
    (hRoom : firstfree - mipsKseg0 ≤ ramsize) : (ramBootstrap ramsize firstfree).Booted where
  aligned := by
    unfold ramBootstrap mipsKseg0 at *
    bv_omega
  pos := by
    unfold ramBootstrap mipsKseg0 at *
    bv_omega
  le := by
    unfold ramBootstrap
    dsimp only
    split
    · unfold mipsKseg0 ramLimit at *
      bv_omega
    · exact hRoom

/-- The block asked for ends below `2 ^ 32`, or the request is refused all the same. -/
def NoWrap (r : Ram) (npages : Word) : Prop :=
  OS161.Fits (r.firstpaddr, npages) ∨ r.firstpaddr + npages * pageSize > r.lastpaddr

instance (r : Ram) (npages : Word) : Decidable (r.NoWrap npages) :=
  inferInstanceAs (Decidable (_ < _ ∨ _ < _))

/-- The two outcomes of a request that does no harm. -/
theorem ramStealmem_cases_of_noWrap {r : Ram} {npages : Word} (h : r.NoWrap npages) :
    (ramStealmem r npages = (0, { r with requests := (r.firstpaddr, npages) :: r.requests })) ∨
      (r.firstpaddr.toNat + npages.toNat * 4096 ≤ r.lastpaddr.toNat ∧
        ∃ next : Word, next.toNat = r.firstpaddr.toNat + npages.toNat * 4096 ∧
          ramStealmem r npages = (r.firstpaddr,
            { firstpaddr := next, lastpaddr := r.lastpaddr
              requests := (r.firstpaddr, npages) :: r.requests })) := by
  rcases h with hFits | hRefused
  · exact ramStealmem_cases r npages hFits
  · left
    unfold ramStealmem
    exact if_pos hRefused

/-- Any other request is answered with the next free page. -/
theorem ramStealmem_of_wrap {r : Ram} {npages : Word} (h : ¬r.NoWrap npages) :
    (ramStealmem r npages).1 = r.firstpaddr := by
  have hAccepted : ¬(r.firstpaddr + npages * pageSize > r.lastpaddr) := fun hOver =>
    h (Or.inr hOver)
  unfold ramStealmem
  dsimp only
  rw [if_neg hAccepted]

end Ram

/-! ## Calls -/

/-- The variables of `ram.c` with the blocks that the calls have returned, the newest first. -/
structure Stealing where
  ram : Ram
  blocks : List Block

namespace Stealing

def boot (r : Ram) : Stealing := ⟨r, []⟩

/-- A call of `ram_stealmem`. The result 0 is the error return. -/
def call (s : Stealing) (npages : Word) : Stealing :=
  let (paddr, ram) := ramStealmem s.ram npages
  if paddr = 0 then { s with ram } else ⟨ram, pagesAt paddr npages :: s.blocks⟩

def Step (s : Stealing) (npages : Word) (t : Stealing) : Prop := t = s.call npages

/-- What a call that is answered with `paddr` is to do; `lo` is where the memory began. -/
structure Answered (lo : Word) (s : Stealing) (npages paddr : Word) (t : Stealing) : Prop where
  aligned : paddr ≠ 0 → paddr.toNat % 4096 = 0
  inside : paddr ≠ 0 → lo.toNat ≤ (pagesAt paddr npages).base ∧
    (pagesAt paddr npages).base + (pagesAt paddr npages).size ≤ s.ram.lastpaddr.toNat
  apart : paddr ≠ 0 → ∀ b ∈ s.blocks, (pagesAt paddr npages).Apart b
  refused : paddr = 0 → t.ram.firstpaddr = s.ram.firstpaddr
  advances : s.ram.firstpaddr ≤ t.ram.firstpaddr
  bounded : t.ram.firstpaddr ≤ s.ram.lastpaddr

def Sound (lo : Word) (s : Stealing) (npages : Word) (t : Stealing) : Prop :=
  Answered lo s npages (ramStealmem s.ram npages).1 t

/-- All returned blocks end at or before `firstpaddr`. -/
structure Inv (lo : Word) (s : Stealing) : Prop where
  aligned : s.ram.firstpaddr.toNat % 4096 = 0
  pos : 0 < s.ram.firstpaddr
  lo_le : lo ≤ s.ram.firstpaddr
  le_last : s.ram.firstpaddr ≤ s.ram.lastpaddr
  before : ∀ b ∈ s.blocks, b.base + b.size ≤ s.ram.firstpaddr.toNat

variable {lo npages : Word} {s t : Stealing}

theorem inv_boot {r : Ram} (h : r.Booted) : Inv r.firstpaddr (boot r) where
  aligned := h.aligned
  pos := h.pos
  lo_le := BitVec.le_refl _
  le_last := h.le
  before b hb := by cases hb

theorem call_of_refused {ram : Ram} (h : ramStealmem s.ram npages = (0, ram)) :
    s.call npages = { s with ram } := by
  unfold call
  rw [h]
  rfl

theorem call_of_granted {ram : Ram} {paddr : Word} (h : ramStealmem s.ram npages = (paddr, ram))
    (hPaddr : paddr ≠ 0) : s.call npages = ⟨ram, pagesAt paddr npages :: s.blocks⟩ := by
  unfold call
  rw [h]
  exact if_neg hPaddr

theorem Inv.firstpaddr_ne_zero (h : Inv lo s) : s.ram.firstpaddr ≠ 0 := by
  intro hZero
  have hPos := h.pos
  rw [hZero] at hPos
  exact BitVec.lt_irrefl _ hPos

/-- A call that does no harm is sound and keeps the invariant. -/
theorem Inv.call (h : Inv lo s) (hNoWrap : s.ram.NoWrap npages) :
    Sound lo s npages (s.call npages) ∧ Inv lo (s.call npages) := by
  have hNe := h.firstpaddr_ne_zero
  obtain ⟨hAligned, hPos, hLo, hLast, hBefore⟩ := h
  rcases Ram.ramStealmem_cases_of_noWrap hNoWrap with hRun | ⟨hRoom, next, hNext, hRun⟩
  · rw [Sound, call_of_refused hRun, hRun]
    constructor
    · exact ⟨fun hp => absurd rfl hp, fun hp => absurd rfl hp, fun hp => absurd rfl hp,
        fun _ => rfl, BitVec.le_refl _, hLast⟩
    · exact ⟨hAligned, hPos, hLo, hLast, hBefore⟩
  · rw [Sound, call_of_granted hRun hNe, hRun]
    have hLoNat := BitVec.le_def.mp hLo
    have hPosNat : 0 < s.ram.firstpaddr.toNat := BitVec.lt_def.mp hPos
    have hAdvances : s.ram.firstpaddr ≤ next := by
      rw [BitVec.le_def]
      omega
    have hBounded : next ≤ s.ram.lastpaddr := by
      rw [BitVec.le_def]
      omega
    constructor
    · refine ⟨fun _ => hAligned, fun _ => ⟨hLoNat, hRoom⟩, ?_, fun hp => absurd hp hNe,
        hAdvances, hBounded⟩
      intro _ b hb
      exact Or.inr (hBefore b hb)
    · refine ⟨?_, ?_, BitVec.le_trans hLo hAdvances, hBounded, ?_⟩
      · dsimp only
        omega
      · rw [BitVec.lt_def]
        exact Nat.lt_of_lt_of_le hPosNat (BitVec.le_def.mp hAdvances)
      · intro b hb
        dsimp only
        rcases List.mem_cons.mp hb with rfl | hOld
        · exact Nat.le_of_eq hNext.symm
        · have hEnd := hBefore b hOld
          omega

/-- A block that goes past `2 ^ 32` is not in the memory. -/
theorem Inv.noWrap_of_sound (h : Inv lo s) (hSound : Sound lo s npages t) :
    s.ram.NoWrap npages := by
  by_contra hWrap
  have hPaddr := Ram.ramStealmem_of_wrap hWrap
  have hNe : (ramStealmem s.ram npages).1 ≠ 0 := by
    rw [hPaddr]
    exact h.firstpaddr_ne_zero
  have hInside := (hSound.inside hNe).2
  rw [hPaddr] at hInside
  apply hWrap
  left
  unfold OS161.Fits
  have hLast := s.ram.lastpaddr.isLt
  unfold pagesAt at hInside
  dsimp only at hInside ⊢
  omega

/-- **Stealing memory is sound** in the runs whose requests do not wrap around, and in no
others. -/
theorem stealmem_sound_iff {r : Ram} {tr : List Word} (hBoot : r.Booted) :
    Run (Meeting Step (Sound r.firstpaddr)) (boot r) tr t ↔
      Run (Guarded Step fun s npages => s.ram.NoWrap npages) (boot r) tr t := by
  apply Run.meeting_iff_guarded (inv_boot hBoot)
  · rintro s npages u hInv rfl hNoWrap
    exact (hInv.call hNoWrap).2
  · rintro s npages u hInv rfl
    constructor
    · intro hSound
      exact hInv.noWrap_of_sound hSound
    · intro hNoWrap
      exact (hInv.call hNoWrap).1

/-! ## A machine with 512k -/

def smallRam : Ram := ramBootstrap 0x80000 0x80030000

theorem booted_smallRam : smallRam.Booted := ⟨by decide, by decide, by decide⟩

/-- `2 ^ 20` pages have size 0, so the request succeeds, and the next page is handed out twice. -/
theorem steal_twice : ∃ t, Run Step (boot smallRam) [0x100000, 1] t ∧
    t.blocks = [pagesAt 0x30000 1, pagesAt 0x30000 0x100000] ∧
    ¬Run (Meeting Step (Sound smallRam.firstpaddr)) (boot smallRam) [0x100000, 1] t := by
  refine ⟨((boot smallRam).call 0x100000).call 1, .snoc (.snoc .refl rfl) rfl, by decide, ?_⟩
  intro hRun
  obtain ⟨u, ⟨-, hSound⟩, -⟩ := hRun.uncons
  have hInside := hSound.inside (by decide)
  exact absurd hInside (by decide)

/-- Three pages, too many pages and no page. -/
theorem stealmem_sound_iff_three : Run (Meeting Step (Sound smallRam.firstpaddr)) (boot smallRam)
    [3, 0x200, 0] ((((boot smallRam).call 3).call 0x200).call 0) := by
  apply (stealmem_sound_iff booted_smallRam).mpr
  exact .snoc (.snoc (.snoc .refl ⟨rfl, by decide⟩) ⟨rfl, by decide⟩) ⟨rfl, by decide⟩

end Stealing

end Windborne.OS161
