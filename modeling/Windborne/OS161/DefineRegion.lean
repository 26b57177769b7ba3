import Windborne.OS161.DumbVmIsolation

/-!
# Sequences of `as_define_region`

A slot is taken to be free as long as its base is 0. So a region in the first page is reported
as defined and its slot stays free: the next call overwrites it. The first page is also the only
one where rounding the length up can wrap around. With neither, two calls fill the two slots
with the pages that they ask for, and all further calls are refused.
-/

namespace Windborne.OS161

open Library

/-- The bytes of a call: at least one, and none past the end of the address space. -/
structure RegionRequest where
  vaddr : Word
  sz : Word
  sz_pos : 1 ≤ sz.toNat
  inside : vaddr.toNat + sz.toNat ≤ 2 ^ 32

/-- Page `q` has a byte of `[lo, hi)`. -/
def PageMeets (q lo hi : Nat) : Prop := ∃ a, lo ≤ a ∧ a < hi ∧ a / 4096 = q

/-- The pages of a region are those that meet the bytes asked for. -/
structure Covers (vbase npages : Word) (c : RegionRequest) : Prop where
  aligned : vbase.toNat % 4096 = 0
  pages (q : Nat) : vbase.toNat / 4096 ≤ q ∧ q < vbase.toNat / 4096 + npages.toNat ↔
    PageMeets q c.vaddr.toNat (c.vaddr.toNat + c.sz.toNat)

/-- `npages` as `as_define_region` computes it. -/
def regionPages (vaddr sz : Word) : Word :=
  ((sz + (vaddr &&& ~~~pageFrame) + pageSize - 1) &&& pageFrame) / pageSize

namespace AddrSpace

/-- The address space with other virtual pages for a region. -/
def setRegion (as : AddrSpace) (vbase npages : Word) : Region → AddrSpace
  | .one => { as with vbase1 := vbase, npages1 := npages }
  | .two => { as with vbase2 := vbase, npages2 := npages }
  | .stack => as

/-- The program's two regions are what was written to them. -/
theorem setRegion_inj {as : AddrSpace} {vbase npages vbase' npages' : Word} {i : Region}
    (hi : i ≠ .stack) (h : as.setRegion vbase npages i = as.setRegion vbase' npages' i) :
    vbase = vbase' ∧ npages = npages' := by
  cases i with
  | one => exact ⟨congrArg vbase1 h, congrArg npages1 h⟩
  | two => exact ⟨congrArg vbase2 h, congrArg npages2 h⟩
  | stack => exact absurd rfl hi

end AddrSpace

/-- The region that a call defines after `defined` calls have succeeded. -/
def nextRegion (defined : Nat) : Option Region :=
  match defined with
  | 0 => some .one
  | 1 => some .two
  | _ => none

theorem nextRegion_ne_stack {defined : Nat} {i : Region} (h : nextRegion defined = some i) :
    i ≠ .stack := by
  rintro rfl
  unfold nextRegion at h
  split at h <;> cases h

/-! ## Rounding -/

theorem toNat_and_pageFrame (x : Word) : (x &&& pageFrame).toNat = x.toNat / 4096 * 4096 := by
  have hMask : pageFrame = BitVec.allOnes 32 <<< 12 := rfl
  have hBound := x.isLt
  rw [hMask, ← BitVec.shiftLeft_ushiftRight, BitVec.toNat_shiftLeft, BitVec.toNat_ushiftRight,
    Nat.shiftRight_eq_div_pow, Nat.shiftLeft_eq]
  omega

theorem toNat_and_not_pageFrame (x : Word) : (x &&& ~~~pageFrame).toNat = x.toNat % 4096 := by
  rw [BitVec.toNat_and, ← Nat.and_two_pow_sub_one_eq_mod x.toNat 12]
  rfl

theorem and_pageFrame_eq_zero (x : Word) : x &&& pageFrame = 0 ↔ x.toNat < 4096 := by
  rw [← BitVec.toNat_inj, toNat_and_pageFrame]
  show _ = 0 ↔ _
  omega

/-- The base of a region marks its slot as used just if the region is not in the first page. -/
theorem base_ne_zero_iff {base x : Word} (h : base = x &&& pageFrame) :
    base ≠ 0 ↔ 4096 ≤ x.toNat := by
  rw [h, Ne, and_pageFrame_eq_zero, Nat.not_lt]

theorem toNat_regionPages (vaddr sz : Word) : (regionPages vaddr sz).toNat =
    (sz.toNat + vaddr.toNat % 4096 + 4095) % 2 ^ 32 / 4096 := by
  have hSize : pageSize.toNat = 4096 := rfl
  have hSum : (sz + (vaddr &&& ~~~pageFrame) + pageSize - 1).toNat =
      (sz.toNat + vaddr.toNat % 4096 + 4095) % 2 ^ 32 := by
    rw [← toNat_and_not_pageFrame]
    unfold pageSize
    generalize vaddr &&& ~~~pageFrame = offset
    bv_omega
  unfold regionPages
  rw [BitVec.toNat_udiv, toNat_and_pageFrame, hSum, hSize]
  omega

theorem pageMeets_iff {q lo hi : Nat} (h : lo < hi) :
    PageMeets q lo hi ↔ lo / 4096 ≤ q ∧ q < (hi + 4095) / 4096 := by
  constructor
  · rintro ⟨a, hLow, hHigh, rfl⟩
    omega
  · rintro ⟨hLow, hHigh⟩
    exact ⟨max lo (q * 4096), by omega, by omega, by omega⟩

namespace RegionRequest

/-- Rounding the length up does not reach `2 ^ 32`. -/
def NoWrap (c : RegionRequest) : Prop := c.vaddr.toNat % 4096 + c.sz.toNat + 4095 < 2 ^ 32

instance (c : RegionRequest) : Decidable c.NoWrap := inferInstanceAs (Decidable (_ < _))

variable {c : RegionRequest}

theorem pageMeets_vaddr (c : RegionRequest) :
    PageMeets (c.vaddr.toNat / 4096) c.vaddr.toNat (c.vaddr.toNat + c.sz.toNat) := by
  have hPos := c.sz_pos
  exact ⟨c.vaddr.toNat, Nat.le_refl _, by omega, rfl⟩

/-- A region that covers its bytes has a page. -/
theorem npages_ne_zero {vbase npages : Word} (h : Covers vbase npages c) : npages ≠ 0 := by
  rintro rfl
  have hPage := (h.pages _).mpr c.pageMeets_vaddr
  have hNone : (0 : Word).toNat = 0 := rfl
  omega

/-- What is computed covers the bytes just if the rounding does not wrap around. -/
theorem covers_iff : Covers (c.vaddr &&& pageFrame) (regionPages c.vaddr c.sz) c ↔ c.NoWrap := by
  have hPos := c.sz_pos
  have hInside := c.inside
  constructor
  · intro h
    have hPages := npages_ne_zero h
    rw [Ne, ← BitVec.toNat_inj, toNat_regionPages] at hPages
    have hNone : (0 : Word).toNat = 0 := rfl
    unfold NoWrap
    omega
  · intro h
    unfold NoWrap at h
    constructor
    · rw [toNat_and_pageFrame]
      omega
    · intro q
      rw [pageMeets_iff (by omega), toNat_and_pageFrame, toNat_regionPages]
      omega

end RegionRequest

/-! ## Calls -/

/-- An address space with the calls that have succeeded on it, oldest first. -/
structure Defining where
  as : AddrSpace
  defined : List RegionRequest

namespace Defining

/-- A fresh address space. -/
def fresh : Defining := ⟨asCreate, []⟩

def call (s : Defining) (c : RegionRequest) : Defining :=
  let (as, code) := asDefineRegion s.as c.vaddr c.sz
  { as, defined := if code = .ok then s.defined ++ [c] else s.defined }

def Step (s : Defining) (c : RegionRequest) (t : Defining) : Prop := t = s.call c

/-- What a call is to do: the next region covers the bytes asked for and all else stays as it
was; after two successful calls nothing changes. -/
def Sound (s : Defining) (c : RegionRequest) (t : Defining) : Prop :=
  match nextRegion s.defined.length with
  | some i => (asDefineRegion s.as c.vaddr c.sz).2 = .ok →
      ∃ vbase npages, t.as = s.as.setRegion vbase npages i ∧ Covers vbase npages c
  | none => (asDefineRegion s.as c.vaddr c.sz).2 = .EUNIMP ∧ t.as = s.as

/-- No region so far is in the first page, and the length of one that is still to be defined can
be rounded up. -/
def Careful (s : Defining) (c : RegionRequest) : Prop :=
  (∀ r ∈ s.defined, 4096 ≤ r.vaddr.toNat) ∧ (s.defined.length < 2 → c.NoWrap)

instance (s : Defining) (c : RegionRequest) : Decidable (s.Careful c) :=
  inferInstanceAs (Decidable (_ ∧ _))

/-- The bases tell which slots are in use, and only the last region may be in the first page. -/
def Inv (s : Defining) : Prop :=
  match s.defined with
  | [] => s.as.vbase1 = 0 ∧ s.as.vbase2 = 0 ∧ s.as.npages2 = 0
  | [r] => s.as.vbase1 = r.vaddr &&& pageFrame ∧ s.as.vbase2 = 0 ∧ s.as.npages2 = 0
  | [r, r'] => s.as.vbase1 = r.vaddr &&& pageFrame ∧ 4096 ≤ r.vaddr.toNat ∧
      s.as.vbase2 = r'.vaddr &&& pageFrame
  | _ => False

theorem inv_fresh : fresh.Inv := ⟨rfl, rfl, rfl⟩

variable {s t : Defining} {c r r' : RegionRequest} {as : AddrSpace}

/-! ## The slot that a call takes -/

theorem define_one (c : RegionRequest) (h : as.vbase1 = 0) :
    asDefineRegion as c.vaddr c.sz =
      (as.setRegion (c.vaddr &&& pageFrame) (regionPages c.vaddr c.sz) .one, .ok) := by
  unfold asDefineRegion
  exact if_pos h

theorem define_two (c : RegionRequest) (h : as.vbase1 ≠ 0) (h2 : as.vbase2 = 0) :
    asDefineRegion as c.vaddr c.sz =
      (as.setRegion (c.vaddr &&& pageFrame) (regionPages c.vaddr c.sz) .two, .ok) := by
  unfold asDefineRegion
  dsimp only
  rw [if_neg h, if_pos h2]
  rfl

theorem define_none (c : RegionRequest) (h : as.vbase1 ≠ 0) (h2 : as.vbase2 ≠ 0) :
    asDefineRegion as c.vaddr c.sz = (as, .EUNIMP) := by
  unfold asDefineRegion
  dsimp only
  rw [if_neg h, if_neg h2]

theorem call_eq_of_ok {as' : AddrSpace}
    (h : asDefineRegion s.as c.vaddr c.sz = (as', .ok)) :
    s.call c = ⟨as', s.defined ++ [c]⟩ := by
  unfold call
  rw [h]
  rfl

theorem call_eq_of_refused (h : asDefineRegion s.as c.vaddr c.sz = (s.as, .EUNIMP)) :
    s.call c = s := by
  unfold call
  rw [h]
  rfl

/-- A call that defines region `i` is sound just if its rounding does not wrap around. -/
theorem sound_region_iff {i : Region} (hi : nextRegion s.defined.length = some i)
    (h : asDefineRegion s.as c.vaddr c.sz =
      (s.as.setRegion (c.vaddr &&& pageFrame) (regionPages c.vaddr c.sz) i, .ok)) :
    Sound s c (s.call c) ↔ c.NoWrap := by
  unfold Sound
  rw [hi, call_eq_of_ok h, h, ← RegionRequest.covers_iff]
  constructor
  · intro hSound
    obtain ⟨vbase, npages, hSame, hCovers⟩ := hSound rfl
    obtain ⟨rfl, rfl⟩ := AddrSpace.setRegion_inj (nextRegion_ne_stack hi) hSame
    exact hCovers
  · intro hCovers _
    exact ⟨_, _, rfl, hCovers⟩

/-- When the first region is in the first page, the second call takes its slot again. -/
theorem not_sound_of_overwritten (hDefined : s.defined = [r]) (hBase : s.as.vbase1 = 0)
    (hPages : s.as.npages2 = 0) : ¬Sound s c (s.call c) := by
  have hNext : nextRegion s.defined.length = some .two := by
    rw [hDefined]
    rfl
  unfold Sound
  rw [hNext, call_eq_of_ok (define_one c hBase), define_one c hBase]
  intro hSound
  obtain ⟨vbase, npages, hSame, hCovers⟩ := hSound rfl
  apply RegionRequest.npages_ne_zero hCovers
  rw [← hPages]
  exact (congrArg AddrSpace.npages2 hSame).symm

/-- When the second region is in the first page, the third call is not refused. -/
theorem not_sound_of_accepted (hDefined : s.defined = [r, r']) (hBase : s.as.vbase1 ≠ 0)
    (hBase2 : s.as.vbase2 = 0) : ¬Sound s c (s.call c) := by
  have hNext : nextRegion s.defined.length = none := by
    rw [hDefined]
    rfl
  unfold Sound
  rw [hNext, define_two c hBase hBase2]
  rintro ⟨hCode, -⟩
  cases hCode

theorem sound_iff_careful (h : s.Inv) : Sound s c (s.call c) ↔ s.Careful c := by
  unfold Careful
  match hDefined : s.defined with
  | [] =>
    rw [Inv, hDefined] at h
    have hNext : nextRegion s.defined.length = some .one := by
      rw [hDefined]
      rfl
    rw [sound_region_iff hNext (define_one c h.1)]
    simp
  | [r] =>
    rw [Inv, hDefined] at h
    obtain ⟨hOne, hTwo, hPages⟩ := h
    have hNext : nextRegion s.defined.length = some .two := by
      rw [hDefined]
      rfl
    by_cases hBase : s.as.vbase1 = 0
    · simp only [not_sound_of_overwritten hDefined hBase hPages, false_iff]
      rintro ⟨hAll, -⟩
      exact (base_ne_zero_iff hOne).mpr (hAll r (List.mem_singleton.mpr rfl)) hBase
    · have hHigh := (base_ne_zero_iff hOne).mp hBase
      rw [sound_region_iff hNext (define_two c hBase hTwo)]
      simpa using fun _ => hHigh
  | [r, r'] =>
    rw [Inv, hDefined] at h
    obtain ⟨hOne, hFirst, hTwo⟩ := h
    have hBase := (base_ne_zero_iff hOne).mpr hFirst
    by_cases hBase2 : s.as.vbase2 = 0
    · simp only [not_sound_of_accepted hDefined hBase hBase2, false_iff]
      rintro ⟨hAll, -⟩
      exact (base_ne_zero_iff hTwo).mpr (hAll r' (by simp)) hBase2
    · have hNext : nextRegion s.defined.length = none := by
        rw [hDefined]
        rfl
      have hHigh := (base_ne_zero_iff hTwo).mp hBase2
      unfold Sound
      rw [hNext, define_none c hBase hBase2, call_eq_of_refused (define_none c hBase hBase2)]
      simpa using ⟨hFirst, hHigh⟩
  | _ :: _ :: _ :: _ =>
    rw [Inv, hDefined] at h
    exact h.elim

theorem Inv.call (h : s.Inv) (hCareful : s.Careful c) : (s.call c).Inv := by
  match hDefined : s.defined with
  | [] =>
    rw [Inv, hDefined] at h
    rw [call_eq_of_ok (define_one c h.1), hDefined]
    exact ⟨rfl, h.2⟩
  | [r] =>
    rw [Inv, hDefined] at h
    have hFirst : 4096 ≤ r.vaddr.toNat := hCareful.1 r (by simp [hDefined])
    rw [call_eq_of_ok (define_two c ((base_ne_zero_iff h.1).mpr hFirst) h.2.1), hDefined]
    exact ⟨h.1, hFirst, rfl⟩
  | [r, r'] =>
    have hInv := h
    rw [Inv, hDefined] at h
    have hFirst : 4096 ≤ r.vaddr.toNat := hCareful.1 r (by simp [hDefined])
    have hSecond : 4096 ≤ r'.vaddr.toNat := hCareful.1 r' (by simp [hDefined])
    have hBase := (base_ne_zero_iff h.1).mpr hFirst
    have hBase2 := (base_ne_zero_iff h.2.2).mpr hSecond
    rw [call_eq_of_refused (define_none c hBase hBase2)]
    exact hInv
  | _ :: _ :: _ :: _ =>
    rw [Inv, hDefined] at h
    exact h.elim

/-- **Defining regions**: the sequences of calls in which every call does what it is to do are
those without a call after a region in the first page and without one that wraps around. -/
theorem define_region_iff {tr : List RegionRequest} :
    Run (Meeting Step Sound) fresh tr t ↔ Run (Guarded Step Careful) fresh tr t := by
  apply Run.meeting_iff_guarded inv_fresh
  · rintro s c u hInv rfl hCareful
    exact hInv.call hCareful
  · rintro s c u hInv rfl
    exact sound_iff_careful hInv

/-! ## A region at address 0 -/

def nullRegion : RegionRequest := ⟨0, 0x1000, by decide, by decide⟩

def textRegion : RegionRequest := ⟨0x400010, 0x2345, by decide, by decide⟩

/-- The region at 0 is lost with the next call. -/
theorem null_region_lost : ∃ t, Run Step fresh [nullRegion, textRegion] t ∧
    t.defined = [nullRegion, textRegion] ∧
    t.as = asCreate.setRegion 0x400000 3 .one ∧
    ¬Run (Meeting Step Sound) fresh [nullRegion, textRegion] t := by
  refine ⟨(fresh.call nullRegion).call textRegion, .snoc (.snoc .refl rfl) rfl, rfl, rfl, ?_⟩
  intro hRun
  obtain ⟨s, ⟨rfl, -⟩, hRest⟩ := hRun.uncons
  obtain ⟨u, ⟨rfl, hSound⟩, -⟩ := hRest.uncons
  exact not_sound_of_overwritten rfl rfl rfl hSound

end Defining

end Windborne.OS161
