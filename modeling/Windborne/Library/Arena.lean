import Mathlib.Logic.Function.Basic

/-!
# Bump allocation

An arena hands out consecutive blocks of `[lo, hi)` to owners and never takes space back.
The fields say that every owned block lies in the part handed out so far and that blocks of
different owners are apart, so no operation can break either.
-/

namespace Windborne.Library

structure Block where
  base : Nat
  size : Nat
  deriving DecidableEq

namespace Block

def Within (b c : Block) : Prop := c.base ≤ b.base ∧ b.base + b.size ≤ c.base + c.size

/-- One block ends before the other begins. -/
def Apart (b c : Block) : Prop := b.base + b.size ≤ c.base ∨ c.base + c.size ≤ b.base

/-- The address `a` belongs to the block. -/
def Has (b : Block) (a : Nat) : Prop := b.base ≤ a ∧ a < b.base + b.size

instance (b : Block) : DecidablePred b.Has := fun _ => inferInstanceAs (Decidable (_ ∧ _))

theorem Apart.not_has {b c : Block} {a : Nat} (h : b.Apart c) (hb : b.Has a) : ¬c.Has a := by
  rintro ⟨hLow, hHigh⟩
  obtain ⟨hLow', hHigh'⟩ := hb
  rcases h with h | h
  · omega
  · omega

/-- Parts of blocks that are apart are apart. -/
theorem Apart.mono {b b' c c' : Block} (h : b.Apart c) (hb : b'.Within b) (hc : c'.Within c) :
    b'.Apart c' := by
  unfold Within at hb hc
  rcases h with h | h
  · left
    omega
  · right
    omega

end Block

/-- The arena `[lo, hi)`, handed out up to `next`, and the block of each owner. -/
structure Arena (ω : Type*) where
  lo : Nat
  next : Nat
  hi : Nat
  owned : ω → Option Block
  lo_le : lo ≤ next
  inside : ∀ o b, owned o = some b → lo ≤ b.base ∧ b.base + b.size ≤ next
  bounded : ∀ o b, owned o = some b → b.base + b.size ≤ hi
  apart : ∀ o o' b b', o ≠ o' → owned o = some b → owned o' = some b' → b.Apart b'

namespace Arena

variable {ω : Type*} (A : Arena ω)

def start (ω : Type*) (lo hi : Nat) : Arena ω where
  lo := lo
  next := lo
  hi := hi
  owned _ := none
  lo_le := Nat.le_refl lo
  inside _ _ h := by cases h
  bounded _ _ h := by cases h
  apart _ _ _ _ _ h := by cases h

/-- Space that nobody gets. -/
def skip (size : Nat) : Arena ω :=
  { A with
    next := A.next + size
    lo_le := Nat.le_add_right_of_le A.lo_le
    inside := fun o b h =>
      ⟨(A.inside o b h).1, Nat.le_add_right_of_le (A.inside o b h).2⟩ }

/-- The next block goes to `o`. -/
def grant [DecidableEq ω] (o : ω) (size : Nat) (hFits : A.next + size ≤ A.hi) : Arena ω where
  lo := A.lo
  next := A.next + size
  hi := A.hi
  owned := Function.update A.owned o (some ⟨A.next, size⟩)
  lo_le := Nat.le_add_right_of_le A.lo_le
  inside o' b h := by
    by_cases ho : o' = o
    · subst ho
      rw [Function.update_self] at h
      cases h
      exact ⟨A.lo_le, Nat.le_refl _⟩
    · rw [Function.update_of_ne ho] at h
      exact ⟨(A.inside o' b h).1, Nat.le_add_right_of_le (A.inside o' b h).2⟩
  bounded o' b h := by
    by_cases ho : o' = o
    · subst ho
      rw [Function.update_self] at h
      cases h
      exact hFits
    · rw [Function.update_of_ne ho] at h
      exact A.bounded o' b h
  apart o1 o2 b1 b2 hNe h1 h2 := by
    by_cases ho1 : o1 = o
    · subst ho1
      rw [Function.update_self] at h1
      rw [Function.update_of_ne hNe.symm] at h2
      cases h1
      exact Or.inr (A.inside o2 b2 h2).2
    · rw [Function.update_of_ne ho1] at h1
      by_cases ho2 : o2 = o
      · subst ho2
        rw [Function.update_self] at h2
        cases h2
        exact Or.inl (A.inside o1 b1 h1).2
      · rw [Function.update_of_ne ho2] at h2
        exact A.apart o1 o2 b1 b2 hNe h1 h2

/-- Some owners give up their blocks; the space is not used again. -/
def restrict (owned : ω → Option Block) (h : ∀ o b, owned o = some b → A.owned o = some b) :
    Arena ω :=
  { A with
    owned := owned
    inside := fun o b hb => A.inside o b (h o b hb)
    bounded := fun o b hb => A.bounded o b (h o b hb)
    apart := fun o o' b b' hNe hb hb' => A.apart o o' b b' hNe (h o b hb) (h o' b' hb') }

end Arena

end Windborne.Library
