import Mathlib.Algebra.BigOperators.Group.List.Basic
import Mathlib.Algebra.Order.Ring.Int
import Mathlib.Tactic.Ring

/-!
# Weighted sums of an integer vector

`weigh w k vs` adds up the entries of `vs`, the entry at offset `i` with weight
`w (k + i)`. Totals, single entries and potentials are all of this form, so one equation
for the effect of an update on `weigh` gives its effect on each of them.
-/

namespace Windborne.Library

def weigh (w : Int → Int) : Int → List Int → Int
  | _, [] => 0
  | k, v :: vs => w k * v + weigh w (k + 1) vs

@[simp] theorem weigh_nil (w : Int → Int) (k : Int) : weigh w k [] = 0 := rfl

@[simp] theorem weigh_cons (w : Int → Int) (k v : Int) (vs : List Int) :
    weigh w k (v :: vs) = w k * v + weigh w (k + 1) vs := rfl

theorem weigh_set (w : Int → Int) (k : Int) (vs : List Int) (i : Nat) (x : Int)
    (h : i < vs.length) : weigh w k (vs.set i x) = weigh w k vs + w (k + i) * (x - vs[i]) := by
  induction vs generalizing k i with
  | nil => exact absurd h (Nat.not_lt_zero i)
  | cons v vs ih =>
    cases i with
    | zero =>
      simp only [List.set_cons_zero, weigh_cons, List.getElem_cons_zero, Nat.cast_zero, add_zero]
      ring
    | succ i =>
      have hi : i < vs.length := Nat.lt_of_succ_lt_succ h
      simp only [List.set_cons_succ, weigh_cons, List.getElem_cons_succ, ih _ i hi]
      have hk : k + 1 + (i : Int) = k + ((i + 1 : Nat) : Int) := by push_cast; ring
      rw [hk]
      ring

/-- The total is the weighted sum with weight one. -/
theorem weigh_one (k : Int) (vs : List Int) : weigh (fun _ => 1) k vs = vs.sum := by
  induction vs generalizing k with
  | nil => rfl
  | cons v vs ih => simp [ih]

theorem weigh_sub (w w' : Int → Int) (k : Int) (vs : List Int) :
    weigh (fun i => w i - w' i) k vs = weigh w k vs - weigh w' k vs := by
  induction vs generalizing k with
  | nil => rfl
  | cons v vs ih => simp only [weigh_cons, ih]; ring

theorem weigh_nonneg {w : Int → Int} (hw : ∀ i, 0 ≤ w i) (k : Int) {vs : List Int}
    (hv : ∀ v ∈ vs, 0 ≤ v) : 0 ≤ weigh w k vs := by
  induction vs generalizing k with
  | nil => exact le_rfl
  | cons v vs ih =>
    have hHead := mul_nonneg (hw k) (hv v List.mem_cons_self)
    have hTail := ih (k + 1) fun u hu => hv u (List.mem_cons_of_mem _ hu)
    exact add_nonneg hHead hTail

theorem weigh_eq_zero {w : Int → Int} {k : Int} {vs : List Int}
    (h : ∀ i, k ≤ i → w i = 0) : weigh w k vs = 0 := by
  induction vs generalizing k with
  | nil => rfl
  | cons v vs ih =>
    rw [weigh_cons, h k le_rfl, ih fun i hi => h i (by omega)]
    ring

/-- The weight that picks one offset. -/
def pick (j i : Int) : Int := if i = j then 1 else 0

theorem pick_nonneg (j i : Int) : 0 ≤ pick j i := by
  unfold pick
  split <;> decide

theorem pick_self (j : Int) : pick j j = 1 := if_pos rfl

theorem pick_ne {i j : Int} (h : i ≠ j) : pick j i = 0 := if_neg h

/-- A single entry is the weighted sum that picks it. -/
theorem weigh_pick (k : Int) (vs : List Int) (i : Nat) (h : i < vs.length) :
    weigh (pick (k + i)) k vs = vs[i] := by
  induction vs generalizing k i with
  | nil => exact absurd h (Nat.not_lt_zero i)
  | cons v vs ih =>
    cases i with
    | zero =>
      have hRest : weigh (pick (k + (0 : Nat))) (k + 1) vs = 0 :=
        weigh_eq_zero fun i hi => pick_ne (by omega)
      rw [weigh_cons, hRest]
      simp [pick_self]
    | succ i =>
      have hi : i < vs.length := Nat.lt_of_succ_lt_succ h
      have hk : k + ((i + 1 : Nat) : Int) = k + 1 + i := by push_cast; ring
      rw [weigh_cons, hk, pick_ne (by omega), ih (k + 1) i hi]
      simp

theorem weigh_append (w : Int → Int) (k : Int) (us vs : List Int) :
    weigh w k (us ++ vs) = weigh w k us + weigh w (k + us.length) vs := by
  induction us generalizing k with
  | nil => simp
  | cons u us ih =>
    have hk : k + 1 + (us.length : Int) = k + ((us.length + 1 : Nat) : Int) := by push_cast; ring
    rw [List.cons_append, weigh_cons, weigh_cons, ih, List.length_cons, hk, add_assoc]

/-- Only the weights at the offsets of the vector count. -/
theorem weigh_congr {w w' : Int → Int} {k k' : Int} {vs : List Int}
    (h : ∀ i : Nat, i < vs.length → w (k + i) = w' (k' + i)) : weigh w k vs = weigh w' k' vs := by
  induction vs generalizing k k' with
  | nil => rfl
  | cons v vs ih =>
    have hHead : w k = w' k' := by simpa using h 0 (Nat.succ_pos _)
    rw [weigh_cons, weigh_cons, hHead]
    congr 1
    apply ih
    intro i hi
    have hNext := h (i + 1) (Nat.succ_lt_succ hi)
    have hk : ∀ j : Int, j + ((i + 1 : Nat) : Int) = j + 1 + i := by intro j; push_cast; ring
    rwa [hk, hk] at hNext

/-- The weighted sums tell vectors of one length apart. -/
theorem eq_of_weigh {us vs : List Int} (hLength : us.length = vs.length)
    (h : ∀ w, weigh w 0 us = weigh w 0 vs) : us = vs := by
  apply List.ext_getElem hLength
  intro i hi hi'
  rw [← weigh_pick 0 us i hi, ← weigh_pick 0 vs i hi', h]

end Windborne.Library
