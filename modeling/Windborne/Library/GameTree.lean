import Mathlib.Order.Lattice
import Mathlib.Order.MinMax
import Mathlib.Data.List.MinMax

/-!
# Depth-limited game trees: minimax values, windows and forcing

A game tree is given by its successor function, its terminal positions and the player to
move. `minimax` is the plain value to a given depth, over any linear order. The window
lemmas say what a search loop may conclude from a child value that is only known up to
clamping, and `lt_minimax_iff` reads a lower bound on the value as a strategy: the
maximising player can force a position whose own value is above the bound.
-/

namespace Windborne.Library

variable {σ α : Type*} [LinearOrder α]

/-! ## Windows -/

/-- `x` clamped to the window `[a, b]`. -/
def clamp (a b x : α) : α := max a (min x b)

theorem clamp_eq_min {a b : α} (h : a ≤ b) (x : α) : clamp a b x = min b (max a x) := by
  unfold clamp
  rcases le_total x b with hx | hx
  · rw [min_eq_left hx, min_eq_right (max_le h hx)]
  · rw [min_eq_right hx, max_eq_right h, min_eq_left (hx.trans (le_max_right a x))]

theorem clamp_clamp (a b x : α) : clamp a b (clamp a b x) = clamp a b x := by
  unfold clamp
  rcases le_total a b with h | h
  · rw [min_eq_left (max_le h (min_le_right x b)), max_eq_right (le_max_left _ _)]
  · rw [max_eq_left ((min_le_right x b).trans h), max_eq_left (min_le_left a b)]

/-- A child value that is right up to clamping decides the cut at `b` correctly. -/
theorem le_max_iff_of_clamp_eq {a b r v : α} (h : a ≤ b) (hv : clamp a b r = clamp a b v) :
    b ≤ max a r ↔ b ≤ max a v := by
  rw [clamp_eq_min h, clamp_eq_min h] at hv
  rw [← min_eq_left_iff, ← min_eq_left_iff, hv]

/-- Below the cut, such a value raises the lower end of the window correctly. -/
theorem max_eq_of_clamp_eq {a b r v : α} (h : a ≤ b) (hv : clamp a b r = clamp a b v)
    (hr : max a r < b) : max a r = max a v := by
  have hv' : max a v < b := by
    rw [← not_le, ← le_max_iff_of_clamp_eq h hv, not_le]
    exact hr
  rw [clamp_eq_min h, clamp_eq_min h, min_eq_right hr.le, min_eq_right hv'.le] at hv
  exact hv

theorem min_le_iff_of_clamp_eq {a b r v : α} (hv : clamp a b r = clamp a b v) :
    min b r ≤ a ↔ min b v ≤ a := by
  unfold clamp at hv
  rw [min_comm b r, min_comm b v, ← max_eq_left_iff, ← max_eq_left_iff, hv]

theorem min_eq_of_clamp_eq {a b r v : α} (hv : clamp a b r = clamp a b v)
    (hr : a < min b r) : min b r = min b v := by
  have hv' : a < min b v := by
    rw [← not_le, ← min_le_iff_of_clamp_eq hv, not_le]
    exact hr
  unfold clamp at hv
  rw [min_comm r b, min_comm v b, max_eq_right hr.le, max_eq_right hv'.le] at hv
  exact hv

theorem lt_iff_of_clamp_eq {a b r v : α} (h : a < b) (hv : clamp a b r = clamp a b v) :
    a < r ↔ a < v := by
  have hClamp : ∀ x, a < x ↔ a < clamp a b x := by
    intro x
    rw [clamp, lt_max_iff, lt_min_iff]
    exact ⟨fun hx => Or.inr ⟨hx, h⟩, fun hx => (hx.resolve_left (lt_irrefl a)).1⟩
  rw [hClamp r, hClamp v, hv]

/-! ## Folding a maximum or a minimum -/

theorem le_foldl_max (a : α) (vs : List α) : a ≤ vs.foldl max a := by
  induction vs generalizing a with
  | nil => exact le_rfl
  | cons v vs ih => exact (le_max_left a v).trans (ih _)

theorem foldl_min_le (a : α) (vs : List α) : vs.foldl min a ≤ a := by
  induction vs generalizing a with
  | nil => exact le_rfl
  | cons v vs ih => exact (ih _).trans (min_le_left a v)

theorem foldl_max_eq {a m : α} {vs : List α} (h : vs.max? = some m) :
    vs.foldl max a = max a m := by
  cases vs with
  | nil => cases h
  | cons v vs =>
    rw [List.max?_cons', Option.some.injEq] at h
    rw [List.foldl_cons, List.foldl_assoc, h]

theorem foldl_min_eq {a m : α} {vs : List α} (h : vs.min? = some m) :
    vs.foldl min a = min a m := by
  cases vs with
  | nil => cases h
  | cons v vs =>
    rw [List.min?_cons', Option.some.injEq] at h
    rw [List.foldl_cons, List.foldl_assoc, h]

theorem lt_max_iff_exists {t m : α} {vs : List α} (h : vs.max? = some m) :
    t < m ↔ ∃ v ∈ vs, t < v := by
  rw [List.max?_eq_some_iff] at h
  constructor
  · exact fun ht => ⟨m, h.1, ht⟩
  · rintro ⟨v, hv, ht⟩
    exact ht.trans_le (h.2 v hv)

theorem lt_min_iff_forall {t m : α} {vs : List α} (h : vs.min? = some m) :
    t < m ↔ ∀ v ∈ vs, t < v := by
  rw [List.min?_eq_some_iff] at h
  constructor
  · exact fun ht v hv => ht.trans_le (h.2 v hv)
  · exact fun ht => ht m h.1

/-! ## Game trees -/

/-- The tree below a position: its successors in order, the positions where the game has
ended, and the positions where the maximising player moves. -/
structure GameTree (σ : Type*) where
  expand : σ → List σ
  terminal : σ → Bool
  isMax : σ → Bool

namespace GameTree

variable (G : GameTree σ)

/-- The plain depth-limited minimax value. A position without successors that is not
terminal keeps its own value. -/
def minimax (value : σ → α) : Nat → σ → α
  | 0, s => value s
  | n + 1, s =>
    if G.terminal s then value s
    else if G.isMax s then (((G.expand s).map (minimax value n)).max?).getD (value s)
    else (((G.expand s).map (minimax value n)).min?).getD (value s)

/-- The maximising player can force a `good` position within the given depth. -/
def CanForce (good : σ → Prop) : Nat → σ → Prop
  | 0, s => good s
  | n + 1, s =>
    if G.terminal s then good s
    else if G.isMax s then ∃ c ∈ G.expand s, CanForce good n c
    else ∀ c ∈ G.expand s, CanForce good n c

/-- Inside the closed set `P`, every position that is not terminal has a successor. -/
structure Live (P : σ → Prop) : Prop where
  expand_ne_nil : ∀ s, P s → G.terminal s = false → G.expand s ≠ []
  closed : ∀ s, P s → ∀ c ∈ G.expand s, P c

variable {G}

theorem exists_max (value : σ → α) {cs : List σ} (h : cs ≠ []) :
    ∃ m, (cs.map value).max? = some m := by
  cases cs with
  | nil => exact absurd rfl h
  | cons c cs => exact ⟨_, List.max?_cons'⟩

theorem exists_min (value : σ → α) {cs : List σ} (h : cs ≠ []) :
    ∃ m, (cs.map value).min? = some m := by
  cases cs with
  | nil => exact absurd rfl h
  | cons c cs => exact ⟨_, List.min?_cons'⟩

theorem minimax_terminal (value : σ → α) {n : Nat} {s : σ} (hT : G.terminal s = true) :
    G.minimax value n s = value s := by
  cases n with
  | zero => rfl
  | succ n => rw [minimax, if_pos hT]

theorem minimax_max {value : σ → α} {n : Nat} {s : σ} {m : α} (hT : G.terminal s = false)
    (hM : G.isMax s = true) (hm : ((G.expand s).map (G.minimax value n)).max? = some m) :
    G.minimax value (n + 1) s = m := by
  rw [minimax, hT, if_neg Bool.false_ne_true, if_pos hM, hm]
  rfl

theorem minimax_min {value : σ → α} {n : Nat} {s : σ} {m : α} (hT : G.terminal s = false)
    (hM : G.isMax s = false) (hm : ((G.expand s).map (G.minimax value n)).min? = some m) :
    G.minimax value (n + 1) s = m := by
  rw [minimax, hT, if_neg Bool.false_ne_true, hM, if_neg Bool.false_ne_true, hm]
  rfl

/-- The value of a position lies between any two bounds on the values of the positions. -/
theorem minimax_mem_bounds {value : σ → α} {lo hi : α}
    (h : ∀ s, lo ≤ value s ∧ value s ≤ hi) (n : Nat) (s : σ) :
    lo ≤ G.minimax value n s ∧ G.minimax value n s ≤ hi := by
  induction n generalizing s with
  | zero => exact h s
  | succ n ih =>
    have hMem : ∀ m ∈ (G.expand s).map (G.minimax value n), lo ≤ m ∧ m ≤ hi := by
      intro m hm
      obtain ⟨c, -, rfl⟩ := List.mem_map.mp hm
      exact ih c
    rw [minimax]
    split
    · exact h s
    · split
      · cases hMax : ((G.expand s).map (G.minimax value n)).max? with
        | none => exact h s
        | some m => exact hMem m (List.max?_eq_some_iff.mp hMax).1
      · cases hMin : ((G.expand s).map (G.minimax value n)).min? with
        | none => exact h s
        | some m => exact hMem m (List.min?_eq_some_iff.mp hMin).1

/-- The value exceeds `t` exactly when a position whose own value exceeds `t` can be
forced. -/
theorem lt_minimax_iff {P : σ → Prop} (hG : G.Live P) (value : σ → α) (t : α) (n : Nat) {s : σ}
    (hs : P s) : t < G.minimax value n s ↔ G.CanForce (fun p => t < value p) n s := by
  induction n generalizing s with
  | zero => rfl
  | succ n ih =>
    unfold CanForce
    cases hT : G.terminal s with
    | true =>
      rw [minimax_terminal value hT, if_pos rfl]
    | false =>
      have hne := hG.expand_ne_nil s hs hT
      have hChild := fun c hc => ih (hG.closed s hs c hc)
      rw [if_neg Bool.false_ne_true]
      cases hM : G.isMax s with
      | true =>
        obtain ⟨m, hm⟩ := exists_max (G.minimax value n) hne
        rw [minimax_max hT hM hm, lt_max_iff_exists hm, if_pos rfl]
        simp only [List.mem_map, exists_exists_and_eq_and]
        exact exists_congr fun c => and_congr_right fun hc => hChild c hc
      | false =>
        obtain ⟨m, hm⟩ := exists_min (G.minimax value n) hne
        rw [minimax_min hT hM hm, lt_min_iff_forall hm, List.forall_mem_map,
          if_neg Bool.false_ne_true]
        exact forall₂_congr fun c hc => hChild c hc

end GameTree

end Windborne.Library
