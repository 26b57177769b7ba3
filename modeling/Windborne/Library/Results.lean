import Mathlib.Algebra.Group.Defs
import Mathlib.Logic.Basic

/-!
# Computations that may fail

`Except` programs are taken apart bind by bind: a program that returns a value has
returned one at each step.
-/

namespace Windborne.Library

variable {ε α β : Type}

@[simp] theorem ok_bind (a : α) (f : α → Except ε β) :
    ((Except.ok a : Except ε α) >>= f) = f a := rfl

@[simp] theorem pure_eq_ok (a : α) : (pure a : Except ε α) = .ok a := rfl

@[simp] theorem error_bind (e : ε) (f : α → Except ε β) :
    ((Except.error e : Except ε α) >>= f) = .error e := rfl

@[simp] theorem throw_eq_error (e : ε) : (throw e : Except ε α) = .error e := rfl

theorem bind_eq_ok {x : Except ε α} {f : α → Except ε β} {b : β} :
    x >>= f = .ok b ↔ ∃ a, x = .ok a ∧ f a = .ok b := by
  cases x with
  | error e => exact ⟨fun h => (nomatch h), fun ⟨_, h, _⟩ => (nomatch h)⟩
  | ok a =>
    constructor
    · intro h
      exact ⟨a, rfl, h⟩
    · rintro ⟨_, ⟨⟩, h⟩
      exact h

/-! ## Loops that add up -/

/-- A loop whose rounds each add a number adds their sum. -/
theorem foldlM_add {M : Type} [AddMonoid M] {xs : List α} {round : M → α → Except ε M}
    {g : α → M} (h : ∀ x ∈ xs, ∀ acc, round acc x = .ok (acc + g x)) (start : M) :
    xs.foldlM round start = .ok (start + (xs.map g).sum) := by
  induction xs generalizing start with
  | nil => simp
  | cons x xs ih =>
    have hRest := ih fun y hy => h y (List.mem_cons_of_mem x hy)
    rw [List.foldlM_cons, h x List.mem_cons_self, ok_bind, hRest, List.map_cons, List.sum_cons,
      add_assoc]

/-- A loop with a round that fails fails. -/
theorem foldlM_error {xs : List α} {round : β → α → Except ε β} {x : α} (hx : x ∈ xs)
    (h : ∀ acc, ∃ e, round acc x = .error e) (start : β) :
    ∃ e, xs.foldlM round start = .error e := by
  induction xs generalizing start with
  | nil => cases hx
  | cons y xs ih =>
    rw [List.foldlM_cons]
    rcases List.mem_cons.mp hx with rfl | hTail
    · obtain ⟨e, he⟩ := h start
      rw [he]
      exact ⟨e, rfl⟩
    · cases round start y with
      | error e => exact ⟨e, rfl⟩
      | ok acc => exact ih hTail acc

/-! ## Postconditions -/

/-- `x` returns a value that satisfies `P` or fails with an error that satisfies `E`. -/
def Post (x : Except ε α) (P : α → Prop) (E : ε → Prop) : Prop :=
  match x with
  | .ok a => P a
  | .error e => E e

namespace Post

variable {x : Except ε α} {P Q : α → Prop} {E : ε → Prop}

theorem ok {a : α} (h : P a) : Post (.ok a) P E := h

theorem error {e : ε} (h : E e) : Post (.error e) P E := h

theorem bind {f : α → Except ε β} {R : β → Prop} (hx : Post x P E)
    (hf : ∀ a, P a → Post (f a) R E) : Post (x >>= f) R E := by
  cases x with
  | error e => exact hx
  | ok a => exact hf a hx

theorem of_eq_ok (hx : Post x P E) {a : α} (h : x = .ok a) : P a := by
  subst h
  exact hx

theorem weaken {F : ε → Prop} (hx : Post x P E) (hEF : ∀ e, E e → F e) : Post x P F := by
  cases x with
  | error e => exact hEF e hx
  | ok a => exact hx

theorem and {F : ε → Prop} (hx : Post x P E) (hy : Post x Q F) :
    Post x (fun a => P a ∧ Q a) E := by
  cases x with
  | error e => exact hx
  | ok a => exact ⟨hx, hy⟩

theorem mono (hx : Post x P E) (hPQ : ∀ a, P a → Q a) : Post x Q E := by
  cases x with
  | error e => exact hx
  | ok a => exact hPQ a hx

end Post

end Windborne.Library
