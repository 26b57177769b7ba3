import Mathlib.Logic.Basic

/-!
# Call stacks that keep a level

An activation of a function remembers the value that some global level had when the function
was called. `LevelSpec` says for each point of the code at which levels it can be, and at
which levels the function can come back. `Balanced` says that a whole stack goes with the
level of the moment: whenever the innermost activation comes back, its caller finds a level
that it can go on with. The rules follow what happens to a stack: the innermost activation
goes to another point, calls a function, or comes back. A program is given by its `flow`: what
an activation can do next, and the level after it. For a `Sound` specification every effect of
the program keeps a stack balanced.
-/

namespace Windborne.Library

variable {C L : Type*}

structure Activation (C L : Type*) where
  entry : L
  code : C
  deriving DecidableEq

/-- `inside c e l`: an activation that was called at level `e` can be at `c` with level `l`.
`leaves c e l`: from `c` on, it can come back at level `l`. -/
structure LevelSpec (C L : Type*) where
  inside : C → L → L → Prop
  leaves : C → L → L → Prop

/-- The innermost activation comes first. -/
def Balanced (S : LevelSpec C L) : List (Activation C L) → L → Prop
  | [], _ => True
  | a :: rest, l =>
    S.inside a.code a.entry l ∧ ∀ l', S.leaves a.code a.entry l' → Balanced S rest l'

namespace Balanced

variable {S : LevelSpec C L} {rest : List (Activation C L)} {e l l' : L} {c c' : C}

theorem inside (h : Balanced S (⟨e, c⟩ :: rest) l) : S.inside c e l := h.1

/-- The function goes on at another point, from which it does not come back in more ways. -/
theorem goTo (h : Balanced S (⟨e, c⟩ :: rest) l) (hInside : S.inside c' e l')
    (hLeaves : ∀ m, S.leaves c' e m → S.leaves c e m) : Balanced S (⟨e, c'⟩ :: rest) l' :=
  ⟨hInside, fun m hm => h.2 m (hLeaves m hm)⟩

/-- The function calls another one and is at `c'` when that comes back. -/
theorem call {callee : C} {m m' : L} (h : Balanced S (⟨e, c⟩ :: rest) l)
    (hCallee : S.inside callee m m') (hBack : ∀ n, S.leaves callee m n → S.inside c' e n)
    (hLeaves : ∀ n, S.leaves c' e n → S.leaves c e n) :
    Balanced S (⟨m, callee⟩ :: ⟨e, c'⟩ :: rest) m' :=
  ⟨hCallee, fun n hn => h.goTo (hBack n hn) hLeaves⟩

/-- The function comes back. -/
theorem pop (h : Balanced S (⟨e, c⟩ :: rest) l) (hLeaves : S.leaves c e l') : Balanced S rest l' :=
  h.2 l' hLeaves

/-- A new activation on top of a stack that is left alone. -/
theorem push {m m' : L} (hCallee : S.inside c m m')
    (hBack : ∀ n, S.leaves c m n → Balanced S rest n) :
    Balanced S (⟨m, c⟩ :: rest) m' :=
  ⟨hCallee, hBack⟩

end Balanced

/-! ## Programs -/

/-- What an activation does next. A caller goes on with what `answer` makes of its code. -/
inductive Effect (C : Type*) where
  | goTo (code : C)
  | call (after callee : C)
  | ret (answer : C → C)

/-- The stack after an effect; a call remembers the level `l`. -/
def Effect.apply (l : L) : Effect C → List (Activation C L) → List (Activation C L)
  | .goTo code, f :: rest => ⟨f.entry, code⟩ :: rest
  | .call after callee, f :: rest => ⟨l, callee⟩ :: ⟨f.entry, after⟩ :: rest
  | .ret answer, _ :: f :: rest => ⟨f.entry, answer f.code⟩ :: rest
  | _, _ => []

/-- The effects of a program go with a specification. -/
structure LevelSpec.Sound (S : LevelSpec C L) (flow : C → L → Effect C → L → Prop) : Prop where
  goTo {c c' : C} {e l l' : L} (hFlow : flow c l (.goTo c') l') (h : S.inside c e l) :
    S.inside c' e l' ∧ ∀ m, S.leaves c' e m → S.leaves c e m
  call {c after callee : C} {e l l' : L} (hFlow : flow c l (.call after callee) l')
    (h : S.inside c e l) : S.inside callee l' l' ∧
      (∀ m, S.leaves callee l' m → S.inside after e m) ∧ ∀ m, S.leaves after e m → S.leaves c e m
  ret {c : C} {answer : C → C} {e l l' : L} (hFlow : flow c l (.ret answer) l')
    (h : S.inside c e l) : S.leaves c e l' ∧ ∀ d f, S.inside d f l' →
      S.inside (answer d) f l' ∧ ∀ m, S.leaves (answer d) f m → S.leaves d f m

/-- **Step rule.** -/
theorem Balanced.effect {S : LevelSpec C L} {flow : C → L → Effect C → L → Prop}
    (hSound : S.Sound flow) {c : C} {e l l' : L} {E : Effect C} {rest : List (Activation C L)}
    (h : Balanced S (⟨e, c⟩ :: rest) l) (hFlow : flow c l E l') :
    Balanced S (E.apply l' (⟨e, c⟩ :: rest)) l' := by
  cases E with
  | goTo c' =>
    obtain ⟨hInside, hLeaves⟩ := hSound.goTo hFlow h.inside
    exact h.goTo hInside hLeaves
  | call after callee =>
    obtain ⟨hCallee, hBack, hLeaves⟩ := hSound.call hFlow h.inside
    exact h.call hCallee hBack hLeaves
  | ret answer =>
    obtain ⟨hLeave, hAnswer⟩ := hSound.ret hFlow h.inside
    have hRest := h.pop hLeave
    cases rest with
    | nil => exact trivial
    | cons f rest =>
      obtain ⟨hInside, hLeaves⟩ := hAnswer f.code f.entry hRest.1
      exact Balanced.goTo hRest hInside hLeaves

/-- The levels of the calls, the outermost first. -/
def entries (stack : List (Activation C L)) : List L := (stack.map Activation.entry).reverse

theorem entries_cons (f : Activation C L) (rest : List (Activation C L)) :
    entries (f :: rest) = entries rest ++ [f.entry] := by
  simp [entries]

/-- The levels of the calls that stay are left alone. -/
theorem entries_apply (E : Effect C) (l : L) (stack : List (Activation C L)) :
    entries (E.apply l stack) <+: entries stack ∨ entries stack <+: entries (E.apply l stack) := by
  cases stack with
  | nil =>
    right
    exact List.nil_prefix
  | cons f rest =>
    cases E with
    | goTo code =>
      left
      simp only [Effect.apply, entries_cons]
      exact List.prefix_refl _
    | call after callee =>
      right
      simp only [Effect.apply, entries_cons]
      exact List.prefix_append _ _
    | ret answer =>
      left
      cases rest with
      | nil => exact List.nil_prefix
      | cons f' rest =>
        simp only [Effect.apply, entries_cons]
        exact List.prefix_append _ _

/-- Calls that are on both stacks were called at the same level. -/
theorem entries_getElem? {old new : List (Activation C L)} {i : Nat}
    (h : entries new <+: entries old ∨ entries old <+: entries new) (hOld : i < old.length)
    (hNew : i < new.length) : (entries new)[i]? = (entries old)[i]? := by
  have hOld' : i < (entries old).length := by simpa [entries] using hOld
  have hNew' : i < (entries new).length := by simpa [entries] using hNew
  rcases h with hPrefix | hPrefix
  · rw [List.prefix_iff_getElem?.mp hPrefix i hNew', List.getElem?_eq_getElem hNew']
  · rw [List.prefix_iff_getElem?.mp hPrefix i hOld', List.getElem?_eq_getElem hOld']

end Windborne.Library
