import Mathlib.Logic.Basic

/-!
# Programs that handle items until they fail

A feed is a list of items and failures. A program performs a feed when it puts the items up to the
first failure into its state and ends with that failure; what it has put there stays. A program
that appends the items to a list follows the feed.
-/

namespace Windborne.Library

variable {ε α β : Type}

abbrev Feed (ε α : Type) := List (Except ε α)

namespace Feed

/-- The first failure. -/
def outcome : Feed ε α → Except ε Unit
  | [] => .ok ()
  | .ok _ :: feed => outcome feed
  | .error e :: _ => .error e

/-- The items before the first failure. -/
def emitted : Feed ε α → List α
  | [] => []
  | .ok a :: feed => a :: emitted feed
  | .error _ :: _ => []

/-- All items. -/
def items (feed : Feed ε α) : List α := feed.filterMap Except.toOption

theorem outcome_append (f g : Feed ε α) :
    outcome (f ++ g) = outcome f >>= fun _ => outcome g := by
  induction f with
  | nil => rfl
  | cons x f ih =>
    cases x with
    | error e => rfl
    | ok a => exact ih

theorem emitted_append_of_ok {f : Feed ε α} (h : outcome f = .ok ()) (g : Feed ε α) :
    emitted (f ++ g) = emitted f ++ emitted g := by
  induction f with
  | nil => rfl
  | cons x f ih =>
    cases x with
    | error e => cases h
    | ok a => exact congrArg (a :: ·) (ih h)

theorem emitted_append_of_error {f : Feed ε α} {e : ε} (h : outcome f = .error e)
    (g : Feed ε α) : emitted (f ++ g) = emitted f := by
  induction f with
  | nil => cases h
  | cons x f ih =>
    cases x with
    | error e => rfl
    | ok a => exact congrArg (a :: ·) (ih h)

/-- Without a failure all items are emitted. -/
theorem emitted_of_ok {feed : Feed ε α} (h : outcome feed = .ok ()) :
    emitted feed = items feed := by
  induction feed with
  | nil => rfl
  | cons x feed ih =>
    cases x with
    | error e => cases h
    | ok a => exact congrArg (a :: ·) (ih h)

theorem outcome_map_ok (xs : List α) : outcome (xs.map .ok : Feed ε α) = .ok () := by
  induction xs with
  | nil => rfl
  | cons x xs ih => exact ih

theorem emitted_map_ok (xs : List α) : emitted (xs.map .ok : Feed ε α) = xs := by
  induction xs with
  | nil => rfl
  | cons x xs ih => exact congrArg (x :: ·) ih

theorem items_flatMap (xs : List β) (f : β → Feed ε α) :
    items (xs.flatMap f) = xs.flatMap fun x => items (f x) := List.filterMap_flatMap

end Feed

/-! ## Items that change a state -/

section Performs

variable {σ γ : Type} {put : σ → α → σ}

/-- The program puts what the feed emits into the state, ends as the feed does, and returns `b`
unless it fails. -/
def Performs (put : σ → α → σ) (x : ExceptT ε (StateM σ) β) (feed : Feed ε α) (b : β) : Prop :=
  ∀ s, x s = (feed.outcome.map fun _ => b, feed.emitted.foldl put s)

namespace Performs

theorem pure (b : β) : Performs put (pure b : ExceptT ε (StateM σ) β) [] b := fun _ => rfl

theorem throw (e : ε) (b : β) : Performs put (throw e : ExceptT ε (StateM σ) β) [.error e] b :=
  fun _ => rfl

theorem throw_bind (e : ε) (y : β → ExceptT ε (StateM σ) γ) (c : γ) :
    Performs put (MonadExcept.throw e >>= y) [.error e] c := fun _ => rfl

theorem modify {f : σ → σ} {a : α} (h : ∀ s, f s = put s a) :
    Performs put (modify f : ExceptT ε (StateM σ) Unit) [.ok a] () :=
  fun s => congrArg (Prod.mk _) (h s)

theorem bind {x : ExceptT ε (StateM σ) β} {y : β → ExceptT ε (StateM σ) γ} {f g : Feed ε α}
    {b : β} {c : γ} (hx : Performs put x f b) (hy : Performs put (y b) g c) :
    Performs put (x >>= y) (f ++ g) c := by
  intro s
  have hBind : (x >>= y) s = ExceptT.bindCont y (x s).1 (x s).2 := rfl
  rw [hBind, hx s, Feed.outcome_append]
  cases hOutcome : f.outcome with
  | error e =>
    rw [Feed.emitted_append_of_error hOutcome]
    rfl
  | ok u =>
    rw [Feed.emitted_append_of_ok hOutcome, List.foldl_append]
    exact hy _

theorem forM {xs : List β} {x : β → ExceptT ε (StateM σ) Unit} {f : β → Feed ε α}
    (hx : ∀ b ∈ xs, Performs put (x b) (f b) ()) :
    Performs put (xs.forM x) (xs.flatMap f) () := by
  induction xs with
  | nil => exact pure ()
  | cons b xs ih =>
    have hRest := ih fun b hb => hx b (List.mem_cons_of_mem _ hb)
    exact bind (hx b List.mem_cons_self) hRest

theorem forM_map {xs : List β} {h : β → γ} {x : γ → ExceptT ε (StateM σ) Unit}
    {f : β → Feed ε α} (hx : ∀ b ∈ xs, Performs put (x (h b)) (f b) ()) :
    Performs put ((xs.map h).forM x) (xs.flatMap f) () := by
  have hSame : (xs.map h).forM x = xs.forM fun b => x (h b) := List.forM_map
  rw [hSame]
  exact forM hx

theorem ite {p : Prop} [Decidable p] {x y : ExceptT ε (StateM σ) β} {f g : Feed ε α} {b : β}
    (hx : p → Performs put x f b) (hy : ¬p → Performs put y g b) :
    Performs put (if p then x else y) (if p then f else g) b := by
  by_cases h : p
  · rw [if_pos h, if_pos h]
    exact hx h
  · rw [if_neg h, if_neg h]
    exact hy h

/-- A program that is skipped unless `p` holds, and what comes after it. -/
theorem ite_bind {p : Prop} [Decidable p] {x : ExceptT ε (StateM σ) Unit}
    {y : Unit → ExceptT ε (StateM σ) γ} {f g : Feed ε α} {c : γ}
    (hx : p → Performs put x f ()) (hy : Performs put (y ()) g c) :
    Performs put (if p then x >>= y else y ()) ((if p then f else []) ++ g) c := by
  by_cases h : p
  · rw [if_pos h, if_pos h]
    exact (hx h).bind hy
  · rw [if_neg h, if_neg h]
    exact hy

end Performs

end Performs

/-! ## Items that are appended -/

/-- Programs that append to a list and may fail. -/
abbrev AppendM (ε α : Type) := ExceptT ε (StateM (List α))

/-- The program appends what the feed emits and ends as the feed does. -/
abbrev Follows (x : AppendM ε α Unit) (feed : Feed ε α) : Prop :=
  Performs (fun sink a => sink ++ [a]) x feed ()

theorem Follows.run {x : AppendM ε α Unit} {feed : Feed ε α} (h : Follows x feed)
    (sink : List α) : x sink = (feed.outcome, sink ++ feed.emitted) := by
  have hAppended : feed.emitted.foldl (fun sink a => sink ++ [a]) sink = sink ++ feed.emitted := by
    rw [List.foldl_append_eq_append, ← List.flatMap_def, List.flatMap_singleton']
  have hOutcome : feed.outcome.map (fun _ => ()) = feed.outcome := by
    cases feed.outcome with
    | error e => rfl
    | ok u => rfl
  rw [h sink, hAppended, hOutcome]

end Windborne.Library
