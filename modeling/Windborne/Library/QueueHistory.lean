import Mathlib.Data.List.Basic
import Mathlib.Data.List.Nodup

/-!
# Histories of a queue

What has been put into a queue and taken out of it, newest first. Nothing is put in that is
already there. Elements leave in the order in which they came, and between the arrival of an
element and its turn no other one leaves twice.
-/

namespace Windborne.Library

inductive QueueEvent (α : Type*) where
  | enqueued (a : α)
  | dequeued (a : α)

namespace QueueEvent

variable {α : Type*}

/-- What has been put in, oldest first. -/
def arrivals : List (QueueEvent α) → List α
  | [] => []
  | .enqueued a :: history => arrivals history ++ [a]
  | .dequeued _ :: history => arrivals history

/-- What has been taken out, oldest first. -/
def departures : List (QueueEvent α) → List α
  | [] => []
  | .enqueued _ :: history => departures history
  | .dequeued a :: history => departures history ++ [a]

end QueueEvent

open QueueEvent

/-- The history leads from one contents of the queue to another. -/
inductive Served {α : Type*} (q : List α) : List (QueueEvent α) → List α → Prop where
  | refl : Served q [] q
  | enqueue {history : List (QueueEvent α)} {q' : List α} {a : α} :
      Served q history q' → a ∉ q' → Served q (.enqueued a :: history) (q' ++ [a])
  | dequeue {history : List (QueueEvent α)} {q' : List α} {a : α} :
      Served q history (a :: q') → Served q (.dequeued a :: history) q'

namespace Served

variable {α : Type*} {q q' q'' ahead behind : List α} {a : α}
  {history before after : List (QueueEvent α)}

theorem trans (h : Served q before q') (g : Served q' after q'') :
    Served q (after ++ before) q'' := by
  induction g with
  | refl => exact h
  | enqueue _ hNew ih => exact ih.enqueue hNew
  | dequeue _ ih => exact ih.dequeue

/-- A history can be cut anywhere. -/
theorem cut (h : Served q (after ++ before) q'') :
    ∃ q', Served q before q' ∧ Served q' after q'' := by
  induction after generalizing q'' with
  | nil => exact ⟨q'', h, .refl⟩
  | cons e after ih =>
    rw [List.cons_append] at h
    cases h with
    | enqueue h hNew =>
      obtain ⟨q', hBefore, hAfter⟩ := ih h
      exact ⟨q', hBefore, hAfter.enqueue hNew⟩
    | dequeue h =>
      obtain ⟨q', hBefore, hAfter⟩ := ih h
      exact ⟨q', hBefore, hAfter.dequeue⟩

/-- **First come, first served.** -/
theorem order (h : Served q history q') : q ++ arrivals history = departures history ++ q' := by
  induction h with
  | refl => rw [arrivals, departures, List.append_nil, List.nil_append]
  | enqueue _ _ ih => rw [arrivals, departures, ← List.append_assoc, ih, List.append_assoc]
  | dequeue _ ih => rw [arrivals, departures, ih, List.append_assoc, List.singleton_append]

theorem nodup (h : Served q history q') (hq : q.Nodup) : q'.Nodup := by
  induction h with
  | refl => exact hq
  | enqueue _ hNew ih =>
    rw [← List.concat_eq_append]
    exact ih.concat hNew
  | dequeue _ ih => exact (List.nodup_cons.mp ih).2

/-- An element leaves right after those that are ahead of it. -/
theorem turn (h : Served (ahead ++ a :: behind) history q') :
    departures history <+: ahead ∨ ahead ++ [a] <+: departures history := by
  have hOrder := h.order
  rw [List.append_assoc] at hOrder
  have hLeft : departures history <+: ahead ++ a :: (behind ++ arrivals history) :=
    ⟨q', hOrder.symm⟩
  have hTurn : ahead ++ [a] <+: ahead ++ a :: (behind ++ arrivals history) :=
    ⟨behind ++ arrivals history, by rw [List.append_assoc, List.singleton_append]⟩
  rcases List.prefix_or_prefix_of_prefix hLeft hTurn with hShort | hLong
  · rcases List.prefix_concat_iff.mp hShort with hEq | hAhead
    · exact Or.inr (hEq ▸ List.prefix_rfl)
    · exact Or.inl hAhead
  · exact Or.inr hLong

/-- **No bypass.** -/
theorem nodup_departures (h : Served (ahead ++ [a]) history q') (hAhead : ahead.Nodup)
    (hWaits : a ∉ departures history) : (departures history).Nodup := by
  rcases h.turn with hPrefix | hTurn
  · exact hAhead.sublist hPrefix.sublist
  · exact absurd (hTurn.subset List.mem_concat_self) hWaits

/-- Several elements are put in one after the other. -/
theorem enqueueAll (h : Served q history q') {xs : List α} (hNew : (q' ++ xs).Nodup) :
    Served q ((xs.map .enqueued).reverse ++ history) (q' ++ xs) := by
  induction xs generalizing history q' with
  | nil =>
    rw [List.append_nil]
    exact h
  | cons x xs ih =>
    have hFirst : x ∉ q' := by
      intro hMem
      exact (List.nodup_append.mp hNew).2.2 x hMem x List.mem_cons_self rfl
    rw [List.append_cons] at hNew ⊢
    have hRest := ih (h.enqueue hFirst) hNew
    rw [List.map_cons, List.reverse_cons, List.append_assoc]
    exact hRest

end Served

end Windborne.Library
