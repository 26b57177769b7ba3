import Mathlib.Data.List.Nodup
import Windborne.Library.Runs

/-!
# Linearizable histories

A history records the calls and returns of processes, each of which performs one operation.
It is linearizable when the operations that have returned, and some of those that have only
been called, can be put in one sequential order that the object allows and that keeps
operations apart that do not overlap in the history. `Linearization` carries such an order
along: calls and returns extend the history, and each operation takes effect at one moment
in between.
-/

namespace Windborne.Library

variable {P O R A : Type}

inductive Event (P R : Type) where
  | call (p : P)
  | ret (p : P) (r : R)
  deriving DecidableEq

/-- One operation of the object: what it answers and what it leaves. -/
def SequentialStep (spec : A → O → R → A → Prop) (op : P → O) (a : A) (e : P × R) (b : A) : Prop :=
  spec a (op e.1) e.2 b

/-- `p` has returned before `q` is called. -/
def Precedes (history : List (Event P R)) (p q : P) : Prop :=
  ∃ before after r, history = before ++ .ret p r :: after ∧ .call q ∉ before

/-- `p` stands before `q` in the order. -/
def Ordered (order : List (P × R)) (p q : P) : Prop :=
  ∃ before after, order = before ++ after ∧ p ∈ before.map Prod.fst ∧ q ∈ after.map Prod.fst

/-- An order of operations that explains a history and takes the object from `a₀` to `a`. -/
structure Linearization (spec : A → O → R → A → Prop) (op : P → O) (a₀ : A)
    (history : List (Event P R)) (order : List (P × R)) (a : A) : Prop where
  nodup : (order.map Prod.fst).Nodup
  called : ∀ p ∈ order.map Prod.fst, .call p ∈ history
  returned : ∀ p r, .ret p r ∈ history → (p, r) ∈ order
  legal : Run (SequentialStep spec op) a₀ order a
  realTime : ∀ p q, Precedes history p q → q ∈ order.map Prod.fst → Ordered order p q

def Linearizable (spec : A → O → R → A → Prop) (op : P → O) (a₀ : A)
    (history : List (Event P R)) : Prop :=
  ∃ order a, Linearization spec op a₀ history order a

/-! ## Orders -/

variable {spec : A → O → R → A → Prop} {op : P → O} {a₀ a b : A}
  {history : List (Event P R)} {order : List (P × R)} {p q : P} {r : R}

theorem Ordered.append (h : Ordered order p q) (e : P × R) : Ordered (order ++ [e]) p q := by
  obtain ⟨before, after, rfl, hp, hq⟩ := h
  refine ⟨before, after ++ [e], List.append_assoc _ _ _, hp, ?_⟩
  rw [List.map_append]
  exact List.mem_append_left _ hq

theorem ordered_last (hp : p ∈ order.map Prod.fst) (q : P) (r : R) :
    Ordered (order ++ [(q, r)]) p q :=
  ⟨order, [(q, r)], rfl, hp, List.mem_singleton_self q⟩

/-- A history that has grown by one event has the old precedences, or the new event is a
return. -/
theorem precedes_append {e : Event P R} (h : Precedes (history ++ [e]) p q) :
    Precedes history p q ∨ ((∃ r, e = .ret p r) ∧ .call q ∉ history) := by
  obtain ⟨before, after, r, hEq, hq⟩ := h
  rcases List.eq_nil_or_concat after with rfl | ⟨after, last, rfl⟩
  · obtain ⟨rfl, hLast⟩ := List.append_inj' hEq rfl
    exact Or.inr ⟨⟨r, List.singleton_inj.mp hLast⟩, hq⟩
  · rw [List.concat_eq_append, ← List.cons_append, ← List.append_assoc] at hEq
    obtain ⟨rfl, -⟩ := List.append_inj' hEq rfl
    exact Or.inl ⟨before, after, r, rfl, hq⟩

theorem ret_mem_of_precedes (h : Precedes history p q) : ∃ r, .ret p r ∈ history := by
  obtain ⟨before, after, r, rfl, -⟩ := h
  exact ⟨r, List.mem_append_right _ List.mem_cons_self⟩

namespace Linearization

theorem nil : Linearization spec op a₀ [] [] a₀ where
  nodup := List.nodup_nil
  called _ h := by cases h
  returned _ _ h := by cases h
  legal := .refl
  realTime _ _ h := by
    obtain ⟨r, hMem⟩ := ret_mem_of_precedes h
    cases hMem

theorem call (h : Linearization spec op a₀ history order a) (p : P) :
    Linearization spec op a₀ (history ++ [.call p]) order a where
  nodup := h.nodup
  called q hq := List.mem_append_left _ (h.called q hq)
  returned q r hq := by
    rcases List.mem_append.mp hq with hq | hq
    · exact h.returned q r hq
    · cases List.mem_singleton.mp hq
  legal := h.legal
  realTime q q' hPrecedes hq' := by
    rcases precedes_append hPrecedes with hOld | ⟨⟨r, hEvent⟩, -⟩
    · exact h.realTime q q' hOld hq'
    · cases hEvent

/-- **Linearization point.** A called operation takes effect. -/
theorem effect (h : Linearization spec op a₀ history order a) (hCall : .call p ∈ history)
    (hNew : p ∉ order.map Prod.fst) (hSpec : spec a (op p) r b) :
    Linearization spec op a₀ history (order ++ [(p, r)]) b where
  nodup := by
    rw [List.map_append, List.nodup_append]
    refine ⟨h.nodup, List.nodup_singleton p, ?_⟩
    intro x hx y hy hxy
    rw [List.map_singleton, List.mem_singleton] at hy
    rw [hxy, hy] at hx
    exact hNew hx
  called q hq := by
    rw [List.map_append] at hq
    rcases List.mem_append.mp hq with hq | hq
    · exact h.called q hq
    · rw [List.map_singleton, List.mem_singleton] at hq
      exact hq ▸ hCall
  returned q r' hq := List.mem_append_left _ (h.returned q r' hq)
  legal := .snoc h.legal hSpec
  realTime q q' hPrecedes hq' := by
    rw [List.map_append] at hq'
    rcases List.mem_append.mp hq' with hq' | hq'
    · exact (h.realTime q q' hPrecedes hq').append _
    · rw [List.map_singleton, List.mem_singleton] at hq'
      obtain ⟨r', hRet⟩ := ret_mem_of_precedes hPrecedes
      rw [hq']
      exact ordered_last (List.mem_map_of_mem (h.returned q r' hRet)) p r

theorem ret (h : Linearization spec op a₀ history order a) (hOrder : (p, r) ∈ order) :
    Linearization spec op a₀ (history ++ [.ret p r]) order a where
  nodup := h.nodup
  called q hq := List.mem_append_left _ (h.called q hq)
  returned q r' hq := by
    rcases List.mem_append.mp hq with hq | hq
    · exact h.returned q r' hq
    · cases List.mem_singleton.mp hq
      exact hOrder
  legal := h.legal
  realTime q q' hPrecedes hq' := by
    rcases precedes_append hPrecedes with hOld | ⟨-, hNotCalled⟩
    · exact h.realTime q q' hOld hq'
    · exact absurd (h.called q' hq') hNotCalled

/-- A call, its effect and its return at once. -/
theorem atOnce (h : Linearization spec op a₀ history order a) (hNew : p ∉ order.map Prod.fst)
    (hSpec : spec a (op p) r b) :
    Linearization spec op a₀ (history ++ [.call p, .ret p r]) (order ++ [(p, r)]) b := by
  have hCall := h.call p
  have hEffect := hCall.effect (List.mem_append_right _ (List.mem_singleton_self _)) hNew hSpec
  have hRet := hEffect.ret (List.mem_append_right _ (List.mem_singleton_self _))
  rwa [List.append_assoc] at hRet

end Linearization

end Windborne.Library
