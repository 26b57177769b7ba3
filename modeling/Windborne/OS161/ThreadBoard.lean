import Mathlib.Data.List.Count
import Mathlib.Data.List.Nodup
import Mathlib.Data.List.Perm.Basic
import Mathlib.Logic.Relation

/-!
# The board of threads

Where the threads are, and how many `numthreads` counts: what the thread system is about, without
stacks, interrupt levels and memory. There are seven ways in which threads move on the board. Who
plays by them has every thread in one place at most, and counts all that are not dead.
-/

namespace Windborne.OS161

structure Board (τ : Type) where
  current : Option τ
  ready : List τ
  asleep : List τ
  dead : List τ
  numthreads : Nat

namespace Board

variable {τ : Type} {b b' : Board τ}

/-- All threads on the board. -/
def placed (b : Board τ) : List τ := b.current.toList ++ (b.ready ++ (b.asleep ++ b.dead))

/-- The current thread yields, goes to sleep or exits; a sleeper is woken; the first thread that is
ready gets the processor; the dead are taken away; a new thread starts. -/
inductive Move (b : Board τ) : Board τ → Prop
  | yield {t : τ} (h : b.current = some t) :
      Move b { b with current := none, ready := b.ready ++ [t] }
  | sleep {t : τ} (h : b.current = some t) :
      Move b { b with current := none, asleep := b.asleep ++ [t] }
  | exit {t : τ} (h : b.current = some t) (hNum : b.numthreads ≠ 0) :
      Move b { b with current := none, dead := b.dead ++ [t], numthreads := b.numthreads - 1 }
  | wake {i : Nat} {t : τ} (h : b.asleep[i]? = some t) :
      Move b { b with asleep := b.asleep.eraseIdx i, ready := b.ready ++ [t] }
  | dispatch {t : τ} {rest : List τ} (h : b.current = none) (hReady : b.ready = t :: rest) :
      Move b { b with current := some t, ready := rest }
  | reap (h : b.current ≠ none) : Move b { b with dead := [] }
  | start {newguy : τ} (h : b.current ≠ none) (hNew : newguy ∉ b.placed) :
      Move b { b with ready := b.ready ++ [newguy], numthreads := b.numthreads + 1 }

/-- Any number of moves. -/
def Moves : Board τ → Board τ → Prop := Relation.ReflTransGen Move

/-- One thread, which is running. -/
def first (me : τ) : Board τ where
  current := some me
  ready := []
  asleep := []
  dead := []
  numthreads := 1

/-- Every thread is in one place at most, and those that are not dead are counted. -/
structure Sound (b : Board τ) : Prop where
  nodup : b.placed.Nodup
  counted : b.numthreads = b.ready.length + b.asleep.length + b.current.toList.length

theorem sound_first (me : τ) : (first me).Sound where
  nodup := List.nodup_singleton me
  counted := rfl

theorem count_placed [DecidableEq τ] (b : Board τ) (u : τ) :
    b.placed.count u = b.current.toList.count u +
      (b.ready.count u + (b.asleep.count u + b.dead.count u)) := by
  simp only [placed, List.count_append]

theorem length_placed (b : Board τ) : b.placed.length = b.current.toList.length +
    (b.ready.length + (b.asleep.length + b.dead.length)) := by
  simp only [placed, List.length_append]

theorem nodup_of_count [DecidableEq τ] (h : b.placed.Nodup)
    (hCount : ∀ u, b'.placed.count u ≤ b.placed.count u) : b'.placed.Nodup :=
  List.nodup_iff_count_le_one.mpr fun u =>
    Nat.le_trans (hCount u) (List.nodup_iff_count_le_one.mp h u)

/-- **Step lemma.** -/
theorem Sound.move [DecidableEq τ] (h : b.Sound) (hMove : Move b b') : b'.Sound := by
  obtain ⟨hNodup, hCount⟩ := h
  have hToList : ∀ t : τ, (some t).toList = [t] ∧ (none : Option τ).toList = [] :=
    fun _ => ⟨rfl, rfl⟩
  cases hMove with
  | @yield t hCur =>
    rw [hCur] at hCount
    refine ⟨nodup_of_count hNodup fun u => ?_, ?_⟩
    · simp only [count_placed, hCur, hToList t, List.count_append, List.count_nil]
      omega
    · simp only [hToList t, List.length_append, List.length_singleton, List.length_nil] at hCount ⊢
      omega
  | @sleep t hCur =>
    rw [hCur] at hCount
    refine ⟨nodup_of_count hNodup fun u => ?_, ?_⟩
    · simp only [count_placed, hCur, hToList t, List.count_append, List.count_nil]
      omega
    · simp only [hToList t, List.length_append, List.length_singleton, List.length_nil] at hCount ⊢
      omega
  | @exit t hCur hNum =>
    rw [hCur] at hCount
    refine ⟨nodup_of_count hNodup fun u => ?_, ?_⟩
    · simp only [count_placed, hCur, hToList t, List.count_append, List.count_nil]
      omega
    · simp only [hToList t, List.length_singleton, List.length_nil] at hCount ⊢
      omega
  | @wake i t hGuy =>
    obtain ⟨hi, hGet⟩ := List.getElem?_eq_some_iff.mp hGuy
    refine ⟨nodup_of_count hNodup fun u => ?_, ?_⟩
    · have hErase : (t :: b.asleep.eraseIdx i).Perm b.asleep :=
        hGet ▸ List.getElem_cons_eraseIdx_perm hi
      have hCountU := List.perm_iff_count.mp hErase u
      rw [← List.singleton_append, List.count_append] at hCountU
      simp only [count_placed, List.count_append]
      omega
    · have hLength := List.length_eraseIdx_of_lt hi
      simp only [List.length_append, List.length_singleton]
      omega
  | @dispatch t rest hCur hReady =>
    rw [hCur, hReady] at hCount
    refine ⟨nodup_of_count hNodup fun u => ?_, ?_⟩
    · rw [count_placed, count_placed, hCur, hReady, ← List.singleton_append, List.count_append]
      simp only [hToList t, List.count_nil]
      omega
    · simp only [hToList t, List.length_cons, List.length_nil] at hCount ⊢
      omega
  | reap hCur =>
    refine ⟨nodup_of_count hNodup fun u => ?_, hCount⟩
    simp only [count_placed, List.count_nil]
    omega
  | @start newguy hCur hNew =>
    refine ⟨?_, ?_⟩
    · refine List.Perm.nodup ?_ (List.nodup_cons.mpr ⟨hNew, hNodup⟩)
      rw [List.perm_iff_count]
      intro u
      rw [← List.singleton_append, List.count_append, count_placed, count_placed]
      simp only [List.count_append]
      omega
    · simp only [List.length_append, List.length_singleton]
      omega

/-- **Run lemma.** -/
theorem Sound.moves [DecidableEq τ] (h : b.Sound) (hMoves : Moves b b') : b'.Sound := by
  induction hMoves with
  | refl => exact h
  | tail _ hMove ih => exact ih.move hMove

/-- All sleepers of a kind can be woken, the first one first. -/
theorem moves_wake (p : τ → Bool) (b : Board τ) : Moves b { b with
    asleep := b.asleep.filter fun t => !p t, ready := b.ready ++ b.asleep.filter p } := by
  have hRest : ∀ done rest (b : Board τ), b.asleep = done ++ rest → Moves b { b with
      asleep := done ++ rest.filter fun t => !p t, ready := b.ready ++ rest.filter p } := by
    intro done rest
    induction rest generalizing done with
    | nil =>
      intro b hAsleep
      rw [List.filter_nil, List.filter_nil, List.append_nil, ← hAsleep]
      exact .refl
    | cons t rest ih =>
      intro b hAsleep
      cases hAwake : p t with
      | false =>
        have hMoves := ih (done ++ [t]) b (by rw [hAsleep, List.append_assoc]; rfl)
        simpa [hAwake] using hMoves
      | true =>
        have hGet : b.asleep[done.length]? = some t := by simp [hAsleep]
        have hErased : b.asleep.eraseIdx done.length = done ++ rest := by
          simp [hAsleep, List.eraseIdx_append_of_length_le]
        have hMoves := ih done
          { b with asleep := b.asleep.eraseIdx done.length, ready := b.ready ++ [t] } hErased
        have hAll : Moves b _ := Relation.ReflTransGen.head (Move.wake hGet) hMoves
        simpa [hAwake] using hAll
  exact hRest [] b.asleep b rfl

end Board

end Windborne.OS161
