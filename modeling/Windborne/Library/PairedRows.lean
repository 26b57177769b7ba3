import Mathlib.Data.List.Forall2
import Mathlib.Data.List.Nodup

/-!
# Tables with the same rows under different keys

Two tables that have been filled in the same order correspond row by row, and each may have given
out keys of its own. A key of the one stands for a key of the other when both have the same places
in their columns; two keys that no row has stand for each other.
-/

namespace Windborne.Library

variable {ρ ρ' κ κ' : Type*} {R : ρ → ρ' → Prop} {rows : List ρ} {rows' : List ρ'}
  {key : ρ → κ} {key' : ρ' → κ'} {keys : List κ} {keys' : List κ'} {k a : κ} {k' a' : κ'}

/-- Both keys have the same places. -/
def SameKey (keys : List κ) (keys' : List κ') (k : κ) (k' : κ') : Prop :=
  List.Forall₂ (fun a a' => a = k ↔ a' = k') keys keys'

/-- A row and its counterpart are found together. -/
theorem find?_forall₂ (p : ρ → Bool) (p' : ρ' → Bool) (h : List.Forall₂ R rows rows')
    (hSame : ∀ r r', R r r' → (p r ↔ p' r')) :
    rows.find? p = none ∧ rows'.find? p' = none ∨
      ∃ r r', rows.find? p = some r ∧ rows'.find? p' = some r' ∧ R r r' := by
  induction h with
  | nil => exact Or.inl ⟨rfl, rfl⟩
  | @cons r r' rows rows' hHead hTail ih =>
    cases hFound : p r with
    | true =>
      have hFound' : p' r' = true := (hSame r r' hHead).mp hFound
      exact Or.inr ⟨r, r', List.find?_cons_of_pos hFound, List.find?_cons_of_pos hFound', hHead⟩
    | false =>
      have hNot : ¬p r := Bool.not_eq_true _ ▸ hFound
      have hNot' : ¬p' r' := fun h => hNot ((hSame r r' hHead).mpr h)
      rw [List.find?_cons_of_neg hNot, List.find?_cons_of_neg hNot']
      exact ih

theorem filter_forall₂ (p : ρ → Bool) (p' : ρ' → Bool) (h : List.Forall₂ R rows rows')
    (hSame : ∀ r r', R r r' → (p r ↔ p' r')) :
    List.Forall₂ R (rows.filter p) (rows'.filter p') := by
  refine List.rel_filter ?_ h
  intro r r' hRow
  exact hSame r r' hRow

theorem snoc_forall₂ {r : ρ} {r' : ρ'} (h : List.Forall₂ R rows rows') (hRow : R r r') :
    List.Forall₂ R (rows ++ [r]) (rows' ++ [r']) :=
  List.rel_append h (.cons hRow .nil)

/-- What holds of the rows of the second table holds in every pair. -/
theorem forall₂_and_right {p : ρ' → Prop} (h : List.Forall₂ R rows rows')
    (hAll : ∀ r' ∈ rows', p r') : List.Forall₂ (fun r r' => R r r' ∧ p r') rows rows' := by
  induction h with
  | nil => exact .nil
  | cons hHead hTail ih =>
    obtain ⟨hFirst, hRest⟩ := List.forall_mem_cons.mp hAll
    exact .cons ⟨hHead, hFirst⟩ (ih hRest)

/-- A row of a column without repetitions is the only one with its key. -/
theorem get_map_eq_iff (h : (rows.map key).Nodup) {i j : ℕ} (hj : j < (rows.map key).length)
    (hi : i < rows.length) : (rows.map key).get ⟨j, hj⟩ = key (rows.get ⟨i, hi⟩) ↔ j = i := by
  have hi' : i < (rows.map key).length := by
    rwa [List.length_map]
  have hGet : key (rows.get ⟨i, hi⟩) = (rows.map key).get ⟨i, hi'⟩ := by
    rw [List.get_eq_getElem, List.get_eq_getElem, List.getElem_map]
  rw [hGet, h.get_inj_iff, Fin.mk.injEq]

namespace SameKey

theorem mem_iff (h : SameKey keys keys' k k') : k ∈ keys ↔ k' ∈ keys' := by
  induction h with
  | nil => exact iff_of_false List.not_mem_nil List.not_mem_nil
  | cons hHead hTail ih =>
    rw [List.mem_cons, List.mem_cons, eq_comm, hHead, ih, eq_comm]

/-- A key in use stands for only one key. -/
theorem eq_iff (h : SameKey keys keys' k k') (g : SameKey keys keys' a a') (hMem : k ∈ keys) :
    k = a ↔ k' = a' := by
  unfold SameKey at h g
  induction h with
  | nil => cases hMem
  | @cons b b' keys keys' hHead hTail ih =>
    obtain ⟨hHead', hTail'⟩ := List.forall₂_cons.mp g
    rcases List.mem_cons.mp hMem with rfl | hRest
    · have hFirst : b' = k' := hHead.mp rfl
      rw [hHead', hFirst]
    · exact ih hTail' hRest

/-- The rows correspond, and have the two keys together. -/
theorem of_forall₂ (h : SameKey (rows.map key) (rows'.map key') k k')
    (hRows : List.Forall₂ R rows rows') :
    List.Forall₂ (fun r r' => R r r' ∧ (key r = k ↔ key' r' = k')) rows rows' := by
  have hKeys := List.forall₂_map_left_iff.mp (List.forall₂_map_right_iff.mp h)
  exact hRows.mp (fun r r' hRow hKey => ⟨hRow, hKey⟩) hKeys

/-- Keys in use still stand for each other after new ones are given out. -/
theorem snoc (h : SameKey keys keys' k k') (hMem : k ∈ keys) (hNew : a ∉ keys)
    (hNew' : a' ∉ keys') : SameKey (keys ++ [a]) (keys' ++ [a']) k k' := by
  have hOther : a ≠ k := fun hEq => hNew (hEq ▸ hMem)
  have hOther' : a' ≠ k' := fun hEq => hNew' (hEq ▸ h.mem_iff.mp hMem)
  exact snoc_forall₂ h (iff_of_false hOther hOther')

/-- The new keys stand for each other. -/
theorem new (hLength : keys.length = keys'.length) (hNew : a ∉ keys) (hNew' : a' ∉ keys') :
    SameKey (keys ++ [a]) (keys' ++ [a']) a a' := by
  have hOld : List.Forall₂ (fun k k' => k = a ↔ k' = a') keys keys' := by
    refine List.forall₂_iff_zip.mpr ⟨hLength, fun hMem => ?_⟩
    obtain ⟨hk, hk'⟩ := List.of_mem_zip hMem
    exact iff_of_false (fun hEq => hNew (hEq ▸ hk)) fun hEq => hNew' (hEq ▸ hk')
  exact snoc_forall₂ hOld (iff_of_true rfl rfl)

/-- In columns without repetitions the keys of corresponding rows stand for each other. -/
theorem of_rows (h : List.Forall₂ R rows rows') (hNodup : (rows.map key).Nodup)
    (hNodup' : (rows'.map key').Nodup) :
    List.Forall₂ (fun r r' => R r r' ∧
      SameKey (rows.map key) (rows'.map key') (key r) (key' r')) rows rows' := by
  obtain ⟨hLength, hRows⟩ := List.forall₂_iff_get.mp h
  refine List.forall₂_iff_get.mpr ⟨hLength, fun i hi hi' => ⟨hRows i hi hi', ?_⟩⟩
  have hColumns : (rows.map key).length = (rows'.map key').length := by
    rw [List.length_map, List.length_map, hLength]
  refine List.forall₂_iff_get.mpr ⟨hColumns, fun j hj hj' => ?_⟩
  exact (get_map_eq_iff hNodup hj hi).trans (get_map_eq_iff hNodup' hj' hi').symm

end SameKey

end Windborne.Library
