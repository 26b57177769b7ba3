import Mathlib.Data.List.Nodup
import Mathlib.Data.Option.Basic

/-!
# Tables as lists of rows with a key

`overwrite` replaces the rows that have the key of the given row and leaves the other rows
and the order alone.
-/

namespace Windborne.Library

variable {ρ κ β : Type*} [DecidableEq κ] {key : ρ → κ} {rows : List ρ} {r : ρ}

def overwrite (key : ρ → κ) (r : ρ) (rows : List ρ) : List ρ :=
  rows.map fun q => if key q = key r then r else q

theorem map_key_overwrite (key : ρ → κ) (r : ρ) (rows : List ρ) :
    (overwrite key r rows).map key = rows.map key := by
  unfold overwrite
  rw [List.map_map]
  apply List.map_congr_left
  intro q _
  show key (if key q = key r then r else q) = key q
  split
  · rename_i h
    exact h.symm
  · rfl

theorem length_overwrite (key : ρ → κ) (r : ρ) (rows : List ρ) :
    (overwrite key r rows).length = rows.length := List.length_map _

theorem mem_of_mem_overwrite {q : ρ} (h : q ∈ overwrite key r rows) : q = r ∨ q ∈ rows := by
  obtain ⟨p, hp, rfl⟩ := List.mem_map.mp h
  split
  · exact Or.inl rfl
  · exact Or.inr hp

/-- A row of the new table is the new row or an old row with another key. -/
theorem eq_or_key_ne_of_mem_overwrite {q : ρ} (h : q ∈ overwrite key r rows) :
    q = r ∨ (q ∈ rows ∧ key q ≠ key r) := by
  obtain ⟨p, hp, rfl⟩ := List.mem_map.mp h
  split
  · exact Or.inl rfl
  · rename_i hKey
    exact Or.inr ⟨hp, hKey⟩

theorem mem_overwrite_self (h : key r ∈ rows.map key) : r ∈ overwrite key r rows := by
  obtain ⟨q, hq, hKey⟩ := List.mem_map.mp h
  exact List.mem_map.mpr ⟨q, hq, if_pos hKey⟩

/-- What holds of the new row and of every old row holds of every row. -/
theorem forall_mem_overwrite {p : ρ → Prop} (hr : p r) (h : ∀ q ∈ rows, p q) :
    ∀ q ∈ overwrite key r rows, p q := by
  intro q hq
  rcases mem_of_mem_overwrite hq with rfl | hq
  · exact hr
  · exact h q hq

/-- The row of another key is found as before. -/
theorem find?_overwrite_of_ne {k : κ} (h : key r ≠ k) :
    (overwrite key r rows).find? (key · = k) = rows.find? (key · = k) := by
  induction rows with
  | nil => rfl
  | cons q rows ih =>
    rw [overwrite, List.map_cons, List.find?_cons, List.find?_cons]
    by_cases hKey : key q = key r
    · have hOld : key q ≠ k := fun hq => h (hKey.symm.trans hq)
      rw [if_pos hKey, decide_eq_false h, decide_eq_false hOld]
      exact ih
    · rw [if_neg hKey]
      cases decide (key q = k) with
      | true => rfl
      | false => exact ih

/-- The new row is found under its key. -/
theorem find?_overwrite_self (h : key r ∈ rows.map key) :
    (overwrite key r rows).find? (key · = key r) = some r := by
  induction rows with
  | nil => cases h
  | cons q rows ih =>
    rw [overwrite, List.map_cons, List.find?_cons]
    by_cases hKey : key q = key r
    · rw [if_pos hKey, decide_eq_true rfl]
    · rw [if_neg hKey, decide_eq_false hKey]
      apply ih
      rcases List.mem_cons.mp h with hHead | hTail
      · exact absurd hHead.symm hKey
      · exact hTail

/-- A column without repetitions stays so when no row of another key has the new value. -/
theorem nodup_map_overwrite {column : ρ → β} (hKeys : (rows.map key).Nodup)
    (hColumn : (rows.map column).Nodup) (hNew : ∀ q ∈ rows, column q ≠ column r) :
    ((overwrite key r rows).map column).Nodup := by
  induction rows with
  | nil => exact List.nodup_nil
  | cons q rows ih =>
    rw [List.map_cons, List.nodup_cons] at hKeys hColumn
    have hTail := ih hKeys.2 hColumn.2 fun q hq => hNew q (List.mem_cons_of_mem _ hq)
    rw [overwrite, List.map_cons, List.map_cons, List.nodup_cons]
    refine ⟨?_, hTail⟩
    intro hMem
    obtain ⟨p, hp, hEq⟩ := List.mem_map.mp hMem
    by_cases hHead : key q = key r
    · rw [if_pos hHead] at hEq
      -- the head has the key, so the rest of the table does not change
      have hSame : overwrite key r rows = rows := by
        apply (List.map_congr_left _).trans (List.map_id rows)
        intro p hp
        apply if_neg
        intro hp'
        exact hKeys.1 (List.mem_map.mpr ⟨p, hp, hp'.trans hHead.symm⟩)
      have hp' : p ∈ rows := hSame ▸ hp
      exact hNew p (List.mem_cons_of_mem _ hp') hEq
    · rw [if_neg hHead] at hEq
      rcases mem_of_mem_overwrite hp with rfl | hp
      · exact hNew q List.mem_cons_self hEq.symm
      · exact hColumn.1 (List.mem_map.mpr ⟨p, hp, hEq⟩)

/-! ## Keys in use -/

/-- A column has no repetitions after a row is added if the value of the row is new. -/
theorem nodup_map_snoc_iff {column : ρ → β} :
    ((rows ++ [r]).map column).Nodup ↔
      (rows.map column).Nodup ∧ ∀ q ∈ rows, column q ≠ column r := by
  rw [List.map_append, List.map_singleton, ← List.concat_eq_append, List.nodup_concat, and_comm]
  refine and_congr_right fun _ => ?_
  constructor
  · exact fun hNew q hq hEq => hNew (List.mem_map.mpr ⟨q, hq, hEq⟩)
  · intro hNew hMem
    obtain ⟨q, hq, hEq⟩ := List.mem_map.mp hMem
    exact hNew q hq hEq

/-- In a column without repetitions a value selects one row. -/
theorem filter_eq_singleton [DecidableEq β] {column : ρ → β} (hColumn : (rows.map column).Nodup)
    (hr : r ∈ rows) : rows.filter (column · = column r) = [r] := by
  induction rows with
  | nil => cases hr
  | cons q rows ih =>
    rw [List.map_cons, List.nodup_cons] at hColumn
    rcases List.mem_cons.mp hr with rfl | hr
    · have hNone : rows.filter (column · = column r) = [] := by
        rw [List.filter_eq_nil_iff]
        intro q hq hEq
        exact hColumn.1 (List.mem_map.mpr ⟨q, hq, of_decide_eq_true hEq⟩)
      rw [List.filter_cons, if_pos (decide_eq_true rfl), hNone]
    · have hOther : ¬column q = column r := by
        intro hEq
        exact hColumn.1 (List.mem_map.mpr ⟨r, hr, hEq.symm⟩)
      rw [List.filter_cons, if_neg (by simpa using hOther)]
      exact ih hColumn.2 hr

/-- In a column whose values do not repeat, apart from nulls, a value has at most one row. -/
theorem eq_of_nodup_filterMap {column : ρ → Option β} (hColumn : (rows.filterMap column).Nodup)
    {q : ρ} {v : β} (hq : q ∈ rows) (hr : r ∈ rows) (hqv : column q = some v)
    (hrv : column r = some v) : q = r := by
  induction rows with
  | nil => cases hq
  | cons p rows ih =>
    have hTail : (rows.filterMap column).Nodup :=
      hColumn.sublist ((List.sublist_cons_self p rows).filterMap column)
    -- the head and a later row cannot both have the value
    have hHead : column p = some v → ∀ p' ∈ rows, column p' ≠ some v := by
      intro hp p' hp' hp'v
      rw [List.filterMap_cons_some hp, List.nodup_cons] at hColumn
      exact hColumn.1 (List.mem_filterMap.mpr ⟨p', hp', hp'v⟩)
    rcases List.mem_cons.mp hq with rfl | hq'
    · rcases List.mem_cons.mp hr with rfl | hr'
      · rfl
      · exact absurd hrv (hHead hqv r hr')
    · rcases List.mem_cons.mp hr with rfl | hr'
      · exact absurd hqv (hHead hrv q hq')
      · exact ih hTail hq' hr'

/-- What holds of the rows and of a new one holds of all rows after it is added. -/
theorem forall_mem_snoc {p : ρ → Prop} (h : ∀ q ∈ rows, p q) (hr : p r) :
    ∀ q ∈ rows ++ [r], p q := by
  intro q hq
  rcases List.mem_append.mp hq with hOld | hNew
  · exact h q hOld
  · rw [List.mem_singleton.mp hNew]
    exact hr

/-- A given key is one of the table exactly when a row has it. -/
theorem filter_keys_iff {id : Option κ} :
    (∃ k, id.filter (· ∈ rows.map key) = some k) ↔ ∃ r ∈ rows, id = some (key r) := by
  simp only [Option.filter_eq_some_iff, decide_eq_true_eq, List.mem_map]
  constructor
  · rintro ⟨k, hk, r, hr, rfl⟩
    exact ⟨r, hr, hk⟩
  · rintro ⟨r, hr, hk⟩
    exact ⟨_, hk, r, hr, rfl⟩

theorem filter_keys_eq_none {id : Option κ} (h : ¬ ∃ r ∈ rows, id = some (key r)) :
    id.filter (· ∈ rows.map key) = none := by
  rw [Option.eq_none_iff_forall_ne_some]
  intro k hk
  exact h (filter_keys_iff.mp ⟨k, hk⟩)

/-! ## Unused keys -/

/-- An integer above all the given ones. -/
def freshKey (keys : List Int) : Int := keys.foldr max 0 + 1

theorem lt_freshKey {keys : List Int} {k : Int} (h : k ∈ keys) : k < freshKey keys := by
  unfold freshKey
  induction keys with
  | nil => cases h
  | cons k' keys ih =>
    rw [List.foldr_cons]
    rcases List.mem_cons.mp h with rfl | h
    · omega
    · have := ih h
      omega

end Windborne.Library
