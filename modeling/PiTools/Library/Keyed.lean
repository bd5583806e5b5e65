import Mathlib.Data.List.Nodup
import PiTools.Library.Rows

/-
This file reads the rows of a table by a key that no two rows share.
-/

namespace Library

variable {Row Key : Type} [DecidableEq Key]

/-- The row with the key. -/
def rowAt (key : Row → Key) (rows : List Row) (chosen : Key) : Option Row :=
  rows.find? fun row => key row = chosen

section Lookup

variable {key : Row → Key} {rows : List Row} {row : Row} {chosen : Key}

theorem rowAt_key (found : rowAt key rows chosen = some row) : key row = chosen := by
  simpa using List.find?_some found

theorem rowAt_mem (found : rowAt key rows chosen = some row) : row ∈ rows :=
  List.mem_of_find?_eq_some found

theorem rowAt_eq_none : rowAt key rows chosen = none ↔ ∀ row ∈ rows, key row ≠ chosen := by
  simp [rowAt]

theorem rowAt_any :
    (rows.any fun row => key row = chosen) = (rowAt key rows chosen).isSome := by
  rw [Bool.eq_iff_iff, List.any_eq_true, rowAt, List.find?_isSome]

/-- The row with the key is the only one. -/
theorem rowAt_eq_some (distinct : (rows.map key).Nodup) :
    rowAt key rows chosen = some row ↔ row ∈ rows ∧ key row = chosen := by
  constructor
  · intro found
    exact ⟨rowAt_mem found, rowAt_key found⟩
  · rintro ⟨member, rfl⟩
    cases found : rowAt key rows (key row) with
    | none => exact absurd rfl (rowAt_eq_none.mp found row member)
    | some other => rw [row_unique key distinct (rowAt_mem found) member (rowAt_key found)]

/-- A condition on the only row with the key can be checked after the lookup. -/
theorem rowAt_filter (distinct : (rows.map key).Nodup) (holds : Row → Bool) :
    (rows.find? fun row => key row = chosen && holds row) =
      (rowAt key rows chosen).filter holds := by
  cases found : rowAt key rows chosen with
  | none =>
      refine List.find?_eq_none.mpr fun row member meets => ?_
      exact rowAt_eq_none.mp found row member (by simp_all)
  | some row =>
      cases met : holds row with
      | true =>
          rw [Option.filter_some_pos met]
          have other (inside : Row) (member : inside ∈ rows) (meets : key inside = chosen) :
              inside = row := row_unique key distinct member (rowAt_mem found)
                (meets.trans (rowAt_key found).symm)
          cases second : rows.find? fun row => key row = chosen && holds row with
          | none =>
              have missed := List.find?_eq_none.mp second row (rowAt_mem found)
              simp [rowAt_key found, met] at missed
          | some inside =>
              have meets := List.find?_some second
              simp only [Bool.and_eq_true, decide_eq_true_eq] at meets
              rw [other inside (List.mem_of_find?_eq_some second) meets.1]
      | false =>
          rw [Option.filter_some_neg (by simp [met])]
          refine List.find?_eq_none.mpr fun inside member meets => ?_
          simp only [Bool.and_eq_true, decide_eq_true_eq] at meets
          rw [row_unique key distinct member (rowAt_mem found)
            (meets.1.trans (rowAt_key found).symm), met] at meets
          cases meets.2

theorem rowAt_any_and (distinct : (rows.map key).Nodup) (holds : Row → Bool) :
    (rows.any fun row => key row = chosen && holds row) = (rowAt key rows chosen).any holds := by
  rw [Bool.eq_iff_iff, List.any_eq_true, Option.any_eq_true]
  simp only [rowAt_eq_some distinct, Bool.and_eq_true, decide_eq_true_eq, and_assoc]

/-- A change that keeps the keys is seen at the row with the key. -/
theorem rowAt_map {change : Row → Row} (keeps : ∀ row ∈ rows, key (change row) = key row) :
    rowAt key (rows.map change) chosen = (rowAt key rows chosen).map change := by
  induction rows with
  | nil => rfl
  | cons row rows ih =>
      have later := ih fun other member => keeps other (.tail _ member)
      by_cases same : key row = chosen
      · simp [rowAt, same, keeps row (.head _)]
      · simpa [rowAt, same, keeps row (.head _)] using later

/-- A new row is found under its own key alone. -/
theorem rowAt_append (fresh : rowAt key rows (key row) = none) :
    rowAt key (rows ++ [row]) chosen =
      if chosen = key row then some row else rowAt key rows chosen := by
  rw [rowAt, List.find?_append, ← rowAt, List.find?_singleton]
  by_cases same : chosen = key row
  · subst same
    simp [fresh]
  · simp [same, Ne.symm same]

/-- A column that fixes the key is found by the key as the column of its row. -/
theorem rowAt_column {Column : Type} (column : Row → Column) (keyOf : Column → Key)
    {rows rows' : List Row} (fixes : ∀ row, keyOf (column row) = key row)
    (same : rows'.map column = rows.map column) :
    (rowAt key rows' chosen).map column = (rowAt key rows chosen).map column := by
  have found (rows : List Row) :
      (rowAt key rows chosen).map column = rowAt keyOf (rows.map column) chosen := by
    rw [rowAt, rowAt, List.find?_map]
    congr 2
    funext row
    simp only [Function.comp_apply, fixes]
  rw [found, found, same]

theorem nodup_append (distinct : (rows.map key).Nodup) (fresh : rowAt key rows (key row) = none) :
    ((rows ++ [row]).map key).Nodup := by
  rw [List.map_append, List.map_singleton]
  refine List.nodup_append.mpr ⟨distinct, List.nodup_singleton _, ?_⟩
  rintro old member new isNew rfl
  obtain ⟨other, inside, same⟩ := List.mem_map.mp member
  exact rowAt_eq_none.mp fresh other inside (same.trans (List.mem_singleton.mp isNew))

/-- A change of the row with the key keeps another column distinct where no other row has its value. -/
theorem nodup_map_change {Value : Type} {value : Row → Value} {change : Row → Row}
    (distinct : (rows.map key).Nodup) (values : (rows.map value).Nodup)
    (others : ∀ row ∈ rows, key row ≠ chosen → change row = row)
    (apart : ∀ row ∈ rows, key row = chosen → ∀ other ∈ rows, key other ≠ chosen →
      value other ≠ value (change row)) : ((rows.map change).map value).Nodup := by
  rw [List.map_map, List.nodup_map_iff_inj_on (List.Nodup.of_map key distinct)]
  intro first member second also same
  simp only [Function.comp_apply] at same
  by_cases one : key first = chosen <;> by_cases two : key second = chosen
  · exact row_unique key distinct member also (one.trans two.symm)
  · rw [others second also two] at same
    exact absurd same.symm (apart first member one second also two)
  · rw [others first member one] at same
    exact absurd same (apart second also two first member one)
  · rw [others first member one, others second also two] at same
    exact row_unique value values member also same

end Lookup

end Library
