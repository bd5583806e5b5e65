import Mathlib.Data.List.Basic
import PiTools.Library.Text

/-
This file relates the components of a relative path to the names between its
slashes.
-/

namespace Library

variable {path : List Char}

/-- The path starts with a name and never goes up. -/
def LeadsWithName (path : List Char) : Prop :=
  (∀ first ∈ (path.splitOn '/').head?, first ≠ [] ∧ first ≠ ['.']) ∧ ['.', '.'] ∉ path.splitOn '/'

instance (path : List Char) : Decidable (LeadsWithName path) := inferInstanceAs (Decidable (_ ∧ _))

/-- The first name is empty for the empty path and in front of a slash. -/
theorem splitOn_head_nil : (path.splitOn '/').head? = some [] ↔ path = [] ∨ isAbsolute path = true := by
  cases path with
  | nil => simp
  | cons c rest =>
      rw [List.splitOn_cons_eq_if_modifyHead]
      by_cases slash : c = '/'
      · simp [slash, isAbsolute]
      · cases split : rest.splitOn '/' with
        | nil => exact absurd split (List.splitOn_ne_nil '/' rest)
        | cons first names => simp [slash, isAbsolute]

/-- The middle of a path is made of plain names unless it goes up. -/
theorem inner_normal {names : List (List Char)} :
    (names.filterMap innerComponent).all PathComponent.isNormal = true ↔ ['.', '.'] ∉ names := by
  induction names with
  | nil => simp
  | cons name rest ih =>
      rw [List.mem_cons, not_or, ← ih]
      by_cases hidden : name = [] ∨ name = ['.']
      · have other : ['.', '.'] ≠ name := by
          rintro rfl
          simp at hidden
        simp [innerComponent, hidden, other]
      · by_cases parent : name = ['.', '.']
        · simp [innerComponent, parent, PathComponent.isNormal]
        · simp [innerComponent, hidden, parent, Ne.symm parent, PathComponent.isNormal]

/-- A relative path has plain components exactly when it leads with a name. -/
theorem components_normal : (path ≠ [] ∧ isAbsolute path = false ∧
    (components path).all PathComponent.isNormal = true) ↔ LeadsWithName path := by
  have first := @splitOn_head_nil path
  obtain ⟨name, rest, split⟩ := List.exists_cons_of_ne_nil (List.splitOn_ne_nil '/' path)
  rw [LeadsWithName]
  rw [split] at first ⊢
  simp only [List.head?_cons, Option.some.injEq, Option.mem_def, forall_eq'] at first ⊢
  constructor
  · rintro ⟨nonempty, relative, normal⟩
    have named : name ≠ [] := by
      rw [Ne, first, not_or, Bool.not_eq_true]
      exact ⟨nonempty, relative⟩
    simp only [components, split, relative, Bool.false_eq_true, if_false, List.head?_cons,
      Option.some.injEq, List.all_append, Bool.and_eq_true] at normal
    refine ⟨⟨named, fun current => ?_⟩, inner_normal.mp normal.2⟩
    rw [if_pos current] at normal
    exact absurd normal.1 (by decide)
  · rintro ⟨⟨named, notCurrent⟩, notParent⟩
    rw [Ne, first, not_or, Bool.not_eq_true] at named
    refine ⟨named.1, named.2, ?_⟩
    simp only [components, split, named.2, Bool.false_eq_true, if_false, List.head?_cons,
      Option.some.injEq, if_neg notCurrent, List.nil_append]
    exact inner_normal.mpr notParent

/-- All names are plain exactly when the path leads with a name and hides none. -/
theorem names_plain : (∀ name ∈ path.splitOn '/', name ≠ [] ∧ name ≠ ['.'] ∧ name ≠ ['.', '.']) ↔
    LeadsWithName path ∧ [] ∉ path.splitOn '/' ∧ ['.'] ∉ path.splitOn '/' := by
  constructor
  · intro plain
    refine ⟨⟨fun first head => ?_, fun member => (plain _ member).2.2 rfl⟩,
      fun member => (plain _ member).1 rfl, fun member => (plain _ member).2.1 rfl⟩
    have name := plain first (List.mem_of_mem_head? head)
    exact ⟨name.1, name.2.1⟩
  · rintro ⟨⟨-, notParent⟩, nonempty, notCurrent⟩ name member
    refine ⟨?_, ?_, ?_⟩ <;> rintro rfl
    · exact nonempty member
    · exact notCurrent member
    · exact notParent member

end Library
