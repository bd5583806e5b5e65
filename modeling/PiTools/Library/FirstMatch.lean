import Mathlib.Data.List.Forall2

/-
This file changes the first item of a list that matches a condition.
-/

namespace Library

variable {Item : Type} {matching other : Item → Bool} {change : Item → Item} {items items' : List Item}

/-- Without a match there is nothing to change. -/
def changeFirst (matching : Item → Bool) (change : Item → Item) : List Item → Option (List Item)
  | [] => none
  | item :: rest =>
      if matching item then some (change item :: rest)
      else (changeFirst matching change rest).map (item :: ·)

theorem changeFirst_none : changeFirst matching change items = none ↔
    ∀ item ∈ items, matching item = false := by
  induction items with
  | nil => simp [changeFirst]
  | cons item rest ih =>
      by_cases first : matching item = true
      · simp [changeFirst, first]
      · simp [changeFirst, first, ih]

/-- The items before the changed one do not match. -/
theorem changeFirst_some (changed : changeFirst matching change items = some items') :
    ∃ front item back, items = front ++ item :: back ∧ (∀ earlier ∈ front, matching earlier = false) ∧
      matching item = true ∧ items' = front ++ change item :: back := by
  induction items generalizing items' with
  | nil => cases changed
  | cons item rest ih =>
      rw [changeFirst] at changed
      split at changed
      · rename_i first
        cases changed
        exact ⟨[], item, rest, rfl, by simp, first, rfl⟩
      · rename_i passed
        obtain ⟨rest', later, rfl⟩ := Option.map_eq_some_iff.mp changed
        obtain ⟨front, chosen, back, rfl, before, found, rfl⟩ := ih later
        refine ⟨item :: front, chosen, back, rfl, ?_, found, rfl⟩
        exact List.forall_mem_cons.mpr ⟨Bool.not_eq_true _ ▸ passed, before⟩

/-- Every item stays or is the changed one. -/
theorem changeFirst_rows (changed : changeFirst matching change items = some items') :
    List.Forall₂ (fun item item' => item' = item ∨ matching item = true ∧ item' = change item)
      items items' := by
  obtain ⟨front, item, back, rfl, _, found, rfl⟩ := changeFirst_some changed
  have stays (part : List Item) : List.Forall₂
      (fun item item' => item' = item ∨ matching item = true ∧ item' = change item) part part :=
    List.forall₂_same.mpr fun _ _ => .inl rfl
  exact List.rel_append (stays front) (.cons (.inr ⟨found, rfl⟩) (stays back))

/-- The count of another condition follows the changed item. -/
theorem changeFirst_count (changed : changeFirst matching change items = some items')
    {before after : Nat}
    (matched : ∀ item, matching item = true → (if other item then 1 else 0) = before)
    (altered : ∀ item, (if other (change item) then 1 else 0) = after) :
    items'.countP other + before = items.countP other + after := by
  obtain ⟨front, item, back, rfl, _, found, rfl⟩ := changeFirst_some changed
  simp only [List.countP_append, List.countP_cons]
  rw [matched item found, altered item]
  omega

end Library
