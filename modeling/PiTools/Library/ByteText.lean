import Mathlib.Data.List.TakeWhile
import PiTools.Library.Text

/-
This file defines the operations on a text by byte offsets. A slice at an offset
inside of a character has no value.
-/

namespace Library

/-! ### Slices -/

/-- The characters from a byte offset on. -/
def dropBytes : Nat → List Char → Option (List Char)
  | 0, text => some text
  | _ + 1, [] => none
  | bytes + 1, c :: rest =>
      if c.utf8Size ≤ bytes + 1 then dropBytes (bytes + 1 - c.utf8Size) rest else none

/-- The characters in front of a byte offset. -/
def takeBytes : Nat → List Char → Option (List Char)
  | 0, _ => some []
  | _ + 1, [] => none
  | bytes + 1, c :: rest =>
      if c.utf8Size ≤ bytes + 1 then (takeBytes (bytes + 1 - c.utf8Size) rest).map (c :: ·) else none

/-- A text takes the place of the bytes between two offsets. -/
def replaceRange (start stop : Nat) (new text : List Char) : Option (List Char) := do
  let front ← takeBytes start text
  let back ← dropBytes stop text
  pure (front ++ (new ++ back))

theorem dropBytes_cons (c : Char) (rest : List Char) (bytes : Nat) :
    dropBytes (c.utf8Size + bytes) (c :: rest) = dropBytes bytes rest := by
  have positive := c.utf8Size_pos
  have total : c.utf8Size + bytes = (c.utf8Size + bytes - 1) + 1 := by omega
  rw [total, dropBytes, ← total, if_pos (by omega), Nat.add_sub_cancel_left]

theorem takeBytes_cons (c : Char) (rest : List Char) (bytes : Nat) :
    takeBytes (c.utf8Size + bytes) (c :: rest) = (takeBytes bytes rest).map (c :: ·) := by
  have positive := c.utf8Size_pos
  have total : c.utf8Size + bytes = (c.utf8Size + bytes - 1) + 1 := by omega
  rw [total, takeBytes, ← total, if_pos (by omega), Nat.add_sub_cancel_left]

@[simp] theorem dropBytes_append (first second : List Char) :
    dropBytes (byteLength first) (first ++ second) = some second := by
  induction first with
  | nil => rw [List.nil_append, byteLength, List.foldr_nil, dropBytes]
  | cons c rest ih => rw [List.cons_append, byteLength_cons, dropBytes_cons, ih]

@[simp] theorem takeBytes_append (first second : List Char) :
    takeBytes (byteLength first) (first ++ second) = some first := by
  induction first with
  | nil => rw [List.nil_append, byteLength, List.foldr_nil, takeBytes]
  | cons c rest ih => rw [List.cons_append, byteLength_cons, takeBytes_cons, ih, Option.map_some]

theorem replaceRange_append (front old new back : List Char) :
    replaceRange (byteLength front) (byteLength front + byteLength old) new (front ++ (old ++ back)) =
      some (front ++ (new ++ back)) := by
  have whole := dropBytes_append (front ++ old) back
  rw [byteLength_append, List.append_assoc] at whole
  rw [replaceRange, takeBytes_append, whole]
  rfl

/-! ### Searches -/

/-- The byte offset of the first occurrence. -/
def findText (needle : List Char) : List Char → Option Nat
  | [] => if needle = [] then some 0 else none
  | c :: rest =>
      if needle.isPrefixOf (c :: rest) then some 0
      else (findText needle rest).map (c.utf8Size + ·)

/-- The byte offset of the first character with a property. -/
def findChar (property : Char → Bool) : List Char → Option Nat
  | [] => none
  | c :: rest => if property c then some 0 else (findChar property rest).map (c.utf8Size + ·)

/-- A search ends without a find, or it stops in front of the first occurrence. -/
theorem findText_cases {needle : List Char} (visible : needle ≠ []) (text : List Char) :
    (findText needle text = none ∧ ¬ needle <:+: text) ∨
      ∃ before rest, text = before ++ rest ∧ findText needle text = some (byteLength before) ∧
        needle <+: rest ∧ ∀ first second, before = first ++ second → second ≠ [] →
          ¬ needle <+: second ++ rest := by
  induction text with
  | nil =>
      refine .inl ⟨by simp [findText, visible], fun occurs => visible ?_⟩
      exact List.infix_nil.mp occurs
  | cons c rest ih =>
      by_cases here : needle <+: c :: rest
      · refine .inr ⟨[], c :: rest, rfl, ?_, here, ?_⟩
        · rw [findText, if_pos (List.isPrefixOf_iff_prefix.mpr here)]
          rfl
        · intro first second same nonempty
          exact absurd (List.append_eq_nil_iff.mp same.symm).2 nonempty
      · have unfolded : findText needle (c :: rest) = (findText needle rest).map (c.utf8Size + ·) := by
          rw [findText, if_neg (mt List.isPrefixOf_iff_prefix.mp here)]
        rcases ih with ⟨none, absent⟩ | ⟨before, tail, same, found, starts, first⟩
        · refine .inl ⟨by rw [unfolded, none]; rfl, fun occurs => ?_⟩
          exact (List.infix_cons_iff.mp occurs).elim here absent
        · refine .inr ⟨c :: before, tail, by rw [same]; rfl, ?_, starts, ?_⟩
          · rw [unfolded, found, byteLength_cons]
            rfl
          · intro front back split nonempty
            cases front with
            | nil =>
                rw [List.nil_append] at split
                rw [← split, List.cons_append, ← same]
                exact here
            | cons d front => exact first front back (List.cons.inj split).2 nonempty

/-- The characters in front of the first one with a property. -/
theorem findChar_eq (property : Char → Bool) (text : List Char) :
    findChar property text =
      if text.any property then some (byteLength (text.takeWhile fun c => !property c)) else none := by
  induction text with
  | nil => rfl
  | cons c rest ih =>
      rw [findChar, ih, List.any_cons, List.takeWhile_cons]
      cases here : property c with
      | true => simp [byteLength]
      | false =>
          simp only [Bool.false_eq_true, if_false, Bool.false_or, Bool.not_false, if_true]
          split
          · rw [Option.map_some, byteLength_cons]
          · rfl

/-- The offset behind the characters without a property, or the end of the text. -/
theorem findChar_getD (property : Char → Bool) (text : List Char) :
    (findChar property text).getD (byteLength text) =
      byteLength (text.takeWhile fun c => !property c) := by
  rw [findChar_eq]
  split
  · rfl
  · rename_i absent
    rw [List.takeWhile_eq_self_iff.mpr]
    · rfl
    · intro c member
      rw [Bool.not_eq_true, List.any_eq_false] at absent
      simpa using absent c member

end Library
