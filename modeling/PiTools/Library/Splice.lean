import Mathlib.Algebra.GroupWithZero.Nat
import Mathlib.Data.List.Infix

/-
This file defines what it means to replace some runs of items in a list and to
keep the gaps between them.
-/

namespace Library

/-- The items from a position on are replaced. -/
structure Edit (Item : Type) where
  start : Nat
  old : List Item
  new : List Item

/-- Some items stay, and the items after them are replaced. -/
structure Segment (Item : Type) where
  gap : List Item
  old : List Item
  new : List Item

variable {Item : Type}

/-- The edits of consecutive segments, from a position on. -/
def locate : Nat → List (Segment Item) → List (Edit Item)
  | _, [] => []
  | position, segment :: rest =>
      ⟨position + segment.gap.length, segment.old, segment.new⟩ ::
        locate (position + segment.gap.length + segment.old.length) rest

def itemsBefore (segments : List (Segment Item)) (tail : List Item) : List Item :=
  segments.foldr (fun segment rest => segment.gap ++ segment.old ++ rest) tail

def itemsAfter (segments : List (Segment Item)) (tail : List Item) : List Item :=
  segments.foldr (fun segment rest => segment.gap ++ segment.new ++ rest) tail

/-- The items decompose into gaps and old parts where the edits say, and the result has the new parts. -/
def Spliced (position : Nat) (items : List Item) (edits : List (Edit Item)) (result : List Item) :
    Prop :=
  ∃ segments tail, edits = locate position segments ∧ items = itemsBefore segments tail ∧
    result = itemsAfter segments tail

@[simp] theorem spliced_nil {position : Nat} {items result : List Item} :
    Spliced position items [] result ↔ result = items := by
  constructor
  · rintro ⟨segments, tail, located, rfl, rfl⟩
    cases segments with
    | nil => rfl
    | cons segment rest => cases located
  · rintro rfl
    exact ⟨[], result, rfl, rfl, rfl⟩

/-- The first edit keeps a gap and replaces its old part. -/
theorem spliced_cons {position : Nat} {items result : List Item} {edit : Edit Item}
    {edits : List (Edit Item)} :
    Spliced position items (edit :: edits) result ↔
      ∃ gap rest later, edit.start = position + gap.length ∧ items = gap ++ edit.old ++ rest ∧
        result = gap ++ edit.new ++ later ∧
          Spliced (edit.start + edit.old.length) rest edits later := by
  constructor
  · rintro ⟨segments, tail, located, rfl, rfl⟩
    cases segments with
    | nil => cases located
    | cons segment rest =>
        obtain ⟨rfl, rfl⟩ := List.cons.inj located
        exact ⟨segment.gap, _, _, rfl, rfl, rfl, rest, tail, rfl, rfl, rfl⟩
  · rintro ⟨gap, rest, later, located, rfl, rfl, segments, tail, rfl, rfl, rfl⟩
    refine ⟨⟨gap, edit.old, edit.new⟩ :: segments, tail, ?_, rfl, rfl⟩
    simp only [locate, ← located]

theorem singleton_prefix_drop {items : List Item} {item : Item} {position : Nat} :
    [item] <+: items.drop position ↔ items[position]? = some item := by
  rw [← List.head?_drop]
  cases items.drop position with
  | nil => simp
  | cons first rest => simp [List.cons_prefix_cons, eq_comm]

/-- Two lists stand at a position when the second one follows the first one. -/
theorem append_prefix_drop {items first second : List Item} {position : Nat} :
    first ++ second <+: items.drop position ↔
      first <+: items.drop position ∧ second <+: items.drop (position + first.length) := by
  constructor
  · rintro ⟨rest, same⟩
    rw [← List.drop_drop, ← same, List.append_assoc, List.drop_left]
    exact ⟨List.prefix_append first _, List.prefix_append second rest⟩
  · rintro ⟨⟨rest, same⟩, starts⟩
    rw [← List.drop_drop, ← same, List.drop_left] at starts
    rw [← same]
    exact (List.prefix_append_right_inj first).mpr starts

theorem prefix_drop_length {items old : List Item} {position : Nat}
    (starts : old <+: items.drop position) (inside : position ≤ items.length) :
    position + old.length ≤ items.length := by
  have fits := starts.length_le
  rw [List.length_drop] at fits
  omega

/-- A cursor in a whole list copies the gap and skips the old part. -/
theorem spliced_drop {cursor : Nat} {items result : List Item} {edit : Edit Item}
    {edits : List (Edit Item)} (inside : cursor ≤ items.length) :
    Spliced cursor (items.drop cursor) (edit :: edits) result ↔
      cursor ≤ edit.start ∧ edit.start ≤ items.length ∧ edit.old <+: items.drop edit.start ∧
        ∃ later, Spliced (edit.start + edit.old.length)
          (items.drop (edit.start + edit.old.length)) edits later ∧
            result = (items.drop cursor).take (edit.start - cursor) ++ edit.new ++ later := by
  rw [spliced_cons]
  constructor
  · rintro ⟨gap, rest, later, located, split, rfl, spliced⟩
    have gapLength : edit.start - cursor = gap.length := by omega
    have fromStart : items.drop edit.start = edit.old ++ rest := by
      rw [located, ← List.drop_drop, split, List.append_assoc, List.drop_left]
    have fits := congrArg List.length split
    simp only [List.length_drop, List.length_append] at fits
    refine ⟨by omega, by omega, ?_, later, ?_, ?_⟩
    · rw [fromStart]
      exact List.prefix_append edit.old rest
    · rw [← List.drop_drop, fromStart, List.drop_left]
      exact spliced
    · rw [gapLength, split, List.append_assoc gap edit.old, List.take_left]
  · rintro ⟨after, before, starts, later, spliced, rfl⟩
    obtain ⟨rest, fromStart⟩ := starts
    have gapLength : ((items.drop cursor).take (edit.start - cursor)).length = edit.start - cursor := by
      rw [List.length_take, List.length_drop]
      omega
    refine ⟨(items.drop cursor).take (edit.start - cursor), rest, later, ?_, ?_, rfl, ?_⟩
    · omega
    · have dropped : (items.drop cursor).drop (edit.start - cursor) = edit.old ++ rest := by
        rw [List.drop_drop, fromStart]
        congr 1
        omega
      rw [List.append_assoc, ← dropped, List.take_append_drop]
    · rw [← List.drop_drop, ← fromStart, List.drop_left] at spliced
      exact spliced

/-! ### The items of a result -/

/-- The last item that stays or is new, where something may stand in front of the cursor. -/
def finalItem (items : List Item) : Nat → Option Item → List (Edit Item) → Option Item
  | cursor, last, [] => if cursor < items.length then items.getLast? else last
  | cursor, last, edit :: rest =>
      finalItem items (edit.start + edit.old.length)
        (edit.new.getLast?.or (if cursor < edit.start then items[edit.start - 1]? else last)) rest

variable {cursor : Nat} {items result : List Item} {edits : List (Edit Item)}

/-- Every old part stands behind the cursor and inside the items. -/
theorem spliced_inside (inside : cursor ≤ items.length)
    (spliced : Spliced cursor (items.drop cursor) edits result) :
    ∀ edit ∈ edits, edit.old <+: items.drop edit.start ∧
      edit.start + edit.old.length ≤ items.length := by
  induction edits generalizing cursor result with
  | nil => simp
  | cons edit rest ih =>
      obtain ⟨-, start, starts, later, others, -⟩ := (spliced_drop inside).mp spliced
      have fits := prefix_drop_length starts start
      intro other member
      rcases List.mem_cons.mp member with rfl | inRest
      · exact ⟨starts, fits⟩
      · exact ih fits others other inRest

theorem getLast_take_drop {cursor start : Nat} (inside : start ≤ items.length) :
    ((items.drop cursor).take (start - cursor)).getLast? =
      if cursor < start then items[start - 1]? else none := by
  split
  · rename_i gap
    have length : ((items.drop cursor).take (start - cursor)).length = start - cursor := by
      rw [List.length_take, List.length_drop]
      omega
    rw [List.getLast?_eq_getElem?, length, List.getElem?_take, if_pos (by omega), List.getElem?_drop]
    congr 1
    omega
  · rename_i noGap
    have none_ : start - cursor = 0 := by omega
    rw [none_, List.take_zero, List.getLast?_nil]

/-- The last item of a result can be told from the items and the edits. -/
theorem spliced_getLast (inside : cursor ≤ items.length) (last : Option Item)
    (spliced : Spliced cursor (items.drop cursor) edits result) :
    result.getLast?.or last = finalItem items cursor last edits := by
  induction edits generalizing cursor result last with
  | nil =>
      rw [spliced_nil] at spliced
      rw [spliced, finalItem, List.getLast?_drop]
      by_cases more : cursor < items.length
      · rw [if_neg (by omega), if_pos more]
        cases known : items.getLast? with
        | none =>
            rw [List.getLast?_eq_none_iff.mp known] at more
            exact absurd more (Nat.not_lt_zero _)
        | some item => rfl
      · rw [if_pos (by omega), if_neg more, Option.none_or]
  | cons edit rest ih =>
      obtain ⟨-, start, starts, later, others, rfl⟩ := (spliced_drop inside).mp spliced
      rw [finalItem, ← ih (prefix_drop_length starts start) _ others, List.getLast?_append,
        List.getLast?_append, getLast_take_drop start, Option.or_assoc, Option.or_assoc]
      congr 2
      split
      · rename_i gap
        rw [List.getElem?_eq_getElem (by omega), Option.some_or]
      · rw [Option.none_or]

/-- The edits change the number of the items by the numbers of their parts. -/
theorem spliced_length {position : Nat} (spliced : Spliced position items edits result) :
    result.length + (edits.map fun edit => edit.old.length).sum =
      items.length + (edits.map fun edit => edit.new.length).sum := by
  induction edits generalizing position items result with
  | nil =>
      rw [spliced_nil] at spliced
      rw [spliced]
      rfl
  | cons edit rest ih =>
      obtain ⟨gap, items, later, -, rfl, rfl, others⟩ := spliced_cons.mp spliced
      have counts := ih others
      simp only [List.map_cons, List.sum_cons, List.length_append]
      omega

theorem mem_of_spliced {position : Nat} (spliced : Spliced position items edits result) {item : Item}
    (member : item ∈ result) : item ∈ items ∨ ∃ edit ∈ edits, item ∈ edit.new := by
  induction edits generalizing position items result with
  | nil =>
      rw [spliced_nil] at spliced
      exact .inl (spliced ▸ member)
  | cons edit rest ih =>
      obtain ⟨gap, items, later, -, rfl, rfl, others⟩ := spliced_cons.mp spliced
      rcases List.mem_append.mp member with front | behind
      · rcases List.mem_append.mp front with inGap | inNew
        · exact .inl (by simp [inGap])
        · exact .inr ⟨edit, List.mem_cons_self, inNew⟩
      · rcases ih others behind with old | ⟨other, inRest, new⟩
        · exact .inl (List.mem_append_right _ old)
        · exact .inr ⟨other, List.mem_cons_of_mem _ inRest, new⟩

/-- The last item stays when no edit reaches it. -/
theorem finalItem_of_lt {last : Option Item} (inside : cursor < items.length)
    (before : ∀ edit ∈ edits, edit.start + edit.old.length < items.length) :
    finalItem items cursor last edits = items.getLast? := by
  induction edits generalizing cursor last with
  | nil => rw [finalItem, if_pos inside]
  | cons edit rest ih =>
      rw [finalItem]
      exact ih (before edit List.mem_cons_self)
        fun other member => before other (List.mem_cons_of_mem _ member)

end Library
