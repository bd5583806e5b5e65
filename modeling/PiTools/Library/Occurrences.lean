import PiTools.Library.Scanning

/-
This file counts the occurrences of a text in another one, and says where the
first occurrence stands.
-/

namespace Library

def stripSuffix (ending text : List Char) : Option (List Char) :=
  if ending.isSuffixOf text then some (text.take (text.length - ending.length)) else none

/-- The scan first skips the rest of the occurrence that it counted last. -/
def countMatchesFrom (needle : List Char) : Nat → List Char → Nat
  | _, [] => 0
  | skip + 1, _ :: rest => countMatchesFrom needle skip rest
  | 0, c :: rest =>
      if needle.isPrefixOf (c :: rest) then 1 + countMatchesFrom needle (needle.length - 1) rest
      else countMatchesFrom needle 0 rest

/-- The number of occurrences that do not overlap. -/
def countMatches (needle text : List Char) : Nat := countMatchesFrom needle 0 text

@[simp] theorem stripSuffix_eq_some {ending text rest : List Char} :
    stripSuffix ending text = some rest ↔ text = rest ++ ending := by
  unfold stripSuffix
  constructor
  · intro found
    split at found
    · rename_i ends
      obtain ⟨rest', rfl⟩ := List.isSuffixOf_iff_suffix.mp ends
      simp only [List.length_append, Nat.add_sub_cancel, List.take_left, Option.some.injEq] at found
      rw [found]
    · cases found
  · rintro rfl
    simp [List.isSuffixOf_iff_suffix]

theorem containsText_iff {needle text : List Char} :
    containsText needle text = true ↔ needle <:+: text := by
  unfold containsText
  rw [List.any_eq_true, List.infix_iff_prefix_suffix]
  constructor
  · rintro ⟨rest, tail, starts⟩
    exact ⟨rest, List.isPrefixOf_iff_prefix.mp starts, (List.mem_tails _ _).mp tail⟩
  · rintro ⟨rest, starts, tail⟩
    exact ⟨rest, (List.mem_tails _ _).mpr tail, List.isPrefixOf_iff_prefix.mpr starts⟩

/-! ### The first occurrence -/

/-- A text starts at the given position and nowhere before. -/
structure FirstAt (needle text : List Char) (position : Nat) : Prop where
  starts : needle <+: text.drop position
  first : ∀ earlier < position, ¬ needle <+: text.drop earlier

/-- A text starts at the given position only. -/
structure OnlyAt (needle text : List Char) (position : Nat) : Prop where
  starts : needle <+: text.drop position
  only : ∀ other, needle <+: text.drop other → other = position

/-- Only finitely many positions can hold a text that is not empty. -/
theorem OnlyAt.of_lt {needle text : List Char} {position : Nat} (nonempty : needle ≠ [])
    (starts : needle <+: text.drop position)
    (only : ∀ other < text.length, needle <+: text.drop other → other = position) :
    OnlyAt needle text position := by
  refine ⟨starts, fun other found => only other ?_ found⟩
  by_contra outside
  rw [List.drop_eq_nil_of_le (Nat.le_of_not_lt outside)] at found
  exact nonempty (List.prefix_nil.mp found)

theorem OnlyAt.first {needle text : List Char} {position : Nat}
    (only : OnlyAt needle text position) : FirstAt needle text position :=
  ⟨only.starts, fun _ earlier starts => earlier.ne (only.only _ starts)⟩

theorem FirstAt.unique {needle text : List Char} {first second : Nat}
    (atFirst : FirstAt needle text first) (atSecond : FirstAt needle text second) :
    first = second := by
  rcases Nat.lt_trichotomy first second with before | same | after
  · exact absurd atFirst.starts (atSecond.first first before)
  · exact same
  · exact absurd atSecond.starts (atFirst.first second after)

theorem FirstAt.of_cons {needle rest : List Char} {c : Char} {position : Nat}
    (first : FirstAt needle (c :: rest) (position + 1)) : FirstAt needle rest position := by
  refine ⟨by simpa using first.starts, fun earlier before starts => ?_⟩
  exact first.first (earlier + 1) (by omega) (by simpa using starts)

/-- A split cuts at the first occurrence. -/
theorem splitOnce_of_firstAt {separator before after : List Char}
    (first : FirstAt separator (before ++ separator ++ after) before.length) :
    splitOnce separator (before ++ separator ++ after) = some (before, after) := by
  induction before with
  | nil =>
      cases separator with
      | nil => cases after <;> simp [splitOnce]
      | cons c separator => simpa using splitOnce_self
  | cons c before ih =>
      have other : ¬ separator <+: c :: (before ++ separator ++ after) := by
        have start := first.first 0 (by simp)
        simpa using start
      rw [List.cons_append, List.cons_append, splitOnce_cons other, ih first.of_cons]
      rfl

theorem countMatchesFrom_eq_zero {needle text : List Char} (skip : Nat)
    (absent : ∀ position, ¬ needle <+: text.drop position) :
    countMatchesFrom needle skip text = 0 := by
  induction text generalizing skip with
  | nil => rfl
  | cons c rest ih =>
      have later : ∀ position, ¬ needle <+: rest.drop position := fun position starts =>
        absent (position + 1) (by simpa using starts)
      cases skip with
      | zero =>
          have here : ¬ needle <+: c :: rest := by simpa using absent 0
          simp only [countMatchesFrom, List.isPrefixOf_iff_prefix, here, if_false]
          exact ih 0 later
      | succ skip => exact ih skip later

/-- A text that starts at one position only is counted once. -/
theorem countMatches_of_onlyAt {needle text : List Char} {position : Nat} (nonempty : needle ≠ [])
    (only : OnlyAt needle text position) : countMatches needle text = 1 := by
  unfold countMatches
  induction text generalizing position with
  | nil =>
      have none : needle <+: [] := by simpa using only.starts
      exact absurd (List.prefix_nil.mp none) nonempty
  | cons c rest ih =>
      cases position with
      | zero =>
          have here : needle <+: c :: rest := by simpa using only.starts
          have later : ∀ position, ¬ needle <+: rest.drop position := by
            intro position starts
            have same := only.only (position + 1) (by simpa using starts)
            omega
          simp only [countMatchesFrom, List.isPrefixOf_iff_prefix, here, if_true,
            countMatchesFrom_eq_zero _ later]
      | succ position =>
          have other : ¬ needle <+: c :: rest := by
            intro starts
            have same := only.only 0 (by simpa using starts)
            omega
          simp only [countMatchesFrom, List.isPrefixOf_iff_prefix, other, if_false]
          refine ih ⟨by simpa using only.starts, fun elsewhere starts => ?_⟩
          have same := only.only (elsewhere + 1) (by simpa using starts)
          omega

/-! ### Occurrences in lines -/

/-- A start that lacks the character in the middle lies on the left. -/
theorem prefix_append_cons {start left right : List Char} {c : Char} (absent : c ∉ start)
    (starts : start <+: left ++ c :: right) : start <+: left := by
  obtain ⟨after, same⟩ := starts
  rcases List.append_eq_append_iff.mp same with ⟨gap, inLeft, _⟩ | ⟨gap, inStart, split⟩
  · exact ⟨gap, inLeft.symm⟩
  · cases gap with
    | nil => exact ⟨[], by simpa using inStart⟩
    | cons d gap =>
        obtain ⟨rfl, _⟩ := List.cons.inj split
        exact absurd (by rw [inStart]; simp) absent

/-- An occurrence that lacks the character in the middle lies on one of its sides. -/
theorem infix_append_cons {needle left right : List Char} {c : Char} (absent : c ∉ needle)
    (occurs : needle <:+: left ++ c :: right) : needle <:+: left ∨ needle <:+: right := by
  induction left with
  | nil =>
      rcases List.infix_cons_iff.mp occurs with here | later
      · have starts : needle <+: [] ++ c :: right := here
        exact .inl (prefix_append_cons absent starts).isInfix
      · exact .inr later
  | cons d left ih =>
      rcases List.infix_cons_iff.mp occurs with here | later
      · have starts : needle <+: (d :: left) ++ c :: right := here
        exact .inl (prefix_append_cons absent starts).isInfix
      · exact (ih later).imp_left List.infix_cons

@[simp] theorem joinLines_singleton (line : List Char) : joinLines [line] = line := by
  simp [joinLines]

@[simp] theorem joinLines_cons_cons (line next : List Char) (rest : List (List Char)) :
    joinLines (line :: next :: rest) = line ++ '\n' :: joinLines (next :: rest) := by
  simp [joinLines, List.intercalate_cons_cons]

/-- A text without line breaks occurs in one of the lines. -/
theorem infix_joinLines {needle : List Char} {lines : List (List Char)} (nonempty : needle ≠ [])
    (noBreak : '\n' ∉ needle) (occurs : needle <:+: joinLines lines) :
    ∃ line ∈ lines, needle <:+: line := by
  induction lines with
  | nil =>
      have none : needle <:+: [] := by simpa [joinLines] using occurs
      exact absurd (List.infix_nil.mp none) nonempty
  | cons line rest ih =>
      cases rest with
      | nil => exact ⟨line, List.mem_singleton_self _, by simpa using occurs⟩
      | cons next rest =>
          rw [joinLines_cons_cons] at occurs
          rcases infix_append_cons noBreak occurs with here | later
          · exact ⟨line, List.mem_cons_self, here⟩
          · obtain ⟨other, member, inside⟩ := ih later
            exact ⟨other, List.mem_cons_of_mem _ member, inside⟩

/-- A start without line breaks is a start of the first line. -/
theorem prefix_joinLines {start line : List Char} {rest : List (List Char)} (noBreak : '\n' ∉ start)
    (starts : start <+: joinLines (line :: rest)) : start <+: line := by
  cases rest with
  | nil => simpa using starts
  | cons next rest =>
      rw [joinLines_cons_cons] at starts
      exact prefix_append_cons noBreak starts

end Library
