import PiTools.Library.Occurrences
import PiTools.Library.Words

/-
This file splits a text at its first line break, and says which lines a text of
ended lines has.
-/

namespace Library

/-- Each line is followed by a line break. -/
def unlines (ended : List (List Char)) : List Char := ended.flatMap fun line => line ++ ['\n']

@[simp] theorem unlines_nil : unlines [] = [] := rfl

@[simp] theorem unlines_cons (line : List Char) (rest : List (List Char)) :
    unlines (line :: rest) = line ++ '\n' :: unlines rest := by
  simp [unlines]

@[simp] theorem unlines_append (first second : List (List Char)) :
    unlines (first ++ second) = unlines first ++ unlines second :=
  List.flatMap_append

@[simp] theorem lines_nil : lines [] = [] := rfl

theorem lines_open {line : List Char} (noBreak : '\n' ∉ line) (visible : line ≠ []) :
    lines line = [line] := by
  have single : line.splitOn '\n' = [line] := by
    rw [List.splitOn_eq_splitOnP]
    apply List.splitOnP_eq_singleton
    intro c member
    rw [beq_eq_false_iff_ne]
    rintro rfl
    exact noBreak member
  simp [lines, single, visible]

theorem lines_ended {line : List Char} (noBreak : '\n' ∉ line) (rest : List Char) :
    lines (line ++ '\n' :: rest) = dropCarriageReturn line :: lines rest := by
  have split : (line ++ '\n' :: rest).splitOn '\n' = line :: rest.splitOn '\n' := by
    rw [List.splitOn_eq_splitOnP, List.splitOn_eq_splitOnP]
    apply List.splitOnP_append_cons_of_forall_mem
    · intro c member
      rw [beq_eq_false_iff_ne]
      rintro rfl
      exact noBreak member
    · rfl
  have some_ := List.splitOn_ne_nil '\n' rest
  obtain ⟨front, last, pieces⟩ := List.eq_nil_or_concat (rest.splitOn '\n') |>.resolve_left some_
  simp only [lines, split, pieces]
  rw [List.concat_eq_append, ← List.cons_append, List.dropLast_concat, List.dropLast_concat,
    List.map_cons, List.getLastD_concat, List.getLastD_concat, List.cons_append]

/-- A text has no line break, or it has a first one. -/
theorem exists_line (text : List Char) :
    '\n' ∉ text ∨ ∃ line rest, '\n' ∉ line ∧ text = line ++ '\n' :: rest := by
  by_cases broken : '\n' ∈ text
  · obtain ⟨line, rest, same, noBreak⟩ := List.eq_append_cons_of_mem broken
    exact .inr ⟨line, rest, noBreak, same⟩
  · exact .inl broken

theorem lines_unlines {ended : List (List Char)} (noBreak : ∀ line ∈ ended, '\n' ∉ line) :
    lines (unlines ended) = ended.map dropCarriageReturn := by
  induction ended with
  | nil => rfl
  | cons line rest ih =>
      obtain ⟨here, later⟩ := List.forall_mem_cons.mp noBreak
      rw [unlines_cons, lines_ended here, ih later, List.map_cons]

theorem dropCarriageReturn_of_notMem {line : List Char} (none : '\r' ∉ line) :
    dropCarriageReturn line = line := by
  rw [dropCarriageReturn, if_neg]
  intro last
  exact none (List.mem_of_getLast? last)

theorem dropCarriageReturn_starts (line : List Char) : dropCarriageReturn line <+: line := by
  unfold dropCarriageReturn
  split
  · exact List.dropLast_prefix line
  · exact List.prefix_rfl

/-- Every line occurs in its text. -/
theorem infix_of_mem_lines {text line : List Char} (member : line ∈ lines text) : line <:+: text := by
  obtain ⟨length, bound⟩ : ∃ length, text.length = length := ⟨_, rfl⟩
  induction length using Nat.strong_induction_on generalizing text with
  | _ length ih =>
      rcases exists_line text with noBreak | ⟨first, rest, noBreak, rfl⟩
      · by_cases visible : text = []
        · rw [visible] at member
          cases member
        · rw [lines_open noBreak visible, List.mem_singleton] at member
          exact member ▸ List.infix_rfl
      · rw [lines_ended noBreak] at member
        rcases List.mem_cons.mp member with here | later
        · rw [here]
          exact ((dropCarriageReturn_starts first).trans (List.prefix_append first _)).isInfix
        · rw [List.length_append, List.length_cons] at bound
          have inside := ih rest.length (by omega) later rfl
          exact inside.trans ((List.suffix_cons '\n' rest).trans (List.suffix_append first _)).isInfix

theorem notMem_of_mem_lines {text line : List Char} (member : line ∈ lines text) : '\n' ∉ line := by
  obtain ⟨length, bound⟩ : ∃ length, text.length = length := ⟨_, rfl⟩
  induction length using Nat.strong_induction_on generalizing text with
  | _ length ih =>
      rcases exists_line text with noBreak | ⟨first, rest, noBreak, rfl⟩
      · by_cases visible : text = []
        · rw [visible] at member
          cases member
        · rw [lines_open noBreak visible, List.mem_singleton] at member
          exact member ▸ noBreak
      · rw [lines_ended noBreak] at member
        rcases List.mem_cons.mp member with here | later
        · exact fun inside => noBreak ((dropCarriageReturn_starts first).subset (here ▸ inside))
        · rw [List.length_append, List.length_cons] at bound
          exact ih rest.length (by omega) later rfl

/-- Joined lines are read again without their carriage returns. -/
theorem mem_lines_joinLines {parts : List (List Char)} (noBreak : ∀ part ∈ parts, '\n' ∉ part) {line : List Char}
    (member : line ∈ lines (joinLines parts)) : ∃ part ∈ parts, line = part ∨ line = dropCarriageReturn part := by
  induction parts with
  | nil => cases member
  | cons part rest ih =>
      obtain ⟨here, later⟩ := List.forall_mem_cons.mp noBreak
      cases rest with
      | nil =>
          rw [joinLines_singleton] at member
          by_cases visible : part = []
          · rw [visible] at member
            cases member
          · rw [lines_open here visible, List.mem_singleton] at member
            exact ⟨part, .head _, .inl member⟩
      | cons next rest =>
          rw [joinLines_cons_cons, lines_ended here] at member
          rcases List.mem_cons.mp member with first | others
          · exact ⟨part, .head _, .inr first⟩
          · obtain ⟨known, inside, same⟩ := ih later others
            exact ⟨known, .tail _ inside, same⟩

/-! ### Occurrences -/

/-- An occurrence does not start in a part without its first character. -/
theorem infix_append_of_notMem {Item : Type} {c : Item} {needle front rest : List Item} (absent : c ∉ front) :
    c :: needle <:+: front ++ rest ↔ c :: needle <:+: rest := by
  induction front with
  | nil => rfl
  | cons d front ih =>
      rw [List.mem_cons, not_or] at absent
      rw [List.cons_append, List.infix_cons_iff, ih absent.2, List.cons_prefix_cons]
      simp [absent.1]

/-- An occurrence does not end in a last character other than its own. -/
theorem infix_concat {c : Char} {needle text : List Char} (other : needle.getLast? ≠ some c)
    (nonempty : needle ≠ []) : needle <:+: text ++ [c] ↔ needle <:+: text := by
  constructor
  · rintro ⟨before, after, same⟩
    rcases List.eq_nil_or_concat after with rfl | ⟨front, d, rfl⟩
    · have last := congrArg List.getLast? same
      rw [List.append_nil, List.getLast?_append, List.getLast?_concat,
        List.getLast?_eq_some_getLast nonempty] at last
      rw [List.getLast?_eq_some_getLast nonempty] at other
      exact absurd last other
    · rw [List.concat_eq_append, ← List.append_assoc] at same
      exact ⟨before, front, (List.append_inj_left' same rfl)⟩
  · exact fun occurs => occurs.trans (List.prefix_append text [c]).isInfix

/-- A carriage return at the end of a line hides nothing else. -/
theorem infix_dropCarriageReturn {needle line : List Char} (plain : '\r' ∉ needle) :
    needle <:+: dropCarriageReturn line ↔ needle <:+: line := by
  rcases List.eq_nil_or_concat needle with rfl | ⟨front, c, rfl⟩
  · exact ⟨fun _ => List.nil_infix, fun _ => List.nil_infix⟩
  · unfold dropCarriageReturn
    split
    · rename_i last
      obtain ⟨text, rfl⟩ := List.getLast?_eq_some_iff.mp last
      rw [List.dropLast_concat, infix_concat]
      · intro same
        rw [List.concat_eq_append, List.getLast?_concat, Option.some.injEq] at same
        exact plain (by simp [same])
      · simp
    · rfl

end Library
