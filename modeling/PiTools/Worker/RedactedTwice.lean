import PiTools.Worker.LogRedaction

/-
This file shows that a redacted log has nothing left to redact, so that a second
redaction changes its line ends only.
-/

namespace PiTools

open Library

/-! ### Redacted lines -/

/-- A redaction leaves the line alone. -/
structure RedactedLine (line : List Char) : Prop where
  tokens : ∀ marker ∈ tokenMarkers, ¬ marker <:+: line
  assigned : (∃ marker ∈ assignmentMarkers, marker <:+: asciiLowercase line) →
    ∃ front separator, line = front ++ separator :: redaction ∧ isSeparator separator = true ∧
      ∀ c ∈ front, isSeparator c = false
  pem : beginsPem line = false

theorem redactTokens_clear {line : List Char} (tokens : ∀ marker ∈ tokenMarkers, ¬ marker <:+: line) :
    tokenMarkers.foldl redactTokenMarker line = line := by
  have quiet := @gaps_append _ (startsAny tokenMarkers) isWhitespace line [] fun front back same _ => by
    rw [List.append_nil, startsAny, List.any_eq_false]
    intro marker member starts
    exact tokens marker member (same ▸ (List.isPrefixOf_iff_prefix.mp starts).isInfix.trans
      (List.suffix_append front back).isInfix)
  rw [List.append_nil] at quiet
  rw [redactTokens_eq, quiet, fill_append, fill_map_some]
  exact List.append_nil line

theorem RedactedLine.redactLine {line : List Char} (redacted : RedactedLine line) : redactLine line = line := by
  by_cases assigned : ∃ marker ∈ assignmentMarkers, marker <:+: asciiLowercase line
  · have same := redactTokens_clear redacted.tokens
    obtain ⟨front, separator, shape, separates, first⟩ := redacted.assigned assigned
    obtain ⟨front', separator', rest, split, separates', first', result⟩ := redactLine_assigned (same.symm ▸ assigned)
    rw [same, shape] at split
    have cut (front rest : List Char) (separator : Char) (separates : isSeparator separator = true)
        (first : ∀ c ∈ front, isSeparator c = false) :
        (front ++ separator :: rest).takeWhile (fun c => !isSeparator c) = front := by
      rw [List.takeWhile_append_of_pos (by simpa using first), List.takeWhile_cons_of_neg (by simpa using separates),
        List.append_nil]
    have fronts : front = front' := by
      rw [← cut front redaction separator separates first, split, cut front' rest separator' separates' first']
    rw [fronts, List.append_cancel_left_eq, List.cons.injEq] at split
    rw [result, shape, fronts, split.1]
  · exact redactLine_plain redacted.tokens fun marker member occurs => assigned ⟨marker, member, occurs⟩

theorem RedactedLine.redactLines {lines : List (List Char)} (redacted : ∀ line ∈ lines, RedactedLine line) :
    redactLines false lines = lines := by
  induction lines with
  | nil => rfl
  | cons line rest ih =>
      obtain ⟨here, later⟩ := List.forall_mem_cons.mp redacted
      rw [PiTools.redactLines, here.pem, Bool.or_self, if_neg Bool.false_ne_true, here.redactLine, ih later]

theorem beginsPem_of_prefix {front line : List Char} (starts : front <+: line) (outside : beginsPem line = false) :
    beginsPem front = false := by
  rw [beginsPem, Bool.eq_false_iff, Ne, containsText_iff] at outside ⊢
  exact fun occurs => outside (occurs.trans (starts.isInfix.map Char.toLower))

/-- A masked line ends with the mark, so that only other lines lose a carriage return. -/
theorem RedactedLine.dropCarriageReturn {line : List Char} (redacted : RedactedLine line) :
    RedactedLine (dropCarriageReturn line) := by
  have starts := dropCarriageReturn_starts line
  refine ⟨fun marker member occurs => redacted.tokens marker member (occurs.trans starts.isInfix), ?_,
    beginsPem_of_prefix starts redacted.pem⟩
  rintro ⟨marker, member, occurs⟩
  have assigned := redacted.assigned ⟨marker, member, occurs.trans (starts.isInfix.map Char.toLower)⟩
  obtain ⟨front, separator, shape, rest⟩ := assigned
  have last : line.getLast? = some ']' := by
    rw [shape, List.getLast?_append_cons]
    rfl
  refine ⟨front, separator, ?_, rest⟩
  rw [Library.dropCarriageReturn, last, if_neg (by decide), shape]

/-- Hiding the tokens of a line puts no key block into it. -/
theorem beginsPem_redactTokens {line : List Char} (outside : beginsPem line = false) :
    beginsPem (tokenMarkers.foldl redactTokenMarker line) = false := by
  have foreign : Foreign (asciiLowercase redaction) "-----begin ".toList :=
    @redaction_foreign ["-----begin ".toList] (by decide) (by decide) (by decide) _ (.head _)
  rw [beginsPem, Bool.eq_false_iff, Ne] at outside ⊢
  rw [redactTokens_eq, asciiLowercase_fill, containsText_fill foreign lowered_redaction_ne, loweredCells,
    List.infix_map_iff]
  rintro ⟨cells, inside, same⟩
  obtain ⟨word, rfl, lowered⟩ := cells_of_map same
  apply outside
  rw [containsText_iff, lowered]
  exact (infix_of_gaps inside).map Char.toLower

theorem redactLine_redacted {line : List Char} (outside : beginsPem line = false) : RedactedLine (redactLine line) := by
  have kept := beginsPem_redactTokens outside
  have clean : ∀ marker ∈ tokenMarkers, ¬ marker <:+: redactLine line :=
    fun marker member => redactLine_clean member line
  by_cases assigned : ∃ marker ∈ assignmentMarkers,
      marker <:+: asciiLowercase (tokenMarkers.foldl redactTokenMarker line)
  · obtain ⟨front, separator, rest, split, separates, first, result⟩ := redactLine_assigned assigned
    refine ⟨clean, fun _ => ⟨front, separator, result, separates, first⟩, ?_⟩
    have starts : front ++ [separator] <+: tokenMarkers.foldl redactTokenMarker line := by
      rw [split]
      exact ⟨rest, by simp⟩
    have before := beginsPem_of_prefix starts kept
    have shape : asciiLowercase (redactLine line) =
        asciiLowercase (front ++ [separator]) ++ '[' :: asciiLowercase (redaction.drop 1) := by
      have mark : asciiLowercase redaction = '[' :: asciiLowercase (redaction.drop 1) := by decide
      rw [result, ← mark]
      simp [asciiLowercase]
    have absent : '[' ∉ "-----begin ".toList := by decide
    have masked : containsText "-----begin ".toList (asciiLowercase (redaction.drop 1)) = false := by decide
    rw [beginsPem, Bool.eq_false_iff, Ne, containsText_iff] at before ⊢
    rw [shape]
    intro occurs
    rcases infix_append_cons absent occurs with inFront | inMark
    · exact before inFront
    · rw [containsText_iff.mpr inMark] at masked
      cases masked
  · have plain : redactLine line = tokenMarkers.foldl redactTokenMarker line := by
      rw [redactLine]
      dsimp only
      rw [if_neg]
      rw [List.any_eq_true]
      rintro ⟨marker, member, occurs⟩
      exact assigned ⟨marker, member, containsText_iff.mp occurs⟩
    exact ⟨clean, fun again => absurd (plain ▸ again) assigned, plain ▸ kept⟩

theorem redaction_redacted : RedactedLine redaction := by
  refine ⟨by decide, ?_, by decide⟩
  rintro ⟨marker, member, occurs⟩
  have absent : ∀ marker ∈ assignmentMarkers, containsText marker (asciiLowercase redaction) = false := by decide
  rw [← containsText_iff, absent marker member] at occurs
  cases occurs

theorem redactLine_unbroken {line : List Char} (noBreak : '\n' ∉ line) : '\n' ∉ redactLine line := by
  have kept : '\n' ∉ tokenMarkers.foldl redactTokenMarker line := by
    rw [redactTokens_eq, mem_fill]
    rintro (inside | ⟨_, marked⟩)
    · obtain ⟨left, right, same⟩ := List.append_of_mem inside
      have together : ['\n'].map some <:+: gaps (startsAny tokenMarkers) isWhitespace line :=
        ⟨left, right, by rw [same]; simp⟩
      exact noBreak ((infix_of_gaps together).subset (.head _))
    · exact absurd marked (by decide)
  rw [redactLine]
  dsimp only
  split
  · rw [List.mem_append]
    rintro (inside | marked)
    · exact kept (List.mem_of_mem_take inside)
    · exact absurd marked (by decide)
  · exact kept

/-- Every line of a redacted log is redacted and is one line. -/
theorem redactLines_redacted (inPem : Bool) {lines : List (List Char)} (noBreak : ∀ line ∈ lines, '\n' ∉ line) :
    ∀ line ∈ redactLines inPem lines, RedactedLine line ∧ '\n' ∉ line := by
  induction lines generalizing inPem with
  | nil => exact fun _ member => absurd member List.not_mem_nil
  | cons line rest ih =>
      obtain ⟨here, later⟩ := List.forall_mem_cons.mp noBreak
      rw [redactLines]
      split
      · exact List.forall_mem_cons.mpr ⟨⟨redaction_redacted, by decide⟩, ih _ later⟩
      · rename_i shown
        rw [Bool.or_eq_true, not_or, Bool.not_eq_true, Bool.not_eq_true] at shown
        exact List.forall_mem_cons.mpr ⟨⟨redactLine_redacted shown.2, redactLine_unbroken here⟩, ih _ later⟩

/-- A second redaction reads the lines of the first one and changes none of them. -/
theorem redactCiText_twice (text : List Char) :
    redactCiText (redactCiText text) = joinLines (lines (redactCiText text)) := by
  have redacted := redactLines_redacted false fun line member => @notMem_of_mem_lines text line member
  rw [redactCiText, RedactedLine.redactLines]
  intro line member
  obtain ⟨part, inside, rfl | rfl⟩ := mem_lines_joinLines (fun part inside => (redacted part inside).2) member
  · exact (redacted _ inside).1
  · exact (redacted _ inside).1.dropCarriageReturn

end PiTools
