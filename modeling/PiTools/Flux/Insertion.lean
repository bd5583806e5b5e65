import Mathlib.Data.List.TakeWhile
import PiTools.Flux.Kustomization

/-
This file shows what the promotion script lists after it has added a resource
to an aggregate.
-/

namespace PiTools.Flux

open Library

/-! ### Endings of lines -/

theorem space_of_boundary {c : Char} (boundary : lineBoundary c = true) : space c = true := by
  have known : ∀ c ∈ ['\n', '\x0b', '\x0c', '\x1c', '\x1d', '\x1e', '\u0085', '\u2028', '\u2029'],
      space c = true := by decide
  exact known c (by simpa [lineBoundary] using boundary)

/-- A line ends with its ending, or it has none. -/
theorem dropEnding_cases (line : List Char) :
    dropEnding line = line ∨ ∃ c, lineBoundary c = true ∧ line = dropEnding line ++ [c] := by
  rcases List.eq_nil_or_concat line with rfl | ⟨body, c, rfl⟩
  · exact .inl rfl
  · rw [List.concat_eq_append]
    unfold dropEnding
    rw [List.getLast?_concat, Option.any_some, List.dropLast_concat]
    cases boundary : lineBoundary c with
    | false => exact .inl rfl
    | true => exact .inr ⟨c, boundary, rfl⟩

theorem lstrip_eq_nil {line : List Char} : lstrip line = [] ↔ line.all space = true := by
  rw [lstrip, List.dropWhile_eq_nil_iff, List.all_eq_true]

theorem indentation_concat (c : Char) {line : List Char} (visible : line.all space = false) :
    (line ++ [c]).takeWhile space = line.takeWhile space := by
  induction line with
  | nil => cases visible
  | cons d line ih =>
      cases spaced : space d with
      | true =>
          rw [List.all_cons, spaced, Bool.true_and] at visible
          simp [spaced, ih visible]
      | false => simp [spaced]

theorem stripPrefix_concat {c : Char} {start : List Char} (absent : c ∉ start) (text : List Char) :
    stripPrefix start (text ++ [c]) = (stripPrefix start text).map (· ++ [c]) := by
  unfold stripPrefix
  by_cases starts : start <+: text
  · have longer : start <+: text ++ [c] := starts.trans (List.prefix_append ..)
    rw [if_pos (List.isPrefixOf_iff_prefix.mpr longer), if_pos (List.isPrefixOf_iff_prefix.mpr starts),
      List.drop_append_of_le_length starts.length_le, Option.map_some]
  · rw [if_neg, if_neg (by rwa [List.isPrefixOf_iff_prefix]), Option.map_none]
    rw [List.isPrefixOf_iff_prefix, List.prefix_concat_iff, not_or]
    exact ⟨fun same => absent (by simp [same]), starts⟩

theorem resourceLine_dash {line rest : List Char} (stripped : lstrip line = '-' :: rest) :
    resourceLine line =
      if (lstrip rest).takeWhile entryChar ≠ [] ∧ (lstrip ((lstrip rest).dropWhile entryChar) = [] ∨
          (lstrip ((lstrip rest).dropWhile entryChar)).head? = some '#') then
        some (line.takeWhile space, (lstrip rest).takeWhile entryChar)
      else none := by
  rw [resourceLine, stripped]
  rfl

theorem resourceLine_other {line : List Char} (other : (lstrip line).head? ≠ some '-') :
    resourceLine line = none := by
  unfold resourceLine
  split
  · rename_i same
    rw [same] at other
    exact absurd rfl other
  · rfl

section

variable {c : Char} (trailing : space c = true) (line : List Char)

include trailing

theorem lstrip_concat : lstrip (line ++ [c]) = if line.all space then [] else lstrip line ++ [c] := by
  induction line with
  | nil => simp [lstrip, trailing]
  | cons d line ih =>
      cases visible : space d with
      | true => simpa [lstrip, visible] using ih
      | false => simp [lstrip, visible]

theorem all_space_concat : (line ++ [c]).all space = line.all space := by
  simp [trailing]

theorem lstrip_head_concat : (lstrip (line ++ [c])).head? = (lstrip line).head? := by
  rw [lstrip_concat trailing]
  cases blank : line.all space with
  | true => rw [lstrip_eq_nil.mpr blank, if_pos rfl]
  | false =>
      have visible : lstrip line ≠ [] := by
        rw [Ne, lstrip_eq_nil, blank]
        exact Bool.false_ne_true
      rw [if_neg Bool.false_ne_true, List.head?_append_of_ne_nil _ visible]

theorem blankOrComment_concat : blankOrComment (line ++ [c]) = blankOrComment line := by
  rw [blankOrComment, blankOrComment, all_space_concat trailing, lstrip_head_concat trailing]

theorem isResourcesLine_concat : isResourcesLine (line ++ [c]) = isResourcesLine line := by
  rw [isResourcesLine, isResourcesLine, lstrip_concat trailing]
  cases blank : line.all space with
  | true =>
      rw [lstrip_eq_nil.mpr blank]
      rfl
  | false =>
      have absent : c ∉ "resources:".toList := by
        intro member
        have visible : ∀ c ∈ "resources:".toList, space c = false := by decide
        rw [visible c member] at trailing
        cases trailing
      rw [if_neg Bool.false_ne_true, stripPrefix_concat absent]
      cases stripPrefix "resources:".toList (lstrip line) with
      | none => rfl
      | some rest => exact all_space_concat trailing rest

theorem resourceLine_concat : resourceLine (line ++ [c]) = resourceLine line := by
  have noEntry : entryChar c = false := by simp [entryChar, trailing]
  have takes (text : List Char) : (text ++ [c]).takeWhile entryChar = text.takeWhile entryChar := by
    induction text with
    | nil => simp [noEntry]
    | cons d text ih => simp only [List.cons_append, List.takeWhile_cons, ih]
  have drops (text : List Char) : (text ++ [c]).dropWhile entryChar = text.dropWhile entryChar ++ [c] := by
    induction text with
    | nil => simp [noEntry]
    | cons d text ih =>
        simp only [List.cons_append, List.dropWhile_cons, ih]
        split <;> rfl
  cases blank : line.all space with
  | true =>
      have stripped := lstrip_concat trailing line
      rw [blank, if_pos rfl] at stripped
      rw [resourceLine_other (by simp [stripped]), resourceLine_other (by simp [lstrip_eq_nil.mpr blank])]
  | false =>
      have stripped := lstrip_concat trailing line
      rw [blank, if_neg Bool.false_ne_true] at stripped
      by_cases dash : (lstrip line).head? = some '-'
      · obtain ⟨rest, same⟩ := List.head?_eq_some_iff.mp dash
        rw [same, List.cons_append] at stripped
        rw [resourceLine_dash stripped, resourceLine_dash same, lstrip_concat trailing rest,
          indentation_concat c blank]
        cases nothing : rest.all space with
        | true =>
            rw [lstrip_eq_nil.mpr nothing]
            rfl
        | false =>
            have head := lstrip_head_concat trailing ((lstrip rest).dropWhile entryChar)
            have empty : lstrip ((lstrip rest).dropWhile entryChar ++ [c]) = [] ↔
                lstrip ((lstrip rest).dropWhile entryChar) = [] := by
              rw [← List.head?_eq_none_iff, ← List.head?_eq_none_iff, head]
            simp only [Bool.false_eq_true, if_false, takes, drops, empty, head]
      · have same := lstrip_head_concat trailing line
        rw [resourceLine_other dash, resourceLine_other (by rwa [same])]

end

/-! ### Lists of lines -/

theorem blankOrComment_dropEnding (line : List Char) : blankOrComment (dropEnding line) = blankOrComment line := by
  rcases dropEnding_cases line with same | ⟨c, boundary, same⟩
  · rw [same]
  · conv_rhs => rw [same, blankOrComment_concat (space_of_boundary boundary)]

theorem resourceLine_dropEnding (line : List Char) : resourceLine (dropEnding line) = resourceLine line := by
  rcases dropEnding_cases line with same | ⟨c, boundary, same⟩
  · rw [same]
  · conv_rhs => rw [same, resourceLine_concat (space_of_boundary boundary)]

theorem isResourcesLine_dropEnding (line : List Char) :
    isResourcesLine (dropEnding line) = isResourcesLine line := by
  rcases dropEnding_cases line with same | ⟨c, boundary, same⟩
  · rw [same]
  · conv_rhs => rw [same, isResourcesLine_concat (space_of_boundary boundary)]

theorem indentation_dropEnding {line : List Char} (visible : (dropEnding line).all space = false) :
    indentation (dropEnding line) = indentation line := by
  rcases dropEnding_cases line with same | ⟨c, -, same⟩
  · rw [same]
  · conv_rhs => rw [same, indentation, indentation_concat c visible]
    rfl

theorem visible_of_resources {line : List Char} (list : isResourcesLine line = true) :
    line.all space = false := by
  cases blank : line.all space with
  | false => rfl
  | true =>
      rw [isResourcesLine, lstrip_eq_nil.mpr blank] at list
      cases list

theorem visible_of_counted {line : List Char} (counted : blankOrComment line = false) :
    line.all space = false := (Bool.or_eq_false_iff.mp counted).1

/-- The endings of the lines do not count. -/
theorem listEntries_dropEnding {indent : Nat} {lines : List (List Char)}
    {entries : List (List Char × List Char)} :
    listEntries indent (lines.map dropEnding) = .ok entries ↔ listEntries indent lines = .ok entries := by
  induction lines generalizing entries with
  | nil => rfl
  | cons line rest ih =>
      rw [List.map_cons, listEntries, listEntries, blankOrComment_dropEnding, resourceLine_dropEnding]
      cases counted : blankOrComment line with
      | true => exact ih
      | false =>
          have visible := visible_of_counted counted
          rw [← blankOrComment_dropEnding] at counted
          rw [if_neg Bool.false_ne_true, if_neg Bool.false_ne_true,
            indentation_dropEnding (visible_of_counted counted)]
          split
          · rfl
          · cases resourceLine line with
            | none => simp
            | some entry =>
                dsimp only
                simp only [map_eq_ok, ih]

/-- A blank line at the end does not count. -/
theorem listEntries_concat {indent : Nat} {lines : List (List Char)} {blank : List Char}
    (empty : blank.all space = true) :
    listEntries indent (lines ++ [blank]) = listEntries indent lines := by
  induction lines with
  | nil => simp [listEntries, blankOrComment, empty]
  | cons line rest ih => simp only [List.cons_append, listEntries, ih]

theorem fromResources_concat {lines : List (List Char)} {blank : List Char}
    (empty : isResourcesLine blank = false) :
    fromResources (lines ++ [blank]) =
      if fromResources lines = [] then [] else fromResources lines ++ [blank] := by
  induction lines with
  | nil => simp [fromResources, empty]
  | cons line rest ih =>
      rw [fromResources] at ih ⊢
      rw [fromResources] at ih ⊢
      cases list : isResourcesLine line with
      | true => simp [list]
      | false => simpa [list] using ih

/-! ### Ended lines -/

/-- A line ends with its first boundary. -/
def EndedLine (line : List Char) : Prop :=
  ∃ body c, line = body ++ [c] ∧ lineBoundary c = true ∧ ∀ d ∈ body, lineBoundary d = false

theorem keepLines_cons {line : List Char} (ended : EndedLine line) (rest : List Char) :
    keepLines (line ++ rest) = line :: keepLines rest := by
  obtain ⟨body, c, rfl, boundary, plain⟩ := ended
  rw [List.append_assoc, List.singleton_append]
  induction body with
  | nil => rw [List.nil_append, keepLines, if_pos boundary, List.nil_append]
  | cons d body ih =>
      have inner := ih fun other member => plain other (.tail _ member)
      rw [List.cons_append, keepLines, plain d (.head _), if_neg Bool.false_ne_true, inner]
      rfl

/-- Ended lines are read back one by one. -/
theorem keepLines_flatten {lines : List (List Char)} (ended : ∀ line ∈ lines, EndedLine line) :
    keepLines lines.flatten = lines := by
  induction lines with
  | nil => rfl
  | cons line rest ih =>
      rw [List.flatten_cons, keepLines_cons (ended line (.head _)),
        ih fun other member => ended other (.tail _ member)]

theorem flatten_keepLines (text : List Char) : (keepLines text).flatten = text := by
  induction text with
  | nil => rfl
  | cons c rest ih =>
      rw [keepLines]
      split
      · rw [List.flatten_cons, ih]
        rfl
      · cases kept : keepLines rest with
        | nil =>
            rw [kept] at ih
            rw [← ih]
            rfl
        | cons line more =>
            rw [kept, List.flatten_cons] at ih
            rw [List.flatten_cons, List.cons_append, ih]

/-- The lines of a text that ends with a line break have all ended. -/
theorem keepLines_ended (text : List Char) : ∀ line ∈ keepLines (text ++ ['\n']), EndedLine line := by
  induction text with
  | nil =>
      intro line member
      rw [List.mem_singleton.mp member]
      exact ⟨[], '\n', rfl, rfl, by simp⟩
  | cons c rest ih =>
      intro line member
      rw [List.cons_append, keepLines] at member
      split at member
      · rename_i boundary
        rcases List.mem_cons.mp member with rfl | later
        · exact ⟨[], c, rfl, boundary, by simp⟩
        · exact ih line later
      · rename_i plain
        split at member
        · rename_i none
          have whole := flatten_keepLines (rest ++ ['\n'])
          rw [none] at whole
          simp at whole
        · rename_i first more same
          rw [same] at ih
          rcases List.mem_cons.mp member with rfl | later
          · obtain ⟨body, d, rfl, boundary, others⟩ := ih first (.head _)
            refine ⟨c :: body, d, rfl, boundary, ?_⟩
            intro e inside
            rcases List.mem_cons.mp inside with rfl | inside
            · simpa using plain
            · exact others e inside
          · exact ih line (.tail _ later)

theorem keepLines_visible {text line : List Char} (member : line ∈ keepLines text) : line ≠ [] := by
  induction text generalizing line with
  | nil => cases member
  | cons c rest ih =>
      rw [keepLines] at member
      split at member
      · rcases List.mem_cons.mp member with rfl | later
        · exact List.cons_ne_nil c []
        · exact ih later
      · split at member
        · rw [List.mem_singleton.mp member]
          exact List.cons_ne_nil c []
        · rename_i first more same
          rcases List.mem_cons.mp member with rfl | later
          · exact List.cons_ne_nil c first
          · exact ih (by rw [same]; exact .tail _ later)

/-- A line break at the end adds a blank line at most. -/
theorem splitLines_concat (text : List Char) :
    splitLines (text ++ ['\n']) = splitLines text ∨ splitLines (text ++ ['\n']) = splitLines text ++ [[]] := by
  induction text with
  | nil => exact .inr rfl
  | cons c rest ih =>
      unfold splitLines at ih ⊢
      rw [List.cons_append, keepLines, keepLines]
      split
      · rcases ih with same | longer
        · exact .inl (by rw [List.map_cons, List.map_cons, same])
        · exact .inr (by rw [List.map_cons, List.map_cons, longer, List.cons_append])
      · rename_i plain
        have single : dropEnding [c] = [c] := by simp [dropEnding, plain]
        have grown {line : List Char} (some_ : line ≠ []) : dropEnding (c :: line) = c :: dropEnding line := by
          unfold dropEnding
          rw [List.getLast?_cons_of_ne_nil some_, List.dropLast_cons_of_ne_nil some_]
          split <;> rfl
        cases kept : keepLines rest with
        | nil =>
            have empty := flatten_keepLines rest
            rw [kept] at empty
            rw [← empty]
            left
            change [dropEnding (c :: ['\n'])] = [dropEnding [c]]
            rw [grown (List.cons_ne_nil '\n' []), single]
            rfl
        | cons line more =>
            have here := keepLines_visible (kept ▸ List.Mem.head more)
            cases longer : keepLines (rest ++ ['\n']) with
            | nil =>
                have whole := flatten_keepLines (rest ++ ['\n'])
                rw [longer] at whole
                simp at whole
            | cons first others =>
                have there := keepLines_visible (longer ▸ List.Mem.head others)
                rw [kept, longer] at ih
                simp only [List.map_cons, List.cons_append, List.cons.injEq] at ih
                simp only [List.map_cons, grown here, grown there, List.cons_append, List.cons.injEq]
                rcases ih with ⟨first_, rest_⟩ | ⟨first_, rest_⟩
                · exact .inl ⟨⟨trivial, first_⟩, rest_⟩
                · exact .inr ⟨⟨trivial, first_⟩, rest_⟩

theorem endedText_cases (text : List Char) :
    (∃ front, endedText text = front ++ ['\n']) ∧
      (splitLines (endedText text) = splitLines text ∨
        splitLines (endedText text) = splitLines text ++ [[]]) := by
  unfold endedText
  split
  · rename_i ends
    obtain ⟨front, same⟩ := List.isSuffixOf_iff_suffix.mp ends
    exact ⟨⟨front, same.symm⟩, .inl rfl⟩
  · exact ⟨⟨text, rfl⟩, splitLines_concat text⟩

theorem endedText_ended (text : List Char) : ∀ line ∈ keepLines (endedText text), EndedLine line := by
  obtain ⟨⟨front, same⟩, -⟩ := endedText_cases text
  rw [same]
  exact keepLines_ended front

theorem fromResources_map (lines : List (List Char)) :
    fromResources (lines.map dropEnding) = (fromResources lines).map dropEnding := by
  unfold fromResources
  rw [List.dropWhile_map]
  congr 2
  funext line
  simp [isResourcesLine_dropEnding]

theorem resources_of_mem_from {lines tail : List (List Char)} {line : List Char}
    (found : fromResources lines = line :: tail) : isResourcesLine line = true := by
  have first := List.head?_dropWhile_not (fun line => !isResourcesLine line) lines
  unfold fromResources at found
  rw [found] at first
  simpa using first

/-- The entries of a text are the ones of its lines with their endings. -/
theorem resourceEntries_lines {lines : List (List Char)} {text : List Char}
    {entries : List (List Char × List Char)} (same : splitLines text = lines.map dropEnding) :
    resourceEntries text = .ok entries ↔ entries ≠ [] ∧ ∃ line tail, fromResources lines = line :: tail ∧
      listEntries (indentation line) tail = .ok entries := by
  unfold resourceEntries
  rw [same, fromResources_map]
  cases found : fromResources lines with
  | nil => simp
  | cons line tail =>
      have list := resources_of_mem_from found
      rw [← isResourcesLine_dropEnding] at list
      rw [List.map_cons]
      dsimp only
      rw [indentation_dropEnding (visible_of_resources list)]
      constructor
      · intro read
        cases listed : listEntries (indentation line) (tail.map dropEnding) with
        | error reason =>
            rw [listed] at read
            cases read
        | ok found =>
            rw [listed] at read
            cases found with
            | nil => cases read
            | cons entry others =>
                cases read
                exact ⟨List.cons_ne_nil entry others, line, tail, rfl, listEntries_dropEnding.mp listed⟩
      · rintro ⟨some_, other, rest, same, listed⟩
        cases same
        rw [listEntries_dropEnding.mpr listed]
        cases entries with
        | nil => exact absurd rfl some_
        | cons entry others => rfl

/-- A text and its ended form have the same entries. -/
theorem resourceEntries_ended {text : List Char} {entries : List (List Char × List Char)} :
    resourceEntries text = .ok entries ↔ entries ≠ [] ∧ ∃ line tail,
      fromResources (keepLines (endedText text)) = line :: tail ∧
        listEntries (indentation line) tail = .ok entries := by
  have whole : resourceEntries (endedText text) = .ok entries ↔ resourceEntries text = .ok entries := by
    unfold resourceEntries
    rcases (endedText_cases text).2 with same | longer
    · rw [same]
    · rw [longer, fromResources_concat rfl]
      cases fromResources (splitLines text) with
      | nil => rfl
      | cons line tail =>
          rw [if_neg (List.cons_ne_nil line tail), List.cons_append]
          dsimp only
          rw [listEntries_concat rfl]
  rw [← whole]
  exact resourceEntries_lines rfl

/-! ### The added entry -/

/-- The line that ends a list because it is indented less. -/
def listEnd (indent : Nat) (lines : List (List Char)) : Option (List Char) :=
  lines.find? fun line => !blankOrComment line && indentation line < indent

/-- The list goes on as a list behind the line that ends it. -/
def EndsAtEntry (indent : Nat) (lines : List (List Char)) : Prop :=
  ∃ line, listEnd indent lines = some line ∧ resourceLine line ≠ none

theorem listEnd_cons (indent : Nat) (line : List Char) (rest : List (List Char)) :
    listEnd indent (line :: rest) =
      if blankOrComment line = false ∧ indentation line < indent then some line else listEnd indent rest := by
  unfold listEnd
  rw [List.find?_cons]
  cases blankOrComment line <;> by_cases less : indentation line < indent <;> simp [less]

variable {indent : Nat} {resource : List Char} {lines extended : List (List Char)}
  {entries : List (List Char × List Char)}

/-- The line of the added entry. -/
def entryLine (space resource : List Char) : List Char := space ++ ("- ".toList ++ (resource ++ ['\n']))

theorem withEntry_cons_of_blank {line : List Char} {rest : List (List Char)}
    (blank : blankOrComment line = true) :
    withEntry resource (line :: rest) = (withEntry resource rest).map (line :: ·) := by
  unfold withEntry
  rw [lastEntry, if_pos blank]
  cases lastEntry rest <;> simp

theorem withEntry_cons_of_entry {line : List Char} {rest : List (List Char)} {entry : List Char × List Char}
    (counted : blankOrComment line = false) (found : resourceLine line = some entry) :
    withEntry resource (line :: rest) =
      match withEntry resource rest with
      | none => some (line :: entryLine entry.1 resource :: rest)
      | some extended => some (line :: extended) := by
  unfold withEntry
  rw [lastEntry, counted, if_neg Bool.false_ne_true, found]
  cases lastEntry rest <;> rfl

theorem withEntry_cons_of_other {line : List Char} {rest : List (List Char)}
    (counted : blankOrComment line = false) (other : resourceLine line = none) :
    withEntry resource (line :: rest) = none := by
  unfold withEntry
  rw [lastEntry, counted, if_neg Bool.false_ne_true, other]
  rfl

/-- A counted line of a list is an entry, or it ends the list. -/
theorem listEntries_cons {line : List Char} {rest : List (List Char)}
    (counted : blankOrComment line = false) (listed : listEntries indent (line :: rest) = .ok entries) :
    (indentation line < indent ∧ entries = []) ∨
      (¬ indentation line < indent ∧ ∃ entry others, resourceLine line = some entry ∧
        listEntries indent rest = .ok others ∧ entries = entry :: others) := by
  rw [listEntries, counted, if_neg Bool.false_ne_true] at listed
  split at listed
  · rename_i less
    exact .inl ⟨less, (Except.ok.inj listed).symm⟩
  · rename_i within
    split at listed
    · cases listed
    · rename_i entry found
      obtain ⟨others, rest_, rfl⟩ := map_eq_ok.mp listed
      exact .inr ⟨within, entry, others, found, rest_, rfl⟩

theorem listEntries_cons_of_blank {line : List Char} {rest : List (List Char)}
    (blank : blankOrComment line = true) : listEntries indent (line :: rest) = listEntries indent rest := by
  rw [listEntries, if_pos blank]

theorem listEntries_cons_of_entry {line : List Char} {rest : List (List Char)} {entry : List Char × List Char}
    (counted : blankOrComment line = false) (within : ¬ indentation line < indent)
    (found : resourceLine line = some entry) :
    listEntries indent (line :: rest) = (listEntries indent rest).map (entry :: ·) := by
  rw [listEntries, counted, if_neg Bool.false_ne_true, if_neg within, found]

theorem listEnd_of_blank {line : List Char} {rest : List (List Char)} (blank : blankOrComment line = true) :
    listEnd indent (line :: rest) = listEnd indent rest := by
  rw [listEnd_cons, blank, if_neg (by simp)]

theorem listEnd_of_within {line : List Char} {rest : List (List Char)}
    (within : ¬ indentation line < indent) : listEnd indent (line :: rest) = listEnd indent rest := by
  rw [listEnd_cons, if_neg (fun less => within less.2)]

/-- An entry is found behind which the new one stands, unless the list is empty and ends for good. -/
theorem withEntry_eq_none (listed : listEntries indent lines = .ok entries) :
    withEntry resource lines = none ↔ entries = [] ∧ ¬ EndsAtEntry indent lines := by
  induction lines generalizing entries with
  | nil =>
      cases listed
      simp [withEntry, lastEntry, EndsAtEntry, listEnd]
  | cons line rest ih =>
      cases counted : blankOrComment line with
      | true =>
          rw [listEntries_cons_of_blank counted] at listed
          rw [withEntry_cons_of_blank counted, Option.map_eq_none_iff, EndsAtEntry, listEnd_of_blank counted]
          exact ih listed
      | false =>
          rcases listEntries_cons counted listed with ⟨less, rfl⟩ | ⟨within, entry, others, found, -, rfl⟩
          · have ends : listEnd indent (line :: rest) = some line := by
              rw [listEnd_cons, if_pos ⟨counted, less⟩]
            rw [EndsAtEntry, ends]
            cases found : resourceLine line with
            | none => simp [withEntry_cons_of_other counted found, found]
            | some entry =>
                rw [withEntry_cons_of_entry counted found]
                cases withEntry resource rest <;> simp [found]
          · rw [withEntry_cons_of_entry counted found]
            cases withEntry resource rest <;> simp

/-- A resource is made of the characters of an entry. -/
def EntryName (resource : List Char) : Prop := resource ≠ [] ∧ ∀ c ∈ resource, entryChar c = true

theorem takeWhile_space_all (line : List Char) : ∀ c ∈ line.takeWhile space, space c = true :=
  fun _ member => List.mem_takeWhile_imp member

theorem lstrip_spaces {front : List Char} (spaces : ∀ c ∈ front, space c = true) {c : Char} (rest : List Char)
    (visible : space c = false) : lstrip (front ++ c :: rest) = c :: rest := by
  rw [lstrip, List.dropWhile_append_of_pos spaces, List.dropWhile_cons_of_neg (by simp [visible])]

/-- The new line is an entry with the indentation of the last one. -/
theorem resourceLine_entryLine (name : EntryName resource) {front : List Char}
    (spaces : ∀ c ∈ front, space c = true) :
    resourceLine (entryLine front resource) = some (front, resource) ∧
      blankOrComment (entryLine front resource) = false ∧
        indentation (entryLine front resource) = front.length := by
  have shape : entryLine front resource = front ++ '-' :: ' ' :: (resource ++ ['\n']) := rfl
  obtain ⟨some_, chars⟩ := name
  have stripped : lstrip (entryLine front resource) = '-' :: ' ' :: (resource ++ ['\n']) := by
    rw [shape]
    exact lstrip_spaces spaces _ rfl
  have indent : (entryLine front resource).takeWhile space = front := by
    rw [shape, List.takeWhile_append_of_pos spaces, List.takeWhile_cons_of_neg (by decide), List.append_nil]
  have inner : lstrip (' ' :: (resource ++ ['\n'])) = resource ++ ['\n'] := by
    obtain ⟨c, rest, rfl⟩ := List.exists_cons_of_ne_nil some_
    have visible : space c = false := by
      have entry := chars c (.head _)
      simp only [entryChar, Bool.and_eq_true, Bool.not_eq_true'] at entry
      exact entry.1
    exact @lstrip_spaces [' '] (by decide) c (rest ++ ['\n']) visible
  refine ⟨?_, ?_, ?_⟩
  · rw [resourceLine_dash stripped, inner, List.takeWhile_append_of_pos chars,
      List.dropWhile_append_of_pos chars, indent]
    simp [lstrip, entryChar, space, isWhitespace, some_]
  · rw [blankOrComment, stripped, shape]
    simp [space, isWhitespace]
  · rw [indentation, indent]

theorem resourceLine_indent {line : List Char} {entry : List Char × List Char}
    (found : resourceLine line = some entry) : entry.1 = line.takeWhile space := by
  unfold resourceLine at found
  split at found
  · dsimp only at found
    split at found
    · cases found
      rfl
    · cases found
  · cases found

/-- A list that ends for good has the new entry at its end. -/
theorem listEntries_withEntry (name : EntryName resource) (listed : listEntries indent lines = .ok entries)
    (some_ : entries ≠ []) (closed : ¬ EndsAtEntry indent lines)
    (added : withEntry resource lines = some extended) :
    ∃ front, listEntries indent extended = .ok (entries ++ [(front, resource)]) := by
  induction lines generalizing entries extended with
  | nil => cases added
  | cons line rest ih =>
      cases counted : blankOrComment line with
      | true =>
          rw [withEntry_cons_of_blank counted] at added
          obtain ⟨inner, addedRest, rfl⟩ := Option.map_eq_some_iff.mp added
          rw [listEntries_cons_of_blank counted] at listed ⊢
          rw [EndsAtEntry, listEnd_of_blank counted] at closed
          exact ih listed some_ closed addedRest
      | false =>
          rcases listEntries_cons counted listed with ⟨-, rfl⟩ | ⟨within, entry, others, found, listedRest, rfl⟩
          · exact absurd rfl some_
          · rw [EndsAtEntry, listEnd_of_within within] at closed
            rw [withEntry_cons_of_entry counted found] at added
            cases inner : withEntry resource rest with
            | none =>
                -- The line is the last entry, and the new one stands right behind it.
                rw [inner] at added
                cases added
                obtain ⟨rfl, -⟩ := (withEntry_eq_none listedRest).mp inner
                obtain ⟨read, counts, indented⟩ := resourceLine_entryLine name
                  (resourceLine_indent found ▸ takeWhile_space_all line)
                have deep : ¬ indentation (entryLine entry.1 resource) < indent := by
                  rw [indented, resourceLine_indent found]
                  exact within
                rw [listEntries_cons_of_entry counted within found, listEntries_cons_of_entry counts deep read,
                  listedRest]
                exact ⟨entry.1, rfl⟩
            | some innerExtended =>
                rw [inner] at added
                cases added
                have more : others ≠ [] := by
                  rintro rfl
                  rw [(withEntry_eq_none listedRest).mpr ⟨rfl, closed⟩] at inner
                  cases inner
                obtain ⟨front, listedInner⟩ := ih listedRest more closed inner
                rw [listEntries_cons_of_entry counted within found, listedInner]
                exact ⟨front, rfl⟩

/-- Behind the line that ends the list, a new entry is not listed. -/
theorem listEntries_beyond (listed : listEntries indent lines = .ok entries)
    (goesOn : EndsAtEntry indent lines) (added : withEntry resource lines = some extended) :
    listEntries indent extended = .ok entries := by
  induction lines generalizing entries extended with
  | nil => cases added
  | cons line rest ih =>
      cases counted : blankOrComment line with
      | true =>
          rw [withEntry_cons_of_blank counted] at added
          obtain ⟨inner, addedRest, rfl⟩ := Option.map_eq_some_iff.mp added
          rw [listEntries_cons_of_blank counted] at listed ⊢
          rw [EndsAtEntry, listEnd_of_blank counted] at goesOn
          exact ih listed goesOn addedRest
      | false =>
          rcases listEntries_cons counted listed with ⟨less, rfl⟩ | ⟨within, entry, others, found, listedRest, rfl⟩
          · have front : ∃ more, extended = line :: more := by
              cases found : resourceLine line with
              | none =>
                  rw [withEntry_cons_of_other counted found] at added
                  cases added
              | some entry =>
                  rw [withEntry_cons_of_entry counted found] at added
                  cases inner : withEntry resource rest with
                  | none =>
                      rw [inner] at added
                      cases added
                      exact ⟨_, rfl⟩
                  | some innerExtended =>
                      rw [inner] at added
                      cases added
                      exact ⟨_, rfl⟩
            obtain ⟨more, rfl⟩ := front
            rw [listEntries, counted, if_neg Bool.false_ne_true, if_pos less]
          · rw [EndsAtEntry, listEnd_of_within within] at goesOn
            rw [withEntry_cons_of_entry counted found] at added
            cases inner : withEntry resource rest with
            | none => exact absurd goesOn ((withEntry_eq_none listedRest).mp inner).2
            | some innerExtended =>
                rw [inner] at added
                cases added
                rw [listEntries_cons_of_entry counted within found, ih listedRest goesOn inner]
                rfl

/-! ### The aggregate -/

def listedTimes (resource : List Char) (entries : List (List Char × List Char)) : Nat :=
  entries.countP fun entry => entry.2 = resource

/-- The list of an aggregate goes on as a list behind its end. -/
def GoesOn (text : List Char) : Prop :=
  ∃ line tail, fromResources (keepLines (endedText text)) = line :: tail ∧ EndsAtEntry (indentation line) tail

/-- One line has been added at the start of a line, and the rest is as before. -/
def InsertsLine (before after : List Char) : Prop :=
  ∃ front line back, endedText before = front ++ back ∧ after = front ++ (line ++ '\n' :: back) ∧
    front.getLast?.all lineBoundary = true ∧ ∀ c ∈ line, lineBoundary c = false

variable {text after : List Char}

theorem validateKustomizationForTarget_entries (valid : validateKustomizationForTarget text = .ok entries) :
    resourceEntries text = .ok entries := by
  simp only [validateKustomizationForTarget, bind_eq_ok, pure_eq_ok] at valid
  obtain ⟨_, -, found, read, _, -, rfl⟩ := valid
  exact read

/-- The lines of an aggregate with one more entry in its list. -/
structure Extended (text resource after : List Char) (entries : List (List Char × List Char))
    (line : List Char) (tail extended : List (List Char)) : Prop where
  found : fromResources (keepLines (endedText text)) = line :: tail
  listed : listEntries (indentation line) tail = .ok entries
  filled : entries ≠ []
  added : withEntry resource tail = some extended
  result : after =
    ((keepLines (endedText text)).takeWhile (fun line => !isResourcesLine line) ++ line :: extended).flatten

/-- A valid aggregate is kept or extended, unless it lists the resource more than once. -/
theorem ensureResource_valid (valid : validateKustomizationForTarget text = .ok entries) :
    (1 < listedTimes resource entries → ensureResource text resource = .error .duplicateResource) ∧
      (listedTimes resource entries = 1 → ensureResource text resource = .ok none) ∧
        (listedTimes resource entries = 0 → ∃ after line tail extended,
          ensureResource text resource = .ok (some after) ∧
            Extended text resource after entries line tail extended) := by
  have listed : (entries.any fun entry => entry.2 = resource) = true ↔ 0 < listedTimes resource entries := by
    rw [List.any_eq_true, listedTimes, List.countP_pos_iff]
  refine ⟨fun many => ?_, fun once => ?_, fun never => ?_⟩
  · rw [ensureResource, valid]
    change (if _ then _ else _) = _
    rw [if_pos (listed.mpr (by omega))]
    exact if_pos many
  · rw [ensureResource, valid]
    change (if _ then _ else _) = _
    rw [if_pos (listed.mpr (by omega))]
    refine if_neg ?_
    change ¬ 1 < listedTimes resource entries
    omega
  · obtain ⟨filled, line, tail, found, read⟩ :=
      resourceEntries_ended.mp (validateKustomizationForTarget_entries valid)
    cases added : withEntry resource tail with
    | none => exact absurd ((withEntry_eq_none read).mp added).1 filled
    | some extended =>
        refine ⟨_, line, tail, extended, ?_, found, read, filled, added, rfl⟩
        rw [ensureResource, valid]
        change (if _ then _ else _) = _
        rw [if_neg (fun some_ => by have := listed.mp some_; omega)]
        dsimp only
        rw [found]
        dsimp only
        rw [added]

section

variable {line : List Char} {tail : List (List Char)}

/-- The lines in front of the list stay where they are. -/
theorem Extended.split (more : Extended text resource after entries line tail extended) :
    ∃ front, keepLines (endedText text) = front ++ line :: tail ∧
      after = (front ++ line :: extended).flatten ∧ ∀ other ∈ front, isResourcesLine other = false := by
  refine ⟨_, ?_, more.result, ?_⟩
  · rw [← more.found]
    exact (List.takeWhile_append_dropWhile ..).symm
  · intro other member
    simpa using List.mem_takeWhile_imp member

theorem lastEntry_indent {lines : List (List Char)} {last : Nat × List Char} (found : lastEntry lines = some last) :
    ∃ line ∈ lines, blankOrComment line = false ∧ last.2 = line.takeWhile space := by
  induction lines generalizing last with
  | nil => cases found
  | cons line rest ih =>
      rw [lastEntry] at found
      split at found
      · obtain ⟨inner, foundRest, rfl⟩ := Option.map_eq_some_iff.mp found
        obtain ⟨other, member, counted, same⟩ := ih foundRest
        exact ⟨other, .tail _ member, counted, same⟩
      · rename_i counted
        split at found
        · cases found
        · rename_i entry read
          split at found
          · cases found
            exact ⟨line, .head _, by simpa using counted, resourceLine_indent read⟩
          · rename_i inner foundRest
            cases found
            obtain ⟨other, member, counted, same⟩ := ih foundRest
            exact ⟨other, .tail _ member, counted, same⟩

/-- The white space in front of a counted line lies in front of its ending. -/
theorem EndedLine.leading {line : List Char} (ended : EndedLine line) (counted : blankOrComment line = false) :
    ∀ c ∈ line.takeWhile space, lineBoundary c = false := by
  obtain ⟨body, d, rfl, boundary, plain⟩ := ended
  rw [blankOrComment_concat (space_of_boundary boundary)] at counted
  rw [indentation_concat d (visible_of_counted counted)]
  exact fun c member => plain c ((List.takeWhile_prefix space).subset member)

/-- The extension is one line between lines of the list. -/
theorem Extended.inserted (more : Extended text resource after entries line tail extended) :
    ∃ front back indent, tail = front ++ back ∧ extended = front ++ entryLine indent resource :: back ∧
      (∀ c ∈ indent, lineBoundary c = false) ∧ ∀ c ∈ indent, c ∈ endedText text := by
  obtain ⟨last, found, rfl⟩ := Option.map_eq_some_iff.mp more.added
  obtain ⟨other, member, counted, same⟩ := lastEntry_indent found
  have inside : other ∈ keepLines (endedText text) := by
    obtain ⟨start, whole, -, -⟩ := more.split
    rw [whole]
    exact List.mem_append_right _ (.tail _ member)
  refine ⟨tail.take last.1, tail.drop last.1, last.2, (List.take_append_drop ..).symm, rfl, ?_, ?_⟩
  · rw [same]
    exact EndedLine.leading (endedText_ended text other inside) counted
  · intro c leading
    rw [same] at leading
    rw [← flatten_keepLines (endedText text)]
    exact List.mem_flatten.mpr ⟨other, inside, (List.takeWhile_prefix space).subset leading⟩

theorem getLast_flatten {lines : List (List Char)} (ended : ∀ line ∈ lines, EndedLine line) :
    lines.flatten.getLast?.all lineBoundary = true := by
  rcases List.eq_nil_or_concat lines with rfl | ⟨front, line, rfl⟩
  · rfl
  · obtain ⟨body, c, rfl, boundary, -⟩ := ended line (by simp)
    rw [List.concat_eq_append, List.flatten_append, List.flatten_singleton, ← List.append_assoc,
      List.getLast?_concat]
    exact boundary

/-- The characters of a resource end no line. -/
theorem EntryName.plain (name : EntryName resource) : ∀ c ∈ resource, lineBoundary c = false := by
  intro c member
  cases boundary : lineBoundary c with
  | false => rfl
  | true =>
      have entry := name.2 c member
      rw [entryChar, space_of_boundary boundary] at entry
      cases entry

theorem EntryName.entry_plain (name : EntryName resource) {front : List Char}
    (plain : ∀ c ∈ front, lineBoundary c = false) :
    ∀ c ∈ front ++ ("- ".toList ++ resource), lineBoundary c = false := by
  have dash : ∀ c ∈ "- ".toList, lineBoundary c = false := by decide
  intro c member
  rcases List.mem_append.mp member with space | rest
  · exact plain c space
  · rcases List.mem_append.mp rest with here | inside
    · exact dash c here
    · exact name.plain c inside

theorem Extended.insertsLine (name : EntryName resource)
    (more : Extended text resource after entries line tail extended) : InsertsLine text after := by
  obtain ⟨front, back, indent, tailSplit, rfl, plain, -⟩ := more.inserted
  obtain ⟨start, split, result, -⟩ := more.split
  have ended := endedText_ended text
  have whole := flatten_keepLines (endedText text)
  rw [split, tailSplit] at ended whole
  refine ⟨(start ++ line :: front).flatten, indent ++ ("- ".toList ++ resource), back.flatten, ?_, ?_, ?_, ?_⟩
  · rw [← whole]
    simp
  · rw [result]
    simp [entryLine]
  · apply getLast_flatten
    intro other member
    apply ended other
    simp only [List.mem_append, List.mem_cons] at member ⊢
    grind
  · exact name.entry_plain plain

theorem endedText_mem {c : Char} (member : c ∈ endedText text) : c ∈ text ∨ c = '\n' := by
  rw [endedText] at member
  split at member
  · exact .inl member
  · rcases List.mem_append.mp member with inside | last
    · exact .inl inside
    · exact .inr (List.mem_singleton.mp last)

/-- A text without carriage returns stays one. -/
theorem Extended.plain_after (name : EntryName resource)
    (more : Extended text resource after entries line tail extended) (plain : '\r' ∉ text) : '\r' ∉ after := by
  obtain ⟨front, back, indent, tailSplit, rfl, -, inside⟩ := more.inserted
  obtain ⟨start, split, rfl, -⟩ := more.split
  have ended : '\r' ∉ endedText text := by
    intro member
    rcases endedText_mem member with before | last
    · exact plain before
    · cases last
  have entry : '\r' ∉ entryLine indent resource := by
    have visible : '\r' ∉ resource := fun member => absurd (name.2 _ member) (by decide)
    have leading : '\r' ∉ indent := fun member => ended (inside _ member)
    simp [entryLine, visible, leading]
  rw [← flatten_keepLines (endedText text), split, tailSplit] at ended
  simp only [List.flatten_append, List.flatten_cons, List.mem_append, not_or] at ended ⊢
  exact ⟨ended.1, ended.2.1, ended.2.2.1, entry, ended.2.2.2⟩

/-- The extended aggregate lists the resource once more exactly when its list ends for good. -/
theorem Extended.entries_after (name : EntryName resource)
    (more : Extended text resource after entries line tail extended) :
    (¬ GoesOn text → ∃ front, resourceEntries after = .ok (entries ++ [(front, resource)])) ∧
      (GoesOn text → resourceEntries after = .ok entries) := by
  obtain ⟨front, back, indent, tailSplit, extendedSplit, plain, -⟩ := more.inserted
  obtain ⟨start, split, result, others⟩ := more.split
  have list := resources_of_mem_from more.found
  have kept : keepLines after = start ++ line :: extended := by
    rw [result]
    apply keepLines_flatten
    have ended := endedText_ended text
    rw [split, tailSplit] at ended
    rw [extendedSplit]
    intro other member
    have new : EndedLine (entryLine indent resource) :=
      ⟨indent ++ ("- ".toList ++ resource), '\n', by simp [entryLine], rfl, name.entry_plain plain⟩
    simp only [List.mem_append, List.mem_cons] at member ended
    grind
  have found : fromResources (start ++ line :: extended) = line :: extended := by
    rw [fromResources, List.dropWhile_append_of_pos, List.dropWhile_cons_of_neg]
    · simp [list]
    · intro other member
      simp [others other member]
  have entriesAfter {listed : List (List Char × List Char)} (some_ : listed ≠ [])
      (read : listEntries (indentation line) extended = .ok listed) :
      resourceEntries after = .ok listed := by
    have same : splitLines after = (start ++ line :: extended).map dropEnding := by rw [splitLines, kept]
    exact (resourceEntries_lines same).mpr ⟨some_, line, extended, found, read⟩
  have goesOn : GoesOn text ↔ EndsAtEntry (indentation line) tail := by
    constructor
    · rintro ⟨other, rest, same, beyond⟩
      rw [more.found] at same
      cases same
      exact beyond
    · exact fun beyond => ⟨line, tail, more.found, beyond⟩
  rw [goesOn]
  constructor
  · intro closed
    obtain ⟨space, read⟩ := listEntries_withEntry name more.listed more.filled closed more.added
    exact ⟨space, entriesAfter (by simp) read⟩
  · intro beyond
    exact entriesAfter more.filled (listEntries_beyond more.listed beyond more.added)

end

end PiTools.Flux
