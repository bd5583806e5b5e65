import PiTools.Library.Unlines
import PiTools.Workspace.Repair

/-
This file defines what git prints as the summary of the staged changes, and says
for which summaries the check of the workspace is exact.
-/

namespace PiTools.Workspace

open Library
open Stack (WorkspaceError)

/-! ### Summaries -/

/-- The text of the names in an entry. An entry is one line. -/
structure ShownName where
  text : List Char
  noBreak : '\n' ∉ text
  deriving DecidableEq

/-- The extended changes. The mode of a file that moves changes in an entry without a name. -/
inductive SummaryEntry
  | createMode (mode : Nat) (name : ShownName)
  | deleteMode (mode : Nat) (name : ShownName)
  | modeChange (old new : Nat) (name : Option ShownName)
  | rename (names : ShownName) (similarity : Nat)
  | copy (names : ShownName) (similarity : Nat)
  | rewrite (name : ShownName) (dissimilarity : Nat)
  deriving DecidableEq

/-- A mode has at least six octal digits. -/
def octalText (mode : Nat) : List Char :=
  List.replicate (6 - (Nat.toDigits 8 mode).length) '0' ++ Nat.toDigits 8 mode

def percentText (score : Nat) : List Char := " (".toList ++ Nat.toDigits 10 score ++ "%)".toList

def SummaryEntry.line : SummaryEntry → List Char
  | .createMode mode name => " create mode ".toList ++ (octalText mode ++ ' ' :: name.text)
  | .deleteMode mode name => " delete mode ".toList ++ (octalText mode ++ ' ' :: name.text)
  | .modeChange old new name =>
      " mode change ".toList ++ (octalText old ++ (" => ".toList ++ (octalText new ++
        (name.map fun name => ' ' :: name.text).getD [])))
  | .rename names similarity => " rename ".toList ++ (names.text ++ percentText similarity)
  | .copy names similarity => " copy ".toList ++ (names.text ++ percentText similarity)
  | .rewrite name dissimilarity => " rewrite ".toList ++ (name.text ++ percentText dissimilarity)

section Lines

variable (mode old new score : Nat) (name : ShownName)

@[simp] theorem SummaryEntry.line_createMode : (createMode mode name).line =
    " create mode ".toList ++ (octalText mode ++ ' ' :: name.text) := rfl

@[simp] theorem SummaryEntry.line_deleteMode : (deleteMode mode name).line =
    " delete mode ".toList ++ (octalText mode ++ ' ' :: name.text) := rfl

@[simp] theorem SummaryEntry.line_modeChange (name : Option ShownName) :
    (modeChange old new name).line = " mode change ".toList ++ (octalText old ++ (" => ".toList ++
      (octalText new ++ (name.map fun name => ' ' :: name.text).getD []))) := rfl

@[simp] theorem SummaryEntry.line_rename :
    (rename name score).line = " rename ".toList ++ (name.text ++ percentText score) := rfl

@[simp] theorem SummaryEntry.line_copy :
    (copy name score).line = " copy ".toList ++ (name.text ++ percentText score) := rfl

@[simp] theorem SummaryEntry.line_rewrite :
    (rewrite name score).line = " rewrite ".toList ++ (name.text ++ percentText score) := rfl

end Lines

/-- The output of `git diff --cached --summary`. -/
def summaryText (entries : List SummaryEntry) : String :=
  String.ofList (unlines (entries.map SummaryEntry.line))

def SummaryEntry.isModeChange : SummaryEntry → Bool
  | .modeChange _ _ _ => true
  | _ => false

/-- A file is renamed or copied. -/
def SummaryEntry.isMove : SummaryEntry → Bool
  | .rename _ _ => true
  | .copy _ _ => true
  | _ => false

def SummaryEntry.names : SummaryEntry → List Char
  | .createMode _ name => name.text
  | .deleteMode _ name => name.text
  | .modeChange _ _ name => (name.map ShownName.text).getD []
  | .rename names _ => names.text
  | .copy names _ => names.text
  | .rewrite name _ => name.text

/-- The names of an entry read like a mode change. -/
def SummaryEntry.misleading (entry : SummaryEntry) : Bool :=
  containsText "mode change".toList (asciiLowercase entry.names)

/-! ### What the check finds -/

theorem octalText_digits (mode : Nat) {c : Char} (member : c ∈ octalText mode) : c.isDigit = true := by
  rcases List.mem_append.mp member with padding | digit
  · rw [(List.mem_replicate.mp padding).2]
    rfl
  · exact Nat.isDigit_of_mem_toDigits (by decide) (by decide) digit

/-- No part of the needle starts in the octal digits. -/
theorem lower_octalText (mode : Nat) : ∀ c ∈ asciiLowercase (octalText mode), c.isDigit = true := by
  intro c member
  obtain ⟨digit, inside, rfl⟩ := List.mem_map.mp member
  rw [toLower_invariant Char.isDigit (by decide)]
  exact octalText_digits mode inside

def modeMarker : List Char := "mode change".toList

/-- The marker does not start in front of its first character. -/
theorem modeMarker_after {front rest : List Char} (absent : 'm' ∉ front) :
    modeMarker <:+: front ++ rest ↔ modeMarker <:+: rest :=
  infix_append_of_notMem absent

theorem percentText_hides (score : Nat) (text : List Char) :
    modeMarker <:+: text ++ asciiLowercase (percentText score) ↔ modeMarker <:+: text := by
  constructor
  · intro occurs
    have split : text ++ asciiLowercase (percentText score) =
        (text ++ [' ']) ++ '(' :: asciiLowercase (Nat.toDigits 10 score ++ "%)".toList) := by
      simp [percentText, asciiLowercase]
    rw [split] at occurs
    rcases infix_append_cons (by decide) occurs with front | digits
    · exact (infix_concat (by decide) (by decide)).mp front
    · exfalso
      have absent : 'm' ∉ asciiLowercase (Nat.toDigits 10 score ++ "%)".toList) := by
        intro member
        rw [asciiLowercase, List.map_append, List.mem_append] at member
        rcases member with digit | last
        · obtain ⟨c, inside, lowered⟩ := List.mem_map.mp digit
          have isDigit := toLower_invariant Char.isDigit (by decide) c
          rw [lowered, toDigits_isDigit inside] at isDigit
          cases isDigit
        · revert last
          decide
      exact absent (digits.subset (.head _))
  · exact fun occurs => occurs.trans (List.prefix_append text _).isInfix

theorem octalText_hides (mode : Nat) (text : List Char) :
    modeMarker <:+: "mode ".toList ++ (asciiLowercase (octalText mode) ++ ' ' :: text) ↔
      modeMarker <:+: text := by
  have digits := lower_octalText mode
  have first : ¬ modeMarker <+: "mode ".toList ++ (asciiLowercase (octalText mode) ++ ' ' :: text) := by
    intro starts
    have rest : "change".toList <+: asciiLowercase (octalText mode) ++ ' ' :: text :=
      (List.prefix_append_right_inj "mode ".toList).mp starts
    cases shown : asciiLowercase (octalText mode) with
    | nil =>
        rw [shown] at rest
        exact absurd (List.cons_prefix_cons.mp rest).1 (by decide)
    | cons c others =>
        rw [shown] at rest digits
        have same := (List.cons_prefix_cons.mp rest).1
        have digit := digits c (.head _)
        rw [← same] at digit
        cases digit
  have absent : 'm' ∉ "ode ".toList ++ asciiLowercase (octalText mode) ++ [' '] := by
    simp only [List.mem_append, not_or]
    refine ⟨⟨by decide, fun member => ?_⟩, by decide⟩
    cases digits 'm' member
  have regroup : "mode ".toList ++ (asciiLowercase (octalText mode) ++ ' ' :: text) =
      'm' :: ("ode ".toList ++ asciiLowercase (octalText mode) ++ [' '] ++ text) := by simp
  rw [regroup] at first ⊢
  rw [List.infix_cons_iff, modeMarker_after absent]
  exact or_iff_right first

/-- The words in front of the names of a file that moves hide nothing. -/
theorem words_hide (words names : List Char) (score : Nat) (absent : 'm' ∉ words) :
    modeMarker <:+: words ++ (asciiLowercase names ++ asciiLowercase (percentText score)) ↔
      modeMarker <:+: asciiLowercase names := by
  rw [modeMarker_after absent, percentText_hides]

/-- The line of an entry reads like a mode change when the entry is one or its names do. -/
theorem SummaryEntry.line_reads (entry : SummaryEntry) :
    modeMarker <:+: asciiLowercase entry.line ↔ entry.isModeChange = true ∨ entry.misleading = true := by
  have named : entry.misleading = true ↔ modeMarker <:+: asciiLowercase entry.names :=
    containsText_iff
  rw [named]
  cases entry with
  | createMode mode name =>
      have regroup : asciiLowercase (createMode mode name).line = " create ".toList ++
          ("mode ".toList ++ (asciiLowercase (octalText mode) ++ ' ' :: asciiLowercase name.text)) := by
        simp [asciiLowercase]
      rw [regroup, modeMarker_after (by decide : 'm' ∉ " create ".toList), octalText_hides]
      simp [isModeChange, names]
  | deleteMode mode name =>
      have regroup : asciiLowercase (deleteMode mode name).line = " delete ".toList ++
          ("mode ".toList ++ (asciiLowercase (octalText mode) ++ ' ' :: asciiLowercase name.text)) := by
        simp [asciiLowercase]
      rw [regroup, modeMarker_after (by decide : 'm' ∉ " delete ".toList), octalText_hides]
      simp [isModeChange, names]
  | modeChange old new name =>
      refine ⟨fun _ => .inl rfl, fun _ => ?_⟩
      have regroup : asciiLowercase (modeChange old new name).line = [' '] ++ modeMarker ++
          ' ' :: asciiLowercase (octalText old ++ (" => ".toList ++ (octalText new ++
            (name.map fun name => ' ' :: name.text).getD []))) := by
        rw [line_modeChange, asciiLowercase, List.map_append]
        rfl
      exact ⟨[' '], _, regroup.symm⟩
  | rename names similarity =>
      have regroup : asciiLowercase (rename names similarity).line = " rena".toList ++
          ("me ".toList ++ (asciiLowercase names.text ++ asciiLowercase (percentText similarity))) := by
        simp [asciiLowercase]
      have first : ¬ modeMarker <+: 'm' :: ("e ".toList ++
          (asciiLowercase names.text ++ asciiLowercase (percentText similarity))) := by
        intro starts
        have second := (List.cons_prefix_cons.mp starts).2
        exact absurd (List.cons_prefix_cons.mp second).1 (by decide)
      rw [regroup, modeMarker_after (by decide : 'm' ∉ " rena".toList)]
      change modeMarker <:+: 'm' :: ("e ".toList ++ _) ↔ _
      rw [List.infix_cons_iff, or_iff_right first, words_hide _ _ _ (by decide : 'm' ∉ "e ".toList)]
      simp [isModeChange, SummaryEntry.names]
  | copy names similarity =>
      have regroup : asciiLowercase (copy names similarity).line = " copy ".toList ++
          (asciiLowercase names.text ++ asciiLowercase (percentText similarity)) := by
        simp [asciiLowercase]
      rw [regroup, words_hide _ _ _ (by decide : 'm' ∉ " copy ".toList)]
      simp [isModeChange, SummaryEntry.names]
  | rewrite name dissimilarity =>
      have regroup : asciiLowercase (rewrite name dissimilarity).line = " rewrite ".toList ++
          (asciiLowercase name.text ++ asciiLowercase (percentText dissimilarity)) := by
        simp [asciiLowercase]
      rw [regroup, words_hide _ _ _ (by decide : 'm' ∉ " rewrite ".toList)]
      simp [isModeChange, SummaryEntry.names]

theorem SummaryEntry.line_noBreak (entry : SummaryEntry) : '\n' ∉ entry.line := by
  have octal (mode : Nat) : '\n' ∉ octalText mode := fun member => by
    cases octalText_digits mode member
  have percent (score : Nat) : '\n' ∉ percentText score := by
    have digits : '\n' ∉ Nat.toDigits 10 score := fun member => by cases toDigits_isDigit member
    simp [percentText, digits]
  cases entry with
  | createMode mode name => simp [octal, name.noBreak]
  | deleteMode mode name => simp [octal, name.noBreak]
  | modeChange old new name =>
      cases name with
      | none => simp [octal]
      | some name => simp [octal, name.noBreak]
  | rename names similarity => simp [percent, names.noBreak]
  | copy names similarity => simp [percent, names.noBreak]
  | rewrite name dissimilarity => simp [percent, name.noBreak]

/-- No entry starts with a word, since each is indented. -/
theorem SummaryEntry.line_indented (entry : SummaryEntry) :
    (asciiLowercase (dropCarriageReturn entry.line)).head? = some ' ' := by
  have long : ∃ c rest, entry.line = ' ' :: c :: rest := by
    cases entry with
    | createMode mode name => exact ⟨'c', _, rfl⟩
    | deleteMode mode name => exact ⟨'d', _, rfl⟩
    | modeChange old new name => exact ⟨'m', _, rfl⟩
    | rename names similarity => exact ⟨'r', _, rfl⟩
    | copy names similarity => exact ⟨'c', _, rfl⟩
    | rewrite name dissimilarity => exact ⟨'r', _, rfl⟩
  obtain ⟨c, rest, same⟩ := long
  rw [same, dropCarriageReturn]
  split <;> rfl

/-- The check refuses a summary in which some line reads like a mode change. -/
theorem validateStagedDiffSummary_summaryText (entries : List SummaryEntry) :
    validateStagedDiffSummary (summaryText entries) = .ok () ↔
      ∀ entry ∈ entries, entry.isModeChange = false ∧ entry.misleading = false := by
  have noBreak : ∀ line ∈ entries.map SummaryEntry.line, '\n' ∉ line := by
    intro line member
    obtain ⟨entry, -, rfl⟩ := List.mem_map.mp member
    exact entry.line_noBreak
  have reads (entry : SummaryEntry) :
      (containsText modeMarker (asciiLowercase (dropCarriageReturn entry.line)) ||
        "rename ".toList.isPrefixOf (asciiLowercase (dropCarriageReturn entry.line)) ||
          "copy ".toList.isPrefixOf (asciiLowercase (dropCarriageReturn entry.line))) = true ↔
        entry.isModeChange = true ∨ entry.misleading = true := by
    have indented := entry.line_indented
    obtain ⟨rest, same⟩ := List.head?_eq_some_iff.mp indented
    have noRename : "rename ".toList.isPrefixOf (' ' :: rest) = false := rfl
    have noCopy : "copy ".toList.isPrefixOf (' ' :: rest) = false := rfl
    rw [same, noRename, noCopy, Bool.or_false, Bool.or_false, containsText_iff, ← same,
      ← dropCarriageReturn_lowercase, infix_dropCarriageReturn (by decide), entry.line_reads]
  unfold validateStagedDiffSummary summaryText
  dsimp only
  rw [String.toList_ofList, lines_lowercase, lines_unlines noBreak, List.map_map, List.map_map]
  constructor
  · intro accepted entry member
    split at accepted
    · cases accepted
    · rename_i quiet
      rw [List.any_map, Bool.not_eq_true, List.any_eq_false] at quiet
      have unread := mt (reads entry).mpr (quiet entry member)
      rw [not_or, Bool.not_eq_true, Bool.not_eq_true] at unread
      exact unread
  · intro plain
    rw [if_neg]
    rw [List.any_map, Bool.not_eq_true, List.any_eq_false]
    intro entry member found
    obtain ⟨unchanged, clear⟩ := plain entry member
    rcases (reads entry).mp found with change | misleads
    · rw [unchanged] at change
      cases change
    · rw [clear] at misleads
      cases misleads

/-- The check is exact when the summary has an entry for a mode change, or else when some name reads
like a mode change exactly if a file is renamed or copied. -/
theorem staged_summary_exact_iff (entries : List SummaryEntry) :
    (validateStagedDiffSummary (summaryText entries) = .ok () ↔
      ∀ entry ∈ entries, entry.isModeChange = false ∧ entry.isMove = false) ↔
      (∃ entry ∈ entries, entry.isModeChange = true) ∨
        ((∃ entry ∈ entries, entry.misleading = true) ↔ ∃ entry ∈ entries, entry.isMove = true) := by
  rw [validateStagedDiffSummary_summaryText]
  by_cases changes : ∃ entry ∈ entries, entry.isModeChange = true
  · refine iff_of_true ?_ (.inl changes)
    obtain ⟨entry, member, change⟩ := changes
    constructor
    · intro plain
      rw [(plain entry member).1] at change
      cases change
    · intro plain
      rw [(plain entry member).1] at change
      cases change
  · have unchanged (entry : SummaryEntry) (member : entry ∈ entries) : entry.isModeChange = false := by
      by_contra change
      exact changes ⟨entry, member, Bool.eq_true_of_not_eq_false change⟩
    rw [or_iff_right changes]
    have shown (property : SummaryEntry → Bool) :
        (∀ entry ∈ entries, entry.isModeChange = false ∧ property entry = false) ↔
          ¬ ∃ entry ∈ entries, property entry = true := by
      constructor
      · rintro plain ⟨entry, member, holds⟩
        rw [(plain entry member).2] at holds
        cases holds
      · intro none entry member
        refine ⟨unchanged entry member, ?_⟩
        by_contra holds
        exact none ⟨entry, member, Bool.eq_true_of_not_eq_false holds⟩
    rw [shown, shown, not_iff_not]

/-- A renamed file passes the check. -/
theorem staged_rename_accepted :
    ¬ ∀ entries : List SummaryEntry,
      validateStagedDiffSummary (summaryText entries) = .ok () ↔
        ∀ entry ∈ entries, entry.isModeChange = false ∧ entry.isMove = false := by
  intro exact'
  have renamed := (exact' [.rename ⟨"a.rs => b.rs".toList, by decide⟩ 100]).mp (by decide)
  exact absurd (renamed _ (.head _)).2 (by decide)

end PiTools.Workspace
