import PiTools.Feedback.Grammar
import PiTools.Feedback.Suggestion

/-
This file shows that an inline suggestion replaces the lines of its review and
keeps every other line.
-/

namespace PiTools.Feedback

open Library

/-! ### Texts of lines -/

/-- The text of some lines, with or without a line break at its end. -/
def fileText (lines : List Line) (finalBreak : Bool) : List Char :=
  if finalBreak = true ∧ lines ≠ [] then joinLines lines ++ ['\n'] else joinLines lines

/-- A text has at least one line, and a last line without a line break is not empty. -/
structure FileLines (text : List Char) (lines : List Line) (finalBreak : Bool) : Prop where
  nonempty : lines ≠ []
  noBreak : ∀ line ∈ lines, '\n' ∉ line
  last : finalBreak = false → lines.getLast? ≠ some []
  text : text = fileText lines finalBreak

theorem splitOn_joinLines {lines : List Line} (nonempty : lines ≠ [])
    (noBreak : ∀ line ∈ lines, '\n' ∉ line) : (joinLines lines).splitOn '\n' = lines :=
  List.splitOn_intercalate '\n' noBreak nonempty

theorem joinLines_eq_nil {lines : List Line} : joinLines lines = [] ↔ lines = [] ∨ lines = [[]] := by
  cases lines with
  | nil => simp [joinLines]
  | cons line rest =>
      cases rest with
      | nil => simp
      | cons next rest => simp

/-- A text of lines ends in a line break only when its last line is empty. -/
theorem getLast_joinLines {lines : List Line} (noBreak : ∀ line ∈ lines, '\n' ∉ line)
    (ends : (joinLines lines).getLast? = some '\n') : lines.getLast? = some [] := by
  induction lines with
  | nil => simp [joinLines] at ends
  | cons line rest ih =>
      cases rest with
      | nil =>
          rw [joinLines_singleton] at ends
          exact absurd (List.mem_of_getLast? ends) (noBreak line (.head _))
      | cons next rest =>
          rw [List.getLast?_cons_cons]
          by_cases empty : joinLines (next :: rest) = []
          · rcases joinLines_eq_nil.mp empty with none | blank
            · cases none
            · rw [blank]
              rfl
          · obtain ⟨last, found⟩ := Option.isSome_iff_exists.mp (List.getLast?_isSome.mpr empty)
            rw [joinLines_cons_cons, List.getLast?_append, List.getLast?_cons, found] at ends
            apply ih fun line member => noBreak line (.tail _ member)
            rw [found]
            simpa using ends

/-- The source without its final line break joins the lines. -/
theorem FileLines.source {text : List Char} {lines : List Line} {finalBreak : Bool}
    (given : FileLines text lines finalBreak) :
    (stripSuffix ['\n'] text).getD text = joinLines lines ∧
      (['\n'] <:+ text ↔ finalBreak = true) := by
  have same := given.text
  unfold fileText at same
  cases finalBreak with
  | true =>
      rw [if_pos ⟨rfl, given.nonempty⟩] at same
      have stripped : stripSuffix ['\n'] text = some (joinLines lines) :=
        stripSuffix_eq_some.mpr same
      rw [stripped, same]
      simp
  | false =>
      rw [if_neg (by simp)] at same
      have noSuffix : ¬ ['\n'] <:+ text := by
        rw [List.singleton_suffix_iff_getLast?_eq_some, same]
        exact fun ends => given.last rfl (getLast_joinLines given.noBreak ends)
      have kept : stripSuffix ['\n'] text = none := by
        rw [stripSuffix, if_neg]
        rwa [List.isSuffixOf_iff_suffix]
      rw [kept, same]
      exact ⟨rfl, by rw [← same]; simpa using noSuffix⟩

/-- The lines of a file are found again, unless the file is one blank line. -/
theorem FileLines.linesOrNone {text : List Char} {lines : List Line} {finalBreak : Bool}
    (given : FileLines text lines finalBreak) (notBlank : text ≠ ['\n']) :
    linesOrNone (joinLines lines) = lines := by
  unfold Feedback.linesOrNone
  rw [if_neg, splitOn_joinLines given.nonempty given.noBreak]
  intro empty
  have same := given.text
  rcases joinLines_eq_nil.mp empty with none | blank
  · exact given.nonempty none
  · cases finalBreak with
    | false => exact given.last rfl (by rw [blank]; rfl)
    | true => exact notBlank (by rw [same, blank]; rfl)

/-! ### Replacements -/

/-- The lines that a suggestion offers contain no carriage return and no three backticks. -/
structure Replacement (lines : List Line) : Prop where
  noBreak : ∀ line ∈ lines, '\n' ∉ line
  noReturn : ∀ line ∈ lines, '\r' ∉ line
  noFence : ∀ line ∈ lines, ¬ backticks <:+: line

/-- The opening line, each replacement line with its line break, and the closing backticks. -/
def fence (lines : List Line) : List Char :=
  marker ++ lines.flatMap (fun line => line ++ ['\n']) ++ backticks

theorem flatMap_lines {lines : List Line} (nonempty : lines ≠ []) :
    lines.flatMap (fun line => line ++ ['\n']) = joinLines lines ++ ['\n'] := by
  induction lines with
  | nil => exact absurd rfl nonempty
  | cons line rest ih =>
      cases rest with
      | nil => simp
      | cons next rest =>
          rw [List.flatMap_cons, ih (by simp), joinLines_cons_cons]
          simp

/-- The content of a fence with some lines ends at the closing backticks. -/
theorem fence_eq {lines : List Line} (nonempty : lines ≠ []) :
    fence lines = marker ++ (joinLines lines ++ closing) := by
  unfold fence
  rw [flatMap_lines nonempty]
  simp [closing, backticks]

theorem Replacement.joined_noFence {lines : List Line} (clean : Replacement lines) :
    ¬ backticks <:+: joinLines lines := by
  intro occurs
  obtain ⟨line, member, inside⟩ := infix_joinLines (by decide) (by decide) occurs
  exact clean.noFence line member inside

theorem notMem_joinLines {lines : List Line} {c : Char} (other : c ≠ '\n')
    (absent : ∀ line ∈ lines, c ∉ line) : c ∉ joinLines lines := by
  intro member
  rcases of_mem_intercalate member with between | ⟨line, inside, letter⟩
  · exact other (List.mem_singleton.mp between)
  · exact absent line inside letter

/-- A content without three backticks ends at the first closing. -/
theorem splitOnce_closing {content : List Char} (clean : ¬ backticks <:+: content)
    (after : List Char) : splitOnce closing (content ++ closing ++ after) = some (content, after) := by
  apply splitOnce_of_firstAt
  refine ⟨by simp, fun earlier before starts => ?_⟩
  have ends : (content ++ closing ++ after)[content.length]? = some '\n' := by
    rw [List.append_assoc, List.getElem?_append_right (Nat.le_refl _), Nat.sub_self]
    rfl
  have char : ∀ offset < 4, (content ++ closing ++ after)[earlier + offset]? = closing[offset]? := by
    intro offset inside
    obtain ⟨rest, same⟩ := starts
    rw [← List.getElem?_drop, ← same, List.getElem?_append_left (by simpa [closing] using inside)]
  by_cases inside : earlier + 4 ≤ content.length
  · -- The backticks of the closing stand inside the content.
    have later : backticks <+: (content ++ closing ++ after).drop (earlier + 1) := by
      obtain ⟨rest, same⟩ := starts
      rw [← List.drop_drop, ← same]
      exact List.prefix_append backticks rest
    have split : (content ++ closing ++ after).drop (earlier + 1) =
        content.drop (earlier + 1) ++ (closing ++ after) := by
      rw [List.append_assoc, List.drop_append_of_le_length (by omega)]
    have fits : backticks.length ≤ (content.drop (earlier + 1)).length := by
      rw [List.length_drop]
      show 3 ≤ _
      omega
    rw [split] at later
    have inContent : backticks <+: content.drop (earlier + 1) :=
      List.prefix_of_prefix_length_le later (List.prefix_append _ _) fits
    exact clean (inContent.isInfix.trans (List.drop_suffix _ _).isInfix)
  · -- A backtick of the closing would stand where the content ends.
    have short : content.length = earlier + 1 ∨ content.length = earlier + 2 ∨
        content.length = earlier + 3 := by omega
    rcases short with same | same | same
    · rw [same, char 1 (by decide)] at ends
      cases ends
    · rw [same, char 2 (by decide)] at ends
      cases ends
    · rw [same, char 3 (by decide)] at ends
      cases ends

/-! ### Extraction -/

/-- The body holds one suggestion fence with the given lines. -/
structure HoldsFence (body before after : List Char) (lines : List Line) : Prop where
  only : OnlyAt marker body before.length
  whole : body = before ++ fence lines ++ after

variable {body before after : List Char} {replacement : List Line}

theorem HoldsFence.split (holds : HoldsFence body before after replacement)
    (nonempty : replacement ≠ []) :
    body = before ++ marker ++ (joinLines replacement ++ closing ++ after) := by
  rw [holds.whole, fence_eq nonempty]
  simp only [List.append_assoc]

theorem checkBody_eq_ok {nothing : Unit} :
    checkBody body = .ok nothing ↔ byteLength body ≤ maxPatchBytes ∧ '\r' ∉ body := by
  unfold checkBody
  rw [ensure_eq_ok, not_or, Nat.not_lt]

/-- The inline extraction finds the replacement lines. -/
theorem extractInlineSuggestion_eq_ok (holds : HoldsFence body before after replacement)
    (nonempty : replacement ≠ []) (clean : Replacement replacement) {suggestion : List Char} :
    extractInlineSuggestion body = .ok suggestion ↔
      (byteLength body ≤ maxPatchBytes ∧ '\r' ∉ body) ∧ suggestion = joinLines replacement := by
  have split := holds.split nonempty
  have counted : countMatches marker body = 1 := countMatches_of_onlyAt (by decide) holds.only
  have first : FirstAt marker (before ++ marker ++ (joinLines replacement ++ closing ++ after))
      before.length := split ▸ holds.only.first
  have found : ((splitOnce marker body).map Prod.snd).getD [] =
      joinLines replacement ++ closing ++ after := by
    rw [split, splitOnce_of_firstAt first]
    rfl
  have noFence : containsText backticks (joinLines replacement) = false := by
    rw [Bool.eq_false_iff, Ne, containsText_iff]
    exact clean.joined_noFence
  simp only [extractInlineSuggestion, bind_eq_ok, ensure_eq_ok, okOr_eq_ok, pure_eq_ok,
    checkBody_eq_ok, found, splitOnce_closing clean.joined_noFence]
  constructor
  · rintro ⟨_, checked, _, _, parts, same, _, _, rfl⟩
    cases same
    exact ⟨checked, rfl⟩
  · rintro ⟨checked, rfl⟩
    exact ⟨(), checked, (), counted, _, rfl, (), noFence, rfl⟩

/-- The body is the fence alone, and its first line starts like the header of a patch. -/
def PatchShaped (before after : List Char) (lines : List Line) : Prop :=
  before = [] ∧ (after = [] ∨ after = ['\n']) ∧ ∃ line ∈ lines.head?, "--- a/".toList <+: line

/-- An exact suggestion that starts like a patch has the shape of a patch. -/
theorem patchShaped_of_exact (holds : HoldsFence body before after replacement)
    (nonempty : replacement ≠ []) (clean : Replacement replacement) {suggestion : List Char}
    (exact_ : extractExactSuggestion body = .ok suggestion)
    (starts : "--- a/".toList <+: suggestion) : PatchShaped before after replacement := by
  simp only [extractExactSuggestion, bind_eq_ok, ensure_eq_ok, okOr_eq_ok, pure_eq_ok,
    Option.bind_eq_some_iff, stripPrefix_eq_some, stripSuffix_eq_some, not_or] at exact_
  obtain ⟨_, _, found, ⟨rest, whole, rfl⟩, _, ⟨_, noFence⟩, rfl⟩ := exact_
  rw [Bool.not_eq_true, Bool.eq_false_iff, Ne, containsText_iff] at noFence
  -- The body is the fence with an optional line break behind it.
  have ending : ∃ tail, (tail = [] ∨ tail = ['\n']) ∧ body = marker ++ (found ++ closing ++ tail) := by
    cases stripped : stripSuffix ['\n'] body with
    | none =>
        rw [stripped] at whole
        exact ⟨[], .inl rfl, by simpa using whole⟩
    | some front =>
        rw [stripped] at whole
        refine ⟨['\n'], .inr rfl, ?_⟩
        rw [stripSuffix_eq_some.mp stripped, show front = marker ++ (found ++ closing) from whole]
        simp only [List.append_assoc]
  obtain ⟨tail, short, same⟩ := ending
  have atStart : 0 = before.length := holds.only.only 0 (by rw [same]; exact List.prefix_append _ _)
  have empty : before = [] := List.eq_nil_of_length_eq_zero atStart.symm
  rw [holds.split nonempty, empty, List.nil_append, List.append_cancel_left_eq] at same
  have equal := splitOnce_closing clean.joined_noFence after
  rw [same, splitOnce_closing noFence tail] at equal
  obtain ⟨rfl, rfl⟩ := Prod.mk.inj (Option.some.inj equal)
  refine ⟨empty, short, ?_⟩
  cases replacement with
  | nil => exact absurd rfl nonempty
  | cons line rest => exact ⟨line, rfl, prefix_joinLines (by decide) starts⟩

/-! ### Application -/

/-- The application replaces the lines of the range when the text has no carriage return. -/
theorem applyInlineSuggestion_eq_ok {original result : List Char} {lines : List Line}
    {finalBreak : Bool} (given : FileLines original lines finalBreak) (notBlank : original ≠ ['\n'])
    (clean : Replacement replacement) (some_ : replacement ≠ []) (notOneBlank : replacement ≠ [[]])
    {startLine endLine : UInt32} (positive : 0 < startLine.toNat)
    (ordered : startLine.toNat ≤ endLine.toNat) (inside : endLine.toNat ≤ lines.length) :
    applyInlineSuggestion original startLine endLine (joinLines replacement) = .ok result ↔
      '\r' ∉ original ∧ result = fileText (lines.take (startLine.toNat - 1) ++ replacement ++
        lines.drop endLine.toNat) finalBreak := by
  obtain ⟨source, ends⟩ := given.source
  have found : linesOrNone (joinLines replacement) = replacement := by
    unfold linesOrNone
    rw [if_neg, splitOn_joinLines some_ clean.noBreak]
    rw [joinLines_eq_nil, not_or]
    exact ⟨some_, notOneBlank⟩
  have noReturn : '\r' ∉ joinLines replacement := notMem_joinLines (by decide) clean.noReturn
  have range : ¬ lines.length < endLine.toNat ∧ ¬ endLine.toNat ≤ startLine.toNat - 1 := by omega
  simp only [applyInlineSuggestion, bind_eq_ok, ensure_eq_ok, pure_eq_ok, source, found, ends,
    given.linesOrNone notBlank, not_or]
  constructor
  · rintro ⟨_, ⟨accepted, _⟩, _, _, rfl⟩
    exact ⟨accepted, rfl⟩
  · rintro ⟨accepted, rfl⟩
    exact ⟨(), ⟨accepted, noReturn⟩, (), range, rfl⟩

/-! ### The repository -/

/-- A path leads through directories to a file with the text. -/
def Stores (repository : Repository) (path text : List Char) : Prop :=
  ∃ names, names ≠ [] ∧ (∀ name ∈ names, PathName name) ∧ path = ['/'].intercalate names ∧
    (∀ first < names.length, 0 < first → repository (names.take first) = some .directory) ∧
      repository names = some (.file (some text))

/-- Components that exist and are no links are passed. -/
theorem checkComponents_eq_ok {repository : Repository} {relative : List Char}
    {target rest : List (List Char)}
    (passes : ∀ count, 0 < count → count ≤ rest.length →
      ∃ entry, repository (target ++ rest.take count) = some entry ∧ entry ≠ .symlink) :
    checkComponents repository relative target rest = .ok (target ++ rest) := by
  induction rest generalizing target with
  | nil => simp [checkComponents]
  | cons name rest ih =>
      obtain ⟨entry, found, notLink⟩ := passes 1 (by omega) (by simp)
      have step : checkComponents repository relative (target ++ [name]) rest =
          .ok (target ++ [name] ++ rest) := by
        apply ih
        intro count positive upTo
        simpa using passes (count + 1) (by omega) (by simpa using upTo)
      simp only [checkComponents, bind_eq_ok, okOr_eq_ok, ensure_eq_ok]
      exact ⟨entry, by simpa using found, (), notLink, by simpa using step⟩

theorem Stores.checked {repository : Repository} {path text : List Char}
    (stores : Stores repository path text) :
    ∃ target, checkedTarget repository path = .ok target ∧
      readToString repository target = .ok text := by
  obtain ⟨names, nonempty, valid, rfl, directories, file⟩ := stores
  have parts : (components (['/'].intercalate names)).map PathComponent.text = names := by
    rw [(components_intercalate nonempty valid).2]
    simp [Function.comp_def, PathComponent.text]
  have walked : checkComponents repository (['/'].intercalate names) [] names = .ok names := by
    apply checkComponents_eq_ok
    intro count positive upTo
    rcases Nat.lt_or_eq_of_le upTo with before | last
    · exact ⟨.directory, by simpa using directories count before positive, by simp⟩
    · exact ⟨.file (some text), by simpa [last] using file, by simp⟩
  refine ⟨names, ?_, by simp [readToString, file]⟩
  simp only [checkedTarget, bind_eq_ok, validateRelativePath_eq_ok, okOr_eq_ok, ensure_eq_ok,
    pure_eq_ok, parts]
  exact ⟨(), ⟨names, nonempty, valid, rfl⟩, names, walked, _, file, (), rfl, rfl⟩

/-! ### The repair -/

/-- A feedback suggests lines for a range of a stored file. -/
structure Suggests (repository : Repository) (feedback : Feedback) (path original : List Char)
    (lines replacement : List Line) (finalBreak : Bool) (startLine line : UInt32)
    (before after : List Char) : Prop where
  stores : Stores repository path original
  file : FileLines original lines finalBreak
  positive : 1 ≤ startLine.toNat
  ordered : startLine.toNat ≤ line.toNat
  inside : line.toNat ≤ lines.length
  clean : Replacement replacement
  path : feedback.path = some path
  startLine : feedback.startLine = some startLine
  line : feedback.line = some line
  fence : HoldsFence feedback.body before after replacement

/-- The suggestion has at least one line, is not one blank line, and has not the shape of a patch. -/
structure Ordinary (original before after : List Char) (replacement : List Line) : Prop where
  notBlankFile : original ≠ ['\n']
  nonempty : replacement ≠ []
  notBlankLine : replacement ≠ [[]]
  notPatch : ¬ PatchShaped before after replacement

variable {repository : Repository} {feedback : Feedback} {path original : List Char}
  {lines : List Line} {finalBreak : Bool} {startLine line : UInt32}

/-- A suggestion without the shape of a patch is prepared as an inline suggestion. -/
theorem prepareRepair_inline (holds : HoldsFence feedback.body before after replacement)
    (nonempty : replacement ≠ []) (clean : Replacement replacement)
    (notPatch : ¬ PatchShaped before after replacement) :
    prepareRepair repository feedback = prepareInline repository feedback := by
  unfold prepareRepair
  split
  · rename_i suggestion extracted
    rw [if_neg]
    exact fun starts => notPatch (patchShaped_of_exact holds nonempty clean extracted starts)
  · rfl

/-! ### One file -/

def fileName : List Char := "file.txt".toList

def oneFile (text : List Char) : Repository := fun names =>
  if names = [fileName] then some (.file (some text)) else none

def requestText : List Char := "Please apply this exact replacement:\n".toList

/-- The reviewer asks for one new first line. -/
def request : Feedback where
  actorLogin := "automation[bot]"
  actorType := "Bot"
  isAutomation := true
  body := requestText ++ fence ["new".toList]
  path := some fileName
  startLine := some 1
  line := some 1

theorem request_suggests {original : List Char} {lines : List Line}
    (file : FileLines original lines true) :
    Suggests (oneFile original) request fileName original lines ["new".toList] true 1 1 requestText []
      where
  stores := by
    refine ⟨[fileName], by simp, ?_, rfl, ?_, by simp [oneFile]⟩
    · intro name member
      rw [List.mem_singleton] at member
      subst member
      constructor <;> decide
    · intro first before positive
      simp at before
      omega
  file := file
  positive := by decide
  ordered := by decide
  inside := by
    have some_ := List.length_pos_iff.mpr file.nonempty
    exact some_
  clean := by constructor <;> decide
  path := rfl
  startLine := rfl
  line := rfl
  fence := ⟨OnlyAt.of_lt (by decide) (by decide) (by decide), by simp [request]⟩

end PiTools.Feedback
