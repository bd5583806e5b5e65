import PiTools.Feedback.Application
import PiTools.Feedback.Grammar

/-
This file composes the parser of patches with their application, and renders
edit scripts as patches.
-/

namespace PiTools.Feedback

open Library

/-! ### Edit scripts -/

/-- A hunk of an edit script stands after some lines that stay. -/
structure ScriptHunk where
  gap : List Line
  lines : List HunkLine
  deriving Repr

def ScriptHunk.segment (hunk : ScriptHunk) : Segment Line :=
  ⟨hunk.gap, oldLines hunk.lines, newLines hunk.lines⟩

/-- The lines that the script edits, and the lines that it leaves. -/
def scriptBefore (script : List ScriptHunk) (tail : List Line) : List Line :=
  itemsBefore (script.map ScriptHunk.segment) tail

def scriptAfter (script : List ScriptHunk) (tail : List Line) : List Line :=
  itemsAfter (script.map ScriptHunk.segment) tail

/-- The number of the first line of a range, or of the line before an empty range. -/
def rangeStart (position count : Nat) : Nat := if count = 0 then position else position + 1

def renderRange (position count : Nat) : List Char :=
  Nat.toDigits 10 (rangeStart position count) ++
    if count = 1 then [] else ',' :: Nat.toDigits 10 count

def renderHeader (oldPosition newPosition : Nat) (lines : List HunkLine) : Line :=
  "@@ -".toList ++ renderRange oldPosition (oldLines lines).length ++ " +".toList ++
    renderRange newPosition (newLines lines).length ++ " @@".toList

/-- The hunks carry the positions of their lines in the old text and in the new text. -/
def renderScript : Nat → Nat → List ScriptHunk → List Line
  | _, _, [] => []
  | oldPosition, newPosition, hunk :: rest =>
      renderHeader (oldPosition + hunk.gap.length) (newPosition + hunk.gap.length) hunk.lines ::
        (hunk.lines.map HunkLine.text ++
          renderScript (oldPosition + hunk.gap.length + (oldLines hunk.lines).length)
            (newPosition + hunk.gap.length + (newLines hunk.lines).length) rest)

def renderPatch (path : List Char) (script : List ScriptHunk) : List Char :=
  joinLines (("--- a/".toList ++ path) :: ("+++ b/".toList ++ path) :: renderScript 0 0 script)

/-- The hunks that the parser reads from a rendered script. -/
def scriptHunks : Nat → List ScriptHunk → List Hunk
  | _, [] => []
  | position, hunk :: rest =>
      ⟨rangeStart (position + hunk.gap.length) (oldLines hunk.lines).length,
        (oldLines hunk.lines).length, (newLines hunk.lines).length, hunk.lines⟩ ::
          scriptHunks (position + hunk.gap.length + (oldLines hunk.lines).length) rest

/-- The hunks of a script stand where its segments stand. -/
theorem scriptHunks_edits (position : Nat) (script : List ScriptHunk) :
    (scriptHunks position script).map Hunk.edit =
      locate position (script.map ScriptHunk.segment) := by
  induction script generalizing position with
  | nil => rfl
  | cons hunk rest ih =>
      have start : (if (oldLines hunk.lines).length = 0 then
          rangeStart (position + hunk.gap.length) (oldLines hunk.lines).length
        else rangeStart (position + hunk.gap.length) (oldLines hunk.lines).length - 1) =
          position + hunk.gap.length := by
        unfold rangeStart
        split <;> omega
      simp only [scriptHunks, List.map_cons, locate, ih, ScriptHunk.segment, Hunk.edit, Hunk.start,
        start]

theorem renderRange_text {position count : Nat} (fits : position + count < usizeBound) :
    RangeText (renderRange position count) (rangeStart position count) count := by
  have start : UsizeText (Nat.toDigits 10 (rangeStart position count)) (rangeStart position count) := by
    apply usizeText_toDigits
    unfold rangeStart
    split <;> omega
  unfold renderRange
  by_cases single : count = 1
  · rw [if_pos single, List.append_nil]
    exact .inr ⟨start, single⟩
  · rw [if_neg single]
    exact .inl ⟨_, _, rfl, start, usizeText_toDigits (by omega)⟩

theorem renderHeader_text {oldPosition newPosition : Nat} {lines : List HunkLine}
    (oldFits : oldPosition + (oldLines lines).length < usizeBound)
    (newFits : newPosition + (newLines lines).length < usizeBound) :
    HeaderText (renderHeader oldPosition newPosition lines)
      (rangeStart oldPosition (oldLines lines).length) (oldLines lines).length
        (newLines lines).length :=
  ⟨_, _, _, [], (List.append_nil _).symm, renderRange_text oldFits, renderRange_text newFits⟩

/-- A rendered script has the texts of its hunks. -/
theorem renderScript_texts {oldPosition newPosition : Nat} {script : List ScriptHunk}
    {tail : List Line} (oldFits : oldPosition + (scriptBefore script tail).length < usizeBound)
    (newFits : newPosition + (scriptAfter script tail).length < usizeBound) :
    HunkTexts (renderScript oldPosition newPosition script) (scriptHunks oldPosition script) := by
  induction script generalizing oldPosition newPosition with
  | nil => exact .nil
  | cons hunk rest ih =>
      have before : scriptBefore (hunk :: rest) tail =
          hunk.gap ++ oldLines hunk.lines ++ scriptBefore rest tail := rfl
      have after : scriptAfter (hunk :: rest) tail =
          hunk.gap ++ newLines hunk.lines ++ scriptAfter rest tail := rfl
      rw [before, List.length_append, List.length_append] at oldFits
      rw [after, List.length_append, List.length_append] at newFits
      have counted : Hunk.Counted ⟨rangeStart (oldPosition + hunk.gap.length)
          (oldLines hunk.lines).length, (oldLines hunk.lines).length,
          (newLines hunk.lines).length, hunk.lines⟩ := by
        refine ⟨rfl, rfl, fun zero => ?_⟩
        dsimp only at zero ⊢
        unfold rangeStart at zero
        split at zero
        · assumption
        · omega
      unfold renderScript scriptHunks
      apply HunkTexts.cons _ counted
      · apply ih <;> omega
      · exact renderHeader_text (by omega) (by omega)

/-! ### Lines without line breaks -/

theorem mem_itemsBefore {Item : Type} {segments : List (Segment Item)} {tail : List Item}
    {segment : Segment Item} {item : Item} (present : segment ∈ segments)
    (member : item ∈ segment.old) : item ∈ itemsBefore segments tail := by
  induction segments with
  | nil => cases present
  | cons first rest ih =>
      show item ∈ first.gap ++ first.old ++ itemsBefore rest tail
      rw [List.mem_append, List.mem_append]
      rcases List.mem_cons.mp present with rfl | later
      · exact .inl (.inr member)
      · exact .inr (ih later)

theorem notMem_toDigits {c : Char} (noDigit : c.isDigit = false) (value : Nat) :
    c ∉ Nat.toDigits 10 value := by
  intro member
  rw [Nat.isDigit_of_mem_toDigits (by decide) (by decide) member] at noDigit
  cases noDigit

theorem renderRange_noBreak (position count : Nat) : '\n' ∉ renderRange position count := by
  unfold renderRange
  rw [List.mem_append, not_or]
  refine ⟨notMem_toDigits (by decide) _, ?_⟩
  split
  · exact List.not_mem_nil
  · rw [List.mem_cons, not_or]
    exact ⟨by decide, notMem_toDigits (by decide) _⟩

theorem renderHeader_noBreak (oldPosition newPosition : Nat) (lines : List HunkLine) :
    '\n' ∉ renderHeader oldPosition newPosition lines := by
  unfold renderHeader
  simp [renderRange_noBreak]

/-- The line that a hunk line carries. -/
def HunkLine.content : HunkLine → Line
  | .context line | .remove line | .add line => line

theorem HunkLine.text_noBreak {line : HunkLine} (clean : '\n' ∉ line.content) : '\n' ∉ line.text := by
  cases line <;> simpa [HunkLine.text, HunkLine.content] using clean

/-- No line of a rendered script contains a line break. -/
theorem renderScript_noBreak {oldPosition newPosition : Nat} {script : List ScriptHunk}
    (clean : ∀ hunk ∈ script, ∀ line ∈ hunk.lines, '\n' ∉ line.content) :
    ∀ line ∈ renderScript oldPosition newPosition script, '\n' ∉ line := by
  induction script generalizing oldPosition newPosition with
  | nil => simp [renderScript]
  | cons hunk rest ih =>
      intro line member
      unfold renderScript at member
      rcases List.mem_cons.mp member with rfl | inside
      · exact renderHeader_noBreak _ _ _
      · rcases List.mem_append.mp inside with body | later
        · obtain ⟨parsed, present, rfl⟩ := List.mem_map.mp body
          exact HunkLine.text_noBreak (clean hunk (.head _) parsed present)
        · exact ih (fun hunk present => clean hunk (.tail _ present)) line later

/-- A text has at most one line more than characters. -/
theorem length_le_joinLines (lines : List Line) : lines.length ≤ (joinLines lines).length + 1 := by
  unfold joinLines
  induction lines with
  | nil => simp
  | cons first rest ih =>
      cases rest with
      | nil => simp
      | cons second rest =>
          rw [List.intercalate_cons_cons, List.length_append, List.length_append]
          simp only [List.length_cons, List.length_nil] at ih ⊢
          omega

theorem length_le_byteLength (text : List Char) : text.length ≤ byteLength text := by
  unfold byteLength
  induction text with
  | nil => simp
  | cons c rest ih =>
      have one := Char.utf8Size_pos c
      simp only [List.length_cons, List.foldr_cons]
      omega

/-- The text fits into a string of a 64-bit machine. -/
def Representable (text : List Char) : Prop := byteLength text < 0x8000000000000000

theorem Representable.lines {lines : List Line} (fits : Representable (joinLines lines)) :
    lines.length < usizeBound := by
  have count := length_le_joinLines lines
  have bytes := length_le_byteLength (joinLines lines)
  unfold Representable at fits
  unfold usizeBound
  omega

/-! ### The engine -/

theorem HunkTexts.counted {body : List Line} {hunks : List Hunk} (texts : HunkTexts body hunks) :
    ∀ hunk ∈ hunks, hunk.Counted := by
  induction texts with
  | nil => simp
  | cons heading counted later ih => simpa using ⟨counted, ih⟩

/-- A patch applies exactly when it is well formed and the lines of the text can be spliced. -/
theorem applyUnifiedPatch_eq_ok {source original result : List Char} :
    applyUnifiedPatch source original = .ok result ↔ ∃ path hunks lines,
      WellFormed source path hunks ∧
        Spliced 0 (original.splitOn '\n') (hunks.map Hunk.edit) lines ∧ result = joinLines lines := by
  simp only [applyUnifiedPatch, bind_eq_ok, parseUnifiedPatch_eq_ok]
  constructor
  · rintro ⟨patch, wellFormed, applied⟩
    obtain ⟨body, texts, _⟩ := wellFormed.lines
    obtain ⟨lines, spliced, same⟩ :=
      (applyHunks_eq_ok fun hunk member => (texts.counted hunk member).new).mp applied
    exact ⟨patch.path, patch.hunks, lines, wellFormed, spliced, same⟩
  · rintro ⟨path, hunks, lines, wellFormed, spliced, same⟩
    obtain ⟨body, texts, _⟩ := wellFormed.lines
    exact ⟨⟨path, hunks⟩, wellFormed,
      (applyHunks_eq_ok fun hunk member => (texts.counted hunk member).new).mpr ⟨lines, spliced, same⟩⟩

/-- The application of patches does what patches mean, and every edit script has a patch. -/
structure PatchEngine (original : List Char) : Prop where
  exact : ∀ source result, applyUnifiedPatch source original = .ok result ↔
    ∃ path hunks lines, WellFormed source path hunks ∧
      Spliced 0 (original.splitOn '\n') (hunks.map Hunk.edit) lines ∧ result = joinLines lines
  rendered : ∀ path script tail, CanonicalPath path → '\n' ∉ path → script ≠ [] →
    (∀ hunk ∈ script, ∀ line ∈ newLines hunk.lines, '\n' ∉ line) →
    original.splitOn '\n' = scriptBefore script tail → Representable original →
    Representable (joinLines (scriptAfter script tail)) →
      applyUnifiedPatch (renderPatch path script) original =
        .ok (joinLines (scriptAfter script tail))

/-- A rendered script is a well-formed patch. -/
theorem renderPatch_wellFormed {path : List Char} {script : List ScriptHunk}
    (canonical : CanonicalPath path) (noBreak : '\n' ∉ path) (nonempty : script ≠ [])
    (clean : ∀ hunk ∈ script, ∀ line ∈ hunk.lines, '\n' ∉ line.content) {tail : List Line}
    (oldFits : (scriptBefore script tail).length < usizeBound)
    (newFits : (scriptAfter script tail).length < usizeBound) :
    WellFormed (renderPatch path script) path (scriptHunks 0 script) := by
  refine ⟨canonical, ?_, renderScript 0 0 script, ?_, ?_⟩
  · cases script with
    | nil => exact absurd rfl nonempty
    | cons hunk rest => simp [scriptHunks]
  · apply renderScript_texts
    · rwa [Nat.zero_add]
    · rwa [Nat.zero_add]
  · apply List.splitOn_intercalate '\n'
    · intro line member
      rcases List.mem_cons.mp member with rfl | member
      · simp [noBreak]
      · rcases List.mem_cons.mp member with rfl | member
        · simp [noBreak]
        · exact renderScript_noBreak clean line member
    · simp

/-- The lines of a script are lines of the texts that it connects. -/
theorem script_clean {script : List ScriptHunk} {tail : List Line}
    (before : ∀ line ∈ scriptBefore script tail, '\n' ∉ line)
    (added : ∀ hunk ∈ script, ∀ line ∈ newLines hunk.lines, '\n' ∉ line) :
    ∀ hunk ∈ script, ∀ line ∈ hunk.lines, '\n' ∉ line.content := by
  intro hunk present line member
  have old : ∀ content, line.old = some content → '\n' ∉ content := by
    intro content found
    apply before
    apply mem_itemsBefore (List.mem_map_of_mem present)
    exact List.mem_filterMap.mpr ⟨line, member, found⟩
  cases line with
  | context content => exact old content rfl
  | remove content => exact old content rfl
  | add content => exact added hunk present content (List.mem_filterMap.mpr ⟨_, member, rfl⟩)

/-- The engine is exact for every text and every patch, and it applies every rendered script. -/
theorem patch_engine_correct (original : List Char) : PatchEngine original where
  exact source result := applyUnifiedPatch_eq_ok
  rendered path script tail canonical noBreak nonempty added same oldFits newFits := by
    have oldCount : (scriptBefore script tail).length < usizeBound := by
      apply Representable.lines
      rw [← same]
      unfold joinLines
      rwa [List.intercalate_splitOn]
    have clean := script_clean (fun line member => notMem_of_mem_splitOn (same ▸ member)) added
    have wellFormed := renderPatch_wellFormed canonical noBreak nonempty clean oldCount newFits.lines
    rw [applyUnifiedPatch_eq_ok]
    refine ⟨path, scriptHunks 0 script, scriptAfter script tail, wellFormed, ?_, rfl⟩
    rw [scriptHunks_edits, same]
    exact ⟨script.map ScriptHunk.segment, tail, rfl, rfl, rfl⟩

example : applyHunks "old\n".toList [⟨1, 1, 1, [.remove "old".toList, .add "new".toList]⟩] =
    .ok "new\n".toList := by decide

end PiTools.Feedback
