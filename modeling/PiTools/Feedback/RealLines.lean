import PiTools.Feedback.InlineSuggestion
import PiTools.Feedback.PatchEngine

/-
This file shows which accepted patches address the lines of a file only. The
applier splits a text at its line breaks, so a final line break leaves an empty
item that is no line of the file.
-/

namespace PiTools.Feedback

open Library

/-! ### The last line -/

/-- Joined lines end in a line break when the last one is empty and others stand before it. -/
theorem joinLines_ends {lines : List Line} (noBreak : ∀ line ∈ lines, '\n' ∉ line) :
    ['\n'] <:+ joinLines lines ↔ lines.getLast? = some [] ∧ lines.length ≠ 1 := by
  rw [List.singleton_suffix_iff_getLast?_eq_some]
  constructor
  · intro ends
    have blank := getLast_joinLines noBreak ends
    refine ⟨blank, fun single => ?_⟩
    obtain ⟨line, rfl⟩ := List.length_eq_one_iff.mp single
    rw [List.getLast?_singleton] at blank
    rw [joinLines_singleton, Option.some.inj blank] at ends
    cases ends
  · intro ends
    obtain ⟨blank, several⟩ := ends
    obtain ⟨front, rfl⟩ := List.getLast?_eq_some_iff.mp blank
    clear blank noBreak
    induction front with
    | nil => exact absurd rfl several
    | cons line rest ih =>
        cases rest with
        | nil =>
            show (joinLines [line, []]).getLast? = some '\n'
            rw [joinLines_cons_cons, joinLines_singleton, List.getLast?_append]
            rfl
        | cons next rest =>
            have later := ih (by simp)
            rw [List.cons_append] at later
            rw [List.cons_append, List.cons_append, joinLines_cons_cons, List.getLast?_append,
              List.getLast?_cons, later]
            rfl

/-- A text that is not empty ends in a line break when the last piece of its split is empty. -/
theorem splitOn_getLast {text : List Char} (nonempty : text ≠ []) :
    (text.splitOn '\n').getLast? = some [] ↔ ['\n'] <:+ text := by
  have joined : joinLines (text.splitOn '\n') = text := List.intercalate_splitOn '\n'
  have ends := joinLines_ends fun (line : Line) (member : line ∈ text.splitOn '\n') =>
    notMem_of_mem_splitOn member
  rw [joined] at ends
  rw [ends]
  constructor
  · intro blank
    refine ⟨blank, fun single => nonempty ?_⟩
    obtain ⟨line, only⟩ := List.length_eq_one_iff.mp single
    rw [only, List.getLast?_singleton] at blank
    rw [← joined, only, Option.some.inj blank]
    rfl
  · exact And.left

/-! ### Lines of a file -/

/-- A final line break ends the last line and starts no further one. -/
def realLines (text : List Char) : List Line :=
  if text = [] ∨ ['\n'] <:+ text then (text.splitOn '\n').dropLast else text.splitOn '\n'

theorem realLines_closed {text : List Char} (closed : text = [] ∨ ['\n'] <:+ text) :
    realLines text = (text.splitOn '\n').dropLast ∧
      (text.splitOn '\n').length = (realLines text).length + 1 := by
  have same : realLines text = (text.splitOn '\n').dropLast := if_pos closed
  refine ⟨same, ?_⟩
  have some_ := List.length_pos_iff.mpr (List.splitOn_ne_nil '\n' text)
  rw [same, List.length_dropLast]
  omega

theorem realLines_open {text : List Char} (notClosed : ¬ (text = [] ∨ ['\n'] <:+ text)) :
    realLines text = text.splitOn '\n' :=
  if_neg notClosed

/-- A suggestion is a unified patch that a repair is prepared from. -/
structure AcceptedPatch (repository : Repository) (feedback : Feedback) (patch : ParsedPatch)
    (prepared : PreparedRepair) : Prop where
  suggestion : ∃ suggestion, extractExactSuggestion feedback.body = .ok suggestion ∧
    "--- a/".toList <+: suggestion ∧ parseUnifiedPatch suggestion = .ok patch
  prepared : prepareRepair repository feedback = .ok prepared

/-- The hunks stand on lines of the original, and the ending of the file stays. -/
structure AddressesRealLines (original repaired : List Char) (hunks : List Hunk) : Prop where
  range : ∀ hunk ∈ hunks,
    if hunk.oldCount = 0 then hunk.oldStart ≤ (realLines original).length
    else 1 ≤ hunk.oldStart ∧ hunk.oldStart + hunk.oldCount ≤ (realLines original).length + 1
  lines : ∀ hunk ∈ hunks, ∀ index line, (oldLines hunk.lines)[index]? = some line →
    (realLines original)[hunk.oldStart - 1 + index]? = some line
  ending : original ≠ [] → repaired ≠ [] → (['\n'] <:+ repaired ↔ ['\n'] <:+ original)

/-- The hunks stay off the item behind a final line break. Where there is no such line break, the
last line that stays or is added is visible unless nothing else is left. -/
def InsideFile (original : List Char) (hunks : List Hunk) : Prop :=
  if original = [] ∨ ['\n'] <:+ original then
    ∀ hunk ∈ hunks, hunk.start + hunk.oldCount ≤ (realLines original).length
  else finalItem (realLines original) 0 none (hunks.map Hunk.edit) = some [] →
    (realLines original).length + (hunks.map Hunk.newCount).sum =
      (hunks.map Hunk.oldCount).sum + 1

/-! ### Accepted patches -/

/-- The lines of a hunk stand in the text of the patch. -/
theorem HunkTexts.mem_text {body : List Line} {hunks : List Hunk} (texts : HunkTexts body hunks) :
    ∀ hunk ∈ hunks, ∀ line ∈ hunk.lines, line.text ∈ body := by
  induction texts with
  | nil => simp
  | @cons header first rest others heading counted later ih =>
      intro hunk member line inside
      apply List.mem_cons_of_mem
      rcases List.mem_cons.mp member with rfl | inRest
      · exact List.mem_append_left _ (List.mem_map_of_mem inside)
      · exact List.mem_append_right _ (ih hunk inRest line inside)

/-- A patch adds lines without line breaks. -/
theorem WellFormed.added {source path : List Char} {hunks : List Hunk}
    (wellFormed : WellFormed source path hunks) :
    ∀ hunk ∈ hunks, ∀ line ∈ newLines hunk.lines, '\n' ∉ line := by
  intro hunk member line added
  obtain ⟨body, texts, split⟩ := wellFormed.lines
  obtain ⟨parsed, inside, new⟩ := List.mem_filterMap.mp added
  have piece : parsed.text ∈ source.splitOn '\n' := by
    rw [split]
    exact .tail _ (.tail _ (texts.mem_text hunk member parsed inside))
  have clean := notMem_of_mem_splitOn piece
  cases parsed with
  | remove content => cases new
  | context content | add content =>
      cases new
      exact fun letter => clean (List.mem_cons_of_mem _ letter)

/-- The patch of a suggestion is applied to the file that it names. -/
theorem prepareRepair_patch {repository : Repository} {feedback : Feedback} {suggestion : List Char}
    {patch : ParsedPatch} {prepared : PreparedRepair}
    (exact_ : extractExactSuggestion feedback.body = .ok suggestion)
    (shaped : "--- a/".toList <+: suggestion) (parsed : parseUnifiedPatch suggestion = .ok patch) :
    prepareRepair repository feedback = .ok prepared ↔
      ∃ target, checkedTarget repository patch.path = .ok target ∧
        readToString repository target = .ok prepared.original ∧
        applyHunks prepared.original patch.hunks = .ok prepared.repaired ∧
        prepared.path = patch.path := by
  unfold prepareRepair
  rw [exact_]
  dsimp only
  rw [if_pos shaped]
  simp only [preparePatch, bind_eq_ok, parsed, pure_eq_ok]
  constructor
  · rintro ⟨_, same, target, checked, original, read, repaired, applied, rfl⟩
    cases same
    exact ⟨target, checked, read, applied, rfl⟩
  · rintro ⟨target, checked, read, applied, same⟩
    exact ⟨patch, rfl, target, checked, _, read, _, applied, by rw [← same]⟩

variable {repository : Repository} {feedback : Feedback} {patch : ParsedPatch}
  {prepared : PreparedRepair}

/-- The lines of the original are spliced to the lines of the repaired text. -/
theorem AcceptedPatch.spliced (accepted : AcceptedPatch repository feedback patch prepared) :
    ∃ lines, Spliced 0 (prepared.original.splitOn '\n') (patch.hunks.map Hunk.edit) lines ∧
      prepared.repaired = joinLines lines ∧ (∀ line ∈ lines, '\n' ∉ line) ∧
        ∀ hunk ∈ patch.hunks, hunk.Counted := by
  obtain ⟨suggestion, exact_, shaped, parsed⟩ := accepted.suggestion
  have wellFormed := parseUnifiedPatch_eq_ok.mp parsed
  obtain ⟨body, texts, split⟩ := wellFormed.lines
  obtain ⟨target, checked, read, applied, same⟩ :=
    (prepareRepair_patch exact_ shaped parsed).mp accepted.prepared
  obtain ⟨lines, spliced, joined⟩ :=
    (applyHunks_eq_ok fun hunk member => (texts.counted hunk member).new).mp applied
  refine ⟨lines, spliced, joined, ?_, texts.counted⟩
  intro line member
  rcases mem_of_spliced spliced member with old | ⟨edit, inside, new⟩
  · exact notMem_of_mem_splitOn old
  · obtain ⟨hunk, present, rfl⟩ := List.mem_map.mp inside
    exact wellFormed.added hunk present line new

theorem Hunk.Counted.start_pos {hunk : Hunk} (counted : hunk.Counted) (some_ : hunk.oldCount ≠ 0) :
    1 ≤ hunk.oldStart := by
  by_contra none_
  exact some_ (counted.oneBased (by omega))

/-- The range of a hunk lies inside some lines when its lines end before them. -/
theorem Hunk.Counted.range_iff {hunk : Hunk} (counted : hunk.Counted) (count : Nat) :
    (if hunk.oldCount = 0 then hunk.oldStart ≤ count
      else 1 ≤ hunk.oldStart ∧ hunk.oldStart + hunk.oldCount ≤ count + 1) ↔
        hunk.start + hunk.oldCount ≤ count := by
  unfold Hunk.start
  split
  · omega
  · rename_i some_
    have positive := counted.start_pos some_
    omega

/-- The lines of a hunk stand at their positions in the old text. -/
theorem Hunk.Counted.getElem? {hunk : Hunk} (counted : hunk.Counted) {source : List Line}
    (starts : hunk.edit.old <+: source.drop hunk.edit.start) {index : Nat} {line : Line}
    (found : (oldLines hunk.lines)[index]? = some line) :
    source[hunk.oldStart - 1 + index]? = some line ∧
      hunk.oldStart - 1 + index < hunk.start + hunk.oldCount := by
  have inside : index < (oldLines hunk.lines).length := (List.getElem?_eq_some_iff.mp found).1
  have some_ : hunk.oldCount ≠ 0 := by
    rw [counted.old]
    omega
  have start : hunk.start = hunk.oldStart - 1 := if_neg some_
  have old := counted.old
  refine ⟨?_, by omega⟩
  obtain ⟨rest, same⟩ := starts
  have piece : (source.drop hunk.edit.start)[index]? = some line := by
    rw [← same]
    show (oldLines hunk.lines ++ rest)[index]? = some line
    rw [List.getElem?_append_left inside, found]
  rw [List.getElem?_drop] at piece
  rw [← start]
  exact piece

/-- A file that ends in a line break, or has no line, keeps its ending when the hunks stay off the
item behind its lines. -/
theorem addressesRealLines_closed (accepted : AcceptedPatch repository feedback patch prepared)
    (closed : prepared.original = [] ∨ ['\n'] <:+ prepared.original) :
    AddressesRealLines prepared.original prepared.repaired patch.hunks ↔
      ∀ hunk ∈ patch.hunks, hunk.start + hunk.oldCount ≤ (realLines prepared.original).length := by
  obtain ⟨lines, spliced, joined, noBreak, counted⟩ := accepted.spliced
  obtain ⟨front, length⟩ := realLines_closed closed
  have inside := spliced_inside (Nat.zero_le _) (by rwa [List.drop_zero])
  constructor
  · intro addresses hunk member
    exact ((counted hunk member).range_iff _).mp (addresses.range hunk member)
  · intro before
    refine ⟨fun hunk member => ((counted hunk member).range_iff _).mpr (before hunk member), ?_, ?_⟩
    · intro hunk member index line found
      obtain ⟨starts, -⟩ := inside _ (List.mem_map_of_mem member)
      obtain ⟨there, bound⟩ := (counted hunk member).getElem? starts found
      have ends := before hunk member
      rw [front, List.getElem?_dropLast, if_pos (by omega)]
      exact there
    · intro visible left
      have ends := closed.resolve_left visible
      rw [iff_true_right ends, joined, joinLines_ends noBreak]
      have final := spliced_getLast (Nat.zero_le _) none
        (by rwa [List.drop_zero] : Spliced 0 ((prepared.original.splitOn '\n').drop 0) _ lines)
      rw [Option.or_none, finalItem_of_lt (by omega), (splitOn_getLast visible).mpr ends] at final
      · refine ⟨final, fun single => left ?_⟩
        obtain ⟨line, rfl⟩ := List.length_eq_one_iff.mp single
        rw [List.getLast?_singleton] at final
        rw [joined, Option.some.inj final]
        rfl
      · intro edit member
        obtain ⟨hunk, present, rfl⟩ := List.mem_map.mp member
        have ends := before hunk present
        rw [(counted hunk present).old] at ends
        show hunk.start + (oldLines hunk.lines).length < _
        omega

/-- A file whose last line has no line break keeps its ending when the last line that stays or is
added is visible. -/
theorem addressesRealLines_open (accepted : AcceptedPatch repository feedback patch prepared)
    (notClosed : ¬ (prepared.original = [] ∨ ['\n'] <:+ prepared.original)) :
    AddressesRealLines prepared.original prepared.repaired patch.hunks ↔
      (finalItem (realLines prepared.original) 0 none (patch.hunks.map Hunk.edit) = some [] →
        (realLines prepared.original).length + (patch.hunks.map Hunk.newCount).sum =
          (patch.hunks.map Hunk.oldCount).sum + 1) := by
  obtain ⟨lines, spliced, joined, noBreak, counted⟩ := accepted.spliced
  obtain ⟨visible, noEnd⟩ := not_or.mp notClosed
  rw [← realLines_open notClosed] at spliced
  have whole : Spliced 0 ((realLines prepared.original).drop 0) (patch.hunks.map Hunk.edit) lines := by
    rwa [List.drop_zero]
  have inside := spliced_inside (Nat.zero_le _) whole
  have final := spliced_getLast (Nat.zero_le _) none whole
  rw [Option.or_none] at final
  have lengths := spliced_length spliced
  have olds : ((patch.hunks.map Hunk.edit).map fun edit => edit.old.length) =
      patch.hunks.map Hunk.oldCount := by
    rw [List.map_map]
    exact List.map_congr_left fun hunk member => (counted hunk member).old.symm
  have news : ((patch.hunks.map Hunk.edit).map fun edit => edit.new.length) =
      patch.hunks.map Hunk.newCount := by
    rw [List.map_map]
    exact List.map_congr_left fun hunk member => (counted hunk member).new.symm
  rw [olds, news] at lengths
  rw [← final]
  constructor
  · intro addresses blank
    by_contra several
    have ends : ['\n'] <:+ prepared.repaired := by
      rw [joined, joinLines_ends noBreak]
      exact ⟨blank, by omega⟩
    have left : prepared.repaired ≠ [] := by
      intro empty
      rw [empty] at ends
      exact absurd (List.suffix_nil.mp ends) (by simp)
    exact noEnd ((addresses.ending visible left).mp ends)
  · intro alone
    refine ⟨?_, ?_, ?_⟩
    · intro hunk member
      rw [(counted hunk member).range_iff, (counted hunk member).old]
      exact (inside _ (List.mem_map_of_mem member)).2
    · intro hunk member index line found
      exact ((counted hunk member).getElem? (inside _ (List.mem_map_of_mem member)).1 found).1
    · intro _ left
      rw [iff_false_right noEnd, joined, joinLines_ends noBreak]
      rintro ⟨blank, several⟩
      have counts := alone blank
      omega

/-- The patches that address real lines only are those that stay inside the file. -/
theorem accepted_patch_real_lines_iff
    (accepted : AcceptedPatch repository feedback patch prepared) :
    AddressesRealLines prepared.original prepared.repaired patch.hunks ↔
      InsideFile prepared.original patch.hunks := by
  unfold InsideFile
  by_cases closed : prepared.original = [] ∨ ['\n'] <:+ prepared.original
  · rw [if_pos closed]
    exact addressesRealLines_closed accepted closed
  · rw [if_neg closed]
    exact addressesRealLines_open accepted closed

/-! ### Insertions -/

/-- A patch that inserts a line behind a gap. -/
def insertionPatch (gap : List Line) : List Char := renderPatch fileName [⟨gap, [.add "x".toList]⟩]

def insertion (gap : List Line) : Feedback :=
  { request with body := marker ++ insertionPatch gap ++ closing }

/-- An insertion is accepted when its gap are the first lines of the file. -/
theorem insertion_accepted {gap tail : List Line} {original : List Char}
    (exact_ : extractExactSuggestion (insertion gap).body = .ok (insertionPatch gap))
    (shaped : "--- a/".toList <+: insertionPatch gap) (split : original.splitOn '\n' = gap ++ tail)
    (small : gap.length + tail.length + 1 < usizeBound) :
    AcceptedPatch (oneFile original) (insertion gap)
      ⟨fileName, [⟨gap.length, 0, 1, [.add "x".toList]⟩]⟩
      ⟨fileName, original, joinLines (gap ++ "x".toList :: tail)⟩ := by
  have canonical : CanonicalPath fileName := by
    refine ⟨[fileName], by simp, ?_, rfl⟩
    intro name member
    rw [List.mem_singleton] at member
    subst member
    constructor <;> decide
  have hunks : scriptHunks 0 [⟨gap, [.add "x".toList]⟩] =
      [⟨gap.length, 0, 1, [.add "x".toList]⟩] := by
    simp [scriptHunks, oldLines, newLines, HunkLine.old, HunkLine.new, rangeStart]
  have wellFormed : WellFormed (insertionPatch gap) fileName
      [⟨gap.length, 0, 1, [.add "x".toList]⟩] := by
    rw [← hunks]
    apply renderPatch_wellFormed canonical (by decide) (by simp)
    · intro hunk member line inside
      rw [List.mem_singleton] at member
      subst member
      rw [List.mem_singleton] at inside
      subst inside
      decide
    · show (gap ++ [] ++ tail).length < usizeBound
      simp
      omega
    · show (gap ++ ["x".toList] ++ tail).length < usizeBound
      simp
      omega
  have parsed := parseUnifiedPatch_eq_ok.mpr
    (show WellFormed (insertionPatch gap) (ParsedPatch.mk fileName _).path
      (ParsedPatch.mk fileName _).hunks from wellFormed)
  refine ⟨⟨insertionPatch gap, exact_, shaped, parsed⟩, ?_⟩
  rw [prepareRepair_patch exact_ shaped parsed]
  have stores : Stores (oneFile original) fileName original := by
    refine ⟨[fileName], by simp, ?_, rfl, ?_, by simp [oneFile]⟩
    · intro name member
      rw [List.mem_singleton] at member
      subst member
      constructor <;> decide
    · intro first before positive
      simp at before
      omega
  obtain ⟨target, checked, read⟩ := stores.checked
  refine ⟨target, checked, read, ?_, rfl⟩
  rw [applyHunks_eq_ok (by simp [newLines, HunkLine.new])]
  refine ⟨gap ++ "x".toList :: tail, ?_, rfl⟩
  refine ⟨[⟨gap, [], ["x".toList]⟩], tail, ?_, ?_, ?_⟩
  · simp [Hunk.edit, Hunk.start, locate, oldLines, newLines, HunkLine.old, HunkLine.new]
  · rw [split]
    simp [itemsBefore]
  · simp [itemsAfter]

theorem insertion_real_lines :
    AddressesRealLines "a\n".toList (joinLines ["a".toList, "x".toList, []])
        [⟨1, 0, 1, [.add "x".toList]⟩] ↔
      InsideFile "a\n".toList [⟨1, 0, 1, [.add "x".toList]⟩] :=
  accepted_patch_real_lines_iff
    (@insertion_accepted ["a".toList] [[]] "a\n".toList (by decide) (by decide) (by decide)
      (by decide))

/-- A line is inserted two lines behind the only line of the file. -/
theorem insertion_behind_file :
    ¬ ∀ (repository : Repository) (feedback : Feedback) (patch : ParsedPatch)
      (prepared : PreparedRepair), AcceptedPatch repository feedback patch prepared →
        AddressesRealLines prepared.original prepared.repaired patch.hunks := by
  intro claim
  have addresses := claim _ _ _ _
    (@insertion_accepted ["a".toList, []] [] "a\n".toList (by decide) (by decide) (by decide)
      (by decide))
  have range := addresses.range _ List.mem_cons_self
  revert range
  decide

end PiTools.Feedback
