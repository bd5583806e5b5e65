import PiTools.Worker.Pi
import PiTools.Workspace.PatchNames

/-
This file shows which files an accepted patch changes, and which plain diffs
are accepted.
-/

namespace PiTools.Workspace

open Library

/-! ### Accepted patches -/

theorem countP_eq_counts {p : List Char → Bool} {first second : List Char} (differ : first ≠ second)
    (firstIn : p first = true) (secondIn : p second = true) (all : List (List Char)) :
    all.countP p = all.count first + all.count second +
      all.countP fun line => p line && line ≠ first && line ≠ second := by
  induction all with
  | nil => rfl
  | cons line rest ih =>
      rw [List.countP_cons, List.countP_cons, List.count_cons, List.count_cons, ih]
      by_cases isFirst : line = first
      · subst isFirst
        simp [firstIn, differ]
        omega
      · by_cases isSecond : line = second
        · subst isSecond
          simp [secondIn, isFirst]
          omega
        · simp [isFirst, isSecond]
          omega

theorem validatePatches_ok {allowedPaths : List String} {patches : List CiPatch} :
    validatePatches allowedPaths patches = .ok () ↔
      ∀ patch ∈ patches, validatePatch allowedPaths patch = .ok () := by
  induction patches with
  | nil => simp [validatePatches]
  | cons patch rest ih =>
      rw [validatePatches, List.forall_mem_cons, ← ih]
      cases checked : validatePatch allowedPaths patch <;> simp

theorem validatePatchSet_ok {allowedPaths : List String} {patches : List CiPatch} :
    validatePatchSet patches allowedPaths = .ok () ↔
      patches ≠ [] ∧ patches.length ≤ maxCiPatches ∧
        ∀ patch ∈ patches, validatePatch allowedPaths patch = .ok () := by
  unfold validatePatchSet
  split
  · simp_all
  · split
    · rename_i many
      simp only [reduceCtorEq, false_iff]
      omega
    · rename_i nonempty few
      rw [validatePatches_ok]
      exact ⟨fun valid => ⟨nonempty, Nat.not_lt.mp few, valid⟩, fun valid => valid.2.2⟩

/-- What the checks of one patch ask for. -/
structure PatchAccepted (allowedPaths : List String) (patch : CiPatch) : Prop where
  validPath : validateRepositoryPath patch.path = .ok ()
  allowed : patch.path ∈ allowedPaths
  filled : patch.unifiedDiff ≠ ""
  bounded : patch.unifiedDiff.utf8ByteSize ≤ maxCiPatchBytes
  plain : ∀ c ∈ patch.unifiedDiff.toList, c ∉ ['\x00', '\r']
  headers : patchHeadersFit patch = true

theorem validatePatch_ok {allowedPaths : List String} {patch : CiPatch} :
    validatePatch allowedPaths patch = .ok () ↔ PatchAccepted allowedPaths patch := by
  unfold validatePatch
  constructor
  · intro valid
    split at valid
    · cases valid
    · rename_i validPath
      split at valid
      · cases valid
      · rename_i allowed
        split at valid
        · cases valid
        · rename_i guarded
          split at valid
          · cases valid
          · rename_i headers
            simp only [Bool.or_eq_true, decide_eq_true_eq, not_or, List.any_eq_true, not_exists, not_and,
              Nat.not_lt] at guarded
            have fit : patchHeadersFit patch = true := by simpa using headers
            exact ⟨validPath, not_not.mp allowed, guarded.1.1, guarded.1.2, guarded.2, fit⟩
  · intro accepted
    rw [accepted.validPath]
    dsimp only
    rw [if_neg (not_not.mpr accepted.allowed), if_neg, if_neg (by simp [accepted.headers])]
    simp only [Bool.or_eq_true, decide_eq_true_eq, not_or, List.any_eq_true, not_exists, not_and, Nat.not_lt]
    exact ⟨⟨accepted.filled, accepted.bounded⟩, accepted.plain⟩

/-- A line that starts as a line with a file name. -/
def fileLine (line : List Char) : Bool := "--- ".toList.isPrefixOf line || "+++ ".toList.isPrefixOf line

theorem fileLine_iff {line : List Char} :
    fileLine line = true ↔ "--- ".toList <+: line ∨ "+++ ".toList <+: line := by
  rw [fileLine, Bool.or_eq_true, List.isPrefixOf_iff_prefix, List.isPrefixOf_iff_prefix]

theorem patchHeadersFit_iff {patch : CiPatch} :
    patchHeadersFit patch = true ↔
      (lines patch.unifiedDiff.toList).count ("--- a/" ++ patch.path).toList = 1 ∧
        (lines patch.unifiedDiff.toList).count ("+++ b/" ++ patch.path).toList = 1 ∧
          (∀ line ∈ lines patch.unifiedDiff.toList, fileLine line = true →
            line = ("--- a/" ++ patch.path).toList ∨ line = ("+++ b/" ++ patch.path).toList) ∧
              ∃ line ∈ lines patch.unifiedDiff.toList, "@@".toList.isPrefixOf line = true := by
  have old : fileLine ("--- a/" ++ patch.path).toList = true := by
    simp [fileLine, String.toList_append]
  have new : fileLine ("+++ b/" ++ patch.path).toList = true := by
    simp [fileLine, String.toList_append]
  have differ : ("--- a/" ++ patch.path).toList ≠ ("+++ b/" ++ patch.path).toList := by
    simp [String.toList_append]
  have counts := countP_eq_counts differ old new (lines patch.unifiedDiff.toList)
  have others : (lines patch.unifiedDiff.toList).countP (fun line => fileLine line &&
      line ≠ ("--- a/" ++ patch.path).toList && line ≠ ("+++ b/" ++ patch.path).toList) = 0 ↔
        ∀ line ∈ lines patch.unifiedDiff.toList, fileLine line = true →
          line = ("--- a/" ++ patch.path).toList ∨ line = ("+++ b/" ++ patch.path).toList := by
    rw [List.countP_eq_zero]
    apply forall_congr'
    intro line
    simp only [Bool.and_eq_true, decide_eq_true_eq, not_and, not_not]
    grind
  rw [← others, ← List.any_eq_true]
  unfold patchHeadersFit
  simp only [Bool.and_eq_true, decide_eq_true_eq]
  change ((_ ∧ _) ∧ (lines patch.unifiedDiff.toList).countP fileLine = 2) ∧ _ ↔ _
  rw [counts]
  constructor
  · rintro ⟨⟨⟨one, two⟩, total⟩, hunk⟩
    exact ⟨one, two, by omega, hunk⟩
  · rintro ⟨one, two, none, hunk⟩
    exact ⟨⟨⟨one, two⟩, by omega⟩, hunk⟩

/-- All file lines of an accepted patch name its path. -/
theorem PatchAccepted.headed {allowedPaths : List String} {patch : CiPatch}
    (accepted : PatchAccepted allowedPaths patch) :
    ∀ line ∈ rawLines patch.unifiedDiff.toList, Headed patch.path.toList line := by
  obtain ⟨-, -, named, -⟩ := patchHeadersFit_iff.mp accepted.headers
  have plain : '\r' ∉ patch.unifiedDiff.toList := fun member => accepted.plain '\r' member (by decide)
  rw [lines_eq_rawLines plain, List.forall_mem_map] at named
  have kept {start : List Char} (noBreak : '\n' ∉ start) {line : List Char}
      (starts : start.isPrefixOf line = true) : start <+: withoutBreak line := by
    obtain ⟨tail, rfl⟩ := List.isPrefixOf_iff_prefix.mp starts
    rw [withoutBreak, List.takeWhile_append_of_pos]
    · exact List.prefix_append ..
    · intro c member
      rw [decide_eq_true_eq]
      rintro rfl
      exact noBreak member
  intro line member
  constructor
  · intro starts
    have front := @kept "--- ".toList (by decide) line starts
    rcases named line member (fileLine_iff.mpr (.inl front)) with old | new
    · rw [old, String.toList_append]
    · -- A line that starts with the minus signs is not the one with the plus signs.
      rw [new, String.toList_append] at front
      exact absurd (List.cons_prefix_cons.mp front).1 (by decide)
  · intro starts
    have front := @kept "+++ ".toList (by decide) line starts
    rcases named line member (fileLine_iff.mpr (.inr front)) with old | new
    · rw [old, String.toList_append] at front
      exact absurd (List.cons_prefix_cons.mp front).1 (by decide)
    · rw [new, String.toList_append]

theorem validateRepositoryPath_noBreak {path : String} (valid : validateRepositoryPath path = .ok ()) :
    '\n' ∉ path.toList ∧ '\r' ∉ path.toList := by
  unfold validateRepositoryPath at valid
  split at valid
  · cases valid
  · rename_i checked
    simp only [Bool.or_eq_true, not_or, List.any_eq_true, not_exists, not_and, decide_eq_true_eq] at checked
    have absent (c : Char) (forbidden : c ∈ ['\x5c', '\x00', '\r', '\n']) : c ∉ path.toList :=
      fun member => checked.1.1.2 c member forbidden
    exact ⟨absent '\n' (by decide), absent '\r' (by decide)⟩

/-! ### Plain diffs -/

/-- A text on one line. -/
structure LineText where
  text : List Char
  noBreak : '\n' ∉ text

inductive DiffLine
  | context (line : LineText)
  | removed (line : LineText)
  | added (line : LineText)
  | noNewline

def DiffLine.render : DiffLine → List Char
  | .context line => ' ' :: line.text
  | .removed line => '-' :: line.text
  | .added line => '+' :: line.text
  | .noNewline => "\x5c No newline at end of file".toList

theorem DiffLine.render_context (line : LineText) : render (.context line) = ' ' :: line.text := rfl

theorem DiffLine.render_removed (line : LineText) : render (.removed line) = '-' :: line.text := rfl

theorem DiffLine.render_added (line : LineText) : render (.added line) = '+' :: line.text := rfl

theorem DiffLine.render_noNewline : render .noNewline = "\x5c No newline at end of file".toList := rfl

/-- The ranges of a hunk with what follows them, and its lines. -/
structure DiffHunk where
  ranges : LineText
  body : List DiffLine

def DiffHunk.render (hunk : DiffHunk) : List (List Char) :=
  ("@@ -".toList ++ hunk.ranges.text) :: hunk.body.map DiffLine.render

/-- The lines of a unified diff for one existing file. -/
def plainLines (path : String) (hunks : List DiffHunk) : List (List Char) :=
  ("--- a/" ++ path).toList :: ("+++ b/" ++ path).toList :: hunks.flatMap DiffHunk.render

def plainDiff (path : String) (hunks : List DiffHunk) : String :=
  String.ofList (unlines (plainLines path hunks))

/-- A line whose text completes the start of a file line. -/
def DiffLine.LooksLikeHeader : DiffLine → Prop
  | .removed line => "-- ".toList <+: line.text
  | .added line => "++ ".toList <+: line.text
  | _ => False

theorem DiffLine.fileLine_render (line : DiffLine) : fileLine line.render = true ↔ line.LooksLikeHeader := by
  rw [fileLine_iff]
  have other {c d : Char} {start rest : List Char} (differ : c ≠ d) : ¬ c :: start <+: d :: rest :=
    fun starts => differ (List.cons_prefix_cons.mp starts).1
  have minus : "--- ".toList = '-' :: "-- ".toList := rfl
  have plus : "+++ ".toList = '+' :: "++ ".toList := rfl
  rw [minus, plus]
  cases line with
  | context line => simp [render_context, LooksLikeHeader]
  | removed line => simp [render_removed, LooksLikeHeader]
  | added line => simp [render_added, LooksLikeHeader]
  | noNewline =>
      simp only [LooksLikeHeader, iff_false, not_or]
      exact ⟨other (by decide), other (by decide)⟩

theorem DiffLine.noBreak_render (line : DiffLine) : '\n' ∉ line.render := by
  cases line with
  | context line => simp [render_context, line.noBreak]
  | removed line => simp [render_removed, line.noBreak]
  | added line => simp [render_added, line.noBreak]
  | noNewline =>
      rw [render_noNewline]
      decide

theorem mem_hunkLines {hunks : List DiffHunk} {line : List Char} :
    line ∈ hunks.flatMap DiffHunk.render ↔
      ∃ hunk ∈ hunks, line = "@@ -".toList ++ hunk.ranges.text ∨ ∃ part ∈ hunk.body, part.render = line := by
  simp [List.mem_flatMap, DiffHunk.render]

/-- The file lines of the hunks are the lines that look like headers. -/
theorem fileLine_hunks {hunks : List DiffHunk} :
    (∀ line ∈ hunks.flatMap DiffHunk.render, ¬ fileLine line = true) ↔
      ∀ hunk ∈ hunks, ∀ part ∈ hunk.body, ¬ part.LooksLikeHeader := by
  have ranges (text : List Char) : ¬ fileLine ("@@ -".toList ++ text) = true := by
    rw [fileLine_iff]
    rintro (starts | starts)
    · exact absurd (List.cons_prefix_cons.mp starts).1 (by decide)
    · exact absurd (List.cons_prefix_cons.mp starts).1 (by decide)
  constructor
  · intro none hunk member part inside
    rw [← part.fileLine_render]
    exact none _ (mem_hunkLines.mpr ⟨hunk, member, .inr ⟨part, inside, rfl⟩⟩)
  · intro none line member
    obtain ⟨hunk, inside, rfl | ⟨part, here, rfl⟩⟩ := mem_hunkLines.mp member
    · exact ranges _
    · rw [part.fileLine_render]
      exact none hunk inside part here

theorem plainLines_noBreak {path : String} (noBreak : '\n' ∉ path.toList) (hunks : List DiffHunk) :
    ∀ line ∈ plainLines path hunks, '\n' ∉ line := by
  intro line member
  rcases List.mem_cons.mp member with rfl | member
  · simp [String.toList_append, noBreak]
  · rcases List.mem_cons.mp member with rfl | member
    · simp [String.toList_append, noBreak]
    · obtain ⟨hunk, -, rfl | ⟨part, -, rfl⟩⟩ := mem_hunkLines.mp member
      · simp [hunk.ranges.noBreak]
      · exact part.noBreak_render

/-- The headers of a plain diff fit when it has a hunk and no line that looks like a header. -/
theorem patchHeadersFit_plain {path : String} {hunks : List DiffHunk}
    (same : lines (plainDiff path hunks).toList = plainLines path hunks) :
    patchHeadersFit ⟨path, plainDiff path hunks⟩ = true ↔
      hunks ≠ [] ∧ ∀ hunk ∈ hunks, ∀ part ∈ hunk.body, ¬ part.LooksLikeHeader := by
  have old : fileLine ("--- a/" ++ path).toList = true := by
    simp [fileLine, String.toList_append]
  have new : fileLine ("+++ b/" ++ path).toList = true := by
    simp [fileLine, String.toList_append]
  have differ : ("--- a/" ++ path).toList ≠ ("+++ b/" ++ path).toList := by
    simp [String.toList_append]
  rw [patchHeadersFit_iff, same, ← fileLine_hunks]
  simp only [plainLines, List.count_cons_self, List.count_cons_of_ne differ,
    List.count_cons_of_ne differ.symm, Nat.add_eq_right, List.count_eq_zero]
  constructor
  · rintro ⟨noOld, noNew, named, line, member, starts⟩
    constructor
    · -- The lines with the file names are no hunk.
      rintro rfl
      have headers : ¬ "@@".toList.isPrefixOf ("--- a/" ++ path).toList = true ∧
          ¬ "@@".toList.isPrefixOf ("+++ b/" ++ path).toList = true := by
        simp [String.toList_append]
      simp only [List.flatMap_nil, List.mem_cons, List.not_mem_nil, or_false] at member
      rcases member with rfl | rfl
      · exact headers.1 starts
      · exact headers.2 starts
    · intro line member file
      rcases named line (.tail _ (.tail _ member)) file with rfl | rfl
      · exact noOld member
      · exact noNew member
  · rintro ⟨some_, none⟩
    refine ⟨fun member => none _ member old, fun member => none _ member new, ?_, ?_⟩
    · intro line member file
      rcases List.mem_cons.mp member with rfl | member
      · exact .inl rfl
      · rcases List.mem_cons.mp member with rfl | member
        · exact .inr rfl
        · exact absurd file (none line member)
    · obtain ⟨hunk, rest, rfl⟩ := List.exists_cons_of_ne_nil some_
      refine ⟨"@@ -".toList ++ hunk.ranges.text, ?_, rfl⟩
      exact .tail _ (.tail _ (mem_hunkLines.mpr ⟨hunk, .head _, .inl rfl⟩))

/-- A plain diff within the bounds of a patch, none of whose lines looks like a header. -/
structure PlainFits (allowedPaths : List String) (path : String) (hunks : List DiffHunk) : Prop where
  validPath : validateRepositoryPath path = .ok ()
  allowed : path ∈ allowedPaths
  bounded : (plainDiff path hunks).utf8ByteSize ≤ maxCiPatchBytes
  plain : ∀ c ∈ (plainDiff path hunks).toList, c ∉ ['\x00', '\r']
  changes : hunks ≠ []
  content : ∀ hunk ∈ hunks, ∀ part ∈ hunk.body, ¬ part.LooksLikeHeader

theorem validatePatch_plain {allowedPaths : List String} {path : String} {hunks : List DiffHunk} :
    PatchAccepted allowedPaths ⟨path, plainDiff path hunks⟩ ↔ PlainFits allowedPaths path hunks := by
  have same (validPath : validateRepositoryPath path = .ok ())
      (plain : ∀ c ∈ (plainDiff path hunks).toList, c ∉ ['\x00', '\r']) :
      lines (plainDiff path hunks).toList = plainLines path hunks := by
    have noReturn : '\r' ∉ unlines (plainLines path hunks) := by
      intro member
      exact plain '\r' (by rwa [plainDiff, String.toList_ofList]) (by decide)
    rw [plainDiff, String.toList_ofList,
      lines_unlines (plainLines_noBreak (validateRepositoryPath_noBreak validPath).1 hunks)]
    conv_rhs => rw [← List.map_id (plainLines path hunks)]
    apply List.map_congr_left
    intro line member
    apply dropCarriageReturn_of_notMem
    intro inside
    exact noReturn (List.mem_flatMap.mpr ⟨line, member, List.mem_append_left _ inside⟩)
  constructor
  · intro accepted
    obtain ⟨changes, content⟩ := (patchHeadersFit_plain (same accepted.validPath accepted.plain)).mp
      accepted.headers
    exact ⟨accepted.validPath, accepted.allowed, accepted.bounded, accepted.plain, changes, content⟩
  · intro fits
    have filled : plainDiff path hunks ≠ "" := by
      intro empty
      have text := congrArg String.toList empty
      rw [plainDiff, String.toList_ofList, plainLines, unlines_cons, String.toList_append] at text
      cases text
    have headers := (patchHeadersFit_plain (same fits.validPath fits.plain)).mpr ⟨fits.changes, fits.content⟩
    exact ⟨fits.validPath, fits.allowed, filled, fits.bounded, fits.plain, headers⟩

/-- An accepted patch changes only its path exactly when the names that git takes from `diff --git`,
rename and copy lines are the path, and the path survives in the lines that name it. A plain diff is
accepted exactly when none of its lines looks like a header, within the bounds of a patch. -/
theorem patch_scope_iff (git : GitReader) :
    (∀ patches allowedPaths, validatePatchSet patches allowedPaths = .ok () → ∀ patch ∈ patches,
      ((∀ name ∈ gitApplyChanges git patch.unifiedDiff.toList, name.text = patch.path.toList) ↔
        ∀ name ∈ gitApplyChanges git patch.unifiedDiff.toList, name.Fits git patch.path.toList)) ∧
      ∀ path allowedPaths hunks, validatePatchSet [⟨path, plainDiff path hunks⟩] allowedPaths = .ok () ↔
        PlainFits allowedPaths path hunks := by
  constructor
  · intro patches allowedPaths valid patch member
    have accepted := validatePatch_ok.mp ((validatePatchSet_ok.mp valid).2.2 patch member)
    apply forall_congr'
    intro name
    apply imp_congr_right
    intro changed
    have known := gitApplyChanges_known accepted.headed name changed
    exact known.text_eq_iff (validateRepositoryPath_noBreak accepted.validPath)
  · intro path allowedPaths hunks
    rw [validatePatchSet_ok, List.forall_mem_singleton, validatePatch_ok, validatePatch_plain]
    constructor
    · exact fun valid => valid.2.2
    · intro fits
      have few : 1 ≤ maxCiPatches := by decide
      exact ⟨List.cons_ne_nil _ _, few, fits⟩

/-- A reader of patches without quoted names, time stamps and binary data. -/
def plainReader : GitReader := ⟨fun _ => none, fun _ => none, fun _ => 0, fun _ => false, fun _ => none⟩

def modeChangePatch : CiPatch :=
  ⟨"src/lib.rs", "diff --git a/evil b/evil\nold mode 100644\nnew mode 100755\n" ++
    "diff --git a/src/lib.rs b/src/lib.rs\n--- a/src/lib.rs\n+++ b/src/lib.rs\n@@ -1 +1 @@\n-old\n+new\n"⟩

/-- A removed comment of a query. -/
def removedComment : List DiffHunk :=
  [⟨⟨"1 +1 @@".toList, by decide⟩, [.removed ⟨"-- old".toList, by decide⟩, .added ⟨"-- new".toList, by decide⟩]⟩]

/-- A patch with a section that only changes a mode is accepted for another file, and the diff that
replaces a comment of a query is refused. -/
theorem patch_scope_missed :
    validatePatchSet [modeChangePatch] ["src/lib.rs"] = .ok () ∧
      (GitName.mk .header "evil".toList) ∈ gitApplyChanges plainReader modeChangePatch.unifiedDiff.toList ∧
        ¬ validatePatchSet [⟨"src/query.sql", plainDiff "src/query.sql" removedComment⟩] ["src/query.sql"] =
          .ok () := by
  refine ⟨by decide +kernel, by decide +kernel, by decide +kernel⟩

def ownPatch : CiPatch :=
  ⟨"src/lib.rs", "--- a/src/lib.rs\n+++ b/src/lib.rs\n@@ -1 +1 @@\n-old\n+new\n"⟩

/-- A diff for one file changes only this file. -/
theorem ownPatch_scope : ∀ name ∈ gitApplyChanges plainReader ownPatch.unifiedDiff.toList,
    name.text = "src/lib.rs".toList := by
  have valid : validatePatchSet [ownPatch] ["src/lib.rs"] = .ok () := by decide +kernel
  have names : gitApplyChanges plainReader ownPatch.unifiedDiff.toList =
      [⟨.traditional, "src/lib.rs".toList⟩, ⟨.traditional, "src/lib.rs".toList⟩] := by decide +kernel
  have fits : ∀ name ∈ gitApplyChanges plainReader ownPatch.unifiedDiff.toList,
      name.Fits plainReader ownPatch.path.toList := by
    rw [names]
    intro name member
    simp only [List.mem_cons, List.not_mem_nil, or_false, or_self] at member
    rw [member]
    have survives : traditionalName plainReader "src/lib.rs".toList = some "src/lib.rs".toList := by
      decide +kernel
    exact survives
  exact ((patch_scope_iff plainReader).1 [ownPatch] ["src/lib.rs"] valid ownPatch (.head _)).mpr fits

end PiTools.Workspace
