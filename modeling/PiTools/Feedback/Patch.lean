import PiTools.Library.Outcome
import PiTools.Library.Scanning

/-
This file defines how a unified patch is parsed and applied to the text of a
file.
-/

namespace PiTools.Feedback

open Library

inductive FeedbackError
  | malformedSuggestion (reason : String)
  | malformedPatch (reason : String)
  | invalidPath (path : List Char)
  | stalePatch (reason : String)
  | io
  deriving DecidableEq, Repr

abbrev Line := List Char

inductive HunkLine
  | context (line : Line)
  | remove (line : Line)
  | add (line : Line)
  deriving DecidableEq, Repr

structure Hunk where
  oldStart : Nat
  oldCount : Nat
  newCount : Nat
  lines : List HunkLine
  deriving DecidableEq, Repr

structure ParsedPatch where
  path : List Char
  hunks : List Hunk
  deriving DecidableEq, Repr

/-- The line that the hunk expects in the old text. -/
def HunkLine.old : HunkLine → Option Line
  | .context line | .remove line => some line
  | .add _ => none

/-- The line that the hunk leaves in the new text. -/
def HunkLine.new : HunkLine → Option Line
  | .context line | .add line => some line
  | .remove _ => none

def oldLines (lines : List HunkLine) : List Line := lines.filterMap HunkLine.old

def newLines (lines : List HunkLine) : List Line := lines.filterMap HunkLine.new

/-! ### Paths -/

def validateRelativePath (value : List Char) : Except FeedbackError Unit := do
  ensure (value ≠ [] ∧ '\x5c' ∉ value ∧ '\x00' ∉ value) (.invalidPath value)
  ensure (isAbsolute value = false ∧ (components value).all PathComponent.isNormal)
    (.invalidPath value)
  let normalized := ['/'].intercalate ((components value).map PathComponent.text)
  ensure (normalized = value) (.invalidPath value)

/-! ### Parsing -/

def parseRange (range : List Char) : Except FeedbackError (Nat × Nat) := do
  let (start, count) := (splitOnce [','] range).getD (range, ['1'])
  let start ← okOr (parseUsize start) (.malformedPatch "invalid hunk start")
  let count ← okOr (parseUsize count) (.malformedPatch "invalid hunk count")
  pure (start, count)

/-- The header answers with the old start, the old count and the new count. -/
def parseHunkHeader (header : Line) : Except FeedbackError (Nat × Nat × Nat) := do
  let rest ← okOr (stripPrefix "@@ ".toList header) (.malformedPatch "invalid hunk header")
  let (ranges, _) ← okOr (splitOnce " @@".toList rest) (.malformedPatch "unterminated hunk header")
  let fields := ranges.splitOn ' '
  let old ← okOr (fields[0]?.bind (stripPrefix ['-'])) (.malformedPatch "missing old hunk range")
  let new ← okOr (fields[1]?.bind (stripPrefix ['+'])) (.malformedPatch "missing new hunk range")
  ensure (fields[2]? = none) (.malformedPatch "unexpected hunk range fields")
  let (oldStart, oldCount) ← parseRange old
  let (_, newCount) ← parseRange new
  ensure (¬(oldStart = 0 ∧ oldCount ≠ 0)) (.malformedPatch "old line numbers are one-based")
  pure (oldStart, oldCount, newCount)

def parseHunkLine : Line → Except FeedbackError HunkLine
  | ' ' :: rest => .ok (.context rest)
  | '-' :: rest => .ok (.remove rest)
  | '+' :: rest => .ok (.add rest)
  | _ => .error (.malformedPatch "hunk line lacks a valid prefix")

/-- The body of a hunk ends before the next line that starts with the marker. -/
def inBody (line : Line) : Bool := !"@@".toList.isPrefixOf line

def parseHunks : List Line → Except FeedbackError (List Hunk)
  | [] => .ok []
  | header :: rest => do
      ensure (header ≠ []) (.malformedPatch "unexpected blank line between hunks")
      let (oldStart, oldCount, newCount) ← parseHunkHeader header
      let lines ← (rest.takeWhile inBody).mapM parseHunkLine
      ensure ((oldLines lines).length = oldCount ∧ (newLines lines).length = newCount)
        (.malformedPatch "hunk header line counts do not match its body")
      let hunks ← parseHunks (rest.dropWhile inBody)
      pure (⟨oldStart, oldCount, newCount, lines⟩ :: hunks)
termination_by lines => lines.length
decreasing_by exact Nat.lt_succ_of_le (List.dropWhile_suffix inBody).length_le

def parseUnifiedPatch (source : List Char) : Except FeedbackError ParsedPatch := do
  let lines := source.splitOn '\n'
  let oldPath ← okOr (lines[0]?.bind (stripPrefix "--- a/".toList))
    (.malformedPatch "missing old-file header")
  let newPath ← okOr (lines[1]?.bind (stripPrefix "+++ b/".toList))
    (.malformedPatch "missing new-file header")
  ensure (oldPath = newPath) (.malformedPatch "old and new paths must match")
  validateRelativePath oldPath
  let hunks ← parseHunks (lines.drop 2)
  ensure (hunks ≠ []) (.malformedPatch "patch has no hunks")
  pure ⟨oldPath, hunks⟩

/-! ### Application -/

def requireExactLine (source : List Line) (index : Nat) (expected : Line) :
    Except FeedbackError Unit :=
  ensure (source[index]? = some expected)
    (.stalePatch ("source line " ++ toString (index + 1) ++ " does not match the hunk"))

/-- What the lines of one hunk have done so far. -/
structure Progress where
  result : List Line
  sourceIndex : Nat
  produced : Nat
  deriving DecidableEq, Repr

def applyHunkLine (source : List Line) (progress : Progress) :
    HunkLine → Except FeedbackError Progress
  | .context expected => do
      requireExactLine source progress.sourceIndex expected
      pure ⟨progress.result ++ [expected], progress.sourceIndex + 1, progress.produced + 1⟩
  | .remove expected => do
      requireExactLine source progress.sourceIndex expected
      pure { progress with sourceIndex := progress.sourceIndex + 1 }
  | .add value =>
      pure { progress with result := progress.result ++ [value], produced := progress.produced + 1 }

/-- The index of the first line of a hunk. Without old lines it stands after its old start. -/
def Hunk.start (hunk : Hunk) : Nat :=
  if hunk.oldCount = 0 then hunk.oldStart else hunk.oldStart - 1

/-- One hunk copies the lines from the cursor to its start and moves the cursor. -/
def applyHunk (source : List Line) (done : List Line × Nat) (hunk : Hunk) :
    Except FeedbackError (List Line × Nat) := do
  let (result, cursor) := done
  ensure (¬(hunk.start < cursor ∨ source.length < hunk.start))
    (.stalePatch "hunks overlap or address lines outside the file")
  let copied := result ++ (source.drop cursor).take (hunk.start - cursor)
  let progress ← hunk.lines.foldlM (applyHunkLine source) ⟨copied, hunk.start, 0⟩
  ensure (progress.produced = hunk.newCount)
    (.malformedPatch "new hunk count changed during application")
  pure (progress.result, progress.sourceIndex)

def applyHunks (original : List Char) (hunks : List Hunk) : Except FeedbackError (List Char) := do
  let source := original.splitOn '\n'
  let (result, cursor) ← hunks.foldlM (applyHunk source) ([], 0)
  pure (joinLines (result ++ source.drop cursor))

/-- A patch is parsed and then applied to the text. -/
def applyUnifiedPatch (source original : List Char) : Except FeedbackError (List Char) := do
  let patch ← parseUnifiedPatch source
  applyHunks original patch.hunks

end PiTools.Feedback
