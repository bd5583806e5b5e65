import PiTools.Feedback.Patch
import PiTools.Library.Occurrences

/-
This file defines how the repair of a feedback is prepared: the suggestion is
taken out of the body, its target is checked in the repository, and the text of
the target is changed.
-/

namespace PiTools

structure Feedback where
  actorLogin : String
  actorType : String
  isAutomation : Bool
  body : List Char
  path : Option (List Char)
  startLine : Option UInt32
  line : Option UInt32
  deriving DecidableEq, Repr

end PiTools

namespace PiTools.Feedback

open Library

/-! ### The repository -/

/-- What stands at a path. A file whose bytes are not UTF-8 has no text. -/
inductive Entry
  | file (text : Option (List Char))
  | directory
  | symlink
  | other
  deriving DecidableEq, Repr

def Entry.isFile : Entry → Bool
  | .file _ => true
  | _ => false

/-- The entries by the names on the way from the canonical root. -/
abbrev Repository := List (List Char) → Option Entry

/-- Each prefix of the target exists and is no symbolic link. -/
def checkComponents (repository : Repository) (relative : List Char) :
    List (List Char) → List (List Char) → Except FeedbackError (List (List Char))
  | target, [] => .ok target
  | target, name :: rest => do
      let entry ← okOr (repository (target ++ [name])) .io
      ensure (entry ≠ .symlink) (.invalidPath relative)
      checkComponents repository relative (target ++ [name]) rest

/-- A target without links below a canonical root is its own canonical path. -/
def checkedTarget (repository : Repository) (relative : List Char) :
    Except FeedbackError (List (List Char)) := do
  validateRelativePath relative
  let target ← checkComponents repository relative [] ((components relative).map PathComponent.text)
  let entry ← okOr (repository target) .io
  ensure (entry.isFile = true) (.invalidPath relative)
  pure target

def readToString (repository : Repository) (target : List (List Char)) :
    Except FeedbackError (List Char) :=
  match repository target with
  | some (.file (some text)) => .ok text
  | _ => .error .io

/-! ### Suggestions -/

def maxPatchBytes : Nat := 256 * 1024

/-- The line that opens a suggestion fence, with its line break. -/
def marker : List Char := "```suggestion\n".toList

def backticks : List Char := "```".toList

/-- The fence closes at the start of a line. -/
def closing : List Char := "\n```".toList

def checkBody (body : List Char) : Except FeedbackError Unit :=
  ensure (¬(maxPatchBytes < byteLength body ∨ '\r' ∈ body))
    (.malformedSuggestion "unsupported size or line endings")

def extractExactSuggestion (body : List Char) : Except FeedbackError (List Char) := do
  checkBody body
  let body := (stripSuffix ['\n'] body).getD body
  let suggestion ← okOr ((stripPrefix marker body).bind (stripSuffix closing))
    (.malformedSuggestion "expected exactly one suggestion fence and no surrounding text")
  ensure (¬(suggestion = [] ∨ containsText backticks suggestion = true))
    (.malformedSuggestion "empty or ambiguous suggestion fence")
  pure suggestion

def extractInlineSuggestion (body : List Char) : Except FeedbackError (List Char) := do
  checkBody body
  ensure (countMatches marker body = 1)
    (.malformedSuggestion "expected exactly one suggestion fence")
  -- The split finds the marker that was counted.
  let content := ((splitOnce marker body).map Prod.snd).getD []
  let (suggestion, _) ← okOr (splitOnce closing content)
    (.malformedSuggestion "unterminated suggestion fence")
  ensure (containsText backticks suggestion = false)
    (.malformedSuggestion "suggestion contains a nested code fence")
  pure suggestion

/-- The lines of a text, where the empty text has none. -/
def linesOrNone (text : List Char) : List Line := if text = [] then [] else text.splitOn '\n'

def applyInlineSuggestion (original : List Char) (startLine endLine : UInt32)
    (suggestion : List Char) : Except FeedbackError (List Char) := do
  ensure (¬('\r' ∈ original ∨ '\r' ∈ suggestion))
    (.stalePatch "line-ending normalization is not supported")
  let source := (stripSuffix ['\n'] original).getD original
  let lines := linesOrNone source
  let start := startLine.toNat - 1
  let finish := endLine.toNat
  ensure (¬(lines.length < finish ∨ finish ≤ start))
    (.stalePatch "review line range is outside the current file")
  let lines := lines.take start ++ linesOrNone suggestion ++ lines.drop finish
  let repaired := joinLines lines
  pure (if ['\n'] <:+ original ∧ lines ≠ [] then repaired ++ ['\n'] else repaired)

/-! ### Repairs -/

structure PreparedRepair where
  path : List Char
  original : List Char
  repaired : List Char
  deriving DecidableEq, Repr

/-- The suggestion is the patch of another file or of this one. -/
def preparePatch (repository : Repository) (suggestion : List Char) :
    Except FeedbackError PreparedRepair := do
  let patch ← parseUnifiedPatch suggestion
  let target ← checkedTarget repository patch.path
  let original ← readToString repository target
  let repaired ← applyHunks original patch.hunks
  pure ⟨patch.path, original, repaired⟩

/-- The suggestion replaces the lines of the review. -/
def prepareInline (repository : Repository) (feedback : Feedback) :
    Except FeedbackError PreparedRepair := do
  let suggestion ← extractInlineSuggestion feedback.body
  let path ← okOr feedback.path (.malformedSuggestion "review path is missing")
  let line ← okOr feedback.line (.malformedSuggestion "review line is missing")
  let startLine := feedback.startLine.getD line
  ensure (¬(line = 0 ∨ startLine = 0 ∨ line < startLine))
    (.malformedSuggestion "review line range is invalid")
  let target ← checkedTarget repository path
  let original ← readToString repository target
  let repaired ← applyInlineSuggestion original startLine line suggestion
  pure ⟨path, original, repaired⟩

/-- A suggestion without surrounding text that starts like a patch is a patch. -/
def prepareRepair (repository : Repository) (feedback : Feedback) :
    Except FeedbackError PreparedRepair :=
  match extractExactSuggestion feedback.body with
  | .ok suggestion =>
      if "--- a/".toList <+: suggestion then preparePatch repository suggestion
      else prepareInline repository feedback
  | .error _ => prepareInline repository feedback

end PiTools.Feedback
