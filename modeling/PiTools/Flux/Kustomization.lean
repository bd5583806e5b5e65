import PiTools.Library.Outcome
import PiTools.Library.Scanning

/-
This file defines the list of resources in a Kustomization, as the promotion
script reads it and as it adds a resource to it.
-/

namespace PiTools.Flux

open Library

/-! ### Texts of Python -/

/-- The class `\s`, which is also what `strip` removes. -/
def space (c : Char) : Bool := isWhitespace c || (0x1c ≤ c.toNat && c.toNat ≤ 0x1f)

/-- The characters besides carriage returns at which `splitlines` splits. -/
def lineBoundary (c : Char) : Bool :=
  c ∈ ['\n', '\x0b', '\x0c', '\x1c', '\x1d', '\x1e', '\u0085', '\u2028', '\u2029']

/-- Text is read with every line ending as a line break. -/
def universalNewlines : List Char → List Char
  | [] => []
  | c :: rest =>
      if c = '\r' then
        if rest.head? = some '\n' then universalNewlines rest else '\n' :: universalNewlines rest
      else c :: universalNewlines rest

/-- The lines of a text without carriage returns, each with its ending. -/
def keepLines : List Char → List (List Char)
  | [] => []
  | c :: rest =>
      if lineBoundary c then [c] :: keepLines rest
      else
        match keepLines rest with
        | [] => [[c]]
        | line :: more => (c :: line) :: more

def dropEnding (line : List Char) : List Char := if line.getLast?.any lineBoundary then line.dropLast else line

def splitLines (text : List Char) : List (List Char) := (keepLines text).map dropEnding

def lstrip (line : List Char) : List Char := line.dropWhile space

/-! ### Resources -/

/-- The reasons to reject a promotion. -/
inductive PromotionError
  | unreadable (file : String)
  | symlink (name : String)
  | notDirectory (name : String)
  | notFile (name : String)
  | sourceName
  | nestedDirectories
  | sourceFiles (found : List String)
  | apiVersion (file : String)
  | kind (file : String)
  | metadata (file : String)
  | secret (file : String)
  | stringData (file : String)
  | privateKey (file : String)
  | credential (file : String)
  | resources (file : String)
  | noResources
  | invalidEntry (line : List Char)
  | emptyResources
  | unsafePath (resource : List Char)
  | noImages
  | foreignImage (image : List Char)
  | imageDigest (image : List Char)
  | missingImage
  | destinationName
  | aggregateLayout
  | sameDirectory
  | differentDirectories
  | duplicateResource
  | notExtendable
  deriving DecidableEq, Repr

/-- The pattern `(\s*)resources:\s*`. -/
def isResourcesLine (line : List Char) : Bool :=
  (stripPrefix "resources:".toList (lstrip line)).any fun rest => rest.all space

/-- The characters of a resource in a list entry. -/
def entryChar (c : Char) : Bool := !space c && c ≠ '#'

/-- The pattern `^(\s*)-\s*([^\s#]+)\s*(?:#.*)?$`, with its indentation and its resource. -/
def resourceLine (line : List Char) : Option (List Char × List Char) :=
  match lstrip line with
  | '-' :: rest =>
      let entry := (lstrip rest).takeWhile entryChar
      let behind := lstrip ((lstrip rest).dropWhile entryChar)
      if entry ≠ [] ∧ (behind = [] ∨ behind.head? = some '#') then some (line.takeWhile space, entry)
      else none
  | _ => none

def indentation (line : List Char) : Nat := (line.takeWhile space).length

/-- A line that the list does not count. -/
def blankOrComment (line : List Char) : Bool := line.all space || (lstrip line).head? = some '#'

/-- The entries up to a line that is indented less than the list. -/
def listEntries (indent : Nat) : List (List Char) → Except PromotionError (List (List Char × List Char))
  | [] => .ok []
  | line :: rest =>
      if blankOrComment line then listEntries indent rest
      else if indentation line < indent then .ok []
      else
        match resourceLine line with
        | none => .error (.invalidEntry line)
        | some entry => (listEntries indent rest).map (entry :: ·)

/-- The lines from the start of the list on. -/
def fromResources (lines : List (List Char)) : List (List Char) := lines.dropWhile fun line => !isResourcesLine line

def resourceEntries (text : List Char) : Except PromotionError (List (List Char × List Char)) :=
  match fromResources (splitLines text) with
  | [] => .error .noResources
  | line :: rest =>
      match listEntries (indentation line) rest with
      | .error reason => .error reason
      | .ok [] => .error .emptyResources
      | .ok entries => .ok entries

def resourceChar (c : Char) : Bool := c.isAlphanum || c ∈ ['.', '_', '/', '-']

def validateResourcePath (resource : List Char) : Except PromotionError Unit :=
  if resource = [] || !resource.all resourceChar || "/".toList.isPrefixOf resource ||
      "../".toList.isPrefixOf resource || containsText "/../".toList resource ||
      "/..".toList.isSuffixOf resource || containsText "//".toList resource then
    .error (.unsafePath resource)
  else .ok ()

/-! ### The pattern of a field -/

/-- The rest of the text from each start of a line on. -/
def lineStarts : List Char → List (List Char)
  | [] => [[]]
  | c :: rest => (c :: rest) :: (lineStartsBehind (c :: rest))
where
  lineStartsBehind : List Char → List (List Char)
    | [] => []
    | c :: rest => if c = '\n' then rest :: lineStartsBehind rest else lineStartsBehind rest

/-- The pattern `\s*$`: the white space reaches the end of a line. -/
def endsLine (text : List Char) : Bool :=
  (text.dropWhile fun c => space c && c ≠ '\n').head?.all (· = '\n')

/-- The pattern `^\s*field:\s*value\s*$` at some line, where the value is a word of its own. -/
def hasField (field value text : List Char) : Bool :=
  (lineStarts text).any fun start =>
    ((stripPrefix field (lstrip start)).bind fun rest => stripPrefix value (lstrip rest)).any endsLine

/-- The pattern `^\s*field:\s*\S+\s*$` at some line. -/
def hasFilledField (field text : List Char) : Bool :=
  (lineStarts text).any fun start =>
    (stripPrefix field (lstrip start)).any fun rest =>
      (lstrip rest) ≠ [] && endsLine ((lstrip rest).dropWhile fun c => !space c)

/-- The pattern `^\s*field:\s*$` at some line. -/
def hasOpenField (field text : List Char) : Bool :=
  (lineStarts text).any fun start => (stripPrefix field (lstrip start)).any endsLine

/-! ### Adding a resource -/

def validateKustomizationForTarget (text : List Char) : Except PromotionError (List (List Char × List Char)) := do
  ensure (hasField "kind:".toList "Kustomization".toList text = true) (.kind "kustomization.yaml")
  let entries ← resourceEntries text
  entries.forM fun entry => validateResourcePath entry.2
  pure entries

/-- A text ends with a line break. -/
def endedText (text : List Char) : List Char :=
  if "\n".toList.isSuffixOf text then text else text ++ ['\n']

/-- The number of lines up to the last entry, and its indentation. -/
def lastEntry : List (List Char) → Option (Nat × List Char)
  | [] => none
  | line :: rest =>
      if blankOrComment line then (lastEntry rest).map fun last => (last.1 + 1, last.2)
      else
        match resourceLine line with
        | none => none
        | some entry =>
            match lastEntry rest with
            | none => some (1, entry.1)
            | some last => some (last.1 + 1, last.2)

/-- The lines behind `resources:` with another entry behind the last one. -/
def withEntry (resource : List Char) (lines : List (List Char)) : Option (List (List Char)) :=
  (lastEntry lines).map fun last =>
    lines.take last.1 ++ (last.2 ++ ("- ".toList ++ (resource ++ ['\n']))) :: lines.drop last.1

/-- The text of the aggregate with the resource, or nothing when the resource is listed already. -/
def ensureResource (text resource : List Char) : Except PromotionError (Option (List Char)) := do
  let entries ← validateKustomizationForTarget text
  if entries.any fun entry => entry.2 = resource then
    if 1 < entries.countP fun entry => entry.2 = resource then .error .duplicateResource else .ok none
  else
    let lines := keepLines (endedText text)
    match fromResources lines with
    -- A valid aggregate has a list.
    | [] => .error .notExtendable
    | line :: rest =>
        match withEntry resource rest with
        | none => .error .notExtendable
        | some extended =>
            let front := lines.takeWhile fun line => !isResourcesLine line
            .ok (some (front ++ line :: extended).flatten)

end PiTools.Flux
