import PiTools.Library.Unlines

/-
This file defines how `git apply --recount` finds the headers and the hunks of a
patch at the root of a repository, and which files a patch changes.
-/

namespace PiTools.Workspace

open Library

/-! ### Lines -/

/-- The lines of a text with their line breaks. -/
def rawLines : List Char → List (List Char)
  | [] => []
  | c :: rest =>
      if c = '\n' then ['\n'] :: rawLines rest
      else
        match rawLines rest with
        | [] => [[c]]
        | line :: more => (c :: line) :: more

def startsWith (start : String) (line : List Char) : Bool := start.toList.isPrefixOf line

def ended (line : List Char) : Bool := line.getLast? = some '\n'

/-- The class `isspace` of git. -/
def gitSpace (c : Char) : Bool := c ∈ [' ', '\t', '\n', '\r']

/-! ### Names -/

/-- The parts of the reader that are left open: quoted names, the quoted names of a `diff --git`
line, the length of a time stamp at the end of a line, time stamps that stand for no file, and the
number of lines that the data of a binary patch take. -/
structure GitReader where
  unquote : List Char → Option (List Char)
  quotedDefault : List Char → Option (List Char)
  timestampLength : List Char → Nat
  epoch : List Char → Bool
  binaryData : List (List Char) → Option Nat

/-- Only one of several slashes in a row is kept. -/
def squashSlash : List Char → List Char
  | [] => []
  | [c] => [c]
  | c :: d :: rest => if c = '/' ∧ d = '/' then squashSlash (d :: rest) else c :: squashSlash (d :: rest)

/-- The text behind the first slash. -/
def behindSlash (text : List Char) : List Char := (text.dropWhile (· ≠ '/')).tail

/-- The default name stands for an empty name and for a name that only adds to it. -/
def chooseName (default : Option (List Char)) (name : List Char) : Option (List Char) :=
  if name = [] then default.map squashSlash
  else
    match default with
    | none => some (squashSlash name)
    | some shorter =>
        if shorter.length < name.length ∧ shorter.isPrefixOf name then some (squashSlash shorter)
        else some (squashSlash name)

/-- A name in quotation marks, from which a number of leading components is dropped. -/
def quotedName (git : GitReader) (stripped : Bool) (text : List Char) : Option (List Char) :=
  if text.head? = some '\x22' then
    (git.unquote text).bind fun name =>
      if !stripped then some (squashSlash name)
      else if '/' ∈ name then some (squashSlash (behindSlash name)) else none
  else none

/-- The name at the start of a text, up to a character that ends names. -/
def findName (git : GitReader) (stripped : Bool) (ends : List Char) (text : List Char) :
    Option (List Char) :=
  (quotedName git stripped text).orElse fun _ =>
    let word := text.takeWhile fun c => c ∉ ends
    chooseName none (if stripped then behindSlash word else word)

/-- The characters that end a name in a line with a file name. -/
def fileEnds : List Char := ['\n', '\r', '\t']

/-- The name in a line that may end in a time stamp. -/
def findNameTraditional (git : GitReader) (default : Option (List Char)) (text : List Char) :
    Option (List Char) :=
  (quotedName git true text).orElse fun _ =>
    let line := text.takeWhile (· ≠ '\n')
    let dated := git.timestampLength line
    chooseName default (behindSlash
      (if dated = 0 then text.takeWhile fun c => c ∉ fileEnds else line.take (line.length - dated)))

def isDevNull (text : List Char) : Bool :=
  match stripPrefix "/dev/null".toList text with
  | some (c :: _) => gitSpace c
  | _ => false

/-- The text behind the first component. -/
def skipTreePrefix (text : List Char) : Option (List Char) :=
  if text.head? = some '/' ∨ '/' ∉ text then none else some (behindSlash text)

/-- The name that stands on both sides of a space. The front grows until the back repeats it. -/
def repeatedName (front : List Char) : List Char → Option (List Char)
  | [] => none
  | c :: rest =>
      if c = ' ' ∨ c = '\t' then
        match skipTreePrefix rest with
        | none => none
        | some second =>
            if second = front.reverse then some front.reverse else repeatedName (c :: front) rest
      else repeatedName (c :: front) rest

/-- The name of a `diff --git` line, if both of its sides name the same file. -/
def gitHeaderName (git : GitReader) (line : List Char) : Option (List Char) :=
  let text := line.takeWhile (· ≠ '\n')
  if '\x22' ∈ text then git.quotedDefault text
  else (skipTreePrefix text).bind (repeatedName [])

/-- The line that a name is read from. -/
inductive NameSource
  /-- A `diff --git` line, or a line of a rename or a copy. -/
  | header
  /-- A line `---` or `+++` below a `diff --git` line. -/
  | fileLine
  /-- The two lines `---` and `+++` on their own. -/
  | traditional
  deriving DecidableEq, Repr

structure GitName where
  source : NameSource
  text : List Char
  deriving DecidableEq, Repr

/-! ### Hunks -/

def readNumber (text : List Char) : Option (Nat × List Char) :=
  let digits := text.takeWhile Char.isDigit
  let value := Nat.ofDigitChars 10 digits 0
  if digits = [] ∨ usizeBound ≤ value then none else some (value, text.dropWhile Char.isDigit)

/-- The number of lines in a range, and what stands behind it. -/
def readRange (expected : String) (text : List Char) : Option (Nat × List Char) := do
  let (_, rest) ← readNumber text
  let (count, rest) ← if rest.head? = some ',' then readNumber rest.tail else some (1, rest)
  let rest ← stripPrefix expected.toList rest
  pure (count, rest)

def readHunkHeader (line : List Char) : Option (Nat × Nat) :=
  if !ended line then none
  else do
    let ranges ← stripPrefix "@@ -".toList line
    let (old, rest) ← readRange " +" ranges
    let (new, _) ← readRange " @@" rest
    pure (old, new)

/-- The lines up to the next header are counted again, unless another line stands among them. -/
def recount : List (List Char) → Option (Nat × Nat)
  | [] => some (0, 0)
  | line :: rest =>
      match line with
      | ' ' :: _ => (recount rest).map fun counts => (counts.1 + 1, counts.2 + 1)
      | '\n' :: _ => (recount rest).map fun counts => (counts.1 + 1, counts.2 + 1)
      | '-' :: _ => (recount rest).map fun counts => (counts.1 + 1, counts.2)
      | '+' :: _ => (recount rest).map fun counts => (counts.1, counts.2 + 1)
      | '\x5c' :: _ => recount rest
      | _ => if startsWith "@@ " line ∨ startsWith "diff " line then some (0, 0) else none

/-- The number of lines that a hunk takes. -/
def hunkLength : Nat → Nat → List (List Char) → Option Nat
  | 0, 0, lines =>
      some (if 12 < byteLength lines.flatten ∧ startsWith "\x5c " (lines.headD []) then 1 else 0)
  | _, _, [] => none
  | old, new, line :: rest =>
      if !ended line then none
      else
        match line with
        | ' ' :: _ => if old = 0 ∨ new = 0 then none else (hunkLength (old - 1) (new - 1) rest).map (· + 1)
        | '\n' :: _ => if old = 0 ∨ new = 0 then none else (hunkLength (old - 1) (new - 1) rest).map (· + 1)
        | '-' :: _ => if old = 0 then none else (hunkLength (old - 1) new rest).map (· + 1)
        | '+' :: _ => if new = 0 then none else (hunkLength old (new - 1) rest).map (· + 1)
        | '\x5c' :: _ =>
            if 12 ≤ byteLength line ∧ startsWith "\x5c " line then (hunkLength old new rest).map (· + 1)
            else none
        | _ => none

/-- The lines of hunks, and the numbers of lines that they have in the old and in the new file. -/
structure HunkTotals where
  used : Nat
  old : Nat
  new : Nat
  deriving DecidableEq, Repr

/-- The hunks at the start of the lines. The lines of a hunk are skipped when it has been read. -/
def readHunks : Nat → List (List Char) → Option HunkTotals
  | _, [] => some ⟨0, 0, 0⟩
  | skip + 1, _ :: rest => (readHunks skip rest).map fun totals => { totals with used := totals.used + 1 }
  | 0, line :: rest =>
      if startsWith "@@ -" line ∧ line ≠ "@@ -".toList then do
        let written ← readHunkHeader line
        let counts := (recount rest).getD written
        let length ← hunkLength counts.1 counts.2 rest
        let totals ← readHunks length rest
        pure ⟨totals.used + 1, totals.old + counts.1, totals.new + counts.2⟩
      else some ⟨0, 0, 0⟩

/-! ### Headers -/

structure Header where
  defaultName : Option (List Char)
  old : Option GitName
  new : Option GitName
  isNew : Bool
  isDelete : Bool
  isRename : Bool
  isCopy : Bool
  oldMode : Option Nat
  newMode : Option Nat
  deriving DecidableEq, Repr

/-- A header keeps the name of a `diff --git` line that was given up before it. -/
def Header.start (defaultName : Option (List Char)) (left : Option GitName) : Header :=
  ⟨defaultName, left, left, false, false, false, false, none, none⟩

/-- A mode in octal digits. -/
def readMode (text : List Char) : Option Nat :=
  let digits := text.takeWhile fun c => '0' ≤ c ∧ c ≤ '7'
  if digits ≠ [] ∧ ((text.drop digits.length).head?.any gitSpace) then some (Nat.ofDigitChars 8 digits 0)
  else none

/-- A name from a line `---` or `+++`, which has to agree with a name that is known already. -/
def verifyName (git : GitReader) (isNull : Bool) (known : Option GitName) (text : List Char) :
    Option (Option GitName) :=
  match known with
  | none =>
      if !isNull then some ((findName git true fileEnds text).map (GitName.mk .fileLine))
      else if isDevNull text then some none else none
  | some name =>
      if !isNull ∧ findName git true fileEnds text = some name.text then some (some name) else none

/-- The name of a rename or a copy is the rest of the line. -/
def wholeName (git : GitReader) (text : List Char) : Option GitName :=
  (findName git false ['\n', '\r'] text).map (GitName.mk .header)

def Header.defaultGitName (header : Header) : Option GitName := header.defaultName.map (GitName.mk .header)

/-- The mode behind the object names of an `index` line. -/
def Header.readIndex (header : Header) (text : List Char) : Option Header :=
  match splitOnce "..".toList (text.takeWhile (· ≠ '\n')) with
  | none => some header
  | some (_, rest) =>
      let rest := rest.dropWhile (· ≠ ' ')
      if rest = [] then some header
      else (readMode (rest.tail ++ ['\n'])).map fun mode => { header with oldMode := some mode }

/-- The lines of an extended header, with what they say about the file. -/
def headerTable (git : GitReader) : List (String × (Header → List Char → Option Header)) :=
  [("--- ", fun header text => (verifyName git header.isNew header.old text).map fun name =>
      { header with old := name }),
    ("+++ ", fun header text => (verifyName git header.isDelete header.new text).map fun name =>
      { header with new := name }),
    ("old mode ", fun header text => (readMode text).map fun mode => { header with oldMode := some mode }),
    ("new mode ", fun header text => (readMode text).map fun mode => { header with newMode := some mode }),
    ("deleted file mode ", fun header text => (readMode text).map fun mode =>
      { header with isDelete := true, old := header.defaultGitName, oldMode := some mode }),
    ("new file mode ", fun header text => (readMode text).map fun mode =>
      { header with isNew := true, new := header.defaultGitName, newMode := some mode }),
    ("copy from ", fun header text => some { header with isCopy := true, old := wholeName git text }),
    ("copy to ", fun header text => some { header with isCopy := true, new := wholeName git text }),
    ("rename old ", fun header text => some { header with isRename := true, old := wholeName git text }),
    ("rename new ", fun header text => some { header with isRename := true, new := wholeName git text }),
    ("rename from ", fun header text => some { header with isRename := true, old := wholeName git text }),
    ("rename to ", fun header text => some { header with isRename := true, new := wholeName git text }),
    ("similarity index ", fun header _ => some header),
    ("dissimilarity index ", fun header _ => some header),
    ("index ", Header.readIndex)]

def Header.extensions (header : Header) : Nat :=
  header.isNew.toNat + header.isDelete.toNat + header.isRename.toNat + header.isCopy.toNat

/-- The header goes on up to a hunk or a line that it does not know. -/
def readHeader (git : GitReader) (header : Header) : List (List Char) → Option (Header × Nat)
  | [] => some (header, 0)
  | line :: rest =>
      if !ended line ∨ startsWith "@@ -" line then some (header, 0)
      else
        match (headerTable git).find? fun entry => startsWith entry.1 line with
        | none => some (header, 0)
        | some (start, read) => do
            let next ← read header (line.drop start.toList.length)
            if 1 < next.extensions then none
            else
              let (last, used) ← readHeader git next rest
              pure (last, used + 1)

/-- A header without names uses the one of its `diff --git` line. -/
def Header.complete (header : Header) : Option Header :=
  let named := if header.old = none ∧ header.new = none then
      { header with old := header.defaultGitName, new := header.defaultGitName }
    else header
  if (named.new = none ∧ !named.isDelete) ∨ (named.old = none ∧ !named.isNew) then none else some named

def Header.changesMetadata (header : Header) : Bool :=
  header.isRename || header.isCopy || header.isNew || header.isDelete ||
    (header.oldMode.isSome && header.newMode.isSome && header.oldMode != header.newMode)

/-- The files that a patch with the header changes. The source of a copy stays as it is. -/
def Header.changed (header : Header) : List GitName :=
  if header.isCopy then header.new.toList else header.old.toList ++ header.new.toList

/-- A line that says that two binary files differ. -/
def saysDiffer (line : List Char) : Bool :=
  (startsWith "Binary files " line || startsWith "Files " line) && " differ\n".toList.isSuffixOf line

/-! ### Patches -/

/-- What stands at a line: no header, a fault on which git gives up, binary data that end the search,
or a patch and the number of its lines. -/
inductive AtLine
  | skips (left : Option GitName)
  | fails
  | stops
  | found (changed : List GitName) (used : Nat)
  deriving DecidableEq, Repr

/-- The lines of the body follow the used ones. -/
def readBody (git : GitReader) (header : Header) (used : Nat) (lines : List (List Char)) : AtLine :=
  match readHunks 0 (lines.drop used) with
  | none => .fails
  | some totals =>
      if (header.isNew ∧ 0 < totals.old) ∨ (header.isDelete ∧ 0 < totals.new) then .fails
      else if 0 < totals.used then .found header.changed (used + totals.used)
      else if (lines.drop used).headD [] = "GIT binary patch\n".toList then
        match git.binaryData (lines.drop (used + 1)) with
        | none => .stops
        | some data => .found header.changed (used + 1 + data)
      else if saysDiffer ((lines.drop used).headD []) then .found header.changed (used + 1)
      else if header.changesMetadata then .found header.changed used else .fails

def gitSection (git : GitReader) (left : Option GitName) (line : List Char) (rest : List (List Char)) :
    AtLine :=
  let defaultName := gitHeaderName git (line.drop "diff --git ".toList.length)
  match readHeader git (.start defaultName left) rest with
  | none => .fails
  | some (header, used) =>
      match header.complete with
      | none => .fails
      | some header => if used = 0 then .skips header.old else readBody git header used rest

/-- The header of a patch without a `diff --git` line. -/
def traditionalHeader (git : GitReader) (left : Option GitName) (first second : List Char) :
    Option Header :=
  let start := Header.start none left
  if isDevNull first then
    (findNameTraditional git none second).map fun name =>
      { start with isNew := true, new := some ⟨.traditional, name⟩ }
  else if isDevNull second then
    (findNameTraditional git none first).map fun name =>
      { start with isDelete := true, old := some ⟨.traditional, name⟩ }
  else
    (findNameTraditional git (findNameTraditional git none first) second).map fun name =>
      if git.epoch first then { start with isNew := true, new := some ⟨.traditional, name⟩ }
      else if git.epoch second then { start with isDelete := true, old := some ⟨.traditional, name⟩ }
      else { start with old := some ⟨.traditional, name⟩, new := some ⟨.traditional, name⟩ }

def traditionalSection (git : GitReader) (left : Option GitName) (line second : List Char)
    (rest : List (List Char)) : AtLine :=
  match traditionalHeader git left (line.drop 4) (second.drop 4) with
  | none => .fails
  | some header => readBody git header 1 (second :: rest)

/-- The search for a header at a line. -/
def atLine (git : GitReader) (left : Option GitName) (line : List Char) (rest : List (List Char)) :
    AtLine :=
  if byteLength line < 6 then .skips left
  else if startsWith "@@ -" line then if (readHunkHeader line).isSome then .fails else .skips left
  else if byteLength rest.flatten < 6 then .skips left
  else if startsWith "diff --git " line then gitSection git left line rest
  else
    match rest with
    | second :: third :: more =>
        if startsWith "--- " line ∧ startsWith "+++ " second ∧ startsWith "@@ -" third ∧
            byteLength second + 14 ≤ byteLength (line :: rest).flatten then
          traditionalSection git left line second (third :: more)
        else .skips left
    | _ => .skips left

/-- The files that the patches in the lines change. The lines of a patch are skipped when it has been
read. Nothing changes when git gives up. -/
def changedNames (git : GitReader) : Nat → Option GitName → List (List Char) → Option (List GitName)
  | _, _, [] => some []
  | skip + 1, left, _ :: rest => changedNames git skip left rest
  | 0, left, line :: rest =>
      match atLine git left line rest with
      | .skips left => changedNames git 0 left rest
      | .fails => none
      | .stops => some []
      | .found changed used => (changedNames git used none rest).map (changed ++ ·)

/-- The files that `git apply --recount` creates, deletes, renames, copies or modifies for a patch. -/
def gitApplyChanges (git : GitReader) (patch : List Char) : List GitName :=
  (changedNames git 0 none (rawLines patch)).getD []

end PiTools.Workspace
