import Mathlib.Data.List.Infix

/-
This file defines the operations on text that the modelled code takes from its
standard library. A text is the list of its characters.
-/

namespace Library

-- What is said of the characters of a text is decided along the text, and not for all characters.
instance (priority := 2000) decidableForallMem {holds : Char → Prop} [DecidablePred holds]
    (text : List Char) : Decidable (∀ c ∈ text, holds c) := List.decidableBAll holds text

instance (priority := 2000) decidableExistsMem {holds : Char → Prop} [DecidablePred holds]
    (text : List Char) : Decidable (∃ c ∈ text, holds c) := List.decidableBEx holds text

/-- The number of bytes of the UTF-8 encoding. -/
def byteLength (text : List Char) : Nat :=
  text.foldr (fun character bytes => character.utf8Size + bytes) 0

theorem byteLength_cons (c : Char) (rest : List Char) :
    byteLength (c :: rest) = c.utf8Size + byteLength rest := rfl

theorem byteLength_append (first second : List Char) :
    byteLength (first ++ second) = byteLength first + byteLength second := by
  induction first with
  | nil => simp [byteLength]
  | cons c rest ih =>
      rw [List.cons_append, byteLength_cons, byteLength_cons, ih, Nat.add_assoc]

def asciiLowercase (text : List Char) : List Char := text.map Char.toLower

/-- The text occurs somewhere in the other one. -/
def containsText (needle text : List Char) : Bool := text.tails.any needle.isPrefixOf

/-- The characters with the property `White_Space`. -/
def isWhitespace (c : Char) : Bool :=
  let code := c.toNat
  (9 ≤ code && code ≤ 13) || code = 32 || code = 133 || code = 160 || code = 5760 ||
    (8192 ≤ code && code ≤ 8202) || code = 8232 || code = 8233 || code = 8239 || code = 8287 ||
    code = 12288

/-- The trimmed text is empty. -/
def blank (text : List Char) : Bool := text.all isWhitespace

def trim (text : List Char) : List Char :=
  ((text.dropWhile isWhitespace).reverse.dropWhile isWhitespace).reverse

def splitWhitespace (text : List Char) : List (List Char) :=
  (text.splitOnP isWhitespace).filter fun word => word ≠ []

/-- A line break before the end may follow a carriage return. -/
def dropCarriageReturn (line : List Char) : List Char :=
  if line.getLast? = some '\r' then line.dropLast else line

/-- The lines of a text, where the last line break ends the last line. -/
def lines (text : List Char) : List (List Char) :=
  let pieces := text.splitOn '\n'
  let last := pieces.getLastD []
  pieces.dropLast.map dropCarriageReturn ++ if last = [] then [] else [last]

/-- The lines one after another, with a line break between two of them. -/
def joinLines (lines : List (List Char)) : List Char := ['\n'].intercalate lines

def stripPrefix (start text : List Char) : Option (List Char) :=
  if start.isPrefixOf text then some (text.drop start.length) else none

/-- The parts before and after the first occurrence of a separator. -/
def splitOnce (separator : List Char) : List Char → Option (List Char × List Char)
  | [] => if separator = [] then some ([], []) else none
  | c :: rest =>
      if separator.isPrefixOf (c :: rest) then some ([], (c :: rest).drop separator.length)
      else (splitOnce separator rest).map fun parts => (c :: parts.1, parts.2)

/-! ### Debug format -/

/-- A character in the debug format, where the predicate tells the characters that are not shown. -/
def debugChar (hidden : Char → Bool) (c : Char) : List Char :=
  if c = '\x00' then ['\x5c', '0']
  else if c = '\t' then ['\x5c', 't']
  else if c = '\r' then ['\x5c', 'r']
  else if c = '\n' then ['\x5c', 'n']
  else if c = '\x22' ∨ c = '\x5c' then ['\x5c', c]
  else if hidden c then
    ['\x5c', 'u', '\x7b'] ++ Nat.toDigits 16 c.toNat ++ ['\x7d']
  else [c]

def debugText (hidden : Char → Bool) (text : List Char) : List Char :=
  '\x22' :: text.flatMap (debugChar hidden) ++ ['\x22']

def debugTexts (hidden : Char → Bool) (texts : List (List Char)) : List Char :=
  '[' :: [',', ' '].intercalate (texts.map (debugText hidden)) ++ [']']

/-! ### Paths -/

inductive PathComponent
  | rootDir
  | curDir
  | parentDir
  | normal (name : List Char)
  deriving DecidableEq, Repr

def isAbsolute (path : List Char) : Bool := path.head? = some '/'

/-- A component in the middle of a path. Empty names and the current directory vanish. -/
def innerComponent (name : List Char) : Option PathComponent :=
  if name = [] ∨ name = ['.'] then none
  else if name = ['.', '.'] then some .parentDir
  else some (.normal name)

/-- The components of a path. The current directory counts only in front. -/
def components (path : List Char) : List PathComponent :=
  let names := path.splitOn '/'
  let front := if isAbsolute path then [PathComponent.rootDir]
    else if names.head? = some ['.'] then [.curDir] else []
  front ++ names.filterMap innerComponent

def PathComponent.isNormal : PathComponent → Bool
  | .normal _ => true
  | _ => false

def PathComponent.text : PathComponent → List Char
  | .rootDir => ['/']
  | .curDir => ['.']
  | .parentDir => ['.', '.']
  | .normal name => name

end Library
