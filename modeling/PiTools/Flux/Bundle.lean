import PiTools.Flux.Kustomization

/-
This file defines which source bundles the promotion script accepts.
-/

namespace PiTools.Flux

open Library

/-! ### Files -/

/-- A file either is the encoding of a text or has bytes that no text has. -/
inductive Content
  | text (chars : List Char)
  | binary (bytes : List UInt8)
  deriving DecidableEq, Repr

inductive Node
  | file (content : Content)
  | directory (children : List (String × Node))
  | symlink (target : String)
  | special

/-- The children of a directory in the order in which it is read. -/
structure Children where
  entries : List (String × Node)
  unique : (entries.map Prod.fst).Nodup

def Children.lookup (children : Children) (name : String) : Option Node := children.entries.lookup name

/-- What stands at a path. -/
inductive Place
  | missing
  | file (content : Content)
  | directory (children : Children)
  | symlink
  | special

def Node.isSymlink : Node → Bool
  | .symlink _ => true
  | _ => false

def Node.isDirectory : Node → Bool
  | .directory _ => true
  | _ => false

def Node.isFile : Node → Bool
  | .file _ => true
  | _ => false

def readText (file : String) : Content → Except PromotionError (List Char)
  | .text chars => .ok (universalNewlines chars)
  | .binary _ => .error (.unreadable file)

def Children.readText (children : Children) (file : String) : Except PromotionError (List Char) :=
  match children.lookup file with
  | some (.file content) => Flux.readText file content
  | _ => .error (.unreadable file)

/-! ### Manifests -/

def requiredFiles : List String := ["kustomization.yaml", "app.yaml", "route.yaml", "networkpolicy.yaml"]

def expectedResources : List (List Char) := ["app.yaml", "route.yaml", "networkpolicy.yaml"].map String.toList

/-- The set of the listed resources is the expected one, and none is listed twice. -/
def validateKustomization (file : String) (text : List Char) : Except PromotionError Unit := do
  ensure (containsText "apiVersion: kustomize.config.k8s.io/v1beta1".toList text = true) (.apiVersion file)
  ensure (hasField "kind:".toList "Kustomization".toList text = true) (.kind file)
  let entries ← resourceEntries text
  let resources := entries.map Prod.snd
  ensure (resources.Nodup ∧ resources.all (fun resource => expectedResources.any (· = resource)) = true ∧
    expectedResources.all (fun resource => resources.any (· = resource)) = true) (.resources file)
  resources.forM validateResourcePath

/-- A letter without its case, where the long s, the dotted and the dotless i and the Kelvin sign
count as letters. -/
def foldChar (c : Char) : Char :=
  if c = '\u017f' then 's' else if c = '\u212a' then 'k'
  else if c = '\u0130' ∨ c = '\u0131' then 'i' else c.toLower

/-- The text behind a word in any case. -/
def stripFolded (word text : List Char) : Option (List Char) :=
  if (text.take word.length).map foldChar = word then some (text.drop word.length) else none

/-- The pattern `(?i)private[ _-]+key\s*:\s*[^$<{\s]` at the start of a text. -/
def namesPrivateKey (text : List Char) : Bool :=
  (stripFolded "private".toList text).any fun rest =>
    let separators := rest.takeWhile fun c => c ∈ [' ', '_', '-']
    separators ≠ [] &&
      (stripFolded "key".toList (rest.drop separators.length)).any fun rest =>
        (stripPrefix ":".toList (lstrip rest)).any fun rest =>
          (lstrip rest).head?.any fun c => c ∉ ['$', '<', '\x7b']

/-- The class of the characters in the address of a database. -/
def addressChar (c : Char) : Bool := c ∉ ['$', '<', '\x7b', '\x22', ' ']

/-- The pattern `(?i)(gh[pous]_|sk-[A-Za-z0-9]|postgres://[^$<{" ]+:[^$<{" ]+@)` at the start of a
text. -/
def startsCredential (text : List Char) : Bool :=
  (stripFolded "gh".toList text).any (fun rest =>
      rest.head?.any (fun c => foldChar c ∈ ['p', 'o', 'u', 's']) && rest.tail.head? = some '_') ||
    (stripFolded "sk-".toList text).any (fun rest => rest.head?.any fun c => (foldChar c).isAlphanum) ||
      (stripFolded "postgres://".toList text).any fun rest =>
        let address := rest.takeWhile addressChar
        let secret := (address.tail.dropWhile (· ≠ ':')).tail
        secret ≠ [] && '@' ∈ secret.tail

def validateManifest (file : String) (text : List Char) : Except PromotionError Unit := do
  ensure (hasFilledField "apiVersion:".toList text = true) (.apiVersion file)
  ensure (hasFilledField "kind:".toList text = true) (.kind file)
  ensure (hasOpenField "metadata:".toList text = true) (.metadata file)
  ensure (hasField "kind:".toList "Secret".toList text = false) (.secret file)
  ensure (hasOpenField "stringData:".toList text = false) (.stringData file)
  ensure (containsText "-----BEGIN".toList text = false ∧ text.tails.any namesPrivateKey = false)
    (.privateKey file)
  ensure (text.tails.any startsCredential = false) (.credential file)

/-! ### Images -/

/-- The pattern `^\s*image:\s*(\S+)\s*$` at the start of a line, with its image and its length. The
match ends at the last end of a line among the white space. -/
def imageLine (text : List Char) : Option (List Char × Nat) := do
  let rest ← stripPrefix "image:".toList (lstrip text)
  let image := (lstrip rest).takeWhile fun c => !space c
  let behind := (lstrip rest).dropWhile fun c => !space c
  if image = [] ∨ endsLine behind = false then none
  else
    let beyond := lstrip behind
    let last := if beyond = [] then 0
      else ((behind.takeWhile space).reverse.takeWhile (· ≠ '\n')).length + 1
    some (image, text.length - beyond.length - last)

/-- The matches of the pattern of an image. The text of a match is skipped. -/
def findImages : Bool → Nat → List Char → List (List Char)
  | _, _, [] => []
  | _, skip + 1, c :: rest => findImages (c = '\n') skip rest
  | starts, 0, c :: rest =>
      match if starts then imageLine (c :: rest) else none with
      | some (image, length) => image :: findImages (c = '\n') (length - 1) rest
      | none => findImages (c = '\n') 0 rest

def coreImagePrefix : List Char := "ghcr.io/titanicar-us/pitools@sha256:".toList

def runnerImagePrefix : List Char := "ghcr.io/titanicar-us/pitools-runner@sha256:".toList

def sha256Digest (digest : List Char) : Bool :=
  digest.length = 64 && digest.all fun c => c.isDigit || ('a' ≤ c && c ≤ 'f')

def validateImage (image : List Char) : Except PromotionError Unit :=
  match (stripPrefix coreImagePrefix image).or (stripPrefix runnerImagePrefix image) with
  | none => .error (.foreignImage image)
  | some digest => ensure (sha256Digest digest = true) (.imageDigest image)

def validateImages (texts : List (List Char)) : Except PromotionError Unit := do
  let images := texts.flatMap (findImages true 0)
  ensure (images ≠ []) .noImages
  images.forM validateImage
  ensure (images.any coreImagePrefix.isPrefixOf = true) .missingImage
  ensure (images.any runnerImagePrefix.isPrefixOf = true) .missingImage

/-! ### Bundles -/

def sourceBundleName : String := "pitools"

/-- The manifest of a bundle. -/
def manifestText (children : Children) (file : String) : Except PromotionError (List Char) := do
  let text ← children.readText file
  validateManifest file text
  pure text

/-- The children of a valid source bundle. -/
def validateBundle (path : List String) (source : Place) : Except PromotionError Children :=
  match source with
  | .symlink => .error (.symlink "source bundle")
  | .directory children => do
      ensure (path.getLast? = some sourceBundleName) .sourceName
      ensure (children.entries.all (fun child => !child.2.isSymlink) = true) (.symlink "source bundle")
      ensure (children.entries.all (fun child => !child.2.isDirectory) = true) .nestedDirectories
      let actualFiles := (children.entries.filter fun child => child.2.isFile).map Prod.fst
      ensure ((∀ file ∈ actualFiles, file ∈ requiredFiles) ∧ ∀ file ∈ requiredFiles, file ∈ actualFiles)
        (.sourceFiles actualFiles)
      let kustomization ← children.readText "kustomization.yaml"
      validateKustomization "kustomization.yaml" kustomization
      let manifests ← ["app.yaml", "route.yaml", "networkpolicy.yaml"].mapM (manifestText children)
      validateImages manifests
      pure children
  | _ => .error (.notDirectory "source bundle")

end PiTools.Flux
