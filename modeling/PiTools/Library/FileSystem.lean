import PiTools.Library.FileTree
import PiTools.Library.Text

/-
This file defines a file system with symbolic links: how its paths are resolved,
and how its files are read and written.
-/

namespace Library

/-- How texts are kept in files. Some contents are no text. -/
structure Encoding (Content : Type) where
  decode : Content → Option (List Char)
  encode : List Char → Content
  decode_encode : ∀ text, decode (encode text) = some text

structure FileSystem (Content : Type) where
  files : Files (List Char) Content
  encoding : Encoding Content
  workingDirectory : List (List Char)
  working : files.node workingDirectory = some .directory
  readable : List (List Char) → Bool
  writable : List (List Char) → Bool

/-- Files that hold texts. -/
def Encoding.texts : Encoding (List Char) := ⟨some, id, fun _ => rfl⟩

def FileSystem.ofFiles (files : Files (List Char) (List Char)) : FileSystem (List Char) :=
  ⟨files, .texts, [], files.root, fun _ => true, fun _ => true⟩

variable {Content : Type}

/-! ### Resolution -/

namespace FileSystem

/-- The place to which some components lead from a directory, up to the first link. -/
def walk (files : Files (List Char) Content)
    (follow : List (List Char) → Content → List PathComponent → Option (List (List Char))) :
    List (List Char) → List PathComponent → Option (List (List Char))
  | here, [] => some here
  | _, .rootDir :: rest => walk files follow [] rest
  | here, .curDir :: rest => walk files follow here rest
  | here, .parentDir :: rest => walk files follow here.dropLast rest
  | here, .normal name :: rest =>
      match files.node (here ++ [name]) with
      | some .directory => walk files follow (here ++ [name]) rest
      | some (.blob (.link target)) => follow here target rest
      | some (.blob (.file _)) | some .other => if rest = [] then some (here ++ [name]) else none
      | none => none

/-- A link is replaced by the components of its target, a limited number of times. -/
def resolve (fs : FileSystem Content) :
    Nat → List (List Char) → List PathComponent → Option (List (List Char))
  | 0 => walk fs.files fun _ _ _ => none
  | links + 1 => walk fs.files fun here target rest =>
      (fs.encoding.decode target).bind fun path => resolve fs links here (components path ++ rest)

def maxLinks : Nat := 40

def canonicalize (fs : FileSystem Content) (path : List Char) : Option (List (List Char)) :=
  if path = [] then none else fs.resolve maxLinks fs.workingDirectory (components path)

/-- The place of an absolute path that is given by its names. -/
def place (fs : FileSystem Content) (path : List (List Char)) : Option (List (List Char)) :=
  fs.resolve maxLinks [] (path.map .normal)

/-- The last name of the path is not followed. -/
def symlinkMetadata (fs : FileSystem Content) (path : List (List Char)) : Option (Node Content) :=
  match path.getLast? with
  | none => fs.files.node []
  | some name => (fs.place path.dropLast).bind fun parent => fs.files.node (parent ++ [name])

def metadata (fs : FileSystem Content) (path : List (List Char)) : Option (Node Content) :=
  (fs.place path).bind fs.files.node

def readToString (fs : FileSystem Content) (path : List (List Char)) : Option (List Char) :=
  (fs.place path).bind fun place =>
    match fs.files.node place with
    | some (.blob (.file content)) => if fs.readable place then fs.encoding.decode content else none
    | _ => none

/-! ### Places without links -/

/-- Something that is no link stands at the place. -/
def Settled (fs : FileSystem Content) (path : List (List Char)) : Prop :=
  ∃ node, fs.files.node path = some node ∧ ∀ target, node ≠ .blob (.link target)

variable {fs : FileSystem Content} {path parent : List (List Char)}

theorem settled_of_directory (directory : fs.files.node path = some .directory) : fs.Settled path :=
  ⟨.directory, directory, by simp⟩

theorem directory_dropLast (directory : fs.files.node path = some .directory) :
    fs.files.node path.dropLast = some .directory := by
  rcases List.eq_nil_or_concat path with rfl | ⟨front, last, rfl⟩
  · exact directory
  · rw [List.concat_eq_append] at directory ⊢
    rw [List.dropLast_concat]
    refine fs.files.rooted front _ ⟨List.prefix_append .., ?_⟩ (by rw [directory]; simp)
    simp

/-- A walk ends at something that is no link. -/
theorem walk_settled {follow : List (List Char) → Content → List PathComponent → Option (List (List Char))}
    (followed : ∀ here target rest, fs.files.node here = some .directory → ∀ found,
      follow here target rest = some found → fs.Settled found)
    {here found : List (List Char)} {parts : List PathComponent}
    (directory : fs.files.node here = some .directory)
    (walked : walk fs.files follow here parts = some found) : fs.Settled found := by
  induction parts generalizing here with
  | nil =>
      cases walked
      exact settled_of_directory directory
  | cons part rest ih =>
      cases part with
      | rootDir => exact ih fs.files.root walked
      | curDir => exact ih directory walked
      | parentDir => exact ih (directory_dropLast directory) walked
      | normal name =>
          rw [walk] at walked
          split at walked
          · rename_i known
            exact ih known walked
          · exact followed here _ rest directory found walked
          · rename_i known
            split at walked
            · cases walked
              exact ⟨_, known, by simp⟩
            · cases walked
          · rename_i known
            split at walked
            · cases walked
              exact ⟨_, known, by simp⟩
            · cases walked
          · cases walked

theorem resolve_settled {links : Nat} {here found : List (List Char)} {parts : List PathComponent}
    (directory : fs.files.node here = some .directory)
    (resolved : fs.resolve links here parts = some found) : fs.Settled found := by
  induction links generalizing here parts found with
  | zero =>
      rw [resolve] at resolved
      exact walk_settled (fun _ _ _ _ _ none_ => by cases none_) directory resolved
  | succ links ih =>
      rw [resolve] at resolved
      refine walk_settled (fun here target rest inside found followed => ?_) directory resolved
      obtain ⟨text, -, followed⟩ := Option.bind_eq_some_iff.mp followed
      exact ih inside followed

theorem canonicalize_settled {root : List Char} (found : fs.canonicalize root = some path) :
    fs.Settled path := by
  rw [canonicalize] at found
  split at found
  · cases found
  · exact resolve_settled fs.working found

/-- No link stands on the way to something, so that a walk to a settled place ends there. -/
theorem walk_names {follow : List (List Char) → Content → List PathComponent → Option (List (List Char))}
    {here rest : List (List Char)} (settled : fs.Settled (here ++ rest)) :
    walk fs.files follow here (rest.map .normal) = some (here ++ rest) := by
  induction rest generalizing here with
  | nil => rw [List.map_nil, walk, List.append_nil]
  | cons name rest ih =>
      have split : here ++ name :: rest = here ++ [name] ++ rest := by simp
      rw [split] at settled ⊢
      rw [List.map_cons, walk]
      cases rest with
      | nil =>
          obtain ⟨node, known, noLink⟩ := settled
          rw [List.append_nil] at known ⊢
          rw [known]
          cases node with
          | directory => rfl
          | other => rfl
          | blob blob =>
              cases blob with
              | file content => rfl
              | link target => exact absurd rfl (noLink target)
      | cons next rest =>
          obtain ⟨node, known, noLink⟩ := settled
          have directory : fs.files.node (here ++ [name]) = some .directory := by
            refine fs.files.rooted _ _ ⟨List.prefix_append _ (next :: rest), ?_⟩ (by rw [known]; simp)
            simp
          rw [directory]
          exact ih ⟨node, known, noLink⟩

theorem place_eq (settled : fs.Settled path) : fs.place path = some path := by
  unfold place maxLinks resolve
  exact @walk_names _ fs _ [] path settled

theorem symlinkMetadata_append (settled : fs.Settled parent) (name : List Char) :
    fs.symlinkMetadata (parent ++ [name]) = fs.files.node (parent ++ [name]) := by
  rw [symlinkMetadata, List.getLast?_concat]
  dsimp only
  rw [List.dropLast_concat, place_eq settled, Option.bind_some]

theorem metadata_eq (settled : fs.Settled path) : fs.metadata path = fs.files.node path := by
  rw [metadata, place_eq settled, Option.bind_some]

theorem settled_file {content : Content}
    (file : fs.files.node path = some (.blob (.file content))) : fs.Settled path :=
  ⟨_, file, by simp⟩

theorem readToString_file {content : Content}
    (file : fs.files.node path = some (.blob (.file content))) :
    fs.readToString path = if fs.readable path then fs.encoding.decode content else none := by
  rw [readToString, place_eq (settled_file file), Option.bind_some, file]

/-! ### Writing -/

/-- A file gets another text. -/
def overwrite (fs : FileSystem Content) (place : List (List Char)) (text : List Char)
    (file : fs.files.isFile place = true) : FileSystem Content :=
  { fs with
    files := fs.files.write place (fs.encoding.encode text) (Files.not_directory_of_isFile file)
    working := by
      have other : fs.workingDirectory ≠ place := by
        rintro same
        exact Files.not_directory_of_isFile file (same ▸ fs.working)
      rw [Files.node_write_file file, if_neg other]
      exact fs.working }

/-- The file to which a path leads is written. No file is made. -/
def write (fs : FileSystem Content) (path : List (List Char)) (text : List Char) :
    Option (FileSystem Content) :=
  (fs.place path).bind fun place =>
    if file : fs.files.isFile place = true then
      if fs.writable place then some (fs.overwrite place text file) else none
    else none

theorem node_overwrite {text : List Char} (file : fs.files.isFile path = true)
    (other : List (List Char)) : (fs.overwrite path text file).files.node other =
      if other = path then some (.blob (.file (fs.encoding.encode text))) else fs.files.node other :=
  Files.node_write_file file other

/-- A write to a file without links on the way changes that file. -/
theorem write_eq_some {text : List Char} {after : FileSystem Content}
    (file : fs.files.isFile path = true) (written : fs.write path text = some after) :
    after = fs.overwrite path text file := by
  obtain ⟨content, known⟩ := Files.isFile_iff.mp file
  rw [write, place_eq (settled_file known), Option.bind_some, dif_pos file] at written
  split at written
  · exact (Option.some.inj written).symm
  · cases written

theorem readToString_overwrite {text : List Char} (file : fs.files.isFile path = true)
    (readable : fs.readable path = true) :
    (fs.overwrite path text file).readToString path = some text := by
  have now := (@node_overwrite _ fs path text file path).trans (if_pos rfl)
  rw [readToString_file now]
  have same : (fs.overwrite path text file).readable path = true := readable
  rw [same]
  exact fs.encoding.decode_encode text

end FileSystem

end Library
