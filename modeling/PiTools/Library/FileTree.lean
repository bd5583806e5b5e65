import Mathlib.Data.List.Infix

/-
This file defines trees of files, in which nothing stands below a file, and the
ways in which a path is written or removed below a directory.
-/

namespace Library

/-- A file with its content, or a link with its target. -/
inductive Blob (Content : Type) where
  | file (content : Content)
  | link (target : Content)
  deriving DecidableEq, Repr

inductive Node (Content : Type) where
  | blob (blob : Blob Content)
  | directory
  | other
  deriving DecidableEq, Repr

instance {Content : Type} (node : Option (Node Content)) : Decidable (node = some .directory) :=
  match node with
  | some .directory => isTrue rfl
  | some (.blob _) => isFalse (by simp)
  | some .other => isFalse (by simp)
  | none => isFalse (by simp)

def Node.blob? {Content : Type} : Node Content → Option (Blob Content)
  | .blob recorded => some recorded
  | _ => none

/-- The first path leads to a directory on the way to the second one. -/
def Above {Name : Type} (first second : List Name) : Prop := first <+: second ∧ first ≠ second

instance {Name : Type} [DecidableEq Name] (first second : List Name) : Decidable (Above first second) :=
  inferInstanceAs (Decidable (_ ∧ _))

/-- A record of files by their paths. Nothing is recorded below a recorded path. -/
structure Tree (Name Content : Type) where
  blob : List Name → Option (Blob Content)
  apart : ∀ first second, Above first second → blob second ≠ none → blob first = none

/-- What stands below a directory. All that leads to something is a directory. -/
structure Files (Name Content : Type) where
  node : List Name → Option (Node Content)
  root : node [] = some .directory
  rooted : ∀ first second, Above first second → node second ≠ none → node first = some .directory

variable {Name Content : Type}

namespace Files

def blob (files : Files Name Content) (path : List Name) : Option (Blob Content) :=
  (files.node path).bind Node.blob?

@[simp] theorem blob_eq_some {files : Files Name Content} {path : List Name} {blob : Blob Content} :
    files.blob path = some blob ↔ files.node path = some (.blob blob) := by
  rw [Files.blob, Option.bind_eq_some_iff]
  constructor
  · rintro ⟨node, found, same⟩
    cases node with
    | blob other => rw [found, ← Option.some.inj same]
    | directory => cases same
    | other => cases same
  · intro found
    exact ⟨_, found, rfl⟩

/-- The files without their directories. -/
def tree (files : Files Name Content) : Tree Name Content where
  blob := files.blob
  apart := by
    intro first second above some'
    have occupied : files.node second ≠ none := by
      intro none'
      exact some' (by rw [Files.blob, none', Option.bind_none])
    rw [Files.blob, files.rooted first second above occupied]
    rfl

theorem blob_above (files : Files Name Content) {first second : List Name} {blob : Blob Content}
    (above : Above first second) (found : files.blob second = some blob) :
    files.node first = some .directory :=
  files.rooted first second above (by rw [blob_eq_some.mp found]; simp)

variable [DecidableEq Name]

/-- Some link stands on the way to the path. -/
def linkAbove (files : Files Name Content) (path : List Name) : Bool :=
  path.inits.any fun first => first ≠ path &&
    match files.node first with
    | some (.blob (.link _)) => true
    | _ => false

/-- Something that is no directory stands on the way to the path. -/
def blocked (files : Files Name Content) (path : List Name) : Bool :=
  path.inits.any fun first => first ≠ path &&
    match files.node first with
    | some .directory => false
    | none => false
    | some _ => true

theorem linkAbove_iff {files : Files Name Content} {path : List Name} :
    files.linkAbove path = true ↔
      ∃ first target, Above first path ∧ files.node first = some (.blob (.link target)) := by
  simp only [linkAbove, List.any_eq_true, List.mem_inits, Bool.and_eq_true, decide_eq_true_eq]
  constructor
  · rintro ⟨first, starts, other, linked⟩
    split at linked
    · rename_i target found
      exact ⟨first, target, ⟨starts, other⟩, found⟩
    · cases linked
  · rintro ⟨first, target, ⟨starts, other⟩, found⟩
    exact ⟨first, starts, other, by rw [found]⟩

/-- Only directories and free places lead to a path that is not blocked. -/
theorem blob_of_not_blocked {files : Files Name Content} {first path : List Name}
    (free : files.blocked path = false) (above : Above first path) : files.blob first = none := by
  rw [blocked, List.any_eq_false] at free
  have place := free first ((List.mem_inits _ _).mpr above.1)
  rw [Files.blob]
  cases found : files.node first with
  | none => rfl
  | some node =>
      cases node with
      | directory => rfl
      | blob blob => simp [found, above.2] at place
      | other => simp [found, above.2] at place

/-- A file is written with the directories that lead to it. A directory is not replaced. -/
def write (files : Files Name Content) (path : List Name) (content : Content)
    (notDirectory : files.node path ≠ some .directory) : Files Name Content where
  node other := if other = path then some (.blob (.file content))
    else if Above other path then some .directory
    else files.node other
  root := by
    have notRoot : [] ≠ path := by
      rintro rfl
      exact notDirectory files.root
    rw [if_neg notRoot, if_pos ⟨List.nil_prefix, notRoot⟩]
  rooted := by
    intro first second above occupied
    by_cases leads : Above first path
    · have other : first ≠ path := leads.2
      rw [if_neg other, if_pos leads]
    · have inside : ¬ Above second path ∧ second ≠ path := by
        refine ⟨fun deeper => leads ⟨above.1.trans deeper.1, ?_⟩, ?_⟩
        · rintro rfl
          exact above.2 (above.1.eq_of_length_le deeper.1.length_le)
        · rintro rfl
          exact leads above
      rw [if_neg inside.2, if_neg inside.1] at occupied
      have directory := files.rooted first second above occupied
      have other : first ≠ path := by
        rintro rfl
        exact notDirectory directory
      rw [if_neg other, if_neg leads]
      exact directory

/-- A file or a link is removed. A directory stays. -/
def remove (files : Files Name Content) (path : List Name)
    (notDirectory : files.node path ≠ some .directory) : Files Name Content where
  node other := if other = path then none else files.node other
  root := by
    have notRoot : [] ≠ path := by
      rintro rfl
      exact notDirectory files.root
    rw [if_neg notRoot]
    exact files.root
  rooted := by
    intro first second above occupied
    split at occupied
    · exact absurd rfl occupied
    · have directory := files.rooted first second above occupied
      have other : first ≠ path := by
        rintro rfl
        exact notDirectory directory
      rw [if_neg other]
      exact directory

/-- The content of a file is replaced. A directory stays. -/
def rewrite (files : Files Name Content) (path : List Name) (content : Content) : Files Name Content :=
  if notDirectory : files.node path ≠ some .directory then files.write path content notDirectory
  else files

variable {files : Files Name Content} {path : List Name}

/-- A regular file stands at the path. -/
def isFile (files : Files Name Content) (path : List Name) : Bool :=
  match files.node path with
  | some (.blob (.file _)) => true
  | _ => false

omit [DecidableEq Name] in
theorem isFile_iff : files.isFile path = true ↔
    ∃ content, files.node path = some (.blob (.file content)) := by
  rw [isFile]
  constructor
  · intro found
    split at found
    · rename_i content known
      exact ⟨content, known⟩
    · cases found
  · rintro ⟨content, known⟩
    rw [known]

omit [DecidableEq Name] in
theorem not_directory_of_isFile (file : files.isFile path = true) :
    files.node path ≠ some .directory := by
  obtain ⟨content, known⟩ := isFile_iff.mp file
  rw [known]
  simp

/-- Nothing but the content of a file changes when it is written. -/
theorem node_write_file {content : Content} (file : files.isFile path = true) (other : List Name) :
    (files.write path content (not_directory_of_isFile file)).node other =
      if other = path then some (.blob (.file content)) else files.node other := by
  rw [write]
  dsimp only
  split
  · rfl
  · split
    · rename_i above
      obtain ⟨old, known⟩ := isFile_iff.mp file
      exact (files.rooted other path above (by rw [known]; simp)).symm
    · rfl

theorem node_rewrite {content : Content} (file : files.isFile path = true) (other : List Name) :
    (files.rewrite path content).node other =
      if other = path then some (.blob (.file content)) else files.node other := by
  rw [rewrite, dif_pos (not_directory_of_isFile file), node_write_file file]

omit [DecidableEq Name] in
theorem ext_node {first second : Files Name Content}
    (same : ∀ path, first.node path = second.node path) : first = second := by
  cases first
  cases second
  congr
  exact funext same

/-- A file that keeps its content is not changed. -/
theorem rewrite_self {content : Content} (found : files.node path = some (.blob (.file content))) :
    files.rewrite path content = files := by
  apply ext_node
  intro other
  rw [node_rewrite (isFile_iff.mpr ⟨content, found⟩)]
  split
  · rename_i same
    rw [same, found]
  · rfl

/-- A write changes one file when nothing blocks the path. -/
theorem blob_write {content : Content} (notDirectory : files.node path ≠ some .directory)
    (free : files.blocked path = false) (other : List Name) :
    (files.write path content notDirectory).blob other =
      if other = path then some (.file content) else files.blob other := by
  rw [Files.blob, write]
  dsimp only
  by_cases same : other = path
  · rw [if_pos same, if_pos same]
    rfl
  · rw [if_neg same, if_neg same]
    by_cases above : Above other path
    · rw [if_pos above, blob_of_not_blocked free above]
      rfl
    · rw [if_neg above, Files.blob]

theorem blob_remove (notDirectory : files.node path ≠ some .directory) (other : List Name) :
    (files.remove path notDirectory).blob other =
      if other = path then none else files.blob other := by
  rw [Files.blob, remove]
  dsimp only
  split
  · rfl
  · rw [Files.blob]

end Files

/-! ### One file -/

/-- The file below a directory that has nothing else. -/
def Files.single [DecidableEq Name] (name : Name) (content : Content) : Files Name Content where
  node path := if path = [] then some .directory
    else if path = [name] then some (.blob (.file content)) else none
  root := rfl
  rooted := by
    intro first second above occupied
    obtain ⟨⟨rest, rfl⟩, other⟩ := above
    cases first with
    | nil => rfl
    | cons c first =>
        cases first with
        | nil =>
            cases rest with
            | nil => exact absurd (List.append_nil _).symm other
            | cons d rest => simp at occupied
        | cons d first => simp at occupied

theorem Files.blob_single [DecidableEq Name] (name : Name) (content : Content) (path : List Name) :
    (Files.single name content).blob path = if path = [name] then some (.file content) else none := by
  rw [Files.blob, Files.single]
  dsimp only
  by_cases empty : path = []
  · subst empty
    simp
    rfl
  · rw [if_neg empty]
    split <;> rfl

end Library
