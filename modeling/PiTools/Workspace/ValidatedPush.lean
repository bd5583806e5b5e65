import PiTools.Feedback.Targets
import PiTools.Library.Words
import PiTools.Workspace.Repair

/-
This file says exactly when a repair pushes the tree that was validated, and
with it only the admitted changes.
-/

namespace PiTools.Workspace

open Library
open Stack (CommandResult ValidationCommand WorkspaceError)

variable {Content : Type}

def spots (paths : List String) : List Path := paths.map fun path => spot path.toList

/-- A clone as it was checked out. -/
structure Fresh (clone : Clone Content) : Prop where
  index : ∀ path, clone.index.blob path = clone.head.blob path
  worktree : ∀ path, clone.worktree.blob path = clone.head.blob path

/-! ### Git -/

section Git

variable (pathspec : String → Path → Prop) (ignored : Clone Content → Path → Prop)

/-- A named pattern matches the path, and the path is not an ignored one without an entry. -/
def Adds (paths : List String) (clone : Clone Content) (path : Path) : Prop :=
  (∃ named ∈ paths, pathspec named path) ∧ ¬ (clone.index.blob path = none ∧ ignored clone path)

/-- The path is added, or it makes room for a file that is added. -/
def Stages (paths : List String) (clone : Clone Content) (path : Path) : Prop :=
  Adds pathspec ignored paths clone path ∨ ∃ other, Adds pathspec ignored paths clone other ∧
    clone.worktree.blob other ≠ none ∧ (Above path other ∨ Above other path)

/-- What git documents about the commands of a repair. A pattern may match more than its own path,
and the names of changes leave out the source of a rename. -/
structure FaithfulGit (world : CloneWorld Content) (clone : Clone Content) : Prop where
  staged : ∀ paths worktree index, world.add paths { clone with worktree } = .ok index →
    ∀ path, Stages pathspec ignored paths { clone with worktree } path →
      index.blob path = worktree.blob path
  kept : ∀ paths worktree index, world.add paths { clone with worktree } = .ok index →
    ∀ path, ¬ Stages pathspec ignored paths { clone with worktree } path →
      index.blob path = clone.index.blob path
  linksRefused : ∀ paths worktree index, world.add paths { clone with worktree } = .ok index →
    ∀ path ∈ spots paths, worktree.linkAbove path = false
  archived : ∀ files, world.archive clone.head = .ok files →
    ∀ path, files.blob path = clone.head.blob path ∧ files.node path ≠ some .other
  -- A line without a backslash is a path that is not quoted.
  names : ∀ index worktree text, world.cachedNames ⟨clone.head, index, worktree⟩ = .ok text →
    ∀ line ∈ lines text.toList, line ≠ [] → '\x5c' ∉ line →
      index.blob (spot line) ≠ clone.head.blob (spot line)
  modes : ∀ index worktree text, world.cachedSummary ⟨clone.head, index, worktree⟩ = .ok text →
    ∀ path target content, clone.head.blob path = some (.link target) →
      index.blob path = some (.file content) →
        ∃ line ∈ lines text.toList, containsText "mode change".toList line = true

/-- No file outside of the paths that differs from the last commit is staged with them. -/
def OthersUntouched (clone : Clone Content) (paths : List String) : Prop :=
  ∀ path, path ∉ spots paths → clone.worktree.blob path ≠ clone.head.blob path →
    ¬ Stages pathspec ignored paths clone path

end Git

/-- The pushed tree is the validated snapshot. It differs from the expected head in exactly the
paths, and every command reported success. -/
structure Validated (head : Tree (List Char) Content) (paths : List String)
    (commands : List ValidationCommand) (publication : Publication Content) : Prop where
  snapshot : ∀ path, publication.tree.blob path = publication.snapshot.blob path
  changes : ∀ path, publication.tree.blob path ≠ head.blob path ↔ path ∈ spots paths
  commands : publication.validation.map CommandResult.argv = commands.map ValidationCommand.argv
  success : ∀ result ∈ publication.validation, result.success = true

/-! ### Steps -/

section Steps

variable {world : CloneWorld Content} {clone : Clone Content} {paths : List String}
  {branch expectedHeadSha : String} {commands : List ValidationCommand}
  {publication : Publication Content}

/-- The steps in front of a push. -/
theorem publish_ok (reached : publish world clone paths branch expectedHeadSha commands =
    .ok publication) : ∃ index, world.add paths clone = .ok index ∧ publication.tree = index ∧
      prepareValidationSnapshot world { clone with index } paths = .ok publication.snapshot ∧
      runValidationCommandsSandboxed world publication.snapshot commands =
        .ok publication.validation ∧
      (∀ result ∈ publication.validation, result.success = true) ∧
      ensureStagedPaths world { clone with index } paths = .ok () := by
  simp only [publish, bind_eq_ok] at reached
  obtain ⟨_, -, index, added, snapshot, copied, validation, ran, _, passed, _, ensured, reached⟩ := reached
  obtain ⟨_, -, _, -, _, -, _, -, _, -, reached⟩ := reached
  cases reached
  refine ⟨index, added, rfl, copied, ran, ?_, ensured⟩
  intro result member
  rw [ensureValidated] at passed
  split at passed
  · cases passed
  · rename_i none
    have good := List.find?_eq_none.mp none result member
    simpa using good

theorem runCommandsSandboxed_argv {files : Files (List Char) Content} {results : List CommandResult}
    (ran : runCommandsSandboxed world commands files = .ok results)
    (success : ∀ result ∈ results, result.success = true) :
    results.map CommandResult.argv = commands.map ValidationCommand.argv := by
  induction commands generalizing files results with
  | nil =>
      cases ran
      rfl
  | cons command rest ih =>
      simp only [runCommandsSandboxed, bind_eq_ok] at ran
      obtain ⟨⟨result, after⟩, -, ran⟩ := ran
      split at ran
      · simp only [bind_eq_ok, pure_eq_ok] at ran
        obtain ⟨others, later, rfl⟩ := ran
        rw [List.map_cons, List.map_cons, ih later fun other member =>
          success other (List.mem_cons_of_mem _ member)]
      · rename_i failed
        cases ran
        exact absurd (success _ (List.mem_singleton_self _)) failed

theorem validateWorkspacePaths_ok : validateWorkspacePaths paths = .ok () ↔
    ∀ path ∈ paths, validateWorkspaceRelativePath path = .ok () := by
  induction paths with
  | nil => simp [validateWorkspacePaths]
  | cons path rest ih =>
      simp only [validateWorkspacePaths, bind_eq_ok, List.forall_mem_cons, ih]
      constructor
      · rintro ⟨_, both⟩
        exact both
      · intro both
        exact ⟨(), both⟩

/-- Every expected path is valid and one of the printed lines. -/
theorem validateStagedPaths_ok {observed : String}
    (valid : validateStagedPaths paths observed = .ok ()) : ∀ path ∈ paths,
      validateWorkspaceRelativePath path = .ok () ∧ path.toList ∈ lines observed.toList := by
  simp only [validateStagedPaths, bind_eq_ok, ensure_eq_ok] at valid
  obtain ⟨_, relative, expected, -⟩ := valid
  intro path member
  refine ⟨validateWorkspacePaths_ok.mp relative path member, ?_⟩
  obtain ⟨line, printed, rfl⟩ := List.mem_map.mp (expected member)
  rw [String.toList_ofList]
  exact List.mem_of_mem_filter printed

/-- A summary that passes reports no change of a mode. -/
theorem validateStagedDiffSummary_ok {summary : String}
    (valid : validateStagedDiffSummary summary = .ok ()) :
    ∀ line ∈ lines summary.toList, containsText "mode change".toList line = false := by
  simp only [validateStagedDiffSummary] at valid
  split at valid
  · cases valid
  · rename_i unchanged
    intro line member
    rw [Bool.not_eq_true, List.any_eq_false] at unchanged
    have lowered := unchanged (asciiLowercase line) (by
      rw [lines_lowercase]
      exact List.mem_map_of_mem member)
    cases found : containsText "mode change".toList line with
    | false => rfl
    | true =>
        have occurs : asciiLowercase "mode change".toList <:+: asciiLowercase line :=
          (containsText_iff.mp found).map Char.toLower
        have same : asciiLowercase "mode change".toList = "mode change".toList := by decide
        rw [same] at occurs
        rw [containsText_iff.mpr occurs, Bool.true_or, Bool.true_or] at lowered
        exact absurd rfl lowered

/-! ### The snapshot -/

/-- Each path is a file or missing when its copy succeeds. -/
theorem copyChangedPath_plain {source files after : Files (List Char) Content} {path : String}
    (copied : copyChangedPath world source files path = .ok after)
    (noLink : source.linkAbove (spot path.toList) = false) :
    (∃ content, source.node (spot path.toList) = some (.blob (.file content)) ∧
        copyFile world files (spot path.toList) content = .ok after) ∨
      (source.node (spot path.toList) = none ∧ removeFile world files (spot path.toList) = .ok after) := by
  simp only [copyChangedPath, bind_eq_ok] at copied
  obtain ⟨_, -, copied⟩ := copied
  rw [symlinkMetadata] at copied
  cases found : source.node (spot path.toList) with
  | none =>
      rw [found, noLink] at copied
      right
      refine ⟨rfl, ?_⟩
      cases blocked : source.blocked (spot path.toList) with
      | true => simp [blocked] at copied
      | false => simpa [blocked] using copied
  | some node =>
      rw [found] at copied
      cases node with
      | directory => cases copied
      | other => cases copied
      | blob blob =>
          cases blob with
          | link target => cases copied
          | file content => exact .inl ⟨content, rfl, copied⟩

/-- The paths that are done are as in the working tree, and the others as in the last commit. -/
structure Copied (head : Tree (List Char) Content) (source : Files (List Char) Content)
    (done : List Path) (files : Files (List Char) Content) : Prop where
  blob : ∀ path, files.blob path = if path ∈ done then source.blob path else head.blob path
  regular : ∀ path, files.node path ≠ some .other

/-- What the last commit has at a path gives way to what the working tree has there. -/
structure Copyable (head : Tree (List Char) Content) (source : Files (List Char) Content)
    (path : Path) : Prop where
  noLink : source.linkAbove path = false
  cleared : source.blob path ≠ none → ∀ first, Above first path → head.blob first = none
  removed : source.blob path = none → head.blob path ≠ none
  sameKind : ∀ target content, head.blob path = some (.link target) →
    source.blob path ≠ some (.file content)

variable {head : Tree (List Char) Content} {source files after : Files (List Char) Content}
  {done : List Path}

/-- No link of the snapshot stands on the way to a path that is copied. -/
theorem Copied.noLink {path : Path} (copied : Copied head source done files)
    (copyable : Copyable head source path) : files.linkAbove path = false := by
  rw [Bool.eq_false_iff, Ne, Files.linkAbove_iff]
  rintro ⟨first, target, above, linked⟩
  have recorded : files.blob first = some (.link target) := Files.blob_eq_some.mpr linked
  rw [copied.blob] at recorded
  split at recorded
  · have link : source.linkAbove path = true :=
      Files.linkAbove_iff.mpr ⟨first, target, above, Files.blob_eq_some.mp recorded⟩
    rw [copyable.noLink] at link
    cases link
  · have free : head.blob first = none := by
      by_cases occupied : source.blob path = none
      · exact head.apart first path above (copyable.removed occupied)
      · exact copyable.cleared occupied first above
    rw [free] at recorded
    cases recorded

theorem Copied.step {path : String} (copied : Copied head source done files)
    (copyable : Copyable head source (spot path.toList))
    (ran : copyChangedPath world source files path = .ok after) :
    Copied head source (spot path.toList :: done) after := by
  have noLink := copied.noLink copyable
  rcases copyChangedPath_plain ran copyable.noLink with ⟨content, found, ran⟩ | ⟨missing, ran⟩
  · have present : source.blob (spot path.toList) = some (.file content) :=
      Files.blob_eq_some.mpr found
    rw [copyFile, noLink] at ran
    split at ran
    · contradiction
    · split at ran
      · cases ran
      · rename_i free
        rw [Bool.not_eq_true] at free
        split at ran
        · rename_i target linked
          -- A link would have stood at the path in the last commit.
          have recorded : files.blob (spot path.toList) = some (.link target) :=
            Files.blob_eq_some.mpr linked
          rw [copied.blob] at recorded
          split at recorded
          · rw [present] at recorded
            cases recorded
          · exact absurd present (copyable.sameKind target content recorded)
        · rename_i other
          exact absurd other (copied.regular _)
        · split at ran
          · rename_i notDirectory
            cases ran
            constructor
            · intro other
              rw [Files.blob_write notDirectory free, copied.blob]
              by_cases same : other = spot path.toList
              · rw [if_pos same, same, if_pos (List.mem_cons_self ..), present]
              · rw [if_neg same]
                simp [same]
            · intro other
              rw [Files.write]
              dsimp only
              split
              · simp
              · split
                · simp
                · exact copied.regular other
          · cases ran
  · have absent : source.blob (spot path.toList) = none := by
      rw [Files.blob, missing]
      rfl
    rw [removeFile, noLink] at ran
    split at ran
    · contradiction
    · split at ran
      · cases ran
      · split at ran
        · rename_i notDirectory
          cases ran
          constructor
          · intro other
            rw [Files.blob_remove, copied.blob]
            by_cases same : other = spot path.toList
            · rw [if_pos same, same, if_pos (List.mem_cons_self ..), absent]
            · rw [if_neg same]
              simp [same]
          · intro other
            rw [Files.remove]
            dsimp only
            split
            · simp
            · exact copied.regular other
        · cases ran

/-- The copies of all paths. -/
theorem Copied.run (copied : Copied head source done files)
    (copyable : ∀ path ∈ spots paths, Copyable head source path)
    (ran : paths.foldlM (copyChangedPath world source) files = .ok after) :
    Copied head source ((spots paths).reverse ++ done) after := by
  induction paths generalizing files done with
  | nil =>
      cases ran
      exact copied
  | cons path rest ih =>
      rw [List.foldlM_cons, bind_eq_ok] at ran
      obtain ⟨next, first, later⟩ := ran
      rw [spots, List.map_cons, List.forall_mem_cons] at copyable
      have reached := ih (copied.step copyable.1 first) copyable.2 later
      rw [spots, List.map_cons, List.reverse_cons, List.append_assoc]
      exact reached

theorem copies_plain (noLink : ∀ path ∈ spots paths, source.linkAbove path = false)
    (ran : paths.foldlM (copyChangedPath world source) files = .ok after) :
    ∀ path ∈ spots paths, source.node path ≠ some .directory := by
  induction paths generalizing files with
  | nil => simp [spots]
  | cons path rest ih =>
      rw [List.foldlM_cons, bind_eq_ok] at ran
      obtain ⟨next, first, later⟩ := ran
      rw [spots, List.map_cons, List.forall_mem_cons] at noLink ⊢
      refine ⟨?_, ih noLink.2 later⟩
      rcases copyChangedPath_plain first noLink.1 with ⟨content, found, -⟩ | ⟨missing, -⟩
      · rw [found]
        simp
      · rw [missing]
        simp

/-! ### What is staged -/

section Staged

variable {pathspec : String → Path → Prop} {ignored : Clone Content → Path → Prop}
  {worktree : Files (List Char) Content} {index : Tree (List Char) Content}

/-- A valid path has a name and no backslash. -/
theorem validateWorkspaceRelativePath_plain {path : String}
    (valid : validateWorkspaceRelativePath path = .ok ()) :
    path.toList ≠ [] ∧ '\x5c' ∉ path.toList := by
  have named := validateRepositoryPath_iff.mp (validateWorkspaceRelativePath_iff.mp valid)
  have visible : path.toList ≠ [] := by
    rw [toList_ne_nil]
    rintro rfl
    exact absurd valid (by decide)
  exact ⟨visible, named.2.1⟩

/-- Every expected path that passes the check is changed in the index. -/
theorem ensureStagedPaths_changed (faithful : FaithfulGit pathspec ignored world clone)
    (ensured : ensureStagedPaths world ⟨clone.head, index, worktree⟩ paths = .ok ()) :
    ∀ path ∈ spots paths, index.blob path ≠ clone.head.blob path := by
  simp only [ensureStagedPaths, bind_eq_ok] at ensured
  obtain ⟨text, listed, _, valid, -⟩ := ensured
  intro path member
  obtain ⟨name, inside, rfl⟩ := List.mem_map.mp member
  obtain ⟨relative, printed⟩ := validateStagedPaths_ok valid name inside
  obtain ⟨visible, plain⟩ := validateWorkspaceRelativePath_plain relative
  exact faithful.names index worktree text listed name.toList printed visible plain

/-- No link gives way to a file. -/
theorem ensureStagedPaths_sameKind (faithful : FaithfulGit pathspec ignored world clone)
    (ensured : ensureStagedPaths world ⟨clone.head, index, worktree⟩ paths = .ok ()) {path : Path}
    {target content : Content} (linked : clone.head.blob path = some (.link target)) :
    index.blob path ≠ some (.file content) := by
  intro file
  simp only [ensureStagedPaths, bind_eq_ok] at ensured
  obtain ⟨_, -, _, -, text, summary, _, valid, -⟩ := ensured
  obtain ⟨line, printed, reported⟩ :=
    faithful.modes index worktree text summary path target content linked file
  rw [validateStagedDiffSummary_ok valid line printed] at reported
  cases reported

/-- The index has the paths as in the working tree and all else as in the last commit. -/
theorem index_blob (faithful : FaithfulGit pathspec ignored world clone) (fresh : Fresh clone)
    (added : world.add paths { clone with worktree } = .ok index)
    (changed : ∀ path ∈ spots paths, index.blob path ≠ clone.head.blob path)
    (untouched : OthersUntouched pathspec ignored { clone with worktree } paths) (path : Path) :
    index.blob path = if path ∈ spots paths then worktree.blob path else clone.head.blob path := by
  by_cases stages : Stages pathspec ignored paths { clone with worktree } path
  · rw [faithful.staged paths worktree index added path stages]
    by_cases admitted : path ∈ spots paths
    · rw [if_pos admitted]
    · rw [if_neg admitted]
      by_contra other
      exact untouched path admitted other stages
  · have kept := (faithful.kept paths worktree index added path stages).trans (fresh.index path)
    rw [kept, if_neg]
    exact fun admitted => changed path admitted kept

/-- An admitted path can be copied into the last commit. -/
theorem copyable_of_index (faithful : FaithfulGit pathspec ignored world clone)
    (added : world.add paths { clone with worktree } = .ok index)
    (ensured : ensureStagedPaths world ⟨clone.head, index, worktree⟩ paths = .ok ())
    (plain : ∀ path ∈ spots paths, worktree.node path ≠ some .directory)
    (recorded : ∀ path, index.blob path =
      if path ∈ spots paths then worktree.blob path else clone.head.blob path)
    {path : Path} (admitted : path ∈ spots paths) : Copyable clone.head worktree path := by
  have here : index.blob path = worktree.blob path := by rw [recorded, if_pos admitted]
  have changed := ensureStagedPaths_changed faithful ensured path admitted
  constructor
  · exact faithful.linksRefused paths worktree index added path admitted
  · intro present first above
    have directory : worktree.node first = some .directory := by
      obtain ⟨blob, found⟩ := Option.ne_none_iff_exists'.mp present
      exact worktree.blob_above above found
    have free : index.blob first = none := index.apart first path above (by rwa [here])
    rw [recorded, if_neg fun inside => plain first inside directory] at free
    exact free
  · intro absent
    rw [here, absent] at changed
    exact changed.symm
  · intro target content linked file
    exact ensureStagedPaths_sameKind faithful ensured linked (here.trans file)

/-- The pushed tree is the validated one exactly when nothing else is staged. -/
theorem publish_validated (faithful : FaithfulGit pathspec ignored world clone) (fresh : Fresh clone)
    (reached : publish world { clone with worktree } paths branch expectedHeadSha commands =
      .ok publication) :
    Validated clone.head paths commands publication ↔
      OthersUntouched pathspec ignored { clone with worktree } paths := by
  obtain ⟨index, added, same, copied, ran, success, ensured⟩ := publish_ok reached
  constructor
  · intro validated path other moved stages
    have recorded := faithful.staged paths worktree index added path stages
    have differs : publication.tree.blob path ≠ clone.head.blob path := by
      rw [same, recorded]
      exact moved
    exact other ((validated.changes path).mp differs)
  · intro untouched
    have changed := ensureStagedPaths_changed faithful ensured
    have recorded := index_blob faithful fresh added changed untouched
    simp only [prepareValidationSnapshot, bind_eq_ok] at copied
    obtain ⟨files, archived, copied⟩ := copied
    have plain := copies_plain (faithful.linksRefused paths worktree index added) copied
    have start : Copied clone.head worktree [] files :=
      ⟨fun path => (faithful.archived files archived path).1,
        fun path => (faithful.archived files archived path).2⟩
    have finish := start.run (fun path admitted =>
      copyable_of_index faithful added ensured plain recorded admitted) copied
    constructor
    · intro path
      rw [same, recorded, finish.blob]
      simp
    · intro path
      rw [same]
      constructor
      · intro differs
        by_contra other
        rw [recorded, if_neg other] at differs
        exact differs rfl
      · exact changed path
    · rw [runValidationCommandsSandboxed] at ran
      split at ran
      · cases ran
      · exact runCommandsSandboxed_argv ran success
    · exact success

/-! ### Repairs -/

/-- A written repair changes its own path. -/
theorem writeRepair_blob {prepared : Feedback.PreparedRepair} {written : Files (List Char) Content}
    (wrote : writeRepair world files prepared = .ok written) {other : Path}
    (elsewhere : other ≠ spot prepared.path) : written.blob other = files.blob other := by
  simp only [writeRepair, bind_eq_ok, pure_eq_ok] at wrote
  obtain ⟨target, checked, _, -, _, -, result, wrote, _, -, _, -, rfl⟩ := wrote
  obtain ⟨-, rfl, -, text, found⟩ := Feedback.checkedTarget_ok checked
  have file : files.isFile (spot prepared.path) = true := by
    rw [repository, Option.map_eq_some_iff] at found
    obtain ⟨node, known, same⟩ := found
    cases node with
    | directory => cases same
    | other => cases same
    | blob blob =>
        cases blob with
        | link target => cases same
        | file content => exact Files.isFile_iff.mpr ⟨content, known⟩
  split at wrote
  · cases wrote
    have kept := @Files.node_write_file _ _ _ files _ (world.encode prepared.repaired) file other
    rw [if_neg elsewhere] at kept
    exact congrArg (fun node => node.bind Node.blob?) kept
  · cases wrote

theorem repairFeedback_blob {actorAllowlist : List String} {feedback : Feedback} {path : List Char}
    (repaired : repairFeedback world files actorAllowlist feedback = .ok (worktree, path)) {other : Path}
    (elsewhere : other ≠ spot path) : worktree.blob other = files.blob other := by
  rw [repairFeedback] at repaired
  split at repaired
  · cases repaired
  · split at repaired
    · cases repaired
    · split at repaired
      · cases repaired
      · split at repaired
        · cases repaired
        · rename_i written
          cases repaired
          exact writeRepair_blob written elsewhere

end Staged

end Steps

/-! ### A name that is a pattern -/

def listText : List Char := "one\ntwo\nthree\nfour\n".toList

/-- A clone whose only file is matched by the pattern of another name. -/
def pageClone : Clone (List Char) where
  head := (Files.single "i".toList listText).tree
  index := (Files.single "i".toList listText).tree
  worktree := Files.single "i".toList listText

/-- A rename stands in front of the headers of the one path. -/
def renamePatch : CiPatch where
  path := "[id]"
  unifiedDiff := "diff --git a/i b/[id]\nsimilarity index 100%\nrename from i\nrename to [id]\n" ++
    "diff --git a/[id] b/[id]\n--- a/[id]\n+++ b/[id]\n" ++
    "@@ -1,4 +1,4 @@\n one\n two\n three\n-four\n+five\n"

/-- The paths that the name matches as a pattern, and the name itself. -/
def idMatches : List Path := [["i".toList], ["d".toList], ["[id]".toList]]

def idPathspec (named : String) (path : Path) : Prop := named = "[id]" ∧ path ∈ idMatches

def noneIgnored (_ : Clone (List Char)) (_ : Path) : Prop := False

/-- What the working tree has at the matched paths. -/
def idIndex (worktree : Files (List Char) (List Char)) : Tree (List Char) (List Char) where
  blob path := if path ∈ idMatches then worktree.blob path else none
  apart := by
    intro first second above occupied
    split at occupied
    · split
      · exact worktree.tree.apart first second above occupied
      · rfl
    · exact absurd rfl occupied

/-- Git as it answers for the renamed file. -/
def renameWorld : CloneWorld (List Char) where
  decode := some
  encode := id
  ioReason := ""
  lease _ := .ok ()
  status _ := .ok ""
  checkPatch _ _ := .ok (.ok ())
  applyPatch _ _ := .ok (.ok (Files.single "[id]".toList "one\ntwo\nthree\nfive\n".toList))
  add paths clone := if paths = ["[id]"] then .ok (idIndex clone.worktree)
    else .error (.commandFailed ["git", "add", "--"] "did not match any files")
  archive _ := .ok pageClone.worktree
  probeLinked _ _ := .missing
  copyLinked files _ _ := .ok files
  removeLinked files _ := .ok files
  runSandboxed argv files := .ok (⟨argv, true, "", ""⟩, files)
  cachedNames clone := .ok (if clone.index.blob ["[id]".toList] = none then "" else "[id]\n")
  cachedSummary _ := .ok " rename i => [id] (73%)\n"
  changedNames _ := .ok ""
  untrackedNames _ := .ok ""
  remoteHead _ := .ok ⟨[], true, "0123456 refs/heads/fix", ""⟩
  commit _ := .ok ()
  push _ := .ok ()
  revParse := .ok "89abcdef"

theorem renameWorld_add {paths : List String} {clone : Clone (List Char)}
    {index : Tree (List Char) (List Char)} (added : renameWorld.add paths clone = .ok index) :
    paths = ["[id]"] ∧ index = idIndex clone.worktree := by
  simp only [renameWorld] at added
  split at added
  · rename_i named
    cases added
    exact ⟨named, rfl⟩
  · cases added

theorem pageClone_blob (path : Path) :
    pageClone.head.blob path = if path = ["i".toList] then some (.file listText) else none :=
  Files.blob_single _ _ path

theorem renameWorld_faithful : FaithfulGit idPathspec noneIgnored renameWorld pageClone where
  staged := by
    intro paths worktree index added path stages
    obtain ⟨rfl, rfl⟩ := renameWorld_add added
    by_cases matched : path ∈ idMatches
    · exact if_pos matched
    · have other : (idIndex worktree).blob path = none := if_neg matched
      dsimp only
      rw [other]
      rcases stages with ⟨⟨named, -, -, inside⟩, -⟩ | ⟨second, -, occupied, above | above⟩
      · exact absurd inside matched
      · exact (worktree.tree.apart path second above occupied).symm
      · by_contra present
        exact occupied (worktree.tree.apart second path above (Ne.symm present))
  kept := by
    intro paths worktree index added path unstaged
    obtain ⟨rfl, rfl⟩ := renameWorld_add added
    have other : path ∉ idMatches := by
      intro matched
      exact unstaged (.inl ⟨⟨"[id]", by simp, rfl, matched⟩, fun hidden => hidden.2⟩)
    have away : path ≠ ["i".toList] := by
      rintro rfl
      exact other (by decide)
    have kept : pageClone.index.blob path = none := (pageClone_blob path).trans (if_neg away)
    rw [kept]
    exact if_neg other
  linksRefused := by
    intro paths worktree index added path member
    obtain ⟨rfl, -⟩ := renameWorld_add added
    have only : path = ["[id]".toList] := by
      have named : spots ["[id]"] = [["[id]".toList]] := by decide
      rwa [named, List.mem_singleton] at member
    rw [only, Bool.eq_false_iff, Ne, Files.linkAbove_iff]
    rintro ⟨first, target, ⟨starts, shorter⟩, linked⟩
    have root : first = [] := by
      obtain empty | ⟨rest, same, short⟩ := List.prefix_cons_iff.mp starts
      · exact empty
      · rw [List.prefix_nil.mp short] at same
        exact absurd same shorter
    rw [root, worktree.root] at linked
    cases linked
  archived := by
    intro files archived path
    cases archived
    refine ⟨rfl, ?_⟩
    rw [pageClone, Files.single]
    dsimp only
    split
    · simp
    · split <;> simp
  names := by
    intro index worktree text listed line printed _ _
    cases listed
    have absent : pageClone.head.blob ["[id]".toList] = none := by
      rw [pageClone_blob]
      decide
    dsimp only at printed
    split at printed
    · have none' : lines "".toList = [] := by decide
      rw [none'] at printed
      cases printed
    · rename_i changed
      have only : lines "[id]\n".toList = ["[id]".toList] := by decide
      rw [only, List.mem_singleton] at printed
      have place : spot line = ["[id]".toList] := by
        rw [printed]
        decide
      rw [place, absent]
      exact changed
  modes := by
    intro index worktree text summary path target content linked
    rw [pageClone_blob] at linked
    split at linked <;> cases linked

theorem pageClone_fresh : Fresh pageClone := ⟨fun _ => rfl, fun _ => rfl⟩

theorem rename_reaches_push : ∃ publication, ciPublication renameWorld pageClone [renamePatch] ["[id]"]
    "fix" "0123456" [.gitDiffCheck] = .ok publication := by
  have reached : (ciPublication renameWorld pageClone [renamePatch] ["[id]"] "fix" "0123456"
      [.gitDiffCheck]).isOk = true := by decide +kernel
  cases published : ciPublication renameWorld pageClone [renamePatch] ["[id]"] "fix" "0123456"
      [.gitDiffCheck] with
  | error error =>
      rw [published] at reached
      cases reached
  | ok publication => exact ⟨publication, rfl⟩

end PiTools.Workspace
