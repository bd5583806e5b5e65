import PiTools.Feedback.Suggestion
import PiTools.Library.FileTree
import PiTools.Worker.RepairPaths

/-
This file defines how the workspace applies a repair to a clone, validates it in
a copy, and commits it up to the push.
-/

namespace PiTools.Workspace

open Library
open Stack (CommandResult ValidationCommand WorkspaceError)

/-! ### The clone -/

abbrev Path := List (List Char)

/-- The place of a path below the root of a repository. -/
def spot (path : List Char) : Path := (components path).map PathComponent.text

/-- The last commit, the index, and the checked out files. -/
structure Clone (Content : Type) where
  head : Tree (List Char) Content
  index : Tree (List Char) Content
  worktree : Files (List Char) Content

/-- What the metadata of a path tells. -/
inductive Probe (Content : Type)
  | missing
  | file (content : Content)
  | link
  | irregular
  | failed (reason : String)

/-- The moments at which the lease is checked. A patch is counted from the first one. -/
inductive LeaseCheck
  | beforeCheck (patch : Nat)
  | afterCheck (patch : Nat)
  | beforeApply (patch : Nat)
  | afterApply (patch : Nat)
  | beforeRepair
  | beforeAdd
  | afterValidation
  | beforeCommit
  | beforePush

/-- The answers of git, of the file system behind links, of the sandbox, and of everyone else. -/
structure CloneWorld (Content : Type) where
  decode : Content → Option (List Char)
  encode : List Char → Content
  ioReason : String
  lease : LeaseCheck → Except WorkspaceError Unit
  status : Clone Content → Except WorkspaceError String
  -- A command that ran may fail with its error output.
  checkPatch : String → Files (List Char) Content → Except WorkspaceError (Except String Unit)
  applyPatch : String → Files (List Char) Content →
    Except WorkspaceError (Except String (Files (List Char) Content))
  add : List String → Clone Content → Except WorkspaceError (Tree (List Char) Content)
  archive : Tree (List Char) Content → Except WorkspaceError (Files (List Char) Content)
  probeLinked : Files (List Char) Content → Path → Probe Content
  copyLinked : Files (List Char) Content → Path → Content →
    Except WorkspaceError (Files (List Char) Content)
  removeLinked : Files (List Char) Content → Path → Except WorkspaceError (Files (List Char) Content)
  runSandboxed : List String → Files (List Char) Content →
    Except WorkspaceError (CommandResult × Files (List Char) Content)
  cachedNames : Clone Content → Except WorkspaceError String
  cachedSummary : Clone Content → Except WorkspaceError String
  changedNames : Clone Content → Except WorkspaceError String
  untrackedNames : Clone Content → Except WorkspaceError String
  remoteHead : String → Except WorkspaceError CommandResult
  commit : Clone Content → Except WorkspaceError Unit
  push : Tree (List Char) Content → Except WorkspaceError Unit
  revParse : Except WorkspaceError String

/-! ### Checks on staged paths -/

def sortedSet (texts : List String) : List String := texts.dedup.insertionSort fun first second => ¬ second < first

def validateWorkspacePaths : List String → Except WorkspaceError Unit
  | [] => .ok ()
  | path :: rest => do
      validateWorkspaceRelativePath path
      validateWorkspacePaths rest

def validateStagedPaths (expected : List String) (observed : String) : Except WorkspaceError Unit := do
  validateWorkspacePaths expected
  let observed := ((lines observed.toList).filter fun path => path ≠ []).map String.ofList
  ensure (expected ⊆ observed ∧ observed ⊆ expected)
    (.unexpectedStagedPaths (sortedSet expected) (sortedSet observed))

def validateStagedDiffSummary (summary : String) : Except WorkspaceError Unit :=
  let normalized := asciiLowercase summary.toList
  if (lines normalized).any fun line => containsText "mode change".toList line ||
      "rename ".toList.isPrefixOf line || "copy ".toList.isPrefixOf line then
    .error (.unexpectedWorkspaceChanges (String.ofList (trim summary.toList)))
  else .ok ()

/-! ### Steps -/

section Steps

variable {Content : Type} (world : CloneWorld Content)

def ensureClean (clone : Clone Content) : Except WorkspaceError Unit := do
  let status ← world.status clone
  ensure (blank status.toList = true) .dirtyWorkspace

/-- The lease is checked before the success of the command. -/
def runPatchCommand {Answer : Type} (argv : List String) (check : LeaseCheck)
    (outcome : Except WorkspaceError (Except String Answer)) : Except WorkspaceError Answer := do
  let result ← outcome
  world.lease check
  match result with
  | .ok answer => .ok answer
  | .error stderr => .error (.commandFailed argv stderr)

/-- Each patch is checked and then applied. -/
def applyPatches : Nat → List CiPatch → Files (List Char) Content →
    Except WorkspaceError (Files (List Char) Content)
  | _, [], files => .ok files
  | number, patch :: rest, files => do
      world.lease (.beforeCheck number)
      runPatchCommand world ["git", "apply", "--check", "--whitespace=error", "--recount", "-"]
        (.afterCheck number) (world.checkPatch patch.unifiedDiff files)
      world.lease (.beforeApply number)
      let files ← runPatchCommand world ["git", "apply", "--whitespace=error", "--recount", "-"]
        (.afterApply number) (world.applyPatch patch.unifiedDiff files)
      applyPatches (number + 1) rest files

def symlinkMetadata (files : Files (List Char) Content) (path : Path) : Probe Content :=
  match files.node path with
  | some (.blob (.file content)) => .file content
  | some (.blob (.link _)) => .link
  | some .directory | some .other => .irregular
  | none =>
      if files.linkAbove path then world.probeLinked files path
      else if files.blocked path then .failed "not a directory"
      else .missing

/-- The directories that lead to the path are made, and the file is written. -/
def copyFile (destination : Files (List Char) Content) (path : Path) (content : Content) :
    Except WorkspaceError (Files (List Char) Content) :=
  if destination.linkAbove path then world.copyLinked destination path content
  else if destination.blocked path then .error (.io "not a directory")
  else
    match destination.node path with
    | some (.blob (.link _)) | some .other => world.copyLinked destination path content
    | _ =>
        if notDirectory : destination.node path ≠ some .directory then
          .ok (destination.write path content notDirectory)
        else .error (.io "is a directory")

/-- A file that is missing already is removed. -/
def removeFile (destination : Files (List Char) Content) (path : Path) :
    Except WorkspaceError (Files (List Char) Content) :=
  if destination.linkAbove path then world.removeLinked destination path
  else if destination.blocked path then .error (.io "not a directory")
  else if notDirectory : destination.node path ≠ some .directory then
    .ok (destination.remove path notDirectory)
  else .error (.io "is a directory")

def copyChangedPath (source destination : Files (List Char) Content) (path : String) :
    Except WorkspaceError (Files (List Char) Content) := do
  validateWorkspaceRelativePath path
  match symlinkMetadata world source (spot path.toList) with
  | .link => .error (.invalidInput ("symlink repair path is not supported: " ++ path))
  | .file content => copyFile world destination (spot path.toList) content
  | .irregular => .error (.invalidInput ("repair path is not a regular file: " ++ path))
  | .missing => removeFile world destination (spot path.toList)
  | .failed reason => .error (.io reason)

/-- The snapshot is the last commit with the changed paths of the working tree. -/
def prepareValidationSnapshot (clone : Clone Content) (changedPaths : List String) :
    Except WorkspaceError (Files (List Char) Content) := do
  let files ← world.archive clone.head
  changedPaths.foldlM (copyChangedPath world clone.worktree) files

/-- The commands run one after another in the same copy, up to the first that fails. -/
def runCommandsSandboxed : List ValidationCommand → Files (List Char) Content →
    Except WorkspaceError (List CommandResult)
  | [], _ => .ok []
  | command :: rest, files => do
      let (result, files) ← world.runSandboxed command.argv files
      let result := { result with argv := command.argv }
      if result.success then
        let results ← runCommandsSandboxed rest files
        pure (result :: results)
      else pure [result]

def runValidationCommandsSandboxed (files : Files (List Char) Content)
    (commands : List ValidationCommand) : Except WorkspaceError (List CommandResult) :=
  if commands = [] then .error (.command "no validation commands were configured")
  else runCommandsSandboxed world commands files

def ensureStagedPaths (clone : Clone Content) (expected : List String) :
    Except WorkspaceError Unit := do
  let staged ← world.cachedNames clone
  validateStagedPaths expected staged
  let summary ← world.cachedSummary clone
  validateStagedDiffSummary summary
  let unstaged ← world.changedNames clone
  ensure (blank unstaged.toList = true)
    (.unexpectedWorkspaceChanges (String.ofList (trim unstaged.toList)))
  let untracked ← world.untrackedNames clone
  ensure (blank untracked.toList = true)
    (.unexpectedWorkspaceChanges (String.ofList (trim untracked.toList)))

def ensureRemoteHead (branch expectedHeadSha : String) : Except WorkspaceError Unit := do
  Stack.validateSha expectedHeadSha
  Stack.validateBranch branch
  let result ← world.remoteHead branch
  ensure (result.success = true) (.commandFailed (Stack.remoteHeadArgv branch) result.stderr)
  let observed := String.ofList ((splitWhitespace result.stdout.toList).headD [])
  ensure (observed = expectedHeadSha) (.remoteHeadChanged branch expectedHeadSha
    (if observed = "" then "missing" else observed))

/-! ### Repairs -/

/-- What is pushed, and on what and how it was validated. -/
structure Publication (Content : Type) where
  tree : Tree (List Char) Content
  snapshot : Files (List Char) Content
  validation : List CommandResult

def ensureValidated (validation : List CommandResult) : Except WorkspaceError Unit :=
  match validation.find? fun result => !result.success with
  | some failed => .error (.validationFailed failed.argv failed.stderr)
  | none => .ok ()

/-- The changed paths are staged, validated and committed. Both repairs end like this. -/
def publish (clone : Clone Content) (paths : List String) (branch expectedHeadSha : String)
    (validationCommands : List ValidationCommand) : Except WorkspaceError (Publication Content) := do
  world.lease .beforeAdd
  let index ← world.add paths clone
  let staged := { clone with index }
  let snapshot ← prepareValidationSnapshot world staged paths
  let validation ← runValidationCommandsSandboxed world snapshot validationCommands
  ensureValidated validation
  ensureStagedPaths world staged paths
  world.lease .afterValidation
  world.lease .beforeCommit
  ensureRemoteHead world branch expectedHeadSha
  world.commit staged
  world.lease .beforePush
  pure ⟨index, snapshot, validation⟩

def ensureAdmitted (patches : List CiPatch) (allowedPaths : List String) :
    Except WorkspaceError Unit :=
  match validatePatchSet patches allowedPaths with
  | .error error => .error (.ciPatch error.text)
  | .ok () => .ok ()

/-- A CI repair up to its push. -/
def ciPublication (clone : Clone Content) (patches : List CiPatch) (allowedPaths : List String)
    (branch expectedHeadSha : String) (validationCommands : List ValidationCommand) :
    Except WorkspaceError (Publication Content) := do
  ensureAdmitted patches allowedPaths
  ensureClean world clone
  let worktree ← applyPatches world 0 patches clone.worktree
  publish world { clone with worktree } (patches.map CiPatch.path) branch expectedHeadSha
    validationCommands

structure CiRepairCommit where
  commit : String
  paths : List String
  deriving DecidableEq, Repr

def applyCiRepair (clone : Clone Content) (patches : List CiPatch) (allowedPaths : List String)
    (branch expectedHeadSha : String) (validationCommands : List ValidationCommand) :
    Except WorkspaceError CiRepairCommit := do
  let publication ← ciPublication world clone patches allowedPaths branch expectedHeadSha
    validationCommands
  world.push publication.tree
  let commit ← world.revParse
  pure ⟨String.ofList (trim commit.toList), patches.map CiPatch.path⟩

/-- The files as the repair of a feedback sees them. -/
def repository (files : Files (List Char) Content) : Feedback.Repository := fun path =>
  (files.node path).map fun node =>
    match node with
    | .blob (.file content) => .file (world.decode content)
    | .blob (.link _) => .symlink
    | .directory => .directory
    | .other => .other

def feedbackErrorText : Feedback.FeedbackError → String
  | .malformedSuggestion reason => "suggested change is malformed: " ++ reason
  | .malformedPatch reason => "unified patch is malformed: " ++ reason
  | .invalidPath path => "patch path is invalid: " ++ String.ofList path
  | .stalePatch reason => "patch does not apply exactly: " ++ reason
  | .io => "repository I/O failed: " ++ world.ioReason

/-- The prepared repair is written when its target is still the same. Nothing but an applied repair
goes on. -/
def writeRepair (files : Files (List Char) Content) (prepared : Feedback.PreparedRepair) :
    Except Feedback.FeedbackError (Files (List Char) Content) := do
  let target ← Feedback.checkedTarget (repository world files) prepared.path
  let current ← Feedback.readToString (repository world files) target
  ensure (current = prepared.original) (.stalePatch "target changed after validation")
  let written ← (if notDirectory : files.node target ≠ some .directory then
      .ok (files.write target (world.encode prepared.repaired) notDirectory)
    else .error .io)
  let readback ← Feedback.readToString (repository world written) target
  ensure (readback = prepared.repaired)
    (.stalePatch "target readback differs from the validated repair")
  pure written

def repairFeedback (files : Files (List Char) Content) (automationActorAllowlist : List String)
    (feedback : Feedback) : Except WorkspaceError (Files (List Char) Content × List Char) :=
  if feedback.isAutomation = false ∨ feedback.actorType ≠ "Bot" then .error .repairNotApplied
  else if feedback.actorLogin ∉ automationActorAllowlist then .error .repairNotApplied
  else
    match Feedback.prepareRepair (repository world files) feedback with
    | .error error => .error (.feedback error (feedbackErrorText world error))
    | .ok prepared =>
        match writeRepair world files prepared with
        | .error error => .error (.feedback error (feedbackErrorText world error))
        | .ok written => .ok (written, prepared.path)

/-- A feedback repair up to its push. -/
def feedbackPublication (clone : Clone Content) (actorAllowlist : List String) (feedback : Feedback)
    (branch expectedHeadSha : String) (validationCommands : List ValidationCommand) :
    Except WorkspaceError (List Char × Publication Content) := do
  ensureClean world clone
  world.lease .beforeRepair
  let (worktree, path) ← repairFeedback world clone.worktree actorAllowlist feedback
  let publication ← publish world { clone with worktree } [String.ofList path] branch
    expectedHeadSha validationCommands
  pure (path, publication)

structure RepairCommit where
  commit : String
  path : List Char
  deriving DecidableEq, Repr

def applyFeedback (clone : Clone Content) (actorAllowlist : List String) (feedback : Feedback)
    (branch expectedHeadSha : String) (validationCommands : List ValidationCommand) :
    Except WorkspaceError RepairCommit := do
  let (path, publication) ← feedbackPublication world clone actorAllowlist feedback branch
    expectedHeadSha validationCommands
  world.push publication.tree
  let commit ← world.revParse
  pure ⟨String.ofList (trim commit.toList), path⟩

end Steps

end PiTools.Workspace
