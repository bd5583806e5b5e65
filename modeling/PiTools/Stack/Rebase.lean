import PiTools.Feedback.Patch
import PiTools.Library.Logged
import PiTools.Library.Outcome
import PiTools.Library.Text
import PiTools.Worker.CiRepair

/-
This file defines how a branch is rebased in a fresh clone and pushed, as a
computation that logs its calls.
-/

namespace PiTools.Stack

open Library

/-! ### Calls -/

structure CommandResult where
  argv : List String
  success : Bool
  stdout : String
  stderr : String
  deriving DecidableEq, Repr

inductive ValidationCommand
  | gitDiffCheck
  | makeCheck
  | cargoCheck
  | cargoTest
  | cargoClippy
  | npmCheck
  deriving DecidableEq, Repr

def ValidationCommand.argv : ValidationCommand → List String
  | .gitDiffCheck => ["git", "diff", "--cached", "--check", "--"]
  | .makeCheck => ["make", "check"]
  | .cargoCheck => ["cargo", "check", "--locked"]
  | .cargoTest => ["cargo", "test", "--locked"]
  | .cargoClippy => ["cargo", "clippy", "--locked", "--all-targets", "--", "-D", "warnings"]
  | .npmCheck => ["npm", "--prefix", "workers/pi", "run", "check"]

/-- An error of a feedback repair comes with its text. -/
inductive WorkspaceError
  | io (reason : String)
  | invalidInput (reason : String)
  | commandFailed (argv : List String) (stderr : String)
  | command (reason : String)
  | validationFailed (argv : List String) (stderr : String)
  | dirtyWorkspace
  | unexpectedStagedPaths (expected observed : List String)
  | unexpectedWorkspaceChanges (changes : String)
  | repairNotApplied
  | feedback (error : Feedback.FeedbackError) (reason : String)
  | ciPatch (reason : String)
  | leaseCheck (reason : String)
  | leaseLost
  | remoteHeadChanged (branch expected observed : String)
  | rebaseConflict (branch targetBranch stderr : String)
  | rebaseRequiresForcePush (branch targetBranch : String)
  deriving DecidableEq, Repr

structure RebaseCommit where
  before : String
  after : String
  targetBranch : String
  forcePushed : Bool
  deriving DecidableEq, Repr

/-- What a stack rebase reads of a pull request on GitHub. -/
structure GitHubPullRequest where
  state : Option String
  merged : Option Bool
  head : GitHubHead
  baseReference : Option String
  deriving Repr

/-- The calls of a stack rebase with their answers. A clone belongs to its pull request. -/
inductive StackEntry
  | asserted (answer : Except String Bool)
  | read (number : Int) (answer : Except String GitHubPullRequest)
  | cloned (number : Int) (branch headSha : String) (answer : Except WorkspaceError Unit)
  | command (number : Int) (argv : List String) (answer : Except WorkspaceError CommandResult)
  | validated (number : Int) (commands : List ValidationCommand)
      (answer : Except WorkspaceError (List CommandResult))
  | returned (number : Int) (outcome : Except WorkspaceError RebaseCommit)
  | updated (number : Int) (branch : String) (answer : Except String GitHubPullRequest)

/-- The queue, GitHub and git answer a call in any way that the calls before it allow. -/
structure StackWorld where
  assertLease : List StackEntry → Except String Bool
  getPullRequest : Int → List StackEntry → Except String GitHubPullRequest
  cloneBranch : Int → String → String → List StackEntry → Except WorkspaceError Unit
  runBoundedArgv : Int → List String → List StackEntry → Except WorkspaceError CommandResult
  -- The snapshot for the validation and its commands are one call.
  validate : Int → List ValidationCommand → List StackEntry →
    Except WorkspaceError (List CommandResult)
  updatePullRequestBase : Int → String → List StackEntry → Except String GitHubPullRequest

/-! ### Checks -/

/-- The characters that no branch contains. -/
def branchExclusions : List Char := ['\x00', '\r', '\n', ' ', '~', '^', ':', '?', '*', '[', '\\']

def validBranch (value : List Char) : Bool :=
  !(value.isEmpty || 255 < byteLength value || value = ['.'] || value = ['.', '.'] ||
    value.head? = some '-' || value.head? = some '/' || value.getLast? = some '/' ||
    value.getLast? = some '.' || value = ['@'] || containsText ['/', '/'] value ||
    containsText ['@', '\x7b'] value || value.any branchExclusions.contains ||
    containsText ['.', '.'] value || value.any (fun c => c.toNat < 0x20 || c.toNat = 0x7f) ||
    (value.splitOn '/').any fun component =>
      component.isEmpty || component = ['.'] || component = ['.', '.'])

def validateBranch (value : String) : Except WorkspaceError Unit :=
  ensure (validBranch value.toList = true) (.invalidInput "invalid branch")

def isAsciiHexdigit (c : Char) : Bool :=
  ('0' ≤ c && c ≤ '9') || ('a' ≤ c && c ≤ 'f') || ('A' ≤ c && c ≤ 'F')

def validateSha (value : String) : Except WorkspaceError Unit :=
  ensure (7 ≤ byteLength value.toList ∧ byteLength value.toList ≤ 64 ∧
    value.toList.all isAsciiHexdigit = true) (.invalidInput "invalid commit SHA")

def remoteHeadArgv (branch : String) : List String :=
  ["git", "ls-remote", "origin", "refs/heads/" ++ branch]

def rebasePushArgv (branch expectedHeadSha : String) (forceWithLease : Bool) :
    Except WorkspaceError (List String) := do
  validateBranch branch
  validateSha expectedHeadSha
  let lease := if forceWithLease then
      ["--force-with-lease=refs/heads/" ++ branch ++ ":" ++ expectedHeadSha]
    else []
  pure (["git", "push"] ++ lease ++ ["origin", "HEAD:refs/heads/" ++ branch])

/-! ### Rebase -/

section Rebase

variable (world : StackWorld)

/-- The method `ensure` of the lease guard. -/
def ensureLease : Logged StackEntry WorkspaceError Unit := do
  let held ← Logged.failingWith .leaseCheck (Logged.call .asserted world.assertLease)
  Logged.settled (ensure (held = true) .leaseLost)

def runResult (number : Int) (argv : List String) :
    Logged StackEntry WorkspaceError CommandResult :=
  Logged.call (.command number argv) (world.runBoundedArgv number argv)

def run (number : Int) (argv : List String) : Logged StackEntry WorkspaceError CommandResult := do
  let result ← runResult world number argv
  Logged.settled (ensure (result.success = true) (.commandFailed argv result.stderr))
  pure result

def ensureClean (number : Int) : Logged StackEntry WorkspaceError Unit := do
  let result ← run world number ["git", "status", "--porcelain=v1", "--untracked-files=all"]
  Logged.settled (ensure (blank result.stdout.toList = true) .dirtyWorkspace)

/-- The remote branch still has the expected head. -/
def checkRemoteHead (number : Int) (branch expectedHeadSha : String) :
    Logged StackEntry WorkspaceError Unit := do
  let remoteHead ← runResult world number (remoteHeadArgv branch)
  Logged.settled (ensure (remoteHead.success = true)
    (.commandFailed (remoteHeadArgv branch) remoteHead.stderr))
  let observedHead := String.ofList ((splitWhitespace remoteHead.stdout.toList).headD [])
  Logged.settled (ensure (observedHead = expectedHeadSha)
    (.remoteHeadChanged branch expectedHeadSha
      (if observedHead = "" then "missing" else observedHead)))

/-- The target is fetched and the author of the new commits is set. -/
def prepareRebase (number : Int) (targetBranch : String) :
    Logged StackEntry WorkspaceError Unit := do
  ensureLease world
  let _ ← run world number ["git", "fetch", "--no-tags", "origin",
    "refs/heads/" ++ targetBranch ++ ":refs/remotes/origin/" ++ targetBranch]
  ensureLease world
  let _ ← run world number ["git", "config", "user.name", "PiTools[bot]"]
  ensureLease world
  let _ ← run world number ["git", "config", "user.email", "pitools[bot]@users.noreply.github.com"]

/-- A conflict is aborted, whatever the abort answers. -/
def rebaseLocally (number : Int) (branch targetBranch : String) :
    Logged StackEntry WorkspaceError Unit := do
  let rebase ← runResult world number
    ["git", "-c", "core.hooksPath=/dev/null", "rebase", "refs/remotes/origin/" ++ targetBranch]
  if rebase.success then pure ()
  else do
    let _ : Except WorkspaceError CommandResult ← Logged.attempt (runResult world number
      ["git", "-c", "core.hooksPath=/dev/null", "rebase", "--abort"])
    Logged.settled (.error (.rebaseConflict branch targetBranch rebase.stderr))

def validateRebase (number : Int) (validationCommands : List ValidationCommand) :
    Logged StackEntry WorkspaceError Unit := do
  let validation ← Logged.call (.validated number validationCommands)
    (world.validate number validationCommands)
  match validation.find? fun result => !result.success with
  | some failed => Logged.settled (.error (.validationFailed failed.argv failed.stderr))
  | none => pure ()

/-- A rewritten branch is pushed with a lease on its old head, if this is allowed at all. -/
def pushRebase (number : Int) (branch targetBranch expectedHeadSha after : String)
    (allowForcePush : Bool) : Logged StackEntry WorkspaceError Bool := do
  let ancestor ← runResult world number
    ["git", "merge-base", "--is-ancestor", expectedHeadSha, after]
  let forcePushed ← Logged.settled (if ancestor.success then .ok false
    else if allowForcePush then .ok true
    else .error (.rebaseRequiresForcePush branch targetBranch))
  ensureLease world
  let argv ← Logged.settled (rebasePushArgv branch expectedHeadSha forcePushed)
  let _ ← run world number argv
  pure forcePushed

def rebaseOnto (number : Int) (branch targetBranch expectedHeadSha : String)
    (allowForcePush : Bool) (validationCommands : List ValidationCommand) :
    Logged StackEntry WorkspaceError RebaseCommit := do
  Logged.settled (validateBranch branch)
  Logged.settled (validateBranch targetBranch)
  Logged.settled (validateSha expectedHeadSha)
  Logged.settled (ensure (branch ≠ targetBranch)
    (.invalidInput "rebase branch and target branch must differ"))
  ensureClean world number
  ensureLease world
  checkRemoteHead world number branch expectedHeadSha
  prepareRebase world number targetBranch
  rebaseLocally world number branch targetBranch
  ensureLease world
  let head ← run world number ["git", "rev-parse", "HEAD"]
  let after := String.ofList (trim head.stdout.toList)
  if after = expectedHeadSha then pure ⟨expectedHeadSha, after, targetBranch, false⟩
  else do
    validateRebase world number validationCommands
    let forcePushed ← pushRebase world number branch targetBranch expectedHeadSha after allowForcePush
    pure ⟨expectedHeadSha, after, targetBranch, forcePushed⟩

end Rebase

/-! ### Logs -/

section Logs

variable {world : StackWorld} {allowed : List StackEntry → StackEntry → Prop}
  {holds : List StackEntry → Prop} {number : Int}

/-- A condition under which every call on the clone of the pull request is allowed. -/
structure Permits (allowed : List StackEntry → StackEntry → Prop) (holds : List StackEntry → Prop)
    (number : Int) : Prop where
  lasting : Lasting holds
  asserted : ∀ log answer, holds log → allowed log (.asserted answer)
  command : ∀ argv log answer, holds log → allowed log (.command number argv answer)
  validated : ∀ commands log answer, holds log → allowed log (.validated number commands answer)

theorem ensureLease_steady (lasting : Lasting holds)
    (asserted : ∀ log answer, holds log → allowed log (.asserted answer)) :
    Steady allowed holds (ensureLease world) :=
  .bind (.failingWith (.call lasting asserted _)) fun _ => .settled _

variable (permits : Permits allowed holds number)

include permits

theorem runResult_steady (argv : List String) :
    Steady allowed holds (runResult world number argv) :=
  .call permits.lasting (permits.command argv) _

theorem run_steady (argv : List String) : Steady allowed holds (run world number argv) :=
  .bind (runResult_steady permits argv) fun _ => .bind (.settled _) fun _ => .pure _

theorem checkRemoteHead_steady (branch expectedHeadSha : String) :
    Steady allowed holds (checkRemoteHead world number branch expectedHeadSha) :=
  .bind (runResult_steady permits _) fun _ => .bind (.settled _) fun _ => .settled _

theorem prepareRebase_steady (targetBranch : String) :
    Steady allowed holds (prepareRebase world number targetBranch) := by
  have lease : Steady allowed holds (ensureLease world) :=
    ensureLease_steady permits.lasting permits.asserted
  apply Steady.bind lease
  intro _
  apply Steady.bind (run_steady permits _)
  intro _
  apply Steady.bind lease
  intro _
  apply Steady.bind (run_steady permits _)
  intro _
  apply Steady.bind lease
  intro _
  exact Steady.bind (run_steady permits _) fun _ => .pure _

theorem rebaseLocally_steady (branch targetBranch : String) :
    Steady allowed holds (rebaseLocally world number branch targetBranch) := by
  apply Steady.bind (runResult_steady permits _)
  intro rebase
  split
  · exact .pure _
  · exact .bind (.attempt permits.lasting (runResult_steady permits _)) fun _ => .settled _

theorem validateRebase_steady (validationCommands : List ValidationCommand) :
    Steady allowed holds (validateRebase world number validationCommands) := by
  apply Steady.bind (.call permits.lasting (permits.validated validationCommands) _)
  intro validation
  split
  · exact .settled _
  · exact .pure _

theorem pushRebase_steady (branch targetBranch expectedHeadSha after : String)
    (allowForcePush : Bool) : Steady allowed holds
      (pushRebase world number branch targetBranch expectedHeadSha after allowForcePush) := by
  apply Steady.bind (runResult_steady permits _)
  intro ancestor
  apply Steady.bind (.settled _)
  intro forcePushed
  apply Steady.bind (ensureLease_steady permits.lasting permits.asserted)
  intro _
  apply Steady.bind (.settled _)
  intro argv
  exact .bind (run_steady permits _) fun _ => .pure _

/-- A rebase keeps every condition under which its calls are allowed. -/
theorem rebaseOnto_steady (branch targetBranch expectedHeadSha : String) (allowForcePush : Bool)
    (validationCommands : List ValidationCommand) : Steady allowed holds
      (rebaseOnto world number branch targetBranch expectedHeadSha allowForcePush
        validationCommands) := by
  have lease : Steady allowed holds (ensureLease world) :=
    ensureLease_steady permits.lasting permits.asserted
  apply Steady.bind (.settled _)
  intro _
  apply Steady.bind (.settled _)
  intro _
  apply Steady.bind (.settled _)
  intro _
  apply Steady.bind (.settled _)
  intro _
  apply Steady.bind (.bind (run_steady permits _) fun _ => .settled _)
  intro _
  apply Steady.bind lease
  intro _
  apply Steady.bind (checkRemoteHead_steady permits _ _)
  intro _
  apply Steady.bind (prepareRebase_steady permits _)
  intro _
  apply Steady.bind (rebaseLocally_steady permits _ _)
  intro _
  apply Steady.bind lease
  intro _
  apply Steady.bind (run_steady permits _)
  intro head
  dsimp only
  split
  · exact .pure _
  · apply Steady.bind (validateRebase_steady permits _)
    intro _
    exact .bind (pushRebase_steady permits _ _ _ _ _) fun _ => .pure _

end Logs

end PiTools.Stack
