import PiTools.Worker.RepairPaths
import PiTools.Worker.WorkPlan

/-
This file defines the errors with which an executor can end and the texts that
these errors have.
-/

namespace PiTools

open Library

def GitHubClientError.text : GitHubClientError → String
  | .client reason => "GitHub client setup failed: " ++ reason
  | .request reason => "GitHub request failed: " ++ reason
  | .response reason => "GitHub response decoding failed: " ++ reason
  | .api status body => "GitHub returned HTTP " ++ toString status ++ ": " ++ body
  | .unsafePagination => "GitHub pagination link left the configured API base"
  | .paginationLoop => "GitHub pagination repeated a page URL"
  | .paginationLimit => "GitHub pagination exceeded the page limit"
  | .repositoryFileTooLarge => "GitHub repository policy file exceeds the size limit"
  | .workflowLogTooLarge => "GitHub Actions job log exceeds the size limit"
  | .workflowLogNotUtf8 => "GitHub Actions job log is not valid UTF-8"
  | .checkAnnotationsTooLarge => "GitHub check annotations exceed the size limit"

namespace Executor

/-- The errors of the packages and of the database stand for their texts. -/
inductive WorkerError
  | repositoryNotFound (id : Int)
  | pullRequestNotFound (repositoryId number : Int)
  | policy (reason : String)
  | mutationAdmissionRequired (reason : String)
  | unknownJobKind (kind : String)
  | repository (reason : String)
  | gitHubAuth (reason : String)
  | gitHub (error : GitHubClientError)
  | workflow (reason : String)
  | contract (error : ContractError)
  | queue (reason : String)
  | piUnavailable
  | piSerialization (reason : String)
  | pi (reason : String)
  | leaseLost
  | planSerialization (reason : String)
  | workspace (error : Stack.WorkspaceError)
  | reviewThreadNotFound (id : Int)
  deriving DecidableEq, Repr

section Texts

-- The parameter tells the characters that the debug format does not show.
variable (hidden : Char → Bool)

def debugString (value : String) : String := String.ofList (debugText hidden value.toList)

def debugStrings (values : List String) : String :=
  String.ofList (debugTexts hidden (values.map String.toList))

def workspaceErrorText : Stack.WorkspaceError → String
  | .io reason => "workspace I/O failed: " ++ reason
  | .invalidInput reason => "workspace input is invalid: " ++ reason
  | .commandFailed argv stderr =>
      "workspace command failed: " ++ debugStrings hidden argv ++ ": " ++ stderr
  | .command reason => "workspace command error: " ++ reason
  | .validationFailed argv stderr =>
      "validation failed: " ++ debugStrings hidden argv ++ ": " ++ stderr
  | .dirtyWorkspace => "workspace started dirty"
  | .unexpectedStagedPaths expected observed =>
      "staged paths do not match the approved mutation set: expected " ++
        debugStrings hidden expected ++ ", observed " ++ debugStrings hidden observed
  | .unexpectedWorkspaceChanges changes =>
      "validation changed the mutation workspace unexpectedly: " ++ changes
  | .repairNotApplied => "deterministic feedback repair did not apply a change"
  | .feedback _ reason => "feedback repair failed: " ++ reason
  | .ciPatch reason => "CI repair patch is invalid: " ++ reason
  | .leaseCheck reason => "job lease check failed: " ++ reason
  | .leaseLost => "job lease was cancelled or lost before mutation"
  | .remoteHeadChanged branch expected observed =>
      "remote head for branch " ++ branch ++ " changed: expected " ++ expected ++ ", observed " ++
        observed
  | .rebaseConflict branch targetBranch stderr =>
      "rebase conflict for " ++ branch ++ " onto " ++ targetBranch ++ ": " ++ stderr
  | .rebaseRequiresForcePush branch targetBranch =>
      "rebase of " ++ branch ++ " onto " ++ targetBranch ++
        " requires an explicitly authorized force-with-lease push"

def WorkerError.text : WorkerError → String
  | .repositoryNotFound id => "repository " ++ toString id ++ " was not found or is inactive"
  | .pullRequestNotFound repositoryId number =>
      "pull request " ++ toString number ++ " was not found in repository " ++ toString repositoryId
  | .policy reason => "policy error: " ++ reason
  | .mutationAdmissionRequired reason =>
      "mutation job " ++ debugString hidden reason ++ " requires an admitted typed plan"
  | .unknownJobKind kind => "unknown job kind: " ++ kind
  | .repository reason => "repository error: " ++ reason
  | .gitHubAuth reason => "GitHub authentication error: " ++ reason
  | .gitHub error => "GitHub client error: " ++ error.text
  | .workflow reason => "workflow error: " ++ reason
  | .contract error => "work-plan contract error: " ++ error.text
  | .queue reason => "queue error: " ++ reason
  | .piUnavailable => "Pi worker transport is unavailable"
  | .piSerialization reason => "Pi worker serialization failed: " ++ reason
  | .pi reason => "Pi worker failed: " ++ reason
  | .leaseLost => "job lease was cancelled or lost before the next mutation"
  | .planSerialization reason => "job plan serialization failed: " ++ reason
  | .workspace error => "workspace error: " ++ workspaceErrorText hidden error
  | .reviewThreadNotFound id =>
      "review comment " ++ toString id ++ " has no resolvable review thread"

/-- A text that goes on after something visible is visible. -/
theorem blank_append {first second : String} (visible : blank first.toList = false) :
    blank (first ++ second).toList = false := by
  rw [String.toList_append, blank, List.all_append, ← blank, visible, Bool.false_and]

/-- Every error says something. -/
theorem WorkerError.text_visible (error : WorkerError) :
    blank (error.text hidden).toList = false := by
  cases error with
  | pullRequestNotFound _ _ => exact blank_append (blank_append (blank_append (by decide)))
  | repositoryNotFound _ => exact blank_append (blank_append (by decide))
  | mutationAdmissionRequired _ => exact blank_append (blank_append (by decide))
  | reviewThreadNotFound _ => exact blank_append (blank_append (by decide))
  | piUnavailable =>
      exact (by decide : blank "Pi worker transport is unavailable".toList = false)
  | leaseLost =>
      exact (by decide :
        blank "job lease was cancelled or lost before the next mutation".toList = false)
  | _ => exact blank_append (by decide)

end Texts

end Executor

end PiTools
