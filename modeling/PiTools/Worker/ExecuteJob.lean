import PiTools.GitHub.DetailsUrl
import PiTools.Library.Remembered
import PiTools.Worker.Coordinator
import PiTools.Worker.DisplayedItem
import PiTools.Worker.FeedbackGates
import PiTools.Worker.FeedbackRejection
import PiTools.Worker.PeriodicInventory
import PiTools.Worker.RenderedComments
import PiTools.Worker.RunClosing

/-
This file defines one run of a leased job. Any call of the run may fail, and its
answer may depend on all calls before it.
-/

namespace PiTools.Executor

open Library
open Stack (StackReport ValidationCommand WorkspaceError)
open Reconcile (FeedbackRecord)
open Inventory (InstallationTokenScope)

/-! ### Replies to feedback -/

inductive FeedbackTargetError
  | unsupported
  | invalidId
  deriving DecidableEq, Repr

def FeedbackTargetError.text : FeedbackTargetError → String
  | .unsupported => "feedback target prefix is unsupported"
  | .invalidId => "feedback target id is invalid"

inductive FeedbackCommentTarget
  | reviewComment (commentId : Int)
  | pullRequestConversation (commentId : Int)
  deriving DecidableEq, Repr

def parseCommentId (text : List Char) : Except FeedbackTargetError Int :=
  okOr ((GitHub.parseI64 text).filter fun commentId => 0 < commentId) .invalidId

def parseFeedbackCommentTarget (feedbackId : String) :
    Except FeedbackTargetError FeedbackCommentTarget :=
  match stripPrefix "review-comment:".toList feedbackId.toList with
  | some commentId => (parseCommentId commentId).map .reviewComment
  | none =>
      match stripPrefix "issue-comment:".toList feedbackId.toList with
      | some commentId => (parseCommentId commentId).map .pullRequestConversation
      | none =>
          match stripPrefix "review:".toList feedbackId.toList with
          | some commentId => (parseCommentId commentId).map .pullRequestConversation
          | none => .error .unsupported

inductive FeedbackReplyTarget
  | reviewThread
  | pullRequestConversation
  deriving DecidableEq, Repr

def FeedbackTarget.replyTarget : FeedbackTarget → FeedbackReplyTarget
  | .reviewComment .. => .reviewThread
  | .pullRequestConversation => .pullRequestConversation

inductive FeedbackReply
  | applied (target : FeedbackReplyTarget) (path : List Char) (commit : String)
  | rejected (target : FeedbackReplyTarget)
  deriving DecidableEq, Repr

def safeReplyFragment (value : List Char) : List Char :=
  let fragment := (value.filter fun c => c ∉ ['\x60', '\r', '\n']).take 128
  if fragment = [] then "(unavailable)".toList else fragment

def renderFeedbackReply : FeedbackReply → List Char
  | .applied target path commit =>
      "PiTools applied this approved automation suggestion to `".toList ++ safeReplyFragment path ++
        "` and pushed commit `".toList ++ safeReplyFragment commit.toList ++
        "` after configured validation passed. ".toList ++
        match target with
        | .reviewThread => "The review thread is being resolved.".toList
        | .pullRequestConversation => ("This PR-level outcome comment records the result; " ++
            "no review thread is available to resolve.").toList
  | .rejected .reviewThread =>
      ("PiTools rejected this automation suggestion after deterministic validation failed. " ++
        "No branch change was accepted. The review thread is being resolved; " ++
        "human follow-up remains required.").toList
  | .rejected .pullRequestConversation =>
      ("PiTools rejected this automation suggestion after deterministic validation failed. " ++
        "No branch change was accepted. This PR-level outcome comment records the result; " ++
        "no review thread is available to resolve. Human follow-up remains required.").toList

/-! ### Policies -/

/-- The fields of the policy that a run reads. -/
structure Policy where
  requireApproval : Bool
  automationActors : List String
  repairAllowedPaths : List String
  validationCommands : List ValidationCommand
  deriving DecidableEq, Repr

def Policy.default : Policy where
  requireApproval := true
  automationActors := []
  repairAllowedPaths := []
  validationCommands := [.gitDiffCheck]

def parsePolicy (fromYaml : String → Except String Policy) (source : String) :
    Except WorkerError Policy :=
  if blank source.toList then .ok .default else (fromYaml source).mapError .policy

/-! ### Calls -/

inductive WorkflowError
  | gitHub (error : GitHubClientError)
  | repository (reason : String)
  | contract (error : ContractError)
  | missingCheckRunUrl
  deriving DecidableEq, Repr

def WorkflowError.text : WorkflowError → String
  | .gitHub error => "GitHub API error: " ++ error.text
  | .repository reason => "repository error: " ++ reason
  | .contract error => "work-plan contract error: " ++ error.text
  | .missingCheckRunUrl => "GitHub Check Run did not return an HTTPS URL"

/-- What a reconciliation reports. -/
structure Reconciliation where
  ready : Bool
  reasonCodes : List Json
  feedbackCount : Nat
  checkCount : Nat

/-- The calls of a run and their answers. The flags tell whether the branch was pushed. -/
inductive Call
  | assertLease (answer : Except String Bool)
  | repositoryContext (answer : Except String (Option Inventory.RepositoryContext))
  | pullRequestContext (answer : Except String (Option PullRequestContext))
  | installationToken (scope : InstallationTokenScope) (answer : Except String String)
  | newClient (answer : Except GitHubClientError Unit)
  | repositoryPolicy (answer : Except GitHubClientError (Option String))
  | savePolicy (policy : Policy) (answer : Except String Unit)
  | existingWorkHandle (answer : Except String (Option WorkHandle))
  | linkJobCheckRun (checkRunId : Int) (checkRunUrl : String) (item : Option String)
      (answer : Except String Unit)
  | createCheckRun (headSha : String) (answer : Except GitHubClientError (Int × Option String))
  | createIssueComment (body : List Char) (answer : Except GitHubClientError Int)
  | updateIssueComment (commentId : Int) (body : List Char) (answer : Except GitHubClientError Unit)
  | upsertLivingComment (commentId : Int) (bodyHash : String) (answer : Except String Unit)
  | insertFinalComment (commentId : Int) (marker : List Char) (bodyHash : String)
      (answer : Except String Bool)
  | updateCheckRun (checkRunId : Int) (succeeded : Bool) (summary : List Char)
      (answer : Except GitHubClientError Unit)
  | reconcile (answer : Except WorkerError Reconciliation)
  | getPullRequest (answer : Except GitHubClientError GitHubHead)
  | reviewThreadId (commentId : Int) (answer : Except GitHubClientError (Option String))
  | cloneBranch (branch headSha : String) (answer : Except WorkspaceError Unit)
  | applyFeedback (feedback : FeedbackRecord) (pushed : Bool)
      (answer : Except WorkspaceError Workspace.RepairCommit)
  | replyToReviewComment (commentId : Int) (body : List Char) (answer : Except GitHubClientError Unit)
  | resolveReviewThread (threadId : String) (answer : Except GitHubClientError Unit)
  | markFeedbackResolved (feedbackId : String) (answer : Except String Unit)
  | markFeedbackRejected (feedbackId : String) (answer : Except String Unit)
  | ciFailureEvidence (answer : Except WorkerError String)
  | getRepositoryFile (path : String) (answer : Except GitHubClientError (Option String))
  | executePi (request : PiJobRequest) (answer : Except PiError PiJobResult)
  | applyCiRepair (patches : List CiPatch) (pushed : Bool)
      (answer : Except WorkspaceError Workspace.CiRepairCommit)
  | stackRebase (answer : Except WorkerError StackReport)
  | markWaitingApproval (details : Json) (answer : Except String Bool)
  | markSucceeded (result : Json) (answer : Except String Bool)
  | markFailed (reason : String) (answer : Except String Bool)

/-- A clone with the answers of git and of the sandbox about it. Behind the validation only commands
can fail. -/
structure Checkout (Content : Type) where
  world : Workspace.CloneWorld Content
  clone : Workspace.Clone Content
  push : ∀ tree error, world.push tree = .error error → Workspace.CommandFault error
  revParse : ∀ error, world.revParse = .error error → Workspace.CommandFault error

/-- The functions of packages, and what everyone else answers. -/
structure World (Content : Type) where
  sha256Hex : List Char → String
  parseUrl : String → Option Url
  hidden : Char → Bool
  fromYaml : String → Except String Policy
  revision : Policy → String
  decodeResult : Json → Except String PiJobResult
  undecoded : Json → String
  nonce : List Call → String
  piWorker : Bool
  leaseLost : List Call → Bool
  assertLease : List Call → Except String Bool
  repositoryContext : List Call → Except String (Option Inventory.RepositoryContext)
  pullRequestContext : List Call → Except String (Option PullRequestContext)
  installationToken : InstallationTokenScope → List Call → Except String String
  newClient : List Call → Except GitHubClientError Unit
  repositoryPolicy : List Call → Except GitHubClientError (Option String)
  savePolicy : Policy → List Call → Except String Unit
  existingWorkHandle : List Call → Except String (Option WorkHandle)
  linkJobCheckRun : Int → String → Option String → List Call → Except String Unit
  createCheckRun : String → List Call → Except GitHubClientError (Int × Option String)
  createIssueComment : List Char → List Call → Except GitHubClientError Int
  updateIssueComment : Int → List Char → List Call → Except GitHubClientError Unit
  upsertLivingComment : Int → String → List Call → Except String Unit
  insertFinalComment : Int → List Char → String → List Call → Except String Bool
  updateCheckRun : Int → Bool → List Char → List Call → Except GitHubClientError Unit
  reconcile : List Call → Except WorkerError Reconciliation
  getPullRequest : List Call → Except GitHubClientError GitHubHead
  reviewThreadId : Int → List Call → Except GitHubClientError (Option String)
  cloneBranch : String → String → List Call → Except WorkspaceError (Checkout Content)
  replyToReviewComment : Int → List Char → List Call → Except GitHubClientError Unit
  resolveReviewThread : String → List Call → Except GitHubClientError Unit
  markFeedbackResolved : String → List Call → Except String Unit
  markFeedbackRejected : String → List Call → Except String Unit
  ciFailureEvidence : List Call → Except WorkerError String
  getRepositoryFile : String → List Call → Except GitHubClientError (Option String)
  piReply : PiJobRequest → List Call → PiReply
  stackRebase : List Call → Except WorkerError StackReport
  markWaitingApproval : Json → List Call → Except String Bool
  markSucceeded : Json → List Call → Except String Bool
  markFailed : String → List Call → Except String Bool

abbrev Program (Failure : Type) : Type → Type := Logged Call Failure

section Programs

variable {Content : Type} (world : World Content)

/-! ### Leases and policies -/

def ensureLease : Program WorkerError Unit := do
  let held ← Logged.failingWith .queue (Logged.call .assertLease world.assertLease)
  Logged.settled (ensure (held = true) .leaseLost)

/-- The method `ensure` of a `LeaseGuard`. -/
def ensureGuard : Program WorkspaceError Unit := do
  let held ← Logged.failingWith .leaseCheck (Logged.call .assertLease world.assertLease)
  Logged.settled (ensure (held = true) .leaseLost)

def loadPolicy : Program WorkerError Policy := do
  let source ← Logged.failingWith .gitHub (Logged.call .repositoryPolicy world.repositoryPolicy)
  let policy ← Logged.settled (match source with
    | some source => parsePolicy world.fromYaml source
    | none => .ok .default)
  Logged.failingWith .repository (Logged.call (.savePolicy policy) (world.savePolicy policy))
  pure policy

/-! ### The coordinator -/

def bodyHash (body : List Char) : String := "sha256:" ++ world.sha256Hex body

def planComment (checkRunUrl : String) (items : List PlanItem) (approvalHash : Option String) :
    Except ContractError (List Char) := do
  let comment ← WorkPlanComment.new world.parseUrl checkRunUrl items
  let comment ← match approvalHash with
    | some approvalHash => comment.withApprovalHash approvalHash
    | none => .ok comment
  comment.render

def upsertLivingComment (commentId : Int) (body : List Char) : Program WorkflowError Unit :=
  Logged.failingWith .repository (Logged.call (.upsertLivingComment commentId (bodyHash world body))
    (world.upsertLivingComment commentId (bodyHash world body)))

def linkJobCheckRun (checkRunId : Int) (checkRunUrl : String) (items : List PlanItem) :
    Program WorkflowError Unit :=
  Logged.failingWith .repository
    (Logged.call (.linkJobCheckRun checkRunId checkRunUrl (currentItemId items))
      (world.linkJobCheckRun checkRunId checkRunUrl (currentItemId items)))

def createIssueComment (body : List Char) : Program GitHubClientError Int :=
  Logged.call (.createIssueComment body) (world.createIssueComment body)

def updateProgressWithApproval (handle : WorkHandle) (items : List PlanItem)
    (approvalHash : Option String) : Program WorkflowError Unit := do
  let body ← Logged.settled
    ((planComment world handle.checkRunUrl items approvalHash).mapError .contract)
  Logged.failingWith .gitHub (Logged.call (.updateIssueComment handle.commentId body)
    (world.updateIssueComment handle.commentId body))
  upsertLivingComment world handle.commentId body

/-- A job without a stored handle gets its Check Run and its comment. -/
def startNew (headSha : String) (items : List PlanItem) : Program WorkflowError WorkHandle := do
  let (checkRunId, htmlUrl) ← Logged.failingWith .gitHub
    (Logged.call (.createCheckRun headSha) (world.createCheckRun headSha))
  let checkRunUrl ← Logged.settled (okOr htmlUrl .missingCheckRunUrl)
  let body ← Logged.settled ((planComment world checkRunUrl items none).mapError .contract)
  let commentId ← Logged.failingWith .gitHub (createIssueComment world body)
  linkJobCheckRun world checkRunId checkRunUrl items
  upsertLivingComment world commentId body
  pure ⟨checkRunId, checkRunUrl, commentId⟩

def start (headSha : String) (items : List PlanItem) : Program WorkflowError WorkHandle := do
  match ← Logged.failingWith .repository
    (Logged.call .existingWorkHandle world.existingWorkHandle) with
  | some handle => do
      linkJobCheckRun world handle.checkRunId handle.checkRunUrl items
      updateProgressWithApproval world handle items none
      pure handle
  | none => startNew world headSha items

def finish (handle : WorkHandle) (summary : FinalSummary) (succeeded : Bool) :
    Program WorkflowError Unit := do
  let body ← Logged.settled (summary.render.mapError .contract)
  let commentId ← Logged.failingWith .gitHub (createIssueComment world body)
  let marker := (lines body).head?.getD "pitools:final-summary".toList
  let _ ← Logged.failingWith .repository
    (Logged.call (.insertFinalComment commentId marker (bodyHash world body))
      (world.insertFinalComment commentId marker (bodyHash world body)))
  Logged.failingWith .gitHub (Logged.call (.updateCheckRun handle.checkRunId succeeded body)
    (world.updateCheckRun handle.checkRunId succeeded body))

/-! ### Repairs -/

/-- What a run knows of its job once everything is loaded. -/
structure Context where
  repository : Inventory.RepositoryContext
  pullRequest : PullRequestContext
  policy : Policy

def Context.fullName (context : Context) : String :=
  context.repository.owner ++ "/" ++ context.repository.name

/-- The head on GitHub is that of the stored pull request, in the repository itself. -/
def checkHead (context : Context) (head : GitHubHead) : Except WorkerError Unit := do
  let repository ← okOr head.repository
    (.mutationAdmissionRequired "pull request head repository identity is unavailable")
  ensure (repository = context.fullName) (.mutationAdmissionRequired
    "fork pull request repairs are disabled until head-repository write scope is configured")
  ensure (head.sha = context.pullRequest.headSha ∧
      head.reference = some context.pullRequest.headBranch)
    (.mutationAdmissionRequired "pull request head changed since the repair plan was created")

def ensureHead (context : Context) : Program WorkerError Unit := do
  let head ← Logged.failingWith .gitHub (Logged.call .getPullRequest world.getPullRequest)
  Logged.settled (checkHead context head)

def cloneBranch (context : Context) : Program WorkerError (Checkout Content) :=
  Logged.failingWith .workspace (Logged.call
    (fun answer => .cloneBranch context.pullRequest.headBranch context.pullRequest.headSha
      (answer.map fun _ => ()))
    (world.cloneBranch context.pullRequest.headBranch context.pullRequest.headSha))

/-- The branch has the tree that the publication committed. -/
def Checkout.pushes (checkout : Checkout Content)
    (published : Except WorkspaceError (Workspace.Publication Content)) : Bool :=
  match published with
  | .ok publication => (checkout.world.push publication.tree).isOk
  | .error _ => false

def applyFeedback (context : Context) (checkout : Checkout Content) (feedback : FeedbackRecord) :
    Program WorkspaceError Workspace.RepairCommit :=
  let published := Workspace.feedbackPublication checkout.world checkout.clone
    context.policy.automationActors (repairInput feedback) context.pullRequest.headBranch
    context.pullRequest.headSha context.policy.validationCommands
  Logged.call (.applyFeedback feedback (checkout.pushes (published.map Prod.snd))) fun _ =>
    Workspace.applyFeedback checkout.world checkout.clone context.policy.automationActors
      (repairInput feedback) context.pullRequest.headBranch context.pullRequest.headSha
      context.policy.validationCommands

def applyCiRepair (context : Context) (checkout : Checkout Content) (patches : List CiPatch) :
    Program WorkspaceError Workspace.CiRepairCommit :=
  let published := Workspace.ciPublication checkout.world checkout.clone patches
    context.policy.repairAllowedPaths context.pullRequest.headBranch context.pullRequest.headSha
    context.policy.validationCommands
  Logged.call (.applyCiRepair patches (checkout.pushes published)) fun _ =>
    Workspace.applyCiRepair checkout.world checkout.clone patches context.policy.repairAllowedPaths
      context.pullRequest.headBranch context.pullRequest.headSha context.policy.validationCommands

/-- The thread of the comment, or the conversation of the pull request. -/
def feedbackTarget (feedback : FeedbackRecord) : Program WorkerError FeedbackTarget := do
  match ← Logged.settled ((parseFeedbackCommentTarget feedback.id).mapError fun error =>
    .planSerialization error.text) with
  | .reviewComment commentId => do
      let found ← Logged.failingWith .gitHub
        (Logged.call (.reviewThreadId commentId) (world.reviewThreadId commentId))
      let threadId ← Logged.settled (okOr found (.reviewThreadNotFound commentId))
      pure (.reviewComment commentId threadId)
  | .pullRequestConversation _ => pure .pullRequestConversation

def postReply (body : List Char) : FeedbackTarget → Program WorkerError Unit
  | .reviewComment commentId _ => Logged.failingWith .gitHub
      (Logged.call (.replyToReviewComment commentId body) (world.replyToReviewComment commentId body))
  | .pullRequestConversation => do
      let _ ← Logged.failingWith .gitHub (createIssueComment world body)

def resolveThread : FeedbackTarget → Program WorkerError Unit
  | .reviewComment _ threadId => Logged.failingWith .gitHub
      (Logged.call (.resolveReviewThread threadId) (world.resolveReviewThread threadId))
  | .pullRequestConversation => pure ()

def publishFeedbackOutcome (target : FeedbackTarget) (body : List Char) : Program WorkerError Unit := do
  Logged.failingWith .workspace (ensureGuard world)
  postReply world body target
  Logged.failingWith .workspace (ensureGuard world)
  resolveThread world target

/-- What follows on the outcome of the workspace. -/
def settleFeedback (feedback : FeedbackRecord) (target : FeedbackTarget) :
    Except WorkspaceError Workspace.RepairCommit → Program WorkerError Json
  | .ok outcome => do
      publishFeedbackOutcome world target
        (renderFeedbackReply (.applied target.replyTarget outcome.path outcome.commit))
      Logged.failingWith .repository
        (Logged.call (.markFeedbackResolved feedback.id) (world.markFeedbackResolved feedback.id))
      pure (Success.applied target (String.ofList outcome.path) outcome.commit).toValue
  | .error error =>
      if Workspace.isDeterministicFeedbackRejection error then do
        publishFeedbackOutcome world target (renderFeedbackReply (.rejected target.replyTarget))
        Logged.failingWith .repository
          (Logged.call (.markFeedbackRejected feedback.id) (world.markFeedbackRejected feedback.id))
        pure (Success.rejected target).toValue
      else Logged.settled (.error (.workspace error))

def repairFeedback (context : Context) (feedback : FeedbackRecord) : Program WorkerError Json := do
  ensureHead world context
  let target ← feedbackTarget world feedback
  let checkout ← cloneBranch world context
  Logged.failingWith .workspace (ensureGuard world)
  let outcome ← Logged.attempt (applyFeedback context checkout feedback)
  settleFeedback world feedback target outcome

def feedbackRepair (context : Context) (plan : Json) : Program WorkerError Json :=
  match unskippedFeedback plan with
  | none => pure Success.skippedFeedback.toValue
  | some value => do
      let feedback ← Logged.settled
        (okOr (feedbackFromValue value) (.planSerialization (world.undecoded value)))
      repairFeedback world context feedback

def snapshotFiles : Nat → List String → Program WorkerError (List PiSnapshotFile)
  | _, [] => pure []
  | bytes, path :: rest => do
      Logged.failingWith .workspace (ensureGuard world)
      match ← Logged.failingWith .gitHub
        (Logged.call (.getRepositoryFile path) (world.getRepositoryFile path)) with
      | none => snapshotFiles bytes rest
      | some content =>
          if maxPiSnapshotBytes < bytes + content.utf8ByteSize then pure []
          else do
            let files ← snapshotFiles (bytes + content.utf8ByteSize) rest
            pure (⟨path, content⟩ :: files)

def diagnosisRequest (context : Context) (job : LeasedJob) (evidence : String)
    (files : List PiSnapshotFile) (nonce : String) : PiJobRequest where
  protocolVersion := "pitools.pi/v1"
  jobId := job.id
  repository := context.fullName
  snapshotPath := "snapshot.json"
  snapshotFiles := files
  allowedPaths := context.policy.repairAllowedPaths
  failureEvidence := some evidence
  policyRevision := world.revision context.policy
  nonce

def piDiagnosis (context : Context) (job : LeasedJob) : Program WorkerError PiJobResult := do
  Logged.settled (ensure (world.piWorker = true) .piUnavailable)
  let evidence ← Logged.call .ciFailureEvidence world.ciFailureEvidence
  let files ← snapshotFiles world 0 (context.policy.repairAllowedPaths.take maxPiSnapshotFiles)
  let nonce ← fun log => (.ok (world.nonce log), log)
  let request := diagnosisRequest world context job evidence files nonce
  Logged.failingWith (fun error => .pi error.text) (Logged.call (.executePi request) fun log =>
    executePi request (world.piReply request log))

/-- Patches are applied to the current head. -/
def repairCi (context : Context) (result : PiJobResult) : Program WorkerError Json := do
  ensureHead world context
  let checkout ← cloneBranch world context
  Logged.failingWith .workspace (ensureGuard world)
  let outcome ← Logged.failingWith .workspace
    (applyCiRepair context checkout result.proposedPatches)
  pure (Success.repaired outcome.paths outcome.commit result).toValue

def diagnosis (context : Context) (job : LeasedJob) : Program WorkerError PiJobResult :=
  match job.plan.get "pi_result" with
  | some value => Logged.settled ((world.decodeResult value).mapError .planSerialization)
  | none => piDiagnosis world context job

def ciRepair (context : Context) (job : LeasedJob) : Program WorkerError Json := do
  let result ← diagnosis world context job
  if result.proposedPatches = [] then pure (Success.diagnosed result).toValue
  else
    match ← Logged.settled ((admitCiMutation result.proposedPatches.length result.requiresApproval
      (planIsApproved world.sha256Hex job.plan)).mapError fun error =>
        .mutationAdmissionRequired error.text) with
    | .noMutation => Logged.settled (.error (.mutationAdmissionRequired
        "CI mutation admission was requested without a typed patch"))
    | .waitingApproval => pure (ciWaitingResult result)
    | .admitted => repairCi world context result

/-! ### Jobs -/

def Reconciliation.toValue (reconciliation : Reconciliation) : Json :=
  sortedObject [("completed", .bool true), ("ready", .bool reconciliation.ready),
    ("reason_codes", .array reconciliation.reasonCodes),
    ("changes", stringsValue ["updated pull request, feedback, checks, and readiness state"]),
    ("tests", stringsValue ["GitHub read set fetched and readiness evaluated"]),
    ("feedback_count", .ofInt reconciliation.feedbackCount),
    ("check_count", .ofInt reconciliation.checkCount)]

/-- The policy asks for an approval that the plan does not have. -/
def needsApproval (policy : Policy) (plan : Json) : Bool :=
  policy.requireApproval && !planIsApproved world.sha256Hex plan

def work (context : Context) (job : LeasedJob) : Program WorkerError Json :=
  match job.kind with
  | .reconcile => do
      let reconciliation ← Logged.call .reconcile world.reconcile
      pure reconciliation.toValue
  | .feedbackRepair =>
      if needsApproval world context.policy job.plan && planHasRemainingFeedback job.plan then
        pure feedbackWaitingResult
      else feedbackRepair world context job.plan
  | .stackRebase =>
      if planItemIsSkipped job.plan "stack_rebase" then pure Success.skippedStack.toValue
      else if needsApproval world context.policy job.plan then pure stackWaitingResult
      else do
        let report ← Logged.call .stackRebase world.stackRebase
        pure (reportValue report)
  | .ciRepair =>
      if planItemIsSkipped job.plan "ci_repair" then pure Success.skippedCi.toValue
      else ciRepair world context job

def workerPermissions : List (String × String) :=
  [("actions", "read"), ("administration", "read"), ("checks", "write"), ("contents", "write"),
    ("issues", "write"), ("metadata", "read"), ("pull_requests", "write"), ("statuses", "read")]

def loadContext (job : LeasedJob) : Program WorkerError Context := do
  ensureLease world
  let found ← Logged.failingWith .repository
    (Logged.call .repositoryContext world.repositoryContext)
  let repository ← Logged.settled (okOr found (.repositoryNotFound job.repositoryId))
  let found ← Logged.failingWith .repository
    (Logged.call .pullRequestContext world.pullRequestContext)
  let pullRequest ← Logged.settled
    (okOr found (.pullRequestNotFound job.repositoryId job.pullRequestNumber))
  let scope : InstallationTokenScope := ⟨workerPermissions, [repository.name]⟩
  let _ ← Logged.failingWith .gitHubAuth
    (Logged.call (.installationToken scope) (world.installationToken scope))
  Logged.failingWith .gitHub (Logged.call .newClient world.newClient)
  let policy ← loadPolicy world
  ensureLease world
  pure ⟨repository, pullRequest, policy⟩

/-- A reconciliation has no handle. -/
def startWork (context : Context) (job : LeasedJob) : Program WorkerError (Option WorkHandle) :=
  if job.kind = .reconcile then pure none
  else do
    let items ← Logged.settled ((planItemsForJob job .inProgress).mapError .contract)
    ensureLease world
    let handle ← Logged.failingWith (fun error => .workflow error.text)
      (start world context.pullRequest.headSha items)
    pure (some handle)

def isWaiting (result : Json) : Bool := ((result.get "waiting_approval").bind Json.asBool).getD false

def isCompleted (result : Json) : Bool := ((result.get "completed").bind Json.asBool).getD true

def showDetails (job : LeasedJob) (approvalHash : String) : Option WorkHandle → Program WorkerError Unit
  | some handle => do
      let items ← Logged.settled ((planItemsForJob job .pending).mapError .contract)
      Logged.failingWith (fun error => .workflow error.text)
        (updateProgressWithApproval world handle items (some approvalHash))
  | none => pure ()

/-- The details are shown before the job waits for their approval. -/
def park (job : LeasedJob) (handle : Option WorkHandle) (result : Json) : Program WorkerError Json := do
  ensureLease world
  let details := waitingDetails world.sha256Hex job.plan result
  let approvalHash ← Logged.settled (okOr ((details.get "plan_hash").bind Json.asStr)
    (.planSerialization "approval details did not contain a plan hash"))
  showDetails world job approvalHash handle
  let parked ← Logged.failingWith .queue
    (Logged.call (.markWaitingApproval details) (world.markWaitingApproval details))
  Logged.settled (ensure (parked = true) .leaseLost)
  pure result

def resultSummary (job : LeasedJob) (result : Json) : Except ContractError FinalSummary :=
  FinalSummary.new (uuidText job.id) (resultLines result "changes") (resultLines result "tests")
    (resultLines result "remaining_blockers")

def errorSummary (job : LeasedJob) (error : WorkerError) : Except ContractError FinalSummary :=
  FinalSummary.new (uuidText job.id) [] [] [error.text world.hidden]

def finishWork (handle : WorkHandle) (summary : Except ContractError FinalSummary)
    (succeeded : Bool) : Program WorkerError Unit := do
  let summary ← Logged.settled (summary.mapError .contract)
  Logged.failingWith (fun error => .workflow error.text) (finish world handle summary succeeded)

def finishResult (job : LeasedJob) (result : Json) : Option WorkHandle → Program WorkerError Unit
  | some handle => finishWork world handle (resultSummary job result) (isCompleted result)
  | none => pure ()

/-- What follows on the outcome of the work. -/
def conclude (job : LeasedJob) (handle : Option WorkHandle) :
    Except WorkerError Json → Program WorkerError Json
  | .ok result =>
      if isWaiting result then park world job handle result
      else do
        ensureLease world
        finishResult world job result handle
        pure result
  | .error error =>
      match handle with
      | none => Logged.settled (.error error)
      | some handle => do
          ensureLease world
          finishWork world handle (errorSummary world job error) false
          Logged.settled (.error error)

def executeJob (job : LeasedJob) : Program WorkerError Json := do
  let context ← loadContext world job
  let handle ← startWork world context job
  let outcome ← Logged.attempt (work world context job)
  conclude world job handle outcome

/-- The completion that the outcome asks for. Its own failure is only logged. -/
def complete : Except WorkerError Json → Program Empty Unit
  | .ok result =>
      if isWaiting result then pure ()
      else do
        let _ ← Logged.attempt (Logged.call (.markSucceeded result) (world.markSucceeded result))
  | .error error => do
      let reason := error.text world.hidden
      let _ ← Logged.attempt (Logged.call (.markFailed reason) (world.markFailed reason))

/-- A run whose heartbeat lost the lease is not completed. -/
def runJob (job : LeasedJob) : Program Empty Unit := do
  let outcome ← Logged.attempt (executeJob world job)
  let lost ← fun log => (.ok (world.leaseLost log), log)
  if lost then pure () else complete world outcome

end Programs

end PiTools.Executor
