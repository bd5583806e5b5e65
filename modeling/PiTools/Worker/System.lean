import PiTools.Queue.Fencing
import PiTools.Reconcile.ReadSet
import PiTools.Worker.CiRepair

/-
This file defines the system that the workers form with the queue, the stored
pull requests and GitHub. Every step is one transaction, one request or one
computation of one participant.
-/

namespace PiTools

open Library

/-- A pull request is named by its repository and its number. -/
abbrev PullRequestKey := Int × Int

/-! ### Pull requests -/

/-- One row of `pull_requests` with the time of its last write. -/
structure PullRequestRow where
  context : PullRequestContext
  updatedAt : Timestamp
  deriving DecidableEq, Repr

def PullRequestContext.key (context : PullRequestContext) : PullRequestKey :=
  (context.repositoryId, context.number)

/-- A write replaces a row that is not newer. -/
def upsertPullRequest (rows : List PullRequestRow) (row : PullRequestRow) : List PullRequestRow :=
  if rows.any fun old => old.context.key = row.context.key then
    rows.map fun old =>
      if old.context.key = row.context.key ∧ old.updatedAt ≤ row.updatedAt then row else old
  else rows ++ [row]

def pullRequestContext (rows : List PullRequestRow) (key : PullRequestKey) :
    Option PullRequestContext :=
  (rows.find? fun row => row.context.key = key).map PullRequestRow.context

/-- A pull request on GitHub with the check records that its head has. -/
structure GitHubPullRequest where
  head : GitHubHead
  checks : List CheckRecord
  deriving Repr

/-- The part of a read set that the worker keeps: the head and the checks of this head. -/
structure ReadSet where
  headSha : String
  headBranch : Option String
  checks : List CheckRecord
  deriving Repr

def GitHubPullRequest.readSet (pullRequest : GitHubPullRequest) : ReadSet :=
  ⟨pullRequest.head.sha, pullRequest.head.reference, pullRequest.checks⟩

/-- The row that a reconciliation saves. -/
def savedRow (context : PullRequestContext) (data : ReadSet) (now : Timestamp) : PullRequestRow where
  context :=
    { context with
      headSha := data.headSha
      headBranch := data.headBranch.getD context.headBranch }
  updatedAt := now

/-! ### Follow-up jobs -/

def isRepairableCheckConclusion (conclusion : String) : Bool :=
  conclusion ∈ ["action_required", "cancelled", "failure", "startup_failure", "stale", "timed_out"]

def CheckRecord.toFields (check : CheckRecord) : Fields :=
  [("external_id", .string check.externalId),
    ("name", .string check.name),
    ("app_id", (check.appId.map Json.ofInt).getD .null),
    ("status", .string check.status),
    ("conclusion", (check.conclusion.map Json.string).getD .null),
    ("details_url", (check.detailsUrl.map Json.string).getD .null)]

def ReadSet.failedChecks (data : ReadSet) : List CheckRecord :=
  data.checks.filter fun check => check.conclusion.any isRepairableCheckConclusion

def checksValue (checks : List CheckRecord) : Json :=
  .array (checks.map fun check => sortedObject check.toFields)

/-- The plan of a CI repair takes the head of the loaded context and the checks of the read. -/
def ciRepairPlan (context : PullRequestContext) (policyRevision : String) (data : ReadSet) : Json :=
  sortedObject [("source", .string "reconcile"),
    ("checks", checksValue data.failedChecks),
    ("head_sha", .string context.headSha),
    ("policy_revision", .string policyRevision)]

def ciRepairSpec (context : PullRequestContext) (policyRevision : String) (data : ReadSet) :
    JobSpec :=
  ⟨context.repositoryId, context.number, .ciRepair, ciRepairPlan context policyRevision data⟩

/-! ### Executions -/

/-- How far a worker came with its lease. -/
inductive Stage
  | leased
  | loaded (context : PullRequestContext)
  | read (context : PullRequestContext) (data : ReadSet)
  | saved (context : PullRequestContext) (data : ReadSet)
  | reconciled
  | repaired
  deriving Repr

/-- One worker works on one lease. -/
structure Execution where
  workerId : String
  lease : LeasedJob
  stage : Stage
  deriving Repr

def LeasedJob.key (lease : LeasedJob) : PullRequestKey :=
  (lease.repositoryId, lease.pullRequestNumber)

structure WorkerSystem where
  db : Database
  pullRequests : List PullRequestRow
  github : PullRequestKey → GitHubPullRequest
  executions : List Execution

/-- Details that a repair merges into its plan leave the head and the checks alone. -/
structure KeepsEvidence (details : Json) : Prop where
  isObject : details.isObject = true
  headSha : details.get "head_sha" = none
  checks : details.get "checks" = none

/-- The completions that an execution may ask for. A reconciliation succeeds only at its end. -/
inductive Execution.MayComplete (execution : Execution) : Op → Prop
  | succeeded (result : Json)
      (ended : execution.lease.kind = .reconcile → execution.stage = .reconciled) :
      execution.MayComplete (.markSucceeded execution.lease.id execution.workerId
        execution.lease.leaseToken result)
  | failed (result : Json) :
      execution.MayComplete (.markFailed execution.lease.id execution.workerId
        execution.lease.leaseToken result)
  | waiting (details : Json) (repairs : execution.lease.kind ≠ .reconcile)
      (keeps : execution.lease.kind = .ciRepair → KeepsEvidence details) :
      execution.MayComplete (.markWaitingApproval execution.lease.id execution.workerId
        execution.lease.leaseToken details)

/-- The calls that need no execution. Only a reconciliation enqueues CI repairs. -/
def Op.independent : Op → Bool
  | .enqueue spec _ => spec.kind ≠ .ciRepair
  | .markWaitingApproval .. | .markSucceeded .. | .markFailed .. => false
  | _ => true

/-- A granted lease starts an execution. -/
def Event.started : Event → List Execution
  | (.leaseNext workerId _, .leased (some lease)) => [⟨workerId, lease, .leased⟩]
  | _ => []

inductive Action
  | call (event : Event)
  | observe (row : PullRequestRow)
  | push (key : PullRequestKey) (pullRequest : GitHubPullRequest)
  | load (execution : Execution) (context : PullRequestContext)
  | read (execution : Execution) (data : ReadSet)
  | save (execution : Execution)
  | followUp (execution : Execution) (event : Event)
  | noFollowUp (execution : Execution)
  | repair (execution : Execution) (context : PullRequestContext)
      (outcome : Except WorkerError CiOutcome)
  | complete (execution : Execution) (event : Event)
  | abandon (execution : Execution)

/-- The call on the queue that an action makes. -/
def Action.event : Action → Option Event
  | .call event | .followUp _ event | .complete _ event => some event
  | _ => none

def Execution.at (execution : Execution) (stage : Stage) : Execution := { execution with stage }

section Steps

variable (sha256Hex : List Char → String) (fromValue : Json → Option PiJobResult)

inductive WorkerSystem.Step (system : WorkerSystem) : Action → WorkerSystem → Prop
  | call {after : Database} (event : Event) (free : event.1.independent = true)
      (called : system.db.Step event after) :
      system.Step (.call event)
        { system with db := after, executions := system.executions ++ event.started }
  -- Webhooks and the periodic inventory write the row of a pull request.
  | observe (row : PullRequestRow) :
      system.Step (.observe row)
        { system with pullRequests := upsertPullRequest system.pullRequests row }
  | push (key : PullRequestKey) (pullRequest : GitHubPullRequest) :
      system.Step (.push key pullRequest)
        { system with github := Function.update system.github key pullRequest }
  | load {executions : List Execution} (execution : Execution) (context : PullRequestContext)
      (stage : execution.stage = .leased)
      (found : pullRequestContext system.pullRequests execution.lease.key = some context)
      (next : Replaces system.executions execution [execution.at (.loaded context)] executions) :
      system.Step (.load execution context) { system with executions }
  | read {executions : List Execution} (execution : Execution) (context : PullRequestContext)
      (kind : execution.lease.kind = .reconcile) (stage : execution.stage = .loaded context)
      (next : Replaces system.executions execution
        [execution.at (.read context (system.github execution.lease.key).readSet)] executions) :
      system.Step (.read execution (system.github execution.lease.key).readSet)
        { system with executions }
  | save {executions : List Execution} (execution : Execution) (context : PullRequestContext)
      (data : ReadSet) (stage : execution.stage = .read context data)
      (next : Replaces system.executions execution [execution.at (.saved context data)] executions) :
      system.Step (.save execution)
        { system with
          pullRequests := upsertPullRequest system.pullRequests (savedRow context data system.db.now)
          executions }
  | followUp {after : Database} {executions : List Execution} {reply : Reply}
      (execution : Execution) (context : PullRequestContext) (data : ReadSet)
      (policyRevision : String) (proposedId : Uuid) (stage : execution.stage = .saved context data)
      (failed : data.failedChecks ≠ [])
      (called : system.db.Step
        (.enqueue (ciRepairSpec context policyRevision data) proposedId, reply) after)
      (next : Replaces system.executions execution [execution.at .reconciled] executions) :
      system.Step
        (.followUp execution (.enqueue (ciRepairSpec context policyRevision data) proposedId, reply))
        { system with db := after, executions }
  | noFollowUp {executions : List Execution} (execution : Execution)
      (context : PullRequestContext) (data : ReadSet) (stage : execution.stage = .saved context data)
      (passed : data.failedChecks = [])
      (next : Replaces system.executions execution [execution.at .reconciled] executions) :
      system.Step (.noFollowUp execution) { system with executions }
  -- The head that the repair compares comes from GitHub at this moment.
  | repair {executions : List Execution} (execution : Execution) (context : CiRepairContext)
      (answers : CiAnswers) (reply : PiReply) (kind : execution.lease.kind = .ciRepair)
      (stage : execution.stage = .loaded context.pullRequest)
      (current : ∀ head, answers.head = .ok head → head = (system.github execution.lease.key).head)
      (next : Replaces system.executions execution [execution.at .repaired] executions) :
      system.Step (.repair execution context.pullRequest
        (ciRepair sha256Hex fromValue context answers execution.lease.id execution.lease.plan reply))
        { system with executions }
  | complete {after : Database} {executions : List Execution} (execution : Execution)
      (event : Event) (may : execution.MayComplete event.1) (called : system.db.Step event after)
      (next : Replaces system.executions execution [] executions) :
      system.Step (.complete execution event) { system with db := after, executions }
  | abandon {executions : List Execution} (execution : Execution)
      (next : Replaces system.executions execution [] executions) :
      system.Step (.abandon execution) { system with executions }

end Steps

/-- The system starts without jobs and without executions. -/
structure WorkerSystem.Initial (system : WorkerSystem) : Prop where
  jobs : system.db.jobs = []
  executions : system.executions = []

end PiTools
