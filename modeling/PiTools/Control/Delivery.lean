import PiTools.Delivery.Application

/-
This file reads a control out of a delivery and decides whether its sender may
use it.
-/

namespace PiTools

open Library

/-! ### Deliveries -/

structure CheckRunControl where
  checkRunId : Int
  action : String
  actorLogin : String
  deriving DecidableEq, Repr

/-- Only a requested action on a Check Run is a control. -/
def WebhookEnvelope.isControl (delivery : WebhookEnvelope) : Bool :=
  delivery.eventName = "check_run" && delivery.action = some "requested_action"

def WebhookEnvelope.requestedControl (delivery : WebhookEnvelope) :
    Except EventParseError CheckRunControl := do
  let checkRunId ← okOr ((delivery.payload.pointer ["check_run", "id"]).bind Json.asInt64)
    (.missing "check_run.id")
  let action ← okOr ((delivery.payload.pointer ["requested_action", "identifier"]).bind Json.asStr)
    (.missing "requested_action.identifier")
  let actorLogin ← okOr ((delivery.payload.pointer ["sender", "login"]).bind Json.asStr)
    (.missing "sender.login")
  pure ⟨checkRunId, action, actorLogin⟩

def WebhookEnvelope.checkRunControl (delivery : WebhookEnvelope) :
    Except EventParseError (Option CheckRunControl) :=
  if delivery.isControl then delivery.requestedControl.map some else .ok none

/-! ### Controls -/

inductive ControlAction
  | approvePlan
  | skipCurrentItem
  | cancelRun
  deriving DecidableEq, Repr

inductive ControlError
  | unknownAction
  | unauthorized
  | duplicateAction
  | runNotActive
  | approvalNotApplicable
  | noCurrentItem
  deriving DecidableEq, Repr

def ControlAction.parse (value : String) : Except ControlError ControlAction :=
  if value = "approve-plan" then .ok .approvePlan
  else if value = "skip-current-item" then .ok .skipCurrentItem
  else if value = "cancel-run" then .ok .cancelRun
  else .error .unknownAction

/-- The call on the queue that carries an action out. -/
def ControlAction.op (action : ControlAction) (jobId : Uuid) : Op :=
  match action with
  | .approvePlan => .approvePlan jobId
  | .skipCurrentItem => .skipCurrentItem jobId
  | .cancelRun => .requestCancel jobId

theorem ControlAction.op_target (action : ControlAction) (jobId : Uuid) :
    (action.op jobId).target = some jobId := by
  cases action <;> rfl

def ControlAction.summary : ControlAction → String
  | .approvePlan => "approve-plan requested"
  | .skipCurrentItem => "skip-current-item requested"
  | .cancelRun => "cancel-run requested"

def eqIgnoreAsciiCase (first second : String) : Bool :=
  asciiLowercase first.toList = asciiLowercase second.toList

def isAuthorized (actorLogin prAuthor : String) (maintainers : List String) : Bool :=
  actorLogin ≠ "" &&
    ((prAuthor ≠ "" && eqIgnoreAsciiCase actorLogin prAuthor) ||
      maintainers.any fun maintainer =>
        maintainer ≠ "" && eqIgnoreAsciiCase actorLogin maintainer)

/-- An authorized actor has a name, and it is the name of the author or of a maintainer. -/
theorem isAuthorized_spec {actorLogin prAuthor : String} {maintainers : List String}
    (authorized : isAuthorized actorLogin prAuthor maintainers = true) :
    actorLogin ≠ "" ∧ (eqIgnoreAsciiCase actorLogin prAuthor = true ∨
      ∃ maintainer ∈ maintainers, eqIgnoreAsciiCase actorLogin maintainer = true) := by
  simp only [isAuthorized, Bool.and_eq_true, Bool.or_eq_true, decide_eq_true_eq, List.any_eq_true]
    at authorized
  obtain ⟨named, author | ⟨maintainer, member, same⟩⟩ := authorized
  · exact ⟨named, .inl author.2⟩
  · exact ⟨named, .inr ⟨maintainer, member, same.2⟩⟩

/-! ### The stored context -/

/-- The active repository of an installation that is not suspended. -/
def Registry.repository (registry : Registry) (repositoryId : Int) : Option RepositoryRecord :=
  registry.repositories.find? fun repository => repository.id = repositoryId && repository.active &&
    registry.installations.any fun installation =>
      installation.id = repository.installationId && installation.suspended = false

structure ControlContext where
  jobId : Uuid
  repositoryId : Int
  pullRequestNumber : Int
  prAuthor : String
  policyYaml : String
  deriving DecidableEq, Repr

/-- The job joined with its pull request and its repository. -/
def Registry.context (registry : Registry) (job : Job) : Option ControlContext := do
  let pullRequest ← registry.pullRequests.find? fun pullRequest =>
    pullRequest.repositoryId = job.repositoryId && pullRequest.number = job.pullRequestNumber
  let repository ← registry.repository job.repositoryId
  pure ⟨job.id, job.repositoryId, job.pullRequestNumber, pullRequest.authorLogin,
    repository.policyYaml⟩

/-- The context of the newest job with the Check Run. -/
def controlContext (db : Database) (registry : Registry) (checkRunId : Int) :
    Option ControlContext :=
  (selectFirst (fun first second => second.createdAt < first.createdAt)
    (db.jobs.filter fun job =>
      job.checkRunId = some checkRunId && (registry.context job).isSome)).bind registry.context

/-- A context describes the row of its job. -/
theorem controlContext_job {db : Database} {registry : Registry} {checkRunId : Int}
    {context : ControlContext} (found : controlContext db registry checkRunId = some context) :
    ∃ job ∈ db.jobs, job.id = context.jobId ∧ job.repositoryId = context.repositoryId ∧
      job.pullRequestNumber = context.pullRequestNumber := by
  obtain ⟨job, selected, joined⟩ := Option.bind_eq_some_iff.mp found
  simp only [Registry.context, Option.bind_eq_bind, Option.bind_eq_some_iff, Option.pure_def,
    Option.some.injEq] at joined
  obtain ⟨_, _, _, _, rfl⟩ := joined
  exact ⟨job, List.mem_of_mem_filter (selectFirst_mem selected), rfl, rfl, rfl⟩

/-- The repository and the pull request of the delivery are those of the job. -/
def controlDeliveryMatchesContext (delivery : WebhookEnvelope) (context : ControlContext) : Bool :=
  delivery.repositoryId = some context.repositoryId &&
    delivery.pullRequestNumber = some context.pullRequestNumber

/-! ### The decision -/

inductive WorkflowError
  | policy (message : String)
  | event (reason : EventParseError)
  | repository (reason : RepositoryError)
  | queue (reason : StorageError)
  deriving DecidableEq, Repr

inductive ControlDisposition
  | notAControlEvent
  | unknownCheckRun
  | rejectedContext
  | rejectedUnknown
  | rejectedUnauthorized
  | duplicate
  | applied
  | runNotActive
  deriving DecidableEq, Repr

inductive ControlDecision
  | rejectedContext
  | rejectedUnknown
  | rejectedUnauthorized
  | accepted (action : ControlAction)
  deriving DecidableEq, Repr

def ControlDecision.text : ControlDecision → String
  | .rejectedContext => "rejected-context"
  | .rejectedUnknown => "rejected-unknown"
  | .rejectedUnauthorized => "rejected-unauthorized"
  | .accepted _ => "accepted"

/-- An empty policy is the default policy, which has no maintainers. -/
def policyMaintainers (fromYaml : String → Except String (List String)) (policyYaml : String) :
    Except WorkflowError (List String) :=
  if blank policyYaml.toList then .ok []
  else match fromYaml policyYaml with
    | .error message => .error (.policy message)
    | .ok maintainers => .ok maintainers

/-- The checks of `process_check_run_control` in their order. -/
def decideControl (fromYaml : String → Except String (List String)) (delivery : WebhookEnvelope)
    (control : CheckRunControl) (context : ControlContext) :
    Except WorkflowError ControlDecision :=
  if controlDeliveryMatchesContext delivery context = false then .ok .rejectedContext
  else match policyMaintainers fromYaml context.policyYaml with
    | .error reason => .error reason
    | .ok maintainers =>
        match ControlAction.parse control.action with
        | .error _ => .ok .rejectedUnknown
        | .ok action =>
            if isAuthorized control.actorLogin context.prAuthor maintainers then
              .ok (.accepted action)
            else .ok .rejectedUnauthorized

/-- An accepted control passed every check. -/
theorem decideControl_accepted {fromYaml : String → Except String (List String)}
    {delivery : WebhookEnvelope} {control : CheckRunControl} {context : ControlContext}
    {action : ControlAction}
    (accepted : decideControl fromYaml delivery control context = .ok (.accepted action)) :
    controlDeliveryMatchesContext delivery context = true ∧
      ControlAction.parse control.action = .ok action ∧ ∃ maintainers,
        policyMaintainers fromYaml context.policyYaml = .ok maintainers ∧
          isAuthorized control.actorLogin context.prAuthor maintainers = true := by
  unfold decideControl at accepted
  split at accepted
  · cases accepted
  · rename_i matching
    split at accepted
    · cases accepted
    · rename_i maintainers known
      split at accepted
      · cases accepted
      · rename_i parsed named
        split at accepted
        · rename_i authorized
          cases accepted
          exact ⟨by simpa using matching, named, maintainers, known, authorized⟩
        · cases accepted

end PiTools
