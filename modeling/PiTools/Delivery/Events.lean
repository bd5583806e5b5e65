import PiTools.Delivery.Statements
import PiTools.Library.Outcome
import PiTools.Reconcile.ReadSet

/-
This file reads the parts of a GitHub event out of its payload.
-/

namespace PiTools

open Library

/-! ### Deliveries -/

/-- A delivery with the parts of its payload that `from_payload` extracts. -/
structure WebhookEnvelope extends DeliveryEnvelope where
  eventName : String
  action : Option String
  installationId : Option Int
  repositoryId : Option Int
  pullRequestNumber : Option Int
  payload : Json
  deriving DecidableEq

/-- The number of the pull request that the payload names. -/
def payloadPullRequestNumber (payload : Json) : Option Int :=
  ((payload.pointer ["pull_request", "number"]).or <|
    (payload.pointer ["issue", "number"]).or <|
    (payload.pointer ["check_run", "pull_requests", "0", "number"]).or <|
    (payload.pointer ["check_suite", "pull_requests", "0", "number"]).or <|
    payload.pointer ["workflow_run", "pull_requests", "0", "number"]).bind Json.asInt32

def WebhookEnvelope.fromPayload (deliveryId eventName : String) (payload : Json)
    (rawBody : List UInt8) : WebhookEnvelope where
  deliveryId
  rawBody
  eventName
  action := (payload.get "action").bind Json.asStr
  installationId := (payload.pointer ["installation", "id"]).bind Json.asInt64
  repositoryId := (payload.pointer ["repository", "id"]).bind Json.asInt64
  pullRequestNumber := payloadPullRequestNumber payload
  payload

def supportedEvents : List String :=
  ["installation", "installation_repositories", "pull_request", "pull_request_review",
    "pull_request_review_comment", "issue_comment", "check_run", "check_suite", "workflow_run",
    "status"]

def WebhookEnvelope.isSupported (delivery : WebhookEnvelope) : Bool :=
  supportedEvents.contains delivery.eventName

inductive AccessLifecycle
  | suspendInstallation
  | resumeInstallation
  | deleteInstallation
  | removeRepositories
  | addRepositories
  deriving DecidableEq, Repr

def WebhookEnvelope.accessLifecycle (delivery : WebhookEnvelope) : Option AccessLifecycle :=
  if delivery.eventName = "installation" then
    match delivery.action with
    | some "suspend" => some .suspendInstallation
    | some "unsuspend" => some .resumeInstallation
    | some "deleted" => some .deleteInstallation
    | _ => none
  else if delivery.eventName = "installation_repositories" then
    match delivery.action with
    | some "removed" => some .removeRepositories
    | some "added" => some .addRepositories
    | _ => none
  else none

def WebhookEnvelope.headSha (delivery : WebhookEnvelope) : Option String :=
  ((delivery.payload.get "sha").bind Json.asStr).or <|
    ((delivery.payload.pointer ["workflow_run", "head_sha"]).bind Json.asStr).or <|
    ((delivery.payload.pointer ["check_run", "head_sha"]).bind Json.asStr).or <|
    (delivery.payload.pointer ["check_suite", "head_sha"]).bind Json.asStr

/-! ### Records -/

inductive EventParseError
  | missing (field : String)
  | invalid (field value : String)
  deriving DecidableEq, Repr

def EventParseError.text : EventParseError → String
  | .missing field => "missing GitHub event field: " ++ field
  | .invalid field value => "invalid GitHub event field " ++ field ++ ": " ++ value

inductive PullRequestState
  | open
  | closed
  | merged
  deriving DecidableEq, Repr

structure PullRequestSnapshot where
  repositoryId : Int
  githubId : Int
  number : Int
  title : String
  url : String
  state : PullRequestState
  draft : Bool
  merged : Bool
  headSha : String
  baseSha : String
  headBranch : String
  baseBranch : String
  authorLogin : String
  updatedAt : Timestamp
  deriving DecidableEq, Repr

def requiredI64 (value : Json) (field : String) : Except EventParseError Int :=
  okOr ((value.get field).bind Json.asInt64) (.missing field)

def requiredString (value : Json) (field : String) : Except EventParseError String :=
  okOr ((value.get field).bind Json.asStr) (.missing field)

def requiredNestedString (value : Json) (object field : String) : Except EventParseError String :=
  okOr (((value.get object).bind fun inner => inner.get field).bind Json.asStr)
    (.missing "pull_request.head/base field")

/-- A merged pull request has no other state. -/
def pullRequestState (pullRequest : Json) (merged : Bool) :
    Except EventParseError PullRequestState :=
  if merged then .ok .merged
  else match requiredString pullRequest "state" with
    | .error reason => .error reason
    | .ok "open" => .ok .open
    | .ok "closed" => .ok .closed
    | .ok other => .error (.invalid "pull_request.state" other)

section Parsing

variable (parseFromRfc3339 : String → Option Timestamp)

def parseTimestamp (value : Json) (field : String) : Except EventParseError Timestamp :=
  match requiredString value field with
  | .error reason => .error reason
  | .ok source => okOr (parseFromRfc3339 source) (.invalid field source)

/-- The fields are read in the order in which the first missing one is reported. -/
def WebhookEnvelope.payloadPullRequest (delivery : WebhookEnvelope) :
    Except EventParseError PullRequestSnapshot := do
  let pullRequest ← okOr (delivery.payload.get "pull_request") (.missing "pull_request")
  let repositoryId ← okOr delivery.repositoryId (.missing "repository.id")
  let githubId ← requiredI64 pullRequest "id"
  let number ← okOr delivery.pullRequestNumber (.missing "pull_request.number")
  let title ← requiredString pullRequest "title"
  let url ← okOr (((pullRequest.get "html_url").or (pullRequest.get "url")).bind Json.asStr)
    (.missing "pull_request.html_url")
  let merged := ((pullRequest.get "merged").bind Json.asBool).getD false
  let state ← pullRequestState pullRequest merged
  let authorLogin ← okOr ((pullRequest.pointer ["user", "login"]).bind Json.asStr)
    (.missing "pull_request.user.login")
  let updatedAt ← parseTimestamp parseFromRfc3339 pullRequest "updated_at"
  let headSha ← requiredNestedString pullRequest "head" "sha"
  let baseSha ← requiredNestedString pullRequest "base" "sha"
  let headBranch ← requiredNestedString pullRequest "head" "ref"
  let baseBranch ← requiredNestedString pullRequest "base" "ref"
  pure
    { repositoryId, githubId, number, title, url, state
      draft := ((pullRequest.get "draft").bind Json.asBool).getD false
      merged, headSha, baseSha, headBranch, baseBranch, authorLogin, updatedAt }

def WebhookEnvelope.pullRequestSnapshot (delivery : WebhookEnvelope) :
    Except EventParseError (Option PullRequestSnapshot) :=
  if delivery.eventName = "pull_request" then
    (delivery.payloadPullRequest parseFromRfc3339).map some
  else .ok none

end Parsing

/-- The prefix of the identifier and the object that carries the feedback. -/
def WebhookEnvelope.feedbackSource (delivery : WebhookEnvelope) : Option (String × String) :=
  if delivery.eventName = "issue_comment" ∧
      (delivery.payload.pointer ["issue", "pull_request"]).isSome then
    some ("issue-comment", "comment")
  else if delivery.eventName = "pull_request_review" then some ("review", "review")
  else if delivery.eventName = "pull_request_review_comment" then some ("review-comment", "comment")
  else none

def WebhookEnvelope.payloadFeedback (delivery : WebhookEnvelope) (kind object : String) :
    Except EventParseError Reconcile.FeedbackRecord := do
  let id ← okOr ((delivery.payload.pointer [object, "id"]).bind Json.asInt64)
    (.missing "feedback.id")
  let actorLogin ← okOr ((delivery.payload.pointer [object, "user", "login"]).bind Json.asStr)
    (.missing "feedback.user.login")
  let actorType :=
    ((delivery.payload.pointer [object, "user", "type"]).bind Json.asStr).getD "User"
  pure
    { id := kind ++ ":" ++ toString id
      actorLogin, actorType
      body := ((delivery.payload.pointer [object, "body"]).bind Json.asStr).getD ""
      resolved := delivery.action = some "dismissed"
      isAutomation := actorType = "Bot"
      path := (delivery.payload.pointer ["comment", "path"]).bind Json.asStr
      startLine := (delivery.payload.pointer ["comment", "start_line"]).bind Json.asUInt32
      line := (delivery.payload.pointer ["comment", "line"]).bind Json.asUInt32 }

def WebhookEnvelope.feedbackRecord (delivery : WebhookEnvelope) :
    Except EventParseError (Option Reconcile.FeedbackRecord) :=
  match delivery.feedbackSource with
  | none => .ok none
  | some (kind, object) => (delivery.payloadFeedback kind object).map some

def WebhookEnvelope.payloadCheck (delivery : WebhookEnvelope) :
    Except EventParseError CheckRecord := do
  let checkRun ← okOr (delivery.payload.get "check_run") (.missing "check_run")
  let externalId ← okOr ((checkRun.get "id").bind Json.asInt64) (.missing "check_run.id")
  let name ← okOr ((checkRun.get "name").bind Json.asStr) (.missing "check_run.name")
  let status ← okOr ((checkRun.get "status").bind Json.asStr) (.missing "check_run.status")
  pure
    { externalId := toString externalId
      name
      appId := ((checkRun.get "app").bind fun app => app.get "id").bind Json.asInt64
      status
      conclusion := (checkRun.get "conclusion").bind Json.asStr
      detailsUrl := (checkRun.get "details_url").bind Json.asStr }

def WebhookEnvelope.checkRecord (delivery : WebhookEnvelope) :
    Except EventParseError (Option CheckRecord) :=
  if delivery.eventName = "check_run" then delivery.payloadCheck.map some else .ok none

end PiTools
