import Mathlib.Data.Int.Order.Basic
import Mathlib.Data.List.Destutter
import Mathlib.Data.String.Basic
import PiTools.Library.Entries
import PiTools.Library.Text

/-
This file defines what reconciliation reads from GitHub and the records that it
makes of it.
-/

namespace PiTools

structure CheckRecord where
  externalId : String
  name : String
  appId : Option Int
  status : String
  conclusion : Option String
  detailsUrl : Option String
  deriving DecidableEq, Repr

namespace Reconcile

open Library

/-! ### GitHub -/

structure GitHubCommentAuthor where
  login : String
  actorType : String
  deriving DecidableEq, Repr

structure PullRequestReview where
  id : Int
  body : Option String
  state : String
  submittedAt : Option String
  commitId : Option String
  user : GitHubCommentAuthor
  deriving DecidableEq, Repr

structure PullRequestComment where
  id : Int
  body : Option String
  user : GitHubCommentAuthor
  path : Option String
  startLine : Option Nat
  line : Option Nat
  deriving DecidableEq, Repr

structure CheckApp where
  id : Int
  deriving DecidableEq, Repr

structure GitHubCheckRun where
  id : Int
  name : String
  status : String
  conclusion : Option String
  detailsUrl : Option String
  app : Option CheckApp
  deriving DecidableEq, Repr

structure CommitStatus where
  id : Int
  context : String
  state : String
  targetUrl : Option String
  deriving DecidableEq, Repr

structure RequiredStatusCheck where
  context : String
  appId : Option Int
  deriving DecidableEq, Repr

structure RequiredStatusChecks where
  contexts : List String
  checks : List RequiredStatusCheck
  deriving Repr

structure RequiredPullRequestReviews where
  requireCodeOwnerReviews : Bool := false
  requiredApprovingReviewCount : Nat := 0
  requireLastPushApproval : Bool := false
  deriving Repr

structure BranchProtection where
  requiredStatusChecks : Option RequiredStatusChecks
  requiredPullRequestReviews : Option RequiredPullRequestReviews
  deriving Repr

/-- The state of the pull request itself. -/
structure GitHubPullRequest where
  draft : Bool
  mergeableState : Option String
  mergeable : Option Bool
  headSha : String
  baseSha : String
  deriving Repr

structure PullRequestReadSet where
  pullRequest : GitHubPullRequest
  baseBranchSha : String
  branchProtection : BranchProtection
  reviews : List PullRequestReview
  issueComments : List PullRequestComment
  reviewComments : List PullRequestComment
  checkRuns : List GitHubCheckRun
  statuses : List CommitStatus
  deriving Repr

/-- The fields of the policy that reconciliation and readiness read. -/
structure Policy where
  automationActors : List String
  requiredChecks : List String
  requireApproval : Bool
  requireCurrentBranch : Bool
  deriving Repr

def Policy.isConfiguredAutomationActor (policy : Policy) (login : String) : Bool :=
  policy.automationActors.any fun actor => actor = login

/-! ### Feedback -/

structure FeedbackRecord where
  id : String
  actorLogin : String
  actorType : String
  body : String
  resolved : Bool
  isAutomation : Bool
  path : Option String
  startLine : Option Nat
  line : Option Nat
  deriving DecidableEq, Repr

def nonemptyBody (body : Option String) : Option String :=
  (body.map fun body => String.ofList (trim body.toList)).filter fun body => body ≠ ""

def isAutomation (login actorType : String) (policy : Policy) : Bool :=
  actorType = "Bot" || policy.isConfiguredAutomationActor login

/-- Reviews are ordered by their times and then by their ids, and those without a time are first. -/
def reviewOrder (left right : PullRequestReview) : Bool :=
  match left.submittedAt, right.submittedAt with
  | none, none => left.id ≤ right.id
  | none, some _ => true
  | some _, none => false
  | some first, some second => first < second || (first = second && left.id ≤ right.id)

def isDecision (review : PullRequestReview) : Bool :=
  review.state = "APPROVED" || review.state = "CHANGES_REQUESTED" || review.state = "DISMISSED"

def orderedDecisions (reviews : List PullRequestReview) : List PullRequestReview :=
  (reviews.insertionSort fun left right => reviewOrder left right).filter isDecision

def latestReviewDecisions (reviews : List PullRequestReview) : Entries String String :=
  Entries.collect ((orderedDecisions reviews).map fun review => (review.user.login, review.state))

def latestReviewReviews (reviews : List PullRequestReview) : Entries String PullRequestReview :=
  Entries.collect ((orderedDecisions reviews).map fun review => (review.user.login, review))

def closesFeedback (state : String) : Bool := state = "APPROVED" || state = "DISMISSED"

def reviewRecord (latest : Entries String String) (policy : Policy) (review : PullRequestReview) :
    Option FeedbackRecord :=
  (nonemptyBody review.body).map fun body =>
    { id := "review:" ++ toString review.id
      actorLogin := review.user.login
      actorType := review.user.actorType
      body
      resolved := closesFeedback review.state ||
        (latest.lookup review.user.login).any closesFeedback
      isAutomation := isAutomation review.user.login review.user.actorType policy
      path := none
      startLine := none
      line := none }

def commentRecord (kind : String) (policy : Policy) (comment : PullRequestComment) :
    Option FeedbackRecord :=
  (nonemptyBody comment.body).map fun body =>
    { id := kind ++ ":" ++ toString comment.id
      actorLogin := comment.user.login
      actorType := comment.user.actorType
      body
      resolved := false
      isAutomation := isAutomation comment.user.login comment.user.actorType policy
      path := comment.path
      startLine := comment.startLine
      line := comment.line }

def feedbackRecords (data : PullRequestReadSet) (policy : Policy) : List FeedbackRecord :=
  let latest := latestReviewDecisions data.reviews
  let records := data.reviews.filterMap (reviewRecord latest policy) ++
    data.issueComments.filterMap (commentRecord "issue-comment" policy) ++
    data.reviewComments.filterMap (commentRecord "review-comment" policy)
  (records.insertionSort fun left right => left.id ≤ right.id).destutter
    fun left right => left.id ≠ right.id

/-- The number of approvals of the head, and whether an approval of another head exists. -/
def currentApprovalCount (reviews : List PullRequestReview) (headSha : String) : Nat × Bool :=
  (latestReviewReviews reviews).foldl (fun counted entry =>
    if entry.2.state ≠ "APPROVED" then counted
    else if entry.2.commitId.all fun commit => commit = headSha then (counted.1 + 1, counted.2)
    else (counted.1, true)) (0, false)

/-! ### Checks -/

def requiredStatusChecks (data : PullRequestReadSet) : List RequiredStatusCheck :=
  (data.branchProtection.requiredStatusChecks.map RequiredStatusChecks.checks).getD []

def requiredContexts (data : PullRequestReadSet) : List String :=
  (data.branchProtection.requiredStatusChecks.map RequiredStatusChecks.contexts).getD []

/-- The names of the policy and of the branch protection, each one once. -/
def requiredCheckNames (data : PullRequestReadSet) (policy : Policy) : List String :=
  (Entries.collect ((policy.requiredChecks ++ requiredContexts data ++
    (requiredStatusChecks data).map RequiredStatusCheck.context).map fun name => (name, ()))).map
      Prod.fst

def commitStatusState (state : String) : String × Option String :=
  if state = "success" then ("completed", some "success")
  else if state = "failure" || state = "error" then ("completed", some "failure")
  else if state = "pending" then ("in_progress", none)
  else ("unknown", none)

def CommitStatus.record (status : CommitStatus) : CheckRecord where
  externalId := "status:" ++ toString status.id
  name := status.context
  appId := none
  status := (commitStatusState status.state).1
  conclusion := (commitStatusState status.state).2
  detailsUrl := status.targetUrl

def GitHubCheckRun.record (run : GitHubCheckRun) : CheckRecord where
  externalId := toString run.id
  name := run.name
  appId := run.app.map CheckApp.id
  status := run.status
  conclusion := run.conclusion
  detailsUrl := run.detailsUrl

def sortedStatuses (data : PullRequestReadSet) : List CommitStatus :=
  data.statuses.insertionSort fun left right => left.id ≤ right.id

def sortedCheckRuns (data : PullRequestReadSet) : List GitHubCheckRun :=
  data.checkRuns.insertionSort fun left right => left.id ≤ right.id

/-- The records by their names, where a later one replaces an earlier one. -/
def recordsByName (data : PullRequestReadSet) : Entries String CheckRecord :=
  Entries.collect
    ((sortedStatuses data).map (fun status => (status.context, status.record)) ++
      (sortedCheckRuns data).map fun run => (run.name, run.record))

def checkRecords (data : PullRequestReadSet) : List CheckRecord :=
  (recordsByName data).map Prod.snd

/-- The app of the first required check with the name. -/
def requiredCheckAppId (data : PullRequestReadSet) (name : String) : Option Int :=
  ((requiredStatusChecks data).find? fun check => check.context = name).bind
    RequiredStatusCheck.appId

end Reconcile

end PiTools
