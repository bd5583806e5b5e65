import PiTools.Reconcile.ReadSet

/-
This file defines the readiness of a pull request and the reasons against it.
-/

namespace PiTools.Reconcile

open Library

inductive CheckStatus
  | queued
  | inProgress
  | completed
  | unknown
  deriving DecidableEq, Repr

inductive CheckConclusion
  | success
  | failure
  | cancelled
  | timedOut
  | neutral
  | skipped
  | actionRequired
  | stale
  | startupFailure
  | unknown
  deriving DecidableEq, Repr

structure CheckSnapshot where
  name : String
  appId : Option Int
  requiredAppId : Option Int
  status : CheckStatus
  conclusion : Option CheckConclusion
  required : Bool
  deriving DecidableEq, Repr

structure FeedbackSnapshot where
  id : String
  actorLogin : String
  actorType : String
  body : String
  resolved : Bool
  isAutomation : Bool
  deriving DecidableEq, Repr

structure ReadinessInput where
  mergeable : Option Bool
  branchIsCurrent : Bool
  requiredChecks : List CheckSnapshot
  approved : Bool
  approvalCount : Nat
  requiredApprovalCount : Nat
  staleApprovalPresent : Bool
  lastPushApprovalRequired : Bool
  latestPushApproval : Bool
  codeOwnerReviewRequired : Bool
  codeOwnerReviewSatisfied : Bool
  unresolvedFeedback : List FeedbackSnapshot
  isDraft : Bool
  deriving DecidableEq, Repr

/-! ### Reconciliation -/

def checkStatus (status : String) : CheckStatus :=
  if status ∈ ["queued", "pending", "requested", "waiting"] then .queued
  else if status = "in_progress" then .inProgress
  else if status = "completed" then .completed
  else .unknown

def checkConclusion (conclusion : String) : CheckConclusion :=
  if conclusion = "success" then .success
  else if conclusion = "failure" then .failure
  else if conclusion = "cancelled" then .cancelled
  else if conclusion = "timed_out" then .timedOut
  else if conclusion = "neutral" then .neutral
  else if conclusion = "skipped" then .skipped
  else if conclusion = "action_required" then .actionRequired
  else if conclusion = "stale" then .stale
  else if conclusion = "startup_failure" then .startupFailure
  else .unknown

def CheckRecord.snapshot (data : PullRequestReadSet) (requiredNames : List String)
    (check : CheckRecord) : CheckSnapshot where
  name := check.name
  appId := check.appId
  requiredAppId := requiredCheckAppId data check.name
  status := checkStatus check.status
  conclusion := check.conclusion.map checkConclusion
  required := check.name ∈ requiredNames

def missingCheck (data : PullRequestReadSet) (name : String) : CheckSnapshot where
  name := name
  appId := none
  requiredAppId := requiredCheckAppId data name
  status := .unknown
  conclusion := none
  required := true

/-- A name without a check gets the missing one. -/
def orMissing (data : PullRequestReadSet) (checks : Entries String CheckSnapshot) (name : String) :
    Entries String CheckSnapshot :=
  if (checks.lookup name).isSome then checks else checks.insert name (missingCheck data name)

def readinessChecks (data : PullRequestReadSet) (policy : Policy) : Entries String CheckSnapshot :=
  let requiredNames := requiredCheckNames data policy
  requiredNames.foldl (orMissing data)
    (Entries.collect ((checkRecords data).map fun check =>
      (check.name, CheckRecord.snapshot data requiredNames check)))

def FeedbackRecord.snapshot (record : FeedbackRecord) : FeedbackSnapshot where
  id := record.id
  actorLogin := record.actorLogin
  actorType := record.actorType
  body := record.body
  resolved := record.resolved
  isAutomation := record.isAutomation

def codeOwnerReviewSatisfied (mergeableState : Option String) : Bool :=
  mergeableState.any fun state => state ≠ "blocked" && state ≠ "unknown"

structure ReconciledPullRequest where
  readiness : ReadinessInput
  feedback : List FeedbackRecord
  checks : List CheckRecord

def reconcileReadSet (data : PullRequestReadSet) (policy : Policy) : ReconciledPullRequest :=
  let feedback := feedbackRecords data policy
  let (approvalCount, staleApprovalPresent) :=
    currentApprovalCount data.reviews data.pullRequest.headSha
  let requirements := data.branchProtection.requiredPullRequestReviews.getD {}
  let latestPushApproval := (latestReviewReviews data.reviews).any fun entry =>
    entry.2.state = "APPROVED" && entry.2.commitId = some data.pullRequest.headSha
  { readiness :=
      { mergeable := data.pullRequest.mergeable
        branchIsCurrent := data.pullRequest.baseSha = data.baseBranchSha
        requiredChecks := (readinessChecks data policy).map Prod.snd
        approved := 0 < approvalCount
        approvalCount
        requiredApprovalCount := requirements.requiredApprovingReviewCount
        staleApprovalPresent
        lastPushApprovalRequired := requirements.requireLastPushApproval
        latestPushApproval := latestPushApproval || 0 < approvalCount
        codeOwnerReviewRequired := requirements.requireCodeOwnerReviews
        codeOwnerReviewSatisfied := !requirements.requireCodeOwnerReviews ||
          codeOwnerReviewSatisfied data.pullRequest.mergeableState
        unresolvedFeedback :=
          (feedback.filter fun record => !record.resolved).map FeedbackRecord.snapshot
        isDraft := data.pullRequest.draft }
    feedback
    checks := checkRecords data }

/-! ### Evaluation -/

inductive ReadinessReason
  | draft
  | mergeabilityUnknown
  | mergeConflict
  | branchOutOfDate
  | requiredCheckPending
  | requiredCheckFailed
  | requiredCheckMissing
  | requiredCheckWrongApp
  | requiredReviewMissing
  | requiredReviewCountMissing
  | staleReview
  | lastPushApprovalMissing
  | codeOwnerReviewMissing
  | unresolvedAutomationFeedback
  deriving DecidableEq, Repr

/-- The reasons are sorted by these texts. -/
def ReadinessReason.debug : ReadinessReason → String
  | .draft => "Draft"
  | .mergeabilityUnknown => "MergeabilityUnknown"
  | .mergeConflict => "MergeConflict"
  | .branchOutOfDate => "BranchOutOfDate"
  | .requiredCheckPending => "RequiredCheckPending"
  | .requiredCheckFailed => "RequiredCheckFailed"
  | .requiredCheckMissing => "RequiredCheckMissing"
  | .requiredCheckWrongApp => "RequiredCheckWrongApp"
  | .requiredReviewMissing => "RequiredReviewMissing"
  | .requiredReviewCountMissing => "RequiredReviewCountMissing"
  | .staleReview => "StaleReview"
  | .lastPushApprovalMissing => "LastPushApprovalMissing"
  | .codeOwnerReviewMissing => "CodeOwnerReviewMissing"
  | .unresolvedAutomationFeedback => "UnresolvedAutomationFeedback"

/-- A reason holds when its condition does. -/
def reason (holds : Bool) (given : ReadinessReason) : List ReadinessReason :=
  if holds then [given] else []

def mergeReasons : Option Bool → List ReadinessReason
  | some true => []
  | some false => [.mergeConflict]
  | none => [.mergeabilityUnknown]

/-- What one check says about its name. -/
def checkReason (check : CheckSnapshot) : Option ReadinessReason :=
  if check.requiredAppId.isSome && check.appId ≠ check.requiredAppId then
    some .requiredCheckWrongApp
  else
    match check.status, check.conclusion with
    | .completed, some .success => none
    | .completed, some .skipped => none
    | .completed, _ => some .requiredCheckFailed
    | _, _ => some .requiredCheckPending

def requiredCheckReason (checks : List CheckSnapshot) (name : String) : Option ReadinessReason :=
  match checks.find? fun check => check.name = name with
  | none => some .requiredCheckMissing
  | some check => checkReason check

/-- The required names in their order, each one once. -/
def requiredNames (input : ReadinessInput) (policy : Policy) : List String :=
  let names := (input.requiredChecks.filter CheckSnapshot.required).map CheckSnapshot.name ++
    policy.requiredChecks
  (names.insertionSort (· ≤ ·)).destutter (· ≠ ·)

def countReasons (input : ReadinessInput) : List ReadinessReason :=
  if input.approvalCount < input.requiredApprovalCount then
    [if input.approvalCount = 0 then .requiredReviewMissing else .requiredReviewCountMissing]
  else []

def pushReasons (input : ReadinessInput) : List ReadinessReason :=
  if input.lastPushApprovalRequired && !input.latestPushApproval then
    [if input.staleApprovalPresent then .staleReview else .lastPushApprovalMissing]
  else []

/-- The reasons in the order in which they are found. -/
def foundReasons (input : ReadinessInput) (policy : Policy) : List ReadinessReason :=
  reason input.isDraft .draft ++ mergeReasons input.mergeable ++
    reason (policy.requireCurrentBranch && !input.branchIsCurrent) .branchOutOfDate ++
    (requiredNames input policy).filterMap (requiredCheckReason input.requiredChecks) ++
    reason (policy.requireApproval && !input.approved) .requiredReviewMissing ++
    countReasons input ++ pushReasons input ++
    reason (input.codeOwnerReviewRequired && !input.codeOwnerReviewSatisfied)
      .codeOwnerReviewMissing ++
    reason (input.unresolvedFeedback.any fun feedback =>
      policy.isConfiguredAutomationActor feedback.actorLogin && !feedback.resolved)
      .unresolvedAutomationFeedback

/-- The result without its time and its id. -/
structure ReadinessSnapshot where
  ready : Bool
  reasonCodes : List ReadinessReason
  deriving DecidableEq, Repr

def evaluate (input : ReadinessInput) (policy : Policy) : ReadinessSnapshot :=
  let reasonCodes := ((foundReasons input policy).insertionSort fun left right =>
    left.debug ≤ right.debug).destutter (· ≠ ·)
  ⟨reasonCodes.isEmpty, reasonCodes⟩

end PiTools.Reconcile
