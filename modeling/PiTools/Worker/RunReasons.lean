import PiTools.Worker.ExecuteJob

/-
This file defines what has to happen in the run of a job before each of its calls.
-/

namespace PiTools.Executor

open Library
open Stack (WorkspaceError)
open Reconcile (FeedbackRecord)

/-! ### Lease checks -/

/-- The answer of a lease check. -/
def Call.check : Call → Option (Except String Bool)
  | .assertLease answer => some answer
  | _ => none

/-- The call reports that the run failed. -/
def Call.failure : Call → Bool
  | .markFailed .. => true
  | _ => false

/-- The call completes the job. -/
def Call.closes : Call → Bool
  | .markSucceeded .. | .markFailed .. => true
  | _ => false

/-- The call asks for a change of a branch. -/
def Call.repairs : Call → Bool
  | .applyFeedback .. | .applyCiRepair .. | .stackRebase _ => true
  | _ => false

/-- The last lease check succeeded. -/
def Confirmed (log : List Call) : Prop := (log.filterMap Call.check).getLast? = some (.ok true)

/-- The last call is a lease check that succeeded. -/
def Fresh (log : List Call) : Prop := log.getLast? = some (.assertLease (.ok true))

/-- The call is no lease check and no repair, and does not complete the job. -/
def Call.Ordinary (call : Call) : Prop :=
  call.check = none ∧ call.repairs = false ∧ call.closes = false

theorem Fresh.confirmed {log : List Call} (fresh : Fresh log) : Confirmed log := by
  obtain ⟨front, rfl⟩ := List.getLast?_eq_some_iff.mp fresh
  simp [Confirmed, Call.check]

theorem fresh_snoc (log : List Call) : Fresh (log ++ [.assertLease (.ok true)]) := by
  simp [Fresh]

theorem Confirmed.snoc {log : List Call} {call : Call} (confirmed : Confirmed log)
    (other : call.check = none) : Confirmed (log ++ [call]) := by
  rw [Confirmed, List.filterMap_append, List.filterMap_cons_none other, List.filterMap_nil,
    List.append_nil]
  exact confirmed

/-! ### Reasons -/

section Reasons

variable {Content : Type} (world : World Content) (job : LeasedJob) (past : List Call)

/-- No branch was asked to change. -/
def Quiet : Prop := ∀ call ∈ past, call.repairs = false

/-- What the run loaded. -/
structure Loaded (context : Context) : Prop where
  repository : .repositoryContext (.ok (some context.repository)) ∈ past
  pullRequest : .pullRequestContext (.ok (some context.pullRequest)) ∈ past
  policy : .savePolicy context.policy (.ok ()) ∈ past

/-- GitHub has the stored head in the repository itself, and it was cloned. -/
structure AtHead (context : Context) : Prop extends Loaded past context where
  current : .getPullRequest (.ok ⟨some context.fullName, context.pullRequest.headSha,
    some context.pullRequest.headBranch⟩) ∈ past
  cloned : .cloneBranch context.pullRequest.headBranch context.pullRequest.headSha (.ok ()) ∈ past

def Authorized (context : Context) : Prop :=
  context.policy.requireApproval = true → planIsApproved world.sha256Hex job.plan = true

/-- The first feedback that is left is applied to the stored head. -/
structure FeedbackAdmitted (feedback : FeedbackRecord) : Prop where
  kind : job.kind = .feedbackRepair
  next : job.feedback = some feedback
  head : ∃ context, AtHead past context ∧ Authorized world job context
  first : Quiet past
  leased : Fresh past

/-- The plan stores the result, or Pi returned it to this run. -/
inductive Proposed (result : PiJobResult) : Prop
  | stored {value : Json} (found : job.plan.get "pi_result" = some value)
      (decoded : world.decodeResult value = .ok result)
  | returned {request : PiJobRequest} (absent : job.plan.get "pi_result" = none)
      (answered : .executePi request (.ok result) ∈ past)

/-- Only an approved plan has patches applied, whatever the policy says. -/
structure CiAdmitted (patches : List CiPatch) : Prop where
  kind : job.kind = .ciRepair
  wanted : planItemIsSkipped job.plan "ci_repair" = false
  approved : planIsApproved world.sha256Hex job.plan = true
  proposed : ∃ result, Proposed world job past result ∧ result.proposedPatches = patches ∧
    result.requiresApproval = true
  head : ∃ context, AtHead past context
  first : Quiet past
  leased : Fresh past

structure StackAdmitted : Prop where
  kind : job.kind = .stackRebase
  wanted : planItemIsSkipped job.plan "stack_rebase" = false
  authorized : ∃ context, Loaded past context ∧ Authorized world job context
  first : Quiet past

/-- The reply tells what the workspace did. A rejection has left the branch alone. -/
inductive Decided (feedback : FeedbackRecord) : FeedbackReply → Prop
  | applied {target : FeedbackReplyTarget} {outcome : Workspace.RepairCommit}
      (made : .applyFeedback feedback true (.ok outcome) ∈ past) :
      Decided feedback (.applied target outcome.path outcome.commit)
  | rejected {target : FeedbackReplyTarget} {error : WorkspaceError}
      (made : .applyFeedback feedback false (.error error) ∈ past)
      (final : Workspace.isDeterministicFeedbackRejection error = true) :
      Decided feedback (.rejected target)

/-- The comment is where the id of the feedback points to, and its thread is resolved. -/
inductive Told (feedback : FeedbackRecord) (body : List Char) : Prop
  | thread {commentId : Int} {threadId : String}
      (parsed : parseFeedbackCommentTarget feedback.id = .ok (.reviewComment commentId))
      (found : .reviewThreadId commentId (.ok (some threadId)) ∈ past)
      (replied : .replyToReviewComment commentId body (.ok ()) ∈ past)
      (resolved : .resolveReviewThread threadId (.ok ()) ∈ past)
  | conversation {commentId posted : Int}
      (parsed : parseFeedbackCommentTarget feedback.id = .ok (.pullRequestConversation commentId))
      (posted : .createIssueComment body (.ok posted) ∈ past)

/-- The result tells what the run did. -/
inductive Earned : Json → Prop
  | reconciled {reconciliation : Reconciliation} (kind : job.kind = .reconcile)
      (made : .reconcile (.ok reconciliation) ∈ past) : Earned reconciliation.toValue
  | skippedFeedback (kind : job.kind = .feedbackRepair)
      (skipped : unskippedFeedback job.plan = none) : Earned Success.skippedFeedback.toValue
  | skippedStack (kind : job.kind = .stackRebase)
      (skipped : planItemIsSkipped job.plan "stack_rebase" = true) :
      Earned Success.skippedStack.toValue
  | skippedCi (kind : job.kind = .ciRepair)
      (skipped : planItemIsSkipped job.plan "ci_repair" = true) : Earned Success.skippedCi.toValue
  | applied {feedback : FeedbackRecord} {target : FeedbackTarget} {path : List Char} {commit : String}
      (decided : Decided past feedback (.applied target.replyTarget path commit))
      (marked : .markFeedbackResolved feedback.id (.ok ()) ∈ past) :
      Earned (Success.applied target (String.ofList path) commit).toValue
  | rejected {feedback : FeedbackRecord} {target : FeedbackTarget}
      (decided : Decided past feedback (.rejected target.replyTarget))
      (marked : .markFeedbackRejected feedback.id (.ok ()) ∈ past) :
      Earned (Success.rejected target).toValue
  | diagnosed {result : PiJobResult} (proposed : Proposed world job past result)
      (unpatched : result.proposedPatches = []) : Earned (Success.diagnosed result).toValue
  | repaired {result : PiJobResult} {outcome : Workspace.CiRepairCommit}
      (proposed : Proposed world job past result)
      (made : .applyCiRepair result.proposedPatches true (.ok outcome) ∈ past) :
      Earned (Success.repaired outcome.paths outcome.commit result).toValue
  | rebased {report : Stack.StackReport} (kind : job.kind = .stackRebase)
      (made : .stackRebase (.ok report) ∈ past) : Earned (reportValue report)

/-- The summary is that of an earned result, or of an error. -/
inductive Summed : FinalSummary → Bool → Prop
  | earned {result : Json} {summary : FinalSummary} (earned : Earned world job past result)
      (made : resultSummary job result = .ok summary) : Summed summary (isCompleted result)
  | failed {error : WorkerError} {summary : FinalSummary}
      (made : errorSummary world job error = .ok summary) : Summed summary false

/-- The comment opens the work plan, reports on feedback, or ends the run. -/
inductive CommentReason (body : List Char) : Prop
  | plan {checkRunId : Int} {headSha checkRunUrl : String} {items : List PlanItem}
      (created : .createCheckRun headSha (.ok (checkRunId, some checkRunUrl)) ∈ past)
      (rendered : planComment world checkRunUrl items none = .ok body)
  | outcome {feedback : FeedbackRecord} {commentId : Int} {reply : FeedbackReply}
      (next : job.feedback = some feedback)
      (parsed : parseFeedbackCommentTarget feedback.id = .ok (.pullRequestConversation commentId))
      (decided : Decided past feedback reply) (same : body = renderFeedbackReply reply)
      (leased : Fresh past)
  | summary {summary : FinalSummary} {succeeded : Bool}
      (summed : Summed world job past summary succeeded) (rendered : summary.render = .ok body)
      (leased : Fresh past)

/-- The reply goes to the comment that the id of the feedback names. -/
structure ReplyReason (commentId : Int) (body : List Char) : Prop where
  decided : ∃ feedback reply, job.feedback = some feedback ∧
    parseFeedbackCommentTarget feedback.id = .ok (.reviewComment commentId) ∧
      Decided past feedback reply ∧ body = renderFeedbackReply reply
  leased : Fresh past

/-- The thread has the reply of the run. -/
structure ResolveReason (threadId : String) : Prop where
  replied : ∃ commentId body, .reviewThreadId commentId (.ok (some threadId)) ∈ past ∧
    .replyToReviewComment commentId body (.ok ()) ∈ past
  leased : Fresh past

/-- The feedback has the reply on GitHub before its row changes. -/
def MarkReason (feedbackId : String) (replies : FeedbackReply → Prop) : Prop :=
  ∃ feedback reply, job.feedback = some feedback ∧ feedback.id = feedbackId ∧ replies reply ∧
    Decided past feedback reply ∧ Told past feedback (renderFeedbackReply reply)

/-- The Check Run ends with the summary that a comment shows. -/
def EndReason (succeeded : Bool) (body : List Char) : Prop :=
  ∃ summary commentId, Summed world job past summary succeeded ∧ summary.render = .ok body ∧
    .createIssueComment body (.ok commentId) ∈ past

/-- A comment shows the hash of the details, and no branch was touched. -/
structure ParkReason (details : Json) : Prop where
  shown : ∃ commentId checkRunUrl items approvalHash body,
    details.get "plan_hash" = some (.string approvalHash) ∧
      planComment world checkRunUrl items (some approvalHash) = .ok body ∧
        .updateIssueComment commentId body (.ok ()) ∈ past
  untouched : Quiet past

def Reason : Call → Prop
  | .createIssueComment body _ => CommentReason world job past body
  | .replyToReviewComment commentId body _ => ReplyReason job past commentId body
  | .resolveReviewThread threadId _ => ResolveReason past threadId
  | .applyFeedback feedback _ _ => FeedbackAdmitted world job past feedback
  | .applyCiRepair patches _ _ => CiAdmitted world job past patches
  | .stackRebase _ => StackAdmitted world job past
  | .markFeedbackResolved feedbackId _ => MarkReason job past feedbackId fun reply =>
      ∃ target path commit, reply = .applied target path commit
  | .markFeedbackRejected feedbackId _ => MarkReason job past feedbackId fun reply =>
      ∃ target, reply = .rejected target
  | .markWaitingApproval details _ => ParkReason world past details
  | .updateCheckRun _ succeeded body _ => EndReason world job past succeeded body
  | .markSucceeded result _ => Earned world job past result
  | _ => True

/-- Everything but lease checks and the report of a failure follows a lease check that succeeded,
and what reaches others has its reason. -/
structure Permitted (call : Call) : Prop where
  leased : call.check = none → call.failure = false → Confirmed past
  reason : Reason world job past call

/-- The call is permitted and does not complete the job. -/
structure Inside (call : Call) : Prop extends Permitted world job past call where
  unclosed : call.closes = false

end Reasons

end PiTools.Executor
