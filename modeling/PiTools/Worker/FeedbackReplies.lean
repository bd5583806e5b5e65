import PiTools.Reconcile.ReadOrder
import PiTools.Worker.ExecuteJob

/-
This file shows where the replies to feedback go, and that they cannot break out
of their line.
-/

namespace PiTools.Executor

open Library
open Reconcile (FeedbackRecord PullRequestReadSet PullRequestReview PullRequestComment
  feedbackRecords readRecords reviewRecord commentRecord latestReviewDecisions)

/-! ### Targets -/

/-- The ids that GitHub gives are positive and have 64 bits. -/
def IdFits (id : Int) : Prop := 0 < id ∧ id < 0x8000000000000000

instance (id : Int) : Decidable (IdFits id) := inferInstanceAs (Decidable (_ ∧ _))

structure IdsFit (data : PullRequestReadSet) : Prop where
  reviews : ∀ review ∈ data.reviews, IdFits review.id
  issueComments : ∀ comment ∈ data.issueComments, IdFits comment.id
  reviewComments : ∀ comment ∈ data.reviewComments, IdFits comment.id

/-- The reply goes to what the record was read from. -/
inductive Answered (data : PullRequestReadSet) (policy : Reconcile.Policy) (record : FeedbackRecord) :
    Prop
  | review {review : PullRequestReview} (member : review ∈ data.reviews)
      (made : reviewRecord (latestReviewDecisions data.reviews) policy review = some record)
      (parsed : parseFeedbackCommentTarget record.id = .ok (.pullRequestConversation review.id))
  | issueComment {comment : PullRequestComment} (member : comment ∈ data.issueComments)
      (made : commentRecord "issue-comment" policy comment = some record)
      (parsed : parseFeedbackCommentTarget record.id = .ok (.pullRequestConversation comment.id))
  | reviewComment {comment : PullRequestComment} (member : comment ∈ data.reviewComments)
      (made : commentRecord "review-comment" policy comment = some record)
      (parsed : parseFeedbackCommentTarget record.id = .ok (.reviewComment comment.id))

theorem parseCommentId_toString {id : Int} (fits : IdFits id) :
    parseCommentId (toString id).toList = .ok id := by
  obtain ⟨positive, bounded⟩ := fits
  obtain ⟨value, rfl⟩ := Int.eq_ofNat_of_zero_le positive.le
  have parsed : GitHub.parseI64 (Nat.toDigits 10 value) = some (value : Int) :=
    GitHub.parseI64_digits (by omega)
  rw [Reconcile.toString_int, parseCommentId]
  change okOr ((GitHub.parseI64 (Nat.toDigits 10 value)).filter _) _ = _
  rw [parsed, okOr_eq_ok]
  simpa using positive

section Labels

variable {id : Int}

theorem label_toList (kind : String) : (kind ++ ":" ++ toString id).toList =
    (kind ++ ":").toList ++ (toString id).toList := String.toList_append

theorem parse_reviewComment (fits : IdFits id) :
    parseFeedbackCommentTarget ("review-comment" ++ ":" ++ toString id) = .ok (.reviewComment id) := by
  have found : stripPrefix "review-comment:".toList ("review-comment" ++ ":" ++ toString id).toList =
      some (toString id).toList := stripPrefix_eq_some.mpr (label_toList _)
  rw [parseFeedbackCommentTarget, found]
  simp only [parseCommentId_toString fits]
  rfl

theorem parse_issueComment (fits : IdFits id) :
    parseFeedbackCommentTarget ("issue-comment" ++ ":" ++ toString id) =
      .ok (.pullRequestConversation id) := by
  have other : stripPrefix "review-comment:".toList ("issue-comment" ++ ":" ++ toString id).toList =
      none := by
    rw [label_toList]
    rfl
  have found : stripPrefix "issue-comment:".toList ("issue-comment" ++ ":" ++ toString id).toList =
      some (toString id).toList := stripPrefix_eq_some.mpr (label_toList _)
  rw [parseFeedbackCommentTarget, other, found]
  simp only [parseCommentId_toString fits]
  rfl

theorem parse_review (fits : IdFits id) :
    parseFeedbackCommentTarget ("review" ++ ":" ++ toString id) = .ok (.pullRequestConversation id) := by
  have comment : stripPrefix "review-comment:".toList ("review" ++ ":" ++ toString id).toList =
      none := by
    rw [label_toList]
    rfl
  have issue : stripPrefix "issue-comment:".toList ("review" ++ ":" ++ toString id).toList = none := by
    rw [label_toList]
    rfl
  have found : stripPrefix "review:".toList ("review" ++ ":" ++ toString id).toList =
      some (toString id).toList := stripPrefix_eq_some.mpr (label_toList _)
  rw [parseFeedbackCommentTarget, comment, issue, found]
  simp only [parseCommentId_toString fits]
  rfl

end Labels

theorem readRecords_of_mem {data : PullRequestReadSet} {policy : Reconcile.Policy}
    {record : FeedbackRecord} (member : record ∈ feedbackRecords data policy) :
    record ∈ readRecords (latestReviewDecisions data.reviews) data policy :=
  (List.mem_insertionSort _).mp ((List.destutter_sublist _ _).subset member)

/-- Every record of a pull request is answered where it was written. -/
theorem feedback_answered (data : PullRequestReadSet) (policy : Reconcile.Policy) (fit : IdsFit data) :
    ∀ record ∈ feedbackRecords data policy, Answered data policy record := by
  intro record member
  rcases Reconcile.mem_readRecords.mp (readRecords_of_mem member) with ⟨review, inside, made⟩ |
    ⟨comment, inside, made⟩ | ⟨comment, inside, made⟩
  · refine .review inside made ?_
    rw [Reconcile.reviewRecord_id made]
    exact parse_review (fit.reviews review inside)
  · refine .issueComment inside made ?_
    rw [Reconcile.commentRecord_id made]
    exact parse_issueComment (fit.issueComments comment inside)
  · refine .reviewComment inside made ?_
    rw [Reconcile.commentRecord_id made]
    exact parse_reviewComment (fit.reviewComments comment inside)

/-- A machine account comments on a line. -/
def threadReads : PullRequestReadSet := { machineReads with reviewComments := [machineComment] }

theorem thread_answered :
    Answered threadReads machinePolicy { machineRecord with id := "review-comment:22" } :=
  feedback_answered threadReads machinePolicy ⟨by decide, by decide, by decide⟩ _ (by decide +kernel)

/-! ### Texts -/

/-- The text has no line break. -/
def OneLine (text : List Char) : Prop := ∀ c ∈ text, c ∉ ['\r', '\n']

instance (text : List Char) : Decidable (OneLine text) := inferInstanceAs (Decidable (∀ c ∈ text, _))

theorem OneLine.append {first second : List Char} (one : OneLine first) (other : OneLine second) :
    OneLine (first ++ second) := by
  intro c member
  rcases List.mem_append.mp member with inFirst | inSecond
  · exact one c inFirst
  · exact other c inSecond

theorem safeReplyFragment_plain (value : List Char) :
    ∀ c ∈ safeReplyFragment value, c ∉ ['\x60', '\r', '\n'] := by
  unfold safeReplyFragment
  dsimp only
  split
  · decide +kernel
  · intro c member
    have kept := List.mem_filter.mp (List.mem_of_mem_take member)
    simpa using kept.2

theorem safeReplyFragment_line (value : List Char) : OneLine (safeReplyFragment value) := by
  intro c member breaks
  exact safeReplyFragment_plain value c member (List.mem_cons_of_mem _ breaks)

/-- A reply is one line, whatever the path and the commit are. -/
theorem renderFeedbackReply_line (reply : FeedbackReply) : OneLine (renderFeedbackReply reply) := by
  cases reply with
  | applied target path commit =>
      have told : OneLine ("PiTools applied this approved automation suggestion to `".toList ++
          safeReplyFragment path ++ "` and pushed commit `".toList ++
          safeReplyFragment commit.toList ++ "` after configured validation passed. ".toList) :=
        ((((OneLine.append (by decide +kernel) (safeReplyFragment_line path)).append
          (by decide +kernel)).append (safeReplyFragment_line _)).append (by decide +kernel))
      cases target with
      | reviewThread => exact told.append (by decide +kernel)
      | pullRequestConversation => exact told.append (by decide +kernel)
  | rejected target =>
      cases target with
      | reviewThread => decide +kernel
      | pullRequestConversation => decide +kernel

end PiTools.Executor
