import PiTools.Library.JsonText
import PiTools.Reconcile.Approvals

/-
This file shows that reconciliation depends neither on the order nor on the
repetition of what was read.
-/

namespace PiTools.Reconcile

open Library

/-- The reads differ at most in the order and the repetition of their records. -/
structure SameReads (first second : PullRequestReadSet) : Prop where
  pullRequest : first.pullRequest = second.pullRequest
  baseBranch : first.baseBranchSha = second.baseBranchSha
  protection : first.branchProtection = second.branchProtection
  reviews : ∀ review, review ∈ first.reviews ↔ review ∈ second.reviews
  issueComments : ∀ comment, comment ∈ first.issueComments ↔ comment ∈ second.issueComments
  reviewComments : ∀ comment, comment ∈ first.reviewComments ↔ comment ∈ second.reviewComments
  checkRuns : ∀ run, run ∈ first.checkRuns ↔ run ∈ second.checkRuns
  statuses : ∀ status, status ∈ first.statuses ↔ status ∈ second.statuses

/-- Records of one kind with the same id are the same record. -/
structure Consistent (data : PullRequestReadSet) : Prop where
  reviews : ∀ left ∈ data.reviews, ∀ right ∈ data.reviews, left.id = right.id → left = right
  issueComments : ∀ left ∈ data.issueComments, ∀ right ∈ data.issueComments,
    left.id = right.id → left = right
  reviewComments : ∀ left ∈ data.reviewComments, ∀ right ∈ data.reviewComments,
    left.id = right.id → left = right
  checkRuns : ∀ left ∈ data.checkRuns, ∀ right ∈ data.checkRuns, left.id = right.id → left = right
  statuses : ∀ left ∈ data.statuses, ∀ right ∈ data.statuses, left.id = right.id → left = right

variable {first second : PullRequestReadSet} {policy : Policy}

/-! ### Reviews -/

theorem latest_decisions_congr (consistent : Consistent first) (same : SameReads first second)
    (login : String) :
    latest (fun left right => reviewOrder left right = true) (decides login) first.reviews =
      latest (fun left right => reviewOrder left right = true) (decides login) second.reviews := by
  apply latest_congr _ _ same.reviews
  intro left inLeft right inRight below above
  rw [reviewOrder_iff] at below above
  have moment : left.moment = right.moment := le_antisymm below above
  have ids := congrArg (fun moment => (ofLex moment).2) moment
  exact consistent.reviews left inLeft right inRight ids

theorem latestReviewDecisions_congr (consistent : Consistent first) (same : SameReads first second) :
    latestReviewDecisions first.reviews = latestReviewDecisions second.reviews := by
  apply Entries.Ordered.ext (Entries.collect_ordered _) (Entries.collect_ordered _)
  intro login
  have congr := latest_decisions_congr consistent same login
  rw [lookup_collect_decisions, lookup_collect_decisions, congr]

theorem latestReviewReviews_congr (consistent : Consistent first) (same : SameReads first second) :
    latestReviewReviews first.reviews = latestReviewReviews second.reviews := by
  apply Entries.Ordered.ext (Entries.collect_ordered _) (Entries.collect_ordered _)
  intro login
  have congr := latest_decisions_congr consistent same login
  exact (lookup_collect_decisions id).trans (congr ▸ (lookup_collect_decisions id).symm)

/-! ### Feedback -/

theorem toString_int (value : Int) : (toString value).toList = (Number.int value).text := by
  cases value with
  | ofNat value => exact String.toList_ofList
  | negSucc value =>
      have written : toString (Int.negSucc value) = "-" ++ String.ofList (Nat.toDigits 10 (value + 1)) :=
        rfl
      rw [written, String.toList_append, String.toList_ofList, String.toList_ofList]
      rfl

theorem toString_int_injective {first second : Int} (same : toString first = toString second) :
    first = second := by
  have texts : (Number.int first).text = (Number.int second).text := by
    rw [← toString_int, ← toString_int, same]
  rw [Number.text_int, Number.text_int] at texts
  obtain ⟨signs, magnitudes⟩ := signText_append texts
  rw [decide_eq_decide] at signs
  omega

/-- The kind and the number of a label can be read back. -/
theorem label_injective {kind kind' text text' : String} {id id' : Int} (plain : ':' ∉ kind.toList)
    (plain' : ':' ∉ kind'.toList) (made : text = kind ++ ":" ++ toString id)
    (made' : text' = kind' ++ ":" ++ toString id') (same : text = text') : kind = kind' ∧ id = id' := by
  have texts : kind.toList ++ ':' :: (toString id).toList =
      kind'.toList ++ ':' :: (toString id').toList := by
    rw [made, made'] at same
    have texts := congrArg String.toList same
    simp only [String.toList_append, List.append_assoc] at texts
    exact texts
  have before : ∀ {kind : String} (rest : List Char), ':' ∉ kind.toList →
      (kind.toList ++ ':' :: rest).takeWhile (fun c => c ≠ ':') = kind.toList := by
    intro kind rest plain
    have other : ∀ c ∈ kind.toList, decide (c ≠ ':') = true := by
      intro c member
      rw [decide_eq_true_eq]
      rintro rfl
      exact plain member
    rw [List.takeWhile_append_of_pos other]
    simp
  have kinds : kind.toList = kind'.toList := by
    rw [← before (toString id).toList plain, texts, before _ plain']
  refine ⟨String.toList_inj.mp kinds, toString_int_injective (String.toList_inj.mp ?_)⟩
  rw [kinds] at texts
  exact (List.cons.inj (List.append_cancel_left texts)).2

/-- The records before they are sorted. -/
def readRecords (latest : Entries String String) (data : PullRequestReadSet) (policy : Policy) :
    List FeedbackRecord :=
  data.reviews.filterMap (reviewRecord latest policy) ++
    data.issueComments.filterMap (commentRecord "issue-comment" policy) ++
    data.reviewComments.filterMap (commentRecord "review-comment" policy)

theorem feedbackRecords_eq (data : PullRequestReadSet) (policy : Policy) :
    feedbackRecords data policy = distinctByKey FeedbackRecord.id
      (readRecords (latestReviewDecisions data.reviews) data policy) := rfl

variable {latest : Entries String String} {record : FeedbackRecord}

theorem reviewRecord_id {review : PullRequestReview}
    (made : reviewRecord latest policy review = some record) :
    record.id = "review" ++ ":" ++ toString review.id := by
  rw [reviewRecord, Option.map_eq_some_iff] at made
  obtain ⟨body, -, rfl⟩ := made
  rfl

theorem commentRecord_id {kind : String} {comment : PullRequestComment}
    (made : commentRecord kind policy comment = some record) :
    record.id = kind ++ ":" ++ toString comment.id := by
  rw [commentRecord, Option.map_eq_some_iff] at made
  obtain ⟨body, -, rfl⟩ := made
  rfl

theorem mem_readRecords {data : PullRequestReadSet} :
    record ∈ readRecords latest data policy ↔
      (∃ review ∈ data.reviews, reviewRecord latest policy review = some record) ∨
      (∃ comment ∈ data.issueComments,
        commentRecord "issue-comment" policy comment = some record) ∨
      ∃ comment ∈ data.reviewComments,
        commentRecord "review-comment" policy comment = some record := by
  rw [readRecords, List.mem_append, List.mem_append, List.mem_filterMap, List.mem_filterMap,
    List.mem_filterMap, or_assoc]

/-- A record was made of what has its id. -/
theorem readRecords_apart {data : PullRequestReadSet} (consistent : Consistent data) :
    ∀ left ∈ readRecords latest data policy, ∀ right ∈ readRecords latest data policy,
      left.id = right.id → left = right := by
  intro left inLeft right inRight same
  rcases mem_readRecords.mp inLeft with ⟨source, member, made⟩ | ⟨source, member, made⟩ |
    ⟨source, member, made⟩
  · rcases mem_readRecords.mp inRight with ⟨source', member', made'⟩ | ⟨source', member', made'⟩ |
      ⟨source', member', made'⟩
    · have ids := label_injective (by decide) (by decide) (reviewRecord_id made)
        (reviewRecord_id made') same
      cases consistent.reviews source member source' member' ids.2
      exact Option.some.inj (made.symm.trans made')
    · have ids := label_injective (by decide) (by decide) (reviewRecord_id made)
        (commentRecord_id made') same
      exact absurd ids.1 (by decide)
    · have ids := label_injective (by decide) (by decide) (reviewRecord_id made)
        (commentRecord_id made') same
      exact absurd ids.1 (by decide)
  · rcases mem_readRecords.mp inRight with ⟨source', member', made'⟩ | ⟨source', member', made'⟩ |
      ⟨source', member', made'⟩
    · have ids := label_injective (by decide) (by decide) (commentRecord_id made)
        (reviewRecord_id made') same
      exact absurd ids.1 (by decide)
    · have ids := label_injective (by decide) (by decide) (commentRecord_id made)
        (commentRecord_id made') same
      cases consistent.issueComments source member source' member' ids.2
      exact Option.some.inj (made.symm.trans made')
    · have ids := label_injective (by decide) (by decide) (commentRecord_id made)
        (commentRecord_id made') same
      exact absurd ids.1 (by decide)
  · rcases mem_readRecords.mp inRight with ⟨source', member', made'⟩ | ⟨source', member', made'⟩ |
      ⟨source', member', made'⟩
    · have ids := label_injective (by decide) (by decide) (commentRecord_id made)
        (reviewRecord_id made') same
      exact absurd ids.1 (by decide)
    · have ids := label_injective (by decide) (by decide) (commentRecord_id made)
        (commentRecord_id made') same
      exact absurd ids.1 (by decide)
    · have ids := label_injective (by decide) (by decide) (commentRecord_id made)
        (commentRecord_id made') same
      cases consistent.reviewComments source member source' member' ids.2
      exact Option.some.inj (made.symm.trans made')

variable (policy) in
theorem feedbackRecords_congr (consistent : Consistent first) (same : SameReads first second) :
    feedbackRecords first policy = feedbackRecords second policy := by
  rw [feedbackRecords_eq, feedbackRecords_eq, latestReviewDecisions_congr consistent same]
  refine distinctByKey_congr (fun record => ?_) (readRecords_apart consistent)
  simp only [mem_readRecords, same.reviews, same.issueComments, same.reviewComments]

/-! ### Checks -/

theorem winningResult_congr (consistent : Consistent first) (same : SameReads first second)
    (name : String) : winningResult first name = winningResult second name := by
  have runs : latestCheckRun first name = latestCheckRun second name :=
    latest_congr (fun left right : GitHubCheckRun => left.id ≤ right.id)
      (fun run => name = run.name) same.checkRuns fun left inLeft right inRight below above =>
        consistent.checkRuns left inLeft right inRight (le_antisymm below above)
  have statuses : latestStatus first name = latestStatus second name :=
    latest_congr (fun left right : CommitStatus => left.id ≤ right.id)
      (fun status => name = status.context) same.statuses
      fun left inLeft right inRight below above =>
        consistent.statuses left inLeft right inRight (le_antisymm below above)
  rw [winningResult, winningResult, runs, statuses]

theorem checkRecords_congr (consistent : Consistent first) (same : SameReads first second) :
    checkRecords first = checkRecords second := by
  rw [checkRecords, checkRecords]
  congr 1
  apply Entries.Ordered.ext (Entries.collect_ordered _) (Entries.collect_ordered _)
  intro name
  have congr := winningResult_congr consistent same name
  exact (lookup_recordsByName first name).trans (congr ▸ (lookup_recordsByName second name).symm)

variable (policy) in
theorem readinessChecks_congr (consistent : Consistent first) (same : SameReads first second) :
    readinessChecks first policy = readinessChecks second policy := by
  have protection := same.protection
  have appIds : requiredCheckAppId first = requiredCheckAppId second := by
    funext name
    simp only [requiredCheckAppId, requiredStatusChecks, protection]
  have names : requiredCheckNames first policy = requiredCheckNames second policy := by
    simp only [requiredCheckNames, requiredContexts, requiredStatusChecks, protection]
  have missing : orMissing first = orMissing second := by
    funext checks name
    simp only [orMissing, missingCheck, appIds]
  have snapshots : CheckRecord.snapshot first = CheckRecord.snapshot second := by
    funext names check
    simp only [CheckRecord.snapshot, appIds]
  rw [readinessChecks, readinessChecks, checkRecords_congr consistent same, names, missing, snapshots]

/-! ### Reconciliation -/

/-- The same records in another order or more than once reconcile to the same result. -/
theorem reconcile_order_independent (policy : Policy) (consistent : Consistent first)
    (same : SameReads first second) :
    reconcileReadSet first policy = reconcileReadSet second policy := by
  have feedback := feedbackRecords_congr policy consistent same
  have checks := checkRecords_congr consistent same
  have readiness := readinessChecks_congr policy consistent same
  have reviews := latestReviewReviews_congr consistent same
  have count : currentApprovalCount first.reviews first.pullRequest.headSha =
      currentApprovalCount second.reviews second.pullRequest.headSha := by
    rw [currentApprovalCount, currentApprovalCount, reviews, same.pullRequest]
  rw [reconcileReadSet, reconcileReadSet, count, feedback, checks, readiness, reviews,
    same.pullRequest, same.baseBranch, same.protection]

def approved : PullRequestReview :=
  ⟨12, some "now approved", "APPROVED", some "2026-08-10T00:00:00Z", none, ⟨"reviewer", "User"⟩⟩

def changesRequested : PullRequestReview :=
  ⟨11, some "please fix", "CHANGES_REQUESTED", some "2026-08-10T00:00:00Z", none, ⟨"reviewer", "User"⟩⟩

def failedBuild : GitHubCheckRun := ⟨81, "build", "completed", some "failure", none, none⟩

def rerunBuild : GitHubCheckRun := ⟨82, "build", "completed", some "success", none, none⟩

/-- Some reviews and check runs in the order of their ids. -/
def orderedReads : PullRequestReadSet :=
  { twoApps with reviews := [changesRequested, approved], checkRuns := [failedBuild, rerunBuild] }

/-- The same records in another order, one of them twice. -/
def shuffledReads : PullRequestReadSet :=
  { twoApps with
    reviews := [approved, changesRequested, approved]
    checkRuns := [rerunBuild, failedBuild] }

theorem orderedReads_consistent : Consistent orderedReads where
  reviews := by decide
  issueComments := by decide
  reviewComments := by decide
  checkRuns := by decide
  statuses := by decide

theorem shuffledReads_same : SameReads orderedReads shuffledReads where
  pullRequest := rfl
  baseBranch := rfl
  protection := rfl
  reviews := by
    intro review
    simp only [orderedReads, shuffledReads, List.mem_cons, List.not_mem_nil, or_false]
    tauto
  issueComments := fun _ => Iff.rfl
  reviewComments := fun _ => Iff.rfl
  checkRuns := by
    intro run
    simp only [orderedReads, shuffledReads, List.mem_cons, List.not_mem_nil, or_false]
    tauto
  statuses := fun _ => Iff.rfl

theorem reconcile_shuffledReads :
    reconcileReadSet orderedReads openPolicy = reconcileReadSet shuffledReads openPolicy :=
  reconcile_order_independent openPolicy orderedReads_consistent shuffledReads_same

end PiTools.Reconcile
