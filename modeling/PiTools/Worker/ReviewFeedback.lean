import PiTools.Reconcile.Approvals
import PiTools.Worker.FeedbackRepairs

/-
This file says exactly when the feedback of a review is resolved only by a later
decision of its author.
-/

namespace PiTools

open Library Reconcile

/-! ### Records of reviews -/

/-- The review asks for something. -/
def AsksFor (review : PullRequestReview) : Prop :=
  review.state = "COMMENTED" ∨ review.state = "CHANGES_REQUESTED"

instance (review : PullRequestReview) : Decidable (AsksFor review) :=
  inferInstanceAs (Decidable (_ ∨ _))

/-- The record that reconciliation makes of a review. -/
def feedbackOf (data : PullRequestReadSet) (policy : Reconcile.Policy) (review : PullRequestReview) :
    Option FeedbackRecord :=
  reviewRecord (latestReviewDecisions data.reviews) policy review

/-- The author approved or dismissed behind the review. -/
def ClosedLater (reviews : List PullRequestReview) (review : PullRequestReview) : Prop :=
  ∃ decision ∈ reviews, decision.user.login = review.user.login ∧
    closesFeedback decision.state = true ∧ review.moment < decision.moment

variable {data : PullRequestReadSet} {policy : Reconcile.Policy} {review : PullRequestReview}
  {record : FeedbackRecord}

theorem isDecision_of_closes {decision : PullRequestReview}
    (closes : closesFeedback decision.state = true) : isDecision decision = true := by
  simp only [closesFeedback, Bool.or_eq_true, decide_eq_true_eq] at closes
  rcases closes with approved | dismissed
  · simp [isDecision, approved]
  · simp [isDecision, dismissed]

/-- What asks for something is resolved by the latest decision of its author. -/
theorem feedbackOf_resolved (asks : AsksFor review) (made : feedbackOf data policy review = some record) :
    record.resolved = true ↔ ∃ decision, LatestDecision data.reviews review.user.login decision ∧
      closesFeedback decision.state = true := by
  have stays : closesFeedback review.state = false := by
    rcases asks with commented | requested
    · rw [commented]
      decide
    · rw [requested]
      decide
  have looked : (latestReviewDecisions data.reviews).lookup review.user.login = _ :=
    lookup_collect_decisions PullRequestReview.state
  rw [feedbackOf, reviewRecord, Option.map_eq_some_iff] at made
  obtain ⟨body, -, rfl⟩ := made
  dsimp only
  rw [stays, Bool.false_or, looked, Option.any_map, Option.any_eq_true]
  constructor
  · rintro ⟨decision, found, closes⟩
    exact ⟨decision, latestDecision_iff.mp found, closes⟩
  · rintro ⟨decision, latest, closes⟩
    exact ⟨decision, latestDecision_iff.mpr latest, closes⟩

/-! ### Later decisions -/

/-- Feedback is resolved only by a later decision, and else it blocks and is planned for repair. -/
structure ResolvedLater (data : PullRequestReadSet) (policy : Reconcile.Policy) : Prop where
  resolved : ∀ review ∈ data.reviews, AsksFor review → ∀ record,
    feedbackOf data policy review = some record → record.resolved = true →
      ClosedLater data.reviews review
  open_ : ∀ review ∈ data.reviews, AsksFor review → ∀ record,
    feedbackOf data policy review = some record →
      record ∈ (reconcileReadSet data policy).feedback → ¬ ClosedLater data.reviews review →
        policy.isConfiguredAutomationActor review.user.login = true →
          (evaluate (reconcileReadSet data policy).readiness policy).ready = false ∧
            record ∈ automationFeedback policy (reconcileReadSet data policy).feedback

/-- What asks for something stands before the latest decision of its author when that decision
approves or dismisses. -/
def AsksBefore (reviews : List PullRequestReview) : Prop :=
  ∀ review ∈ reviews, AsksFor review → nonemptyBody review.body ≠ none →
    ∀ decision, LatestDecision reviews review.user.login decision →
      closesFeedback decision.state = true → review.moment < decision.moment

/-- Open feedback of a configured actor is a reason against the pull request. -/
theorem open_blocks (member : record ∈ (reconcileReadSet data policy).feedback)
    (stays : record.resolved = false)
    (configured : policy.isConfiguredAutomationActor record.actorLogin = true) :
    (evaluate (reconcileReadSet data policy).readiness policy).ready = false := by
  rw [← Bool.not_eq_true, evaluate_ready]
  intro none_
  simp only [foundReasons, List.append_eq_nil_iff] at none_
  have unresolved : FeedbackRecord.snapshot record ∈
      (reconcileReadSet data policy).readiness.unresolvedFeedback :=
    List.mem_map_of_mem (List.mem_filter.mpr ⟨member, by rw [stays]; rfl⟩)
  have found : ((reconcileReadSet data policy).readiness.unresolvedFeedback.any fun feedback =>
      policy.isConfiguredAutomationActor feedback.actorLogin && !feedback.resolved) = true := by
    refine List.any_eq_true.mpr ⟨_, unresolved, ?_⟩
    rw [FeedbackRecord.snapshot, configured, stays]
    rfl
  rw [found] at none_
  exact absurd none_.2 (by decide)

/-- Reconciliation resolves feedback by later decisions only exactly when no author asks for
something behind the decision. -/
theorem review_feedback_resolved_iff (data : PullRequestReadSet) (policy : Reconcile.Policy) :
    ResolvedLater data policy ↔ AsksBefore data.reviews := by
  have total : Std.Total fun left right : PullRequestReview => left.moment ≤ right.moment :=
    ⟨fun left right => le_total left.moment right.moment⟩
  constructor
  · intro later review member asks visible decision latest closes
    obtain ⟨body, known⟩ := Option.ne_none_iff_exists'.mp visible
    obtain ⟨record, made⟩ : ∃ record, feedbackOf data policy review = some record := by
      rw [feedbackOf, reviewRecord, known]
      exact ⟨_, rfl⟩
    have resolved := (feedbackOf_resolved asks made).mpr ⟨decision, latest, closes⟩
    obtain ⟨other, inside, same, closes', behind⟩ :=
      later.resolved review member asks record made resolved
    have decided : decides review.user.login other = true := by
      rw [decides, isDecision_of_closes closes', same]
      simp
    exact behind.trans_le (latest.spec.2.2 other inside decided)
  · intro before
    have resolved : ∀ review ∈ data.reviews, AsksFor review → ∀ record,
        feedbackOf data policy review = some record → record.resolved = true →
          ClosedLater data.reviews review := by
      intro review member asks record made resolved
      obtain ⟨decision, latest, closes⟩ := (feedbackOf_resolved asks made).mp resolved
      have visible : nonemptyBody review.body ≠ none := by
        intro hidden
        rw [feedbackOf, reviewRecord, hidden] at made
        cases made
      obtain ⟨inside, decided, -⟩ := latest.spec
      rw [decides, Bool.and_eq_true, decide_eq_true_eq] at decided
      exact ⟨decision, inside, decided.2, closes,
        before review member asks visible decision latest closes⟩
    refine ⟨resolved, fun review member asks record made inside notClosed configured => ?_⟩
    have stays : record.resolved = false := by
      rw [← Bool.not_eq_true]
      exact fun yes => notClosed (resolved review member asks record made yes)
    have actor : record.actorLogin = review.user.login := by
      rw [feedbackOf, reviewRecord, Option.map_eq_some_iff] at made
      obtain ⟨body, -, rfl⟩ := made
      rfl
    rw [← actor] at configured
    refine ⟨open_blocks inside stays configured, List.mem_filter.mpr ⟨inside, ?_⟩⟩
    rw [stays, configured]
    rfl

def botApproval : PullRequestReview :=
  ⟨1, none, "APPROVED", some "2026-08-10T00:00:00Z", some "head", ⟨"review-bot[bot]", "Bot"⟩⟩

def botComment : PullRequestReview :=
  ⟨2, some "This overflows.", "COMMENTED", some "2026-08-11T00:00:00Z", some "head",
    ⟨"review-bot[bot]", "Bot"⟩⟩

/-- An actor comments a day after its approval. -/
def commentedApproval : PullRequestReadSet := { twoApps with reviews := [botApproval, botComment] }

def reviewBotPolicy : Reconcile.Policy := ⟨["review-bot[bot]"], [], false, false⟩

theorem comment_resolved_earlier : ¬ ∀ data policy, ResolvedLater data policy := by
  intro claimed
  obtain ⟨decision, member, -, closes, behind⟩ := (claimed commentedApproval reviewBotPolicy).resolved
    botComment (by decide) (.inl rfl) _ rfl (by decide +kernel)
  rcases List.mem_cons.mp member with rfl | later
  · have order : reviewOrder botApproval botComment = true := by decide
    exact absurd behind (reviewOrder_iff.mp order).not_gt
  · rw [List.mem_singleton.mp later] at closes
    exact absurd closes (by decide)

end PiTools
