import Mathlib.Data.Prod.Lex
import Mathlib.Data.Set.Card
import PiTools.Library.Latest
import PiTools.Reconcile.RequiredChecks

/-
This file shows that the approvals of a pull request are the latest decisions of
its reviewers.
-/

namespace PiTools.Reconcile

open Library

/-! ### The latest decisions -/

/-- The time and the id of a review. A missing time is before all times. -/
def PullRequestReview.moment (review : PullRequestReview) : WithBot String ×ₗ Int :=
  toLex (review.submittedAt.elim ⊥ fun time => (time : WithBot String), review.id)

theorem reviewOrder_iff {left right : PullRequestReview} :
    reviewOrder left right = true ↔ left.moment ≤ right.moment := by
  unfold reviewOrder PullRequestReview.moment
  rw [Prod.Lex.toLex_le_toLex]
  cases left.submittedAt with
  | none =>
      cases right.submittedAt with
      | none => simp
      | some second => simp
  | some first =>
      cases right.submittedAt with
      | none => simp
      | some second => simp

instance : Std.Total fun left right : PullRequestReview => reviewOrder left right = true :=
  ⟨fun left right => by
    rw [reviewOrder_iff, reviewOrder_iff]
    exact le_total _ _⟩

instance : IsTrans PullRequestReview fun left right => reviewOrder left right = true :=
  ⟨fun first second third => by
    rw [reviewOrder_iff, reviewOrder_iff, reviewOrder_iff]
    exact le_trans⟩

/-- The review decides for the login. -/
def decides (login : String) (review : PullRequestReview) : Bool :=
  isDecision review && review.user.login = login

/-- The last decision of a login by its time and its id. -/
def LatestDecision (reviews : List PullRequestReview) (login : String)
    (review : PullRequestReview) : Prop :=
  IsLatest (fun left right => left.moment ≤ right.moment) (decides login) reviews review

variable {reviews : List PullRequestReview} {login : String} {review : PullRequestReview}

/-- The maps of the latest decisions look for the latest one of a login. -/
theorem lookup_collect_decisions {Value : Type} (value : PullRequestReview → Value) :
    Entries.lookup login (Entries.collect ((orderedDecisions reviews).map fun review =>
      (review.user.login, value review))) =
        (latest (fun left right => reviewOrder left right = true) (decides login) reviews).map
          value := by
  rw [Entries.lookup_collect, ← List.map_reverse, List.find?_map, orderedDecisions,
    ← List.filter_reverse, List.find?_filter, Option.map_map, latest]
  have wanted : decides login = fun review => decide (isDecision review = true ∧
      ((fun pair : String × Value => decide (login = pair.1)) ∘
        fun review => (review.user.login, value review)) review = true) := by
    funext review
    rw [decides, Bool.decide_and, Bool.decide_eq_true, Bool.decide_eq_true, Function.comp_apply]
    simp only [eq_comm]
  rw [wanted]
  rfl

theorem latestDecision_iff :
    latest (fun left right => reviewOrder left right = true) (decides login) reviews = some review ↔
      LatestDecision reviews login review := by
  have same : (fun left right : PullRequestReview => reviewOrder left right = true) =
      fun left right => left.moment ≤ right.moment := by
    funext left right
    exact propext reviewOrder_iff
  rw [latest_eq_some, LatestDecision, same]

theorem mem_latestReviewReviews :
    (login, review) ∈ latestReviewReviews reviews ↔ LatestDecision reviews login review := by
  have found := @lookup_collect_decisions reviews login _ id
  rw [Option.map_id, id_eq] at found
  rw [latestReviewReviews, (Entries.collect_ordered _).mem_iff, ← latestDecision_iff]
  exact Eq.congr_left found

/-! ### Counts -/

/-- The approval counts for the head or for no commit at all. -/
def ApprovesHead (headSha : String) (review : PullRequestReview) : Prop :=
  review.state = "APPROVED" ∧ ∀ commit ∈ review.commitId, commit = headSha

def ApprovesOther (headSha : String) (review : PullRequestReview) : Prop :=
  review.state = "APPROVED" ∧ ∃ commit ∈ review.commitId, commit ≠ headSha

instance (headSha : String) (review : PullRequestReview) : Decidable (ApprovesHead headSha review) :=
  inferInstanceAs (Decidable (_ ∧ _))

instance (headSha : String) (review : PullRequestReview) : Decidable (ApprovesOther headSha review) :=
  inferInstanceAs (Decidable (_ ∧ _))

theorem foldl_approvals (headSha : String) (entries : Entries String PullRequestReview)
    (count : Nat) (stale : Bool) :
    entries.foldl (fun counted entry =>
      if entry.2.state ≠ "APPROVED" then counted
      else if entry.2.commitId.all fun commit => commit = headSha then (counted.1 + 1, counted.2)
      else (counted.1, true)) (count, stale) =
        (count + (entries.filter fun entry => ApprovesHead headSha entry.2).length,
          stale || entries.any fun entry => ApprovesOther headSha entry.2) := by
  induction entries generalizing count stale with
  | nil => simp
  | cons entry rest ih =>
      rw [List.foldl_cons]
      by_cases approved : entry.2.state = "APPROVED"
      · rw [if_neg (not_not.mpr approved)]
        by_cases current : ∀ commit ∈ entry.2.commitId, commit = headSha
        · have all : (entry.2.commitId.all fun commit => commit = headSha) = true := by
            simpa [Option.all_eq_true] using current
          have notOther : ¬ ApprovesOther headSha entry.2 :=
            fun other => other.2.elim fun commit given => given.2 (current commit given.1)
          have head : ApprovesHead headSha entry.2 := ⟨approved, current⟩
          rw [if_pos all, ih, List.filter_cons, if_pos (decide_eq_true head), List.length_cons,
            List.any_cons, decide_eq_false notOther, Bool.false_or, Nat.add_assoc, Nat.add_comm 1]
        · have notAll : ¬ (entry.2.commitId.all fun commit => commit = headSha) = true := by
            simpa [Option.all_eq_true] using current
          have notHead : ¬ ApprovesHead headSha entry.2 := fun head => current head.2
          have other : ApprovesOther headSha entry.2 := ⟨approved, by simpa using current⟩
          rw [if_neg notAll, ih, List.filter_cons, if_neg (by simpa using notHead), List.any_cons,
            decide_eq_true other, Bool.true_or, Bool.or_true]
      · have notHead : ¬ ApprovesHead headSha entry.2 := fun head => approved head.1
        have notOther : ¬ ApprovesOther headSha entry.2 := fun other => approved other.1
        rw [if_pos approved, ih, List.filter_cons, if_neg (by simpa using notHead), List.any_cons,
          decide_eq_false notOther, Bool.false_or]

/-- The logins whose latest decision approves the head. -/
def approvers (reviews : List PullRequestReview) (headSha : String) : Set String :=
  {login | ∃ review, LatestDecision reviews login review ∧ ApprovesHead headSha review}

theorem currentApprovalCount_fst (reviews : List PullRequestReview) (headSha : String) :
    (currentApprovalCount reviews headSha).1 = (approvers reviews headSha).ncard := by
  have ordered : Entries.Ordered (latestReviewReviews reviews) := Entries.collect_ordered _
  have distinct : (((latestReviewReviews reviews).filter fun entry =>
      ApprovesHead headSha entry.2).map Prod.fst).Nodup :=
    ordered.keys_nodup.sublist (List.filter_sublist.map Prod.fst)
  have counted : approvers reviews headSha = ↑(((latestReviewReviews reviews).filter fun entry =>
      ApprovesHead headSha entry.2).map Prod.fst).toFinset := by
    ext login
    simp only [approvers, Set.mem_ofPred_eq, List.coe_toFinset, List.mem_map, List.mem_filter,
      decide_eq_true_eq]
    constructor
    · rintro ⟨review, decision, approves⟩
      exact ⟨(login, review), ⟨mem_latestReviewReviews.mpr decision, approves⟩, rfl⟩
    · rintro ⟨⟨other, review⟩, ⟨member, approves⟩, rfl⟩
      exact ⟨review, mem_latestReviewReviews.mp member, approves⟩
  rw [counted, Set.ncard_coe_finset, List.toFinset_card_of_nodup distinct, List.length_map,
    currentApprovalCount, foldl_approvals, Nat.zero_add]

theorem currentApprovalCount_snd {headSha : String} :
    (currentApprovalCount reviews headSha).2 = true ↔
      ∃ login review, LatestDecision reviews login review ∧ ApprovesOther headSha review := by
  rw [currentApprovalCount, foldl_approvals, Bool.false_or, List.any_eq_true]
  constructor
  · rintro ⟨⟨login, review⟩, member, stale⟩
    exact ⟨login, review, mem_latestReviewReviews.mp member, of_decide_eq_true stale⟩
  · rintro ⟨login, review, decision, stale⟩
    exact ⟨(login, review), mem_latestReviewReviews.mpr decision, decide_eq_true stale⟩

theorem approvers_nonempty {headSha : String} (positive : 0 < (approvers reviews headSha).ncard) :
    ∃ login review, LatestDecision reviews login review ∧ ApprovesHead headSha review := by
  obtain ⟨login, review, decision, approves⟩ := Set.nonempty_of_ncard_ne_zero positive.ne'
  exact ⟨login, review, decision, approves⟩

/-! ### Ready pull requests -/

variable {data : PullRequestReadSet} {policy : Policy}

/-- A ready input has the approvals that are required of it. -/
theorem ready_approvals {input : ReadinessInput} (ready : (evaluate input policy).ready = true) :
    input.requiredApprovalCount ≤ input.approvalCount ∧
      (policy.requireApproval = true → input.approved = true) ∧
        (input.lastPushApprovalRequired = true → input.latestPushApproval = true) := by
  have reasons := evaluate_ready.mp ready
  simp only [foundReasons, List.append_eq_nil_iff] at reasons
  obtain ⟨⟨⟨⟨⟨-, review⟩, count⟩, push⟩, -⟩, -⟩ := reasons
  refine ⟨?_, ?_, ?_⟩
  · unfold countReasons at count
    split at count
    · cases count
    · omega
  · intro required
    simpa [reason, required] using review
  · intro required
    by_contra missing
    simp [pushReasons, required, missing] at push

/-- The count and the flag are about the latest decisions, and a ready pull request has enough
of them. -/
structure ApprovalsCounted (data : PullRequestReadSet) (policy : Policy) : Prop where
  count : (reconcileReadSet data policy).readiness.approvalCount =
    {login | ∃ review, LatestDecision data.reviews login review ∧
      ApprovesHead data.pullRequest.headSha review}.ncard
  stale : (reconcileReadSet data policy).readiness.staleApprovalPresent = true ↔
    ∃ login review, LatestDecision data.reviews login review ∧
      ApprovesOther data.pullRequest.headSha review
  required : (evaluate (reconcileReadSet data policy).readiness policy).ready = true →
    ∀ requirements ∈ data.branchProtection.requiredPullRequestReviews,
      requirements.requiredApprovingReviewCount ≤
        (reconcileReadSet data policy).readiness.approvalCount
  policyApproval : (evaluate (reconcileReadSet data policy).readiness policy).ready = true →
    policy.requireApproval = true → 1 ≤ (reconcileReadSet data policy).readiness.approvalCount
  lastPush : (evaluate (reconcileReadSet data policy).readiness policy).ready = true →
    ∀ requirements ∈ data.branchProtection.requiredPullRequestReviews,
      requirements.requireLastPushApproval = true →
        ∃ login review, LatestDecision data.reviews login review ∧
          ApprovesHead data.pullRequest.headSha review

theorem approvals_counted (data : PullRequestReadSet) (policy : Policy) :
    ApprovalsCounted data policy := by
  have counted : (reconcileReadSet data policy).readiness.approvalCount =
      (approvers data.reviews data.pullRequest.headSha).ncard := currentApprovalCount_fst _ _
  refine ⟨counted, currentApprovalCount_snd, ?_, ?_, ?_⟩
  · intro ready requirements known
    have enough := (ready_approvals ready).1
    have same : (reconcileReadSet data policy).readiness.requiredApprovalCount =
        (data.branchProtection.requiredPullRequestReviews.getD {}).requiredApprovingReviewCount := rfl
    rw [same, Option.mem_def.mp known, Option.getD_some] at enough
    exact enough
  · intro ready required
    exact of_decide_eq_true ((ready_approvals ready).2.1 required)
  · intro ready requirements known required
    have asked : (reconcileReadSet data policy).readiness.lastPushApprovalRequired = true := by
      change (data.branchProtection.requiredPullRequestReviews.getD {}).requireLastPushApproval = true
      rw [Option.mem_def.mp known, Option.getD_some, required]
    have approval : ((latestReviewReviews data.reviews).any (fun entry =>
        entry.2.state = "APPROVED" && entry.2.commitId = some data.pullRequest.headSha) ||
          decide (0 < (currentApprovalCount data.reviews data.pullRequest.headSha).1)) = true :=
      (ready_approvals ready).2.2 asked
    rcases (Bool.or_eq_true _ _).mp approval with pushed | positive
    · obtain ⟨⟨login, review⟩, member, approves⟩ := List.any_eq_true.mp pushed
      rw [Bool.and_eq_true, decide_eq_true_eq, decide_eq_true_eq] at approves
      refine ⟨login, review, mem_latestReviewReviews.mp member, approves.1, fun commit given => ?_⟩
      rw [approves.2] at given
      exact (Option.some.inj given).symm
    · rw [decide_eq_true_eq, currentApprovalCount_fst] at positive
      exact approvers_nonempty positive

end PiTools.Reconcile
