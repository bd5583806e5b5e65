import PiTools.Feedback.Repair
import PiTools.Reconcile.ReadOrder
import PiTools.Worker.FeedbackRepairs
import PiTools.Workspace.Repair

/-
This file says exactly when the repair admits all the feedback that a
reconciliation plans.
-/

namespace PiTools

open Library Reconcile
open Feedback (RepairDecision RepairOutcome)

/-- What the repair reads of a planned record. -/
def repairInput (record : FeedbackRecord) : Feedback where
  actorLogin := record.actorLogin
  actorType := record.actorType
  isAutomation := record.isAutomation
  body := record.body.toList
  path := record.path.map String.toList
  startLine := record.startLine.map UInt32.ofNat
  line := record.line.map UInt32.ofNat

/-- The feedback that a reconciliation plans for repair. -/
def followUpFeedback (data : PullRequestReadSet) (policy : Reconcile.Policy) : List FeedbackRecord :=
  automationFeedback policy (reconcileReadSet data policy).feedback

/-- No planned record is taken for human feedback or for that of another actor, and none is
rejected for that reason. -/
structure GatesAgree (data : PullRequestReadSet) (policy : Reconcile.Policy) : Prop where
  admitted : ∀ record ∈ followUpFeedback data policy, ∀ (Content : Type) (fs : FileSystem Content)
    (root : List Char) (decision : RepairDecision) (outcome : RepairOutcome),
      (Feedback.Disk.repairFeedback fs root policy.automationActors (repairInput record)
        decision).1 = .ok outcome →
          outcome.disposition ≠ .humanFeedback ∧ outcome.disposition ≠ .rejectedActor
  notRejected : ∀ record ∈ followUpFeedback data policy, ∀ (Content : Type)
    (world : Workspace.CloneWorld Content) (files : Files (List Char) Content),
      Workspace.repairFeedback world files policy.automationActors (repairInput record) ≠
        .error .repairNotApplied

variable {data : PullRequestReadSet} {policy : Reconcile.Policy} {record : FeedbackRecord}

/-- Every record says of its author what the policy says. -/
theorem feedback_isAutomation (member : record ∈ (reconcileReadSet data policy).feedback) :
    record.isAutomation = isAutomation record.actorLogin record.actorType policy := by
  have read : record ∈ readRecords (latestReviewDecisions data.reviews) data policy := by
    have sorted := (List.destutter_sublist _ _).subset member
    exact (List.mem_insertionSort _).mp sorted
  rcases mem_readRecords.mp read with ⟨review, -, made⟩ | ⟨comment, -, made⟩ | ⟨comment, -, made⟩
  · rw [reviewRecord, Option.map_eq_some_iff] at made
    obtain ⟨body, -, rfl⟩ := made
    rfl
  · rw [commentRecord, Option.map_eq_some_iff] at made
    obtain ⟨body, -, rfl⟩ := made
    rfl
  · rw [commentRecord, Option.map_eq_some_iff] at made
    obtain ⟨body, -, rfl⟩ := made
    rfl

theorem mem_followUpFeedback : record ∈ followUpFeedback data policy ↔
    record ∈ (reconcileReadSet data policy).feedback ∧ record.resolved = false ∧
      record.actorLogin ∈ policy.automationActors := by
  rw [followUpFeedback, automationFeedback, List.mem_filter, Bool.and_eq_true, Bool.not_eq_true',
    Policy.isConfiguredAutomationActor, List.any_eq_true]
  simp only [decide_eq_true_eq, exists_eq_right]

/-- The author is automation for the repair, too. -/
theorem followUpFeedback_automation (member : record ∈ followUpFeedback data policy) :
    record.isAutomation = true := by
  obtain ⟨inside, -, listed⟩ := mem_followUpFeedback.mp member
  rw [feedback_isAutomation inside, isAutomation, Bool.or_eq_true]
  right
  rw [Policy.isConfiguredAutomationActor, List.any_eq_true]
  exact ⟨record.actorLogin, listed, by simp⟩

/-- The repair admits all planned feedback exactly when the configured actors of the open feedback
are bots. -/
theorem feedback_gates_agree_iff (data : PullRequestReadSet) (policy : Reconcile.Policy) :
    GatesAgree data policy ↔ ∀ record ∈ (reconcileReadSet data policy).feedback,
      record.resolved = false → record.actorLogin ∈ policy.automationActors →
        record.actorType = "Bot" := by
  constructor
  · intro agree record member stays listed
    by_contra human
    have planned := mem_followUpFeedback.mpr ⟨member, stays, listed⟩
    have ran := @Feedback.Disk.repairFeedback_human _ (.ofFiles (Files.single [] [])) []
      policy.automationActors (repairInput record) .preview (.inr human)
    have refused := agree.admitted record planned _ (.ofFiles (Files.single [] [])) [] .preview _
      (congrArg Prod.fst ran)
    exact refused.1 rfl
  · intro bots
    constructor
    · intro record planned Content fs root decision outcome ran
      obtain ⟨inside, stays, listed⟩ := mem_followUpFeedback.mp planned
      rcases Feedback.Disk.repairFeedback_admitted (followUpFeedback_automation planned)
        (bots record inside stays listed) listed ran with previewed | applied
      · rw [previewed]
        decide
      · rw [applied]
        decide
    · intro record planned Content world files rejected
      obtain ⟨inside, stays, listed⟩ := mem_followUpFeedback.mp planned
      have automated := followUpFeedback_automation planned
      have bot := bots record inside stays listed
      have known : (repairInput record).actorLogin ∈ policy.automationActors := listed
      rw [Workspace.repairFeedback, if_neg (by simp [repairInput, automated, bot]),
        if_neg (not_not.mpr known)] at rejected
      split at rejected
      · cases rejected
      · split at rejected <;> cases rejected

/-- A machine account of the type of people comments on a pull request. -/
def machineComment : PullRequestComment :=
  ⟨22, some "Use the checked addition.", ⟨"review-machine", "User"⟩, none, none, none⟩

def machineReads : PullRequestReadSet := { twoApps with issueComments := [machineComment] }

def machinePolicy : Reconcile.Policy := ⟨["review-machine"], [], false, false⟩

def machineRecord : FeedbackRecord where
  id := "issue-comment:22"
  actorLogin := "review-machine"
  actorType := "User"
  body := "Use the checked addition."
  resolved := false
  isAutomation := true
  path := none
  startLine := none
  line := none

theorem machine_feedback_rejected : ¬ ∀ data policy, GatesAgree data policy := by
  intro claimed
  have planned : machineRecord ∈ followUpFeedback machineReads machinePolicy := by decide +kernel
  have ran := @Feedback.Disk.repairFeedback_human _ (.ofFiles (Files.single [] [])) []
    machinePolicy.automationActors (repairInput machineRecord) .preview (.inr (by decide))
  have refused := (claimed machineReads machinePolicy).admitted machineRecord planned _
    (.ofFiles (Files.single [] [])) [] .preview _ (congrArg Prod.fst ran)
  exact refused.1 rfl

end PiTools
