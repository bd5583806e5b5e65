import PiTools.Worker.SkippedItems

/-
This file compares the fingerprint that the last comment of a job shows with the
hash that an approval copies.
-/

namespace PiTools

open Library

/-- The fingerprint in the work-plan comment of the job that was written last. -/
def PlanSystem.shownHash (system : PlanSystem) (jobId : Uuid) : Option String :=
  (system.shown jobId).bind WorkPlanComment.approvalHash

theorem WorkPlanComment.withApprovalHash_ok {plain comment : WorkPlanComment}
    {approvalHash : String} (bound : plain.withApprovalHash approvalHash = .ok comment) :
    comment.approvalHash = some approvalHash := by
  simp only [WorkPlanComment.withApprovalHash, bind_eq_ok, pure_eq_ok] at bound
  obtain ⟨_, _, rfl⟩ := bound
  rfl

/-- The program requests objects without details. -/
theorem RequestedPlan.plain {plan : Json} (requested : RequestedPlan plan) :
    plan.isObject = true ∧ plan.get "approval_details" = none := by
  cases requested <;> exact ⟨rfl, by rw [get_sortedObject]; simp [getField]⟩

section Shown

variable {sha256Hex : List Char → String} {parseUrl : String → Option Url}
  {start system next : PlanSystem} {actions : List PlanAction}

/-- The details of an execution carry a hash that the execution displayed. -/
def Displayed (actions : List PlanAction) (lease : LeasedJob) (details : Json) : Prop :=
  ∃ execution comment hash, .display execution comment ∈ actions ∧ execution.lease = lease ∧
    comment.approvalHash = some hash ∧ details.get "plan_hash" = some (.string hash)

theorem Displayed.snoc {lease : LeasedJob} {details : Json} (displayed : Displayed actions lease details)
    (action : PlanAction) : Displayed (actions ++ [action]) lease details := by
  obtain ⟨execution, comment, hash, member, rest⟩ := displayed
  exact ⟨execution, comment, hash, List.mem_append_left _ member, rest⟩

/-- An execution that is about to wait has displayed its details. -/
def PlanExecution.Shows (actions : List PlanAction) (execution : PlanExecution) : Prop :=
  match execution.stage with
  | .saving _ (some details) | .parking details => Displayed actions execution.lease details
  | _ => True

theorem PlanAdvance.shows {old : PlanExecution} {action : PlanAction} {stage : PlanStage}
    (advance : PlanAdvance sha256Hex old action stage) (shows : old.Shows actions) :
    (old.at stage).Shows (actions ++ [action]) := by
  cases advance with
  | checked | created | commented | updated | proposed => trivial
  | looked action items handle stage => cases handle <;> trivial
  | linked action items handle existing stage => cases existing <;> trivial
  | saved action handle details stage =>
      rw [PlanExecution.Shows, stage] at shows
      cases details
      · trivial
      · exact Displayed.snoc shows action
  | displayed handle details approvalHash plain comment stage hash bound =>
      exact ⟨old, comment, approvalHash, List.mem_append_right _ (.head _), rfl,
        WorkPlanComment.withApprovalHash_ok bound, hash⟩

theorem run_shows (initial : start.Initial)
    (run : Run (PlanSystem.Step sha256Hex parseUrl) start actions system) :
    ∀ execution ∈ system.executions, execution.Shows actions := by
  refine run.history (fun past system => ∀ execution ∈ system.executions, execution.Shows past)
    (by simp [initial.executions]) ?_
  intro past system action next earlier held step execution member
  rcases step.execution member with stays | ⟨fresh, _⟩ | ⟨old, inside, stage, rfl, advance⟩
  · have shows := held execution stays
    unfold PlanExecution.Shows at shows ⊢
    split
    · rename_i same
      rw [same] at shows
      exact Displayed.snoc shows action
    · rename_i same
      rw [same] at shows
      exact Displayed.snoc shows action
    · trivial
  · rw [PlanExecution.Shows, fresh]
    trivial
  · exact advance.shows (held old inside)

/-- A row has no details under the key that an approval reads, and its hash was displayed. -/
structure Job.Shown (actions : List PlanAction) (job : Job) : Prop where
  object : job.plan.isObject = true
  hidden : job.plan.get "approval_details" = none
  displayed : job.state = .waitingApproval → ∃ lease, lease.id = job.id ∧
    Displayed actions lease job.plan

/-- A move keeps the row without details when its wait brings displayed details. -/
theorem Move.shown {now : Timestamp} {rowEvent : RowEvent} {job job' : Job}
    (move : Move now job rowEvent job')
    (waits : ∀ workerId leaseToken details, rowEvent = .waiting workerId leaseToken details →
      details.isObject = true ∧ details.get "approval_details" = none ∧
        ∃ lease, lease.id = job.id ∧ Displayed actions lease details)
    (shown : job.Shown actions) : job'.Shown actions := by
  obtain ⟨object, hidden, displayed⟩ := shown
  cases move with
  | untouched | linked => exact ⟨object, hidden, displayed⟩
  | cancelled | exhausted | leased | succeeded | failed =>
      exact ⟨object, hidden, by simp [Job.cancel, Job.exhaust, Job.lease, Job.complete]⟩
  | renewed => exact ⟨object, hidden, displayed⟩
  | skipped plan started uncancelled item set =>
      refine ⟨?_, (Json.get_setKey _ set).trans ?_, by simp [Job.skip]⟩
      · obtain ⟨fields, _, rfl⟩ := Json.setKey_ok set
        rfl
      · rw [if_neg (by decide)]
        exact hidden
  | approved plan parked uncancelled shown set => simp [approvable, hidden] at shown
  | waiting workerId leaseToken details held =>
      obtain ⟨isObject, absent, lease, same, execution, comment, hash, member, rest⟩ :=
        waits workerId leaseToken details rfl
      exact ⟨Json.isObject_concat object isObject,
        (Json.get_concat_of_absent isObject absent).trans hidden,
        fun _ => ⟨lease, same, execution, comment, hash, member, rest.1, rest.2.1,
          Json.get_concat_of_found object rest.2.2⟩⟩

theorem Job.Shown.snoc {job : Job} (shown : job.Shown actions) (action : PlanAction) :
    job.Shown (actions ++ [action]) :=
  ⟨shown.object, shown.hidden, fun parked =>
    (shown.displayed parked).imp fun _ known => ⟨known.1, known.2.snoc action⟩⟩

/-- The rows of every run have no details that an approval could read. -/
theorem run_shown (initial : start.Initial)
    (run : Run (PlanSystem.Step sha256Hex parseUrl) start actions system) :
    ∀ job ∈ system.db.jobs, job.Shown actions := by
  refine run.history (fun past system => ∀ job ∈ system.db.jobs, job.Shown past)
    (by simp [initial.jobs]) ?_
  intro past system action next earlier held step job' member
  have constrained := run_constrained initial.jobs (run_planEvents earlier)
  rcases step.event with ⟨_, same⟩ | ⟨event, called, dbStep⟩
  · exact (held job' (same ▸ member)).snoc action
  obtain ⟨effect, kept⟩ := step_effect constrained dbStep
  rcases effect.row kept member with
    ⟨spec, proposedId, rfl, rfl, _⟩ | ⟨job, inside, rowEvent, move, explained⟩
  · obtain ⟨object, hidden⟩ := (step.requested called).plain
    exact ⟨object, hidden, by simp [newJob]⟩
  · refine (move.shown ?_ (held job inside)).snoc action
    rintro workerId leaseToken details rfl
    cases explained
    obtain ⟨execution, executionInside, stage, same⟩ := step.waits called
    have informed := (run_planExecutions initial earlier execution executionInside).1
    have shows := run_shows initial earlier execution executionInside
    rw [PlanExecution.Informed, stage] at informed
    rw [PlanExecution.Shows, stage] at shows
    obtain ⟨outcome, waiting, rfl⟩ := informed
    exact ⟨rfl, waitingDetails_get sha256Hex execution.lease.plan waiting, execution.lease, same, shows⟩

/-- No approval succeeds, because no row has details under the key that it reads. -/
theorem approval_refused (initial : start.Initial)
    (run : Run (PlanSystem.Step sha256Hex parseUrl) start actions system) (jobId : Uuid) :
    ¬ system.Step sha256Hex parseUrl (.call (.approvePlan jobId, .changed true)) next := by
  intro step
  rcases step.event with ⟨silent, _⟩ | ⟨event, called, dbStep⟩
  · cases silent
  cases called
  have constrained := run_constrained initial.jobs (run_planEvents run)
  obtain ⟨job, inside, _, _, _, move⟩ := changed_moves constrained rfl dbStep
  have hidden := (run_shown initial run job inside).hidden
  cases move with
  | approved plan parked uncancelled shown set => simp [approvable, hidden] at shown

/-- What holds of the displayed fingerprints in a state after the given actions. -/
structure ApprovesAsShown (sha256Hex : List Char → String) (parseUrl : String → Option Url)
    (actions : List PlanAction) (system : PlanSystem) : Prop where
  approved : ∀ jobId next,
    system.Step sha256Hex parseUrl (.call (.approvePlan jobId, .changed true)) next →
      ∀ job' ∈ next.db.jobs, job'.id = jobId → ∃ hash, system.shownHash jobId = some hash ∧
        job'.plan.get "approved_hash" = some (.string hash)
  displayed : ∀ job ∈ system.db.jobs, job.state = .waitingApproval →
    ∃ execution comment hash, .display execution comment ∈ actions ∧
      execution.lease.id = job.id ∧ comment.approvalHash = some hash ∧
        job.plan.get "plan_hash" = some (.string hash)

end Shown

/-! ### A job that waits -/

def zeroHash : String := "0000000000000000000000000000000000000000000000000000000000000000"

def zeroDigest (_ : List Char) : String := zeroHash

def parkedHandle : WorkHandle := ⟨100, "url", 100⟩

def twoDetails : Json := waitingDetails zeroDigest twoFeedback feedbackWaitingResult

def pendingComment : WorkPlanComment where
  checkRunUrl := ⟨"https", some "github.com", "", "url"⟩
  items := [feedbackItem 0 .pending firstItemId_valid, feedbackItem 1 .pending secondItemId_valid]
  approvalHash := some ("sha256:" ++ zeroHash)

/-- The first worker shows its proposal and waits. -/
def parkActions : List PlanAction :=
  [.saveComment (staleFirst.at (.saving parkedHandle none)),
    .propose (staleFirst.at (.working parkedHandle)) (staleFirst.assertOp, .changed true),
    .display (staleFirst.at (.proposed parkedHandle twoDetails)) pendingComment,
    .saveComment (staleFirst.at (.saving parkedHandle (some twoDetails))),
    .complete (staleFirst.at (.parking twoDetails))
      (.markWaitingApproval 5 "first" 10 twoDetails, .changed true)]

def parkedSystem : PlanSystem where
  db := (perform (.markWaitingApproval 5 "first" 10 twoDetails) linkedSystem.db).1
  comments := Function.update (Function.update (fun _ => none) 5 (some 100)) 5 (some 100)
  shown := Function.update linkedSystem.shown 5 (some pendingComment)
  executions := []

theorem parked_run : Run (PlanSystem.Step zeroDigest gitHubUrl) planStart
    (staleActions ++ [firstLink] ++ parkActions) parkedSystem := by
  have first : Run (PlanSystem.Step zeroDigest gitHubUrl) planStart (staleActions ++ [firstLink])
      linkedSystem :=
    (stale_first.mono fun _ _ _ held => held.1).snoc
      (.link _ twoItems ⟨100, "url", 100⟩ false rfl rfl ⟨[], [], rfl, rfl⟩)
  refine first.append ?_
  refine Run.cons (.saveComment _ parkedHandle none rfl ⟨[], [], rfl, rfl⟩) ?_
  refine Run.cons (.propose _ parkedHandle feedbackWaitingResult .feedbackRepair rfl rfl
    ⟨[], [], rfl, rfl⟩) ?_
  refine Run.cons (.display _ pendingComment.items parkedHandle twoDetails ("sha256:" ++ zeroHash)
    { pendingComment with approvalHash := none } pendingComment rfl rfl (by decide +kernel)
    (by decide +kernel) (by decide +kernel) ⟨[], [], rfl, rfl⟩) ?_
  refine Run.cons (.saveComment _ parkedHandle (some twoDetails) rfl ⟨[], [], rfl, rfl⟩) ?_
  exact .single (.complete _ _ (.waiting _ rfl) rfl ⟨[], [], rfl, rfl⟩)

end PiTools
