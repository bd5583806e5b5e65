import PiTools.Worker.Coordinator

/-
This file relates the item that a skip appends to the item on which the holder
of the last lease works. The row of a job learns its item outside the fence.
-/

namespace PiTools

open Library

/-! ### The last lease -/

def Event.grantOf (jobId : Uuid) : Event → Option LeasedJob
  | (_, .leased (some lease)) => if lease.id = jobId then some lease else none
  | _ => none

/-- The lease of the job that was granted last. -/
def lastLease (events : List Event) (jobId : Uuid) : Option LeasedJob :=
  (events.filterMap (Event.grantOf jobId)).getLast?

theorem lastLease_snoc (events : List Event) (event : Event) (jobId : Uuid) :
    lastLease (events ++ [event]) jobId = (event.grantOf jobId).or (lastLease events jobId) := by
  rw [lastLease, lastLease, List.filterMap_append, List.getLast?_append]
  cases granted : event.grantOf jobId with
  | none =>
      rw [List.filterMap_cons_none granted]
      rfl
  | some lease =>
      rw [List.filterMap_cons_some granted]
      rfl

theorem Event.grantOf_of_quiet {event : Event} {jobId : Uuid}
    (quiet : event.grants jobId = false) : event.grantOf jobId = none := by
  obtain ⟨op, reply⟩ := event
  cases reply with
  | leased granted =>
      cases granted with
      | none => rfl
      | some lease => simpa [Event.grants, Event.grantOf] using quiet
  | _ => rfl

theorem lastLease_mem {events : List Event} {jobId : Uuid} {lease : LeasedJob}
    (last : lastLease events jobId = some lease) :
    lease.id = jobId ∧ ∃ op, (op, .leased (some lease)) ∈ events := by
  obtain ⟨⟨op, reply⟩, member, granted⟩ := List.mem_filterMap.mp (List.mem_of_getLast? last)
  simp only [Event.grantOf] at granted
  split at granted
  · rename_i other same
    cases same
    split at granted
    · rename_i sameId
      cases granted
      exact ⟨sameId, op, member⟩
    · cases granted
  · cases granted

/-- Two granted leases with one token are one lease. -/
theorem lease_unique {events : List Event} (fresh : (events.filterMap Event.grantedToken).Nodup)
    {op op' : Op} {lease lease' : LeasedJob} (granted : (op, .leased (some lease)) ∈ events)
    (granted' : (op', .leased (some lease')) ∈ events)
    (same : lease.leaseToken = lease'.leaseToken) : lease = lease' := by
  have equal := row_unique_of_filterMap Event.grantedToken fresh granted granted' rfl
    (congrArg some same.symm)
  simp only [Prod.mk.injEq, Reply.leased.injEq, Option.some.injEq] at equal
  exact equal.2

/-! ### Rows and their items -/

/-- What a row knows about the last lease of its job. -/
structure Job.Tracked (events : List Event) (job : Job) : Prop where
  lease : job.state = .running ∨ job.state = .waitingApproval →
    ∃ lease, lastLease events job.id = some lease ∧ lease.kind = job.kind ∧
      SameItems lease.plan job.plan
  token : ∀ token, job.leaseToken = some token →
    ∃ lease, lastLease events job.id = some lease ∧ lease.leaseToken = token
  item : ∀ item, job.currentItem = some item → planItemIsSkipped job.plan item = false ∧
    ∀ lease : LeasedJob, lease.kind = job.kind → SameItems job.plan lease.plan →
      lease.workItem = some item

/-- Details that leave the items of a plan alone. -/
structure KeepsItems (details : Json) : Prop where
  isObject : details.isObject = true
  feedback : details.get "feedback" = none
  skipped : details.get "skipped_items" = none

/-- A waiting outcome brings fields of its own only. -/
theorem WaitingOutcome.keepsItems (sha256Hex : List Char → String) (plan : Json) {outcome : Json}
    (waiting : WaitingOutcome outcome) : KeepsItems (waitingDetails sha256Hex plan outcome) := by
  have absent : getField "feedback" (PiTools.detailFields (rawDetails outcome)) = none ∧
      getField "skipped_items" (PiTools.detailFields (rawDetails outcome)) = none := by
    cases waiting with
    | feedbackRepair | stackRebase => decide
    | ciRepair result =>
        rw [rawDetails, ciWaitingResult, get_sortedObject]
        simp [PiJobResult.summaryFields, getField, PiTools.detailFields]
  refine ⟨rfl, ?_, ?_⟩
  · rw [waitingDetails, bindApprovalDetails, Json.get_object,
      getField_insertField_of_ne (by decide)]
    exact absent.1
  · rw [waitingDetails, bindApprovalDetails, Json.get_object,
      getField_insertField_of_ne (by decide)]
    exact absent.2

/-- Only a skip changes the items of a plan. -/
theorem Move.sameItems {now : Timestamp} {rowEvent : RowEvent} {job job' : Job}
    (move : Move now job rowEvent job') (unskipped : rowEvent ≠ .skipped)
    (waits : ∀ workerId leaseToken details, rowEvent = .waiting workerId leaseToken details →
      KeepsItems details) : SameItems job.plan job'.plan := by
  cases move with
  | untouched | cancelled | exhausted | leased | renewed | succeeded | failed | linked =>
      exact .refl _
  | skipped => exact absurd rfl unskipped
  | waiting workerId leaseToken details held =>
      obtain ⟨isObject, feedback, skipped⟩ := waits workerId leaseToken details rfl
      exact ⟨Json.get_concat_of_absent isObject feedback, Json.get_concat_of_absent isObject skipped⟩
  | approved plan parked uncancelled shown set =>
      unfold approvedPlan at set
      split at set
      · cases set
      · rename_i approved first
        constructor
        · show plan.get "feedback" = job.plan.get "feedback"
          rw [Json.get_setKey _ set, Json.get_setKey _ first, if_neg (by decide),
            if_neg (by decide)]
        · show plan.get "skipped_items" = job.plan.get "skipped_items"
          rw [Json.get_setKey _ set, Json.get_setKey _ first, if_neg (by decide),
            if_neg (by decide)]

/-- Only a lease of the row explains that the job was granted. -/
theorem RowEvent.Explains.grants {event : Event} {now : Timestamp} {job : Job} {rowEvent : RowEvent}
    (explained : rowEvent.Explains event now job) (grants : event.grants job.id = true) :
    ∃ workerId leaseToken, rowEvent = .leased workerId leaseToken := by
  have touched := Event.touches_of_grants grants
  cases rowEvent with
  | untouched => exact absurd touched explained
  | exhausted => exact absurd touched explained.1
  | leased workerId leaseToken => exact ⟨workerId, leaseToken, rfl⟩
  | cancelled => rcases explained with rfl | ⟨_, rfl⟩ | ⟨_, rfl⟩ <;> cases grants
  | linked =>
      obtain ⟨_, _, _, rfl⟩ := explained
      cases grants
  | skipped | waiting | approved | renewed | succeeded | failed =>
      cases explained
      cases grants

/-- A move that writes no item keeps a row tracked. -/
theorem Move.tracked {events : List Event} {event : Event} {now : Timestamp} {rowEvent : RowEvent}
    {job job' : Job} (move : Move now job rowEvent job') (explained : rowEvent.Explains event now job)
    (unlinked : rowEvent ≠ .linked)
    (waits : ∀ workerId leaseToken details, rowEvent = .waiting workerId leaseToken details →
      KeepsItems details)
    (tracked : job.Tracked events) : job'.Tracked (events ++ [event]) := by
  obtain ⟨sameId, sameKey, _⟩ := move.identity
  simp only [Job.deduplicationKey, JobDeduplicationKey.mk.injEq] at sameKey
  obtain ⟨_, _, sameKind⟩ := sameKey
  -- Without a grant and a skip the row keeps what it knows.
  have carried : (∀ workerId leaseToken, rowEvent ≠ .leased workerId leaseToken) →
      rowEvent ≠ .skipped → (job'.state = .running ∨ job'.state = .waitingApproval →
        job.state = .running ∨ job.state = .waitingApproval) →
      (∀ token, job'.leaseToken = some token → job.leaseToken = some token) →
      job'.currentItem = job.currentItem → job'.Tracked (events ++ [event]) := by
    intro unleased unskipped states tokens sameItem
    have same := move.sameItems unskipped waits
    have last : lastLease (events ++ [event]) job'.id = lastLease events job.id := by
      rw [sameId, lastLease_snoc, Event.grantOf_of_quiet, Option.none_or]
      by_contra grants
      obtain ⟨workerId, leaseToken, same⟩ := explained.grants (Bool.not_eq_false _ ▸ grants)
      exact unleased workerId leaseToken same
    refine ⟨fun started => ?_, fun token held => ?_, fun item current => ?_⟩
    · obtain ⟨lease, known, kind, planned⟩ := tracked.lease (states started)
      exact ⟨lease, last.trans known, kind.trans sameKind.symm, planned.trans same⟩
    · rw [last]
      exact tracked.token token (tokens token held)
    · obtain ⟨left, works⟩ := tracked.item item (sameItem ▸ current)
      rw [same.planItemIsSkipped]
      exact ⟨left, fun lease kind later => works lease (kind.trans sameKind) (same.trans later)⟩
  cases move with
  | untouched => exact carried (by simp) (by simp) id (fun _ => id) rfl
  | linked => exact absurd rfl unlinked
  | renewed workerId leaseToken held =>
      exact carried (by simp) (by simp) id (fun _ => id) rfl
  | waiting workerId leaseToken details held =>
      exact carried (by simp) (by simp) (fun _ => .inl (Job.leaseHeld_running held).1)
        (by simp [Job.wait, Job.releaseLease]) rfl
  | approved plan parked =>
      exact carried (by simp) (by simp) (fun _ => .inr parked) (fun _ => id) rfl
  | cancelled | exhausted | succeeded | failed =>
      exact carried (by simp) (by simp) (by simp [Job.cancel, Job.exhaust, Job.complete])
        (by simp [Job.cancel, Job.exhaust, Job.complete, Job.releaseLease]) rfl
  | skipped plan =>
      exact ⟨by simp [Job.skip], by simp [Job.skip, Job.releaseLease], by simp [Job.skip]⟩
  | leased workerId leaseToken leaseable =>
      have granted : lastLease (events ++ [event]) job.id = some (job.leased leaseToken now) := by
        rw [lastLease_snoc, show event = _ from explained, Event.grantOf,
          if_pos (show (job.leased leaseToken now).id = job.id from rfl), Option.some_or]
      refine ⟨fun _ => ⟨_, granted, rfl, .refl _⟩, fun token held => ⟨_, granted, ?_⟩, tracked.item⟩
      exact Option.some.inj held

theorem newJob_tracked (events : List Event) (db : Database) (spec : JobSpec) (id : Uuid) :
    (newJob db spec id).Tracked events :=
  ⟨by simp [newJob], by simp [newJob], by simp [newJob]⟩

/-- A call that grants no lease of the job leaves the row tracked. -/
theorem Job.Tracked.snoc {events : List Event} {event : Event} {job : Job}
    (tracked : job.Tracked events) (quiet : event.grantOf job.id = none) :
    job.Tracked (events ++ [event]) := by
  have last : lastLease (events ++ [event]) job.id = lastLease events job.id := by
    rw [lastLease_snoc, quiet, Option.none_or]
  exact ⟨last ▸ tracked.lease, last ▸ tracked.token, tracked.item⟩

/-- A link under the live lease writes the item of the last lease. -/
theorem Job.Tracked.linked {events : List Event} {job : Job} {execution : PlanExecution} {op : Op}
    {items : List PlanItem} {now : Timestamp} (tracked : job.Tracked events)
    (fresh : (events.filterMap Event.grantedToken).Nodup)
    (granted : (op, .leased (some execution.lease)) ∈ events)
    (held : job.leaseHeld execution.workerId execution.lease.leaseToken now = true)
    (planned : planItemsForJob execution.lease .inProgress = .ok items)
    (whole : execution.lease.workItem = some execution.lease.kind.databaseValue →
      planItemIsSkipped execution.lease.plan execution.lease.kind.databaseValue = false)
    (checkRunId : Int) (checkRunUrl : String) :
    (job.linkCheckRun checkRunId checkRunUrl (currentItemId items)).Tracked events := by
  obtain ⟨running, _, _, token, _⟩ := Job.leaseHeld_iff.mp held
  obtain ⟨lease, last, sameToken⟩ := tracked.token _ token
  obtain ⟨_, known, kind, same⟩ := tracked.lease (.inl running)
  rw [last] at known
  cases known
  -- The live lease of the row is the lease of the execution.
  obtain ⟨_, op', granted'⟩ := lastLease_mem last
  have equal := lease_unique fresh granted' granted sameToken
  subst equal
  refine ⟨tracked.lease, tracked.token, fun item current => ?_⟩
  have working : execution.lease.workItem = some item :=
    (LeasedJob.workItem_of_items planned).trans current
  constructor
  · show planItemIsSkipped job.plan item = false
    rw [same.planItemIsSkipped]
    exact LeasedJob.workItem_unskipped working fun isKind => isKind ▸ whole (isKind ▸ working)
  · intro lease sameKind later
    rw [← working]
    exact LeasedJob.workItem_congr (sameKind.trans kind.symm) (same.trans later)

/-! ### The condition on steps -/

section Held

variable (sha256Hex : List Char → String) (parseUrl : String → Option Url)

/-- A link is sent under the live lease, and no skipped kind of a job is linked again. -/
def LinksHeldItem (system : PlanSystem) : PlanAction → Prop
  | .link execution _ =>
      (∃ job ∈ system.db.jobs, job.id = execution.lease.id ∧
        job.leaseHeld execution.workerId execution.lease.leaseToken system.db.now = true) ∧
      (execution.lease.workItem = some execution.lease.kind.databaseValue →
        planItemIsSkipped execution.lease.plan execution.lease.kind.databaseValue = false)
  | _ => True

def HeldStep (system : PlanSystem) (action : PlanAction) (next : PlanSystem) : Prop :=
  system.Step sha256Hex parseUrl action next ∧ LinksHeldItem system action

/-- A skip appends the item of the last lease, and only a live lease lets a worker write. -/
structure SkipsHeldItem (events : List Event) (system : PlanSystem) (action : PlanAction)
    (next : PlanSystem) : Prop where
  skipped : ∀ jobId, action.event = some (.skipCurrentItem jobId, .changed true) →
    ∃ job ∈ system.db.jobs, ∃ job' ∈ next.db.jobs, ∃ lease item, job.id = jobId ∧
      job'.id = jobId ∧ lastLease events jobId = some lease ∧
      (∀ token, job.leaseToken = some token → lease.leaseToken = token) ∧
      lease.workItem = some item ∧ planItemIsSkipped job.plan item = false ∧
      skippedItems job'.plan = skippedItems job.plan ++ [.string item]
  fenced : ∀ execution, action.execution = some execution → ∀ job ∈ system.db.jobs,
    job.id = execution.lease.id →
      job.leaseHeld execution.workerId execution.lease.leaseToken system.db.now = false →
        job ∈ next.db.jobs

variable {sha256Hex parseUrl} {start system next : PlanSystem} {actions : List PlanAction}

/-- A link comes from an execution that is ready for it. -/
theorem PlanSystem.Step.links {action : PlanAction} {jobId : Uuid} {checkRunId : Int}
    {checkRunUrl : String} {currentItem : Option String} {reply : Reply}
    (step : system.Step sha256Hex parseUrl action next)
    (called : action.event =
      some (.linkJobCheckRun jobId checkRunId checkRunUrl currentItem, reply)) :
    ∃ execution ∈ system.executions, ∃ event, action = .link execution event ∧
      reply = .done ∧ jobId = execution.lease.id ∧ ∃ items handle existing,
        execution.stage = .ready items handle existing ∧ currentItem = currentItemId items := by
  cases step with
  | call event outside =>
      cases called
      exact absurd outside id
  | link execution items handle existing stage _ next =>
      cases called
      exact ⟨execution, next.old, _, rfl, rfl, rfl, items, handle, existing, stage, rfl⟩
  | complete execution event may =>
      cases called
      cases may
  | _ => cases called

/-- Every row of a run with held links is tracked. -/
theorem run_tracked (initial : start.Initial)
    (run : Run (HeldStep sha256Hex parseUrl) start actions system)
    (fresh : ((actions.filterMap PlanAction.event).filterMap Event.grantedToken).Nodup) :
    ∀ job ∈ system.db.jobs, job.Tracked (actions.filterMap PlanAction.event) := by
  revert fresh
  refine run.history (fun past system =>
    ((past.filterMap PlanAction.event).filterMap Event.grantedToken).Nodup →
      ∀ job ∈ system.db.jobs, job.Tracked (past.filterMap PlanAction.event))
    (by simp [initial.jobs]) ?_
  intro past system action next earlier held ⟨step, allowed⟩ fresh job' member
  have before := earlier.mono fun _ _ _ held => held.1
  have constrained := run_constrained initial.jobs (run_planEvents before)
  rw [List.filterMap_append] at fresh ⊢
  rcases step.event with ⟨silent, same⟩ | ⟨event, called, dbStep⟩
  · rw [List.filterMap_cons_none silent, List.filterMap_nil, List.append_nil] at fresh ⊢
    exact held fresh job' (same ▸ member)
  rw [List.filterMap_cons_some called, List.filterMap_nil] at fresh ⊢
  rw [List.filterMap_append, List.nodup_append] at fresh
  have tracked := held fresh.1
  by_cases links : ∃ jobId checkRunId checkRunUrl currentItem,
      event.1 = .linkJobCheckRun jobId checkRunId checkRunUrl currentItem
  · obtain ⟨jobId, checkRunId, checkRunUrl, currentItem, sameOp⟩ := links
    obtain ⟨op, reply⟩ := event
    cases sameOp
    obtain ⟨execution, inside, linked, rfl, rfl, rfl, items, handle, existing, stage, rfl⟩ :=
      step.links called
    obtain ⟨job, jobInside, changed⟩ := forall₂_old (link_rows dbStep) member
    rcases changed with ⟨sameId, rfl⟩ | ⟨_, rfl⟩
    · obtain ⟨⟨row, rowInside, rowId, rowHeld⟩, whole⟩ := allowed
      have equal := row_unique Job.id constrained.ids rowInside jobInside (rowId.trans sameId.symm)
      subst equal
      obtain ⟨informed, op, granted⟩ := run_planExecutions initial before execution inside
      rw [PlanExecution.Informed, stage] at informed
      exact ((tracked row rowInside).linked fresh.1 granted rowHeld informed whole _ _).snoc rfl
    · exact (tracked _ jobInside).snoc rfl
  · obtain ⟨effect, kept⟩ := step_effect constrained dbStep
    rcases effect.row kept member with
      ⟨spec, proposedId, rfl, rfl, _⟩ | ⟨job, inside, rowEvent, move, explained⟩
    · exact newJob_tracked _ _ spec proposedId
    · refine move.tracked explained ?_ ?_ (tracked job inside)
      · rintro rfl
        obtain ⟨checkRunId, checkRunUrl, currentItem, rfl⟩ := explained
        exact links ⟨_, _, _, _, rfl⟩
      · rintro workerId leaseToken details rfl
        cases explained
        obtain ⟨execution, executionInside, stage, _⟩ := step.waits called
        have informed := (run_planExecutions initial before execution executionInside).1
        rw [PlanExecution.Informed, stage] at informed
        obtain ⟨outcome, waiting, rfl⟩ := informed
        exact waiting.keepsItems sha256Hex execution.lease.plan

/-- The call presents the lease of the execution. -/
def PlanExecution.Presents (execution : PlanExecution) : Op → Prop
  | .assertLease _ workerId token | .renewLease _ workerId token
  | .markWaitingApproval _ workerId token _ | .markSucceeded _ workerId token _
  | .markFailed _ workerId token _ =>
      workerId = execution.workerId ∧ token = execution.lease.leaseToken
  | _ => False

/-- Apart from the link, a worker calls the queue under its own lease. -/
theorem PlanSystem.Step.presents {action : PlanAction} {execution : PlanExecution} {event : Event}
    (step : system.Step sha256Hex parseUrl action next) (acts : action.execution = some execution)
    (called : action.event = some event) :
    (∃ linked, action = .link execution linked) ∨ execution.Presents event.1 := by
  obtain ⟨op, reply⟩ := event
  cases step with
  | call => cases acts
  | look | createCheckRun | createComment | updateComment | saveComment | display | abandon =>
      cases called
  | link =>
      cases acts
      exact .inl ⟨_, rfl⟩
  | renew | check | propose =>
      cases acts
      cases called
      exact .inr ⟨rfl, rfl⟩
  | complete _ _ may =>
      cases acts
      cases called
      refine .inr ?_
      cases may with
      | succeeded | failed | waiting => exact ⟨rfl, rfl⟩

/-- A call under a lease that the row does not hold leaves the row alone. -/
theorem Moved.unheld {event : Event} {now : Timestamp} {job job' : Job} {execution : PlanExecution}
    (moved : Moved event now job job') (presents : execution.Presents event.1)
    (unheld : job.leaseHeld execution.workerId execution.lease.leaseToken now = false) :
    job' = job := by
  obtain ⟨rowEvent, move, explained⟩ := moved
  cases move with
  | untouched => rfl
  | waiting _ _ _ held | renewed _ _ held | succeeded _ _ _ held | failed _ _ _ held =>
      cases explained
      obtain ⟨rfl, rfl⟩ := presents
      rw [unheld] at held
      cases held
  | skipped | approved | leased =>
      cases explained
      exact absurd presents id
  | cancelled =>
      rcases explained with rfl | ⟨_, rfl⟩ | ⟨_, rfl⟩ <;> exact absurd presents id
  | exhausted =>
      obtain ⟨_, _, _, same⟩ := explained
      rw [same] at presents
      exact absurd presents id
  | linked =>
      obtain ⟨_, _, _, rfl⟩ := explained
      exact absurd presents id

/-- Where every link holds its lease, a skip appends the item of the last lease. -/
theorem skip_held_item (initial : start.Initial)
    (run : Run (HeldStep sha256Hex parseUrl) start actions system)
    (fresh : ((actions.filterMap PlanAction.event).filterMap Event.grantedToken).Nodup)
    {action : PlanAction} (step : HeldStep sha256Hex parseUrl system action next) :
    SkipsHeldItem (actions.filterMap PlanAction.event) system action next := by
  have before := run_planEvents (run.mono fun _ _ _ held => held.1)
  have constrained := run_constrained initial.jobs before
  constructor
  · intro jobId called
    rcases step.1.event with ⟨silent, _⟩ | ⟨event, same, dbStep⟩
    · rw [silent] at called
      cases called
    rw [called] at same
    cases same
    obtain ⟨job, inside, rfl, job', inside', move⟩ := changed_moves constrained rfl dbStep
    have tracked := run_tracked initial run fresh job inside
    cases move with
    | skipped plan started uncancelled item set =>
        obtain ⟨current, known, _⟩ := (Option.any_eq_true ..).mp item
        obtain ⟨left, works⟩ := tracked.item current known
        obtain ⟨lease, last, kind, same⟩ := tracked.lease started
        refine ⟨job, inside, _, inside', lease, current, rfl, rfl, last, fun token held => ?_,
          works lease kind ⟨same.feedback.symm, same.skipped.symm⟩, left,
          skippedItems_skippedPlan known set⟩
        obtain ⟨other, last', sameToken⟩ := tracked.token token held
        rw [last] at last'
        cases last'
        exact sameToken
  · intro execution acts job inside sameId unheld
    rcases step.1.event with ⟨_, same⟩ | ⟨event, called, dbStep⟩
    · exact same ▸ inside
    rcases step.1.presents acts called with ⟨linked, rfl⟩ | presents
    · obtain ⟨row, rowInside, rowId, rowHeld⟩ := step.2.1
      have equal := row_unique Job.id constrained.ids rowInside inside (rowId.trans sameId.symm)
      rw [equal, unheld] at rowHeld
      cases rowHeld
    · obtain ⟨job', inside', moved⟩ := (step_effect constrained dbStep).1.successor inside
      exact moved.unheld presents unheld ▸ inside'

/-- A worker whose job has no handle yet comes to its link. -/
theorem ready_run {db : Database} {comments : Uuid → Option Int}
    {shown : Uuid → Option WorkPlanComment} {front back : List PlanExecution}
    {execution : PlanExecution} {items : List PlanItem} {comment : WorkPlanComment}
    {checkRunUrl : String} (kind : execution.lease.kind ≠ .reconcile)
    (stage : execution.stage = .leased)
    (planned : planItemsForJob execution.lease .inProgress = .ok items)
    (asserted : db.Step (execution.assertOp, .changed true) db)
    (unknown : existingWorkHandle db comments execution.lease.id = none)
    (built : WorkPlanComment.new parseUrl checkRunUrl items = .ok comment)
    (checkRunId commentId : Int) :
    Run (HeldStep sha256Hex parseUrl) ⟨db, comments, shown, front ++ execution :: back⟩
      [.check execution (execution.assertOp, .changed true), .look (execution.at (.checked items)),
        .createCheckRun (execution.at (.missing items)),
        .createComment (execution.at (.created items checkRunId checkRunUrl))]
      ⟨db, comments, Function.update shown execution.lease.id (some comment), front ++
        execution.at (.ready items ⟨checkRunId, checkRunUrl, commentId⟩ false) :: back⟩ := by
  have replaced : ∀ old new : PlanExecution,
      Replaces (front ++ old :: back) old [new] (front ++ new :: back) :=
    fun old new => ⟨front, back, rfl, by simp⟩
  refine Run.cons ⟨.check execution items kind stage planned asserted (replaced _ _), trivial⟩ ?_
  refine Run.cons ⟨.look _ items rfl (replaced _ _), trivial⟩ ?_
  rw [show existingWorkHandle _ _ (execution.at (.checked items)).lease.id = none from unknown]
  refine Run.cons ⟨.createCheckRun _ items checkRunId checkRunUrl rfl (replaced _ _), trivial⟩ ?_
  exact .single ⟨.createComment _ items checkRunId commentId checkRunUrl comment rfl built
    (replaced _ _), trivial⟩

end Held

/-! ### A stale link -/

def twoFeedback : Json :=
  sortedObject [("source", .string "reconcile"), ("feedback", .array [.null, .null]),
    ("policy_revision", .string "sha256:policy")]

/-- The first worker stalls before its link, and the second one links and is skipped. -/
def staleLink : List Op :=
  [.upsertRepository 1 1, .enqueue ⟨1, 7, .feedbackRepair, twoFeedback⟩ 5, .leaseNext "first" 10,
    .advance leaseInterval, .leaseNext "second" 11,
    .linkJobCheckRun 5 101 "url" (some "feedback-0"), .skipCurrentItem 5, .leaseNext "third" 12,
    .linkJobCheckRun 5 100 "url" (some "feedback-0"), .skipCurrentItem 5]

/-- The queue after some of the calls. -/
def staleDb (count : Nat) : Database := (replay (staleLink.take count) (.empty 0)).2

def feedbackItem (index : Nat) (status : ItemStatus)
    (validId : validateIdentifier "item id" (feedbackItemId index) = .ok ()) : PlanItem :=
  ⟨feedbackItemId index, "Process automated feedback", status, validId, by decide +kernel⟩

theorem firstItemId_valid : validateIdentifier "item id" (feedbackItemId 0) = .ok () := by
  decide +kernel

theorem secondItemId_valid : validateIdentifier "item id" (feedbackItemId 1) = .ok () := by
  decide +kernel

def twoItems : List PlanItem :=
  [feedbackItem 0 .inProgress firstItemId_valid, feedbackItem 1 .pending secondItemId_valid]

/-- Every text parses as a URL of GitHub. -/
def gitHubUrl (text : String) : Option Url := some ⟨"https", some "github.com", "", text⟩

def twoComment : WorkPlanComment := ⟨⟨"https", some "github.com", "", "url"⟩, twoItems, none⟩

def staleLease (leaseToken : Uuid) (granted : Timestamp) (attempt : Int) : LeasedJob :=
  ⟨5, 1, 7, .feedbackRepair, twoFeedback, granted + leaseInterval, leaseToken, attempt, 5⟩

def staleFirst : PlanExecution := ⟨"first", staleLease 10 0 1, .leased⟩

def staleSecond : PlanExecution := ⟨"second", staleLease 11 leaseInterval 2, .leased⟩

def readyToLink (execution : PlanExecution) (checkRunId : Int) : PlanExecution :=
  execution.at (.ready twoItems ⟨checkRunId, "url", checkRunId⟩ false)

def readyActions (execution : PlanExecution) (checkRunId : Int) : List PlanAction :=
  [.check execution (execution.assertOp, .changed true),
    .look (execution.at (.checked twoItems)), .createCheckRun (execution.at (.missing twoItems)),
    .createComment (execution.at (.created twoItems checkRunId "url"))]

/-- The system after some of the calls, without rows of comments. -/
def staleSystem (db : Database) (executions : List PlanExecution) : PlanSystem where
  db
  comments _ := none
  shown := Function.update (fun _ => none) 5 (some twoComment)
  executions

def staleActions : List PlanAction :=
  [.call (.upsertRepository 1 1, .done),
    .call (.enqueue ⟨1, 7, .feedbackRepair, twoFeedback⟩ 5, .job 5),
    .call (.leaseNext "first" 10, .leased (some staleFirst.lease))] ++ readyActions staleFirst 100

def planStart : PlanSystem := ⟨.empty 0, fun _ => none, fun _ => none, []⟩

section Stale

variable {sha256Hex : List Char → String}

theorem stale_first : Run (HeldStep sha256Hex gitHubUrl) planStart staleActions
    (staleSystem (staleDb 3) [readyToLink staleFirst 100]) := by
  have leased : Run (HeldStep sha256Hex gitHubUrl) planStart (staleActions.take 3)
      ⟨staleDb 3, fun _ => none, fun _ => none, [] ++ staleFirst :: []⟩ := by
    refine Run.cons ⟨.call _ trivial rfl, trivial⟩ ?_
    refine Run.cons ⟨.call _ (.feedback [.null, .null] "sha256:policy") rfl, trivial⟩ ?_
    exact .single ⟨.call _ trivial rfl, trivial⟩
  have planned : planItemsForJob staleFirst.lease .inProgress = .ok twoItems := by decide +kernel
  have built : WorkPlanComment.new gitHubUrl "url" twoItems = .ok twoComment := by decide +kernel
  have asserted : (staleDb 3).Step (staleFirst.assertOp, .changed true) (staleDb 3) := rfl
  exact leased.append (ready_run (by decide) rfl planned asserted rfl built 100 100)

end Stale

/-- The first worker links under its live lease. -/
def firstLink : PlanAction :=
  .link (readyToLink staleFirst 100) (.linkJobCheckRun 5 100 "url" (some "feedback-0"), .done)

def linkedSystem : PlanSystem :=
  staleSystem (perform (.linkJobCheckRun 5 100 "url" (some "feedback-0")) (staleDb 3)).1
    [staleFirst.at (.saving ⟨100, "url", 100⟩ none)]

def skippedSystem : PlanSystem :=
  { linkedSystem with
    db := (perform (.skipCurrentItem 5) linkedSystem.db).1
    executions := linkedSystem.executions ++ [] }

theorem skip_held_item_first :
    SkipsHeldItem ((staleActions ++ [firstLink]).filterMap PlanAction.event) linkedSystem
      (.call (.skipCurrentItem 5, .changed true)) skippedSystem := by
  have held : LinksHeldItem (staleSystem (staleDb 3) [readyToLink staleFirst 100]) firstLink :=
    ⟨⟨_, .head _, rfl, by decide⟩, fun whole => absurd whole (by decide +kernel)⟩
  have linked : HeldStep (fun _ => "") gitHubUrl
      (staleSystem (staleDb 3) [readyToLink staleFirst 100]) firstLink linkedSystem :=
    ⟨.link _ twoItems ⟨100, "url", 100⟩ false rfl rfl ⟨[], [], rfl, rfl⟩, held⟩
  have skips : HeldStep (fun _ => "") gitHubUrl linkedSystem
      (.call (.skipCurrentItem 5, .changed true)) skippedSystem :=
    ⟨.call (.skipCurrentItem 5, .changed true) trivial rfl, trivial⟩
  exact skip_held_item ⟨rfl, rfl⟩ (stale_first.snoc linked) (by decide) skips

/-- The third worker leases the plan without its first item. -/
def staleThird : PlanExecution :=
  ⟨"third",
    { staleLease 12 leaseInterval 2 with
      plan := sortedObject [("source", .string "reconcile"), ("feedback", .array [.null, .null]),
        ("policy_revision", .string "sha256:policy"),
        ("skipped_items", .array [.string "feedback-0"])] },
    .leased⟩

def secondSaving : PlanExecution := staleSecond.at (.saving ⟨101, "url", 101⟩ none)

def takeoverActions : List PlanAction :=
  [.call (.advance leaseInterval, .done),
    .call (.leaseNext "second" 11, .leased (some staleSecond.lease))] ++
  readyActions staleSecond 101 ++
  [.link (readyToLink staleSecond 101) (.linkJobCheckRun 5 101 "url" (some "feedback-0"), .done),
    .call (.skipCurrentItem 5, .changed true),
    .call (.leaseNext "third" 12, .leased (some staleThird.lease)), firstLink]

/-- The stale link has put the skipped item back into the row. -/
def staleLinked : PlanSystem :=
  { staleSystem (staleDb 9)
      [staleFirst.at (.saving ⟨100, "url", 100⟩ none), secondSaving, staleThird] with
    shown := Function.update (Function.update (fun _ => none) 5 (some twoComment)) 5
      (some twoComment) }

theorem stale_takeover (sha256Hex : List Char → String) :
    Run (PlanSystem.Step sha256Hex gitHubUrl)
      (staleSystem (staleDb 3) [readyToLink staleFirst 100]) takeoverActions staleLinked := by
  have planned : planItemsForJob staleSecond.lease .inProgress = .ok twoItems := by decide +kernel
  have built : WorkPlanComment.new gitHubUrl "url" twoItems = .ok twoComment := by decide +kernel
  have asserted : (staleDb 5).Step (staleSecond.assertOp, .changed true) (staleDb 5) := rfl
  have taken : Run (PlanSystem.Step sha256Hex gitHubUrl)
      (staleSystem (staleDb 3) [readyToLink staleFirst 100]) (takeoverActions.take 2)
      (staleSystem (staleDb 5) ([readyToLink staleFirst 100] ++ staleSecond :: [])) := by
    refine Run.cons (.call _ trivial rfl) ?_
    exact .single (.call _ trivial rfl)
  have ready : Run (HeldStep sha256Hex gitHubUrl)
      (staleSystem (staleDb 5) ([readyToLink staleFirst 100] ++ staleSecond :: []))
      (readyActions staleSecond 101)
      { staleLinked with
        db := staleDb 5
        executions := [readyToLink staleFirst 100] ++ readyToLink staleSecond 101 :: [] } :=
    ready_run (by decide) rfl planned asserted rfl built 101 101
  refine (taken.append (ready.mono fun _ _ _ held => held.1)).append ?_
  refine Run.cons (.link _ twoItems ⟨101, "url", 101⟩ false rfl rfl
    ⟨[readyToLink staleFirst 100], [], rfl, rfl⟩) ?_
  refine Run.cons (.call _ trivial rfl) ?_
  refine Run.cons (.call _ trivial rfl) ?_
  exact .single (.link _ twoItems ⟨100, "url", 100⟩ false rfl rfl
    ⟨[], [secondSaving, staleThird], rfl, rfl⟩)

/-- A stale link lets a skip append an item that was skipped before. -/
theorem stale_item_skipped_again :
    ¬ ∀ (sha256Hex : List Char → String) (parseUrl : String → Option Url)
      (start system next : PlanSystem) (actions : List PlanAction) (action : PlanAction),
      start.Initial → Run (PlanSystem.Step sha256Hex parseUrl) start actions system →
        ((actions.filterMap PlanAction.event).filterMap Event.grantedToken).Nodup →
          system.Step sha256Hex parseUrl action next →
            SkipsHeldItem (actions.filterMap PlanAction.event) system action next := by
  intro claimed
  have run := (stale_first.mono fun _ _ _ held => held.1).append (stale_takeover fun _ => "")
  have step : staleLinked.Step (fun _ => "") gitHubUrl (.call (.skipCurrentItem 5, .changed true))
      { staleLinked with db := staleDb 10, executions := staleLinked.executions ++ [] } :=
    .call (.skipCurrentItem 5, .changed true) trivial rfl
  obtain ⟨job, inside, job', inside', lease, item, _, _, _, _, _, left, appended⟩ :=
    (claimed _ _ _ _ _ _ _ ⟨rfl, rfl⟩ run (by decide) step).skipped 5 rfl
  have row : job = (staleDb 9).jobs.head (by decide) := List.mem_singleton.mp inside
  have row' : job' = (staleDb 10).jobs.head (by decide) := List.mem_singleton.mp inside'
  subst row row'
  have twice : [Json.string "feedback-0", .string "feedback-0"] =
      [.string "feedback-0"] ++ [.string item] := appended
  simp only [List.cons_append, List.nil_append, List.cons.injEq, Json.string.injEq] at twice
  rw [← twice.2.1] at left
  exact absurd left (by decide)

end PiTools
