import PiTools.Queue.Fencing
import PiTools.Worker.WorkPlan

/-
This file defines the system that the workers form with the queue and the
displayed work plans. Every step is one transaction, one request or one
computation of one worker.
-/

namespace PiTools

open Library

/-! ### Requests -/

/-- The plans with which the program enqueues its jobs. -/
inductive RequestedPlan : Json → Prop
  | feedback (feedback : List Json) (policyRevision : String) :
      RequestedPlan (sortedObject [("source", .string "reconcile"), ("feedback", .array feedback),
        ("policy_revision", .string policyRevision)])
  | ciRepair (checks : List Json) (headSha policyRevision : String) :
      RequestedPlan (sortedObject [("source", .string "reconcile"), ("checks", .array checks),
        ("head_sha", .string headSha), ("policy_revision", .string policyRevision)])
  | stackRebase (pullRequests : List Json) (stackPlan : Json) (headSha policyRevision : String) :
      RequestedPlan (sortedObject [("source", .string "reconcile"),
        ("pull_requests", .array pullRequests), ("stack_plan", stackPlan),
        ("head_sha", .string headSha), ("policy_revision", .string policyRevision)])
  | webhook (event : String) (delivered : Option String) :
      RequestedPlan (sortedObject [("source", .string "webhook"), ("event", .string event),
        ("action", (delivered.map Json.string).getD .null)])
  | source (name : String)
      (known : name ∈ ["cli", "periodic-inventory", "periodic-watchlist", "operator"]) :
      RequestedPlan (sortedObject [("source", .string name)])

/-- The calls that no execution has to make. -/
def Op.Outside : Op → Prop
  | .enqueue spec _ => RequestedPlan spec.plan
  | .assertLease .. | .renewLease .. | .markWaitingApproval .. | .markSucceeded ..
  | .markFailed .. | .linkJobCheckRun .. => False
  | _ => True

/-! ### Executions -/

/-- The Check Run and the comment of a job. -/
structure WorkHandle where
  checkRunId : Int
  checkRunUrl : String
  commentId : Int
  deriving DecidableEq, Repr

/-- How far a worker came with the start and the end of its work. -/
inductive PlanStage
  | leased
  | checked (items : List PlanItem)
  | missing (items : List PlanItem)
  | created (items : List PlanItem) (checkRunId : Int) (checkRunUrl : String)
  | ready (items : List PlanItem) (handle : WorkHandle) (existing : Bool)
  | updating (items : List PlanItem) (handle : WorkHandle)
  | saving (handle : WorkHandle) (details : Option Json)
  | working (handle : WorkHandle)
  | proposed (handle : WorkHandle) (details : Json)
  | parking (details : Json)
  deriving Repr

structure PlanExecution where
  workerId : String
  lease : LeasedJob
  stage : PlanStage
  deriving Repr

def PlanExecution.at (execution : PlanExecution) (stage : PlanStage) : PlanExecution :=
  { execution with stage }

structure PlanSystem where
  db : Database
  /-- The GitHub comment in the row of kind `work_plan` of a job. -/
  comments : Uuid → Option Int
  /-- The work-plan comment of a job that was written last. -/
  shown : Uuid → Option WorkPlanComment
  executions : List PlanExecution

def existingWorkHandle (db : Database) (comments : Uuid → Option Int) (jobId : Uuid) :
    Option WorkHandle := do
  let job ← db.jobs.find? fun job => job.id = jobId
  let checkRunId ← job.checkRunId
  let checkRunUrl ← job.checkRunUrl
  let commentId ← comments jobId
  pure ⟨checkRunId, checkRunUrl, commentId⟩

/-- The stage after the look for an existing handle. -/
def startStage (items : List PlanItem) : Option WorkHandle → PlanStage
  | some handle => .ready items handle true
  | none => .missing items

/-- A new handle already has its comment, and the comment of an existing one is updated. -/
def linkedStage (items : List PlanItem) (handle : WorkHandle) (existing : Bool) : PlanStage :=
  if existing then .updating items handle else .saving handle none

def savedStage (handle : WorkHandle) : Option Json → PlanStage
  | some details => .parking details
  | none => .working handle

def PlanExecution.assertOp (execution : PlanExecution) : Op :=
  .assertLease execution.lease.id execution.workerId execution.lease.leaseToken

/-- The call with which an execution writes its item into the row of its job. -/
def PlanExecution.linkOp (execution : PlanExecution) (items : List PlanItem) (handle : WorkHandle) :
    Op :=
  .linkJobCheckRun execution.lease.id handle.checkRunId handle.checkRunUrl (currentItemId items)

/-- The completions that an execution may ask for. -/
inductive PlanExecution.MayComplete (execution : PlanExecution) : Op → Prop
  | succeeded (result : Json)
      (ended : execution.lease.kind = .reconcile ∨ ∃ handle, execution.stage = .working handle) :
      execution.MayComplete (.markSucceeded execution.lease.id execution.workerId
        execution.lease.leaseToken result)
  | failed (result : Json) :
      execution.MayComplete (.markFailed execution.lease.id execution.workerId
        execution.lease.leaseToken result)
  | waiting (details : Json) (shown : execution.stage = .parking details) :
      execution.MayComplete (.markWaitingApproval execution.lease.id execution.workerId
        execution.lease.leaseToken details)

/-- A granted lease starts an execution. -/
def Event.startedPlan : Event → List PlanExecution
  | (.leaseNext workerId _, .leased (some lease)) => [⟨workerId, lease, .leased⟩]
  | _ => []

inductive PlanAction
  | call (event : Event)
  | renew (execution : PlanExecution) (event : Event)
  | check (execution : PlanExecution) (event : Event)
  | look (execution : PlanExecution)
  | createCheckRun (execution : PlanExecution)
  | createComment (execution : PlanExecution)
  | link (execution : PlanExecution) (event : Event)
  | updateComment (execution : PlanExecution)
  | saveComment (execution : PlanExecution)
  | propose (execution : PlanExecution) (event : Event)
  | display (execution : PlanExecution) (comment : WorkPlanComment)
  | complete (execution : PlanExecution) (event : Event)
  | abandon (execution : PlanExecution)

/-- The call on the queue that an action makes. -/
def PlanAction.event : PlanAction → Option Event
  | .call event | .renew _ event | .check _ event | .link _ event | .propose _ event
  | .complete _ event => some event
  | _ => none

/-- The execution that acts. -/
def PlanAction.execution : PlanAction → Option PlanExecution
  | .call _ => none
  | .renew execution _ | .check execution _ | .look execution | .createCheckRun execution
  | .createComment execution | .link execution _ | .updateComment execution
  | .saveComment execution | .propose execution _ | .display execution _
  | .complete execution _ | .abandon execution => some execution

section Steps

variable (sha256Hex : List Char → String) (parseUrl : String → Option Url)

inductive PlanSystem.Step (system : PlanSystem) : PlanAction → PlanSystem → Prop
  | call {after : Database} (event : Event) (outside : event.1.Outside)
      (called : system.db.Step event after) :
      system.Step (.call event)
        { system with db := after, executions := system.executions ++ event.startedPlan }
  -- The heartbeat of a worker renews its lease beside the work.
  | renew {after : Database} {reply : Reply} (execution : PlanExecution)
      (inside : execution ∈ system.executions)
      (called : system.db.Step (.renewLease execution.lease.id execution.workerId
        execution.lease.leaseToken, reply) after) :
      system.Step (.renew execution (.renewLease execution.lease.id execution.workerId
        execution.lease.leaseToken, reply)) { system with db := after }
  | check {after : Database} {executions : List PlanExecution} (execution : PlanExecution)
      (items : List PlanItem) (kind : execution.lease.kind ≠ .reconcile)
      (stage : execution.stage = .leased)
      (planned : planItemsForJob execution.lease .inProgress = .ok items)
      (called : system.db.Step (execution.assertOp, .changed true) after)
      (next : Replaces system.executions execution [execution.at (.checked items)] executions) :
      system.Step (.check execution (execution.assertOp, .changed true))
        { system with db := after, executions }
  | look {executions : List PlanExecution} (execution : PlanExecution) (items : List PlanItem)
      (stage : execution.stage = .checked items)
      (next : Replaces system.executions execution [execution.at (startStage items
        (existingWorkHandle system.db system.comments execution.lease.id))] executions) :
      system.Step (.look execution) { system with executions }
  | createCheckRun {executions : List PlanExecution} (execution : PlanExecution)
      (items : List PlanItem) (checkRunId : Int) (checkRunUrl : String)
      (stage : execution.stage = .missing items)
      (next : Replaces system.executions execution
        [execution.at (.created items checkRunId checkRunUrl)] executions) :
      system.Step (.createCheckRun execution) { system with executions }
  | createComment {executions : List PlanExecution} (execution : PlanExecution)
      (items : List PlanItem) (checkRunId commentId : Int) (checkRunUrl : String)
      (comment : WorkPlanComment) (stage : execution.stage = .created items checkRunId checkRunUrl)
      (built : WorkPlanComment.new parseUrl checkRunUrl items = .ok comment)
      (next : Replaces system.executions execution
        [execution.at (.ready items ⟨checkRunId, checkRunUrl, commentId⟩ false)] executions) :
      system.Step (.createComment execution)
        { system with
          shown := Function.update system.shown execution.lease.id (some comment), executions }
  -- No condition on the lease stands in the statement.
  | link {after : Database} {executions : List PlanExecution} (execution : PlanExecution)
      (items : List PlanItem) (handle : WorkHandle) (existing : Bool)
      (stage : execution.stage = .ready items handle existing)
      (called : system.db.Step (execution.linkOp items handle, .done) after)
      (next : Replaces system.executions execution
        [execution.at (linkedStage items handle existing)] executions) :
      system.Step (.link execution (execution.linkOp items handle, .done))
        { system with db := after, executions }
  | updateComment {executions : List PlanExecution} (execution : PlanExecution)
      (items : List PlanItem) (handle : WorkHandle) (comment : WorkPlanComment)
      (stage : execution.stage = .updating items handle)
      (built : WorkPlanComment.new parseUrl handle.checkRunUrl items = .ok comment)
      (next : Replaces system.executions execution [execution.at (.saving handle none)]
        executions) :
      system.Step (.updateComment execution)
        { system with
          shown := Function.update system.shown execution.lease.id (some comment), executions }
  | saveComment {executions : List PlanExecution} (execution : PlanExecution)
      (handle : WorkHandle) (details : Option Json)
      (stage : execution.stage = .saving handle details)
      (next : Replaces system.executions execution [execution.at (savedStage handle details)]
        executions) :
      system.Step (.saveComment execution)
        { system with
          comments := Function.update system.comments execution.lease.id (some handle.commentId)
          executions }
  | propose {after : Database} {executions : List PlanExecution} (execution : PlanExecution)
      (handle : WorkHandle) (outcome : Json) (waiting : WaitingOutcome outcome)
      (stage : execution.stage = .working handle)
      (called : system.db.Step (execution.assertOp, .changed true) after)
      (next : Replaces system.executions execution [execution.at
        (.proposed handle (waitingDetails sha256Hex execution.lease.plan outcome))] executions) :
      system.Step (.propose execution (execution.assertOp, .changed true))
        { system with db := after, executions }
  | display {executions : List PlanExecution} (execution : PlanExecution) (items : List PlanItem)
      (handle : WorkHandle) (details : Json) (approvalHash : String)
      (plain comment : WorkPlanComment) (stage : execution.stage = .proposed handle details)
      (hash : details.get "plan_hash" = some (.string approvalHash))
      (planned : planItemsForJob execution.lease .pending = .ok items)
      (built : WorkPlanComment.new parseUrl handle.checkRunUrl items = .ok plain)
      (bound : plain.withApprovalHash approvalHash = .ok comment)
      (next : Replaces system.executions execution [execution.at (.saving handle (some details))]
        executions) :
      system.Step (.display execution comment)
        { system with
          shown := Function.update system.shown execution.lease.id (some comment), executions }
  | complete {after : Database} {executions : List PlanExecution} (execution : PlanExecution)
      (event : Event) (may : execution.MayComplete event.1) (called : system.db.Step event after)
      (next : Replaces system.executions execution [] executions) :
      system.Step (.complete execution event) { system with db := after, executions }
  | abandon {executions : List PlanExecution} (execution : PlanExecution)
      (next : Replaces system.executions execution [] executions) :
      system.Step (.abandon execution) { system with executions }

end Steps

/-- The system starts without jobs and without executions. -/
structure PlanSystem.Initial (system : PlanSystem) : Prop where
  jobs : system.db.jobs = []
  executions : system.executions = []

section Runs

variable {sha256Hex : List Char → String} {parseUrl : String → Option Url}
  {start system next finish : PlanSystem} {actions : List PlanAction}

/-- A step makes its call on the queue or leaves the queue alone. -/
theorem PlanSystem.Step.event {action : PlanAction}
    (step : system.Step sha256Hex parseUrl action next) :
    (action.event = none ∧ next.db = system.db) ∨
      ∃ event, action.event = some event ∧ system.db.Step event next.db := by
  cases step with
  | call event _ called | complete _ event _ called => exact .inr ⟨event, rfl, called⟩
  | renew _ _ called => exact .inr ⟨_, rfl, called⟩
  | check _ _ _ _ _ called => exact .inr ⟨_, rfl, called⟩
  | link _ _ _ _ _ called => exact .inr ⟨_, rfl, called⟩
  | propose _ _ _ _ _ called => exact .inr ⟨_, rfl, called⟩
  | look | createCheckRun | createComment | updateComment | saveComment | display | abandon =>
      exact .inl ⟨rfl, rfl⟩

/-- Every job is enqueued with a requested plan. -/
theorem PlanSystem.Step.requested {action : PlanAction} {spec : JobSpec} {proposedId : Uuid}
    {reply : Reply} (step : system.Step sha256Hex parseUrl action next)
    (called : action.event = some (.enqueue spec proposedId, reply)) : RequestedPlan spec.plan := by
  cases step with
  | call event outside =>
      cases called
      exact outside
  | complete execution event may =>
      cases called
      cases may
  | _ => cases called

/-- A wait comes from an execution that displayed its details. -/
theorem PlanSystem.Step.waits {action : PlanAction} {jobId leaseToken : Uuid} {workerId : String}
    {details : Json} {reply : Reply} (step : system.Step sha256Hex parseUrl action next)
    (called : action.event = some (.markWaitingApproval jobId workerId leaseToken details, reply)) :
    ∃ execution ∈ system.executions, execution.stage = .parking details ∧
      execution.lease.id = jobId := by
  cases step with
  | call event outside =>
      cases called
      exact absurd outside id
  | complete execution event may _ next =>
      cases called
      generalize same : Op.markWaitingApproval jobId workerId leaseToken details = op at may
      cases may with
      | waiting _ shown =>
          cases same
          exact ⟨execution, next.old, shown, rfl⟩
      | succeeded | failed => cases same
  | _ => cases called

/-- The calls of a run of the system are a run of the queue. -/
theorem run_planEvents (run : Run (PlanSystem.Step sha256Hex parseUrl) start actions finish) :
    Run Database.Step start.db (actions.filterMap PlanAction.event) finish.db :=
  run.filterMap PlanSystem.db PlanAction.event fun _ _ _ _ _ step => step.event

/-- The ways in which one execution moves on. -/
inductive PlanAdvance (sha256Hex : List Char → String) (old : PlanExecution) :
    PlanAction → PlanStage → Prop
  | checked (action : PlanAction) (items : List PlanItem)
      (planned : planItemsForJob old.lease .inProgress = .ok items) :
      PlanAdvance sha256Hex old action (.checked items)
  | looked (action : PlanAction) (items : List PlanItem) (handle : Option WorkHandle)
      (stage : old.stage = .checked items) :
      PlanAdvance sha256Hex old action (startStage items handle)
  | created (action : PlanAction) (items : List PlanItem) (checkRunId : Int)
      (checkRunUrl : String) (stage : old.stage = .missing items) :
      PlanAdvance sha256Hex old action (.created items checkRunId checkRunUrl)
  | commented (action : PlanAction) (items : List PlanItem) (checkRunId commentId : Int)
      (checkRunUrl : String) (stage : old.stage = .created items checkRunId checkRunUrl) :
      PlanAdvance sha256Hex old action (.ready items ⟨checkRunId, checkRunUrl, commentId⟩ false)
  | linked (action : PlanAction) (items : List PlanItem) (handle : WorkHandle) (existing : Bool)
      (stage : old.stage = .ready items handle existing) :
      PlanAdvance sha256Hex old action (linkedStage items handle existing)
  | updated (action : PlanAction) (handle : WorkHandle) :
      PlanAdvance sha256Hex old action (.saving handle none)
  | saved (action : PlanAction) (handle : WorkHandle) (details : Option Json)
      (stage : old.stage = .saving handle details) :
      PlanAdvance sha256Hex old action (savedStage handle details)
  | proposed (action : PlanAction) (handle : WorkHandle) (outcome : Json)
      (waiting : WaitingOutcome outcome) :
      PlanAdvance sha256Hex old action
        (.proposed handle (waitingDetails sha256Hex old.lease.plan outcome))
  | displayed (handle : WorkHandle) (details : Json) (approvalHash : String)
      (plain comment : WorkPlanComment) (stage : old.stage = .proposed handle details)
      (hash : details.get "plan_hash" = some (.string approvalHash))
      (bound : plain.withApprovalHash approvalHash = .ok comment) :
      PlanAdvance sha256Hex old (.display old comment) (.saving handle (some details))

/-- An execution after a step is an old one, a new one or one that moved on. -/
theorem PlanSystem.Step.execution {action : PlanAction} {execution : PlanExecution}
    (step : system.Step sha256Hex parseUrl action next) (member : execution ∈ next.executions) :
    execution ∈ system.executions ∨
      (execution.stage = .leased ∧ ∃ op, action = .call (op, .leased (some execution.lease))) ∨
        ∃ old ∈ system.executions, ∃ stage, execution = old.at stage ∧
          PlanAdvance sha256Hex old action stage := by
  have moved : ∀ {old : PlanExecution} {stage : PlanStage} {executions : List PlanExecution},
      Replaces system.executions old [old.at stage] executions → execution ∈ executions →
        PlanAdvance sha256Hex old action stage → execution ∈ system.executions ∨
          (execution.stage = .leased ∧ ∃ op, action = .call (op, .leased (some execution.lease))) ∨
            ∃ old ∈ system.executions, ∃ stage, execution = old.at stage ∧
              PlanAdvance sha256Hex old action stage := by
    intro old stage executions replaced inside advance
    rcases replaced.mem inside with stays | changed
    · exact .inl stays
    · exact .inr (.inr ⟨old, replaced.old, stage, List.mem_singleton.mp changed, advance⟩)
  cases step with
  | call event outside called =>
      rcases List.mem_append.mp member with stays | started
      · exact .inl stays
      · refine .inr (.inl ?_)
        simp only [Event.startedPlan] at started
        split at started
        · rw [List.mem_singleton] at started
          subst started
          exact ⟨rfl, _, rfl⟩
        · cases started
  | renew => exact .inl member
  | check old items kind stage planned called next =>
      exact moved next member (.checked _ items planned)
  | look old items stage next => exact moved next member (.looked _ items _ stage)
  | createCheckRun old items checkRunId checkRunUrl stage next =>
      exact moved next member (.created _ items checkRunId checkRunUrl stage)
  | createComment old items checkRunId commentId checkRunUrl comment stage built next =>
      exact moved next member (.commented _ items checkRunId commentId checkRunUrl stage)
  | link old items handle existing stage called next =>
      exact moved next member (.linked _ items handle existing stage)
  | updateComment old items handle comment stage built next =>
      exact moved next member (.updated _ handle)
  | saveComment old handle details stage next =>
      exact moved next member (.saved _ handle details stage)
  | propose old handle outcome waiting stage called next =>
      exact moved next member (.proposed _ handle outcome waiting)
  | display old items handle details approvalHash plain comment stage hash planned built bound next =>
      exact moved next member (.displayed handle details approvalHash plain comment stage hash bound)
  | complete old event may called next | abandon old next =>
      rcases next.mem member with stays | gone
      · exact .inl stays
      · cases gone

/-- What the stage of an execution owes to its lease. -/
def PlanExecution.Informed (sha256Hex : List Char → String) (execution : PlanExecution) : Prop :=
  match execution.stage with
  | .checked items | .missing items | .created items _ _ | .ready items _ _ | .updating items _ =>
      planItemsForJob execution.lease .inProgress = .ok items
  | .proposed _ details | .saving _ (some details) | .parking details =>
      ∃ outcome, WaitingOutcome outcome ∧
        details = waitingDetails sha256Hex execution.lease.plan outcome
  | _ => True

theorem PlanAdvance.informed {old : PlanExecution} {action : PlanAction} {stage : PlanStage}
    (advance : PlanAdvance sha256Hex old action stage) (informed : old.Informed sha256Hex) :
    (old.at stage).Informed sha256Hex := by
  cases advance with
  | checked action items planned => exact planned
  | looked action items handle stage =>
      rw [PlanExecution.Informed, stage] at informed
      cases handle <;> exact informed
  | created action items checkRunId checkRunUrl stage
  | commented action items checkRunId commentId checkRunUrl stage =>
      rwa [PlanExecution.Informed, stage] at informed
  | linked action items handle existing stage =>
      rw [PlanExecution.Informed, stage] at informed
      cases existing
      · trivial
      · exact informed
  | updated => trivial
  | saved action handle details stage =>
      rw [PlanExecution.Informed, stage] at informed
      cases details
      · trivial
      · exact informed
  | proposed action handle outcome waiting => exact ⟨outcome, waiting, rfl⟩
  | displayed handle details approvalHash plain comment stage =>
      rwa [PlanExecution.Informed, stage] at informed

/-- Every execution of a reachable state holds a granted lease and owes its stage to it. -/
theorem run_planExecutions (initial : start.Initial)
    (run : Run (PlanSystem.Step sha256Hex parseUrl) start actions finish) :
    ∀ execution ∈ finish.executions, execution.Informed sha256Hex ∧
      ∃ op, (op, .leased (some execution.lease)) ∈ actions.filterMap PlanAction.event := by
  refine run.history (fun past system => ∀ execution ∈ system.executions,
    execution.Informed sha256Hex ∧
      ∃ op, (op, .leased (some execution.lease)) ∈ past.filterMap PlanAction.event)
    (by simp [initial.executions]) ?_
  intro past system action next earlier held step execution member
  rw [List.filterMap_append]
  rcases step.execution member with stays | ⟨fresh, op, rfl⟩ | ⟨old, inside, stage, rfl, advance⟩
  · obtain ⟨known, op, granted⟩ := held execution stays
    exact ⟨known, op, List.mem_append_left _ granted⟩
  · refine ⟨?_, op, List.mem_append_right _ (by simp [PlanAction.event])⟩
    rw [PlanExecution.Informed, fresh]
    trivial
  · obtain ⟨known, op, granted⟩ := held old inside
    exact ⟨advance.informed known, op, List.mem_append_left _ granted⟩

end Runs

end PiTools
