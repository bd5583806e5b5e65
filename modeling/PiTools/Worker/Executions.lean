import PiTools.Worker.System

/-
This file states what one step of the system can do to the queue and to one
execution, and what every execution owes to the steps before it.
-/

namespace PiTools

open Library

variable {sha256Hex : List Char → String} {fromValue : Json → Option PiJobResult}

/-- A step makes its call on the queue or leaves the queue alone. -/
theorem WorkerSystem.Step.event {system next : WorkerSystem} {action : Action}
    (step : system.Step sha256Hex fromValue action next) :
    (action.event = none ∧ next.db = system.db) ∨
      ∃ event, action.event = some event ∧ system.db.Step event next.db := by
  cases step with
  | call event free called => exact .inr ⟨event, rfl, called⟩
  | followUp execution context data policyRevision proposedId stage failed called next =>
      exact .inr ⟨_, rfl, called⟩
  | complete execution event may called next => exact .inr ⟨event, rfl, called⟩
  | _ => exact .inl ⟨rfl, rfl⟩

/-- A call that only executions may make comes from one of them. -/
theorem WorkerSystem.Step.mayComplete {system next : WorkerSystem} {action : Action} {event : Event}
    (step : system.Step sha256Hex fromValue action next) (called : action.event = some event)
    (dependent : event.1.independent = false) (noEnqueue : ∀ spec id, event.1 ≠ .enqueue spec id) :
    ∃ execution ∈ system.executions, execution.MayComplete event.1 := by
  cases step with
  | call other free =>
      cases called
      rw [free] at dependent
      cases dependent
  | followUp =>
      cases called
      exact absurd rfl (noEnqueue _ _)
  | complete execution other may _ next =>
      cases called
      exact ⟨execution, next.old, may⟩
  | _ => cases called

theorem Execution.MayComplete.of_markSucceeded {execution : Execution} {jobId leaseToken : Uuid}
    {workerId : String} {result : Json}
    (may : execution.MayComplete (.markSucceeded jobId workerId leaseToken result)) :
    execution.lease.id = jobId ∧ execution.lease.leaseToken = leaseToken ∧
      (execution.lease.kind = .reconcile → execution.stage = .reconciled) := by
  generalize same : Op.markSucceeded jobId workerId leaseToken result = op at may
  cases may with
  | succeeded _ ended =>
      cases same
      exact ⟨rfl, rfl, ended⟩
  | failed | waiting => cases same

theorem Execution.MayComplete.of_markWaitingApproval {execution : Execution}
    {jobId leaseToken : Uuid} {workerId : String} {details : Json}
    (may : execution.MayComplete (.markWaitingApproval jobId workerId leaseToken details)) :
    execution.lease.id = jobId ∧ execution.lease.kind ≠ .reconcile ∧
      (execution.lease.kind = .ciRepair → KeepsEvidence details) := by
  generalize same : Op.markWaitingApproval jobId workerId leaseToken details = op at may
  cases may with
  | waiting _ repairs keeps =>
      cases same
      exact ⟨rfl, repairs, keeps⟩
  | failed | succeeded => cases same

/-- The ways in which one execution moves on. -/
inductive Advance (system : WorkerSystem) (old : Execution) : Action → Execution → Prop
  | load (context : PullRequestContext) (stage : old.stage = .leased)
      (found : pullRequestContext system.pullRequests old.lease.key = some context) :
      Advance system old (.load old context) (old.at (.loaded context))
  | read (context : PullRequestContext) (kind : old.lease.kind = .reconcile)
      (stage : old.stage = .loaded context) :
      Advance system old (.read old (system.github old.lease.key).readSet)
        (old.at (.read context (system.github old.lease.key).readSet))
  | save (context : PullRequestContext) (data : ReadSet) (stage : old.stage = .read context data) :
      Advance system old (.save old) (old.at (.saved context data))
  | reconciled (action : Action) (context : PullRequestContext) (data : ReadSet)
      (stage : old.stage = .saved context data) : Advance system old action (old.at .reconciled)
  | repaired (action : Action) (kind : old.lease.kind = .ciRepair) :
      Advance system old action (old.at .repaired)

/-- An execution after a step is an old one, a new one or one that moved on. -/
theorem WorkerSystem.Step.execution {system next : WorkerSystem} {action : Action}
    {execution : Execution} (step : system.Step sha256Hex fromValue action next)
    (member : execution ∈ next.executions) :
    execution ∈ system.executions ∨
      (execution.stage = .leased ∧ ∃ op, action = .call (op, .leased (some execution.lease))) ∨
        ∃ old ∈ system.executions, Advance system old action execution := by
  have moved : ∀ {old new : Execution} {executions : List Execution},
      Replaces system.executions old [new] executions → execution ∈ executions →
        Advance system old action new → execution ∈ system.executions ∨
          (execution.stage = .leased ∧ ∃ op, action = .call (op, .leased (some execution.lease))) ∨
            ∃ old ∈ system.executions, Advance system old action execution := by
    intro old new executions replaced inside advance
    rcases replaced.mem inside with stays | changed
    · exact .inl stays
    · rw [List.mem_singleton] at changed
      exact .inr (.inr ⟨old, replaced.old, changed ▸ advance⟩)
  cases step with
  | call event free called =>
      rcases List.mem_append.mp member with stays | started
      · exact .inl stays
      · refine .inr (.inl ?_)
        simp only [Event.started] at started
        split at started
        · rw [List.mem_singleton] at started
          subst started
          exact ⟨rfl, _, rfl⟩
        · cases started
  | observe | push => exact .inl member
  | load old context stage found next => exact moved next member (.load context stage found)
  | read old context kind stage next => exact moved next member (.read context kind stage)
  | save old context data stage next => exact moved next member (.save context data stage)
  | followUp old context data policyRevision proposedId stage failed called next =>
      exact moved next member (.reconciled _ context data stage)
  | noFollowUp old context data stage passed next =>
      exact moved next member (.reconciled _ context data stage)
  | repair old context answers reply kind stage current next =>
      exact moved next member (.repaired _ kind)
  | complete old event may called next | abandon old next =>
      rcases next.mem member with stays | gone
      · exact .inl stays
      · cases gone

section Runs

variable {start finish system after : WorkerSystem} {actions past : List Action}

/-- The calls of a run of the system are a run of the queue. -/
theorem run_events (run : Run (WorkerSystem.Step sha256Hex fromValue) start actions finish) :
    Run Database.Step start.db (actions.filterMap Action.event) finish.db :=
  run.filterMap WorkerSystem.db Action.event fun _ _ _ _ _ step => step.event

/-- What an execution owes to the steps before it. -/
structure Execution.Grounded (actions : List Action) (system : WorkerSystem)
    (execution : Execution) : Prop where
  granted : ∃ op, (op, .leased (some execution.lease)) ∈ actions.filterMap Action.event
  row : ∃ job ∈ system.db.jobs, job.id = execution.lease.id ∧
    job.deduplicationKey = ⟨execution.lease.repositoryId, execution.lease.pullRequestNumber,
      execution.lease.kind⟩
  read : execution.lease.kind = .reconcile → execution.stage ≠ .leased →
    (∀ context, execution.stage ≠ .loaded context) →
      ∃ reader data, .read reader data ∈ actions ∧ reader.lease = execution.lease

/-- Every execution of a reachable state is grounded. -/
theorem run_grounded (initial : start.Initial)
    (run : Run (WorkerSystem.Step sha256Hex fromValue) start actions finish) :
    ∀ execution ∈ finish.executions, execution.Grounded actions finish := by
  refine run.history (fun past system =>
    ∀ execution ∈ system.executions, execution.Grounded past system)
    (by simp [initial.executions]) ?_
  intro past system action next earlier held step execution member
  have constrained := run_constrained initial.jobs (run_events earlier)
  have rows : ∀ job ∈ system.db.jobs, ∃ job' ∈ next.db.jobs, job'.id = job.id ∧
      job'.deduplicationKey = job.deduplicationKey := by
    intro job inside
    rcases step.event with ⟨_, same⟩ | ⟨event, _, called⟩
    · exact ⟨job, same ▸ inside, rfl, rfl⟩
    · obtain ⟨job', inside', _, move, _⟩ := (step_effect constrained called).1.successor inside
      exact ⟨job', inside', move.identity.1, move.identity.2.1⟩
  -- The facts about an old execution carry over to every execution of its lease.
  have carried : ∀ old ∈ system.executions, old.lease = execution.lease →
      (∃ op, (op, .leased (some execution.lease)) ∈ (past ++ [action]).filterMap Action.event) ∧
      ∃ job ∈ next.db.jobs, job.id = execution.lease.id ∧
        job.deduplicationKey = ⟨execution.lease.repositoryId, execution.lease.pullRequestNumber,
          execution.lease.kind⟩ := by
    intro old inside same
    obtain ⟨⟨op, granted⟩, ⟨job, jobInside, sameId, sameKey⟩, _⟩ := held old inside
    obtain ⟨job', inside', keepsId, keepsKey⟩ := rows job jobInside
    rw [List.filterMap_append]
    exact ⟨⟨op, List.mem_append_left _ (same ▸ granted)⟩, job', inside',
      (keepsId.trans sameId).trans (by rw [same]), (keepsKey.trans sameKey).trans (by rw [same])⟩
  have readBefore : ∀ old ∈ system.executions, old.lease = execution.lease →
      old.lease.kind = .reconcile → old.stage ≠ .leased → (∀ context, old.stage ≠ .loaded context) →
        ∃ reader data, .read reader data ∈ past ++ [action] ∧ reader.lease = execution.lease := by
    intro old inside same kind notLeased notLoaded
    obtain ⟨reader, data, happened, sameLease⟩ := (held old inside).read kind notLeased notLoaded
    exact ⟨reader, data, List.mem_append_left _ happened, sameLease.trans same⟩
  rcases step.execution member with stays | ⟨fresh, op, rfl⟩ | ⟨old, inside, advance⟩
  · obtain ⟨granted, row⟩ := carried execution stays rfl
    exact ⟨granted, row, readBefore execution stays rfl⟩
  · rcases step.event with ⟨silent, _⟩ | ⟨event, same, called⟩
    · cases silent
    · cases same
      obtain ⟨job, _, workerId, leaseToken, _, taken, _, inside'⟩ := leased_moves constrained called
      refine ⟨⟨op, by simp [Action.event]⟩, ⟨_, inside', ?_, ?_⟩, fun _ notLeased => absurd fresh notLeased⟩
      · rw [taken]
        rfl
      · rw [taken]
        rfl
  · cases advance with
    | load context stage found =>
        obtain ⟨granted, row⟩ := carried old inside rfl
        exact ⟨granted, row, fun _ _ notLoaded => absurd rfl (notLoaded context)⟩
    | read context kind stage =>
        obtain ⟨granted, row⟩ := carried old inside rfl
        exact ⟨granted, row, fun _ _ _ =>
          ⟨old, _, List.mem_append_right _ (List.mem_singleton.mpr rfl), rfl⟩⟩
    | save context data stage =>
        obtain ⟨granted, row⟩ := carried old inside rfl
        exact ⟨granted, row, fun kind _ _ =>
          readBefore old inside rfl kind (by simp [stage]) (by simp [stage])⟩
    | reconciled _ context data stage =>
        obtain ⟨granted, row⟩ := carried old inside rfl
        exact ⟨granted, row, fun kind _ _ =>
          readBefore old inside rfl kind (by simp [stage]) (by simp [stage])⟩
    | repaired _ kind =>
        obtain ⟨granted, row⟩ := carried old inside rfl
        refine ⟨granted, row, fun reconcile _ _ => ?_⟩
        rw [show (old.at .repaired).lease = old.lease from rfl, kind] at reconcile
        cases reconcile

/-- A completion belongs to an execution whose lease describes the row. -/
theorem completion_execution (initial : start.Initial)
    (before : Run (WorkerSystem.Step sha256Hex fromValue) start past system) {action : Action}
    {op : Op} {reply : Reply} (step : system.Step sha256Hex fromValue action after)
    (called : action.event = some (op, reply)) (dependent : op.independent = false)
    (noEnqueue : ∀ spec id, op ≠ .enqueue spec id) {job : Job} (member : job ∈ system.db.jobs)
    (names : ∀ execution : Execution, execution.MayComplete op → execution.lease.id = job.id) :
    ∃ execution ∈ system.executions, execution.MayComplete op ∧
      execution.Grounded past system ∧ execution.lease.kind = job.kind ∧
      execution.lease.key = (job.repositoryId, job.pullRequestNumber) := by
  obtain ⟨execution, inside, may⟩ := step.mayComplete called dependent noEnqueue
  have grounded := run_grounded initial before execution inside
  obtain ⟨row, rowInside, sameId, sameKey⟩ := grounded.row
  have constrained := run_constrained initial.jobs (run_events before)
  have equal := row_unique Job.id constrained.ids rowInside member (sameId.trans (names execution may))
  subst equal
  simp only [Job.deduplicationKey, JobDeduplicationKey.mk.injEq] at sameKey
  exact ⟨execution, inside, may, grounded, sameKey.2.2.symm,
    by rw [LeasedJob.key, sameKey.1, sameKey.2.1]⟩

end Runs

end PiTools
