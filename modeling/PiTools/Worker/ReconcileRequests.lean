import PiTools.Worker.Executions

/-
This file follows a request for a reconciliation until no reconciliation of its
pull request is pending.
-/

namespace PiTools

open Library

/-- A GitHub read of the pull request starts in the given steps. -/
def ReadAfter (future : List Action) (key : PullRequestKey) : Prop :=
  ∃ execution data, .read execution data ∈ future ∧ execution.lease.key = key

/-- The job ended without a success. -/
def Dropped (system : WorkerSystem) (jobId : Uuid) : Prop :=
  ∃ job ∈ system.db.jobs, job.id = jobId ∧ (job.state = .cancelled ∨ job.state = .failed)

/-- The job was running under a lease whose GitHub read had started, and succeeded under it. -/
def Absorbed (past : List Action) (system : WorkerSystem) (future : List Action) (jobId : Uuid) :
    Prop :=
  ∃ job ∈ system.db.jobs, job.id = jobId ∧ job.state = .running ∧
    ∃ execution data workerId result, .read execution data ∈ past ∧
      job.leaseToken = some execution.lease.leaseToken ∧
      (.markSucceeded jobId workerId execution.lease.leaseToken result, .changed true) ∈
        future.filterMap Action.event

/-- The job still waits for its turn or runs. -/
def Pending (system : WorkerSystem) (spec : JobSpec) (jobId : Uuid) : Prop :=
  ∃ job ∈ system.db.jobs, job.id = jobId ∧ job.deduplicationKey = spec.deduplicationKey ∧
    (job.state = .queued ∨ job.state = .running)

/-- A returned request stands for an active job of its identity. -/
theorem enqueue_active {db after : Database} {spec : JobSpec} {proposedId id : Uuid}
    (kind : spec.kind = .reconcile) (step : db.Step (.enqueue spec proposedId, .job id) after) :
    ∃ job ∈ after.jobs, job.id = id ∧ job.active = true ∧
      job.deduplicationKey = spec.deduplicationKey := by
  have unhandled : terminalJob db spec = none := by simp [terminalJob, kind]
  simp only [Database.Step, perform, enqueue, unhandled, insertJob] at step
  split at step
  · rename_i job found
    simp only [settle, Prod.mk.injEq, Reply.job.injEq] at step
    obtain ⟨rfl, rfl⟩ := step
    have meets := List.find?_some found
    simp only [Bool.and_eq_true, decide_eq_true_eq] at meets
    exact ⟨job, List.mem_of_find?_eq_some found, rfl, meets⟩
  · split at step
    · simp [settle] at step
    · cases accepted : storeJobs (db.jobs ++ [newJob db spec proposedId]) with
      | error reason => simp [accepted, settle] at step
      | ok stored =>
          simp only [accepted, settle, Prod.mk.injEq, Reply.job.injEq] at step
          obtain ⟨rfl, rfl⟩ := step
          obtain ⟨rfl, _⟩ := storeJobs_ok.mp accepted
          exact ⟨_, List.mem_append_right _ (.head _), rfl, rfl, rfl⟩

section Runs

variable {sha256Hex : List Char → String} {fromValue : Json → Option PiJobResult}
  {start system after finish : WorkerSystem} {past future : List Action}

/-- A reconciliation never waits for approval. -/
theorem reconcile_not_waiting (initial : start.Initial)
    (run : Run (WorkerSystem.Step sha256Hex fromValue) start past system) :
    ∀ job ∈ system.db.jobs, job.kind = .reconcile → job.state ≠ .waitingApproval := by
  refine run.history (fun _ state =>
    ∀ job ∈ state.db.jobs, job.kind = .reconcile → job.state ≠ .waitingApproval)
    (by simp [initial.jobs]) ?_
  intro past state action next earlier held step job' member kind waits
  have constrained := run_constrained initial.jobs (run_events earlier)
  rcases step.event with ⟨_, same⟩ | ⟨event, called, dbStep⟩
  · exact held job' (same ▸ member) kind waits
  · obtain ⟨effect, kept⟩ := step_effect constrained dbStep
    rcases effect.row kept member with
      ⟨spec, proposedId, _, rfl, _⟩ | ⟨job, inside, rowEvent, move, explained⟩
    · simp [newJob] at waits
    · have sameKind : job.kind = .reconcile := by
        have keys := move.identity.2.1
        simp only [Job.deduplicationKey, JobDeduplicationKey.mk.injEq] at keys
        exact keys.2.2.symm.trans kind
      cases move with
      | untouched | linked => exact held _ inside sameKind waits
      | waiting workerId leaseToken details held =>
          rw [RowEvent.Explains] at explained
          subst explained
          obtain ⟨execution, _, may, _, leaseKind, _⟩ := completion_execution initial earlier step
            called rfl (by simp) inside fun _ may => may.of_markWaitingApproval.1
          exact may.of_markWaitingApproval.2.1 (leaseKind.trans sameKind)
      | renewed _ _ held => simp [Job.renew, (Job.leaseHeld_running held).1] at waits
      | cancelled | skipped | approved | exhausted | leased | succeeded | failed =>
          simp [Job.cancel, Job.skip, Job.approve, Job.exhaust, Job.lease, Job.complete] at waits

/-- The lease of a read was granted before. -/
theorem read_granted (initial : start.Initial)
    (run : Run (WorkerSystem.Step sha256Hex fromValue) start past system) {execution : Execution}
    {data : ReadSet} (happened : .read execution data ∈ past) :
    ∃ op, (op, .leased (some execution.lease)) ∈ past.filterMap Action.event := by
  obtain ⟨first, rest, middle, next, rfl, earlier, step, _⟩ := run.step_of_mem happened
  rw [List.filterMap_append]
  cases step with
  | read _ context kind stage replaced =>
      obtain ⟨op, granted⟩ := (run_grounded initial earlier execution replaced.old).granted
      exact ⟨op, List.mem_append_left _ granted⟩

/-- A lease that was granted in the past and is live in the future was live all the time. -/
theorem running_before (initial : start.Initial)
    (before : Run (WorkerSystem.Step sha256Hex fromValue) start past system)
    (later : Run (WorkerSystem.Step sha256Hex fromValue) system future finish)
    (fresh : ((past ++ future).filterMap Action.event |>.filterMap Event.grantedToken).Nodup)
    {lease : LeasedJob} {op : Op}
    (granted : (op, .leased (some lease)) ∈ past.filterMap Action.event)
    (live : finish.db.live lease.id = some lease.leaseToken) :
    ∃ job ∈ system.db.jobs, job.id = lease.id ∧ job.state = .running ∧
      job.leaseToken = some lease.leaseToken := by
  have first := run_events before
  rw [List.filterMap_append, List.filterMap_append, List.nodup_append] at fresh
  have ungranted : lease.leaseToken ∉
      ((future.filterMap Action.event).map Event.act).filterMap Fence.Act.granted := by
    rw [filterMap_act_granted]
    intro again
    exact fresh.2.2 _ (List.mem_filterMap.mpr ⟨_, granted, rfl⟩) _ again rfl
  have alive : ¬ Fence.Dead system.db.live lease.leaseToken := fun dead =>
    (Fence.dead_forever (run_fence_from initial.jobs first (run_events later)) dead ungranted).1
      lease.id live
  rw [Fence.Dead, not_forall] at alive
  obtain ⟨key, held⟩ := alive
  rw [not_not] at held
  have toJob : Fence.Act.grant lease.id lease.leaseToken ∈
      (past.filterMap Action.event).map Event.act := List.mem_map.mpr ⟨_, granted, rfl⟩
  have same := Fence.grant_unique (by rw [filterMap_act_granted]; exact fresh.1)
    (Fence.live_granted (run_fence initial.jobs first) held) toJob
  subst same
  obtain ⟨job, member, sameId, token⟩ := Database.live_some held
  simp only [Job.liveToken] at token
  split at token
  · rename_i running
    exact ⟨job, member, sameId, running.1, token⟩
  · cases token

theorem ReadAfter.snoc {key : PullRequestKey} (read : ReadAfter future key) (action : Action) :
    ReadAfter (future ++ [action]) key := by
  obtain ⟨execution, data, happened, same⟩ := read
  exact ⟨execution, data, List.mem_append_left _ happened, same⟩

theorem Absorbed.snoc {jobId : Uuid} (absorbed : Absorbed past system future jobId)
    (action : Action) : Absorbed past system (future ++ [action]) jobId := by
  obtain ⟨job, member, same, running, execution, data, workerId, result, happened, token, ended⟩ :=
    absorbed
  refine ⟨job, member, same, running, execution, data, workerId, result, happened, token, ?_⟩
  rw [List.filterMap_append]
  exact List.mem_append_left _ ended

/-- A job that ended without a success stays so. -/
theorem Dropped.step {jobId : Uuid} {action : Action} (constrained : Constrained system.db.jobs)
    (dropped : Dropped system jobId) (step : system.Step sha256Hex fromValue action after) :
    Dropped after jobId := by
  obtain ⟨job, member, same, ended⟩ := dropped
  rcases step.event with ⟨_, equal⟩ | ⟨event, _, called⟩
  · exact ⟨job, equal ▸ member, same, ended⟩
  · obtain ⟨job', member', _, move, _⟩ := (step_effect constrained called).1.successor member
    have terminal : job.active = false := by
      rcases ended with state | state <;> simp [Job.active, state, JobState.active]
    exact ⟨job', member', move.identity.1.trans same, (move.terminal terminal).1 ▸ ended⟩

/-- One step after a request keeps it pending, reads GitHub, drops its job or absorbs it. -/
theorem request_step (initial : start.Initial)
    (before : Run (WorkerSystem.Step sha256Hex fromValue) start past system)
    (later : Run (WorkerSystem.Step sha256Hex fromValue) system future finish)
    (fresh : ((past ++ future).filterMap Action.event |>.filterMap Event.grantedToken).Nodup)
    {spec : JobSpec} (kind : spec.kind = .reconcile) {jobId : Uuid} {action : Action}
    (pending : Pending finish spec jobId) (step : finish.Step sha256Hex fromValue action after) :
    Pending after spec jobId ∨
      ReadAfter future (spec.repositoryId, spec.pullRequestNumber) ∨ Dropped after jobId ∨
        Absorbed past system (future ++ [action]) jobId := by
  have whole := before.append later
  have constrained := run_constrained initial.jobs (run_events whole)
  obtain ⟨job, member, rfl, sameKey, state⟩ := pending
  rcases step.event with ⟨_, equal⟩ | ⟨event, called, dbStep⟩
  · exact .inl ⟨job, equal ▸ member, rfl, sameKey, state⟩
  have keys : job.repositoryId = spec.repositoryId ∧
      job.pullRequestNumber = spec.pullRequestNumber ∧ job.kind = .reconcile := by
    simpa [Job.deduplicationKey, JobSpec.deduplicationKey, kind] using sameKey
  have nextWhole := run_events (whole.snoc step)
  obtain ⟨job', member', rowEvent, move, explained⟩ := (step_effect constrained dbStep).1.successor member
  have stays : job'.state = .queued ∨ job'.state = .running → Pending after spec job.id :=
    fun state => ⟨job', member', move.identity.1, move.identity.2.1.trans sameKey, state⟩
  have drops : job'.state = .cancelled ∨ job'.state = .failed → Dropped after job.id :=
    fun state => ⟨job', member', move.identity.1, state⟩
  cases move with
  | untouched | linked => exact .inl (stays state)
  | renewed => exact .inl (stays state)
  | skipped => exact .inl (stays (.inl rfl))
  | leased => exact .inl (stays (.inr rfl))
  | cancelled => exact .inr (.inr (.inl (drops (.inl rfl))))
  | exhausted | failed => exact .inr (.inr (.inl (drops (.inr rfl))))
  | approved plan parked => rcases state with other | other <;> simp [parked] at other
  | waiting workerId leaseToken details held =>
      exact absurd rfl (reconcile_not_waiting initial (whole.snoc step) _ member' keys.2.2)
  | succeeded workerId leaseToken result held =>
      rw [RowEvent.Explains] at explained
      subst explained
      obtain ⟨execution, inside, may, grounded, leaseKind, leaseKey⟩ :=
        completion_execution initial whole step called rfl (by simp) member
          fun _ may => may.of_markSucceeded.1
      obtain ⟨sameId, rfl, ended⟩ := may.of_markSucceeded
      have reconciles := leaseKind.trans keys.2.2
      have stage := ended reconciles
      obtain ⟨reader, data, happened, sameLease⟩ :=
        grounded.read reconciles (by simp [stage]) (by simp [stage])
      rcases List.mem_append.mp happened with inPast | inFuture
      · obtain ⟨op, granted⟩ := read_granted initial before inPast
        have live : finish.db.live reader.lease.id = some reader.lease.leaseToken := by
          rw [sameLease, sameId, Database.live_of_mem constrained.ids member,
            Job.liveToken_of_leaseHeld held]
        obtain ⟨row, rowInside, rowId, running, token⟩ :=
          running_before initial before later fresh granted live
        refine .inr (.inr (.inr ⟨row, rowInside, ?_, running, reader, data, workerId, result, inPast,
          token, ?_⟩))
        · rw [rowId, sameLease, sameId]
        · rw [List.filterMap_append, sameLease]
          exact List.mem_append_right _ (by simp [called])
      · exact .inr (.inl ⟨reader, data, inFuture, by rw [sameLease, leaseKey, keys.1, keys.2.1]⟩)

/-- A returned request was read, its job was dropped, or a lease that had read absorbed it. -/
theorem reconcile_requests_kept (initial : start.Initial) {spec : JobSpec}
    (kind : spec.kind = .reconcile) {proposedId jobId : Uuid}
    (before : Run (WorkerSystem.Step sha256Hex fromValue) start past system)
    (request : system.Step sha256Hex fromValue (.call (.enqueue spec proposedId, .job jobId)) after)
    (later : Run (WorkerSystem.Step sha256Hex fromValue) after future finish)
    (fresh : ((past ++ .call (.enqueue spec proposedId, .job jobId) :: future).filterMap
      Action.event |>.filterMap Event.grantedToken).Nodup)
    (idle : ∀ job ∈ finish.db.jobs, job.deduplicationKey = spec.deduplicationKey →
      job.state ≠ .queued ∧ job.state ≠ .running) :
    ReadAfter future (spec.repositoryId, spec.pullRequestNumber) ∨ Dropped finish jobId ∨
      Absorbed past system future jobId := by
  have first : Run (WorkerSystem.Step sha256Hex fromValue) start
      (past ++ [.call (.enqueue spec proposedId, .job jobId)]) after := before.snoc request
  have kept : Pending finish spec jobId ∨
      ReadAfter (.call (.enqueue spec proposedId, .job jobId) :: future)
        (spec.repositoryId, spec.pullRequestNumber) ∨ Dropped finish jobId ∨
      Absorbed past system (.call (.enqueue spec proposedId, .job jobId) :: future) jobId := by
    refine later.history (fun made state =>
      ((past ++ .call (.enqueue spec proposedId, .job jobId) :: made).filterMap
        Action.event |>.filterMap Event.grantedToken).Nodup →
      Pending state spec jobId ∨
        ReadAfter (.call (.enqueue spec proposedId, .job jobId) :: made)
          (spec.repositoryId, spec.pullRequestNumber) ∨ Dropped state jobId ∨
        Absorbed past system (.call (.enqueue spec proposedId, .job jobId) :: made) jobId)
      (fun _ => ?_) ?_ fresh
    · -- The returned job is active, and a reconciliation never waits for approval.
      rcases request.event with ⟨silent, _⟩ | ⟨event, same, called⟩
      · cases silent
      · cases same
        obtain ⟨job, member, sameId, active, sameKey⟩ := enqueue_active kind called
        have reconciles : job.kind = .reconcile := by
          have keys : job.kind = spec.kind := by
            simp only [Job.deduplicationKey, JobSpec.deduplicationKey,
              JobDeduplicationKey.mk.injEq] at sameKey
            exact sameKey.2.2
          exact keys.trans kind
        have notWaiting := reconcile_not_waiting initial first job member reconciles
        refine .inl ⟨job, member, sameId, sameKey, ?_⟩
        cases state : job.state <;> simp [Job.active, JobState.active, state] at active notWaiting ⊢
    · intro made state action next earlier held step distinct
      have whole : Run (WorkerSystem.Step sha256Hex fromValue) system
          (.call (.enqueue spec proposedId, .job jobId) :: made) state := Run.cons request earlier
      have shorter : ((past ++ .call (.enqueue spec proposedId, .job jobId) :: made).filterMap
          Action.event |>.filterMap Event.grantedToken).Nodup := by
        refine distinct.sublist (List.Sublist.filterMap _ (List.Sublist.filterMap _ ?_))
        exact (List.Sublist.refl _).append ((List.sublist_append_left made [action]).cons_cons _)
      rcases held shorter with pending | read | dropped | absorbed
      · rcases request_step initial before whole shorter kind pending step with
          still | read | dropped | absorbed
        · exact .inl still
        · exact .inr (.inl (read.snoc action))
        · exact .inr (.inr (.inl dropped))
        · exact .inr (.inr (.inr absorbed))
      · exact .inr (.inl (read.snoc action))
      · have constrained := run_constrained initial.jobs (run_events (before.append whole))
        exact .inr (.inr (.inl (dropped.step constrained step)))
      · exact .inr (.inr (.inr (absorbed.snoc action)))
  rcases kept with ⟨job, member, _, sameKey, state⟩ | ⟨execution, data, happened, same⟩ | dropped | absorbed
  · exact absurd state (not_or.mpr (idle job member sameKey))
  · exact .inl ⟨execution, data, by simpa using happened, same⟩
  · exact .inr (.inl dropped)
  · obtain ⟨job, member, same, running, execution, data, workerId, result, happened, token, ended⟩ :=
      absorbed
    exact .inr (.inr ⟨job, member, same, running, execution, data, workerId, result, happened, token,
      by simpa [Action.event] using ended⟩)

end Runs

/-! ### A request that arrives after the read -/

def raceContext : PullRequestContext := ⟨1, 7, "head", "feature"⟩

/-- The pull request has no check records. -/
def raceStart : WorkerSystem where
  db := .empty 0
  pullRequests := [⟨raceContext, 0⟩]
  github _ := ⟨⟨some "owner/name", "head", some "feature"⟩, []⟩
  executions := []

def raceSpec : JobSpec := ⟨1, 7, .reconcile, .object [("source", .string "webhook")]⟩

def raceExecution : Execution :=
  ⟨"worker", ⟨5, 1, 7, .reconcile, raceSpec.plan, leaseInterval, 10, 1, 5⟩, .leased⟩

def raceData : ReadSet := ⟨"head", some "feature", []⟩

/-- The worker leases the job and reads GitHub. -/
def racePast : List Action :=
  [.call (.upsertRepository 1 1, .done), .call (.enqueue raceSpec 5, .job 5),
    .call (.leaseNext "worker" 10, .leased (some raceExecution.lease)),
    .load raceExecution raceContext, .read (raceExecution.at (.loaded raceContext)) raceData]

/-- The worker saves what it read and succeeds. -/
def raceFuture : List Action :=
  [.save (raceExecution.at (.read raceContext raceData)),
    .noFollowUp (raceExecution.at (.saved raceContext raceData)),
    .complete (raceExecution.at .reconciled) (.markSucceeded 5 "worker" 10 .null, .changed true)]

def raceSystem : WorkerSystem where
  db := (replay [.upsertRepository 1 1, .enqueue raceSpec 5, .leaseNext "worker" 10] (.empty 0)).2
  pullRequests := [⟨raceContext, 0⟩]
  github := raceStart.github
  executions := [raceExecution.at (.read raceContext raceData)]

def raceFinish : WorkerSystem where
  db := (perform (.markSucceeded 5 "worker" 10 .null) raceSystem.db).1
  pullRequests := [⟨raceContext, 0⟩]
  github := raceStart.github
  executions := []

theorem race_before (sha256Hex : List Char → String) (fromValue : Json → Option PiJobResult) :
    Run (WorkerSystem.Step sha256Hex fromValue) raceStart racePast raceSystem := by
  refine Run.cons (.call _ rfl rfl) ?_
  refine Run.cons (.call _ rfl rfl) ?_
  refine Run.cons (.call _ rfl rfl) ?_
  refine Run.cons (.load _ _ rfl rfl ⟨[], [], rfl, rfl⟩) ?_
  refine Run.cons (.read _ _ rfl rfl ⟨[], [], rfl, rfl⟩) ?_
  exact .refl

theorem race_request (sha256Hex : List Char → String) (fromValue : Json → Option PiJobResult) :
    raceSystem.Step sha256Hex fromValue (.call (.enqueue raceSpec 6, .job 5)) raceSystem :=
  .call _ rfl rfl

theorem race_later (sha256Hex : List Char → String) (fromValue : Json → Option PiJobResult) :
    Run (WorkerSystem.Step sha256Hex fromValue) raceSystem raceFuture raceFinish := by
  refine Run.cons (.save _ _ _ rfl ⟨[], [], rfl, rfl⟩) ?_
  refine Run.cons (.noFollowUp _ _ _ rfl rfl ⟨[], [], rfl, rfl⟩) ?_
  refine Run.cons (.complete _ _ (.succeeded _ fun _ => rfl) rfl ⟨[], [], rfl, rfl⟩) ?_
  exact .refl

/-- The requested read never starts, because the running job had read before. -/
theorem reconcile_requests_kept_race :
    ReadAfter raceFuture (1, 7) ∨ Dropped raceFinish 5 ∨ Absorbed racePast raceSystem raceFuture 5 :=
  reconcile_requests_kept ⟨rfl, rfl⟩ rfl (race_before (fun _ => "") fun _ => none)
    (race_request _ _) (race_later _ _) (by decide) (by decide)

/-- A request that a running job absorbs after its read is followed by no read. -/
theorem request_after_read_lost :
    ¬ ∀ (sha256Hex : List Char → String) (fromValue : Json → Option PiJobResult)
      (start system after finish : WorkerSystem) (past future : List Action) (spec : JobSpec)
      (proposedId jobId : Uuid), start.Initial → spec.kind = .reconcile →
      Run (WorkerSystem.Step sha256Hex fromValue) start past system →
      system.Step sha256Hex fromValue (.call (.enqueue spec proposedId, .job jobId)) after →
      Run (WorkerSystem.Step sha256Hex fromValue) after future finish →
      ((past ++ .call (.enqueue spec proposedId, .job jobId) :: future).filterMap
        Action.event |>.filterMap Event.grantedToken).Nodup →
      (∀ job ∈ finish.db.jobs, job.deduplicationKey = spec.deduplicationKey →
        job.state ≠ .queued ∧ job.state ≠ .running) →
      ReadAfter future (spec.repositoryId, spec.pullRequestNumber) ∨
        ∃ job ∈ finish.db.jobs, job.deduplicationKey = spec.deduplicationKey ∧
          (job.state = .cancelled ∨ job.state = .failed) := by
  intro claim
  have outcome := claim (fun _ => "") (fun _ => none) raceStart raceSystem raceSystem raceFinish
    racePast raceFuture raceSpec 6 5 ⟨rfl, rfl⟩ rfl (race_before _ _) (race_request _ _)
    (race_later _ _) (by decide) (by decide)
  rcases outcome with ⟨execution, data, happened, _⟩ | dropped
  · simp [raceFuture] at happened
  · revert dropped
    decide

end PiTools
