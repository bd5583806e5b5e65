import PiTools.Queue.Deduplication
import PiTools.Worker.HeadPinning

/-
This file closes the loop between a repair and its own Check Run: the Check Run
causes a webhook, the webhook a reconciliation and the reconciliation a repair.
-/

namespace PiTools

open Library

/-! ### Repairs of one head -/

/-- The job repairs the given head of the pull request. -/
def repairsHead (key : PullRequestKey) (headSha : String) (job : Job) : Bool :=
  job.kind = .ciRepair && (job.repositoryId, job.pullRequestNumber) = key &&
    job.plan.get "head_sha" = some (.string headSha)

theorem repairsHead_iff {key : PullRequestKey} {headSha : String} {job : Job} :
    repairsHead key headSha job = true ↔ job.kind = .ciRepair ∧
      (job.repositoryId, job.pullRequestNumber) = key ∧
        job.plan.get "head_sha" = some (.string headSha) := by
  simp [repairsHead, and_assoc]

section Repairs

variable {sha256Hex : List Char → String} {fromValue : Json → Option PiJobResult}
  {start system next : WorkerSystem} {past : List Action} {key : PullRequestKey} {headSha : String}

/-- Every CI repair names a head. -/
theorem run_repairs_named (initial : start.Initial)
    (run : Run (WorkerSystem.Step sha256Hex fromValue) start past system) :
    ∀ job ∈ system.db.jobs, job.kind = .ciRepair →
      ∃ head, job.plan.get "head_sha" = some (.string head) := by
  refine run.history (fun _ system => ∀ job ∈ system.db.jobs, job.kind = .ciRepair →
    ∃ head, job.plan.get "head_sha" = some (.string head)) (by simp [initial.jobs]) ?_
  intro past system action next earlier held step job' member kind
  have constrained := run_constrained initial.jobs (run_events earlier)
  rcases step.event with ⟨_, same⟩ | ⟨event, called, dbStep⟩
  · exact held job' (same ▸ member) kind
  obtain ⟨effect, kept⟩ := step_effect constrained dbStep
  rcases effect.row kept member with ⟨spec, proposedId, rfl, rfl, _⟩ | ⟨job, inside, moved⟩
  · obtain ⟨_, _, context, data, policyRevision, _, _, rfl⟩ := step.planned called kind
    exact ⟨_, ciRepairPlan_head context policyRevision data⟩
  · have keys := moved.choose_spec.1.identity.2.1
    simp only [Job.deduplicationKey, JobDeduplicationKey.mk.injEq] at keys
    have ciRepair := keys.2.2.symm.trans kind
    obtain ⟨head, named⟩ := held job inside ciRepair
    exact ⟨head, (moved_evidence initial earlier step called inside ciRepair
      (Json.isObject_of_get named) moved (by simp)).trans named⟩

/-- A call that inserts no row keeps the number of repairs of the head. -/
theorem moved_repairsHead (initial : start.Initial)
    (before : Run (WorkerSystem.Step sha256Hex fromValue) start past system) {action : Action}
    {event : Event} (step : system.Step sha256Hex fromValue action next)
    (called : action.event = some event) {job job' : Job} (inside : job ∈ system.db.jobs)
    (moved : Moved event system.db.now job job') :
    repairsHead key headSha job' = repairsHead key headSha job := by
  have keys := moved.choose_spec.1.identity.2.1
  simp only [Job.deduplicationKey, JobDeduplicationKey.mk.injEq] at keys
  obtain ⟨repositoryId, number, kind⟩ := keys
  rw [repairsHead, repairsHead, repositoryId, number, kind]
  by_cases ciRepair : job.kind = .ciRepair
  · obtain ⟨head, named⟩ := run_repairs_named initial before job inside ciRepair
    rw [moved_evidence initial before step called inside ciRepair (Json.isObject_of_get named)
      moved (by simp)]
  · simp [ciRepair]

/-- A repair of the head is new only when every older one has failed or was cancelled. -/
theorem step_repairs (key : PullRequestKey) (headSha : String) (initial : start.Initial)
    (before : Run (WorkerSystem.Step sha256Hex fromValue) start past system) {action : Action}
    (step : system.Step sha256Hex fromValue action next) :
    next.db.jobs.countP (repairsHead key headSha) =
        system.db.jobs.countP (repairsHead key headSha) ∨
      ∃ spec proposedId reply, action.event = some (.enqueue spec proposedId, reply) ∧
        spec.kind = .ciRepair ∧ (spec.repositoryId, spec.pullRequestNumber) = key ∧
        spec.plan.get "head_sha" = some (.string headSha) ∧
        next.db.jobs.countP (repairsHead key headSha) =
          system.db.jobs.countP (repairsHead key headSha) + 1 ∧
        ∀ job ∈ system.db.jobs, repairsHead key headSha job = true →
          job.state = .failed ∨ job.state = .cancelled := by
  have constrained := run_constrained initial.jobs (run_events before)
  rcases step.event with ⟨_, same⟩ | ⟨event, called, dbStep⟩
  · exact .inl (by rw [same])
  obtain ⟨effect, _⟩ := step_effect constrained dbStep
  cases effect with
  | moved rows _ =>
      refine .inl (forall₂_countP (forall₂_members rows) fun job job' ⟨inside, moved⟩ => ?_)
      exact moved_repairsHead initial before step called inside moved
  | inserted spec proposedId enqueued unhandled vacant stored =>
      subst enqueued
      rw [stored, List.countP_append, List.countP_singleton]
      by_cases repairs : repairsHead key headSha (newJob system.db spec proposedId) = true
      · obtain ⟨kind, sameKey, named⟩ := repairsHead_iff.mp repairs
        have handles : spec.kind.handlesHead = true := JobKind.handlesHead_iff.mpr (.inl kind)
        have head : spec.terminalHeadSha = some headSha := by
          rw [JobSpec.terminalHeadSha, show spec.plan.get "head_sha" = _ from named]
          rfl
        refine .inr ⟨spec, proposedId, _, called, kind, sameKey, named, by simp [repairs], ?_⟩
        intro job member repairs'
        obtain ⟨kind', sameKey', named'⟩ := repairsHead_iff.mp repairs'
        have identity : job.deduplicationKey = spec.deduplicationKey := by
          have both := sameKey'.trans sameKey.symm
          simp only [Prod.mk.injEq] at both
          have sameKind : spec.kind = .ciRepair := kind
          simp only [Job.deduplicationKey, JobSpec.deduplicationKey, JobDeduplicationKey.mk.injEq]
          exact ⟨both.1, both.2, kind'.trans sameKind.symm⟩
        have unsucceeded : job.state ≠ .succeeded := fun succeeded =>
          (terminalJob_eq_none handles head).mp unhandled
            ⟨job, member, identity, succeeded, Json.getText_of_string named'⟩
        have inactive : job.state.active ≠ true := fun active => vacant job member active identity
        cases state : job.state with
        | failed => exact .inl rfl
        | cancelled => exact .inr rfl
        | succeeded => exact absurd state unsucceeded
        | queued | running | waitingApproval => simp [state, JobState.active] at inactive
      · exact .inl (by simp [repairs])

end Repairs

/-! ### The loop -/

/-- Everything that stays fixed around the loop. -/
structure Surroundings where
  key : PullRequestKey
  head : GitHubHead
  /-- The read set without the check runs of the app itself. -/
  readSet : Reconcile.PullRequestReadSet
  app : Option Reconcile.CheckApp

/-- GitHub shows the own check runs beside the others. -/
def Surroundings.pullRequest (around : Surroundings) (ownRuns : List Reconcile.GitHubCheckRun) :
    GitHubPullRequest where
  head := around.head
  checks := Reconcile.checkRecords
    { around.readSet with checkRuns := around.readSet.checkRuns ++ ownRuns }

/-- The Check Run that the start of a job creates. -/
def Surroundings.createdRun (around : Surroundings) (id : Int) (detailsUrl : Option String) :
    Reconcile.GitHubCheckRun :=
  ⟨id, "PiTools work plan", "in_progress", none, detailsUrl, around.app⟩

/-- The end of a job completes its Check Run. -/
def finishedRun (run : Reconcile.GitHubCheckRun) (detailsUrl : String) (succeeded : Bool) :
    Reconcile.GitHubCheckRun :=
  { run with
    status := "completed"
    conclusion := some (if succeeded then "success" else "failure")
    detailsUrl := some detailsUrl }

/-- The reconciliation that a webhook about a Check Run requests. -/
def checkRunSpec (key : PullRequestKey) (delivered : String) : JobSpec :=
  ⟨key.1, key.2, .reconcile, sortedObject [("source", .string "webhook"),
    ("event", .string "check_run"), ("action", .string delivered)]⟩

structure RepairLoop where
  system : WorkerSystem
  ownRuns : List Reconcile.GitHubCheckRun

inductive LoopAction
  | work (action : Action)
  | deliver (event : Event)
  | create (execution : Execution) (ownRuns : List Reconcile.GitHubCheckRun)
  | finish (execution : Execution) (ownRuns : List Reconcile.GitHubCheckRun)

/-- The steps of the workers and of the queue. The row and the head on GitHub stay fixed. -/
def Action.inLoop : Action → Bool
  | .call (.enqueue .., _) | .observe _ | .push .. => false
  | _ => true

/-- GitHub changes only the own check runs. -/
def RepairLoop.publish (around : Surroundings) (loop : RepairLoop)
    (ownRuns : List Reconcile.GitHubCheckRun) : RepairLoop where
  system :=
    { loop.system with
      github := Function.update loop.system.github around.key (around.pullRequest ownRuns) }
  ownRuns := ownRuns

section Loop

variable (sha256Hex : List Char → String) (fromValue : Json → Option PiJobResult)
  (around : Surroundings)

inductive RepairLoop.Step (loop : RepairLoop) : LoopAction → RepairLoop → Prop
  | work {next : WorkerSystem} (action : Action) (inLoop : action.inLoop = true)
      (step : loop.system.Step sha256Hex fromValue action next) :
      loop.Step (.work action) { loop with system := next }
  -- A delivery may be repeated at any time after its Check Run was created or completed.
  | deliver {next : WorkerSystem} {reply : Reply} (run : Reconcile.GitHubCheckRun)
      (delivered : String) (proposedId : Uuid) (own : run ∈ loop.ownRuns)
      (known : delivered = "created" ∨ delivered = "completed" ∧ run.status = "completed")
      (step : loop.system.Step sha256Hex fromValue
        (.call (.enqueue (checkRunSpec around.key delivered) proposedId, reply)) next) :
      loop.Step (.deliver (.enqueue (checkRunSpec around.key delivered) proposedId, reply))
        { loop with system := next }
  | create (execution : Execution) (context : PullRequestContext) (id : Int)
      (detailsUrl : Option String) (inside : execution ∈ loop.system.executions)
      (kind : execution.lease.kind = .ciRepair) (same : execution.lease.key = around.key)
      (stage : execution.stage = .loaded context)
      (fresh : ∀ run ∈ around.readSet.checkRuns ++ loop.ownRuns, run.id ≠ id) :
      loop.Step (.create execution (loop.ownRuns ++ [around.createdRun id detailsUrl]))
        (loop.publish around (loop.ownRuns ++ [around.createdRun id detailsUrl]))
  | finish {ownRuns : List Reconcile.GitHubCheckRun} (execution : Execution)
      (run : Reconcile.GitHubCheckRun) (detailsUrl : String) (succeeded : Bool)
      (inside : execution ∈ loop.system.executions) (kind : execution.lease.kind = .ciRepair)
      (same : execution.lease.key = around.key) (stage : execution.stage = .repaired)
      (replaced : Replaces loop.ownRuns run [finishedRun run detailsUrl succeeded] ownRuns) :
      loop.Step (.finish execution ownRuns) (loop.publish around ownRuns)

/-- The action of the workers' system behind an action of the loop. -/
def LoopAction.worker : LoopAction → Action
  | .work action => action
  | .deliver event => .call event
  | .create _ ownRuns | .finish _ ownRuns => .push around.key (around.pullRequest ownRuns)

/-- The loop starts in a reachable state in which nobody has repaired the head. -/
structure RepairLoop.Start (loop : RepairLoop) : Prop where
  reached : ∃ origin past, origin.Initial ∧
    Run (WorkerSystem.Step sha256Hex fromValue) origin past loop.system
  published : loop.system.github around.key = around.pullRequest loop.ownRuns
  stored : ∀ context, pullRequestContext loop.system.pullRequests around.key = some context →
    context.headSha = around.head.sha
  unrepaired : loop.system.db.jobs.countP (repairsHead around.key around.head.sha) = 0

/-- A repair is enqueued only while no repair of the head has failed or was cancelled. -/
def CalmStep (loop : RepairLoop) (action : LoopAction) (next : RepairLoop) : Prop :=
  loop.Step sha256Hex fromValue around action next ∧
    ∀ spec proposedId reply, (action.worker around).event = some (.enqueue spec proposedId, reply) →
      spec.kind = .ciRepair → (spec.repositoryId, spec.pullRequestNumber) = around.key →
        ∀ job ∈ loop.system.db.jobs, repairsHead around.key around.head.sha job = true →
          job.state ≠ .failed ∧ job.state ≠ .cancelled

variable {sha256Hex fromValue around} {start loop next finish : RepairLoop}
  {actions : List LoopAction}

/-- A step of the loop is a step of the workers' system. -/
theorem RepairLoop.Step.worker {action : LoopAction}
    (step : loop.Step sha256Hex fromValue around action next) :
    loop.system.Step sha256Hex fromValue (action.worker around) next.system := by
  cases step with
  | work action inLoop step => exact step
  | deliver run delivered proposedId own known step => exact step
  | create | finish => exact .push around.key (around.pullRequest _)

theorem run_worker (run : Run (RepairLoop.Step sha256Hex fromValue around) start actions finish) :
    Run (WorkerSystem.Step sha256Hex fromValue) start.system
      (actions.map (LoopAction.worker around)) finish.system :=
  run.map RepairLoop.system (LoopAction.worker around) fun _ _ _ _ _ step => step.worker

/-- In a calm run the loop creates at most one repair of the head. -/
theorem ci_repair_once (initial : start.Start sha256Hex fromValue around)
    (run : Run (CalmStep sha256Hex fromValue around) start actions finish) :
    finish.system.db.jobs.countP (repairsHead around.key around.head.sha) ≤ 1 := by
  obtain ⟨origin, past, origin_, reached⟩ := initial.reached
  refine run.history (fun _ loop =>
    loop.system.db.jobs.countP (repairsHead around.key around.head.sha) ≤ 1)
    (by rw [initial.unrepaired]; exact Nat.zero_le 1) ?_
  intro done loop action next earlier held ⟨step, calm⟩
  have before := reached.append (run_worker (earlier.mono fun _ _ _ calm => calm.1))
  rcases step_repairs around.key around.head.sha origin_ before step.worker with
    same | ⟨spec, proposedId, reply, called, kind, sameKey, _, counted, ended⟩
  · rw [same]
    exact held
  · -- An older repair of the head would have ended, and the condition excludes that.
    have none : loop.system.db.jobs.countP (repairsHead around.key around.head.sha) = 0 := by
      refine List.countP_eq_zero.mpr fun job member repairs => ?_
      obtain ⟨unfailed, uncancelled⟩ :=
        calm spec proposedId reply called kind sameKey job member repairs
      rcases ended job member repairs with failed | cancelled
      · exact unfailed failed
      · exact uncancelled cancelled
    rw [counted, none]

end Loop

/-! ### A repair that fails -/

def failedRun : Reconcile.GitHubCheckRun :=
  ⟨1, "test", "completed", some "failure", none, some ⟨7⟩⟩

/-- One check of the head fails for good. -/
def loopAround : Surroundings where
  key := (1, 7)
  head := ⟨some "owner/name", "head", some "feature"⟩
  readSet :=
    { pullRequest := ⟨false, none, none, "head", "base"⟩
      baseBranchSha := "base"
      branchProtection := ⟨none, none⟩
      reviews := []
      issueComments := []
      reviewComments := []
      checkRuns := [failedRun]
      statuses := [] }
  app := some ⟨9⟩

def loopOrigin : WorkerSystem where
  db := .empty 0
  pullRequests := [⟨lineContext.pullRequest, 0⟩]
  github _ := loopAround.pullRequest []
  executions := []

/-- The head waits for its first reconciliation. -/
def loopStart : RepairLoop where
  system :=
    { loopOrigin with db := (replay [.upsertRepository 1 1, .enqueue pinnedRequest 4] (.empty 0)).2 }
  ownRuns := []

theorem loopStart_start (sha256Hex : List Char → String) (fromValue : Json → Option PiJobResult) :
    loopStart.Start sha256Hex fromValue loopAround where
  reached := by
    refine ⟨loopOrigin, [.call (.upsertRepository 1 1, .done), .call (.enqueue pinnedRequest 4, .job 4)],
      ⟨rfl, rfl⟩, ?_⟩
    refine Run.cons (.call _ rfl rfl) ?_
    refine Run.cons (.call _ rfl rfl) ?_
    exact .refl
  published := rfl
  stored := by
    intro context found
    cases found
    rfl
  unrepaired := by decide

def loopData (ownRuns : List Reconcile.GitHubCheckRun) : ReadSet :=
  (loopAround.pullRequest ownRuns).readSet

def loopSpec (ownRuns : List Reconcile.GitHubCheckRun) : JobSpec :=
  ciRepairSpec lineContext.pullRequest "sha256:policy" (loopData ownRuns)

/-- A worker leases one job of the loop. -/
def loopLease (jobId token : Uuid) (spec : JobSpec) : Execution :=
  ⟨"worker", ⟨jobId, 1, 7, spec.kind, spec.plan, leaseInterval, token, 1, 5⟩, .leased⟩

/-- One reconciliation from its lease to its end. -/
def reconcileCalls (jobId token repairId : Uuid) (ownRuns : List Reconcile.GitHubCheckRun) :
    List Op :=
  [.leaseNext "worker" token, .enqueue (loopSpec ownRuns) repairId,
    .markSucceeded jobId "worker" token .null]

def loopRepaired : RepairLoop where
  system :=
    { loopStart.system with db := (replay (reconcileCalls 4 10 5 []) loopStart.system.db).2 }
  ownRuns := []

def loopFirst : List LoopAction :=
  let reconcile := loopLease 4 10 pinnedRequest
  [.work (.call (.leaseNext "worker" 10, .leased (some reconcile.lease))),
    .work (.load reconcile lineContext.pullRequest),
    .work (.read (reconcile.at (.loaded lineContext.pullRequest)) (loopData [])),
    .work (.save (reconcile.at (.read lineContext.pullRequest (loopData [])))),
    .work (.followUp (reconcile.at (.saved lineContext.pullRequest (loopData [])))
      (.enqueue (loopSpec []) 5, .job 5)),
    .work (.complete (reconcile.at .reconciled) (.markSucceeded 4 "worker" 10 .null, .changed true))]

theorem loop_first (sha256Hex : List Char → String) (fromValue : Json → Option PiJobResult) :
    Run (CalmStep sha256Hex fromValue loopAround) loopStart loopFirst loopRepaired := by
  refine Run.cons ⟨.work _ rfl (.call _ rfl rfl), by rintro _ _ _ ⟨⟩⟩ ?_
  refine Run.cons ⟨.work _ rfl (.load _ _ rfl rfl ⟨[], [], rfl, rfl⟩), by rintro _ _ _ ⟨⟩⟩ ?_
  refine Run.cons ⟨.work _ rfl (.read _ _ rfl rfl ⟨[], [], rfl, rfl⟩), by rintro _ _ _ ⟨⟩⟩ ?_
  refine Run.cons ⟨.work _ rfl (.save _ _ _ rfl ⟨[], [], rfl, rfl⟩), by rintro _ _ _ ⟨⟩⟩ ?_
  refine Run.cons ⟨.work _ rfl (.followUp _ _ _ "sha256:policy" 5 rfl (by decide +kernel) rfl
    ⟨[], [], rfl, rfl⟩), ?_⟩ ?_
  · intro _ _ _ _ _ _ job member repairs
    exact absurd repairs (List.countP_eq_zero.mp (by decide) job member)
  refine Run.cons ⟨.work _ rfl (.complete _ _ (.succeeded _ fun _ => rfl) rfl ⟨[], [], rfl, rfl⟩),
    by rintro _ _ _ ⟨⟩⟩ ?_
  exact .refl

theorem ci_repair_once_first :
    loopRepaired.system.db.jobs.countP (repairsHead (1, 7) "head") ≤ 1 :=
  ci_repair_once (loopStart_start (fun _ => "") fun _ => none) (loop_first _ _)

/-- The Check Run of the failed repair. -/
def loopRun : Reconcile.GitHubCheckRun := loopAround.createdRun 2 none

def loopFailedRun : Reconcile.GitHubCheckRun := finishedRun loopRun "url" false

def loopEvents : List Op :=
  [.leaseNext "worker" 11, .markFailed 5 "worker" 11 .null,
    .enqueue (checkRunSpec (1, 7) "completed") 6, .leaseNext "worker" 12,
    .enqueue (loopSpec [loopFailedRun]) 7]

def loopRepair : Execution := loopLease 5 11 (loopSpec [])

def loopReconcile : Execution := loopLease 6 12 (checkRunSpec (1, 7) "completed")

def loopFinish : RepairLoop where
  system :=
    { loopRepaired.system with
      db := (replay loopEvents loopRepaired.system.db).2
      github := Function.update (Function.update loopOrigin.github (1, 7)
        (loopAround.pullRequest [loopRun])) (1, 7) (loopAround.pullRequest [loopFailedRun])
      executions := [loopReconcile.at .reconciled] }
  ownRuns := [loopFailedRun]

section Second

variable (sha256Hex : List Char → String) (fromValue : Json → Option PiJobResult)

/-- The repair fails, and the webhook about its Check Run requests a reconciliation. -/
def loopSecond : List LoopAction :=
  let loaded := loopReconcile.at (.loaded lineContext.pullRequest)
  let data := loopData [loopFailedRun]
  [.work (.call (.leaseNext "worker" 11, .leased (some loopRepair.lease))),
    .work (.load loopRepair lineContext.pullRequest),
    .create (loopRepair.at (.loaded lineContext.pullRequest)) [loopRun],
    .work (.repair (loopRepair.at (.loaded lineContext.pullRequest)) lineContext.pullRequest
      (ciRepair sha256Hex fromValue lineContext { lineAnswers with piWorker := false } 5
        (loopSpec []).plan .timedOut)),
    .finish (loopRepair.at .repaired) [loopFailedRun],
    .work (.complete (loopRepair.at .repaired) (.markFailed 5 "worker" 11 .null, .changed true)),
    .deliver (.enqueue (checkRunSpec (1, 7) "completed") 6, .job 6),
    .work (.call (.leaseNext "worker" 12, .leased (some loopReconcile.lease))),
    .work (.load loopReconcile lineContext.pullRequest), .work (.read loaded data),
    .work (.save (loopReconcile.at (.read lineContext.pullRequest data))),
    .work (.followUp (loopReconcile.at (.saved lineContext.pullRequest data))
      (.enqueue (loopSpec [loopFailedRun]) 7, .job 7))]

theorem loop_second : Run (RepairLoop.Step sha256Hex fromValue loopAround) loopRepaired
    (loopSecond sha256Hex fromValue) loopFinish := by
  refine Run.cons (.work _ rfl (.call _ rfl rfl)) ?_
  refine Run.cons (.work _ rfl (.load _ _ rfl rfl ⟨[], [], rfl, rfl⟩)) ?_
  refine Run.cons (.create _ lineContext.pullRequest 2 none (List.mem_singleton.mpr rfl) rfl rfl rfl
    (by decide)) ?_
  refine Run.cons (.work _ rfl (.repair _ lineContext { lineAnswers with piWorker := false } _ rfl
    rfl ?_ ⟨[], [], rfl, rfl⟩)) ?_
  · intro head answered
    cases answered
    rfl
  refine Run.cons (.finish _ loopRun "url" false (List.mem_singleton.mpr rfl) rfl rfl rfl
    ⟨[], [], rfl, rfl⟩) ?_
  refine Run.cons (.work _ rfl (.complete _ _ (.failed _) rfl ⟨[], [], rfl, rfl⟩)) ?_
  refine Run.cons (.deliver loopFailedRun "completed" 6 (List.mem_singleton.mpr rfl)
    (.inr ⟨rfl, rfl⟩) (.call _ rfl rfl)) ?_
  refine Run.cons (.work _ rfl (.call _ rfl rfl)) ?_
  refine Run.cons (.work _ rfl (.load _ _ rfl rfl ⟨[], [], rfl, rfl⟩)) ?_
  refine Run.cons (.work _ rfl (.read _ _ rfl rfl ⟨[], [], rfl, rfl⟩)) ?_
  refine Run.cons (.work _ rfl (.save _ _ _ rfl ⟨[], [], rfl, rfl⟩)) ?_
  refine Run.cons (.work _ rfl (.followUp _ _ _ "sha256:policy" 7 rfl (by decide +kernel) rfl
    ⟨[], [], rfl, rfl⟩)) ?_
  exact .refl

end Second

/-- The failed repair and its own Check Run lead to a second repair of the same head. -/
theorem failed_repair_repeated :
    ¬ ∀ (sha256Hex : List Char → String) (fromValue : Json → Option PiJobResult)
      (around : Surroundings) (start finish : RepairLoop) (actions : List LoopAction),
      start.Start sha256Hex fromValue around →
      Run (RepairLoop.Step sha256Hex fromValue around) start actions finish →
        finish.system.db.jobs.countP (repairsHead around.key around.head.sha) ≤ 1 := by
  intro claimed
  have first := (loop_first (fun _ => "") fun _ => none).mono fun _ _ _ calm => calm.1
  have once := claimed _ _ loopAround _ _ _ (loopStart_start (fun _ => "") fun _ => none)
    (first.append (loop_second _ _))
  exact absurd once (by decide)

end PiTools
