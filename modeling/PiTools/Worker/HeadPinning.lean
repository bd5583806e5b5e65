import PiTools.Worker.Executions
import PiTools.Worker.WaitingApproval

/-
This file follows the head of a pull request from the read that makes a repair
plan to the repair that applies it.
-/

namespace PiTools

open Library

/-- One read of the pull request gave the head and the failed checks of the plan. -/
def FromRead (actions : List Action) (key : PullRequestKey) (plan : Json) : Prop :=
  ∃ reader data, .read reader data ∈ actions ∧ reader.lease.key = key ∧
    plan.get "head_sha" = some (.string data.headSha) ∧
    plan.get "checks" = some (checksValue data.failedChecks)

theorem FromRead.snoc {actions : List Action} {key : PullRequestKey} {plan : Json}
    (source : FromRead actions key plan) (action : Action) :
    FromRead (actions ++ [action]) key plan := by
  obtain ⟨reader, data, happened, evidence⟩ := source
  exact ⟨reader, data, List.mem_append_left _ happened, evidence⟩

/-- The plan keeps its source as long as its head and its checks stay. -/
theorem FromRead.congr {actions : List Action} {key : PullRequestKey} {plan plan' : Json}
    (source : FromRead actions key plan)
    (kept : ∀ field ∈ ["head_sha", "checks"], plan'.get field = plan.get field) :
    FromRead actions key plan' := by
  obtain ⟨reader, data, happened, same, head, checks⟩ := source
  refine ⟨reader, data, happened, same, ?_, ?_⟩
  · rw [kept "head_sha" (by simp)]
    exact head
  · rw [kept "checks" (by simp)]
    exact checks

theorem ciRepairPlan_head (context : PullRequestContext) (policyRevision : String)
    (data : ReadSet) :
    (ciRepairPlan context policyRevision data).get "head_sha" = some (.string context.headSha) := by
  unfold ciRepairPlan
  rw [get_sortedObject]
  rfl

theorem ciRepairPlan_checks (context : PullRequestContext) (policyRevision : String)
    (data : ReadSet) :
    (ciRepairPlan context policyRevision data).get "checks" =
      some (checksValue data.failedChecks) := by
  unfold ciRepairPlan
  rw [get_sortedObject]
  rfl

/-- The details that the worker shows for a repair leave the head and the checks alone. -/
theorem waitingDetails_keepsEvidence (sha256Hex : List Char → String) (plan : Json)
    (result : PiJobResult) : KeepsEvidence (waitingDetails sha256Hex plan (ciWaitingResult result)) := by
  have raw : rawDetails (ciWaitingResult result) = .object [("pi_result", result.toValue)] := by
    unfold rawDetails ciWaitingResult
    rw [get_sortedObject]
    simp [PiJobResult.summaryFields, getField]
  unfold waitingDetails
  rw [raw]
  exact ⟨rfl, rfl, rfl⟩

/-- A move changes only the control fields of a plan and the details that a wait brings. -/
theorem Move.plan_get {now : Timestamp} {rowEvent : RowEvent} {job job' : Job} {key : String}
    (move : Move now job rowEvent job') (other : key ∉ controlFields)
    (object : ∃ fields, job.plan = .object fields)
    (waits : ∀ workerId leaseToken details, rowEvent = .waiting workerId leaseToken details →
      details.isObject = true ∧ details.get key = none) :
    job'.plan.get key = job.plan.get key := by
  simp only [controlFields, List.mem_cons, List.not_mem_nil, or_false, not_or] at other
  cases move with
  | untouched | cancelled | exhausted | leased | renewed | succeeded | failed | linked => rfl
  | skipped plan started uncancelled item set =>
      show plan.get key = job.plan.get key
      rw [Json.get_setKey key set, if_neg]
      intro same
      simp [← same] at other
  | waiting workerId leaseToken details held =>
      obtain ⟨isObject, absent⟩ := waits workerId leaseToken details rfl
      obtain ⟨fields, same⟩ := object
      show (job.plan.concat details).get key = job.plan.get key
      rw [same]
      exact Json.get_concat_of_none isObject absent
  | approved plan parked uncancelled shown set =>
      show plan.get key = job.plan.get key
      unfold approvedPlan at set
      split at set
      · cases set
      · rename_i approved first
        rw [Json.get_setKey key set, Json.get_setKey key first, if_neg, if_neg]
        · intro same
          simp [← same] at other
        · intro same
          simp [← same] at other

/-! ### The condition on steps -/

section Pinned

variable (sha256Hex : List Char → String) (fromValue : Json → Option PiJobResult)

/-- The heads agree where a repair is planned and where an approved plan loads its pull request. -/
def HeadsAgree (system : WorkerSystem) : Action → Prop
  | .followUp execution _ => ∀ context data, execution.stage = .saved context data →
      data.headSha = context.headSha
  | .load execution _ => execution.lease.kind = .ciRepair →
      planIsApproved sha256Hex execution.lease.plan = true → ∀ context,
        pullRequestContext system.pullRequests execution.lease.key = some context →
          execution.lease.plan.get "head_sha" = some (.string context.headSha)
  | _ => True

/-- A step of the system that starts where the heads agree. -/
def PinnedStep (system : WorkerSystem) (action : Action) (next : WorkerSystem) : Prop :=
  system.Step sha256Hex fromValue action next ∧ HeadsAgree sha256Hex system action

/-- The plan of the repair, the loaded row, GitHub and the read of the checks name one head. -/
structure HeadPinned (past : List Action) (system : WorkerSystem) (execution : Execution)
    (context : PullRequestContext) : Prop where
  planned : execution.lease.plan.get "head_sha" = some (.string context.headSha)
  current : (system.github execution.lease.key).head.sha = context.headSha
  read : ∃ reader data, .read reader data ∈ past ∧ reader.lease.key = execution.lease.key ∧
    data.headSha = context.headSha ∧
      execution.lease.plan.get "checks" = some (checksValue data.failedChecks)

/-- What the stage of an execution says about its pull request. -/
def Execution.Informed (past : List Action) (execution : Execution) : Prop :=
  match execution.stage with
  | .loaded context => context.key = execution.lease.key
  | .read context data | .saved context data => context.key = execution.lease.key ∧
      ∃ reader, .read reader data ∈ past ∧ reader.lease.key = execution.lease.key
  | .leased | .reconciled | .repaired => True

/-- What a CI repair knows about the head of its plan. -/
structure Execution.Planned (past : List Action) (execution : Execution) : Prop where
  source : execution.lease.kind = .ciRepair →
    FromRead past execution.lease.key execution.lease.plan
  loaded : execution.lease.kind = .ciRepair →
    planIsApproved sha256Hex execution.lease.plan = true → ∀ context,
      execution.stage = .loaded context →
        execution.lease.plan.get "head_sha" = some (.string context.headSha)

end Pinned

variable {sha256Hex : List Char → String} {fromValue : Json → Option PiJobResult}
  {start system next : WorkerSystem} {past : List Action}

theorem pullRequestContext_key {rows : List PullRequestRow} {key : PullRequestKey}
    {context : PullRequestContext} (found : pullRequestContext rows key = some context) :
    context.key = key := by
  unfold pullRequestContext at found
  obtain ⟨row, first, rfl⟩ := Option.map_eq_some_iff.mp found
  simpa using List.find?_some first

theorem Execution.Informed.snoc {execution : Execution} (informed : execution.Informed past)
    (action : Action) : execution.Informed (past ++ [action]) := by
  unfold Execution.Informed at informed ⊢
  split
  · rename_i context stage
    simpa [stage] using informed
  · rename_i context data stage
    simp only [stage] at informed
    obtain ⟨same, reader, happened, key⟩ := informed
    exact ⟨same, reader, List.mem_append_left _ happened, key⟩
  · rename_i context data stage
    simp only [stage] at informed
    obtain ⟨same, reader, happened, key⟩ := informed
    exact ⟨same, reader, List.mem_append_left _ happened, key⟩
  · trivial
  · trivial
  · trivial

/-- Every execution of a reachable state is informed. -/
theorem run_informed (initial : start.Initial)
    (run : Run (WorkerSystem.Step sha256Hex fromValue) start past system) :
    ∀ execution ∈ system.executions, execution.Informed past := by
  refine run.history (fun past system => ∀ execution ∈ system.executions, execution.Informed past)
    (by simp [initial.executions]) ?_
  intro past system action next _ held step execution member
  rcases step.execution member with stays | ⟨fresh, _⟩ | ⟨old, inside, advance⟩
  · exact (held execution stays).snoc action
  · unfold Execution.Informed
    rw [fresh]
    trivial
  · have informed := (held old inside).snoc action
    cases advance with
    | load context stage found => exact pullRequestContext_key found
    | read context kind stage =>
        unfold Execution.Informed at informed
        rw [stage] at informed
        exact ⟨informed, old, List.mem_append_right _ (List.mem_singleton.mpr rfl), rfl⟩
    | save context data stage =>
        unfold Execution.Informed at informed
        rw [stage] at informed
        exact informed
    | reconciled | repaired => trivial

/-- A CI repair is enqueued only by the reconciliation that planned it. -/
theorem WorkerSystem.Step.planned {action : Action} {spec : JobSpec} {proposedId : Uuid}
    {reply : Reply} (step : system.Step sha256Hex fromValue action next)
    (called : action.event = some (.enqueue spec proposedId, reply)) (kind : spec.kind = .ciRepair) :
    ∃ execution ∈ system.executions, ∃ context data policyRevision,
      action = .followUp execution (.enqueue spec proposedId, reply) ∧
        execution.stage = .saved context data ∧ spec = ciRepairSpec context policyRevision data := by
  cases step with
  | call event free _ =>
      cases called
      simp [Op.independent, kind] at free
  | followUp execution context data policyRevision proposedId stage failed _ next =>
      cases called
      exact ⟨execution, next.old, context, data, policyRevision, rfl, stage, rfl⟩
  | complete execution event may _ next =>
      cases called
      cases may
  | _ => cases called

theorem FromRead.object {key : PullRequestKey} {plan : Json} (source : FromRead past key plan) :
    ∃ fields, plan = .object fields := by
  obtain ⟨_, _, _, _, head, _⟩ := source
  exact Json.isObject_of_get head

/-- A run whose steps all meet the condition is a run of the system. -/
theorem run_unpinned (run : Run (PinnedStep sha256Hex fromValue) start past system) :
    Run (WorkerSystem.Step sha256Hex fromValue) start past system :=
  run.mono fun _ _ _ pinned => pinned.1

/-- A call leaves the head and the checks in the plan of a CI repair alone. -/
theorem moved_evidence (initial : start.Initial)
    (before : Run (WorkerSystem.Step sha256Hex fromValue) start past system) {action : Action}
    {event : Event} (step : system.Step sha256Hex fromValue action next)
    (called : action.event = some event) {job job' : Job} (inside : job ∈ system.db.jobs)
    (kind : job.kind = .ciRepair) (object : ∃ fields, job.plan = .object fields)
    (moved : Moved event system.db.now job job') {field : String}
    (evidence : field ∈ ["head_sha", "checks"]) : job'.plan.get field = job.plan.get field := by
  obtain ⟨rowEvent, move, explained⟩ := moved
  apply move.plan_get
  · simp only [List.mem_cons, List.not_mem_nil, or_false] at evidence
    rcases evidence with rfl | rfl <;> decide
  · exact object
  · intro workerId leaseToken details waits
    subst waits
    rw [RowEvent.Explains] at explained
    subst explained
    obtain ⟨execution, _, may, _, leaseKind, _⟩ := completion_execution initial before step
      called rfl (by simp) inside fun _ may => may.of_markWaitingApproval.1
    have keeps := may.of_markWaitingApproval.2.2 (leaseKind.trans kind)
    refine ⟨keeps.isObject, ?_⟩
    simp only [List.mem_cons, List.not_mem_nil, or_false] at evidence
    rcases evidence with rfl | rfl
    · exact keeps.headSha
    · exact keeps.checks

/-- The plan of every CI repair comes from one read of its pull request. -/
theorem run_jobs_fromRead (initial : start.Initial)
    (run : Run (PinnedStep sha256Hex fromValue) start past system) :
    ∀ job ∈ system.db.jobs, job.kind = .ciRepair →
      FromRead past (job.repositoryId, job.pullRequestNumber) job.plan := by
  refine run.history (fun past system => ∀ job ∈ system.db.jobs, job.kind = .ciRepair →
    FromRead past (job.repositoryId, job.pullRequestNumber) job.plan) (by simp [initial.jobs]) ?_
  intro past system action next earlier held pinned job' member kind
  obtain ⟨step, agree⟩ := pinned
  have before := run_unpinned earlier
  have constrained := run_constrained initial.jobs (run_events before)
  rcases step.event with ⟨_, same⟩ | ⟨event, called, dbStep⟩
  · exact (held job' (same ▸ member) kind).snoc action
  obtain ⟨effect, kept⟩ := step_effect constrained dbStep
  rcases effect.row kept member with
    ⟨spec, proposedId, rfl, rfl, _⟩ | ⟨job, inside, rowEvent, move, explained⟩
  · -- A new repair takes its head from the loaded row, where the condition applies.
    obtain ⟨execution, present, context, data, policyRevision, rfl, stage, rfl⟩ :=
      step.planned called kind
    have informed := run_informed initial before execution present
    unfold Execution.Informed at informed
    rw [stage] at informed
    obtain ⟨sameKey, reader, happened, readKey⟩ := informed
    refine ⟨reader, data, List.mem_append_left _ happened, readKey.trans sameKey.symm, ?_,
      ciRepairPlan_checks context policyRevision data⟩
    rw [agree context data stage]
    exact ciRepairPlan_head context policyRevision data
  · have keys := move.identity.2.1
    simp only [Job.deduplicationKey, JobDeduplicationKey.mk.injEq] at keys
    obtain ⟨repositoryId, number, sameKind⟩ := keys
    have ciRepair := sameKind.symm.trans kind
    have source := held job inside ciRepair
    rw [repositoryId, number]
    exact (source.snoc action).congr fun field evidence =>
      moved_evidence initial before step called inside ciRepair source.object
        ⟨rowEvent, move, explained⟩ evidence

/-- Every lease of a CI repair carries a planned head, and the loaded row agrees with it. -/
theorem run_planned (initial : start.Initial)
    (run : Run (PinnedStep sha256Hex fromValue) start past system) :
    ∀ execution ∈ system.executions, execution.Planned sha256Hex past := by
  refine run.history (fun past system => ∀ execution ∈ system.executions,
    execution.Planned sha256Hex past) (by simp [initial.executions]) ?_
  intro past system action next earlier held pinned execution member
  obtain ⟨step, agree⟩ := pinned
  have before := run_unpinned earlier
  have constrained := run_constrained initial.jobs (run_events before)
  rcases step.execution member with stays | ⟨fresh, op, rfl⟩ | ⟨old, inside, advance⟩
  · obtain ⟨source, loaded⟩ := held execution stays
    exact ⟨fun kind => (source kind).snoc action, loaded⟩
  · rcases step.event with ⟨silent, _⟩ | ⟨event, called, dbStep⟩
    · cases silent
    cases called
    obtain ⟨job, present, workerId, leaseToken, _, taken, _, _⟩ := leased_moves constrained dbStep
    refine ⟨fun kind => ?_, fun _ _ context loaded => ?_⟩
    · rw [taken] at kind ⊢
      exact (run_jobs_fromRead initial earlier job present kind).snoc _
    · rw [fresh] at loaded
      cases loaded
  · obtain ⟨source, loaded⟩ := held old inside
    have kept : ∀ stage, (∀ context, stage ≠ .loaded context) →
        (old.at stage).Planned sha256Hex (past ++ [action]) := by
      intro stage other
      exact ⟨fun kind => (source kind).snoc action,
        fun _ _ context same => absurd same (other context)⟩
    cases advance with
    | load context stage found =>
        refine ⟨fun kind => (source kind).snoc _, fun kind approved other same => ?_⟩
        cases same
        exact agree kind approved context found
    | read | save | reconciled | repaired => exact kept _ (by simp)

/-- Where the heads agree at every step, a repair applies its plan only at the planned head. -/
theorem ci_repair_head_pinned (initial : start.Initial)
    (run : Run (PinnedStep sha256Hex fromValue) start past system) {execution : Execution} {context : PullRequestContext}
    {patches : List CiPatch}
    (step : PinnedStep sha256Hex fromValue system
      (.repair execution context (.ok (.applyCiRepair patches))) next) :
    HeadPinned past system execution context := by
  obtain ⟨step, _⟩ := step
  generalize same : Action.repair execution context (.ok (.applyCiRepair patches)) = action at step
  cases step with
  | repair execution loaded answers reply kind stage current replaced =>
      simp only [Action.repair.injEq] at same
      obtain ⟨rfl, rfl, applied⟩ := same
      obtain ⟨approved, passed⟩ := ciRepair_apply applied.symm
      obtain ⟨source, loadedHead⟩ := run_planned initial run execution replaced.old
      have planned := loadedHead kind approved loaded.pullRequest stage
      obtain ⟨head, answered, sameHead⟩ := applicationGuard_head passed
      obtain ⟨reader, data, happened, key, readHead, checks⟩ := source kind
      refine ⟨planned, ?_, reader, data, happened, key, ?_, checks⟩
      · rw [← current head answered]
        exact sameHead
      · rw [planned] at readHead
        simpa using readHead.symm
  | _ => cases same

/-! ### A head that moves after the approval -/

def pinnedRequest : JobSpec := ⟨1, 7, .reconcile, .object [("source", .string "webhook")]⟩

def failedCheck : CheckRecord := ⟨"1", "test", none, "completed", some "failure", none⟩

/-- The head of the pull request fails its test. -/
def pinnedStart : WorkerSystem where
  db := .empty 0
  pullRequests := [⟨lineContext.pullRequest, 0⟩]
  github _ := ⟨⟨some "owner/name", "head", some "feature"⟩, [failedCheck]⟩
  executions := []

def pinnedData : ReadSet := ⟨"head", some "feature", [failedCheck]⟩

def pinnedSpec : JobSpec := ciRepairSpec lineContext.pullRequest "sha256:policy" pinnedData

/-- The digest agrees with SHA-256 on the payload of the repair plan. -/
def pinnedDigest (text : List Char) : String :=
  if text = (approvalPayload pinnedSpec.plan lineDetails).text then
    "e6ab7037e39899c744ce1fcc791915b2d7d7672299c534c62cea10ce57c133ba"
  else ""

def pinnedDetails : Json :=
  .object [("approval_details", bindApprovalDetails pinnedDigest pinnedSpec.plan lineDetails)]

/-- The calls on the queue from the reconciliation to the lease of the approved repair. -/
def pinnedCalls : List Op :=
  [.upsertRepository 1 1, .enqueue pinnedRequest 4, .leaseNext "worker" 10, .enqueue pinnedSpec 5,
    .markSucceeded 4 "worker" 10 .null, .leaseNext "worker" 11,
    .markWaitingApproval 5 "worker" 11 pinnedDetails, .approvePlan 5, .leaseNext "worker" 12]

def pinnedReconcile : Execution :=
  ⟨"worker", ⟨4, 1, 7, .reconcile, pinnedRequest.plan, leaseInterval, 10, 1, 5⟩, .leased⟩

def pinnedReview : Execution :=
  ⟨"worker", ⟨5, 1, 7, .ciRepair, pinnedSpec.plan, leaseInterval, 11, 1, 5⟩, .leased⟩

/-- The plan with the details that the worker showed and their approval. -/
def pinnedPlan : Json :=
  .object [("approval_details", bindApprovalDetails pinnedDigest pinnedSpec.plan lineDetails),
    ("approved", .bool true),
    ("approved_hash", .string (approvalFingerprint pinnedDigest pinnedSpec.plan lineDetails)),
    ("checks", checksValue [failedCheck]), ("head_sha", .string "head"),
    ("policy_revision", .string "sha256:policy"), ("source", .string "reconcile")]

def pinnedRepair : Execution :=
  ⟨"worker", ⟨5, 1, 7, .ciRepair, pinnedPlan, leaseInterval, 12, 2, 5⟩, .leased⟩

def pinnedSystem : WorkerSystem where
  db := (replay pinnedCalls (.empty 0)).2
  pullRequests := [⟨lineContext.pullRequest, 0⟩]
  github := pinnedStart.github
  executions := [pinnedRepair]

def pinnedPast (fromValue : Json → Option PiJobResult) : List Action :=
  [.call (.upsertRepository 1 1, .done), .call (.enqueue pinnedRequest 4, .job 4),
    .call (.leaseNext "worker" 10, .leased (some pinnedReconcile.lease)),
    .load pinnedReconcile lineContext.pullRequest,
    .read (pinnedReconcile.at (.loaded lineContext.pullRequest)) pinnedData,
    .save (pinnedReconcile.at (.read lineContext.pullRequest pinnedData)),
    .followUp (pinnedReconcile.at (.saved lineContext.pullRequest pinnedData))
      (.enqueue pinnedSpec 5, .job 5),
    .complete (pinnedReconcile.at .reconciled) (.markSucceeded 4 "worker" 10 .null, .changed true),
    .call (.leaseNext "worker" 11, .leased (some pinnedReview.lease)),
    .load pinnedReview lineContext.pullRequest,
    .repair (pinnedReview.at (.loaded lineContext.pullRequest)) lineContext.pullRequest
      (ciRepair pinnedDigest fromValue lineContext lineAnswers 5 pinnedSpec.plan
        (.parsed (lineResponse "b"))),
    .complete (pinnedReview.at .repaired)
      (.markWaitingApproval 5 "worker" 11 pinnedDetails, .changed true),
    .call (.approvePlan 5, .changed true),
    .call (.leaseNext "worker" 12, .leased (some pinnedRepair.lease))]

theorem pinned_before (fromValue : Json → Option PiJobResult) :
    Run (PinnedStep pinnedDigest fromValue) pinnedStart (pinnedPast fromValue) pinnedSystem := by
  refine Run.cons ⟨.call _ rfl rfl, trivial⟩ ?_
  refine Run.cons ⟨.call _ rfl rfl, trivial⟩ ?_
  refine Run.cons ⟨.call _ rfl rfl, trivial⟩ ?_
  refine Run.cons ⟨.load _ _ rfl rfl ⟨[], [], rfl, rfl⟩, fun kind => by cases kind⟩ ?_
  refine Run.cons ⟨.read _ _ rfl rfl ⟨[], [], rfl, rfl⟩, trivial⟩ ?_
  refine Run.cons ⟨.save _ _ _ rfl ⟨[], [], rfl, rfl⟩, trivial⟩ ?_
  refine Run.cons ⟨.followUp _ _ _ "sha256:policy" 5 rfl (by decide) rfl ⟨[], [], rfl, rfl⟩, ?_⟩ ?_
  · intro context data stage
    cases stage
    rfl
  refine Run.cons ⟨.complete _ _ (.succeeded _ fun _ => rfl) rfl ⟨[], [], rfl, rfl⟩, trivial⟩ ?_
  refine Run.cons ⟨.call _ rfl rfl, trivial⟩ ?_
  refine Run.cons ⟨.load _ _ rfl rfl ⟨[], [], rfl, rfl⟩, ?_⟩ ?_
  · intro _ _ context found
    cases found
    rfl
  refine Run.cons ⟨.repair _ lineContext lineAnswers _ rfl rfl ?_ ⟨[], [], rfl, rfl⟩, trivial⟩ ?_
  · intro head answered
    cases answered
    rfl
  refine Run.cons ⟨.complete _ _ (.waiting _ (by decide) fun _ => ⟨rfl, rfl, rfl⟩) rfl
    ⟨[], [], rfl, rfl⟩, trivial⟩ ?_
  refine Run.cons ⟨.call _ rfl rfl, trivial⟩ ?_
  refine Run.cons ⟨.call _ rfl rfl, trivial⟩ ?_
  exact .refl

theorem pinnedPlan_approved : planIsApproved pinnedDigest pinnedPlan = true := by decide +kernel

/-- The head of the stored pull request moved after the approval. -/
def movedContext : PullRequestContext := ⟨1, 7, "moved", "feature"⟩

/-- The approved repair applies its patch at the loaded head when GitHub has the same head. -/
theorem pinned_applied (fromValue : Json → Option PiJobResult) {system : WorkerSystem}
    {context : PullRequestContext} (branch : context.headBranch = "feature")
    (loaded : system.executions = [pinnedRepair.at (.loaded context)])
    (current : (system.github (1, 7)).head = ⟨some "owner/name", context.headSha, some "feature"⟩) :
    system.Step pinnedDigest fromValue
      (.repair (pinnedRepair.at (.loaded context)) context
        (.ok (.applyCiRepair (lineResponse "b").proposedPatches)))
      { system with executions := [pinnedRepair.at .repaired] } := by
  let repair : CiRepairContext := { lineContext with pullRequest := context }
  let answers : CiAnswers := { lineAnswers with head := .ok (system.github (1, 7)).head }
  have passed : applicationGuard repair answers = .ok () := by
    simp [repair, answers, applicationGuard, headGuard, current, branch,
      RepositoryContext.fullName, lineContext, lineAnswers]
  have sent : diagnosisRequest repair answers 5 = .ok lineRequest := lineRequest_sent
  have applied : ciRepair pinnedDigest fromValue repair answers 5 pinnedPlan
      (.parsed (lineResponse "b")) = .ok (.applyCiRepair (lineResponse "b").proposedPatches) :=
    ciRepair_of_accepted pinnedPlan_approved rfl passed sent lineResponse_executed
      (by simp [lineResponse])
  rw [← applied]
  refine .repair (pinnedRepair.at (.loaded context)) repair answers (.parsed (lineResponse "b"))
    rfl rfl ?_ ⟨[], [], loaded, rfl⟩
  intro head answered
  exact (Except.ok.inj answered).symm

theorem ci_repair_head_pinned_review :
    HeadPinned (pinnedPast (fun _ => none) ++ [.load pinnedRepair lineContext.pullRequest])
      { pinnedSystem with executions := [pinnedRepair.at (.loaded lineContext.pullRequest)] }
      (pinnedRepair.at (.loaded lineContext.pullRequest)) lineContext.pullRequest := by
  have agree : HeadsAgree pinnedDigest pinnedSystem
      (.load pinnedRepair lineContext.pullRequest) := by
    intro _ _ context found
    cases found
    rfl
  have run := (pinned_before fun _ => none).snoc
    ⟨.load pinnedRepair lineContext.pullRequest rfl rfl ⟨[], [], rfl, rfl⟩, agree⟩
  exact ci_repair_head_pinned ⟨rfl, rfl⟩ run ⟨pinned_applied _ rfl rfl rfl, trivial⟩

/-- A repair whose plan names the old head applies its patch at the new head. -/
theorem moved_head_patched :
    ¬ ∀ (sha256Hex : List Char → String) (fromValue : Json → Option PiJobResult)
      (start system next : WorkerSystem) (past : List Action) (execution : Execution)
      (context : PullRequestContext) (patches : List CiPatch), start.Initial →
      Run (WorkerSystem.Step sha256Hex fromValue) start past system →
      system.Step sha256Hex fromValue (.repair execution context (.ok (.applyCiRepair patches))) next →
      HeadPinned past system execution context := by
  intro claim
  let github : GitHubPullRequest := ⟨⟨some "owner/name", "moved", some "feature"⟩, []⟩
  have run := run_unpinned (pinned_before fun _ => none)
  have pushed := run.snoc (.push (1, 7) github)
  have observed := pushed.snoc (.observe ⟨movedContext, 1⟩)
  have loaded := observed.snoc (.load pinnedRepair movedContext rfl rfl ⟨[], [], rfl, rfl⟩)
  have outcome := claim _ _ _ _ _ _ _ movedContext _ ⟨rfl, rfl⟩ loaded
    (pinned_applied (fun _ => none) rfl rfl rfl)
  have planned : some (Json.string "head") = some (.string "moved") := outcome.planned
  simp at planned

end PiTools
