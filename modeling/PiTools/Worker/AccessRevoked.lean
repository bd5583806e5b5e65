import PiTools.Delivery.Granting
import PiTools.Delivery.Revocation
import PiTools.Queue.Fencing

/-
This file interleaves deliveries with the queue and the workers that load the
context of their repository, and shows that a revoked access stops the work.
-/

namespace PiTools

open Library

/-! ### The system -/

/-- A worker with its lease, and whether its load of the repository context succeeded. -/
structure AccessExecution where
  workerId : String
  lease : LeasedJob
  loaded : Bool
  deriving Repr

structure AccessSystem where
  tables : Tables
  now : Timestamp
  executions : List AccessExecution

def AccessSystem.db (system : AccessSystem) : Database := system.tables.database system.now

/-- A granted lease starts an execution. -/
def Event.accessExecutions : Event → List AccessExecution
  | (.leaseNext workerId _, .leased (some lease)) => [⟨workerId, lease, false⟩]
  | _ => []

inductive AccessAction
  | deliver (delivery : WebhookEnvelope)
  | fail (delivery : WebhookEnvelope)
  | call (event : Event)
  | load (execution : AccessExecution)
  | mutate (execution : AccessExecution)
  | leave (execution : AccessExecution)
  | elsewhere

def AccessAction.grantedToken : AccessAction → Option Uuid
  | .call event => event.grantedToken
  | _ => none

/-- Every step is one transaction, one load of a context or one mutation on GitHub. -/
inductive AccessSystem.Step (packages : Packages) (system : AccessSystem) :
    AccessAction → AccessSystem → Prop
  | delivered {delivery : WebhookEnvelope} {tables : Tables}
      (applied : applyDelivery packages none system.now system.tables delivery = .ok tables) :
      Step packages system (.deliver delivery) { system with tables }
  | failed {delivery : WebhookEnvelope} {failing : Option CallSite} {reason : RepositoryError}
      (failed : applyDelivery packages failing system.now system.tables delivery = .error reason) :
      Step packages system (.fail delivery) system
  | called {event : Event} {after : Database}
      (called : system.db.Step event after) :
      Step packages system (.call event)
        ⟨{ system.tables with jobs := after.jobs }, after.now,
          system.executions ++ event.accessExecutions⟩
  | loaded {executions : List AccessExecution} (execution : AccessExecution)
      (found : (repositoryContext execution.lease.repositoryId system.tables).isSome = true)
      (next : Replaces system.executions execution [{ execution with loaded := true }] executions) :
      Step packages system (.load execution) { system with executions }
  -- Every mutation comes after the load of the context, which has the token and the name.
  | mutated (execution : AccessExecution) (member : execution ∈ system.executions)
      (loaded : execution.loaded = true) : Step packages system (.mutate execution) system
  | left {executions : List AccessExecution} (execution : AccessExecution)
      (next : Replaces system.executions execution [] executions) :
      Step packages system (.leave execution) { system with executions }
  -- The other writers keep the jobs and what decides about the access.
  | elsewhere {tables : Tables} (jobs : tables.jobs = system.tables.jobs)
      (access : ∀ repositoryId, tables.accessible repositoryId =
        system.tables.accessible repositoryId) :
      Step packages system .elsewhere { system with tables }

structure AccessSystem.Initial (system : AccessSystem) : Prop where
  jobs : system.tables.jobs = []
  executions : system.executions = []

/-- The execution holds a live lease. -/
def AccessSystem.Holds (system : AccessSystem) (execution : AccessExecution) : Prop :=
  assertLease system.db execution.lease.id execution.workerId execution.lease.leaseToken = .ok true

/-- What the loss of an access means for the jobs and the workers. -/
structure RevocationStops (packages : Packages) (start : AccessSystem) (actions : List AccessAction)
    (finish : AccessSystem) : Prop where
  swept : ∀ past delivery future before after, actions = past ++ .deliver delivery :: future →
    Run (AccessSystem.Step packages) start past before →
    before.Step packages (.deliver delivery) after →
    ∀ installationId, delivery.installationId = some installationId →
      Swept delivery installationId after.tables
  unloaded : ∀ execution ∈ finish.executions,
    finish.tables.accessible execution.lease.repositoryId = false →
      finish.Holds execution → execution.loaded = false
  unmutated : ∀ past execution future before after, actions = past ++ .mutate execution :: future →
    Run (AccessSystem.Step packages) start past before →
    before.Step packages (.mutate execution) after → before.Holds execution →
      before.tables.accessible execution.lease.repositoryId = true

/-! ### Steps -/

/-- The leases of the executions were granted, and a live one with its context has access. -/
structure AccessSystem.Sound (granted : List Uuid) (system : AccessSystem) : Prop where
  constrained : Constrained system.tables.jobs
  leases : ∀ execution ∈ system.executions, execution.lease.leaseToken ∈ granted ∧
    ∃ job ∈ system.tables.jobs, job.id = execution.lease.id ∧
      job.repositoryId = execution.lease.repositoryId
  access : ∀ execution ∈ system.executions, execution.loaded = true →
    system.db.live execution.lease.id = some execution.lease.leaseToken →
      system.tables.accessible execution.lease.repositoryId = true

section Steps

variable {packages : Packages} {system next : AccessSystem} {action : AccessAction}
  {granted : List Uuid} {execution : AccessExecution}

/-- Steps that keep the jobs, the time and the access keep the system sound. -/
theorem AccessSystem.Sound.of_executions (sound : system.Sound granted)
    (jobs : next.tables.jobs = system.tables.jobs) (now : next.now = system.now)
    (access : ∀ repositoryId, next.tables.accessible repositoryId =
      system.tables.accessible repositoryId)
    (executions : ∀ execution ∈ next.executions, ∃ old ∈ system.executions,
      execution.lease = old.lease ∧ (execution.loaded = true → old.loaded = true ∨
        system.tables.accessible old.lease.repositoryId = true)) : next.Sound granted where
  constrained := jobs ▸ sound.constrained
  leases execution member := by
    obtain ⟨old, inside, same, _⟩ := executions execution member
    rw [same, jobs]
    exact sound.leases old inside
  access execution member loaded live := by
    obtain ⟨old, inside, same, before⟩ := executions execution member
    have sameLive : next.db.live = system.db.live := by
      funext jobId
      simp only [Database.live, AccessSystem.db, Tables.database, jobs, now]
    rw [same, sameLive] at live
    rw [same, access]
    rcases before loaded with loaded' | accessible
    · exact sound.access old inside loaded' live
    · exact accessible

/-- A lease that survives a cancellation was live before, and its job is active. -/
theorem Cancelled.live {tables tables' : Tables} {now : Timestamp}
    (cancelled : Cancelled tables.jobs tables'.jobs) (constrained : Constrained tables.jobs)
    {jobId token : Uuid} (live : (tables'.database now).live jobId = some token) :
    (tables.database now).live jobId = some token ∧
      ∃ job ∈ tables'.jobs, job.id = jobId ∧ job.active = true ∧ job ∈ tables.jobs := by
  obtain ⟨job', member', rfl, held⟩ := Database.live_some live
  have running : job'.state = .running := by
    by_contra idle
    rw [Job.liveToken_of_not_running idle] at held
    cases held
  obtain ⟨job, member, rfl | rfl⟩ := forall₂_old cancelled member'
  · refine ⟨?_, job', member', rfl, by simp [Job.active, running, JobState.active], member⟩
    have ids : ((tables.database now).jobs.map Job.id).Nodup := constrained.ids
    exact (Database.live_of_mem ids member).trans held
  · cases running

theorem AccessSystem.Sound.deliver (sound : system.Sound granted) {tables : Tables}
    {delivery : WebhookEnvelope}
    (applied : applyDelivery packages none system.now system.tables delivery = .ok tables) :
    ({ system with tables } : AccessSystem).Sound granted := by
  obtain ⟨constrained, ids⟩ := applyDelivery_jobs applied sound.constrained
  obtain ⟨revokes, _⟩ := applyDelivery_revokes sound.constrained applied
  refine ⟨constrained, fun execution member => ?_, fun execution member loaded live => ?_⟩
  · obtain ⟨known, job, inside, same, mine⟩ := sound.leases execution member
    obtain ⟨job', inside', rfl | rfl⟩ := forall₂_new revokes.jobs inside
    · exact ⟨known, job', inside', same, mine⟩
    · exact ⟨known, job.cancel, inside', same, mine⟩
  · obtain ⟨before, job', member', id, active, old⟩ := revokes.jobs.live sound.constrained live
    refine (revokes.access _ (sound.access execution member loaded before)).resolve_right ?_
    intro stopped
    obtain ⟨_, job, inside, same, mine⟩ := sound.leases execution member
    obtain rfl := row_unique Job.id sound.constrained.ids old inside (id.trans same.symm)
    rw [stopped job' member' mine] at active
    cases active

theorem AccessSystem.Sound.call (sound : system.Sound granted) {event : Event} {after : Database}
    (step : system.db.Step event after)
    (fresh : ∀ token, event.grantedToken = some token → token ∉ granted) :
    (⟨{ system.tables with jobs := after.jobs }, after.now,
      system.executions ++ event.accessExecutions⟩ : AccessSystem).Sound
        (granted ++ event.grantedToken.toList) := by
  have constrained : Constrained system.db.jobs := sound.constrained
  obtain ⟨effect, constrained'⟩ := step_effect constrained step
  have started (execution : AccessExecution) (member : execution ∈ event.accessExecutions) :
      ∃ op, event = (op, .leased (some execution.lease)) ∧ execution.loaded = false := by
    unfold Event.accessExecutions at member
    split at member
    · rw [List.mem_singleton] at member
      subst member
      exact ⟨_, rfl, rfl⟩
    · cases member
  refine ⟨constrained', fun execution member => ?_, fun execution member loaded live => ?_⟩
  · rcases List.mem_append.mp member with old | new
    · obtain ⟨known, job, inside, same, mine⟩ := sound.leases execution old
      obtain ⟨job', inside', _, move, _⟩ := effect.successor (show job ∈ system.db.jobs from inside)
      refine ⟨List.mem_append_left _ known, job', inside', move.identity.1.trans same, ?_⟩
      have identity := congrArg JobDeduplicationKey.repositoryId move.identity.2.1
      exact identity.trans mine
    · obtain ⟨op, rfl, _⟩ := started execution new
      obtain ⟨job, _, workerId, leaseToken, _, taken, _, inside⟩ := leased_moves constrained step
      refine ⟨List.mem_append_right _ (by simp [Event.grantedToken]), _, inside, ?_, ?_⟩
      · rw [taken]
        rfl
      · rw [taken]
        rfl
  · have now : after.live execution.lease.id = some execution.lease.leaseToken := live
    rcases List.mem_append.mp member with old | new
    · obtain ⟨known, _⟩ := sound.leases execution old
      rcases step_live constrained step execution.lease.id with same | gone | ⟨lease, reply, _, granting⟩
      · exact sound.access execution old loaded (same.symm.trans now)
      · cases gone.symm.trans now
      -- A new lease of the job has a new token, so the old one is over.
      · have same : lease.leaseToken = execution.lease.leaseToken :=
          Option.some_injective _ (granting.symm.trans now)
        have grant : event.grantedToken = some lease.leaseToken := by
          obtain ⟨op, _⟩ := event
          obtain rfl : _ = Reply.leased (some lease) := reply
          rfl
        exact absurd (same ▸ known) (fresh _ grant)
    · obtain ⟨_, _, unloaded⟩ := started execution new
      rw [unloaded] at loaded
      cases loaded

/-- Every step keeps the system sound when a granted token is new. -/
theorem AccessSystem.Sound.step (sound : system.Sound granted)
    (step : system.Step packages action next)
    (fresh : ∀ token, action.grantedToken = some token → token ∉ granted) :
    next.Sound (granted ++ action.grantedToken.toList) := by
  have quiet {action : AccessAction} (silent : action.grantedToken = none) :
      granted ++ action.grantedToken.toList = granted := by simp [silent]
  cases step with
  | delivered applied =>
      rw [quiet rfl]
      exact sound.deliver applied
  | failed =>
      rw [quiet rfl]
      exact sound
  | called called => exact sound.call called fresh
  | @loaded executions execution found replaced =>
      rw [quiet rfl]
      refine sound.of_executions rfl rfl (fun _ => rfl) fun other member => ?_
      rcases replaced.mem member with old | new
      · exact ⟨other, old, rfl, .inl⟩
      · rw [List.mem_singleton] at new
        subst new
        exact ⟨execution, replaced.old, rfl, fun _ => .inr found⟩
  | mutated =>
      rw [quiet rfl]
      exact sound
  | left execution replaced =>
      rw [quiet rfl]
      refine sound.of_executions rfl rfl (fun _ => rfl) fun other member => ?_
      rcases replaced.mem member with old | new
      · exact ⟨other, old, rfl, .inl⟩
      · cases new
  | elsewhere jobs access =>
      rw [quiet rfl]
      exact sound.of_executions jobs rfl access fun other member => ⟨other, member, rfl, .inl⟩

end Steps

/-! ### Runs -/

section Runs

variable {packages : Packages} {start finish : AccessSystem} {actions : List AccessAction}
  {execution : AccessExecution}

/-- No two leases of the run have the same token. -/
def FreshLeases (actions : List AccessAction) : Prop :=
  (actions.filterMap AccessAction.grantedToken).Nodup

theorem AccessSystem.Initial.sound (initial : start.Initial) : start.Sound [] where
  constrained := initial.jobs ▸ constrained_nil
  leases := by simp [initial.executions]
  access := by simp [initial.executions]

theorem access_sound (initial : start.Initial)
    (run : Run (AccessSystem.Step packages) start actions finish) (fresh : FreshLeases actions) :
    finish.Sound (actions.filterMap AccessAction.grantedToken) := by
  induction run with
  | refl => exact initial.sound
  | @snoc actions middle finish action earlier last ih =>
      rw [FreshLeases, List.filterMap_append, List.nodup_append] at fresh
      obtain ⟨before, _, apart⟩ := fresh
      have new : ∀ token, action.grantedToken = some token →
          token ∉ actions.filterMap AccessAction.grantedToken := by
        intro token granted old
        exact apart token old token (by simp [granted]) rfl
      have sound := (ih before).step last new
      rw [List.filterMap_append]
      cases granted : action.grantedToken with
      | none => simpa [granted] using sound
      | some token => simpa [granted] using sound

/-- A worker that holds its lease and has its context has the access. -/
theorem AccessSystem.Sound.holds {granted : List Uuid} (sound : finish.Sound granted)
    (member : execution ∈ finish.executions) (loaded : execution.loaded = true)
    (holds : finish.Holds execution) :
    finish.tables.accessible execution.lease.repositoryId = true := by
  obtain ⟨job, inside, same, held⟩ := (assertLease_true sound.constrained.ids).mp holds
  have ids : (finish.db.jobs.map Job.id).Nodup := sound.constrained.ids
  have live := Database.live_of_mem ids inside
  rw [same, Job.liveToken_of_leaseHeld held] at live
  exact sound.access execution member loaded live

/-- Every loss of access stops the jobs and the workers of its repositories. -/
theorem revocation_stops_work (initial : start.Initial)
    (run : Run (AccessSystem.Step packages) start actions finish) (fresh : FreshLeases actions) :
    RevocationStops packages start actions finish := by
  have prefixed {past future : List AccessAction} {before : AccessSystem}
      (same : actions = past ++ future) (earlier : Run (AccessSystem.Step packages) start past before) :
      before.Sound (past.filterMap AccessAction.grantedToken) := by
    refine access_sound initial earlier ?_
    rw [FreshLeases, same, List.filterMap_append, List.nodup_append] at fresh
    exact fresh.1
  constructor
  · intro past delivery future before after same earlier step installationId named
    have sound := prefixed same earlier
    cases step with
    | delivered applied => exact (applyDelivery_revokes sound.constrained applied).2 _ named
  · intro execution member revoked holds
    by_contra loaded
    have accessible := (access_sound initial run fresh).holds member (by simpa using loaded) holds
    cases revoked.symm.trans accessible
  · intro past execution future before after same earlier step holds
    cases step with
    | mutated _ member loaded => exact (prefixed same earlier).holds member loaded holds

end Runs

/-! ### A suspended installation -/

def suspendedRequest : JobSpec := ⟨7, 1, .reconcile, .object [("source", .string "webhook")]⟩

def suspendedExecution : AccessExecution :=
  ⟨"worker", ⟨5, 7, 1, .reconcile, suspendedRequest.plan, leaseInterval, 10, 1, 5⟩, false⟩

/-- A worker mutates under a live lease and the installation is suspended after it. -/
def suspensionActions : List AccessAction :=
  [.deliver (installationDelivery "created" 1), .call (.enqueue suspendedRequest 5, .job 5),
    .call (.leaseNext "worker" 10, .leased (some suspendedExecution.lease)),
    .load suspendedExecution, .mutate { suspendedExecution with loaded := true },
    .deliver (installationDelivery "suspend" 1)]

def suspensionDatabase : Database :=
  (replay [.enqueue suspendedRequest 5, .leaseNext "worker" 10] (installedTables.database 0)).2

def suspendedTables : Tables :=
  { installedTables with
    installations := [⟨1, "acme", "Organization", true⟩]
    jobs := suspensionDatabase.jobs.map Job.cancel }

theorem suspension_applied :
    applyDelivery plainPackages none 0 { installedTables with jobs := suspensionDatabase.jobs }
      (installationDelivery "suspend" 1) = .ok suspendedTables := by decide

theorem suspension_run :
    Run (AccessSystem.Step plainPackages) ⟨noTables, 0, []⟩ suspensionActions
      ⟨suspendedTables, 0, [{ suspendedExecution with loaded := true }]⟩ := by
  refine Run.cons (.delivered installed_applied) ?_
  refine Run.cons (.called rfl) ?_
  refine Run.cons (.called rfl) ?_
  refine Run.cons (.loaded suspendedExecution (by decide) ⟨[], [], rfl, rfl⟩) ?_
  refine Run.cons (.mutated _ (List.mem_singleton_self _) rfl) ?_
  exact Run.single (.delivered suspension_applied)

theorem revocation_stops_work_suspended :
    RevocationStops plainPackages ⟨noTables, 0, []⟩ suspensionActions
      ⟨suspendedTables, 0, [{ suspendedExecution with loaded := true }]⟩ :=
  revocation_stops_work ⟨rfl, rfl⟩ suspension_run
    (show (suspensionActions.filterMap AccessAction.grantedToken).Nodup by decide)

end PiTools
