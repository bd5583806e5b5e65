import PiTools.Control.Repetition
import PiTools.Queue.Deduplication

/-
This file shows that a repeated delivery enqueues only the reconciliations that
its first handling did not reach.
-/

namespace PiTools

open Library

/-! ### Jobs up to their identifiers -/

/-- The job without its identifier and without the time of its insertion. -/
def Job.unnamed (job : Job) : Job := { job with id := 0, createdAt := 0 }

/-- A known job is the same, and a new one differs at most in its identifier and its time. -/
def SameJob (known : List Uuid) (job job' : Job) : Prop :=
  job = job' ∨ (job.id ∉ known ∧ job'.id ∉ known ∧ job.unnamed = job'.unnamed)

section SameJob

variable {known : List Uuid} {job job' job'' : Job} {jobs jobs' jobs'' : List Job}

theorem SameJob.trans (same : SameJob known job job') (later : SameJob known job' job'') :
    SameJob known job job'' := by
  rcases same with rfl | ⟨unknown, _, equal⟩
  · exact later
  · rcases later with rfl | ⟨_, unknown', also⟩
    · exact .inr ⟨unknown, ‹_›, equal⟩
    · exact .inr ⟨unknown, unknown', equal.trans also⟩

theorem SameJob.active (same : SameJob known job job') : job'.active = job.active := by
  rcases same with rfl | ⟨_, _, equal⟩
  · rfl
  · have states := congrArg Job.active equal
    exact states.symm

theorem SameJob.deduplicationKey (same : SameJob known job job') :
    job'.deduplicationKey = job.deduplicationKey := by
  rcases same with rfl | ⟨_, _, equal⟩
  · rfl
  · have keys := congrArg Job.deduplicationKey equal
    exact keys.symm

theorem sameJobs_refl (known : List Uuid) (jobs : List Job) :
    List.Forall₂ (SameJob known) jobs jobs :=
  List.forall₂_same.mpr fun _ _ => .inl rfl

theorem sameJobs_trans (same : List.Forall₂ (SameJob known) jobs jobs')
    (later : List.Forall₂ (SameJob known) jobs' jobs'') :
    List.Forall₂ (SameJob known) jobs jobs'' := by
  refine (forall₂_compose same later).imp ?_
  rintro job job'' ⟨job', _, first, second⟩
  exact first.trans second

/-- Where every job is known, nothing can differ. -/
theorem sameJobs_known (same : List.Forall₂ (SameJob (jobs.map Job.id)) jobs jobs') :
    jobs = jobs' := by
  have equal : List.Forall₂ Eq jobs jobs' := by
    refine (forall₂_members same).imp ?_
    rintro job job' ⟨member, rfl | ⟨unknown, _⟩⟩
    · rfl
    · exact absurd (List.mem_map_of_mem member) unknown
  rwa [List.forall₂_eq_eq_eq] at equal

end SameJob

/-- Two tables with the same jobs, up to the names of those that are not known. -/
structure Matching (known : List Uuid) (db db' : Database) : Prop where
  jobs : List.Forall₂ (SameJob known) db.jobs db'.jobs
  repositories : db'.repositories = db.repositories
  constrained : Constrained db.jobs
  constrained' : Constrained db'.jobs
  present : known ⊆ db.jobs.map Job.id
  present' : known ⊆ db'.jobs.map Job.id

theorem Matching.trans {known : List Uuid} {db db' db'' : Database} (first : Matching known db db')
    (second : Matching known db' db'') : Matching known db db'' :=
  ⟨sameJobs_trans first.jobs second.jobs, second.repositories.trans first.repositories,
    first.constrained, second.constrained', first.present, second.present'⟩

theorem Matching.of_jobs {known : List Uuid} {db db' : Database} (jobs : db'.jobs = db.jobs)
    (repositories : db'.repositories = db.repositories) (constrained : Constrained db.jobs)
    (present : known ⊆ db.jobs.map Job.id) : Matching known db db' where
  jobs := jobs ▸ sameJobs_refl known db.jobs
  repositories := repositories
  constrained := constrained
  constrained' := jobs ▸ constrained
  present := present
  present' := jobs ▸ present

/-! ### The enqueue of a target -/

/-- The draw names no row of the table. -/
def Fresh (drawId : List Uuid → Uuid) : Prop := ∀ taken, drawId taken ∉ taken

/-- An active job will reconcile the pull request. -/
def Requested (target : Int × Int) (db : Database) : Prop :=
  ∃ job ∈ db.jobs, job.active = true ∧ job.deduplicationKey = ⟨target.1, target.2, .reconcile⟩

section Enqueue

variable {failing : Option CallSite} {drawId draw : List Uuid → Uuid} {delivery : WebhookEnvelope}
  {index : Nat} {target : Int × Int} {known : List Uuid} {db db' next : Database}

theorem Matching.requested (same : Matching known db db') :
    Requested target db' ↔ Requested target db := by
  constructor
  · rintro ⟨job', member, active, key⟩
    obtain ⟨job, old, paired⟩ := forall₂_old same.jobs member
    exact ⟨job, old, paired.active.symm.trans active, paired.deduplicationKey.symm.trans key⟩
  · rintro ⟨job, member, active, key⟩
    obtain ⟨job', new, paired⟩ := forall₂_new same.jobs member
    exact ⟨job', new, paired.active.trans active, paired.deduplicationKey.trans key⟩

/-- A reconciliation is never skipped for a job that is over. -/
theorem terminalJob_reconcile : terminalJob db (delivery.reconcileSpec target) = none := by
  simp [terminalJob, WebhookEnvelope.reconcileSpec]

/-- A requested reconciliation is not enqueued again. -/
theorem enqueueTarget_requested (requested : Requested target db) :
    enqueueTarget none drawId delivery index target db = .ok db := by
  obtain ⟨job, member, active, key⟩ := requested
  have found : (db.jobs.find? fun job => job.active &&
      job.deduplicationKey = (delivery.reconcileSpec target).deduplicationKey) ≠ none := by
    intro none_
    have missed := List.find?_eq_none.mp none_ job member
    simp [active, key, JobSpec.deduplicationKey, WebhookEnvelope.reconcileSpec] at missed
  obtain ⟨other, found⟩ := Option.ne_none_iff_exists'.mp found
  simp only [enqueueTarget, reduceCtorEq, if_false, enqueue, terminalJob_reconcile, insertJob, found]

/-- A fresh row of a free identity keeps the constraints. -/
theorem constrained_newJob {spec : JobSpec} {id : Uuid} (constrained : Constrained db.jobs)
    (fresh : id ∉ db.jobs.map Job.id)
    (free : ∀ job ∈ db.jobs, job.active = true → job.deduplicationKey ≠ spec.deduplicationKey) :
    Constrained (db.jobs ++ [newJob db spec id]) where
  bounds job member := by
    rcases List.mem_append.mp member with old | new
    · exact constrained.bounds job old
    · rw [List.mem_singleton.mp new]
      rfl
  ids := by
    rw [List.map_append, List.map_singleton, List.nodup_append]
    refine ⟨constrained.ids, List.nodup_singleton _, ?_⟩
    rintro old member new isNew rfl
    obtain rfl : old = id := List.mem_singleton.mp isNew
    exact fresh member
  identities := by
    have apart : spec.deduplicationKey ∉ activeIdentities db.jobs := by
      intro member
      simp only [activeIdentities, List.mem_map, List.mem_filter] at member
      obtain ⟨job, ⟨inside, active⟩, same⟩ := member
      exact free job inside active same
    rw [activeIdentities_newJob, List.nodup_append]
    refine ⟨constrained.identities, List.nodup_singleton _, ?_⟩
    rintro key old other new rfl
    exact apart (List.mem_singleton.mp new ▸ old)
  checkRuns := by
    rw [List.filterMap_append]
    simpa [newJob] using constrained.checkRuns

/-- The row of a requested reconciliation. -/
def requestedJob (drawId : List Uuid → Uuid) (delivery : WebhookEnvelope) (target : Int × Int)
    (db : Database) : Job :=
  newJob db (delivery.reconcileSpec target) (drawId (db.jobs.map Job.id))

theorem constrained_requestedJob (constrained : Constrained db.jobs) (fresh : Fresh drawId)
    (free : ¬ Requested target db) :
    Constrained (db.jobs ++ [requestedJob drawId delivery target db]) :=
  constrained_newJob constrained (fresh _) fun job member active key =>
    free ⟨job, member, active, key⟩

/-- A free reconciliation of a known repository is enqueued. -/
theorem enqueueTarget_free (constrained : Constrained db.jobs) (fresh : Fresh drawId)
    (free : ¬ Requested target db) :
    enqueueTarget none drawId delivery index target db =
      if db.repositories.any fun repository => repository.1 = target.1 then
        .ok { db with jobs := db.jobs ++ [requestedJob drawId delivery target db] }
      else .error (.queue (.jobs .repositoryForeignKey)) := by
  have vacant : (db.jobs.find? fun job => job.active &&
      job.deduplicationKey = (delivery.reconcileSpec target).deduplicationKey) = none := by
    refine List.find?_eq_none.mpr fun job member met => ?_
    simp only [Bool.and_eq_true, decide_eq_true_eq] at met
    exact free ⟨job, member, met.1, met.2⟩
  have stored : storeJobs (db.jobs ++ [newJob db (delivery.reconcileSpec target)
      (drawId (db.jobs.map Job.id))]) = .ok (db.jobs ++ [requestedJob drawId delivery target db]) :=
    storeJobs_ok.mpr ⟨rfl, constrained_requestedJob constrained fresh free⟩
  simp only [enqueueTarget, reduceCtorEq, if_false, enqueue, terminalJob_reconcile, insertJob, vacant,
    stored]
  have column : (delivery.reconcileSpec target).repositoryId = target.1 := rfl
  rw [column]
  cases db.repositories.any fun repository => repository.1 = target.1 <;> rfl

/-- Tables that match are enqueued alike. -/
theorem enqueueTarget_matching (delivery : WebhookEnvelope) (index : Nat) (target : Int × Int)
    (first : Fresh drawId) (second : Fresh draw) (same : Matching known db db') :
    SameOutcome (Matching known) (enqueueTarget none drawId delivery index target db)
      (enqueueTarget none draw delivery index target db') := by
  by_cases requested : Requested target db
  · rw [enqueueTarget_requested requested, enqueueTarget_requested (same.requested.mpr requested)]
    exact same
  · have free : ¬ Requested target db' := fun found => requested (same.requested.mp found)
    rw [enqueueTarget_free same.constrained first requested,
      enqueueTarget_free same.constrained' second free, same.repositories]
    split
    · refine ⟨?_, rfl, constrained_requestedJob same.constrained first requested,
        constrained_requestedJob same.constrained' second free, ?_, ?_⟩
      · refine List.rel_append same.jobs (.cons ?_ .nil)
        exact .inr ⟨fun old => first _ (same.present old), fun old => second _ (same.present' old), rfl⟩
      · exact List.Subset.trans same.present (List.map_subset _ (List.subset_append_left _ _))
      · exact List.Subset.trans same.present' (List.map_subset _ (List.subset_append_left _ _))
    · rfl

/-- A call that goes through would have gone through undisturbed. -/
theorem enqueueTarget_passed
    (enqueued : enqueueTarget failing drawId delivery index target db = .ok next) :
    enqueueTarget none drawId delivery index target db = .ok next := by
  unfold enqueueTarget at enqueued ⊢
  split at enqueued
  · cases enqueued
  · rw [if_neg (by simp)]
    exact enqueued

/-- An enqueue leaves the reconciliation requested and every other one as it was. -/
theorem enqueueTarget_requests
    (enqueued : enqueueTarget failing drawId delivery index target db = .ok next) :
    Requested target next ∧ ∀ other, Requested other db → Requested other next := by
  have passed := enqueueTarget_passed enqueued
  simp only [enqueueTarget, reduceCtorEq, if_false] at passed
  split at passed
  · cases passed
  · rename_i after jobId answered
    cases passed
    cases enqueue_returned answered with
    | handled job found =>
        rw [terminalJob_reconcile] at found
        cases found
    | absorbed job _ member active identity _ kept =>
        subst kept
        exact ⟨⟨job, member, active, identity⟩, fun _ requested => requested⟩
    | inserted _ _ _ stored =>
        subst stored
        refine ⟨⟨_, List.mem_append_right _ (.head _), rfl, rfl⟩, ?_⟩
        rintro other ⟨job, member, active, key⟩
        exact ⟨job, List.mem_append_left _ member, active, key⟩

/-- The reconciliations of a delivery can be requested again. -/
theorem enqueueTarget_repeatable (known : List Uuid) (delivery : WebhookEnvelope)
    {first second undisturbed : List Uuid → Uuid} (failing : Option CallSite)
    (fresh : Fresh first) (fresh' : Fresh second) (fresh'' : Fresh undisturbed) :
    Repeatable (enqueueTarget failing first delivery) (enqueueTarget none second delivery)
      (enqueueTarget none undisturbed delivery) (Matching known) Requested where
  agree index target _ _ same := enqueueTarget_matching delivery index target fresh' fresh'' same
  handled index target db next db' same enqueued := by
    refine ⟨(enqueueTarget_requests enqueued).1, ?_⟩
    have outcome : SameOutcome (Matching known) _
        (enqueueTarget none undisturbed delivery index target db') :=
      enqueueTarget_matching delivery index target fresh fresh'' same
    rw [enqueueTarget_passed enqueued] at outcome
    cases once : enqueueTarget none undisturbed delivery index target db' with
    | error =>
        rw [once] at outcome
        exact outcome.elim
    | ok next' =>
        rw [once] at outcome
        exact ⟨next', rfl, outcome⟩
  kept _ _ _ _ _ requested enqueued := (enqueueTarget_requests enqueued).2 _ requested
  passed _ _ _ requested := enqueueTarget_requested requested

end Enqueue

/-! ### The reconciliations of a delivery -/

/-- The stores agree on the deliveries, the controls and the jobs, up to times and to the names of
the jobs that are not known. -/
structure Recovered (known : List Uuid) (store store' : WebhookStore) : Prop where
  jobs : List.Forall₂ (SameJob known) store.tables.jobs store'.tables.jobs
  controls : store.controls = store'.controls
  deliveries : ∀ deliveryId,
    Option.Rel SameDelivery (store.deliveries.rows deliveryId) (store'.deliveries.rows deliveryId)

section Reconciliations

variable {store store' : WebhookStore} {delivery : WebhookEnvelope} {known : List Uuid}
  {first second undisturbed : List Uuid → Uuid} {outcome outcome' : DeliveryOutcome}

theorem Alike.recovered (alike : Alike store store') (known : List Uuid) :
    Recovered known store store' :=
  ⟨alike.jobs ▸ sameJobs_refl known _, alike.controls, alike.deliveries⟩

/-- The pull requests of a head do not depend on the times of their rows. -/
theorem openPullRequestsForHead_agree {tables tables' : Tables} (agree : tables.Agree tables')
    (repositoryId : Int) (headSha : String) :
    tables'.toRegistry.openPullRequestsForHead repositoryId headSha =
      tables.toRegistry.openPullRequestsForHead repositoryId headSha := by
  obtain ⟨pullRequests, rfl, same⟩ := agree
  have numbers (rows : List PullRequestRecord) :
      ((rows.filter fun pullRequest => pullRequest.repositoryId = repositoryId &&
        pullRequest.headSha = headSha && pullRequest.watched).map fun row => row.number) =
      (((rows.map PullRequestRecord.undated).filter fun pullRequest =>
        pullRequest.repositoryId = repositoryId && pullRequest.headSha = headSha &&
          pullRequest.watched).map fun row => row.number) := by
    rw [List.filter_map, List.map_map]
    rfl
  have repository : ({ tables with pullRequests } : Tables).toRegistry.repository repositoryId =
      tables.toRegistry.repository repositoryId := rfl
  simp only [Registry.openPullRequestsForHead, repository]
  rw [numbers pullRequests, same, ← numbers tables.pullRequests]

theorem reconcileTargets_agree {tables tables' : Tables} (agree : tables.Agree tables')
    (delivery : WebhookEnvelope) :
    reconcileTargets none tables'.toRegistry delivery =
      reconcileTargets none tables.toRegistry delivery := by
  simp only [reconcileTargets, openPullRequestsForHead_agree agree]

/-- The targets that were read despite a failing call are the targets. -/
theorem reconcileTargets_passed {failing : Option CallSite} {registry : Registry}
    {targets : List (Int × Int)} (read : reconcileTargets failing registry delivery = .ok targets) :
    reconcileTargets none registry delivery = .ok targets := by
  unfold reconcileTargets at read ⊢
  cases repository : delivery.repositoryId with
  | none => simpa [repository] using read
  | some repositoryId =>
      cases number : delivery.pullRequestNumber with
      | some pullRequestNumber => simpa [repository, number] using read
      | none =>
          cases head : delivery.headSha with
          | none => simpa [repository, number, head] using read
          | some headSha =>
              simp only [repository, number, head] at read
              split at read
              · cases read
              · simpa using read

/-- The enqueues change only the jobs. -/
theorem enqueueReconciliations_fst (failing : Option CallSite) (drawId : List Uuid → Uuid)
    (store : WebhookStore) (delivery : WebhookEnvelope) (outcome : DeliveryOutcome) :
    (enqueueReconciliations failing drawId store delivery outcome).1 =
      match reconcileTargets failing store.tables.toRegistry delivery with
      | .error _ => store
      | .ok targets => store.withJobs
          (handleAll (enqueueTarget failing drawId delivery) 0 targets store.database).1.jobs := by
  unfold enqueueReconciliations
  cases reconcileTargets failing store.tables.toRegistry delivery with
  | error => rfl
  | ok targets =>
      simp only
      obtain ⟨db, failure⟩ := handleAll (enqueueTarget failing drawId delivery) 0 targets store.database
      cases failure <;> rfl

theorem Alike.database (alike : Alike store store') (constrained : Constrained store.tables.jobs)
    (present : known ⊆ store.tables.jobs.map Job.id) :
    Matching known store.database store'.database := by
  obtain ⟨pullRequests, same, _⟩ := alike.tables
  refine .of_jobs alike.jobs ?_ constrained present
  simp only [WebhookStore.database, Tables.database, same]

/-- Stores that are alike request the same reconciliations. -/
theorem enqueueReconciliations_alike (alike : Alike store store') (fresh : Fresh second)
    (fresh' : Fresh undisturbed) (constrained : Constrained store.tables.jobs)
    (present : known ⊆ store.tables.jobs.map Job.id) :
    Recovered known (enqueueReconciliations none second store delivery outcome).1
      (enqueueReconciliations none undisturbed store' delivery outcome').1 := by
  rw [enqueueReconciliations_fst, enqueueReconciliations_fst, reconcileTargets_agree alike.tables]
  cases reconcileTargets none store.tables.toRegistry delivery with
  | error => exact alike.recovered known
  | ok targets =>
      have matching := handleAll_related
        (fun index target db db' (same : Matching known db db') =>
          enqueueTarget_matching delivery index target fresh fresh' same) targets 0
        (alike.database constrained present)
      exact ⟨matching.jobs, alike.controls, alike.deliveries⟩

/-- The enqueues keep the constraints, the known jobs and the repositories. -/
theorem enqueueAll_keeps (failing : Option CallSite) (fresh : Fresh first)
    (delivery : WebhookEnvelope) (targets : List (Int × Int)) {db : Database}
    (matching : Matching known db db) :
    Matching known (handleAll (enqueueTarget failing first delivery) 0 targets db).1
        (handleAll (enqueueTarget failing first delivery) 0 targets db).1 ∧
      (handleAll (enqueueTarget failing first delivery) 0 targets db).1.repositories =
        db.repositories := by
  refine handleAll_keeps (fun index target before after
    (held : Matching known before before ∧ before.repositories = db.repositories) enqueued => ?_)
    targets 0 ⟨matching, rfl⟩
  obtain ⟨same, repositories⟩ := held
  have passed := enqueueTarget_passed enqueued
  have outcome : SameOutcome (Matching known)
      (enqueueTarget none first delivery index target before)
      (enqueueTarget none first delivery index target before) :=
    enqueueTarget_matching delivery index target fresh fresh same
  rw [passed] at outcome
  refine ⟨outcome, ?_⟩
  simp only [enqueueTarget, reduceCtorEq, if_false] at passed
  split at passed
  · cases passed
  · rename_i answered
    cases passed
    rw [enqueue_frame answered]
    exact repositories

/-- A repeated delivery requests what a first one did not reach. -/
theorem enqueueReconciliations_again (failing : Option CallSite) (fresh : Fresh first)
    (fresh' : Fresh second) (fresh'' : Fresh undisturbed) (constrained : Constrained store.tables.jobs)
    (present : known ⊆ store.tables.jobs.map Job.id) (elapsed : Nat) :
    Recovered known
      (enqueueReconciliations none second
        ((enqueueReconciliations failing first store delivery outcome).1.later elapsed) delivery
        outcome').1
      (enqueueReconciliations none undisturbed store delivery outcome).1 := by
  have start : Matching known store.database store.database :=
    .of_jobs rfl rfl constrained present
  cases read : reconcileTargets failing store.tables.toRegistry delivery with
  | error reason =>
      have stopped : (enqueueReconciliations failing first store delivery outcome).1 = store := by
        rw [enqueueReconciliations_fst, read]
      rw [stopped]
      exact enqueueReconciliations_alike (.later elapsed store) fresh' fresh'' constrained present
  | ok targets =>
      have cut : (enqueueReconciliations failing first store delivery outcome).1 = store.withJobs
          (handleAll (enqueueTarget failing first delivery) 0 targets store.database).1.jobs := by
        rw [enqueueReconciliations_fst, read]
      obtain ⟨kept, repositories⟩ := enqueueAll_keeps failing fresh delivery targets start
      have all := reconcileTargets_passed read
      rw [cut, enqueueReconciliations_fst, enqueueReconciliations_fst, all]
      have again : reconcileTargets none ((store.withJobs (handleAll
          (enqueueTarget failing first delivery) 0 targets store.database).1.jobs).later
            elapsed).tables.toRegistry delivery = .ok targets := all
      rw [again]
      have repeated := handleAll_again
        (enqueueTarget_repeatable known delivery failing fresh fresh' fresh'') targets 0 start
      -- The repeated run starts later, and its enqueues do not depend on the time.
      have resumed : Matching known ((store.withJobs (handleAll
          (enqueueTarget failing first delivery) 0 targets store.database).1.jobs).later
            elapsed).database (handleAll (enqueueTarget failing first delivery) 0 targets
              store.database).1 :=
        .of_jobs rfl repositories kept.constrained kept.present
      have delayed := handleAll_related
        (fun index target db db' (same : Matching known db db') =>
          enqueueTarget_matching delivery index target fresh' fresh' same) targets 0 resumed
      exact ⟨(delayed.trans repeated).jobs, rfl, fun _ => sameRows_refl _⟩

end Reconciliations

end PiTools
