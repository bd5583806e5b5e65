import PiTools.Queue.Moves

/-
This file derives from the statement of each call which rows it moves. A run
then keeps every fact about rows that the moves keep.
-/

namespace PiTools

open Library

/-- What one call does to the table. -/
inductive Effect (event : Event) (db after : Database) : Prop
  | inserted (spec : JobSpec) (proposedId : Uuid)
      (enqueued : event = (.enqueue spec proposedId, .job proposedId))
      (unhandled : terminalJob db spec = none)
      (vacant : ∀ job ∈ db.jobs, job.active = true → job.deduplicationKey ≠ spec.deduplicationKey)
      (stored : after = { db with jobs := db.jobs ++ [newJob db spec proposedId] })
  | moved (rows : List.Forall₂ (Moved event db.now) db.jobs after.jobs)
      (present : ∀ jobId, Event.Touches event jobId → ∃ job ∈ db.jobs, job.id = jobId)

theorem Effect.still {event : Event} {db after : Database} (same : after.jobs = db.jobs)
    (quiet : ∀ jobId, ¬ Event.Touches event jobId) : Effect event db after := by
  refine .moved ?_ fun jobId touched => absurd touched (quiet jobId)
  rw [same]
  exact List.forall₂_same.mpr fun job _ => .still (quiet job.id)

theorem Event.not_touches_failed {op : Op} {reason : DatabaseError} {jobId : Uuid} :
    ¬ Event.Touches (op, .failed reason) jobId := by
  simp [Event.Touches]

theorem Event.not_touches_of_target {op : Op} {value : Bool} {jobId : Uuid}
    (free : op.target = none) : ¬ Event.Touches (op, .changed value) jobId := by
  simp [Event.Touches, free]

theorem Event.not_touches_done {op : Op} {jobId : Uuid} : ¬ Event.Touches (op, .done) jobId := by
  simp [Event.Touches]

/-- A statement names the job of its call, moves every row that it changes and fails only on `jsonb`. -/
structure Update.Explained (update : Update) (event : Event) (now : Timestamp) : Prop where
  names : ∀ job chosen, update.guard job = true → event.1.target = some chosen → job.id = chosen
  rows : ∀ job job', update.guard job = true → update.change job = .ok job' →
    Moved event now job job'
  errors : ∀ job reason, update.change job = .error reason → ∃ refused, reason = .jsonbSet refused

theorem requestCancel_explained (jobId : Uuid) (now : Timestamp) :
    (requestCancel jobId).Explained (.requestCancel jobId, .changed true) now where
  names job chosen met target := by
    simp only [requestCancel, Bool.and_eq_true, decide_eq_true_eq] at met
    exact met.1.trans (Option.some.inj target)
  rows job job' met equal := by
    simp only [requestCancel, Bool.and_eq_true, decide_eq_true_eq, Except.ok.injEq] at met equal
    obtain ⟨rfl, active⟩ := met
    subst equal
    exact ⟨.cancelled, .cancelled active, .inl rfl⟩
  errors job reason failed := by simp [requestCancel] at failed

theorem skipCurrentItem_explained (jobId : Uuid) (now : Timestamp) :
    (skipCurrentItem jobId).Explained (.skipCurrentItem jobId, .changed true) now where
  names job chosen met target := by
    simp only [skipCurrentItem, Bool.and_eq_true, decide_eq_true_eq] at met
    exact met.1.1.1.trans (Option.some.inj target)
  rows job job' met equal := by
    simp only [skipCurrentItem, Bool.and_eq_true, Bool.or_eq_true, decide_eq_true_eq] at met equal
    obtain ⟨⟨⟨rfl, started⟩, uncancelled⟩, item⟩ := met
    split at equal
    · cases equal
    · rename_i plan set
      cases equal
      exact ⟨.skipped, .skipped plan started uncancelled item set, rfl⟩
  errors job reason failed := by
    simp only [skipCurrentItem] at failed
    split at failed
    · exact ⟨_, (Except.error.inj failed).symm⟩
    · cases failed

theorem markWaitingApproval_explained (now : Timestamp) (jobId : Uuid) (workerId : String)
    (leaseToken : Uuid) (details : Json) :
    (markWaitingApproval now jobId workerId leaseToken details).Explained
      (.markWaitingApproval jobId workerId leaseToken details, .changed true) now where
  names job chosen met target := by
    simp only [markWaitingApproval, Bool.and_eq_true, decide_eq_true_eq] at met
    exact met.1.trans (Option.some.inj target)
  rows job job' met equal := by
    simp only [markWaitingApproval, Bool.and_eq_true, decide_eq_true_eq, Except.ok.injEq]
      at met equal
    obtain ⟨rfl, held⟩ := met
    subst equal
    exact ⟨.waiting workerId leaseToken details, .waiting _ _ _ held, rfl⟩
  errors job reason failed := by simp [markWaitingApproval] at failed

theorem approvePlan_explained (jobId : Uuid) (now : Timestamp) :
    (approvePlan jobId).Explained (.approvePlan jobId, .changed true) now where
  names job chosen met target := by
    simp only [approvePlan, Bool.and_eq_true, decide_eq_true_eq] at met
    exact met.1.1.1.trans (Option.some.inj target)
  rows job job' met equal := by
    simp only [approvePlan, Bool.and_eq_true, decide_eq_true_eq] at met equal
    obtain ⟨⟨⟨rfl, parked⟩, uncancelled⟩, shown⟩ := met
    split at equal
    · cases equal
    · rename_i plan set
      cases equal
      exact ⟨.approved, .approved plan parked uncancelled shown set, rfl⟩
  errors job reason failed := by
    simp only [approvePlan] at failed
    split at failed
    · exact ⟨_, (Except.error.inj failed).symm⟩
    · cases failed

theorem renewLease_explained (now : Timestamp) (jobId : Uuid) (workerId : String)
    (leaseToken : Uuid) :
    (renewLease now jobId workerId leaseToken).Explained
      (.renewLease jobId workerId leaseToken, .changed true) now where
  names job chosen met target := by
    simp only [renewLease, Bool.and_eq_true, decide_eq_true_eq] at met
    exact met.1.trans (Option.some.inj target)
  rows job job' met equal := by
    simp only [renewLease, Bool.and_eq_true, decide_eq_true_eq, Except.ok.injEq] at met equal
    obtain ⟨rfl, held⟩ := met
    subst equal
    exact ⟨.renewed workerId leaseToken, .renewed _ _ held, rfl⟩
  errors job reason failed := by simp [renewLease] at failed

/-- A completion names its job, holds the lease and stores the result. -/
theorem completeJob_row {state : JobState} {now : Timestamp} {jobId : Uuid} {workerId : String}
    {leaseToken : Uuid} {result : Json} {job : Job}
    (met : (completeJob state now jobId workerId leaseToken result).guard job = true) :
    job.id = jobId ∧ job.leaseHeld workerId leaseToken now = true := by
  simpa only [completeJob, Bool.and_eq_true, decide_eq_true_eq] using met

theorem markSucceeded_explained (now : Timestamp) (jobId : Uuid) (workerId : String)
    (leaseToken : Uuid) (result : Json) :
    (markSucceeded now jobId workerId leaseToken result).Explained
      (.markSucceeded jobId workerId leaseToken result, .changed true) now where
  names job chosen met target := by
    exact (completeJob_row met).1.trans (Option.some.inj target)
  rows job job' met equal := by
    obtain ⟨rfl, held⟩ := completeJob_row met
    simp only [markSucceeded, completeJob, Except.ok.injEq] at equal
    subst equal
    exact ⟨.succeeded workerId leaseToken result, .succeeded _ _ _ held, rfl⟩
  errors job reason failed := by simp [markSucceeded, completeJob] at failed

theorem markFailed_explained (now : Timestamp) (jobId : Uuid) (workerId : String)
    (leaseToken : Uuid) (result : Json) :
    (markFailed now jobId workerId leaseToken result).Explained
      (.markFailed jobId workerId leaseToken result, .changed true) now where
  names job chosen met target := by
    exact (completeJob_row met).1.trans (Option.some.inj target)
  rows job job' met equal := by
    obtain ⟨rfl, held⟩ := completeJob_row met
    simp only [markFailed, completeJob, Except.ok.injEq] at equal
    subst equal
    exact ⟨.failed workerId leaseToken result, .failed _ _ _ held, rfl⟩
  errors job reason failed := by simp [markFailed, completeJob] at failed

theorem linkJobCheckRun_explained (jobId : Uuid) (checkRunId : Int) (checkRunUrl : String)
    (currentItem : Option String) (now : Timestamp) :
    (linkJobCheckRun jobId checkRunId checkRunUrl currentItem).Explained
      (.linkJobCheckRun jobId checkRunId checkRunUrl currentItem, .done) now where
  names job chosen met target := by cases target
  rows job job' met equal := by
    simp only [linkJobCheckRun, decide_eq_true_eq, Except.ok.injEq] at met equal
    subst met equal
    exact ⟨.linked, .linked _ _ _, _, _, _, rfl⟩
  errors job reason failed := by simp [linkJobCheckRun] at failed

theorem cancelInstallationJobs_explained (repositories : List (Int × Int)) (installationId : Int)
    (now : Timestamp) :
    (cancelInstallationJobs repositories installationId).Explained
      (.cancelInstallationJobs installationId, .done) now where
  names job chosen met target := by cases target
  rows job job' met equal := by
    simp only [cancelInstallationJobs, Bool.and_eq_true, Except.ok.injEq] at met equal
    subst equal
    exact ⟨.cancelled, .cancelled met.1, .inr (.inl ⟨_, rfl⟩)⟩
  errors job reason failed := by simp [cancelInstallationJobs] at failed

theorem cancelRepositoryJobs_explained (repositoryId : Int) (now : Timestamp) :
    (cancelRepositoryJobs repositoryId).Explained (.cancelRepositoryJobs repositoryId, .done)
      now where
  names job chosen met target := by cases target
  rows job job' met equal := by
    simp only [cancelRepositoryJobs, Bool.and_eq_true, Except.ok.injEq] at met equal
    subst equal
    exact ⟨.cancelled, .cancelled met.2, .inr (.inr ⟨_, rfl⟩)⟩
  errors job reason failed := by simp [cancelRepositoryJobs] at failed

/-- A statement on one named job has an effect that its call explains. -/
theorem Update.changed_effect {update : Update} {op : Op} {chosen : Uuid} {db after : Database}
    {reply : Reply} (constrained : Constrained db.jobs) (target : op.target = some chosen)
    (explained : update.Explained (op, .changed true) db.now)
    (performed : settle db (update.changed db) .changed = (after, reply)) :
    Effect (op, reply) db after ∧ Constrained after.jobs := by
  cases changed : update.changed db with
  | error reason =>
      simp only [changed, settle, Prod.mk.injEq] at performed
      obtain ⟨rfl, rfl⟩ := performed
      exact ⟨.still rfl fun _ => Event.not_touches_failed, constrained⟩
  | ok answer =>
      obtain ⟨stored, value⟩ := answer
      simp only [changed, settle, Prod.mk.injEq] at performed
      obtain ⟨rfl, rfl⟩ := performed
      have fixed : ∀ job, update.guard job = true → job.id = chosen :=
        fun job met => explained.names job chosen met target
      have touches : ∀ jobId, Event.Touches (op, .changed value) jobId ↔ chosen = jobId ∧ value = true := by
        simp [Event.Touches, target]
      obtain ⟨rows, kept, _⟩ := Update.changed_ok changed constrained.ids fixed
      refine ⟨.moved (rows.imp fun job job' named => ?_) fun jobId touched => ?_, kept⟩
      · rcases named with ⟨met, equal, rfl⟩ | ⟨rfl, missed⟩
        · exact explained.rows job job' met equal
        · exact .still fun touched => missed (((touches _).mp touched).symm.imp id Eq.symm)
      · obtain ⟨rfl, rfl⟩ := (touches jobId).mp touched
        obtain ⟨job, member, met⟩ := Update.changed_true changed
        exact ⟨job, member, fixed job met⟩

/-- A statement on many rows has an effect that its call explains. -/
theorem Update.execute_effect {update : Update} {op : Op} {db after : Database} {reply : Reply}
    (constrained : Constrained db.jobs) (explained : update.Explained (op, .done) db.now)
    (performed : settle db (update.execute db) (fun _ => .done) = (after, reply)) :
    Effect (op, reply) db after ∧ Constrained after.jobs := by
  cases executed : update.execute db with
  | error reason =>
      simp only [executed, settle, Prod.mk.injEq] at performed
      obtain ⟨rfl, rfl⟩ := performed
      exact ⟨.still rfl fun _ => Event.not_touches_failed, constrained⟩
  | ok answer =>
      obtain ⟨stored, count⟩ := answer
      simp only [executed, settle, Prod.mk.injEq] at performed
      obtain ⟨rfl, rfl⟩ := performed
      obtain ⟨rows, _, kept, _⟩ := Update.execute_ok executed
      refine ⟨.moved (rows.imp fun job job' updated => ?_) fun jobId touched =>
        absurd touched Event.not_touches_done, kept⟩
      rcases updated with ⟨met, equal⟩ | ⟨_, rfl⟩
      · exact explained.rows job job' met equal
      · exact .still Event.not_touches_done

theorem Event.touches_leased {op : Op} {lease : LeasedJob} {jobId : Uuid} :
    Event.Touches (op, .leased (some lease)) jobId ↔ lease.id = jobId := by
  simp [Event.Touches]

/-- The sweep exhausts a row or leaves it alone. -/
theorem exhaustAttempts_row {event : Event} {now : Timestamp} {job job' : Job}
    (swept : Updated (exhaustAttempts now).guard (exhaustAttempts now).change job job')
    (quiet : ¬ Event.Touches event job.id)
    (leases : ∃ workerId leaseToken, event.1 = .leaseNext workerId leaseToken) :
    Moved event now job job' := by
  rcases swept with ⟨met, equal⟩ | ⟨_, rfl⟩
  · simp only [exhaustAttempts, Bool.and_eq_true, Bool.or_eq_true, decide_eq_true_eq,
      Except.ok.injEq] at met equal
    obtain ⟨⟨⟨_, pending⟩, spent⟩, idle⟩ := met
    subst equal
    exact ⟨.exhausted, .exhausted pending spent idle, quiet, leases⟩
  · exact .still quiet

/-- The sweep leaves the rows alone that are still fit for a lease. -/
theorem exhaustAttempts_leaseable {now : Timestamp} {job job' : Job}
    (swept : Updated (exhaustAttempts now).guard (exhaustAttempts now).change job job')
    (fit : job'.leaseable now = true) : job' = job := by
  rcases swept with ⟨_, equal⟩ | ⟨_, rfl⟩
  · simp only [exhaustAttempts, Except.ok.injEq] at equal
    subst equal
    simp [Job.leaseable, Job.exhaust] at fit
  · rfl

theorem leaseNext_effect {db after : Database} {workerId : String} {leaseToken : Uuid}
    {reply : Reply} (constrained : Constrained db.jobs)
    (performed : settle db (leaseNext db workerId leaseToken) .leased = (after, reply)) :
    Effect (.leaseNext workerId leaseToken, reply) db after ∧ Constrained after.jobs := by
  have asked : ∃ worker token, Op.leaseNext workerId leaseToken = .leaseNext worker token :=
    ⟨workerId, leaseToken, rfl⟩
  cases sweep : (exhaustAttempts db.now).execute db with
  | error reason =>
      simp only [leaseNext, sweep, settle, Prod.mk.injEq] at performed
      obtain ⟨rfl, rfl⟩ := performed
      exact ⟨.still rfl fun _ => Event.not_touches_failed, constrained⟩
  | ok answer =>
      obtain ⟨swept, count⟩ := answer
      obtain ⟨sweptRows, _, sweptKept, _⟩ := Update.execute_ok sweep
      simp only [leaseNext, sweep] at performed
      cases selected : selectFirst older (swept.jobs.filter fun job => job.leaseable db.now) with
      | none =>
          simp only [selected, settle, Prod.mk.injEq] at performed
          obtain ⟨rfl, rfl⟩ := performed
          have quiet : ∀ jobId, ¬ Event.Touches (.leaseNext workerId leaseToken, .leased none) jobId := by
            simp [Event.Touches]
          exact ⟨.moved (sweptRows.imp fun job _ row => exhaustAttempts_row row (quiet job.id) asked)
            fun jobId touched => absurd touched (quiet jobId), sweptKept⟩
      | some chosen =>
          have chosenMember := List.mem_filter.mp (selectFirst_mem selected)
          cases taken : (takeLease db.now chosen.id workerId leaseToken).execute swept with
          | error reason =>
              simp only [selected, taken, settle, Prod.mk.injEq] at performed
              obtain ⟨rfl, rfl⟩ := performed
              exact ⟨.still rfl fun _ => Event.not_touches_failed, constrained⟩
          | ok answer =>
              obtain ⟨leased, leasedCount⟩ := answer
              simp only [selected, taken, settle, Prod.mk.injEq] at performed
              obtain ⟨rfl, rfl⟩ := performed
              obtain ⟨takenRows, _, takenKept, _⟩ := Update.execute_ok taken
              have both := forall₂_compose sweptRows takenRows
              refine ⟨.moved (both.imp ?_) fun jobId touched => ?_, takenKept⟩
              · rintro job job' ⟨middle, inside, sweptRow, takenRow⟩
                rcases takenRow with ⟨met, equal⟩ | ⟨missed, rfl⟩
                · simp only [takeLease, decide_eq_true_eq, Except.ok.injEq] at met equal
                  have same := row_unique Job.id sweptKept.ids inside chosenMember.1 met
                  subst same equal
                  have old := exhaustAttempts_leaseable sweptRow chosenMember.2
                  subst old
                  exact ⟨.leased workerId leaseToken, .leased _ _ chosenMember.2, rfl⟩
                · have sameId : job'.id = job.id := by
                    rcases sweptRow with ⟨_, equal⟩ | ⟨_, rfl⟩
                    · simp only [exhaustAttempts, Except.ok.injEq] at equal
                      subst equal
                      rfl
                    · rfl
                  refine exhaustAttempts_row sweptRow (fun touched => ?_) asked
                  rw [Event.touches_leased] at touched
                  simp only [takeLease, decide_eq_false_iff_not] at missed
                  exact missed (sameId.trans touched.symm)
              · rw [Event.touches_leased] at touched
                subst touched
                obtain ⟨job, member, row⟩ := forall₂_old sweptRows chosenMember.1
                have old := exhaustAttempts_leaseable row chosenMember.2
                subst old
                exact ⟨_, member, rfl⟩

theorem enqueue_effect {db after : Database} {spec : JobSpec} {proposedId : Uuid} {reply : Reply}
    (constrained : Constrained db.jobs)
    (performed : settle db (enqueue db spec proposedId) .job = (after, reply)) :
    Effect (.enqueue spec proposedId, reply) db after ∧ Constrained after.jobs := by
  have free : ∀ id jobId, ¬ Event.Touches (.enqueue spec proposedId, .job id) jobId := by
    simp [Event.Touches]
  cases handled : terminalJob db spec with
  | some job =>
      simp only [enqueue, handled, settle, Prod.mk.injEq] at performed
      obtain ⟨rfl, rfl⟩ := performed
      exact ⟨.still rfl (free job.id), constrained⟩
  | none =>
      simp only [enqueue, handled, insertJob] at performed
      split at performed
      · rename_i job _
        simp only [settle, Prod.mk.injEq] at performed
        obtain ⟨rfl, rfl⟩ := performed
        exact ⟨.still rfl (free job.id), constrained⟩
      · rename_i vacant
        split at performed
        · simp only [settle, Prod.mk.injEq] at performed
          obtain ⟨rfl, rfl⟩ := performed
          exact ⟨.still rfl fun _ => Event.not_touches_failed, constrained⟩
        · cases accepted : storeJobs (db.jobs ++ [newJob db spec proposedId]) with
          | error reason =>
              simp only [accepted, settle, Prod.mk.injEq] at performed
              obtain ⟨rfl, rfl⟩ := performed
              exact ⟨.still rfl fun _ => Event.not_touches_failed, constrained⟩
          | ok stored =>
              simp only [accepted, settle, Prod.mk.injEq] at performed
              obtain ⟨rfl, rfl⟩ := performed
              obtain ⟨rfl, kept⟩ := storeJobs_ok.mp accepted
              refine ⟨.inserted spec proposedId rfl handled (fun job member active same => ?_) rfl, kept⟩
              have missed := List.find?_eq_none.mp vacant job member
              simp [active, same] at missed

/-- The assertion only reads the table. -/
theorem assertLease_effect {db after : Database} {jobId : Uuid} {workerId : String}
    {leaseToken : Uuid} {reply : Reply} (constrained : Constrained db.jobs)
    (performed : perform (.assertLease jobId workerId leaseToken) db = (after, reply)) :
    Effect (.assertLease jobId workerId leaseToken, reply) db after ∧ Constrained after.jobs := by
  cases asserted : assertLease db jobId workerId leaseToken with
  | error reason =>
      simp only [perform, asserted, Except.map, settle, Prod.mk.injEq] at performed
      obtain ⟨rfl, rfl⟩ := performed
      exact ⟨.still rfl fun _ => Event.not_touches_failed, constrained⟩
  | ok held =>
      simp only [perform, asserted, Except.map, settle, Prod.mk.injEq] at performed
      obtain ⟨rfl, rfl⟩ := performed
      exact ⟨.still rfl fun _ => Event.not_touches_of_target rfl, constrained⟩

/-- The assertion passes exactly for a live lease. -/
theorem assertLease_true {db : Database} {jobId : Uuid} {workerId : String} {leaseToken : Uuid}
    (ids : (db.jobs.map Job.id).Nodup) :
    assertLease db jobId workerId leaseToken = .ok true ↔
      ∃ job ∈ db.jobs, job.id = jobId ∧ job.leaseHeld workerId leaseToken db.now = true := by
  constructor
  · intro passed
    simp only [assertLease] at passed
    split at passed
    · cases passed
    · rename_i job found
      split at passed
      · cases passed
      · rename_i held conditions
        cases passed
        exact ⟨job, List.mem_of_find?_eq_some found, by simpa using List.find?_some found,
          by simpa [Job.leaseHeld] using conditions⟩
  · rintro ⟨job, member, rfl, held⟩
    simp only [Job.leaseHeld, decide_eq_true_eq] at held
    cases found : db.jobs.find? fun other => other.id = job.id with
    | none => simpa using List.find?_eq_none.mp found job member
    | some other =>
        have same := row_unique Job.id ids (List.mem_of_find?_eq_some found) member
          (by simpa using List.find?_some found)
        subst same
        simp only [assertLease, found, held]

/-- A failed answer comes from a failed transaction. -/
theorem settle_failed {Answer : Type} {db after : Database} {reply : Answer → Reply}
    {reason : DatabaseError} {outcome : Except DatabaseError (Database × Answer)}
    (answers : ∀ answer, reply answer ≠ .failed reason)
    (settled : settle db outcome reply = (after, .failed reason)) : outcome = .error reason := by
  cases outcome with
  | error other =>
      simp only [settle, Prod.mk.injEq, Reply.failed.injEq] at settled
      rw [settled.2]
  | ok answer =>
      simp only [settle, Prod.mk.injEq] at settled
      exact absurd settled.2 (answers _)

theorem Update.execute_of_changed_failed {update : Update} {db after : Database}
    {reason : DatabaseError}
    (settled : settle db (update.changed db) .changed = (after, .failed reason)) :
    update.execute db = .error reason := by
  have failed := settle_failed (by simp) settled
  simp only [Update.changed] at failed
  split at failed
  · rename_i executed
    cases failed
    exact executed
  · cases failed

/-- A transaction that writes only jobs leaves the rest of the database. -/
theorem settle_frame {Answer : Type} {db after : Database} {reply : Answer → Reply} {given : Reply}
    {outcome : Except DatabaseError (Database × Answer)}
    (frame : ∀ stored answer, outcome = .ok (stored, answer) → stored = { db with jobs := stored.jobs })
    (settled : settle db outcome reply = (after, given)) : after = { db with jobs := after.jobs } := by
  cases outcome with
  | error reason =>
      simp only [settle, Prod.mk.injEq] at settled
      rw [← settled.1]
  | ok answer =>
      simp only [settle, Prod.mk.injEq] at settled
      rw [← settled.1]
      exact frame _ _ rfl

theorem Update.execute_frame {update : Update} {db after : Database} {count : Nat}
    (executed : update.execute db = .ok (after, count)) : after = { db with jobs := after.jobs } :=
  (Update.execute_ok executed).2.2.2

theorem Update.changed_frame {update : Update} {db after : Database} {value : Bool}
    (changed : update.changed db = .ok (after, value)) : after = { db with jobs := after.jobs } := by
  simp only [Update.changed] at changed
  split at changed
  · cases changed
  · rename_i executed
    cases changed
    exact Update.execute_frame executed

theorem enqueue_frame {db after : Database} {spec : JobSpec} {proposedId id : Uuid}
    (enqueued : enqueue db spec proposedId = .ok (after, id)) :
    after = { db with jobs := after.jobs } := by
  simp only [enqueue, insertJob] at enqueued
  split at enqueued
  · cases enqueued
    rfl
  · split at enqueued
    · cases enqueued
      rfl
    · split at enqueued
      · cases enqueued
      · split at enqueued
        · cases enqueued
        · cases enqueued
          rfl

theorem leaseNext_frame {db after : Database} {workerId : String} {leaseToken : Uuid}
    {answer : Option LeasedJob} (leased : leaseNext db workerId leaseToken = .ok (after, answer)) :
    after = { db with jobs := after.jobs } := by
  simp only [leaseNext] at leased
  split at leased
  · cases leased
  · rename_i swept _ sweep
    have first := Update.execute_frame sweep
    split at leased
    · cases leased
      exact first
    · split at leased
      · cases leased
      · rename_i taken
        cases leased
        have second := Update.execute_frame taken
        rw [second, first]

/-- Only the clock and the repository store write outside the table of jobs. -/
theorem perform_frame {op : Op} {db after : Database} {reply : Reply}
    (performed : perform op db = (after, reply)) :
    after = { db with jobs := after.jobs } ∨
      (∃ elapsed, op = .advance elapsed ∧ after = { db with now := db.now + elapsed }) ∨
        ∃ repositoryId installationId, op = .upsertRepository repositoryId installationId ∧
          after = upsertRepository db repositoryId installationId := by
  cases op with
  | enqueue => exact .inl (settle_frame (fun _ _ => enqueue_frame) performed)
  | leaseNext => exact .inl (settle_frame (fun _ _ => leaseNext_frame) performed)
  | requestCancel | skipCurrentItem | markWaitingApproval | approvePlan | renewLease
  | markSucceeded | markFailed =>
      exact .inl (settle_frame (fun _ _ => Update.changed_frame) performed)
  | linkJobCheckRun | cancelInstallationJobs | cancelRepositoryJobs =>
      exact .inl (settle_frame (fun _ _ => Update.execute_frame) performed)
  | assertLease jobId workerId leaseToken =>
      refine .inl (settle_frame (fun stored answer asserted => ?_) performed)
      cases held : assertLease db jobId workerId leaseToken with
      | error reason => simp [held, Except.map] at asserted
      | ok value =>
          simp only [held, Except.map, Except.ok.injEq, Prod.mk.injEq] at asserted
          rw [← asserted.1]
  | upsertRepository repositoryId installationId =>
      simp only [perform, Prod.mk.injEq] at performed
      exact .inr (.inr ⟨repositoryId, installationId, rfl, performed.1.symm⟩)
  | advance elapsed =>
      simp only [perform, Prod.mk.injEq] at performed
      exact .inr (.inl ⟨elapsed, rfl, performed.1.symm⟩)

/-- The clock never runs backwards. -/
theorem perform_now {op : Op} {db after : Database} {reply : Reply}
    (performed : perform op db = (after, reply)) : db.now ≤ after.now := by
  rcases perform_frame performed with frame | ⟨elapsed, _, rfl⟩ | ⟨repositoryId, installationId, _, rfl⟩
  · rw [frame]
  · exact Nat.le_add_right _ _
  · simp only [upsertRepository]
    split <;> exact le_rfl

/-- Every call on a constrained table has an effect and keeps the constraints. -/
theorem perform_effect {op : Op} {db after : Database} {reply : Reply}
    (constrained : Constrained db.jobs) (performed : perform op db = (after, reply)) :
    Effect (op, reply) db after ∧ Constrained after.jobs := by
  cases op with
  | enqueue spec proposedId => exact enqueue_effect constrained performed
  | leaseNext workerId leaseToken => exact leaseNext_effect constrained performed
  | requestCancel jobId =>
      exact Update.changed_effect constrained rfl (requestCancel_explained ..) performed
  | skipCurrentItem jobId =>
      exact Update.changed_effect constrained rfl (skipCurrentItem_explained ..) performed
  | markWaitingApproval jobId workerId leaseToken details =>
      exact Update.changed_effect constrained rfl (markWaitingApproval_explained ..) performed
  | approvePlan jobId =>
      exact Update.changed_effect constrained rfl (approvePlan_explained ..) performed
  | assertLease jobId workerId leaseToken => exact assertLease_effect constrained performed
  | renewLease jobId workerId leaseToken =>
      exact Update.changed_effect constrained rfl (renewLease_explained ..) performed
  | markSucceeded jobId workerId leaseToken result =>
      exact Update.changed_effect constrained rfl (markSucceeded_explained ..) performed
  | markFailed jobId workerId leaseToken result =>
      exact Update.changed_effect constrained rfl (markFailed_explained ..) performed
  | linkJobCheckRun jobId checkRunId checkRunUrl currentItem =>
      exact Update.execute_effect constrained (linkJobCheckRun_explained ..) performed
  | cancelInstallationJobs installationId =>
      exact Update.execute_effect constrained (cancelInstallationJobs_explained ..) performed
  | cancelRepositoryJobs repositoryId =>
      exact Update.execute_effect constrained (cancelRepositoryJobs_explained ..) performed
  | upsertRepository repositoryId installationId =>
      simp only [perform, Prod.mk.injEq] at performed
      obtain ⟨rfl, rfl⟩ := performed
      have same : (upsertRepository db repositoryId installationId).jobs = db.jobs := by
        simp only [upsertRepository]
        split <;> rfl
      exact ⟨.still same fun _ => Event.not_touches_done, by rwa [same]⟩
  | advance elapsed =>
      simp only [perform, Prod.mk.injEq] at performed
      obtain ⟨rfl, rfl⟩ := performed
      exact ⟨.still rfl fun _ => Event.not_touches_done, constrained⟩

theorem step_effect {event : Event} {db after : Database} (constrained : Constrained db.jobs)
    (step : db.Step event after) : Effect event db after ∧ Constrained after.jobs :=
  perform_effect constrained step

/-- A row after a call is a new row or a moved row. -/
theorem Effect.row {event : Event} {db after : Database} (effect : Effect event db after)
    (constrained : Constrained after.jobs) {job' : Job} (member : job' ∈ after.jobs) :
    (∃ spec proposedId, event = (.enqueue spec proposedId, .job proposedId) ∧
        job' = newJob db spec proposedId ∧ ∀ job ∈ db.jobs, job.id ≠ proposedId) ∨
      ∃ job ∈ db.jobs, Moved event db.now job job' := by
  cases effect with
  | inserted spec proposedId enqueued unhandled vacant stored =>
      subst stored
      rcases List.mem_append.mp member with old | new
      · refine .inr ⟨job', old, .still ?_⟩
        simp [enqueued, Event.Touches]
      · refine .inl ⟨spec, proposedId, enqueued, by simpa using new, fun job inside same => ?_⟩
        have ids := constrained.ids
        rw [List.map_append, List.nodup_append] at ids
        exact ids.2.2 job.id (List.mem_map_of_mem inside) proposedId (by simp [newJob]) same
  | moved rows present => exact .inr (forall₂_old rows member)

/-- A row that exists before a call still exists after it. -/
theorem Effect.successor {event : Event} {db after : Database} (effect : Effect event db after)
    {job : Job} (member : job ∈ db.jobs) : ∃ job' ∈ after.jobs, Moved event db.now job job' := by
  cases effect with
  | inserted spec proposedId enqueued unhandled vacant stored =>
      subst stored
      refine ⟨job, List.mem_append_left _ member, .still ?_⟩
      simp [enqueued, Event.Touches]
  | moved rows present => exact forall₂_new rows member

/-- A call on one job changes no other row and keeps every id. -/
theorem target_rows {op : Op} {value : Bool} {jobId : Uuid} {db after : Database}
    (constrained : Constrained db.jobs) (target : op.target = some jobId)
    (step : db.Step (op, .changed value) after) :
    List.Forall₂ (fun job job' => job'.id = job.id ∧ (job' ≠ job → job.id = jobId))
      db.jobs after.jobs := by
  cases (step_effect constrained step).1 with
  | inserted spec proposedId enqueued => cases enqueued
  | moved rows present =>
      refine rows.imp fun job job' moved => ⟨?_, fun changed => moved.of_target target changed⟩
      obtain ⟨_, move, _⟩ := moved
      exact move.identity.1

/-- A call that changed its job made its own move on the row of that job. -/
theorem changed_moves {op : Op} {jobId : Uuid} {db after : Database}
    (constrained : Constrained db.jobs) (target : op.target = some jobId)
    (step : db.Step (op, .changed true) after) :
    ∃ job ∈ db.jobs, job.id = jobId ∧ ∃ job' ∈ after.jobs, Move db.now job op.rowEvent job' := by
  have effect := (step_effect constrained step).1
  cases effect with
  | inserted spec proposedId enqueued => cases enqueued
  | moved rows present =>
      obtain ⟨job, member, rfl⟩ := present jobId (.inl ⟨target, rfl⟩)
      obtain ⟨job', member', rowEvent, move, explained⟩ := forall₂_new rows member
      exact ⟨job, member, rfl, job', member', explained.eq_rowEvent target ▸ move⟩

/-- The link writes the row of its job, whoever holds the lease. -/
theorem link_rows {db after : Database} {jobId : Uuid} {checkRunId : Int} {checkRunUrl : String}
    {currentItem : Option String}
    (step : db.Step (.linkJobCheckRun jobId checkRunId checkRunUrl currentItem, .done) after) :
    List.Forall₂ (fun job job' =>
      (job.id = jobId ∧ job' = job.linkCheckRun checkRunId checkRunUrl currentItem) ∨
        (job.id ≠ jobId ∧ job' = job)) db.jobs after.jobs := by
  simp only [Database.Step, perform, settle] at step
  split at step
  · cases step
  · rename_i stored count executed
    cases step
    refine (Update.execute_ok executed).1.imp fun job job' updated => ?_
    rcases updated with ⟨met, changed⟩ | ⟨missed, same⟩
    · simp only [linkJobCheckRun, decide_eq_true_eq, Except.ok.injEq] at met changed
      exact .inl ⟨met, changed.symm⟩
    · exact .inr ⟨by simpa [linkJobCheckRun] using missed, same⟩

/-- A granted lease was taken from a row that was fit for it. -/
theorem leased_moves {op : Op} {lease : LeasedJob} {db after : Database}
    (constrained : Constrained db.jobs) (step : db.Step (op, .leased (some lease)) after) :
    ∃ job ∈ db.jobs, ∃ workerId leaseToken, op = .leaseNext workerId leaseToken ∧
      lease = job.leased leaseToken db.now ∧ job.leaseable db.now = true ∧
        job.lease workerId leaseToken db.now ∈ after.jobs := by
  have effect := (step_effect constrained step).1
  cases effect with
  | inserted spec proposedId enqueued => cases enqueued
  | moved rows present =>
      have touched : Event.Touches (op, .leased (some lease)) lease.id :=
        Event.touches_leased.mpr rfl
      obtain ⟨job, member, same⟩ := present lease.id touched
      obtain ⟨job', member', rowEvent, move, explained⟩ := forall₂_new rows member
      rw [← same] at touched
      cases move with
      | untouched => exact absurd touched explained
      | exhausted => exact absurd touched explained.1
      | leased workerId leaseToken leaseable =>
          cases explained
          exact ⟨job, member, workerId, leaseToken, rfl, rfl, leaseable, member'⟩
      | cancelled => rcases explained with equal | ⟨_, equal⟩ | ⟨_, equal⟩ <;> cases equal
      | linked =>
          obtain ⟨_, _, _, equal⟩ := explained
          cases equal
      | skipped | waiting | approved | renewed | succeeded | failed => cases explained

theorem constrained_nil : Constrained [] :=
  ⟨by simp, List.nodup_nil, List.nodup_nil, List.nodup_nil⟩

/-- Replayed calls are a run. -/
theorem replay_run (ops : List Op) (db : Database) :
    Run Database.Step db (replay ops db).1 (replay ops db).2 := by
  induction ops generalizing db with
  | nil => exact .refl
  | cons op rest ih => 
      have first : db.Step (op, (perform op db).2) (perform op db).1 := rfl
      exact Run.cons first (ih (perform op db).1)

theorem replay_ops (ops : List Op) (db : Database) : (replay ops db).1.map Prod.fst = ops := by
  induction ops generalizing db with
  | nil => rfl
  | cons op rest ih => exact congrArg (op :: ·) (ih (perform op db).1)

section Runs

variable {start db : Database} {events : List Event}

theorem run_constrained (empty : start.jobs = []) (run : Run Database.Step start events db) :
    Constrained db.jobs :=
  run.invariant (fun state => Constrained state.jobs) (empty ▸ constrained_nil)
    fun _ _ _ constrained step => (step_effect constrained step).2

/-- A fact that new rows have and that moves keep holds for every row after a run. -/
theorem run_rows (holds : List Event → Job → Prop) (empty : start.jobs = [])
    (run : Run Database.Step start events db)
    (created : ∀ past before spec proposedId, Run Database.Step start past before →
      (∀ job ∈ before.jobs, job.id ≠ proposedId) →
        holds (past ++ [(.enqueue spec proposedId, .job proposedId)]) (newJob before spec proposedId))
    (moved : ∀ past before event rowEvent job job', Run Database.Step start past before →
      job ∈ before.jobs → holds past job → Move before.now job rowEvent job' →
        rowEvent.Explains event before.now job → holds (past ++ [event]) job') :
    ∀ job ∈ db.jobs, holds events job := by
  refine run.history (fun past state => ∀ job ∈ state.jobs, holds past job)
    (by simp [empty]) fun past before event after earlier held step job' member => ?_
  obtain ⟨effect, kept⟩ := step_effect (run_constrained empty earlier) step
  rcases effect.row kept member with
    ⟨spec, proposedId, rfl, rfl, fresh⟩ | ⟨job, inside, rowEvent, move, explained⟩
  · exact created past before spec proposedId earlier fresh
  · exact moved past before event rowEvent job job' earlier inside (held job inside) move explained

end Runs

end PiTools
