import PiTools.Queue.Operations
import PiTools.Library.Runs

/-
This file states once what one call can do to one row of the `jobs` table.
Every later invariant is a case analysis over these moves.
-/

namespace PiTools

open Library

/-- The constraints of the `jobs` table. -/
structure Constrained (jobs : List Job) : Prop where
  bounds : ∀ job ∈ jobs, job.attemptBounds = true
  ids : (jobs.map Job.id).Nodup
  identities : (activeIdentities jobs).Nodup
  checkRuns : (jobs.filterMap Job.checkRunId).Nodup

theorem storeJobs_ok {jobs stored : List Job} :
    storeJobs jobs = .ok stored ↔ stored = jobs ∧ Constrained jobs := by
  constructor
  · intro accepted
    simp only [storeJobs] at accepted
    split at accepted
    · cases accepted
    · split at accepted
      · cases accepted
      · split at accepted
        · cases accepted
        · split at accepted
          · cases accepted
          · rename_i bounds identities ids checkRuns
            simp only [Except.ok.injEq] at accepted
            simp only [not_not] at bounds identities ids checkRuns
            exact ⟨accepted.symm, by simpa using bounds, ids, identities, checkRuns⟩
  · rintro ⟨rfl, constrained⟩
    have bounds : stored.all Job.attemptBounds = true := by simpa using constrained.bounds
    simp [storeJobs, bounds, constrained.ids, constrained.identities, constrained.checkRuns]

/-- A successful statement treats each row on its own and stores the result. -/
theorem Update.execute_ok {update : Update} {db after : Database} {count : Nat} :
    update.execute db = .ok (after, count) →
      List.Forall₂ (Updated update.guard update.change) db.jobs after.jobs ∧
        count = db.jobs.countP update.guard ∧ Constrained after.jobs ∧
        after = { db with jobs := after.jobs } := by
  intro executed
  simp only [Update.execute] at executed
  split at executed
  · cases executed
  · rename_i jobs counted updated
    split at executed
    · cases executed
    · rename_i stored accepted
      simp only [Except.ok.injEq, Prod.mk.injEq] at executed
      obtain ⟨rfl, rfl⟩ := executed
      obtain ⟨rfl, constrained⟩ := storeJobs_ok.mp accepted
      obtain ⟨pointwise, equal⟩ := updateRows_spec updated
      exact ⟨pointwise, equal, constrained, rfl⟩

/-- What a row looks like after a statement that names one job. -/
def Named (update : Update) (chosen : Uuid) (value : Bool) (job job' : Job) : Prop :=
  (update.guard job = true ∧ update.change job = .ok job' ∧ value = true) ∨
    (job' = job ∧ ¬ (value = true ∧ job.id = chosen))

/-- A statement that names one job reports success exactly for the row that it changed. -/
theorem Update.changed_ok {update : Update} {db after : Database} {value : Bool} {chosen : Uuid}
    (changed : update.changed db = .ok (after, value)) (ids : (db.jobs.map Job.id).Nodup)
    (fixed : ∀ job, update.guard job = true → job.id = chosen) :
    List.Forall₂ (Named update chosen value) db.jobs after.jobs ∧ Constrained after.jobs ∧
      after = { db with jobs := after.jobs } := by
  simp only [Update.changed] at changed
  split at changed
  · cases changed
  · rename_i stored count executed
    simp only [Except.ok.injEq, Prod.mk.injEq] at changed
    obtain ⟨rfl, rfl⟩ := changed
    obtain ⟨pointwise, counted, constrained, frame⟩ := Update.execute_ok executed
    have atMostOne := countP_le_one Job.id update.guard chosen ids fixed
    refine ⟨List.forall₂_iff_zip.mpr ⟨pointwise.length_eq, fun {job job'} member => ?_⟩,
      constrained, frame⟩
    have inside : job ∈ db.jobs := (List.of_mem_zip member).1
    rcases (List.forall₂_iff_zip.mp pointwise).2 member with ⟨met, equal⟩ | ⟨missed, rfl⟩
    · have positive : 0 < db.jobs.countP update.guard := List.countP_pos_iff.mpr ⟨job, inside, met⟩
      exact .inl ⟨met, equal, by simp only [decide_eq_true_eq]; omega⟩
    · refine .inr ⟨rfl, fun ⟨success, same⟩ => ?_⟩
      simp only [decide_eq_true_eq] at success
      have positive : 0 < db.jobs.countP update.guard := by omega
      obtain ⟨other, otherInside, met⟩ := List.countP_pos_iff.mp positive
      have equal := row_unique Job.id ids inside otherInside (same.trans (fixed other met).symm)
      rw [equal, met] at missed
      cases missed

/-- A statement that reports success changed some row. -/
theorem Update.changed_true {update : Update} {db after : Database}
    (changed : update.changed db = .ok (after, true)) : ∃ job ∈ db.jobs, update.guard job = true := by
  simp only [Update.changed] at changed
  split at changed
  · cases changed
  · rename_i stored count executed
    simp only [Except.ok.injEq, Prod.mk.injEq, decide_eq_true_eq] at changed
    have counted := (Update.execute_ok executed).2.1
    exact List.countP_pos_iff.mp (by omega)

/-- The change that one row sees. -/
inductive RowEvent
  | untouched
  | cancelled
  | skipped
  | waiting (workerId : String) (leaseToken : Uuid) (details : Json)
  | approved
  | exhausted
  | leased (workerId : String) (leaseToken : Uuid)
  | renewed (workerId : String) (leaseToken : Uuid)
  | succeeded (workerId : String) (leaseToken : Uuid) (result : Json)
  | failed (workerId : String) (leaseToken : Uuid) (result : Json)
  | linked

/-- The moves of one row, with the guards under which the statements make them. -/
inductive Move (now : Timestamp) (job : Job) : RowEvent → Job → Prop
  | untouched : Move now job .untouched job
  | cancelled (active : job.active = true) : Move now job .cancelled job.cancel
  | skipped (plan : Json)
      (started : job.state = .running ∨ job.state = .waitingApproval)
      (uncancelled : job.cancelRequested = false) (item : job.hasCurrentItem = true)
      (set : job.skippedPlan = .ok plan) : Move now job .skipped (job.skip plan)
  | waiting (workerId : String) (leaseToken : Uuid) (details : Json)
      (held : job.leaseHeld workerId leaseToken now = true) :
      Move now job (.waiting workerId leaseToken details) (job.wait details)
  | approved (plan : Json) (parked : job.state = .waitingApproval)
      (uncancelled : job.cancelRequested = false) (shown : approvable job.plan = true)
      (set : approvedPlan job.plan = .ok plan) : Move now job .approved (job.approve plan)
  | exhausted (pending : job.state = .queued ∨ job.state = .running)
      (spent : job.maxAttempts ≤ job.attempt)
      (idle : job.state = .queued ∨ job.leaseExpired now = true) :
      Move now job .exhausted job.exhaust
  | leased (workerId : String) (leaseToken : Uuid)
      (leaseable : job.leaseable now = true) :
      Move now job (.leased workerId leaseToken) (job.lease workerId leaseToken now)
  | renewed (workerId : String) (leaseToken : Uuid)
      (held : job.leaseHeld workerId leaseToken now = true) :
      Move now job (.renewed workerId leaseToken) (job.renew now)
  | succeeded (workerId : String) (leaseToken : Uuid) (result : Json)
      (held : job.leaseHeld workerId leaseToken now = true) :
      Move now job (.succeeded workerId leaseToken result) (job.complete .succeeded result)
  | failed (workerId : String) (leaseToken : Uuid) (result : Json)
      (held : job.leaseHeld workerId leaseToken now = true) :
      Move now job (.failed workerId leaseToken result) (job.complete .failed result)
  | linked (checkRunId : Int) (checkRunUrl : String) (currentItem : Option String) :
      Move now job .linked (job.linkCheckRun checkRunId checkRunUrl currentItem)

/-- The job that a successful call on one job names. -/
def Op.target : Op → Option Uuid
  | .requestCancel jobId | .skipCurrentItem jobId | .approvePlan jobId => some jobId
  | .markWaitingApproval jobId .. | .renewLease jobId .. => some jobId
  | .markSucceeded jobId .. | .markFailed jobId .. => some jobId
  | _ => none

/-- The change that a successful call makes to the job that it names. -/
def Op.rowEvent : Op → RowEvent
  | .requestCancel _ => .cancelled
  | .skipCurrentItem _ => .skipped
  | .markWaitingApproval _ workerId leaseToken details => .waiting workerId leaseToken details
  | .approvePlan _ => .approved
  | .renewLease _ workerId leaseToken => .renewed workerId leaseToken
  | .markSucceeded _ workerId leaseToken result => .succeeded workerId leaseToken result
  | .markFailed _ workerId leaseToken result => .failed workerId leaseToken result
  | _ => .untouched

/-- The answer says that the call changed the job or leased it. -/
def Event.Touches (event : Event) (jobId : Uuid) : Prop :=
  (event.1.target = some jobId ∧ event.2 = .changed true) ∨
    ∃ lease, event.2 = .leased (some lease) ∧ lease.id = jobId

/-- The call and its answer that go with the change of a row. -/
def RowEvent.Explains (event : Event) (now : Timestamp) (job : Job) : RowEvent → Prop
  | .untouched => ¬ Event.Touches event job.id
  | .cancelled => event = (.requestCancel job.id, .changed true) ∨
      (∃ installationId, event = (.cancelInstallationJobs installationId, .done)) ∨
      ∃ repositoryId, event = (.cancelRepositoryJobs repositoryId, .done)
  | .skipped => event = (.skipCurrentItem job.id, .changed true)
  | .waiting workerId leaseToken details =>
      event = (.markWaitingApproval job.id workerId leaseToken details, .changed true)
  | .approved => event = (.approvePlan job.id, .changed true)
  | .exhausted => ¬ Event.Touches event job.id ∧
      ∃ workerId leaseToken, event.1 = .leaseNext workerId leaseToken
  | .leased workerId leaseToken =>
      event = (.leaseNext workerId leaseToken, .leased (some (job.leased leaseToken now)))
  | .renewed workerId leaseToken =>
      event = (.renewLease job.id workerId leaseToken, .changed true)
  | .succeeded workerId leaseToken result =>
      event = (.markSucceeded job.id workerId leaseToken result, .changed true)
  | .failed workerId leaseToken result =>
      event = (.markFailed job.id workerId leaseToken result, .changed true)
  | .linked => ∃ checkRunId checkRunUrl currentItem,
      event = (.linkJobCheckRun job.id checkRunId checkRunUrl currentItem, .done)

/-- A successful call on a job explains only its own change. -/
theorem RowEvent.Explains.eq_rowEvent {op : Op} {now : Timestamp} {job : Job} {rowEvent : RowEvent}
    (explained : rowEvent.Explains (op, .changed true) now job) (target : op.target = some job.id) :
    rowEvent = op.rowEvent := by
  have touched : Event.Touches (op, .changed true) job.id := .inl ⟨target, rfl⟩
  cases rowEvent with
  | untouched => exact absurd touched explained
  | exhausted => exact absurd touched explained.1
  | cancelled =>
      rcases explained with same | ⟨_, same⟩ | ⟨_, same⟩
      · cases same
        rfl
      · cases same
      · cases same
  | linked =>
      obtain ⟨_, _, _, same⟩ := explained
      cases same
  | leased => cases explained
  | skipped | waiting | approved | renewed | succeeded | failed =>
      cases explained
      rfl

/-- One row before and after a call. -/
def Moved (event : Event) (now : Timestamp) (job job' : Job) : Prop :=
  ∃ rowEvent, Move now job rowEvent job' ∧ rowEvent.Explains event now job

theorem Moved.still {event : Event} {now : Timestamp} {job : Job}
    (quiet : ¬ Event.Touches event job.id) : Moved event now job job :=
  ⟨.untouched, .untouched, quiet⟩

/-- A call on one job changes no other row. -/
theorem Moved.of_target {op : Op} {value : Bool} {jobId : Uuid} {now : Timestamp} {job job' : Job}
    (moved : Moved (op, .changed value) now job job') (target : op.target = some jobId)
    (changed : job' ≠ job) : job.id = jobId := by
  obtain ⟨rowEvent, move, explained⟩ := moved
  cases move with
  | untouched => exact absurd rfl changed
  | exhausted =>
      obtain ⟨_, _, _, rfl⟩ := explained
      cases target
  | cancelled =>
      rcases explained with same | ⟨_, same⟩ | ⟨_, same⟩
      · cases same
        exact Option.some.inj target
      · cases same
      · cases same
  | linked =>
      obtain ⟨_, _, _, same⟩ := explained
      cases same
  | leased => cases explained
  | skipped | waiting | approved | renewed | succeeded | failed =>
      cases explained
      exact Option.some.inj target

/-- No move changes the identity of a row. -/
theorem Move.identity {now : Timestamp} {rowEvent : RowEvent} {job job' : Job}
    (move : Move now job rowEvent job') :
    job'.id = job.id ∧ job'.deduplicationKey = job.deduplicationKey ∧
      job'.maxAttempts = job.maxAttempts ∧ job'.createdAt = job.createdAt := by
  cases move <;> exact ⟨rfl, rfl, rfl, rfl⟩

theorem Moved.identity {event : Event} {now : Timestamp} {job job' : Job}
    (moved : Moved event now job job') :
    job'.id = job.id ∧ job'.deduplicationKey = job.deduplicationKey := by
  obtain ⟨_, move, _⟩ := moved
  exact ⟨move.identity.1, move.identity.2.1⟩

end PiTools
