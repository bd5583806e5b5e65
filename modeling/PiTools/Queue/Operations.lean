import PiTools.Queue.Job

/-
This file defines the statements of `JobQueue` and the statements of
`Repositories` that write the `jobs` table. Each operation is one transaction.
-/

namespace PiTools

open Library

/-- The reasons for which Postgres refuses a statement on `jobs`. -/
inductive DatabaseError
  | jsonbSet (reason : Json.SetError)
  | unexpectedNull
  | attemptBoundsCheck
  | primaryKey
  | activeLogicalIdentity
  | checkRunId
  | repositoryForeignKey
  deriving DecidableEq, Repr

/-- The part of the database that the queue reads and writes. -/
structure Database where
  jobs : List Job
  /-- Each repository stands with its installation. -/
  repositories : List (Int × Int)
  now : Timestamp
  deriving Repr

/-- The database starts without rows. -/
def Database.empty (now : Timestamp) : Database := ⟨[], [], now⟩

/-- The check `jobs_attempt_bounds_check`. -/
def Job.attemptBounds (job : Job) : Bool :=
  0 ≤ job.attempt && 0 < job.maxAttempts && job.attempt ≤ job.maxAttempts

/-- The keys of the index `idx_jobs_active_logical_identity`. -/
def activeIdentities (jobs : List Job) : List JobDeduplicationKey :=
  (jobs.filter Job.active).map Job.deduplicationKey

/-- The table accepts new rows only when every constraint holds. -/
def storeJobs (jobs : List Job) : Except DatabaseError (List Job) :=
  if ¬ jobs.all Job.attemptBounds then .error .attemptBoundsCheck
  else if ¬ (activeIdentities jobs).Nodup then .error .activeLogicalIdentity
  else if ¬ (jobs.map Job.id).Nodup then .error .primaryKey
  else if ¬ (jobs.filterMap Job.checkRunId).Nodup then .error .checkRunId
  else .ok jobs

/-- One `UPDATE jobs` statement. -/
structure Update where
  guard : Job → Bool
  change : Job → Except DatabaseError Job

/-- The statement returns the number of affected rows. -/
def Update.execute (update : Update) (db : Database) : Except DatabaseError (Database × Nat) :=
  match updateRows update.guard update.change db.jobs with
  | .error reason => .error reason
  | .ok (jobs, count) =>
      match storeJobs jobs with
      | .error reason => .error reason
      | .ok jobs => .ok ({ db with jobs }, count)

/-- An operation reports success when it affected exactly one row. -/
def Update.changed (update : Update) (db : Database) : Except DatabaseError (Database × Bool) :=
  match update.execute db with
  | .error reason => .error reason
  | .ok (db, count) => .ok (db, count = 1)

/-! ### Enqueue -/

def JobSpec.terminalHeadSha (spec : JobSpec) : Option String :=
  (spec.plan.get "head_sha").bind Json.asStr

/-- The order `created_at DESC, id DESC`. -/
def newer (first second : Job) : Bool :=
  second.createdAt < first.createdAt ||
    (second.createdAt = first.createdAt && second.id < first.id)

/-- The newest succeeded job that already handled the head of a repair. -/
def terminalJob (db : Database) (spec : JobSpec) : Option Job :=
  if spec.kind = .ciRepair ∨ spec.kind = .stackRebase then
    match spec.terminalHeadSha with
    | none => none
    | some headSha =>
        selectFirst newer (db.jobs.filter fun job =>
          job.deduplicationKey = spec.deduplicationKey && job.state = .succeeded &&
            job.plan.getText "head_sha" = some headSha)
  else none

/-- The row of a new job, with the defaults of its columns. -/
def newJob (db : Database) (spec : JobSpec) (id : Uuid) : Job where
  id
  repositoryId := spec.repositoryId
  pullRequestNumber := spec.pullRequestNumber
  kind := spec.kind
  state := .queued
  currentItem := none
  plan := spec.plan
  result := none
  attempt := 0
  maxAttempts := 5
  leaseOwner := none
  leaseUntil := none
  leaseToken := none
  cancelRequested := false
  createdAt := db.now
  checkRunId := none
  checkRunUrl := none

/-- The insertion returns the active job of the same identity when there is one. -/
def insertJob (db : Database) (spec : JobSpec) (proposedId : Uuid) :
    Except DatabaseError (Database × Uuid) :=
  match db.jobs.find? fun job => job.active && job.deduplicationKey = spec.deduplicationKey with
  | some job => .ok (db, job.id)
  | none =>
      if ¬ db.repositories.any (fun repository => repository.1 = spec.repositoryId) then
        .error .repositoryForeignKey
      else
        match storeJobs (db.jobs ++ [newJob db spec proposedId]) with
        | .error reason => .error reason
        | .ok jobs => .ok ({ db with jobs }, proposedId)

def enqueue (db : Database) (spec : JobSpec) (proposedId : Uuid) :
    Except DatabaseError (Database × Uuid) :=
  match terminalJob db spec with
  | some job => .ok (db, job.id)
  | none => insertJob db spec proposedId

/-! ### Controls -/

def Job.cancel (job : Job) : Job :=
  { job.releaseLease with state := .cancelled, cancelRequested := true }

def requestCancel (jobId : Uuid) : Update where
  guard job := job.id = jobId && job.active
  change job := .ok job.cancel

/-- The list of skipped items grows by the current item. -/
def Job.skippedPlan (job : Job) : Except Json.SetError Json :=
  job.plan.setKey "skipped_items"
    (((job.plan.get "skipped_items").getD (.array [])).concat
      (.array [match job.currentItem with
        | some item => .string item
        | none => .null]))

def Job.skip (job : Job) (plan : Json) : Job :=
  { job.releaseLease with
    state := .queued, currentItem := none, plan, attempt := max (job.attempt - 1) 0 }

/-- The condition `NULLIF(current_item, '') IS NOT NULL`. -/
def Job.hasCurrentItem (job : Job) : Bool :=
  job.currentItem.any fun item => item ≠ ""

def skipCurrentItem (jobId : Uuid) : Update where
  guard job := job.id = jobId && (job.state = .running || job.state = .waitingApproval) &&
    job.cancelRequested = false && job.hasCurrentItem
  change job :=
    match job.skippedPlan with
    | .error reason => .error (.jsonbSet reason)
    | .ok plan => .ok (job.skip plan)

def Job.wait (job : Job) (details : Json) : Job :=
  { job.releaseLease with
    state := .waitingApproval
    plan := job.plan.concat details
    result := some (.object [("state", .string "waiting_approval")]) }

def markWaitingApproval (now : Timestamp) (jobId : Uuid) (workerId : String) (leaseToken : Uuid)
    (details : Json) : Update where
  guard job := job.id = jobId && job.leaseHeld workerId leaseToken now
  change job := .ok (job.wait details)

/-- The hash that the approval copies from the stored details. -/
def storedPlanHash (plan : Json) : Option Json :=
  (plan.get "approval_details").bind fun details => details.get "plan_hash"

/-- The plan carries an object of details with a text hash. -/
def approvable (plan : Json) : Bool :=
  ((plan.get "approval_details").map Json.isObject).getD false &&
    ((storedPlanHash plan).bind Json.asStr).isSome

def approvedPlan (plan : Json) : Except Json.SetError Json :=
  match plan.setKey "approved" (.bool true) with
  | .error reason => .error reason
  | .ok approved => approved.setKey "approved_hash" ((storedPlanHash plan).getD .null)

def Job.approve (job : Job) (plan : Json) : Job :=
  { job with state := .queued, plan, result := none }

def approvePlan (jobId : Uuid) : Update where
  guard job := job.id = jobId && job.state = .waitingApproval && job.cancelRequested = false &&
    approvable job.plan
  change job :=
    match approvedPlan job.plan with
    | .error reason => .error (.jsonbSet reason)
    | .ok plan => .ok (job.approve plan)

/-! ### Leases -/

/-- The interval of five minutes in microseconds. -/
def leaseInterval : Nat := 5 * 60 * 1000000

def Job.exhaust (job : Job) : Job :=
  { job.releaseLease with
    state := .failed
    result := some (.object [("attempt", .ofInt job.attempt),
      ("max_attempts", .ofInt job.maxAttempts), ("reason", .string "max_attempts_exhausted")]) }

/-- The lease is missing or has reached its deadline. -/
def Job.leaseExpired (job : Job) (now : Timestamp) : Bool :=
  job.leaseUntil.all fun deadline => deadline ≤ now

/-- The sweep fails the jobs that no further lease may take. -/
def exhaustAttempts (now : Timestamp) : Update where
  guard job := job.cancelRequested = false && (job.state = .queued || job.state = .running) &&
    job.maxAttempts ≤ job.attempt && (job.state = .queued || job.leaseExpired now)
  change job := .ok job.exhaust

def Job.leaseable (job : Job) (now : Timestamp) : Bool :=
  job.cancelRequested = false && job.attempt < job.maxAttempts &&
    (job.state = .queued || (job.state = .running && job.leaseExpired now))

/-- The order `created_at, id`. -/
def older (first second : Job) : Bool :=
  first.createdAt < second.createdAt ||
    (first.createdAt = second.createdAt && first.id < second.id)

def Job.lease (job : Job) (workerId : String) (leaseToken : Uuid) (now : Timestamp) : Job :=
  { job with
    state := .running
    leaseOwner := some workerId
    leaseUntil := some (now + leaseInterval)
    leaseToken := some leaseToken
    attempt := job.attempt + 1 }

def takeLease (now : Timestamp) (jobId : Uuid) (workerId : String) (leaseToken : Uuid) :
    Update where
  guard job := job.id = jobId
  change job := .ok (job.lease workerId leaseToken now)

/-- The worker reads the chosen row and the columns that the lease returns. -/
def Job.leased (job : Job) (leaseToken : Uuid) (now : Timestamp) : LeasedJob :=
  ⟨job.id, job.repositoryId, job.pullRequestNumber, job.kind, job.plan, now + leaseInterval,
    leaseToken, job.attempt + 1, job.maxAttempts⟩

/-- The transaction sweeps first and then leases the oldest job that is left. -/
def leaseNext (db : Database) (workerId : String) (leaseToken : Uuid) :
    Except DatabaseError (Database × Option LeasedJob) :=
  match (exhaustAttempts db.now).execute db with
  | .error reason => .error reason
  | .ok (swept, _) =>
      match selectFirst older (swept.jobs.filter fun job => job.leaseable db.now) with
      | none => .ok (swept, none)
      | some job =>
          match (takeLease db.now job.id workerId leaseToken).execute swept with
          | .error reason => .error reason
          | .ok (leased, _) => .ok (leased, some (job.leased leaseToken db.now))

/-- A missing row answers false, and a `NULL` answer is a decoding error. -/
def assertLease (db : Database) (jobId : Uuid) (workerId : String) (leaseToken : Uuid) :
    Except DatabaseError Bool :=
  match db.jobs.find? fun job => job.id = jobId with
  | none => .ok false
  | some job =>
      match sqlAnd (job.leaseConditions workerId leaseToken db.now) with
      | none => .error .unexpectedNull
      | some held => .ok held

def Job.renew (job : Job) (now : Timestamp) : Job :=
  { job with leaseUntil := some (now + leaseInterval) }

def renewLease (now : Timestamp) (jobId : Uuid) (workerId : String) (leaseToken : Uuid) :
    Update where
  guard job := job.id = jobId && job.leaseHeld workerId leaseToken now
  change job := .ok (job.renew now)

def Job.complete (job : Job) (state : JobState) (result : Json) : Job :=
  { job.releaseLease with state, result := some result }

/-- Both completions differ only in the state that they store. -/
def completeJob (state : JobState) (now : Timestamp) (jobId : Uuid) (workerId : String)
    (leaseToken : Uuid) (result : Json) : Update where
  guard job := job.id = jobId && job.leaseHeld workerId leaseToken now
  change job := .ok (job.complete state result)

def markSucceeded : Timestamp → Uuid → String → Uuid → Json → Update := completeJob .succeeded

def markFailed : Timestamp → Uuid → String → Uuid → Json → Update := completeJob .failed

/-! ### Statements of the repositories -/

def Job.linkCheckRun (job : Job) (checkRunId : Int) (checkRunUrl : String)
    (currentItem : Option String) : Job :=
  { job with checkRunId := some checkRunId, checkRunUrl := some checkRunUrl, currentItem }

def linkJobCheckRun (jobId : Uuid) (checkRunId : Int) (checkRunUrl : String)
    (currentItem : Option String) : Update where
  guard job := job.id = jobId
  change job := .ok (job.linkCheckRun checkRunId checkRunUrl currentItem)

/-- The statement on `jobs` in `cancel_installation_jobs`. -/
def cancelInstallationJobs (repositories : List (Int × Int)) (installationId : Int) : Update where
  guard job := job.active && repositories.any fun repository =>
    repository.1 = job.repositoryId && repository.2 = installationId
  change job := .ok job.cancel

def cancelRepositoryJobs (repositoryId : Int) : Update where
  guard job := job.repositoryId = repositoryId && job.active
  change job := .ok job.cancel

/-- A delivery stores a repository once, and a conflict keeps its installation. -/
def upsertRepository (db : Database) (repositoryId installationId : Int) : Database :=
  if db.repositories.any (fun repository => repository.1 = repositoryId) then db
  else { db with repositories := db.repositories ++ [(repositoryId, installationId)] }

/-! ### Runs -/

/-- The calls on the queue, with the identifiers and the time that they draw. -/
inductive Op
  | enqueue (spec : JobSpec) (proposedId : Uuid)
  | requestCancel (jobId : Uuid)
  | skipCurrentItem (jobId : Uuid)
  | markWaitingApproval (jobId : Uuid) (workerId : String) (leaseToken : Uuid) (details : Json)
  | approvePlan (jobId : Uuid)
  | leaseNext (workerId : String) (leaseToken : Uuid)
  | assertLease (jobId : Uuid) (workerId : String) (leaseToken : Uuid)
  | renewLease (jobId : Uuid) (workerId : String) (leaseToken : Uuid)
  | markSucceeded (jobId : Uuid) (workerId : String) (leaseToken : Uuid) (result : Json)
  | markFailed (jobId : Uuid) (workerId : String) (leaseToken : Uuid) (result : Json)
  | linkJobCheckRun (jobId : Uuid) (checkRunId : Int) (checkRunUrl : String)
      (currentItem : Option String)
  | cancelInstallationJobs (installationId : Int)
  | cancelRepositoryJobs (repositoryId : Int)
  | upsertRepository (repositoryId installationId : Int)
  | advance (elapsed : Nat)
  deriving Repr

inductive Reply
  | done
  | job (id : Uuid)
  | changed (value : Bool)
  | leased (job : Option LeasedJob)
  | failed (reason : DatabaseError)
  deriving Repr

/-- A failed transaction leaves the database as it was. -/
def settle {Answer : Type} (db : Database) (outcome : Except DatabaseError (Database × Answer))
    (reply : Answer → Reply) : Database × Reply :=
  match outcome with
  | .error reason => (db, .failed reason)
  | .ok (after, answer) => (after, reply answer)

/-- The effect and the answer of one call. -/
def perform (op : Op) (db : Database) : Database × Reply :=
  match op with
  | .enqueue spec proposedId => settle db (enqueue db spec proposedId) .job
  | .requestCancel jobId => settle db ((requestCancel jobId).changed db) .changed
  | .skipCurrentItem jobId => settle db ((skipCurrentItem jobId).changed db) .changed
  | .markWaitingApproval jobId workerId leaseToken details =>
      settle db ((markWaitingApproval db.now jobId workerId leaseToken details).changed db) .changed
  | .approvePlan jobId => settle db ((approvePlan jobId).changed db) .changed
  | .leaseNext workerId leaseToken => settle db (leaseNext db workerId leaseToken) .leased
  | .assertLease jobId workerId leaseToken =>
      settle db ((assertLease db jobId workerId leaseToken).map fun held => (db, held)) .changed
  | .renewLease jobId workerId leaseToken =>
      settle db ((renewLease db.now jobId workerId leaseToken).changed db) .changed
  | .markSucceeded jobId workerId leaseToken result =>
      settle db ((markSucceeded db.now jobId workerId leaseToken result).changed db) .changed
  | .markFailed jobId workerId leaseToken result =>
      settle db ((markFailed db.now jobId workerId leaseToken result).changed db) .changed
  | .linkJobCheckRun jobId checkRunId checkRunUrl currentItem =>
      settle db ((linkJobCheckRun jobId checkRunId checkRunUrl currentItem).execute db)
        fun _ => .done
  | .cancelInstallationJobs installationId =>
      settle db ((cancelInstallationJobs db.repositories installationId).execute db) fun _ => .done
  | .cancelRepositoryJobs repositoryId =>
      settle db ((cancelRepositoryJobs repositoryId).execute db) fun _ => .done
  | .upsertRepository repositoryId installationId =>
      (upsertRepository db repositoryId installationId, .done)
  | .advance elapsed => ({ db with now := db.now + elapsed }, .done)

/-- A call with its answer. -/
abbrev Event := Op × Reply

/-- One call takes the database to its next state. -/
def Database.Step (db : Database) (event : Event) (after : Database) : Prop :=
  perform event.1 db = (after, event.2)

/-- The calls one after another, with their answers. -/
def replay : List Op → Database → List Event × Database
  | [], db => ([], db)
  | op :: rest, db =>
      let (after, reply) := perform op db
      let (events, final) := replay rest after
      ((op, reply) :: events, final)

end PiTools
