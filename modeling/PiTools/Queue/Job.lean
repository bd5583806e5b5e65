import PiTools.Library.JsonText
import PiTools.Library.Rows

/-
This file defines the rows of the `jobs` table and the values that the queue
exchanges with its callers.
-/

namespace PiTools

open Library

/-- An identifier is read as its 128-bit number, which gives the order of the column. -/
abbrev Uuid := Nat

/-- A time is a number of microseconds. -/
abbrev Timestamp := Nat

inductive JobKind
  | reconcile
  | feedbackRepair
  | ciRepair
  | stackRebase
  deriving DecidableEq, Repr

inductive JobState
  | queued
  | running
  | waitingApproval
  | succeeded
  | failed
  | cancelled
  deriving DecidableEq, Repr

/-- The states that `idx_jobs_active_logical_identity` covers. -/
def JobState.active : JobState → Bool
  | .queued | .running | .waitingApproval => true
  | .succeeded | .failed | .cancelled => false

structure JobDeduplicationKey where
  repositoryId : Int
  pullRequestNumber : Int
  kind : JobKind
  deriving DecidableEq, Repr

structure JobSpec where
  repositoryId : Int
  pullRequestNumber : Int
  kind : JobKind
  plan : Json
  deriving Repr

def JobSpec.deduplicationKey (spec : JobSpec) : JobDeduplicationKey :=
  ⟨spec.repositoryId, spec.pullRequestNumber, spec.kind⟩

/-- One row of the `jobs` table. -/
structure Job where
  id : Uuid
  repositoryId : Int
  pullRequestNumber : Int
  kind : JobKind
  state : JobState
  currentItem : Option String
  plan : Json
  result : Option Json
  attempt : Int
  maxAttempts : Int
  leaseOwner : Option String
  leaseUntil : Option Timestamp
  leaseToken : Option Uuid
  cancelRequested : Bool
  createdAt : Timestamp
  checkRunId : Option Int
  checkRunUrl : Option String
  deriving DecidableEq, Repr

def Job.active (job : Job) : Bool := job.state.active

def Job.deduplicationKey (job : Job) : JobDeduplicationKey :=
  ⟨job.repositoryId, job.pullRequestNumber, job.kind⟩

/-- The columns that every release path clears. -/
def Job.releaseLease (job : Job) : Job :=
  { job with leaseOwner := none, leaseUntil := none, leaseToken := none }

/-- The conditions on a live lease that the queue repeats in its statements. -/
def Job.leaseConditions (job : Job) (workerId : String) (leaseToken : Uuid) (now : Timestamp) :
    List (Option Bool) :=
  [some (job.state = .running), some (job.cancelRequested = false),
    job.leaseOwner.map fun owner => decide (owner = workerId),
    job.leaseToken.map fun token => decide (token = leaseToken),
    job.leaseUntil.map fun deadline => decide (now < deadline)]

/-- The row passes the conditions of a live lease. -/
def Job.leaseHeld (job : Job) (workerId : String) (leaseToken : Uuid) (now : Timestamp) : Bool :=
  sqlAnd (job.leaseConditions workerId leaseToken now) = some true

/-- A live lease names the worker, the token and a deadline in the future. -/
theorem Job.leaseHeld_iff {job : Job} {workerId : String} {leaseToken : Uuid} {now : Timestamp} :
    job.leaseHeld workerId leaseToken now = true ↔
      job.state = .running ∧ job.cancelRequested = false ∧ job.leaseOwner = some workerId ∧
        job.leaseToken = some leaseToken ∧ ∃ deadline, job.leaseUntil = some deadline ∧
          now < deadline := by
  simp only [Job.leaseHeld, decide_eq_true_eq, sqlAnd_eq_true, Job.leaseConditions]
  simp [Option.map_eq_some_iff]

/-- The view of a row that a worker receives with its lease. -/
structure LeasedJob where
  id : Uuid
  repositoryId : Int
  pullRequestNumber : Int
  kind : JobKind
  plan : Json
  leaseUntil : Timestamp
  leaseToken : Uuid
  attempt : Int
  maxAttempts : Int
  deriving Repr

end PiTools
