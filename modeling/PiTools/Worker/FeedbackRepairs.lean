import Mathlib.Algebra.Group.Int.Defs
import PiTools.Delivery.FeedbackMarks
import PiTools.Library.Turns
import PiTools.Queue.Fencing
import PiTools.Worker.SkippedItems
import PiTools.Worker.System

/-
This file defines the system that reconciliations and feedback repairs form with
the queue and with the rows of the feedback.
-/

namespace PiTools

open Library
open Reconcile (FeedbackRecord)

/-! ### Feedback in plans -/

/-- An option that is absent is left out. -/
def feedbackValue (record : FeedbackRecord) : Json :=
  sortedObject ([("id", .string record.id), ("actor_login", .string record.actorLogin),
      ("actor_type", .string record.actorType), ("body", .string record.body),
      ("resolved", .bool record.resolved), ("is_automation", .bool record.isAutomation)] ++
    (record.path.map fun path => ("path", Json.string path)).toList ++
    (record.startLine.map fun line => ("start_line", Json.ofInt line)).toList ++
    (record.line.map fun line => ("line", Json.ofInt line)).toList)

/-- The value of an optional field. Both a missing field and `null` read as absent. -/
def optionalField {Value : Type} (decode : Json → Option Value) (value : Json) (key : String) :
    Option (Option Value) :=
  match value.get key with
  | none | some .null => some none
  | some found => (decode found).map some

def asLineNumber : Json → Option Nat
  | .number (.int value) => if 0 ≤ value ∧ value < 2 ^ 32 then some value.toNat else none
  | _ => none

def feedbackFromValue (value : Json) : Option FeedbackRecord := do
  let id ← (value.get "id").bind Json.asStr
  let actorLogin ← (value.get "actor_login").bind Json.asStr
  let actorType ← (value.get "actor_type").bind Json.asStr
  let body ← (value.get "body").bind Json.asStr
  let resolved ← (value.get "resolved").bind Json.asBool
  let isAutomation ← (value.get "is_automation").bind Json.asBool
  let path ← optionalField Json.asStr value "path"
  let startLine ← optionalField asLineNumber value "start_line"
  let line ← optionalField asLineNumber value "line"
  pure ⟨id, actorLogin, actorType, body, resolved, isAutomation, path, startLine, line⟩

/-- The first planned feedback that is not skipped. -/
def unskippedFeedback (plan : Json) : Option Json :=
  ((plan.get "feedback").bind Json.asArray).bind fun items =>
    (items.zipIdx.find? fun item => !planItemIsSkipped plan (feedbackItemId item.2)).map Prod.fst

/-- The feedback on which the holder of the lease works. -/
def LeasedJob.feedback (lease : LeasedJob) : Option FeedbackRecord :=
  (unskippedFeedback lease.plan).bind feedbackFromValue

/-! ### Reconciliations -/

/-- What a reconciliation read, and how far it came with the records. -/
structure FeedbackReconciliation where
  key : PullRequestKey
  unread : List FeedbackRecord
  overlaid : List FeedbackRecord
  saved : List FeedbackRecord
  deriving DecidableEq, Repr

/-- A record whose item is marked counts as resolved. -/
def overlayFeedback (tables : Tables) (record : FeedbackRecord) : FeedbackRecord :=
  if feedbackResolutionEligible record.id tables then { record with resolved := true } else record

/-- The unresolved records of configured actors. -/
def automationFeedback (policy : Reconcile.Policy) (records : List FeedbackRecord) :
    List FeedbackRecord :=
  records.filter fun record =>
    !record.resolved && policy.isConfiguredAutomationActor record.actorLogin

def feedbackPlan (policyRevision : String) (records : List FeedbackRecord) : Json :=
  sortedObject [("source", .string "reconcile"), ("feedback", .array (records.map feedbackValue)),
    ("policy_revision", .string policyRevision)]

def FeedbackReconciliation.spec (reconciliation : FeedbackReconciliation) (policy : Reconcile.Policy)
    (policyRevision : String) : JobSpec :=
  ⟨reconciliation.key.1, reconciliation.key.2, .feedbackRepair,
    feedbackPlan policyRevision (automationFeedback policy reconciliation.saved)⟩

/-! ### Repairs -/

/-- How the suggestion ended. -/
inductive Disposition
  | applied
  | rejected
  deriving DecidableEq, Repr

/-- How far an attempt came with its feedback. -/
inductive RepairStage
  | leased
  | picked
  | pushing
  | decided (disposition : Disposition)
  | replying (disposition : Disposition)
  | replied (disposition : Disposition)
  | settling (disposition : Disposition)
  | marked
  deriving DecidableEq, Repr

/-- One lease of a feedback repair. -/
structure RepairAttempt where
  workerId : String
  lease : LeasedJob
  stage : RepairStage
  stopped : Bool
  deriving Repr

def RepairAttempt.at (attempt : RepairAttempt) (stage : RepairStage) : RepairAttempt :=
  { attempt with stage }

def RepairAttempt.stop (attempt : RepairAttempt) : RepairAttempt := { attempt with stopped := true }

/-- The id of the feedback that the attempt replies to and marks. -/
def RepairAttempt.feedbackId (attempt : RepairAttempt) : Option String :=
  attempt.lease.feedback.map fun record => record.id

def RepairAttempt.assertOp (attempt : RepairAttempt) : Op :=
  .assertLease attempt.lease.id attempt.workerId attempt.lease.leaseToken

/-- The work that waits for a lease check. -/
inductive RepairStage.Passes : RepairStage → RepairStage → Prop
  | pick : Passes .leased .picked
  | push : Passes .picked .pushing
  | reply (disposition : Disposition) : Passes (.decided disposition) (.replying disposition)
  | settle (disposition : Disposition) : Passes (.replied disposition) (.settling disposition)

/-- The mark is the last call of the repair, and no lease check stands in its statement. -/
def markFeedback (disposition : Disposition) (feedbackId : String) (now : Timestamp) :
    FeedbackCall :=
  match disposition with
  | .applied => .markFeedbackResolved feedbackId now
  | .rejected => .markFeedbackRejected feedbackId

/-- A granted lease of a feedback repair starts an attempt. -/
def Event.repairs : Event → List RepairAttempt
  | (.leaseNext workerId _, .leased (some lease)) =>
      if lease.kind = .feedbackRepair then [⟨workerId, lease, .leased, false⟩] else []
  | _ => []

/-! ### The system -/

structure RepairSystem where
  db : Database
  /-- The tables beside the queue. -/
  tables : Tables
  reconciliations : List FeedbackReconciliation
  attempts : List RepairAttempt

inductive RepairAction
  | call (event : Event)
  | write (call : FeedbackCall)
  | read (reconciliation : FeedbackReconciliation)
  | overlay (reconciliation : FeedbackReconciliation)
  | save (reconciliation : FeedbackReconciliation)
  | enqueue (reconciliation : FeedbackReconciliation) (event : Event)
  | check (attempt : RepairAttempt)
  | push (attempt : RepairAttempt)
  | decline (attempt : RepairAttempt)
  | reply (attempt : RepairAttempt)
  | mark (attempt : RepairAttempt) (recorded : Bool)
  | stop (attempt : RepairAttempt)

/-- The calls that leave the planned feedback alone. Only reconciliations plan feedback. -/
def Op.keepsFeedback : Op → Prop
  | .enqueue spec _ => spec.plan.get "feedback" = none
  | .markWaitingApproval _ _ _ details => KeepsItems details
  | _ => True

section Steps

variable (home : String → PullRequestKey)

/-- Every step is one transaction, one request or one computation. -/
inductive RepairSystem.Step (system : RepairSystem) : RepairAction → RepairSystem → Prop
  -- A lease draws its token from `Uuid::now_v7`.
  | call {after : Database} (event : Event) (keeps : event.1.keepsFeedback)
      (called : system.db.Step event after)
      (fresh : ∀ lease, event.2 = .leased (some lease) → ∀ attempt ∈ system.attempts,
        attempt.lease.leaseToken ≠ lease.leaseToken) :
      system.Step (.call event)
        { system with db := after, attempts := system.attempts ++ event.repairs }
  -- Deliveries and the other reconciliations write feedback without a mark.
  | write (call : FeedbackCall) (unmarked : call.marked = none) :
      system.Step (.write call) { system with tables := call.perform system.tables }
  -- GitHub lists a comment under its own pull request only.
  | read (reconciliation : FeedbackReconciliation) (overlaid : reconciliation.overlaid = [])
      (saved : reconciliation.saved = [])
      (own : ∀ record ∈ reconciliation.unread, home record.id = reconciliation.key) :
      system.Step (.read reconciliation)
        { system with reconciliations := system.reconciliations ++ [reconciliation] }
  | overlay {reconciliations : List FeedbackReconciliation} (reconciliation : FeedbackReconciliation)
      (record : FeedbackRecord) (unread : List FeedbackRecord)
      (first : reconciliation.unread = record :: unread)
      (next : Replaces system.reconciliations reconciliation
        [{ reconciliation with
            unread, overlaid := reconciliation.overlaid ++ [overlayFeedback system.tables record] }]
        reconciliations) :
      system.Step (.overlay reconciliation) { system with reconciliations }
  | save {tables : Tables} {reconciliations : List FeedbackReconciliation}
      (reconciliation : FeedbackReconciliation) (record : FeedbackRecord) (overlaid : List FeedbackRecord)
      (read : reconciliation.unread = []) (first : reconciliation.overlaid = record :: overlaid)
      (stored : upsertFeedback reconciliation.key.1 reconciliation.key.2 record system.tables =
        .ok tables)
      (next : Replaces system.reconciliations reconciliation
        [{ reconciliation with overlaid, saved := reconciliation.saved ++ [record] }]
        reconciliations) :
      system.Step (.save reconciliation) { system with tables, reconciliations }
  | enqueue {after : Database} {reply : Reply} {reconciliations : List FeedbackReconciliation}
      (reconciliation : FeedbackReconciliation) (policy : Reconcile.Policy) (policyRevision : String)
      (proposedId : Uuid) (read : reconciliation.unread = [])
      (overlaid : reconciliation.overlaid = [])
      (some_ : automationFeedback policy reconciliation.saved ≠ [])
      (called : system.db.Step
        (.enqueue (reconciliation.spec policy policyRevision) proposedId, reply) after)
      (next : Replaces system.reconciliations reconciliation [] reconciliations) :
      system.Step (.enqueue reconciliation
          (.enqueue (reconciliation.spec policy policyRevision) proposedId, reply))
        { system with db := after, reconciliations }
  | check {after : Database} {attempts : List RepairAttempt} (attempt : RepairAttempt)
      (stage : RepairStage) (running : attempt.stopped = false)
      (readable : attempt.feedbackId ≠ none) (passes : attempt.stage.Passes stage)
      (called : system.db.Step (attempt.assertOp, .changed true) after)
      (next : Replaces system.attempts attempt [attempt.at stage] attempts) :
      system.Step (.check attempt) { system with db := after, attempts }
  | push {attempts : List RepairAttempt} (attempt : RepairAttempt)
      (running : attempt.stopped = false) (stage : attempt.stage = .pushing)
      (next : Replaces system.attempts attempt [attempt.at (.decided .applied)] attempts) :
      system.Step (.push attempt) { system with attempts }
  -- The suggestion or its validation fails before anything is pushed.
  | decline {attempts : List RepairAttempt} (attempt : RepairAttempt)
      (running : attempt.stopped = false) (stage : attempt.stage = .picked)
      (next : Replaces system.attempts attempt [attempt.at (.decided .rejected)] attempts) :
      system.Step (.decline attempt) { system with attempts }
  | reply {attempts : List RepairAttempt} (attempt : RepairAttempt) (disposition : Disposition)
      (running : attempt.stopped = false) (stage : attempt.stage = .replying disposition)
      (next : Replaces system.attempts attempt [attempt.at (.replied disposition)] attempts) :
      system.Step (.reply attempt) { system with attempts }
  | mark {attempts : List RepairAttempt} (attempt : RepairAttempt) (disposition : Disposition)
      (feedbackId : String) (running : attempt.stopped = false)
      (stage : attempt.stage = .settling disposition) (named : attempt.feedbackId = some feedbackId)
      (next : Replaces system.attempts attempt [attempt.at .marked] attempts) :
      system.Step (.mark attempt (system.tables.feedbackItem feedbackId).isSome)
        { system with
          tables := (markFeedback disposition feedbackId system.db.now).perform system.tables
          attempts }
  | stop {attempts : List RepairAttempt} (attempt : RepairAttempt)
      (next : Replaces system.attempts attempt [attempt.stop] attempts) :
      system.Step (.stop attempt) { system with attempts }

end Steps

/-- The system starts without jobs, feedback, reconciliations and attempts. -/
structure RepairSystem.Initial (system : RepairSystem) : Prop where
  jobs : system.db.jobs = []
  feedbackItems : system.tables.feedbackItems = []
  reconciliations : system.reconciliations = []
  attempts : system.attempts = []

end PiTools
