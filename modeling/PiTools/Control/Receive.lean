import PiTools.Control.Handler
import PiTools.Library.Replay

/-
This file defines `receive` from the parsed delivery on. At most one of its
storage calls fails, and the calls before it stay committed.
-/

namespace PiTools

open Library

/-- What the webhook reads and writes, with the time of its calls. -/
structure WebhookStore where
  tables : Tables
  deliveries : DeliveryStore
  controls : List ControlRow
  audits : List AuditEntry

def WebhookStore.database (store : WebhookStore) : Database :=
  store.tables.database store.deliveries.now

def WebhookStore.withJobs (store : WebhookStore) (jobs : List Job) : WebhookStore :=
  { store with tables := { store.tables with jobs } }

def WebhookStore.row (store : WebhookStore) (delivery : WebhookEnvelope) : Option DeliveryRow :=
  store.deliveries.rows delivery.deliveryId

section Receive

variable (packages : Packages) (failing : Option CallSite)

def WebhookEnvelope.recordedHash (delivery : WebhookEnvelope) : String :=
  delivery.payloadHash packages.sha256Hex

/-! ### The delivery -/

def recordDelivery (store : WebhookStore) (delivery : WebhookEnvelope) :
    WebhookStore × Except RepositoryError DeliveryOutcome :=
  if failing = some .insertDelivery then (store, .error (.database .unavailable))
  else match insertDelivery store.deliveries delivery.toDeliveryEnvelope
      (delivery.recordedHash packages) with
    | (deliveries, true) => ({ store with deliveries }, .ok .inserted)
    | (_, false) =>
        if failing = some .selectPayloadHash then (store, .error (.database .unavailable))
        else (store, .ok (existingOutcome store.deliveries delivery.toDeliveryEnvelope
          (delivery.recordedHash packages)))

/-- The transaction after its lock, where the row of the delivery exists. -/
def applyInTransaction (store : WebhookStore) (delivery : WebhookEnvelope) (row : DeliveryRow)
    (outcome : DeliveryOutcome) : WebhookStore × Except RepositoryError DeliveryOutcome :=
  match applyDelivery packages failing store.deliveries.now store.tables delivery with
  | .ok tables =>
      if failing = some .updateProcessedAt ∨ failing = some .commit then
        (store, .error (.database .unavailable))
      else
        ({ store with
            tables
            deliveries :=
              { store.deliveries with
                rows := Function.update store.deliveries.rows delivery.deliveryId
                  (some (row.markProcessed store.deliveries.now none))
                applied := store.deliveries.applied ++ [delivery.toDeliveryEnvelope] } },
          .ok outcome)
  | .error reason =>
      if failing = some .rollback then (store, .error (.database .unavailable))
      -- The answer of the error mark is ignored.
      else if failing = some .markDeliveryProcessed then (store, .error reason)
      else
        ({ store with
            deliveries := markDeliveryProcessed store.deliveries delivery.deliveryId
              (some (reason.text packages)) },
          .error reason)

def processDelivery (store : WebhookStore) (delivery : WebhookEnvelope) :
    WebhookStore × Except RepositoryError DeliveryOutcome :=
  match recordDelivery packages failing store delivery with
  | (store, .error reason) => (store, .error reason)
  | (store, .ok .conflict) => (store, .ok .conflict)
  | (store, .ok outcome) =>
      if failing = some .begin ∨ failing = some .lock ∨ failing = some .selectProcessedAt then
        (store, .error (.database .unavailable))
      else match store.row delivery with
        | none => (store, .error (.database .rowNotFound))
        | some row =>
            match row.processedAt with
            | some _ =>
                if failing = some .commitProcessed then (store, .error (.database .unavailable))
                else (store, .ok outcome)
            | none => applyInTransaction packages failing store delivery row outcome

/-! ### The control -/

/-- The statement with which the queue carries an action out. -/
def controlUpdate (action : ControlAction) (jobId : Uuid) : Update :=
  match action with
  | .approvePlan => approvePlan jobId
  | .skipCurrentItem => skipCurrentItem jobId
  | .cancelRun => requestCancel jobId

def applyControl (store : WebhookStore) (control : CheckRunControl) (context : ControlContext)
    (action : ControlAction) : WebhookStore × Except WorkflowError ControlDisposition :=
  if failing = some .queueUpdate then (store, .error (.queue .unavailable))
  else match (controlUpdate action context.jobId).changed store.database with
    | .error reason => (store, .error (.queue (.jobs reason)))
    | .ok (db, changed) =>
        if failing = some .recordAudit then
          (store.withJobs db.jobs, .error (.repository (.database .unavailable)))
        else
          ({ store.withJobs db.jobs with
              audits := store.audits ++ [auditEntry control context action changed] },
            .ok (if changed then .applied else .runNotActive))

def recordDecision (store : WebhookStore) (delivery : WebhookEnvelope) (control : CheckRunControl)
    (context : ControlContext) (decision : ControlDecision) :
    WebhookStore × Except WorkflowError ControlDisposition :=
  if failing = some .recordJobControl then (store, .error (.repository (.database .unavailable)))
  else match recordJobControl store.controls (controlRow delivery control context decision) with
    | (controls, inserted) =>
        match decision with
        | .rejectedContext => ({ store with controls }, .ok .rejectedContext)
        | .rejectedUnknown => ({ store with controls }, .ok .rejectedUnknown)
        | .rejectedUnauthorized => ({ store with controls }, .ok .rejectedUnauthorized)
        | .accepted action =>
            if inserted then applyControl failing { store with controls } control context action
            else ({ store with controls }, .ok .duplicate)

def processCheckRunControl (store : WebhookStore) (delivery : WebhookEnvelope) :
    WebhookStore × Except WorkflowError ControlDisposition :=
  match delivery.checkRunControl with
  | .error reason => (store, .error (.event reason))
  | .ok none => (store, .ok .notAControlEvent)
  | .ok (some control) =>
      if failing = some .controlContext then
        (store, .error (.repository (.database .unavailable)))
      else match controlContext store.database store.tables.toRegistry control.checkRunId with
        | none => (store, .ok .unknownCheckRun)
        | some context =>
            match decideControl packages.policyFromYaml delivery control context with
            | .error reason => (store, .error reason)
            | .ok decision => recordDecision failing store delivery control context decision

/-! ### The reconciliations -/

inductive WebhookError
  | repository (reason : RepositoryError)
  | event (reason : EventParseError)
  | workflow (reason : WorkflowError)
  | queue (reason : StorageError)
  deriving DecidableEq, Repr

/-- The watched pull requests of an available repository with the head, in the order of their numbers. -/
def Registry.openPullRequestsForHead (registry : Registry) (repositoryId : Int) (headSha : String) :
    List Int :=
  if (registry.repository repositoryId).isSome then
    ((registry.pullRequests.filter fun pullRequest =>
      pullRequest.repositoryId = repositoryId && pullRequest.headSha = headSha &&
        pullRequest.watched).map fun pullRequest => pullRequest.number).insertionSort
      fun left right => left ≤ right
  else []

def reconcileTargets (registry : Registry) (delivery : WebhookEnvelope) :
    Except WebhookError (List (Int × Int)) :=
  match delivery.repositoryId, delivery.pullRequestNumber with
  | some repositoryId, some pullRequestNumber => .ok [(repositoryId, pullRequestNumber)]
  | some repositoryId, none =>
      match delivery.headSha with
      | none => .ok []
      | some headSha =>
          if failing = some .openPullRequestsForHead then
            .error (.repository (.database .unavailable))
          else .ok ((registry.openPullRequestsForHead repositoryId headSha).map fun number =>
            (repositoryId, number))
  | none, _ => .ok []

def WebhookEnvelope.reconcileSpec (delivery : WebhookEnvelope) (target : Int × Int) : JobSpec where
  repositoryId := target.1
  pullRequestNumber := target.2
  kind := .reconcile
  plan := .object [("action", (delivery.action.map Json.string).getD .null),
    ("event", .string delivery.eventName), ("source", .string "webhook")]

/-- The identifier of a new job is drawn apart from those in the table. -/
def enqueueTarget (drawId : List Uuid → Uuid) (delivery : WebhookEnvelope) (index : Nat)
    (target : Int × Int) (db : Database) : Except WebhookError Database :=
  if failing = some (.enqueue index) then .error (.queue .unavailable)
  else match enqueue db (delivery.reconcileSpec target) (drawId (db.jobs.map Job.id)) with
    | .error reason => .error (.queue (.jobs reason))
    | .ok (db, _) => .ok db

def enqueueReconciliations (drawId : List Uuid → Uuid) (store : WebhookStore)
    (delivery : WebhookEnvelope) (outcome : DeliveryOutcome) :
    WebhookStore × Except WebhookError DeliveryOutcome :=
  match reconcileTargets failing store.tables.toRegistry delivery with
  | .error reason => (store, .error reason)
  | .ok targets =>
      match handleAll (enqueueTarget failing drawId delivery) 0 targets store.database with
      | (db, some reason) => (store.withJobs db.jobs, .error reason)
      | (db, none) => (store.withJobs db.jobs, .ok outcome)

/-! ### The webhook -/

/-- What follows a recorded delivery that is no conflict. -/
def followUp (drawId : List Uuid → Uuid) (store : WebhookStore) (delivery : WebhookEnvelope)
    (outcome : DeliveryOutcome) : WebhookStore × Except WebhookError DeliveryOutcome :=
  match delivery.checkRunControl with
  | .error reason => (store, .error (.event reason))
  | .ok control =>
      match processCheckRunControl packages failing store delivery with
      | (store, .error reason) => (store, .error (.workflow reason))
      | (store, .ok _) =>
          if control = none ∧ delivery.isSupported = true then
            enqueueReconciliations failing drawId store delivery outcome
          else (store, .ok outcome)

def receive (drawId : List Uuid → Uuid) (store : WebhookStore) (delivery : WebhookEnvelope) :
    WebhookStore × Except WebhookError DeliveryOutcome :=
  match processDelivery packages failing store delivery with
  | (store, .error reason) => (store, .error (.repository reason))
  | (store, .ok .conflict) => (store, .ok .conflict)
  | (store, .ok outcome) => followUp packages failing drawId store delivery outcome

end Receive

end PiTools
