import PiTools.Library.Turns
import PiTools.Worker.Coordinator

/-
This file defines the system that the attempts at the jobs form with the queue and
with the notifications that they create on GitHub.
-/

namespace PiTools

open Library

/-! ### Attempts -/

/-- What a job creates on GitHub to tell about its work. -/
inductive Notification
  | workPlanCheckRun
  | workPlanComment
  | finalSummary
  deriving DecidableEq, Repr

/-- How far an attempt came with `start`, with the work and with `finish`. -/
inductive AttemptStage
  | leased
  | starting (items : List PlanItem)
  | missing (items : List PlanItem)
  | opened (items : List PlanItem) (checkRunId : Int) (checkRunUrl : Option String)
  | commented (items : List PlanItem) (handle : WorkHandle)
  | linked (handle : WorkHandle)
  | found (items : List PlanItem) (handle : WorkHandle)
  | updating (handle : WorkHandle)
  | saving (handle : WorkHandle)
  | working (handle : Option WorkHandle)
  | waiting (handle : WorkHandle)
  | displayed (handle : WorkHandle)
  | parking
  | finishing (handle : WorkHandle)
  | summarized (handle : WorkHandle) (commentId : Int)
  | recorded (handle : WorkHandle)
  | closing (handle : Option WorkHandle)
  deriving Repr

/-- One lease of a job. An attempt that stops leaves its stage behind. -/
structure JobAttempt where
  workerId : String
  lease : LeasedJob
  stage : AttemptStage
  stopped : Bool
  deriving Repr

def JobAttempt.at (attempt : JobAttempt) (stage : AttemptStage) : JobAttempt := { attempt with stage }

def JobAttempt.stop (attempt : JobAttempt) : JobAttempt := { attempt with stopped := true }

def JobAttempt.assertOp (attempt : JobAttempt) : Op :=
  .assertLease attempt.lease.id attempt.workerId attempt.lease.leaseToken

def JobAttempt.linkOp (attempt : JobAttempt) (items : List PlanItem) (handle : WorkHandle) : Op :=
  .linkJobCheckRun attempt.lease.id handle.checkRunId handle.checkRunUrl (currentItemId items)

/-- The work behind a lease check. -/
inductive JobAttempt.Passes (attempt : JobAttempt) : AttemptStage → Prop
  | reconcile (kind : attempt.lease.kind = .reconcile) (stage : attempt.stage = .leased) :
      attempt.Passes (.working none)
  | start (items : List PlanItem) (kind : attempt.lease.kind ≠ .reconcile)
      (stage : attempt.stage = .leased)
      (planned : planItemsForJob attempt.lease .inProgress = .ok items) :
      attempt.Passes (.starting items)
  | wait (handle : WorkHandle) (stage : attempt.stage = .working (some handle)) :
      attempt.Passes (.waiting handle)
  | finish (handle : WorkHandle) (stage : attempt.stage = .working (some handle)) :
      attempt.Passes (.finishing handle)
  | close (stage : attempt.stage = .working none) : attempt.Passes (.closing none)

/-- The stage after the search for an existing handle. -/
def lookedStage (items : List PlanItem) : Option WorkHandle → AttemptStage
  | some handle => .found items handle
  | none => .missing items

/-- The stages that write the check run into the row of the job. -/
inductive AttemptStage.Links : AttemptStage → List PlanItem → WorkHandle → AttemptStage → Prop
  | new (items : List PlanItem) (handle : WorkHandle) :
      Links (.commented items handle) items handle (.linked handle)
  | existing (items : List PlanItem) (handle : WorkHandle) :
      Links (.found items handle) items handle (.updating handle)

/-- The requests that only change what is on GitHub already. -/
inductive AttemptStage.Updates : AttemptStage → AttemptStage → Prop
  | progress (handle : WorkHandle) : Updates (.updating handle) (.saving handle)
  | approval (handle : WorkHandle) : Updates (.waiting handle) (.displayed handle)
  | checkRun (handle : WorkHandle) : Updates (.recorded handle) (.closing (some handle))

/-- The stages that write the living comment of the job into its row. -/
inductive AttemptStage.Saves : AttemptStage → WorkHandle → AttemptStage → Prop
  | new (handle : WorkHandle) : Saves (.linked handle) handle (.working (some handle))
  | existing (handle : WorkHandle) : Saves (.saving handle) handle (.working (some handle))
  | approval (handle : WorkHandle) : Saves (.displayed handle) handle .parking

/-- The completions that an attempt may ask for. An error ends an attempt at any stage. -/
inductive JobAttempt.MayComplete (attempt : JobAttempt) : Op → Prop
  | succeeded (result : Json) (handle : Option WorkHandle) (stage : attempt.stage = .closing handle) :
      attempt.MayComplete (.markSucceeded attempt.lease.id attempt.workerId
        attempt.lease.leaseToken result)
  | failed (result : Json) :
      attempt.MayComplete (.markFailed attempt.lease.id attempt.workerId
        attempt.lease.leaseToken result)
  | waiting (details : Json) (stage : attempt.stage = .parking) :
      attempt.MayComplete (.markWaitingApproval attempt.lease.id attempt.workerId
        attempt.lease.leaseToken details)

/-- A granted lease starts an attempt. -/
def Event.attempts : Event → List JobAttempt
  | (.leaseNext workerId _, .leased (some lease)) => [⟨workerId, lease, .leased, false⟩]
  | _ => []

/-! ### The system -/

structure NotifySystem where
  db : Database
  /-- The GitHub comment in the row of kind `work_plan` of a job. -/
  comments : Uuid → Option Int
  /-- The GitHub comment in the row of kind `final_summary` of a job. -/
  finals : Uuid → Option Int
  attempts : List JobAttempt
  /-- What the jobs have created on GitHub. -/
  github : List (Uuid × Notification)

inductive NotifyAction
  | call (event : Event)
  | renew (attempt : JobAttempt) (event : Event)
  | check (attempt : JobAttempt)
  | look (attempt : JobAttempt)
  | create (attempt : JobAttempt) (notification : Notification)
  | link (attempt : JobAttempt)
  | update (attempt : JobAttempt)
  | saveComment (attempt : JobAttempt)
  | insertFinal (attempt : JobAttempt)
  | complete (attempt : JobAttempt) (event : Event)
  | stop (attempt : JobAttempt)

/-- A final comment that is stored already stays. -/
def insertFinalComment (finals : Uuid → Option Int) (jobId : Uuid) (commentId : Int) :
    Uuid → Option Int :=
  Function.update finals jobId ((finals jobId).or (some commentId))

/-- The request of a stage that creates a notification, and the stage after it. -/
inductive JobAttempt.Creates (parseUrl : String → Option Url) (attempt : JobAttempt) :
    Notification → AttemptStage → Prop
  | checkRun (items : List PlanItem) (checkRunId : Int) (checkRunUrl : Option String)
      (stage : attempt.stage = .missing items) :
      attempt.Creates parseUrl .workPlanCheckRun (.opened items checkRunId checkRunUrl)
  | comment (items : List PlanItem) (checkRunId commentId : Int) (checkRunUrl : String)
      (comment : WorkPlanComment) (stage : attempt.stage = .opened items checkRunId (some checkRunUrl))
      (built : WorkPlanComment.new parseUrl checkRunUrl items = .ok comment) :
      attempt.Creates parseUrl .workPlanComment (.commented items ⟨checkRunId, checkRunUrl, commentId⟩)
  | summary (handle : WorkHandle) (commentId : Int) (stage : attempt.stage = .finishing handle) :
      attempt.Creates parseUrl .finalSummary (.summarized handle commentId)

section Steps

variable (parseUrl : String → Option Url)

/-- Every step is one transaction, one request or one computation of one attempt. -/
inductive NotifySystem.Step (system : NotifySystem) : NotifyAction → NotifySystem → Prop
  -- A lease draws its token from `Uuid::now_v7`.
  | call {after : Database} (event : Event) (outside : event.1.Outside)
      (called : system.db.Step event after)
      (fresh : ∀ started ∈ event.attempts, ∀ attempt ∈ system.attempts,
        attempt.lease.leaseToken ≠ started.lease.leaseToken) :
      system.Step (.call event)
        { system with db := after, attempts := system.attempts ++ event.attempts }
  | renew {after : Database} {reply : Reply} (attempt : JobAttempt)
      (inside : attempt ∈ system.attempts) (running : attempt.stopped = false)
      (called : system.db.Step (.renewLease attempt.lease.id attempt.workerId
        attempt.lease.leaseToken, reply) after) :
      system.Step (.renew attempt (.renewLease attempt.lease.id attempt.workerId
        attempt.lease.leaseToken, reply)) { system with db := after }
  | check {after : Database} {attempts : List JobAttempt} (attempt : JobAttempt) (stage : AttemptStage)
      (running : attempt.stopped = false) (passes : attempt.Passes stage)
      (called : system.db.Step (attempt.assertOp, .changed true) after)
      (next : Replaces system.attempts attempt [attempt.at stage] attempts) :
      system.Step (.check attempt) { system with db := after, attempts }
  | look {attempts : List JobAttempt} (attempt : JobAttempt) (items : List PlanItem)
      (running : attempt.stopped = false) (stage : attempt.stage = .starting items)
      (next : Replaces system.attempts attempt [attempt.at (lookedStage items
        (existingWorkHandle system.db system.comments attempt.lease.id))] attempts) :
      system.Step (.look attempt) { system with attempts }
  | create {attempts : List JobAttempt} (attempt : JobAttempt) (notification : Notification)
      (stage : AttemptStage) (running : attempt.stopped = false)
      (creates : attempt.Creates parseUrl notification stage)
      (next : Replaces system.attempts attempt [attempt.at stage] attempts) :
      system.Step (.create attempt notification)
        { system with attempts, github := system.github ++ [(attempt.lease.id, notification)] }
  | link {after : Database} {attempts : List JobAttempt} (attempt : JobAttempt) (items : List PlanItem)
      (handle : WorkHandle) (stage : AttemptStage) (running : attempt.stopped = false)
      (links : attempt.stage.Links items handle stage)
      (called : system.db.Step (attempt.linkOp items handle, .done) after)
      (next : Replaces system.attempts attempt [attempt.at stage] attempts) :
      system.Step (.link attempt) { system with db := after, attempts }
  | update {attempts : List JobAttempt} (attempt : JobAttempt) (stage : AttemptStage)
      (running : attempt.stopped = false) (updates : attempt.stage.Updates stage)
      (next : Replaces system.attempts attempt [attempt.at stage] attempts) :
      system.Step (.update attempt) { system with attempts }
  | saveComment {attempts : List JobAttempt} (attempt : JobAttempt) (handle : WorkHandle)
      (stage : AttemptStage) (running : attempt.stopped = false)
      (saves : attempt.stage.Saves handle stage)
      (next : Replaces system.attempts attempt [attempt.at stage] attempts) :
      system.Step (.saveComment attempt)
        { system with
          comments := Function.update system.comments attempt.lease.id (some handle.commentId)
          attempts }
  | insertFinal {attempts : List JobAttempt} (attempt : JobAttempt) (handle : WorkHandle)
      (commentId : Int) (running : attempt.stopped = false)
      (stage : attempt.stage = .summarized handle commentId)
      (next : Replaces system.attempts attempt [attempt.at (.recorded handle)] attempts) :
      system.Step (.insertFinal attempt)
        { system with
          finals := insertFinalComment system.finals attempt.lease.id commentId, attempts }
  | complete {after : Database} {attempts : List JobAttempt} (attempt : JobAttempt) (event : Event)
      (running : attempt.stopped = false) (may : attempt.MayComplete event.1)
      (called : system.db.Step event after)
      (next : Replaces system.attempts attempt [attempt.stop] attempts) :
      system.Step (.complete attempt event) { system with db := after, attempts }
  -- A crash, an error that nobody reports, and a lost lease end an attempt alike.
  | stop {attempts : List JobAttempt} (attempt : JobAttempt)
      (next : Replaces system.attempts attempt [attempt.stop] attempts) :
      system.Step (.stop attempt) { system with attempts }

end Steps

/-- The system starts without jobs, without attempts and without notifications. -/
structure NotifySystem.Initial (system : NotifySystem) : Prop where
  jobs : system.db.jobs = []
  attempts : system.attempts = []
  github : system.github = []

end PiTools
