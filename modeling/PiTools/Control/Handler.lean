import PiTools.Control.Delivery

/-
This file defines the statements with which `process_check_run_control` handles
a delivery, and interleaves any number of handlers with the rest of the system.
-/

namespace PiTools

open Library

/-! ### Statements -/

/-- One row of `job_controls`. -/
structure ControlRow where
  jobId : Uuid
  requestId : String
  action : String
  actorLogin : String
  targetItemId : Option String
  decision : String
  deriving DecidableEq, Repr

def ControlRow.key (row : ControlRow) : Uuid × String := (row.jobId, row.requestId)

/-- The insertion does nothing when the job already has a row for the request. -/
def recordJobControl (controls : List ControlRow) (row : ControlRow) : List ControlRow × Bool :=
  if controls.any fun other => other.key = row.key then (controls, false)
  else (controls ++ [row], true)

theorem recordJobControl_subset {controls : List ControlRow} {row other : ControlRow}
    (member : other ∈ controls) : other ∈ (recordJobControl controls row).1 := by
  unfold recordJobControl
  split
  · exact member
  · exact List.mem_append_left _ member

/-- A new row has a new key. -/
theorem recordJobControl_inserted {controls : List ControlRow} {row : ControlRow}
    (inserted : (recordJobControl controls row).2 = true) :
    (∀ other ∈ controls, other.key ≠ row.key) ∧ row ∈ (recordJobControl controls row).1 := by
  unfold recordJobControl at inserted ⊢
  split
  · rename_i taken
    rw [if_pos taken] at inserted
    cases inserted
  · rename_i vacant
    exact ⟨by simpa using vacant, List.mem_append_right _ (.head _)⟩

/-- A request that is recorded already changes nothing. -/
theorem recordJobControl_taken {controls : List ControlRow} {row other : ControlRow}
    (member : other ∈ controls) (same : other.key = row.key) :
    recordJobControl controls row = (controls, false) :=
  if_pos (List.any_eq_true.mpr ⟨other, member, decide_eq_true same⟩)

theorem recordJobControl_vacant {controls : List ControlRow} {row : ControlRow}
    (vacant : ∀ other ∈ controls, other.key ≠ row.key) :
    recordJobControl controls row = (controls ++ [row], true) :=
  if_neg (by simpa using vacant)

structure AuditEntry where
  repositoryId : Option Int
  pullRequestNumber : Option Int
  jobId : Option Uuid
  actorLogin : Option String
  eventType : String
  summary : String
  evidence : Json
  deriving Repr

/-! ### Handlers -/

/-- How far `process_check_run_control` came. -/
inductive ControlPhase
  | received
  | recording (control : CheckRunControl) (context : ControlContext) (decision : ControlDecision)
  | applying (control : CheckRunControl) (context : ControlContext) (action : ControlAction)
  | auditing (control : CheckRunControl) (context : ControlContext) (action : ControlAction)
      (changed : Bool)
  | finished (result : Except WorkflowError ControlDisposition)

/-- One delivery in the hands of the program. The number tells its deliveries apart. -/
structure ControlHandler where
  number : Nat
  delivery : WebhookEnvelope
  phase : ControlPhase

def ControlHandler.at (handler : ControlHandler) (phase : ControlPhase) : ControlHandler :=
  { handler with phase }

/-- The context that the delivery finds. -/
def WebhookEnvelope.storedContext (delivery : WebhookEnvelope) (db : Database)
    (registry : Registry) : Option ControlContext :=
  match delivery.checkRunControl with
  | .ok (some control) => controlContext db registry control.checkRunId
  | _ => none

/-- The phase after the delivery was read and its context was looked up. -/
def lookedPhase (fromYaml : String → Except String (List String)) (delivery : WebhookEnvelope)
    (context : Option ControlContext) : ControlPhase :=
  match delivery.checkRunControl with
  | .error reason => .finished (.error (.event reason))
  | .ok none => .finished (.ok .notAControlEvent)
  | .ok (some control) =>
      match context with
      | none => .finished (.ok .unknownCheckRun)
      | some context =>
          match decideControl fromYaml delivery control context with
          | .error reason => .finished (.error reason)
          | .ok decision => .recording control context decision

/-- The row that a decision records. -/
def controlRow (delivery : WebhookEnvelope) (control : CheckRunControl) (context : ControlContext)
    (decision : ControlDecision) : ControlRow where
  jobId := context.jobId
  requestId := delivery.deliveryId
  action := control.action
  actorLogin := control.actorLogin
  targetItemId := none
  decision := decision.text

/-- Only an accepted control asks whether its row is new. -/
def recordedPhase (control : CheckRunControl) (context : ControlContext)
    (decision : ControlDecision) (inserted : Bool) : ControlPhase :=
  match decision with
  | .rejectedContext => .finished (.ok .rejectedContext)
  | .rejectedUnknown => .finished (.ok .rejectedUnknown)
  | .rejectedUnauthorized => .finished (.ok .rejectedUnauthorized)
  | .accepted action =>
      if inserted then .applying control context action else .finished (.ok .duplicate)

def auditEntry (control : CheckRunControl) (context : ControlContext) (action : ControlAction)
    (changed : Bool) : AuditEntry where
  repositoryId := some context.repositoryId
  pullRequestNumber := some context.pullRequestNumber
  jobId := some context.jobId
  actorLogin := some control.actorLogin
  eventType := "job_control"
  summary := action.summary
  evidence := .object [("changed", .bool changed)]

/-! ### The system -/

structure ControlSystem where
  db : Database
  registry : Registry
  controls : List ControlRow
  audits : List AuditEntry
  handlers : List ControlHandler
  /-- The number of the next delivery. -/
  arrivals : Nat

inductive HandlerAction
  | receive (delivery : WebhookEnvelope)
  | look (handler : ControlHandler) (context : Option ControlContext)
  | record (handler : ControlHandler) (inserted : Bool)
  | apply (handler : ControlHandler) (event : Event)
  | audit (handler : ControlHandler)
  | abort (handler : ControlHandler)
  | call (event : Event)
  | register (registry : Registry)

/-- The handler that acts. -/
def HandlerAction.handler : HandlerAction → Option ControlHandler
  | .look handler _ | .record handler _ | .apply handler _ | .audit handler | .abort handler =>
      some handler
  | .receive _ | .call _ | .register _ => none

/-- The call on the queue that an action makes. -/
def HandlerAction.event : HandlerAction → Option Event
  | .apply _ event | .call event => some event
  | _ => none

section Steps

variable (fromYaml : String → Except String (List String))

/-- The next statement of any handler runs, beside any call and any change of the registry. -/
inductive ControlSystem.Step (system : ControlSystem) : HandlerAction → ControlSystem → Prop
  | receive (delivery : WebhookEnvelope) :
      system.Step (.receive delivery)
        { system with
          handlers := system.handlers ++ [⟨system.arrivals, delivery, .received⟩]
          arrivals := system.arrivals + 1 }
  | look {handlers : List ControlHandler} (handler : ControlHandler)
      (phase : handler.phase = .received)
      (next : Replaces system.handlers handler [handler.at (lookedPhase fromYaml handler.delivery
        (handler.delivery.storedContext system.db system.registry))] handlers) :
      system.Step
        (.look handler (handler.delivery.storedContext system.db system.registry))
        { system with handlers }
  | record {handlers : List ControlHandler} (handler : ControlHandler) (control : CheckRunControl)
      (context : ControlContext) (decision : ControlDecision)
      (phase : handler.phase = .recording control context decision)
      (next : Replaces system.handlers handler [handler.at (recordedPhase control context decision
        (recordJobControl system.controls
          (controlRow handler.delivery control context decision)).2)] handlers) :
      system.Step
        (.record handler (recordJobControl system.controls
          (controlRow handler.delivery control context decision)).2)
        { system with
          controls := (recordJobControl system.controls
            (controlRow handler.delivery control context decision)).1
          handlers }
  | apply {after : Database} {handlers : List ControlHandler} (handler : ControlHandler)
      (control : CheckRunControl) (context : ControlContext) (action : ControlAction)
      (changed : Bool) (phase : handler.phase = .applying control context action)
      (called : system.db.Step (action.op context.jobId, .changed changed) after)
      (next : Replaces system.handlers handler
        [handler.at (.auditing control context action changed)] handlers) :
      system.Step (.apply handler (action.op context.jobId, .changed changed))
        { system with db := after, handlers }
  | audit {handlers : List ControlHandler} (handler : ControlHandler) (control : CheckRunControl)
      (context : ControlContext) (action : ControlAction) (changed : Bool)
      (phase : handler.phase = .auditing control context action changed)
      (next : Replaces system.handlers handler
        [handler.at (.finished (.ok (if changed then .applied else .runNotActive)))] handlers) :
      system.Step (.audit handler)
        { system with
          audits := system.audits ++ [auditEntry control context action changed], handlers }
  | abort {handlers : List ControlHandler} (handler : ControlHandler)
      (next : Replaces system.handlers handler [] handlers) :
      system.Step (.abort handler) { system with handlers }
  | call {after : Database} (event : Event) (called : system.db.Step event after) :
      system.Step (.call event) { system with db := after }
  -- Deliveries, inventories and operators change authors, policies and suspensions.
  | register (registry : Registry) : system.Step (.register registry) { system with registry }

end Steps

/-- The system starts without jobs and without deliveries. -/
structure ControlSystem.Initial (system : ControlSystem) : Prop where
  jobs : system.db.jobs = []
  handlers : system.handlers = []

section Runs

variable {fromYaml : String → Except String (List String)} {start system next finish : ControlSystem}
  {actions : List HandlerAction}

/-- A step makes its call on the queue or leaves the queue alone. -/
theorem ControlSystem.Step.event {action : HandlerAction} (step : system.Step fromYaml action next) :
    (action.event = none ∧ next.db = system.db) ∨
      ∃ event, action.event = some event ∧ system.db.Step event next.db := by
  cases step with
  | apply _ _ _ _ _ _ called => exact .inr ⟨_, rfl, called⟩
  | call event called => exact .inr ⟨event, rfl, called⟩
  | receive | look | record | audit | abort | register => exact .inl ⟨rfl, rfl⟩

/-- The calls of a run of the system are a run of the queue. -/
theorem run_controlEvents (run : Run (ControlSystem.Step fromYaml) start actions finish) :
    Run Database.Step start.db (actions.filterMap HandlerAction.event) finish.db :=
  run.filterMap ControlSystem.db HandlerAction.event fun _ _ _ _ _ step => step.event

end Runs

end PiTools
