import PiTools.Queue.Effects
import PiTools.Worker.CiRepair

/-
This file composes the waiting branch of the worker with the queue and the
approval check.
-/

namespace PiTools

open Library

/-! ### Waiting outcomes -/

def waitingForApproval (summary blocker : String) : Json :=
  sortedObject [("completed", .bool false),
    ("waiting_approval", .bool true),
    ("approval_details", sortedObject [("summary", .string summary), ("blocker", .string blocker)]),
    ("changes", stringsValue [summary]),
    ("tests", .array []),
    ("remaining_blockers", stringsValue [blocker]),
    ("requires_approval", .bool true)]

def feedbackWaitingResult : Json :=
  waitingForApproval "automation feedback repair is ready for review"
    "approve the plan to apply the deterministic suggestion"

def stackWaitingResult : Json :=
  waitingForApproval "a deterministic stack update is ready for review"
    "approve the plan to apply safe base updates"

/-- The results with which a job can ask for approval. -/
inductive WaitingOutcome : Json → Prop
  | feedbackRepair : WaitingOutcome feedbackWaitingResult
  | stackRebase : WaitingOutcome stackWaitingResult
  | ciRepair (result : PiJobResult) : WaitingOutcome (ciWaitingResult result)

/-- Only the waiting results of a CI repair ask for approval. -/
theorem ciRepair_waiting {sha256Hex : List Char → String} {fromValue : Json → Option PiJobResult}
    {context : CiRepairContext} {answers : CiAnswers} {jobId : Uuid} {plan result : Json}
    {reply : PiReply}
    (finished : ciRepair sha256Hex fromValue context answers jobId plan reply = .ok (.finished result))
    (waiting : result.get "waiting_approval" = some (.bool true)) : WaitingOutcome result := by
  have known : ∀ diagnosis, repairWith sha256Hex context answers plan diagnosis =
      .ok (.finished result) → WaitingOutcome result := by
    intro diagnosis ended
    simp only [repairWith] at ended
    split at ended
    · cases ended
      rw [noPatchResult, get_sortedObject] at waiting
      simp [PiJobResult.summaryFields, getField] at waiting
    · split at ended
      · cases ended
      · cases ended
      · cases ended
        exact .ciRepair diagnosis
      · split at ended <;> cases ended
  simp only [ciRepair] at finished
  split at finished
  · split at finished
    · cases finished
    · exact known _ finished
  · split at finished
    · cases finished
    · exact known _ finished

def rawDetails (outcome : Json) : Json := (outcome.get "approval_details").getD (.object [])

/-- The details that the waiting branch of `execute_job` stores with the job. -/
def waitingDetails (sha256Hex : List Char → String) (plan outcome : Json) : Json :=
  bindApprovalDetails sha256Hex plan (rawDetails outcome)

/-- No waiting outcome brings details under the key that the approval reads. -/
theorem WaitingOutcome.detailFields {outcome : Json} (waiting : WaitingOutcome outcome) :
    getField "approval_details" (detailFields (rawDetails outcome)) = none := by
  cases waiting with
  | feedbackRepair | stackRebase => decide
  | ciRepair result =>
      rw [rawDetails, ciWaitingResult, get_sortedObject]
      simp [PiJobResult.summaryFields, getField, PiTools.detailFields]

theorem waitingDetails_get (sha256Hex : List Char → String) (plan : Json) {outcome : Json}
    (waiting : WaitingOutcome outcome) :
    (waitingDetails sha256Hex plan outcome).get "approval_details" = none := by
  rw [waitingDetails, bindApprovalDetails, Json.get_object, getField_insertField_of_ne (by decide)]
  exact waiting.detailFields

/-! ### The round trip -/

/-- A plan after any number of skips. -/
inductive SkippedTo (plan : Json) : Json → Prop
  | refl : SkippedTo plan plan
  | skip {plan' : Json} (job : Job) (earlier : SkippedTo plan job.plan)
      (set : job.skippedPlan = .ok plan') : SkippedTo plan plan'

/-- The approval of the waiting job succeeds and lasts through every skip. -/
def ApprovalRoundTrip (sha256Hex : List Char → String) (waiting : Database) (jobId : Uuid) : Prop :=
  ∃ approved, waiting.Step (.approvePlan jobId, .changed true) approved ∧
    ∀ job ∈ approved.jobs, job.id = jobId → ∀ plan, SkippedTo job.plan plan →
      planIsApproved sha256Hex plan = true

/-- A plan without details stays without them when the worker waits. -/
theorem wait_not_approvable {plan details : Json} (missing : plan.get "approval_details" = none)
    (absent : details.get "approval_details" = none) : approvable (plan.concat details) = false := by
  have none_ : (plan.concat details).get "approval_details" = none := by
    by_contra other
    obtain ⟨inner, known⟩ := Option.ne_none_iff_exists'.mp other
    rcases Json.get_concat_of_get known with found | ⟨_, found⟩
    · rw [absent] at found
      cases found
    · rw [missing] at found
      cases found
  simp [approvable, none_]

def parkedPlan : Json := .object [("source", .string "reconcile")]

/-- The digest agrees with SHA-256 on the payload of the waiting feedback repair. -/
def parkedDigest (text : List Char) : String :=
  if text = (approvalPayload parkedPlan (rawDetails feedbackWaitingResult)).text then
    "e81dd527110c1f08e344119c06d09f9c7b2cfd75c0a9e45bfa651049318c2d5f"
  else ""

/-- A worker leases a feedback repair. -/
def leaseRepair : List Op :=
  [.upsertRepository 1 1, .enqueue ⟨1, 7, .feedbackRepair, parkedPlan⟩ 5, .leaseNext "worker" 10]

/-- The worker parks the repair with its waiting result. -/
def parkRepair : Op :=
  .markWaitingApproval 5 "worker" 10 (waitingDetails parkedDigest parkedPlan feedbackWaitingResult)

end PiTools
