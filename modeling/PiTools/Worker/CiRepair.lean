import PiTools.Approval.Fingerprint
import PiTools.Worker.Pi

/-
This file defines the execution of a CI repair up to the patches that it hands
to the workspace, and shows when an approved plan alone decides these patches.
-/

namespace PiTools

open Library

inductive WorkerError
  | mutationAdmissionRequired (reason : String)
  | github (reason : String)
  | workspace (reason : String)
  | piUnavailable
  | pi (reason : String)
  | leaseLost
  | planSerialization
  deriving DecidableEq, Repr

/-- The fields of the policy that a CI repair reads. -/
structure Policy where
  repairAllowedPaths : List String
  revision : String
  deriving Repr

structure RepositoryContext where
  owner : String
  name : String
  deriving Repr

structure PullRequestContext where
  repositoryId : Int
  number : Int
  headSha : String
  headBranch : String
  deriving DecidableEq, Repr

structure CiRepairContext where
  repository : RepositoryContext
  pullRequest : PullRequestContext
  policy : Policy
  deriving Repr

def RepositoryContext.fullName (repository : RepositoryContext) : String :=
  repository.owner ++ "/" ++ repository.name

/-- The head of a pull request as GitHub reports it. -/
structure GitHubHead where
  repository : Option String
  sha : String
  reference : Option String
  deriving Repr

/-- What everyone but the Pi worker answers during one execution. -/
structure CiAnswers where
  piWorker : Bool
  evidence : Except WorkerError String
  file : String → Except WorkerError (Option String)
  nonce : String
  head : Except WorkerError GitHubHead
  clone : Except WorkerError Unit
  lease : Except WorkerError Unit

/-! ### Diagnosis -/

/-- The snapshot skips missing files and stops before the first file that does not fit. -/
def snapshotFiles (file : String → Except WorkerError (Option String)) :
    Nat → List String → Except WorkerError (List PiSnapshotFile)
  | _, [] => .ok []
  | bytes, path :: rest =>
      match file path with
      | .error reason => .error reason
      | .ok none => snapshotFiles file bytes rest
      | .ok (some content) =>
          if maxPiSnapshotBytes < bytes + content.utf8ByteSize then .ok []
          else
            match snapshotFiles file (bytes + content.utf8ByteSize) rest with
            | .error reason => .error reason
            | .ok files => .ok (⟨path, content⟩ :: files)

/-- The request that the worker sends for a diagnosis. -/
def diagnosisRequest (context : CiRepairContext) (answers : CiAnswers) (jobId : Uuid) :
    Except WorkerError PiJobRequest :=
  if answers.piWorker = false then .error .piUnavailable
  else
    match answers.evidence with
    | .error reason => .error reason
    | .ok evidence =>
        match snapshotFiles answers.file 0
          (context.policy.repairAllowedPaths.take maxPiSnapshotFiles) with
        | .error reason => .error reason
        | .ok files => .ok
            { protocolVersion := "pitools.pi/v1"
              jobId
              repository := context.repository.fullName
              snapshotPath := "snapshot.json"
              snapshotFiles := files
              allowedPaths := context.policy.repairAllowedPaths
              failureEvidence := some evidence
              policyRevision := context.policy.revision
              nonce := answers.nonce }

def piDiagnosis (context : CiRepairContext) (answers : CiAnswers) (jobId : Uuid)
    (reply : PiReply) : Except WorkerError PiJobResult :=
  match diagnosisRequest context answers jobId with
  | .error reason => .error reason
  | .ok request =>
      match executePi request reply with
      | .error reason => .error (.pi reason.text)
      | .ok result => .ok result

/-! ### Admission -/

inductive CiMutationAdmission
  | noMutation
  | waitingApproval
  | admitted
  deriving DecidableEq, Repr

def admitCiMutation (patchCount : Nat) (requiresApproval planApproved : Bool) :
    Except CiError CiMutationAdmission :=
  if patchCount = 0 then .ok .noMutation
  else if requiresApproval = false then .error .approvalRequired
  else if planApproved = false then .ok .waitingApproval
  else .ok .admitted

/-- The fields that every unfinished result repeats from the diagnosis. -/
def PiJobResult.summaryFields (result : PiJobResult) : Fields :=
  [("diagnosis", .string result.diagnosis),
    ("confidence", .number result.confidence),
    ("proposed_files", stringsValue result.proposedFiles),
    ("validation_commands", stringsValue result.validationCommands),
    ("risks", stringsValue result.risks),
    ("requires_approval", .bool true)]

def noPatchResult (result : PiJobResult) : Json :=
  sortedObject ([("completed", .bool false),
    ("changes", stringsValue ["received a bounded CI diagnosis"]),
    ("tests", .array []),
    ("remaining_blockers",
      stringsValue ["Pi did not return a typed patch; no CI mutation was attempted"])]
    ++ result.summaryFields)

def ciWaitingResult (result : PiJobResult) : Json :=
  sortedObject ([("completed", .bool false),
    ("waiting_approval", .bool true),
    ("approval_details", .object [("pi_result", result.toValue)]),
    ("changes", stringsValue ["received a typed CI repair proposal"]),
    ("tests", .array []),
    ("remaining_blockers",
      stringsValue ["an authorized reviewer must approve the typed patch before it is applied"])]
    ++ result.summaryFields)

/-- The head that GitHub reports now is the head of the loaded context. -/
def headGuard (context : CiRepairContext) (head : GitHubHead) : Except WorkerError Unit :=
  match head.repository with
  | none => .error (.mutationAdmissionRequired
      "pull request head repository identity is unavailable")
  | some repository =>
      if repository ≠ context.repository.fullName then .error (.mutationAdmissionRequired
        "fork pull request repairs are disabled until head-repository write scope is configured")
      else if head.sha ≠ context.pullRequest.headSha ∨
          head.reference ≠ some context.pullRequest.headBranch then
        .error (.mutationAdmissionRequired
          "pull request head changed since the repair plan was created")
      else .ok ()

/-- The steps between the admission and the workspace. -/
def applicationGuard (context : CiRepairContext) (answers : CiAnswers) : Except WorkerError Unit :=
  match answers.head with
  | .error reason => .error reason
  | .ok head =>
      match headGuard context head with
      | .error reason => .error reason
      | .ok () =>
          match answers.clone with
          | .error reason => .error reason
          | .ok () => answers.lease

/-- A repair ends with a result or hands its patches to `apply_ci_repair`. -/
inductive CiOutcome
  | finished (result : Json)
  | applyCiRepair (patches : List CiPatch)
  deriving Repr

/-- The repair after its diagnosis is known. -/
def repairWith (sha256Hex : List Char → String) (context : CiRepairContext) (answers : CiAnswers)
    (plan : Json) (result : PiJobResult) : Except WorkerError CiOutcome :=
  if result.proposedPatches = [] then .ok (.finished (noPatchResult result))
  else
    match admitCiMutation result.proposedPatches.length result.requiresApproval
      (planIsApproved sha256Hex plan) with
    | .error reason => .error (.mutationAdmissionRequired reason.text)
    | .ok .noMutation => .error (.mutationAdmissionRequired
        "CI mutation admission was requested without a typed patch")
    | .ok .waitingApproval => .ok (.finished (ciWaitingResult result))
    | .ok .admitted =>
        match applicationGuard context answers with
        | .error reason => .error reason
        | .ok () => .ok (.applyCiRepair result.proposedPatches)

section Repair

variable (sha256Hex : List Char → String) (fromValue : Json → Option PiJobResult)

def ciRepair (context : CiRepairContext) (answers : CiAnswers) (jobId : Uuid) (plan : Json)
    (reply : PiReply) : Except WorkerError CiOutcome :=
  match plan.get "pi_result" with
  | some value =>
      match fromValue value with
      | none => .error .planSerialization
      | some result => repairWith sha256Hex context answers plan result
  | none =>
      match piDiagnosis context answers jobId reply with
      | .error reason => .error reason
      | .ok result => repairWith sha256Hex context answers plan result

/-- The patches that the execution hands to the workspace. -/
def appliedPatches (context : CiRepairContext) (answers : CiAnswers) (jobId : Uuid) (plan : Json)
    (response : PiJobResult) : Option (List CiPatch) :=
  match ciRepair sha256Hex fromValue context answers jobId plan (.parsed response) with
  | .ok (.applyCiRepair patches) => some patches
  | _ => none

/-- The plan stores the patches in its proposal or in its details. -/
def StoresPatches (plan : Json) (patches : List CiPatch) : Prop :=
  ∃ value result, (plan.get "pi_result" = some value ∨
      ((plan.get "approval_details").bind fun details => details.get "pi_result") = some value) ∧
    fromValue value = some result ∧ result.proposedPatches = patches

/-- No two responses lead to different patches, and the plan stores what is applied. -/
def AppliesApproved (context : CiRepairContext) (answers : CiAnswers) (jobId : Uuid)
    (plan : Json) : Prop :=
  ∀ response response',
    appliedPatches sha256Hex fromValue context answers jobId plan response =
        appliedPatches sha256Hex fromValue context answers jobId plan response' ∧
      ∀ patches, appliedPatches sha256Hex fromValue context answers jobId plan response =
        some patches → StoresPatches fromValue plan patches

end Repair

/-- Some response passes the checks of the request and carries a patch. -/
def PatchAccepted (request : PiJobRequest) : Prop :=
  ∃ response, response.proposedPatches ≠ [] ∧
    executePi request (.parsed response) = .ok response

/-- The run of a plan without a stored result can reach the workspace. -/
def PatchReachable (context : CiRepairContext) (answers : CiAnswers) (jobId : Uuid) : Prop :=
  applicationGuard context answers = .ok () ∧
    ∃ request, diagnosisRequest context answers jobId = .ok request ∧ PatchAccepted request

variable {sha256Hex : List Char → String} {fromValue : Json → Option PiJobResult}
  {context : CiRepairContext} {answers : CiAnswers} {jobId : Uuid} {plan : Json}

theorem executePi_ok {request : PiJobRequest} {response result : PiJobResult}
    (accepted : executePi request (.parsed response) = .ok result) :
    result = response ∧ (response.proposedPatches ≠ [] → response.requiresApproval = true) := by
  simp only [executePi] at accepted
  split at accepted
  · cases accepted
  · split at accepted
    · cases accepted
    · exact validateResult_ok accepted

/-- Patches reach the workspace only past the guard. -/
theorem repairWith_apply {result : PiJobResult} {patches : List CiPatch}
    (applied : repairWith sha256Hex context answers plan result = .ok (.applyCiRepair patches)) :
    result.proposedPatches = patches ∧ patches ≠ [] ∧ applicationGuard context answers = .ok () := by
  simp only [repairWith] at applied
  split at applied
  · cases applied
  · rename_i patched
    split at applied
    · cases applied
    · cases applied
    · cases applied
    · split at applied
      · cases applied
      · rename_i passed
        cases applied
        exact ⟨rfl, patched, passed⟩

/-- Only an approved plan admits patches. -/
theorem admitCiMutation_admitted {patchCount : Nat} {requiresApproval planApproved : Bool}
    (admitted : admitCiMutation patchCount requiresApproval planApproved = .ok .admitted) :
    planApproved = true := by
  unfold admitCiMutation at admitted
  split at admitted
  · cases admitted
  · split at admitted
    · cases admitted
    · split at admitted
      · cases admitted
      · rename_i approved
        simpa using approved

/-- Patches leave the repair only for an approved plan and only past the guard. -/
theorem ciRepair_apply {reply : PiReply} {patches : List CiPatch}
    (applied : ciRepair sha256Hex fromValue context answers jobId plan reply =
      .ok (.applyCiRepair patches)) :
    planIsApproved sha256Hex plan = true ∧ applicationGuard context answers = .ok () := by
  have known : ∀ result, repairWith sha256Hex context answers plan result =
      .ok (.applyCiRepair patches) →
        planIsApproved sha256Hex plan = true ∧ applicationGuard context answers = .ok () := by
    intro result repaired
    refine ⟨?_, (repairWith_apply repaired).2.2⟩
    unfold repairWith at repaired
    split at repaired
    · cases repaired
    · split at repaired
      · cases repaired
      · cases repaired
      · cases repaired
      · rename_i admitted
        exact admitCiMutation_admitted admitted
  unfold ciRepair at applied
  split at applied
  · split at applied
    · cases applied
    · exact known _ applied
  · split at applied
    · cases applied
    · exact known _ applied

/-- The guard passes only when GitHub answers with the loaded head. -/
theorem applicationGuard_head (passed : applicationGuard context answers = .ok ()) :
    ∃ head, answers.head = .ok head ∧ head.sha = context.pullRequest.headSha := by
  unfold applicationGuard at passed
  cases answered : answers.head with
  | error reason =>
      rw [answered] at passed
      cases passed
  | ok head =>
      refine ⟨head, rfl, ?_⟩
      by_contra other
      have refused : headGuard context head ≠ .ok () := by
        unfold headGuard
        split
        · simp
        · split
          · simp
          · simp [other]
      rw [answered] at passed
      dsimp only at passed
      split at passed
      · cases passed
      · rename_i guarded
        exact refused guarded

/-- An approved plan admits every patch that asks for approval. -/
theorem repairWith_admitted (approved : planIsApproved sha256Hex plan = true)
    (passed : applicationGuard context answers = .ok ()) {result : PiJobResult}
    (patched : result.proposedPatches ≠ []) (asks : result.requiresApproval = true) :
    repairWith sha256Hex context answers plan result =
      .ok (.applyCiRepair result.proposedPatches) := by
  have some_ : result.proposedPatches.length ≠ 0 := by simpa using patched
  simp [repairWith, patched, admitCiMutation, asks, approved, passed]

/-- Without a stored result, patches come from an accepted response. -/
theorem appliedPatches_of_response (missing : plan.get "pi_result" = none)
    {response : PiJobResult} {patches : List CiPatch}
    (applied : appliedPatches sha256Hex fromValue context answers jobId plan response =
      some patches) :
    response.proposedPatches = patches ∧ PatchReachable context answers jobId := by
  simp only [appliedPatches, ciRepair, missing, piDiagnosis] at applied
  cases request : diagnosisRequest context answers jobId with
  | error reason => simp [request] at applied
  | ok sent =>
      cases executed : executePi sent (.parsed response) with
      | error reason => simp [request, executed] at applied
      | ok result =>
          simp only [request, executed] at applied
          obtain ⟨rfl, _⟩ := executePi_ok executed
          split at applied
          · rename_i outcome
            cases applied
            obtain ⟨same, patched, passed⟩ := repairWith_apply outcome
            exact ⟨same, passed, sent, request, result, same ▸ patched, executed⟩
          · cases applied

/-- A stored result decides the patches for every response. -/
theorem appliedPatches_stored {value : Json} (stored : plan.get "pi_result" = some value)
    (response response' : PiJobResult) :
    appliedPatches sha256Hex fromValue context answers jobId plan response =
      appliedPatches sha256Hex fromValue context answers jobId plan response' := by
  simp only [appliedPatches, ciRepair, stored]

/-- The patches of a stored result are part of the plan. -/
theorem storesPatches_of_stored {value : Json} (stored : plan.get "pi_result" = some value)
    {response : PiJobResult} {patches : List CiPatch}
    (applied : appliedPatches sha256Hex fromValue context answers jobId plan response =
      some patches) : StoresPatches fromValue plan patches := by
  simp only [appliedPatches, ciRepair, stored] at applied
  cases decoded : fromValue value with
  | none => simp [decoded] at applied
  | some result =>
      simp only [decoded] at applied
      split at applied
      · rename_i outcome
        cases applied
        exact ⟨value, result, .inl stored, decoded, (repairWith_apply outcome).1⟩
      · cases applied

/-- Without a stored result, an approved plan applies the patches of any accepted response. -/
theorem ciRepair_of_accepted (approved : planIsApproved sha256Hex plan = true)
    (missing : plan.get "pi_result" = none) (passed : applicationGuard context answers = .ok ())
    {request : PiJobRequest} (sent : diagnosisRequest context answers jobId = .ok request)
    {response : PiJobResult} (executed : executePi request (.parsed response) = .ok response)
    (patched : response.proposedPatches ≠ []) :
    ciRepair sha256Hex fromValue context answers jobId plan (.parsed response) =
      .ok (.applyCiRepair response.proposedPatches) := by
  have asks := (executePi_ok executed).2 patched
  simp [ciRepair, missing, piDiagnosis, sent, executed,
    repairWith_admitted approved passed patched asks]

/-- What is approved is applied exactly when the plan stores a result or nothing can be applied. -/
theorem ci_repair_applies_approved_iff (approved : planIsApproved sha256Hex plan = true) :
    AppliesApproved sha256Hex fromValue context answers jobId plan ↔
      (plan.get "pi_result").isSome ∨ ¬ PatchReachable context answers jobId := by
  constructor
  · intro applies
    by_contra neither
    rw [not_or, not_not, Bool.not_eq_true, Option.isSome_eq_false_iff, Option.isNone_iff_eq_none]
      at neither
    obtain ⟨missing, passed, request, sent, response, patched, executed⟩ := neither
    have applied : appliedPatches sha256Hex fromValue context answers jobId plan response =
        some response.proposedPatches := by
      simp only [appliedPatches, ciRepair_of_accepted approved missing passed sent executed patched]
    -- The same response without its patches applies nothing.
    have same := (applies response { response with proposedPatches := [] }).1
    rw [applied] at same
    exact patched (appliedPatches_of_response missing same.symm).1.symm
  · rintro (stored | unreachable) response response'
    · obtain ⟨value, known⟩ := Option.isSome_iff_exists.mp stored
      exact ⟨appliedPatches_stored known response response', fun _ => storesPatches_of_stored known⟩
    · cases known : plan.get "pi_result" with
      | some value =>
          exact ⟨appliedPatches_stored known response response',
            fun _ => storesPatches_of_stored known⟩
      | none =>
          have nothing : ∀ any, appliedPatches sha256Hex fromValue context answers jobId plan any =
              none := by
            intro any
            by_contra other
            obtain ⟨patches, applied⟩ := Option.ne_none_iff_exists'.mp other
            exact unreachable (appliedPatches_of_response known applied).2
          rw [nothing, nothing]
          exact ⟨rfl, by simp⟩

/-! ### A second diagnosis -/

/-- A response that proposes one line for the file `f`. -/
def lineResponse (line : String) : PiJobResult where
  protocolVersion := "pitools.pi/v1"
  jobId := 5
  nonce := "n"
  diagnosis := ""
  confidence := .decimal false 0 (Fin.last 9) []
  proposedFiles := ["f"]
  proposedPatches := [⟨"f", "--- a/f\n+++ b/f\n@@ -1 +1 @@\n-a\n+" ++ line⟩]
  validationCommands := []
  risks := []
  requiresApproval := true
  metadata := none

def lineProposal : Json := .object [("source", .string "reconcile")]

/-- The details show the reviewed patch. -/
def lineDetails : Json := .object [("pi_result", (lineResponse "b").toValue)]

/-- The digest agrees with SHA-256 on the payload of the reviewed patch. -/
def lineDigest (text : List Char) : String :=
  if text = (approvalPayload lineProposal lineDetails).text then
    "ac1b578507ba9b1931259d8057cffe38d11835a416700819d0c4a56234cec403"
  else ""

/-- The reviewer approved the details of the reviewed patch. -/
def linePlan : Json :=
  .object [("approval_details", bindApprovalDetails lineDigest lineProposal lineDetails),
    ("approved", .bool true),
    ("approved_hash", .string (approvalFingerprint lineDigest lineProposal lineDetails)),
    ("source", .string "reconcile")]

def lineContext : CiRepairContext where
  repository := ⟨"owner", "name"⟩
  pullRequest := ⟨1, 7, "head", "feature"⟩
  policy := ⟨["f"], "sha256:policy"⟩

def lineAnswers : CiAnswers where
  piWorker := true
  evidence := .ok "a test fails"
  file _ := .ok (some "a")
  nonce := "n"
  head := .ok ⟨some "owner/name", "head", some "feature"⟩
  clone := .ok ()
  lease := .ok ()

def lineRequest : PiJobRequest where
  protocolVersion := "pitools.pi/v1"
  jobId := 5
  repository := "owner/name"
  snapshotPath := "snapshot.json"
  snapshotFiles := [⟨"f", "a"⟩]
  allowedPaths := ["f"]
  failureEvidence := some "a test fails"
  policyRevision := "sha256:policy"
  nonce := "n"

theorem linePlan_approved : planIsApproved lineDigest linePlan = true := by decide +kernel

theorem lineRequest_sent : diagnosisRequest lineContext lineAnswers 5 = .ok lineRequest := by
  decide +kernel

theorem lineResponse_executed :
    executePi lineRequest (.parsed (lineResponse "b")) = .ok (lineResponse "b") := by decide +kernel

theorem ci_repair_applies_approved_line :
    AppliesApproved lineDigest (fun _ => none) lineContext lineAnswers 5 linePlan ↔
      (linePlan.get "pi_result").isSome ∨ ¬ PatchReachable lineContext lineAnswers 5 :=
  ci_repair_applies_approved_iff linePlan_approved

/-- A second diagnosis replaces the reviewed patch although the plan is approved. -/
theorem second_diagnosis_applied :
    ¬ ∀ (sha256Hex : List Char → String) (fromValue : Json → Option PiJobResult)
      (context : CiRepairContext) (answers : CiAnswers) (jobId : Uuid) (plan : Json),
      planIsApproved sha256Hex plan = true →
        AppliesApproved sha256Hex fromValue context answers jobId plan := by
  intro claim
  have same := (claim lineDigest (fun _ => none) lineContext lineAnswers 5 linePlan
    linePlan_approved (lineResponse "b") (lineResponse "c")).1
  have applied : ∀ line, executePi lineRequest (.parsed (lineResponse line)) =
      .ok (lineResponse line) → appliedPatches lineDigest (fun _ => none) lineContext lineAnswers 5
        linePlan (lineResponse line) = some (lineResponse line).proposedPatches := by
    intro line executed
    have repaired : ciRepair lineDigest (fun _ => none) lineContext lineAnswers 5 linePlan
        (.parsed (lineResponse line)) = .ok (.applyCiRepair (lineResponse line).proposedPatches) :=
      ciRepair_of_accepted linePlan_approved rfl rfl lineRequest_sent executed
        (by simp [lineResponse])
    simp only [appliedPatches, repaired]
  have reviewed := applied "b" lineResponse_executed
  have other := applied "c" (by decide +kernel)
  rw [reviewed, other] at same
  exact absurd same (by decide +kernel)

end PiTools
