import PiTools.Delivery.Tables

/-
This file defines `apply_delivery` and shows that the time of its statements
reaches no table that the rest of the webhook reads.
-/

namespace PiTools

open Library

/-! ### Statements of a delivery -/

/-- The functions of other packages that the webhook calls. -/
structure Packages where
  sha256Hex : List UInt8 → String
  parseFromRfc3339 : String → Option Timestamp
  storageErrorText : StorageError → String
  policyFromYaml : String → Except String (List String)

/-- The storage calls of the webhook, with their places in loops. -/
inductive CallSite
  | insertDelivery
  | selectPayloadHash
  | begin
  | lock
  | selectProcessedAt
  | commitProcessed
  | applyStatement (index : Nat)
  | updateProcessedAt
  | commit
  | rollback
  | markDeliveryProcessed
  | controlContext
  | recordJobControl
  | queueUpdate
  | recordAudit
  | openPullRequestsForHead
  | enqueue (index : Nat)
  deriving DecidableEq, Repr

inductive RepositoryError
  | database (reason : StorageError)
  | event (reason : EventParseError)
  deriving DecidableEq, Repr

def RepositoryError.text (packages : Packages) : RepositoryError → String
  | .database reason => "database error: " ++ packages.storageErrorText reason
  | .event reason => "event parsing error: " ++ reason.text

/-- A part of `apply_delivery` runs a statement or rejects the payload. -/
inductive ApplyStep
  | statement (run : Timestamp → Tables → Except StorageError Tables)
  | reject (reason : EventParseError)

/-- A statement that neither fails nor reads the time. -/
def ApplyStep.write (run : Tables → Tables) : ApplyStep := .statement fun _ tables => .ok (run tables)

/-- The steps for a part of the payload that may be absent or malformed. -/
def recordSteps {Record : Type} (parsed : Except EventParseError (Option Record))
    (steps : Record → List ApplyStep) : List ApplyStep :=
  match parsed with
  | .error reason => [.reject reason]
  | .ok none => []
  | .ok (some record) => steps record

namespace WebhookEnvelope

variable (delivery : WebhookEnvelope)

def installationSteps (installationId : Int) : List ApplyStep :=
  let accountLogin := (((delivery.payload.pointer ["installation", "account", "login"]).bind
    Json.asStr).or ((delivery.payload.pointer ["organization", "login"]).bind Json.asStr)).getD
      "unknown"
  let accountType := ((delivery.payload.pointer ["installation", "account", "type"]).bind
    Json.asStr).getD "Unknown"
  [.write (upsertInstallation installationId accountLogin accountType)]

def listedRepositories : List Json :=
  (delivery.payload.get "repository").toList ++
    ["repositories_added", "repositories"].flatMap fun key =>
      ((delivery.payload.get key).bind Json.asArray).getD []

def reactivates : Bool :=
  delivery.accessLifecycle = some .addRepositories ||
    (delivery.eventName = "installation" && delivery.action = some "created")

/-- A listed repository without an identifier is passed over. -/
def repositoryInput (installationId : Int) (repository : Json) : Option RepositoryInput :=
  ((repository.get "id").bind Json.asInt64).map fun id =>
    { id, installationId
      owner := ((repository.pointer ["owner", "login"]).bind Json.asStr).getD "unknown"
      name := ((repository.get "name").bind Json.asStr).getD "unknown"
      defaultBranch := ((repository.get "default_branch").bind Json.asStr).getD "main"
      reactivate := delivery.reactivates }

def repositorySteps (installationId : Int) : List ApplyStep :=
  (delivery.listedRepositories.filterMap (delivery.repositoryInput installationId)).map
    fun input => .statement fun _ => upsertRepositoryRow input

def removedRepositoryIds : List Int :=
  let removed := ((delivery.payload.get "repositories_removed").bind Json.asArray).getD []
  let ids := delivery.repositoryId.toList ++
    removed.filterMap fun repository => (repository.get "id").bind Json.asInt64
  (ids.insertionSort fun left right => left ≤ right).destutter fun left right => left ≠ right

/-- The statements of `cancel_installation_jobs`. -/
def cancelInstallationSteps (installationId : Int) : List ApplyStep :=
  [.statement fun now tables =>
      .ok (unwatchPullRequests (tables.belongsTo installationId) now tables),
    .statement fun now tables => updateJobs
      (cancelInstallationJobs (tables.database now).repositories installationId) now tables]

/-- The statements of `deactivate_repository`. -/
def deactivateRepositorySteps (repositoryId : Int) : List ApplyStep :=
  [.write (deactivateRepositories fun repository => repository.id = repositoryId),
    .statement fun now tables =>
      .ok (unwatchPullRequests (fun id => id = repositoryId) now tables),
    .statement (updateJobs (cancelRepositoryJobs repositoryId))]

/-- The statements of `apply_access_lifecycle`. -/
def lifecycleSteps (installationId : Int) : List ApplyStep :=
  match delivery.accessLifecycle with
  | some .suspendInstallation =>
      .write (suspendInstallation installationId true) :: cancelInstallationSteps installationId
  | some .resumeInstallation => [.write (suspendInstallation installationId false)]
  | some .deleteInstallation =>
      .write (suspendInstallation installationId true) ::
        .write (deactivateRepositories fun repository =>
          repository.installationId = installationId) ::
        cancelInstallationSteps installationId
  | some .removeRepositories => delivery.removedRepositoryIds.flatMap deactivateRepositorySteps
  | some .addRepositories | none => []

/-- The steps that need the pull request of the delivery. -/
def onPullRequest (run : Int → Int → Tables → Except StorageError Tables) : List ApplyStep :=
  match delivery.repositoryId, delivery.pullRequestNumber with
  | some repositoryId, some pullRequestNumber =>
      [.statement fun _ => run repositoryId pullRequestNumber]
  | _, _ => []

def feedbackSteps : List ApplyStep :=
  recordSteps delivery.feedbackRecord fun feedback => delivery.onPullRequest
    fun repositoryId pullRequestNumber => upsertFeedbackOn repositoryId pullRequestNumber feedback

def checkSteps : List ApplyStep :=
  recordSteps delivery.checkRecord fun check => delivery.onPullRequest
    fun repositoryId pullRequestNumber => upsertCheckOn repositoryId pullRequestNumber check

/-- A delivery without an installation changes none and cancels nothing. -/
def accessSteps : List ApplyStep :=
  match delivery.installationId with
  | none => []
  | some installationId => delivery.installationSteps installationId ++
      delivery.repositorySteps installationId ++ delivery.lifecycleSteps installationId

def snapshotSteps (packages : Packages) : List ApplyStep :=
  recordSteps (delivery.pullRequestSnapshot packages.parseFromRfc3339) fun snapshot =>
    [.statement fun _ => upsertPullRequestOn snapshot]

def applySteps (packages : Packages) : List ApplyStep :=
  delivery.accessSteps ++ delivery.snapshotSteps packages ++ delivery.feedbackSteps ++
    delivery.checkSteps

/-- The steps for the records of the payload. -/
def payloadSteps (packages : Packages) : List ApplyStep :=
  delivery.snapshotSteps packages ++ delivery.feedbackSteps ++ delivery.checkSteps

end WebhookEnvelope

/-- The steps run in their order until one fails. -/
def runSteps (failing : Option CallSite) (now : Timestamp) :
    Nat → List ApplyStep → Tables → Except RepositoryError Tables
  | _, [], tables => .ok tables
  | _, .reject reason :: _, _ => .error (.event reason)
  | index, .statement run :: rest, tables =>
      if failing = some (.applyStatement index) then .error (.database .unavailable)
      else match run now tables with
        | .error reason => .error (.database reason)
        | .ok tables => runSteps failing now (index + 1) rest tables

def applyDelivery (packages : Packages) (failing : Option CallSite) (now : Timestamp)
    (tables : Tables) (delivery : WebhookEnvelope) : Except RepositoryError Tables :=
  runSteps failing now 0 (delivery.applySteps packages) tables

/-- A call that fails leaves the outcome as it is, or the transaction fails. -/
theorem runSteps_failing (failing : Option CallSite) (now : Timestamp) (index : Nat)
    (steps : List ApplyStep) (tables : Tables) :
    runSteps failing now index steps tables = runSteps none now index steps tables ∨
      ∃ reason, runSteps failing now index steps tables = .error reason := by
  induction steps generalizing index tables with
  | nil => exact .inl rfl
  | cons step rest ih =>
      cases step with
      | reject reason => exact .inl rfl
      | statement run =>
          simp only [runSteps, reduceCtorEq, if_false]
          split
          · exact .inr ⟨_, rfl⟩
          · split
            · exact .inl rfl
            · exact ih (index + 1) _

/-- The place of a step matters only to a failing call. -/
theorem runSteps_index (now : Timestamp) (index index' : Nat) (steps : List ApplyStep)
    (tables : Tables) : runSteps none now index steps tables = runSteps none now index' steps tables := by
  induction steps generalizing index index' tables with
  | nil => rfl
  | cons step rest ih =>
      cases step with
      | reject reason => rfl
      | statement run =>
          simp only [runSteps, reduceCtorEq, if_false]
          split
          · rfl
          · exact ih (index + 1) (index' + 1) _

/-- The later steps run on what the earlier ones leave. -/
theorem runSteps_append (now : Timestamp) (index : Nat) (first second : List ApplyStep)
    (tables : Tables) : runSteps none now index (first ++ second) tables =
      (runSteps none now index first tables).bind (runSteps none now 0 second) := by
  induction first generalizing index tables with
  | nil => exact runSteps_index now index 0 second tables
  | cons step rest ih =>
      cases step with
      | reject reason => rfl
      | statement run =>
          simp only [List.cons_append, runSteps, reduceCtorEq, if_false]
          split
          · rfl
          · exact ih (index + 1) _

/-- What every statement keeps, the steps keep. -/
theorem runSteps_keeps (holds : Tables → Prop) {now : Timestamp} {steps : List ApplyStep}
    (keeps : ∀ run, .statement run ∈ steps → ∀ tables next, holds tables →
      run now tables = .ok next → holds next)
    (index : Nat) {tables next : Tables} (start : holds tables)
    (ran : runSteps none now index steps tables = .ok next) : holds next := by
  induction steps generalizing index tables with
  | nil =>
      cases ran
      exact start
  | cons step rest ih =>
      cases step with
      | reject reason => cases ran
      | statement run =>
          simp only [runSteps, reduceCtorEq, if_false] at ran
          split at ran
          · cases ran
          · rename_i between wrote
            exact ih (fun other member => keeps other (.tail _ member)) (index + 1)
              (keeps run (.head _) tables between start wrote) ran

/-- Statements that succeed where a condition holds, and keep it, succeed together. -/
theorem runSteps_succeeds (holds : Tables → Prop) (now : Timestamp) {steps : List ApplyStep}
    (accepted : ∀ reason, .reject reason ∉ steps)
    (succeeds : ∀ run, .statement run ∈ steps → ∀ tables, holds tables →
      ∃ next, run now tables = .ok next ∧ holds next)
    (index : Nat) {tables : Tables} (start : holds tables) :
    ∃ next, runSteps none now index steps tables = .ok next ∧ holds next := by
  induction steps generalizing index tables with
  | nil => exact ⟨tables, rfl, start⟩
  | cons step rest ih =>
      cases step with
      | reject reason => exact absurd (.head _) (accepted reason)
      | statement run =>
          obtain ⟨between, wrote, held⟩ := succeeds run (.head _) tables start
          simp only [runSteps, reduceCtorEq, if_false, wrote]
          exact ih (fun reason member => accepted reason (.tail _ member))
            (fun other member => succeeds other (.tail _ member)) (index + 1) held

/-- Steps that keep a relation at two times lead to related outcomes. -/
theorem runSteps_related {related : Tables → Tables → Prop} {now now' : Timestamp}
    {steps : List ApplyStep}
    (keeps : ∀ run, .statement run ∈ steps → ∀ tables tables', related tables tables' →
      SameOutcome related (run now tables) (run now' tables'))
    (index : Nat) {tables tables' : Tables} (start : related tables tables') :
    SameOutcome related (runSteps none now index steps tables)
      (runSteps none now' index steps tables') := by
  induction steps generalizing index tables tables' with
  | nil => exact start
  | cons step rest ih =>
      cases step with
      | reject reason => rfl
      | statement run =>
          have first := keeps run (.head _) tables tables' start
          simp only [runSteps, reduceCtorEq, if_false]
          cases one : run now tables with
          | error reason =>
              cases two : run now' tables' with
              | error reason' =>
                  rw [one, two] at first
                  exact congrArg RepositoryError.database first
              | ok next' =>
                  rw [one, two] at first
                  exact first.elim
          | ok next =>
              cases two : run now' tables' with
              | error reason' =>
                  rw [one, two] at first
                  exact first.elim
              | ok next' =>
                  rw [one, two] at first
                  exact ih (fun other member => keeps other (.tail _ member)) (index + 1) first

/-! ### The time of the statements -/

def PullRequestRecord.undated (pullRequest : PullRequestRecord) : PullRequestRecord :=
  { pullRequest with updatedAt := 0 }

/-- The tables differ only in the times of their pull requests. -/
def Tables.Agree (tables tables' : Tables) : Prop :=
  ∃ pullRequests, tables' = { tables with pullRequests } ∧
    pullRequests.map PullRequestRecord.undated =
      tables.pullRequests.map PullRequestRecord.undated

theorem Tables.Agree.refl (tables : Tables) : tables.Agree tables := ⟨_, rfl, rfl⟩

theorem Tables.Agree.symm {tables tables' : Tables} (agree : tables.Agree tables') :
    tables'.Agree tables := by
  obtain ⟨pullRequests, rfl, same⟩ := agree
  exact ⟨tables.pullRequests, rfl, same.symm⟩

theorem Tables.Agree.trans {tables tables' tables'' : Tables} (agree : tables.Agree tables')
    (later : tables'.Agree tables'') : tables.Agree tables'' := by
  obtain ⟨_, rfl, same⟩ := agree
  obtain ⟨pullRequests, rfl, also⟩ := later
  exact ⟨pullRequests, rfl, also.trans same⟩

/-- The statement writes the same at all times, up to the times of the pull requests. -/
def Timeless (run : Timestamp → Tables → Except StorageError Tables) : Prop :=
  ∀ now now' tables tables', Tables.Agree tables tables' →
    SameOutcome Tables.Agree (run now tables) (run now' tables')

/-- A statement that does not touch the pull requests is timeless. -/
theorem timeless_of_untouched {run : Timestamp → Tables → Except StorageError Tables}
    (untouched : ∀ now now' tables pullRequests,
      (∃ reason, run now tables = .error reason ∧
        run now' { tables with pullRequests } = .error reason) ∨
      ∃ next : Tables, run now tables = .ok next ∧
        run now' { tables with pullRequests } = .ok { next with pullRequests } ∧
          next.pullRequests = tables.pullRequests) : Timeless run := by
  rintro now now' tables _ ⟨pullRequests, rfl, same⟩
  rcases untouched now now' tables pullRequests with ⟨reason, one, two⟩ | ⟨next, one, two, kept⟩
  · rw [one, two]
    rfl
  · rw [one, two]
    exact ⟨pullRequests, rfl, by rw [same, kept]⟩

theorem timeless_upsertInstallation (id : Int) (accountLogin accountType : String) :
    Timeless fun _ tables => .ok (upsertInstallation id accountLogin accountType tables) := by
  refine timeless_of_untouched fun _ _ tables pullRequests => .inr ⟨_, rfl, ?_, ?_⟩
  · by_cases known : tables.hasInstallation id = true
    · have same : ({ tables with pullRequests } : Tables).hasInstallation id = true := known
      simp only [upsertInstallation, if_pos known, if_pos same]
    · have same : ¬ ({ tables with pullRequests } : Tables).hasInstallation id = true := known
      simp only [upsertInstallation, if_neg known, if_neg same]
  · unfold upsertInstallation
    split <;> rfl

/-- A unique key decides alike about the same repositories. -/
theorem storeRepositories_untouched (tables : Tables) (repositories : List RepositoryRecord)
    (pullRequests : List PullRequestRecord) :
    (∃ reason, storeRepositories tables repositories = .error reason ∧
      storeRepositories { tables with pullRequests } repositories = .error reason) ∨
    ∃ next : Tables, storeRepositories tables repositories = .ok next ∧
      storeRepositories { tables with pullRequests } repositories =
        .ok { next with pullRequests } ∧ next.pullRequests = tables.pullRequests := by
  unfold storeRepositories
  split
  · exact .inr ⟨_, rfl, rfl, rfl⟩
  · exact .inl ⟨_, rfl, rfl⟩

theorem timeless_upsertRepositoryRow (input : RepositoryInput) :
    Timeless fun _ => upsertRepositoryRow input := by
  refine timeless_of_untouched fun _ _ tables pullRequests => ?_
  by_cases known : tables.hasRepository input.id = true
  · have same : ({ tables with pullRequests } : Tables).hasRepository input.id = true := known
    simp only [upsertRepositoryRow, if_pos known, if_pos same]
    exact storeRepositories_untouched tables _ pullRequests
  · have same : ¬ ({ tables with pullRequests } : Tables).hasRepository input.id = true := known
    simp only [upsertRepositoryRow, if_neg known, if_neg same]
    by_cases installed : tables.hasInstallation input.installationId = true
    · have also : ({ tables with pullRequests } : Tables).hasInstallation input.installationId = true :=
        installed
      simp only [if_pos installed, if_pos also]
      exact storeRepositories_untouched tables _ pullRequests
    · have also : ¬ ({ tables with pullRequests } : Tables).hasInstallation
          input.installationId = true := installed
      simp only [if_neg installed, if_neg also]
      exact .inl ⟨_, rfl, rfl⟩

theorem timeless_suspendInstallation (id : Int) (suspended : Bool) :
    Timeless fun _ tables => .ok (suspendInstallation id suspended tables) :=
  timeless_of_untouched fun _ _ _ _ => .inr ⟨_, rfl, rfl, rfl⟩

theorem timeless_deactivateRepositories (chosen : RepositoryRecord → Bool) :
    Timeless fun _ tables => .ok (deactivateRepositories chosen tables) :=
  timeless_of_untouched fun _ _ _ _ => .inr ⟨_, rfl, rfl, rfl⟩

/-- The rows of the jobs are updated without a look at the time. -/
theorem timeless_updateJobs (update : List (Int × Int) → Update) :
    Timeless fun now tables => updateJobs (update (tables.database now).repositories) now tables := by
  refine timeless_of_untouched fun now now' tables pullRequests => ?_
  simp only [updateJobs, Update.execute, Tables.database]
  cases updateRows _ _ tables.jobs with
  | error reason => exact .inl ⟨_, rfl, rfl⟩
  | ok counted =>
      simp only
      cases storeJobs counted.1 with
      | error reason => exact .inl ⟨_, rfl, rfl⟩
      | ok jobs => exact .inr ⟨_, rfl, rfl, rfl⟩

theorem timeless_upsertFeedbackOn (repositoryId pullRequestNumber : Int)
    (feedback : Reconcile.FeedbackRecord) :
    Timeless fun _ => upsertFeedbackOn repositoryId pullRequestNumber feedback := by
  refine timeless_of_untouched fun _ _ tables pullRequests => ?_
  have same : ({ tables with pullRequests } : Tables).hasRepository repositoryId =
      tables.hasRepository repositoryId := rfl
  simp only [upsertFeedbackOn, same]
  by_cases present : (tables.feedbackItems.any fun item => item.id = feedback.id) = true
  · simp only [if_pos present]
    exact .inr ⟨_, rfl, rfl, rfl⟩
  · by_cases known : tables.hasRepository repositoryId = true
    · simp only [if_neg present, if_pos known]
      exact .inr ⟨_, rfl, rfl, rfl⟩
    · simp only [if_neg present, if_neg known]
      exact .inl ⟨_, rfl, rfl⟩

theorem timeless_upsertCheckOn (repositoryId pullRequestNumber : Int) (check : CheckRecord) :
    Timeless fun _ => upsertCheckOn repositoryId pullRequestNumber check := by
  refine timeless_of_untouched fun _ _ tables pullRequests => ?_
  have same : ({ tables with pullRequests } : Tables).hasRepository repositoryId =
      tables.hasRepository repositoryId := rfl
  simp only [upsertCheckOn, same]
  generalize CheckItem.mk repositoryId pullRequestNumber _ _ _ _ _ = row
  by_cases present : (tables.checks.any fun item => item.key = row.key) = true
  · simp only [if_pos present]
    exact .inr ⟨_, rfl, rfl, rfl⟩
  · by_cases known : tables.hasRepository repositoryId = true
    · simp only [if_neg present, if_pos known]
      exact .inr ⟨_, rfl, rfl, rfl⟩
    · simp only [if_neg present, if_neg known]
      exact .inl ⟨_, rfl, rfl⟩

/-- Pull requests lose their watch whenever the statement runs. -/
theorem timeless_unwatchPullRequests (chosen : Tables → Int → Bool)
    (blind : ∀ tables pullRequests, chosen { tables with pullRequests } = chosen tables) :
    Timeless fun now tables => .ok (unwatchPullRequests (chosen tables) now tables) := by
  rintro now now' tables _ ⟨pullRequests, rfl, same⟩
  refine ⟨_, rfl, ?_⟩
  simp only [unwatchPullRequests, blind, List.map_map]
  have unwatched (time : Timestamp) (rows : List PullRequestRecord) :
      rows.map (PullRequestRecord.undated ∘ fun pullRequest =>
        if chosen tables pullRequest.repositoryId then
          { pullRequest with watched := false, updatedAt := time }
        else pullRequest) =
      (rows.map PullRequestRecord.undated).map fun pullRequest =>
        if chosen tables pullRequest.repositoryId then { pullRequest with watched := false }
        else pullRequest := by
    rw [List.map_map]
    refine List.map_congr_left fun row _ => ?_
    by_cases unwatches : chosen tables row.repositoryId = true <;>
      simp [PullRequestRecord.undated, unwatches]
  rw [unwatched, unwatched, same]

/-! ### The statements of a delivery -/

/-- The statements that a delivery can run. Only a change of access reads the time or cancels jobs. -/
inductive Written (delivery : WebhookEnvelope) :
    (Timestamp → Tables → Except StorageError Tables) → Prop
  | installation (id : Int) (accountLogin accountType : String) :
      Written delivery fun _ tables => .ok (upsertInstallation id accountLogin accountType tables)
  | repository (input : RepositoryInput) (listed : input.reactivate = delivery.reactivates) :
      Written delivery fun _ => upsertRepositoryRow input
  | suspension (access : delivery.accessLifecycle ≠ none) (id : Int) (suspended : Bool) :
      Written delivery fun _ tables => .ok (suspendInstallation id suspended tables)
  | deactivation (access : delivery.accessLifecycle ≠ none) (chosen : RepositoryRecord → Bool) :
      Written delivery fun _ tables => .ok (deactivateRepositories chosen tables)
  | unwatching (access : delivery.accessLifecycle ≠ none) (chosen : Tables → Int → Bool)
      (blind : ∀ tables pullRequests, chosen { tables with pullRequests } = chosen tables) :
      Written delivery fun now tables => .ok (unwatchPullRequests (chosen tables) now tables)
  | cancellation (access : delivery.accessLifecycle ≠ none) (update : List (Int × Int) → Update)
      (cancels : ∀ repositories job job', (update repositories).guard job = true →
        (update repositories).change job = .ok job' → job.active = true ∧ job' = job.cancel) :
      Written delivery fun now tables =>
        updateJobs (update (tables.database now).repositories) now tables
  | snapshot (event : delivery.eventName = "pull_request") (snapshot : PullRequestSnapshot) :
      Written delivery fun _ => upsertPullRequestOn snapshot
  | feedback (repositoryId pullRequestNumber : Int) (feedback : Reconcile.FeedbackRecord) :
      Written delivery fun _ => upsertFeedbackOn repositoryId pullRequestNumber feedback
  | check (repositoryId pullRequestNumber : Int) (check : CheckRecord) :
      Written delivery fun _ => upsertCheckOn repositoryId pullRequestNumber check

/-- The statements that a change of access can run. -/
inductive AccessStatement : (Timestamp → Tables → Except StorageError Tables) → Prop
  | suspension (id : Int) (suspended : Bool) :
      AccessStatement fun _ tables => .ok (suspendInstallation id suspended tables)
  | deactivation (chosen : RepositoryRecord → Bool) :
      AccessStatement fun _ tables => .ok (deactivateRepositories chosen tables)
  | unwatching (chosen : Tables → Int → Bool)
      (blind : ∀ tables pullRequests, chosen { tables with pullRequests } = chosen tables) :
      AccessStatement fun now tables => .ok (unwatchPullRequests (chosen tables) now tables)
  | cancellation (update : List (Int × Int) → Update)
      (cancels : ∀ repositories job, (update repositories).guard job = true →
        job.active = true ∧ (update repositories).change job = .ok job.cancel) :
      AccessStatement fun now tables =>
        updateJobs (update (tables.database now).repositories) now tables

/-- The statements that a record of the payload runs. -/
inductive RecordStatement (packages : Packages) (delivery : WebhookEnvelope) :
    (Timestamp → Tables → Except StorageError Tables) → Prop
  | snapshot (snapshot : PullRequestSnapshot)
      (parsed : delivery.pullRequestSnapshot packages.parseFromRfc3339 = .ok (some snapshot)) :
      RecordStatement packages delivery fun _ => upsertPullRequestOn snapshot
  | feedback (repositoryId pullRequestNumber : Int) (feedback : Reconcile.FeedbackRecord)
      (named : delivery.repositoryId = some repositoryId) :
      RecordStatement packages delivery fun _ =>
        upsertFeedbackOn repositoryId pullRequestNumber feedback
  | check (repositoryId pullRequestNumber : Int) (check : CheckRecord)
      (named : delivery.repositoryId = some repositoryId) :
      RecordStatement packages delivery fun _ =>
        upsertCheckOn repositoryId pullRequestNumber check

section Steps

variable {delivery : WebhookEnvelope} {installationId : Int}
  {run : Timestamp → Tables → Except StorageError Tables}

theorem cancelInstallationSteps_access
    (member : .statement run ∈ WebhookEnvelope.cancelInstallationSteps installationId) :
    AccessStatement run := by
  rcases List.mem_cons.mp member with first | later
  · obtain rfl := ApplyStep.statement.inj first
    exact .unwatching (fun tables => tables.belongsTo installationId) fun _ _ => rfl
  · obtain rfl := ApplyStep.statement.inj (List.mem_singleton.mp later)
    refine .cancellation (fun repositories => cancelInstallationJobs repositories installationId)
      fun repositories job met => ⟨?_, rfl⟩
    simp only [cancelInstallationJobs, Bool.and_eq_true] at met
    exact met.1

theorem deactivateRepositorySteps_access {repositoryId : Int}
    (member : .statement run ∈ WebhookEnvelope.deactivateRepositorySteps repositoryId) :
    AccessStatement run := by
  rcases List.mem_cons.mp member with first | later
  · obtain rfl := ApplyStep.statement.inj first
    exact .deactivation _
  · rcases List.mem_cons.mp later with second | last
    · obtain rfl := ApplyStep.statement.inj second
      exact .unwatching (fun _ id => id = repositoryId) fun _ _ => rfl
    · obtain rfl := ApplyStep.statement.inj (List.mem_singleton.mp last)
      refine .cancellation (fun _ => cancelRepositoryJobs repositoryId)
        fun repositories job met => ⟨?_, rfl⟩
      simp only [cancelRepositoryJobs, Bool.and_eq_true] at met
      exact met.2

/-- Only a change of access has such steps. -/
theorem lifecycleSteps_access (member : .statement run ∈ delivery.lifecycleSteps installationId) :
    delivery.accessLifecycle ≠ none ∧ AccessStatement run := by
  unfold WebhookEnvelope.lifecycleSteps at member
  split at member
  · rename_i access
    refine ⟨by simp [access], ?_⟩
    rcases List.mem_cons.mp member with first | later
    · obtain rfl := ApplyStep.statement.inj first
      exact .suspension _ _
    · exact cancelInstallationSteps_access later
  · rename_i access
    obtain rfl := ApplyStep.statement.inj (List.mem_singleton.mp member)
    exact ⟨by simp [access], .suspension _ _⟩
  · rename_i access
    refine ⟨by simp [access], ?_⟩
    rcases List.mem_cons.mp member with first | later
    · obtain rfl := ApplyStep.statement.inj first
      exact .suspension _ _
    · rcases List.mem_cons.mp later with second | last
      · obtain rfl := ApplyStep.statement.inj second
        exact .deactivation _
      · exact cancelInstallationSteps_access last
  · rename_i access
    obtain ⟨repositoryId, _, inside⟩ := List.mem_flatMap.mp member
    exact ⟨by simp [access], deactivateRepositorySteps_access inside⟩
  · cases member
  · cases member

theorem AccessStatement.written (statement : AccessStatement run)
    (access : delivery.accessLifecycle ≠ none) : Written delivery run := by
  cases statement with
  | suspension id suspended => exact .suspension access id suspended
  | deactivation chosen => exact .deactivation access chosen
  | unwatching chosen blind => exact .unwatching access chosen blind
  | cancellation update cancels =>
      refine .cancellation access update fun repositories job job' met changed => ?_
      obtain ⟨active, cancelled⟩ := cancels repositories job met
      exact ⟨active, Except.ok.inj (changed.symm.trans cancelled)⟩

theorem written_accessSteps (member : .statement run ∈ delivery.accessSteps) :
    Written delivery run := by
  unfold WebhookEnvelope.accessSteps at member
  split at member
  · cases member
  · rcases List.mem_append.mp member with early | late
    · rcases List.mem_append.mp early with installation | repository
      · obtain rfl := ApplyStep.statement.inj (List.mem_singleton.mp installation)
        exact .installation _ _ _
      · obtain ⟨input, inside, same⟩ := List.mem_map.mp repository
        obtain rfl := ApplyStep.statement.inj same
        obtain ⟨listed, _, parsed⟩ := List.mem_filterMap.mp inside
        obtain ⟨id, _, rfl⟩ := Option.map_eq_some_iff.mp parsed
        exact .repository _ rfl
    · obtain ⟨access, statement⟩ := lifecycleSteps_access late
      exact statement.written access

/-- A step of a parsed record belongs to the record. -/
theorem mem_recordSteps {Record : Type} {parsed : Except EventParseError (Option Record)}
    {steps : Record → List ApplyStep} (member : .statement run ∈ recordSteps parsed steps) :
    ∃ record, parsed = .ok (some record) ∧ .statement run ∈ steps record := by
  unfold recordSteps at member
  split at member
  · simp at member
  · cases member
  · exact ⟨_, rfl, member⟩

theorem mem_onPullRequest {write : Int → Int → Tables → Except StorageError Tables}
    (member : .statement run ∈ delivery.onPullRequest write) :
    ∃ repositoryId pullRequestNumber, delivery.repositoryId = some repositoryId ∧
      run = fun _ => write repositoryId pullRequestNumber := by
  unfold WebhookEnvelope.onPullRequest at member
  split at member
  · rename_i repositoryId pullRequestNumber named _
    exact ⟨repositoryId, pullRequestNumber, named,
      ApplyStep.statement.inj (List.mem_singleton.mp member)⟩
  · cases member

/-- Only a pull request event has a snapshot. -/
theorem pullRequestSnapshot_event {parse : String → Option Timestamp} {snapshot : PullRequestSnapshot}
    (parsed : delivery.pullRequestSnapshot parse = .ok (some snapshot)) :
    delivery.eventName = "pull_request" := by
  by_contra other
  rw [WebhookEnvelope.pullRequestSnapshot, if_neg other] at parsed
  cases parsed

theorem payloadSteps_record {packages : Packages}
    (member : .statement run ∈ delivery.payloadSteps packages) :
    RecordStatement packages delivery run := by
  simp only [WebhookEnvelope.payloadSteps, List.mem_append] at member
  rcases member with (snapshot | feedback) | check
  · obtain ⟨record, parsed, inside⟩ := mem_recordSteps snapshot
    obtain rfl := ApplyStep.statement.inj (List.mem_singleton.mp inside)
    exact .snapshot record parsed
  · obtain ⟨record, _, inside⟩ := mem_recordSteps feedback
    obtain ⟨repositoryId, pullRequestNumber, named, rfl⟩ := mem_onPullRequest inside
    exact .feedback repositoryId pullRequestNumber record named
  · obtain ⟨record, _, inside⟩ := mem_recordSteps check
    obtain ⟨repositoryId, pullRequestNumber, named, rfl⟩ := mem_onPullRequest inside
    exact .check repositoryId pullRequestNumber record named

theorem RecordStatement.written {packages : Packages}
    (statement : RecordStatement packages delivery run) : Written delivery run := by
  cases statement with
  | snapshot record parsed => exact .snapshot (pullRequestSnapshot_event parsed) record
  | feedback repositoryId number record named => exact .feedback repositoryId number record
  | check repositoryId number record named => exact .check repositoryId number record

theorem applySteps_eq (packages : Packages) :
    delivery.applySteps packages = delivery.accessSteps ++ delivery.payloadSteps packages := by
  simp only [WebhookEnvelope.applySteps, WebhookEnvelope.payloadSteps, List.append_assoc]

theorem written_applySteps {packages : Packages}
    (member : .statement run ∈ delivery.applySteps packages) : Written delivery run := by
  rw [applySteps_eq, List.mem_append] at member
  rcases member with access | record
  · exact written_accessSteps access
  · exact (payloadSteps_record record).written

/-- Outside of pull request events, every statement is timeless. -/
theorem Written.timeless (written : Written delivery run)
    (other : delivery.eventName ≠ "pull_request") : Timeless run := by
  cases written with
  | installation id login kind => exact timeless_upsertInstallation id login kind
  | repository input _ => exact timeless_upsertRepositoryRow input
  | suspension _ id suspended => exact timeless_suspendInstallation id suspended
  | deactivation _ chosen => exact timeless_deactivateRepositories chosen
  | unwatching _ chosen blind => exact timeless_unwatchPullRequests chosen blind
  | cancellation _ update => exact timeless_updateJobs update
  | snapshot event => exact absurd event other
  | feedback repositoryId number feedback => exact timeless_upsertFeedbackOn repositoryId number feedback
  | check repositoryId number check => exact timeless_upsertCheckOn repositoryId number check

/-- A pull request event changes no access, so none of its statements reads the time. -/
theorem Written.fixed (written : Written delivery run) (event : delivery.eventName = "pull_request")
    (now now' : Timestamp) : run now = run now' := by
  have unchanged : delivery.accessLifecycle = none := by
    simp [WebhookEnvelope.accessLifecycle, event]
  cases written with
  | unwatching access | cancellation access => exact absurd unchanged access
  | installation | repository | suspension | deactivation | snapshot | feedback | check => rfl

/-- The effects of a delivery do not depend on the time of their transaction. -/
theorem applyDelivery_agree (packages : Packages) (delivery : WebhookEnvelope) (tables : Tables)
    (now now' : Timestamp) :
    SameOutcome Tables.Agree (applyDelivery packages none now tables delivery)
      (applyDelivery packages none now' tables delivery) := by
  by_cases event : delivery.eventName = "pull_request"
  · -- The guard on `updated_at` reads the rows, but no statement before it writes a time.
    have same : SameOutcome Eq (applyDelivery packages none now tables delivery)
        (applyDelivery packages none now' tables delivery) := by
      refine runSteps_related (fun run member first second equal => ?_) 0 rfl
      rw [(written_applySteps member).fixed event now now', equal]
      exact .of_eq (fun _ => rfl) rfl
    exact same.imp fun first second equal => equal ▸ .refl first
  · exact runSteps_related (fun run member =>
      (written_applySteps member).timeless event now now') 0 (.refl tables)

/-- A statement keeps the constraints and the ids of the jobs. -/
theorem Written.jobs (written : Written delivery run) {now : Timestamp} {tables next : Tables}
    (wrote : run now tables = .ok next) (constrained : Constrained tables.jobs) :
    Constrained next.jobs ∧ next.jobs.map Job.id = tables.jobs.map Job.id := by
  have kept (same : next.jobs = tables.jobs) :
      Constrained next.jobs ∧ next.jobs.map Job.id = tables.jobs.map Job.id := by
    rw [same]
    exact ⟨constrained, rfl⟩
  cases written with
  | installation =>
      simp only [upsertInstallation] at wrote
      split at wrote <;> exact kept (by cases wrote; rfl)
  | repository input =>
      simp only [upsertRepositoryRow, storeRepositories] at wrote
      split at wrote
      · split at wrote <;> cases wrote
        exact kept rfl
      · split at wrote
        · split at wrote <;> cases wrote
          exact kept rfl
        · cases wrote
  | suspension | deactivation | unwatching => exact kept (by cases wrote; rfl)
  | cancellation access update cancels =>
      simp only [updateJobs] at wrote
      split at wrote
      · cases wrote
      · rename_i db count executed
        cases wrote
        obtain ⟨pointwise, _, stored, _⟩ := Update.execute_ok executed
        refine ⟨stored, forall₂_map_eq Job.id pointwise fun job job' row => ?_⟩
        rcases row with ⟨met, changed⟩ | ⟨_, rfl⟩
        · rw [(cancels _ job job' met changed).2]
          rfl
        · rfl
  | snapshot =>
      simp only [upsertPullRequestOn, storePullRequests] at wrote
      split at wrote
      · split at wrote <;> cases wrote
        exact kept rfl
      · split at wrote
        · split at wrote <;> cases wrote
          exact kept rfl
        · cases wrote
  | feedback =>
      simp only [upsertFeedbackOn] at wrote
      split at wrote
      · cases wrote
        exact kept rfl
      · split at wrote <;> cases wrote
        exact kept rfl
  | check =>
      simp only [upsertCheckOn] at wrote
      split at wrote
      · cases wrote
        exact kept rfl
      · split at wrote <;> cases wrote
        exact kept rfl

theorem runSteps_jobs {now : Timestamp} {steps : List ApplyStep}
    (written : ∀ run, .statement run ∈ steps → Written delivery run) (index : Nat)
    {tables next : Tables} (ran : runSteps none now index steps tables = .ok next)
    (constrained : Constrained tables.jobs) :
    Constrained next.jobs ∧ next.jobs.map Job.id = tables.jobs.map Job.id := by
  refine runSteps_keeps (fun later => Constrained later.jobs ∧
    later.jobs.map Job.id = tables.jobs.map Job.id) ?_ index ⟨constrained, rfl⟩ ran
  rintro run member before after ⟨held, same⟩ wrote
  obtain ⟨kept, ids⟩ := (written run member).jobs wrote held
  exact ⟨kept, ids.trans same⟩

/-- A delivery keeps the constraints and the ids of the jobs. -/
theorem applyDelivery_jobs {packages : Packages} {now : Timestamp} {tables next : Tables}
    (applied : applyDelivery packages none now tables delivery = .ok next)
    (constrained : Constrained tables.jobs) :
    Constrained next.jobs ∧ next.jobs.map Job.id = tables.jobs.map Job.id :=
  runSteps_jobs (fun _ member => written_applySteps member) 0 applied constrained

end Steps

/-- The packages answer as the real ones do on payloads without times and on empty policies. -/
def plainPackages : Packages where
  sha256Hex _ := ""
  parseFromRfc3339 _ := none
  storageErrorText _ := ""
  policyFromYaml _ := .ok []

end PiTools
