import PiTools.Delivery.Events
import PiTools.Queue.Effects

/-
This file defines the tables that a delivery writes and the statements of
`apply_delivery`, which all run in one transaction.
-/

namespace PiTools

open Library

/-! ### Rows -/

/-- A row of `installations`. The column `suspended_at` is read only for `NULL`. -/
structure InstallationRecord where
  id : Int
  accountLogin : String
  accountType : String
  suspended : Bool
  deriving DecidableEq, Repr

structure RepositoryRecord where
  id : Int
  installationId : Int
  owner : String
  name : String
  defaultBranch : String
  active : Bool
  policyYaml : String
  deriving DecidableEq, Repr

/-- A row of `pull_requests`. -/
structure PullRequestRecord extends PullRequestSnapshot where
  watched : Bool
  deriving DecidableEq, Repr

def PullRequestSnapshot.key (snapshot : PullRequestSnapshot) : Int × Int :=
  (snapshot.repositoryId, snapshot.number)

inductive RepairState
  | unreviewed
  | rejected
  | previewed
  | applied
  deriving DecidableEq, Repr

/-- A row of `feedback_items`. -/
structure FeedbackItem where
  id : String
  repositoryId : Int
  pullRequestNumber : Int
  actorLogin : String
  actorType : String
  body : String
  resolved : Bool
  isAutomation : Bool
  repairState : RepairState
  repairAppliedAt : Option Timestamp
  resolutionEligible : Bool
  deriving DecidableEq, Repr

/-- A row of `checks`. -/
structure CheckItem where
  repositoryId : Int
  pullRequestNumber : Int
  externalId : String
  name : String
  status : String
  conclusion : Option String
  detailsUrl : Option String
  deriving DecidableEq, Repr

def CheckItem.key (item : CheckItem) : Int × Int × String :=
  (item.repositoryId, item.pullRequestNumber, item.externalId)

/-- What is stored of the installations, the repositories and the pull requests. -/
structure Registry where
  installations : List InstallationRecord
  repositories : List RepositoryRecord
  pullRequests : List PullRequestRecord
  deriving DecidableEq, Repr

structure Tables extends Registry where
  feedbackItems : List FeedbackItem
  checks : List CheckItem
  jobs : List Job
  deriving DecidableEq, Repr

/-- The tables as the queue sees them. -/
def Tables.database (tables : Tables) (now : Timestamp) : Database where
  jobs := tables.jobs
  repositories := tables.repositories.map fun repository =>
    (repository.id, repository.installationId)
  now

/-- The reasons for which a storage call fails. -/
inductive StorageError
  | unavailable
  | rowNotFound
  | foreignKey (constraint : String)
  | unique (constraint : String)
  | jobs (reason : DatabaseError)
  deriving DecidableEq, Repr

/-! ### Statements -/

def Registry.hasInstallation (registry : Registry) (id : Int) : Bool :=
  registry.installations.any fun installation => installation.id = id

def Registry.hasRepository (registry : Registry) (id : Int) : Bool :=
  registry.repositories.any fun repository => repository.id = id

def upsertInstallation (id : Int) (accountLogin accountType : String) (tables : Tables) : Tables :=
  if tables.hasInstallation id then
    { tables with
      installations := tables.installations.map fun installation =>
        if installation.id = id then { installation with accountLogin, accountType }
        else installation }
  else
    { tables with
      installations := tables.installations ++ [⟨id, accountLogin, accountType, false⟩] }

/-- The columns of a repository that the statement writes. -/
structure RepositoryInput where
  id : Int
  installationId : Int
  owner : String
  name : String
  defaultBranch : String
  reactivate : Bool
  deriving DecidableEq, Repr

/-- A known repository keeps its installation. -/
def RepositoryInput.update (input : RepositoryInput) (repository : RepositoryRecord) :
    RepositoryRecord :=
  if repository.id = input.id then
    { repository with
      owner := input.owner
      name := input.name
      defaultBranch := input.defaultBranch
      active := if input.reactivate then true else repository.active }
  else repository

def RepositoryInput.row (input : RepositoryInput) : RepositoryRecord where
  id := input.id
  installationId := input.installationId
  owner := input.owner
  name := input.name
  defaultBranch := input.defaultBranch
  active := true
  policyYaml := ""

/-- The key `(installation_id, owner, name)` is unique. -/
def RepositoryRecord.fullName (repository : RepositoryRecord) : Int × String × String :=
  (repository.installationId, repository.owner, repository.name)

def storeRepositories (tables : Tables) (repositories : List RepositoryRecord) :
    Except StorageError Tables :=
  if (repositories.map RepositoryRecord.fullName).Nodup then .ok { tables with repositories }
  else .error (.unique "repositories_installation_id_owner_name_key")

def upsertRepositoryRow (input : RepositoryInput) (tables : Tables) : Except StorageError Tables :=
  if tables.hasRepository input.id then
    storeRepositories tables (tables.repositories.map input.update)
  else if tables.hasInstallation input.installationId then
    storeRepositories tables (tables.repositories ++ [input.row])
  else .error (.foreignKey "repositories_installation_id_fkey")

def suspendInstallation (id : Int) (suspended : Bool) (tables : Tables) : Tables :=
  { tables with
    installations := tables.installations.map fun installation =>
      if installation.id = id then { installation with suspended } else installation }

def deactivateRepositories (chosen : RepositoryRecord → Bool) (tables : Tables) : Tables :=
  { tables with
    repositories := tables.repositories.map fun repository =>
      if chosen repository then { repository with active := false } else repository }

def unwatchPullRequests (chosen : Int → Bool) (now : Timestamp) (tables : Tables) : Tables :=
  { tables with
    pullRequests := tables.pullRequests.map fun pullRequest =>
      if chosen pullRequest.repositoryId then
        { pullRequest with watched := false, updatedAt := now }
      else pullRequest }

/-- A statement on `jobs` inside of the transaction. -/
def updateJobs (update : Update) (now : Timestamp) (tables : Tables) : Except StorageError Tables :=
  match update.execute (tables.database now) with
  | .error reason => .error (.jobs reason)
  | .ok (db, _) => .ok { tables with jobs := db.jobs }

/-- The repositories of an installation, as the subqueries select them. -/
def Registry.belongsTo (registry : Registry) (installationId repositoryId : Int) : Bool :=
  registry.repositories.any fun repository =>
    repository.id = repositoryId && repository.installationId = installationId

def PullRequestSnapshot.row (snapshot : PullRequestSnapshot) : PullRequestRecord :=
  { snapshot with watched := snapshot.state = .open }

def storePullRequests (tables : Tables) (pullRequests : List PullRequestRecord) :
    Except StorageError Tables :=
  if (pullRequests.map fun pullRequest => pullRequest.githubId).Nodup then
    .ok { tables with pullRequests }
  else .error (.unique "pull_requests_github_id_key")

/-- A row that is newer than the snapshot stays. -/
def upsertPullRequestOn (snapshot : PullRequestSnapshot) (tables : Tables) :
    Except StorageError Tables :=
  if tables.pullRequests.any fun pullRequest => pullRequest.key = snapshot.key then
    storePullRequests tables (tables.pullRequests.map fun pullRequest =>
      if pullRequest.key = snapshot.key ∧ pullRequest.updatedAt ≤ snapshot.updatedAt then
        snapshot.row
      else pullRequest)
  else if tables.hasRepository snapshot.repositoryId then
    storePullRequests tables (tables.pullRequests ++ [snapshot.row])
  else .error (.foreignKey "pull_requests_repository_id_fkey")

/-- A repaired item stays resolved. -/
def FeedbackItem.update (item : FeedbackItem) (feedback : Reconcile.FeedbackRecord) :
    FeedbackItem :=
  { item with
    actorLogin := feedback.actorLogin
    actorType := feedback.actorType
    body := feedback.body
    resolved := feedback.resolved ||
      ((item.repairState = .applied || item.repairState = .rejected) && item.resolved)
    isAutomation := feedback.isAutomation }

def upsertFeedbackOn (repositoryId pullRequestNumber : Int) (feedback : Reconcile.FeedbackRecord)
    (tables : Tables) : Except StorageError Tables :=
  if tables.feedbackItems.any fun item => item.id = feedback.id then
    .ok { tables with
      feedbackItems := tables.feedbackItems.map fun item =>
        if item.id = feedback.id then item.update feedback else item }
  else if tables.hasRepository repositoryId then
    .ok { tables with
      feedbackItems := tables.feedbackItems ++
        [⟨feedback.id, repositoryId, pullRequestNumber, feedback.actorLogin, feedback.actorType,
          feedback.body, feedback.resolved, feedback.isAutomation, .unreviewed, none, false⟩] }
  else .error (.foreignKey "feedback_items_repository_id_fkey")

def upsertCheckOn (repositoryId pullRequestNumber : Int) (check : CheckRecord) (tables : Tables) :
    Except StorageError Tables :=
  let row : CheckItem := ⟨repositoryId, pullRequestNumber, check.externalId, check.name,
    check.status, check.conclusion, check.detailsUrl⟩
  if tables.checks.any fun item => item.key = row.key then
    .ok { tables with
      checks := tables.checks.map fun item => if item.key = row.key then row else item }
  else if tables.hasRepository repositoryId then
    .ok { tables with checks := tables.checks ++ [row] }
  else .error (.foreignKey "checks_repository_id_fkey")

end PiTools
