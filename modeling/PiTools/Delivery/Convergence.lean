import PiTools.Delivery.Granting
import PiTools.Delivery.Snapshots

/-
This file interleaves the deliveries, the periodic inventory and the
reconciliations of pull requests, which share one register for each of them.
-/

namespace PiTools

open Library

/-! ### Reads of GitHub -/

namespace Snapshots

structure GitHubPullRequestBranch where
  sha : String
  reference : Option String

structure GitHubPullRequest where
  draft : Bool
  state : Option String
  merged : Option Bool
  head : GitHubPullRequestBranch
  base : GitHubPullRequestBranch

structure GitHubOpenPullRequest where
  id : Int
  number : Int
  title : String
  htmlUrl : String
  state : String
  draft : Bool
  merged : Bool
  head : GitHubPullRequestBranch
  base : GitHubPullRequestBranch
  userLogin : String
  updatedAt : Option Timestamp

/-- Every other state of an unmerged pull request counts as open. -/
def readState (merged : Bool) (state : Option String) : PullRequestState :=
  if merged then .merged else if state = some "closed" then .closed else .open

/-- The snapshot that `reconcile` saves. -/
def reconciledSnapshot (pullRequest : PullRequestRecord) (data : GitHubPullRequest)
    (now : Timestamp) : PullRequestSnapshot where
  repositoryId := pullRequest.repositoryId
  githubId := pullRequest.githubId
  number := pullRequest.number
  title := pullRequest.title
  url := pullRequest.url
  state := readState (data.merged.getD false) data.state
  draft := data.draft
  merged := data.merged.getD false
  headSha := data.head.sha
  baseSha := data.base.sha
  headBranch := data.head.reference.getD pullRequest.headBranch
  baseBranch := data.base.reference.getD pullRequest.baseBranch
  authorLogin := pullRequest.authorLogin
  updatedAt := now

/-- The snapshot of `reconcile_repository_inventory`, which skips a missing branch. -/
def inventorySnapshot (repositoryId : Int) (pullRequest : GitHubOpenPullRequest)
    (now : Timestamp) : Option PullRequestSnapshot := do
  let headBranch ← pullRequest.head.reference
  let baseBranch ← pullRequest.base.reference
  pure
    { repositoryId
      githubId := pullRequest.id
      number := pullRequest.number
      title := pullRequest.title
      url := pullRequest.htmlUrl
      state := readState pullRequest.merged (some pullRequest.state)
      draft := pullRequest.draft
      merged := pullRequest.merged
      headSha := pullRequest.head.sha
      baseSha := pullRequest.base.sha
      headBranch, baseBranch
      authorLogin := pullRequest.userLogin
      updatedAt := pullRequest.updatedAt.getD now }

/-- GitHub answers a read with the version. A missing base branch fails the read. -/
structure GitHubPullRequest.Shows (data : GitHubPullRequest) (version : PullRequestVersion) :
    Prop where
  state : readState (data.merged.getD false) data.state = version.state
  draft : data.draft = version.draft
  headSha : data.head.sha = version.headSha
  baseSha : data.base.sha = version.baseSha
  headBranch : ∀ branch, data.head.reference = some branch → branch = version.headBranch
  baseBranch : data.base.reference = some version.baseBranch

/-- GitHub lists the version. -/
structure GitHubOpenPullRequest.Shows (listed : GitHubOpenPullRequest)
    (version : PullRequestVersion) : Prop where
  state : readState listed.merged (some listed.state) = version.state
  draft : listed.draft = version.draft
  headSha : listed.head.sha = version.headSha
  baseSha : listed.base.sha = version.baseSha
  headBranch : ∀ branch, listed.head.reference = some branch → branch = version.headBranch
  baseBranch : ∀ branch, listed.base.reference = some branch → branch = version.baseBranch
  updatedAt : ∀ moment, listed.updatedAt = some moment → moment = version.updatedAt

end Snapshots

/-! ### The system -/

/-- How far a reconciliation came. -/
inductive ReconcileStage
  | loaded
  | read (data : Snapshots.GitHubPullRequest) (version : PullRequestVersion)
      (view : data.Shows version)
  | saved

/-- A reconciliation with the row that it loaded. -/
structure Reconciliation where
  pullRequest : PullRequestRecord
  stage : ReconcileStage

/-- A pull request that the inventory listed and has still to store. -/
structure ListedPullRequest where
  repositoryId : Int
  pullRequest : Snapshots.GitHubOpenPullRequest
  version : PullRequestVersion
  view : pullRequest.Shows version

def ListedPullRequest.key (item : ListedPullRequest) : Int × Int :=
  (item.repositoryId, item.pullRequest.number)

structure SnapshotSystem where
  tables : Tables
  now : Timestamp
  published : Int × Int → List PullRequestVersion
  reconciliations : List Reconciliation
  listed : List ListedPullRequest
  /-- The history of the versions that upserts carried, which no step reads. -/
  carried : Int × Int → List PullRequestVersion

def SnapshotSystem.publish (system : SnapshotSystem) (key : Int × Int)
    (version : PullRequestVersion) : SnapshotSystem :=
  { system with
    published := Function.update system.published key (system.published key ++ [version]) }

/-- An upsert adds its version to the history. -/
def SnapshotSystem.carry (system : SnapshotSystem) (key : Int × Int) (version : PullRequestVersion)
    (tables : Tables) : SnapshotSystem :=
  { system with
    tables, carried := Function.update system.carried key (system.carried key ++ [version]) }

inductive SnapshotAction
  | publish (key : Int × Int) (version : PullRequestVersion)
  | advance (elapsed : Nat)
  | deliver (snapshot : PullRequestSnapshot) (version : PullRequestVersion)
  | list (item : ListedPullRequest)
  | record (item : ListedPullRequest)
  | forget (item : ListedPullRequest)
  | load (pullRequest : PullRequestRecord)
  | read (pullRequest : PullRequestRecord) (version : PullRequestVersion)
  | save (pullRequest : PullRequestRecord) (data : Snapshots.GitHubPullRequest)
      (version : PullRequestVersion)
  | evaluate (pullRequest : PullRequestRecord)
  | leave (reconciliation : Reconciliation)

/-- Every step is one statement, one transaction or one read of GitHub. -/
inductive SnapshotSystem.Step (packages : Packages) (system : SnapshotSystem) :
    SnapshotAction → SnapshotSystem → Prop
  | published {key : Int × Int} {version : PullRequestVersion}
      (newer : ∀ other ∈ system.published key, other.updatedAt < version.updatedAt) :
      Step packages system (.publish key version) (system.publish key version)
  | advanced (elapsed : Nat) :
      Step packages system (.advance elapsed) { system with now := system.now + elapsed }
  | delivered {delivery : WebhookEnvelope} {snapshot : PullRequestSnapshot}
      {version : PullRequestVersion} {tables : Tables} (event : delivery.eventName = "pull_request")
      (parsed : delivery.pullRequestSnapshot packages.parseFromRfc3339 = .ok (some snapshot))
      (source : version ∈ system.published snapshot.key)
      (content : snapshot.content = version.toPullRequestContent)
      (updatedAt : snapshot.updatedAt = version.updatedAt)
      (applied : applyDelivery packages none system.now system.tables delivery = .ok tables) :
      Step packages system (.deliver snapshot version) (system.carry snapshot.key version tables)
  | listed {item : ListedPullRequest} (source : item.version ∈ system.published item.key) :
      Step packages system (.list item) { system with listed := system.listed ++ [item] }
  -- Outside of a transaction the same statement stores the snapshot.
  | recorded {item : ListedPullRequest} {snapshot : PullRequestSnapshot} {tables : Tables}
      {listed : List ListedPullRequest}
      (complete : Snapshots.inventorySnapshot item.repositoryId item.pullRequest system.now =
        some snapshot)
      (wrote : upsertPullRequestOn snapshot system.tables = .ok tables)
      (next : Replaces system.listed item [] listed) :
      Step packages system (.record item)
        { system.carry item.key item.version tables with listed }
  | forgot {item : ListedPullRequest} {listed : List ListedPullRequest}
      (next : Replaces system.listed item [] listed) :
      Step packages system (.forget item) { system with listed }
  | loaded {pullRequest : PullRequestRecord}
      (found : system.tables.pullRequestRow pullRequest.key = some pullRequest) :
      Step packages system (.load pullRequest)
        { system with reconciliations := system.reconciliations ++ [⟨pullRequest, .loaded⟩] }
  | read {pullRequest : PullRequestRecord} {data : Snapshots.GitHubPullRequest}
      {version : PullRequestVersion} {reconciliations : List Reconciliation}
      (source : version ∈ system.published pullRequest.key) (view : data.Shows version)
      (next : Replaces system.reconciliations ⟨pullRequest, .loaded⟩
        [⟨pullRequest, .read data version view⟩] reconciliations) :
      Step packages system (.read pullRequest version) { system with reconciliations }
  | saved {pullRequest : PullRequestRecord} {data : Snapshots.GitHubPullRequest}
      {version : PullRequestVersion} {view : data.Shows version}
      {reconciliations : List Reconciliation} {tables : Tables}
      (wrote : upsertPullRequestOn (Snapshots.reconciledSnapshot pullRequest data system.now)
        system.tables = .ok tables)
      (next : Replaces system.reconciliations ⟨pullRequest, .read data version view⟩
        [⟨pullRequest, .saved⟩] reconciliations) :
      Step packages system (.save pullRequest data version)
        { system.carry pullRequest.key version tables with reconciliations }
  | evaluated {pullRequest : PullRequestRecord} {reconciliations : List Reconciliation}
      (next : Replaces system.reconciliations ⟨pullRequest, .saved⟩ [] reconciliations) :
      Step packages system (.evaluate pullRequest)
        { system with
          tables := stampPullRequest pullRequest.key system.now system.tables, reconciliations }
  | left {reconciliation : Reconciliation} {reconciliations : List Reconciliation}
      (next : Replaces system.reconciliations reconciliation [] reconciliations) :
      Step packages system (.leave reconciliation) { system with reconciliations }

/-- The row of every pull request shows the newest version that any upsert carried. -/
def SnapshotSystem.Converged (system : SnapshotSystem) : Prop :=
  ∀ key, Newest (fun version : PullRequestVersion => version.updatedAt)
    PullRequestVersion.toPullRequestContent (system.carried key)
    ((system.tables.pullRequestRow key).map fun row => row.content)

structure SnapshotSystem.Initial (system : SnapshotSystem) : Prop where
  pullRequests : system.tables.pullRequests = []
  carried : ∀ key, system.carried key = []

/-- An upsert of the version with this stamp meets a row whose stamp is in their order. -/
def SnapshotSystem.Follows (system : SnapshotSystem) (key : Int × Int)
    (version : PullRequestVersion) (stamp : Timestamp) : Prop :=
  StampsFollow (fun version : PullRequestVersion => version.updatedAt)
    (fun row : PullRequestRecord => row.updatedAt) (system.carried key)
    (system.tables.pullRequestRow key) version stamp

/-- Every upsert follows the order of the versions, and a missing branch is the loaded one. -/
def StampsInOrder (system : SnapshotSystem) : SnapshotAction → Prop
  | .deliver snapshot version => system.Follows snapshot.key version version.updatedAt
  | .record item => system.Follows item.key item.version
      (item.pullRequest.updatedAt.getD system.now)
  | .save pullRequest data version => system.Follows pullRequest.key version system.now ∧
      (data.head.reference = none → pullRequest.headBranch = version.headBranch)
  | _ => True

def OrderedStep (packages : Packages) (system : SnapshotSystem) (action : SnapshotAction)
    (next : SnapshotSystem) : Prop :=
  system.Step packages action next ∧ StampsInOrder system action

/-! ### Runs -/

section Contents

variable {version : PullRequestVersion} {now : Timestamp}

theorem reconciledSnapshot_content {data : Snapshots.GitHubPullRequest} (view : data.Shows version)
    {pullRequest : PullRequestRecord}
    (branch : data.head.reference = none → pullRequest.headBranch = version.headBranch) :
    (Snapshots.reconciledSnapshot pullRequest data now).content = version.toPullRequestContent := by
  have head : data.head.reference.getD pullRequest.headBranch = version.headBranch := by
    cases named : data.head.reference with
    | none => exact branch named
    | some reference => exact view.headBranch reference named
  have base : data.base.reference.getD pullRequest.baseBranch = version.baseBranch := by
    rw [view.baseBranch, Option.getD_some]
  simp only [Snapshots.reconciledSnapshot, PullRequestSnapshot.content, head, base, view.state,
    view.draft, view.headSha, view.baseSha]

theorem inventorySnapshot_content {item : ListedPullRequest} {snapshot : PullRequestSnapshot}
    (complete : Snapshots.inventorySnapshot item.repositoryId item.pullRequest now = some snapshot) :
    snapshot.key = item.key ∧ snapshot.content = item.version.toPullRequestContent ∧
      snapshot.updatedAt = item.pullRequest.updatedAt.getD now := by
  have view := item.view
  unfold Snapshots.inventorySnapshot at complete
  obtain ⟨headBranch, head, complete⟩ := Option.bind_eq_some_iff.mp complete
  obtain ⟨baseBranch, base, complete⟩ := Option.bind_eq_some_iff.mp complete
  cases complete
  refine ⟨rfl, ?_, rfl⟩
  simp only [PullRequestSnapshot.content, view.headBranch _ head, view.baseBranch _ base, view.state,
    view.draft, view.headSha, view.baseSha]

end Contents

section Runs

variable {packages : Packages} {start system next finish : SnapshotSystem}
  {actions : List SnapshotAction} {action : SnapshotAction}

/-- An upsert in the order of the versions keeps the newest one. -/
theorem SnapshotSystem.Converged.carry (converged : system.Converged) {tables : Tables}
    {snapshot : PullRequestSnapshot} {version : PullRequestVersion}
    (content : snapshot.content = version.toPullRequestContent)
    (follows : system.Follows snapshot.key version snapshot.updatedAt)
    (wrote : ∀ key, tables.pullRequestRow key = if key = snapshot.key then
      writeLater (fun row => row.updatedAt) (system.tables.pullRequestRow key) snapshot.row
    else system.tables.pullRequestRow key) :
    (system.carry snapshot.key version tables).Converged := by
  intro key
  show Newest _ _ (Function.update system.carried snapshot.key _ key)
    ((tables.pullRequestRow key).map _)
  rw [wrote]
  by_cases mine : key = snapshot.key
  · subst mine
    rw [if_pos rfl, Function.update_self]
    exact (converged snapshot.key).write content.symm follows
  · rw [if_neg mine, Function.update_of_ne mine]
    exact converged key

theorem SnapshotSystem.Converged.step (converged : system.Converged)
    (step : system.Step packages action next) (ordered : StampsInOrder system action) :
    next.Converged := by
  cases step with
  | published | advanced | listed | forgot | loaded | read | left => exact converged
  | delivered event parsed source content updatedAt applied =>
      apply converged.carry content
      · rw [updatedAt]
        exact ordered
      · exact applyDelivery_snapshot event parsed applied
  | recorded complete wrote =>
      obtain ⟨key, content, updatedAt⟩ := inventorySnapshot_content complete
      have carried := converged.carry content (by rwa [key, updatedAt])
        (upsertPullRequestOn_row wrote)
      rwa [key] at carried
  | @saved pullRequest data version view reconciliations tables wrote =>
      have content : (Snapshots.reconciledSnapshot pullRequest data system.now).content =
          version.toPullRequestContent := reconciledSnapshot_content view ordered.2
      have carried := converged.carry content ordered.1 (upsertPullRequestOn_row wrote)
      exact carried
  | evaluated =>
      intro key
      show Newest _ _ _ (((stampPullRequest _ _ _).pullRequestRow key).map _)
      rw [stampPullRequest_content]
      exact converged key

/-- The rows show the newest versions when every upsert finds the stamps in their order. -/
theorem snapshots_converge (initial : start.Initial)
    (run : Run (OrderedStep packages) start actions finish) : finish.Converged := by
  apply run.invariant SnapshotSystem.Converged
  · intro key
    rw [initial.carried, Registry.pullRequestRow, initial.pullRequests]
    exact rfl
  · intro system action next converged step
    exact converged.step step.1 step.2

end Runs

/-! ### A push between the read and the save -/

def pushedVersion (headSha : String) (updatedAt : Timestamp) : PullRequestVersion :=
  ⟨⟨headSha, "base", "feature", "main", .open, false⟩, updatedAt⟩

def pushedText (headSha : String) : String :=
  if headSha = "old" then "1970-01-01T00:00:01Z" else "1970-01-01T00:00:02Z"

/-- A delivery of the pull request 3 at the head. -/
def pushedDelivery (headSha : String) : WebhookEnvelope :=
  .fromPayload "delivery" "pull_request" (.object [
    ("action", .string "synchronize"),
    ("installation", .object [("id", .ofInt 1)]),
    ("pull_request", .object [
      ("base", .object [("ref", .string "main"), ("sha", .string "base")]),
      ("head", .object [("ref", .string "feature"), ("sha", .string headSha)]),
      ("html_url", .string "url"), ("id", .ofInt 30), ("number", .ofInt 3),
      ("state", .string "open"), ("title", .string "title"),
      ("updated_at", .string (pushedText headSha)),
      ("user", .object [("login", .string "author")])]),
    ("repository", .object [("id", .ofInt 7), ("name", .string "web")])]) []

/-- The packages answer as the real ones do on the times of the two deliveries. -/
def pushedPackages : Packages :=
  { plainPackages with
    parseFromRfc3339 := fun text =>
      if text = "1970-01-01T00:00:01Z" then some 1000000
      else if text = "1970-01-01T00:00:02Z" then some 2000000
      else none }

def pushedSnapshot (headSha : String) (updatedAt : Timestamp) : PullRequestSnapshot :=
  ⟨7, 30, 3, "title", "url", .open, false, false, headSha, "base", "feature", "main", "author",
    updatedAt⟩

def pushedTables (headSha : String) (updatedAt : Timestamp) : Tables :=
  ⟨⟨[⟨1, "unknown", "Unknown", false⟩], [⟨7, 1, "unknown", "web", "main", true, ""⟩],
    [(pushedSnapshot headSha updatedAt).row]⟩, [], [], []⟩

/-- The answer of GitHub before the push. -/
def pushedData : Snapshots.GitHubPullRequest :=
  ⟨false, some "open", some false, ⟨"old", some "feature"⟩, ⟨"base", some "main"⟩⟩

theorem pushedData_shows : pushedData.Shows (pushedVersion "old" 1000000) :=
  ⟨rfl, rfl, rfl, rfl, by simp [pushedData, pushedVersion], rfl⟩

theorem old_applied : applyDelivery pushedPackages none 3000000 noTables (pushedDelivery "old") =
    .ok (pushedTables "old" 1000000) := by decide

theorem new_applied : applyDelivery pushedPackages none 3000000 (pushedTables "old" 1000000)
    (pushedDelivery "new") = .ok (pushedTables "new" 2000000) := by decide

def pushedStart : SnapshotSystem := ⟨noTables, 3000000, fun _ => [], [], [], fun _ => []⟩

def pushedRow : PullRequestRecord := (pushedSnapshot "old" 1000000).row

def pushedRead : SnapshotSystem :=
  { (pushedStart.publish (7, 3) (pushedVersion "old" 1000000)).carry (7, 3)
      (pushedVersion "old" 1000000) (pushedTables "old" 1000000) with
    reconciliations := [⟨pushedRow, .read pushedData _ pushedData_shows⟩] }

/-- The reconciliation stores its readiness after its save. -/
def pushedSaved (system : SnapshotSystem) : SnapshotSystem :=
  { system.carry (7, 3) (pushedVersion "old" 1000000) (pushedTables "old" 3000000) with
    tables := stampPullRequest (7, 3) 3000000 (pushedTables "old" 3000000), reconciliations := [] }

def pushedBefore : List SnapshotAction :=
  [.publish (7, 3) (pushedVersion "old" 1000000),
    .deliver (pushedSnapshot "old" 1000000) (pushedVersion "old" 1000000), .load pushedRow,
    .read pushedRow (pushedVersion "old" 1000000)]

def pushedSave : List SnapshotAction :=
  [.save pushedRow pushedData (pushedVersion "old" 1000000), .evaluate pushedRow]

theorem SnapshotSystem.mem_publish (system : SnapshotSystem) (key : Int × Int)
    (version : PullRequestVersion) : version ∈ (system.publish key version).published key := by
  simp [SnapshotSystem.publish]

theorem pushed_before : Run (OrderedStep pushedPackages) pushedStart pushedBefore pushedRead := by
  have source := pushedStart.mem_publish (7, 3) (pushedVersion "old" 1000000)
  apply Run.cons ⟨.published (by simp [pushedStart]), trivial⟩
  apply Run.cons ⟨.delivered rfl (show (pushedDelivery "old").pullRequestSnapshot _ = _ by decide)
    source rfl rfl old_applied, ⟨nofun, nofun⟩⟩
  apply Run.cons ⟨.loaded (show (pushedTables "old" 1000000).pullRequestRow (7, 3) = _ by decide),
    trivial⟩
  exact Run.single ⟨.read source pushedData_shows ⟨[], [], rfl, rfl⟩, trivial⟩

/-- The save finds its own version and the stamp of its delivery. -/
theorem pushed_saved :
    Run (OrderedStep pushedPackages) pushedRead pushedSave (pushedSaved pushedRead) := by
  have carried : pushedRead.carried (7, 3) = [pushedVersion "old" 1000000] := by
    simp [pushedRead, pushedStart, SnapshotSystem.carry, SnapshotSystem.publish]
  have ordered : pushedRead.Follows (7, 3) (pushedVersion "old" 1000000) 3000000 := by
    constructor
    · intro _ _ newer
      exact absurd (newer _ (carried ▸ List.mem_singleton_self _)) (Nat.lt_irrefl _)
    · intro _ _ other member older
      rw [carried, List.mem_singleton] at member
      exact absurd older (member ▸ Nat.lt_irrefl _)
  apply Run.cons ⟨.saved (show upsertPullRequestOn _ (pushedTables "old" 1000000) =
    .ok (pushedTables "old" 3000000) by decide) ⟨[], [], rfl, rfl⟩, ordered, fun _ => rfl⟩
  exact Run.single ⟨.evaluated ⟨[], [], rfl, rfl⟩, trivial⟩

theorem snapshots_converge_saved : (pushedSaved pushedRead).Converged :=
  snapshots_converge (show pushedStart.Initial from ⟨rfl, fun _ => rfl⟩)
    (pushed_before.append pushed_saved)

/-- A new version arrives between the read and the save. -/
def pushedNew : SnapshotSystem :=
  (pushedRead.publish (7, 3) (pushedVersion "new" 2000000)).carry (7, 3)
    (pushedVersion "new" 2000000) (pushedTables "new" 2000000)

def pushedAfter : List SnapshotAction :=
  [.publish (7, 3) (pushedVersion "new" 2000000),
    .deliver (pushedSnapshot "new" 2000000) (pushedVersion "new" 2000000)] ++ pushedSave

theorem pushed_after :
    Run (SnapshotSystem.Step pushedPackages) pushedRead pushedAfter (pushedSaved pushedNew) := by
  have older : ∀ other ∈ pushedRead.published (7, 3), other.updatedAt <
      (pushedVersion "new" 2000000).updatedAt := by
    simp [pushedRead, pushedStart, SnapshotSystem.carry, SnapshotSystem.publish, pushedVersion]
  apply Run.cons (.published older)
  apply Run.cons (.delivered rfl (show (pushedDelivery "new").pullRequestSnapshot _ = _ by decide)
    (pushedRead.mem_publish (7, 3) _) rfl rfl new_applied)
  apply Run.cons (.saved (show upsertPullRequestOn _ (pushedTables "new" 2000000) =
    .ok (pushedTables "old" 3000000) by decide) ⟨[], [], rfl, rfl⟩)
  exact Run.single (.evaluated ⟨[], [], rfl, rfl⟩)

/-- The save stores what it read before the push, under a stamp that is later than the push. -/
theorem pushed_version_overwritten :
    ¬ ∀ (packages : Packages) (start finish : SnapshotSystem) (actions : List SnapshotAction),
      start.Initial → Run (SnapshotSystem.Step packages) start actions finish →
      finish.Converged := by
  intro claimed
  have run := (pushed_before.mono fun _ _ _ step => step.1).append pushed_after
  have converged := claimed _ _ _ _ ⟨rfl, fun _ => rfl⟩ run (7, 3)
  have stored : (pushedSaved pushedNew).tables.pullRequestRow (7, 3) =
      some (pushedSnapshot "old" 3000000).row := by decide
  have carried : (pushedSaved pushedNew).carried (7, 3) =
      [pushedVersion "old" 1000000, pushedVersion "new" 2000000, pushedVersion "old" 1000000] := by
    simp [pushedSaved, pushedNew, pushedRead, pushedStart, SnapshotSystem.carry,
      SnapshotSystem.publish]
  rw [stored, carried] at converged
  obtain ⟨newest, member, same, above⟩ := converged
  have latest : 2000000 ≤ newest.updatedAt := above (pushedVersion "new" 2000000) (by simp)
  simp only [List.mem_cons, List.not_mem_nil, or_false] at member
  rcases member with rfl | rfl | rfl
  · simp [pushedVersion] at latest
  · simp [pushedVersion, pushedSnapshot, PullRequestSnapshot.row, PullRequestSnapshot.content] at same
  · simp [pushedVersion] at latest

end PiTools
