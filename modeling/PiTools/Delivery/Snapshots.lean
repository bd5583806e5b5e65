import PiTools.Delivery.Repositories
import PiTools.Library.Register

/-
This file reads the row of a pull request as a register, which the upserts write
and in which the latest `updated_at` wins.
-/

namespace PiTools

open Library

/-! ### Versions -/

/-- What a version of a pull request says about its branches and its state. -/
structure PullRequestContent where
  headSha : String
  baseSha : String
  headBranch : String
  baseBranch : String
  state : PullRequestState
  draft : Bool
  deriving DecidableEq, Repr

/-- A version of a pull request on GitHub. -/
structure PullRequestVersion extends PullRequestContent where
  updatedAt : Timestamp
  deriving DecidableEq, Repr

def PullRequestSnapshot.content (snapshot : PullRequestSnapshot) : PullRequestContent :=
  ⟨snapshot.headSha, snapshot.baseSha, snapshot.headBranch, snapshot.baseBranch, snapshot.state,
    snapshot.draft⟩

/-- The row of a pull request, under the primary key of its table. -/
def Registry.pullRequestRow (registry : Registry) (key : Int × Int) : Option PullRequestRecord :=
  rowAt (fun pullRequest : PullRequestRecord => pullRequest.key) registry.pullRequests key

/-- The statement on `pull_requests` in `save_readiness`, which stores the readiness too. -/
def stampPullRequest (key : Int × Int) (now : Timestamp) (tables : Tables) : Tables :=
  { tables with
    pullRequests := tables.pullRequests.map fun pullRequest =>
      if pullRequest.key = key then { pullRequest with updatedAt := now } else pullRequest }

section Rows

variable {tables next : Tables} {snapshot : PullRequestSnapshot} {key : Int × Int}
  {packages : Packages} {delivery : WebhookEnvelope} {now : Timestamp}

theorem storePullRequests_ok {pullRequests : List PullRequestRecord}
    (stored : storePullRequests tables pullRequests = .ok next) :
    { tables with pullRequests } = next := by
  unfold storePullRequests at stored
  split at stored
  · exact Except.ok.inj stored
  · cases stored

/-- An upsert writes the register of its own pull request. -/
theorem upsertPullRequestOn_row (wrote : upsertPullRequestOn snapshot tables = .ok next)
    (key : Int × Int) :
    next.pullRequestRow key = if key = snapshot.key then
      writeLater (fun row => row.updatedAt) (tables.pullRequestRow key) snapshot.row
    else tables.pullRequestRow key := by
  unfold upsertPullRequestOn at wrote
  rw [rowAt_any] at wrote
  split at wrote
  · rename_i present
    obtain rfl := storePullRequests_ok wrote
    have keeps (row : PullRequestRecord) :
        (if row.key = snapshot.key ∧ row.updatedAt ≤ snapshot.updatedAt then snapshot.row
          else row).key = row.key := by
      split
      · rename_i here
        exact here.1.symm
      · rfl
    rw [Registry.pullRequestRow, rowAt_map fun row _ => keeps row]
    by_cases mine : key = snapshot.key
    · rw [if_pos mine, Registry.pullRequestRow, mine]
      obtain ⟨row, found⟩ := Option.isSome_iff_exists.mp present
      have same : row.key = snapshot.key := by
        simpa only using rowAt_key found
      rw [found, Option.map_some]
      by_cases later : row.updatedAt ≤ snapshot.updatedAt
      · rw [if_pos ⟨same, later⟩]
        exact Eq.symm (writeLater_later later)
      · rw [if_neg (fun both => later both.2)]
        exact Eq.symm (writeLater_earlier (Nat.lt_of_not_le later))
    · rw [if_neg mine, Registry.pullRequestRow]
      cases found : rowAt (fun row : PullRequestRecord => row.key) tables.pullRequests key with
      | none => rfl
      | some row =>
          have own : row.key = key := by
            simpa only using rowAt_key found
          have other : row.key ≠ snapshot.key := fun same => mine (own.symm.trans same)
          rw [Option.map_some, if_neg (fun both => other both.1)]
  · rename_i absent
    split at wrote
    · obtain rfl := storePullRequests_ok wrote
      have fresh : rowAt (fun row : PullRequestRecord => row.key) tables.pullRequests
          snapshot.key = none := Option.not_isSome_iff_eq_none.mp absent
      have appended : rowAt (fun row : PullRequestRecord => row.key)
          (tables.pullRequests ++ [snapshot.row]) key = if key = snapshot.key then
            some snapshot.row else rowAt (fun row => row.key) tables.pullRequests key :=
        rowAt_append fresh
      rw [Registry.pullRequestRow, appended, Registry.pullRequestRow]
      by_cases mine : key = snapshot.key
      · rw [if_pos mine, if_pos mine, mine, fresh, writeLater_none]
      · rw [if_neg mine, if_neg mine]
    · cases wrote

/-- The stamp of a readiness keeps what the row says. -/
theorem stampPullRequest_content (key chosen : Int × Int) :
    ((stampPullRequest chosen now tables).pullRequestRow key).map (fun row => row.content) =
      (tables.pullRequestRow key).map fun row => row.content := by
  rw [stampPullRequest, Registry.pullRequestRow, rowAt_map, Registry.pullRequestRow, Option.map_map]
  · congr 1
    funext row
    simp only [Function.comp_apply]
    split <;> rfl
  · intro row _
    split <;> rfl

/-- A delivery of a pull request writes the register of its snapshot alone. -/
theorem applyDelivery_snapshot (event : delivery.eventName = "pull_request")
    (parsed : delivery.pullRequestSnapshot packages.parseFromRfc3339 = .ok (some snapshot))
    (applied : applyDelivery packages none now tables delivery = .ok next) (key : Int × Int) :
    next.pullRequestRow key = if key = snapshot.key then
      writeLater (fun row => row.updatedAt) (tables.pullRequestRow key) snapshot.row
    else tables.pullRequestRow key := by
  have payload : delivery.payloadSteps packages = [.statement fun _ => upsertPullRequestOn snapshot] := by
    rw [WebhookEnvelope.payloadSteps, WebhookEnvelope.snapshotSteps, parsed,
      WebhookEnvelope.feedbackSteps, WebhookEnvelope.feedbackRecord, WebhookEnvelope.checkSteps,
      WebhookEnvelope.checkRecord]
    simp [WebhookEnvelope.feedbackSource, event, recordSteps]
  have stored {before : Tables} (ran : runSteps none now 0 (delivery.payloadSteps packages) before =
      .ok next) : upsertPullRequestOn snapshot before = .ok next := by
    rw [payload] at ran
    simp only [runSteps, reduceCtorEq, if_false] at ran
    split at ran
    · cases ran
    · rename_i wrote
      cases ran
      exact wrote
  cases named : delivery.installationId with
  | none =>
      rw [applyDelivery, applySteps_eq, WebhookEnvelope.accessSteps, named, List.nil_append] at applied
      exact upsertPullRequestOn_row (stored applied) key
  | some installationId =>
      obtain ⟨listed, settled, listing, settling, storing⟩ := applyDelivery_phases named applied
      have unchanged : delivery.lifecycleSteps installationId = [] := by
        simp [WebhookEnvelope.lifecycleSteps, WebhookEnvelope.accessLifecycle, event]
      rw [unchanged] at settling
      cases settling
      have same : listed.pullRequestRow key = tables.pullRequestRow key := by
        obtain ⟨_, rfl⟩ := inputSteps_frame listing
        rw [Registry.pullRequestRow, Registry.pullRequestRow]
        unfold upsertInstallation
        split <;> rfl
      rw [upsertPullRequestOn_row (stored storing) key, same]

end Rows

end PiTools
