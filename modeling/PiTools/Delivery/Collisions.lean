import Mathlib.Logic.Encodable.Basic
import PiTools.Delivery.Granting

/-
This file shows when the deliveries about what exists on GitHub meet no stored
row of another repository.
-/

namespace PiTools

open Library

/-! ### GitHub -/

structure GitHubRepository where
  id : Int
  installationId : Int
  name : String
  deriving DecidableEq, Repr

/-- No two repositories of an installation share a name at one moment. -/
structure Moment where
  repositories : List GitHubRepository
  ids : (repositories.map GitHubRepository.id).Nodup
  names : (repositories.map fun repository =>
    (repository.installationId, repository.name)).Nodup

/-- The entry is about an existing repository of the installation. -/
def Moment.Describes (moment : Moment) (installationId : Int) (entry : Json) (repositoryId : Int) :
    Prop :=
  ∃ repository ∈ moment.repositories, repository.id = repositoryId ∧
    repository.installationId = installationId ∧
      (entry.get "name").bind Json.asStr = some repository.name

/-- A well-formed delivery about the moment. A pull request keeps its identifier for ever. -/
structure Reports (packages : Packages) (pullRequestId : Int × Int → Int) (moment : Moment)
    (delivery : WebhookEnvelope) : Prop where
  received : ∃ deliveryId eventName payload rawBody,
    delivery = .fromPayload deliveryId eventName payload rawBody
  installed : delivery.installationId.isSome = true
  repositories : ∀ installationId ∈ delivery.installationId, ∀ entry ∈ delivery.listedRepositories,
    ∀ repositoryId, (entry.get "id").bind Json.asInt64 = some repositoryId →
      moment.Describes installationId entry repositoryId
  wellFormed : ∀ reason, .reject reason ∉ delivery.payloadSteps packages
  pullRequests : ∀ snapshot,
    delivery.pullRequestSnapshot packages.parseFromRfc3339 = .ok (some snapshot) →
      snapshot.githubId = pullRequestId snapshot.key

/-- What the constraints and the past deliveries leave in the tables. -/
structure Tables.Consistent (pullRequestId : Int × Int → Int) (tables : Tables) : Prop where
  keyed : tables.Keyed
  names : (tables.repositories.map RepositoryRecord.fullName).Nodup
  pullRequests : ∀ pullRequest ∈ tables.pullRequests,
    pullRequest.githubId = pullRequestId pullRequest.key
  keys : (tables.pullRequests.map fun pullRequest => pullRequest.key).Nodup
  jobs : Constrained tables.jobs

/-! ### Names -/

/-- The unique name that the statement writes. -/
def RepositoryInput.fullName (registry : Registry) (input : RepositoryInput) :
    Int × String × String :=
  (((registry.repositoryRow input.id).map RepositoryRecord.installationId).getD
    input.installationId, input.owner, input.name)

/-- No row of another repository has the name, unless the delivery renames it first. -/
def NameFree (registry : Registry) (earlier : List RepositoryInput) (input : RepositoryInput) :
    Prop :=
  ∀ repository ∈ registry.repositories, repository.id ≠ input.id →
    repository.id ∉ earlier.map RepositoryInput.id →
      repository.fullName ≠ input.fullName registry

def NamesFree (registry : Registry) (inputs : List RepositoryInput) : Prop :=
  ∀ earlier input later, inputs = earlier ++ input :: later → NameFree registry earlier input

def nameTaken : StorageError := .unique "repositories_installation_id_owner_name_key"

section Names

variable {tables next : Tables} {inputs : List RepositoryInput} {input : RepositoryInput}
  {now : Timestamp}

theorem stored_fullName (registry : Registry) (input : RepositoryInput) :
    (input.store (registry.repositoryRow input.id)).fullName = input.fullName registry := by
  rw [RepositoryInput.store_eq fun _ (found : registry.repositoryRow input.id = some _) =>
    rowAt_key found]
  rfl

/-- A statement on a stored installation fails only where the name is taken. -/
theorem upsertRepositoryRow_outcome (installed : tables.hasInstallation input.installationId = true) :
    (∃ next, upsertRepositoryRow input tables = .ok next) ∨
      upsertRepositoryRow input tables = .error nameTaken := by
  unfold upsertRepositoryRow storeRepositories
  rw [if_pos installed]
  split
  · split
    · exact .inl ⟨_, rfl⟩
    · exact .inr rfl
  · split
    · exact .inl ⟨_, rfl⟩
    · exact .inr rfl

/-- The statement succeeds exactly if no other row has the name. -/
theorem upsertRepositoryRow_free (keyed : tables.Keyed)
    (names : (tables.repositories.map RepositoryRecord.fullName).Nodup)
    (installed : tables.hasInstallation input.installationId = true) :
    (∃ next, upsertRepositoryRow input tables = .ok next) ↔
      ∀ repository ∈ tables.repositories, repository.id ≠ input.id →
        repository.fullName ≠ input.fullName tables.toRegistry := by
  constructor
  · rintro ⟨next, wrote⟩ repository member other same
    have distinct : (next.repositories.map RepositoryRecord.fullName).Nodup := by
      obtain ⟨repositories, rfl, distinct, _⟩ := upsertRepositoryRow_eq_ok wrote
      exact distinct
    have kept := upsertRepositoryRow_row wrote repository.id
    rw [if_neg other, Registry.repositoryRow, Registry.repositoryRow,
      (rowAt_eq_some keyed.repositories).mpr ⟨member, rfl⟩] at kept
    have written := upsertRepositoryRow_row wrote input.id
    rw [if_pos rfl] at written
    have equal := row_unique RepositoryRecord.fullName distinct (rowAt_mem kept)
      (rowAt_mem written) (same.trans (stored_fullName tables.toRegistry input).symm)
    exact other (by rw [equal]; exact rowAt_key written)
  · intro free
    have written := stored_fullName tables.toRegistry input
    unfold upsertRepositoryRow
    rw [if_pos installed, hasRepository_row]
    cases stored : tables.repositoryRow input.id with
    | some row =>
        rw [stored] at written
        refine ⟨_, storeRepositories_eq_ok.mpr ⟨nodup_map_change keyed.repositories names
          (fun _ _ other => RepositoryInput.update_other other) ?_, rfl⟩⟩
        intro changed member mine other inside apart same
        have only := (rowAt_eq_some keyed.repositories).mpr ⟨member, mine⟩
        rw [← Registry.repositoryRow, stored, Option.some.injEq] at only
        subst only
        exact free other inside apart (same.trans written)
    | none =>
        rw [stored] at written
        refine ⟨_, storeRepositories_eq_ok.mpr ⟨?_, rfl⟩⟩
        rw [List.map_append, List.map_singleton]
        refine List.nodup_append.mpr ⟨names, List.nodup_singleton _, ?_⟩
        rintro old member new isNew rfl
        obtain ⟨other, inside, same⟩ := List.mem_map.mp member
        exact free other inside (rowAt_eq_none.mp stored other inside)
          (same.trans ((List.mem_singleton.mp isNew).trans written))

/-- The listings run on an installation that is stored. -/
def Installed (tables : Tables) (inputs : List RepositoryInput) : Prop :=
  ∀ input ∈ inputs, tables.hasInstallation input.installationId = true

theorem Installed.after (installed : Installed tables inputs) {others : List RepositoryInput}
    (ran : runSteps none now 0 (inputSteps others) tables = .ok next) : Installed next inputs := by
  obtain ⟨_, rfl⟩ := inputSteps_frame ran
  exact installed

/-- Listings fail only where a name is taken. -/
theorem inputSteps_outcome (installed : Installed tables inputs) :
    (∃ next, runSteps none now 0 (inputSteps inputs) tables = .ok next) ∨
      runSteps none now 0 (inputSteps inputs) tables = .error (.database nameTaken) := by
  induction inputs using List.reverseRecOn with
  | nil => exact .inl ⟨tables, rfl⟩
  | append_singleton inputs input ih =>
      have before : Installed tables inputs := fun other member =>
        installed other (List.mem_append_left _ member)
      rw [inputSteps, List.map_append, runSteps_append, ← inputSteps]
      rcases ih before with ⟨between, ran⟩ | failed
      · have here : between.hasInstallation input.installationId = true :=
          (Installed.after installed ran) input (by simp)
        rw [ran]
        rcases upsertRepositoryRow_outcome here with ⟨next, wrote⟩ | failed
        · exact .inl ⟨next, by simp [Except.bind, runSteps, wrote]⟩
        · exact .inr (by simp [Except.bind, runSteps, failed])
      · rw [failed]
        exact .inr rfl

theorem inputSteps_names (names : (tables.repositories.map RepositoryRecord.fullName).Nodup)
    (ran : runSteps none now 0 (inputSteps inputs) tables = .ok next) :
    (next.repositories.map RepositoryRecord.fullName).Nodup := by
  refine runSteps_keeps (fun later => (later.repositories.map RepositoryRecord.fullName).Nodup) ?_ 0
    names ran
  intro run member before after held wrote
  obtain ⟨input, _, same⟩ := List.mem_map.mp member
  obtain rfl := ApplyStep.statement.inj same
  obtain ⟨_, rfl, distinct, _⟩ := upsertRepositoryRow_eq_ok wrote
  exact distinct

/-- Two repositories that a delivery lists have different names. -/
def Distinguished (inputs : List RepositoryInput) : Prop :=
  ∀ input ∈ inputs, ∀ other ∈ inputs, input.id ≠ other.id → input.name ≠ other.name

theorem namesFree_snoc {registry : Registry} :
    NamesFree registry (inputs ++ [input]) ↔
      NamesFree registry inputs ∧ NameFree registry inputs input := by
  constructor
  · intro free
    refine ⟨fun earlier other later same => free earlier other (later ++ [input]) ?_,
      free inputs input [] rfl⟩
    rw [same, List.append_assoc, List.cons_append]
  · rintro ⟨before, last⟩ earlier other later same
    rcases List.eq_nil_or_concat later with rfl | ⟨between, final, rfl⟩
    · obtain ⟨rfl, only⟩ := List.append_inj' same rfl
      cases only
      exact last
    · rw [List.concat_eq_append, ← List.cons_append, ← List.append_assoc] at same
      obtain ⟨rfl, _⟩ := List.append_inj' same rfl
      exact before earlier other between rfl

/-- Earlier listings keep the installation under which a name is stored. -/
theorem listed_fullName (uniform : Uniform (inputs ++ [input]))
    (ran : runSteps none now 0 (inputSteps inputs) tables = .ok next) :
    input.fullName next.toRegistry = input.fullName tables.toRegistry := by
  have row := inputSteps_row uniform.initial ran input.id
  rw [RepositoryInput.fullName, RepositoryInput.fullName, row]
  cases last : lastInput inputs input.id with
  | none => rfl
  | some other =>
      obtain ⟨member, same⟩ := lastInput_mem last
      have mine (repository : RepositoryRecord)
          (found : tables.repositoryRow input.id = some repository) : repository.id = other.id :=
        (rowAt_key found).trans same.symm
      have installation := (uniform input (by simp) other (by simp [member])).1
      simp only [Option.elim_some, Option.map_some, RepositoryInput.store_eq mine, Option.getD_some,
        installation]

/-- After the earlier listings, a name is taken by another row or by nothing. -/
theorem listed_free (keyed : tables.Keyed) (uniform : Uniform (inputs ++ [input]))
    (distinguished : Distinguished (inputs ++ [input]))
    (ran : runSteps none now 0 (inputSteps inputs) tables = .ok next) :
    (∀ repository ∈ next.repositories, repository.id ≠ input.id →
        repository.fullName ≠ input.fullName next.toRegistry) ↔
      NameFree tables.toRegistry inputs input := by
  have rows := inputSteps_row uniform.initial ran
  rw [listed_fullName uniform ran]
  constructor
  · intro free repository member other unlisted
    have row := rows repository.id
    rw [lastInput_eq_none.mpr unlisted, Option.elim_none,
      show tables.repositoryRow repository.id = some repository from
        (rowAt_eq_some keyed.repositories).mpr ⟨member, rfl⟩] at row
    exact free repository (rowAt_mem row) other
  · intro free repository member other
    have row := rows repository.id
    rw [show next.repositoryRow repository.id = some repository from
      (rowAt_eq_some (inputSteps_keyed keyed ran).repositories).mpr ⟨member, rfl⟩] at row
    cases last : lastInput inputs repository.id with
    | none =>
        rw [last, Option.elim_none] at row
        exact free repository (rowAt_mem row.symm) other (lastInput_eq_none.mp last)
    | some listed =>
        obtain ⟨inside, same⟩ := lastInput_mem last
        have mine (old : RepositoryRecord)
            (found : tables.repositoryRow repository.id = some old) : old.id = listed.id :=
          (rowAt_key found).trans same.symm
        rw [last, Option.elim_some, Option.some.injEq, RepositoryInput.store_eq mine] at row
        intro equal
        refine distinguished listed (by simp [inside]) input (by simp) (by rwa [same]) ?_
        have names := congrArg (fun key => key.2.2) equal
        rw [row] at names
        exact names

/-- The listings of a delivery succeed exactly if their names are free. -/
theorem inputSteps_free (keyed : tables.Keyed)
    (names : (tables.repositories.map RepositoryRecord.fullName).Nodup)
    (installed : Installed tables inputs) (uniform : Uniform inputs)
    (distinguished : Distinguished inputs) :
    (∃ next, runSteps none now 0 (inputSteps inputs) tables = .ok next) ↔
      NamesFree tables.toRegistry inputs := by
  induction inputs using List.reverseRecOn with
  | nil => exact iff_of_true ⟨tables, rfl⟩ fun _ _ _ same => by simp at same
  | append_singleton inputs input ih =>
      have earlier := ih (fun other member => installed other (List.mem_append_left _ member))
        uniform.initial (fun first member second also => distinguished first
          (List.mem_append_left _ member) second (List.mem_append_left _ also))
      have turn {between : Tables}
          (ran : runSteps none now 0 (inputSteps inputs) tables = .ok between) :
          (∃ next, upsertRepositoryRow input between = .ok next) ↔
            NameFree tables.toRegistry inputs input :=
        (upsertRepositoryRow_free (inputSteps_keyed keyed ran) (inputSteps_names names ran)
          ((Installed.after installed ran) input (by simp))).trans
            (listed_free keyed uniform distinguished ran)
      simp only [inputSteps_snoc]
      rw [namesFree_snoc, ← earlier]
      constructor
      · rintro ⟨next, between, ran, wrote⟩
        exact ⟨⟨between, ran⟩, (turn ran).mp ⟨next, wrote⟩⟩
      · rintro ⟨⟨between, ran⟩, free⟩
        obtain ⟨next, wrote⟩ := (turn ran).mpr free
        exact ⟨next, between, ran, wrote⟩

end Names

/-! ### The other statements -/

section Statements

variable {packages : Packages} {pullRequestId : Int × Int → Int} {moment : Moment}
  {delivery : WebhookEnvelope} {tables next : Tables} {now : Timestamp} {installationId : Int}
  {run : Timestamp → Tables → Except StorageError Tables}

/-- The constraints read only the identities of the repositories. -/
theorem Tables.Consistent.of_identities (consistent : tables.Consistent pullRequestId)
    (same : tables.SameIdentities next.toRegistry)
    (pullRequests : next.pullRequests.map (fun pullRequest =>
        (pullRequest.githubId, pullRequest.key)) =
      tables.pullRequests.map fun pullRequest => (pullRequest.githubId, pullRequest.key))
    (jobs : Constrained next.jobs) : next.Consistent pullRequestId where
  keyed := same.keyed consistent.keyed
  names := by
    have names := congrArg (List.map RepositoryRecord.fullName) same.repositories
    rw [List.map_map, List.map_map] at names
    exact names ▸ consistent.names
  pullRequests pullRequest member := by
    have inside : (pullRequest.githubId, pullRequest.key) ∈
        tables.pullRequests.map fun old => (old.githubId, old.key) :=
      pullRequests ▸ List.mem_map_of_mem member
    obtain ⟨old, known, equal⟩ := List.mem_map.mp inside
    obtain ⟨githubId, key⟩ := Prod.mk.inj equal
    rw [← githubId, ← key]
    exact consistent.pullRequests old known
  keys := by
    have keys := congrArg (List.map Prod.snd) pullRequests
    rw [List.map_map, List.map_map] at keys
    exact keys ▸ consistent.keys
  jobs := jobs

/-- A change of access always succeeds. -/
theorem AccessStatement.succeeds (statement : AccessStatement run)
    (consistent : tables.Consistent pullRequestId) :
    ∃ next, run now tables = .ok next ∧ next.Consistent pullRequestId := by
  have identities {next : Tables} (wrote : run now tables = .ok next) :=
    statement.identities wrote
  cases statement with
  | suspension id suspended =>
      exact ⟨_, rfl, consistent.of_identities (identities rfl) rfl consistent.jobs⟩
  | deactivation chosen =>
      exact ⟨_, rfl, consistent.of_identities (identities rfl) rfl consistent.jobs⟩
  | unwatching chosen blind =>
      refine ⟨_, rfl, consistent.of_identities (identities rfl) ?_ consistent.jobs⟩
      rw [unwatchPullRequests, List.map_map]
      refine List.map_congr_left fun row _ => ?_
      simp only [Function.comp_apply]
      split <;> rfl
  | cancellation update cancels =>
      have wrote := updateJobs_cancel consistent.jobs (update (tables.database now).repositories) now
        fun job met => (cancels _ job met).2
      exact ⟨_, wrote, consistent.of_identities (identities wrote) rfl
        (constrained_cancelJobs _ consistent.jobs)⟩

/-- Rows with distinct keys and their own identifiers have distinct identifiers. -/
theorem identified_nodup (injective : Function.Injective pullRequestId)
    {pullRequests : List PullRequestRecord}
    (identified : ∀ pullRequest ∈ pullRequests,
      pullRequest.githubId = pullRequestId pullRequest.key)
    (keys : (pullRequests.map fun pullRequest => pullRequest.key).Nodup) :
    (pullRequests.map fun pullRequest => pullRequest.githubId).Nodup := by
  rw [List.map_congr_left identified]
  have mapped := keys.map injective
  rwa [List.map_map] at mapped

/-- A pull request is stored under its own identifier without a conflict. -/
theorem upsertPullRequestOn_succeeds (injective : Function.Injective pullRequestId)
    (consistent : tables.Consistent pullRequestId) {snapshot : PullRequestSnapshot}
    (mine : snapshot.githubId = pullRequestId snapshot.key)
    (known : tables.hasRepository snapshot.repositoryId = true) :
    ∃ next, upsertPullRequestOn snapshot tables = .ok next ∧ next.Consistent pullRequestId := by
  have stored {pullRequests : List PullRequestRecord}
      (identified : ∀ pullRequest ∈ pullRequests,
        pullRequest.githubId = pullRequestId pullRequest.key)
      (keys : (pullRequests.map fun pullRequest => pullRequest.key).Nodup) :
      ∃ next, storePullRequests tables pullRequests = .ok next ∧
        next.Consistent pullRequestId := by
    rw [storePullRequests, if_pos (identified_nodup injective identified keys)]
    exact ⟨_, rfl, ⟨consistent.keyed.installations, consistent.keyed.repositories⟩,
      consistent.names, identified, keys, consistent.jobs⟩
  unfold upsertPullRequestOn
  split
  · refine stored ?_ ?_
    · intro pullRequest member
      obtain ⟨old, inside, rfl⟩ := List.mem_map.mp member
      split
      · exact mine
      · exact consistent.pullRequests old inside
    · rw [List.map_map]
      have same : (tables.pullRequests.map ((fun pullRequest => pullRequest.key) ∘
          fun pullRequest => if pullRequest.key = snapshot.key ∧
            pullRequest.updatedAt ≤ snapshot.updatedAt then snapshot.row else pullRequest)) =
          tables.pullRequests.map fun pullRequest => pullRequest.key := by
        refine List.map_congr_left fun old _ => ?_
        simp only [Function.comp_apply]
        split
        · rename_i here
          exact here.1.symm
        · rfl
      exact same ▸ consistent.keys
  · rename_i absent
    have fresh : rowAt (fun pullRequest : PullRequestRecord => pullRequest.key)
        tables.pullRequests snapshot.row.key = none :=
      rowAt_eq_none.mpr fun row member same =>
        absent (List.any_eq_true.mpr ⟨row, member, decide_eq_true same⟩)
    refine stored ?_ (nodup_append consistent.keys fresh)
    intro pullRequest member
    rcases List.mem_append.mp member with old | new
    · exact consistent.pullRequests pullRequest old
    · rw [List.mem_singleton.mp new]
      exact mine

/-- The snapshot of a delivery is about its repository. -/
theorem snapshot_repository {snapshot : PullRequestSnapshot}
    (parsed : delivery.pullRequestSnapshot packages.parseFromRfc3339 = .ok (some snapshot)) :
    delivery.repositoryId = some snapshot.repositoryId := by
  unfold WebhookEnvelope.pullRequestSnapshot at parsed
  split at parsed
  · obtain ⟨record, read, same⟩ := map_eq_ok.mp parsed
    cases same
    simp only [WebhookEnvelope.payloadPullRequest, bind_eq_ok, okOr_eq_ok, pure_eq_ok] at read
    obtain ⟨_, _, repositoryId, named, rest⟩ := read
    rw [named]
    simp only [← exists_and_left] at rest
    obtain ⟨_, _, _, _, _, _, _, _, _, _, _, _, _, _, _, _, _, _, _, _, _, _, rfl⟩ := rest
    rfl
  · cases parsed

theorem RecordStatement.succeeds (statement : RecordStatement packages delivery run)
    (injective : Function.Injective pullRequestId)
    (reports : Reports packages pullRequestId moment delivery)
    (known : ∀ repositoryId ∈ delivery.repositoryId, tables.hasRepository repositoryId = true)
    (consistent : tables.Consistent pullRequestId) :
    ∃ next, run now tables = .ok next ∧ next.Consistent pullRequestId := by
  have kept {next : Tables} (registry : next.toRegistry = tables.toRegistry)
      (jobs : next.jobs = tables.jobs) : next.Consistent pullRequestId := by
    refine consistent.of_identities ?_ (by rw [registry]) (by rw [jobs]; exact consistent.jobs)
    rw [registry]
    exact .refl _
  cases statement with
  | snapshot snapshot parsed =>
      exact upsertPullRequestOn_succeeds injective consistent (reports.pullRequests snapshot parsed)
        (known _ (snapshot_repository parsed))
  | feedback repositoryId number feedback named =>
      simp only [upsertFeedbackOn, known repositoryId named, if_true]
      split
      · exact ⟨_, rfl, kept rfl rfl⟩
      · exact ⟨_, rfl, kept rfl rfl⟩
  | check repositoryId number check named =>
      simp only [upsertCheckOn, known repositoryId named, if_true]
      split
      · exact ⟨_, rfl, kept rfl rfl⟩
      · exact ⟨_, rfl, kept rfl rfl⟩

/-! ### Deliveries -/

/-- A received delivery lists the repository that it names. -/
theorem repositoryId_listed {deliveryId eventName : String} {payload : Json} {rawBody : List UInt8}
    {repositoryId : Int}
    (named : (WebhookEnvelope.fromPayload deliveryId eventName payload rawBody).repositoryId =
      some repositoryId) :
    repositoryId ∈ (WebhookEnvelope.fromPayload deliveryId eventName payload rawBody).listedIds := by
  obtain ⟨id, pointed, parsed⟩ := Option.bind_eq_some_iff.mp named
  have noIndex : Json.arrayIndex "repository" = none ∧ Json.arrayIndex "id" = none := by decide
  obtain ⟨repository, found, field⟩ : ∃ repository, payload.get "repository" = some repository ∧
      repository.get "id" = some id := by
    cases payload with
    | object fields =>
        obtain ⟨repository, found, inner⟩ := Option.bind_eq_some_iff.mp pointed
        refine ⟨repository, found, ?_⟩
        cases repository with
        | object fields =>
            obtain ⟨value, stored, last⟩ := Option.bind_eq_some_iff.mp inner
            cases last
            exact stored
        | array items => simp [Json.pointer, noIndex] at inner
        | null | bool | number | string => cases inner
    | array items => simp [Json.pointer, noIndex] at pointed
    | null | bool | number | string => cases pointed
  refine List.mem_filterMap.mpr ⟨repository, ?_, by rw [field, Option.bind_some, parsed]⟩
  simp [WebhookEnvelope.listedRepositories, WebhookEnvelope.fromPayload, found]

/-- The listings of a report carry the names of different repositories. -/
theorem Reports.distinguished (reports : Reports packages pullRequestId moment delivery)
    (mine : delivery.installationId = some installationId) :
    Distinguished (delivery.inputs installationId) := by
  have described (input : RepositoryInput) (member : input ∈ delivery.inputs installationId) :
      ∃ repository ∈ moment.repositories, repository.id = input.id ∧
        repository.installationId = installationId ∧ repository.name = input.name := by
    obtain ⟨entry, inside, parsed⟩ := List.mem_filterMap.mp member
    obtain ⟨id, read, rfl⟩ := Option.map_eq_some_iff.mp parsed
    obtain ⟨repository, exists_, same, owned, name⟩ :=
      reports.repositories installationId mine entry inside id read
    exact ⟨repository, exists_, same, owned, by simp [name]⟩
  intro input member other also apart same
  obtain ⟨first, inFirst, firstId, firstOwned, firstName⟩ := described input member
  obtain ⟨second, inSecond, secondId, secondOwned, secondName⟩ := described other also
  have equal := row_unique (fun repository : GitHubRepository =>
      (repository.installationId, repository.name)) moment.names inFirst inSecond
    (by rw [firstOwned, secondOwned, firstName, secondName, same])
  exact apart (by rw [← firstId, ← secondId, equal])

/-- The delivery finds the names of its repositories free. -/
def FindsNamesFree (registry : Registry) (delivery : WebhookEnvelope) : Prop :=
  ∀ installationId ∈ delivery.installationId,
    NamesFree registry (delivery.inputs installationId)

theorem lifecycleSteps_accepted (reason : EventParseError) :
    .reject reason ∉ delivery.lifecycleSteps installationId := by
  unfold WebhookEnvelope.lifecycleSteps
  split <;> simp [WebhookEnvelope.cancelInstallationSteps, ApplyStep.write,
    WebhookEnvelope.deactivateRepositorySteps]

/-- The installation and the listings of a delivery keep the tables consistent. -/
theorem listed_consistent {inputs : List RepositoryInput} {id : Int}
    {accountLogin accountType : String} (consistent : tables.Consistent pullRequestId)
    (ran : runSteps none now 0 (inputSteps inputs)
      (upsertInstallation id accountLogin accountType tables) = .ok next) :
    next.Consistent pullRequestId := by
  have names := inputSteps_names (by
    rw [upsertInstallation_repositories]
    exact consistent.names) ran
  have keyed := inputSteps_keyed (upsertInstallation_keyed _ _ _ consistent.keyed) ran
  have others : next.pullRequests = tables.pullRequests ∧ next.jobs = tables.jobs := by
    obtain ⟨_, rfl⟩ := inputSteps_frame ran
    simp only [upsertInstallation]
    split <;> exact ⟨rfl, rfl⟩
  refine ⟨keyed, names, ?_, ?_, ?_⟩
  · rw [others.1]
    exact consistent.pullRequests
  · rw [others.1]
    exact consistent.keys
  · rw [others.2]
    exact consistent.jobs

/-- After the listings, a report succeeds. -/
theorem settled_succeeds (injective : Function.Injective pullRequestId)
    (reports : Reports packages pullRequestId moment delivery)
    (known : ∀ repositoryId ∈ delivery.repositoryId, tables.hasRepository repositoryId = true)
    (consistent : tables.Consistent pullRequestId) :
    ∃ next, (runSteps none now 0 (delivery.lifecycleSteps installationId) tables).bind
        (runSteps none now 0 (delivery.payloadSteps packages)) = .ok next ∧
      next.Consistent pullRequestId := by
  obtain ⟨settled, settling, held⟩ := runSteps_succeeds
    (fun later => later.Consistent pullRequestId) now lifecycleSteps_accepted
    (fun _ member _ held => (lifecycleSteps_access member).2.succeeds held) 0 consistent
  have rows := (lifecycleSteps_identities settling).repositoryRow
  have stillKnown (repositoryId : Int) (named : repositoryId ∈ delivery.repositoryId) :
      settled.hasRepository repositoryId = true := by
    have before := known repositoryId named
    rw [hasRepository_row] at before ⊢
    rwa [← Option.isSome_map, rows, Option.isSome_map]
  obtain ⟨next, storing, later, _⟩ := runSteps_succeeds
    (fun later => later.Consistent pullRequestId ∧
      ∀ repositoryId ∈ delivery.repositoryId, later.hasRepository repositoryId = true)
    now reports.wellFormed
    (fun _ member _ held => by
      obtain ⟨next, wrote, kept⟩ :=
        (payloadSteps_record member).succeeds injective reports held.2 held.1
      refine ⟨next, wrote, kept, fun repositoryId named => ?_⟩
      rw [Registry.hasRepository, ((payloadSteps_record member).frame wrote).2.1]
      exact held.2 repositoryId named) 0 ⟨held, stillKnown⟩
  refine ⟨next, ?_, later⟩
  rw [settling]
  exact storing

/-- The listings of a report store the repository that it names. -/
theorem listed_known (reports : Reports packages pullRequestId moment delivery)
    (mine : delivery.installationId = some installationId)
    (ran : runSteps none now 0 (inputSteps (delivery.inputs installationId)) tables = .ok next)
    (repositoryId : Int) (named : repositoryId ∈ delivery.repositoryId) :
    next.hasRepository repositoryId = true := by
  obtain ⟨deliveryId, eventName, payload, rawBody, rfl⟩ := reports.received
  obtain ⟨input, last, _⟩ := lastInput_listed (repositoryId_listed named)
  rw [hasRepository_row, inputSteps_row (inputs_uniform _ _) ran, last]
  rfl

/-- A report is applied where its names are free and fails on a taken name elsewhere. -/
theorem delivery_outcome (now : Timestamp) (injective : Function.Injective pullRequestId)
    (reports : Reports packages pullRequestId moment delivery)
    (consistent : tables.Consistent pullRequestId) :
    (FindsNamesFree tables.toRegistry delivery ∧
        ∃ next, applyDelivery packages none now tables delivery = .ok next ∧
          next.Consistent pullRequestId) ∨
      (¬ FindsNamesFree tables.toRegistry delivery ∧
        applyDelivery packages none now tables delivery = .error (.database nameTaken)) := by
  obtain ⟨installationId, mine⟩ := Option.isSome_iff_exists.mp reports.installed
  rw [applyDelivery_eq mine]
  generalize described : upsertInstallation installationId (delivery.suppliedLogin.getD "unknown")
    delivery.accountType tables = start
  have repositories : start.repositories = tables.repositories := by
    rw [← described, upsertInstallation_repositories]
  have keyed : start.Keyed := described ▸ upsertInstallation_keyed _ _ _ consistent.keyed
  have names : (start.repositories.map RepositoryRecord.fullName).Nodup := by
    rw [repositories]
    exact consistent.names
  have installed : Installed start (delivery.inputs installationId) := by
    intro input member
    obtain ⟨_, _, parsed⟩ := List.mem_filterMap.mp member
    obtain ⟨_, _, rfl⟩ := Option.map_eq_some_iff.mp parsed
    rw [hasInstallation_row, ← described, upsertInstallation_row, if_pos rfl]
    rfl
  have free : NamesFree start.toRegistry (delivery.inputs installationId) ↔
      FindsNamesFree tables.toRegistry delivery := by
    simp only [FindsNamesFree, mine, Option.mem_some_iff, forall_eq', NamesFree, NameFree,
      RepositoryInput.fullName, Registry.repositoryRow, repositories]
  have succeeds : (∃ next, runSteps none now 0 (inputSteps (delivery.inputs installationId)) start =
        .ok next) ↔ NamesFree start.toRegistry (delivery.inputs installationId) :=
    inputSteps_free keyed names installed (inputs_uniform delivery installationId)
      (reports.distinguished mine)
  have outcome : (∃ next, runSteps none now 0 (inputSteps (delivery.inputs installationId)) start =
        .ok next) ∨ runSteps none now 0 (inputSteps (delivery.inputs installationId)) start =
          .error (.database nameTaken) := inputSteps_outcome installed
  rw [← free]
  rcases outcome with ⟨listed, ran⟩ | failed
  · refine .inl ⟨succeeds.mp ⟨listed, ran⟩, ?_⟩
    obtain ⟨next, settled, later⟩ := settled_succeeds injective reports
      (listed_known reports mine ran) (listed_consistent consistent (described ▸ ran))
    refine ⟨next, ?_, later⟩
    rw [ran]
    exact settled
  · refine .inr ⟨fun unused => ?_, by rw [failed]; rfl⟩
    obtain ⟨next, ran⟩ := succeeds.mpr unused
    rw [ran] at failed
    cases failed

end Statements

/-! ### Histories -/

/-- A delivery about a moment, with the time of its transaction. -/
structure GitHubEvent where
  moment : Moment
  now : Timestamp
  delivery : WebhookEnvelope

/-- The deliveries come in their order, and the other writers keep what they know. -/
inductive EventStep (packages : Packages) (pullRequestId : Int × Int → Int) (tables : Tables) :
    Option GitHubEvent → Tables → Prop
  | processed {event : GitHubEvent} {next : Tables}
      (reports : Reports packages pullRequestId event.moment event.delivery)
      (applied : applyDelivery packages none event.now tables event.delivery = .ok next) :
      EventStep packages pullRequestId tables (some event) next
  | failed {event : GitHubEvent} {failing : Option CallSite} {reason : RepositoryError}
      (failed : applyDelivery packages failing event.now tables event.delivery = .error reason) :
      EventStep packages pullRequestId tables (some event) tables
  | elsewhere {next : Tables} (identities : tables.SameIdentities next.toRegistry)
      (pullRequests : ∀ pullRequest ∈ next.pullRequests,
        pullRequest.githubId = pullRequestId pullRequest.key)
      (keys : (next.pullRequests.map fun pullRequest => pullRequest.key).Nodup)
      (jobs : Constrained next.jobs) : EventStep packages pullRequestId tables none next

section Histories

variable {packages : Packages} {pullRequestId : Int × Int → Int} {start tables next : Tables}
  {label : Option GitHubEvent} {history : List (Option GitHubEvent)}

theorem EventStep.consistent (step : EventStep packages pullRequestId tables label next)
    (injective : Function.Injective pullRequestId)
    (consistent : tables.Consistent pullRequestId) : next.Consistent pullRequestId := by
  cases step with
  | processed reports applied =>
      rcases delivery_outcome _ injective reports consistent with ⟨_, after, ran, kept⟩ | ⟨_, failed⟩
      · rw [applied, Except.ok.injEq] at ran
        exact ran ▸ kept
      · rw [applied] at failed
        cases failed
  | failed => exact consistent
  | elsewhere identities pullRequests keys jobs =>
      have same : ({ next with pullRequests := tables.pullRequests } : Tables).Consistent
          pullRequestId :=
        consistent.of_identities ⟨identities.installations, identities.repositories⟩ rfl jobs
      exact ⟨⟨same.keyed.installations, same.keyed.repositories⟩, same.names, pullRequests, keys,
        jobs⟩

/-- After every history, a delivery fails exactly where it finds a name taken. -/
theorem delivery_processed_iff (injective : Function.Injective pullRequestId)
    (empty : start.toRegistry = ⟨[], [], []⟩) (idle : start.jobs = [])
    (run : Run (EventStep packages pullRequestId) start history tables) (event : GitHubEvent)
    (reports : Reports packages pullRequestId event.moment event.delivery) :
    ((∀ constraint, applyDelivery packages none event.now tables event.delivery ≠
        .error (.database (.unique constraint))) ↔
      FindsNamesFree tables.toRegistry event.delivery) ∧
    ((∃ next, applyDelivery packages none event.now tables event.delivery = .ok next) ↔
      FindsNamesFree tables.toRegistry event.delivery) := by
  have initially : start.Consistent pullRequestId := by
    obtain ⟨registry, feedbackItems, checks, jobs⟩ := start
    subst empty idle
    exact ⟨⟨.nil, .nil⟩, .nil, by simp, .nil, constrained_nil⟩
  have consistent := run.invariant (fun later => later.Consistent pullRequestId) initially
    fun _ _ _ held step => step.consistent injective held
  rcases delivery_outcome event.now injective reports consistent with
    ⟨free, next, ran, _⟩ | ⟨taken, failed⟩
  · rw [ran]
    exact ⟨iff_of_true (by simp) free, iff_of_true ⟨next, rfl⟩ free⟩
  · rw [failed]
    exact ⟨iff_of_false (fun unique => unique _ rfl) taken, iff_of_false (by simp) taken⟩

end Histories

/-! ### A repository under an old name -/

/-- The list of added repositories names the one that was created again. -/
def recreatedDelivery : WebhookEnvelope :=
  .fromPayload "recreated" "installation_repositories" (.object [
    ("action", .string "added"),
    ("installation", .object [
      ("account", .object [("login", .string "acme"), ("type", .string "Organization")]),
      ("id", .ofInt 1)]),
    ("repositories_added", .array [.object [("full_name", .string "acme/web"), ("id", .ofInt 8),
      ("name", .string "web")]])]) []

def momentOf (repository : GitHubRepository) : Moment := ⟨[repository], by simp, by simp⟩

def installedEvent : GitHubEvent := ⟨momentOf ⟨7, 1, "web"⟩, 0, installationDelivery "created" 1⟩

/-- The repository is deleted and created again under its old name. -/
def recreatedEvent : GitHubEvent := ⟨momentOf ⟨8, 1, "web"⟩, 1, recreatedDelivery⟩

/-- Some numbering of all pull requests. -/
def pullRequestNumbering (key : Int × Int) : Int := Encodable.encode key

theorem pullRequestNumbering_injective : Function.Injective pullRequestNumbering :=
  fun _ _ same => Encodable.encode_injective (Int.ofNat.inj same)

theorem installed_reports : Reports plainPackages pullRequestNumbering installedEvent.moment
    installedEvent.delivery where
  received := ⟨_, _, _, _, rfl⟩
  installed := by decide
  repositories installationId mine entry member repositoryId read := by
    obtain rfl : 1 = installationId := Option.some.inj mine
    obtain rfl := List.mem_singleton.mp member
    obtain rfl : 7 = repositoryId := Option.some.inj read
    exact ⟨_, .head _, rfl, rfl, rfl⟩
  wellFormed reason member := by cases member
  pullRequests snapshot parsed := by cases parsed

theorem recreated_reports : Reports plainPackages pullRequestNumbering recreatedEvent.moment
    recreatedEvent.delivery where
  received := ⟨_, _, _, _, rfl⟩
  installed := by decide
  repositories installationId mine entry member repositoryId read := by
    obtain rfl : 1 = installationId := Option.some.inj mine
    obtain rfl := List.mem_singleton.mp member
    obtain rfl : 8 = repositoryId := Option.some.inj read
    exact ⟨_, .head _, rfl, rfl, rfl⟩
  wellFormed reason member := by cases member
  pullRequests snapshot parsed := by cases parsed

theorem delivery_processed_first :
    ((∀ constraint, applyDelivery plainPackages none 0 noTables (installationDelivery "created" 1) ≠
        .error (.database (.unique constraint))) ↔
      FindsNamesFree noTables.toRegistry (installationDelivery "created" 1)) ∧
    ((∃ next, applyDelivery plainPackages none 0 noTables (installationDelivery "created" 1) =
        .ok next) ↔
      FindsNamesFree noTables.toRegistry (installationDelivery "created" 1)) :=
  delivery_processed_iff pullRequestNumbering_injective rfl rfl .refl installedEvent installed_reports

/-- The stale row of a deleted repository takes the name of its successor. -/
theorem recreation_collides :
    ¬ ∀ (packages : Packages) (pullRequestId : Int × Int → Int) (start tables : Tables)
      (history : List (Option GitHubEvent)) (event : GitHubEvent),
      Function.Injective pullRequestId → start.toRegistry = ⟨[], [], []⟩ → start.jobs = [] →
      Run (EventStep packages pullRequestId) start history tables →
      Reports packages pullRequestId event.moment event.delivery →
      ∀ constraint, applyDelivery packages none event.now tables event.delivery ≠
        .error (.database (.unique constraint)) := by
  intro claimed
  have installed : applyDelivery plainPackages none 0 noTables (installationDelivery "created" 1) =
      .ok installedTables := installed_applied
  refine claimed plainPackages pullRequestNumbering noTables installedTables [some installedEvent]
    recreatedEvent pullRequestNumbering_injective rfl rfl
    (.single (.processed installed_reports installed)) recreated_reports
    "repositories_installation_id_owner_name_key" ?_
  decide

end PiTools
