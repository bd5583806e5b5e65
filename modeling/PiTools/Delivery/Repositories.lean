import PiTools.Control.Delivery
import PiTools.Library.Keyed
import PiTools.Library.Runs

/-
This file follows the rows of installations and repositories through a history
of deliveries.
-/

namespace PiTools

open Library

/-! ### Rows -/

def Registry.installationRow (registry : Registry) (id : Int) : Option InstallationRecord :=
  rowAt InstallationRecord.id registry.installations id

def Registry.repositoryRow (registry : Registry) (id : Int) : Option RepositoryRecord :=
  rowAt RepositoryRecord.id registry.repositories id

/-- The primary keys of both tables. -/
structure Registry.Keyed (registry : Registry) : Prop where
  installations : (registry.installations.map InstallationRecord.id).Nodup
  repositories : (registry.repositories.map RepositoryRecord.id).Nodup

/-- What the statement stores for an installation. -/
def describeInstallation (id : Int) (accountLogin accountType : String)
    (before : Option InstallationRecord) : InstallationRecord :=
  { (before.getD ⟨id, accountLogin, accountType, false⟩) with accountLogin, accountType }

/-- What the statement stores for a repository. -/
def RepositoryInput.store (input : RepositoryInput) (before : Option RepositoryRecord) :
    RepositoryRecord :=
  (before.map input.update).getD input.row

section Rows

variable {tables next : Tables} {input : RepositoryInput}

@[simp] theorem RepositoryInput.update_id (repository : RepositoryRecord) :
    (input.update repository).id = repository.id := by
  unfold RepositoryInput.update
  split <;> rfl

theorem RepositoryInput.update_other {repository : RepositoryRecord}
    (other : repository.id ≠ input.id) : input.update repository = repository :=
  if_neg other

/-- A listing names a repository anew and keeps the rest of a known row. -/
theorem RepositoryInput.store_eq {before : Option RepositoryRecord}
    (mine : ∀ repository, before = some repository → repository.id = input.id) :
    input.store before =
      { id := input.id
        installationId := (before.map RepositoryRecord.installationId).getD input.installationId
        owner := input.owner
        name := input.name
        defaultBranch := input.defaultBranch
        active := input.reactivate || (before.map RepositoryRecord.active).getD true
        policyYaml := (before.map RepositoryRecord.policyYaml).getD "" } := by
  cases before with
  | none => simp [RepositoryInput.store, RepositoryInput.row]
  | some repository =>
      have same := mine repository rfl
      cases chosen : input.reactivate <;>
        simp [RepositoryInput.store, RepositoryInput.update, same, chosen]

theorem hasInstallation_row (id : Int) :
    tables.hasInstallation id = (tables.installationRow id).isSome := rowAt_any

theorem hasRepository_row (id : Int) :
    tables.hasRepository id = (tables.repositoryRow id).isSome := rowAt_any

theorem upsertInstallation_row (id other : Int) (accountLogin accountType : String) :
    (upsertInstallation id accountLogin accountType tables).installationRow other =
      if other = id then
        some (describeInstallation id accountLogin accountType (tables.installationRow id))
      else tables.installationRow other := by
  unfold upsertInstallation
  rw [hasInstallation_row]
  cases found : tables.installationRow id with
  | none => exact rowAt_append found
  | some installation =>
      refine (rowAt_map fun row _ => by split <;> rfl).trans ?_
      rw [← Registry.installationRow]
      by_cases same : other = id
      · subst same
        simp [found, rowAt_key found, describeInstallation]
      · rw [if_neg same]
        cases present : tables.installationRow other with
        | none => rfl
        | some row => simp [rowAt_key present, same]

theorem upsertInstallation_repositories (id : Int) (accountLogin accountType : String) :
    (upsertInstallation id accountLogin accountType tables).repositories = tables.repositories := by
  unfold upsertInstallation
  split <;> rfl

theorem upsertInstallation_keyed (id : Int) (accountLogin accountType : String)
    (keyed : tables.Keyed) : (upsertInstallation id accountLogin accountType tables).Keyed := by
  unfold upsertInstallation
  rw [hasInstallation_row]
  cases found : tables.installationRow id with
  | none => exact ⟨nodup_append keyed.installations found, keyed.repositories⟩
  | some installation =>
      refine ⟨?_, keyed.repositories⟩
      have same : (tables.installations.map fun installation =>
          if installation.id = id then { installation with accountLogin, accountType }
          else installation).map InstallationRecord.id =
          tables.installations.map InstallationRecord.id := by
        rw [List.map_map]
        refine List.map_congr_left fun row _ => ?_
        simp only [Function.comp_apply]
        split <;> rfl
      exact same ▸ keyed.installations

theorem storeRepositories_eq_ok {repositories : List RepositoryRecord} :
    storeRepositories tables repositories = .ok next ↔
      (repositories.map RepositoryRecord.fullName).Nodup ∧
        { tables with repositories } = next := by
  unfold storeRepositories
  split
  · rename_i distinct
    simp [distinct]
  · rename_i repeated
    simp [repeated]

/-- The statement writes the row of its repository and nothing else. -/
theorem upsertRepositoryRow_eq_ok (wrote : upsertRepositoryRow input tables = .ok next) :
    ∃ repositories, { tables with repositories } = next ∧
      (repositories.map RepositoryRecord.fullName).Nodup ∧
      ((tables.hasRepository input.id = true ∧ repositories = tables.repositories.map input.update) ∨
        (tables.repositoryRow input.id = none ∧ repositories = tables.repositories ++ [input.row])) := by
  unfold upsertRepositoryRow at wrote
  split at wrote
  · rename_i known
    obtain ⟨distinct, same⟩ := storeRepositories_eq_ok.mp wrote
    exact ⟨_, same, distinct, .inl ⟨known, rfl⟩⟩
  · rename_i unknown
    split at wrote
    · obtain ⟨distinct, same⟩ := storeRepositories_eq_ok.mp wrote
      rw [hasRepository_row] at unknown
      exact ⟨_, same, distinct, .inr ⟨by simpa using unknown, rfl⟩⟩
    · cases wrote

theorem upsertRepositoryRow_row (wrote : upsertRepositoryRow input tables = .ok next)
    (other : Int) : next.repositoryRow other =
      if other = input.id then some (input.store (tables.repositoryRow other))
      else tables.repositoryRow other := by
  obtain ⟨repositories, rfl, _, ⟨known, rfl⟩ | ⟨unknown, rfl⟩⟩ := upsertRepositoryRow_eq_ok wrote
  · refine (rowAt_map fun row _ => RepositoryInput.update_id row).trans ?_
    rw [← Registry.repositoryRow]
    cases found : tables.repositoryRow other with
    | none =>
        have apart : other ≠ input.id := by
          rintro rfl
          rw [hasRepository_row, found] at known
          cases known
        simp [apart]
    | some repository =>
        by_cases same : other = input.id
        · simp [same, RepositoryInput.store]
        · simp [same, RepositoryInput.update_other (rowAt_key found ▸ same)]
  · have fresh : rowAt RepositoryRecord.id tables.repositories input.row.id = none := unknown
    refine (rowAt_append fresh).trans ?_
    by_cases same : other = input.id
    · subst same
      simp [unknown, RepositoryInput.store, RepositoryInput.row]
    · rw [if_neg same, if_neg (show ¬ other = input.row.id from same)]
      rfl

theorem upsertRepositoryRow_keyed (keyed : tables.Keyed)
    (wrote : upsertRepositoryRow input tables = .ok next) : next.Keyed := by
  obtain ⟨repositories, rfl, _, ⟨_, rfl⟩ | ⟨unknown, rfl⟩⟩ := upsertRepositoryRow_eq_ok wrote
  · refine ⟨keyed.installations, ?_⟩
    have same : (tables.repositories.map input.update).map RepositoryRecord.id =
        tables.repositories.map RepositoryRecord.id := by
      rw [List.map_map]
      exact List.map_congr_left fun row _ => RepositoryInput.update_id row
    exact same ▸ keyed.repositories
  · exact ⟨keyed.installations, nodup_append keyed.repositories unknown⟩

end Rows

/-! ### Listings -/

/-- The last listing of a repository in a delivery. -/
def lastInput (inputs : List RepositoryInput) (id : Int) : Option RepositoryInput :=
  (inputs.filter fun input => input.id = id).getLast?

def inputSteps (inputs : List RepositoryInput) : List ApplyStep :=
  inputs.map fun input => .statement fun _ => upsertRepositoryRow input

/-- The listings of one delivery agree on all but the names. -/
def Uniform (inputs : List RepositoryInput) : Prop :=
  ∀ input ∈ inputs, ∀ other ∈ inputs,
    input.installationId = other.installationId ∧ input.reactivate = other.reactivate

section Listings

variable {tables next : Tables} {inputs : List RepositoryInput} {input : RepositoryInput}
  {now : Timestamp}

theorem lastInput_snoc (inputs : List RepositoryInput) (input : RepositoryInput) (id : Int) :
    lastInput (inputs ++ [input]) id =
      if input.id = id then some input else lastInput inputs id := by
  unfold lastInput
  by_cases same : input.id = id <;> simp [same]

theorem lastInput_mem {id : Int} (last : lastInput inputs id = some input) :
    input ∈ inputs ∧ input.id = id := by
  simpa using List.mem_of_getLast? last

theorem lastInput_eq_none {id : Int} :
    lastInput inputs id = none ↔ id ∉ inputs.map RepositoryInput.id := by
  rw [lastInput, List.getLast?_eq_none_iff, List.filter_eq_nil_iff]
  simp

/-- A later listing overrides an earlier one. -/
theorem RepositoryInput.store_store {earlier later : RepositoryInput} {id : Int}
    {before : Option RepositoryRecord} (mine : earlier.id = id) (also : later.id = id)
    (installation : later.installationId = earlier.installationId)
    (reactivate : later.reactivate = earlier.reactivate)
    (keyed : ∀ repository, before = some repository → repository.id = id) :
    later.store (some (earlier.store before)) = later.store before := by
  cases before with
  | none =>
      simp [RepositoryInput.store, RepositoryInput.update, RepositoryInput.row, mine, also,
        installation]
  | some repository =>
      have same := keyed repository rfl
      cases chosen : earlier.reactivate <;>
        simp [RepositoryInput.store, RepositoryInput.update, mine, also, same, reactivate, chosen]

theorem Uniform.initial {inputs : List RepositoryInput} (uniform : Uniform (inputs ++ [input])) :
    Uniform inputs :=
  fun first member second also => uniform first (List.mem_append_left _ member) second
    (List.mem_append_left _ also)

theorem inputSteps_snoc (inputs : List RepositoryInput) (input : RepositoryInput)
    (tables : Tables) : runSteps none now 0 (inputSteps (inputs ++ [input])) tables = .ok next ↔
      ∃ between, runSteps none now 0 (inputSteps inputs) tables = .ok between ∧
        upsertRepositoryRow input between = .ok next := by
  rw [inputSteps, List.map_append, runSteps_append]
  cases ran : runSteps none now 0 (inputSteps inputs) tables with
  | error reason =>
      rw [inputSteps] at ran
      simp [ran, Except.bind]
  | ok between =>
      rw [inputSteps] at ran
      rw [ran]
      simp only [Except.bind, List.map_cons, List.map_nil, runSteps, reduceCtorEq, if_false,
        Except.ok.injEq, exists_eq_left']
      cases upsertRepositoryRow input between <;> simp

/-- The row of a repository is decided by its last listing. -/
theorem inputSteps_row (uniform : Uniform inputs)
    (ran : runSteps none now 0 (inputSteps inputs) tables = .ok next) (id : Int) :
    next.repositoryRow id = (lastInput inputs id).elim (tables.repositoryRow id) fun input =>
      some (input.store (tables.repositoryRow id)) := by
  induction inputs using List.reverseRecOn generalizing next with
  | nil =>
      cases ran
      rfl
  | append_singleton inputs input ih =>
      obtain ⟨between, earlier, last⟩ := (inputSteps_snoc inputs input tables).mp ran
      have before := ih uniform.initial earlier
      rw [upsertRepositoryRow_row last, lastInput_snoc]
      by_cases mine : id = input.id
      · subst mine
        rw [if_pos rfl, if_pos rfl, before]
        cases listed : lastInput inputs input.id with
        | none => rfl
        | some first =>
            obtain ⟨member, same⟩ := lastInput_mem listed
            obtain ⟨installation, reactivate⟩ := uniform input (by simp) first (by simp [member])
            exact congrArg some (RepositoryInput.store_store same rfl installation reactivate
              fun repository found => rowAt_key found)
      · rw [if_neg mine, if_neg (Ne.symm mine), before]

/-- Listings change no other table. -/
theorem inputSteps_frame (ran : runSteps none now 0 (inputSteps inputs) tables = .ok next) :
    ∃ repositories, { tables with repositories } = next := by
  refine runSteps_keeps (fun later => ∃ repositories, { tables with repositories } = later) ?_ 0
    ⟨tables.repositories, rfl⟩ ran
  rintro run member before after ⟨_, rfl⟩ wrote
  obtain ⟨input, _, same⟩ := List.mem_map.mp member
  obtain rfl := ApplyStep.statement.inj same
  obtain ⟨repositories, rfl, _⟩ := upsertRepositoryRow_eq_ok wrote
  exact ⟨repositories, rfl⟩

end Listings

/-! ### Deliveries -/

/-- The columns of a repository that only a listing writes. -/
def RepositoryRecord.identity (repository : RepositoryRecord) : RepositoryRecord :=
  { repository with active := true, policyYaml := "" }

/-- The columns of an installation that only its upsert writes. -/
def InstallationRecord.identity (installation : InstallationRecord) : InstallationRecord :=
  { installation with suspended := false }

structure Registry.SameIdentities (registry next : Registry) : Prop where
  installations : next.installations.map InstallationRecord.identity =
    registry.installations.map InstallationRecord.identity
  repositories : next.repositories.map RepositoryRecord.identity =
    registry.repositories.map RepositoryRecord.identity

def WebhookEnvelope.inputs (delivery : WebhookEnvelope) (installationId : Int) :
    List RepositoryInput :=
  delivery.listedRepositories.filterMap (delivery.repositoryInput installationId)

/-- The login of the account, where the payload has one. -/
def WebhookEnvelope.suppliedLogin (delivery : WebhookEnvelope) : Option String :=
  ((delivery.payload.pointer ["installation", "account", "login"]).bind Json.asStr).or
    ((delivery.payload.pointer ["organization", "login"]).bind Json.asStr)

def suppliedOwner (repository : Json) : Option String :=
  (repository.pointer ["owner", "login"]).bind Json.asStr

def suppliedBranch (repository : Json) : Option String :=
  (repository.get "default_branch").bind Json.asStr

def WebhookEnvelope.accountType (delivery : WebhookEnvelope) : String :=
  ((delivery.payload.pointer ["installation", "account", "type"]).bind Json.asStr).getD "Unknown"

section Deliveries

variable {packages : Packages} {tables next : Tables} {delivery : WebhookEnvelope}
  {installationId : Int} {now : Timestamp}
  {run : Timestamp → Tables → Except StorageError Tables}

theorem Registry.SameIdentities.refl (registry : Registry) : registry.SameIdentities registry :=
  ⟨rfl, rfl⟩

theorem Registry.SameIdentities.trans {registry middle last : Registry}
    (first : registry.SameIdentities middle) (second : middle.SameIdentities last) :
    registry.SameIdentities last :=
  ⟨second.installations.trans first.installations, second.repositories.trans first.repositories⟩

theorem Registry.SameIdentities.installationRow {registry next : Registry}
    (same : registry.SameIdentities next) (id : Int) :
    (next.installationRow id).map InstallationRecord.identity =
      (registry.installationRow id).map InstallationRecord.identity :=
  rowAt_column InstallationRecord.identity InstallationRecord.id (fun _ => rfl) same.installations

theorem Registry.SameIdentities.repositoryRow {registry next : Registry}
    (same : registry.SameIdentities next) (id : Int) :
    (next.repositoryRow id).map RepositoryRecord.identity =
      (registry.repositoryRow id).map RepositoryRecord.identity :=
  rowAt_column RepositoryRecord.identity RepositoryRecord.id (fun _ => rfl) same.repositories

theorem Registry.SameIdentities.keyed {registry next : Registry}
    (same : registry.SameIdentities next) (keyed : registry.Keyed) : next.Keyed := by
  have installations := congrArg (List.map InstallationRecord.id) same.installations
  have repositories := congrArg (List.map RepositoryRecord.id) same.repositories
  rw [List.map_map, List.map_map] at installations repositories
  constructor
  · exact installations ▸ keyed.installations
  · exact repositories ▸ keyed.repositories

/-- A change of access keeps every identity. -/
theorem AccessStatement.identities (statement : AccessStatement run)
    (wrote : run now tables = .ok next) : tables.SameIdentities next.toRegistry := by
  cases statement with
  | suspension id suspended =>
      cases wrote
      refine ⟨?_, rfl⟩
      rw [suspendInstallation, List.map_map]
      refine List.map_congr_left fun row _ => ?_
      simp only [Function.comp_apply]
      split <;> rfl
  | deactivation chosen =>
      cases wrote
      refine ⟨rfl, ?_⟩
      rw [deactivateRepositories, List.map_map]
      refine List.map_congr_left fun row _ => ?_
      simp only [Function.comp_apply]
      split <;> rfl
  | unwatching chosen blind =>
      cases wrote
      exact ⟨rfl, rfl⟩
  | cancellation update cancels =>
      simp only [updateJobs] at wrote
      split at wrote <;> cases wrote
      exact ⟨rfl, rfl⟩

/-- The records of the payload touch neither installations nor repositories nor jobs. -/
theorem RecordStatement.frame (statement : RecordStatement packages delivery run)
    (wrote : run now tables = .ok next) : next.installations = tables.installations ∧
      next.repositories = tables.repositories ∧ next.jobs = tables.jobs := by
  cases statement with
  | snapshot snapshot parsed =>
      simp only [upsertPullRequestOn, storePullRequests] at wrote
      split at wrote
      · split at wrote <;> cases wrote
        exact ⟨rfl, rfl, rfl⟩
      · split at wrote
        · split at wrote <;> cases wrote
          exact ⟨rfl, rfl, rfl⟩
        · cases wrote
  | feedback repositoryId number feedback named =>
      simp only [upsertFeedbackOn] at wrote
      split at wrote
      · cases wrote
        exact ⟨rfl, rfl, rfl⟩
      · split at wrote <;> cases wrote
        exact ⟨rfl, rfl, rfl⟩
  | check repositoryId number check named =>
      simp only [upsertCheckOn] at wrote
      split at wrote
      · cases wrote
        exact ⟨rfl, rfl, rfl⟩
      · split at wrote <;> cases wrote
        exact ⟨rfl, rfl, rfl⟩

theorem lifecycleSteps_identities
    (ran : runSteps none now 0 (delivery.lifecycleSteps installationId) tables = .ok next) :
    tables.SameIdentities next.toRegistry :=
  runSteps_keeps (fun later => tables.SameIdentities later.toRegistry)
    (fun _ member _ _ held wrote =>
      held.trans ((lifecycleSteps_access member).2.identities wrote)) 0 (.refl _) ran

theorem payloadSteps_frame
    (ran : runSteps none now 0 (delivery.payloadSteps packages) tables = .ok next) :
    next.installations = tables.installations ∧ next.repositories = tables.repositories ∧
      next.jobs = tables.jobs :=
  runSteps_keeps (fun later => later.installations = tables.installations ∧
      later.repositories = tables.repositories ∧ later.jobs = tables.jobs)
    (fun _ member _ _ held wrote => by
      obtain ⟨installations, repositories, jobs⟩ := (payloadSteps_record member).frame wrote
      exact ⟨installations.trans held.1, repositories.trans held.2.1, jobs.trans held.2.2⟩)
    0 ⟨rfl, rfl, rfl⟩ ran

theorem inputs_uniform (delivery : WebhookEnvelope) (installationId : Int) :
    Uniform (delivery.inputs installationId) := by
  have known (input : RepositoryInput) (member : input ∈ delivery.inputs installationId) :
      input.installationId = installationId ∧ input.reactivate = delivery.reactivates := by
    obtain ⟨repository, _, parsed⟩ := List.mem_filterMap.mp member
    obtain ⟨id, _, rfl⟩ := Option.map_eq_some_iff.mp parsed
    exact ⟨rfl, rfl⟩
  intro input member other also
  exact ⟨(known input member).1.trans (known other also).1.symm,
    (known input member).2.trans (known other also).2.symm⟩

theorem accessSteps_eq (mine : delivery.installationId = some installationId) :
    delivery.accessSteps =
      .write (upsertInstallation installationId (delivery.suppliedLogin.getD "unknown")
        delivery.accountType) ::
      (inputSteps (delivery.inputs installationId) ++ delivery.lifecycleSteps installationId) := by
  simp only [WebhookEnvelope.accessSteps, mine]
  rfl

/-- A delivery lists its repositories, changes the access and stores its records. -/
theorem applyDelivery_eq (mine : delivery.installationId = some installationId) :
    applyDelivery packages none now tables delivery =
      ((runSteps none now 0 (inputSteps (delivery.inputs installationId))
        (upsertInstallation installationId (delivery.suppliedLogin.getD "unknown")
          delivery.accountType tables)).bind
        (runSteps none now 0 (delivery.lifecycleSteps installationId))).bind
          (runSteps none now 0 (delivery.payloadSteps packages)) := by
  rw [applyDelivery, applySteps_eq, accessSteps_eq mine, List.cons_append]
  simp only [ApplyStep.write, runSteps, reduceCtorEq, if_false]
  rw [runSteps_index now _ 0, runSteps_append, runSteps_append]

theorem applyDelivery_phases (mine : delivery.installationId = some installationId)
    (applied : applyDelivery packages none now tables delivery = .ok next) : ∃ listed settled,
      runSteps none now 0 (inputSteps (delivery.inputs installationId))
        (upsertInstallation installationId (delivery.suppliedLogin.getD "unknown")
          delivery.accountType tables) = .ok listed ∧
      runSteps none now 0 (delivery.lifecycleSteps installationId) listed = .ok settled ∧
      runSteps none now 0 (delivery.payloadSteps packages) settled = .ok next := by
  rw [applyDelivery_eq mine] at applied
  obtain ⟨settled, settling, storing⟩ := bind_eq_ok.mp applied
  obtain ⟨listed, listing, settling⟩ := bind_eq_ok.mp settling
  exact ⟨listed, settled, listing, settling, storing⟩

/-- Without an installation only the records of the payload are stored. -/
theorem applyDelivery_unnamed (unnamed : delivery.installationId = none)
    (applied : applyDelivery packages none now tables delivery = .ok next) :
    next.installations = tables.installations ∧ next.repositories = tables.repositories ∧
      next.jobs = tables.jobs := by
  rw [applyDelivery, applySteps_eq, WebhookEnvelope.accessSteps, unnamed, List.nil_append] at applied
  exact payloadSteps_frame applied

end Deliveries

/-! ### Cancellations -/

/-- The jobs after a statement that cancels those with the condition. -/
def cancelJobs (chosen : Job → Bool) (jobs : List Job) : List Job :=
  jobs.map fun job => if chosen job then job.cancel else job

theorem constrained_cancelJobs {jobs : List Job} (chosen : Job → Bool)
    (constrained : Constrained jobs) : Constrained (cancelJobs chosen jobs) := by
  have rows : List.Forall₂ (fun job job' => job' = if chosen job then job.cancel else job) jobs
      (cancelJobs chosen jobs) := by
    rw [cancelJobs, List.forall₂_map_right_iff]
    exact List.forall₂_same.mpr fun _ _ => rfl
  constructor
  · intro job' member
    obtain ⟨job, inside, rfl⟩ := List.mem_map.mp member
    have bounds := constrained.bounds job inside
    by_cases met : chosen job = true
    · rw [if_pos met]
      exact bounds
    · rwa [if_neg met]
  · rw [forall₂_map_eq Job.id rows fun job job' same => by subst same; split <;> rfl]
    exact constrained.ids
  · refine forall₂_selected_nodup Job.deduplicationKey Job.active rows ?_ ?_ constrained.identities
    · rintro job job' rfl
      split <;> rfl
    · rintro job job' rfl active
      split at active
      · cases active
      · exact active
  · have same := forall₂_map_eq Job.checkRunId rows fun job job' same => by subst same; split <;> rfl
    have columns := congrArg (List.filterMap id) same
    simp only [List.filterMap_map, Function.id_comp] at columns
    rw [columns]
    exact constrained.checkRuns

/-- A cancellation on constrained jobs always succeeds. -/
theorem updateJobs_cancel {tables : Tables} (constrained : Constrained tables.jobs)
    (update : Update) (now : Timestamp)
    (cancels : ∀ job, update.guard job = true → update.change job = .ok job.cancel) :
    updateJobs update now tables = .ok { tables with jobs := cancelJobs update.guard tables.jobs } := by
  have stored : storeJobs (cancelJobs update.guard tables.jobs) =
      .ok (cancelJobs update.guard tables.jobs) :=
    storeJobs_ok.mpr ⟨rfl, constrained_cancelJobs update.guard constrained⟩
  have updated : updateRows update.guard update.change (tables.database now).jobs =
      .ok (cancelJobs update.guard tables.jobs, tables.jobs.countP update.guard) :=
    updateRows_map cancels tables.jobs
  simp only [updateJobs, Update.execute, updated, stored]

/-! ### Histories -/

/-- The statement that the reconciliation runs for the policy. -/
def savePolicy (repositoryId : Int) (policyYaml : String) (tables : Tables) : Tables :=
  { tables with
    repositories := tables.repositories.map fun repository =>
      if repository.id = repositoryId then { repository with policyYaml } else repository }

inductive RegistryAction
  | process (now : Timestamp) (delivery : WebhookEnvelope)
  | fail (now : Timestamp) (delivery : WebhookEnvelope)
  | savePolicy (repositoryId : Int) (policyYaml : String)
  | elsewhere

/-- A delivery commits all of its statements or none. -/
inductive RegistryStep (packages : Packages) (tables : Tables) : RegistryAction → Tables → Prop
  | processed {now : Timestamp} {delivery : WebhookEnvelope} {next : Tables}
      (applied : applyDelivery packages none now tables delivery = .ok next) :
      RegistryStep packages tables (.process now delivery) next
  | failed {now : Timestamp} {delivery : WebhookEnvelope} {failing : Option CallSite}
      {reason : RepositoryError}
      (failed : applyDelivery packages failing now tables delivery = .error reason) :
      RegistryStep packages tables (.fail now delivery) tables
  | savedPolicy (repositoryId : Int) (policyYaml : String) :
      RegistryStep packages tables (.savePolicy repositoryId policyYaml)
        (savePolicy repositoryId policyYaml tables)
  | elsewhere {next : Tables} (installations : next.installations = tables.installations)
      (repositories : next.repositories = tables.repositories) :
      RegistryStep packages tables .elsewhere next

section Histories

variable {packages : Packages} {start tables next : Tables} {action : RegistryAction}
  {history : List RegistryAction}

theorem savePolicy_identities (repositoryId : Int) (policyYaml : String) (tables : Tables) :
    tables.SameIdentities (savePolicy repositoryId policyYaml tables).toRegistry := by
  refine ⟨rfl, ?_⟩
  rw [savePolicy, List.map_map]
  refine List.map_congr_left fun row _ => ?_
  simp only [Function.comp_apply]
  split <;> rfl

theorem same_identities (installations : next.installations = tables.installations)
    (repositories : next.repositories = tables.repositories) :
    tables.SameIdentities next.toRegistry :=
  ⟨by rw [installations], by rw [repositories]⟩

theorem inputSteps_keyed {now : Timestamp} {inputs : List RepositoryInput}
    (keyed : tables.Keyed) (ran : runSteps none now 0 (inputSteps inputs) tables = .ok next) :
    next.Keyed := by
  refine runSteps_keeps (fun later => later.Keyed) ?_ 0 keyed ran
  intro run member before after held wrote
  obtain ⟨input, _, same⟩ := List.mem_map.mp member
  obtain rfl := ApplyStep.statement.inj same
  exact upsertRepositoryRow_keyed held wrote

theorem applyDelivery_keyed {now : Timestamp} {delivery : WebhookEnvelope} (keyed : tables.Keyed)
    (applied : applyDelivery packages none now tables delivery = .ok next) : next.Keyed := by
  cases named : delivery.installationId with
  | none =>
      obtain ⟨installations, repositories, _⟩ := applyDelivery_unnamed named applied
      exact (same_identities installations repositories).keyed keyed
  | some installationId =>
      obtain ⟨listed, settled, listing, settling, storing⟩ := applyDelivery_phases named applied
      obtain ⟨installations, repositories, _⟩ := payloadSteps_frame storing
      have before := inputSteps_keyed (upsertInstallation_keyed _ _ _ keyed) listing
      exact ((lifecycleSteps_identities settling).trans
        (same_identities installations repositories)).keyed before

theorem RegistryStep.keyed (step : RegistryStep packages tables action next)
    (keyed : tables.Keyed) : next.Keyed := by
  cases step with
  | processed applied => exact applyDelivery_keyed keyed applied
  | failed => exact keyed
  | savedPolicy repositoryId policyYaml =>
      exact (savePolicy_identities repositoryId policyYaml tables).keyed keyed
  | elsewhere installations repositories =>
      exact (same_identities installations repositories).keyed keyed

/-- No history stores two rows with one id. -/
theorem history_keyed (keyed : start.Keyed) (run : Run (RegistryStep packages) start history tables) :
    tables.Keyed :=
  run.invariant (fun later => later.Keyed) keyed fun _ _ _ held step => step.keyed held

end Histories

/-! ### Contexts -/

/-- The row that the statement returns for the repository. -/
def repositoryContext (repositoryId : Int) (tables : Tables) : Option RepositoryRecord :=
  tables.toRegistry.repository repositoryId

/-- The installation is stored and not suspended. -/
def Registry.serves (registry : Registry) (installationId : Int) : Bool :=
  (registry.installationRow installationId).any fun installation => installation.suspended = false

section Contexts

variable {tables : Tables} {repository : RepositoryRecord}

theorem serves_eq (keyed : tables.Keyed) (installationId : Int) :
    (tables.installations.any fun installation =>
      installation.id = installationId && installation.suspended = false) =
        tables.serves installationId :=
  rowAt_any_and keyed.installations fun installation => installation.suspended = false

/-- The context is the active row of an installation that serves it. -/
theorem repositoryContext_eq (keyed : tables.Keyed) (repositoryId : Int) :
    repositoryContext repositoryId tables = (tables.repositoryRow repositoryId).filter
      fun repository => repository.active && tables.serves repository.installationId := by
  rw [repositoryContext, Registry.repository, Registry.repositoryRow, ← rowAt_filter keyed.repositories]
  simp only [serves_eq keyed, Bool.and_assoc]

end Contexts

end PiTools
